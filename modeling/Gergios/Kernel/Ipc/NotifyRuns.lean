import Gergios.Kernel.Ipc.DeadlockRuns
import Gergios.Lib.Ledger

/-!
# Interrupts and kernel signals on their way to a process

The payload of a notification collects in `s_int_pending` and `s_sig_pending`; the wake-up is
a bit of `s_notify_pending`. Neither goes without the other: what is pending is announced,
and every message from `HARDWARE` or `SYSTEM` carries what was raised since the one before.
An interrupt is known by its `notify_id`, and the bit for it is shifted in an `int`, so the ids
from 31 up come out as others.
-/

namespace Gergios.Kernel

open Lib List

def Message.interrupts (m : Message) : BitVec 64 :=
  match m.payload with
  | .notify _ interrupts _ => interrupts
  | .data _ => 0

def Message.sigset (m : Message) : Finset Nat :=
  match m.payload with
  | .notify _ _ sigset => sigset
  | .data _ => ∅

/-- The ids that a word of pending interrupts stands for. -/
def idSet (w : BitVec 64) : Finset Nat := {id ∈ Finset.range 64 | w.getLsbD id}

theorem idSet_zero : idSet 0 = ∅ := by simp [idSet]

theorem idSet_or (v w : BitVec 64) : idSet (v ||| w) = idSet v ∪ idSet w := by
  simp [idSet, Finset.filter_or]

theorem idSet_irqMask {id : Nat} (h : id ≤ 30) : idSet (irqMask id) = {id} := by
  have hall : ∀ i : Fin 31, idSet (irqMask i) = {i.val} := by decide +kernel
  exact hall ⟨id, by omega⟩

variable (k : PrivId)

def intEntry : Event → Option (Entry (Finset Nat))
  | .irqRaised dst id => if dst = k then some (.raised {id}) else none
  | .notified src dst m =>
    if dst = k ∧ src = hardware then some (.reported (idSet m.interrupts)) else none
  | _ => none

def sigEntry : Event → Option (Entry (Finset Nat))
  | .sigRaised dst sig => if dst = k then some (.raised {sig}) else none
  | .notified src dst m => if dst = k ∧ src = systemNr then some (.reported m.sigset) else none
  | _ => none

def Event.isSilent : Event → Bool
  | .irqRaised .. | .sigRaised .. | .notified .. => false
  | _ => true

variable {s t u : State} {caller dst rp : Slot}

/-- Pending interrupts and signals are those due, and every message carries what was due. -/
structure Ledger (s : State) : Prop where
  ints : ∀ k, Balanced (· ∪ ·) ∅ (s.log.filterMap (intEntry k)) (idSet (s.priv k).intPending)
  sigs : ∀ k, Balanced (· ∪ ·) ∅ (s.log.filterMap (sigEntry k)) (s.priv k).sigPending
  others : ∀ src k m, .notified src k m ∈ s.log →
    (src ≠ hardware → m.interrupts = 0) ∧ (src ≠ systemNr → m.sigset = ∅)

structure Flagged (s : State) : Prop where
  int : ∀ k, (s.priv k).intPending ≠ 0 → (s.privOf hardwareSlot).id ∈ (s.priv k).notifyPending
  sig : ∀ k, (s.priv k).sigPending ≠ ∅ → (s.privOf systemSlot).id ∈ (s.priv k).notifyPending

structure TasksOk (s : State) : Prop where
  hardwareNr : (s.proc hardwareSlot).nr = hardware
  systemNr : (s.proc systemSlot).nr = systemNr
  hardwareId : (s.priv (s.privOf hardwareSlot).id).procNr = hardware
  systemId : (s.priv (s.privOf systemSlot).id).procNr = Kernel.systemNr

structure SameDue (s t : State) : Prop where
  int : ∀ k, (t.priv k).intPending = (s.priv k).intPending
  sig : ∀ k, (t.priv k).sigPending = (s.priv k).sigPending
  log : ∃ l, t.log = l ++ s.log ∧ ∀ ev ∈ l, ev.isSilent

structure SameNotes (s t : State) : Prop extends SameDue s t where
  notify : ∀ k, (t.priv k).notifyPending = (s.priv k).notifyPending

theorem Steady.privOf_id (hs : Steady s t) (i : Slot) : (t.privOf i).id = (s.privOf i).id := by
  rw [State.privOf, State.privOf, (hs.proc i).priv, (hs.priv _).id]

theorem TasksOk.congr (h : TasksOk s) (hs : Steady s t) : TasksOk t := by
  refine ⟨?_, ?_, ?_, ?_⟩
  · rw [(hs.proc _).nr, h.hardwareNr]
  · rw [(hs.proc _).nr, h.systemNr]
  · rw [hs.privOf_id, (hs.priv _).procNr, h.hardwareId]
  · rw [hs.privOf_id, (hs.priv _).procNr, h.systemId]

theorem SameNotes.of_priv (hpriv : t.priv = s.priv) {l : List Event} (hlog : t.log = l ++ s.log)
    (hl : ∀ ev ∈ l, ev.isSilent) : SameNotes s t where
  int k := by rw [hpriv]
  sig k := by rw [hpriv]
  notify k := by rw [hpriv]
  log := ⟨l, hlog, hl⟩

theorem SameNotes.modPrivOf (s : State) (i : Slot) {f : Priv → Priv}
    (hf : ∀ p : Priv, (f p).intPending = p.intPending ∧ (f p).sigPending = p.sigPending ∧
      (f p).notifyPending = p.notifyPending) : SameNotes s (s.modPrivOf i f) := by
  refine ⟨⟨fun k => ?_, fun k => ?_, [], rfl, by simp⟩, fun k => ?_⟩ <;> rw [modPrivOf_priv] <;>
    split <;> simp [hf]

theorem filterMap_silent {β : Type} {f : Event → Option β} (hf : ∀ ev, ev.isSilent → f ev = none)
    {l log : List Event} (hl : ∀ ev ∈ l, ev.isSilent) :
    (l ++ log).filterMap f = log.filterMap f := by
  rw [filterMap_append, filterMap_eq_nil_iff.mpr fun ev hev => hf ev (hl ev hev), nil_append]

theorem intEntry_silent (ev : Event) (h : ev.isSilent) : intEntry k ev = none := by
  cases ev <;> first | rfl | cases h

theorem sigEntry_silent (ev : Event) (h : ev.isSilent) : sigEntry k ev = none := by
  cases ev <;> first | rfl | cases h

theorem Ledger.congr (h : Ledger s) (hs : SameDue s t) : Ledger t := by
  obtain ⟨l, hlog, hl⟩ := hs.log
  refine ⟨fun k => ?_, fun k => ?_, fun src k m hm => ?_⟩
  · rw [hs.int, hlog, filterMap_silent (intEntry_silent k) hl]
    exact h.ints k
  · rw [hs.sig, hlog, filterMap_silent (sigEntry_silent k) hl]
    exact h.sigs k
  · rw [hlog, mem_append] at hm
    rcases hm with hm | hm
    · cases hl _ hm
    · exact h.others src k m hm

/-! ## What is raised and what is reported -/

theorem raiseIrq_fields (s : State) (rp : Slot) (id : Nat) (k : PrivId) :
    ((raiseIrq s rp id).priv k).intPending = (if k = (s.proc rp).priv then
      (s.priv k).intPending ||| irqMask id else (s.priv k).intPending) ∧
    ((raiseIrq s rp id).priv k).sigPending = (s.priv k).sigPending ∧
    ((raiseIrq s rp id).priv k).notifyPending = (s.priv k).notifyPending := by
  by_cases h : k = (s.proc rp).priv <;> simp [raiseIrq, modPrivOf_priv, h]

theorem raiseSig_fields (s : State) (rp : Slot) (sig : Nat) (k : PrivId) :
    ((raiseSig s rp sig).priv k).intPending = (s.priv k).intPending ∧
    ((raiseSig s rp sig).priv k).sigPending =
      (if k = (s.proc rp).priv then insert sig (s.priv k).sigPending else (s.priv k).sigPending) ∧
    ((raiseSig s rp sig).priv k).notifyPending = (s.priv k).notifyPending := by
  by_cases h : k = (s.proc rp).priv <;> simp [raiseSig, modPrivOf_priv, h]

theorem raiseIrq_ledger (h : Ledger s) (rp : Slot) {id : Nat} (hid : id ≤ 30) :
    Ledger (raiseIrq s rp id) := by
  have hlog : (raiseIrq s rp id).log = .irqRaised (s.proc rp).priv id :: s.log := rfl
  refine ⟨fun k => ?_, fun k => ?_, fun src k m hm => ?_⟩
  · rw [(raiseIrq_fields s rp id k).1]
    apply (h.ints k).cons
    by_cases hk : k = (s.proc rp).priv
    · rw [intEntry, if_pos hk.symm, if_pos hk, idSet_or, idSet_irqMask hid]
      exact .raised _
    · rw [intEntry, if_neg (Ne.symm hk), if_neg hk]
      exact .none
  · rw [(raiseIrq_fields s rp id k).2.1]
    exact (h.sigs k).cons .none
  · rw [hlog, mem_cons] at hm
    exact h.others src k m (hm.resolve_left nofun)

theorem raiseSig_ledger (h : Ledger s) (rp : Slot) (sig : Nat) : Ledger (raiseSig s rp sig) := by
  have hlog : (raiseSig s rp sig).log = .sigRaised (s.proc rp).priv sig :: s.log := rfl
  refine ⟨fun k => ?_, fun k => ?_, fun src k m hm => ?_⟩
  · rw [(raiseSig_fields s rp sig k).1]
    exact (h.ints k).cons .none
  · rw [(raiseSig_fields s rp sig k).2.1]
    apply (h.sigs k).cons
    by_cases hk : k = (s.proc rp).priv
    · rw [sigEntry, if_pos hk.symm, if_pos hk, Finset.insert_eq, Finset.union_comm]
      exact .raised _
    · rw [sigEntry, if_neg (Ne.symm hk), if_neg hk]
      exact .none
  · rw [hlog, mem_cons] at hm
    exact h.others src k m (hm.resolve_left nofun)

theorem deliverNotify_fields (s : State) (src : Int) (e : Endpoint) (dst : Slot) (k : PrivId) :
    ((deliverNotify s src e dst).priv k).intPending =
      (if k = (s.proc dst).priv ∧ src = hardware then 0 else (s.priv k).intPending) ∧
    ((deliverNotify s src e dst).priv k).sigPending =
      (if k = (s.proc dst).priv ∧ src = systemNr then ∅ else (s.priv k).sigPending) ∧
    ((deliverNotify s src e dst).priv k).notifyPending = (s.priv k).notifyPending := by
  rw [deliverNotify_priv]
  by_cases h : k = (s.proc dst).priv
  · simp [h, Priv.takePending_fields]
  · simp [h]

theorem notifyPayload_fields (s : State) (src : Int) (e : Endpoint) (dst : Slot) :
    (⟨e, notifyMessage, notifyPayload s src dst⟩ : Message).interrupts =
      (if src = hardware then (s.privOf dst).intPending else 0) ∧
    (⟨e, notifyMessage, notifyPayload s src dst⟩ : Message).sigset =
      (if src = systemNr then (s.privOf dst).sigPending else ∅) := by
  simp only [Message.interrupts, Message.sigset, notifyPayload]
  by_cases h : src = hardware
  · simp [h, hardware, systemNr]
  · by_cases h' : src = systemNr
    · simp [h', hardware, systemNr]
    · simp [h, h']

theorem deliverNotify_ledger (h : Ledger s) (src : Int) (e : Endpoint) (dst : Slot) :
    Ledger (deliverNotify s src e dst) := by
  obtain ⟨m, hm, hlog⟩ : ∃ m : Message, m = ⟨e, notifyMessage, notifyPayload s src dst⟩ ∧
      (deliverNotify s src e dst).log = .notified src (s.proc dst).priv m :: s.log := ⟨_, rfl, rfl⟩
  obtain ⟨hints, hsigs⟩ := notifyPayload_fields s src e dst
  rw [← hm] at hints hsigs
  have hfields := deliverNotify_fields s src e dst
  refine ⟨fun k => ?_, fun k => ?_, fun src' k m' hm' => ?_⟩
  · rw [hlog, (hfields k).1]
    apply (h.ints k).cons
    by_cases hk : k = (s.proc dst).priv ∧ src = hardware
    · obtain ⟨rfl, hsrc⟩ := hk
      rw [intEntry, if_pos ⟨rfl, hsrc⟩, if_pos ⟨rfl, hsrc⟩, hints, if_pos hsrc, idSet_zero]
      exact .reported
    · rw [intEntry, if_neg fun hc => hk ⟨hc.1.symm, hc.2⟩, if_neg hk]
      exact .none
  · rw [hlog, (hfields k).2.1]
    apply (h.sigs k).cons
    by_cases hk : k = (s.proc dst).priv ∧ src = systemNr
    · obtain ⟨rfl, hsrc⟩ := hk
      rw [sigEntry, if_pos ⟨rfl, hsrc⟩, if_pos ⟨rfl, hsrc⟩, hsigs, if_pos hsrc]
      exact .reported
    · rw [sigEntry, if_neg fun hc => hk ⟨hc.1.symm, hc.2⟩, if_neg hk]
      exact .none
  · rw [hlog, mem_cons] at hm'
    rcases hm' with hm' | hm'
    · cases hm'
      exact ⟨fun hsrc => by rw [hints, if_neg hsrc], fun hsrc => by rw [hsigs, if_neg hsrc]⟩
    · exact h.others src' k m' hm'

/-! ## What is pending is announced -/

/-- What is pending at `dst` may still have to be announced by the caller. -/
structure FlaggedBut (s : State) (caller dst : Slot) : Prop where
  int : ∀ k, (s.priv k).intPending ≠ 0 → (s.privOf hardwareSlot).id ∈ (s.priv k).notifyPending ∨
      k = (s.proc dst).priv ∧ caller = hardwareSlot
  sig : ∀ k, (s.priv k).sigPending ≠ ∅ → (s.privOf systemSlot).id ∈ (s.priv k).notifyPending ∨
      k = (s.proc dst).priv ∧ caller = systemSlot

theorem Flagged.but (h : Flagged s) (caller dst : Slot) : FlaggedBut s caller dst :=
  ⟨fun k hk => .inl (h.int k hk), fun k hk => .inl (h.sig k hk)⟩

theorem Flagged.mono (h : Flagged s) (hs : Steady s t)
    (hint : ∀ k, (t.priv k).intPending ≠ 0 → (s.priv k).intPending ≠ 0)
    (hsig : ∀ k, (t.priv k).sigPending ≠ ∅ → (s.priv k).sigPending ≠ ∅)
    (hnotify : ∀ k, (t.priv k).notifyPending = (s.priv k).notifyPending) : Flagged t := by
  refine ⟨fun k hk => ?_, fun k hk => ?_⟩
  · rw [hs.privOf_id, hnotify]
    exact h.int k (hint k hk)
  · rw [hs.privOf_id, hnotify]
    exact h.sig k (hsig k hk)

theorem markNotify_fields (s : State) (id : PrivId) (dst : Slot) (k : PrivId) :
    ((markNotify s id dst).priv k).intPending = (s.priv k).intPending ∧
    ((markNotify s id dst).priv k).sigPending = (s.priv k).sigPending ∧
    ((markNotify s id dst).priv k).notifyPending = (if k = (s.proc dst).priv then
      insert id (s.priv k).notifyPending else (s.priv k).notifyPending) := by
  by_cases h : k = (s.proc dst).priv <;> simp [markNotify, modPrivOf_priv, h]

theorem Notified.flagged (h : Notified s caller dst t) (htasks : TasksOk s)
    (hf : FlaggedBut s caller dst) : Flagged t := by
  have hs := h.wakes.steady
  cases h with
  | hand =>
    have hfields := deliverNotify_fields s (s.proc caller).nr (s.proc caller).endpoint dst
    refine ⟨fun k hk => ?_, fun k hk => ?_⟩ <;> rw [hs.privOf_id] <;>
      simp only [rtsUnset_rest, hfields] at hk ⊢ <;> split at hk
    · exact absurd rfl hk
    · rename_i hne
      refine (hf.int k hk).resolve_right ?_
      rintro ⟨hkd, rfl⟩
      exact hne ⟨hkd, htasks.hardwareNr⟩
    · exact absurd rfl hk
    · rename_i hne
      refine (hf.sig k hk).resolve_right ?_
      rintro ⟨hkd, rfl⟩
      exact hne ⟨hkd, htasks.systemNr⟩
  | mark hdst =>
    have hfields := markNotify_fields s (s.privOf caller).id dst
    refine ⟨fun k hk => ?_, fun k hk => ?_⟩ <;> rw [hs.privOf_id, (hfields k).2.2]
    · rw [(hfields k).1] at hk
      rcases hf.int k hk with hbit | ⟨rfl, rfl⟩
      · split
        · exact Finset.mem_insert_of_mem hbit
        · exact hbit
      · rw [if_pos rfl]
        exact Finset.mem_insert_self _ _
    · rw [(hfields k).2.1] at hk
      rcases hf.sig k hk with hbit | ⟨rfl, rfl⟩
      · split
        · exact Finset.mem_insert_of_mem hbit
        · exact hbit
      · rw [if_pos rfl]
        exact Finset.mem_insert_self _ _

theorem Notified.ledger (h : Notified s caller dst t) (hl : Ledger s) : Ledger t := by
  cases h with
  | hand =>
    have hd := deliverNotify_ledger hl (s.proc caller).nr (s.proc caller).endpoint dst
    exact hd.congr (SameNotes.of_priv (by simp) (l := []) (by simp) (by simp)).toSameDue
  | mark =>
    exact hl.congr ⟨fun k => (markNotify_fields ..).1, fun k => (markNotify_fields ..).2.1, [], rfl,
      by simp⟩

/-! ## Steps -/

structure NoteInv (s : State) : Prop where
  ledger : Ledger s
  flagged : Flagged s
  tasks : TasksOk s
  endpoints : EndpointsOk s

theorem NoteInv.congr (h : NoteInv s) (hs : Steady s t) (hn : SameNotes s t) : NoteInv t where
  ledger := h.ledger.congr hn.toSameDue
  flagged := h.flagged.mono hs (fun k hk => hn.int k ▸ hk) (fun k hk => hn.sig k ▸ hk) hn.notify
  tasks := h.tasks.congr hs
  endpoints := h.endpoints.congr fun i => (hs.proc i).endpoint

theorem raiseSig_but (h : FlaggedBut s systemSlot rp) (sig : Nat) :
    FlaggedBut (raiseSig s rp sig) systemSlot rp := by
  have hid : ∀ i, ((raiseSig s rp sig).privOf i).id = (s.privOf i).id :=
    (raiseSig_wakes s rp sig).steady.privOf_id
  refine ⟨fun k hk => ?_, fun k hk => ?_⟩ <;> rw [hid, (raiseSig_fields s rp sig k).2.2]
  · rw [(raiseSig_fields s rp sig k).1] at hk
    exact h.int k hk
  · rw [(raiseSig_fields s rp sig k).2.1] at hk
    split at hk
    · exact .inr ⟨‹_›, rfl⟩
    · exact h.sig k hk

theorem raiseIrq_but (h : Flagged s) (id : Nat) :
    FlaggedBut (raiseIrq s rp id) hardwareSlot rp := by
  have hid : ∀ i, ((raiseIrq s rp id).privOf i).id = (s.privOf i).id :=
    (raiseIrq_wakes s rp id).steady.privOf_id
  refine ⟨fun k hk => ?_, fun k hk => .inl ?_⟩ <;> rw [hid, (raiseIrq_fields s rp id k).2.2]
  · rw [(raiseIrq_fields s rp id k).1] at hk
    split at hk
    · exact .inr ⟨‹_›, rfl⟩
    · exact .inl (h.int k hk)
  · rw [(raiseIrq_fields s rp id k).2.1] at hk
    exact h.sig k hk

theorem NoteInv.take (h : NoteInv s) {i : Slot} (k : PrivId) (e : Endpoint)
    (hs : Steady s (deliverNotify
      (s.modPrivOf i fun p => { p with notifyPending := p.notifyPending.erase k })
      (s.priv k).procNr e i)) :
    NoteInv (deliverNotify
      (s.modPrivOf i fun p => { p with notifyPending := p.notifyPending.erase k })
      (s.priv k).procNr e i) := by
  set u := s.modPrivOf i fun p => { p with notifyPending := p.notifyPending.erase k } with hu
  have hpriv : ∀ k', (u.priv k').intPending = (s.priv k').intPending ∧
      (u.priv k').sigPending = (s.priv k').sigPending ∧
      (u.priv k').notifyPending = if k' = (s.proc i).priv then (s.priv k').notifyPending.erase k
        else (s.priv k').notifyPending := by
    intro k'
    by_cases hk : k' = (s.proc i).priv <;> simp [hu, modPrivOf_priv, hk]
  have hfields := deliverNotify_fields u (s.priv k).procNr e i
  have hkeep : ∀ {k' id : PrivId}, id ∈ (s.priv k').notifyPending →
      ¬(k' = (s.proc i).priv ∧ id = k) → id ∈ (u.priv k').notifyPending := by
    intro k' id hid hne
    rw [(hpriv k').2.2]
    split
    · rename_i hk
      exact Finset.mem_erase.mpr ⟨fun hidk => hne ⟨hk, hidk⟩, hid⟩
    · exact hid
  refine ⟨deliverNotify_ledger (h.ledger.congr ⟨fun k => (hpriv k).1, fun k => (hpriv k).2.1, [],
    rfl,
      by simp⟩) _ _ _, ⟨fun k' hk' => ?_, fun k' hk' => ?_⟩, h.tasks.congr hs,
    h.endpoints.congr fun i => (hs.proc i).endpoint⟩
  -- the bit that is taken is that of the source whose payload goes into the message
  · rw [hs.privOf_id, (hfields k').2.2]
    rw [(hfields k').1] at hk'
    split at hk'
    · exact absurd rfl hk'
    · rename_i hne
      rw [(hpriv k').1] at hk'
      refine hkeep (h.flagged.int k' hk') ?_
      rintro ⟨hki, rfl⟩
      exact hne ⟨hki, h.tasks.hardwareId⟩
  · rw [hs.privOf_id, (hfields k').2.2]
    rw [(hfields k').2.1] at hk'
    split at hk'
    · exact absurd rfl hk'
    · rename_i hne
      rw [(hpriv k').2.1] at hk'
      refine hkeep (h.flagged.sig k' hk') ?_
      rintro ⟨hki, rfl⟩
      exact hne ⟨hki, h.tasks.systemId⟩

theorem NoteInv.notified (h : NoteInv s) (hu : Wakes s u) (hl : Ledger u)
    (hf : FlaggedBut u caller dst) (hn : Notified u caller dst t) : NoteInv t where
  ledger := hn.ledger hl
  flagged := hn.flagged (h.tasks.congr hu.steady) hf
  tasks := h.tasks.congr (hu.trans hn.wakes).steady
  endpoints := h.endpoints.congr fun i => ((hu.trans hn.wakes).proc i).endpoint

theorem NoteStep.noteInv (hstep : NoteStep s t) (h : NoteInv s) : NoteInv t := by
  have hs := hstep.wakes.steady
  cases hstep with
  | edit => exact h.congr hs (.of_priv rfl (l := []) rfl (by simp))
  | hand => exact h.congr hs (.of_priv (by simp) (l := []) (by simp) (by simp))
  | unset => exact h.congr hs (.of_priv (by simp) (l := []) (by simp) (by simp))
  | set => exact h.congr hs (.of_priv (by simp) (l := []) (by simp) (by simp))
  | backup rp => exact h.congr hs (.modPrivOf s rp fun _ => ⟨rfl, rfl, rfl⟩)
  | tick => exact h.congr hs (.of_priv rfl (l := []) rfl (by simp))
  | notify hn => exact h.notified (.refl s) h.ledger (h.flagged.but _ _) hn
  | @signal rp sig _ hn =>
    exact h.notified (raiseSig_wakes ..) (raiseSig_ledger h.ledger ..)
      (raiseSig_but (h.flagged.but _ _) sig) hn
  | @signalSelf rp rp' sig sig' _ he hn =>
    obtain rfl := h.endpoints.injective he
    exact h.notified ((raiseSig_wakes ..).trans (raiseSig_wakes ..))
      (raiseSig_ledger (raiseSig_ledger h.ledger ..) ..)
      (raiseSig_but (raiseSig_but (h.flagged.but _ _) sig) sig') hn
  | take e => exact h.take _ e hs

theorem AsynStep.sameNotes (h : AsynStep s t) : SameNotes s t := by
  cases h with
  | setPending => exact .modPrivOf s _ fun _ => ⟨rfl, rfl, rfl⟩
  | unsetPending => exact .modPrivOf s _ fun _ => ⟨rfl, rfl, rfl⟩
  | setTable => exact .modPrivOf s _ fun _ => ⟨rfl, rfl, rfl⟩
  | clearTable => exact .modPrivOf s _ fun _ => ⟨rfl, rfl, rfl⟩
  | posted caller table size =>
    exact .of_priv rfl (l := [.posted caller table size]) rfl (by simp [Event.isSilent])
  | insert src table i e =>
    unfold aInsrt
    split <;> exact .of_priv rfl (l := []) rfl (by simp)
  | @deliver src dst addr m =>
    exact .of_priv rfl (l := [.asynCopied src addr dst]) rfl (by simp [Event.isSilent])
  | hand src dst addr m =>
    refine .of_priv ?_ (l := [.asynCopied src addr dst]) ?_ (by simp [Event.isSilent]) <;>
      simp [sendaDeliver, deliverAsyn, State.record]
  | store => exact .of_priv rfl (l := []) rfl (by simp)

theorem WakeSteps.noteInv (hsteps : WakeSteps s t) (h : NoteInv s) : NoteInv t := by
  induction hsteps with
  | refl => exact h
  | tail _ hstep ih =>
    cases hstep with
    | note hn => exact hn.noteInv ih
    | asyn ha => exact ih.congr ha.wakes.steady ha.sameNotes

theorem writeCallerQ_sameNotes (s : State) (d : Slot) (prev v : Option Slot) :
    SameNotes s (s.writeCallerQ d prev v) :=
  .of_priv (writeCallerQ_priv ..) (l := []) (by rw [writeCallerQ_eq]; rfl) (by simp)

theorem IpcAct.noteInv {o : Option Endpoint} (hact : IpcAct caller s o t) (h : NoteInv s) :
    NoteInv t := by
  cases hact with
  | wakes hcall => exact hcall.steps.noteInv h
  | @queued dst dstE _ hq =>
    obtain ⟨msg, flags, last, rfl⟩ := hq.exists_eq
    have hblock : SameNotes s (sendBlock s caller dstE msg flags) :=
      .of_priv (by simp [sendBlock]) (l := [.blocked caller dstE msg])
        (by simp [sendBlock, State.record])
        (by simp [Event.isSilent])
    exact (h.congr (sendBlock_steady ..) hblock).congr (writeCallerQ_steady ..)
      (writeCallerQ_sameNotes ..)
  | @taken _ sender _ _ _ _ _ hfree _ htaken =>
    obtain ⟨u, hn, rfl⟩ := htaken.unlinked hfree
    have hcopy : SameNotes s (copyMessage s caller sender) :=
      .of_priv (by simp [copyMessage])
        (l := [.copied sender caller (s.proc caller).endpoint (s.proc sender).sendmsg])
        (by simp [copyMessage, State.record]) (by simp [Event.isSilent])
    have hu := hn.steps.noteInv (h.congr (copyMessage_steady ..) hcopy)
    exact hu.congr (unlinkSender_steady ..) (.of_priv (writeCallerQ_priv u ..) (l := [])
      (by rw [unlinkSender, writeCallerQ_eq]; rfl) (by simp))
  | blocked =>
    exact h.congr (blockReceiver_steady ..)
      (.of_priv (by simp [blockReceiver]) (l := []) (by simp [blockReceiver]) (by simp))

/-! ## Runs -/

theorem NoteInv.running (h : NoteInv s) (i : Slot) : NoteInv (s.running i) :=
  ⟨⟨h.ledger.ints, h.ledger.sigs, h.ledger.others⟩, ⟨h.flagged.int, h.flagged.sig⟩,
    ⟨h.tasks.hardwareNr, h.tasks.systemNr, h.tasks.hardwareId, h.tasks.systemId⟩, h.endpoints⟩

/-- The interrupts handled are those whose bit is that of their id. -/
def IdsFit (op : Op) : Prop := CallsOnly op ∧ ∀ hook, op = .interrupt hook → hook.notifyId ≤ 30

theorem IdsFit.noteInv {op : Op} (h : NoteInv s) (hop : IdsFit op) (hen : op.Enabled s)
    (hex : op.exec s = .ok t) : NoteInv t := by
  obtain ⟨hcalls, hid⟩ := hop
  cases hcalls with
  | call caller req =>
    have hacts := call_acts hen hex
    clear hex
    induction hacts with
    | refl => exact h.running caller
    | tail _ hact ih => exact hact.noteInv ih
  | quiet hquiet =>
    by_cases hirq : ∃ hook, op = .interrupt hook
    · obtain ⟨hook, rfl⟩ := hirq
      obtain ⟨rp, hn⟩ := genericHandler_notified hex
      exact h.notified (raiseIrq_wakes ..) (raiseIrq_ledger h.ledger rp (hid hook rfl))
        (raiseIrq_but h.flagged _) hn
    · exact (hquiet.steps (fun hook hop => hirq ⟨hook, hop⟩) hen hex).noteInv h

structure Accounted (s : State) (k : PrivId) : Prop where
  intBit : (s.priv k).intPending ≠ 0 → (s.privOf hardwareSlot).id ∈ (s.priv k).notifyPending
  sigBit : (s.priv k).sigPending ≠ ∅ → (s.privOf systemSlot).id ∈ (s.priv k).notifyPending
  intHonest : Honest (· ∪ ·) ∅ (s.log.filterMap (intEntry k))
  sigHonest : Honest (· ∪ ·) ∅ (s.log.filterMap (sigEntry k))
  intDue : idSet (s.priv k).intPending = due (· ∪ ·) ∅ (s.log.filterMap (intEntry k))
  sigDue : (s.priv k).sigPending = due (· ∪ ·) ∅ (s.log.filterMap (sigEntry k))
  intAll : reportedAll (· ∪ ·) ∅ (s.log.filterMap (intEntry k)) ∪ idSet (s.priv k).intPending =
    raisedAll (· ∪ ·) ∅ (s.log.filterMap (intEntry k))
  sigAll : reportedAll (· ∪ ·) ∅ (s.log.filterMap (sigEntry k)) ∪ (s.priv k).sigPending =
    raisedAll (· ∪ ·) ∅ (s.log.filterMap (sigEntry k))
  others : ∀ src m, .notified src k m ∈ s.log →
    (src ≠ hardware → m.interrupts = 0) ∧ (src ≠ systemNr → m.sigset = ∅)

theorem NoteInv.accounted (h : NoteInv s) (k : PrivId) : Accounted s k where
  intBit := h.flagged.int k
  sigBit := h.flagged.sig k
  intHonest := (h.ledger.ints k).1
  sigHonest := (h.ledger.sigs k).1
  intDue := (h.ledger.ints k).2
  sigDue := (h.ledger.sigs k).2
  intAll := by
    rw [(h.ledger.ints k).2]
    exact (h.ledger.ints k).1.balance Finset.union_assoc Finset.union_empty
  sigAll := by
    rw [(h.ledger.sigs k).2]
    exact (h.ledger.sigs k).1.balance Finset.union_assoc Finset.union_empty
  others src m := h.ledger.others src k m

theorem interrupts_and_signals_accounted {s₀ : State} (h₀ : IpcInit s₀) (htasks : TasksOk s₀)
    (hclear : ∀ k, (s₀.priv k).intPending = 0 ∧ (s₀.priv k).sigPending = ∅)
    (h : Run (fun _ op => IdsFit op) s₀ s) (k : PrivId) : Accounted s k := by
  have hinit : NoteInv s₀ := by
    refine ⟨⟨fun k => ?_, fun k => ?_, fun src k m hm => ?_⟩, ⟨fun k hk => ?_, fun k hk => ?_⟩,
      htasks, h₀.endpointsOk⟩
    · rw [h₀.log]
      exact ⟨trivial, by rw [(hclear k).1]; exact idSet_zero⟩
    · rw [h₀.log]
      exact ⟨trivial, (hclear k).2⟩
    · rw [h₀.log] at hm
      cases hm
    · exact absurd (hclear k).1 hk
    · exact absurd (hclear k).2 hk
  have hinv : NoteInv s := h.invariant IdsFit.noteInv hinit
  exact hinv.accounted k

theorem bootWith_tasksOk (live : List Slot) : TasksOk (bootWith live) := by
  constructor <;> rfl

theorem bootWith_clear (live : List Slot) (k : PrivId) :
    ((bootWith live).priv k).intPending = 0 ∧ ((bootWith live).priv k).sigPending = ∅ := by
  simp only [bootWith]
  split <;> exact ⟨rfl, rfl⟩

/-- Two interrupts are reported in one message, and a third one is pending. -/
theorem driver_interrupts_accounted : IpcInit (bootWith [10]) ∧ TasksOk (bootWith [10]) ∧
    (∀ k, ((bootWith [10]).priv k).intPending = 0 ∧ ((bootWith [10]).priv k).sigPending = ∅) ∧
    ∃ s, Run (fun _ op => IdsFit op) (bootWith [10]) s ∧
      reportedAll (· ∪ ·) ∅ (s.log.filterMap (intEntry 10)) = {3, 7} ∧
      idSet (s.priv 10).intPending = {3} ∧ Accounted s 10 := by
  obtain ⟨s, hrun, hreported, hpending⟩ := exists_run (fun _ op => IdsFit op) (fun _ _ => true)
    [.interrupt ⟨5, 3⟩, .interrupt ⟨5, 7⟩, .call 10 (.sync .receive anyE plainMsg),
      .interrupt ⟨5, 3⟩]
    (bootWith [10])
    (fun s => reportedAll (· ∪ ·) ∅ (s.log.filterMap (intEntry 10)) = {3, 7} ∧
      idSet (s.priv 10).intPending = {3})
    (by
      intro u op hop _
      simp only [mem_cons, not_mem_nil, or_false] at hop
      rcases hop with rfl | rfl | rfl | rfl
      · exact ⟨.quiet (.interrupt _), fun hook hhook => by cases hhook; decide⟩
      · exact ⟨.quiet (.interrupt _), fun hook hhook => by cases hhook; decide⟩
      · exact ⟨.call _ _, fun hook hhook => by cases hhook⟩
      · exact ⟨.quiet (.interrupt _), fun hook hhook => by cases hhook; decide⟩)
    (by decide +kernel)
  exact ⟨bootWith_ipcInit _, bootWith_tasksOk _, bootWith_clear _, s, hrun, hreported, hpending,
    interrupts_and_signals_accounted (bootWith_ipcInit _) (bootWith_tasksOk _) (bootWith_clear _)
      hrun 10⟩

/-- The driver hears of interrupt 3, which was never raised, and not of 35. -/
theorem large_id_misreported : IpcInit (bootWith [10]) ∧ TasksOk (bootWith [10]) ∧
    ∃ s, Run (fun _ op => CallsOnly op) (bootWith [10]) s ∧
      raisedAll (· ∪ ·) ∅ (s.log.filterMap (intEntry 10)) = {35} ∧
      reportedAll (· ∪ ·) ∅ (s.log.filterMap (intEntry 10)) = {3} ∧
      (s.priv 10).intPending = 0 ∧ ¬Accounted s 10 := by
  obtain ⟨s, hrun, hraised, hreported, hpending⟩ := exists_run (fun _ op => CallsOnly op)
    (fun _ _ => true) [.interrupt ⟨5, 35⟩, .call 10 (.sync .receive anyE plainMsg)] (bootWith [10])
    (fun s => raisedAll (· ∪ ·) ∅ (s.log.filterMap (intEntry 10)) = {35} ∧
      reportedAll (· ∪ ·) ∅ (s.log.filterMap (intEntry 10)) = {3} ∧ (s.priv 10).intPending = 0)
    (by
      intro u op hop _
      simp only [mem_cons, not_mem_nil, or_false] at hop
      rcases hop with rfl | rfl
      · exact .quiet (.interrupt _)
      · exact .call _ _)
    (by decide +kernel)
  refine ⟨bootWith_ipcInit _, bootWith_tasksOk _, s, hrun, hraised, hreported, hpending, ?_⟩
  intro hacc
  have hall := hacc.intAll
  rw [hraised, hreported, hpending, idSet_zero] at hall
  exact absurd hall (by decide)

end Gergios.Kernel
