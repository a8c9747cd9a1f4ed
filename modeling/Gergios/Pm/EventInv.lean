import Gergios.Pm.Event
import Mathlib.Data.Fintype.Card

/-!
# Where events stand

Each process in an event call has a position among the subscribers: it waits for the reply of one,
or it is due to be resumed from one on. While subscribers move up, the positions are already the new
ones and the indexes in the process table follow one by one.
-/

namespace Gergios.Pm

open Lib Function List

variable {n : Nat}

inductive Pos where
  | waits (j : Nat)
  | due (k : Nat)
deriving DecidableEq

/-- The subscribers before `k` have been dealt with, and those from `k` on are to come. -/
structure LogOk (s : State n) (event : Event) (log : EventLog) (k : Nat) : Prop where
  sorted : log.notified.Pairwise (· < ·)
  below : ∀ x ∈ log.notified, ∀ j, k ≤ j → j < s.nsubs → x < (s.subs j).serial
  old : ∀ x ∈ log.notified, x < s.serials
  past : ∀ j, j < k → j < s.nsubs → (s.subs j).serial ∈ log.must → (s.subs j).serial ∈ log.notified
  future : ∀ j, k ≤ j → j < s.nsubs → (s.subs j).serial ∈ log.must →
    (s.subs j).mask &&& event.bit ≠ 0
  member : ∀ x ∈ log.must, ∃ j, j < s.nsubs ∧ x = (s.subs j).serial

structure Done (log : EventLog) : Prop where
  sorted : log.notified.Pairwise (· < ·)
  complete : ∀ x ∈ log.must, x ∈ log.notified
  owed : log.owed = []
  once : log.published = log.resumed

structure Active (s : State n) (p : Proc) (k : Nat) (owed : List Nat) : Prop where
  inUse : p.inUse = true
  eventCall : p.eventCall = true
  once : p.log.published = p.log.resumed + 1
  owes : p.log.owed = owed
  log : ∃ event, p.event = some event ∧ LogOk s event p.log k

def Placed (s : State n) (p : Proc) : Option Pos → Prop
  | none => p.eventCall = false ∧ Done p.log
  | some (.waits j) => j < s.nsubs ∧ Active s p (j + 1) [(s.subs j).serial]
  | some (.due k) => k ≤ s.nsubs ∧ Active s p k []

def waiters (pos : Fin n → Option Pos) (j : Nat) : Finset (Fin n) :=
  Finset.univ.filter fun i => pos i = some (.waits j)

structure Inv (s : State n) (pos : Fin n → Option Pos) : Prop where
  bound : s.nsubs ≤ nrSubs
  order : ∀ i j, i < j → j < s.nsubs → (s.subs i).serial < (s.subs j).serial
  fresh : ∀ j, j < s.nsubs → (s.subs j).serial < s.serials
  waiting : ∀ j, j < s.nsubs → (s.subs j).waiting = (waiters pos j).card
  placed : ∀ i, Placed s (s.procs i) (pos i)

def Agrees (p : Proc) : Option Pos → Prop
  | none => p.eventsub = none
  | some (.waits j) => p.eventsub = some j
  | some (.due _) => False

/-- The rest of the process manager leaves processes in an event call alone and begins no event. -/
def Elsewhere (ps ps' : Fin n → Proc) : Prop :=
  ∀ i, if (ps i).eventCall then ps' i = ps i
    else (ps' i).eventCall = false ∧ (ps' i).eventsub = (ps i).eventsub ∧ (ps' i).log = (ps i).log

def Rest.Frames (rest : Rest n) : Prop := ∀ event i ps, Elsewhere ps (rest.after event i ps)

structure SameSubs (s s' : State n) : Prop where
  nsubs : s'.nsubs = s.nsubs
  serials : s'.serials = s.serials
  serial : ∀ j, (s'.subs j).serial = (s.subs j).serial
  mask : ∀ j, (s'.subs j).mask = (s.subs j).mask

variable {s s' : State n} {event : Event} {log : EventLog} {k : Nat} {pos : Fin n → Option Pos}
  {i : Fin n} {x : Option Pos} {ps ps' : Fin n → Proc} {rest : Rest n}

theorem LogOk.congr (h : SameSubs s s') (hl : LogOk s event log k) : LogOk s' event log k := by
  constructor
  · exact hl.sorted
  · simpa only [h.nsubs, h.serial] using hl.below
  · simpa only [h.serials] using hl.old
  · simpa only [h.nsubs, h.serial] using hl.past
  · simpa only [h.nsubs, h.serial, h.mask] using hl.future
  · simpa only [h.nsubs, h.serial] using hl.member

theorem Placed.congr (h : SameSubs s s') {p : Proc} {pos : Option Pos}
    (hp : Placed s p pos) : Placed s' p pos := by
  have active : ∀ {k owed}, Active s p k owed → Active s' p k owed := by
    rintro k owed ⟨hu, hc, ho, hw, e, he, hl⟩
    exact ⟨hu, hc, ho, hw, e, he, hl.congr h⟩
  cases pos with
  | none => exact hp
  | some pos =>
    cases pos with
    | waits j => exact ⟨h.nsubs ▸ hp.1, (h.serial j).symm ▸ active hp.2⟩
    | due k => exact ⟨h.nsubs ▸ hp.1, active hp.2⟩

theorem LogOk.skip (h : LogOk s event log k) (hk : (s.subs k).mask &&& event.bit = 0) :
    LogOk s event log (k + 1) where
  sorted := h.sorted
  below x hx j hj := h.below x hx j (by omega)
  old := h.old
  past := by
    intro j hj hn hm
    rcases Nat.lt_succ_iff_lt_or_eq.mp hj with hlt | rfl
    · exact h.past j hlt hn hm
    · exact absurd hk (h.future j le_rfl hn hm)
  future j hj := h.future j (by omega)
  member := h.member

theorem LogOk.send (hi : Inv s pos) (h : LogOk s event log k) (hk : k < s.nsubs) :
    LogOk s event (log.send (s.subs k).serial) (k + 1) where
  sorted := by
    apply pairwise_append.mpr
    refine ⟨h.sorted, List.pairwise_singleton _ _, ?_⟩
    intro x hx y hy
    rw [List.mem_singleton.mp hy]
    exact h.below x hx k le_rfl hk
  below := by
    intro x hx j hj hn
    rcases mem_append.mp hx with hx | hx
    · exact h.below x hx j (by omega) hn
    · rw [List.mem_singleton.mp hx]
      exact hi.order k j hj hn
  old := by
    intro x hx
    rcases mem_append.mp hx with hx | hx
    · exact h.old x hx
    · rw [List.mem_singleton.mp hx]
      exact hi.fresh k hk
  past := by
    intro j hj hn hm
    rcases Nat.lt_succ_iff_lt_or_eq.mp hj with hlt | rfl
    · exact mem_append_left _ (h.past j hlt hn hm)
    · exact mem_append_right _ (List.mem_singleton.mpr rfl)
  future j hj := h.future j (by omega)
  member := h.member

theorem LogOk.complete (h : LogOk s event log s.nsubs) : ∀ x ∈ log.must, x ∈ log.notified := by
  intro x hx
  obtain ⟨j, hj, rfl⟩ := h.member x hx
  exact h.past j hj hj hx

theorem nextSub_spec (count : Nat) (hc : k + count = s.nsubs) (h : LogOk s event log k) :
    match nextSub s.subs event count k with
    | some j => k ≤ j ∧ j < s.nsubs ∧ LogOk s event log j
    | none => LogOk s event log s.nsubs := by
  induction count generalizing k with
  | zero =>
    obtain rfl : k = s.nsubs := by omega
    exact h
  | succ count ih =>
    rw [nextSub]
    split_ifs with hm
    · exact ⟨le_rfl, by omega, h⟩
    · have hrec := ih (by omega) (h.skip (not_not.mp hm))
      revert hrec
      cases nextSub s.subs event count (k + 1) with
      | none => exact id
      | some j => exact fun ⟨h₁, h₂, h₃⟩ => ⟨by omega, h₂, h₃⟩

section Waiters

variable {pos : Fin n → Option Pos} {i : Fin n} {j : Nat} {x : Option Pos}

theorem mem_waiters : i ∈ waiters pos j ↔ pos i = some (.waits j) := by simp [waiters]

theorem waiters_update_of_ne (h : pos i ≠ some (.waits j)) (hx : x ≠ some (.waits j)) :
    waiters (update pos i x) j = waiters pos j := by
  ext k
  rw [mem_waiters, mem_waiters]
  rcases eq_or_ne k i with rfl | hne
  · simp [h, hx]
  · rw [update_of_ne hne]

theorem card_waiters_insert (h : pos i ≠ some (.waits j)) :
    (waiters (update pos i (some (.waits j))) j).card = (waiters pos j).card + 1 := by
  have hins : waiters (update pos i (some (.waits j))) j = insert i (waiters pos j) := by
    ext k
    rw [Finset.mem_insert, mem_waiters, mem_waiters]
    rcases eq_or_ne k i with rfl | hne
    · simp
    · simp [hne]
  rw [hins]
  exact Finset.card_insert_of_notMem (fun hm => h (mem_waiters.mp hm))

theorem card_waiters_erase (h : pos i = some (.waits j)) (hx : x ≠ some (.waits j)) :
    (waiters (update pos i x) j).card + 1 = (waiters pos j).card := by
  have hera : waiters (update pos i x) j = (waiters pos j).erase i := by
    ext k
    rw [Finset.mem_erase, mem_waiters, mem_waiters]
    rcases eq_or_ne k i with rfl | hne
    · simp [hx]
    · simp [hne]
  rw [hera]
  exact Finset.card_erase_add_one (mem_waiters.mpr h)

theorem card_waiters_lt (h : pos i ≠ some (.waits j)) : (waiters pos j).card < n := by
  have hlt : waiters pos j ⊂ Finset.univ := by
    apply Finset.ssubset_univ_iff.mpr
    intro hu
    exact h (mem_waiters.mp (hu ▸ Finset.mem_univ i))
  simpa using Finset.card_lt_card hlt

end Waiters

structure Resumed (i : Fin n) (s s' : State n) : Prop where
  subs : SameSubs s s'
  nested : s'.nested = s.nested
  waiting : ∀ j, (s.subs j).waiting ≤ (s'.subs j).waiting
  index : ∀ j, j ≠ i → (s'.procs j).eventsub = (s.procs j).eventsub

theorem SameSubs.setSub (s : State n) (j : Nat) (sub : Sub)
    (hs : sub.serial = (s.subs j).serial) (hm : sub.mask = (s.subs j).mask) :
    SameSubs s (s.setSub j sub) where
  nsubs := rfl
  serials := rfl
  serial k := by
    rcases eq_or_ne k j with rfl | hne
    · simp [State.setSub, hs]
    · simp [State.setSub, hne]
  mask k := by
    rcases eq_or_ne k j with rfl | hne
    · simp [State.setSub, hm]
    · simp [State.setSub, hne]

theorem SameSubs.setProc {t : State n} (h : SameSubs s t) (i : Fin n) (p : Proc) :
    SameSubs s (t.setProc i p) := ⟨h.nsubs, h.serials, h.serial, h.mask⟩

theorem Inv.move (hi : Inv s pos) (h : SameSubs s s') (hx : Placed s' (s'.procs i) x)
    (hother : ∀ j, j ≠ i → Placed s' (s'.procs j) (pos j)) (hwait : ∀ j, j < s.nsubs →
      (s'.subs j).waiting = (waiters (update pos i x) j).card) : Inv s' (update pos i x) where
  bound := h.nsubs ▸ hi.bound
  order := by simpa only [h.nsubs, h.serial] using hi.order
  fresh := by simpa only [h.nsubs, h.serial, h.serials] using hi.fresh
  waiting j hj := hwait j (h.nsubs ▸ hj)
  placed j := by
    rcases eq_or_ne j i with rfl | hne
    · rw [update_self]
      exact hx
    · rw [update_of_ne hne]
      exact hother j hne

theorem notify_spec (hi : Inv s pos)
    {j : Nat} (hj : j < s.nsubs) (hfree : ∀ k, pos i ≠ some (.waits k))
    (ha : Active s (s.procs i) j []) :
    ∃ s', s.notify i j = .ok s' ∧ Inv s' (update pos i (some (.waits j))) ∧
      Agrees (s'.procs i) (some (.waits j)) ∧ Resumed i s s' := by
  have hlt : (s.subs j).waiting < n := by
    rw [hi.waiting j hj]
    exact card_waiters_lt (hfree j)
  have hsame : SameSubs s (s.sent i j) :=
    (SameSubs.setSub s j { s.subs j with waiting := (s.subs j).waiting + 1 } rfl rfl).setProc i _
  obtain ⟨hu, hc, ho, hw, event, he, hlog⟩ := ha
  have hproc : (s.sent i j).procs i =
      { s.procs i with eventsub := some j, log := (s.procs i).log.send (s.subs j).serial } :=
    update_self ..
  have hother : ∀ k, k ≠ i → (s.sent i j).procs k = s.procs k :=
    fun k hk => update_of_ne hk _ _
  have hcount : ((s.sent i j).subs j).waiting = (s.subs j).waiting + 1 := by
    simp [State.sent, State.setProc, State.setSub]
  have hcounts : ∀ k, k ≠ j → ((s.sent i j).subs k).waiting = (s.subs k).waiting := by
    intro k hk
    simp [State.sent, State.setProc, State.setSub, hk]
  refine ⟨_, by rw [State.notify, check_bind hlt]; rfl, ?_, ?_, hsame, rfl, ?_, ?_⟩
  · apply hi.move hsame
    · rw [hproc]
      refine ⟨hj, hu, hc, ho, ?_, event, he, (hlog.send hi hj).congr hsame⟩
      rw [hsame.serial]
      simp [EventLog.send, hw]
    · intro k hk
      rw [hother k hk]
      exact (hi.placed k).congr hsame
    · intro k hk
      rcases eq_or_ne k j with rfl | hkj
      · rw [hcount, hi.waiting k hk, card_waiters_insert (hfree k)]
      · rw [hcounts k hkj, hi.waiting k hk, waiters_update_of_ne (hfree k) (by simp [hkj.symm])]
  · rw [hproc]
    rfl
  · intro k
    rcases eq_or_ne k j with rfl | hkj
    · omega
    · rw [hcounts k hkj]
  · intro k hk
    rw [hother k hk]

theorem Elsewhere.placed (h : Elsewhere ps ps') (hp : Placed s (ps i) x) : Placed s (ps' i) x := by
  have hi := h i
  cases x with
  | none =>
    rw [if_neg (by simp [hp.1])] at hi
    exact ⟨hi.1, hi.2.2 ▸ hp.2⟩
  | some pos =>
    have hc : (ps i).eventCall = true := by
      cases pos with
      | waits j => exact hp.2.eventCall
      | due k => exact hp.2.eventCall
    rw [if_pos hc] at hi
    exact hi ▸ hp

theorem Elsewhere.eventsub (h : Elsewhere ps ps') (i : Fin n) :
    (ps' i).eventsub = (ps i).eventsub := by
  have hi := h i
  split_ifs at hi with hc
  · rw [hi]
  · exact hi.2.1

theorem finish_spec (hf : rest.Frames) (hi : Inv s pos) (hfree : ∀ k, pos i ≠ some (.waits k))
    (ha : Active s (s.procs i) s.nsubs []) (hlog : LogOk s event (s.procs i).log s.nsubs) :
    Inv (s.finish rest i event) (update pos i none) ∧
      Agrees ((s.finish rest i event).procs i) none ∧ Resumed i s (s.finish rest i event) := by
  have helse := hf event i (s.setProc i { s.procs i with
    eventCall := false
    eventsub := none
    log := { (s.procs i).log with resumed := (s.procs i).log.resumed + 1 } }).procs
  have hsame : SameSubs s (s.finish rest i event) := ⟨rfl, rfl, fun _ => rfl, fun _ => rfl⟩
  refine ⟨?_, ?_, ?_⟩
  · apply hi.move hsame
    · apply helse.placed
      simp only [State.setProc, update_self]
      exact ⟨rfl, hlog.sorted, hlog.complete, ha.owes, ha.once⟩
    · intro k hk
      apply helse.placed
      simp only [State.setProc, update_of_ne hk]
      exact (hi.placed k).congr hsame
    · intro k hk
      rw [waiters_update_of_ne (hfree k) (by simp)]
      exact hi.waiting k hk
  · have := helse.eventsub i
    simpa [Agrees, State.finish, State.setProc] using this
  · refine ⟨hsame, rfl, fun _ => le_rfl, ?_⟩
    intro k hk
    have := helse.eventsub k
    simpa [State.finish, State.setProc, hk] using this

theorem resumeEvent_spec (hf : rest.Frames) (hi : Inv s pos)
    (hd : pos i = some (.due k)) (hk : (s.procs i).eventsub = some k) :
    ∃ s' x, resumeEvent rest i s = .ok s' ∧ Inv s' (update pos i x) ∧
      Agrees (s'.procs i) x ∧ Resumed i s s' := by
  have hplaced := hi.placed i
  rw [hd] at hplaced
  obtain ⟨hle, hu, hc, ho, hw, event, he, hlog⟩ := hplaced
  have hfree : ∀ j, pos i ≠ some (.waits j) := by simp [hd]
  have hnext := nextSub_spec (s.nsubs - k) (by omega) hlog
  rw [resumeEvent, check_bind hu, check_bind hc, hk, he]
  simp only
  revert hnext
  cases nextSub s.subs event (s.nsubs - k) k with
  | some j =>
    rintro ⟨-, hj, hlog⟩
    obtain ⟨s', hs, h⟩ := notify_spec hi hj hfree ⟨hu, hc, ho, hw, event, he, hlog⟩
    exact ⟨s', _, hs, h⟩
  | none =>
    intro hlog
    exact ⟨_, _, rfl, finish_spec hf hi hfree ⟨hu, hc, ho, hw, event, he, hlog⟩ hlog⟩

end Gergios.Pm
