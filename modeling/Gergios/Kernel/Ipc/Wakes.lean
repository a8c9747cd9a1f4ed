import Gergios.Kernel.Ipc.Async
import Gergios.Kernel.System.Irq

/-!
# Operations that only wake

Notifications, signals and the scans of asynchronous tables may end the wait of a receiver.
They touch no queue of senders, no destination and no request to VM. `Wakes` says so once,
and every operation of this kind is shown to be one.
-/

namespace Gergios.Kernel

structure Proc.Woken (p r : Proc) : Prop where
  nr : r.nr = p.nr
  priv : r.priv = p.priv
  callerQ : r.callerQ = p.callerQ
  qLink : r.qLink = p.qLink
  getfromE : r.getfromE = p.getfromE
  sendtoE : r.sendtoE = p.sendtoE
  endpoint : r.endpoint = p.endpoint
  sendmsg : r.sendmsg = p.sendmsg
  vmrequest : r.vmrequest = p.vmrequest
  slotFree : r.rtsFlags.slotFree = p.rtsFlags.slotFree
  sending : r.rtsFlags.sending = p.rtsFlags.sending
  noEndpoint : r.rtsFlags.noEndpoint = p.rtsFlags.noEndpoint
  vmRequest : r.rtsFlags.vmRequest = p.rtsFlags.vmRequest
  receiving : r.rtsFlags.receiving = true → p.rtsFlags.receiving = true

structure Priv.SameRights (p r : Priv) : Prop where
  procNr : r.procNr = p.procNr
  id : r.id = p.id
  flags : r.flags = p.flags
  trapMask : r.trapMask = p.trapMask
  ipcTo : r.ipcTo = p.ipcTo
  ipcf : r.ipcf = p.ipcf
  capEffective : r.capEffective = p.capEffective

structure SlotsOk (s : State) : Prop where
  isEmpty : ∀ i, (s.proc i).rtsFlags.slotFree = true → (s.proc i).isEmpty
  procPtr : ∀ c p, (s.cpu c).procPtr = some p → (s.proc p).rtsFlags.slotFree = false

def Event.isQuiet : Event → Bool
  | .blocked .. | .copied .. | .cleared .. => false
  | _ => true

structure IpcFrame (s t : State) : Prop where
  proc : ∀ i, (s.proc i).Woken (t.proc i)
  priv : ∀ k, (s.priv k).SameRights (t.priv k)
  vmrequest : t.vmrequest = s.vmrequest
  macHooks : t.macHooks = s.macHooks
  uwritable : t.uwritable = s.uwritable
  cpuid : t.cpuid = s.cpuid
  procPtr : ∀ c, (t.cpu c).procPtr = (s.cpu c).procPtr
  slots : SlotsOk s → SlotsOk t
  log : ∃ l, t.log = l ++ s.log ∧ ∀ e ∈ l, e.isQuiet

variable {s t u : State}

namespace Proc.Woken

variable {r : Errno} {f : Proc → Proc} {e : Event}

protected theorem refl (p : Proc) : p.Woken p := by constructor <;> simp

protected theorem trans {p q r : Proc} (h : p.Woken q) (h' : q.Woken r) : p.Woken r where
  nr := h'.nr.trans h.nr
  priv := h'.priv.trans h.priv
  callerQ := h'.callerQ.trans h.callerQ
  qLink := h'.qLink.trans h.qLink
  getfromE := h'.getfromE.trans h.getfromE
  sendtoE := h'.sendtoE.trans h.sendtoE
  endpoint := h'.endpoint.trans h.endpoint
  sendmsg := h'.sendmsg.trans h.sendmsg
  vmrequest := h'.vmrequest.trans h.vmrequest
  slotFree := h'.slotFree.trans h.slotFree
  sending := h'.sending.trans h.sending
  noEndpoint := h'.noEndpoint.trans h.noEndpoint
  vmRequest := h'.vmRequest.trans h.vmRequest
  receiving hr := h.receiving (h'.receiving hr)

end Proc.Woken

theorem Priv.SameRights.refl (p : Priv) : p.SameRights p := by constructor <;> rfl

theorem Priv.SameRights.trans {p q r : Priv} (h : p.SameRights q) (h' : q.SameRights r) :
    p.SameRights r where
  procNr := h'.procNr.trans h.procNr
  id := h'.id.trans h.id
  flags := h'.flags.trans h.flags
  trapMask := h'.trapMask.trans h.trapMask
  ipcTo := h'.ipcTo.trans h.ipcTo
  ipcf := h'.ipcf.trans h.ipcf
  capEffective := h'.capEffective.trans h.capEffective

namespace SlotsOk

theorem rtsUnset (hs : SlotsOk s) (i : Slot) (hf : f.slotFree = false) :
    SlotsOk (rtsUnset s i f) := by
  refine ⟨fun j hj => ?_, fun c p hp => ?_⟩
  · have hj : (s.proc j).rtsFlags.slotFree = true := by simpa [hf] using hj
    have he : (s.proc j).rtsFlags = { slotFree := true } := hs.isEmpty j hj
    rcases rtsUnset_rtsFlags s i f j with h | ⟨h, -⟩
    · rw [Proc.isEmpty, h, he]
      split
      · simp [RtsFlags.unset, hf]
      · rfl
    · rw [hs.procPtr _ j h] at hj; cases hj
  · simpa [hf] using hs.procPtr c p (by simpa using hp)

theorem rtsSet (hs : SlotsOk s) (hi : (s.proc i).rtsFlags.slotFree = false)
    (hf : f.slotFree = false) : SlotsOk (rtsSet s i f) := by
  refine ⟨fun j hj => ?_, fun c p hp => ?_⟩
  · have hfree : (s.proc j).rtsFlags.slotFree = true := by simpa [hf] using hj
    have hji : j ≠ i := by
      rintro rfl
      rw [hi] at hfree; cases hfree
    rw [Proc.isEmpty, rtsSet_rtsFlags, if_neg hji]
    exact hs.isEmpty j hfree
  · simpa [hf] using hs.procPtr c p (by simpa using hp)

theorem congr (hs : SlotsOk s) (hflags : ∀ i, (t.proc i).rtsFlags = (s.proc i).rtsFlags)
    (hcpu : ∀ c, (t.cpu c).procPtr = (s.cpu c).procPtr) : SlotsOk t := by
  refine ⟨fun i hi => ?_, fun c p hp => ?_⟩
  · rw [Proc.isEmpty, hflags]
    exact hs.isEmpty i (hflags i ▸ hi)
  · rw [hflags]
    exact hs.procPtr c p (hcpu c ▸ hp)

end SlotsOk

namespace IpcFrame

protected theorem refl (s : State) : IpcFrame s s where
  proc i := .refl _
  priv k := by constructor <;> rfl
  vmrequest := rfl
  macHooks := rfl
  uwritable := rfl
  cpuid := rfl
  procPtr _ := rfl
  slots h := h
  log := ⟨[], rfl, by simp⟩

protected theorem trans (h : IpcFrame s t) (h' : IpcFrame t u) : IpcFrame s u where
  proc i := (h.proc i).trans (h'.proc i)
  priv k := (h.priv k).trans (h'.priv k)
  vmrequest := h'.vmrequest.trans h.vmrequest
  macHooks := h'.macHooks.trans h.macHooks
  uwritable := h'.uwritable.trans h.uwritable
  cpuid := h'.cpuid.trans h.cpuid
  procPtr c := (h'.procPtr c).trans (h.procPtr c)
  slots hs := h'.slots (h.slots hs)
  log := by
    obtain ⟨l, hl, hq⟩ := h.log
    obtain ⟨l', hl', hq'⟩ := h'.log
    refine ⟨l' ++ l, by rw [hl', hl, List.append_assoc], fun e he => ?_⟩
    rcases List.mem_append.mp he with he | he
    · exact hq' e he
    · exact hq e he

theorem receiving_false (h : IpcFrame s t) (hi : (s.proc i).rtsFlags.receiving = false) :
    (t.proc i).rtsFlags.receiving = false := by
  refine Bool.eq_false_iff.mpr fun hr => ?_
  rw [(h.proc i).receiving hr] at hi
  cases hi

theorem privOf (h : IpcFrame s t) (i : Slot) : (s.privOf i).SameRights (t.privOf i) := by
  rw [State.privOf, State.privOf, (h.proc i).priv]
  exact h.priv _

theorem modProc (s : State) (i : Slot) (hw : (s.proc i).Woken (f (s.proc i)))
    (hflags : (f (s.proc i)).rtsFlags = (s.proc i).rtsFlags) : IpcFrame s (s.modProc i f) := by
  have hf : ∀ j, ((s.modProc i f).proc j).rtsFlags = (s.proc j).rtsFlags := by
    intro j
    rw [State.modProc_proc]
    split
    · subst j; exact hflags
    · rfl
  refine { IpcFrame.refl s with proc := fun j => ?_, slots := fun hs => hs.congr hf fun _ => rfl }
  rw [State.modProc_proc]
  split
  · subst j; exact hw
  · exact .refl _

theorem modPriv (s : State) (k : PrivId) {f : Priv → Priv}
    (hf : (s.priv k).SameRights (f (s.priv k))) : IpcFrame s (s.modPriv k f) := by
  refine { IpcFrame.refl s with
    priv := fun l => ?_
    slots := fun hs => hs.congr (fun _ => rfl) fun _ => rfl }
  rw [State.modPriv_priv]
  split
  · subst l; exact hf
  · constructor <;> rfl

theorem record (s : State) (he : e.isQuiet) : IpcFrame s (s.record e) :=
  { IpcFrame.refl s with
    slots := fun hs => hs.congr (fun _ => rfl) fun _ => rfl
    log := ⟨[e], rfl, by simpa using he⟩ }

theorem rtsUnset (s : State) (i : Slot) (hf : f.slotFree = false ∧ f.sending = false ∧
    f.noEndpoint = false ∧ f.vmRequest = false) : IpcFrame s (rtsUnset s i f) where
  proc j := by
    constructor <;> simp [hf]
    exact fun h _ => h
  priv k := by simp only [rtsUnset_rest]; constructor <;> rfl
  vmrequest := by simp
  macHooks := by simp
  uwritable := by simp
  cpuid := by simp
  procPtr c := by simp
  slots hs := hs.rtsUnset i hf.1
  log := ⟨[], by simp, by simp⟩

theorem rtsSet (s : State) (hi : (s.proc i).rtsFlags.slotFree = false)
    (hf : f.slotFree = false ∧ f.sending = false ∧ f.receiving = false ∧ f.noEndpoint = false ∧
      f.vmRequest = false) : IpcFrame s (rtsSet s i f) where
  proc j := by constructor <;> simp [hf]
  priv k := by simp only [rtsSet_rest]; constructor <;> rfl
  vmrequest := by simp
  macHooks := by simp
  uwritable := by simp
  cpuid := by simp
  procPtr c := by simp
  slots hs := hs.rtsSet hi hf.1
  log := ⟨[], by simp, by simp⟩

end IpcFrame

structure Wakes (s t : State) : Prop extends IpcFrame s t where
  deliver : ∀ i, (t.proc i).miscFlags.deliverMsg = true →
    (s.proc i).miscFlags.deliverMsg = true ∨ (t.proc i).rtsFlags.receiving = false

namespace Wakes

protected theorem refl (s : State) : Wakes s s := ⟨.refl s, fun _ h => .inl h⟩

protected theorem trans (h : Wakes s t) (h' : Wakes t u) : Wakes s u := by
  refine ⟨h.toIpcFrame.trans h'.toIpcFrame, fun i hi => ?_⟩
  rcases h'.deliver i hi with hi | hi
  · exact (h.deliver i hi).imp_right h'.receiving_false
  · exact .inr hi

theorem modProc (s : State) (i : Slot) (hw : (s.proc i).Woken (f (s.proc i)))
    (hflags : (f (s.proc i)).rtsFlags = (s.proc i).rtsFlags)
    (hdeliver : (f (s.proc i)).miscFlags.deliverMsg = true →
      (s.proc i).miscFlags.deliverMsg = true ∨ (s.proc i).rtsFlags.receiving = false) :
    Wakes s (s.modProc i f) := by
  refine ⟨.modProc s i hw hflags, fun j hj => ?_⟩
  rw [State.modProc_proc] at hj ⊢
  split at hj
  · subst j
    rw [if_pos rfl, hflags]
    exact hdeliver hj
  · exact .inl hj

theorem modPriv (s : State) (k : PrivId) {f : Priv → Priv}
    (hf : (s.priv k).SameRights (f (s.priv k))) : Wakes s (s.modPriv k f) :=
  ⟨.modPriv s k hf, fun _ h => .inl h⟩

theorem modPrivOf (s : State) (i : Slot) {f : Priv → Priv}
    (hf : ∀ p : Priv, p.SameRights (f p)) : Wakes s (s.modPrivOf i f) := modPriv s _ (hf _)

theorem record (s : State) (he : e.isQuiet) : Wakes s (s.record e) :=
  ⟨.record s he, fun _ h => .inl h⟩

theorem rtsUnset (s : State) (i : Slot) (hf : f.slotFree = false ∧ f.sending = false ∧
    f.noEndpoint = false ∧ f.vmRequest = false) : Wakes s (rtsUnset s i f) :=
  ⟨.rtsUnset s i hf, fun j h => .inl (by simpa using h)⟩

theorem rtsSet (s : State) (hi : (s.proc i).rtsFlags.slotFree = false)
    (hf : f.slotFree = false ∧ f.sending = false ∧ f.receiving = false ∧ f.noEndpoint = false ∧
      f.vmRequest = false) : Wakes s (rtsSet s i f) :=
  ⟨.rtsSet s hi hf, fun j h => .inl (by simpa using h)⟩

theorem deliver_rtsUnset (h : IpcFrame s t)
    (hd : ∀ j, j ≠ i → (t.proc j).miscFlags.deliverMsg = (s.proc j).miscFlags.deliverMsg) :
    Wakes s (Kernel.rtsUnset t i { receiving := true }) := by
  refine ⟨h.trans (.rtsUnset t i ⟨rfl, rfl, rfl, rfl⟩), fun j hj => ?_⟩
  by_cases hji : j = i
  · exact .inr (by simp [hji])
  · exact .inl (by simpa [hd j hji] using hj)

end Wakes

/-! ## Notifications and signals -/

theorem Priv.takePending_sameRights (p : Priv) (src : Int) : p.SameRights (p.takePending src) := by
  unfold Priv.takePending
  split
  · constructor <;> rfl
  · split <;> constructor <;> rfl

variable (p : Proc)

theorem Proc.deliver_woken (m : Message) : p.Woken (p.deliver m) := by
  constructor <;> simp [Proc.deliver]

theorem Proc.ipcStatusAdd_woken (v : Nat) : p.Woken (p.ipcStatusAdd v) := by
  unfold Proc.ipcStatusAdd
  split
  · exact .refl p
  · constructor <;> simp

@[simp]
theorem Proc.ipcStatusAdd_miscFlags (v : Nat) : (p.ipcStatusAdd v).miscFlags = p.miscFlags := by
  unfold Proc.ipcStatusAdd
  split <;> rfl

@[simp]
theorem Proc.ipcStatusAdd_rtsFlags (v : Nat) : (p.ipcStatusAdd v).rtsFlags = p.rtsFlags := by
  unfold Proc.ipcStatusAdd
  split <;> rfl

variable (s)

theorem deliverNotify_frame (src : Int) (srcE : Endpoint) (dst : Slot) :
    IpcFrame s (deliverNotify s src srcE dst) := by
  refine ((Wakes.modPrivOf s dst fun p => p.takePending_sameRights src).toIpcFrame.trans
    (.modProc _ dst ?_ ?_)).trans (.record _ rfl)
  · exact (Proc.deliver_woken _ _).trans (Proc.ipcStatusAdd_woken _ _)
  · simp [Proc.deliver]

theorem deliverNotify_deliverMsg (src : Int) (srcE : Endpoint) (dst j : Slot) :
    ((deliverNotify s src srcE dst).proc j).miscFlags.deliverMsg =
      ((s.proc j).miscFlags.deliverMsg || decide (j = dst)) := by
  simp only [deliverNotify, State.record_proc, State.modProc_proc]
  by_cases h : j = dst
  · simp [h, Proc.deliver]
  · simp [h]

theorem raiseSig_wakes (rp : Slot) (sig : Nat) : Wakes s (raiseSig s rp sig) :=
  (Wakes.modPrivOf s rp fun _ => by constructor <;> rfl).trans (Wakes.record _ rfl)

theorem raiseIrq_wakes (rp : Slot) (id : Nat) : Wakes s (raiseIrq s rp id) :=
  (Wakes.modPrivOf s rp fun _ => by constructor <;> rfl).trans (Wakes.record _ rfl)

variable {s}

/-! ## Steps

What notifications and signals are made of, apart from the tables of asynchronous messages. A
signal is raised and announced in one step. -/

inductive Notified (s : State) (caller dst : Slot) : State → Prop
  | hand : Notified s caller dst (rtsUnset
      (deliverNotify s (s.proc caller).nr (s.proc caller).endpoint dst) dst { receiving := true })
  | mark (hdst : ¬(s.proc dst).isEmpty) :
      Notified s caller dst (markNotify s (s.privOf caller).id dst)

inductive NoteStep (s : State) : State → Prop
  | edit (i : Slot) {f : Proc → Proc} (hw : (s.proc i).Woken (f (s.proc i)))
      (hflags : (f (s.proc i)).rtsFlags = (s.proc i).rtsFlags)
      (hdeliver : (f (s.proc i)).miscFlags.deliverMsg = true →
        (s.proc i).miscFlags.deliverMsg = true ∨ (s.proc i).rtsFlags.receiving = false) :
      NoteStep s (s.modProc i f)
  | hand (i : Slot) {f : Proc → Proc} (hw : (s.proc i).Woken (f (s.proc i)))
      (hflags : (f (s.proc i)).rtsFlags = (s.proc i).rtsFlags) :
      NoteStep s (rtsUnset (s.modProc i f) i { receiving := true })
  | unset (i : Slot) {f : RtsFlags} (hf : f.slotFree = false ∧ f.sending = false ∧
      f.noEndpoint = false ∧ f.vmRequest = false) : NoteStep s (rtsUnset s i f)
  | set {i : Slot} (hi : (s.proc i).rtsFlags.slotFree = false) {f : RtsFlags} (hf : f.IsForeign) :
      NoteStep s (rtsSet s i f)
  | backup (rp : Slot) :
      NoteStep s (s.modPrivOf rp fun p => { p with sigMgr := p.bakSigMgr, bakSigMgr := noneE })
  | tick (n : Nat) : NoteStep s { s with monotonic := n }
  | notify {caller dst : Slot} {t : State} (h : Notified s caller dst t) : NoteStep s t
  | signal {rp : Slot} {sig : Nat} {t : State} (h : Notified (raiseSig s rp sig) systemSlot rp t) :
      NoteStep s t
  | signalSelf {rp rp' : Slot} {sig sig' : Nat} {t : State}
      (he : (s.proc rp').endpoint = (s.proc rp).endpoint)
      (h : Notified (raiseSig (raiseSig s rp sig) rp' sig') systemSlot rp' t) : NoteStep s t
  | take {i : Slot} {k : PrivId} (e : Endpoint) (hi : (s.proc i).rtsFlags.receiving = false) :
      NoteStep s (deliverNotify
        (s.modPrivOf i fun p => { p with notifyPending := p.notifyPending.erase k })
        (s.priv k).procNr e i)

abbrev NoteSteps : State → State → Prop := Relation.ReflTransGen NoteStep

theorem Notified.wakes {dst : Slot} (h : Notified s caller dst t) : Wakes s t := by
  cases h with
  | hand =>
    refine Wakes.deliver_rtsUnset (deliverNotify_frame ..) fun j hj => ?_
    simp [deliverNotify_deliverMsg, hj]
  | mark => exact Wakes.modPrivOf s dst fun _ => by constructor <;> rfl

theorem NoteStep.wakes (h : NoteStep s t) : Wakes s t := by
  cases h with
  | edit i hw hflags hdeliver => exact Wakes.modProc s i hw hflags hdeliver
  | hand i hw hflags =>
    refine Wakes.deliver_rtsUnset (.modProc s i hw hflags) fun j hj => ?_
    rw [State.modProc_proc_of_ne s hj]
  | unset i hf => exact Wakes.rtsUnset s i hf
  | set hi hf => exact Wakes.rtsSet s hi hf
  | backup rp => exact Wakes.modPrivOf s rp fun _ => by constructor <;> rfl
  | tick n => exact { Wakes.refl s with slots := fun hs => hs.congr (fun _ => rfl) fun _ => rfl }
  | notify h => exact h.wakes
  | signal h => exact (raiseSig_wakes ..).trans h.wakes
  | signalSelf _ h => exact ((raiseSig_wakes ..).trans (raiseSig_wakes ..)).trans h.wakes
  | @take i k e hi =>
    have hbit := Wakes.modPrivOf s i
      (f := fun p => { p with notifyPending := p.notifyPending.erase k })
      fun _ => by constructor <;> rfl
    have hframe := deliverNotify_frame (s.modPrivOf i fun p =>
      { p with notifyPending := p.notifyPending.erase k }) (s.priv k).procNr e i
    refine ⟨hbit.toIpcFrame.trans hframe, fun j hj => ?_⟩
    rw [deliverNotify_deliverMsg] at hj
    by_cases hji : j = i
    · subst hji
      exact .inr (hframe.receiving_false (hbit.receiving_false hi))
    · exact .inl (by simpa [hji] using hj)

theorem NoteSteps.wakes (h : NoteSteps s t) : Wakes s t := by
  induction h with
  | refl => exact .refl s
  | tail _ hstep ih => exact ih.trans hstep.wakes

theorem NoteStep.modMisc (s : State) (i : Slot)
    (hf : ∀ p, (∃ m v st, f p = { p with miscFlags := m, delivermsgVir := v, ipcStatus := st }) ∧
      (f p).miscFlags.deliverMsg = p.miscFlags.deliverMsg) : NoteStep s (s.modProc i f) := by
  obtain ⟨⟨m, v, st, h⟩, hd⟩ := hf (s.proc i)
  refine .edit i ?_ (by rw [h]) fun hi => .inl (hd ▸ hi)
  rw [h]
  constructor <;> simp

theorem NoteStep.ipcStatusAdd (s : State) (i : Slot) (v : Nat) :
    NoteStep s (s.modProc i (·.ipcStatusAdd v)) :=
  .edit i (Proc.ipcStatusAdd_woken _ _) (by simp) fun h => .inl (by simpa using h)

/-! ## Exits -/

/-- A call returns with `Q` or stops the kernel; for a link that has not been reset only if `P`. -/
def Exits {α : Type} (P : Prop) (Q : α → Prop) : Except Halt α → Prop
  | .ok a => Q a
  | .error h => h = .assertQLink → P

namespace Exits

variable {α : Type} {P : Prop} {Q R : α → Prop} {x : Except Halt α} (h : Exits P Q x)

include h

theorem ok {a : α} (hx : x = .ok a) : Q a := by
  rw [hx] at h
  exact h

theorem error {e : Halt} (hx : x = .error e) : e = .assertQLink → P := by
  rw [hx] at h
  exact h

theorem mono (hQ : ∀ a, Q a → R a) : Exits P R x := by
  cases x with
  | ok a => exact hQ a h
  | error e => exact h

omit h in
theorem elim (h : Exits False Q x) : Exits P Q x := by
  cases x with
  | ok a => exact h
  | error e => exact fun he => (h he).elim

end Exits

/-! ## Notifications and signals -/

/-- The delivery buffers of processes that do not wait for a message are left alone. -/
def Undisturbed (s t : State) : Prop :=
  ∀ i, (s.proc i).rtsFlags.receiving = false →
    (t.proc i).miscFlags.deliverMsg = (s.proc i).miscFlags.deliverMsg

variable (s)

theorem miniNotify_cases (caller : Slot) (e : Endpoint) : Exits False (fun a =>
    (isokendpt s e = none ∧ a.1 = s) ∨ ∃ dst, isokendpt s e = some dst ∧
      Notified s caller dst a.1 ∧ Undisturbed s a.1) (miniNotify s caller e) := by
  simp only [miniNotify]
  split
  · rename_i hnone
    exact .inl ⟨hnone, rfl⟩
  · rename_i dst hdst
    split
    · rename_i hw
      split
      · rintro ⟨⟩
      refine .inr ⟨dst, hdst, .hand, fun i hi => ?_⟩
      have hne : i ≠ dst := by
        rintro rfl
        rw [Bool.and_eq_true, willReceive_iff, hi] at hw
        simp at hw
      simp [deliverNotify_deliverMsg, hne]
    · exact .inr ⟨dst, hdst, .mark (isokendpt_eq_some hdst).2.1, fun _ _ => rfl⟩

theorem miniNotify_notes (caller : Slot) (e : Endpoint) : Exits False
    (fun a => NoteSteps s a.1 ∧ Undisturbed s a.1) (miniNotify s caller e) := by
  refine (miniNotify_cases s caller e).mono fun a h => ?_
  obtain ⟨-, heq⟩ | ⟨dst, -, hn, hd⟩ := h
  · rw [heq]
    exact ⟨.refl, fun _ _ => rfl⟩
  · exact ⟨.single (.notify hn), hd⟩

theorem notifyIf_notes (b : Bool) (src : Slot) :
    Exits False (fun t => NoteSteps s t ∧ Undisturbed s t) (notifyIf b s src) := by
  have h := miniNotify_notes s asyncmSlot (s.proc src).endpoint
  simp only [notifyIf]
  split
  · split
    · exact h.ok ‹_›
    · exact h.error ‹_›
  · exact ⟨.refl, fun _ _ => rfl⟩

theorem sendSig_cases (e : Endpoint) (sig : Nat) : Exits False
    (fun a => (a.1 = s ∧ a.2 = .einval) ∨
      ∃ rp, (s.proc rp).endpoint = e ∧ Notified (raiseSig s rp sig) systemSlot rp a.1)
    (sendSig s e sig) := by
  simp only [sendSig]
  split
  · exact .inl ⟨rfl, rfl⟩
  rename_i rp hrp
  have he := (isokendpt_eq_some hrp).2.2
  have h := miniNotify_cases (raiseSig s rp sig) systemSlot (s.proc rp).endpoint
  split
  · obtain ⟨hnone, -⟩ | ⟨dst, hdst, hn, -⟩ := h.ok ‹_›
    · have : isokendpt s e = none := by rw [← hnone, he]; rfl
      cases this.symm.trans hrp
    · have : isokendpt s e = some dst := by rw [← hdst, he]; rfl
      cases this.symm.trans hrp
      exact .inr ⟨rp, he, hn⟩
  · exact h.error ‹_›

variable {s}

theorem sendSig_notes (h : sendSig s e sig = .ok (t, r)) : NoteSteps s t := by
  obtain ⟨rfl, -⟩ | ⟨rp, -, hn⟩ := (sendSig_cases s e sig).ok h
  · exact .refl
  · exact .single (.signal hn)

theorem genericHandler_notified {hook : IrqHook} (h : genericHandler s hook = .ok t) :
    ∃ rp, Notified (raiseIrq s rp hook.notifyId) hardwareSlot rp t := by
  simp only [genericHandler] at h
  split at h
  · cases h
  rename_i rp hrp
  split at h
  · rename_i hn
    cases h
    obtain ⟨hnone, -⟩ | ⟨dst, hdst, hn, -⟩ := (miniNotify_cases ..).ok hn
    · have : isokendpt s hook.procNrE = none := hnone
      cases this.symm.trans hrp
    · have : isokendpt s hook.procNrE = some dst := hdst
      cases this.symm.trans hrp
      exact ⟨rp, hn⟩
  · cases h

theorem mustSendSig_sent (s : State) (e : Endpoint) (sig : Nat) : Exits False (fun t =>
    ∃ rp, (s.proc rp).endpoint = e ∧ Notified (raiseSig s rp sig) systemSlot rp t)
    (mustSendSig s e sig) := by
  have h := sendSig_cases s e sig
  simp only [mustSendSig]
  split
  · exact (h.ok ‹_›).resolve_left fun hr => by cases hr.2
  · rintro ⟨⟩
  · exact h.error ‹_›

section

variable (hrp : (s.proc rp).rtsFlags.slotFree = false)

include hrp

theorem signalManager_notes (mgr : Endpoint) (sig : Nat) :
    Exits False (NoteSteps s) (signalManager s rp mgr sig) := by
  simp only [signalManager]
  split
  · exact .refl
  have hmod : NoteStep s (s.modProc rp fun p => { p with pending := insert sig p.pending }) :=
    .edit rp (by constructor <;> simp) rfl fun h => .inl h
  split
  · exact .single hmod
  · refine (mustSendSig_sent ..).mono ?_
    rintro t ⟨rp', -, hn⟩
    refine .tail (.tail (.single hmod) (.set ?_ ⟨rfl, rfl, rfl, rfl, rfl⟩)) (.signal hn)
    simpa using hrp

theorem causeSigLoop_notes (n sig : Nat) : Exits False (NoteSteps s) (causeSigLoop n s rp sig) := by
  induction n generalizing s with
  | zero => rintro ⟨⟩
  | succ n ih =>
    simp only [causeSigLoop]
    split
    · split
      · split
        · rintro ⟨⟩
        · split
          · rintro ⟨⟩
          · rename_i mgr _
            have hun : NoteSteps s (rtsUnset (s.modPrivOf rp fun p =>
                { p with sigMgr := p.bakSigMgr, bakSigMgr := noneE }) mgr { noPriv := true }) :=
              .tail (.single (.backup rp)) (.unset mgr ⟨rfl, rfl, rfl, rfl⟩)
            exact (ih ((hun.wakes.proc rp).slotFree.trans hrp)).mono fun _ => hun.trans
      · refine (mustSendSig_sent ..).mono ?_
        rintro t ⟨rp', he, hn⟩
        exact .single (.signalSelf he hn)
    · exact signalManager_notes hrp _ sig

theorem sigDelayDone_notes : Exits False (NoteSteps s) (sigDelayDone s rp) := by
  have hmod : NoteStep s (s.modProc rp fun p =>
      { p with miscFlags := { p.miscFlags with sigDelay := false } }) :=
    .edit rp (by constructor <;> simp) rfl fun h => .inl h
  exact (causeSigLoop_notes ((hmod.wakes.proc rp).slotFree.trans hrp) 2 _).mono fun _ => .head hmod

end

end Gergios.Kernel
