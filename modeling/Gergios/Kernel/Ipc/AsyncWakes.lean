import Gergios.Kernel.Ipc.Wakes

/-!
# What the scans of asynchronous tables are made of

`try_deliver_senda`, `try_one`, `try_async` and `cancel_async` are compositions of writes to
a table, changes of pending bits, deliveries and notifications.
-/

namespace Gergios.Kernel

variable {s t u : State}

inductive AsynStep (s : State) : State → Prop
  | setPending {src dst : Slot} (hsys : (s.privOf src).flags.sysProc = true)
      (hdst : ¬(s.proc dst).isEmpty) : AsynStep s (setAsynPending s dst (s.privOf src).id)
  | unsetPending (dst : Slot) (k : PrivId) : AsynStep s (unsetAsynPending s dst k)
  | setTable (src : Slot) (table size : Nat) : AsynStep s (setTable s src table size)
  | clearTable (caller : Slot) : AsynStep s (clearTable s caller)
  | posted (caller : Slot) (table size : Nat) : AsynStep s (s.record (.posted caller table size))
  | insert (src : Slot) (table i : Nat) (e : AsynMsg) : AsynStep s (aInsrt s src table i e)
  | deliver (src : Slot) {dst : Slot} (addr : Nat) (m : Message)
      (hdst : (s.proc dst).rtsFlags.receiving = false) : AsynStep s (deliverAsyn s src dst addr m)
  | hand (src dst : Slot) (addr : Nat) (m : Message) : AsynStep s (sendaDeliver s src dst addr m)
  | store (i : Slot) (mem : Nat → Option AsynMsg) :
      AsynStep s { s with umem := Function.update s.umem i mem }

inductive WakeStep (s : State) : State → Prop
  | note {t : State} (h : NoteStep s t) : WakeStep s t
  | asyn {t : State} (h : AsynStep s t) : WakeStep s t

abbrev WakeSteps : State → State → Prop := Relation.ReflTransGen WakeStep

/-- The slot is in use and its process does not wait for a message. -/
structure Listens (s : State) (i : Slot) : Prop where
  slotFree : (s.proc i).rtsFlags.slotFree = false
  receiving : (s.proc i).rtsFlags.receiving = false

variable {i dst src : Slot} {c : Scan} {r : Errno} {receiveE : Endpoint}

theorem Listens.wakes (h : Listens s i) (hw : Wakes s t) : Listens t i :=
  ⟨(hw.proc i).slotFree.trans h.slotFree, hw.receiving_false h.receiving⟩

theorem deliverAsyn_frame (s : State) (src dst : Slot) (addr : Nat) (m : Message) :
    IpcFrame s (deliverAsyn s src dst addr m) :=
  (IpcFrame.modProc s dst (Proc.deliver_woken _ _) rfl).trans (IpcFrame.record _ rfl)

theorem Wakes.setUmem (s : State) (m : Slot → Nat → Option AsynMsg) :
    Wakes s { s with umem := m } :=
  ⟨{ IpcFrame.refl s with slots := fun hs => ⟨hs.isEmpty, hs.procPtr⟩ }, fun _ h => .inl h⟩

theorem AsynStep.wakes (h : AsynStep s t) : Wakes s t := by
  cases h with
  | @setPending _ dst => exact Wakes.modPrivOf s dst fun _ => by constructor <;> rfl
  | unsetPending dst => exact Wakes.modPrivOf s dst fun _ => by constructor <;> rfl
  | setTable src => exact Wakes.modPrivOf s src fun _ => by constructor <;> rfl
  | clearTable caller => exact Wakes.modPrivOf s caller fun _ => by constructor <;> rfl
  | posted => exact Wakes.record s rfl
  | insert src table i e =>
    unfold aInsrt
    split
    · exact .setUmem s _
    · exact .refl s
  | deliver src addr m hdst =>
    exact (Wakes.modProc s _ (Proc.deliver_woken _ _) rfl fun _ => .inr hdst).trans
      (Wakes.record _ rfl)
  | hand src dst addr m =>
    refine Wakes.deliver_rtsUnset ((deliverAsyn_frame s src dst addr m).trans
      (.modProc _ dst (Proc.ipcStatusAdd_woken _ _) (by simp))) fun j hj => ?_
    simp [State.modProc_proc, hj, deliverAsyn]
  | store i mem => exact .setUmem s _

theorem WakeSteps.wakes (h : WakeSteps s t) : Wakes s t := by
  induction h with
  | refl => exact .refl s
  | tail _ hstep ih =>
    cases hstep with
    | note hn => exact ih.trans hn.wakes
    | asyn ha => exact ih.trans ha.wakes

theorem NoteSteps.steps (h : NoteSteps s t) : WakeSteps s t := by
  induction h with
  | refl => exact .refl
  | tail _ hstep ih => exact ih.tail (.note hstep)

theorem AsynStep.step (h : AsynStep s t) : WakeSteps s t := .single (.asyn h)

theorem WakeSteps.sysProc (h : WakeSteps s t) (hi : (s.privOf i).flags.sysProc = true) :
    (t.privOf i).flags.sysProc = true := by
  rw [(h.wakes.privOf i).flags, hi]

/-! ## Posting a table -/

section Senda

variable {caller : Slot}

theorem Scan.store_steps (c : Scan) (src : Slot) (table i : Nat) (e : AsynMsg) (r : Errno) :
    WakeSteps c.state (c.store src table i e r).state := (AsynStep.insert ..).step

theorem sendaVerdict_leave {e : AsynMsg} (h : sendaVerdict s caller e = .leave dst) :
    isokendpt s e.dst = some dst := by
  simp only [sendaVerdict] at h
  split at h
  · cases h
  split at h
  · cases h
  split at h
  · cases h
  split at h
  · cases h
  rename_i hcheck
  split at h
  · cases h
  cases h
  simp only [sendaCheck] at hcheck
  split at hcheck
  · cases hcheck
  rename_i hi
  repeat' split at hcheck
  all_goals cases hcheck
  exact hi

theorem sendaEntry_steps (table : Nat)
    (hsys : (c.state.privOf caller).flags.sysProc = true) (i : Nat) :
    WakeSteps c.state (sendaEntry caller table c i).state := by
  simp only [sendaEntry]
  split
  · exact .refl
  split
  · exact .refl
  · exact Scan.store_steps ..
  · exact (AsynStep.hand ..).step.trans (AsynStep.insert ..).step
  · rename_i hv
    exact (AsynStep.setPending hsys (isokendpt_eq_some (sendaVerdict_leave hv)).2.1).step

theorem sendaFold_steps (table : Nat) (l : List Nat)
    (hsys : (c.state.privOf caller).flags.sysProc = true) :
    WakeSteps c.state (l.foldl (sendaEntry caller table) c).state := by
  induction l generalizing c with
  | nil => exact .refl
  | cons i l ih =>
    have hentry := sendaEntry_steps table hsys i
    exact hentry.trans (ih (hentry.sysProc hsys))

theorem tryDeliverSenda_steps (hsys : (s.privOf caller).flags.sysProc = true) (table size : Nat) :
    Exits False (fun a => WakeSteps s a.1) (tryDeliverSenda s caller table size) := by
  have hpost : WakeSteps s ((clearTable s caller).record (.posted caller table size)) :=
    (AsynStep.clearTable caller).step.trans (AsynStep.posted caller table size).step
  simp only [tryDeliverSenda]
  split
  · exact hpost
  split
  · exact hpost
  split
  · exact (notifyIf_notes ..).error ‹_›
  rename_i hn
  have hfold := sendaFold_steps table (List.range size) (c := ⟨_, true, false⟩)
    (hpost.sysProc hsys)
  have hscan := (hpost.trans hfold).trans ((notifyIf_notes ..).ok hn).1.steps
  dsimp only [Exits]
  split
  · exact hscan
  · exact hscan.trans (AsynStep.setTable ..).step

end Senda

/-! ## Receiving from a table -/

def OneEnd.state : OneEnd → State
  | .fault s => s
  | .finish c _ => c.state

theorem tryOneLoop_steps (receiveE : Endpoint) (src : Slot) (table n i : Nat) (c : Scan)
    (hdst : (c.state.proc dst).rtsFlags.receiving = false) :
    WakeSteps c.state (tryOneLoop receiveE src dst table n i c).state := by
  induction n generalizing i c with
  | zero => exact .refl
  | succ n ih =>
    simp only [tryOneLoop]
    split
    · exact .refl
    split
    · exact ih _ _ hdst
    · exact ih _ { c with done := false } hdst
    · exact Scan.store_steps _ _ _ _ _ _
    · exact (AsynStep.deliver _ _ _ hdst).step.trans (AsynStep.insert ..).step

@[simp]
theorem aInsrt_proc (s : State) (src : Slot) (table i : Nat) (e : AsynMsg) :
    (aInsrt s src table i e).proc = s.proc := by
  unfold aInsrt
  split <;> rfl

theorem tryOneLoop_proc {table n i : Nat}
    (h : ∀ c', tryOneLoop receiveE src dst table n i c ≠ .finish c' .ok) :
    (tryOneLoop receiveE src dst table n i c).state.proc = c.state.proc := by
  induction n generalizing i c with
  | zero => rfl
  | succ n ih =>
    rw [tryOneLoop] at h ⊢
    cases he : aRetr c.state src table i with
    | none => rfl
    | some e =>
      simp only [he] at h ⊢
      cases hv : oneVerdict c.state receiveE src dst e with
      | skip => simp only [hv] at h ⊢; exact ih h
      | leave _ => simp only [hv] at h ⊢; exact ih h
      | refuse r => simp [OneEnd.state, Scan.store]
      | accept _ => simp only [hv] at h; exact absurd rfl (h _)

/-- A scan that does not end with a message leaves the delivery buffer of the receiver alone. -/
theorem tryOne_steps (hdst : Listens s dst) (receiveE : Endpoint) (src : Slot) :
    Exits False (fun a => WakeSteps s a.1 ∧ (a.2 ≠ .ok →
      (a.1.proc dst).miscFlags.deliverMsg = (s.proc dst).miscFlags.deliverMsg))
    (tryOne s receiveE src dst) := by
  have hun := (AsynStep.unsetPending (s := s) dst (s.privOf src).id).step
  have hloop := hun.trans (tryOneLoop_steps receiveE src (s.privOf src).asyntab
    (s.privOf src).asynsize 0 ⟨unsetAsynPending s dst (s.privOf src).id, true, false⟩
    (hdst.wakes hun.wakes).receiving)
  simp only [tryOne]
  split
  · exact ⟨.refl, fun _ => rfl⟩
  rename_i hsys
  split
  · exact ⟨hun, fun _ => rfl⟩
  split
  · exact ⟨hun, fun _ => rfl⟩
  split
  · exact ⟨hun, fun _ => rfl⟩
  split
  · rename_i u hend
    have hproc := tryOneLoop_proc (h := fun c' hc => by rw [hend] at hc; cases hc)
    rw [hend] at hloop hproc
    exact ⟨hloop, fun _ => congrArg (fun p => (p dst).miscFlags.deliverMsg) hproc⟩
  · rename_i c r hend
    have hnotify := notifyIf_notes c.state c.notify src
    split
    · exact hnotify.error ‹_›
    rename_i u hn
    obtain ⟨hnotes, hd⟩ := hnotify.ok hn
    have hu : r ≠ .ok → (u.proc dst).miscFlags.deliverMsg = (s.proc dst).miscFlags.deliverMsg := by
      intro hr
      have hproc := tryOneLoop_proc (h := fun c' hc => by rw [hend] at hc; cases hc; exact hr rfl)
      rw [hend] at hproc
      have hc : c.state.proc = s.proc := hproc
      rw [hd dst (by rw [hc]; exact hdst.receiving), hc]
    rw [hend] at hloop
    have hall : WakeSteps s u := Relation.ReflTransGen.trans hloop hnotes.steps
    dsimp only [Exits]
    split
    · exact ⟨hall.trans (AsynStep.setTable ..).step, hu⟩
    rw [← (hall.wakes.privOf src).id]
    refine ⟨hall.trans (AsynStep.setPending (hall.sysProc (by simpa using hsys)) ?_).step, hu⟩
    intro hempty
    have hu : (u.proc dst).rtsFlags = { slotFree := true } := hempty
    have hfree := (hdst.wakes hall.wakes).slotFree
    rw [hu] at hfree
    cases hfree

/-! ## The death of a destination -/

theorem cancelLoop_steps (src dst : Slot) (table n i : Nat) (c : Scan) :
    WakeSteps c.state (cancelLoop src dst table n i c).1.state := by
  induction n generalizing i c with
  | zero => exact .refl
  | succ n ih =>
    simp only [cancelLoop]
    split
    · exact .refl
    split
    · exact (Scan.store_steps _ _ _ _ _ _).trans (ih _ _)
    · exact ih _ { c with done := false }
    · exact ih _ _

theorem cancelAsync_steps (h : cancelAsync s src dst = .ok (t, r)) : WakeSteps s t := by
  have hun := (AsynStep.setTable (s := s) src noTable 0).step.trans
    (AsynStep.unsetPending dst (s.privOf src).id).step
  have hloop := hun.trans (cancelLoop_steps src dst (s.privOf src).asyntab (s.privOf src).asynsize 0
    ⟨unsetAsynPending (setTable s src noTable 0) dst (s.privOf src).id, true, false⟩)
  simp only [cancelAsync] at h
  split at h
  · cases h; exact .refl
  split at h
  · cases h; exact hun
  split at h
  · cases h; exact hun
  split at h
  · rename_i hend
    cases h
    rw [hend] at hloop
    exact hloop
  · rename_i hend
    rw [hend] at hloop
    split at h
    · cases h
    rename_i hn
    cases h
    have hall := Relation.ReflTransGen.trans hloop ((notifyIf_notes ..).ok hn).1.steps
    split
    · exact hall
    · exact hall.trans (AsynStep.setTable ..).step

end Gergios.Kernel
