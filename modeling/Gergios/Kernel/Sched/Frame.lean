import Gergios.Kernel.Sched.Invariant

/-!
# What setting and clearing flags leaves alone

A change of run-time flags may edit the run queues and may preempt the current process.
Everything else in the tables stays: for the rest of the kernel `RTS_SET` sets the flag and
`RTS_UNSET` clears it.
-/

namespace Gergios.Kernel

/-- `t` differs from `s` in run-time flags, links, heads and tails only. -/
structure FlagEdit (s t : State) : Prop where
  proc : ∀ j, t.proc j =
    { s.proc j with nextready := (t.proc j).nextready, rtsFlags := (t.proc j).rtsFlags }
  cpu : ∀ c, t.cpu c =
    { s.cpu c with runQHead := (t.cpu c).runQHead, runQTail := (t.cpu c).runQTail }
  rest : t = { s with proc := t.proc, cpu := t.cpu }

namespace FlagEdit

variable {s t u : State}

protected theorem refl (s : State) : FlagEdit s s := ⟨fun _ => rfl, fun _ => rfl, rfl⟩

protected theorem trans (h : FlagEdit s t) (h' : FlagEdit t u) : FlagEdit s u where
  proc j := by rw [h'.proc j, h.proc j]
  cpu c := by rw [h'.cpu c, h.cpu c]
  rest := by rw [h'.rest, h.rest]

theorem cpuid (h : FlagEdit s t) : t.cpuid = s.cpuid := by rw [h.rest]

theorem priv (h : FlagEdit s t) : t.priv = s.priv := by rw [h.rest]

theorem modFlags (s : State) (i : Slot) (f : RtsFlags → RtsFlags) :
    FlagEdit s (s.modProc i fun p => { p with rtsFlags := f p.rtsFlags }) where
  proc j := by
    rw [State.modProc_proc]
    split
    · subst j; rfl
    · rfl
  cpu _ := rfl
  rest := rfl

end FlagEdit

theorem QueueEdit.flagEdit {s t : State} (h : QueueEdit s t) : FlagEdit s t where
  proc j := by rw [h.proc j]
  cpu := h.cpu
  rest := h.rest

variable (s : State) (i : Slot) (f : RtsFlags)

theorem rtsSet_edit : FlagEdit s (rtsSet s i f) := by
  simp only [rtsSet]
  split
  · exact (FlagEdit.modFlags s i (·.set f)).trans (dequeue_edit _ i).flagEdit
  · exact FlagEdit.modFlags s i (·.set f)

theorem preemptCurrent_edit : FlagEdit s (preemptCurrent s i) := by
  simp only [preemptCurrent]
  repeat' split
  all_goals first | exact FlagEdit.refl s | exact rtsSet_edit s _ _

theorem enqueue_edit : FlagEdit s (enqueue s i) :=
  (enqueueTail_edit s i).flagEdit.trans (preemptCurrent_edit _ i)

theorem rtsUnset_edit : FlagEdit s (rtsUnset s i f) := by
  simp only [rtsUnset]
  split
  · exact (FlagEdit.modFlags s i (·.unset f)).trans (enqueue_edit _ i)
  · exact FlagEdit.modFlags s i (·.unset f)

theorem requeuePreempted_edit : FlagEdit s (requeuePreempted s i) := by
  simp only [requeuePreempted]
  split
  · have hmod := FlagEdit.modFlags s i (·.unset { preempted := true })
    split
    · split
      · exact hmod.trans (enqueueHead_edit _ i).flagEdit
      · exact hmod.trans (enqueue_edit _ i)
    · exact hmod
  · exact FlagEdit.refl s

/-! ## Flags -/

variable (j : Slot)

theorem rtsSet_rtsFlags : ((rtsSet s i f).proc j).rtsFlags =
    if j = i then (s.proc j).rtsFlags.set f else (s.proc j).rtsFlags := by
  have hmod : ((s.modProc i (·.setRts f)).proc j).rtsFlags =
      if j = i then (s.proc j).rtsFlags.set f else (s.proc j).rtsFlags := by
    rw [State.modProc_proc]
    split
    · subst j; rfl
    · rfl
  simp only [rtsSet]
  split
  · rw [(dequeue_edit _ i).rtsFlags, hmod]
  · exact hmod

theorem preemptCurrent_rtsFlags : ((preemptCurrent s i).proc j).rtsFlags = (s.proc j).rtsFlags ∨
      (s.cpu s.cpuid).procPtr = some j ∧
        ((preemptCurrent s i).proc j).rtsFlags = (s.proc j).rtsFlags.set { preempted := true } := by
  simp only [preemptCurrent]
  split
  · split
    · exact .inl rfl
    · rename_i p hp
      split
      · rw [rtsSet_rtsFlags]
        split
        · subst j; exact .inr ⟨hp, rfl⟩
        · exact .inl rfl
      · exact .inl rfl
  · exact .inl rfl

theorem rtsUnset_rtsFlags :
    let g := if j = i then (s.proc j).rtsFlags.unset f else (s.proc j).rtsFlags
    ((rtsUnset s i f).proc j).rtsFlags = g ∨ (s.cpu s.cpuid).procPtr = some j ∧
        ((rtsUnset s i f).proc j).rtsFlags = g.set { preempted := true } := by
  have hmod : ((s.modProc i (·.unsetRts f)).proc j).rtsFlags =
      if j = i then (s.proc j).rtsFlags.unset f else (s.proc j).rtsFlags := by
    rw [State.modProc_proc]
    split
    · subst j; rfl
    · rfl
  simp only [rtsUnset]
  split
  · have htail := enqueueTail_edit (s.modProc i (·.unsetRts f)) i
    have hpre := preemptCurrent_rtsFlags
      (enqueueTail (s.modProc i (·.unsetRts f)) i) i j
    rw [htail.rtsFlags, hmod, htail.procPtr, htail.cpuid] at hpre
    exact hpre
  · exact .inl hmod

/-! ## The rest of the tables -/

@[simp]
theorem rtsSet_rest : (rtsSet s i f).priv = s.priv ∧ (rtsSet s i f).vmrequest = s.vmrequest ∧
    (rtsSet s i f).umem = s.umem ∧ (rtsSet s i f).uwritable = s.uwritable ∧
    (rtsSet s i f).macHooks = s.macHooks ∧ (rtsSet s i f).monotonic = s.monotonic ∧
    (rtsSet s i f).cpuid = s.cpuid ∧ (rtsSet s i f).log = s.log := by
  rw [(rtsSet_edit s i f).rest]
  simp

@[simp]
theorem rtsUnset_rest : (rtsUnset s i f).priv = s.priv ∧ (rtsUnset s i f).vmrequest = s.vmrequest ∧
    (rtsUnset s i f).umem = s.umem ∧ (rtsUnset s i f).uwritable = s.uwritable ∧
    (rtsUnset s i f).macHooks = s.macHooks ∧ (rtsUnset s i f).monotonic = s.monotonic ∧
    (rtsUnset s i f).cpuid = s.cpuid ∧ (rtsUnset s i f).log = s.log := by
  rw [(rtsUnset_edit s i f).rest]
  simp

@[simp]
theorem rtsSet_procPtr (c : Nat) : ((rtsSet s i f).cpu c).procPtr = (s.cpu c).procPtr := by
  rw [(rtsSet_edit s i f).cpu]

@[simp]
theorem rtsUnset_procPtr (c : Nat) : ((rtsUnset s i f).cpu c).procPtr = (s.cpu c).procPtr := by
  rw [(rtsUnset_edit s i f).cpu]

/-! The fields of a process that the IPC code works with. -/

@[simp]
theorem rtsSet_fields :
    ((rtsSet s i f).proc j).nr = (s.proc j).nr ∧ ((rtsSet s i f).proc j).priv = (s.proc j).priv ∧
    ((rtsSet s i f).proc j).miscFlags = (s.proc j).miscFlags ∧
    ((rtsSet s i f).proc j).callerQ = (s.proc j).callerQ ∧
    ((rtsSet s i f).proc j).qLink = (s.proc j).qLink ∧
    ((rtsSet s i f).proc j).getfromE = (s.proc j).getfromE ∧
    ((rtsSet s i f).proc j).sendtoE = (s.proc j).sendtoE ∧
    ((rtsSet s i f).proc j).endpoint = (s.proc j).endpoint ∧
    ((rtsSet s i f).proc j).sendmsg = (s.proc j).sendmsg ∧
    ((rtsSet s i f).proc j).delivermsg = (s.proc j).delivermsg ∧
    ((rtsSet s i f).proc j).vmrequest = (s.proc j).vmrequest := by
  rw [(rtsSet_edit s i f).proc j]
  simp

@[simp]
theorem rtsUnset_fields : ((rtsUnset s i f).proc j).nr = (s.proc j).nr ∧
    ((rtsUnset s i f).proc j).priv = (s.proc j).priv ∧
    ((rtsUnset s i f).proc j).miscFlags = (s.proc j).miscFlags ∧
    ((rtsUnset s i f).proc j).callerQ = (s.proc j).callerQ ∧
    ((rtsUnset s i f).proc j).qLink = (s.proc j).qLink ∧
    ((rtsUnset s i f).proc j).getfromE = (s.proc j).getfromE ∧
    ((rtsUnset s i f).proc j).sendtoE = (s.proc j).sendtoE ∧
    ((rtsUnset s i f).proc j).endpoint = (s.proc j).endpoint ∧
    ((rtsUnset s i f).proc j).sendmsg = (s.proc j).sendmsg ∧
    ((rtsUnset s i f).proc j).delivermsg = (s.proc j).delivermsg ∧
    ((rtsUnset s i f).proc j).vmrequest = (s.proc j).vmrequest := by
  rw [(rtsUnset_edit s i f).proc j]
  simp

/-! The flags that the IPC code tests are as the macros say. -/

@[simp]
theorem rtsSet_flags : ((rtsSet s i f).proc j).rtsFlags.slotFree =
      ((s.proc j).rtsFlags.slotFree || (decide (j = i) && f.slotFree)) ∧
    ((rtsSet s i f).proc j).rtsFlags.sending =
      ((s.proc j).rtsFlags.sending || (decide (j = i) && f.sending)) ∧
    ((rtsSet s i f).proc j).rtsFlags.receiving =
      ((s.proc j).rtsFlags.receiving || (decide (j = i) && f.receiving)) ∧
    ((rtsSet s i f).proc j).rtsFlags.noEndpoint =
      ((s.proc j).rtsFlags.noEndpoint || (decide (j = i) && f.noEndpoint)) ∧
    ((rtsSet s i f).proc j).rtsFlags.vmRequest =
      ((s.proc j).rtsFlags.vmRequest || (decide (j = i) && f.vmRequest)) := by
  rw [rtsSet_rtsFlags]
  by_cases h : j = i <;> simp [h]

@[simp]
theorem rtsUnset_flags : ((rtsUnset s i f).proc j).rtsFlags.slotFree =
      ((s.proc j).rtsFlags.slotFree && !(decide (j = i) && f.slotFree)) ∧
    ((rtsUnset s i f).proc j).rtsFlags.sending =
      ((s.proc j).rtsFlags.sending && !(decide (j = i) && f.sending)) ∧
    ((rtsUnset s i f).proc j).rtsFlags.receiving =
      ((s.proc j).rtsFlags.receiving && !(decide (j = i) && f.receiving)) ∧
    ((rtsUnset s i f).proc j).rtsFlags.noEndpoint =
      ((s.proc j).rtsFlags.noEndpoint && !(decide (j = i) && f.noEndpoint)) ∧
    ((rtsUnset s i f).proc j).rtsFlags.vmRequest =
      ((s.proc j).rtsFlags.vmRequest && !(decide (j = i) && f.vmRequest)) := by
  rcases rtsUnset_rtsFlags s i f j with h | ⟨-, h⟩ <;> rw [h] <;> by_cases hj : j = i <;> simp [hj]

end Gergios.Kernel
