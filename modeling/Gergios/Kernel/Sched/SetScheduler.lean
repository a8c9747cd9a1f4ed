import Gergios.Kernel.Sched.RealTime

/-!
# Changing the class of a process

`do_setscheduler` stores the new class and the new queue number first and takes the process off
its queue afterwards, when `dequeue` already looks in the new queue.
-/

namespace Gergios.Kernel

open Lib Function

def pmProcNr : Endpoint := 0
def rsProcNr : Endpoint := 2

/-- `RTS_SET` and `RTS_UNSET` of `RTS_NO_QUANTUM` around the new quantum. -/
def requeue (s : State) (p : Slot) (ms : Nat) : State :=
  let s := rtsSet s p { noQuantum := true }
  let s := s.modProc p fun r => { r with cpuTimeLeft := ms2CpuTime s ms }
  rtsUnset s p { noQuantum := true }

def doSetscheduler (s : State) (caller : Slot) (endpt : Endpoint)
    (schedClass rtPrio rrQuantum : Int) : State × Errno :=
  match isokendpt s endpt with
  | none => (s, .einval)
  | some p =>
    let callerEp := (s.proc caller).endpoint
    if schedClass ≠ 0 ∧ callerEp ≠ (s.proc p).endpoint ∧ callerEp ≠ pmProcNr ∧
        callerEp ≠ rsProcNr then (s, .eperm)
    else
      match schedRtSetClass s p schedClass rtPrio rrQuantum with
      | none => (s, .einval)
      | some t =>
        if (t.proc p).isRunnable then
          (requeue t p (if schedClass = 2 ∧ 0 < rrQuantum then rrQuantum.toNat else rtRrQuantumMs),
            .ok)
        else (t, .ok)

/-- What `sched_rt_set_class` makes of a process. -/
structure ClassSet (cls prio : Int) (r r' : Proc) : Prop where
  keep : r' = { r with
    schedClass := r'.schedClass, rtPriority := r'.rtPriority, priority := r'.priority
    quantumSizeMs := r'.quantumSizeMs, cpuTimeLeft := r'.cpuTimeLeft }
  kind : (cls = 0 ∧ r'.schedClass = .other ∧ r'.priority = r.priority ∧
      r'.quantumSizeMs = r.quantumSizeMs) ∨
    (cls ≠ 0 ∧ rtPrioMin ≤ prio ∧ prio ≤ rtPrioMax ∧ r'.priority = (rtPrioToQueue prio).toNat ∧
      r'.rtPriority = prio.toNat ∧
      (r'.schedClass = .fifo ∨ r'.schedClass = .rr ∧ 0 < r'.quantumSizeMs))

section Spec

variable {s t : State} {caller p : Slot} {e : Endpoint} {cls prio quantum : Int}

theorem schedRtSetClass_spec (h : schedRtSetClass s p cls prio quantum = some t) :
    ∃ r, t = s.modProc p (fun _ => r) ∧ ClassSet cls prio (s.proc p) r := by
  simp only [schedRtSetClass] at h
  split at h
  · cases h
  · rename_i hcls
    cases h
    refine ⟨_, rfl, rfl, .inl ⟨?_, rfl, rfl, rfl⟩⟩
    unfold SchedClass.ofInt at hcls
    split at hcls <;> simp_all
  · rename_i k hother hcls
    split at h
    · cases h
    rename_i hprio
    cases h
    have hne : cls ≠ 0 := by
      rintro rfl
      exact hother (Option.some.inj hcls.symm)
    refine ⟨_, rfl, ?_, .inr ⟨hne, by omega, by omega, ?_⟩⟩
    · split <;> rfl
    · cases k with
      | other => exact absurd rfl hother
      | fifo => exact ⟨rfl, rfl, .inl rfl⟩
      | rr =>
        refine ⟨rfl, rfl, .inr ⟨rfl, ?_⟩⟩
        change 0 < if 0 < quantum then quantum.toNat else rtRrQuantumMs
        split
        · omega
        · decide

theorem ClassSet.isRunnable {r r' : Proc} (h : ClassSet cls prio r r') :
    r'.isRunnable ↔ r.isRunnable := by
  rw [h.keep]
  rfl

theorem doSetscheduler_cases {code : Errno}
    (h : doSetscheduler s caller e cls prio quantum = (t, code)) :
    t = s ∧ code ≠ .ok ∨ ∃ p r ms, isokendpt s e = some p ∧ ClassSet cls prio (s.proc p) r ∧
      t = if (s.proc p).isRunnable then requeue (s.modProc p fun _ => r) p ms
        else s.modProc p fun _ => r := by
  simp only [doSetscheduler] at h
  split at h
  · cases h
    exact .inl ⟨rfl, by simp⟩
  rename_i p hp
  split at h
  · cases h
    exact .inl ⟨rfl, by simp⟩
  split at h
  · cases h
    exact .inl ⟨rfl, by simp⟩
  rename_i u hu
  obtain ⟨r, rfl, hr⟩ := schedRtSetClass_spec hu
  simp only [State.modProc_proc_self, hr.isRunnable] at h
  by_cases hrun : (s.proc p).isRunnable
  · rw [if_pos hrun] at h
    cases h
    exact .inr ⟨p, r, _, hp, hr, (if_pos hrun).symm⟩
  · rw [if_neg hrun] at h
    cases h
    exact .inr ⟨p, r, 0, hp, hr, (if_neg hrun).symm⟩

end Spec

end Gergios.Kernel
