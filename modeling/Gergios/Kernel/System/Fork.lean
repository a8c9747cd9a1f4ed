import Gergios.Kernel.Ipc.Notify

/-!
# The birth of a process

`do_fork` copies the slot of the parent into a free slot and gives the child a new endpoint.
Accounting, timers, the name and the FPU state are not part of the model.
-/

namespace Gergios.Kernel

/-- The generation after that of the endpoint `e`. -/
def nextGeneration (e : Endpoint) : Int :=
  if endpointG e + 1 ≥ endpointMaxGeneration then 1 else endpointG e + 1

/-- The child's slot after the copy; `old` is what was there before. -/
def Proc.forkChild (parent old : Proc) (rpc : Slot) : Proc :=
  { parent with
    nr := procNr rpc
    endpoint := mkEndpoint (nextGeneration old.endpoint) (procNr rpc)
    retreg := .ok
    cpuTimeLeft := 0
    pending := ∅ }

def Proc.dropPriv (p : Proc) : Proc :=
  { p with priv := userPrivId, rtsFlags := p.rtsFlags.set { noPriv := true } }

def forkSlot (s : State) (rpp rpc : Slot) (vmInhibit : Bool) : State :=
  let t := s.modProc rpc fun old => (s.proc rpp).forkChild old rpc
  let t := rtsSet t rpc { noQuantum := true }
  let t := if (s.privOf rpp).flags.sysProc then t.modProc rpc Proc.dropPriv else t
  let t := if vmInhibit then rtsSet t rpc { vmInhibit := true } else t
  rtsUnset t rpc { signaled := true, sigPending := true, pStop := true }

def doFork (s : State) (endpt : Endpoint) (rpc : Slot) (vmInhibit : Bool) :
    Except Halt (State × Errno) :=
  match isokendpt s endpt with
  | none => .ok (s, .einval)
  | some rpp =>
    if (s.proc rpp).isEmpty ∨ ¬(s.proc rpc).isEmpty then .ok (s, .einval)
    else if (s.proc rpp).miscFlags.deliverMsg then .error .assertDelivermsg
    else if ¬(s.proc rpp).rtsFlags.receiving then .ok (s, .einval)
    else .ok (forkSlot s rpp rpc vmInhibit, .ok)

variable {s t : State} {rpp rpc : Slot} {vmInhibit : Bool}

theorem forkSlot_of_ne (s : State) (rpp : Slot) (vmInhibit : Bool) {rpc j : Slot} (hj : j ≠ rpc) :
    ((forkSlot s rpp rpc vmInhibit).proc j).callerQ = (s.proc j).callerQ ∧
    ((forkSlot s rpp rpc vmInhibit).proc j).qLink = (s.proc j).qLink ∧
    ((forkSlot s rpp rpc vmInhibit).proc j).sendtoE = (s.proc j).sendtoE ∧
    ((forkSlot s rpp rpc vmInhibit).proc j).endpoint = (s.proc j).endpoint ∧
    ((forkSlot s rpp rpc vmInhibit).proc j).sendmsg = (s.proc j).sendmsg ∧
    ((forkSlot s rpp rpc vmInhibit).proc j).rtsFlags.sending = (s.proc j).rtsFlags.sending ∧
    ((forkSlot s rpp rpc vmInhibit).proc j).rtsFlags.slotFree = (s.proc j).rtsFlags.slotFree := by
  simp only [forkSlot]
  split <;> split <;> simp [State.modProc_proc, hj]

theorem forkSlot_log : (forkSlot s rpp rpc vmInhibit).log = s.log := by
  simp only [forkSlot]
  split <;> split <;> simp

theorem forkSlot_self : ((forkSlot s rpp rpc vmInhibit).proc rpc).callerQ = (s.proc rpp).callerQ ∧
    ((forkSlot s rpp rpc vmInhibit).proc rpc).endpoint =
      mkEndpoint (nextGeneration (s.proc rpc).endpoint) (procNr rpc) := by
  simp only [forkSlot]
  split <;> split <;> simp [Proc.forkChild, Proc.dropPriv]

theorem doFork_cases {endpt : Endpoint} {r : Errno}
    (h : doFork s endpt rpc vmInhibit = .ok (t, r)) :
    t = s ∨ ∃ rpp, isokendpt s endpt = some rpp ∧ ¬(s.proc rpp).isEmpty ∧ (s.proc rpc).isEmpty ∧
      t = forkSlot s rpp rpc vmInhibit := by
  simp only [doFork] at h
  split at h
  · cases h; exact .inl rfl
  rename_i rpp hrpp
  split at h
  · cases h; exact .inl rfl
  rename_i hempty
  rw [not_or, not_not] at hempty
  split at h
  · cases h
  split at h
  · cases h; exact .inl rfl
  · cases h
    exact .inr ⟨rpp, hrpp, hempty.1, hempty.2, rfl⟩

end Gergios.Kernel
