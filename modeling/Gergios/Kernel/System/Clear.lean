import Gergios.Kernel.Ipc.Sync
import Gergios.Kernel.System.VmRequest

/-!
# The death of a process

`clear_endpoint` takes a process out of the queue it waits in, tells everybody who waits for
it or has sent to it, and takes back its request to VM. Its slot stays in use, marked
`RTS_NO_ENDPOINT`, until the slot itself is cleared.
-/

namespace Gergios.Kernel

open Lib

variable (s : State)

/-- The loop of `clear_ipc` over the queue that `rc` should be in. -/
def removeCaller (target rc : Slot) : Except Halt State :=
  match walk (fun j => (s.proc j).qLink) (· == rc) (nrSlots + 1) none (s.proc target).callerQ with
  | none => .error .hang
  | some none => .ok s
  | some (some (prev, _)) => .ok (s.writeCallerQ target prev (s.proc rc).qLink)

variable (rc : Slot)

def clearIpc : Except Halt State :=
  if (s.proc rc).rtsFlags.sending then
    match okendpt s (s.proc rc).sendtoE with
    | .error h => .error h
    | .ok target =>
      match removeCaller s target rc with
      | .error h => .error h
      | .ok t => .ok (rtsUnset (rtsUnset t rc { sending := true }) rc { receiving := true })
  else .ok (rtsUnset s rc { receiving := true })

/-- The loop over the processes that have asynchronous messages for `rc`. -/
def cancelSenders (rc : Slot) : Nat → State → Except Halt State
  | 0, _ => .error .hang
  | n + 1, s =>
    match hasPending (s.privOf rc).asynPending none with
    | none => .ok s
    | some k =>
      match procAddr (s.priv k).procNr with
      | none => .error .panicProc
      | some src =>
        match cancelAsync s src rc with
        | .error h => .error h
        | .ok r => cancelSenders rc n r.1

/-- One process that is not empty: its bits for `rc`, and its wait if that is for `rc`. -/
def clearRef (callerRet : Errno) (s : State) (rp : Slot) : Except Halt State :=
  if (s.proc rp).isEmpty then .ok s
  else
    let id := (s.privOf rc).id
    let t := s.modPrivOf rp fun p => { p with
      notifyPending := p.notifyPending.erase id
      asynPending := p.asynPending.erase id }
    if (t.proc rp).blockedOn = (t.proc rc).endpoint then
      clearIpc (t.modProc rp fun p => { p with retreg := callerRet }) rp
    else .ok t

def clearRefs (rc : Slot) (callerRet : Errno) : List Slot → State → Except Halt State
  | [], s => .ok s
  | rp :: rps, s =>
    match clearRef rc callerRet s rp with
    | .error h => .error h
    | .ok t => clearRefs rc callerRet rps t

/-- The table from `BEG_PROC_ADDR` to `END_PROC_ADDR`. -/
def procAddrs : List Slot := List.finRange (nrTasks + nrProcs)

theorem mem_procAddrs (i : Slot) : i ∈ procAddrs := List.mem_finRange i

def clearIpcRefs (callerRet : Errno) : Except Halt State :=
  match cancelSenders rc (nrSysProcs + 1) s with
  | .error h => .error h
  | .ok t => clearRefs rc callerRet procAddrs t

/-- The first writes of `clear_endpoint`. -/
def markDead : State :=
  let t := (rtsSet s rc { noEndpoint := true }).record (.cleared rc (s.proc rc).endpoint)
  if (t.privOf rc).flags.sysProc then t.modPrivOf rc fun p => { p with asynsize := 0 } else t

def clearEndpoint : Except Halt State :=
  if (s.proc rc).isEmpty then .error .panicProc
  else
    match clearIpc (markDead s rc) rc with
    | .error h => .error h
    | .ok t =>
      match clearIpcRefs t rc .edeadsrcdst with
      | .error h => .error h
      | .ok u => clearMemreq u rc

end Gergios.Kernel
