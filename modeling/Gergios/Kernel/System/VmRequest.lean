import Gergios.Kernel.Ipc.Notify

/-!
# Memory requests to VM

A process that touches memory which is not there is suspended and put on the `vmrequest`
chain, linked by `p_vmrequest.nextrequestor`. VM takes requests off the chain with
`VMCTL_MEMREQ_GET` and answers them with `VMCTL_MEMREQ_REPLY`.
-/

namespace Gergios.Kernel

open Lib

/-- `VM_PROC_NR`, which the kernel also uses as VM's endpoint. -/
def vmSlot : Slot := 13

variable (s : State)

def State.nextrequestor (j : Slot) : Option Slot := (s.proc j).vmrequest.nextrequestor

/-- `*rpp = v`, where `rpp` is the link of `prev`, or the head of the chain. -/
def State.writeVmrequest (prev v : Option Slot) : State :=
  match prev with
  | none => { s with vmrequest := v }
  | some y => s.modProc y fun p => { p with vmrequest := { p.vmrequest with nextrequestor := v } }

def suspendRequest (target : Endpoint) (start length : Nat) (type : VmsType) (writeflag : Bool)
    (next : Option Slot) (r : VmRequest) : VmRequest :=
  { r with target, start, length, type, writeflag, nextrequestor := next }

def vmSuspend (caller target : Slot) (start length : Nat) (type : VmsType)
    (writeflag : Bool) : Except Halt State :=
  if (s.proc caller).rtsFlags.vmRequest ∨ (s.proc target).rtsFlags.vmRequest then
    .error .assertVmrequest
  else
    let t := (rtsSet s caller { vmRequest := true }).modProc caller fun p =>
      { p with
        vmrequest := suspendRequest (s.proc target).endpoint start length type writeflag
          s.vmrequest p.vmrequest }
    match (if s.vmrequest = none then mustSendSig t vmProcNr sigkmem else .ok t) with
    | .error h => .error h
    | .ok u => .ok { u with vmrequest := some caller }

def allowIpcFilteredMemreq : Bool :=
  allowIpcFilteredMsg s vmSlot systemNr (some notifyMessage)

/-- The loop of `VMCTL_MEMREQ_GET`: the first request that VM may get. -/
def memreqScan (s : State) : Nat → Option Slot → Option Slot →
    Except Halt (Option (Option Slot × Slot))
  | 0, _, _ => .error .hang
  | _ + 1, _, none => .ok none
  | n + 1, prev, some rp =>
    if ¬(s.proc rp).rtsFlags.vmRequest then .error .assertVmrequest
    else
      match okendpt s (s.proc rp).vmrequest.target with
      | .error h => .error h
      | .ok _ =>
        if allowIpcFilteredMemreq s then .ok (some (prev, rp))
        else memreqScan s n (some rp) (s.nextrequestor rp)

def memreqGet : Except Halt (State × Errno) :=
  match memreqScan s (nrSlots + 1) none s.vmrequest with
  | .error h => .error h
  | .ok none => .ok (s, .enoent)
  | .ok (some (prev, rp)) =>
    let t := s.modProc rp fun p => { p with vmrequest := { p.vmrequest with vmresult := none } }
    .ok (t.writeVmrequest prev (t.nextrequestor rp), .ok)

def resumeRequest (p target : Slot) : Except Halt State :=
  match (s.proc p).vmrequest.type with
  | .kernelcall =>
    .ok (s.modProc p fun r => { r with miscFlags := { r.miscFlags with kcallResume := true } })
  | .delivermsg =>
    if (s.proc p).miscFlags.deliverMsg ∧ p = target then .ok s else .error .assertVmtype
  | .map => .ok s
  | .none => .error .assertVmtype

def memreqReply (p : Slot) (value : Errno) : Except Halt State :=
  if ¬(s.proc p).rtsFlags.vmRequest then .error .assertVmrequest
  else if (s.proc p).vmrequest.vmresult ≠ none then .error .assertVmresult
  else
    match okendpt s (s.proc p).vmrequest.target with
    | .error h => .error h
    | .ok target =>
      let t := s.modProc p fun r =>
        { r with vmrequest := { r.vmrequest with vmresult := some value } }
      match resumeRequest t p target with
      | .error h => .error h
      | .ok u => .ok (rtsUnset u p { vmRequest := true })

def clearMemreq (rp : Slot) : Except Halt State :=
  if ¬(s.proc rp).rtsFlags.vmRequest then .ok s
  else
    match walk s.nextrequestor (· == rp) (nrSlots + 1) none s.vmrequest with
    | none => .error .hang
    | some none => .ok (rtsUnset s rp { vmRequest := true })
    | some (some (prev, _)) =>
      .ok (rtsUnset (s.writeVmrequest prev (s.nextrequestor rp)) rp { vmRequest := true })

end Gergios.Kernel
