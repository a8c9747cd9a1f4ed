import Gergios.Kernel.Sched.RunQueue

/-!
# The deadlock test

`deadlock` follows the chain of blocked processes from the target of a call. The loop only
looks for a return to the caller, so the model gives it fuel for one visit to every slot:
running out of it is the kernel going round for ever.
-/

namespace Gergios.Kernel

def Proc.blockedOn (p : Proc) : Endpoint :=
  if p.rtsFlags.sending then p.sendtoE else if p.rtsFlags.receiving then p.getfromE else noneE

/-- The two calls that `deadlock` is asked about. -/
inductive BlockFn
  | send | receive
  deriving DecidableEq, Repr

/-- `(xp->p_rts_flags ^ (function << 2)) & RTS_SENDING` -/
def permittedPair (fn : BlockFn) (xp : Proc) : Bool := xp.rtsFlags.sending != (fn == .send)

/-- The group size that `deadlock` returns, and the processes it has visited. -/
structure Chain where
  groupSize : Nat
  visited : List Slot
  deriving DecidableEq

def deadlockLoop (s : State) (fn : BlockFn) (cpE : Endpoint) :
    Nat → Endpoint → List Slot → Except Halt Chain
  | 0, _, _ => .error .hang
  | n + 1, e, visited =>
    if e = anyE then .ok ⟨0, visited⟩
    else
      match okendpt s e with
      | .error h => .error h
      | .ok xp =>
        if (s.proc xp).rtsFlags.slotFree then .error .assertSlotFree
        else
          let visited := visited ++ [xp]
          let e := (s.proc xp).blockedOn
          if e = noneE then .ok ⟨0, visited⟩
          else if e = cpE then
            -- the group is the caller and the processes visited
            if visited.length = 1 ∧ permittedPair fn (s.proc xp) then .ok ⟨0, visited⟩
            else .ok ⟨visited.length + 1, visited⟩
          else deadlockLoop s fn cpE n e visited

def deadlock (s : State) (fn : BlockFn) (cp : Slot) (e : Endpoint) : Except Halt Chain :=
  deadlockLoop s fn (s.proc cp).endpoint (nrSlots + 1) e []

end Gergios.Kernel
