import Gergios.Kernel.Ipc.Notify

/-!
# Interrupts

`generic_handler` turns an interrupt into a bit of `s_int_pending` and a notification from
`HARDWARE`.
-/

namespace Gergios.Kernel

/-- What `generic_handler` reads of an `irq_hook_t`. -/
structure IrqHook where
  procNrE : Endpoint
  notifyId : Nat
  deriving DecidableEq, Repr

/-- The mask `1 << notify_id`: the shift is done in an `int`, whose sign is then extended. -/
def irqMask (notifyId : Nat) : BitVec 64 := ((1#32) <<< (notifyId % 32)).signExtend 64

def raiseIrq (s : State) (rp : Slot) (notifyId : Nat) : State :=
  (s.modPrivOf rp fun p => { p with intPending := p.intPending ||| irqMask notifyId }).record
    (.irqRaised (s.proc rp).priv notifyId)

def genericHandler (s : State) (hook : IrqHook) : Except Halt State :=
  match isokendpt s hook.procNrE with
  | none => .error .panicEndpoint
  | some rp =>
    match miniNotify (raiseIrq s rp hook.notifyId) hardwareSlot hook.procNrE with
    | .ok r => .ok r.1
    | .error h => .error h

end Gergios.Kernel
