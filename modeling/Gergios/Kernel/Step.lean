import Gergios.Kernel.System.Clear
import Gergios.Kernel.System.Fork
import Gergios.Kernel.System.Irq
import Gergios.Kernel.System.Update

/-!
# Steps of the kernel

A step is one entry into the kernel, or something that happens between two entries: a message
is copied out to its receiver, flags that have nothing to do with IPC change, a process writes
to its own memory, time goes on. A run is a sequence of steps that are all admitted by a
predicate on the state before the step and the operation.
-/

namespace Gergios.Kernel

inductive Op
  | call (caller : Slot) (req : Request)
  | clear (rc : Slot)
  | signal (e : Endpoint) (sig : Nat)
  | interrupt (hook : IrqHook)
  | suspend (caller target : Slot) (start length : Nat) (type : VmsType) (writeflag : Bool)
  | getMemreq
  | replyMemreq (p : Slot) (value : Errno)
  | fork (endpt : Endpoint) (rpc : Slot) (vmInhibit : Bool)
  | update (srcE dstE : Endpoint) (rollback : Bool)
  | deliver (i : Slot)
  | setFlags (i : Slot) (f : RtsFlags)
  | unsetFlags (i : Slot) (f : RtsFlags)
  | store (i : Slot) (mem : Nat → Option AsynMsg)
  | tick (n : Nat)

variable (s : State)

/-- The process `i` has the CPU. -/
def State.running (i : Slot) : State :=
  s.modCpu s.cpuid fun c => { c with procPtr := some i }

/-- `delivermsg` has copied the message of `i` out. -/
def finishDelivery (i : Slot) : State :=
  s.modProc i fun p => { p with miscFlags := { p.miscFlags with deliverMsg := false } }

def storeMem (i : Slot) (mem : Nat → Option AsynMsg) : State :=
  { s with umem := Function.update s.umem i mem }

def Op.Enabled : Op → Prop
  | .call caller _ => (s.proc caller).isRunnable
  | .suspend caller target .. =>
    (s.proc caller).rtsFlags.slotFree = false ∧ (s.proc target).rtsFlags.slotFree = false
  | .setFlags i f => (s.proc i).rtsFlags.slotFree = false ∧ f.IsForeign
  | .unsetFlags _ f => f.IsForeign
  | _ => True

instance (s : State) (op : Op) : Decidable (op.Enabled s) := by
  cases op <;> unfold Op.Enabled <;> infer_instance

def Op.exec : Op → Except Halt State
  | .call caller req => (doIpc (s.running caller) caller req).map (·.1)
  | .clear rc => clearEndpoint s rc
  | .signal e sig => (sendSig s e sig).map (·.1)
  | .interrupt hook => genericHandler s hook
  | .suspend caller target start length type writeflag =>
    vmSuspend s caller target start length type writeflag
  | .getMemreq => (memreqGet s).map (·.1)
  | .replyMemreq p value => memreqReply s p value
  | .fork endpt rpc vmInhibit => (doFork s endpt rpc vmInhibit).map (·.1)
  | .update srcE dstE rollback => (doUpdate s srcE dstE rollback).map (·.1)
  | .deliver i => .ok (finishDelivery s i)
  | .setFlags i f => .ok (rtsSet s i f)
  | .unsetFlags i f => .ok (rtsUnset s i f)
  | .store i mem => .ok (storeMem s i mem)
  | .tick n => .ok { s with monotonic := n }

variable (Adm : State → Op → Prop)

/-- One step with an operation that `Adm` admits. -/
def Step (s t : State) : Prop :=
  ∃ op, Adm s op ∧ op.Enabled s ∧ op.exec s = .ok t

abbrev Run : State → State → Prop := Relation.ReflTransGen (Step Adm)

theorem Run.invariant {Adm : State → Op → Prop} {I : State → Prop} {s t : State}
    (hstep : ∀ {u v op}, I u → Adm u op → op.Enabled u → op.exec u = .ok v → I v)
    (h : Run Adm s t) (hs : I s) : I t := by
  induction h with
  | refl => exact hs
  | tail _ hlast ih =>
    obtain ⟨op, hadm, hen, hex⟩ := hlast
    exact hstep ih hadm hen hex

def runOps (test : State → Op → Bool) : List Op → State → Option State
  | [], s => some s
  | op :: ops, s =>
    if op.Enabled s ∧ test s op then
      match op.exec s with
      | .ok t => runOps test ops t
      | .error _ => none
    else none

theorem exists_run (test : State → Op → Bool) (ops : List Op) (s : State)
    (P : State → Prop) [DecidablePred P] (htest : ∀ u, ∀ op ∈ ops, test u op = true → Adm u op)
    (h : (runOps test ops s).any (fun t => P t) = true) : ∃ t, Run Adm s t ∧ P t := by
  induction ops generalizing s with
  | nil => exact ⟨s, .refl, by simpa [runOps] using h⟩
  | cons op ops ih =>
    simp only [runOps] at h
    split at h
    · rename_i hen
      split at h
      · rename_i u hu
        obtain ⟨t, hrun, ht⟩ := ih u (fun v o ho => htest v o (List.mem_cons_of_mem op ho)) h
        exact ⟨t, .head ⟨op, htest s op List.mem_cons_self hen.2, hen.1, hu⟩ hrun, ht⟩
      · cases h
    · cases h

def haltOf {α : Type} : Except Halt α → Option Halt
  | .error h => some h
  | .ok _ => none

theorem haltOf_eq_some {α : Type} {x : Except Halt α} {h : Halt} :
    haltOf x = some h ↔ x = .error h := by
  cases x <;> simp [haltOf]

end Gergios.Kernel
