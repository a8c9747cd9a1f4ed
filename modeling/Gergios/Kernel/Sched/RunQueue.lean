import Gergios.Lib.Queues
import Gergios.Kernel.Table

/-!
# The run queues

`enqueue`, `enqueue_head`, `dequeue`, `pick_proc`, the macros that set and clear run-time
flags, `sched_proc` and the part of `switch_to_user` that puts a preempted process back and
picks the next one. A process is threaded on its queue by `p_nextready`; each CPU has its
own heads and tails.
-/

namespace Gergios.Kernel

open Lib

def nrSlots : Nat := nrTasks + nrProcs

def Proc.isRt (p : Proc) : Bool := p.schedClass == .fifo || p.schedClass == .rr

def Proc.setRts (p : Proc) (f : RtsFlags) : Proc := { p with rtsFlags := p.rtsFlags.set f }

def Proc.unsetRts (p : Proc) (f : RtsFlags) : Proc := { p with rtsFlags := p.rtsFlags.unset f }

def schedRtMayPreempt (current newP : Proc) : Bool :=
  if current.isRt && newP.isRt then current.rtPriority < newP.rtPriority
  else if newP.isRt && !current.isRt then true
  else if !newP.isRt then newP.priority < current.priority
  else false

variable (s : State)

/-- `*xpp = v`, where `xpp` is the link of `prev`, or the head of the queue. -/
def State.writeReady (c q : Nat) (prev v : Option Slot) : State :=
  match prev with
  | none => s.modCpu c fun l => { l with runQHead := Function.update l.runQHead q v }
  | some y => s.modProc y fun p => { p with nextready := v }

def State.setTail (c q : Nat) (v : Option Slot) : State :=
  s.modCpu c fun l => { l with runQTail := Function.update l.runQTail q v }

variable (rp : Slot)

/-- The loop over the queue of `rp`; a process that is not found is not removed. -/
def dequeue : State :=
  let c := (s.proc rp).cpu
  let q := (s.proc rp).priority
  match walk (fun j => (s.proc j).nextready) (· == rp) (nrSlots + 1) none
      ((s.cpu c).runQHead q) with
  | some (some (prev, _)) =>
    let t := s.writeReady c q prev (s.proc rp).nextready
    if (s.cpu c).runQTail q = some rp then t.setTail c q prev else t
  | _ => s

def rtsSet (f : RtsFlags) : State :=
  let t := s.modProc rp (·.setRts f)
  if (s.proc rp).isRunnable ∧ ¬(t.proc rp).isRunnable then dequeue t rp else t

/-- The insertion that `enqueue` begins with: at the tail, or as a new queue. -/
def enqueueTail : State :=
  let c := (s.proc rp).cpu
  let q := (s.proc rp).priority
  match (s.cpu c).runQHead q, (s.cpu c).runQTail q with
  | none, _ =>
    ((s.writeReady c q none (some rp)).setTail c q (some rp)).modProc rp
      fun p => { p with nextready := none }
  | some _, tail =>
    ((s.writeReady c q tail (some rp)).setTail c q (some rp)).modProc rp
      fun p => { p with nextready := none }

def preemptCurrent : State :=
  if s.cpuid = (s.proc rp).cpu then
    match (s.cpu s.cpuid).procPtr with
    | none => s
    | some p =>
      if (s.privOf p).flags.preemptible ∧ (schedRtMayPreempt (s.proc p) (s.proc rp) ∨
          (s.proc rp).priority < (s.proc p).priority) then
        rtsSet s p { preempted := true }
      else s
  else s

def enqueue : State := preemptCurrent (enqueueTail s rp) rp

def rtsUnset (f : RtsFlags) : State :=
  let t := s.modProc rp (·.unsetRts f)
  if ¬(s.proc rp).isRunnable ∧ (t.proc rp).isRunnable then enqueue t rp else t

def enqueueHead : State :=
  let c := (s.proc rp).cpu
  let q := (s.proc rp).priority
  match (s.cpu c).runQHead q with
  | none =>
    ((s.writeReady c q none (some rp)).setTail c q (some rp)).modProc rp
      fun p => { p with nextready := none }
  | some h =>
    (s.modProc rp fun p => { p with nextready := some h }).writeReady c q none (some rp)

def pickProc : State × Option Slot :=
  match (List.range nrSchedQueues).findSome? (s.cpu s.cpuid).runQHead with
  | none => (s, none)
  | some rp =>
    if (s.privOf rp).flags.billable then
      (s.modCpu s.cpuid fun l => { l with billPtr := some rp }, some rp)
    else (s, some rp)

variable (p : Slot)

/-- `switch_to_user` clears `RTS_PREEMPTED` by hand, so it enqueues the process itself. -/
def requeuePreempted : State :=
  if (s.proc p).rtsFlags.preempted then
    let t := s.modProc p (·.unsetRts { preempted := true })
    if (t.proc p).isRunnable then
      if (t.proc p).cpuTimeLeft ≠ 0 then enqueueHead t p else enqueue t p
    else t
  else s

/-- The loop around `pick_proc`; with nothing to run the CPU idles. -/
def dispatch : State :=
  (pickProc s).1.modCpu s.cpuid fun l => { l with procPtr := (pickProc s).2 }

def pickNew : State :=
  match (s.cpu s.cpuid).procPtr with
  | some p => dispatch (requeuePreempted s p)
  | none => dispatch s

/-- `switch_to_user` up to the point where the process to run is known. -/
def switchToUser : State :=
  match (s.cpu s.cpuid).procPtr with
  | some p => if (s.proc p).isRunnable then s else pickNew s
  | none => pickNew s

def ms2CpuTime (ms : Nat) : Nat := s.tscPerMs * ms

inductive SchedProcResult
  | refused (r : Errno)
  | stopRemote
  | done (t : State)

/-- The parameters that `sched_proc` stores; `-1` leaves one as it is. -/
def Proc.schedParams (r : Proc) (cpuTime : Nat → Nat) (priority quantum cpu : Int) (niced : Bool) :
    Proc :=
  let r := if priority ≠ -1 then { r with priority := priority.toNat } else r
  let r := if quantum ≠ -1 then
    { r with quantumSizeMs := quantum.toNat, cpuTimeLeft := cpuTime quantum.toNat } else r
  let r := if cpu ≠ -1 then { r with cpu := cpu.toNat } else r
  { r with miscFlags := { r.miscFlags with niced := niced } }

variable (priority quantum cpu : Int) (niced : Bool)

/-- `sched_proc` after a possible migration. -/
def schedProcTail : State :=
  let t := if (s.proc p).isRunnable then rtsSet s p { noQuantum := true } else s
  rtsUnset (t.modProc p (·.schedParams (ms2CpuTime s) priority quantum cpu niced)) p
    { noQuantum := true }

/-- A runnable process of another CPU is stopped there first: the caller then waits with the
kernel lock released. -/
def schedProc : SchedProcResult :=
  if (priority < 0 ∧ priority ≠ -1) ∨ (nrSchedQueues : Int) < priority then .refused .einval
  else if quantum < 1 ∧ quantum ≠ -1 then .refused .einval
  else if (cpu < 0 ∧ cpu ≠ -1) ∨ (0 < cpu ∧ (s.ncpus : Int) ≤ cpu) then .refused .einval
  else if cpu ≠ -1 ∧ ¬s.cpuReady cpu.toNat then .refused .ebadcpu
  else if (s.proc p).isRunnable ∧ (s.proc p).cpu ≠ s.cpuid ∧ cpu ≠ -1 ∧ cpu ≠ (s.proc p).cpu then
    .stopRemote
  else .done (schedProcTail s p priority quantum cpu niced)

/-- The rest of `smp_schedule_migrate_proc` and of `sched_proc`, once the other CPU has
stopped the process. -/
def schedProcMigrated : State :=
  let s := s.modProc p fun r => { r with cpu := cpu.toNat }
  let s := rtsUnset s p { procStop := true }
  -- here the flag is set whether or not the process has become runnable
  let s := rtsSet s p { noQuantum := true }
  schedProcTail s p priority quantum cpu niced

end Gergios.Kernel
