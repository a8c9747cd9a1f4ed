import Gergios.Kernel.Sched.Runs

/-!
# Real-time classes

The real-time classes reuse the sixteen run queues: a real-time priority is folded onto a
queue number when the class is set, `sched_rt_may_preempt` compares the priorities
themselves, and `pick_proc` knows queues only.
-/

namespace Gergios.Kernel

def rtPrioMin : Int := 1
def rtPrioMax : Int := 99
def rtRrQuantumMs : Nat := 100
def rtFifoMs : Nat := 1000000

def rtPrioToQueue (rtPrio : Int) : Int :=
  if rtPrio ≤ 0 then -1
  else if rtPrioMax ≤ rtPrio then 0
  else (nrSchedQueues - 1 : Int) -
    (rtPrio - rtPrioMin) * (nrSchedQueues - 1) / (rtPrioMax - rtPrioMin)

def SchedClass.ofInt : Int → Option SchedClass
  | 0 => some .other
  | 1 => some .fifo
  | 2 => some .rr
  | _ => none

variable (s : State)

/-- The body of `sched_rt_set_class` for a real-time class with a valid priority. -/
def setRtClass (p : Slot) (cls : SchedClass) (rtPrio rrQuantumMs : Int) : State :=
  s.modProc p fun r =>
    let r := { r with
      schedClass := cls
      rtPriority := rtPrio.toNat
      priority := (rtPrioToQueue rtPrio).toNat }
    if cls = .rr then
      let qms := if 0 < rrQuantumMs then rrQuantumMs.toNat else rtRrQuantumMs
      { r with quantumSizeMs := qms, cpuTimeLeft := ms2CpuTime s qms }
    else { r with quantumSizeMs := 0, cpuTimeLeft := ms2CpuTime s rtFifoMs }

/-- `none` is `EINVAL`, which leaves everything as it was. -/
def schedRtSetClass (p : Slot) (schedClass rtPrio rrQuantumMs : Int) : Option State :=
  match SchedClass.ofInt schedClass with
  | none => none
  | some .other => some (s.modProc p fun r => { r with schedClass := .other, rtPriority := 0 })
  | some cls =>
    if rtPrio < rtPrioMin ∨ rtPrioMax < rtPrio then none
    else some (setRtClass s p cls rtPrio rrQuantumMs)

/-- `sched_rt_handle_quantum`; `none` for a process that is not real-time. -/
def schedRtHandleQuantum (p : Slot) : Option State :=
  match (s.proc p).schedClass with
  | .other => none
  | .fifo => some (s.modProc p fun r => { r with cpuTimeLeft := ms2CpuTime s rtFifoMs })
  | .rr =>
    let t := s.modProc p fun r => { r with cpuTimeLeft := ms2CpuTime s r.quantumSizeMs }
    some (rtsUnset t p { noQuantum := true })

/-- `y` is a real-time process that should run rather than `x`. -/
def Proc.Beats (y x : Proc) : Prop := y.isRt ∧ (x.isRt → x.rtPriority < y.rtPriority)

instance (y x : Proc) : Decidable (y.Beats x) := inferInstanceAs (Decidable (_ ∧ _))

/-- Queue numbers agree with real-time priorities: whoever beats another live process is in
a queue before it. -/
def Separated : Prop :=
  ∀ x y, ¬(s.proc x).rtsFlags.slotFree → ¬(s.proc y).rtsFlags.slotFree →
    (s.proc x).Beats (s.proc y) → (s.proc x).priority < (s.proc y).priority

/-- The process that the local CPU runs is real-time if any runnable process is, and no
runnable one beats it. -/
def RtOrdered : Prop :=
  ∀ y, (s.proc y).isRunnable → (s.proc y).isRt →
    ∃ p, (s.cpu s.cpuid).procPtr = some p ∧ (s.proc p).isRt ∧
      (s.proc y).rtPriority ≤ (s.proc p).rtPriority

def RtPickOk (s : State) : Prop :=
  ∀ i f, f.preempted = false → f.slotFree = false → ¬(s.proc i).isRunnable →
    ((rtsUnset s i f).proc i).isRunnable → RtOrdered (switchToUser (rtsUnset s i f))

structure SameChoice (s t : State) : Prop extends SameQueues s t where
  cpuid : t.cpuid = s.cpuid
  procPtr : (t.cpu t.cpuid).procPtr = (s.cpu s.cpuid).procPtr
  schedClass : ∀ i, (t.proc i).schedClass = (s.proc i).schedClass
  rtPriority : ∀ i, (t.proc i).rtPriority = (s.proc i).rtPriority
  preemptible : ∀ i, (t.privOf i).flags.preemptible = (s.privOf i).flags.preemptible

inductive RtOp
  | setClass (i : Slot) (cls prio quantum : Int)
  | setFlags (i : Slot) (f : RtsFlags)
  | rtsSet (i : Slot) (f : RtsFlags)
  | rtsUnset (i : Slot) (f : RtsFlags)
  | schedProc (i : Slot) (priority quantum : Int) (niced : Bool)
  | handleQuantum (i : Slot)
  | switchToUser
  | other

/-- Steps on one CPU. A class is set, and a slot is set up, while the process is not runnable
and not the one the CPU was running; `RTS_PREEMPTED` is cleared by `switch_to_user` only. -/
inductive RtStep (s : State) : RtOp → State → Prop
  | setClass (i : Slot) (cls prio quantum : Int) (t : State)
      (hi : ¬(s.proc i).isRunnable) (hcur : (s.cpu s.cpuid).procPtr ≠ some i)
      (h : schedRtSetClass s i cls prio quantum = some t) :
      RtStep s (.setClass i cls prio quantum) t
  | setFlags (i : Slot) (f : RtsFlags) (hi : ¬(s.proc i).isRunnable)
      (hcur : (s.cpu s.cpuid).procPtr ≠ some i) (hf : f ≠ {}) :
      RtStep s (.setFlags i f) (s.modProc i fun p => { p with rtsFlags := f })
  | rtsSet (i : Slot) (f : RtsFlags) (hf : f.slotFree = false) :
      RtStep s (.rtsSet i f) (rtsSet s i f)
  | rtsUnset (i : Slot) (f : RtsFlags) (hpre : f.preempted = false) (hf : f.slotFree = false) :
      RtStep s (.rtsUnset i f) (rtsUnset s i f)
  | schedProc (i : Slot) (priority quantum : Int) (niced : Bool) (t : State)
      (h : schedProc s i priority quantum (-1) niced = .done t) :
      RtStep s (.schedProc i priority quantum niced) t
  | handleQuantum (i : Slot) (t : State) (h : schedRtHandleQuantum s i = some t) :
      RtStep s (.handleQuantum i) t
  | switchToUser : RtStep s .switchToUser (switchToUser s)
  | other (t : State) (h : SameChoice s t) : RtStep s .other t

/-- Of two processes, the one that beats the other is in a queue before it. -/
def Proc.Apart (x y : Proc) : Prop :=
  (x.Beats y → x.priority < y.priority) ∧ (y.Beats x → y.priority < x.priority)

/-- A process like this one in the slot would be apart from every other live process. -/
def FitsIn (i : Slot) (p : Proc) : Prop :=
  ∀ y, y ≠ i → ¬(s.proc y).rtsFlags.slotFree → p.Apart (s.proc y)

/-- A step that gives a live process another class or queue, or brings a process to life, finds
the queues of the other live processes apart from it. -/
def RtOp.KeepsApart : RtOp → Prop
  | .setClass i cls prio _ => ¬(s.proc i).rtsFlags.slotFree →
    match SchedClass.ofInt cls with
    | none => True
    | some .other => FitsIn s i { s.proc i with schedClass := .other, rtPriority := 0 }
    | some c => FitsIn s i { s.proc i with
        schedClass := c, rtPriority := prio.toNat, priority := (rtPrioToQueue prio).toNat }
  | .setFlags i f => f.slotFree = false → FitsIn s i (s.proc i)
  | .schedProc i priority _ _ => priority ≠ nrSchedQueues ∧
    (¬(s.proc i).rtsFlags.slotFree → priority ≠ -1 →
      FitsIn s i { s.proc i with priority := priority.toNat })
  | _ => True

def RtReach (s t : State) : Prop := ∃ op, RtStep s op t

def RtRun (s t : State) : Prop := ∃ op, RtStep s op t ∧ op.KeepsApart s

/-- A single CPU, everything preemptible, nothing runnable yet, and every class as
`sched_rt_set_class` sets it. -/
structure RtInit (s : State) : Prop extends SchedInit s where
  idle : (s.cpu s.cpuid).procPtr = none
  cpu : ∀ i, (s.proc i).cpu = s.cpuid
  preemptible : ∀ i, (s.privOf i).flags.preemptible
  notPreempted : ∀ i, (s.proc i).rtsFlags.preempted = false
  assigned : ∀ i, (s.proc i).isRt → 1 ≤ (s.proc i).rtPriority ∧ (s.proc i).rtPriority ≤ 99 ∧
    (s.proc i).priority = (rtPrioToQueue (s.proc i).rtPriority).toNat

/-! ## The current process -/

variable {s t : State}

def CurrentOk (s : State) : Prop :=
  ∀ p, (s.cpu s.cpuid).procPtr = some p → ∀ y, (s.proc y).isRunnable →
    (s.proc y).Beats (s.proc p) → (s.proc p).rtsFlags.preempted

structure RtCore (s : State) : Prop where
  cpu : ∀ i, (s.proc i).cpu = s.cpuid
  preemptible : ∀ i, (s.privOf i).flags.preemptible
  current : CurrentOk s

/-- From `s` to `t` nobody becomes runnable, and the current process stays and keeps the
mark of a preemption. -/
structure Quiet (s t : State) : Prop where
  cpuid : t.cpuid = s.cpuid
  procPtr : (t.cpu t.cpuid).procPtr = (s.cpu s.cpuid).procPtr
  cpu : ∀ i, (t.proc i).cpu = (s.proc i).cpu
  preemptible : ∀ i, (t.privOf i).flags.preemptible = (s.privOf i).flags.preemptible
  schedClass : ∀ i, (t.proc i).schedClass = (s.proc i).schedClass
  rtPriority : ∀ i, (t.proc i).rtPriority = (s.proc i).rtPriority
  runnable : ∀ i, (t.proc i).isRunnable → (s.proc i).isRunnable
  preempted : ∀ i, (s.proc i).rtsFlags.preempted → (t.proc i).rtsFlags.preempted

theorem Proc.Beats.congr {x y x' y' : Proc} (h : y.Beats x) (hx : x'.schedClass = x.schedClass)
    (hy : y'.schedClass = y.schedClass) (hx' : x'.rtPriority = x.rtPriority)
    (hy' : y'.rtPriority = y.rtPriority) : y'.Beats x' := by
  simpa only [Proc.Beats, Proc.isRt, hx, hy, hx', hy'] using h

theorem RtCore.quiet (h : RtCore s) (e : Quiet s t) : RtCore t where
  cpu i := by rw [e.cpu, e.cpuid, h.cpu]
  preemptible i := by rw [e.preemptible]; exact h.preemptible i
  current p hp y hy hb := by
    rw [e.procPtr] at hp
    refine e.preempted p (h.current p hp y (e.runnable y hy) ?_)
    exact hb.congr (e.schedClass p).symm (e.schedClass y).symm (e.rtPriority p).symm
      (e.rtPriority y).symm

theorem FlagEdit.quiet (e : FlagEdit s t)
    (hrun : ∀ i, (t.proc i).isRunnable → (s.proc i).isRunnable)
    (hpre : ∀ i, (s.proc i).rtsFlags.preempted → (t.proc i).rtsFlags.preempted) : Quiet s t where
  cpuid := e.cpuid
  procPtr := by rw [e.cpu, e.cpuid]
  cpu i := by rw [e.proc i]
  preemptible i := by
    rw [State.privOf, State.privOf, e.proc i, e.priv]
  schedClass i := by rw [e.proc i]
  rtPriority i := by rw [e.proc i]
  runnable := hrun
  preempted := hpre

theorem QueueEdit.quiet (e : QueueEdit s t) : Quiet s t :=
  e.flagEdit.quiet (fun i => (e.isRunnable i).mp) fun i hi => by rwa [e.rtsFlags i]

theorem Quiet.modProc (s : State) (i : Slot) {f : Proc → Proc}
    (hf : ∀ p, (f p).cpu = p.cpu ∧ (f p).priv = p.priv ∧ (f p).schedClass = p.schedClass ∧
      (f p).rtPriority = p.rtPriority ∧ (f p).rtsFlags = p.rtsFlags) : Quiet s (s.modProc i f) := by
  have hj : ∀ j, ((s.modProc i f).proc j).cpu = (s.proc j).cpu ∧
      ((s.modProc i f).proc j).priv = (s.proc j).priv ∧
      ((s.modProc i f).proc j).schedClass = (s.proc j).schedClass ∧
      ((s.modProc i f).proc j).rtPriority = (s.proc j).rtPriority ∧
      ((s.modProc i f).proc j).rtsFlags = (s.proc j).rtsFlags := by
    intro j
    rw [State.modProc_proc]
    split
    · subst j; exact hf _
    · exact ⟨rfl, rfl, rfl, rfl, rfl⟩
  refine ⟨rfl, rfl, fun j => (hj j).1, fun j => ?_, fun j => (hj j).2.2.1, fun j => (hj j).2.2.2.1,
    fun j hr => ?_, fun j hr => ?_⟩
  · rw [State.privOf, (hj j).2.1]; rfl
  · rwa [Proc.isRunnable, (hj j).2.2.2.2] at hr
  · rwa [(hj j).2.2.2.2]

theorem Quiet.rtsSet (s : State) (i : Slot) (f : RtsFlags) : Quiet s (rtsSet s i f) := by
  refine (rtsSet_edit s i f).quiet (fun j hr => ?_) fun j hr => ?_
  · rw [Proc.isRunnable, rtsSet_rtsFlags] at hr
    split at hr
    · exact RtsFlags.eq_empty_of_set_eq_empty hr
    · exact hr
  · rw [rtsSet_rtsFlags]
    split
    · simp [hr]
    · exact hr

theorem schedRtMayPreempt_of_beats {x y : Proc} (h : y.Beats x) : schedRtMayPreempt x y := by
  obtain ⟨hy, hx⟩ := h
  cases hrt : x.isRt with
  | true => simp [schedRtMayPreempt, hy, hx hrt]
  | false => simp [schedRtMayPreempt, hrt, hy]

theorem preemptCurrent_preempted {i p : Slot} (hcpu : (s.proc i).cpu = s.cpuid)
    (hp : (s.cpu s.cpuid).procPtr = some p) (hpre : (s.privOf p).flags.preemptible)
    (hb : (s.proc i).Beats (s.proc p)) : ((preemptCurrent s i).proc p).rtsFlags.preempted := by
  simp only [preemptCurrent, hp]
  rw [if_pos hcpu.symm, if_pos ⟨hpre, .inl (schedRtMayPreempt_of_beats hb)⟩, rtsSet_rtsFlags]
  simp

theorem preemptCurrent_quiet (s : State) (i : Slot) : Quiet s (preemptCurrent s i) := by
  have hrefl : Quiet s s := (QueueEdit.refl s).quiet
  simp only [preemptCurrent]
  repeat' split
  all_goals first | exact hrefl | exact Quiet.rtsSet s _ _

end Gergios.Kernel
