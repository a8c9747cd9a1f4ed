import Gergios.Kernel.System.Privctl
import Gergios.Kernel.Sched.SetScheduler

/-!
# Who writes `p_priority`

A fork copies it, `sched_proc` stores what a scheduler asks for, and a class, also that of an
interrupt thread, is mapped to a queue. The queues are arrays, so it has to be below their size.
-/

namespace Gergios.Kernel

open Function

def irqThreadBase : Nat := 12
abbrev nrIrqThreads : Nat := 64

/-- An entry of `irq_thread_table`; the handler and its counters are not part of the model. -/
structure IrqThread where
  rtPrio : Int
  endpoint : Endpoint
  proc : Option Slot

structure IrqThreads where
  kernel : State
  table : Fin nrIrqThreads → IrqThread

def irqThreadSlot (i : Fin nrIrqThreads) : Slot :=
  ⟨nrTasks + irqThreadBase + i.val, Nat.lt_of_lt_of_le (Nat.add_lt_add_left i.isLt _) (by decide)⟩

def irqThreadPrio (i : Fin nrIrqThreads) : Int :=
  rtPrioMax - (i.val : Int) * (rtPrioMax - rtPrioMin) / (nrIrqThreads - 1)

/-- The privileges of a thread: it may only receive, and send to SYSTEM. -/
def irqThreadPriv (s : State) (rp : Slot) : State :=
  let s := s.modPrivOf rp fun k => { k with
    flags := { sysProc := true, preemptible := true }, trapMask := {.receive}, sigMgr := selfE }
  fillSendtoMask s rp {(s.privOf systemSlot).id}

variable (w : IrqThreads)

/-- The second loop of `irq_thread_init`; a slot whose privileges cannot be had stays free. -/
def irqThreadStart (i : Fin nrIrqThreads) : IrqThreads :=
  let rp := irqThreadSlot i
  if ¬(w.kernel.proc rp).isEmpty then w
  else
    let s := w.kernel.modProc rp fun _ => { procInit.proc rp with cpu := w.kernel.cpuid }
    match getPriv s rp nullPrivId with
    | .error _ => { w with kernel := s }
    | .ok s =>
      let s := irqThreadPriv s rp
      let s := (schedRtSetClass s rp 1 (w.table i).rtPrio 0).getD s
      -- the flags are cleared by hand: nothing puts the thread on a queue
      let s := s.modProc rp fun r => { r with
        quantumSizeMs := 0, cpuTimeLeft := ms2CpuTime s rtFifoMs
        rtsFlags := r.rtsFlags.unset
          { slotFree := true, vmInhibit := true, bootInhibit := true, procStop := true } }
      ⟨s, update w.table i { w.table i with proc := some rp, endpoint := (s.proc rp).endpoint }⟩

def irqThreadInit : IrqThreads :=
  (List.finRange nrIrqThreads).foldl irqThreadStart
    { w with table := fun i => ⟨irqThreadPrio i, noneE, none⟩ }

def irqThreadSetPriority (irq prio : Int) : IrqThreads × Errno :=
  if h : 0 ≤ irq ∧ irq < nrIrqThreads then
    if prio < rtPrioMin ∨ rtPrioMax < prio then (w, .einval)
    else
      let i : Fin nrIrqThreads := ⟨irq.toNat, (Int.toNat_lt h.1).mpr h.2⟩
      match (w.table i).proc with
      | none => (w, .esrch)
      | some rp =>
        let table := update w.table i { w.table i with rtPrio := prio }
        match schedRtSetClass w.kernel rp 1 prio 0 with
        | none => (⟨w.kernel, table⟩, .einval)
        | some t => (⟨t, table⟩, .ok)
  else (w, .einval)

inductive PriorityOp
  | fork (endpt : Endpoint) (rpc : Slot) (vmInhibit : Bool)
  | schedProc (i : Slot) (priority quantum cpu : Int) (niced : Bool)
  | stopProc (i : Slot)
  | migrated (i : Slot) (priority quantum cpu : Int) (niced : Bool)
  | setscheduler (caller : Slot) (e : Endpoint) (cls prio quantum : Int)
  | irqThreadSetPriority (irq prio : Int)
  | irqThreadInit

/-- `none` is a kernel that stops, or a step that cannot be taken. A call of `sched_proc` that
moves a runnable process of another CPU waits until that CPU has stopped it; the rest of the call
is a step of its own. -/
def PriorityOp.run : PriorityOp → Option IrqThreads
  | .fork endpt rpc vmInhibit =>
    match doFork w.kernel endpt rpc vmInhibit with
    | .ok (t, _) => some { w with kernel := t }
    | .error _ => none
  | .schedProc i priority quantum cpu niced =>
    match Kernel.schedProc w.kernel i priority quantum cpu niced with
    | .done t => some { w with kernel := t }
    | .refused _ | .stopRemote => some w
  | .stopProc i => some { w with kernel := rtsSet w.kernel i { procStop := true } }
  | .migrated i priority quantum cpu niced =>
    -- the arguments have been checked by the first half of the call
    if (w.kernel.proc i).rtsFlags.procStop ∧
        (priority = -1 ∨ 0 ≤ priority ∧ priority ≤ nrSchedQueues) then
      some { w with kernel := schedProcMigrated w.kernel i priority quantum cpu niced }
    else none
  | .setscheduler caller e cls prio quantum =>
    some { w with kernel := (doSetscheduler w.kernel caller e cls prio quantum).1 }
  | .irqThreadSetPriority irq prio => some (Kernel.irqThreadSetPriority w irq prio).1
  | .irqThreadInit => some (Kernel.irqThreadInit w)

/-- `sched_proc` is not called with the number of queues for a priority. -/
def PriorityOp.Below : PriorityOp → Prop
  | .schedProc _ priority _ _ _ | .migrated _ priority _ _ _ => priority ≠ nrSchedQueues
  | _ => True

variable {s t : State} {i : Slot} {f : Proc → Proc}

theorem rtPrioToQueue_lt {prio : Int} (hmin : rtPrioMin ≤ prio) :
    0 ≤ rtPrioToQueue prio ∧ rtPrioToQueue prio < nrSchedQueues := by
  simp only [rtPrioMin] at hmin
  simp only [rtPrioMin, rtPrioMax, rtPrioToQueue]
  grind

section

variable (h : PrioritiesOk s)

include h

theorem PrioritiesOk.modProc
    (hf : (s.proc i).priority < nrSchedQueues → (f (s.proc i)).priority < nrSchedQueues) :
    PrioritiesOk (s.modProc i f) := by
  intro j
  rw [State.modProc_proc]
  split
  · exact hf (h i)
  · exact h j

theorem PrioritiesOk.edit (e : FlagEdit s t) : PrioritiesOk t := by
  intro j
  rw [e.proc j]
  exact h j

theorem PrioritiesOk.setClass {cls prio quantum : Int}
    (hset : schedRtSetClass s i cls prio quantum = some t) : PrioritiesOk t := by
  obtain ⟨r, rfl, hr⟩ := schedRtSetClass_spec hset
  refine h.modProc fun hi => ?_
  obtain ⟨-, -, hprio, -⟩ | ⟨-, hmin, -, hprio, -⟩ := hr.kind <;> rw [hprio]
  · exact hi
  · have hqueue := rtPrioToQueue_lt hmin
    omega

theorem PrioritiesOk.setClass_getD (cls prio quantum : Int) :
    PrioritiesOk ((schedRtSetClass s i cls prio quantum).getD s) := by
  cases hset : schedRtSetClass s i cls prio quantum with
  | none => exact h
  | some t => exact h.setClass hset

theorem PrioritiesOk.forkSlot (rpp rpc : Slot) (vmInhibit : Bool) :
    PrioritiesOk (forkSlot s rpp rpc vmInhibit) := by
  have hset : ∀ {t : State}, PrioritiesOk t → ∀ f, PrioritiesOk (rtsSet t rpc f) :=
    fun ht _ => ht.edit (rtsSet_edit ..)
  have hchild := hset (h.modProc (i := rpc) (f := fun old => (s.proc rpp).forkChild old rpc)
    fun _ => h rpp) { noQuantum := true }
  refine PrioritiesOk.edit ?_ (rtsUnset_edit ..)
  split
  · refine hset ?_ _
    split
    · exact hchild.modProc fun h => h
    · exact hchild
  · split
    · exact hchild.modProc fun h => h
    · exact hchild

theorem PrioritiesOk.schedProcTail {priority : Int} (quantum cpu : Int) (niced : Bool)
    (hprio : priority = -1 ∨ 0 ≤ priority ∧ priority < nrSchedQueues) :
    PrioritiesOk (schedProcTail s i priority quantum cpu niced) := by
  refine PrioritiesOk.edit (PrioritiesOk.modProc ?_ fun hi => ?_) (rtsUnset_edit ..)
  · split
    · exact h.edit (rtsSet_edit ..)
    · exact h
  · simp only [Proc.schedParams]
    split <;> split <;> split <;> first | exact hi | (change priority.toNat < _; omega)

theorem PrioritiesOk.schedProcMigrated {priority : Int} (quantum cpu : Int) (niced : Bool)
    (hprio : priority = -1 ∨ 0 ≤ priority ∧ priority < nrSchedQueues) :
    PrioritiesOk (schedProcMigrated s i priority quantum cpu niced) := by
  refine PrioritiesOk.schedProcTail ?_ quantum cpu niced hprio
  exact ((h.modProc fun h => h).edit (rtsUnset_edit ..)).edit (rtsSet_edit ..)

theorem PrioritiesOk.setscheduler (caller : Slot) (e : Endpoint) (cls prio quantum : Int) :
    PrioritiesOk (doSetscheduler s caller e cls prio quantum).1 := by
  simp only [doSetscheduler]
  split
  · exact h
  split
  · exact h
  split
  · exact h
  rename_i u hset
  have hu := h.setClass hset
  split
  · exact PrioritiesOk.edit (.modProc (hu.edit (rtsSet_edit ..)) fun h => h) (rtsUnset_edit ..)
  · exact hu

theorem PrioritiesOk.assignPriv (rp : Slot) (k : PrivId) : PrioritiesOk (assignPriv s rp k) :=
  h.modProc (f := fun r => { r with priv := k }) fun h => h

theorem PrioritiesOk.irqThreadPriv (rp : Slot) : PrioritiesOk (irqThreadPriv s rp) := by
  intro j
  rw [Kernel.irqThreadPriv, (fillSendtoMask_frame _ _ _).proc]
  exact h j

end

theorem PrioritiesOk.irqThreadStart {w : IrqThreads} (h : PrioritiesOk w.kernel)
    (i : Fin nrIrqThreads) : PrioritiesOk (irqThreadStart w i).kernel := by
  simp only [Kernel.irqThreadStart]
  split
  · exact h
  have hzero : PrioritiesOk (w.kernel.modProc (irqThreadSlot i) fun _ =>
      { procInit.proc (irqThreadSlot i) with cpu := w.kernel.cpuid }) :=
    h.modProc fun _ => (by decide : 0 < nrSchedQueues)
  split
  · exact hzero
  rename_i u hpriv
  obtain ⟨k, rfl, -⟩ := getPriv_eq_ok hpriv
  have hpriv := (hzero.assignPriv (irqThreadSlot i) k).irqThreadPriv (irqThreadSlot i)
  dsimp only
  refine PrioritiesOk.modProc ?_ ?_
  · exact hpriv.setClass_getD 1 _ 0
  · exact fun h => h

theorem PriorityOp.prioritiesOk {op : PriorityOp} {w w' : IrqThreads} (hop : op.Below)
    (hrun : op.run w = some w') (h : PrioritiesOk w.kernel) : PrioritiesOk w'.kernel := by
  cases op with
  | fork endpt rpc vmInhibit =>
    simp only [PriorityOp.run] at hrun
    split at hrun <;> cases hrun
    rename_i hfork
    obtain rfl | ⟨rpp, -, -, -, rfl⟩ := doFork_cases hfork
    · exact h
    · exact h.forkSlot rpp rpc vmInhibit
  | schedProc i priority quantum cpu niced =>
    simp only [PriorityOp.run] at hrun
    split at hrun <;> cases hrun
    · rename_i hdone
      obtain ⟨rfl, hprio, -⟩ := schedProc_done hdone
      exact h.schedProcTail quantum cpu niced
        (hprio.imp_right fun hp => ⟨hp.1, lt_of_le_of_ne hp.2 hop⟩)
    · exact h
    · exact h
  | stopProc i =>
    cases hrun
    exact h.edit (rtsSet_edit ..)
  | migrated i priority quantum cpu niced =>
    simp only [PriorityOp.run] at hrun
    split at hrun <;> cases hrun
    rename_i hguard
    exact h.schedProcMigrated quantum cpu niced
      (hguard.2.imp_right fun hp => ⟨hp.1, lt_of_le_of_ne hp.2 hop⟩)
  | setscheduler caller e cls prio quantum =>
    cases hrun
    exact h.setscheduler caller e cls prio quantum
  | irqThreadSetPriority irq prio =>
    cases hrun
    simp only [Kernel.irqThreadSetPriority]
    repeat' split
    all_goals first | exact h | exact h.setClass ‹_›
  | irqThreadInit =>
    rw [← Option.some.inj hrun]
    exact List.foldlRecOn (motive := fun w : IrqThreads => PrioritiesOk w.kernel) _ _ h
      fun _ hw i _ => hw.irqThreadStart i

/-- In every run in which `sched_proc` is never given the number of queues, every priority is
the number of a queue. -/
theorem priorities_in_bounds {w₀ w : IrqThreads} (h₀ : PrioritiesOk w₀.kernel)
    (hrun : Relation.ReflTransGen (fun w w' => ∃ op : PriorityOp, op.Below ∧ op.run w = some w')
      w₀ w) : PrioritiesOk w.kernel := by
  induction hrun with
  | refl => exact h₀
  | tail _ hstep ih =>
    obtain ⟨op, hop, hop'⟩ := hstep
    exact op.prioritiesOk hop hop' ih

def bootThreads : IrqThreads := ⟨procInit, fun i => ⟨irqThreadPrio i, noneE, none⟩⟩

theorem bootThreads_prioritiesOk : PrioritiesOk bootThreads.kernel := procInit_schedInit.priorities

/-- A process is given the last queue, stopped, and moved to another queue and CPU. -/
theorem priorities_in_bounds_after_migration : PrioritiesOk bootThreads.kernel ∧
    ∃ w₁ w₂ w₃, PriorityOp.run bootThreads (.schedProc 5 15 1 (-1) false) = some w₁ ∧
      PriorityOp.run w₁ (.stopProc 5) = some w₂ ∧
      PriorityOp.run w₂ (.migrated 5 3 1 1 false) = some w₃ ∧
      (w₁.kernel.proc 5).priority = 15 ∧ (w₃.kernel.proc 5).place = (1, 3) ∧
      PrioritiesOk w₃.kernel := by
  obtain ⟨w₁, hw₁⟩ : ∃ w₁ : IrqThreads, w₁ =
    ⟨schedProcTail procInit 5 15 1 (-1) false, bootThreads.table⟩ := ⟨_, rfl⟩
  obtain ⟨w₂, hw₂⟩ : ∃ w₂ : IrqThreads, w₂ =
    ⟨rtsSet w₁.kernel 5 { procStop := true }, w₁.table⟩ := ⟨_, rfl⟩
  have hsched : PriorityOp.run bootThreads (.schedProc 5 15 1 (-1) false) = some w₁ := hw₁ ▸ rfl
  have hstop : PriorityOp.run w₁ (.stopProc 5) = some w₂ := hw₂ ▸ rfl
  have hmoved : PriorityOp.run w₂ (.migrated 5 3 1 1 false) =
      some ⟨schedProcMigrated w₂.kernel 5 3 1 1 false, w₂.table⟩ :=
    if_pos ⟨by subst hw₂ hw₁; decide +kernel, by decide⟩
  refine ⟨bootThreads_prioritiesOk, w₁, w₂, _, hsched, hstop, hmoved, ?_, ?_,
    priorities_in_bounds bootThreads_prioritiesOk (.tail (.tail (.single
      ⟨.schedProc 5 15 1 (-1) false, (by decide : (15 : Int) ≠ nrSchedQueues), hsched⟩)
      ⟨.stopProc 5, trivial, hstop⟩)
      ⟨.migrated 5 3 1 1 false, (by decide : (3 : Int) ≠ nrSchedQueues), hmoved⟩)⟩ <;>
    subst hw₂ hw₁ <;> decide +kernel

/-- A scheduler asks for queue sixteen of sixteen, and gets it. -/
theorem sched_proc_out_of_bounds : PrioritiesOk bootThreads.kernel ∧
    ∃ w, PriorityOp.run bootThreads (.schedProc 5 16 1 (-1) false) = some w ∧
      ¬PrioritiesOk w.kernel :=
  ⟨bootThreads_prioritiesOk, _, rfl, fun h => absurd (h 5) (by decide +kernel)⟩

end Gergios.Kernel
