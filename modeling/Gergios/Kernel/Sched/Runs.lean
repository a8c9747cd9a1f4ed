import Gergios.Kernel.Sched.Frame

/-!
# Runs of the scheduler

Every operation that changes run-time flags, priorities or CPUs keeps the run-queue
invariant, and so does any sequence of them.
-/

namespace Gergios.Kernel

open Lib List

variable {s t : State} {R R' : Slot → Prop} {q : Nat × Nat → List Slot} {f : Proc → Proc} {i : Slot}

theorem RunQ.of_iff (h : RunQ s R q) (hR : ∀ i, R' i ↔ R i) : RunQ s R' q where
  queues := h.queues
  tail := h.tail
  mem_iff i o := by rw [hR, h.mem_iff]

theorem RunQ.frame (h : RunQ s R q) (hcpu : ∀ o, t.runHeads o = s.runHeads o ∧
    t.runTails o = s.runTails o)
    (hnext : ∀ i, t.nextready i = s.nextready i)
    (hplace : ∀ i, R i → (t.proc i).place = (s.proc i).place) : RunQ t R q where
  queues := h.queues.congr (fun o => (hcpu o).1) fun _ x _ => hnext x
  tail o := by
    rw [(hcpu o).2]
    exact h.tail o
  mem_iff i o := by
    rw [h.mem_iff]
    refine and_congr_right fun hR => ?_
    rw [hplace i hR]

theorem RunQ.modProc (h : RunQ s R q) (i : Slot)
    (hnext : (f (s.proc i)).nextready = (s.proc i).nextready)
    (hplace : R i → (f (s.proc i)).place = (s.proc i).place) : RunQ (s.modProc i f) R q := by
  refine h.frame (fun _ => ⟨rfl, rfl⟩) (fun j => ?_) fun j hj => ?_
  all_goals simp only [State.nextready, State.modProc_proc]; split
  · subst j; exact hnext
  · rfl
  · subst j; exact hplace hj
  · rfl

section

variable (h : RunInv s)

include h

theorem RunInv.frame (hcpu : ∀ o, t.runHeads o = s.runHeads o ∧ t.runTails o = s.runTails o)
    (hnext : ∀ i, t.nextready i = s.nextready i) (hplace : ∀ i, (t.proc i).place = (s.proc i).place)
    (hflags : ∀ i, (t.proc i).rtsFlags = (s.proc i).rtsFlags) : RunInv t := by
  obtain ⟨q, hq⟩ := h
  refine ⟨q, (hq.frame hcpu hnext fun i _ => hplace i).of_iff fun i => ?_⟩
  rw [Proc.isRunnable, Proc.isRunnable, hflags i]

theorem RunInv.modProc (hi : ¬(s.proc i).isRunnable)
    (hnext : (f (s.proc i)).nextready = (s.proc i).nextready) (hrun : ¬(f (s.proc i)).isRunnable) :
    RunInv (s.modProc i f) := by
  obtain ⟨q, hq⟩ := h
  refine ⟨q, (hq.modProc i hnext fun hR => absurd hR hi).of_iff fun j => ?_⟩
  rw [State.modProc_proc]
  split
  · subst j
    exact iff_of_false hrun hi
  · rfl

theorem RunInv.rtsSet (i : Slot) (f : RtsFlags) : RunInv (rtsSet s i f) := by
  obtain ⟨q, hq⟩ := h
  have hmod := hq.modProc i (f := (·.setRts f)) rfl fun _ => rfl
  simp only [Kernel.rtsSet]
  split
  · rename_i hflip
    obtain ⟨q', hq', -⟩ := hmod.dequeue hflip.1
    refine ⟨q', hq'.of_iff fun j => ?_⟩
    rw [(dequeue_edit _ i).isRunnable j]
    by_cases hj : j = i
    · subst hj
      exact iff_of_false hflip.2 fun hc => hc.2 rfl
    · rw [State.modProc_proc_of_ne s hj]
      exact (and_iff_left hj).symm
  · rename_i hflip
    refine ⟨q, hmod.of_iff fun j => ?_⟩
    by_cases hj : j = i
    · subst hj
      -- a flag can only make a process not runnable
      refine ⟨fun hr => ?_, fun hr => by_contra fun hn => hflip ⟨hr, hn⟩⟩
      rw [State.modProc_proc_self] at hr
      exact RtsFlags.eq_empty_of_set_eq_empty hr
    · rw [State.modProc_proc_of_ne s hj]

theorem RunInv.preemptCurrent (i : Slot) : RunInv (preemptCurrent s i) := by
  simp only [Kernel.preemptCurrent]
  repeat' split
  all_goals first | exact h | exact h.rtsSet _ _

omit h in
theorem RunQ.runInv_enqueueTail (h : RunQ s R q) (hi : ¬R i)
    (hR : ∀ j, (s.proc j).isRunnable ↔ R j ∨ j = i) : RunInv (Kernel.enqueueTail s i) := by
  refine ⟨_, (h.enqueueTail hi).of_iff fun j => ?_⟩
  rw [(enqueueTail_edit s i).isRunnable j, hR]

omit h in
theorem RunQ.runInv_enqueueHead (h : RunQ s R q) (hi : ¬R i)
    (hR : ∀ j, (s.proc j).isRunnable ↔ R j ∨ j = i) : RunInv (Kernel.enqueueHead s i) := by
  obtain ⟨q', hq'⟩ := h.enqueueHead hi
  refine ⟨q', hq'.of_iff fun j => ?_⟩
  rw [(enqueueHead_edit s i).isRunnable j, hR]

omit h in
private theorem runnable_modProc_iff (hi : ((s.modProc i f).proc i).isRunnable) (j : Slot) :
    ((s.modProc i f).proc j).isRunnable ↔ (s.proc j).isRunnable ∨ j = i := by
  by_cases hj : j = i
  · subst hj
    exact iff_of_true hi (.inr rfl)
  · rw [State.modProc_proc_of_ne s hj]
    simp [hj]

omit h in
private theorem not_runnable_modProc_iff
    (hi : ((s.modProc i f).proc i).isRunnable ↔ (s.proc i).isRunnable) (j : Slot) :
    ((s.modProc i f).proc j).isRunnable ↔ (s.proc j).isRunnable := by
  by_cases hj : j = i
  · subst hj
    exact hi
  · rw [State.modProc_proc_of_ne s hj]

theorem RunInv.rtsUnset (i : Slot) (f : RtsFlags) : RunInv (rtsUnset s i f) := by
  obtain ⟨q, hq⟩ := h
  have hmod := hq.modProc i (f := (·.unsetRts f)) rfl fun _ => rfl
  simp only [Kernel.rtsUnset]
  split
  · rename_i hflip
    exact (hmod.runInv_enqueueTail hflip.1 (runnable_modProc_iff hflip.2)).preemptCurrent i
  rename_i hflip
  refine ⟨q, hmod.of_iff (not_runnable_modProc_iff ⟨fun hr => ?_, fun hr => ?_⟩)⟩
  · exact by_contra fun hn => hflip ⟨hn, hr⟩
  · have hz : (s.proc i).rtsFlags = {} := hr
    rw [State.modProc_proc_self, Proc.unsetRts, hz]
    rfl

theorem RunInv.requeuePreempted (i : Slot) : RunInv (requeuePreempted s i) := by
  simp only [Kernel.requeuePreempted]
  split
  · rename_i hpre
    have hnot : ¬(s.proc i).isRunnable := by
      intro hr
      have hz : (s.proc i).rtsFlags = {} := hr
      simp [hz] at hpre
    obtain ⟨q, hq⟩ := h
    have hmod := hq.modProc i (f := (·.unsetRts { preempted := true })) rfl fun _ => rfl
    split
    · rename_i hrun
      have hR := runnable_modProc_iff hrun
      split
      · exact hmod.runInv_enqueueHead hnot hR
      · exact (hmod.runInv_enqueueTail hnot hR).preemptCurrent i
    · rename_i hrun
      exact ⟨q, hmod.of_iff (not_runnable_modProc_iff (iff_of_false hrun hnot))⟩
  · exact h

omit h in
theorem pickProc_fst (s : State) : (pickProc s).1.proc = s.proc ∧
    (pickProc s).1.runHeads = s.runHeads ∧ (pickProc s).1.runTails = s.runTails := by
  simp only [pickProc]
  split
  · exact ⟨rfl, rfl, rfl⟩
  split
  · refine ⟨rfl, ?_, ?_⟩ <;>
    · funext o
      simp only [State.runHeads, State.runTails, State.modCpu_cpu]
      split <;> simp_all
  · exact ⟨rfl, rfl, rfl⟩

theorem RunInv.dispatch : RunInv (dispatch s) := by
  obtain ⟨hproc, hheads, htails⟩ := pickProc_fst s
  refine h.frame (fun o => ⟨?_, ?_⟩) ?_ ?_ ?_
  · rw [← hheads]
    simp only [Kernel.dispatch, State.runHeads, State.modCpu_cpu]
    split
    · rename_i e; rw [e]
    · rfl
  · rw [← htails]
    simp only [Kernel.dispatch, State.runTails, State.modCpu_cpu]
    split
    · rename_i e; rw [e]
    · rfl
  all_goals simp [Kernel.dispatch, State.nextready, hproc]

theorem RunInv.pickNew : RunInv (pickNew s) := by
  simp only [Kernel.pickNew]
  split
  · exact (h.requeuePreempted _).dispatch
  · exact h.dispatch

theorem RunInv.switchToUser : RunInv (switchToUser s) := by
  simp only [Kernel.switchToUser]
  split
  · split
    · exact h
    · exact h.pickNew
  · exact h.pickNew

end

theorem not_isRunnable_rtsSet_noQuantum (s : State) (i : Slot) :
    ¬((rtsSet s i { noQuantum := true }).proc i).isRunnable := by
  intro hr
  have hz : ((rtsSet s i { noQuantum := true }).proc i).rtsFlags = {} := hr
  rw [rtsSet_rtsFlags] at hz
  simpa using congrArg RtsFlags.noQuantum hz

theorem Proc.schedParams_fields (r : Proc) (cpuTime : Nat → Nat) (priority quantum cpu : Int)
    (niced : Bool) : let r' := r.schedParams cpuTime priority quantum cpu niced
    r'.nextready = r.nextready ∧ r'.rtsFlags = r.rtsFlags ∧ r'.priv = r.priv ∧
      r'.schedClass = r.schedClass ∧ r'.rtPriority = r.rtPriority ∧
        (cpu = -1 → r'.cpu = r.cpu) := by
  simp only [Proc.schedParams]
  refine ⟨?_, ?_, ?_, ?_, ?_, fun hcpu => ?_⟩
  all_goals (repeat' split) <;> first | rfl | contradiction

theorem RunInv.schedProcTail (h : RunInv s) (i : Slot) (priority quantum cpu : Int) (niced : Bool) :
    RunInv (schedProcTail s i priority quantum cpu niced) := by
  simp only [Kernel.schedProcTail]
  -- the process is off the queues while its place changes
  generalize hu : (if (s.proc i).isRunnable then Kernel.rtsSet s i { noQuantum := true } else s) = u
  obtain ⟨hinv, hnot⟩ : RunInv u ∧ ¬(u.proc i).isRunnable := by
    subst hu
    split
    · exact ⟨h.rtsSet i _, not_isRunnable_rtsSet_noQuantum s i⟩
    · exact ⟨h, ‹_›⟩
  have hfields := (u.proc i).schedParams_fields (ms2CpuTime s) priority quantum cpu niced
  refine (hinv.modProc hnot hfields.1 ?_).rtsUnset i _
  rw [Proc.isRunnable, hfields.2.1]
  exact hnot

theorem schedProc_done {priority quantum cpu : Int} {niced : Bool}
    (h : schedProc s i priority quantum cpu niced = .done t) :
    t = Kernel.schedProcTail s i priority quantum cpu niced ∧
      (priority = -1 ∨ 0 ≤ priority ∧ priority ≤ nrSchedQueues) ∧ (quantum = -1 ∨ 1 ≤ quantum) := by
  simp only [schedProc] at h
  repeat' split at h
  all_goals cases h
  exact ⟨rfl, by omega, by omega⟩

theorem RunInv.schedProcMigrated (h : RunInv s) (hi : (s.proc i).rtsFlags.procStop)
    (priority quantum cpu : Int) (niced : Bool) :
    RunInv (schedProcMigrated s i priority quantum cpu niced) := by
  have hnot : ¬(s.proc i).isRunnable := by
    intro hr
    have hz : (s.proc i).rtsFlags = {} := hr
    simp [hz] at hi
  have hmoved : RunInv (s.modProc i fun r => { r with cpu := cpu.toNat }) := h.modProc hnot rfl hnot
  exact ((hmoved.rtsUnset i _).rtsSet i _).schedProcTail i priority quantum cpu niced

structure SameQueues (s t : State) : Prop where
  heads : t.runHeads = s.runHeads
  tails : t.runTails = s.runTails
  next : t.nextready = s.nextready
  place : ∀ i, (t.proc i).place = (s.proc i).place
  rtsFlags : ∀ i, (t.proc i).rtsFlags = (s.proc i).rtsFlags

/-- The steps of the scheduler, taken by any CPU. `other` is whatever happens to the rest of
the kernel: time passes, another CPU enters the kernel, a context is loaded. -/
inductive SchedStep (s : State) : State → Prop
  | rtsSet (i : Slot) (f : RtsFlags) : SchedStep s (rtsSet s i f)
  | rtsUnset (i : Slot) (f : RtsFlags) : SchedStep s (rtsUnset s i f)
  | schedProc (i : Slot) (priority quantum cpu : Int) (niced : Bool) (t : State)
      (h : schedProc s i priority quantum cpu niced = .done t) : SchedStep s t
  | migrated (i : Slot) (priority quantum cpu : Int) (niced : Bool)
      (h : (s.proc i).rtsFlags.procStop) :
      SchedStep s (schedProcMigrated s i priority quantum cpu niced)
  | switchToUser : SchedStep s (switchToUser s)
  | other (t : State) (h : SameQueues s t) : SchedStep s t

def PrioritiesOk (s : State) : Prop := ∀ i, (s.proc i).priority < nrSchedQueues

def SchedRun (s t : State) : Prop := SchedStep s t ∧ PrioritiesOk t

/-- Nothing is runnable yet and no queue has been started, as `proc_init` leaves it. -/
structure SchedInit (s : State) : Prop where
  notRunnable : ∀ i, ¬(s.proc i).isRunnable
  heads : ∀ o, s.runHeads o = none
  priorities : PrioritiesOk s

theorem SchedInit.runInv (h : SchedInit s) : RunInv s := by
  refine ⟨fun _ => [], ⟨⟨fun o => h.heads o, fun hx => ?_⟩, fun _ hne => absurd rfl hne,
    fun i o => ?_⟩⟩
  · cases hx
  · exact iff_of_false not_mem_nil fun hr => h.notRunnable i hr.1

theorem SchedStep.runInv (hs : SchedStep s t) (h : RunInv s) : RunInv t := by
  cases hs with
  | rtsSet i f => exact h.rtsSet i f
  | rtsUnset i f => exact h.rtsUnset i f
  | schedProc i priority quantum cpu niced t hdone =>
    rw [(schedProc_done hdone).1]
    exact h.schedProcTail i priority quantum cpu niced
  | migrated i priority quantum cpu niced hstop =>
    exact h.schedProcMigrated hstop priority quantum cpu niced
  | switchToUser => exact h.switchToUser
  | other t hsame =>
    exact h.frame (fun o => ⟨congrFun hsame.heads o, congrFun hsame.tails o⟩)
      (congrFun hsame.next) hsame.place hsame.rtsFlags

theorem SchedRun.invariant {s₀ : State} (h₀ : SchedInit s₀)
    (hrun : Relation.ReflTransGen SchedRun s₀ s) : RunInv s ∧ PrioritiesOk s := by
  induction hrun with
  | refl => exact ⟨h₀.runInv, h₀.priorities⟩
  | tail _ hstep ih => exact ⟨hstep.1.runInv ih.1, hstep.2⟩

theorem RunInv.runHeads_ne_none (h : RunInv s) (hi : (s.proc i).isRunnable) :
    s.runHeads (s.proc i).place ≠ none := by
  obtain ⟨q, hq⟩ := h
  intro hnone
  have hmem := (hq.mem_iff i _).mpr ⟨hi, rfl⟩
  rw [head?_eq_none_iff.mp ((hq.queues.linked _).head?_eq.trans hnone)] at hmem
  cases hmem

theorem pickProc_snd (s : State) :
    (pickProc s).2 = (List.range nrSchedQueues).findSome? (s.cpu s.cpuid).runQHead := by
  simp only [pickProc]
  split
  · rename_i h; exact h.symm
  · rename_i h; rw [h]; split <;> rfl

theorem pickProc_eq_some (h : (pickProc s).2 = some i) :
    ∃ k < nrSchedQueues, s.runHeads (s.cpuid, k) = some i ∧
      ∀ k' < k, s.runHeads (s.cpuid, k') = none := by
  rw [pickProc_snd, findSome?_eq_some_iff] at h
  obtain ⟨l₁, k, l₂, hl, hk, hnone⟩ := h
  rw [range_eq_range', range'_eq_append_iff] at hl
  obtain ⟨n, hn, rfl, hcons⟩ := hl
  have hk' : n = k ∧ n < nrSchedQueues := by
    obtain ⟨m, hm⟩ : ∃ m, nrSchedQueues - n = m + 1 := by
      refine Nat.exists_eq_succ_of_ne_zero fun h0 => ?_
      rw [h0] at hcons
      cases hcons
    rw [hm] at hcons
    refine ⟨by simpa using (cons.inj hcons).1.symm, by omega⟩
  obtain ⟨rfl, hlt⟩ := hk'
  exact ⟨n, hlt, hk, fun k' hk' => hnone k' (by simpa using hk')⟩

theorem pickProc_eq_none_iff :
    (pickProc s).2 = none ↔ ∀ k < nrSchedQueues, s.runHeads (s.cpuid, k) = none := by
  rw [pickProc_snd]
  simp [State.runHeads]

/-- In every state of every run, the run queues hold the runnable processes, each once and
in its place; tails are last elements; and `pick_proc` takes the head of the first queue
that is not empty. -/
theorem run_queues_hold_the_runnable {s₀ : State} (h₀ : SchedInit s₀)
    (hrun : Relation.ReflTransGen SchedRun s₀ s) : ∃ q : Nat × Nat → List Slot,
      (∀ c k, Linked (fun j => (s.proc j).nextready) ((s.cpu c).runQHead k) (q (c, k))) ∧
      (∀ c k, (s.cpu c).runQHead k ≠ none → (s.cpu c).runQTail k = (q (c, k)).getLast?) ∧
      (∀ i, ((s.proc i).isRunnable ↔ (q ((s.proc i).cpu, (s.proc i).priority)).count i = 1) ∧
        ∀ c k, i ∈ q (c, k) → c = (s.proc i).cpu ∧ k = (s.proc i).priority) ∧
      ∀ c, ((pickProc { s with cpuid := c }).2 = none ↔
          ∀ i, (s.proc i).cpu = c → ¬(s.proc i).isRunnable) ∧
        ∀ i, (pickProc { s with cpuid := c }).2 = some i →
          ∃ k < nrSchedQueues, (q (c, k)).head? = some i ∧ ∀ k' < k, q (c, k') = [] := by
  obtain ⟨hinv, hprio⟩ := SchedRun.invariant h₀ hrun
  obtain ⟨q, hq⟩ := id hinv
  have hhead : ∀ o, (q o).head? = s.runHeads o := fun o => (hq.queues.linked o).head?_eq
  refine ⟨q, fun c k => hq.queues.linked (c, k), fun c k hne => ?_, fun i => ⟨?_, ?_⟩,
    fun c => ⟨?_, fun i hi => ?_⟩⟩
  · refine hq.tail (c, k) fun hnil => hne ?_
    have hck := hhead (c, k)
    rw [hnil] at hck
    exact hck.symm
  · have hmem := hq.mem_iff i (s.proc i).place
    rw [show ((s.proc i).cpu, (s.proc i).priority) = (s.proc i).place from rfl]
    constructor
    · exact fun hr => count_eq_one_of_mem (hq.queues.nodup _) (hmem.mpr ⟨hr, rfl⟩)
    · exact fun hc => (hmem.mp (count_pos_iff.mp (by omega))).1
  · intro c k hm
    have hplace := ((hq.mem_iff i (c, k)).mp hm).2
    exact ⟨congrArg Prod.fst hplace, congrArg Prod.snd hplace⟩
  · rw [pickProc_eq_none_iff]
    constructor
    · rintro hnone i rfl hr
      exact hinv.runHeads_ne_none hr (hnone _ (hprio i))
    · intro hnot k _
      change s.runHeads (c, k) = none
      rw [← hhead, head?_eq_none_iff, eq_nil_iff_forall_not_mem]
      intro i hm
      obtain ⟨hr, hplace⟩ := (hq.mem_iff i (c, k)).mp hm
      exact hnot i (congrArg Prod.fst hplace).symm hr
  · obtain ⟨k, hk, hhd, hbefore⟩ := pickProc_eq_some hi
    refine ⟨k, hk, (hhead (c, k)).trans hhd, fun k' hk' => ?_⟩
    rw [← head?_eq_none_iff, hhead]
    exact hbefore k' hk'

theorem procInit_schedInit : SchedInit procInit where
  notRunnable i hr := by simp [Proc.isRunnable, procInit] at hr
  heads _ := rfl
  priorities i := by simp [procInit]

/-- Free slots with privileges to be preempted, slot 7 in a better queue than the others. -/
def freeSlots : State := { procInit with
  proc := fun i => { procInit.proc i with priority := if i = 7 then 3 else 8 }
  priv := fun k => { procInit.priv k with flags := { preemptible := true } } }

theorem freeSlots_schedInit : SchedInit freeSlots where
  notRunnable i hr := by simp [Proc.isRunnable, freeSlots, procInit] at hr
  heads _ := rfl
  priorities i := by
    simp only [freeSlots]
    split <;> decide

/-- Slots 5 and 6 become runnable and 5 runs until it is preempted by 7; it then stands behind
6. -/
theorem run_queues_hold_preempted : ∃ s, Relation.ReflTransGen SchedRun freeSlots s ∧
    (s.cpu 0).procPtr = some 7 ∧ (s.cpu 0).runQHead 8 = some 6 ∧
    ∃ q : Nat × Nat → List Slot,
      Linked (fun j => (s.proc j).nextready) ((s.cpu 0).runQHead 8) (q (0, 8)) ∧
      (q (0, 8)).count 6 = 1 ∧ (q (0, 8)).count 5 = 1 ∧ (q (0, 8)).getLast? = some 5 ∧
      (q (0, 3)).count 7 = 1 := by
  obtain ⟨s₁, hs₁⟩ : ∃ s₁, s₁ = rtsUnset freeSlots 5 { slotFree := true } := ⟨_, rfl⟩
  obtain ⟨s₂, hs₂⟩ : ∃ s₂, s₂ = rtsUnset s₁ 6 { slotFree := true } := ⟨_, rfl⟩
  obtain ⟨s₃, hs₃⟩ : ∃ s₃, s₃ = rtsUnset (switchToUser s₂) 7 { slotFree := true } := ⟨_, rfl⟩
  have hfirst : SchedRun freeSlots s₁ :=
    ⟨hs₁ ▸ .rtsUnset 5 _, by subst hs₁; unfold PrioritiesOk; decide +kernel⟩
  have hsecond : SchedRun s₁ s₂ :=
    ⟨hs₂ ▸ .rtsUnset 6 _, by subst hs₂ hs₁; unfold PrioritiesOk; decide +kernel⟩
  have hpick : SchedRun s₂ (switchToUser s₂) :=
    ⟨.switchToUser, by subst hs₂ hs₁; unfold PrioritiesOk; decide +kernel⟩
  have hthird : SchedRun (switchToUser s₂) s₃ :=
    ⟨hs₃ ▸ .rtsUnset 7 _, by subst hs₃ hs₂ hs₁; unfold PrioritiesOk; decide +kernel⟩
  have hrepick : SchedRun s₃ (switchToUser s₃) :=
    ⟨.switchToUser, by subst hs₃ hs₂ hs₁; unfold PrioritiesOk; decide +kernel⟩
  have hrun := ((((Relation.ReflTransGen.single hfirst).tail hsecond).tail hpick).tail hthird).tail
    hrepick
  have hstate : ((switchToUser s₃).cpu 0).procPtr = some 7 ∧
      ((switchToUser s₃).cpu 0).runQHead 8 = some 6 ∧
      ((switchToUser s₃).cpu 0).runQTail 8 = some 5 ∧
      ((switchToUser s₃).proc 5).place = (0, 8) ∧ ((switchToUser s₃).proc 6).place = (0, 8) ∧
      ((switchToUser s₃).proc 7).place = (0, 3) ∧
      ∀ i ∈ [(5 : Slot), 6, 7], ((switchToUser s₃).proc i).isRunnable := by
    subst hs₃ hs₂ hs₁
    decide +kernel
  obtain ⟨hptr, hhead, htail, hfive, hsix, hseven, hrunnable⟩ := hstate
  obtain ⟨q, hlinked, hlast, hmem, -⟩ := run_queues_hold_the_runnable freeSlots_schedInit hrun
  refine ⟨_, hrun, hptr, hhead, q, hlinked 0 8, ?_, ?_, ?_, ?_⟩
  · exact hsix ▸ (hmem 6).1.mp (hrunnable 6 (by decide))
  · exact hfive ▸ (hmem 5).1.mp (hrunnable 5 (by decide))
  · rw [← hlast 0 8 (by rw [hhead]; nofun), htail]
  · exact hseven ▸ (hmem 7).1.mp (hrunnable 7 (by decide))

end Gergios.Kernel
