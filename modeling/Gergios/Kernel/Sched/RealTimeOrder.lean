import Gergios.Kernel.Sched.Priorities

/-!
# Real-time order

With queue numbers that agree with the real-time priorities every re-pick gives the CPU to
a real-time process that no runnable one beats. Where two live processes are not separated
in this sense, two wake-ups are enough to run the wrong one. The queues stay apart as long as
every new class and every new queue fits in.
-/

namespace Gergios.Kernel

open Lib Option

variable {s t : State}

/-- `CurrentOk`, except that `i` need not have been noticed yet. -/
def CurrentOkBut (s : State) (i : Slot) : Prop :=
  ∀ p, (s.cpu s.cpuid).procPtr = some p → ∀ y, y ≠ i → (s.proc y).isRunnable →
    (s.proc y).Beats (s.proc p) → (s.proc p).rtsFlags.preempted

variable {i y : Slot} {f : RtsFlags} {s₀ : State}

theorem RtCore.preemptCurrent (hcpu : ∀ j, (s.proc j).cpu = s.cpuid)
    (hpre : ∀ j, (s.privOf j).flags.preemptible) (h : CurrentOkBut s i) :
    RtCore (preemptCurrent s i) := by
  have e := preemptCurrent_quiet s i
  refine ⟨fun j => by rw [e.cpu, e.cpuid, hcpu], fun j => by rw [e.preemptible]; exact hpre j, ?_⟩
  intro p hp y hy hb
  rw [e.procPtr] at hp
  have hb' : (s.proc y).Beats (s.proc p) := hb.congr (e.schedClass p).symm (e.schedClass y).symm
    (e.rtPriority p).symm (e.rtPriority y).symm
  by_cases hyi : y = i
  · subst hyi
    exact preemptCurrent_preempted (hcpu y) hp (hpre p) hb'
  · exact e.preempted p (h p hp y hyi (e.runnable y hy) hb')

theorem RtCore.rtsUnset (h : RtCore s) (i : Slot) (hf : f.preempted = false) :
    RtCore (rtsUnset s i f) := by
  have emod : FlagEdit s (s.modProc i (·.unsetRts f)) := FlagEdit.modFlags s i (·.unset f)
  have hpre : ∀ j, (s.proc j).rtsFlags.preempted →
      ((s.modProc i (·.unsetRts f)).proc j).rtsFlags.preempted := by
    intro j hj
    rw [State.modProc_proc]
    split
    · subst j; simpa [Proc.unsetRts, hf] using hj
    · exact hj
  simp only [Kernel.rtsUnset]
  split
  · have etail := enqueueTail_edit (s.modProc i (·.unsetRts f)) i
    have e := emod.trans etail.flagEdit
    refine RtCore.preemptCurrent (fun j => ?_) (fun j => ?_) fun p hp y hyi hy hb => ?_
    · rw [e.proc j, e.cpuid]
      exact h.cpu j
    · rw [State.privOf, e.proc j, e.priv]
      exact h.preemptible j
    · rw [e.cpuid, e.cpu] at hp
      have hy' : (s.proc y).isRunnable := by
        rw [etail.isRunnable, State.modProc_proc_of_ne s hyi] at hy
        exact hy
      rw [etail.rtsFlags]
      refine hpre p (h.current p hp y hy' ?_)
      rw [e.proc p, e.proc y] at hb
      exact hb
  · rename_i hflip
    refine h.quiet (emod.quiet (fun j hj => ?_) hpre)
    by_cases hji : j = i
    · subst hji
      exact by_contra fun hn => hflip ⟨hn, hj⟩
    · rwa [State.modProc_proc_of_ne s hji] at hj

theorem RtCore.modProc (h : RtCore s) {f : Proc → Proc}
    (hi : ¬(f (s.proc i)).isRunnable) (hcur : (s.cpu s.cpuid).procPtr ≠ some i)
    (hf : ∀ p, (f p).cpu = p.cpu ∧ (f p).priv = p.priv) : RtCore (s.modProc i f) := by
  have hsame : ∀ j, ((s.modProc i f).proc j).cpu = (s.proc j).cpu ∧
      ((s.modProc i f).proc j).priv = (s.proc j).priv := by
    intro j
    rw [State.modProc_proc]
    split
    · subst j; exact hf _
    · exact ⟨rfl, rfl⟩
  refine ⟨fun j => ?_, fun j => ?_, fun p hp y hy hb => ?_⟩
  · rw [(hsame j).1]; exact h.cpu j
  · rw [State.privOf, (hsame j).2]; exact h.preemptible j
  · have hpi : p ≠ i := fun e => hcur (e ▸ hp)
    have hyi : y ≠ i := fun e => hi (by rwa [e, State.modProc_proc_self] at hy)
    rw [State.modProc_proc_of_ne s hyi] at hy hb
    rw [State.modProc_proc_of_ne s hpi] at hb ⊢
    exact h.current p hp y hy hb

theorem RtCore.schedProcTail (h : RtCore s) (i : Slot) (priority quantum : Int) (niced : Bool) :
    RtCore (schedProcTail s i priority quantum (-1) niced) := by
  refine RtCore.rtsUnset (RtCore.quiet ?_ (Quiet.modProc _ i fun p => ?_)) i rfl
  · split
    · exact h.quiet (Quiet.rtsSet s i _)
    · exact h
  · obtain ⟨-, hflags, hpriv, hcls, hrt, hcpu⟩ :=
      p.schedParams_fields (ms2CpuTime s) priority quantum (-1) niced
    exact ⟨hcpu rfl, hpriv, hcls, hrt, hflags⟩

/-! ## The re-pick -/

theorem isRt_le_of_not_beats {x y : Proc} (hy : y.isRt) (h : ¬y.Beats x) :
    x.isRt ∧ y.rtPriority ≤ x.rtPriority := by
  have hx : ¬(x.isRt → x.rtPriority < y.rtPriority) := fun hx => h ⟨hy, hx⟩
  rw [Classical.not_imp] at hx
  exact ⟨hx.1, Nat.le_of_not_lt hx.2⟩

theorem Proc.isRunnable.slotFree {p : Proc} (h : p.isRunnable) : ¬p.rtsFlags.slotFree := by
  have hz : p.rtsFlags = {} := h
  simp [hz]

theorem Proc.isRunnable.preempted {p : Proc} (h : p.isRunnable) : ¬p.rtsFlags.preempted := by
  have hz : p.rtsFlags = {} := h
  simp [hz]

theorem not_beats_pickProc (hrun : RunInv s) (hcpu : ∀ i, (s.proc i).cpu = s.cpuid)
    (hsep : Separated s) {p : Slot}
    (hp : (pickProc s).2 = some p) (hy : (s.proc y).isRunnable) : ¬(s.proc y).Beats (s.proc p) := by
  intro hb
  obtain ⟨q, hq⟩ := id hrun
  obtain ⟨k, -, hhead, hbefore⟩ := pickProc_eq_some hp
  have hmem : p ∈ q (s.cpuid, k) :=
    List.mem_of_mem_head? ((hq.queues.linked (s.cpuid, k)).head?_eq.trans hhead)
  obtain ⟨hprun, hplace⟩ := (hq.mem_iff p _).mp hmem
  have hk : k = (s.proc p).priority := congrArg Prod.snd hplace
  have hlt : (s.proc y).priority < k := hk ▸ hsep y p hy.slotFree hprun.slotFree hb
  refine hrun.runHeads_ne_none hy ?_
  rw [Proc.place, hcpu y]
  exact hbefore _ hlt

variable (s)

theorem dispatch_proc : (dispatch s).proc = s.proc := (pickProc_fst s).1

theorem pickProc_fst_rest : (pickProc s).1.cpuid = s.cpuid ∧ (pickProc s).1.priv = s.priv := by
  simp only [pickProc]
  split
  · exact ⟨rfl, rfl⟩
  · split <;> exact ⟨rfl, rfl⟩

theorem dispatch_cpuid : (dispatch s).cpuid = s.cpuid := (pickProc_fst_rest s).1

theorem dispatch_privOf (i : Slot) : (dispatch s).privOf i = s.privOf i := by
  rw [State.privOf, State.privOf, dispatch_proc,
    show (dispatch s).priv = s.priv from (pickProc_fst_rest s).2]

theorem dispatch_procPtr : ((dispatch s).cpu (dispatch s).cpuid).procPtr = (pickProc s).2 := by
  rw [dispatch_cpuid, dispatch, State.modCpu_cpu, if_pos rfl]

variable {s}

structure PickReady (s : State) : Prop where
  run : RunInv s
  prio : PrioritiesOk s
  cpu : ∀ i, (s.proc i).cpu = s.cpuid
  preemptible : ∀ i, (s.privOf i).flags.preemptible
  separated : Separated s

theorem PickReady.not_beats (h : PickReady s) {p : Slot}
    (hp : ((dispatch s).cpu (dispatch s).cpuid).procPtr = some p)
    (hy : ((dispatch s).proc y).isRunnable) :
    ¬((dispatch s).proc y).Beats ((dispatch s).proc p) := by
  rw [dispatch_procPtr] at hp
  rw [dispatch_proc] at hy ⊢
  exact not_beats_pickProc h.run h.cpu h.separated hp hy

theorem PickReady.rtCore (h : PickReady s) : RtCore (dispatch s) where
  cpu i := by rw [dispatch_proc, dispatch_cpuid, h.cpu]
  preemptible i := by rw [dispatch_privOf]; exact h.preemptible i
  current _ hp _ hy hb := absurd hb (h.not_beats hp hy)

theorem PickReady.rtOrdered (h : PickReady s) : RtOrdered (dispatch s) := by
  intro y hy hrt
  obtain ⟨p, hp⟩ : ∃ p, (pickProc s).2 = some p := by
    rw [← isSome_iff_exists, isSome_iff_ne_none, Ne, pickProc_eq_none_iff]
    intro hnone
    rw [dispatch_proc] at hy
    refine h.run.runHeads_ne_none hy ?_
    rw [Proc.place, h.cpu y]
    exact hnone _ (h.prio y)
  have hcur := (dispatch_procPtr s).trans hp
  exact ⟨p, hcur, isRt_le_of_not_beats hrt (h.not_beats hcur hy)⟩

/-- Classes, priorities and queues are the same, and so are the live processes. -/
structure SameRank (s t : State) : Prop where
  schedClass : ∀ j, (t.proc j).schedClass = (s.proc j).schedClass
  rtPriority : ∀ j, (t.proc j).rtPriority = (s.proc j).rtPriority
  priority : ∀ j, (t.proc j).priority = (s.proc j).priority
  slotFree : ∀ j, (t.proc j).rtsFlags.slotFree = (s.proc j).rtsFlags.slotFree

protected theorem SameRank.refl (s : State) : SameRank s s :=
  ⟨fun _ => rfl, fun _ => rfl, fun _ => rfl, fun _ => rfl⟩

protected theorem SameRank.trans {u : State} (h : SameRank s t) (h' : SameRank t u) :
    SameRank s u :=
  ⟨fun j => (h'.schedClass j).trans (h.schedClass j),
    fun j => (h'.rtPriority j).trans (h.rtPriority j),
    fun j => (h'.priority j).trans (h.priority j), fun j => (h'.slotFree j).trans (h.slotFree j)⟩

theorem FlagEdit.sameRank (e : FlagEdit s t)
    (hfree : ∀ j, (t.proc j).rtsFlags.slotFree = (s.proc j).rtsFlags.slotFree) : SameRank s t :=
  ⟨fun j => by rw [e.proc j], fun j => by rw [e.proc j], fun j => by rw [e.proc j], hfree⟩

theorem Separated.congr (h : Separated s) (e : SameRank s t) : Separated t := by
  intro x y hx hy hb
  rw [e.slotFree] at hx hy
  rw [e.priority, e.priority]
  exact h x y hx hy (hb.congr (e.schedClass y).symm (e.schedClass x).symm (e.rtPriority y).symm
    (e.rtPriority x).symm)

theorem preemptCurrent_slotFree (s : State) (i j : Slot) :
    ((preemptCurrent s i).proc j).rtsFlags.slotFree = (s.proc j).rtsFlags.slotFree := by
  rcases preemptCurrent_rtsFlags s i j with h | ⟨-, h⟩ <;> simp [h]

theorem rtsUnset_slotFree (s : State) (i : Slot) (hf : f.slotFree = false) (j : Slot) :
    ((rtsUnset s i f).proc j).rtsFlags.slotFree = (s.proc j).rtsFlags.slotFree := by
  rcases rtsUnset_rtsFlags s i f j with h | ⟨-, h⟩ <;> rw [h] <;> split <;> simp [hf]

theorem requeuePreempted_slotFree (s : State) (i j : Slot) :
    ((requeuePreempted s i).proc j).rtsFlags.slotFree = (s.proc j).rtsFlags.slotFree := by
  have hmod : ((s.modProc i (·.unsetRts { preempted := true })).proc j).rtsFlags.slotFree =
      (s.proc j).rtsFlags.slotFree := by
    rw [State.modProc_proc]
    split
    · subst j; simp [Proc.unsetRts]
    · rfl
  simp only [requeuePreempted]
  split
  · split
    · split
      · rw [(enqueueHead_edit _ i).rtsFlags, hmod]
      · rw [enqueue, preemptCurrent_slotFree, (enqueueTail_edit _ i).rtsFlags, hmod]
    · exact hmod
  · rfl

theorem requeuePreempted_sameRank (s : State) (i : Slot) : SameRank s (requeuePreempted s i) :=
  (requeuePreempted_edit s i).sameRank (requeuePreempted_slotFree s i)

theorem PickReady.requeuePreempted (h : PickReady s) (i : Slot) :
    PickReady (requeuePreempted s i) where
  run := h.run.requeuePreempted i
  prio := h.prio.edit (requeuePreempted_edit s i)
  cpu j := by
    have e := requeuePreempted_edit s i
    rw [e.proc j, e.cpuid]
    exact h.cpu j
  preemptible j := by
    have e := requeuePreempted_edit s i
    rw [State.privOf, e.proc j, e.priv]
    exact h.preemptible j
  separated := h.separated.congr (requeuePreempted_sameRank s i)

theorem switchToUser_rt (hcore : RtCore s) (h : PickReady s) :
    RtCore (switchToUser s) ∧ RtOrdered (switchToUser s) := by
  simp only [switchToUser, pickNew]
  cases hp : (s.cpu s.cpuid).procPtr with
  | none => exact ⟨h.rtCore, h.rtOrdered⟩
  | some p =>
    simp only []
    split
    · rename_i hprun
      refine ⟨hcore, fun y hy hrt => ⟨p, hp, isRt_le_of_not_beats hrt fun hb => ?_⟩⟩
      exact hprun.preempted (hcore.current p hp y hy hb)
    · exact ⟨(h.requeuePreempted p).rtCore, (h.requeuePreempted p).rtOrdered⟩

/-! ## Runs -/

theorem RtStep.preserves {op : RtOp} (hs : RtStep s op t) (hrun : RunInv s) (hcore : RtCore s)
    (hprio : PrioritiesOk s) (hsep : Separated s) : RunInv t ∧ RtCore t := by
  cases hs with
  | setClass i cls prio quantum t hi hcur h =>
    have hset : ∀ f : Proc → Proc, (∀ p, (f p).nextready = p.nextready ∧
      (f p).rtsFlags = p.rtsFlags ∧
        (f p).cpu = p.cpu ∧ (f p).priv = p.priv) → RunInv (s.modProc i f) ∧
          RtCore (s.modProc i f) := by
      intro f hf
      have hi' : ¬(f (s.proc i)).isRunnable := by rw [Proc.isRunnable, (hf _).2.1]; exact hi
      exact ⟨hrun.modProc hi (hf _).1 hi', hcore.modProc hi' hcur fun p => (hf p).2.2⟩
    simp only [schedRtSetClass, setRtClass] at h
    repeat' split at h
    all_goals cases h
    all_goals exact hset _ fun _ => ⟨rfl, rfl, rfl, rfl⟩
  | setFlags i f hi hcur hf =>
    exact ⟨hrun.modProc hi rfl hf, hcore.modProc hf hcur fun _ => ⟨rfl, rfl⟩⟩
  | rtsSet i f hf => exact ⟨hrun.rtsSet i f, hcore.quiet (Quiet.rtsSet s i f)⟩
  | rtsUnset i f hpre hf => exact ⟨hrun.rtsUnset i f, hcore.rtsUnset i hpre⟩
  | schedProc i priority quantum niced t h =>
    refine ⟨(SchedStep.schedProc i priority quantum (-1) niced t h).runInv hrun, ?_⟩
    rw [(schedProc_done h).1]
    exact hcore.schedProcTail i priority quantum niced
  | handleQuantum i t h =>
    have hquiet : ∀ n : Proc → Nat, Quiet s (s.modProc i fun r => { r with cpuTimeLeft := n r }) :=
      fun n => Quiet.modProc s i fun _ => ⟨rfl, rfl, rfl, rfl, rfl⟩
    have hkeep : ∀ n : Proc → Nat, RunInv (s.modProc i fun r => { r with cpuTimeLeft := n r }) := by
      intro n
      refine hrun.frame (fun _ => ⟨rfl, rfl⟩) ?_ ?_ ?_ <;> intro j <;>
        simp only [State.nextready, State.modProc_proc] <;> split <;> first | rfl | (subst j; rfl)
    simp only [schedRtHandleQuantum] at h
    split at h
    · cases h
    · cases h
      exact ⟨hkeep _, hcore.quiet (hquiet _)⟩
    · cases h
      exact ⟨(hkeep _).rtsUnset i _, (hcore.quiet (hquiet _)).rtsUnset i rfl⟩
  | switchToUser =>
    exact ⟨hrun.switchToUser, (switchToUser_rt hcore
      ⟨hrun, hprio, hcore.cpu, hcore.preemptible, hsep⟩).1⟩
  | other t h =>
    refine ⟨(SchedStep.other t h.toSameQueues).runInv hrun, hcore.quiet ?_⟩
    exact ⟨h.cpuid, h.procPtr, fun i => congrArg Prod.fst (h.place i), h.preemptible, h.schedClass,
      h.rtPriority, fun i hi => by rwa [Proc.isRunnable, h.rtsFlags i] at hi,
      fun i hi => by rwa [h.rtsFlags i]⟩

theorem RtInit.rtCore (h : RtInit s) : RtCore s where
  cpu := h.cpu
  preemptible := h.preemptible
  current p hp := by rw [h.idle] at hp; cases hp

theorem Separated.modProc (h : Separated s) {f : Proc → Proc}
    (hfits : ¬(f (s.proc i)).rtsFlags.slotFree → FitsIn s i (f (s.proc i))) :
    Separated (s.modProc i f) := by
  intro x y hx hy hb
  by_cases hxi : x = i <;> by_cases hyi : y = i
  · subst hxi hyi
    exact absurd (hb.2 hb.1) (Nat.lt_irrefl _)
  · subst hxi
    rw [State.modProc_proc_self] at hx hb ⊢
    rw [State.modProc_proc_of_ne s hyi] at hy hb ⊢
    exact (hfits hx y hyi hy).1 hb
  · subst hyi
    rw [State.modProc_proc_self] at hy hb ⊢
    rw [State.modProc_proc_of_ne s hxi] at hx hb ⊢
    exact (hfits hy x hxi hx).2 hb
  · rw [State.modProc_proc_of_ne s hxi] at hx hb ⊢
    rw [State.modProc_proc_of_ne s hyi] at hy hb ⊢
    exact h x y hx hy hb

theorem Separated.fitsIn (h : Separated s) (hi : ¬(s.proc i).rtsFlags.slotFree) :
    FitsIn s i (s.proc i) := fun y _ hy => ⟨h i y hi hy, h y i hy hi⟩

theorem rtsSet_slotFree (s : State) (i : Slot) (hf : f.slotFree = false) (j : Slot) :
    ((rtsSet s i f).proc j).rtsFlags.slotFree = (s.proc j).rtsFlags.slotFree := by
  rw [rtsSet_rtsFlags]
  split <;> simp [hf]

theorem rtsSet_sameRank (s : State) (i : Slot) (hf : f.slotFree = false) :
    SameRank s (rtsSet s i f) := (rtsSet_edit ..).sameRank (rtsSet_slotFree s i hf)

theorem rtsUnset_sameRank (s : State) (i : Slot) (hf : f.slotFree = false) :
    SameRank s (rtsUnset s i f) := (rtsUnset_edit ..).sameRank (rtsUnset_slotFree s i hf)

theorem FitsIn.congr {p q : Proc} (h : FitsIn s i p) (e : SameRank s t)
    (hcls : q.schedClass = p.schedClass) (hrt : q.rtPriority = p.rtPriority)
    (hprio : q.priority = p.priority) : FitsIn t i q := by
  intro y hyi hy
  rw [e.slotFree] at hy
  obtain ⟨hxy, hyx⟩ := h y hyi hy
  rw [Proc.Apart, hprio, e.priority]
  exact ⟨fun hb => hxy (hb.congr (e.schedClass y).symm hcls.symm (e.rtPriority y).symm hrt.symm),
    fun hb => hyx (hb.congr hcls.symm (e.schedClass y).symm hrt.symm (e.rtPriority y).symm)⟩

theorem Proc.schedParams_priority (r : Proc) (cpuTime : Nat → Nat) (priority quantum cpu : Int)
    (niced : Bool) : (r.schedParams cpuTime priority quantum cpu niced).priority =
      if priority = -1 then r.priority else priority.toNat := by
  simp only [Proc.schedParams]
  repeat' split
  all_goals first | rfl | contradiction

theorem Separated.schedProcTail (h : Separated s) {priority : Int} (quantum : Int) (niced : Bool)
    (hfits : ¬(s.proc i).rtsFlags.slotFree → priority ≠ -1 →
      FitsIn s i { s.proc i with priority := priority.toNat }) :
    Separated (schedProcTail s i priority quantum (-1) niced) := by
  simp only [Kernel.schedProcTail]
  generalize hu : (if (s.proc i).isRunnable then rtsSet s i { noQuantum := true } else s) = u
  have e : SameRank s u := by
    subst hu
    split
    · exact rtsSet_sameRank s i rfl
    · exact .refl s
  refine ((h.congr e).modProc fun hi => ?_).congr (rtsUnset_sameRank _ _ rfl)
  obtain ⟨-, hflags, -, hcls, hrt, -⟩ :=
    (u.proc i).schedParams_fields (ms2CpuTime s) priority quantum (-1) niced
  have hprio := (u.proc i).schedParams_priority (ms2CpuTime s) priority quantum (-1) niced
  rw [hflags, e.slotFree] at hi
  rw [e.schedClass] at hcls
  rw [e.rtPriority] at hrt
  by_cases hneg : priority = -1
  · rw [if_pos hneg, e.priority] at hprio
    exact (h.fitsIn hi).congr e hcls hrt hprio
  · rw [if_neg hneg] at hprio
    exact (hfits hi hneg).congr e hcls hrt hprio

theorem Separated.setClass (h : Separated s) {cls prio quantum : Int}
    (hset : schedRtSetClass s i cls prio quantum = some t)
    (hkeep : RtOp.KeepsApart s (.setClass i cls prio quantum)) : Separated t := by
  simp only [RtOp.KeepsApart] at hkeep
  simp only [schedRtSetClass, setRtClass] at hset
  cases hcls : SchedClass.ofInt cls with
  | none =>
    rw [hcls] at hset
    cases hset
  | some c =>
    rw [hcls] at hset hkeep
    cases c with
    | other =>
      cases hset
      exact h.modProc hkeep
    | fifo =>
      simp only at hset
      split at hset
      · cases hset
      · cases hset
        exact h.modProc fun hi => (hkeep hi).congr (.refl s) rfl rfl rfl
    | rr =>
      simp only at hset
      split at hset
      · cases hset
      · cases hset
        exact h.modProc fun hi => (hkeep hi).congr (.refl s) rfl rfl rfl

theorem dispatch_sameRank (s : State) : SameRank s (dispatch s) :=
  ⟨fun j => by rw [dispatch_proc], fun j => by rw [dispatch_proc], fun j => by rw [dispatch_proc],
    fun j => by rw [dispatch_proc]⟩

theorem switchToUser_sameRank (s : State) : SameRank s (switchToUser s) := by
  simp only [switchToUser, pickNew]
  cases (s.cpu s.cpuid).procPtr with
  | none => exact dispatch_sameRank s
  | some p =>
    dsimp only
    split
    · exact .refl s
    · exact (requeuePreempted_sameRank s p).trans (dispatch_sameRank _)

theorem schedRtHandleQuantum_sameRank (h : schedRtHandleQuantum s i = some t) : SameRank s t := by
  have htime : ∀ n : Proc → Nat, SameRank s (s.modProc i fun r => { r with cpuTimeLeft := n r }) :=
    fun n => by
      constructor <;> intro j <;> rw [State.modProc_proc] <;> split <;>
        first | rfl | (subst j; rfl)
  simp only [schedRtHandleQuantum] at h
  split at h
  · cases h
  · cases h
    exact htime _
  · cases h
    exact (htime _).trans (rtsUnset_sameRank _ i rfl)

/-- The condition on a step keeps the queues apart. -/
theorem RtStep.separated {op : RtOp} (hs : RtStep s op t) (hkeep : op.KeepsApart s)
    (hprio : PrioritiesOk s) (hsep : Separated s) : PrioritiesOk t ∧ Separated t := by
  have hrank : SameRank s t → PrioritiesOk t ∧ Separated t := fun e =>
    ⟨fun i => by rw [e.priority]; exact hprio i, hsep.congr e⟩
  cases hs with
  | setClass i cls prio quantum t hi hcur h => exact ⟨hprio.setClass h, hsep.setClass h hkeep⟩
  | setFlags i f hi hcur hf =>
    refine ⟨hprio.modProc fun h => h, hsep.modProc fun hi => ?_⟩
    exact (hkeep (by simpa using hi)).congr (.refl s) rfl rfl rfl
  | rtsSet i f hf => exact hrank (rtsSet_sameRank s i hf)
  | rtsUnset i f hpre hf => exact hrank (rtsUnset_sameRank s i hf)
  | schedProc i priority quantum niced t h =>
    obtain ⟨rfl, hrange, -⟩ := schedProc_done h
    refine ⟨hprio.schedProcTail quantum (-1) niced (hrange.imp_right fun hp => ⟨hp.1, ?_⟩),
      hsep.schedProcTail quantum niced hkeep.2⟩
    exact lt_of_le_of_ne hp.2 hkeep.1
  | handleQuantum i t h => exact hrank (schedRtHandleQuantum_sameRank h)
  | switchToUser => exact hrank (switchToUser_sameRank s)
  | other t h =>
    exact hrank ⟨h.schedClass, h.rtPriority, fun i => congrArg Prod.snd (h.place i),
      fun i => by rw [h.rtsFlags i]⟩

theorem RtRun.invariant (h₀ : RtInit s₀) (hsep : Separated s₀)
    (hrun : Relation.ReflTransGen RtRun s₀ s) :
    (RunInv s ∧ RtCore s) ∧ PrioritiesOk s ∧ Separated s := by
  induction hrun with
  | refl => exact ⟨⟨h₀.runInv, h₀.rtCore⟩, h₀.priorities, hsep⟩
  | tail _ hstep ih =>
    obtain ⟨op, hstep, hkeep⟩ := hstep
    obtain ⟨⟨hinv, hcore⟩, hprio, hs⟩ := ih
    exact ⟨hstep.preserves hinv hcore hprio hs, hstep.separated hkeep hprio hs⟩

theorem runHeads_enqueueTail (s : State) (i : Slot)
    (htail : s.runHeads (s.proc i).place ≠ none → s.runTails (s.proc i).place ≠ none)
    (o : Nat × Nat) : (enqueueTail s i).runHeads o =
      if o = (s.proc i).place ∧ s.runHeads o = none then some i else s.runHeads o := by
  obtain ⟨c, k, ho, hcpu, hprio⟩ := (s.proc i).exists_place
  rw [ho] at htail ⊢
  simp only [enqueueTail, hcpu, hprio]
  cases hhead : (s.cpu c).runQHead k with
  | none =>
    have hnone : s.runHeads (c, k) = none := hhead
    rw [runHeads_modProc, runHeads_setTail, runHeads_writeReady, cellHeads]
    by_cases hok : o = (c, k) <;> simp [hok, hnone]
  | some a =>
    have hsome : s.runHeads (c, k) = some a := hhead
    obtain ⟨b, hb⟩ : ∃ b, (s.cpu c).runQTail k = some b :=
      ne_none_iff_exists'.mp (htail (by simp [hsome]))
    simp only [hb]
    rw [runHeads_modProc, runHeads_setTail, runHeads_writeReady, cellHeads]
    by_cases hok : o = (c, k) <;> simp [hok, hsome]

theorem RunInv.runTails_ne_none (h : RunInv s) {o : Nat × Nat} (ho : s.runHeads o ≠ none) :
    s.runTails o ≠ none := by
  obtain ⟨q, hq⟩ := h
  have hne : q o ≠ [] := by
    intro hnil
    refine ho ?_
    rw [← (hq.queues.linked o).head?_eq, hnil, List.head?_nil]
  rw [hq.tail o hne]
  simpa using hne

def wake (s : State) (i : Slot) : State := rtsUnset s i (s.proc i).rtsFlags

theorem wake_edit (s : State) (i : Slot) : FlagEdit s (wake s i) := rtsUnset_edit ..

section Wake

variable {i : Slot} (hidle : (s.cpu s.cpuid).procPtr = none) (hi : ¬(s.proc i).isRunnable)

include hidle hi

theorem wake_eq_enqueueTail :
    wake s i = enqueueTail (s.modProc i (·.unsetRts (s.proc i).rtsFlags)) i := by
  have hself : ((s.modProc i (·.unsetRts (s.proc i).rtsFlags)).proc i).isRunnable := by
    rw [State.modProc_proc_self, Proc.isRunnable, Proc.unsetRts, RtsFlags.unset]
    simp
  simp only [wake, rtsUnset]
  rw [if_pos ⟨hi, hself⟩, enqueue, preemptCurrent]
  have e := enqueueTail_edit (s.modProc i (·.unsetRts (s.proc i).rtsFlags)) i
  have hptr : ((enqueueTail (s.modProc i (·.unsetRts (s.proc i).rtsFlags)) i).cpu
      (enqueueTail (s.modProc i (·.unsetRts (s.proc i).rtsFlags)) i).cpuid).procPtr = none := by
    rw [e.procPtr, e.cpuid]
    exact hidle
  simp only [hptr, ite_self]

theorem wake_isRunnable : ((wake s i).proc i).isRunnable := by
  rw [wake_eq_enqueueTail hidle hi, (enqueueTail_edit _ i).isRunnable, State.modProc_proc_self,
    Proc.isRunnable, Proc.unsetRts, RtsFlags.unset]
  simp

theorem wake_runHeads (hinv : RunInv s) (o : Nat × Nat) : (wake s i).runHeads o =
    if o = (s.proc i).place ∧ s.runHeads o = none then some i else s.runHeads o := by
  rw [wake_eq_enqueueTail hidle hi, runHeads_enqueueTail]
  · rw [State.modProc_proc_self]
    rfl
  · exact fun h => hinv.runTails_ne_none h

omit hi in
theorem wake_idle : ((wake s i).cpu (wake s i).cpuid).procPtr = none := by
  rw [(wake_edit s i).cpu, (wake_edit s i).cpuid]
  exact hidle

omit hi in
theorem wake_rtsFlags_of_ne {j : Slot} (hj : j ≠ i) :
    ((wake s i).proc j).rtsFlags = (s.proc j).rtsFlags := by
  rcases rtsUnset_rtsFlags s i (s.proc i).rtsFlags j with h | ⟨h, -⟩
  · rw [wake, h, if_neg hj]
  · rw [hidle] at h; cases h

end Wake

theorem pickProc_of_first {k : Nat} (hk : k < nrSchedQueues)
    (hhead : s.runHeads (s.cpuid, k) = some i)
    (hbefore : ∀ k' < k, s.runHeads (s.cpuid, k') = none) : (pickProc s).2 = some i := by
  cases hp : (pickProc s).2 with
  | none => rw [pickProc_eq_none_iff.mp hp k hk] at hhead; cases hhead
  | some p =>
    obtain ⟨k₁, -, hhead₁, hbefore₁⟩ := pickProc_eq_some hp
    rcases Nat.lt_trichotomy k k₁ with h | h | h
    · rw [hbefore₁ k h] at hhead; cases hhead
    · rw [← hhead₁, ← h, hhead]
    · rw [hbefore k₁ h] at hhead₁; cases hhead₁

theorem switchToUser_wake_wake (h : RtInit s) {x : Slot} (hxy : x ≠ y)
    (hle : (s.proc y).priority ≤ (s.proc x).priority) : let t := switchToUser (wake (wake s y) x)
    (t.cpu t.cpuid).procPtr = some y ∧ t.proc = (wake (wake s y) x).proc := by
  have hidle := wake_idle (i := y) h.idle
  have hx : ¬((wake s y).proc x).isRunnable := by
    rw [Proc.isRunnable, wake_rtsFlags_of_ne h.idle hxy]
    exact h.notRunnable x
  have e := wake_edit s y
  have hcpuid : (wake (wake s y) x).cpuid = s.cpuid := by
    rw [(wake_edit _ x).cpuid, e.cpuid]
  have hplace : ∀ j, (s.proc j).place = (s.cpuid, (s.proc j).priority) := fun j => by
    rw [Proc.place, h.cpu]
  have hinv : RunInv (wake s y) := h.runInv.rtsUnset ..
  have hheads : ∀ k ≤ (s.proc y).priority, (wake (wake s y) x).runHeads (s.cpuid, k) =
      if k = (s.proc y).priority then some y else none := by
    intro k hk
    have hx' : ((wake s y).proc x).place = (s.cpuid, (s.proc x).priority) := by
      rw [← hplace, e.proc x]
      rfl
    rw [wake_runHeads hidle hx hinv, wake_runHeads h.idle (h.notRunnable y) h.runInv, hx', hplace,
      h.heads]
    by_cases hky : k = (s.proc y).priority
    · simp [hky]
    · have : k ≠ (s.proc x).priority := by omega
      simp [this]
  have hswitch : switchToUser (wake (wake s y) x) = dispatch (wake (wake s y) x) := by
    rw [switchToUser, pickNew, wake_idle hidle]
  simp only [hswitch]
  rw [dispatch_procPtr, dispatch_proc]
  refine ⟨pickProc_of_first (h.priorities y) ?_ fun k hk => ?_, rfl⟩
  · rw [hcpuid, hheads _ (Nat.le_refl _), if_pos rfl]
  · rw [hcpuid, hheads k (Nat.le_of_lt hk), if_neg (Nat.ne_of_lt hk)]

theorem exists_not_rtPickOk (h₀ : RtInit s₀) (hsep : ¬Separated s₀) :
    ∃ s, Relation.ReflTransGen RtRun s₀ s ∧ ¬RtPickOk s := by
  simp only [Separated, not_forall, Nat.not_lt] at hsep
  obtain ⟨x, y, hx, hy, hb, hle⟩ := hsep
  have hxy : x ≠ y := by
    rintro rfl
    exact absurd (hb.2 hb.1) (Nat.lt_irrefl _)
  have e := wake_edit s₀ y
  have hflags := wake_rtsFlags_of_ne h₀.idle hxy
  have hstep : RtRun s₀ (wake s₀ y) :=
    ⟨_, .rtsUnset y _ (h₀.notPreempted y) (by simpa using hy), trivial⟩
  refine ⟨wake s₀ y, .single hstep, fun hok => ?_⟩
  have hnot : ¬((wake s₀ y).proc x).isRunnable := by
    rw [Proc.isRunnable, hflags]
    exact h₀.notRunnable x
  have hrun := wake_isRunnable (wake_idle h₀.idle) hnot
  have hordered := hok x ((wake s₀ y).proc x).rtsFlags (hflags ▸ h₀.notPreempted x)
    (by rw [hflags]; simpa using hx) hnot hrun
  obtain ⟨hptr, hproc⟩ := switchToUser_wake_wake h₀ hxy hle
  have e₂ := e.trans (wake_edit (wake s₀ y) x)
  obtain ⟨p, hp, hprt, hple⟩ := hordered x (by rw [← wake, hproc]; exact hrun)
    (by rw [← wake, hproc, e₂.proc x]; exact hb.1)
  obtain rfl : y = p := some.inj (hptr.symm.trans hp)
  rw [← wake, hproc, e₂.proc] at hprt
  rw [← wake, hproc, e₂.proc x, e₂.proc y] at hple
  exact absurd (hb.2 hprt) (Nat.not_lt.mpr hple)

theorem rt_order_iff_separated (h₀ : RtInit s₀) :
    (∀ s, Relation.ReflTransGen RtRun s₀ s → RtPickOk s) ↔ Separated s₀ := by
  constructor
  · intro h
    by_contra hsep
    obtain ⟨s, hrun, hnot⟩ := exists_not_rtPickOk h₀ hsep
    exact hnot (h s hrun)
  · intro hsep s hrun i f hpre hfree _ _
    obtain ⟨⟨hinv, hcore⟩, hprio, hs⟩ := RtRun.invariant h₀ hsep hrun
    have hcore' := hcore.rtsUnset i hpre
    exact (switchToUser_rt hcore' ⟨hinv.rtsUnset i f, hprio.edit (rtsUnset_edit s i f),
      hcore'.cpu, hcore'.preemptible, hs.congr (rtsUnset_sameRank s i hfree)⟩).2

/-- Two processes in queue 5 that wait for their first quantum. -/
def waitingPair : State := { procInit with
  proc := fun i => { procInit.proc i with
    priority := 5
    rtsFlags := if i = 10 ∨ i = 11 then { noQuantum := true } else { slotFree := true } }
  priv := fun k => { procInit.priv k with flags := { preemptible := true } } }

theorem waitingPair_rtInit : RtInit waitingPair where
  notRunnable := by decide +kernel
  heads _ := rfl
  priorities _ := (by decide : 5 < nrSchedQueues)
  idle := rfl
  cpu _ := rfl
  preemptible _ := rfl
  notPreempted := by decide +kernel
  assigned _ hrt := nomatch hrt

theorem waitingPair_separated : Separated waitingPair := fun _ _ _ _ hb => nomatch hb.1

/-- The two have become `SCHED_FIFO`. -/
def fifoPair (a b : Int) : State :=
  setRtClass (setRtClass waitingPair 10 .fifo a 0) 11 .fifo b 0

theorem RtStep.fifo {prio : Int} (hi : ¬(s.proc i).isRunnable)
    (hcur : (s.cpu s.cpuid).procPtr ≠ some i) (hprio : 1 ≤ prio ∧ prio ≤ 99) :
    RtStep s (.setClass i 1 prio 0) (setRtClass s i .fifo prio 0) :=
  .setClass i 1 prio 0 _ hi hcur (if_neg (by rw [rtPrioMin, rtPrioMax]; omega))

theorem RtStep.wake (hpre : (s.proc i).rtsFlags.preempted = false)
    (hfree : (s.proc i).rtsFlags.slotFree = false) :
    RtStep s (.rtsUnset i (s.proc i).rtsFlags) (wake s i) := .rtsUnset i _ hpre hfree

/-- The processes of priority 50 and 51 share a queue. The second one preempts the first,
which goes back to the head of that queue and is picked again. -/
theorem fifoPair_picks_lower_priority : let s := switchToUser (wake (fifoPair 50 51) 10)
    RtInit waitingPair ∧ Separated waitingPair ∧
      Relation.ReflTransGen RtReach waitingPair s ∧ ¬RtPickOk s := by
  refine ⟨waitingPair_rtInit, waitingPair_separated, ?_, fun hok => ?_⟩
  · have hfirst : RtReach waitingPair (setRtClass waitingPair 10 .fifo 50 0) :=
      ⟨_, .fifo (by decide +kernel) nofun (by decide)⟩
    have hsecond : RtReach (setRtClass waitingPair 10 .fifo 50 0) (fifoPair 50 51) :=
      ⟨_, .fifo (by decide +kernel) nofun (by decide)⟩
    have hwake : RtReach (fifoPair 50 51) (wake (fifoPair 50 51) 10) :=
      ⟨_, .wake (by decide +kernel) (by decide +kernel)⟩
    exact (((Relation.ReflTransGen.single hfirst).tail hsecond).tail hwake).tail ⟨_, .switchToUser⟩
  · obtain ⟨p, hp, -, hle⟩ := hok 11 { noQuantum := true } rfl rfl (by decide +kernel)
      (by decide +kernel) 11 (by decide +kernel) (by decide +kernel)
    have hcur : let t := switchToUser (rtsUnset (switchToUser (wake (fifoPair 50 51) 10)) 11
        { noQuantum := true }); (t.cpu t.cpuid).procPtr = some 10 := by decide +kernel
    obtain rfl : 10 = p := some.inj (hcur.symm.trans hp)
    revert hle
    decide +kernel

/-- Priorities 99 and 90 lie in different queues: the process of priority 90 runs, and leaves the
CPU to the other one when that is woken. -/
theorem fifoPair_ordered : let s := switchToUser (wake (fifoPair 99 90) 11)
    RtInit waitingPair ∧ Separated waitingPair ∧ Relation.ReflTransGen RtRun waitingPair s ∧
      (s.cpu s.cpuid).procPtr = some 11 ∧
      RtOrdered (switchToUser (rtsUnset s 10 { noQuantum := true })) := by
  have hfirst : RtRun waitingPair (setRtClass waitingPair 10 .fifo 99 0) := by
    refine ⟨_, .fifo (by decide +kernel) nofun (by decide), fun _ => ?_⟩
    change FitsIn _ _ _
    unfold FitsIn Proc.Apart
    decide +kernel
  have hsecond : RtRun (setRtClass waitingPair 10 .fifo 99 0) (fifoPair 99 90) := by
    refine ⟨_, .fifo (by decide +kernel) nofun (by decide), fun _ => ?_⟩
    change FitsIn _ _ _
    unfold FitsIn Proc.Apart
    decide +kernel
  have hwake : RtRun (fifoPair 99 90) (wake (fifoPair 99 90) 11) :=
    ⟨_, .wake (by decide +kernel) (by decide +kernel), trivial⟩
  have hrun := (((Relation.ReflTransGen.single hfirst).tail hsecond).tail hwake).tail
    ⟨_, .switchToUser, trivial⟩
  refine ⟨waitingPair_rtInit, waitingPair_separated, hrun, by decide +kernel, ?_⟩
  exact (rt_order_iff_separated waitingPair_rtInit).mpr waitingPair_separated _ hrun 10
    { noQuantum := true } rfl rfl (by decide +kernel) (by decide +kernel)

end Gergios.Kernel
