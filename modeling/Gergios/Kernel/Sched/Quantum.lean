import Gergios.Kernel.Ipc.Sync
import Gergios.Kernel.Sched.SetScheduler

/-!
# The end of a quantum

`proc_no_time` renews the quantum of a real-time process and of one that the kernel schedules;
for the others it asks the scheduler that the process belongs to. `none` is a kernel that stops.
-/

namespace Gergios.Kernel

open Lib

def schedulingNoQuantum : Int := 0xF01

/-- `!proc_kernel_scheduler(p)`, for a process that may be preempted -/
def State.asksScheduler (s : State) (p : Slot) : Prop :=
  ¬((s.proc p).scheduler = none ∨ (s.proc p).scheduler = some p) ∧ (s.privOf p).flags.preemptible

instance (s : State) (p : Slot) : Decidable (s.asksScheduler p) :=
  inferInstanceAs (Decidable (_ ∧ _))

/-- `acnt` stands for the accounting that the message carries. -/
def notifyScheduler (s : State) (p : Slot) (acnt : List Nat) : Option State :=
  match (s.proc p).scheduler with
  | none => none
  | some d =>
    let m : Message := ⟨(s.proc p).endpoint, schedulingNoQuantum, .data acnt⟩
    match miniSend (rtsSet s p { noQuantum := true }) p (s.proc d).endpoint
        ⟨1, some m, some m.type, fun _ h => by cases h; rfl⟩ { fromKernel := true } with
    | .ok (t, .ok) => some t
    | _ => none

def procNoTime (s : State) (p : Slot) (acnt : List Nat) : Option State :=
  match schedRtHandleQuantum s p with
  | some t => some t
  | none =>
    if s.asksScheduler p then notifyScheduler s p acnt
    else some (s.modProc p fun r => { r with cpuTimeLeft := ms2CpuTime s r.quantumSizeMs })

variable {s t u : State} {p : Slot} {acnt : List Nat}

/-! ## Rotation -/

/-- The quantum of the running round-robin process has ended. -/
structure Expired (s : State) (p : Slot) : Prop where
  current : (s.cpu s.cpuid).procPtr = some p
  cpu : (s.proc p).cpu = s.cpuid
  runnable : (s.proc p).isRunnable
  rr : (s.proc p).schedClass = .rr
  timeLeft : (s.proc p).cpuTimeLeft = 0

/-- `p` has a new quantum and is last in its queue; another process of the queue is next, unless
a better queue has one. -/
structure Rotated (s t : State) (p : Slot) : Prop where
  quantum : (t.proc p).cpuTimeLeft = ms2CpuTime s (s.proc p).quantumSizeMs
  last : ∃ l, Linked t.nextready (t.runHeads (s.proc p).place) (l ++ [p])
  next : ∀ y, y ≠ p → (s.proc y).isRunnable → (s.proc y).place = (s.proc p).place →
    (∀ k < (s.proc p).priority, s.runHeads (s.cpuid, k) = none) →
      ∃ z, (pickProc t).2 = some z ∧ z ≠ p ∧ (t.proc z).place = (s.proc p).place

theorem procNoTime_rr (h : Expired s p) : procNoTime s p acnt =
    some (s.modProc p fun r => { r with cpuTimeLeft := ms2CpuTime s r.quantumSizeMs }) := by
  have hflags : (s.proc p).rtsFlags = {} := h.runnable
  simp only [procNoTime, schedRtHandleQuantum, h.rr, rtsUnset]
  rw [if_neg fun hflip => hflip.1 (by rw [State.modProc_proc_self]; exact h.runnable)]
  simp only [State.modProc, Function.update_idem, Function.update_self, Proc.unsetRts, hflags]
  rw [show (s.proc p) = { s.proc p with rtsFlags := {} } by rw [← hflags]]
  rfl

/-- A round-robin process gets its quantum and stays where it is, so it is last exactly if
nobody was queued behind it. -/
theorem rr_rotates_iff (acnt : List Nat) (hinv : RunInv s) (hprio : PrioritiesOk s)
    (h : Expired s p) :
    ∃ t, procNoTime s p acnt = some t ∧ (Rotated s t p ↔ (s.proc p).nextready = none) := by
  obtain ⟨q, hq⟩ := hinv
  refine ⟨_, procNoTime_rr h, ?_⟩
  generalize hu : (s.modProc p fun r => { r with cpuTimeLeft := ms2CpuTime s r.quantumSizeMs }) = t
  have ht : RunQ t (fun i => (s.proc i).isRunnable) q := hu ▸ hq.modProc p rfl fun _ => rfl
  have hplace : ∀ i, (t.proc i).place = (s.proc i).place := by
    intro i
    rw [← hu, State.modProc_proc]
    split
    · rename_i e; rw [e]; rfl
    · rfl
  have hmem := (hq.mem_iff p _).mpr ⟨h.runnable, rfl⟩
  obtain ⟨pre, post, hsplit⟩ := List.append_of_mem hmem
  have hlink := hsplit ▸ hq.queues.linked (s.proc p).place
  constructor
  · rintro ⟨-, ⟨l, hl⟩, -⟩
    have hnone := hl.next_eq_none_iff.mpr rfl
    rwa [State.nextready, ← hu, State.modProc_proc_self] at hnone
  · intro hnone
    obtain rfl := hlink.next_eq_none_iff.mp hnone
    refine ⟨by rw [← hu, State.modProc_proc_self], ⟨pre, hsplit ▸ ht.queues.linked _⟩,
      fun y hy hrun hyp hbetter => ?_⟩
    have hypre := (hq.mem_iff y _).mpr ⟨hrun, hyp.symm⟩
    rw [hsplit, List.mem_append, List.mem_singleton, or_iff_left hy] at hypre
    obtain ⟨z, pre, rfl⟩ := List.exists_cons_of_ne_nil (List.ne_nil_of_mem hypre)
    have hzp : z ≠ p := fun e => (List.nodup_cons.mp hlink.nodup).1 (by simp [e])
    have hz := (hq.mem_iff z (s.proc p).place).mp (by rw [hsplit]; exact List.mem_cons_self)
    have hcpu : (s.proc p).place = (s.cpuid, (s.proc p).priority) := by rw [← h.cpu]; rfl
    have hhead : s.runHeads (s.cpuid, (s.proc p).priority) = some z := hcpu ▸ hlink.1
    have hheads : t.runHeads = s.runHeads ∧ t.cpuid = s.cpuid := hu ▸ ⟨rfl, rfl⟩
    cases hpick : (pickProc t).2 with
    | none =>
      have hempty := pickProc_eq_none_iff.mp hpick _ (hprio p)
      rw [hheads.1, hheads.2, hhead] at hempty
      cases hempty
    | some w =>
      obtain ⟨k, -, hw, hbefore⟩ := pickProc_eq_some hpick
      rw [hheads.1, hheads.2] at hw hbefore
      obtain hlt | rfl | hgt := Nat.lt_trichotomy k (s.proc p).priority
      · rw [hbetter k hlt] at hw
        cases hw
      · cases hhead.symm.trans hw
        exact ⟨z, rfl, hzp, (hplace z).trans hz.2.symm⟩
      · rw [hbefore _ hgt] at hhead
        cases hhead

/-- Two processes are runnable in the first queue. The one in slot 6 is round-robin and running, and
has used up its quantum. -/
def rrQueue (i j : Slot) : State :=
  ((rtsUnset (rtsUnset procInit i { slotFree := true }) j { slotFree := true }).modProc 6 fun r =>
    { r with
      schedClass := .rr
      rtPriority := 99
      quantumSizeMs := rtRrQuantumMs
      cpuTimeLeft := 0 }).modCpu 0 fun l => { l with procPtr := some 6 }

theorem rrQueue_runInv (i j : Slot) : RunInv (rrQueue i j) := by
  have hinv := (procInit_schedInit.runInv.rtsUnset i { slotFree := true }).rtsUnset j
    { slotFree := true }
  unfold rrQueue
  generalize rtsUnset (rtsUnset procInit i { slotFree := true }) j { slotFree := true } = s at *
  refine hinv.frame (fun o => ?_) ?_ ?_ ?_
  · simp only [State.runHeads, State.runTails, State.modCpu_cpu]
    split
    · rename_i heq
      rw [heq]
      exact ⟨rfl, rfl⟩
    · exact ⟨rfl, rfl⟩
  all_goals
    intro k
    simp only [State.nextready, State.modCpu_proc, State.modProc_proc]
    split
    · subst k
      rfl
    · rfl

theorem rrQueue_expired {i j : Slot} (h : (i = 6 ∧ j = 7) ∨ (i = 7 ∧ j = 6)) :
    PrioritiesOk (rrQueue i j) ∧ Expired (rrQueue i j) 6 := by
  unfold PrioritiesOk
  obtain ⟨rfl, rfl⟩ | ⟨rfl, rfl⟩ := h
  · exact ⟨by decide +kernel, by constructor <;> decide +kernel⟩
  · exact ⟨by decide +kernel, by constructor <;> decide +kernel⟩

/-- The running process is behind the other one, which is next. -/
theorem rr_rotates_last : RunInv (rrQueue 7 6) ∧ PrioritiesOk (rrQueue 7 6) ∧
    Expired (rrQueue 7 6) 6 ∧ ∃ t, procNoTime (rrQueue 7 6) 6 [] = some t ∧
      Rotated (rrQueue 7 6) t 6 ∧ (pickProc t).2 = some 7 := by
  obtain ⟨hprio, hexp⟩ := rrQueue_expired (.inr ⟨rfl, rfl⟩)
  obtain ⟨t, ht, hiff⟩ := rr_rotates_iff [] (rrQueue_runInv 7 6) hprio hexp
  refine ⟨rrQueue_runInv 7 6, hprio, hexp, t, ht, hiff.mpr (by decide +kernel), ?_⟩
  obtain rfl := Option.some.inj ((procNoTime_rr hexp).symm.trans ht)
  decide +kernel

/-- In front of the other one, it stays there. -/
theorem rr_keeps_the_front : RunInv (rrQueue 6 7) ∧ PrioritiesOk (rrQueue 6 7) ∧
    Expired (rrQueue 6 7) 6 ∧ ∃ t, procNoTime (rrQueue 6 7) 6 [] = some t ∧
      (pickProc t).2 = some 6 ∧ ¬Rotated (rrQueue 6 7) t 6 := by
  obtain ⟨hprio, hexp⟩ := rrQueue_expired (.inl ⟨rfl, rfl⟩)
  refine ⟨rrQueue_runInv 6 7, hprio, hexp, _, procNoTime_rr hexp, by decide +kernel, fun h => ?_⟩
  obtain ⟨l, hl⟩ := h.last
  exact absurd (hl.next_eq_none_iff.mpr rfl) (by decide +kernel)

/-! ## The time left to a process that is resumed -/

/-- What the renewal of a quantum reads. -/
def Proc.quanta (r : Proc) : Nat × SchedClass × Option Slot × PrivId :=
  (r.quantumSizeMs, r.schedClass, r.scheduler, r.priv)

structure SameQuanta (s t : State) : Prop where
  proc : ∀ i, (t.proc i).quanta = (s.proc i).quanta
  priv : t.priv = s.priv
  tsc : t.tscPerMs = s.tscPerMs

/-- A message has been sent: nobody gets a quantum back. -/
structure SentFrame (s t : State) : Prop extends SameQuanta s t where
  marked : ∀ i, (s.proc i).rtsFlags.noQuantum → (t.proc i).rtsFlags.noQuantum

protected theorem SameQuanta.refl (s : State) : SameQuanta s s := ⟨fun _ => rfl, rfl, rfl⟩

protected theorem SentFrame.refl (s : State) : SentFrame s s := ⟨.refl s, fun _ h => h⟩

theorem SameQuanta.modProc (h : SameQuanta s t) {i : Slot} {f : Proc → Proc}
    (hf : ∀ r, (f r).quanta = r.quanta) : SameQuanta s (t.modProc i f) := by
  refine ⟨fun j => ?_, h.priv, h.tsc⟩
  rw [State.modProc_proc]
  split
  · subst j; rw [hf, h.proc]
  · exact h.proc j

theorem SameQuanta.edit (h : SameQuanta s t) (e : FlagEdit t u) : SameQuanta s u := by
  refine ⟨fun i => ?_, e.priv.trans h.priv, ?_⟩
  · rw [e.proc i]
    exact h.proc i
  · rw [e.rest]
    exact h.tsc

theorem SentFrame.modProc (h : SentFrame s t) {i : Slot} {f : Proc → Proc}
    (hf : ∀ r, (f r).quanta = r.quanta ∧ (f r).rtsFlags = r.rtsFlags) :
    SentFrame s (t.modProc i f) := by
  refine ⟨h.toSameQuanta.modProc fun r => (hf r).1, fun j hj => ?_⟩
  rw [State.modProc_proc]
  split
  · subst j; rw [(hf _).2]; exact h.marked i hj
  · exact h.marked j hj

theorem SentFrame.rtsSet (h : SentFrame s t) (i : Slot) (f : RtsFlags) :
    SentFrame s (rtsSet t i f) := by
  refine ⟨h.edit (rtsSet_edit ..), fun j hj => ?_⟩
  rw [rtsSet_rtsFlags]
  split <;> simp [h.marked j hj]

theorem SentFrame.rtsUnset (h : SentFrame s t) (i : Slot) {f : RtsFlags}
    (hf : f.noQuantum = false) :
    SentFrame s (rtsUnset t i f) := by
  refine ⟨h.edit (rtsUnset_edit ..), fun j hj => ?_⟩
  obtain hflags | ⟨-, hflags⟩ := rtsUnset_rtsFlags t i f j <;> rw [hflags] <;> split <;>
    simp [h.marked j hj, hf]

theorem miniSend_frame {caller : Slot} {dstE : Endpoint} {m : UserMsg} {flags : SendFlags}
    {r : Errno} (h : miniSend s caller dstE m flags = .ok (t, r)) : SentFrame s t := by
  have hdeliver : ∀ dst msg, SentFrame s (sendDeliver s caller dst msg flags) := by
    intro dst msg
    refine .rtsUnset (.modProc (.refl s) fun r => ?_) dst rfl
    simp only [Proc.acceptSend, Proc.ipcStatusAdd, Proc.deliver]
    (repeat' split) <;> exact ⟨rfl, rfl⟩
  have hblock : ∀ msg, SentFrame s (sendBlock s caller dstE msg flags) := by
    intro msg
    have hset := (SentFrame.modProc (i := caller) (f := fun p => { p with
      sendmsg := msg
      miscFlags := { p.miscFlags with
        sendingFromKernel := p.miscFlags.sendingFromKernel || flags.fromKernel } })
      (.refl s) fun _ => ⟨rfl, rfl⟩).rtsSet caller { sending := true }
    have hto := hset.modProc (i := caller) (f := fun p => { p with sendtoE := dstE })
      fun _ => ⟨rfl, rfl⟩
    exact ⟨⟨hto.proc, hto.priv, hto.tsc⟩, hto.marked⟩
  simp only [miniSend] at h
  repeat' split at h
  all_goals cases h
  all_goals first
    | exact .refl s
    | exact hdeliver _ _
    | skip
  rename_i happ
  simp only [appendCaller] at happ
  split at happ
  · cases happ
  split at happ <;> cases happ
  simp only [State.writeCallerQ]
  split <;> exact (hblock _).modProc fun _ => ⟨rfl, rfl⟩

/-- A renewal gives `p` time, or somebody else is asked. -/
def Renewable (s : State) (p : Slot) : Prop :=
  (s.proc p).schedClass = .fifo ∨ 0 < (s.proc p).quantumSizeMs ∨
    (s.proc p).schedClass = .other ∧ s.asksScheduler p

/-- `proc_no_time` leaves `p` with time or not runnable, and so do the last lines of
`switch_to_user`, which call it if no time is left. -/
structure ResumeOk (s : State) (p : Slot) : Prop where
  noTime : ∀ acnt t, procNoTime s p acnt = some t →
    (t.proc p).isRunnable → (t.proc p).cpuTimeLeft ≠ 0
  resumed : ∀ acnt t,
    (if (s.proc p).cpuTimeLeft = 0 then procNoTime s p acnt else some s) = some t →
    (t.proc p).isRunnable → (t.proc p).cpuTimeLeft ≠ 0

theorem Renewable.same (h : Renewable s p) (e : SameQuanta s t) : Renewable t p := by
  have hp := e.proc p
  simp only [Proc.quanta, Prod.mk.injEq] at hp
  rwa [Renewable, State.asksScheduler, State.privOf, hp.1, hp.2.1, hp.2.2.1, hp.2.2.2, e.priv]

theorem schedRtHandleQuantum_same {i : Slot} (h : schedRtHandleQuantum s i = some t) :
    SameQuanta s t := by
  simp only [schedRtHandleQuantum] at h
  split at h <;> cases h
  · exact (SameQuanta.refl s).modProc fun _ => rfl
  · refine SameQuanta.edit ?_ (rtsUnset_edit ..)
    exact (SameQuanta.refl s).modProc fun _ => rfl

theorem notifyScheduler_same {i : Slot} (h : notifyScheduler s i acnt = some t) :
    SameQuanta s t ∧ (t.proc i).rtsFlags.noQuantum := by
  simp only [notifyScheduler] at h
  repeat' split at h
  all_goals cases h
  have hsent := miniSend_frame ‹_›
  have hset := (SentFrame.refl s).rtsSet i { noQuantum := true }
  refine ⟨⟨fun j => (hsent.proc j).trans (hset.proc j), hsent.priv.trans hset.priv,
    hsent.tsc.trans hset.tsc⟩, hsent.marked i ?_⟩
  rw [rtsSet_rtsFlags, if_pos rfl]
  simp

theorem procNoTime_same {i : Slot} (h : procNoTime s i acnt = some t) : SameQuanta s t := by
  simp only [procNoTime] at h
  split at h
  · rename_i hrt
    cases h
    exact schedRtHandleQuantum_same hrt
  split at h
  · exact (notifyScheduler_same h).1
  · cases h
    exact (SameQuanta.refl s).modProc fun _ => rfl

theorem Renewable.procNoTime (h : Renewable s p) (hs : 0 < s.tscPerMs)
    (ht : procNoTime s p acnt = some t) (hrun : (t.proc p).isRunnable) :
    (t.proc p).cpuTimeLeft ≠ 0 := by
  have hms : ∀ ms, 0 < ms → ms2CpuTime s ms ≠ 0 := fun ms hms => (Nat.mul_pos hs hms).ne'
  simp only [Kernel.procNoTime, schedRtHandleQuantum] at ht
  cases hcls : (s.proc p).schedClass with
  | fifo =>
    simp only [hcls, Option.some.injEq] at ht
    rw [← ht, State.modProc_proc_self]
    exact hms rtFifoMs (by decide)
  | rr =>
    simp only [hcls, Option.some.injEq] at ht
    rw [← ht, (rtsUnset_edit ..).proc p, State.modProc_proc_self]
    refine hms _ ((h.resolve_left ?_).resolve_right fun h => ?_)
    · simp [hcls]
    · simp [hcls] at h
  | other =>
    simp only [hcls] at ht
    split at ht
    · -- the process that waits for its scheduler is not resumed
      have hmarked := (notifyScheduler_same ht).2
      rw [show (t.proc p).rtsFlags = {} from hrun] at hmarked
      cases hmarked
    · rename_i hasks
      cases ht
      rw [State.modProc_proc_self]
      refine hms _ ((h.resolve_left ?_).resolve_right fun h => hasks h.2)
      simp [hcls]

theorem Renewable.resumeOk (h : Renewable s p) (hs : 0 < s.tscPerMs) : ResumeOk s p := by
  refine ⟨fun acnt t ht hrun => h.procNoTime hs ht hrun, fun acnt t ht hrun => ?_⟩
  split at ht
  · exact h.procNoTime hs ht hrun
  · rename_i hleft
    cases ht
    exact hleft

inductive QuantumOp
  | setscheduler (caller : Slot) (e : Endpoint) (cls prio quantum : Int)
  | schedProc (i : Slot) (priority quantum cpu : Int) (niced : Bool)
  | stopProc (i : Slot)
  | migrated (i : Slot) (priority quantum cpu : Int) (niced : Bool)
  | handleQuantum (i : Slot)
  | noTime (i : Slot) (acnt : List Nat)
  | spend (i : Slot) (cycles : Nat)

/-- `none` is a kernel that stops, or a step that cannot be taken. A call of `sched_proc` that
moves a process of another CPU goes on after that CPU has stopped it. -/
def QuantumOp.run (s : State) : QuantumOp → Option State
  | .setscheduler caller e cls prio quantum => some (doSetscheduler s caller e cls prio quantum).1
  | .schedProc i priority quantum cpu niced =>
    match Kernel.schedProc s i priority quantum cpu niced with
    | .done t => some t
    | .refused _ | .stopRemote => some s
  | .stopProc i => some (rtsSet s i { procStop := true })
  | .migrated i priority quantum cpu niced =>
    -- the arguments have been checked by the first half of the call
    if (s.proc i).rtsFlags.procStop ∧ (quantum = -1 ∨ 1 ≤ quantum) then
      some (schedProcMigrated s i priority quantum cpu niced)
    else none
  | .handleQuantum i => schedRtHandleQuantum s i
  | .noTime i acnt => procNoTime s i acnt
  | .spend i cycles => some (s.modProc i fun r => { r with cpuTimeLeft := r.cpuTimeLeft - cycles })

/-- A process that goes back to the ordinary class has a quantum of its own, or a scheduler to
ask. -/
def QuantumOp.Careful (s : State) : QuantumOp → Prop
  | .setscheduler _ e cls _ _ => cls = 0 → ∀ i, isokendpt s e = some i →
    0 < (s.proc i).quantumSizeMs ∨ s.asksScheduler i
  | _ => True

def QuantumRun (s t : State) : Prop := ∃ op : QuantumOp, op.Careful s ∧ op.run s = some t

theorem requeue_sameQuanta (s : State) (i : Slot) (ms : Nat) : SameQuanta s (requeue s i ms) := by
  refine SameQuanta.edit (.modProc (.edit (.refl s) (rtsSet_edit ..)) fun _ => ?_)
    (rtsUnset_edit ..)
  rfl

theorem Renewable.setClass {i : Slot} {cls prio : Int} {r : Proc} (h : Renewable s p)
    (hr : ClassSet cls prio (s.proc i) r)
    (hcareful : cls = 0 → 0 < (s.proc i).quantumSizeMs ∨ s.asksScheduler i) :
    Renewable (s.modProc i fun _ => r) p := by
  by_cases hp : p = i
  · subst hp
    have hasks : (s.modProc p fun _ => r).asksScheduler p ↔ s.asksScheduler p := by
      rw [State.asksScheduler, State.privOf, State.modProc_proc_self, hr.keep]
      rfl
    rw [Renewable, State.modProc_proc_self, hasks]
    obtain ⟨h0, hcls, -, hquantum⟩ | ⟨-, -, -, -, -, hcls | hcls⟩ := hr.kind
    · rw [hquantum]
      exact .inr ((hcareful h0).imp_right fun h => ⟨hcls, h⟩)
    · exact .inl hcls
    · exact .inr (.inl hcls.2)
  · rwa [Renewable, State.asksScheduler, State.privOf, State.modProc_proc_of_ne _ hp]

theorem Renewable.schedProcTail {quantum : Int} (h : Renewable s p) (i : Slot) (priority cpu : Int)
    (niced : Bool) (hquantum : quantum = -1 ∨ 1 ≤ quantum) :
    Renewable (schedProcTail s i priority quantum cpu niced) p ∧
      (schedProcTail s i priority quantum cpu niced).tscPerMs = s.tscPerMs := by
  simp only [Kernel.schedProcTail]
  generalize hu : (if (s.proc i).isRunnable then rtsSet s i { noQuantum := true } else s) = u
  have hsame : SameQuanta s u := by
    rw [← hu]
    split
    · exact (SameQuanta.refl s).edit (rtsSet_edit ..)
    · exact .refl s
  generalize hr : (u.proc i).schedParams (ms2CpuTime s) priority quantum cpu niced = r
  have hfields : r.schedClass = (u.proc i).schedClass ∧ r.scheduler = (u.proc i).scheduler ∧
      r.priv = (u.proc i).priv ∧
      (r.quantumSizeMs = (u.proc i).quantumSizeMs ∨ 0 < r.quantumSizeMs) := by
    rw [← hr]
    simp only [Proc.schedParams]
    split <;> split <;> split
    all_goals first
      | exact ⟨rfl, rfl, rfl, .inl rfl⟩
      | exact ⟨rfl, rfl, rfl, .inr (by change 0 < quantum.toNat; omega)⟩
  have hv :
      Renewable (u.modProc i (·.schedParams (ms2CpuTime s) priority quantum cpu niced)) p := by
    have hp := h.same hsame
    by_cases hpi : p = i
    · subst hpi
      rw [Renewable, State.asksScheduler, State.privOf, State.modProc_proc_self, hr, hfields.1,
        hfields.2.1, hfields.2.2.1]
      obtain hq | hq := hfields.2.2.2
      · rw [hq]
        exact hp
      · exact .inr (.inl hq)
    · rwa [Renewable, State.asksScheduler, State.privOf, State.modProc_proc_of_ne _ hpi]
  have hedit := rtsUnset_edit
    (u.modProc i (·.schedParams (ms2CpuTime s) priority quantum cpu niced)) i { noQuantum := true }
  have hsame' := (SameQuanta.refl _).edit hedit
  exact ⟨hv.same hsame', hsame'.tsc.trans hsame.tsc⟩

theorem QuantumRun.renewable (hstep : QuantumRun s t) (h : Renewable s p) :
    Renewable t p ∧ t.tscPerMs = s.tscPerMs := by
  obtain ⟨op, hcareful, hrun⟩ := hstep
  have hsame : ∀ {u}, SameQuanta s u → Renewable u p ∧ u.tscPerMs = s.tscPerMs :=
    fun e => ⟨h.same e, e.tsc⟩
  cases op with
  | setscheduler caller e cls prio quantum =>
    cases hrun
    generalize hd : doSetscheduler s caller e cls prio quantum = x
    obtain ⟨u, code⟩ := x
    obtain ⟨rfl, -⟩ | ⟨i, r, ms, hi, hr, rfl⟩ := doSetscheduler_cases hd
    · exact ⟨h, rfl⟩
    · have hset := h.setClass hr fun h0 => hcareful h0 i hi
      split
      · have hsame := requeue_sameQuanta (s.modProc i fun _ => r) i ms
        exact ⟨hset.same hsame, hsame.tsc⟩
      · exact ⟨hset, rfl⟩
  | schedProc i priority quantum cpu niced =>
    simp only [QuantumOp.run] at hrun
    split at hrun
    · rename_i u hdone
      cases hrun
      obtain ⟨rfl, -, hquantum⟩ := schedProc_done hdone
      exact h.schedProcTail i priority cpu niced hquantum
    all_goals
      cases hrun
      exact ⟨h, rfl⟩
  | stopProc i =>
    cases hrun
    exact hsame ((SameQuanta.refl s).edit (rtsSet_edit ..))
  | migrated i priority quantum cpu niced =>
    simp only [QuantumOp.run] at hrun
    split at hrun
    · rename_i hguard
      cases hrun
      have hmoved := (((SameQuanta.refl s).modProc (i := i)
        (f := fun r => { r with cpu := cpu.toNat }) fun _ => rfl).edit
        (rtsUnset_edit _ i { procStop := true })).edit (rtsSet_edit _ i { noQuantum := true })
      obtain ⟨hp, htsc⟩ := (h.same hmoved).schedProcTail i priority cpu niced hguard.2
      exact ⟨hp, htsc.trans hmoved.tsc⟩
    · cases hrun
  | handleQuantum i => exact hsame (schedRtHandleQuantum_same hrun)
  | noTime i acnt => exact hsame (procNoTime_same hrun)
  | spend i cycles =>
    cases hrun
    exact hsame ((SameQuanta.refl s).modProc fun _ => rfl)

/-- In every run in which no process goes back to the ordinary class without a quantum of its
own or a scheduler to ask, a process that is resumed has time left. -/
theorem resumed_process_has_time {s₀ : State} (htsc : 0 < s₀.tscPerMs) (h₀ : Renewable s₀ p)
    (hrun : Relation.ReflTransGen QuantumRun s₀ s) : ResumeOk s p := by
  have hinv : Renewable s p ∧ 0 < s.tscPerMs := by
    induction hrun with
    | refl => exact ⟨h₀, htsc⟩
    | tail _ hstep ih =>
      obtain ⟨hp, htsc'⟩ := hstep.renewable ih.1
      exact ⟨hp, htsc' ▸ ih.2⟩
  exact hinv.1.resumeOk hinv.2

/-- PM, runnable and with a quantum of its own. -/
def pmRunning : State :=
  procInit.modProc 5 fun r => { r with rtsFlags := {}, quantumSizeMs := 500 }

theorem pmRunning_renewable : Renewable pmRunning 5 := .inr (.inl (by decide +kernel))

/-- PM becomes round-robin with a quantum of 20 ms and goes back, and its time runs out. -/
theorem back_from_rr_with_time : ∃ s, [QuantumOp.setscheduler 5 0 2 50 20,
      .setscheduler 5 0 0 0 0, .spend 5 1000000].foldlM QuantumOp.run pmRunning = some s ∧
    (s.proc 5).cpuTimeLeft = 0 ∧ ResumeOk s 5 := by
  let s₁ := (doSetscheduler pmRunning 5 0 2 50 20).1
  have hpm : isokendpt s₁ 0 = some 5 := by decide +kernel
  have hquantum : 0 < (s₁.proc 5).quantumSizeMs := by decide +kernel
  refine ⟨_, rfl, by decide +kernel, resumed_process_has_time (by decide) pmRunning_renewable
    (((Relation.ReflTransGen.single ⟨.setscheduler 5 0 2 50 20, nofun, rfl⟩).tail
      ⟨.setscheduler 5 0 0 0 0, fun _ i hi => ?_, rfl⟩).tail ⟨.spend 5 1000000, trivial, rfl⟩)⟩
  obtain rfl : 5 = i := Option.some.inj (hpm.symm.trans hi)
  exact .inl hquantum

/-- PM goes to FIFO and back, and its time runs out: the renewed quantum is empty. -/
theorem back_from_fifo_without_time : 0 < pmRunning.tscPerMs ∧ Renewable pmRunning 5 ∧
    ∃ s, [QuantumOp.setscheduler 5 0 1 50 0, .setscheduler 5 0 0 0 0, .spend 5 1000000].foldlM
      QuantumOp.run pmRunning = some s ∧ ¬ResumeOk s 5 := by
  have hbad : (([QuantumOp.setscheduler 5 0 1 50 0, .setscheduler 5 0 0 0 0,
      .spend 5 1000000].foldlM QuantumOp.run pmRunning).any fun s =>
        (if (s.proc 5).cpuTimeLeft = 0 then procNoTime s 5 [] else some s).any fun t =>
          decide ((t.proc 5).isRunnable ∧ (t.proc 5).cpuTimeLeft = 0)) = true := by decide +kernel
  obtain ⟨s, hs, hbad⟩ := (Option.any_eq_true ..).mp hbad
  obtain ⟨t, ht, hbad⟩ := (Option.any_eq_true ..).mp hbad
  obtain ⟨hrun, hzero⟩ := of_decide_eq_true hbad
  exact ⟨by decide, pmRunning_renewable, s, hs, fun h => h.resumed [] t ht hrun hzero⟩

end Gergios.Kernel
