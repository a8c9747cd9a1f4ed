import Gergios.Kernel.Sched.SetScheduler

/-!
# Where a process stands after its class is set
-/

namespace Gergios.Kernel

open Lib Function

/-! ## Cells: the heads and the links -/

/-- The head of the queue `o`, or the link of a process on it. -/
def State.cellAt (s : State) (o : Nat × Nat) : Option Slot → Option Slot
  | none => s.runHeads o
  | some y => s.nextready y

variable {s t u : State} {p c x : Slot} {o : Nat × Nat} {prev : Option Slot}

theorem cellAt_of_linked {pre post : List Slot}
    (h : Linked s.nextready (s.runHeads o) (pre ++ post)) :
    s.cellAt o pre.getLast? = post.head? := by
  cases pre using List.reverseRecOn with
  | nil => exact h.head?_eq.symm
  | append_singleton pre y =>
    rw [List.append_assoc] at h
    rw [List.getLast?_concat]
    exact h.next_eq_head?

theorem nextready_modProc {f : Proc → Proc} (hf : (f (s.proc p)).nextready = (s.proc p).nextready) :
    (s.modProc p f).nextready = s.nextready := by
  funext j
  simp only [State.nextready, State.modProc_proc]
  split
  · rename_i e
    rw [e, hf]
  · rfl

theorem cellAt_modProc {f : Proc → Proc} (hf : (f (s.proc p)).nextready = (s.proc p).nextready) :
    (s.modProc p f).cellAt o prev = s.cellAt o prev := by
  cases prev with
  | none => rfl
  | some y => exact congrFun (nextready_modProc hf) y

theorem cellAt_writeReady (s : State) (o : Nat × Nat) (prev : Option Slot) (d k : Nat)
    (prev' v : Option Slot) :
    (s.writeReady d k prev' v).cellAt o prev = s.cellAt o prev ∨
      (s.writeReady d k prev' v).cellAt o prev = v ∧ prev = prev' ∧ (prev = none → o = (d, k)) := by
  cases prev with
  | none =>
    simp only [State.cellAt, runHeads_writeReady]
    cases prev' with
    | some y => exact .inl rfl
    | none =>
      by_cases ho : o = (d, k)
      · exact .inr ⟨by rw [cellHeads, ho, update_self], rfl, fun _ => ho⟩
      · exact .inl (update_of_ne ho _ _)
  | some y =>
    simp only [State.cellAt, nextready_writeReady]
    cases prev' with
    | none => exact .inl rfl
    | some z =>
      by_cases hz : y = z
      · exact .inr ⟨by rw [cellNext, hz, update_self], congrArg some hz, by simp⟩
      · exact .inl (update_of_ne hz _ _)

theorem cellAt_setTail (d k : Nat) (v : Option Slot) :
    (s.setTail d k v).cellAt o prev = s.cellAt o prev := by
  cases prev with
  | none => exact congrFun (runHeads_setTail s d k v) o
  | some y => rfl

/-- The node that a walk stops at is what the cell it came through holds. -/
theorem walk_cell {α : Type} {next : α → Option α} {f : α → Bool} {n : Nat} {prev h r : Option α}
    {a : α} (hw : walk next f n prev h = some (some (r, a))) :
    f a ∧ (r = prev ∧ h = some a ∨ ∃ y, r = some y ∧ next y = some a) := by
  induction n generalizing prev h with
  | zero => cases hw
  | succ n ih =>
    cases h with
    | none => cases hw
    | some b =>
      rw [walk] at hw
      split at hw
      · cases hw
        exact ⟨‹_›, .inl ⟨rfl, rfl⟩⟩
      · obtain ⟨hf, ⟨rfl, hb⟩ | hy⟩ := ih hw
        · exact ⟨hf, .inr ⟨b, rfl, hb⟩⟩
        · exact ⟨hf, .inr hy⟩

/-- `dequeue` writes the one cell that holds the process, whatever the lists look like. -/
theorem dequeue_cellAt (hx : s.cellAt o prev = some x) (hne : x ≠ c) :
    (dequeue s c).cellAt o prev = some x := by
  simp only [dequeue]
  split
  · rename_i prev' a hw
    obtain ⟨ha, hcell⟩ := walk_cell hw
    obtain rfl : a = c := by simpa using ha
    have hkeep : (s.writeReady (s.proc a).cpu (s.proc a).priority prev'
        (s.proc a).nextready).cellAt o prev = some x := by
      obtain h | ⟨-, rfl, ho⟩ := cellAt_writeReady s o prev (s.proc a).cpu (s.proc a).priority prev'
        (s.proc a).nextready
      · rw [h, hx]
      · refine absurd (Option.some.inj (hx.symm.trans ?_)) hne
        obtain ⟨rfl, hhead⟩ | ⟨y, rfl, hnext⟩ := hcell
        · rw [ho rfl]
          exact hhead
        · exact hnext
    split
    · rw [cellAt_setTail, hkeep]
    · exact hkeep
  · exact hx

theorem rtsSet_cellAt (f : RtsFlags) (hx : s.cellAt o prev = some x) (hne : x ≠ c) :
    (rtsSet s c f).cellAt o prev = some x := by
  have hmod : (s.modProc c (·.setRts f)).cellAt o prev = some x := by rw [cellAt_modProc rfl, hx]
  simp only [rtsSet]
  split
  · exact dequeue_cellAt hmod hne
  · exact hmod

theorem dequeue_eq_self {l : List Slot}
    (h : Linked s.nextready (s.runHeads (s.proc p).place) l) (hp : p ∉ l) : dequeue s p = s := by
  have hlen : l.length < nrSlots + 1 := Nat.lt_succ_of_le (by simpa [nrSlots] using h.length_le)
  have hnone : locate (· == p) none l = none :=
    locate_eq_none_iff.mpr fun y hy => beq_eq_false_iff_ne.mpr fun e => hp (e ▸ hy)
  have hwalk : walk (fun j => (s.proc j).nextready) (· == p) (nrSlots + 1) none
      ((s.cpu (s.proc p).cpu).runQHead (s.proc p).priority) = some none :=
    (h.walk_eq hlen).trans (congrArg some hnone)
  simp only [dequeue, hwalk]

theorem enqueueTail_cellAt (hprev : prev ≠ some p) (hx : s.cellAt o prev = some p) :
    (enqueueTail s p).cellAt o prev = some p := by
  have hlast : ∀ v : State, (v.modProc p fun r => { r with nextready := none }).cellAt o prev =
      v.cellAt o prev := by
    intro v
    cases prev with
    | none => rfl
    | some y =>
      simp only [State.cellAt, nextready_modNextready]
      exact update_of_ne (fun e => hprev (congrArg some e)) _ _
  -- the only other cell written gets `p`
  have hwrite : ∀ d k prev', (s.writeReady d k prev' (some p)).cellAt o prev = some p := by
    intro d k prev'
    obtain h | ⟨h, -⟩ := cellAt_writeReady s o prev d k prev' (some p)
    · rw [h, hx]
    · exact h
  simp only [enqueueTail]
  split <;> rw [hlast, cellAt_setTail, hwrite]

/-! ## Taking a process off its queue and putting it back -/

/-- `y` is `u` after `p` has been taken off and appended, before the preemption test. -/
structure Requeued (u y : State) (p : Slot) : Prop where
  proc : ∀ j, ∃ n k, y.proc j = { u.proc j with nextready := n, cpuTimeLeft := k }
  priv : y.priv = u.priv
  cpuid : y.cpuid = u.cpuid
  procPtr : ∀ c, (y.cpu c).procPtr = (u.cpu c).procPtr
  runQ : ∀ q, RunQ u (fun i => (u.proc i).isRunnable) q →
    ∃ q', RunQ y (fun i => (y.proc i).isRunnable) q' ∧
      (∃ l, p ∉ l ∧ q' (u.proc p).place = l ++ [p]) ∧
      ∀ o, (q' o).filter (· ≠ p) = (q o).filter (· ≠ p)
  cell : ∀ l, Linked u.nextready (u.runHeads (u.proc p).place) l → p ∉ l →
    ∀ o prev, prev ≠ some p → u.cellAt o prev = some p → y.cellAt o prev = some p

theorem Requeued.isRunnable (h : Requeued u t p) (j : Slot) :
    (t.proc j).isRunnable ↔ (u.proc j).isRunnable := by
  obtain ⟨n, k, hj⟩ := h.proc j
  rw [hj]
  rfl

/-- `p` taken off its queue and given time, no longer marked. -/
def takenOff (u : State) (p : Slot) (ms : Nat) : State :=
  let v := dequeue (u.modProc p (·.setRts { noQuantum := true })) p
  (v.modProc p fun r => { r with cpuTimeLeft := ms2CpuTime v ms }).modProc p
    (·.unsetRts { noQuantum := true })

theorem takenOff_proc (hp : (u.proc p).isRunnable) (ms : Nat) (j : Slot) :
    ∃ n k, (takenOff u p ms).proc j = { u.proc j with nextready := n, cpuTimeLeft := k } := by
  have hflags : (u.proc p).rtsFlags = {} := hp
  simp only [takenOff]
  generalize hd : dequeue (u.modProc p (·.setRts { noQuantum := true })) p = d
  have hdj := (hd ▸ dequeue_edit (u.modProc p (·.setRts { noQuantum := true })) p).proc j
  by_cases hj : j = p
  · subst hj
    refine ⟨d.nextready j, ms2CpuTime d ms, ?_⟩
    simp only [State.modProc_proc_self, hdj, Proc.unsetRts, Proc.setRts, hflags]
    rfl
  · refine ⟨d.nextready j, (u.proc j).cpuTimeLeft, ?_⟩
    simp only [State.modProc_proc_of_ne _ hj, hdj]

theorem requeue_eq (hp : (u.proc p).isRunnable) (ms : Nat) :
    requeue u p ms = preemptCurrent (enqueueTail (takenOff u p ms) p) p := by
  have hflags : (u.proc p).rtsFlags = {} := hp
  have hset : rtsSet u p { noQuantum := true } =
      dequeue (u.modProc p (·.setRts { noQuantum := true })) p := by
    refine if_pos ⟨hp, ?_⟩
    simp [Proc.isRunnable, Proc.setRts, hflags, RtsFlags.set]
  rw [requeue, hset]
  refine if_pos ⟨?_, ?_⟩
  · simp [Proc.isRunnable, (dequeue_edit _ p).rtsFlags, Proc.setRts, hflags, RtsFlags.set]
  · obtain ⟨n, k, hj⟩ := takenOff_proc hp ms p
    change ((takenOff u p ms).proc p).isRunnable
    rw [hj]
    exact hp

theorem requeued (hp : (u.proc p).isRunnable) (ms : Nat) :
    Requeued u (enqueueTail (takenOff u p ms) p) p := by
  have hproc := takenOff_proc hp ms
  have hedit := enqueueTail_edit (takenOff u p ms) p
  have hdeq := dequeue_edit (u.modProc p (·.setRts { noQuantum := true })) p
  have hplace : ((takenOff u p ms).proc p).place = (u.proc p).place := by
    obtain ⟨n, k, hj⟩ := hproc p
    rw [hj]
    rfl
  refine ⟨fun j => ?_, hedit.flagEdit.priv.trans hdeq.flagEdit.priv, hedit.cpuid.trans hdeq.cpuid,
    fun c => (hedit.procPtr c).trans (hdeq.procPtr c), fun q hq => ?_,
    fun l hl hpl o prev hprev hcell => ?_⟩
  · obtain ⟨n, k, hj⟩ := hproc j
    exact ⟨(enqueueTail (takenOff u p ms) p).nextready j, k, by rw [hedit.proc j, hj]⟩
  · obtain ⟨q₁, hq₁, hfilter⟩ := (hq.modProc p (f := (·.setRts { noQuantum := true })) rfl
      fun _ => rfl).dequeue hp
    have hoff : RunQ (takenOff u p ms) (fun i => (u.proc i).isRunnable ∧ i ≠ p) q₁ := by
      simp only [takenOff]
      refine RunQ.modProc (RunQ.modProc hq₁ p ?_ ?_) p ?_ ?_ <;> intros <;> rfl
    have hp₁ : ∀ o, p ∉ q₁ o := fun o hm => ((hq₁.mem_iff p o).mp hm).1.2 rfl
    refine ⟨_, (hoff.enqueueTail fun h => h.2 rfl).of_iff fun j => ?_,
      ⟨q₁ (u.proc p).place, hp₁ _, ?_⟩, fun o => ?_⟩
    · rw [hedit.isRunnable]
      obtain ⟨n, k, hj⟩ := hproc j
      rw [hj]
      by_cases hjp : j = p
      · subst hjp
        exact iff_of_true hp (.inr rfl)
      · exact ⟨fun h => .inl ⟨h, hjp⟩, fun h => (h.resolve_right hjp).1⟩
    · rw [hplace, update_self]
    · by_cases ho : o = ((takenOff u p ms).proc p).place
      · subst ho
        rw [update_self, List.filter_append, hfilter]
        simp
      · rw [update_of_ne ho, hfilter]
        simp
  · -- `p` is not found in the queue that its new priority names
    have hself : dequeue (u.modProc p (·.setRts { noQuantum := true })) p =
        u.modProc p (·.setRts { noQuantum := true }) := by
      refine dequeue_eq_self (l := l) ?_ hpl
      rw [nextready_modProc rfl, State.modProc_proc_self]
      exact hl
    refine enqueueTail_cellAt hprev ?_
    simp only [takenOff, hself]
    rw [cellAt_modProc rfl, cellAt_modProc rfl, cellAt_modProc rfl, hcell]

/-! ## The move -/

/-- The queues of `t` are those of `s`, except that `p`, if it can run, is now at the end of
its queue and on no other. -/
def Moved (s t : State) (p : Slot) : Prop :=
  ∃ q q' : Nat × Nat → List Slot,
    (∀ o, Linked s.nextready (s.runHeads o) (q o)) ∧
    (∀ o, Linked t.nextready (t.runHeads o) (q' o)) ∧
    ((t.proc p).isRunnable → (∃ l, p ∉ l ∧ q' (t.proc p).place = l ++ [p]) ∧
      ∀ o, o ≠ (t.proc p).place → p ∉ q' o) ∧
    ∀ o, (q' o).filter (· ≠ p) = (q o).filter (· ≠ p)

/-- The running process is queued behind `p`, or `p` is to be real-time and it is not, or at a
lower real-time priority: then it is preempted, which takes it off its queue. -/
def Displaces (s : State) (p : Slot) (cls prio : Int) : Prop :=
  (s.proc p).cpu = s.cpuid ∧ ∃ c, (s.cpu s.cpuid).procPtr = some c ∧ c ≠ p ∧
    (s.proc c).isRunnable ∧ (s.privOf c).flags.preemptible ∧
    ((s.proc p).priority < (s.proc c).priority ∨
      cls ≠ 0 ∧ ((s.proc c).isRt → ((s.proc c).rtPriority : Int) < prio))

/-- `enqueue` of `p` preempts the running process `c`. -/
def Preempts (s : State) (p c : Slot) : Prop :=
  s.cpuid = (s.proc p).cpu ∧ (s.cpu s.cpuid).procPtr = some c ∧ (s.privOf c).flags.preemptible ∧
    (schedRtMayPreempt (s.proc c) (s.proc p) ∨ (s.proc p).priority < (s.proc c).priority)

theorem preemptCurrent_cases (s : State) (p : Slot) :
    (preemptCurrent s p = s ∧ ∀ c, ¬Preempts s p c) ∨
      ∃ c, Preempts s p c ∧ preemptCurrent s p = rtsSet s c { preempted := true } := by
  simp only [preemptCurrent, Preempts]
  split
  · rename_i hcpu
    split
    · rename_i hnone
      exact .inl ⟨rfl, fun c h => by rw [hnone] at h; cases h.2.1⟩
    rename_i c hc
    split
    · rename_i hpre
      exact .inr ⟨c, ⟨hcpu, hc, hpre⟩, rfl⟩
    · rename_i hpre
      refine .inl ⟨rfl, fun d h => hpre ?_⟩
      obtain rfl : c = d := Option.some.inj (hc.symm.trans h.2.1)
      exact h.2.2
  · rename_i hcpu
    exact .inl ⟨rfl, fun _ h => hcpu h.1⟩

theorem Preempts.ne (h : Preempts s p c) : c ≠ p := by
  rintro rfl
  obtain ⟨-, -, -, h | h⟩ := h
  · cases hrt : (s.proc c).isRt <;> simp [schedRtMayPreempt, hrt] at h
  · exact lt_irrefl _ h

/-- The process that is put on a queue is not the one preempted by it. -/
theorem preemptCurrent_self (s : State) (p : Slot) :
    ((preemptCurrent s p).proc p).place = (s.proc p).place ∧
      (((preemptCurrent s p).proc p).isRunnable ↔ (s.proc p).isRunnable) := by
  refine ⟨by rw [(preemptCurrent_edit s p).proc p]; rfl, ?_⟩
  obtain ⟨heq, -⟩ | ⟨c, hpre, heq⟩ := preemptCurrent_cases s p <;> rw [heq]
  rw [Proc.isRunnable, rtsSet_rtsFlags, if_neg hpre.ne.symm]
  rfl

section Preemption

variable {cls prio : Int} {r r' : Proc}

theorem ClassSet.mayPreempt_iff (hr : ClassSet cls prio r r') (x : Proc) :
    schedRtMayPreempt x r' ∨ r'.priority < x.priority ↔
      r'.priority < x.priority ∨ cls ≠ 0 ∧ (x.isRt → (x.rtPriority : Int) < prio) := by
  obtain ⟨h0, hcls, -⟩ | ⟨h0, hmin, -, -, hrt, hcls⟩ := hr.kind
  · have hno : r'.isRt = false := by simp [Proc.isRt, hcls]
    simp [schedRtMayPreempt, hno, h0]
  · have hyes : r'.isRt = true := by obtain h | h := hcls <;> simp [Proc.isRt, h]
    have hlt : x.rtPriority < prio.toNat ↔ (x.rtPriority : Int) < prio := by
      simp only [rtPrioMin] at hmin
      omega
    rw [or_comm]
    refine or_congr_right ?_
    cases hx : x.isRt <;> simp [schedRtMayPreempt, hx, hyes, hrt, h0, hlt]

theorem Requeued.preempts_iff (h : Requeued (s.modProc p fun _ => r) t p)
    (hr : ClassSet cls prio (s.proc p) r) (hprio : r.priority = (s.proc p).priority) :
    (∃ c, Preempts t p c ∧ (s.proc c).isRunnable) ↔ Displaces s p cls prio := by
  have hcpu : r.cpu = (s.proc p).cpu := by rw [hr.keep]
  obtain ⟨n, k, hp⟩ := h.proc p
  rw [State.modProc_proc_self] at hp
  have hiff : ∀ c, c ≠ p → (Preempts t p c ↔ (s.proc p).cpu = s.cpuid ∧
      (s.cpu s.cpuid).procPtr = some c ∧ (s.privOf c).flags.preemptible ∧
      ((s.proc p).priority < (s.proc c).priority ∨
        cls ≠ 0 ∧ ((s.proc c).isRt → ((s.proc c).rtPriority : Int) < prio))) := by
    intro c hc
    obtain ⟨n', k', hcp⟩ := h.proc c
    rw [State.modProc_proc_of_ne _ hc] at hcp
    have hpriv : t.privOf c = s.privOf c := by
      rw [State.privOf, h.priv, hcp]
      rfl
    rw [Preempts, hpriv, h.cpuid, h.procPtr, hp, hcp, ← hprio, ← hr.mayPreempt_iff, ← hcpu, eq_comm]
    rfl
  constructor
  · rintro ⟨c, hpre, hrun⟩
    obtain ⟨hcpu, hptr, hrest⟩ := (hiff c hpre.ne).mp hpre
    exact ⟨hcpu, c, hptr, hpre.ne, hrun, hrest⟩
  · rintro ⟨hcpu, c, hptr, hne, hrun, hrest⟩
    exact ⟨c, (hiff c hne).mpr ⟨hcpu, hptr, hrest⟩, hrun⟩

/-- In the queue that `p` was on, the cell in front of `p` still holds `p`. -/
theorem not_moved {q : Nat × Nat → List Slot} (hq : RunQ s (fun i => (s.proc i).isRunnable) q)
    (hrun : (s.proc p).isRunnable) (hplace : (t.proc p).place ≠ (s.proc p).place)
    (hrun' : (t.proc p).isRunnable)
    (hcell : ∀ prev, prev ≠ some p → s.cellAt (s.proc p).place prev = some p →
      t.cellAt (s.proc p).place prev = some p) : ¬Moved s t p := by
  rintro ⟨q₁, q', hq₁, hq', hmove, hfilter⟩
  have hmem := (hq.mem_iff p _).mpr ⟨hrun, rfl⟩
  obtain ⟨pre, post, hsplit⟩ := List.append_of_mem hmem
  have hlink := hsplit ▸ hq.queues.linked (s.proc p).place
  have hnd := hlink.nodup
  simp only [List.nodup_append, List.nodup_cons, List.mem_cons] at hnd
  have hpre : p ∉ pre := fun hm => hnd.2.2 p hm p (.inl rfl) rfl
  have hold : q' (s.proc p).place = pre ++ post := by
    rw [← filter_ne_eq_self ((hmove hrun').2 _ hplace.symm), hfilter,
      (hq₁ _).unique (hq.queues.linked _), ← congrFun (hq.queues.filter_ne hsplit), update_self]
  have hprev : pre.getLast? ≠ some p := fun e => hpre (List.mem_of_getLast? e)
  have hhead := hcell _ hprev (cellAt_of_linked hlink)
  rw [cellAt_of_linked (hold ▸ hq' _)] at hhead
  exact hnd.2.1.1 (List.mem_of_mem_head? hhead)

/-- A preempted process is off its queue. -/
theorem not_moved_of_preempted {q : Nat × Nat → List Slot}
    (hq : RunQ s (fun i => (s.proc i).isRunnable) q) (ht : RunInv t) (hc : (s.proc c).isRunnable)
    (hne : c ≠ p) (hc' : ¬(t.proc c).isRunnable) : ¬Moved s t p := by
  rintro ⟨q₁, q', hq₁, hq', -, hfilter⟩
  obtain ⟨q₂, hq₂⟩ := ht
  have hmem : c ∈ q₁ (s.proc c).place := by
    rw [(hq₁ _).unique (hq.queues.linked _)]
    exact (hq.mem_iff c _).mpr ⟨hc, rfl⟩
  have hmem' : c ∈ (q' (s.proc c).place).filter (· ≠ p) := by
    rw [hfilter]
    exact List.mem_filter.mpr ⟨hmem, decide_eq_true hne⟩
  rw [(hq' _).unique (hq₂.queues.linked _)] at hmem'
  exact hc' ((hq₂.mem_iff c _).mp (List.mem_of_mem_filter hmem')).1

theorem Requeued.moved_iff {q : Nat × Nat → List Slot}
    (hq : RunQ s (fun i => (s.proc i).isRunnable) q) (hrun : (s.proc p).isRunnable)
    (hr : ClassSet cls prio (s.proc p) r) (h : Requeued (s.modProc p fun _ => r) t p) :
    Moved s (preemptCurrent t p) p ↔
      r.priority = (s.proc p).priority ∧ ¬Displaces s p cls prio := by
  have hnext : r.nextready = (s.proc p).nextready := by rw [hr.keep]
  have hplace : (t.proc p).place = r.place := by
    obtain ⟨n, k, hp⟩ := h.proc p
    rw [hp, State.modProc_proc_self]
    rfl
  have hrun' : ∀ j, (t.proc j).isRunnable ↔ (s.proc j).isRunnable := by
    intro j
    rw [h.isRunnable, State.modProc_proc]
    split
    · rename_i e
      rw [e, hr.isRunnable]
    · rfl
  by_cases hprio : r.priority = (s.proc p).priority
  · have hr' : r.place = (s.proc p).place := Prod.ext (by rw [hr.keep]; rfl) hprio
    obtain ⟨q', hq', htail, hfilter⟩ := h.runQ q ((hq.modProc p hnext fun _ => hr').of_iff
      fun j => (h.isRunnable j).symm.trans (hrun' j))
    rw [State.modProc_proc_self, ← hplace] at htail
    have hmoved : ∀ u : State, (∀ o, Linked u.nextready (u.runHeads o) (q' o)) →
        (u.proc p).place = (t.proc p).place → Moved s u p := fun u hu hpu =>
      ⟨q, q', hq.queues.linked, hu, fun _ => hpu ▸ ⟨htail, fun o ho hm =>
        ho ((hq'.mem_iff p o).mp hm).2⟩, hfilter⟩
    rw [and_iff_right hprio, ← h.preempts_iff hr hprio]
    obtain ⟨heq, hno⟩ | ⟨c, hpre, heq⟩ := preemptCurrent_cases t p <;> rw [heq]
    · exact iff_of_true (hmoved t hq'.queues.linked rfl) fun ⟨c, hc, _⟩ => hno c hc
    · have hc : ∀ d, Preempts t p d → d = c :=
        fun d hd => Option.some.inj (hd.2.1.symm.trans hpre.2.1)
      by_cases hcrun : (s.proc c).isRunnable
      · refine iff_of_false
          (not_moved_of_preempted hq (RunInv.rtsSet ⟨q', hq'⟩ c _) hcrun hpre.ne ?_)
          fun hno => hno ⟨c, hpre, hcrun⟩
        intro hz
        rw [Proc.isRunnable, rtsSet_rtsFlags, if_pos rfl] at hz
        simpa using congrArg RtsFlags.preempted hz
      · have hset : rtsSet t c { preempted := true } =
            t.modProc c (·.setRts { preempted := true }) :=
          if_neg fun hflip => hcrun ((hrun' c).mp hflip.1)
        rw [hset]
        refine iff_of_true (hmoved _ (hq'.modProc c rfl fun _ => rfl).queues.linked ?_)
          fun ⟨d, hd, hdrun⟩ => hcrun (hc d hd ▸ hdrun)
        rw [State.modProc_proc_of_ne _ hpre.ne.symm]
  · -- `p` is left on its old queue, preemption or not
    obtain ⟨hself, hself'⟩ := preemptCurrent_self t p
    refine iff_of_false (not_moved hq hrun ?_ (hself'.mpr ((hrun' p).mpr hrun))
      fun prev hprev hcell => ?_)
      fun hboth => hprio hboth.1
    · rw [hself, hplace]
      exact fun e => hprio (congrArg Prod.snd e)
    · have hnew : p ∉ q r.place := fun hm => hprio (congrArg Prod.snd ((hq.mem_iff p _).mp hm).2)
      have hcell' := h.cell (q r.place) (by
        rw [nextready_modProc hnext, State.modProc_proc_self]
        exact hq.queues.linked _) hnew _ prev hprev ((cellAt_modProc hnext).trans hcell)
      obtain ⟨heq, -⟩ | ⟨c, hpre, heq⟩ := preemptCurrent_cases t p <;> rw [heq]
      · exact hcell'
      · exact rtsSet_cellAt _ hcell' hpre.ne.symm

/-- A class is set and the process stands where it should exactly if it could not run, or its
queue stays the same and nobody is preempted. -/
theorem do_setscheduler_moves_iff {s t : State} {caller p : Slot} {e : Endpoint}
    {cls prio quantum : Int} (hinv : RunInv s) (hp : isokendpt s e = some p)
    (h : doSetscheduler s caller e cls prio quantum = (t, .ok)) :
    Moved s t p ↔ ((s.proc p).isRunnable →
      (cls = 0 ∨ (rtPrioToQueue prio).toNat = (s.proc p).priority) ∧ ¬Displaces s p cls prio) := by
  obtain ⟨q, hq⟩ := hinv
  obtain ⟨-, hcode⟩ | ⟨p', r, ms, hp', hr, rfl⟩ := doSetscheduler_cases h
  · exact absurd rfl hcode
  obtain rfl : p = p' := Option.some.inj (hp.symm.trans hp')
  have hnext : r.nextready = (s.proc p).nextready := by rw [hr.keep]
  by_cases hrun : (s.proc p).isRunnable
  · have hu : ((s.modProc p fun _ => r).proc p).isRunnable := by
      rw [State.modProc_proc_self, hr.isRunnable]
      exact hrun
    rw [if_pos hrun, requeue_eq hu, (requeued hu ms).moved_iff hq hrun hr, imp_iff_right hrun]
    refine and_congr_left fun _ => ?_
    obtain ⟨h0, -, heq, -⟩ | ⟨h0, -, -, heq, -⟩ := hr.kind <;> simp [h0, heq]
  · rw [if_neg hrun]
    refine iff_of_true ?_ fun hrun' => absurd hrun' hrun
    have hlinked := (hq.modProc p (f := fun _ => r) hnext fun hR => absurd hR hrun).queues.linked
    refine ⟨q, q, hq.queues.linked, hlinked, fun hrun' => absurd ?_ hrun, fun _ => rfl⟩
    rwa [State.modProc_proc_self, hr.isRunnable] at hrun'

end Preemption

/-- The processes with the endpoints 1 and 2 are runnable, in this order, in the first queue. -/
def twoReady : State :=
  rtsUnset (rtsUnset procInit 6 { slotFree := true }) 7 { slotFree := true }

theorem twoReady_runInv : RunInv twoReady :=
  (procInit_schedInit.runInv.rtsUnset 6 _).rtsUnset 7 _

/-- PM makes the first of them real-time at the priority of its queue: it goes behind the other. -/
theorem do_setscheduler_moves_behind : RunInv twoReady ∧ twoReady.runHeads (0, 0) = some 6 ∧
    Moved twoReady (doSetscheduler twoReady 5 1 2 99 0).1 6 ∧
    (doSetscheduler twoReady 5 1 2 99 0).1.runHeads (0, 0) = some 7 := by
  refine ⟨twoReady_runInv, by decide +kernel, (do_setscheduler_moves_iff twoReady_runInv (e := 1)
    (by decide +kernel) (Prod.ext rfl (by decide +kernel))).mpr fun _ =>
      ⟨.inr (by decide +kernel), ?_⟩, by decide +kernel⟩
  rintro ⟨-, c, hc, -⟩
  have hnone : (twoReady.cpu 0).procPtr = none := by decide +kernel
  cases hnone.symm.trans hc

/-- With the priority of another queue it ends up on two queues. -/
theorem do_setscheduler_on_two_queues : RunInv twoReady ∧
    (doSetscheduler twoReady 5 1 1 50 0).2 = .ok ∧
    ¬Moved twoReady (doSetscheduler twoReady 5 1 1 50 0).1 6 := by
  refine ⟨twoReady_runInv, by decide +kernel, ?_⟩
  rintro ⟨-, q', -, hq', hmove, -⟩
  have hsix : (doSetscheduler twoReady 5 1 1 50 0).1.runHeads (0, 0) = some 6 := by decide +kernel
  refine (hmove (by decide +kernel)).2 (0, 0) (by decide +kernel) ?_
  exact List.mem_of_mem_head? ((hq' (0, 0)).head?_eq.trans hsix)

end Gergios.Kernel
