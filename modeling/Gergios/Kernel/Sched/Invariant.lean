import Gergios.Kernel.Sched.RunQueue

/-!
# The run-queue invariant

`RunQ s R q` says that the lists `q` are the run queues of `s` and that they hold exactly
the processes in `R`, each in the queue of its CPU and priority. The insertions and the
removal move one process into or out of `R`; between setting a flag and the call of
`dequeue` the set `R` is not the set of runnable processes, which is why it is a parameter.
-/

namespace Gergios.Kernel

open Lib Function List

variable (s : State)

def State.runHeads (o : Nat × Nat) : Option Slot := (s.cpu o.1).runQHead o.2

def State.runTails (o : Nat × Nat) : Option Slot := (s.cpu o.1).runQTail o.2

def State.nextready (j : Slot) : Option Slot := (s.proc j).nextready

def Proc.place (p : Proc) : Nat × Nat := (p.cpu, p.priority)

variable {l : List Slot} {rp : Slot}

theorem Proc.exists_place (p : Proc) : ∃ c k, p.place = (c, k) ∧ p.cpu = c ∧ p.priority = k :=
  ⟨_, _, rfl, rfl, rfl⟩

structure RunQ (s : State) (R : Slot → Prop) (q : Nat × Nat → List Slot) : Prop where
  queues : Queues s.runHeads s.nextready q
  tail : ∀ o, q o ≠ [] → s.runTails o = (q o).getLast?
  mem_iff : ∀ i o, i ∈ q o ↔ R i ∧ o = (s.proc i).place

def RunInv : Prop := ∃ q, RunQ s (fun i => (s.proc i).isRunnable) q

/-- `t` differs from `s` in links, heads and tails only. -/
structure QueueEdit (s t : State) : Prop where
  proc : ∀ j, t.proc j = { s.proc j with nextready := t.nextready j }
  cpu : ∀ c, t.cpu c =
    { s.cpu c with runQHead := (t.cpu c).runQHead, runQTail := (t.cpu c).runQTail }
  rest : t = { s with proc := t.proc, cpu := t.cpu }

namespace QueueEdit

variable {s t u : State}

protected theorem refl (s : State) : QueueEdit s s := ⟨fun _ => rfl, fun _ => rfl, rfl⟩

section

variable (h : QueueEdit s t)

include h

protected theorem trans (h' : QueueEdit t u) : QueueEdit s u where
  proc j := by rw [h'.proc j, h.proc j]
  cpu c := by rw [h'.cpu c, h.cpu c]
  rest := by rw [h'.rest, h.rest]

theorem rtsFlags (j : Slot) : (t.proc j).rtsFlags = (s.proc j).rtsFlags := by
  rw [h.proc j]

theorem place (j : Slot) : (t.proc j).place = (s.proc j).place := by
  rw [h.proc j]; rfl

theorem isRunnable (j : Slot) : (t.proc j).isRunnable ↔ (s.proc j).isRunnable := by
  rw [Proc.isRunnable, Proc.isRunnable, h.rtsFlags j]

theorem procPtr (c : Nat) : (t.cpu c).procPtr = (s.cpu c).procPtr := by
  rw [h.cpu c]

theorem cpuid : t.cpuid = s.cpuid := by rw [h.rest]

end

variable (s : State)

theorem modCpu (c : Nat) (f : CpuLocal → CpuLocal)
    (hf : ∀ l, f l = { l with runQHead := (f l).runQHead, runQTail := (f l).runQTail }) :
    QueueEdit s (s.modCpu c f) where
  proc _ := rfl
  cpu d := by
    rw [State.modCpu_cpu]
    split
    · subst d; exact hf _
    · rfl
  rest := rfl

theorem modNextready (i : Slot) (v : Option Slot) :
    QueueEdit s (s.modProc i fun p => { p with nextready := v }) where
  proc j := by
    simp only [State.nextready, State.modProc_proc]
    split
    · subst j; rfl
    · rfl
  cpu _ := rfl
  rest := rfl

theorem writeReady (c q : Nat) (prev v : Option Slot) : QueueEdit s (s.writeReady c q prev v) := by
  cases prev with
  | none => exact modCpu s c (fun l => { l with runQHead := _ }) fun _ => rfl
  | some y => exact modNextready s y v

theorem setTail (c q : Nat) (v : Option Slot) : QueueEdit s (s.setTail c q v) :=
  modCpu s c (fun l => { l with runQTail := _ }) fun _ => rfl

end QueueEdit

section Writes

variable (s : State) (c q : Nat) (prev v : Option Slot)

theorem runHeads_writeReady :
    (s.writeReady c q prev v).runHeads = cellHeads s.runHeads (c, q) prev v := by
  funext ⟨c', q'⟩
  cases prev with
  | none =>
    simp only [State.runHeads, State.writeReady, State.modCpu_cpu, cellHeads, update_apply]
    by_cases hc : c' = c <;> by_cases hq : q' = q <;> simp [hc, hq]
  | some y => rfl

theorem nextready_writeReady :
    (s.writeReady c q prev v).nextready = cellNext s.nextready prev v := by
  funext j
  cases prev with
  | none => rfl
  | some y =>
    simp only [State.nextready, State.writeReady, State.modProc_proc, cellNext, update_apply]
    split <;> rfl

theorem runTails_writeReady : (s.writeReady c q prev v).runTails = s.runTails := by
  funext ⟨c', q'⟩
  cases prev with
  | none =>
    simp only [State.runTails, State.writeReady, State.modCpu_cpu]
    split
    · subst c'; rfl
    · rfl
  | some y => rfl

theorem runTails_setTail : (s.setTail c q v).runTails = update s.runTails (c, q) v := by
  funext ⟨c', q'⟩
  simp only [State.runTails, State.setTail, State.modCpu_cpu, update_apply]
  by_cases hc : c' = c <;> by_cases hq : q' = q <;> simp [hc, hq]

theorem runHeads_setTail : (s.setTail c q v).runHeads = s.runHeads := by
  funext ⟨c', q'⟩
  simp only [State.runHeads, State.setTail, State.modCpu_cpu]
  split
  · subst c'; rfl
  · rfl

theorem nextready_setTail : (s.setTail c q v).nextready = s.nextready := rfl

theorem runHeads_modProc (i : Slot) (f : Proc → Proc) : (s.modProc i f).runHeads = s.runHeads := rfl

theorem runTails_modProc (i : Slot) (f : Proc → Proc) : (s.modProc i f).runTails = s.runTails := rfl

theorem nextready_modNextready (i : Slot) :
    (s.modProc i fun p => { p with nextready := v }).nextready = update s.nextready i v := by
  funext j
  simp only [State.nextready, State.modProc_proc, update_apply]
  split <;> rfl

end Writes

section Edits

variable {s t : State} {R : Slot → Prop} {q : Nat × Nat → List Slot}

theorem RunQ.edit (h : RunQ s R q) (ht : QueueEdit s t) {R' : Slot → Prop} {o : Nat × Nat}
    (hq : Queues t.runHeads t.nextready (update q o l))
    (htail : ∀ o', o' ≠ o → t.runTails o' = s.runTails o')
    (hlast : l ≠ [] → t.runTails o = l.getLast?) (hmem : ∀ i, i ∈ l ↔ R' i ∧ o = (s.proc i).place)
    (hother : ∀ i, o ≠ (s.proc i).place → (R' i ↔ R i)) : RunQ t R' (update q o l) where
  queues := hq
  tail o' := by
    by_cases ho : o' = o
    · subst ho
      rw [update_self]
      exact hlast
    · rw [update_of_ne ho, htail o' ho]
      exact h.tail o'
  mem_iff i o' := by
    rw [ht.place i]
    by_cases ho : o' = o
    · subst ho
      rw [update_self]
      exact hmem i
    · rw [update_of_ne ho, h.mem_iff]
      refine and_congr_left fun hp => (hother i ?_).symm
      rintro rfl
      exact ho hp

theorem dequeue_edit (s : State) (rp : Slot) : QueueEdit s (dequeue s rp) := by
  simp only [dequeue]
  split
  · split
    · exact (QueueEdit.writeReady ..).trans (QueueEdit.setTail ..)
    · exact QueueEdit.writeReady ..
  · exact QueueEdit.refl s

theorem RunQ.dequeue (h : RunQ s R q) (hR : R rp) :
    ∃ q', RunQ (dequeue s rp) (fun i => R i ∧ i ≠ rp) q' ∧
      ∀ o, q' o = (q o).filter (· ≠ rp) := by
  obtain ⟨c, k, ho, hcpu, hprio⟩ := (s.proc rp).exists_place
  have hmem : rp ∈ q (c, k) := (h.mem_iff rp (c, k)).mpr ⟨hR, ho.symm⟩
  obtain ⟨pre, post, hsplit⟩ := append_of_mem hmem
  have hlink := h.queues.linked (c, k)
  have hnd : (pre ++ rp :: post).Nodup := hsplit ▸ hlink.nodup
  have hpre : rp ∉ pre := fun hm => (nodup_append.mp hnd).2.2 rp hm rp (by simp) rfl
  have hpost : rp ∉ post := (nodup_cons.mp (nodup_append.mp hnd).2.1).1
  have hlen : (q (c, k)).length < nrSlots + 1 :=
    Nat.lt_succ_of_le (by simpa [nrSlots] using hlink.length_le)
  have hwalk : walk (fun j => (s.proc j).nextready) (· == rp) (nrSlots + 1) none
      ((s.cpu c).runQHead k) = some (some (pre.getLast?, rp)) := by
    refine (hlink.walk_eq hlen).trans ?_
    rw [hsplit, locate_beq hpre, Option.or_none]
  have hunlink := h.queues.unlink hsplit
  have heq : Kernel.dequeue s rp = if (s.cpu c).runQTail k = some rp then
      (s.writeReady c k pre.getLast? (s.nextready rp)).setTail c k pre.getLast?
      else s.writeReady c k pre.getLast? (s.nextready rp) := by
    simp only [Kernel.dequeue, hcpu, hprio, hwalk, State.nextready]
  have hedit := dequeue_edit s rp
  rw [heq] at hedit ⊢
  refine ⟨update q (c, k) (pre ++ post), h.edit hedit ?_ ?_ ?_ ?_ ?_,
    congrFun (h.queues.filter_ne hsplit)⟩
  · split <;> simpa only [runHeads_setTail, nextready_setTail, runHeads_writeReady,
      nextready_writeReady] using hunlink
  · intro o' ho'
    split
    · rw [runTails_setTail, update_of_ne ho', runTails_writeReady]
    · rw [runTails_writeReady]
  · intro hne
    have htail := h.tail (c, k) (by simp [hsplit])
    rw [hsplit] at htail
    -- the tail was `rp` exactly if nothing came after it
    cases post using reverseRecOn with
    | nil =>
      have hrp : (s.cpu c).runQTail k = some rp := by simpa [State.runTails] using htail
      rw [if_pos hrp, runTails_setTail, update_self, append_nil]
    | append_singleton post y =>
      have hy : s.runTails (c, k) = some y := by simpa [getLast?_cons] using htail
      have hne' : (s.cpu c).runQTail k ≠ some rp := by
        intro hrp
        have : some y = some rp := hy.symm.trans hrp
        exact hpost (by simp [Option.some.inj this])
      rw [if_neg hne', runTails_writeReady, hy]
      simp
  · intro i
    have hi := h.mem_iff i (c, k)
    rw [hsplit] at hi
    by_cases hirp : i = rp
    · subst hirp
      simp [hpre, hpost]
    · simpa [hirp] using hi
  · intro i hi
    have : i ≠ rp := fun e => hi (e ▸ ho.symm)
    simp [this]

theorem enqueueTail_edit (s : State) (rp : Slot) : QueueEdit s (enqueueTail s rp) := by
  simp only [enqueueTail]
  split <;> exact ((QueueEdit.writeReady ..).trans (QueueEdit.setTail ..)).trans
    (QueueEdit.modNextready ..)

theorem enqueueHead_edit (s : State) (rp : Slot) : QueueEdit s (enqueueHead s rp) := by
  simp only [enqueueHead]
  split
  · exact ((QueueEdit.writeReady ..).trans (QueueEdit.setTail ..)).trans
      (QueueEdit.modNextready ..)
  · exact (QueueEdit.modNextready ..).trans (QueueEdit.writeReady ..)

private theorem mem_insert_iff (h : RunQ s R q)
    (hl : ∀ i, i ∈ l ↔ i ∈ q (s.proc rp).place ∨ i = rp) (i : Slot) :
    i ∈ l ↔ (R i ∨ i = rp) ∧ (s.proc rp).place = (s.proc i).place := by
  rw [hl, h.mem_iff, or_and_right]
  refine or_congr_right ⟨?_, fun hi => hi.1⟩
  rintro rfl
  exact ⟨rfl, rfl⟩

private theorem insert_iff_of_place_ne {i : Slot} (hi : (s.proc rp).place ≠ (s.proc i).place) :
    (R i ∨ i = rp) ↔ R i := by
  refine or_iff_left ?_
  rintro rfl
  exact hi rfl

theorem RunQ.enqueueTail (h : RunQ s R q) (hR : ¬R rp) :
    RunQ (enqueueTail s rp) (fun i => R i ∨ i = rp)
      (update q (s.proc rp).place (q (s.proc rp).place ++ [rp])) := by
  obtain ⟨c, k, ho, hcpu, hprio⟩ := (s.proc rp).exists_place
  have hnot : ∀ o, rp ∉ q o := fun o hm => hR ((h.mem_iff rp o).mp hm).1
  -- the write to `p_nextready` of `rp` comes last in the source; no list depends on it before
  have hclear : Queues s.runHeads (update s.nextready rp none) q :=
    h.queues.congr (fun _ => rfl) fun o x hx =>
      update_of_ne (fun e : x = rp => hnot o (e ▸ hx)) _ _
  have happend := hclear.append (c, k) hnot (update_self ..)
  have heq : Kernel.enqueueTail s rp =
      ((s.writeReady c k (q (c, k)).getLast? (some rp)).setTail c k (some rp)).modProc rp
        fun p => { p with nextready := none } := by
    have hhead : (s.cpu c).runQHead k = (q (c, k)).head? := (h.queues.linked (c, k)).head?_eq.symm
    simp only [Kernel.enqueueTail, hcpu, hprio, hhead]
    cases hqk : q (c, k) with
    | nil => rfl
    | cons a l =>
      have htail : (s.cpu c).runQTail k = (a :: l).getLast? := by
        rw [← hqk]
        exact h.tail (c, k) (by simp [hqk])
      simp only [head?_cons, htail]
  have hedit := enqueueTail_edit s rp
  rw [heq] at hedit ⊢
  rw [ho]
  refine h.edit hedit ?_ ?_ ?_ ?_ ?_
  · refine happend.congr (fun o => ?_) fun o x _ => ?_
    · rw [runHeads_modProc, runHeads_setTail, runHeads_writeReady]
    · rw [nextready_modNextready, nextready_setTail, nextready_writeReady]
      cases hlast : (q (c, k)).getLast? with
      | none => rfl
      | some y =>
        have hy : y ≠ rp := fun e => hnot (c, k) (e ▸ mem_of_getLast? hlast)
        simp only [cellNext]
        rw [update_comm hy]
  · intro o' ho'
    rw [runTails_modProc, runTails_setTail, update_of_ne ho', runTails_writeReady]
  · intro _
    rw [runTails_modProc, runTails_setTail, update_self, getLast?_concat]
  · rw [← ho]
    exact mem_insert_iff h fun i => by simp [ho]
  · intro i hi
    exact insert_iff_of_place_ne (ho ▸ hi)

theorem RunQ.enqueueHead (h : RunQ s R q) (hR : ¬R rp) :
    ∃ q', RunQ (enqueueHead s rp) (fun i => R i ∨ i = rp) q' := by
  obtain ⟨c, k, ho, hcpu, hprio⟩ := (s.proc rp).exists_place
  have hnot : ∀ o, rp ∉ q o := fun o hm => hR ((h.mem_iff rp o).mp hm).1
  have hhead : (s.cpu c).runQHead k = (q (c, k)).head? := (h.queues.linked (c, k)).head?_eq.symm
  cases hqk : q (c, k) with
  | nil =>
    -- an empty queue: both insertions do the same
    have heq : Kernel.enqueueHead s rp = Kernel.enqueueTail s rp := by
      simp only [Kernel.enqueueHead, Kernel.enqueueTail, hcpu, hprio, hhead, hqk, head?_nil]
    rw [heq]
    exact ⟨_, h.enqueueTail hR⟩
  | cons a l =>
    have hpush := h.queues.push (c, k) hnot
    have heq : Kernel.enqueueHead s rp =
        (s.modProc rp fun p => { p with nextready := some a }).writeReady c k none (some rp) := by
      simp only [Kernel.enqueueHead, hcpu, hprio, hhead, hqk, head?_cons]
    have hedit := enqueueHead_edit s rp
    rw [heq] at hedit ⊢
    refine ⟨_, h.edit (o := (c, k)) (l := rp :: q (c, k)) hedit ?_ ?_ ?_ ?_ ?_⟩
    · refine hpush.congr (fun o => ?_) fun o x _ => ?_
      · rw [runHeads_writeReady, runHeads_modProc, cellHeads]
      · rw [nextready_writeReady, cellNext, nextready_modNextready]
        simp only [State.runHeads, hhead, hqk, head?_cons]
    · intro o' _
      rw [runTails_writeReady, runTails_modProc]
    · intro _
      rw [runTails_writeReady]
      have htail := h.tail (c, k) (by simp [hqk])
      rw [hqk] at htail ⊢
      exact htail
    · rw [← ho]
      exact mem_insert_iff h fun i => by simp [or_comm]
    · intro i hi
      exact insert_iff_of_place_ne (ho ▸ hi)

end Edits

end Gergios.Kernel
