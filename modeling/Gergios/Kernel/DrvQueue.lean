import Gergios.Lib.Ring

/-!
# Driver command queues

The ring of `drvqueue.c` that carries commands to the driver on one CPU. Its counters are never
reduced: they run through all 32-bit values, and their low bits choose a slot.
-/

namespace Gergios.Kernel

open Function

structure DrvQueueEntry where
  cmd : BitVec 32
  flags : BitVec 32
  arg1 : BitVec 64
  arg2 : BitVec 64
  arg3 : BitVec 64

structure DrvQueue where
  head : BitVec 32
  tail : BitVec 32
  entries : Nat → DrvQueueEntry

def drvQueueSize : Nat := 256

def drvqueueInit (entries : Nat → DrvQueueEntry) : DrvQueue := ⟨0, 0, entries⟩

variable (q : DrvQueue)

/-- `none` for a full queue. -/
def drvqueuePush (e : DrvQueueEntry) : Option DrvQueue :=
  if drvQueueSize ≤ (q.head - q.tail).toNat then none
  else
    let idx := ringIdx drvQueueSize q.head
    some { q with head := q.head + 1, entries := update q.entries idx e }

/-- `none` for an empty queue. -/
def drvqueuePop : Option (DrvQueueEntry × DrvQueue) :=
  if q.head = q.tail then none
  else some (q.entries (ringIdx drvQueueSize q.tail), { q with tail := q.tail + 1 })

def drvqueuePending : Int := (q.head - q.tail).toInt

/-- A queue with the commands that it took in and those that it gave out. -/
structure DrvRun where
  queue : DrvQueue
  pushed : List DrvQueueEntry := []
  popped : List DrvQueueEntry := []

inductive DrvOp
  | push (e : DrvQueueEntry)
  | pop

def DrvRun.step (r : DrvRun) : DrvOp → DrvRun
  | .push e =>
    match drvqueuePush r.queue e with
    | some q => { r with queue := q, pushed := r.pushed ++ [e] }
    | none => r
  | .pop =>
    match drvqueuePop r.queue with
    | some (e, q) => { r with queue := q, popped := r.popped ++ [e] }
    | none => r

/-- The commands from the `lo`-th on are outstanding. -/
structure DrvQueue.Holds (q : DrvQueue) (lo : Nat) (es : List DrvQueueEntry) : Prop where
  head : q.head = BitVec.ofNat 32 es.length
  tail : q.tail = BitVec.ofNat 32 lo
  le : lo ≤ es.length
  bound : es.length ≤ lo + drvQueueSize
  window : Window drvQueueSize q.entries lo es

theorem drvQueueIdx_ofNat (k : Nat) : ringIdx drvQueueSize (BitVec.ofNat 32 k) = k % drvQueueSize :=
  ringIdx_ofNat (s := 8) (by decide) k

section Holds

variable {q : DrvQueue} {lo : Nat} {es : List DrvQueueEntry} (h : q.Holds lo es)

include h

theorem outstanding_toNat : (q.head - q.tail).toNat = es.length - lo := by
  have hle := h.le
  have hb := h.bound
  rw [h.head, h.tail, BitVec.toNat_sub, BitVec.toNat_ofNat, BitVec.toNat_ofNat]
  simp only [drvQueueSize] at hb
  omega

theorem drvqueuePending_eq : drvqueuePending q = es.length - lo := by
  have hle := h.le
  have hb := h.bound
  have ho := outstanding_toNat h
  simp only [drvQueueSize] at hb
  rw [drvqueuePending, BitVec.toInt_eq_toNat_of_lt (by omega)]
  omega

theorem drvqueuePush_cases (e : DrvQueueEntry) :
    es.length = lo + drvQueueSize ∧ drvqueuePush q e = none ∨
    es.length < lo + drvQueueSize ∧ ∃ q', drvqueuePush q e = some q' ∧ q'.Holds lo (es ++ [e]) := by
  have hle := h.le
  have hb := h.bound
  rw [drvqueuePush, outstanding_toNat h]
  split
  · exact .inl ⟨by omega, rfl⟩
  · have hlt : es.length < lo + drvQueueSize := by omega
    refine .inr ⟨hlt, _, rfl, ?_, h.tail, ?_, ?_, ?_⟩
    · rw [h.head, List.length_append, BitVec.ofNat_add]
      rfl
    · rw [List.length_append]
      omega
    · rwa [List.length_append]
    · rw [h.head, drvQueueIdx_ofNat]
      exact h.window.push hlt e

theorem drvqueuePop_cases : lo = es.length ∧ drvqueuePop q = none ∨
    ∃ (hlt : lo < es.length) (q' : DrvQueue),
      drvqueuePop q = some (es[lo], q') ∧ q'.Holds (lo + 1) es := by
  have ho := outstanding_toNat h
  have hle := h.le
  rw [drvqueuePop]
  split
  · rename_i heq
    rw [heq, BitVec.sub_self, BitVec.toNat_zero] at ho
    exact .inl ⟨by omega, rfl⟩
  · rename_i hne
    have hlt : lo < es.length := by
      apply Nat.lt_of_le_of_ne hle
      rintro rfl
      exact hne (h.head.trans h.tail.symm)
    refine .inr ⟨hlt, { q with tail := q.tail + 1 }, ?_, h.head, ?_, hlt, ?_, ?_⟩
    · rw [h.tail, drvQueueIdx_ofNat, h.window lo hlt (Nat.le_refl lo)]
    · exact (congrArg (· + 1) h.tail).trans (BitVec.ofNat_add ..).symm
    · exact Nat.le_trans h.bound (by omega)
    · exact h.window.mono (Nat.le_succ lo)

end Holds

structure DrvRun.Ok (r : DrvRun) : Prop where
  holds : r.queue.Holds r.popped.length r.pushed
  order : r.popped = r.pushed.take r.popped.length

theorem DrvRun.Ok.step {r : DrvRun} (h : r.Ok) (op : DrvOp) : (r.step op).Ok := by
  cases op with
  | push e =>
    rcases drvqueuePush_cases h.holds e with ⟨-, hq⟩ | ⟨-, q, hq, hold⟩
    · simpa only [DrvRun.step, hq] using h
    · simp only [DrvRun.step, hq]
      exact ⟨hold, by rw [List.take_append_of_le_length h.holds.le]; exact h.order⟩
  | pop =>
    rcases drvqueuePop_cases h.holds with ⟨-, hq⟩ | ⟨hlt, q, hq, hold⟩
    · simpa only [DrvRun.step, hq] using h
    · simp only [DrvRun.step, hq]
      have hlen : ∀ e, (r.popped ++ [e]).length = r.popped.length + 1 := fun _ => List.length_append
      refine ⟨by rwa [hlen], ?_⟩
      rw [hlen, List.take_succ_eq_append_getElem hlt, ← h.order]

theorem DrvRun.ok (entries : Nat → DrvQueueEntry) (ops : List DrvOp) :
    (ops.foldl DrvRun.step { queue := drvqueueInit entries }).Ok := by
  suffices ∀ r : DrvRun, r.Ok → (ops.foldl DrvRun.step r).Ok by
    apply this
    exact ⟨⟨rfl, rfl, Nat.le_refl 0, Nat.zero_le _, nofun⟩, rfl⟩
  induction ops with
  | nil => exact fun _ h => h
  | cons op ops ih => exact fun r h => ih _ (h.step op)

/-- The commands given out are the first of those taken in, in their order, and what the queue does
next depends on the others alone. -/
theorem drvqueue_fifo (entries : Nat → DrvQueueEntry) (ops : List DrvOp) :
    let r := ops.foldl DrvRun.step { queue := drvqueueInit entries }
    ∃ outstanding, r.pushed = r.popped ++ outstanding ∧
      drvqueuePending r.queue = outstanding.length ∧
      (∀ e, drvqueuePush r.queue e = none ↔ outstanding.length = drvQueueSize) ∧
      (drvqueuePop r.queue).map Prod.fst = outstanding.head? := by
  intro r
  have h : r.Ok := DrvRun.ok entries ops
  have hle := h.holds.le
  refine ⟨r.pushed.drop r.popped.length, ?_, ?_, ?_, ?_⟩
  · have htake := List.take_append_drop r.popped.length r.pushed
    rw [← h.order] at htake
    exact htake.symm
  · rw [drvqueuePending_eq h.holds, List.length_drop]
    omega
  · intro e
    rw [List.length_drop]
    rcases drvqueuePush_cases h.holds e with ⟨hfull, hq⟩ | ⟨hlt, q, hq, -⟩
    · simp only [hq, true_iff]
      omega
    · simp only [hq, reduceCtorEq, false_iff]
      omega
  · rw [List.head?_drop]
    rcases drvqueuePop_cases h.holds with ⟨heq, hq⟩ | ⟨hlt, q, hq, -⟩
    · rw [hq, List.getElem?_eq_none (Nat.le_of_eq heq.symm)]
      rfl
    · rw [hq, List.getElem?_eq_getElem hlt]
      rfl

end Gergios.Kernel
