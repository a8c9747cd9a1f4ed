import Mathlib.Data.List.Nodup
import Gergios.Ext4.InsertMap

/-!
# Truncating a file

The extents are visited in order. What lies beyond the new size is passed to `free_blocks`, and
the inode gets the extents that are left once every call of it has been accepted.
-/

namespace Gergios.Ext4

open Lib List UInt32

section Model

variable {σ : Type}

/-- The loop over the extents; `newBlocks` is `new_logical_blocks`. -/
def truncateLoop (newBlocks : Nat) (freeBlocks : UInt64 → UInt32 → EStateM Stop σ Unit) :
    List Extent → EStateM Stop σ (List Extent)
  | [] => pure []
  | ext :: extents => do
    let extStart := ext.eeBlock.toNat
    let extEnd := extStart + ext.blockCount.toNat
    if extStart ≥ newBlocks then
      freeBlocks ext.startBlock ext.blockCount
      truncateLoop newBlocks freeBlocks extents
    else if extEnd > newBlocks then
      let blocksToKeep : UInt32 := .ofNat (newBlocks - extStart)
      let blocksToFree := ext.blockCount - blocksToKeep
      if blocksToFree > 0 then
        freeBlocks (ext.startBlock + blocksToKeep.toUInt64) blocksToFree
      let rest ← truncateLoop newBlocks freeBlocks extents
      pure ({ ext with eeLen := blocksToKeep.toUInt16 } :: rest)
    else
      let rest ← truncateLoop newBlocks freeBlocks extents
      pure (ext :: rest)

/-- `(new_size + block_size - 1) / block_size` in 64 bits. -/
def newLogicalBlocks (sb : Superblock) (newSize : UInt64) : UInt64 :=
  (newSize + .ofNat sb.blockSize - 1) / .ofNat sb.blockSize

def extentTruncate (sb : Superblock) (newSize : UInt64)
    (freeBlocks : UInt64 → UInt32 → EStateM Stop σ Unit)
    (writeInode : Inode → EStateM Stop σ Unit) : EStateM Stop (Inode × σ) Unit := do
  let s ← getInode
  match s.extentHeader with
  | none => throw (.err .notAnExtentInode)
  | some header =>
    if header.ehMagic ≠ extentMagic then throw (.err .invalidExtentHeader)
    if header.ehDepth ≠ 0 then throw (.err .extentTreeFull)
    let extents ← onWorld (truncateLoop (newLogicalBlocks sb newSize).toNat freeBlocks
      (deserializeExtents s.iBlock.1 header))
    let s := (s.setExtents extents).setFileSize newSize
    setInode s
    onWorld (writeInode s)

/-- The calls of `free_blocks` so far, with the first physical block and the number of blocks. -/
abbrev Calls := List (UInt64 × UInt32)

/-- A `free_blocks` that answers its calls as given. -/
def freeBlocksCb (answer : Nat → Ext4Result Unit) (phys : UInt64) (count : UInt32) :
    EStateM Stop Calls Unit := fun calls =>
  match answer calls.length with
  | .ok _ => .ok () (calls ++ [(phys, count)])
  | .error e => .error (.err e) (calls ++ [(phys, count)])

end Model

/-! ### One extent -/

def keptPart (n : Nat) (e : Extent) : List Extent :=
  if n ≤ e.run.start then []
  else if n < e.run.stop then
    [{ e with eeLen := (ofNat (n - e.run.start)).toUInt16 }]
  else [e]

def freedPart (n : Nat) (e : Extent) : Calls :=
  if n ≤ e.run.start then [(e.startBlock, e.blockCount)]
  else if n < e.run.stop then
    [(e.startBlock + (ofNat (n - e.run.start)).toUInt64, e.blockCount - .ofNat (n - e.run.start))]
  else []

def callRun (c : UInt64 × UInt32) : Nat × Nat := (c.1.toNat, c.2.toNat)

variable {e : Extent} {n : Nat}

section

variable (hlen : e.run.len < 2 ^ 15) (h2 : n < e.run.stop)
include hlen h2

theorem toNat_keep : (ofNat (n - e.run.start)).toNat = n - e.run.start := by
  rw [toNat_ofNat']
  simp only [Run.stop] at h2
  omega

theorem toNat_free (h1 : e.run.start < n) :
    (e.blockCount - .ofNat (n - e.run.start)).toNat = e.run.stop - n := by
  have hkeep := toNat_keep hlen h2
  have hcount : e.blockCount.toNat = e.run.len := rfl
  rw [UInt32.toNat_sub_of_le, hkeep, Run.stop]
  · omega
  · rw [le_iff_toNat_le]
    simp only [Run.stop] at h2
    omega

end

theorem map_run_keptPart (hpos : 0 < e.run.len) (hlen : e.run.len < 2 ^ 15) :
    (keptPart n e).map Extent.run = e.run.below n := by
  rw [keptPart, Run.below]
  rcases Nat.lt_or_ge e.run.start n with h1 | h1
  · rw [if_neg (by omega), if_pos h1]
    rcases Nat.lt_or_ge n e.run.stop with h2 | h2
    · have hlt : n - e.run.start < 2 ^ 15 := by
        simp only [Run.stop] at h2
        omega
      rw [if_pos h2, map_singleton, toUInt16_ofNat', run_withLen (by omega), held,
        stored_of_lt hlt, Nat.min_eq_right (Nat.le_of_lt h2)]
    · rw [if_neg (by omega), map_singleton, Nat.min_eq_left h2, Run.stop,
        Nat.add_sub_cancel_left]
  · rw [if_pos h1, if_neg (by omega), map_nil]

theorem map_freedPart (hpos : 0 < e.run.len) (hlen : e.run.len < 2 ^ 15) :
    (freedPart n e).map callRun = (e.run.above n).map fun r => (r.val, r.len) := by
  rw [freedPart, Run.above]
  rcases Nat.lt_or_ge e.run.start n with h1 | h1
  · rw [if_neg (by omega)]
    rcases Nat.lt_or_ge n e.run.stop with h2 | h2
    · have hphys : e.startBlock.toNat = e.run.val := rfl
      have hval := e.run_val_lt
      have hsum : (e.startBlock + (ofNat (n - e.run.start)).toUInt64).toNat = e.run.valueAt n := by
        rw [UInt64.toNat_add, toNat_toUInt64, toNat_keep hlen h2, Run.valueAt]
        simp only [Run.stop] at h2
        omega
      rw [if_pos h2, if_pos h2, Nat.max_eq_right (Nat.le_of_lt h1), map_singleton,
        map_singleton, callRun, hsum, toNat_free hlen h2 h1]
    · rw [if_neg (by omega), if_neg (by omega)]
      rfl
  · rw [if_pos h1, if_pos (by simp only [Run.stop]; omega), Nat.max_eq_left h1, Run.stop,
      Nat.add_sub_cancel_left, Run.valueAt, Nat.sub_self]
    rfl

/-! ### The loop -/

section Loop

variable {σ : Type} (freeBlocks : UInt64 → UInt32 → EStateM Stop σ Unit)

def callAll : Calls → EStateM Stop σ Unit
  | [] => pure ()
  | c :: calls => do
    freeBlocks c.1 c.2
    callAll calls

theorem callAll_append (F G : Calls) :
    callAll freeBlocks (F ++ G) = (do callAll freeBlocks F; callAll freeBlocks G) := by
  induction F with
  | nil => simp [callAll]
  | cons c F ih => simp [callAll, ih]

theorem truncateLoop_cons (hlen : e.run.len < 2 ^ 15) (W : List Extent) :
    truncateLoop n freeBlocks (e :: W) = (do
      callAll freeBlocks (freedPart n e)
      let rest ← truncateLoop n freeBlocks W
      pure (keptPart n e ++ rest)) := by
  have hstart : e.eeBlock.toNat = e.run.start := rfl
  have hstop : e.run.start + e.blockCount.toNat = e.run.stop := rfl
  simp only [truncateLoop, hstart, hstop, freedPart, keptPart]
  split
  · simp [callAll]
  split
  · rename_i h1 h2
    have hpos : (0 : UInt32) < e.blockCount - .ofNat (n - e.run.start) := by
      rw [lt_iff_toNat_lt, toNat_free hlen h2 (by omega), UInt32.toNat_zero]
      omega
    rw [if_pos hpos]
    simp [callAll]
  · simp [callAll]

theorem truncateLoop_eq (W : List Extent) (hlen : ∀ e ∈ W, e.run.len < 2 ^ 15) :
    truncateLoop n freeBlocks W = (do
      callAll freeBlocks (W.flatMap (freedPart n))
      pure (W.flatMap (keptPart n))) := by
  induction W with
  | nil => simp [truncateLoop, callAll]
  | cons e W ih =>
    obtain ⟨he, hW⟩ := forall_mem_cons.mp hlen
    rw [truncateLoop_cons freeBlocks he, ih hW, flatMap_cons, callAll_append]
    simp

end Loop

theorem callAll_cases (answer : Nat → Ext4Result Unit) (F calls : Calls) :
    ((∀ k < F.length, answer (calls.length + k) = .ok ()) ∧
      callAll (freeBlocksCb answer) F calls = .ok () (calls ++ F)) ∨
    ∃ j < F.length, (∀ k < j, answer (calls.length + k) = .ok ()) ∧
      ∃ x, answer (calls.length + j) = .error x ∧
        callAll (freeBlocksCb answer) F calls = .error (.err x) (calls ++ F.take (j + 1)) := by
  induction F generalizing calls with
  | nil => exact .inl ⟨by simp, by simp [callAll]; rfl⟩
  | cons c F ih =>
    cases hans : answer calls.length with
    | error x =>
      refine .inr ⟨0, by simp, by simp, x, hans, ?_⟩
      simp [callAll, freeBlocksCb, bind, EStateM.bind, hans]
    | ok u =>
      have hcall : callAll (freeBlocksCb answer) (c :: F) calls =
          callAll (freeBlocksCb answer) F (calls ++ [c]) := by
        simp [callAll, freeBlocksCb, bind, EStateM.bind, hans]
      have hlater : ∀ k, (calls ++ [c]).length + k = calls.length + (k + 1) := by
        intro k
        rw [length_append, length_singleton]
        omega
      rw [hcall]
      rcases ih (calls ++ [c]) with ⟨hall, heq⟩ | ⟨j, hj, hall, x, hx, heq⟩
      · refine .inl ⟨?_, by rw [heq, append_assoc]; rfl⟩
        intro k hk
        cases k with
        | zero => exact hans
        | succ k => exact hlater k ▸ hall k (Nat.lt_of_succ_lt_succ hk)
      · refine .inr ⟨j + 1, Nat.succ_lt_succ hj, ?_, x, hlater j ▸ hx,
          by rw [heq, append_assoc]; rfl⟩
        intro k hk
        cases k with
        | zero => exact hans
        | succ k => exact hlater k ▸ hall k (Nat.lt_of_succ_lt_succ hk)

end Gergios.Ext4
