import Gergios.Ext4.Device
import Gergios.Ext4.TruncateMap

/-!
# Reading and writing a file

A read copies from the blocks that are mapped and fills holes with zeros. A write goes through the
blocks of its range one by one: a mapped block is read, changed and written back, a hole gets a new
block.
-/

namespace Gergios.Ext4

open Lib List Nat

section Read

variable {σ : Type} (readBlock : Nat → EStateM Stop σ (List UInt8))

/-- The blocks from `lb` on, `k` of them. -/
def readLoop (s : Inode) (bs offset stop startBlock endBlock : Nat) :
    Nat → Nat → EStateM Stop σ (List UInt8)
  | _, 0 => pure []
  | lb, k + 1 => do
    let inBlockOff := if lb = startBlock then offset % bs else 0
    let inBlockEnd := if lb = endBlock - 1 then (stop - 1) % bs + 1 else bs
    let copyLen := inBlockEnd - inBlockOff
    let bytes ← match ← extentLookup s lb readBlock with
      | some pbn => do
        let blockBuf ← readBlock pbn
        pure ((blockBuf.drop inBlockOff).take copyLen)
      | none => pure (replicate copyLen 0)
    let rest ← readLoop s bs offset stop startBlock endBlock (lb + 1) k
    pure (bytes ++ rest)

/-- The bytes that are put into a buffer of length `len`. -/
def extentRead (sb : Superblock) (s : Inode) (offset len : Nat) : EStateM Stop σ (List UInt8) :=
  let fileSize := s.fileSize.toNat
  if offset ≥ fileSize then pure []
  else
    let bs := sb.blockSize
    let stop := min ((offset + len) % 2 ^ 64) fileSize
    let startBlock := offset / bs
    let endBlock := (stop + bs - 1) % 2 ^ 64 / bs
    readLoop readBlock s bs offset stop startBlock endBlock startBlock (endBlock - startBlock)

end Read

section Write

variable (sb : Superblock) (env : Env) (offset : Nat) (buf : List UInt8)

def endOffset : Nat := (offset + buf.length) % 2 ^ 64

def endBlock : Nat := (endOffset offset buf + sb.blockSize - 1) % 2 ^ 64 / sb.blockSize

def inBlockOff (lb : Nat) : Nat :=
  if lb = offset / sb.blockSize then offset - lb * sb.blockSize else 0

def inBlockEnd (lb : Nat) : Nat :=
  if lb = endBlock sb offset buf - 1 then endOffset offset buf - lb * sb.blockSize
  else sb.blockSize

/-- The bytes for a block, of which `total` have been written before. -/
def slice (lb total : Nat) : List UInt8 :=
  (buf.drop total).take (inBlockEnd sb offset buf lb - inBlockOff sb offset lb)

/-- One round of the loop; the result is `copy_len`. -/
def blockStep (lb total : Nat) : EStateM Stop (Inode × World) Nat := do
  let s ← getInode
  match ← onWorld (extentLookup s lb env.readBlock) with
  | some pbn => do
    let blockBuf ← onWorld (env.readBlock pbn)
    onWorld (env.writeBlock pbn
      (splice blockBuf (inBlockOff sb offset lb) (slice sb offset buf lb total)))
  | none => do
    let newPhys ← onWorld env.allocBlock
    onWorld (env.writeBlock newPhys.toNat (splice (replicate sb.blockSize 0)
      (inBlockOff sb offset lb) (slice sb offset buf lb total)))
    extentInsert (.ofNat lb) newPhys 1 env.writeInode
    let s ← getInode
    setInode (s.setBlocksCount (s.blocksCount + .ofNat (sb.blockSize / 512)))
  pure (inBlockEnd sb offset buf lb - inBlockOff sb offset lb)

def writeLoop : Nat → Nat → Nat → EStateM Stop (Inode × World) Nat
  | _, 0, total => pure total
  | lb, k + 1, total => do
    let copyLen ← blockStep sb env offset buf lb total
    writeLoop (lb + 1) k (total + copyLen)

def extentWrite : EStateM Stop (Inode × World) Nat := do
  if buf = [] then return 0
  let s ← getInode
  let fileSize := s.fileSize.toNat
  let startBlock := offset / sb.blockSize
  let total ← writeLoop sb env offset buf startBlock (endBlock sb offset buf - startBlock) 0
  let s ← getInode
  let s :=
    if endOffset offset buf > fileSize then s.setFileSize (.ofNat (endOffset offset buf)) else s
  let s := s.updateTimestamps 0 0 0
  setInode s
  onWorld (env.writeInode s)
  return total

end Write

/-! ### The bytes that are read -/

def readFrom (dev : Nat → List UInt8) (pbn : Nat) : EStateM Stop Unit (List UInt8) :=
  pure (dev pbn)

def rawByte (sb : Superblock) (s : Inode) (dev : Nat → List UInt8) (o : Nat) : UInt8 :=
  match runFind s.runs (o / sb.blockSize) with
  | some pbn => (dev pbn).getD (o % sb.blockSize) 0
  | none => 0

section

variable {f : Nat → UInt8} {bs lb a c : Nat}

theorem slice_eq_map {blk : List UInt8} (hlen : blk.length = bs)
    (hf : ∀ i < bs, f (lb * bs + i) = blk.getD i 0) (h : a + c ≤ bs) :
    (blk.drop a).take c = (range' (lb * bs + a) c).map f := by
  apply ext_getElem
  · simp
    omega
  · intro i h1 h2
    simp only [length_map, length_range'] at h2
    simp only [getElem_take, getElem_drop, getElem_map, getElem_range']
    rw [Nat.one_mul, Nat.add_assoc, hf _ (by omega), getD_eq_getElem _ _ (by omega)]

theorem zeros_eq_map (hf : ∀ i < bs, f (lb * bs + i) = 0) (h : a + c ≤ bs) :
    replicate c 0 = (range' (lb * bs + a) c).map f := by
  apply ext_getElem
  · simp
  · intro i h1 h2
    simp only [length_map, length_range'] at h2
    simp only [getElem_replicate, getElem_map, getElem_range']
    rw [Nat.add_assoc, hf _ (by omega)]

end

variable {sb : Superblock} {s : Inode} {dev : Nat → List UInt8}

theorem rawByte_add (lb : Nat) {i : Nat} (hi : i < sb.blockSize) :
    rawByte sb s dev (lb * sb.blockSize + i) = match runFind s.runs lb with
      | some pbn => (dev pbn).getD i 0
      | none => 0 := by
  have hdiv : (lb * sb.blockSize + i) / sb.blockSize = lb := by
    rw [Nat.mul_comm, mul_add_div (by omega), div_eq_of_lt hi, Nat.add_zero]
  have hmod : (lb * sb.blockSize + i) % sb.blockSize = i := by
    rw [Nat.mul_comm, mul_add_mod, mod_eq_of_lt hi]
  rw [rawByte, hdiv, hmod]

/-! ### Positions in blocks -/

section Blocks

variable {bs off : Nat} (stop lb : Nat)

theorem lt_of_lt_ceil (hbs : 0 < bs) (h : lb < (stop + bs - 1) / bs) : lb * bs < stop := by
  have hle := (Nat.le_div_iff_mul_le hbs).mp h
  rw [succ_mul] at hle
  omega

theorem le_ceil_mul (hbs : 0 < bs) : stop ≤ (stop + bs - 1) / bs * bs := by
  have hlt := lt_div_mul_add (a := stop + bs - 1) hbs
  omega

theorem mul_add_first (hlb : off / bs ≤ lb) (hbs : 0 < bs) :
    lb * bs + (if lb = off / bs then off % bs else 0) = max off (lb * bs) ∧ off < lb * bs + bs := by
  rcases eq_or_lt_of_le hlb with rfl | hlt
  · rw [if_pos rfl, div_add_mod', Nat.max_eq_left (div_mul_le_self off bs)]
    exact ⟨rfl, lt_div_mul_add hbs⟩
  · have hoff := (Nat.div_lt_iff_lt_mul hbs).mp hlt
    rw [if_neg (Nat.ne_of_gt hlt), Nat.max_eq_right (Nat.le_of_lt hoff)]
    exact ⟨rfl, by omega⟩

theorem mul_add_last (hbs : 0 < bs) (hlb : lb < (stop + bs - 1) / bs) :
    lb * bs + (if lb = (stop + bs - 1) / bs - 1 then (stop - 1) % bs + 1 else bs) =
      min stop (lb * bs + bs) := by
  have hlt := lt_of_lt_ceil stop lb hbs hlb
  split
  · have hle : stop ≤ lb * bs + bs := by
      have := le_ceil_mul stop hbs
      rw [show (stop + bs - 1) / bs = lb + 1 by omega, succ_mul] at this
      exact this
    have hmod : (stop - 1) % bs = stop - 1 - lb * bs := by
      obtain ⟨r, hr⟩ : ∃ r, stop - 1 = bs * lb + r := ⟨stop - 1 - bs * lb, by
        rw [Nat.mul_comm bs]; omega⟩
      rw [hr, mul_add_mod, mod_eq_of_lt (by rw [Nat.mul_comm bs] at hr; omega),
        Nat.mul_comm bs]
      omega
    omega
  · have hnext := lt_of_lt_ceil stop (lb + 1) hbs (by omega)
    rw [succ_mul] at hnext
    rw [Nat.min_eq_right (by omega)]

end Blocks

theorem readLoop_eq (hs : IsLeaf s) (hdev : ∀ pbn, (dev pbn).length = sb.blockSize)
    {off stop e : Nat} (he : e = (stop + sb.blockSize - 1) / sb.blockSize) (lb k : Nat)
    (hk : lb + k = e) (hlb : off / sb.blockSize ≤ lb) :
    readLoop (readFrom dev) s sb.blockSize off stop (off / sb.blockSize) e lb k =
      pure ((range' (max off (lb * sb.blockSize)) (stop - max off (lb * sb.blockSize))).map
        (rawByte sb s dev)) := by
  have hbs : 0 < sb.blockSize := by
    have := sb.blockSize_bounds
    omega
  induction k generalizing lb with
  | zero =>
    have hle := le_ceil_mul stop hbs
    rw [← he, ← hk, Nat.add_zero] at hle
    rw [Nat.sub_eq_zero_of_le (by omega)]
    rfl
  | succ k ih =>
    obtain ⟨hfirst, hnext⟩ := mul_add_first lb hlb hbs
    have hlast := mul_add_last stop lb hbs (by omega)
    rw [← he] at hlast
    have hrest := ih (lb + 1) (by omega) (by omega)
    rw [succ_mul] at hrest
    rw [readLoop, extentLookup_eq hs, hrest]
    generalize (if lb = off / sb.blockSize then off % sb.blockSize else 0) = a at *
    generalize (if lb = e - 1 then (stop - 1) % sb.blockSize + 1 else sb.blockSize) = c at *
    have hjoin : range' (lb * sb.blockSize + a) (c - a) ++
        range' (max off (lb * sb.blockSize + sb.blockSize))
          (stop - max off (lb * sb.blockSize + sb.blockSize)) =
        range' (max off (lb * sb.blockSize)) (stop - max off (lb * sb.blockSize)) := by
      rw [hfirst, Nat.max_eq_right (Nat.le_of_lt hnext)]
      rcases Nat.lt_or_ge stop (lb * sb.blockSize + sb.blockSize) with hend | hend
      · rw [Nat.sub_eq_zero_of_le (Nat.le_of_lt hend), range'_zero, append_nil]
        congr 1
        omega
      · rw [show lb * sb.blockSize + sb.blockSize = max off (lb * sb.blockSize) + (c - a) by omega,
          range'_append_1]
        congr 1
        omega
    have hraw : ∀ i < sb.blockSize, rawByte sb s dev (lb * sb.blockSize + i) = _ :=
      fun i hi => rawByte_add lb hi
    simp only [pure_bind]
    cases hfind : runFind s.runs lb with
    | none =>
      simp only [hfind] at hraw
      simp only [zeros_eq_map (a := a) (c := c - a) hraw (by omega), ← map_append, hjoin]
    | some pbn =>
      simp only [hfind] at hraw
      simp only [readFrom, pure_bind, slice_eq_map (a := a) (c := c - a) (hdev pbn) hraw (by omega),
        ← map_append, hjoin]

theorem extentRead_eq (hs : IsLeaf s) (hdev : ∀ pbn, (dev pbn).length = sb.blockSize)
    {off n : Nat} (h : off + n + sb.blockSize ≤ 2 ^ 64) : extentRead (readFrom dev) sb s off n =
      pure ((range' off (min (off + n) s.fileSize.toNat - off)).map (rawByte sb s dev)) := by
  have hbs := sb.blockSize_bounds
  rw [extentRead]
  split
  · rw [Nat.sub_eq_zero_of_le (by omega)]
    rfl
  · have hle : off / sb.blockSize ≤
        (min (off + n) s.fileSize.toNat + sb.blockSize - 1) / sb.blockSize :=
      Nat.div_le_div_right (by omega)
    dsimp only
    rw [mod_eq_of_lt (by omega : off + n < 2 ^ 64), mod_eq_of_lt (by omega),
      readLoop_eq hs hdev rfl _ _ (Nat.add_sub_cancel' hle) (Nat.le_refl _),
      Nat.max_eq_left (div_mul_le_self ..)]

end Gergios.Ext4
