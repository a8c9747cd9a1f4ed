import Mathlib.Data.Nat.Bitwise
import Gergios.Lib.Bytes
import Gergios.Lib.Runs

/-!
# The root of an extent tree

The root lies in the 60 bytes of `i_block`: a header of 12 bytes and up to four entries of 12 bytes.
An extent holds a run of logical blocks. Arithmetic is that of a release build, where it wraps.
-/

namespace Gergios.Ext4

open Lib List Nat

inductive Ext4Error where
  | invalidMagic
  | unsupportedIncompat (flags : UInt32)
  | unsupportedRoCompat (flags : UInt32)
  | invalidBlockSize
  | invalidInodeSize
  | checksumMismatch
  | ioError
  | notFound
  | invalidExtentHeader
  | notAnExtentInode
  | readOnly
  | noSpace
  | extentTreeFull
  | invalidJournal
  | journalCorrupt
  | invalidXattr

abbrev Ext4Result (α : Type) := Except Ext4Error α

def extentMagic : UInt16 := 0xF30A

def extentsFl : UInt32 := 0x00080000

def inlineExtentsCount : Nat := 4

/-- `parse_superblock` rejects larger block sizes. -/
structure Superblock where
  sLogBlockSize : Nat
  sLogBlockSize_le : sLogBlockSize ≤ 16

instance : Inhabited Superblock := ⟨⟨0, Nat.zero_le 16⟩⟩

def Superblock.blockSize (sb : Superblock) : Nat := 1024 <<< sb.sLogBlockSize

structure ExtentHeader where
  ehMagic : UInt16
  ehEntries : UInt16
  ehMax : UInt16
  ehDepth : UInt16
  ehGeneration : UInt32

structure Extent where
  eeBlock : UInt32
  eeLen : UInt16
  eeStartHi : UInt16
  eeStartLo : UInt32
deriving DecidableEq

namespace Extent

variable (e : Extent)

def startBlock : UInt64 := e.eeStartLo.toUInt64 ||| (e.eeStartHi.toUInt64 <<< 32)

/-- `ee_len` as an `i16`, negated and widened to a `u32`, when its high bit is set. -/
def blockCount : UInt32 :=
  if e.eeLen &&& 0x8000 != 0 then ⟨(-e.eeLen.toBitVec).signExtend 32⟩ else e.eeLen.toUInt32

def isUninit : Bool := e.eeLen &&& 0x8000 != 0

def run : Run := ⟨e.eeBlock.toNat, e.blockCount.toNat, e.startBlock.toNat⟩

end Extent

abbrev IBlock := { b : List UInt8 // b.length = 60 }

structure Inode where
  iFlags : UInt32
  iSizeLo : UInt32
  iSizeHi : UInt32
  iBlocksLo : UInt32
  iBlocksHi : UInt32
  iAtime : UInt32
  iCtime : UInt32
  iMtime : UInt32
  iBlock : IBlock

def headerAt (b : List UInt8) : ExtentHeader :=
  ⟨u16At b 0, u16At b 2, u16At b 4, u16At b 6, u32At b 8⟩

def extentAt (b : List UInt8) (off : Nat) : Extent :=
  ⟨u32At b off, u16At b (off + 4), u16At b (off + 6), u32At b (off + 8)⟩

namespace Inode

variable (s : Inode)

def hasExtents : Bool := s.iFlags &&& extentsFl != 0

def fileSize : UInt64 := s.iSizeLo.toUInt64 ||| (s.iSizeHi.toUInt64 <<< 32)

def blocksCount : UInt64 := s.iBlocksLo.toUInt64 ||| (s.iBlocksHi.toUInt64 <<< 32)

def extentHeader : Option ExtentHeader :=
  if s.hasExtents then some (headerAt s.iBlock.1) else none

def setFileSize (size : UInt64) : Inode :=
  { s with iSizeLo := size.toUInt32, iSizeHi := (size >>> 32).toUInt32 }

def setBlocksCount (count : UInt64) : Inode :=
  { s with iBlocksLo := count.toUInt32, iBlocksHi := (count >>> 32).toUInt32 }

def updateTimestamps (ctime mtime atime : UInt32) : Inode :=
  { s with iCtime := ctime, iMtime := mtime, iAtime := atime }

end Inode

def headerBytes (h : ExtentHeader) : List UInt8 :=
  le16 h.ehMagic ++ le16 h.ehEntries ++ le16 h.ehMax ++ le16 h.ehDepth ++ le32 h.ehGeneration

def extentBytes (e : Extent) : List UInt8 :=
  le32 e.eeBlock ++ le16 e.eeLen ++ le16 e.eeStartHi ++ le32 e.eeStartLo

variable (b : List UInt8)

def serializeHeader (h : ExtentHeader) : List UInt8 :=
  if b.length < 12 then b else splice b 0 (headerBytes h)

def serializeExtent (off : Nat) (e : Extent) : List UInt8 :=
  if off + 12 > b.length then b else splice b off (extentBytes e)

def serializeExtents (b : List UInt8) : Nat → List Extent → List UInt8
  | _, [] => b
  | i, e :: w => serializeExtents (serializeExtent b (12 + i * 12) e) (i + 1) w

/-- The entries from `i` on, of `n` that are left; entries past the end of the block are ignored. -/
def deserializeFrom (b : List UInt8) (i : Nat) : Nat → List Extent
  | 0 => []
  | n + 1 =>
    if 12 + i * 12 + 12 > b.length then []
    else extentAt b (12 + i * 12) :: deserializeFrom b (i + 1) n

def deserializeExtents (h : ExtentHeader) : List Extent :=
  deserializeFrom b 0 h.ehEntries.toNat

@[simp]
theorem length_headerBytes (h : ExtentHeader) : (headerBytes h).length = 12 := rfl

@[simp]
theorem length_extentBytes (e : Extent) : (extentBytes e).length = 12 := rfl

theorem length_serializeHeader (h : ExtentHeader) : (serializeHeader b h).length = b.length := by
  rw [serializeHeader]
  split
  · rfl
  · exact length_splice (by rw [length_headerBytes]; omega)

theorem length_serializeExtent (off : Nat) (e : Extent) :
    (serializeExtent b off e).length = b.length := by
  rw [serializeExtent]
  split
  · rfl
  · exact length_splice (by rw [length_extentBytes]; omega)

theorem length_serializeExtents (i : Nat) (w : List Extent) :
    (serializeExtents b i w).length = b.length := by
  induction w generalizing b i with
  | nil => rfl
  | cons e w ih => rw [serializeExtents, ih, length_serializeExtent]

/-- The bytes of `i_block` that the updated extents are written to. -/
def serializeRoot (h : ExtentHeader) (w : List Extent) : IBlock :=
  ⟨serializeExtents (serializeHeader (replicate 60 0) h) 0 w, by
    rw [length_serializeExtents, length_serializeHeader, length_replicate]⟩

/-! ### The fields of an extent -/

theorem toNat_lo_or_hi (lo : UInt32) {hi : UInt64} (h : hi.toNat < 2 ^ 32) :
    (lo.toUInt64 ||| (hi <<< 32)).toNat = lo.toNat + 2 ^ 32 * hi.toNat := by
  have h32 : (32 : UInt64).toNat % 64 = 32 := rfl
  rw [UInt64.toNat_or, UInt64.toNat_shiftLeft, UInt32.toNat_toUInt64, h32,
    mod_eq_of_lt (by rw [shiftLeft_eq]; omega), Nat.or_comm,
    ← shiftLeft_add_eq_or_of_lt lo.toNat_lt]
  omega

theorem toNat_hi (v : UInt64) : (v >>> 32).toNat = v.toNat / 2 ^ 32 := by
  have h32 : (32 : UInt64).toNat % 64 = 32 := rfl
  rw [UInt64.toNat_shiftRight, h32, shiftRight_eq_div_pow]

theorem and_high (v : UInt16) : (v &&& 0x8000 != 0) = decide (2 ^ 15 ≤ v.toNat) := by
  have hlt := v.toNat_lt
  have hand : (v &&& 0x8000).toNat = (v.toNat.testBit 15).toNat * 2 ^ 15 :=
    (UInt16.toNat_and v 0x8000).trans (and_two_pow v.toNat 15)
  have hbit : v.toNat.testBit 15 = decide (2 ^ 15 ≤ v.toNat) := by
    rw [testBit_eq_decide_div_mod_eq, decide_eq_decide]
    omega
  rw [hbit] at hand
  rw [Bool.eq_iff_iff, bne_iff_ne, ne_eq, ← UInt16.toNat_inj, hand]
  by_cases h : 2 ^ 15 ≤ v.toNat <;> simp

theorem and_low {v : UInt16} (h : v.toNat < 2 ^ 15) : v &&& 0x7FFF = v := by
  have hand : (v &&& 0x7FFF).toNat = v.toNat % 2 ^ 15 :=
    (UInt16.toNat_and v 0x7FFF).trans (and_two_pow_sub_one_eq_mod v.toNat 15)
  rw [← UInt16.toNat_inj, hand, mod_eq_of_lt h]

/-- The number of blocks that a value of `ee_len` stands for. -/
def stored (n : Nat) : Nat :=
  if n < 2 ^ 15 then n else if n = 2 ^ 15 then 2 ^ 32 - 2 ^ 15 else 2 ^ 16 - n

namespace Extent

theorem toNat_startBlock (e : Extent) :
    e.startBlock.toNat = e.eeStartLo.toNat + 2 ^ 32 * e.eeStartHi.toNat := by
  have hhi := e.eeStartHi.toNat_lt
  rw [startBlock, toNat_lo_or_hi _ (by rw [UInt16.toNat_toUInt64]; omega), UInt16.toNat_toUInt64]

theorem run_val_lt (e : Extent) : e.run.val < 2 ^ 48 := by
  have hlo := e.eeStartLo.toNat_lt
  have hhi := e.eeStartHi.toNat_lt
  have hval : e.run.val = e.eeStartLo.toNat + 2 ^ 32 * e.eeStartHi.toNat := e.toNat_startBlock
  omega

theorem toNat_blockCount (e : Extent) : e.blockCount.toNat = stored e.eeLen.toNat := by
  rw [blockCount, and_high, stored]
  rcases Nat.lt_or_ge e.eeLen.toNat (2 ^ 15) with h | h
  · rw [if_neg (by simpa using h), if_pos h, UInt16.toNat_toUInt32]
  · have hneg : ((-e.eeLen.toBitVec).signExtend 32).toNat =
        if e.eeLen.toNat = 2 ^ 15 then 2 ^ 32 - 2 ^ 15 else 2 ^ 16 - e.eeLen.toNat := by
      rw [BitVec.toNat_signExtend, BitVec.msb_eq_decide, BitVec.toNat_setWidth, BitVec.toNat_neg,
        UInt16.toNat_toBitVec]
      simp only [decide_eq_true_eq]
      split <;> split <;> omega
    rw [if_pos (by simpa using h), if_neg (by omega)]
    exact hneg

end Extent

variable {b : List UInt8} {off i k : Nat} {e : Extent} {w : List Extent}

/-! ### Reading back what was written -/

theorem getD_serializeExtent (hk : k < off) : (serializeExtent b off e).getD k 0 = b.getD k 0 := by
  rw [serializeExtent]
  split
  · rfl
  · rw [getD_splice (by rw [length_extentBytes]; omega), if_neg (by omega)]

theorem getD_serializeExtents (hk : k < 12 + i * 12) :
    (serializeExtents b i w).getD k 0 = b.getD k 0 := by
  induction w generalizing b i with
  | nil => rfl
  | cons e w ih => rw [serializeExtents, ih (by omega), getD_serializeExtent hk]

theorem headerAt_eq {h : ExtentHeader} (hs : Stands b 0 (headerBytes h)) : headerAt b = h := by
  obtain ⟨hs, h4⟩ := hs.of_append
  obtain ⟨hs, h3⟩ := hs.of_append
  obtain ⟨hs, h2⟩ := hs.of_append
  obtain ⟨h0, h1⟩ := hs.of_append
  have h1 : u16At b 2 = h.ehEntries := h1.u16At
  have h2 : u16At b 4 = h.ehMax := h2.u16At
  have h3 : u16At b 6 = h.ehDepth := h3.u16At
  have h4 : u32At b 8 = h.ehGeneration := h4.u32At
  rw [headerAt, h0.u16At, h1, h2, h3, h4]

theorem extentAt_eq (hs : Stands b off (extentBytes e)) : extentAt b off = e := by
  obtain ⟨hs, h3⟩ := hs.of_append
  obtain ⟨hs, h2⟩ := hs.of_append
  obtain ⟨h0, h1⟩ := hs.of_append
  have h1 : u16At b (off + 4) = e.eeLen := h1.u16At
  have h2 : u16At b (off + 6) = e.eeStartHi := h2.u16At
  have h3 : u32At b (off + 8) = e.eeStartLo := h3.u32At
  rw [extentAt, h0.u32At, h1, h2, h3]

theorem headerAt_serializeRoot (h : ExtentHeader) (w : List Extent) :
    headerAt (serializeRoot h w).1 = h := by
  refine headerAt_eq fun k hk => ?_
  rw [length_headerBytes] at hk
  rw [serializeRoot, getD_serializeExtents (by omega)]
  exact stands_splice (by simp) k (by rwa [length_headerBytes])

theorem extentAt_serializeExtents (h : 12 + i * 12 + 12 ≤ b.length) :
    extentAt (serializeExtents b i (e :: w)) (12 + i * 12) = e := by
  refine extentAt_eq fun k hk => ?_
  rw [length_extentBytes] at hk
  rw [serializeExtents, getD_serializeExtents (by omega), serializeExtent, if_neg (by omega)]
  exact stands_splice (by rwa [length_extentBytes]) k (by rwa [length_extentBytes])

theorem deserializeFrom_serializeExtents (hb : b.length = 60) :
    deserializeFrom (serializeExtents b i w) i w.length = w.take (4 - i) := by
  induction w generalizing b i with
  | nil => simp [deserializeFrom]
  | cons e w ih =>
    rw [length_cons, deserializeFrom, length_serializeExtents]
    split
    · rw [show 4 - i = 0 by omega, take_zero]
    · rw [extentAt_serializeExtents (by omega), serializeExtents,
        ih (by rw [length_serializeExtent, hb]), show 4 - i = 4 - (i + 1) + 1 by omega,
        take_succ_cons]

theorem deserializeExtents_serializeRoot {h : ExtentHeader} (hw : h.ehEntries.toNat = w.length) :
    deserializeExtents (serializeRoot h w).1 h = w.take inlineExtentsCount := by
  rw [deserializeExtents, hw]
  exact deserializeFrom_serializeExtents (by rw [length_serializeHeader, length_replicate])

end Gergios.Ext4
