import Mathlib.Data.List.Induction
import Mathlib.Data.List.InsertIdx
import Gergios.Ext4.Lookup

/-!
# Inserting an extent into the root

The extents that overlap the new range are cut, the new extent joins the first one it continues
or precedes, and only when there is none does it take an entry of its own.
-/

namespace Gergios.Ext4

open Lib List

section Model

variable {σ : Type}

def getInode : EStateM Stop (Inode × σ) Inode := fun q => .ok q.1 q

def setInode (s : Inode) : EStateM Stop (Inode × σ) Unit := fun q => .ok () (s, q.2)

def onWorld {α : Type} (m : EStateM Stop σ α) : EStateM Stop (Inode × σ) α := fun q =>
  match m q.2 with
  | .ok a x => .ok a (q.1, x)
  | .error e x => .error e (q.1, x)

def mkExtent (block : UInt32) (len : UInt16) (phys : UInt64) : Extent :=
  ⟨block, len, (phys >>> 32).toUInt16, phys.toUInt32⟩

/-- The part of `ext` before the new range; it counts as initialized. -/
def leftPart (newStart : Nat) (ext : Extent) : Extent :=
  { ext with eeLen := .ofNat (newStart - ext.eeBlock.toNat) }

def rightPart (newEnd : Nat) (ext : Extent) : Extent :=
  mkExtent (.ofNat newEnd) (.ofNat (ext.eeBlock.toNat + ext.blockCount.toNat - newEnd))
    (ext.startBlock + .ofNat (newEnd - ext.eeBlock.toNat))

def splitAt (newStart newEnd : Nat) (extents : List Extent) (i : Nat) : List Extent :=
  match extents[i]? with
  | none => extents
  | some ext =>
    let extStart := ext.eeBlock.toNat
    let extEnd := extStart + ext.blockCount.toNat
    if newStart < extEnd ∧ newEnd > extStart then
      let extents := extents.eraseIdx i
      let extents :=
        if extStart < newStart then extents.insertIdx i (leftPart newStart ext) else extents
      if newEnd < extEnd then
        extents.insertIdx (if extStart < newStart then i + 1 else i) (rightPart newEnd ext)
      else extents
    else extents

def splitOverlaps (newStart newEnd : Nat) : Nat → List Extent → List Extent
  | 0, extents => extents
  | i + 1, extents => splitOverlaps newStart newEnd i (splitAt newStart newEnd extents i)

/-- `none` when the new extent joins no other. -/
def mergeNew (logical : UInt32) (phys : UInt64) (count : UInt16) :
    List Extent → Option (List Extent)
  | [] => none
  | ext :: extents =>
    let extStart := ext.eeBlock.toNat
    let extCount := ext.blockCount.toNat
    if extStart + extCount = logical.toNat ∧ ext.startBlock.toNat + extCount = phys.toNat then
      some ({ ext with eeLen := .ofNat (extCount + count.toNat) } :: extents)
    else if logical.toNat + count.toNat = extStart ∧ phys + count.toUInt64 = ext.startBlock then
      some (mkExtent logical (.ofNat (count.toNat + extCount)) phys :: extents)
    else (mergeNew logical phys count extents).map (ext :: ·)

/-- `pos` is the position so far, `j` the index of the first entry left. -/
def insertPos (logical : UInt32) (j pos : Nat) : List Extent → Nat
  | [] => pos
  | ext :: extents =>
    insertPos logical (j + 1) (if logical > ext.eeBlock then j + 1 else pos) extents

def insertNew (logical : UInt32) (phys : UInt64) (count : UInt16) (extents : List Extent) :
    Ext4Result (List Extent) :=
  let newStart := logical.toNat
  let extents := splitOverlaps newStart (newStart + count.toNat) extents.length extents
  match mergeNew logical phys count extents with
  | some extents => .ok extents
  | none =>
    if extents.length ≥ inlineExtentsCount then .error .extentTreeFull
    else
      .ok (extents.insertIdx (insertPos logical 0 extents.length extents)
        (mkExtent logical (count &&& 0x7FFF) phys))

def Inode.setExtents (s : Inode) (extents : List Extent) : Inode :=
  { s with
    iBlock := serializeRoot ⟨extentMagic, .ofNat extents.length, s.header.ehMax, 0, 0⟩ extents }

def extentInsert (logical : UInt32) (phys : UInt64) (count : UInt16)
    (writeInode : Inode → EStateM Stop σ Unit) : EStateM Stop (Inode × σ) Unit := do
  let s ← getInode
  match s.extentHeader with
  | none => throw (.err .notAnExtentInode)
  | some header =>
    if header.ehMagic ≠ extentMagic then throw (.err .invalidExtentHeader)
    if header.ehDepth ≠ 0 then throw (.err .extentTreeFull)
    let extents ← lift (insertNew logical phys count (deserializeExtents s.iBlock.1 header))
    let s := s.setExtents extents
    setInode s
    onWorld (writeInode s)

end Model

theorem toNat_startBlock_mkExtent (block : UInt32) (len : UInt16) (phys : UInt64) :
    (mkExtent block len phys).startBlock.toNat = phys.toNat % 2 ^ 48 := by
  rw [Extent.toNat_startBlock, mkExtent, UInt64.toNat_toUInt32, UInt64.toNat_toUInt16, toNat_hi]
  omega

theorem run_mkExtent (block : UInt32) (len : UInt16) (phys : UInt64) :
    (mkExtent block len phys).run = ⟨block.toNat, stored len.toNat, phys.toNat % 2 ^ 48⟩ := by
  rw [Extent.run, toNat_startBlock_mkExtent, Extent.toNat_blockCount]
  rfl

def parts (newStart newEnd : Nat) (ext : Extent) : List Extent :=
  if newStart < ext.run.stop ∧ ext.run.start < newEnd then
    (if ext.run.start < newStart then [leftPart newStart ext] else []) ++
      (if newEnd < ext.run.stop then [rightPart newEnd ext] else [])
  else [ext]

variable {a b : Nat} {e : Extent}

theorem insertIdx_length_append {α : Type} (u v : List α) (x : α) :
    (u ++ v).insertIdx u.length x = u ++ x :: v := by
  induction u with
  | nil => rfl
  | cons y u ih => rw [cons_append, length_cons, insertIdx_succ_cons, ih]; rfl

theorem splitAt_eq (u v : List Extent) :
    splitAt a b (u ++ e :: v) u.length = u ++ parts a b e ++ v := by
  have hget : (u ++ e :: v)[u.length]? = some e := by simp
  have herase : (u ++ e :: v).eraseIdx u.length = u ++ v := by
    simp [eraseIdx_append_of_length_le]
  have hone := insertIdx_length_append u v
  have htwo : ∀ x y, (u ++ x :: v).insertIdx (u.length + 1) y = u ++ x :: y :: v := by
    intro x y
    simpa using insertIdx_length_append (u ++ [x]) v y
  simp only [splitAt, hget, parts, Extent.run, Run.stop, gt_iff_lt]
  split_ifs <;> simp [*]

theorem splitOverlaps_append (u v : List Extent) :
    splitOverlaps a b u.length (u ++ v) = u.flatMap (parts a b) ++ v := by
  induction u using reverseRecOn generalizing v with
  | nil => rfl
  | append_singleton u e ih =>
    rw [length_append, length_singleton, splitOverlaps, append_assoc,
      singleton_append, splitAt_eq, append_assoc, ih, flatMap_append,
      flatMap_singleton, append_assoc]

theorem splitOverlaps_eq (w : List Extent) :
    splitOverlaps a b w.length w = w.flatMap (parts a b) := by
  simpa using splitOverlaps_append w []

structure Legal (r : Run) : Prop where
  pos : 0 < r.len
  len_lt : r.len < 2 ^ 15
  stop_le : r.stop ≤ 2 ^ 32
  val_le : r.val + r.len ≤ 2 ^ 48

theorem stored_of_lt {n : Nat} (h : n < 2 ^ 15) : stored n = n := if_pos h

theorem run_leftPart (he : Legal e.run) (ha : e.run.start < a) (hae : a < e.run.stop) :
    (leftPart a e).run = ⟨e.run.start, a - e.run.start, e.run.val⟩ := by
  have hlen : (UInt16.ofNat (a - e.run.start)).toNat = a - e.run.start := by
    rw [UInt16.toNat_ofNat']
    have := he.len_lt
    simp only [Run.stop] at *
    omega
  have hlt : a - e.run.start < 2 ^ 15 := by
    have := he.len_lt
    simp only [Run.stop] at *
    omega
  have hcount : (leftPart a e).blockCount.toNat = a - e.run.start := by
    rw [Extent.toNat_blockCount]
    exact (congrArg stored hlen).trans (stored_of_lt hlt)
  rw [Extent.run, hcount]
  rfl

theorem run_rightPart (he : Legal e.run) (hb : e.run.start < b) (hbe : b < e.run.stop) :
    (rightPart b e).run = ⟨b, e.run.stop - b, e.run.valueAt b⟩ := by
  obtain ⟨hpos, hlen, hstop, hval⟩ := he
  have hblock : (UInt32.ofNat b).toNat = b := by
    rw [UInt32.toNat_ofNat']
    omega
  have hcount : (UInt16.ofNat (e.run.stop - b)).toNat = e.run.stop - b := by
    rw [UInt16.toNat_ofNat']
    simp only [Run.stop] at *
    omega
  have hphys : (e.startBlock + .ofNat (b - e.run.start)).toNat = e.run.valueAt b := by
    have hrun : e.startBlock.toNat = e.run.val := rfl
    rw [UInt64.toNat_add, UInt64.toNat_ofNat', Run.valueAt]
    omega
  have hmk : rightPart b e =
      mkExtent (.ofNat b) (.ofNat (e.run.stop - b)) (e.startBlock + .ofNat (b - e.run.start)) := rfl
  rw [hmk, run_mkExtent, hblock, hcount, hphys, stored_of_lt, Nat.mod_eq_of_lt]
  · simp only [Run.valueAt, Run.stop] at *
    omega
  · simp only [Run.stop] at *
    omega

theorem map_run_parts (he : Legal e.run) (hab : a < b) :
    (parts a b e).map Extent.run = e.run.cut a b := by
  rw [parts]
  split
  · rename_i hover
    rw [Run.cut, Run.below, Run.above, map_append]
    congr 1
    · split
      · rename_i hlt
        rw [map_singleton, run_leftPart he hlt hover.1, Nat.min_eq_right (by omega)]
      · rfl
    · split
      · rename_i hlt
        rw [map_singleton, run_rightPart he hover.2 hlt, Nat.max_eq_right (by omega)]
      · rfl
  · rw [Run.cut_of_beside (by omega) he.pos (by omega), map_singleton]

end Gergios.Ext4
