import Mathlib.Data.List.Basic
import Gergios.Ext4.Layout

/-!
# Looking a logical block up

The tree is walked from the root in the inode. Blocks of the device come from a callback, with the
state of the caller passed through it.
-/

namespace Gergios.Ext4

open Lib

inductive Stop where
  | err (e : Ext4Error)
  | panicked

section Model

variable {σ : Type}

def lift {α : Type} : Ext4Result α → EStateM Stop σ α
  | .ok a => pure a
  | .error e => throw (.err e)

/-- The entries from `i` on, of `n` that are left. -/
def lookupFrom (b : List UInt8) (lb i : Nat) : Nat → Option Nat
  | 0 => none
  | n + 1 =>
    if 12 + i * 12 + 12 > b.length then none
    else
      let extent := extentAt b (12 + i * 12)
      let startBlock := extent.eeBlock.toNat
      let endBlock := startBlock + extent.blockCount.toNat
      if startBlock ≤ lb ∧ lb < endBlock then some (extent.startBlock.toNat + (lb - startBlock))
      else lookupFrom b lb (i + 1) n

variable (b : List UInt8)

def lookupInLeaf (h : ExtentHeader) (lb : Nat) : Option Nat :=
  lookupFrom b lb 0 h.ehEntries.toNat

structure ExtentIdx where
  eiBlock : UInt32
  eiLeafLo : UInt32
  eiLeafHi : UInt16
  eiUnused : UInt16

def ExtentIdx.leafBlock (x : ExtentIdx) : UInt64 :=
  x.eiLeafLo.toUInt64 ||| (x.eiLeafHi.toUInt64 <<< 32)

def idxAt (off : Nat) : ExtentIdx :=
  ⟨u32At b off, u32At b (off + 4), u16At b (off + 8), u16At b (off + 10)⟩

/-- The loop of `find_index`; reading the next entry past the end of the block panics. -/
def findIndexFrom (b : List UInt8) (entries lb i : Nat) : Nat → Except Stop (Option ExtentIdx)
  | 0 => .ok none
  | n + 1 => do
    if 12 + i * 12 + 12 > b.length then .ok none
    else
      let idx := idxAt b (12 + i * 12)
      let nextBlock ←
        if i + 1 < entries then
          if 12 + (i + 1) * 12 + 4 > b.length then .error .panicked
          else .ok (u32At b (12 + (i + 1) * 12)).toNat
        else .ok 0xFFFFFFFF
      if idx.eiBlock.toNat ≤ lb ∧ lb < nextBlock then .ok (some idx)
      else findIndexFrom b entries lb (i + 1) n

def findIndex (h : ExtentHeader) (lb : Nat) : Except Stop ExtentIdx := do
  let entries := h.ehEntries.toNat
  match ← findIndexFrom b entries lb 0 entries with
  | some idx => .ok idx
  | none =>
    -- without entries the subtraction wraps, and the access is out of bounds
    if entries = 0 ∨ 12 + (entries - 1) * 12 + 12 > b.length then .error .panicked
    else .ok (idxAt b (12 + (entries - 1) * 12))

/-- The index nodes below the current one, `depth` of them and a leaf. -/
def walk (readBlock : Nat → EStateM Stop σ (List UInt8)) (lb : Nat) :
    Nat → List UInt8 → ExtentHeader → EStateM Stop σ (Option Nat)
  | depth, b, h => do
    let idx ← match findIndex b h lb with
      | .ok idx => pure idx
      | .error x => throw x
    let buf ← readBlock idx.leafBlock.toNat
    let next := headerAt buf
    if next.ehMagic ≠ extentMagic then throw (.err .invalidExtentHeader)
    match depth with
    | 0 => pure (lookupInLeaf buf next lb)
    | depth + 1 => walk readBlock lb depth buf next

def extentLookup (s : Inode) (lb : Nat) (readBlock : Nat → EStateM Stop σ (List UInt8)) :
    EStateM Stop σ (Option Nat) := do
  match s.extentHeader with
  | none => throw (.err .notAnExtentInode)
  | some header =>
    if header.ehMagic ≠ extentMagic then throw (.err .invalidExtentHeader)
    if header.ehEntries = 0 then return none
    match header.ehDepth.toNat with
    | 0 => pure (lookupInLeaf s.iBlock.1 header lb)
    | depth + 1 => walk readBlock lb depth s.iBlock.1 header

end Model

namespace Inode

def header (s : Inode) : ExtentHeader := headerAt s.iBlock.1

def extents (s : Inode) : List Extent := deserializeExtents s.iBlock.1 s.header

def runs (s : Inode) : List Run := s.extents.map Extent.run

end Inode

structure IsLeaf (s : Inode) : Prop where
  extents : s.hasExtents = true
  magic : s.header.ehMagic = extentMagic
  depth : s.header.ehDepth = 0

/-- At most four extents, in order, without overlaps and of lengths that an extent can have. -/
structure WellFormed (s : Inode) : Prop extends IsLeaf s where
  entries : s.header.ehEntries.toNat ≤ inlineExtentsCount
  ordered : Ordered s.runs
  lengths : ∀ r ∈ s.runs, 0 < r.len ∧ r.len < 2 ^ 15

def InRange (s : Inode) : Prop := ∀ r ∈ s.runs, r.stop ≤ 2 ^ 32 ∧ r.val + r.len ≤ 2 ^ 48

theorem lookupFrom_eq (b : List UInt8) (lb i n : Nat) :
    lookupFrom b lb i n = runFind ((deserializeFrom b i n).map Extent.run) lb := by
  induction n generalizing i with
  | zero => rfl
  | succ n ih =>
    rw [lookupFrom, deserializeFrom]
    split
    · rfl
    · rw [List.map_cons, runFind_cons, ← ih]
      rfl

section

variable {s : Inode}

theorem IsLeaf.extentHeader (h : IsLeaf s) : s.extentHeader = some s.header := by
  rw [Inode.extentHeader, if_pos h.extents]
  rfl

theorem extentLookup_eq {σ : Type} (h : IsLeaf s) (lb : Nat)
    (readBlock : Nat → EStateM Stop σ (List UInt8)) :
    extentLookup s lb readBlock = pure (runFind s.runs lb) := by
  rw [extentLookup, h.extentHeader]
  simp only [h.magic, h.depth]
  rcases eq_or_ne s.header.ehEntries 0 with h0 | h0
  · have hnil : s.runs = [] := by
      rw [Inode.runs, Inode.extents, deserializeExtents, h0]
      rfl
    rw [hnil, h0]
    rfl
  · have hleaf : lookupInLeaf s.iBlock.1 s.header lb = runFind s.runs lb := lookupFrom_eq ..
    simp only [h0, hleaf]
    rfl

end

end Gergios.Ext4
