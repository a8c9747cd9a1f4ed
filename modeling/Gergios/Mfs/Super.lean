import Gergios.Lib.Checked
import Gergios.Lib.WordMap
import Mathlib.Tactic.Ring

/-!
# The superblock and the zone bit map

Bit `b` of the zone map stands for zone `s_firstdatazone - 1 + b`; bit 0 is never free. A file
system that can be mounted has zones of one block.
-/

namespace Gergios.Mfs

open Lib Nat

/-- A superblock that `read_super` accepts, with a zone map as large as the number of zones asks. -/
structure Super where
  blockSize : Nat
  firstdatazone : Nat
  zones : Nat
  zmapBlocks : Nat
  rdOnly : Bool
  pageSize_le : 4096 ≤ blockSize
  blockSize_lt : blockSize < 2 ^ 16
  dvd_blockSize : 512 ∣ blockSize
  four_lt : 4 < firstdatazone
  firstdatazone_lt : firstdatazone < zones
  zones_lt : zones < 2 ^ 32
  zones_le : zones - (firstdatazone - 1) ≤ zmapBlocks * (blockSize / 4 * 32)

namespace Super

variable (sp : Super)

def bitmapChunks : Nat := sp.blockSize / 4

def bitsPerBlock : Nat := sp.bitmapChunks * 32

def mapBits : Nat := sp.zones - (sp.firstdatazone - 1)

/-- `V2_INDIRECTS`. -/
def nindirs : Nat := sp.blockSize / 4

theorem bitmapChunks_pos : 0 < sp.bitmapChunks := by
  have := sp.pageSize_le
  rw [bitmapChunks]
  omega

theorem bitsPerBlock_pos : 0 < sp.bitsPerBlock := Nat.mul_pos sp.bitmapChunks_pos (by decide)

theorem mapBits_pos : 1 < sp.mapBits := by
  have := sp.firstdatazone_lt
  have := sp.four_lt
  rw [mapBits]
  omega

end Super

variable (sp : Super) (map : WordMap)

/-- The words of a block from `word` on. -/
def searchBlock (block : Nat) : Nat → Nat → Option Nat
  | _, 0 => none
  | word, fuel + 1 =>
    let k := map (block * sp.bitmapChunks + word)
    if k = BitVec.allOnes 32 then searchBlock block (word + 1) fuel
    else
      let b := block * sp.bitsPerBlock + word * 32 + lowClear k 0 32
      -- bits beyond the end of the map are not allocated
      if sp.mapBits ≤ b then none else some b

/-- `bcount` blocks from `block` on, going round. -/
def searchMap : Nat → Nat → Nat → Option Nat
  | 0, _, _ => none
  | bcount + 1, block, word =>
    match searchBlock sp map block word (sp.bitmapChunks - word) with
    | some b => some b
    | none => searchMap bcount (if sp.zmapBlocks ≤ block + 1 then 0 else block + 1) 0

/-- The search starts in the middle, so it goes over all blocks plus one; 0 is `NO_BIT`. -/
def allocBit (origin : Nat) : Except Failure (Nat × WordMap) :=
  if sp.rdOnly then .error .panic
  else
    let origin := if sp.mapBits ≤ origin then 0 else origin
    match searchMap sp map (sp.zmapBlocks + 1) (origin / sp.bitsPerBlock)
        (origin % sp.bitsPerBlock / 32) with
    | some b => .ok (b, setWordBit map b)
    | none => .ok (0, map)

def freeBit (bit : Nat) : Except Failure WordMap :=
  if sp.rdOnly then .error .panic
  else if !wordBit map bit then .error .panic
  else .ok (clearWordBit map bit)

variable {sp : Super} {map : WordMap} {block word fuel b c n : Nat}

theorem wordBit_of_block (hi : b < 32) : wordBit map (block * sp.bitsPerBlock + word * 32 + b) =
      (map (block * sp.bitmapChunks + word)).getLsbD b := by
  have heq : block * sp.bitsPerBlock + word * 32 + b =
      32 * (block * sp.bitmapChunks + word) + b := by
    rw [Super.bitsPerBlock]
    ring
  rw [heq, wordBit, mul_add_div (by decide), mul_add_mod, div_eq_of_lt hi,
    mod_eq_of_lt hi, Nat.add_zero]

theorem searchBlock_full (hk : map (block * sp.bitmapChunks + word) = BitVec.allOnes 32) :
    searchBlock sp map block word (fuel + 1) = searchBlock sp map block (word + 1) fuel := if_pos hk

theorem searchBlock_stop (fuel : Nat)
    (hk : map (block * sp.bitmapChunks + word) ≠ BitVec.allOnes 32) : ∃ b, wordBit map b = false ∧
      (∀ c, block * sp.bitsPerBlock + word * 32 ≤ c → c < b → wordBit map c = true) ∧
      searchBlock sp map block word (fuel + 1) = if sp.mapBits ≤ b then none else some b := by
  obtain ⟨j, hj, hclear⟩ := exists_clear_of_ne_allOnes hk
  obtain ⟨hlt, hlow, hbelow⟩ := lowClear_spec (Nat.zero_add 32) ⟨j, Nat.zero_le j, hj, hclear⟩
  refine ⟨_, ?_, fun c hlo hc => ?_, if_neg hk⟩
  · rw [wordBit_of_block hlt]
    exact hlow
  · obtain ⟨i, rfl⟩ := Nat.exists_eq_add_of_le hlo
    have hi := Nat.lt_of_add_lt_add_left hc
    rw [wordBit_of_block (hi.trans hlt)]
    exact hbelow i (Nat.zero_le i) hi

theorem searchBlock_some (hfuel : word + fuel = sp.bitmapChunks)
    (h : searchBlock sp map block word fuel = some b) : b < sp.mapBits ∧ wordBit map b = false := by
  induction fuel generalizing word with
  | zero => cases h
  | succ fuel ih =>
    by_cases hk : map (block * sp.bitmapChunks + word) = BitVec.allOnes 32
    · rw [searchBlock_full hk] at h
      exact ih (by omega) h
    · obtain ⟨b', hclear, -, heq⟩ := searchBlock_stop fuel hk
      rw [heq] at h
      split at h
      · cases h
      · rename_i hb
        cases h
        exact ⟨Nat.lt_of_not_le hb, hclear⟩

theorem searchBlock_none (hfuel : word + fuel = sp.bitmapChunks)
    (h : searchBlock sp map block word fuel = none) (hc : c < sp.mapBits)
    (hlo : block * sp.bitsPerBlock + word * 32 ≤ c) (hhi : c < (block + 1) * sp.bitsPerBlock) :
    wordBit map c = true := by
  induction fuel generalizing word with
  | zero =>
    have hend : word * 32 = sp.bitsPerBlock := by rw [Super.bitsPerBlock, ← hfuel, Nat.add_zero]
    rw [Nat.add_mul] at hhi
    omega
  | succ fuel ih =>
    by_cases hk : map (block * sp.bitmapChunks + word) = BitVec.allOnes 32
    · rw [searchBlock_full hk] at h
      by_cases hnext : block * sp.bitsPerBlock + (word + 1) * 32 ≤ c
      · exact ih (by omega) h hnext
      · obtain ⟨i, rfl⟩ := Nat.exists_eq_add_of_le hlo
        have hi : i < 32 := by omega
        rw [wordBit_of_block hi, hk, BitVec.getLsbD_allOnes, decide_eq_true hi]
    · obtain ⟨b', -, hbelow, heq⟩ := searchBlock_stop fuel hk
      rw [heq] at h
      split at h
      · rename_i hb
        exact hbelow c hlo (hc.trans_le hb)
      · cases h

theorem searchMap_some (hword : word ≤ sp.bitmapChunks)
    (h : searchMap sp map n block word = some b) :
    b < sp.mapBits ∧ wordBit map b = false := by
  induction n generalizing block word with
  | zero => cases h
  | succ n ih =>
    rw [searchMap] at h
    split at h
    · rename_i hfound
      cases h
      exact searchBlock_some (Nat.add_sub_cancel' hword) hfound
    · exact ih (Nat.zero_le _) h

theorem next_block (hblock : block < sp.zmapBlocks) :
    (if sp.zmapBlocks ≤ block + 1 then 0 else block + 1) = (block + 1) % sp.zmapBlocks := by
  split
  · rename_i h
    rw [Nat.le_antisymm h hblock, mod_self]
  · rename_i h
    exact (mod_eq_of_lt (Nat.lt_of_not_le h)).symm

theorem searchMap_none (hblock : block < sp.zmapBlocks) (h : searchMap sp map n block 0 = none)
    (hc : c < sp.mapBits) {i : Nat} (hi : i < n)
    (heq : c / sp.bitsPerBlock = (block + i) % sp.zmapBlocks) : wordBit map c = true := by
  induction n generalizing block i with
  | zero => exact absurd hi (Nat.not_lt_zero i)
  | succ n ih =>
    rw [searchMap] at h
    split at h
    · cases h
    rename_i hnone
    rw [next_block hblock] at h
    cases i with
    | zero =>
      rw [Nat.add_zero, mod_eq_of_lt hblock] at heq
      apply searchBlock_none (Nat.add_sub_cancel' (Nat.zero_le _)) hnone hc
      · rw [← heq]
        exact div_mul_le_self c _
      · rw [← heq]
        exact (Nat.div_lt_iff_lt_mul sp.bitsPerBlock_pos).mp (lt_succ_self _)
    | succ i =>
      apply ih (mod_lt _ (zero_lt_of_lt hblock)) h (lt_of_succ_lt_succ hi)
      rw [heq, mod_add_mod, Nat.add_right_comm, Nat.add_assoc]

theorem searchMap_eq_none {origin : Nat} (horigin : origin < sp.mapBits)
    (h : searchMap sp map (sp.zmapBlocks + 1) (origin / sp.bitsPerBlock) word = none)
    (hc : c < sp.mapBits) : wordBit map c = true := by
  have hlt : ∀ {d}, d < sp.mapBits → d / sp.bitsPerBlock < sp.zmapBlocks := fun hd =>
    (Nat.div_lt_iff_lt_mul sp.bitsPerBlock_pos).mpr (hd.trans_le sp.zones_le)
  have hpos : 0 < sp.zmapBlocks := zero_lt_of_lt (hlt hc)
  rw [searchMap] at h
  split at h
  · cases h
  rw [next_block (hlt horigin)] at h
  have hnext := mod_lt (origin / sp.bitsPerBlock + 1) hpos
  apply searchMap_none hnext h hc (mod_lt (c / sp.bitsPerBlock + sp.zmapBlocks -
    (origin / sp.bitsPerBlock + 1) % sp.zmapBlocks) hpos)
  rw [add_mod_mod, Nat.add_sub_cancel' (hnext.le.trans (Nat.le_add_left _ _)),
    add_mod_right, mod_eq_of_lt (hlt hc)]

inductive AllocBit (sp : Super) (map : WordMap) : Nat × WordMap → Prop where
  | found {b : Nat} (pos : 0 < b) (lt : b < sp.mapBits) (clear : wordBit map b = false) :
      AllocBit sp map (b, setWordBit map b)
  | full (used : ∀ b < sp.mapBits, wordBit map b = true) : AllocBit sp map (0, map)

theorem allocBit_spec (hrd : sp.rdOnly = false) (h0 : wordBit map 0 = true) (origin : Nat) :
    ∃ r, allocBit sp map origin = .ok r ∧ AllocBit sp map r := by
  have hstart : (if sp.mapBits ≤ origin then 0 else origin) < sp.mapBits := by
    have := sp.mapBits_pos
    split <;> omega
  rw [allocBit, hrd]
  dsimp only
  generalize (if sp.mapBits ≤ origin then 0 else origin) = start at hstart ⊢
  cases hsearch : searchMap sp map (sp.zmapBlocks + 1) (start / sp.bitsPerBlock)
      (start % sp.bitsPerBlock / 32) with
  | none => exact ⟨_, rfl, .full fun b hb => searchMap_eq_none hstart hsearch hb⟩
  | some b =>
    have hword : start % sp.bitsPerBlock / 32 ≤ sp.bitmapChunks := by
      have := mod_lt start sp.bitsPerBlock_pos
      rw [Super.bitsPerBlock] at this ⊢
      omega
    obtain ⟨hlt, hclear⟩ := searchMap_some hword hsearch
    refine ⟨_, rfl, .found (Nat.pos_of_ne_zero ?_) hlt hclear⟩
    rintro rfl
    simp [h0] at hclear

end Gergios.Mfs
