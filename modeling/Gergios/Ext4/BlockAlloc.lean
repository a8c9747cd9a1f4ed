import Gergios.Ext4.GroupDesc

/-!
# The block allocator
-/

namespace Gergios.Ext4

open Lib Nat UInt32

/-- The loop of `find_consecutive_bits` at `bit`, with `k` bits left. -/
def findRun (bitmap : List UInt8) (count bit runStart runLen : Nat) : Nat → Option Nat
  | 0 => none
  | k + 1 =>
    if bitAt bitmap bit then findRun bitmap count (bit + 1) (bit + 1) 0 k
    else if runLen + 1 ≥ count then some runStart
    else findRun bitmap count (bit + 1) runStart (runLen + 1) k

def findConsecutiveBits (bitmap : List UInt8) (count : UInt32) : Option UInt32 :=
  (findRun bitmap count.toNat 0 0 0 (bitmap.length * 8)).map .ofNat

section Model

variable (sb : Geometry) (env : Env)

def tryAllocateBlocks (count group : UInt32) : EStateM Stop AllocState (Option UInt64) := do
  let gd := (← get).groups group.toNat
  let freeBlocks := gd.freeBlocksCount sb
  if freeBlocks.toUInt32 < count then return none
  let bitmapBlock := (gd.blockBitmap sb).toNat
  let bitmap ← onDevice (env.readBlock bitmapBlock)
  let groupStart := group.toUInt64 * sb.sBlocksPerGroup.toUInt64
  match findConsecutiveBits bitmap count with
  | some bit =>
    onDevice (env.writeBlock bitmapBlock (putBits bitmap bit.toNat count.toNat))
    setGroup group.toNat (gd.setFreeBlocksCount sb (freeBlocks - count.toUInt16))
    return some (groupStart + bit.toUInt64)
  | none => return none

def allocateBlocks (count preferGroup : UInt32) : EStateM Stop AllocState UInt64 :=
  searchGroups sb (tryAllocateBlocks sb env count) preferGroup 0 sb.blockGroupsCount.toNat

def freeBlocks (blockNr : UInt64) (count : UInt32) : EStateM Stop AllocState Unit := do
  let blocksPerGroup := sb.sBlocksPerGroup.toUInt64
  let group := (blockNr / blocksPerGroup).toUInt32
  let inGroupOffset := (blockNr % blocksPerGroup).toNat
  if group ≥ sb.blockGroupsCount then throw (.err .notFound)
  let gd := (← get).groups group.toNat
  let bitmapBlock := (gd.blockBitmap sb).toNat
  let bitmap ← onDevice (env.readBlock bitmapBlock)
  onDevice (env.writeBlock bitmapBlock (dropBits bitmap inGroupOffset count.toNat))
  setGroup group.toNat (gd.setFreeBlocksCount sb (gd.freeBlocksCount sb + count.toUInt16))

end Model

variable {sb : Geometry} {env : Env} {st : AllocState} {bitmap : List UInt8}

/-! ### One call -/

variable {count group preferGroup : UInt32} {g i : Nat} {first : UInt64}
  {s s' : AllocState × Finset Nat} {A : Finset Nat}

theorem findRun_eq_some {count bit runStart runLen k r : Nat} (hbit : runStart + runLen = bit)
    (hrun : ∀ j, runStart ≤ j → j < bit → bitAt bitmap j = false)
    (h : findRun bitmap count bit runStart runLen k = some r) :
    r + max count 1 ≤ bit + k ∧ ∀ j, r ≤ j → j < r + max count 1 → bitAt bitmap j = false := by
  induction k generalizing bit runStart runLen with
  | zero => exact nomatch h
  | succ k ih =>
    rw [findRun] at h
    split at h
    · obtain ⟨hle, hclear⟩ := ih (Nat.add_zero (bit + 1)) (by omega) h
      exact ⟨by omega, hclear⟩
    rename_i hset
    have hmore : ∀ j, runStart ≤ j → j < bit + 1 → bitAt bitmap j = false := by
      intro j h1 h2
      rcases Nat.lt_or_eq_of_le (le_of_lt_succ h2) with hlt | rfl
      · exact hrun j h1 hlt
      · exact Bool.not_eq_true _ ▸ hset
    split at h
    · cases h
      exact ⟨by omega, fun j h1 h2 => hmore j h1 (by omega)⟩
    · obtain ⟨hle, hclear⟩ := ih (by omega) hmore h
      exact ⟨by omega, hclear⟩

theorem findConsecutiveBits_eq_some {bit : UInt32}
    (h : findConsecutiveBits bitmap count = some bit) :
    ∃ r, bit = .ofNat r ∧ r + max count.toNat 1 ≤ 8 * bitmap.length ∧
      ∀ j, r ≤ j → j < r + max count.toNat 1 → bitAt bitmap j = false := by
  obtain ⟨r, hr, rfl⟩ := Option.map_eq_some_iff.mp h
  obtain ⟨hle, hclear⟩ := findRun_eq_some (Nat.add_zero 0) (by omega) hr
  exact ⟨r, rfl, by omega, hclear⟩

def BlocksTaken (sb : Geometry) (count group : UInt32) (st : AllocState) (first : UInt64)
    (st' : AllocState) : Prop :=
  ∃ r, r + max count.toNat 1 ≤ 8 * (blocks.bits sb st group.toNat).length ∧
    (∀ j, r ≤ j → j < r + max count.toNat 1 → bitAt (blocks.bits sb st group.toNat) j = false) ∧
    count.toNat ≤ ((st.groups group.toNat).freeBlocksCount sb).toNat ∧
    first = group.toUInt64 * sb.sBlocksPerGroup.toUInt64 + (ofNat r).toUInt64 ∧
    st' = blocks.put sb st.tick group.toNat
      (putBits (blocks.bits sb st group.toNat) (ofNat r).toNat count.toNat)
      ((st.groups group.toNat).freeBlocksCount sb - count.toUInt16)

theorem tryAllocateBlocks_attempts (count : UInt32) :
    Attempts env (tryAllocateBlocks sb env count) (fun _ _ => True) (BlocksTaken sb count) := by
  intro group st
  apply Outcome.bind_ok (run_get st)
  rcases UInt32.lt_or_le ((st.groups group.toNat).freeBlocksCount sb).toUInt32 count with
    hlt | hle
  · rw [if_pos hlt]
    exact Outcome.pure ⟨.refl st, trivial⟩
  rw [if_neg (UInt32.not_lt.mpr hle)]
  refine (readBlock_outcome env _ st).bind ?_
  rintro bitmap _ ⟨hbits, rfl⟩
  obtain rfl : bitmap = blocks.bits sb st group.toNat := hbits
  cases hfind : findConsecutiveBits (blocks.bits sb st group.toNat) count with
  | none => exact Outcome.pure ⟨.tick st, trivial⟩
  | some bit =>
    obtain ⟨r, rfl, hbound, hclear⟩ := findConsecutiveBits_eq_some hfind
    refine ((writeBlock_outcome env _ _ st.tick).mono (fun _ _ h => h)
      fun _ _ h => h.of_idle (.tick st)).bind ?_
    rintro _ _ rfl
    rw [le_iff_toNat_le] at hle
    exact Outcome.bind_ok rfl (Outcome.pure ⟨r, hbound, hclear, hle, rfl, rfl⟩)

variable (sb env st) in
theorem freeBlocks_outcome (blockNr : UInt64) (count : UInt32)
    (hg : (blockNr / sb.sBlocksPerGroup.toUInt64).toUInt32.toNat = g)
    (hi : (blockNr % sb.sBlocksPerGroup.toUInt64).toNat = i) :
    Outcome (freeBlocks sb env blockNr count) st (fun _ st' => g < sb.blockGroupsCount.toNat ∧
      st' = blocks.put sb st.tick g (dropBits (blocks.bits sb st g) i count.toNat)
        ((st.groups g).freeBlocksCount sb + count.toUInt16))
      fun e st' => st' = st ∧ sb.blockGroupsCount.toNat ≤ g ∨ Fails env st e st' := by
  subst hg hi
  rw [freeBlocks]
  dsimp only
  rcases UInt32.lt_or_le (blockNr / sb.sBlocksPerGroup.toUInt64).toUInt32 sb.blockGroupsCount with
    hlt | hle
  · rw [if_neg (UInt32.not_le.mpr hlt)]
    apply Outcome.bind_ok (run_get st)
    exact (blocks.rewrite_outcome env sb st _ (dropBits · _ count.toNat) _).mono
      (fun _ _ h => ⟨lt_iff_toNat_lt.mp hlt, h⟩) fun _ _ h => .inr h
  · rw [if_pos hle]
    exact .inl ⟨rfl, le_iff_toNat_le.mp hle⟩

/-! ### Numbers of blocks -/

/-- Bit `i` of group `g` stands for a block, if there are that many. -/
def blockNumbers (sb : Geometry) : Numbering where
  groups := sb.blockGroupsCount.toNat
  size g := min sb.sBlocksPerGroup.toNat
    (sb.blocksCount.toNat - (sb.sFirstDataBlock.toNat + g * sb.sBlocksPerGroup.toNat))
  num g i := sb.sFirstDataBlock.toNat + g * sb.sBlocksPerGroup.toNat + i
  inj g h i j hi hj heq := mul_add_inj (lt_min_iff.mp hi).1 (lt_min_iff.mp hj).1 (by omega)

theorem num_lt (hi : i < (blockNumbers sb).size g) :
    (blockNumbers sb).num g i < sb.blocksCount.toNat := by
  have hlt := (lt_min_iff.mp hi).2
  change sb.sFirstDataBlock.toNat + g * sb.sBlocksPerGroup.toNat + i < _
  omega

theorem blockNumbers_span (g i c : Nat) : (blockNumbers sb).span g i c =
      Finset.Ico ((blockNumbers sb).num g i) ((blockNumbers sb).num g i + c) := by
  ext a
  rw [Numbering.mem_span, Finset.mem_Ico]
  change (∃ j, i ≤ j ∧ j < i + c ∧
      sb.sFirstDataBlock.toNat + g * sb.sBlocksPerGroup.toNat + j = a) ↔
    sb.sFirstDataBlock.toNat + g * sb.sBlocksPerGroup.toNat + i ≤ a ∧
      a < sb.sFirstDataBlock.toNat + g * sb.sBlocksPerGroup.toNat + i + c
  constructor
  · omega
  · rintro ⟨h1, h2⟩
    exact ⟨a - (sb.sFirstDataBlock.toNat + g * sb.sBlocksPerGroup.toNat), by omega⟩

/-- The geometries for which the allocator works: block numbers start at 0, and the number of a
group's blocks fits the count of its descriptor. -/
structure BlockGeometry (sb : Geometry) : Prop where
  first : sb.sFirstDataBlock = 0
  fits : sb.sBlocksPerGroup.toNat < 2 ^ 16

section Numbers

variable (hsb : BlockGeometry sb)
include hsb

theorem BlockGeometry.size_lt (g : Nat) : (blockNumbers sb).size g < 2 ^ 16 :=
  lt_of_le_of_lt (min_le_left _ _) hsb.fits

theorem BlockGeometry.num_eq (g i : Nat) :
    (blockNumbers sb).num g i = g * sb.sBlocksPerGroup.toNat + i := by
  change sb.sFirstDataBlock.toNat + g * sb.sBlocksPerGroup.toNat + i = _
  rw [hsb.first, UInt32.toNat_zero, Nat.zero_add]

theorem BlockGeometry.toNat_first {r : Nat} (hr : r < 2 ^ 16) :
    (group.toUInt64 * sb.sBlocksPerGroup.toUInt64 + (ofNat r).toUInt64).toNat =
      (blockNumbers sb).num group.toNat r := by
  have hmul : group.toNat * sb.sBlocksPerGroup.toNat ≤ 2 ^ 32 * 2 ^ 16 :=
    Nat.mul_le_mul group.toNat_lt.le hsb.fits.le
  rw [hsb.num_eq, UInt64.toNat_add, UInt64.toNat_mul, toNat_toUInt64, toNat_toUInt64,
    toNat_toUInt64, toNat_ofNat']
  omega

theorem BlockGeometry.group_offset {blockNr : UInt64}
    (hg : g < sb.blockGroupsCount.toNat) (hi : i < (blockNumbers sb).size g)
    (heq : (blockNumbers sb).num g i = blockNr.toNat) :
    (blockNr / sb.sBlocksPerGroup.toUInt64).toUInt32.toNat = g ∧
      (blockNr % sb.sBlocksPerGroup.toUInt64).toNat = i := by
  have hbpg : i < sb.sBlocksPerGroup.toNat := (lt_min_iff.mp hi).1
  have hlt := sb.blockGroupsCount.toNat_lt
  rw [hsb.num_eq, Nat.mul_comm] at heq
  rw [UInt64.toNat_toUInt32, UInt64.toNat_div, UInt64.toNat_mod, toNat_toUInt64, ← heq,
    mul_add_div (by omega), div_eq_of_lt hbpg, mul_add_mod, mod_eq_of_lt hbpg]
  omega

end Numbers

/-! ### Runs of the allocator -/

/-- The blocks in `A` are in use, and no bit that stands for no block is clear. -/
structure BlocksOk (sb : Geometry) (st : AllocState) (A : Finset Nat) : Prop where
  ok : blocks.Ok sb (blockNumbers sb) st A
  padded : Pool.Padded (blockNumbers sb) (blocks.pool sb st)

/-- A call of the allocator, and the blocks in use before and after it. What is freed is in use and
lies in one group. -/
inductive BlockStep (sb : Geometry) (env : Env) :
    AllocState × Finset Nat → AllocState × Finset Nat → Prop
  | allocated {st st' : AllocState} {A : Finset Nat} {count preferGroup : UInt32} {first : UInt64}
      (h : allocateBlocks sb env count preferGroup st = .ok first st') :
      BlockStep sb env (st, A) (st', A ∪ Finset.Ico first.toNat (first.toNat + count.toNat))
  | noneAllocated {st st' : AllocState} {A : Finset Nat} {count preferGroup : UInt32} {e : Stop}
      (h : allocateBlocks sb env count preferGroup st = .error e st') :
      BlockStep sb env (st, A) (st', A)
  | freed {st st' : AllocState} {A : Finset Nat} {blockNr : UInt64} {count : UInt32}
      (hA : Finset.Ico blockNr.toNat (blockNr.toNat + count.toNat) ⊆ A)
      (hgroup : blockNr.toNat % sb.sBlocksPerGroup.toNat + count.toNat ≤ sb.sBlocksPerGroup.toNat)
      (h : freeBlocks sb env blockNr count st = .ok () st') :
      BlockStep sb env (st, A) (st', A \ Finset.Ico blockNr.toNat (blockNr.toNat + count.toNat))
  | noneFreed {st st' : AllocState} {A : Finset Nat} {blockNr : UInt64} {count : UInt32} {e : Stop}
      (hA : Finset.Ico blockNr.toNat (blockNr.toNat + count.toNat) ⊆ A)
      (hgroup : blockNr.toNat % sb.sBlocksPerGroup.toNat + count.toNat ≤ sb.sBlocksPerGroup.toNat)
      (h : freeBlocks sb env blockNr count st = .error e st') : BlockStep sb env (st, A) (st', A)

/-- What can be said of the allocator when the blocks in `A` are in use. -/
structure BlocksSound (sb : Geometry) (env : Env) (st : AllocState) (A : Finset Nat) : Prop where
  counts : ∀ g < sb.blockGroupsCount.toNat, ((st.groups g).freeBlocksCount sb).toNat =
    (clearBits (blocks.bits sb st g) ((blockNumbers sb).size g)).card
  used : ∀ g < sb.blockGroupsCount.toNat, ∀ i < (blockNumbers sb).size g,
    ((blockNumbers sb).num g i ∈ A ↔ bitAt (blocks.bits sb st g) i = true)
  fresh : ∀ count preferGroup first st',
    allocateBlocks sb env count preferGroup st = .ok first st' →
    ∀ b, first.toNat ≤ b → b < first.toNat + count.toNat →
      sb.sFirstDataBlock.toNat ≤ b ∧ b < sb.blocksCount.toNat ∧ b ∉ A
  freed : ∀ (blockNr : UInt64) (count : UInt32) st',
    Finset.Ico blockNr.toNat (blockNr.toNat + count.toNat) ⊆ A →
    blockNr.toNat % sb.sBlocksPerGroup.toNat + count.toNat ≤ sb.sBlocksPerGroup.toNat →
    freeBlocks sb env blockNr count st = .ok () st' →
    ∀ g < sb.blockGroupsCount.toNat, ∀ i < (blockNumbers sb).size g,
      (bitAt (blocks.bits sb st' g) i = false ↔ bitAt (blocks.bits sb st g) i = false ∨
        blockNr.toNat ≤ (blockNumbers sb).num g i ∧
          (blockNumbers sb).num g i < blockNr.toNat + count.toNat)
  notFreed : ∀ (blockNr : UInt64) (count : UInt32) e st',
    Finset.Ico blockNr.toNat (blockNr.toNat + count.toNat) ⊆ A →
    blockNr.toNat % sb.sBlocksPerGroup.toNat + count.toNat ≤ sb.sBlocksPerGroup.toNat →
    freeBlocks sb env blockNr count st = .error e st' → count = 0 ∨ Faulted env st st'

section Runs

variable {st' : AllocState} {A : Finset Nat}

theorem BlocksOk.bit_clear (h : BlocksOk sb st A)
    (hg : g < sb.blockGroupsCount.toNat) (hi : i < (blockNumbers sb).size g) :
    bitAt (blocks.bits sb st g) i = false ↔ (blockNumbers sb).num g i ∉ A := by
  rw [h.ok.pool.used g hg i hi, Bool.not_eq_true]
  rfl

theorem BlocksOk.idle (h : BlocksOk sb st A) (hidle : Idle st st') : BlocksOk sb st' A :=
  ⟨h.ok.idle hidle, by rw [Resource.pool_idle hidle]; exact h.padded⟩

variable (hsb : BlockGeometry sb) (h : BlocksOk sb st A)
include hsb h

theorem blocksTaken_ok (hg : group.toNat < sb.blockGroupsCount.toNat)
    (htaken : BlocksTaken sb count group st first st') :
    (∃ i, (blockNumbers sb).num group.toNat i = first.toNat ∧
      i + count.toNat ≤ (blockNumbers sb).size group.toNat) ∧
    Disjoint A (Finset.Ico first.toNat (first.toNat + count.toNat)) ∧
      BlocksOk sb st' (A ∪ Finset.Ico first.toNat (first.toNat + count.toNat)) := by
  obtain ⟨r, hbound, hclear, -, rfl, rfl⟩ := htaken
  have hsize := hsb.size_lt group.toNat
  -- The last bit of the run is clear, so it is that of a block.
  have hlast : r + max count.toNat 1 - 1 < (blockNumbers sb).size group.toNat :=
    h.padded.lt_size hg (show _ < 8 * (blocks.bits sb st group.toNat).length by omega)
      (hclear _ (by omega) (by omega))
  have hr : (ofNat r).toNat = r := toNat_ofNat_of_lt' (by
    change r < 2 ^ 32
    omega)
  have hcount : count.toUInt16 = .ofNat count.toNat := rfl
  obtain ⟨hdisj, hok⟩ := (h.ok.idle (.tick st)).take (c := count.toNat) hg hsize
    (by omega) fun j h1 h2 => hclear j h1 (by omega)
  rw [blockNumbers_span, ← hsb.toNat_first (by omega)] at hdisj hok
  refine ⟨⟨r, (hsb.toNat_first (by omega)).symm, by omega⟩, hdisj, ?_, ?_⟩
  · rw [hr]
    exact hok
  · refine Resource.padded_put (h.ok.apart.idle (.tick st)) hg rfl (h.idle (.tick st)).padded
      length_putBits fun i hi hset => ?_
    rw [bitAt_putBits (by omega)]
    exact Bool.or_eq_true_iff.mpr (.inl hset)

theorem allocateBlocks_ok (hrun : allocateBlocks sb env count preferGroup st = .ok first st') :
    (∃ g i, (blockNumbers sb).num g i = first.toNat ∧ i + count.toNat ≤ (blockNumbers sb).size g) ∧
    Disjoint A (Finset.Ico first.toNat (first.toNat + count.toNat)) ∧
      BlocksOk sb st' (A ∪ Finset.Ico first.toNat (first.toNat + count.toNat)) := by
  obtain ⟨st₁, group, hpos, hidle, htaken⟩ := (searchGroups_outcome
    (tryAllocateBlocks_attempts count) (fun _ _ _ _ h => h) preferGroup 0 _ st).of_ok hrun
  have hg : (group % sb.blockGroupsCount).toNat < sb.blockGroupsCount.toNat := by
    exact mod_lt _ hpos
  obtain ⟨hin, hrest⟩ := blocksTaken_ok hsb (h.idle hidle) hg htaken
  exact ⟨⟨_, hin⟩, hrest⟩

omit hsb in
theorem allocateBlocks_error {e : Stop}
    (hrun : allocateBlocks sb env count preferGroup st = .error e st') : BlocksOk sb st' A := by
  exact h.idle ((searchGroups_outcome (tryAllocateBlocks_attempts count) (fun _ _ _ _ h => h)
    preferGroup 0 _ st).of_error hrun).1

section Freed

variable {blockNr : UInt64} {count : UInt32}
  (hA : Finset.Ico blockNr.toNat (blockNr.toNat + count.toNat) ⊆ A)
  (hgroup : blockNr.toNat % sb.sBlocksPerGroup.toNat + count.toNat ≤ sb.sBlocksPerGroup.toNat)
include hA hgroup

theorem exists_freed (hpos : 0 < count.toNat) :
    ∃ g < sb.blockGroupsCount.toNat, ∃ i, i + count.toNat ≤ (blockNumbers sb).size g ∧
      (blockNumbers sb).num g i = blockNr.toNat := by
  obtain ⟨g, hg, i, hi, hfirst⟩ :=
    h.ok.pool.within _ (hA (Finset.mem_Ico.mpr ⟨Nat.le_refl _, by omega⟩))
  obtain ⟨g', hg', i', hi', hlast⟩ := h.ok.pool.within _
    (hA (Finset.mem_Ico.mpr ⟨by omega, (by omega : blockNr.toNat + count.toNat - 1 < _)⟩))
  obtain ⟨-, hoff⟩ := hsb.group_offset hg hi hfirst
  rw [UInt64.toNat_mod, toNat_toUInt64] at hoff
  rw [hsb.num_eq] at hfirst hlast
  obtain ⟨rfl, rfl⟩ := mul_add_inj (g := g') (h := g) (lt_min_iff.mp hi').1
    (by omega : i + count.toNat - 1 < sb.sBlocksPerGroup.toNat) (by omega)
  exact ⟨g', hg', i, by omega, by rw [hsb.num_eq, hfirst]⟩

theorem freeBlocks_ok (hrun : freeBlocks sb env blockNr count st = .ok () st') :
    BlocksOk sb st' (A \ Finset.Ico blockNr.toNat (blockNr.toNat + count.toNat)) := by
  have hcount : count.toUInt16 = .ofNat count.toNat := rfl
  rcases Nat.eq_zero_or_pos count.toNat with hzero | hpos
  · obtain ⟨hg, rfl⟩ := (freeBlocks_outcome sb env st blockNr count rfl rfl).of_ok hrun
    rw [hcount]
    have hok := (h.ok.idle (.tick st)).give (i := 0) (c := 0) hg (hsb.size_lt _) (by omega)
      (by rw [blockNumbers_span, Nat.add_zero, Finset.Ico_self]; exact Finset.empty_subset A)
    rw [hzero, Nat.add_zero, Finset.Ico_self]
    exact ⟨hok, Resource.padded_put (h.ok.apart.idle (.tick st)) hg rfl
      (h.idle (.tick st)).padded rfl fun _ _ hset => hset⟩
  · obtain ⟨g, hg, i, hi, hnum⟩ := exists_freed hsb h hA hgroup hpos
    obtain ⟨hquot, hoff⟩ := hsb.group_offset hg (by omega) hnum
    obtain ⟨-, rfl⟩ := (freeBlocks_outcome sb env st blockNr count hquot hoff).of_ok hrun
    have hok := (h.ok.idle (.tick st)).give hg (hsb.size_lt g) hi
      (by rw [blockNumbers_span, hnum]; exact hA)
    rw [blockNumbers_span, hnum] at hok
    have hroom : (blockNumbers sb).size g ≤ 8 * (blocks.bits sb st g).length :=
      h.ok.pool.room g hg
    refine ⟨hok, Resource.padded_put (h.ok.apart.idle (.tick st)) hg rfl
      (h.idle (.tick st)).padded length_dropBits fun j hj hset => ?_⟩
    rw [bitAt_dropBits (by omega), decide_eq_false (by omega), Bool.not_false, Bool.and_true]
    exact hset

theorem freeBlocks_error {e : Stop} (hrun : freeBlocks sb env blockNr count st = .error e st') :
    Idle st st' ∧ (count = 0 ∨ Faulted env st st') := by
  rcases (freeBlocks_outcome sb env st blockNr count rfl rfl).of_error hrun with
    ⟨rfl, hge⟩ | ⟨hidle, hfault⟩
  · refine ⟨.refl _, .inl ?_⟩
    rcases Nat.eq_zero_or_pos count.toNat with hzero | hpos
    · exact UInt32.toNat_inj.mp hzero
    · obtain ⟨g, hg, i, hi, hnum⟩ := exists_freed hsb h hA hgroup hpos
      obtain ⟨hquot, -⟩ := hsb.group_offset hg (by omega) hnum
      omega
  · exact ⟨hidle, .inr hfault⟩

end Freed

theorem BlocksOk.sound : BlocksSound sb env st A where
  counts g hg := (h.ok.toNat_count hg (hsb.size_lt g)).trans (h.ok.pool.counts g hg)
  used := h.ok.pool.used
  fresh count preferGroup first st' hrun b h1 h2 := by
    obtain ⟨⟨g, i, hnum, hi⟩, hdisj, -⟩ := allocateBlocks_ok hsb h hrun
    have hb : (blockNumbers sb).num g (i + (b - first.toNat)) = b := by
      rw [hsb.num_eq] at hnum ⊢
      omega
    refine ⟨?_, ?_, Finset.disjoint_right.mp hdisj (Finset.mem_Ico.mpr ⟨h1, h2⟩)⟩
    · rw [hsb.first]
      exact Nat.zero_le b
    · exact hb ▸ num_lt (by omega)
  freed blockNr count st' hA hgroup hrun g hg i hi := by
    rw [(freeBlocks_ok hsb h hA hgroup hrun).bit_clear hg hi, h.bit_clear hg hi,
      Finset.mem_sdiff, Finset.mem_Ico]
    tauto
  notFreed blockNr count e st' hA hgroup hrun := (freeBlocks_error hsb h hA hgroup hrun).2

omit h in
theorem BlockStep.ok (hs : BlocksOk sb s.1 s.2)
    (hstep : BlockStep sb env s s') : BlocksOk sb s'.1 s'.2 := by
  cases hstep with
  | allocated hrun => exact (allocateBlocks_ok hsb hs hrun).2.2
  | noneAllocated hrun => exact allocateBlocks_error hs hrun
  | freed hA hgroup hrun => exact freeBlocks_ok hsb hs hA hgroup hrun
  | noneFreed hA hgroup hrun => exact hs.idle (freeBlocks_error hsb hs hA hgroup hrun).1

omit h in
theorem BlockStep.run_ok (hs : BlocksOk sb s.1 s.2)
    (hrun : Relation.ReflTransGen (BlockStep sb env) s s') : BlocksOk sb s'.1 s'.2 := by
  induction hrun with
  | refl => exact hs
  | tail _ hstep ih => exact hstep.ok hsb ih

end Runs

/-- Whatever is allocated and freed, the bitmaps and the counts say which blocks are in use. -/
theorem block_allocator_sound {st₀ : AllocState} {A₀ : Finset Nat} (hsb : BlockGeometry sb)
    (h₀ : BlocksOk sb st₀ A₀) (hrun : Relation.ReflTransGen (BlockStep sb env) (st₀, A₀) (st, A)) :
    BlocksSound sb env st A :=
  (BlockStep.run_ok hsb h₀ hrun : BlocksOk sb st A).sound hsb

def twoGroups : Geometry where
  toSuperblock := default
  sInodesCount := 4096
  sBlocksCountLo := 16384
  sBlocksCountHi := 0
  sFirstDataBlock := 0
  sBlocksPerGroup := 8192
  sInodesPerGroup := 2048
  sRevLevel := 1
  sInodeSize := 128
  sDescSize := 0
  sFeatureIncompat := 0
  sFeatureRoCompat := 0
  sUuid := []
  sHashSeed _ := 0

def noFaults : Env := ⟨fun _ => none, fun _ => .error .noSpace⟩

variable (bytes : Nat → List UInt8) (count : UInt16)

def blockState : AllocState :=
  ⟨fun g => ⟨.ofNat g, 0, 0, count, 0, 0, 0, 0, 0, 0⟩, ⟨bytes, 0, 0⟩⟩

theorem blockState_bitmap (hg : g < 2) :
    (blocks.bitmap twoGroups ((blockState bytes count).groups g)).toNat = g := by
  have hall : ∀ g < 2, (GroupDesc.join twoGroups (.ofNat g) 0).toNat = g := by decide
  exact hall g hg

theorem blockState_bits (hg : g < 2) :
    blocks.bits twoGroups (blockState bytes count) g = bytes g := by
  rw [Resource.bits, blockState_bitmap bytes count hg]
  rfl

theorem size_twoGroups (hg : g < 2) : (blockNumbers twoGroups).size g = 8192 := by
  obtain rfl | rfl : g = 0 ∨ g = 1 := by omega
  · decide
  · decide

theorem blockState_ok {bytes : Nat → List UInt8} {count : UInt16} {p : Pool}
    (h : Pool.Ok (blockNumbers twoGroups) p A)
    (hbits : ∀ g < 2, bytes g = p.bits g) (hfree : ∀ g < 2, count.toNat = p.free g)
    (hlen : ∀ g < 2, (bytes g).length = 1024) : BlocksOk twoGroups (blockState bytes count) A := by
  refine ⟨⟨rfl, ?_, h.congr ?_ ?_⟩, ?_⟩
  · intro g hg k hk heq
    rw [← blockState_bitmap bytes count hg, heq, blockState_bitmap bytes count hk]
  · intro g hg
    exact (blockState_bits bytes count hg).trans (hbits g hg)
  · intro g hg
    exact (storedCount_of_not_64bit rfl).trans (hfree g hg)
  · intro g hg i hi hlt
    rw [size_twoGroups hg] at hi
    change i < 8 * (blocks.bits twoGroups (blockState bytes count) g).length at hlt
    rw [blockState_bits bytes count hg, hlen g hg] at hlt
    omega

theorem twoGroups_blank :
    Pool.Ok (blockNumbers twoGroups)
      ⟨fun _ => .replicate 1024 0, (blockNumbers twoGroups).size⟩ ∅ :=
  Pool.Ok.blank 1024 fun _ hg => (size_twoGroups hg).le

set_option maxRecDepth 8000 in
theorem fresh_block_allocator_sound :
    ∃ st', allocateBlocks twoGroups noFaults 3 0 (blockState (fun _ => .replicate 1024 0) 8192) =
      .ok 0 st' ∧ BlocksSound twoGroups noFaults st' {0, 1, 2} := by
  obtain ⟨st', hrun⟩ : ∃ st', allocateBlocks twoGroups noFaults 3 0
      (blockState (fun _ => .replicate 1024 0) 8192) = .ok 0 st' := ⟨_, rfl⟩
  have hok : BlocksOk twoGroups (blockState (fun _ => .replicate 1024 0) 8192) ∅ :=
    blockState_ok twoGroups_blank (fun _ _ => rfl) (fun _ hg => (size_twoGroups hg).symm)
      fun _ _ => List.length_replicate
  exact ⟨st', hrun, block_allocator_sound ⟨rfl, by decide⟩ hok (.single (.allocated hrun))⟩

def straddling : Nat → List UInt8
  | 0 => putBits (.replicate 1024 0) 8191 1
  | _ + 1 => putBits (.replicate 1024 0) 0 1

theorem straddling_ok : BlocksOk twoGroups (blockState straddling 8191) {8191, 8192} := by
  obtain ⟨-, -, hfirst⟩ := twoGroups_blank.take (g := 0) (i := 8191) (c := 1) (by decide)
    (by decide) fun j _ _ => bitAt_replicate_zero 1024 j
  obtain ⟨-, -, hsecond⟩ := hfirst.take (g := 1) (i := 0) (c := 1) (by decide) (by decide)
    fun j _ _ => bitAt_replicate_zero 1024 j
  refine blockState_ok hsecond ?_ ?_ ?_
  · intro g hg
    obtain rfl | rfl : g = 0 ∨ g = 1 := by omega
    · rw [Pool.bits_set, if_neg Nat.zero_ne_one, Pool.bits_set, if_pos rfl]
      rfl
    · rw [Pool.bits_set, if_pos rfl]
      rfl
  · intro g hg
    obtain rfl | rfl : g = 0 ∨ g = 1 := by omega
    · rfl
    · rfl
  · intro g hg
    obtain rfl | rfl : g = 0 ∨ g = 1 := by omega
    all_goals rw [straddling, length_putBits, List.length_replicate]

/-- The last block of one group and the first of the next, freed as one range, are both counted for
the first group, and the second of them stays in use. -/
theorem freed_across_groups : BlocksOk twoGroups (blockState straddling 8191) {8191, 8192} ∧
    ∃ st', freeBlocks twoGroups noFaults 8191 2 (blockState straddling 8191) = .ok () st' ∧
      (st'.groups 0).freeBlocksCount twoGroups = 8193 ∧
      bitAt (blocks.bits twoGroups st' 1) 0 = true := by
  refine ⟨straddling_ok, ?_⟩
  have hfree := freeBlocks_outcome twoGroups noFaults (blockState straddling 8191) 8191 2
    (g := 0) (i := 8191) (by decide) (by decide)
  obtain ⟨_, _, hfreed, -, rfl⟩ := hfree.exists_ok (by
    rintro _ _ (⟨-, hge⟩ | ⟨_, _, _, _, hfault⟩)
    · exact absurd hge (by decide)
    · exact hfault rfl)
  refine ⟨_, hfreed, rfl, ?_⟩
  rw [Resource.bits_put (straddling_ok.ok.apart.idle (.tick _)) (by decide) (by decide),
    if_neg Nat.one_ne_zero, Resource.bits_idle (.tick _),
    blockState_bits straddling 8191 (by decide),
    show straddling 1 = putBit (.replicate 1024 0) 0 from rfl]
  exact bitAt_putBit_self (by rw [List.length_replicate]; decide)

end Gergios.Ext4
