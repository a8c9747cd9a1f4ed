import Gergios.Ext4.GroupDesc

/-!
# The inode allocator
-/

namespace Gergios.Ext4

open Lib Nat

def inodeToGroup (ino : UInt32) (sb : Geometry) : UInt32 := (ino - 1) / sb.sInodesPerGroup

def inodeToGroupIndex (ino : UInt32) (sb : Geometry) : UInt32 := (ino - 1) % sb.sInodesPerGroup

section Model

variable (sb : Geometry) (env : Env)

def tryAllocateInode (group : UInt32) : EStateM Stop AllocState (Option UInt32) := do
  let gd := (← get).groups group.toNat
  let freeInodes := gd.freeInodesCount sb
  if freeInodes = 0 then return none
  let bitmapBlock := (gd.inodeBitmap sb).toNat
  let bitmap ← onDevice (env.readBlock bitmapBlock)
  let firstIno := group * sb.sInodesPerGroup + 1
  match firstClear bitmap 0 sb.sInodesPerGroup.toNat with
  | some i =>
    onDevice (env.writeBlock bitmapBlock (putBit bitmap i))
    setGroup group.toNat (gd.setFreeInodesCount sb (freeInodes - 1))
    return some (firstIno + .ofNat i)
  | none => return none

def allocateInode (preferGroup : UInt32) : EStateM Stop AllocState UInt32 :=
  searchGroups sb (tryAllocateInode sb env) preferGroup 0 sb.blockGroupsCount.toNat

def freeInode (ino : UInt32) : EStateM Stop AllocState Unit := do
  let group := inodeToGroup ino sb
  let index := inodeToGroupIndex ino sb
  if group ≥ sb.blockGroupsCount then throw (.err .notFound)
  let gd := (← get).groups group.toNat
  let bitmapBlock := (gd.inodeBitmap sb).toNat
  let bitmap ← onDevice (env.readBlock bitmapBlock)
  onDevice (env.writeBlock bitmapBlock (dropBit bitmap index.toNat))
  setGroup group.toNat (gd.setFreeInodesCount sb (gd.freeInodesCount sb + 1))

end Model

variable {sb : Geometry} {env : Env} {st : AllocState}

/-! ### One call -/

def InodesFull (sb : Geometry) (group : UInt32) (st : AllocState) : Prop :=
  (st.groups group.toNat).freeInodesCount sb = 0 ∨
    ∀ i < sb.sInodesPerGroup.toNat, bitAt (inodes.bits sb st group.toNat) i = true

def InodeTaken (sb : Geometry) (group : UInt32) (st : AllocState) (ino : UInt32)
    (st' : AllocState) : Prop :=
  ∃ i < sb.sInodesPerGroup.toNat, bitAt (inodes.bits sb st group.toNat) i = false ∧
    (st.groups group.toNat).freeInodesCount sb ≠ 0 ∧
    ino = group * sb.sInodesPerGroup + 1 + .ofNat i ∧
    st' = inodes.put sb st.tick group.toNat (putBit (inodes.bits sb st group.toNat) i)
      ((st.groups group.toNat).freeInodesCount sb - 1)

variable {ino group : UInt32} {i : Nat}
  {preferGroup : UInt32} {s s' : AllocState × Finset Nat} {A : Finset Nat}

theorem tryAllocateInode_of_zero (group : UInt32)
    (h0 : (st.groups group.toNat).freeInodesCount sb = 0) :
    tryAllocateInode sb env group st = .ok none st := by
  rw [tryAllocateInode, run_bind_ok (run_get st)]
  rw [if_pos h0]
  rfl

theorem tryAllocateInode_attempts :
    Attempts env (tryAllocateInode sb env) (InodesFull sb) (InodeTaken sb) := by
  intro group st
  apply Outcome.bind_ok (run_get st)
  rcases eq_or_ne ((st.groups group.toNat).freeInodesCount sb) 0 with h0 | h0
  · rw [if_pos h0]
    exact Outcome.pure ⟨.refl st, .inl h0⟩
  rw [if_neg h0]
  refine (readBlock_outcome env _ st).bind ?_
  rintro bitmap _ ⟨hbits, rfl⟩
  obtain rfl : bitmap = inodes.bits sb st group.toNat := hbits
  cases hfirst : firstClear (inodes.bits sb st group.toNat) 0 sb.sInodesPerGroup.toNat with
  | none =>
    refine Outcome.pure ⟨.tick st, .inr fun i hi => ?_⟩
    exact firstClear_eq_none hfirst (Nat.zero_le i) (by omega)
  | some i =>
    obtain ⟨hi, hclear⟩ := firstClear_eq_some hfirst
    refine ((writeBlock_outcome env _ _ st.tick).mono (fun _ _ h => h)
      fun _ _ h => h.of_idle (.tick st)).bind ?_
    rintro _ _ rfl
    exact Outcome.bind_ok rfl (Outcome.pure ⟨i, by omega, hclear, h0, rfl, rfl⟩)

theorem InodesFull.of_idle (group : UInt32) (st st' : AllocState) (h : Idle st st')
    (hfull : InodesFull sb group st') : InodesFull sb group st := by
  rwa [InodesFull, Resource.bits, h.groups, h.dev] at hfull

variable (sb env st) in
theorem freeInode_outcome (ino : UInt32) (hg : inodeToGroup ino sb < sb.blockGroupsCount) :
    Outcome (freeInode sb env ino) st (fun _ st' => st' =
      inodes.put sb st.tick (inodeToGroup ino sb).toNat
        (dropBit (inodes.bits sb st (inodeToGroup ino sb).toNat) (inodeToGroupIndex ino sb).toNat)
        ((st.groups (inodeToGroup ino sb).toNat).freeInodesCount sb + 1)) (Fails env st) := by
  rw [freeInode, if_neg (UInt32.not_le.mpr hg)]
  apply Outcome.bind_ok (run_get st)
  exact inodes.rewrite_outcome env sb st _ (dropBit · _) _

/-! ### Numbers of inodes -/

/-- The geometries for which the allocator works: the number of a group's inodes fits the count of
its descriptor, and the superblock counts the inodes of all groups. -/
structure InodeGeometry (sb : Geometry) : Prop where
  fits : sb.sInodesPerGroup.toNat < 2 ^ 16
  total : sb.sInodesCount.toNat = sb.blockGroupsCount.toNat * sb.sInodesPerGroup.toNat

def inodeNumbers (sb : Geometry) : Numbering where
  groups := sb.blockGroupsCount.toNat
  size _ := sb.sInodesPerGroup.toNat
  num g i := g * sb.sInodesPerGroup.toNat + i + 1
  inj _ _ _ _ hi hj heq := mul_add_inj hi hj (succ.inj heq)

theorem toNat_ino_sub_one (h1 : 1 ≤ ino.toNat) : (ino - 1).toNat = ino.toNat - 1 :=
  UInt32.toNat_sub_of_le ino 1 (UInt32.le_iff_toNat_le.mpr h1)

section Numbers

variable (hsb : InodeGeometry sb)
include hsb

theorem InodeGeometry.num_le {g : Nat} (hg : g < sb.blockGroupsCount.toNat)
    (hi : i < sb.sInodesPerGroup.toNat) : (inodeNumbers sb).num g i ≤ sb.sInodesCount.toNat := by
  have hmul := Nat.mul_le_mul_right sb.sInodesPerGroup.toNat (succ_le_of_lt hg)
  rw [succ_mul, ← hsb.total] at hmul
  change g * sb.sInodesPerGroup.toNat + i + 1 ≤ _
  omega

theorem InodeGeometry.toNat_ino
    (hg : group.toNat < sb.blockGroupsCount.toNat) (hi : i < sb.sInodesPerGroup.toNat) :
    (group * sb.sInodesPerGroup + 1 + .ofNat i).toNat = (inodeNumbers sb).num group.toNat i := by
  have hle := hsb.num_le hg hi
  have hlt := sb.sInodesCount.toNat_lt
  change group.toNat * sb.sInodesPerGroup.toNat + i + 1 ≤ _ at hle
  change _ = group.toNat * sb.sInodesPerGroup.toNat + i + 1
  rw [UInt32.toNat_add, UInt32.toNat_add, UInt32.toNat_mul, UInt32.toNat_ofNat', UInt32.toNat_one]
  omega

section

variable (h1 : 1 ≤ ino.toNat)

include h1

section

variable (hle : ino.toNat ≤ sb.sInodesCount.toNat)

include hle

theorem InodeGeometry.pos : 0 < sb.sInodesPerGroup.toNat := by
  rw [Nat.pos_iff_ne_zero]
  intro hzero
  rw [hsb.total, hzero] at hle
  omega

theorem InodeGeometry.index_lt : (inodeToGroupIndex ino sb).toNat < sb.sInodesPerGroup.toNat := by
  exact mod_lt _ (hsb.pos h1 hle)

omit hle in
omit hsb in
theorem num_group :
    (inodeNumbers sb).num (inodeToGroup ino sb).toNat (inodeToGroupIndex ino sb).toNat =
      ino.toNat := by
  change (inodeToGroup ino sb).toNat * _ + _ + 1 = _
  rw [inodeToGroup, inodeToGroupIndex, UInt32.toNat_div, UInt32.toNat_mod, Nat.mul_comm,
    div_add_mod, toNat_ino_sub_one h1]
  omega

theorem InodeGeometry.group_lt : (inodeToGroup ino sb).toNat < sb.blockGroupsCount.toNat := by
  rw [inodeToGroup, UInt32.toNat_div, Nat.div_lt_iff_lt_mul (hsb.pos h1 hle), ← hsb.total,
    toNat_ino_sub_one h1]
  omega

end

end

end Numbers

/-! ### Runs of the allocator -/

def InodeFree (sb : Geometry) (st : AllocState) (ino : UInt32) : Prop :=
  bitAt (inodes.bits sb st (inodeToGroup ino sb).toNat) (inodeToGroupIndex ino sb).toNat = false

inductive InodeStep (sb : Geometry) (env : Env) :
    AllocState × Finset Nat → AllocState × Finset Nat → Prop
  | allocated {st st' : AllocState} {A : Finset Nat} {preferGroup ino : UInt32}
      (h : allocateInode sb env preferGroup st = .ok ino st') :
      InodeStep sb env (st, A) (st', insert ino.toNat A)
  | noneAllocated {st st' : AllocState} {A : Finset Nat} {preferGroup : UInt32} {e : Stop}
      (h : allocateInode sb env preferGroup st = .error e st') : InodeStep sb env (st, A) (st', A)
  | freed {st st' : AllocState} {A : Finset Nat} {ino : UInt32} (hino : ino.toNat ∈ A)
      (h : freeInode sb env ino st = .ok () st') :
      InodeStep sb env (st, A) (st', A.erase ino.toNat)
  | noneFreed {st st' : AllocState} {A : Finset Nat} {ino : UInt32} {e : Stop}
      (hino : ino.toNat ∈ A) (h : freeInode sb env ino st = .error e st') :
      InodeStep sb env (st, A) (st', A)

/-- What can be said of the allocator when the inodes in `A` are in use. -/
structure InodesSound (sb : Geometry) (env : Env) (st : AllocState) (A : Finset Nat) : Prop where
  counts : ∀ g < sb.blockGroupsCount.toNat, ((st.groups g).freeInodesCount sb).toNat =
    (clearBits (inodes.bits sb st g) sb.sInodesPerGroup.toNat).card
  free : ∀ ino : UInt32, 1 ≤ ino.toNat → ino.toNat ≤ sb.sInodesCount.toNat →
    (InodeFree sb st ino ↔ ino.toNat ∉ A)
  fresh : ∀ preferGroup ino st', allocateInode sb env preferGroup st = .ok ino st' →
    1 ≤ ino.toNat ∧ ino.toNat ≤ sb.sInodesCount.toNat ∧ ino.toNat ∉ A
  full : ∀ preferGroup e st', preferGroup.toNat + sb.blockGroupsCount.toNat ≤ 2 ^ 32 →
    allocateInode sb env preferGroup st = .error e st' → Faulted env st st' ∨
      ∀ g < sb.blockGroupsCount.toNat, ∀ i < sb.sInodesPerGroup.toNat,
        bitAt (inodes.bits sb st g) i = true
  freed : ∀ ino st', ino.toNat ∈ A → freeInode sb env ino st = .ok () st' →
    ∀ k : UInt32, 1 ≤ k.toNat → k.toNat ≤ sb.sInodesCount.toNat →
      (InodeFree sb st' k ↔ InodeFree sb st k ∨ k = ino)
  notFreed : ∀ ino e st', ino.toNat ∈ A → freeInode sb env ino st = .error e st' →
    Faulted env st st'

section Runs

variable {st' : AllocState} {A : Finset Nat} (hsb : InodeGeometry sb)
  (h : inodes.Ok sb (inodeNumbers sb) st A)
include hsb h

theorem inodes_range (hino : ino.toNat ∈ A) :
    1 ≤ ino.toNat ∧ ino.toNat ≤ sb.sInodesCount.toNat := by
  obtain ⟨g, hg, i, hi, heq⟩ := h.pool.within _ hino
  rw [← heq]
  exact ⟨Nat.le_add_left _ _, hsb.num_le hg hi⟩

theorem inodeFree_iff (h1 : 1 ≤ ino.toNat)
    (hle : ino.toNat ≤ sb.sInodesCount.toNat) : InodeFree sb st ino ↔ ino.toNat ∉ A := by
  have hused := h.pool.used _ (hsb.group_lt h1 hle) _ (hsb.index_lt h1 hle)
  rw [num_group h1] at hused
  rw [hused, Bool.not_eq_true]
  rfl

theorem inodeTaken_ok (hg : group.toNat < sb.blockGroupsCount.toNat)
    (htaken : InodeTaken sb group st ino st') :
    (1 ≤ ino.toNat ∧ ino.toNat ≤ sb.sInodesCount.toNat ∧ ino.toNat ∉ A) ∧
      inodes.Ok sb (inodeNumbers sb) st' (insert ino.toNat A) := by
  obtain ⟨i, hi, hclear, -, rfl, rfl⟩ := htaken
  rw [hsb.toNat_ino hg hi]
  obtain ⟨hdisj, hok⟩ := (h.idle (.tick st)).take (c := 1) hg hsb.fits hi (by
    intro j h1 h2
    obtain rfl : j = i := by omega
    exact hclear)
  rw [Numbering.span_one, Finset.disjoint_singleton_right] at hdisj
  rw [Numbering.span_one, Finset.union_comm] at hok
  exact ⟨⟨Nat.le_add_left _ _, hsb.num_le hg hi, hdisj⟩, hok⟩

theorem allocateInode_ok (hrun : allocateInode sb env preferGroup st = .ok ino st') :
    (1 ≤ ino.toNat ∧ ino.toNat ≤ sb.sInodesCount.toNat ∧ ino.toNat ∉ A) ∧
      inodes.Ok sb (inodeNumbers sb) st' (insert ino.toNat A) := by
  obtain ⟨st₁, group, hpos, hidle, htaken⟩ :=
    (searchGroups_outcome tryAllocateInode_attempts InodesFull.of_idle preferGroup 0 _ st).of_ok
      hrun
  refine inodeTaken_ok hsb (h.idle hidle) ?_ htaken
  exact mod_lt _ hpos

theorem InodesFull.bits (hg : group.toNat < sb.blockGroupsCount.toNat)
    (hfull : InodesFull sb group st) (hi : i < sb.sInodesPerGroup.toNat) :
    bitAt (inodes.bits sb st group.toNat) i = true := by
  rcases hfull with hzero | hset
  · have hcount := h.toNat_count hg hsb.fits
    rw [show inodes.count sb (st.groups group.toNat) = 0 from hzero] at hcount
    have hnone := Finset.card_eq_zero.mp (hcount.trans (h.pool.counts _ hg)).symm
    rw [← Bool.not_eq_false]
    intro hclear
    have hmem := mem_clearBits.mpr ⟨hi, hclear⟩
    exact Finset.notMem_empty i (hnone ▸ hmem)
  · exact hset i hi

theorem allocateInode_error {e : Stop} (hrun : allocateInode sb env preferGroup st = .error e st') :
    Idle st st' ∧ (preferGroup.toNat + sb.blockGroupsCount.toNat ≤ 2 ^ 32 → Faulted env st st' ∨
      ∀ g < sb.blockGroupsCount.toNat, ∀ i < sb.sInodesPerGroup.toNat,
        bitAt (inodes.bits sb st g) i = true) := by
  obtain ⟨hidle, hor⟩ := (searchGroups_outcome tryAllocateInode_attempts InodesFull.of_idle
    preferGroup 0 _ st).of_error hrun
  refine ⟨hidle, fun hp => hor.imp_right fun hall g hg i hi => ?_⟩
  obtain ⟨j, hj, rfl⟩ := exists_group hp hg
  exact (hall j hj).bits hsb h hg hi

theorem freeInode_ok (hino : ino.toNat ∈ A) (hrun : freeInode sb env ino st = .ok () st') :
    inodes.Ok sb (inodeNumbers sb) st' (A.erase ino.toNat) := by
  obtain ⟨h1, hle⟩ := inodes_range hsb h hino
  have hg := hsb.group_lt h1 hle
  have hspan : (inodeNumbers sb).span (inodeToGroup ino sb).toNat
      (inodeToGroupIndex ino sb).toNat 1 = {ino.toNat} := by
    rw [Numbering.span_one, num_group h1]
  have hok := (h.idle (.tick st)).give hg hsb.fits (hsb.index_lt h1 hle)
    (by rw [hspan]; exact Finset.singleton_subset_iff.mpr hino)
  rw [hspan, ← Finset.erase_eq] at hok
  rw [(freeInode_outcome sb env st ino (UInt32.lt_iff_toNat_lt.mpr hg)).of_ok hrun]
  exact hok

theorem freeInode_error {e : Stop} (hino : ino.toNat ∈ A)
    (hrun : freeInode sb env ino st = .error e st') : Idle st st' ∧ Faulted env st st' := by
  obtain ⟨h1, hle⟩ := inodes_range hsb h hino
  have hg := hsb.group_lt h1 hle
  exact (freeInode_outcome sb env st ino (UInt32.lt_iff_toNat_lt.mpr hg)).of_error hrun

theorem Resource.Ok.inodesSound : InodesSound sb env st A where
  counts g hg := (h.toNat_count hg hsb.fits).trans (h.pool.counts g hg)
  free ino h1 hle := inodeFree_iff hsb h h1 hle
  fresh preferGroup ino st' hrun := (allocateInode_ok hsb h hrun).1
  full preferGroup e st' hp hrun := (allocateInode_error hsb h hrun).2 hp
  freed ino st' hino hrun k h1 hle := by
    rw [inodeFree_iff hsb h h1 hle, inodeFree_iff hsb (freeInode_ok hsb h hino hrun) h1 hle,
      Finset.mem_erase, UInt32.toNat_inj.ne]
    tauto
  notFreed ino e st' hino hrun := (freeInode_error hsb h hino hrun).2

omit h in
theorem InodeStep.ok (hs : inodes.Ok sb (inodeNumbers sb) s.1 s.2) (hstep : InodeStep sb env s s') :
    inodes.Ok sb (inodeNumbers sb) s'.1 s'.2 := by
  cases hstep with
  | allocated hrun => exact (allocateInode_ok hsb hs hrun).2
  | noneAllocated hrun => exact hs.idle (allocateInode_error hsb hs hrun).1
  | freed hino hrun => exact freeInode_ok hsb hs hino hrun
  | noneFreed hino hrun => exact hs.idle (freeInode_error hsb hs hino hrun).1

omit h in
theorem InodeStep.run_ok (hs : inodes.Ok sb (inodeNumbers sb) s.1 s.2)
    (hrun : Relation.ReflTransGen (InodeStep sb env) s s') :
    inodes.Ok sb (inodeNumbers sb) s'.1 s'.2 := by
  induction hrun with
  | refl => exact hs
  | tail _ hstep ih => exact hstep.ok hsb ih

end Runs

/-- Whatever is allocated and freed, the bitmaps and the counts say which inodes are in use. -/
theorem inode_allocator_sound {st₀ : AllocState} {A₀ : Finset Nat} (hsb : InodeGeometry sb)
    (h₀ : inodes.Ok sb (inodeNumbers sb) st₀ A₀)
    (hrun : Relation.ReflTransGen (InodeStep sb env) (st₀, A₀) (st, A)) : InodesSound sb env st A :=
  (InodeStep.run_ok hsb h₀ hrun : inodes.Ok sb (inodeNumbers sb) st A).inodesSound hsb

def oneGroup (logBlockSize : Fin 17) (inodesPerGroup : UInt32) : Geometry where
  sLogBlockSize := logBlockSize
  sLogBlockSize_le := le_of_lt_succ logBlockSize.isLt
  sInodesCount := inodesPerGroup
  sBlocksCountLo := 8192
  sBlocksCountHi := 0
  sFirstDataBlock := 0
  sBlocksPerGroup := 8192
  sInodesPerGroup := inodesPerGroup
  sRevLevel := 1
  sInodeSize := 128
  sDescSize := 0
  sFeatureIncompat := 0
  sFeatureRoCompat := 0
  sUuid := []
  sHashSeed _ := 0

def faultless : Env := ⟨fun _ => none, fun _ => .error .noSpace⟩

def inodeState (bytes : List UInt8) (count : UInt16) : AllocState :=
  ⟨fun _ => ⟨0, 0, 0, 0, count, 0, 0, 0, 0, 0⟩, ⟨fun _ => bytes, 0, 0⟩⟩

theorem blockGroupsCount_oneGroup (logBlockSize : Fin 17) (inodesPerGroup : UInt32) :
    (oneGroup logBlockSize inodesPerGroup).blockGroupsCount = 1 := by
  rw [Geometry.blockGroupsCount, Geometry.blocksCount, oneGroup]
  dsimp only
  exact (if_neg (by decide)).trans (by decide)

theorem inodeState_ok {logBlockSize : Fin 17} {inodesPerGroup : UInt32} {bytes : List UInt8}
    {count : UInt16} {p : Pool}
    (h : Pool.Ok (inodeNumbers (oneGroup logBlockSize inodesPerGroup)) p A)
    (hbits : p.bits 0 = bytes) (hfree : p.free 0 = count.toNat) :
    inodes.Ok (oneGroup logBlockSize inodesPerGroup)
      (inodeNumbers (oneGroup logBlockSize inodesPerGroup)) (inodeState bytes count) A := by
  have hzero : ∀ g < (oneGroup logBlockSize inodesPerGroup).blockGroupsCount.toNat, g = 0 := by
    intro g hg
    rw [blockGroupsCount_oneGroup] at hg
    exact lt_one_iff.mp hg
  refine ⟨rfl, ?_, h.congr ?_ ?_⟩
  · intro g hg k hk _
    rw [hzero g hg, hzero k hk]
  · intro g hg
    rw [hzero g hg]
    exact hbits.symm
  · intro g hg
    rw [hzero g hg, hfree]
    exact storedCount_of_not_64bit (by rw [Geometry.has64bit, oneGroup]; dsimp only; decide)

set_option maxRecDepth 8000 in
theorem fresh_inode_allocator_sound :
    ∃ st', allocateInode (oneGroup 0 2048) faultless 0 (inodeState (.replicate 1024 0) 2048) =
      .ok 1 st' ∧ InodesSound (oneGroup 0 2048) faultless st' {1} := by
  obtain ⟨st', hrun⟩ : ∃ st', allocateInode (oneGroup 0 2048) faultless 0
      (inodeState (.replicate 1024 0) 2048) = .ok 1 st' := ⟨_, rfl⟩
  have hblank := Pool.Ok.blank (N := inodeNumbers (oneGroup 0 2048)) 1024
    fun _ _ => show 2048 ≤ 8 * 1024 by decide
  exact ⟨st', hrun, inode_allocator_sound ⟨by decide, by decide⟩
    (inodeState_ok hblank rfl rfl) (.single (.allocated hrun))⟩

/-- In a group of 65536 inodes, the count wraps around to zero with the last inode to be freed, and
the allocator finds nothing in a file system without any inode in use. -/
theorem freed_group_seems_full : inodes.Ok (oneGroup 3 65536) (inodeNumbers (oneGroup 3 65536))
      (inodeState (putBits (.replicate 8192 0) 0 1) 65535) {1} ∧
    ∃ st', freeInode (oneGroup 3 65536) faultless 1
        (inodeState (putBits (.replicate 8192 0) 0 1) 65535) = .ok () st' ∧
      (st'.groups 0).freeInodesCount (oneGroup 3 65536) = 0 ∧
      bitAt (inodes.bits (oneGroup 3 65536) st' 0) 0 = false ∧
      ∃ st'', allocateInode (oneGroup 3 65536) faultless 0 st' = .error (.err .noSpace) st'' := by
  have hblank := Pool.Ok.blank (N := inodeNumbers (oneGroup 3 65536)) 8192
    fun _ _ => show 65536 ≤ 8 * 8192 by decide
  obtain ⟨-, -, htaken⟩ := hblank.take (g := 0) (i := 0) (c := 1) (by decide) (by decide)
    fun j _ _ => bitAt_replicate_zero 8192 j
  have hok : inodes.Ok (oneGroup 3 65536) (inodeNumbers (oneGroup 3 65536))
      (inodeState (putBits (.replicate 8192 0) 0 1) 65535) {1} :=
    inodeState_ok htaken ((Pool.bits_set _ 0).trans (if_pos rfl))
      ((Pool.free_set _ 0).trans (if_pos rfl))
  have hnone : ∀ st, (st.groups 0).freeInodesCount (oneGroup 3 65536) = 0 →
      allocateInode (oneGroup 3 65536) faultless 0 st = .error (.err .noSpace) st :=
    fun _ h0 => run_bind_ok (tryAllocateInode_of_zero 0 h0)
  have hfree := freeInode_outcome (oneGroup 3 65536) faultless
    (inodeState (putBits (.replicate 8192 0) 0 1) 65535) 1 (by decide)
  rw [show (inodeToGroup 1 (oneGroup 3 65536)).toNat = 0 by decide,
    show (inodeToGroupIndex 1 (oneGroup 3 65536)).toNat = 0 by decide] at hfree
  obtain ⟨_, _, hfreed, rfl⟩ := hfree.exists_ok fun _ _ ⟨_, _, _, _, hfault⟩ => hfault rfl
  refine ⟨hok, _, hfreed, rfl, ?_, _, hnone _ rfl⟩
  rw [Resource.bits_put (hok.apart.idle (.tick _)) (by decide) (by decide), if_pos rfl]
  refine bitAt_dropBit_self ?_
  rw [Resource.bits, inodeState, length_putBits, List.length_replicate]
  decide

end Gergios.Ext4
