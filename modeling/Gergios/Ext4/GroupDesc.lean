import Gergios.Lib.Pool
import Gergios.Ext4.Device

/-!
# Block groups

The fields of the superblock that say how the device is divided, and the descriptors of the groups.
-/

namespace Gergios.Ext4

open Lib Function Nat

structure Geometry extends Superblock where
  sInodesCount : UInt32
  sBlocksCountLo : UInt32
  sBlocksCountHi : UInt32
  sFirstDataBlock : UInt32
  sBlocksPerGroup : UInt32
  sInodesPerGroup : UInt32
  sRevLevel : UInt32
  sInodeSize : UInt16
  sDescSize : UInt16
  sFeatureIncompat : UInt32
  sFeatureRoCompat : UInt32
  sUuid : List UInt8
  sHashSeed : Fin 4 → UInt32

namespace Geometry

variable (sb : Geometry)

def blocksCount : UInt64 := sb.sBlocksCountLo.toUInt64 ||| (sb.sBlocksCountHi.toUInt64 <<< 32)

def blockGroupsCount : UInt32 :=
  let blocks := sb.blocksCount
  let bg := blocks / sb.sBlocksPerGroup.toUInt64
  if blocks % sb.sBlocksPerGroup.toUInt64 ≠ 0 then (bg + 1).toUInt32 else bg.toUInt32

def descSize : Nat := if sb.sDescSize ≠ 0 then sb.sDescSize.toNat else 32

def has64bit : Bool := sb.sFeatureIncompat &&& 0x0080 != 0

def hasMetadataCsum : Bool := sb.sFeatureRoCompat &&& 0x0400 != 0

def inodeSize : Nat := if sb.sRevLevel = 0 then 128 else sb.sInodeSize.toNat

end Geometry

structure GroupDesc where
  bgBlockBitmapLo : UInt32
  bgInodeBitmapLo : UInt32
  bgInodeTableLo : UInt32
  bgFreeBlocksCountLo : UInt16
  bgFreeInodesCountLo : UInt16
  bgBlockBitmapHi : UInt32
  bgInodeBitmapHi : UInt32
  bgInodeTableHi : UInt32
  bgFreeBlocksCountHi : UInt16
  bgFreeInodesCountHi : UInt16

/-- `saturating_add` on `u16`. -/
def saturatingAdd (a b : UInt16) : UInt16 := .ofNat (min (a.toNat + b.toNat) 65535)

namespace GroupDesc

variable (gd : GroupDesc) (sb : Geometry)

def join (lo hi : UInt32) : UInt64 :=
  lo.toUInt64 ||| ((if sb.has64bit then hi.toUInt64 else 0) <<< 32)

def blockBitmap : UInt64 := join sb gd.bgBlockBitmapLo gd.bgBlockBitmapHi

def inodeBitmap : UInt64 := join sb gd.bgInodeBitmapLo gd.bgInodeBitmapHi

def inodeTable : UInt64 := join sb gd.bgInodeTableLo gd.bgInodeTableHi

def freeBlocksCount : UInt16 :=
  saturatingAdd gd.bgFreeBlocksCountLo (if sb.has64bit then gd.bgFreeBlocksCountHi else 0)

def setFreeBlocksCount (count : UInt16) : GroupDesc :=
  { gd with
    bgFreeBlocksCountLo := count
    bgFreeBlocksCountHi := if sb.has64bit then 0 else gd.bgFreeBlocksCountHi }

def freeInodesCount : UInt16 :=
  saturatingAdd gd.bgFreeInodesCountLo (if sb.has64bit then gd.bgFreeInodesCountHi else 0)

def setFreeInodesCount (count : UInt16) : GroupDesc :=
  { gd with
    bgFreeInodesCountLo := count
    bgFreeInodesCountHi := if sb.has64bit then 0 else gd.bgFreeInodesCountHi }

end GroupDesc

/-! ### Counts in a descriptor -/

def storedCount (sb : Geometry) (lo hi : UInt16) : Nat :=
  lo.toNat + 2 ^ 16 * (if sb.has64bit then hi.toNat else 0)

variable {sb : Geometry}

theorem toNat_saturatingAdd {lo hi : UInt16} (h : storedCount sb lo hi < 2 ^ 16) :
    (saturatingAdd lo (if sb.has64bit then hi else 0)).toNat = storedCount sb lo hi := by
  rw [saturatingAdd, UInt16.toNat_ofNat']
  rw [storedCount] at *
  split at h
  · rename_i h64
    simp only [h64, if_true]
    omega
  · rename_i h64
    simp only [h64, if_false, Bool.false_eq_true]
    rw [UInt16.toNat_zero]
    omega

theorem storedCount_of_not_64bit {lo hi : UInt16} (h : sb.has64bit = false) :
    storedCount sb lo hi = lo.toNat := by
  rw [storedCount, h]
  simp

theorem storedCount_set (count hi : UInt16) :
    storedCount sb count (if sb.has64bit then 0 else hi) = count.toNat := by
  rw [storedCount]
  cases sb.has64bit <;> simp

/-! ### Allocators work on the descriptors and the device -/

structure AllocState where
  groups : Nat → GroupDesc
  world : World

def onDevice {α : Type} (m : EStateM Stop World α) : EStateM Stop AllocState α := fun st =>
  match m st.world with
  | .ok a x => .ok a { st with world := x }
  | .error e x => .error e { st with world := x }

def setGroup (group : Nat) (gd : GroupDesc) : EStateM Stop AllocState Unit := fun st =>
  .ok () { st with groups := update st.groups group gd }

/-- The groups are tried one after the other from `prefer_group` on; `k` are left. -/
def searchGroups {α : Type} (sb : Geometry)
    (tryGroup : UInt32 → EStateM Stop AllocState (Option α)) (preferGroup gi : UInt32) :
    Nat → EStateM Stop AllocState α
  | 0 => throw (.err .noSpace)
  | k + 1 => do
    match ← tryGroup ((preferGroup + gi) % sb.blockGroupsCount) with
    | some a => return a
    | none => searchGroups sb tryGroup preferGroup (gi + 1) k

/-! ### Calls of the device -/

namespace AllocState

def tick (st : AllocState) : AllocState :=
  { st with world := { st.world with calls := st.world.calls + 1 } }

def write (st : AllocState) (pbn : Nat) (buf : List UInt8) : AllocState :=
  { st with world := ⟨update st.world.dev pbn buf, st.world.calls + 1, st.world.allocs⟩ }

end AllocState

def Faulted (env : Env) (st st' : AllocState) : Prop :=
  ∃ n, st.world.calls ≤ n ∧ n < st'.world.calls ∧ env.fault n ≠ none

structure Idle (st st' : AllocState) : Prop where
  groups : st'.groups = st.groups
  dev : st'.world.dev = st.world.dev
  calls : st.world.calls ≤ st'.world.calls

variable {env : Env} {st st' st'' : AllocState}

theorem Idle.refl (st : AllocState) : Idle st st := ⟨rfl, rfl, Nat.le_refl _⟩

theorem Idle.tick (st : AllocState) : Idle st st.tick := ⟨rfl, rfl, le_succ _⟩

theorem Idle.trans (h : Idle st st') (h' : Idle st' st'') : Idle st st'' :=
  ⟨h'.groups.trans h.groups, h'.dev.trans h.dev, h.calls.trans h'.calls⟩

theorem Faulted.of_idle (h : Idle st st') (h' : Faulted env st' st'') : Faulted env st st'' := by
  obtain ⟨n, h1, h2, hn⟩ := h'
  exact ⟨n, h.calls.trans h1, h2, hn⟩

theorem faulted_tick {e : Ext4Error} (h : env.fault st.world.calls = some e) :
    Faulted env st st.tick :=
  ⟨st.world.calls, Nat.le_refl _, lt_succ_self _, by simp [h]⟩

variable (env)

/-- A call of the device has failed, and nothing has been written. -/
def Fails (st : AllocState) (_ : Stop) (st' : AllocState) : Prop := Idle st st' ∧ Faulted env st st'

variable {env} in
theorem Fails.of_idle {e : Stop} (h : Idle st st') (h' : Fails env st' e st'') :
    Fails env st e st'' :=
  ⟨h.trans h'.1, h'.2.of_idle h⟩

theorem readBlock_outcome (pbn : Nat) (st : AllocState) : Outcome (onDevice (env.readBlock pbn)) st
    (fun b st' => b = st.world.dev pbn ∧ st' = st.tick) (Fails env st) := by
  unfold Outcome onDevice Env.readBlock Env.attempt
  cases hfault : env.fault st.world.calls with
  | some e => exact ⟨.tick st, faulted_tick hfault⟩
  | none => exact ⟨rfl, rfl⟩

theorem writeBlock_outcome (pbn : Nat) (buf : List UInt8) (st : AllocState) :
    Outcome (onDevice (env.writeBlock pbn buf)) st (fun _ st' => st' = st.write pbn buf)
      (Fails env st) := by
  unfold Outcome onDevice Env.writeBlock Env.attempt
  cases hfault : env.fault st.world.calls with
  | some e => exact ⟨.tick st, faulted_tick hfault⟩
  | none => exact rfl

/-! ### The search -/

section Search

variable {α : Type} {tryGroup : UInt32 → EStateM Stop AllocState (Option α)}
  {Full : UInt32 → AllocState → Prop} {Done : UInt32 → AllocState → α → AllocState → Prop}

variable (tryGroup)

def Attempts (Full : UInt32 → AllocState → Prop)
    (Done : UInt32 → AllocState → α → AllocState → Prop) : Prop :=
  ∀ group st, Outcome (tryGroup group) st
    (fun r st' => match r with
      | none => Idle st st' ∧ Full group st
      | some a => Done group st a st') (Fails env st)

variable {tryGroup} {env}

theorem searchGroups_outcome (h : Attempts env tryGroup Full Done)
    (hfull : ∀ group st st', Idle st st' → Full group st' → Full group st)
    (preferGroup gi : UInt32) (k : Nat) (st : AllocState) :
    Outcome (searchGroups sb tryGroup preferGroup gi k) st
      (fun a st' => ∃ st₁ group, 0 < k ∧ Idle st st₁ ∧ Done (group % sb.blockGroupsCount) st₁ a st')
      fun _ st' => Idle st st' ∧ (Faulted env st st' ∨
        ∀ j < k, Full ((preferGroup + (gi + .ofNat j)) % sb.blockGroupsCount) st) := by
  induction k generalizing gi st with
  | zero => exact ⟨.refl st, .inr (by simp)⟩
  | succ k ih =>
    refine ((h _ st).mono (fun _ _ h => h) fun _ _ h => ⟨h.1, .inl h.2⟩).bind ?_
    rintro (_ | a) st' hr
    · obtain ⟨hidle, hthis⟩ := hr
      refine (ih (gi + 1) st').mono ?_ ?_
      · rintro a st'' ⟨st₁, group, -, hidle', hdone⟩
        exact ⟨st₁, group, k.succ_pos, hidle.trans hidle', hdone⟩
      · rintro e st'' ⟨hidle', hor⟩
        refine ⟨hidle.trans hidle', hor.imp (·.of_idle hidle) fun hall j hj => ?_⟩
        cases j with
        | zero => rwa [show gi + .ofNat 0 = gi from UInt32.add_zero gi]
        | succ j =>
          have hnext := hfull _ _ _ hidle (hall j (by omega))
          rwa [UInt32.add_assoc, UInt32.add_comm 1, show (1 : UInt32) = .ofNat 1 from rfl,
            ← UInt32.ofNat_add] at hnext
    · exact Outcome.pure ⟨st, _, k.succ_pos, .refl st, hr⟩

theorem exists_add_mod (p : Nat) {n g : Nat} (hg : g < n) : ∃ j < n, (p + j) % n = g := by
  have hr := mod_lt p (show 0 < n by omega)
  refine ⟨(g + (n - p % n)) % n, mod_lt _ (by omega), ?_⟩
  have hp : p + (g + (n - p % n)) = g + n * (p / n + 1) := by
    have := mod_add_div p n
    rw [mul_succ]
    omega
  rw [add_mod_mod, hp, add_mul_mod_self_left, mod_eq_of_lt hg]

theorem exists_group {preferGroup : UInt32}
    (hp : preferGroup.toNat + sb.blockGroupsCount.toNat ≤ 2 ^ 32) {g : Nat}
    (hg : g < sb.blockGroupsCount.toNat) : ∃ j < sb.blockGroupsCount.toNat,
      ((preferGroup + (0 + .ofNat j)) % sb.blockGroupsCount).toNat = g := by
  obtain ⟨j, hj, hmod⟩ := exists_add_mod preferGroup.toNat hg
  refine ⟨j, hj, ?_⟩
  rw [UInt32.zero_add, UInt32.toNat_mod, UInt32.toNat_add, UInt32.toNat_ofNat',
    mod_eq_of_lt (by omega : j < 2 ^ 32),
    mod_eq_of_lt (by omega : preferGroup.toNat + j < 2 ^ 32), hmod]

end Search

/-! ### Bitmaps and counts of the groups -/

structure Resource where
  bitmap : Geometry → GroupDesc → UInt64
  free : Geometry → GroupDesc → Nat
  count : Geometry → GroupDesc → UInt16
  setCount : Geometry → GroupDesc → UInt16 → GroupDesc
  toNat_count : ∀ sb gd, free sb gd < 2 ^ 16 → (count sb gd).toNat = free sb gd
  bitmap_setCount : ∀ sb gd c, bitmap sb (setCount sb gd c) = bitmap sb gd
  free_setCount : ∀ sb gd c, free sb (setCount sb gd c) = c.toNat

def inodes : Resource where
  bitmap sb gd := gd.inodeBitmap sb
  free sb gd := storedCount sb gd.bgFreeInodesCountLo gd.bgFreeInodesCountHi
  count sb gd := gd.freeInodesCount sb
  setCount sb gd := gd.setFreeInodesCount sb
  toNat_count _ _ := toNat_saturatingAdd
  bitmap_setCount _ _ _ := rfl
  free_setCount _ _ c := storedCount_set c _

def blocks : Resource where
  bitmap sb gd := gd.blockBitmap sb
  free sb gd := storedCount sb gd.bgFreeBlocksCountLo gd.bgFreeBlocksCountHi
  count sb gd := gd.freeBlocksCount sb
  setCount sb gd := gd.setFreeBlocksCount sb
  toNat_count _ _ := toNat_saturatingAdd
  bitmap_setCount _ _ _ := rfl
  free_setCount _ _ c := storedCount_set c _

namespace Resource

variable (R : Resource) (sb : Geometry)

section

variable (st : AllocState)

def bits (g : Nat) : List UInt8 := st.world.dev (R.bitmap sb (st.groups g)).toNat

def put (g : Nat) (b : List UInt8) (count : UInt16) : AllocState :=
  ⟨update st.groups g (R.setCount sb (st.groups g) count),
    (st.write (R.bitmap sb (st.groups g)).toNat b).world⟩

def pool : Pool := ⟨R.bits sb st, fun g => R.free sb (st.groups g)⟩

def Apart : Prop :=
  ∀ g < sb.blockGroupsCount.toNat, ∀ k < sb.blockGroupsCount.toNat,
    R.bitmap sb (st.groups g) = R.bitmap sb (st.groups k) → g = k

end

def rewrite (env : Env) (gd : GroupDesc) (g : Nat) (f : List UInt8 → List UInt8) (count : UInt16) :
    EStateM Stop AllocState Unit := do
  let b ← onDevice (env.readBlock (R.bitmap sb gd).toNat)
  onDevice (env.writeBlock (R.bitmap sb gd).toNat (f b))
  setGroup g (R.setCount sb gd count)

theorem rewrite_outcome (st : AllocState) (g : Nat) (f : List UInt8 → List UInt8)
    (count : UInt16) : Outcome (R.rewrite sb env (st.groups g) g f count) st
      (fun _ st' => st' = R.put sb st.tick g (f (R.bits sb st g)) count) (Fails env st) := by
  refine (readBlock_outcome env _ st).bind ?_
  rintro _ _ ⟨rfl, rfl⟩
  refine ((writeBlock_outcome env _ _ st.tick).mono (fun _ _ h => h)
    fun _ _ h => h.of_idle (.tick st)).bind ?_
  rintro _ _ rfl
  exact rfl

variable {R sb} {N : Numbering} {A : Finset Nat} {g k : Nat} {b : List UInt8} {count : UInt16}

theorem bits_idle (h : Idle st st') : R.bits sb st' = R.bits sb st := by
  unfold bits
  rw [h.groups, h.dev]

theorem pool_idle (h : Idle st st') : R.pool sb st' = R.pool sb st := by
  rw [pool, pool, bits_idle h, h.groups]

section

variable (hst : R.Apart sb st)

include hst

theorem Apart.idle (h : Idle st st') : R.Apart sb st' := by
  rw [Apart, h.groups]
  exact hst

omit hst in
theorem bitmap_put (k : Nat) :
    R.bitmap sb ((R.put sb st g b count).groups k) = R.bitmap sb (st.groups k) := by
  rw [put]
  rcases eq_or_ne k g with rfl | hne
  · simp only [update_self, R.bitmap_setCount]
  · simp only [update_of_ne hne]

theorem Apart.put : R.Apart sb (R.put sb st g b count) := by
  intro g hg k hk
  rw [bitmap_put, bitmap_put]
  exact hst g hg k hk

section

variable (hg : g < sb.blockGroupsCount.toNat)

include hg

theorem bits_put (hk : k < sb.blockGroupsCount.toNat) :
    R.bits sb (R.put sb st g b count) k = if k = g then b else R.bits sb st k := by
  rw [bits, bitmap_put, Resource.put, AllocState.write]
  dsimp only
  split
  · rename_i heq
    rw [heq, update_self]
  · rename_i hne
    refine update_of_ne (fun heq => hne (hst k hk g hg ?_)) _ _
    rwa [UInt64.toNat_inj] at heq

theorem pool_put (hN : N.groups = sb.blockGroupsCount.toNat)
    (h : Pool.Ok N ((R.pool sb st).set g b count.toNat) A) :
    Pool.Ok N (R.pool sb (R.put sb st g b count)) A := by
  refine h.congr (fun k hk => ?_) fun k _ => ?_
  · rw [Pool.bits_set]
    exact bits_put hst hg (hN ▸ hk)
  · rw [Pool.free_set]
    change R.free sb ((R.put sb st g b count).groups k) = _
    rw [Resource.put]
    split
    · rename_i heq
      rw [heq]
      simp only [update_self, R.free_setCount]
    · rename_i hne
      simp only [update_of_ne hne]
      rfl

theorem padded_put (hN : N.groups = sb.blockGroupsCount.toNat) (h : Pool.Padded N (R.pool sb st))
    (hlen : b.length = (R.bits sb st g).length)
    (hb : ∀ i, N.size g ≤ i → bitAt (R.bits sb st g) i = true → bitAt b i = true) :
    Pool.Padded N (R.pool sb (R.put sb st g b count)) := by
  refine (h.set (c := 0) hlen hb).congr fun k hk => ?_
  rw [Pool.bits_set]
  exact bits_put hst hg (hN ▸ hk)

end

end

/-- The items in `A` are in use: the bitmaps and the counts of the groups say so. -/
structure Ok (R : Resource) (sb : Geometry) (N : Numbering) (st : AllocState) (A : Finset Nat) :
    Prop where
  groups : N.groups = sb.blockGroupsCount.toNat
  apart : R.Apart sb st
  pool : Pool.Ok N (R.pool sb st) A

namespace Ok

theorem idle (h : R.Ok sb N st A) (hidle : Idle st st') : R.Ok sb N st' A :=
  ⟨h.groups, h.apart.idle hidle, by rw [pool_idle hidle]; exact h.pool⟩

theorem free_le (h : R.Ok sb N st A) (hg : g < N.groups) : R.free sb (st.groups g) ≤ N.size g := by
  have hcount : R.free sb (st.groups g) = _ := h.pool.counts g hg
  rw [hcount]
  exact card_clearBits_le

theorem toNat_count (h : R.Ok sb N st A) (hg : g < N.groups) (hfits : N.size g < 2 ^ 16) :
    (R.count sb (st.groups g)).toNat = R.free sb (st.groups g) :=
  R.toNat_count sb _ (lt_of_le_of_lt (h.free_le hg) hfits)

variable {i c : Nat} (h : R.Ok sb N st A) (hg : g < N.groups) (hfits : N.size g < 2 ^ 16)
  (hc : i + c ≤ N.size g)
include h hg hfits hc

theorem take (hclear : ∀ j, i ≤ j → j < i + c → bitAt (R.bits sb st g) j = false) :
    Disjoint A (N.span g i c) ∧ R.Ok sb N (R.put sb st g (putBits (R.bits sb st g) i c)
        (R.count sb (st.groups g) - .ofNat c)) (A ∪ N.span g i c) := by
  obtain ⟨hle, hdisj, hok⟩ := h.pool.take hg hc hclear
  refine ⟨hdisj, h.groups, h.apart.put, pool_put h.apart (h.groups ▸ hg) h.groups ?_⟩
  have hcount := h.toNat_count hg hfits
  have hof : (UInt16.ofNat c).toNat = c := UInt16.toNat_ofNat_of_lt' (by
    change c < 2 ^ 16
    omega)
  rw [UInt16.toNat_sub_of_le, hcount, hof]
  · exact hok
  · rw [UInt16.le_iff_toNat_le, hcount, hof]
    exact hle

theorem give (hA : N.span g i c ⊆ A) : R.Ok sb N (R.put sb st g (dropBits (R.bits sb st g) i c)
      (R.count sb (st.groups g) + .ofNat c)) (A \ N.span g i c) := by
  have hok := h.pool.give hg hc hA
  refine ⟨h.groups, h.apart.put, pool_put h.apart (h.groups ▸ hg) h.groups ?_⟩
  have hcount := h.toNat_count hg hfits
  have hsum : R.free sb (st.groups g) + c ≤ N.size g := by
    have hnew := hok.counts g hg
    rw [Pool.free_set, if_pos rfl] at hnew
    exact hnew.trans_le card_clearBits_le
  rw [UInt16.toNat_add, hcount, UInt16.toNat_ofNat', mod_eq_of_lt (by omega : c < 2 ^ 16),
    mod_eq_of_lt (by omega)]
  exact hok

end Ok

end Resource

end Gergios.Ext4
