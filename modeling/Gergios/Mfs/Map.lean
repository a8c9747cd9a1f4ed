import Gergios.Mfs.Zones
import Gergios.Lib.Owned

/-!
# The block map as a function

The zone numbers of a file stand in slots: the indirect zone, the double indirect zone, the single
indirect zones in it, and the data zones by their place in the file. Each write to an inode or to an
indirect block changes one slot, as long as no block is used twice.
-/

namespace Gergios.Mfs

open Function Nat

inductive Slot where
  | ind
  | dbl
  | sub (i : Nat)
  | data (k : Nat)
deriving DecidableEq

abbrev Files := Nat → Option Inode

abbrev Disk := Nat → Block

def Slot.Indirect : Slot → Prop
  | .data _ => False
  | _ => True

variable {m : Slot → Nat} {rip' : Inode}

theorem indirect_ind : Slot.ind.Indirect := trivial

theorem indirect_dbl : Slot.dbl.Indirect := trivial

theorem indirect_sub (i : Nat) : (Slot.sub i).Indirect := trivial

def entry (disk : Disk) (z i : Nat) : Nat := if z = 0 then 0 else wordAt (disk z) i

variable (sp : Super)

def par (k : Nat) : Slot :=
  if k - nrDzones < sp.nindirs then .ind else .sub ((k - nrDzones - sp.nindirs) / sp.nindirs)

def idx (k : Nat) : Nat :=
  if k - nrDzones < sp.nindirs then k - nrDzones else (k - nrDzones - sp.nindirs) % sp.nindirs

def Slot.base : Slot → Nat
  | .sub i => nrDzones + sp.nindirs + i * sp.nindirs
  | .ind | .dbl | .data _ => nrDzones

def Slot.Single : Slot → Prop
  | .ind => True
  | .sub i => i < sp.nindirs
  | _ => False

def indZone (rip : Inode) (disk : Disk) : Slot → Nat
  | .ind => rip.zone nrDzones
  | .dbl => rip.zone (nrDzones + 1)
  | .sub i => if i < sp.nindirs then entry disk (rip.zone (nrDzones + 1)) i else 0
  | .data _ => 0

def zoneOf (rip : Inode) (disk : Disk) : Slot → Nat
  | .data k =>
    if k < nrDzones then rip.zone k else entry disk (indZone sp rip disk (par sp k)) (idx sp k)
  | p => indZone sp rip disk p

def zoneAt (files : Files) (disk : Disk) (fp : Nat × Slot) : Nat :=
  match files fp.1 with
  | none => 0
  | some rip => zoneOf sp rip disk fp.2

variable {sp} {b : Block} {disk : Disk} {rip : Inode} {files : Files} {f i j k v w z ex val : Nat}
  {p q : Slot}

theorem wordAt_putWord_self (hv : v < 2 ^ 32) : wordAt (putWord b i v) i = v := by
  have hdiv : ∀ j < 4, (4 * i + j) / 4 = i := fun j hj => by omega
  have hmod : ∀ j < 4, (4 * i + j) % 4 = j := fun j hj => by omega
  have hput : ∀ j < 4, putWord b i v (4 * i + j) = UInt8.ofNat (v / 256 ^ j) := fun j hj => by
    rw [putWord, hdiv j hj, hmod j hj, if_pos rfl]
  have h0 := hput 0 (by decide)
  rw [Nat.add_zero] at h0
  rw [wordAt, h0, hput 1 (by decide), hput 2 (by decide), hput 3 (by decide)]
  simp only [UInt8.toNat_ofNat']
  omega

theorem wordAt_putWord_of_ne (h : j ≠ i) : wordAt (putWord b i v) j = wordAt b j := by
  have hput : ∀ l < 4, putWord b i v (4 * j + l) = b (4 * j + l) := fun l hl =>
    if_neg (by omega)
  have h0 := hput 0 (by decide)
  rw [Nat.add_zero] at h0
  rw [wordAt, h0, hput 1 (by decide), hput 2 (by decide), hput 3 (by decide), wordAt]

theorem entry_update_of_ne (h : w ≠ z) : entry (update disk z b) w i = entry disk w i := by
  rw [entry, entry, update_of_ne h]

theorem entry_zero : entry disk 0 i = 0 := rfl

theorem entry_of_zeroed (h : disk z = fun _ => 0) : entry disk z i = 0 := by
  rw [entry, h]
  exact ite_self 0

theorem blockSize_pos (sp : Super) : 0 < sp.blockSize := zero_lt_of_lt sp.pageSize_le

theorem nindirs_pos (sp : Super) : 0 < sp.nindirs := sp.bitmapChunks_pos

theorem base_par (hk : nrDzones ≤ k) : (par sp k).base sp + idx sp k = k := by
  rw [par, idx]
  split
  · exact Nat.add_sub_cancel' hk
  have := div_add_mod (k - nrDzones - sp.nindirs) sp.nindirs
  rw [Nat.mul_comm] at this
  rw [Slot.base]
  omega

theorem idx_lt : idx sp k < sp.nindirs := by
  rw [idx]
  split
  · assumption
  · exact mod_lt _ (nindirs_pos sp)

theorem nrDzones_le_base : nrDzones ≤ q.base sp := by
  cases q with
  | sub i => exact (Nat.le_add_right _ _).trans (Nat.le_add_right _ _)
  | _ => exact le_rfl

theorem par_base (hq : q.Single sp) (hex : ex < sp.nindirs) :
    par sp (q.base sp + ex) = q ∧ idx sp (q.base sp + ex) = ex := by
  cases q with
  | ind =>
    have hsub : nrDzones + ex - nrDzones = ex := Nat.add_sub_cancel_left _ _
    rw [par, idx, Slot.base, hsub, if_pos hex, if_pos hex]
    exact ⟨rfl, rfl⟩
  | sub i =>
    have hsub : nrDzones + sp.nindirs + i * sp.nindirs + ex - nrDzones - sp.nindirs =
        sp.nindirs * i + ex := by
      rw [Nat.mul_comm i]
      omega
    have hge : ¬nrDzones + sp.nindirs + i * sp.nindirs + ex - nrDzones < sp.nindirs := by omega
    rw [par, idx, Slot.base, if_neg hge, if_neg hge, hsub, mul_add_div (nindirs_pos sp),
      div_eq_of_lt hex, mul_add_mod, mod_eq_of_lt hex]
    exact ⟨rfl, rfl⟩
  | dbl => cases hq
  | data k => cases hq

theorem data_eq_iff (hk : nrDzones ≤ k) (hq : q.Single sp) (hex : ex < sp.nindirs) :
    k = q.base sp + ex ↔ par sp k = q ∧ idx sp k = ex := by
  constructor
  · rintro rfl
    exact par_base hq hex
  · rintro ⟨rfl, rfl⟩
    exact (base_par hk).symm

theorem par_ne_dbl : par sp k ≠ .dbl := by
  rw [par]
  split <;> exact Slot.noConfusion

theorem par_ne_data : par sp k ≠ .data j := by
  rw [par]
  split <;> exact Slot.noConfusion

theorem indirect_par : (par sp k).Indirect := by
  rw [par]
  split <;> trivial

theorem zoneOf_of_indirect (hp : p.Indirect) : zoneOf sp rip disk p = indZone sp rip disk p := by
  cases p with
  | data k => cases hp
  | _ => rfl

theorem zoneOf_data (hk : nrDzones ≤ k) :
    zoneOf sp rip disk (.data k) = entry disk (zoneOf sp rip disk (par sp k)) (idx sp k) := by
  rw [zoneOf_of_indirect indirect_par]
  exact if_neg (Nat.not_lt.mpr hk)

theorem zoneOf_data_of_lt (hk : k < nrDzones) : zoneOf sp rip disk (.data k) = rip.zone k :=
  if_pos hk

theorem zoneOf_sub : zoneOf sp rip disk (.sub i) =
    if i < sp.nindirs then entry disk (rip.zone (nrDzones + 1)) i else 0 := rfl

@[simp] theorem setZone_zone_self : (rip.setZone i z).zone i = z := update_self _ _ _

theorem setZone_zone_of_ne (h : j ≠ i) : (rip.setZone i z).zone j = rip.zone j :=
  update_of_ne h _ _

theorem zoneOf_eq (hind : ∀ p : Slot, p.Indirect → zoneOf sp rip disk p = m p)
    (hdirect : ∀ k < nrDzones, rip.zone k = m (.data k))
    (hdata : ∀ k, nrDzones ≤ k → entry disk (m (par sp k)) (idx sp k) = m (.data k)) :
    zoneOf sp rip disk = m := by
  funext p
  by_cases hp : p.Indirect
  · exact hind p hp
  · cases p with
    | data k =>
      rcases Nat.lt_or_ge k nrDzones with hk | hk
      · exact (zoneOf_data_of_lt hk).trans (hdirect k hk)
      · rw [zoneOf_data hk, hind _ indirect_par]
        exact hdata k hk
    | _ => exact absurd trivial hp

theorem update_data_of_indirect (hp : p.Indirect) : update m (.data k) v p = m p := by
  apply update_of_ne
  rintro rfl
  cases hp

theorem update_indirect_data (hp : p.Indirect) : update m p v (.data k) = m (.data k) := by
  apply update_of_ne
  rintro rfl
  cases hp

theorem zoneOf_indirect_congr {disk' : Disk} (h7 : rip'.zone nrDzones = rip.zone nrDzones)
    (h8 : rip'.zone (nrDzones + 1) = rip.zone (nrDzones + 1))
    (hdbl : ∀ i, entry disk' (rip.zone (nrDzones + 1)) i = entry disk (rip.zone (nrDzones + 1)) i)
    (hp : p.Indirect) : zoneOf sp rip' disk' p = zoneOf sp rip disk p := by
  cases p with
  | ind => exact h7
  | dbl => exact h8
  | sub i => rw [zoneOf_sub, zoneOf_sub, h8, hdbl]
  | data k => cases hp

theorem zoneOf_setBlock (hz : ∀ p : Slot, p.Indirect → zoneOf sp rip disk p ≠ z) :
    zoneOf sp rip (update disk z b) = zoneOf sp rip disk := by
  apply zoneOf_eq
  · exact fun p hp => zoneOf_indirect_congr rfl rfl
      (fun i => entry_update_of_ne (hz .dbl trivial)) hp
  · exact fun k hk => (zoneOf_data_of_lt hk).symm
  · intro k hk
    rw [zoneOf_data hk, entry_update_of_ne (hz _ indirect_par)]

theorem entry_putWord (hz : z ≠ 0) (hval : val < 2 ^ 32) :
    entry (update disk z (putWord (disk z) ex val)) z i =
      if i = ex then val else entry disk z i := by
  rw [entry, if_neg hz, update_self]
  split
  · rename_i h
    rw [h, wordAt_putWord_self hval]
  · rename_i h
    rw [wordAt_putWord_of_ne h, entry, if_neg hz]

theorem zoneOf_putWord (hq : q.Single sp) (hz : zoneOf sp rip disk q = z) (hz0 : z ≠ 0)
    (honce : ∀ p : Slot, p.Indirect → zoneOf sp rip disk p = z → p = q) (hex : ex < sp.nindirs)
    (hval : val < 2 ^ 32) : zoneOf sp rip (update disk z (putWord (disk z) ex val)) =
      update (zoneOf sp rip disk) (.data (q.base sp + ex)) val := by
  have hdbl : rip.zone (nrDzones + 1) ≠ z := by
    intro h
    have heq : Slot.dbl = q := honce .dbl trivial h
    rw [← heq] at hq
    cases hq
  apply zoneOf_eq
  · intro p hp
    rw [update_data_of_indirect hp]
    exact zoneOf_indirect_congr rfl rfl (fun i => entry_update_of_ne hdbl) hp
  · intro k hk
    have hne : Slot.data k ≠ .data (q.base sp + ex) := by
      rintro ⟨⟩
      exact absurd hk (Nat.not_lt.mpr (nrDzones_le_base.trans (Nat.le_add_right _ _)))
    rw [update_of_ne hne, zoneOf_data_of_lt hk]
  · intro k hk
    rw [update_data_of_indirect indirect_par]
    by_cases hpar : par sp k = q
    · rw [hpar, hz, entry_putWord hz0 hval]
      split
      · rename_i hidx
        rw [(data_eq_iff hk hq hex).mpr ⟨hpar, hidx⟩, update_self]
      rename_i hidx
      have hne : Slot.data k ≠ .data (q.base sp + ex) := fun h =>
        hidx ((data_eq_iff hk hq hex).mp (Slot.data.inj h)).2
      rw [update_of_ne hne, zoneOf_data hk, hpar, hz]
    · have hne : Slot.data k ≠ .data (q.base sp + ex) := fun h =>
        hpar ((data_eq_iff hk hq hex).mp (Slot.data.inj h)).1
      rw [update_of_ne hne, zoneOf_data hk,
        entry_update_of_ne fun h => hpar (honce _ indirect_par h)]

theorem zoneOf_setZone_direct (hk : k < nrDzones) :
    zoneOf sp (rip.setZone k z) disk = update (zoneOf sp rip disk) (.data k) z := by
  apply zoneOf_eq
  · intro p hp
    rw [update_data_of_indirect hp]
    exact zoneOf_indirect_congr (setZone_zone_of_ne hk.ne')
      (setZone_zone_of_ne (lt_succ_of_lt hk).ne') (fun _ => rfl) hp
  · intro i hi
    by_cases heq : i = k
    · rw [heq, update_self, setZone_zone_self]
    · rw [update_of_ne fun h => heq (Slot.data.inj h), setZone_zone_of_ne heq, zoneOf_data_of_lt hi]
  · intro i hi
    have hne : Slot.data i ≠ .data k := fun h => absurd hk (Nat.not_lt.mpr (Slot.data.inj h ▸ hi))
    rw [update_data_of_indirect indirect_par, update_of_ne hne, zoneOf_data hi]

theorem zoneOf_setZone_ind
    (h : ∀ j < sp.nindirs, entry disk z j = entry disk (rip.zone nrDzones) j) :
    zoneOf sp (rip.setZone nrDzones z) disk = update (zoneOf sp rip disk) .ind z := by
  have hdbl : (rip.setZone nrDzones z).zone (nrDzones + 1) = rip.zone (nrDzones + 1) :=
    setZone_zone_of_ne (by decide)
  apply zoneOf_eq
  · intro p hp
    cases p with
    | ind =>
      exact setZone_zone_self
    | dbl => exact hdbl
    | sub i =>
      rw [update_of_ne Slot.noConfusion, zoneOf_sub, zoneOf_sub, hdbl]
    | data k => cases hp
  · intro k hk
    rw [update_indirect_data indirect_ind, setZone_zone_of_ne hk.ne, zoneOf_data_of_lt hk]
  · intro k hk
    rw [update_indirect_data indirect_ind, zoneOf_data hk]
    by_cases hpar : par sp k = .ind
    · rw [hpar]
      exact h _ idx_lt
    · rw [update_of_ne hpar]

theorem zoneOf_setZone_dbl
    (h : ∀ j < sp.nindirs, entry disk z j = entry disk (rip.zone (nrDzones + 1)) j) :
    zoneOf sp (rip.setZone (nrDzones + 1) z) disk = update (zoneOf sp rip disk) .dbl z := by
  apply zoneOf_eq
  · intro p hp
    cases p with
    | ind => exact setZone_zone_of_ne (by decide)
    | dbl =>
      exact setZone_zone_self
    | sub i =>
      rw [update_of_ne Slot.noConfusion, zoneOf_sub, zoneOf_sub]
      split
      · exact h i ‹_›
      · rfl
    | data k => cases hp
  · intro k hk
    rw [update_indirect_data indirect_dbl, setZone_zone_of_ne (lt_succ_of_lt hk).ne,
      zoneOf_data_of_lt hk]
  · intro k hk
    rw [update_indirect_data indirect_dbl, zoneOf_data hk, update_of_ne par_ne_dbl]

theorem zoneOf_putWord_dbl (hz : rip.zone (nrDzones + 1) = z) (hz0 : z ≠ 0)
    (honce : ∀ p : Slot, p.Indirect → zoneOf sp rip disk p = z → p = .dbl) (hi : i < sp.nindirs)
    (hval : val < 2 ^ 32) (hne : val ≠ z)
    (h : ∀ j < sp.nindirs, entry disk val j = entry disk (zoneOf sp rip disk (.sub i)) j) :
    zoneOf sp rip (update disk z (putWord (disk z) i val)) =
      update (zoneOf sp rip disk) (.sub i) val := by
  apply zoneOf_eq
  · intro p hp
    cases p with
    | ind => rfl
    | dbl => rfl
    | sub j =>
      rw [zoneOf_sub, hz]
      by_cases hj : j = i
      · rw [hj, if_pos hi, entry_putWord hz0 hval, if_pos rfl, update_self]
      · rw [update_of_ne fun heq => hj (Slot.sub.inj heq), zoneOf_sub, hz,
          entry_putWord hz0 hval, if_neg hj]
    | data k => cases hp
  · intro k hk
    rw [update_indirect_data (indirect_sub i), zoneOf_data_of_lt hk]
  · intro k hk
    rw [update_indirect_data (indirect_sub i), zoneOf_data hk]
    by_cases hpar : par sp k = .sub i
    · rw [hpar, update_self, entry_update_of_ne hne]
      exact h _ idx_lt
    · rw [update_of_ne hpar, entry_update_of_ne fun heq => par_ne_dbl (honce _ indirect_par heq)]

theorem zoneAt_of (hf : files f = some rip) :
    zoneAt sp files disk (f, p) = zoneOf sp rip disk p := by
  rw [zoneAt, hf]

theorem zoneAt_put_of_ne {g : Nat} (hg : g ≠ f) :
    zoneAt sp (update files f (some rip')) disk (g, p) = zoneAt sp files disk (g, p) := by
  rw [zoneAt, zoneAt, update_of_ne hg]

theorem zoneAt_put (hf : files f = some rip)
    (h : zoneOf sp rip' disk = update (zoneOf sp rip disk) p z) :
    zoneAt sp (update files f (some rip')) disk = update (zoneAt sp files disk) (f, p) z := by
  funext ⟨g, q⟩
  rcases eq_or_ne g f with rfl | hg
  · rw [zoneAt_of (update_self _ _ _), h]
    rcases eq_or_ne q p with rfl | hq
    · rw [update_self, update_self]
    · rw [update_of_ne hq, update_of_ne fun heq => hq (Prod.mk.inj heq).2, zoneAt_of hf]
  · rw [zoneAt_put_of_ne hg, update_of_ne fun heq => hg (Prod.mk.inj heq).1]

theorem zoneAt_put_same (hf : files f = some rip) (h : zoneOf sp rip' disk = zoneOf sp rip disk) :
    zoneAt sp (update files f (some rip')) disk = zoneAt sp files disk := by
  funext ⟨g, q⟩
  rcases eq_or_ne g f with rfl | hg
  · rw [zoneAt_of (update_self _ _ _), h, zoneAt_of hf]
  · exact zoneAt_put_of_ne hg

theorem zoneAt_setBlock (hz : ∀ g (p : Slot), p.Indirect → zoneAt sp files disk (g, p) ≠ z) :
    zoneAt sp files (update disk z b) = zoneAt sp files disk := by
  funext ⟨g, q⟩
  cases hg : files g with
  | none => rw [zoneAt, zoneAt, hg]
  | some rip =>
    rw [zoneAt_of hg, zoneAt_of hg, zoneOf_setBlock fun p hp => zoneAt_of hg ▸ hz g p hp]

theorem zoneAt_block (hf : files f = some rip)
    (honce : ∀ g (p : Slot), g ≠ f → p.Indirect → zoneAt sp files disk (g, p) ≠ w)
    (h : zoneOf sp rip (update disk w b) = update (zoneOf sp rip disk) p z) :
    zoneAt sp files (update disk w b) = update (zoneAt sp files disk) (f, p) z := by
  funext ⟨g, q⟩
  rcases eq_or_ne g f with rfl | hg
  · rw [zoneAt_of hf, h]
    rcases eq_or_ne q p with rfl | hq
    · rw [update_self, update_self]
    · rw [update_of_ne hq, update_of_ne fun heq => hq (Prod.mk.inj heq).2, zoneAt_of hf]
  · rw [update_of_ne fun heq => hg (Prod.mk.inj heq).1]
    cases hgf : files g with
    | none => rw [zoneAt, zoneAt, hgf]
    | some rip' =>
      rw [zoneAt_of hgf, zoneAt_of hgf, zoneOf_setBlock fun p hp => zoneAt_of hgf ▸ honce g p hg hp]

end Gergios.Mfs
