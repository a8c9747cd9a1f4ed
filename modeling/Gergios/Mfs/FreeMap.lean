import Gergios.Mfs.WriteMap

/-!
# Taking zones out of the block map

A data zone is freed, and with it the single indirect zone and the double indirect zone if they have
no entry left.
-/

namespace Gergios.Mfs

open Lib Function

variable (sp : Super)

def Slot.parent : Slot → Option Slot
  | .sub _ => some .dbl
  | .data k => if k < nrDzones then none else some (par sp k)
  | .ind | .dbl => none

def HasEntry (m : ZoneMap) (g : Nat) (p : Slot) : Prop :=
  ∃ q : Slot, q.parent sp = some p ∧ m (g, q) ≠ 0

def FullBut (m : ZoneMap) (s : Set (Nat × Slot)) : Prop :=
  ∀ g (p : Slot), p.Indirect → m (g, p) ≠ 0 → (g, p) ∉ s → HasEntry sp m g p

def Full (m : ZoneMap) : Prop := FullBut sp m ∅

variable {sp : Super} {files : Files} {v v' : Vol} {loose : Set Nat} {f k z ex i position : Nat}
  {p q : Slot} {rip : Inode} {m : ZoneMap} {s : Set (Nat × Slot)}
  {t : Set (Nat × Slot)} {v'' : Vol} {near : Nat}

theorem parent_data (hge : nrDzones ≤ k) : (Slot.data k).parent sp = some (par sp k) :=
  if_neg (Nat.not_lt.mpr hge)

theorem FullBut.erase (h : FullBut sp m s) (hp : ∀ q, p.parent sp = some q → (f, q) ∈ s) :
    FullBut sp (update m (f, p) 0) (s \ {(f, p)}) := by
  intro g q hq hne hs
  rcases eq_or_ne (g, q) (f, p) with heq | hother
  · rw [heq, update_self] at hne
    exact absurd rfl hne
  · rw [update_of_ne hother] at hne
    have hns : (g, q) ∉ s := fun hin => hs ⟨hin, hother⟩
    obtain ⟨c, hc, hmc⟩ := h g q hq hne hns
    refine ⟨c, hc, ?_⟩
    rw [update_of_ne]
    · exact hmc
    · rintro ⟨⟩
      exact hns (hp q hc)

theorem FullBut.mono (h : FullBut sp m s) (hst : s ⊆ t) : FullBut sp m t :=
  fun g p hp hne hnot => h g p hp hne fun hin => hnot (hst hin)

theorem FullBut.full (h : FullBut sp m {(f, p)}) (hp : m (f, p) ≠ 0 → HasEntry sp m f p) :
    Full sp m := by
  intro g q hq hne _
  by_cases heq : (g, q) = (f, p)
  · cases heq
    exact hp hne
  · exact h g q hq hne heq

theorem hasEntry_of_entry (hf : files f = some rip) (hq : q.Single sp) (hex : ex < sp.nindirs)
    (hne : entry v.disk (zoneOf sp rip v.disk q) ex ≠ 0) :
    HasEntry sp (zoneAt sp files v.disk) f q := by
  obtain ⟨hpar, hidx⟩ := par_base hq hex
  have hge : nrDzones ≤ q.base sp + ex := nrDzones_le_base.trans (Nat.le_add_right _ _)
  refine ⟨.data (q.base sp + ex), ?_, ?_⟩
  · rw [parent_data hge, hpar]
  · rwa [zoneAt_of hf, zoneOf_data hge, hpar, hidx]

/-- The data zone `k` of a file has been taken out and freed. -/
structure Cut (sp : Super) (files : Files) (v v' : Vol) (loose : Set Nat) (f k : Nat) : Prop where
  acc : Accounted sp files v' loose
  map : zoneAt sp files v'.disk = update (zoneAt sp files v.disk) (f, .data k) 0
  shrunk : Shrunk (zoneAt sp files v.disk) (zoneAt sp files v'.disk) (Used sp v) (Used sp v')
  frame : Frame sp (zoneAt sp files v.disk) f v v'

theorem Cut.of_hole (h : Accounted sp files v loose)
    (h0 : zoneAt sp files v.disk (f, .data k) = 0) :
    Cut sp files v v loose f k :=
  ⟨h, by rw [← h0, update_eq_self], .refl, fun _ _ _ => rfl⟩

theorem cut_entry (h : Accounted sp files v loose) (hf : files f = some rip) (hge : nrDzones ≤ k)
    (hk : k < mapSize sp) (hz : zoneOf sp rip v.disk (par sp k) = z) (hz0 : z ≠ 0) :
    ∃ v', (do
        let oldZone ← rdIndir sp v z (idx sp k)
        if oldZone ≠ 0 then do
          let v ← freeZone sp oldZone v
          pure (v.wrIndir z (idx sp k) 0)
        else pure v) = .ok v' ∧ Cut sp files v v' loose f k := by
  have hread := h.rdIndir_data hf (single_par hk) hz hz0 (idx_lt (k := k))
  rw [base_par hge] at hread
  rw [hread]
  by_cases h0 : zoneOf sp rip v.disk (.data k) = 0
  · exact ⟨v, if_neg (not_not_intro h0), .of_hole h ((zoneAt_of hf).trans h0)⟩
  · have hne : zoneAt sp files v.disk (f, .data k) ≠ 0 := by rwa [zoneAt_of hf]
    obtain ⟨v', heq, hr⟩ := freeZone_spec h.writable h.bit0 (h.used_zoneAt hne)
    rw [zoneAt_of hf] at heq
    have hmap := h.zoneAt_wrIndir hf (single_par hk) hz hz0 (idx_lt (k := k))
      (by decide : 0 < 2 ^ 32)
    rw [base_par hge] at hmap
    have hdisk : (v'.wrIndir z (idx sp k) 0).disk = (v.wrIndir z (idx sp k) 0).disk := by
      rw [Vol.wrIndir, Vol.wrIndir, Vol.setBlock, Vol.setBlock, hr.disk]
    rw [← hdisk] at hmap
    refine ⟨_, (if_pos h0).trans (congrArg (· >>= _) heq), h.drop hne hr rfl rfl hmap, hmap, ?_, ?_⟩
    · rw [hmap]
      exact .drop hne hr.used
    · intro u _ hp
      rw [hdisk]
      exact update_of_ne
        (fun heq => hp _ indirect_par ((zoneAt_of hf).trans (hz.trans heq.symm))) _ _

/-- The data zone `k` of a file and emptied indirect zones of it have been taken out and freed; the
indirect zones that may now be empty are those of a set of slots. -/
structure Pruned (sp : Super) (files files' : Files) (v v' : Vol) (loose : Set Nat) (f k : Nat)
    (s : Set (Nat × Slot)) : Prop where
  acc : Accounted sp files' v' loose
  shrunk : Shrunk (zoneAt sp files v.disk) (zoneAt sp files' v'.disk) (Used sp v) (Used sp v')
  data : ∀ g j, zoneAt sp files' v'.disk (g, .data j) =
    if g = f ∧ j = k then 0 else zoneAt sp files v.disk (g, .data j)
  full : Full sp (zoneAt sp files v.disk) → FullBut sp (zoneAt sp files' v'.disk) s
  frame : Frame sp (zoneAt sp files v.disk) f v v'

section

variable (h : Cut sp files v v' loose f k)

include h

theorem Cut.pruned (hs : ∀ q, (Slot.data k).parent sp = some q → (f, q) ∈ s) :
    Pruned sp files files v v' loose f k s := by
  refine ⟨h.acc, h.shrunk, fun g j => ?_, fun hfull => ?_, h.frame⟩
  · rw [h.map]
    split
    · rename_i heq
      rw [heq.1, heq.2, update_self]
    rename_i hne
    rw [update_of_ne]
    rintro ⟨⟩
    exact hne ⟨rfl, rfl⟩
  · rw [h.map]
    have hs' : FullBut sp (zoneAt sp files v.disk) s := FullBut.mono hfull (Set.empty_subset s)
    exact (hs'.erase hs).mono Set.sdiff_subset

omit h in
theorem Pruned.drop {files' files'' : Files}
    (h : Pruned sp files files' v v' loose f k s) (hp : p.Indirect)
    (hne : zoneAt sp files' v'.disk (f, p) ≠ 0)
    (hr : Released sp v' v'' (zoneAt sp files' v'.disk (f, p))) {u : Vol}
    (hzmap : u.zmap = v''.zmap)
    (hzeroed : u.zeroed = v''.zeroed)
    (hmap : zoneAt sp files'' u.disk = update (zoneAt sp files' v'.disk) (f, p) 0)
    (hst : s \ {(f, p)} ⊆ t) (hparent : ∀ q, p.parent sp = some q → (f, q) ∈ t) (hpt : (f, p) ∉ t)
    (hframe : ∀ w, (∀ q : Slot, q.Indirect → zoneAt sp files v.disk (f, q) ≠ w) →
      u.disk w = v'.disk w) : Pruned sp files files'' v u loose f k t := by
  have hused : Used sp u = Used sp v'' := by
    funext w
    rw [Used, Used, hzmap]
  refine ⟨h.acc.drop hne hr hzmap hzeroed hmap, ?_, fun g j => ?_, fun hfull => ?_, ?_⟩
  · rw [hmap, hused]
    exact h.shrunk.trans (.drop hne hr.used)
  · rw [hmap, update_of_ne, h.data]
    rintro ⟨⟩
    cases hp
  · rw [hmap]
    have hbig : FullBut sp (zoneAt sp files' v'.disk) (insert (f, p) t) := by
      refine (h.full hfull).mono fun x hx => ?_
      by_cases hxp : x = (f, p)
      · exact .inl hxp
      · exact .inr (hst ⟨hx, hxp⟩)
    refine (hbig.erase fun q hq => .inr (hparent q hq)).mono ?_
    rintro x ⟨rfl | hx, hxp⟩
    · exact absurd rfl hxp
    · exact hx
  · intro w hw hq
    exact (hframe w hq).trans (h.frame w hw hq)

inductive IndirFreed (sp : Super) (files : Files) (v : Vol) (loose : Set Nat) (f k : Nat)
    (rip : Inode) : Nat → Vol → Prop where
  | hole (h0 : zoneOf sp rip v.disk (par sp k) = 0) : IndirFreed sp files v loose f k rip 0 v
  | kept {v' : Vol} (hz : zoneOf sp rip v.disk (par sp k) ≠ 0) (cut : Cut sp files v v' loose f k)
      (hentry : HasEntry sp (zoneAt sp files v'.disk) f (par sp k)) :
      IndirFreed sp files v loose f k rip (zoneOf sp rip v.disk (par sp k)) v'
  | emptied {v' v'' : Vol} (hz : zoneOf sp rip v.disk (par sp k) ≠ 0)
      (cut : Cut sp files v v' loose f k)
      (hempty : ∀ j < sp.nindirs, entry v'.disk (zoneOf sp rip v.disk (par sp k)) j = 0)
      (hr : Released sp v' v'' (zoneOf sp rip v.disk (par sp k))) :
      IndirFreed sp files v loose f k rip 0 v''

theorem Cut.indirect (hp : p.Indirect) {g : Nat} :
    zoneAt sp files v'.disk (g, p) = zoneAt sp files v.disk (g, p) := by
  rw [h.map, update_of_ne]
  rintro ⟨⟩
  cases hp

theorem Cut.zoneOf_indirect (hf : files f = some rip) (hp : p.Indirect) :
    zoneOf sp rip v'.disk p = zoneOf sp rip v.disk p := by
  rw [← zoneAt_of hf, h.indirect hp, zoneAt_of hf]

omit h in
theorem writeIndir_free_eq (hz : z ≠ 0) : writeIndir sp near ex 0 true z v = (do
      let oldZone ← rdIndir sp v z ex
      if oldZone ≠ 0 then do
        let v ← freeZone sp oldZone v
        pure (v.wrIndir z ex 0)
      else pure v) >>= fun v =>
        if emptyIndir sp v z then freeZone sp z v >>= fun v => .ok (none, 0, v)
        else .ok (none, z, v) := by
  simp only [writeIndir, hz, bind_assoc]
  refine bind_congr fun oldZone => ?_
  by_cases h0 : oldZone ≠ 0
  · rw [if_pos h0, if_pos h0, bind_assoc]
    rfl
  · rw [if_neg h0, if_neg h0]
    rfl

omit h in
theorem writeIndir_free (near : Nat) (h : Accounted sp files v loose) (hf : files f = some rip)
    (hge : nrDzones ≤ k) (hk : k < mapSize sp) :
    ∃ z' v', writeIndir sp near (idx sp k) 0 true (zoneOf sp rip v.disk (par sp k)) v =
      .ok (none, z', v') ∧ IndirFreed sp files v loose f k rip z' v' := by
  by_cases hz : zoneOf sp rip v.disk (par sp k) = 0
  · refine ⟨0, v, ?_, .hole hz⟩
    simp [hz]
    rfl
  · obtain ⟨v', heq, hcut⟩ := cut_entry h hf hge hk rfl hz
    rw [writeIndir_free_eq hz, heq, ok_bind]
    have hslot : zoneAt sp files v'.disk (f, par sp k) = zoneOf sp rip v.disk (par sp k) := by
      rw [hcut.indirect indirect_par, zoneAt_of hf]
    by_cases hempty : emptyIndir sp v' (zoneOf sp rip v.disk (par sp k)) = true
    · have hused := hcut.acc.used_zoneAt (by rwa [hslot])
      rw [hslot] at hused
      obtain ⟨v'', hfree, hr⟩ := freeZone_spec h.writable hcut.acc.bit0 hused
      rw [if_pos hempty, hfree]
      refine ⟨0, v'', rfl, .emptied hz hcut (fun j hj => ?_) hr⟩
      rw [entry, if_neg hz]
      exact emptyIndir_iff.mp hempty j hj
    · rw [if_neg hempty]
      refine ⟨_, v', rfl, .kept hz hcut ?_⟩
      rw [emptyIndir_iff] at hempty
      push Not at hempty
      obtain ⟨j, hj, hne⟩ := hempty
      apply hasEntry_of_entry hf (single_par hk) hj
      rwa [hcut.zoneOf_indirect hf indirect_par, entry, if_neg hz]

/-- What `write_map` does to free the zone at a position. -/
def FreeResult (sp : Super) (files : Files) (v : Vol) (loose : Set Nat) (f k : Nat) (rip : Inode)
    (r : Option Errno × Inode × Vol) : Prop :=
  r.1 = none ∧ rip.Alike r.2.1 ∧ Pruned sp files (update files f (some r.2.1)) v r.2.2 loose f k ∅

omit h in
theorem Pruned.same (h : Pruned sp files files v v' loose f k ∅) (hf : files f = some rip) :
    FreeResult sp files v loose f k rip (none, rip, v') :=
  ⟨rfl, .refl, by rwa [update_files hf]⟩

omit h in
theorem Pruned.full_of_entry (h : Pruned sp files files v v' loose f k {(f, p)})
    (hp : zoneAt sp files v'.disk (f, p) ≠ 0 → HasEntry sp (zoneAt sp files v'.disk) f p) :
    Pruned sp files files v v' loose f k ∅ :=
  { h with full := fun hfull => (h.full hfull).full hp }

omit h in
theorem hole_of_par (hge : nrDzones ≤ k) (h0 : zoneOf sp rip v.disk (par sp k) = 0) :
    zoneOf sp rip v.disk (.data k) = 0 := by
  rw [zoneOf_data hge, h0, entry_zero]

theorem pruned_par (hge : nrDzones ≤ k) :
    Pruned sp files files v v' loose f k {(f, par sp k)} := by
  apply h.pruned
  intro q hq
  rw [parent_data hge] at hq
  cases hq
  rfl

omit h in
theorem prune_dbl (h : Pruned sp files files v v' loose f k {(f, .dbl)}) (hf : files f = some rip) :
    ∃ r, (if rip.zone (nrDzones + 1) ≠ 0 ∧ emptyIndir sp v' (rip.zone (nrDzones + 1)) then
        freeZone sp (rip.zone (nrDzones + 1)) v' >>= fun v =>
          .ok (none, rip.setZone (nrDzones + 1) 0, v)
      else .ok (none, rip, v')) = .ok r ∧ FreeResult sp files v loose f k rip r := by
  have hslot : zoneAt sp files v'.disk (f, .dbl) = rip.zone (nrDzones + 1) := zoneAt_of hf
  by_cases hz : rip.zone (nrDzones + 1) = 0
  · refine ⟨_, if_neg fun hno => hno.1 hz, ?_⟩
    exact (h.full_of_entry fun hne => absurd (hslot.trans hz) hne).same hf
  by_cases hempty : emptyIndir sp v' (rip.zone (nrDzones + 1)) = true
  · have hused := h.acc.used_zoneAt (by rwa [hslot])
    rw [hslot] at hused
    obtain ⟨v'', hfree, hr⟩ := freeZone_spec h.acc.writable h.acc.bit0 hused
    rw [if_pos ⟨hz, hempty⟩, hfree]
    refine ⟨_, rfl, rfl, ⟨rfl, rfl⟩, ?_⟩
    refine h.drop indirect_dbl (by rwa [hslot]) (by rwa [hslot]) rfl rfl ?_ ?_
      (fun _ hq => nomatch hq) (Set.notMem_empty _) fun w _ => congrFun hr.disk w
    · rw [hr.disk]
      refine zoneAt_put hf (zoneOf_setZone_dbl fun j hj => ?_)
      rw [entry_zero, entry, if_neg hz, emptyIndir_iff.mp hempty j hj]
    · rw [Set.sdiff_self]
  · rw [if_neg fun hno => hempty hno.2]
    refine ⟨_, rfl, (h.full_of_entry fun _ => ?_).same hf⟩
    rw [emptyIndir_iff] at hempty
    push Not at hempty
    obtain ⟨j, hj, hne⟩ := hempty
    refine ⟨.sub j, rfl, ?_⟩
    rwa [zoneAt_of hf, zoneOf_sub, if_pos hj, entry, if_neg hz]

theorem pruned_sub (hf : files f = some rip) (hge : nrDzones ≤ k) (hpar : par sp k = .sub i)
    (hi : i < sp.nindirs) (hne : zoneOf sp rip v.disk (.sub i) ≠ 0)
    (hempty : ∀ j < sp.nindirs, entry v'.disk (zoneOf sp rip v.disk (.sub i)) j = 0)
    (hr : Released sp v' v'' (zoneOf sp rip v.disk (.sub i))) :
    Pruned sp files files v (v''.wrIndir (rip.zone (nrDzones + 1)) i 0) loose f k {(f, .dbl)} := by
  have hdbl : rip.zone (nrDzones + 1) ≠ 0 := by
    intro h0
    rw [zoneOf_sub, h0, entry_zero, ite_self] at hne
    exact hne rfl
  have hsub := h.zoneOf_indirect hf (indirect_sub i)
  have hslot : zoneAt sp files v'.disk (f, .sub i) = zoneOf sp rip v.disk (.sub i) := by
    rw [zoneAt_of hf, hsub]
  have hmap := h.acc.zoneAt_wrIndir_dbl hf hdbl hi (by decide : 0 < 2 ^ 32) hdbl.symm fun j hj => by
    rw [hsub, entry_zero, hempty j hj]
  have hdisk : (v''.wrIndir (rip.zone (nrDzones + 1)) i 0).disk =
      (v'.wrIndir (rip.zone (nrDzones + 1)) i 0).disk := by
    rw [Vol.wrIndir, Vol.wrIndir, Vol.setBlock, Vol.setBlock, hr.disk]
  rw [← hdisk] at hmap
  have hr' : Released sp v' v'' (zoneAt sp files v'.disk (f, .sub i)) := by rwa [hslot]
  refine (pruned_par h hge).drop (indirect_sub i) (by rwa [hslot]) hr' rfl rfl hmap ?_
    (fun q hq => ?_) ?_ fun w hw => ?_
  · rw [hpar, Set.sdiff_self]
    exact Set.empty_subset _
  · cases hq
    rfl
  · rintro ⟨⟩
  · rw [hdisk]
    exact update_of_ne (fun heq => hw .dbl trivial ((zoneAt_of hf).trans heq.symm)) _ _

end

theorem writeDouble_free_eq {z1 z' : Nat} (rip : Inode)
    (hz1 : (if z = 0 then .ok 0 else rdIndir sp v z i) = .ok z1)
    (hr : writeIndir sp near ex 0 true z1 v = .ok (none, z', v')) {u : Vol}
    (hu : u = if z' = z1 then v' else v'.wrIndir z i z') :
    writeDouble sp near i ex 0 true z z rip v = if z' = 0 ∧ z ≠ 0 ∧ emptyIndir sp u z then
        freeZone sp z u >>= fun v => .ok (none, rip.setZone (nrDzones + 1) 0, v)
      else .ok (none, rip, u) := by
  subst hu
  by_cases hz : z = 0
  · rw [if_pos hz] at hz1
    cases hz1
    simp only [writeDouble, hz, pure_bind, hr]
    rfl
  · rw [if_neg hz] at hz1
    simp only [writeDouble, hz, hz1, hr, ok_bind]
    rfl

section

variable (h : Accounted sp files v loose) (hf : files f = some rip)
  (hpos : position / sp.blockSize = k)

include h hf hpos

theorem freeResult_direct (hlt : k < nrDzones) :
    ∃ r, writeMap sp position 0 true rip v = .ok r ∧ FreeResult sp files v loose f k rip r := by
  have hslot : zoneAt sp files v.disk (f, .data k) = rip.zone k :=
    (zoneAt_of hf).trans (zoneOf_data_of_lt hlt)
  have hparent : (Slot.data k).parent sp = none := if_pos hlt
  simp only [writeMap, hpos, hlt, and_true]
  by_cases h0 : rip.zone k = 0
  · have hself : rip.setZone k 0 = rip := by rw [← h0, setZone_self]
    refine ⟨_, if_neg (not_not_intro h0), ?_⟩
    rw [hself]
    exact ((Cut.of_hole h (hslot.trans h0)).pruned fun q hq => by cases hparent ▸ hq).same hf
  · have hne : zoneAt sp files v.disk (f, .data k) ≠ 0 := by rwa [hslot]
    obtain ⟨v', heq, hr⟩ := freeZone_spec h.writable h.bit0 (h.used_zoneAt hne)
    rw [hslot] at heq
    have hmap : zoneAt sp (update files f (some (rip.setZone k 0))) v'.disk =
        update (zoneAt sp files v.disk) (f, .data k) 0 := by
      rw [hr.disk]
      exact zoneAt_put hf (zoneOf_setZone_direct hlt)
    refine ⟨_, (if_pos h0).trans (congrArg (· >>= _) heq), rfl, ⟨rfl, rfl⟩,
      h.drop hne hr rfl rfl hmap,
      ?_, fun g j => ?_, fun hfull => ?_, fun w _ _ => congrFun hr.disk w⟩
    · rw [hmap]
      exact .drop hne hr.used
    · rw [hmap]
      by_cases hgj : g = f ∧ j = k
      · rw [if_pos hgj, hgj.1, hgj.2, update_self]
      · rw [if_neg hgj, update_of_ne]
        rintro ⟨⟩
        exact hgj ⟨rfl, rfl⟩
    · rw [hmap]
      exact (FullBut.erase hfull fun q hq => by cases hparent ▸ hq).mono Set.sdiff_subset

theorem freeResult_ind (hge : nrDzones ≤ k) (hk : k < mapSize sp) (hpar : par sp k = .ind) :
    ∃ r, writeMap sp position 0 true rip v = .ok r ∧ FreeResult sp files v loose f k rip r := by
  have hz : zoneOf sp rip v.disk (par sp k) = rip.zone nrDzones := by
    rw [hpar]
    rfl
  obtain ⟨z', v', heq, hfreed⟩ := writeIndir_free (rip.zone 0) h hf hge hk
  rw [hz] at heq
  rw [writeMap_ind hpos hge hpar, heq]
  refine ⟨_, rfl, ?_⟩
  cases hfreed with
  | hole h0 =>
    have hself : rip.setZone nrDzones 0 = rip := by
      rw [← hz.symm.trans h0, setZone_self]
    have hcut := Cut.of_hole h ((zoneAt_of hf).trans (hole_of_par hge h0))
    rw [hself]
    refine ((pruned_par hcut hge).full_of_entry fun hne => absurd ?_ hne).same hf
    rw [zoneAt_of hf, h0]
  | kept _ hcut hentry =>
    rw [hz, setZone_self]
    exact ((pruned_par hcut hge).full_of_entry fun _ => hentry).same hf
  | @emptied v1 _ hne hcut hempty hr =>
    have hslot : zoneAt sp files v1.disk (f, .ind) = rip.zone nrDzones := by
      rw [zoneAt_of hf]
      rfl
    rw [hz] at hne hempty hr
    refine ⟨rfl, ⟨rfl, rfl⟩, ?_⟩
    refine (pruned_par hcut hge).drop indirect_ind (by rwa [hslot]) (by rwa [hslot]) rfl rfl ?_ ?_
      (fun _ hq => nomatch hq) (Set.notMem_empty _) fun w _ => congrFun hr.disk w
    · rw [hr.disk]
      exact zoneAt_put hf (zoneOf_setZone_ind fun j hj => by rw [entry_zero, hempty j hj])
    · rw [hpar, Set.sdiff_self]

theorem freeResult_sub (hge : nrDzones ≤ k) (hk : k < mapSize sp) (hpar : par sp k = .sub i)
    (hi : i < sp.nindirs) :
    ∃ r, writeMap sp position 0 true rip v = .ok r ∧ FreeResult sp files v loose f k rip r := by
  have hz1 : (if rip.zone (nrDzones + 1) = 0 then .ok 0
      else rdIndir sp v (rip.zone (nrDzones + 1)) i) = .ok (zoneOf sp rip v.disk (.sub i)) := by
    by_cases h0 : rip.zone (nrDzones + 1) = 0
    · rw [if_pos h0, zoneOf_sub, h0, entry_zero, ite_self]
    · rw [if_neg h0, h.rdIndir_sub hf h0 hi]
  obtain ⟨z', v', heq, hfreed⟩ := writeIndir_free (rip.zone 0) h hf hge hk
  rw [hpar] at heq
  have hdouble := writeDouble_free_eq rip hz1 heq rfl
  rw [writeMap_sub hpos hge hpar hi, if_neg (fun hno => nomatch hno.2), hdouble]
  cases hfreed with
  | hole h0 =>
    rw [hpar] at h0
    have hcut := Cut.of_hole h ((zoneAt_of hf).trans (hole_of_par hge (hpar ▸ h0)))
    have hpruned := (pruned_par hcut hge).full_of_entry fun hne => absurd (by
      rw [zoneAt_of hf, hpar, h0]) hne
    have hdbl : Pruned sp files files v v loose f k {(f, .dbl)} :=
      { hpruned with full := fun hfull => (hpruned.full hfull).mono (Set.empty_subset _) }
    simp only [h0, if_true, true_and]
    exact prune_dbl hdbl hf
  | kept hne hcut hentry =>
    rw [hpar] at hne
    simp only [hpar, hne, if_true]
    exact ⟨_, rfl, ((pruned_par hcut hge).full_of_entry fun _ => hentry).same hf⟩
  | emptied hne hcut hempty hr =>
    rw [hpar] at hne hempty hr
    simp only [hne.symm, true_and]
    exact prune_dbl (pruned_sub hcut hf hge hpar hi hne hempty hr) hf

theorem writeMap_free (hk : k < mapSize sp) :
    ∃ r, writeMap sp position 0 true rip v = .ok r ∧ FreeResult sp files v loose f k rip r := by
  rcases Nat.lt_or_ge k nrDzones with hlt | hge
  · exact freeResult_direct h hf hpos hlt
  rcases par_cases hk with hpar | ⟨i, hpar, hi⟩
  · exact freeResult_ind h hf hpos hge hk hpar
  · exact freeResult_sub h hf hpos hge hk hpar hi

end

end Gergios.Mfs
