import Gergios.Mfs.Accounted

/-!
# Reading and changing the block map

`read_map` returns what stands in a slot. `write_map` puts a zone into a slot, together with the
indirect zones that lead there, or takes one out, together with the indirect zones that have become
empty.
-/

namespace Gergios.Mfs

open Lib Function

def mapSize (sp : Super) : Nat := nrDzones + sp.nindirs + sp.nindirs * sp.nindirs

variable {sp : Super} {files : Files} {v : Vol} {loose : Set Nat} {f k z ex i position : Nat}
  {p q : Slot} {rip : Inode} {v' : Vol} {m : ZoneMap}

theorem single_par (hk : k < mapSize sp) : (par sp k).Single sp := by
  rw [par]
  split
  · trivial
  apply (Nat.div_lt_iff_lt_mul (nindirs_pos sp)).mpr
  have := Nat.mul_pos (nindirs_pos sp) (nindirs_pos sp)
  rw [mapSize] at hk
  omega

theorem le_nindirs (sp : Super) : 1024 ≤ sp.nindirs := by
  have := sp.pageSize_le
  rw [Super.nindirs]
  omega

theorem block_lt_mapSize (sp : Super) (hpos : position ≤ 2 ^ 31) :
    position / sp.blockSize < mapSize sp := by
  have hn := le_nindirs sp
  have hdiv : position / sp.blockSize ≤ 2 ^ 31 / 4096 :=
    Nat.div_le_div hpos sp.pageSize_le (by decide)
  have hsq : 1024 * 1024 ≤ sp.nindirs * sp.nindirs := Nat.mul_le_mul hn hn
  rw [mapSize]
  omega

namespace Accounted

variable (h : Accounted sp files v loose) (hf : files f = some rip)

include h hf

theorem rdIndir_data (hq : q.Single sp) (hz : zoneOf sp rip v.disk q = z) (hz0 : z ≠ 0)
    (hex : ex < sp.nindirs) :
    rdIndir sp v z ex = .ok (zoneOf sp rip v.disk (.data (q.base sp + ex))) := by
  obtain ⟨hpar, hidx⟩ := par_base hq hex
  have hword : zoneOf sp rip v.disk (.data (q.base sp + ex)) = wordAt (v.disk z) ex := by
    rw [zoneOf_data (nrDzones_le_base.trans (Nat.le_add_right _ _)), hpar, hidx, hz, entry,
      if_neg hz0]
  rw [hword]
  apply rdIndir_spec
  rw [← hword, ← zoneAt_of hf]
  exact h.used_zoneAt

theorem rdIndir_sub (hz0 : rip.zone (nrDzones + 1) ≠ 0) (hi : i < sp.nindirs) :
    rdIndir sp v (rip.zone (nrDzones + 1)) i = .ok (zoneOf sp rip v.disk (.sub i)) := by
  have hword : zoneOf sp rip v.disk (.sub i) = wordAt (v.disk (rip.zone (nrDzones + 1))) i := by
    rw [zoneOf_sub, if_pos hi, entry, if_neg hz0]
  rw [hword]
  apply rdIndir_spec
  rw [← hword, ← zoneAt_of hf]
  exact h.used_zoneAt

theorem readMap_eq (hk : position / sp.blockSize < mapSize sp) :
    readMap sp position rip v = .ok (zoneOf sp rip v.disk (.data (position / sp.blockSize))) := by
  rw [readMap]
  generalize position / sp.blockSize = k at hk ⊢
  rcases Nat.lt_or_ge k nrDzones with hlt | hge
  · rw [if_pos hlt, zoneOf_data_of_lt hlt]
    rfl
  · have hsingle := single_par hk
    have hread : ∀ {z}, zoneOf sp rip v.disk (par sp k) = z → z ≠ 0 →
        rdIndir sp v z (idx sp k) = .ok (zoneOf sp rip v.disk (.data k)) := by
      intro z hz hz0
      rw [h.rdIndir_data hf hsingle hz hz0 idx_lt, base_par hge]
    have hhole : zoneOf sp rip v.disk (par sp k) = 0 → zoneOf sp rip v.disk (.data k) = 0 := by
      intro h0
      rw [zoneOf_data hge, h0, entry_zero]
    rw [if_neg (Nat.not_lt.mpr hge)]
    by_cases hfirst : k - nrDzones < sp.nindirs
    · have hpar : par sp k = .ind := if_pos hfirst
      have hidx : idx sp k = k - nrDzones := if_pos hfirst
      rw [if_pos hfirst]
      by_cases h0 : rip.zone nrDzones = 0
      · rw [if_pos h0, hhole (hpar ▸ h0)]
        rfl
      · rw [if_neg h0, ← hidx]
        exact hread (hpar ▸ rfl) h0
    · have hpar : par sp k = .sub ((k - nrDzones - sp.nindirs) / sp.nindirs) := if_neg hfirst
      have hidx : idx sp k = (k - nrDzones - sp.nindirs) % sp.nindirs := if_neg hfirst
      have hi : (k - nrDzones - sp.nindirs) / sp.nindirs < sp.nindirs := by
        rw [hpar] at hsingle
        exact hsingle
      rw [if_neg hfirst]
      by_cases h0 : rip.zone (nrDzones + 1) = 0
      · have hsub : zoneOf sp rip v.disk (par sp k) = 0 := by
          rw [hpar, zoneOf_sub, h0, entry_zero, ite_self]
        rw [if_pos h0, hhole hsub]
        rfl
      · rw [if_neg h0, if_neg (Nat.not_lt.mpr hi.le), h.rdIndir_sub hf h0 hi, ok_bind, ← hpar,
          ← hidx]
        by_cases hz : zoneOf sp rip v.disk (par sp k) = 0
        · rw [if_pos hz, hhole hz]
          rfl
        · rw [if_neg hz]
          exact hread rfl hz

theorem once_zoneOf (hp : zoneOf sp rip v.disk p ≠ 0) {g : Nat}
    (heq : zoneAt sp files v.disk (g, q) = zoneOf sp rip v.disk p) : g = f ∧ q = p := by
  rw [← zoneAt_of hf] at hp heq
  exact h.once_indirect hp heq

theorem zoneAt_wrIndir {val : Nat} (hq : q.Single sp) (hz : zoneOf sp rip v.disk q = z)
    (hz0 : z ≠ 0)
    (hex : ex < sp.nindirs) (hval : val < 2 ^ 32) : zoneAt sp files (v.wrIndir z ex val).disk =
      update (zoneAt sp files v.disk) (f, .data (q.base sp + ex)) val := by
  subst hz
  apply zoneAt_block hf
  · exact fun g p hg _ heq => hg (h.once_zoneOf hf hz0 heq).1
  · exact zoneOf_putWord hq rfl hz0 (fun p _ heq =>
      (h.once_zoneOf hf hz0 ((zoneAt_of hf).trans heq)).2) hex hval

theorem zoneAt_wrIndir_dbl {val : Nat} (hz0 : rip.zone (nrDzones + 1) ≠ 0) (hi : i < sp.nindirs)
    (hval : val < 2 ^ 32) (hne : val ≠ rip.zone (nrDzones + 1))
    (hsame : ∀ j < sp.nindirs, entry v.disk val j =
      entry v.disk (zoneOf sp rip v.disk (.sub i)) j) :
    zoneAt sp files (v.wrIndir (rip.zone (nrDzones + 1)) i val).disk =
      update (zoneAt sp files v.disk) (f, .sub i) val := by
  have hdbl : zoneOf sp rip v.disk .dbl ≠ 0 := hz0
  apply zoneAt_block hf
  · exact fun g p hg _ heq => hg (h.once_zoneOf hf hdbl heq).1
  · exact zoneOf_putWord_dbl rfl hz0 (fun p _ heq =>
      (h.once_zoneOf hf hdbl ((zoneAt_of hf).trans heq)).2) hi hval hne hsame

theorem enter (hq : q.Single sp) (hz : zoneOf sp rip v.disk q = z) (hz0 : z ≠ 0)
    (hex : ex < sp.nindirs) (hempty : zoneOf sp rip v.disk (.data (q.base sp + ex)) = 0) {w : Nat}
    (hw : w ∈ loose) : Accounted sp files (v.wrIndir z ex w) (loose \ {w}) :=
  h.attach rfl rfl (h.zoneAt_wrIndir hf hq hz hz0 hex (h.owned.kept hw).lt)
    ((zoneAt_of hf).trans hempty) hw fun hp => nomatch hp

theorem link_sub (hz0 : rip.zone (nrDzones + 1) ≠ 0) (hi : i < sp.nindirs)
    (hempty : zoneOf sp rip v.disk (.sub i) = 0) (hz : z ∈ loose) (hzero : v.disk z = fun _ => 0)
    (hinit : v.zeroed z = true) :
    Accounted sp files (v.wrIndir (rip.zone (nrDzones + 1)) i z) (loose \ {z}) ∧
      zoneAt sp files (v.wrIndir (rip.zone (nrDzones + 1)) i z).disk =
        update (zoneAt sp files v.disk) (f, .sub i) z := by
  have hne : z ≠ rip.zone (nrDzones + 1) := fun heq =>
    h.owned.apart (p := (f, .dbl)) hz ((zoneAt_of hf).trans heq.symm)
  have hmap := h.zoneAt_wrIndir_dbl hf hz0 hi (h.owned.kept hz).lt hne fun j _ => by
    rw [hempty, entry_zero, entry_of_zeroed hzero]
  exact ⟨h.attach rfl rfl hmap ((zoneAt_of hf).trans hempty) hz fun _ => hinit, hmap⟩

theorem link_ind (hempty : rip.zone nrDzones = 0) (hz : z ∈ loose) (hzero : v.disk z = fun _ => 0)
    (hinit : v.zeroed z = true) :
    Accounted sp (update files f (some (rip.setZone nrDzones z))) v (loose \ {z}) ∧
      zoneAt sp (update files f (some (rip.setZone nrDzones z))) v.disk =
        update (zoneAt sp files v.disk) (f, .ind) z := by
  have hslot : zoneAt sp files v.disk (f, .ind) = 0 := (zoneAt_of hf).trans hempty
  have hsame : ∀ j < sp.nindirs, entry v.disk z j = entry v.disk (rip.zone nrDzones) j :=
    fun j _ => by
    rw [hempty, entry_zero, entry_of_zeroed hzero]
  have hmap := zoneAt_put hf (zoneOf_setZone_ind hsame)
  exact ⟨h.attach rfl rfl hmap hslot hz fun _ => hinit, hmap⟩

theorem link_dbl (hempty : rip.zone (nrDzones + 1) = 0) (hz : z ∈ loose)
    (hzero : v.disk z = fun _ => 0) (hinit : v.zeroed z = true) :
    Accounted sp (update files f (some (rip.setZone (nrDzones + 1) z))) v (loose \ {z}) ∧
      zoneAt sp (update files f (some (rip.setZone (nrDzones + 1) z))) v.disk =
        update (zoneAt sp files v.disk) (f, .dbl) z := by
  have hslot : zoneAt sp files v.disk (f, .dbl) = 0 := (zoneAt_of hf).trans hempty
  have hsame : ∀ j < sp.nindirs, entry v.disk z j = entry v.disk (rip.zone (nrDzones + 1)) j :=
    fun j _ => by
    rw [hempty, entry_zero, entry_of_zeroed hzero]
  have hmap := zoneAt_put hf (zoneOf_setZone_dbl hsame)
  exact ⟨h.attach rfl rfl hmap hslot hz fun _ => hinit, hmap⟩

end Accounted

abbrev ZoneMap := Nat × Slot → Nat

def missing (sp : Super) (m : ZoneMap) (f k : Nat) : Nat :=
  if k < nrDzones ∨ m (f, par sp k) ≠ 0 then 0
  else if par sp k = .ind ∨ m (f, .dbl) ≠ 0 then 1
  else 2

/-- Zone `z` has become zone `k` of a file, with the indirect zones that were missing. -/
inductive Entered (sp : Super) (m : ZoneMap) (f k z : Nat) : ZoneMap → Prop where
  | here (h : k < nrDzones ∨ m (f, par sp k) ≠ 0) : Entered sp m f k z (update m (f, .data k) z)
  | single {b : Nat} (hk : nrDzones ≤ k) (h0 : m (f, par sp k) = 0) (hb : b ≠ 0)
      (hdbl : par sp k = .ind ∨ m (f, .dbl) ≠ 0) :
      Entered sp m f k z (update (update m (f, par sp k) b) (f, .data k) z)
  | double {a b : Nat} (hk : nrDzones ≤ k) (h0 : m (f, par sp k) = 0) (ha : a ≠ 0) (hb : b ≠ 0)
      (hpar : par sp k ≠ .ind) (hdbl : m (f, .dbl) = 0) :
      Entered sp m f k z
        (update (update (update m (f, .dbl) a) (f, par sp k) b) (f, .data k) z)

def Frame (sp : Super) (m : ZoneMap) (f : Nat) (v v' : Vol) : Prop :=
  ∀ w, Used sp v w → (∀ p : Slot, p.Indirect → m (f, p) ≠ w) → v'.disk w = v.disk w

def Inode.Alike (rip rip' : Inode) : Prop := rip'.type = rip.type ∧ rip'.size = rip.size

inductive EnterResult (sp : Super) (files : Files) (v : Vol) (loose : Set Nat) (f k z : Nat)
    (rip : Inode) : Option Errno × Inode × Vol → Prop where
  | done {rip' : Inode} {v' : Vol}
      (acc : Accounted sp (update files f (some rip')) v' (loose \ {z}))
      (entered : Entered sp (zoneAt sp files v.disk) f k z
        (zoneAt sp (update files f (some rip')) v'.disk))
      (room : room sp v' + missing sp (zoneAt sp files v.disk) f k = room sp v)
      (frame : Frame sp (zoneAt sp files v.disk) f v v') (alike : rip.Alike rip') :
      EnterResult sp files v loose f k z rip (none, rip', v')
  | full (room : room sp v = 0) (missing : 0 < missing sp (zoneAt sp files v.disk) f k) :
      EnterResult sp files v loose f k z rip (some .enospc, rip, v)
  /-- A double indirect zone has been created and stays, without an entry. -/
  | left {a : Nat} {rip' : Inode} {v' : Vol}
      (acc : Accounted sp (update files f (some rip')) v' loose)
      (map : zoneAt sp (update files f (some rip')) v'.disk =
        update (zoneAt sp files v.disk) (f, .dbl) a)
      (hdbl : zoneAt sp files v.disk (f, .dbl) = 0) (ha : a ≠ 0)
      (room : room sp v = 1) (missing : missing sp (zoneAt sp files v.disk) f k = 2)
      (frame : Frame sp (zoneAt sp files v.disk) f v v') (alike : rip.Alike rip') :
      EnterResult sp files v loose f k z rip (some .enospc, rip', v')

structure Made (sp : Super) (files : Files) (v v' : Vol) (loose : Set Nat) (z : Nat) : Prop where
  acc : Accounted sp files v' (insert z loose)
  map : zoneAt sp files v'.disk = zoneAt sp files v.disk
  zero : v'.disk z = fun _ => 0
  zeroed : v'.zeroed z = true
  fresh : ¬Used sp v z
  room : room sp v' + 1 = room sp v
  kept : ∀ w, Used sp v w → v'.disk w = v.disk w
  used : ∀ w, Used sp v w → Used sp v' w

theorem Accounted.made (h : Accounted sp files v loose) (ha : Allocated sp v v' z) :
    Made sp files v (v'.zeroBlock z) loose z := by
  have h' := h.alloc ha
  have hapart : ∀ g (p : Slot), p.Indirect → zoneAt sp files v'.disk (g, p) ≠ z := fun g p _ =>
    h'.owned.apart (Set.mem_insert z loose)
  refine ⟨h'.zeroBlock hapart, ?_, update_self _ _ _, update_self _ _ _, ha.fresh,
    ha.room, fun w hw => ?_, fun w hw => (ha.used w).mpr (.inl hw)⟩
  · rw [← ha.disk]
    exact zoneAt_setBlock hapart
  · have hne : w ≠ z := by
      rintro rfl
      exact ha.fresh hw
    exact (update_of_ne hne _ _).trans (congrFun ha.disk w)

theorem Made.insert_diff (h : Made sp files v v' loose z)
    (hacc : Accounted sp files v loose) : insert z loose \ {z} = loose := by
  ext w
  constructor
  · rintro ⟨rfl | hw, hne⟩
    · exact absurd rfl hne
    · exact hw
  · intro hw
    refine ⟨Set.mem_insert_of_mem z hw, ?_⟩
    rintro rfl
    exact h.fresh (hacc.owned.kept hw)

theorem setZone_self : rip.setZone i (rip.zone i) = rip := by
  rw [Inode.setZone, update_eq_self]

theorem Inode.Alike.refl : rip.Alike rip := ⟨rfl, rfl⟩

theorem update_files (hf : files f = some rip) : update files f (some rip) = files := by
  rw [← hf, update_eq_self]

section Equations

variable {w : Nat} {free : Bool}

theorem writeMap_ind (hk : position / sp.blockSize = k) (hge : nrDzones ≤ k)
    (hpar : par sp k = .ind) : writeMap sp position w free rip v = do
      let r ← writeIndir sp (rip.zone 0) (idx sp k) w free (rip.zone nrDzones) v
      return (r.1, rip.setZone nrDzones r.2.1, r.2.2) := by
  have hfirst : k - nrDzones < sp.nindirs := by
    by_contra hno
    rw [par, if_neg hno] at hpar
    cases hpar
  have hidx : idx sp k = k - nrDzones := if_pos hfirst
  simp only [writeMap, hk, Nat.not_lt.mpr hge, hfirst, if_true, if_false, hidx]

theorem writeMap_sub (hk : position / sp.blockSize = k) (hge : nrDzones ≤ k)
    (hpar : par sp k = .sub i) (hi : i < sp.nindirs) :
    writeMap sp position w free rip v = if rip.zone (nrDzones + 1) = 0 ∧ !free then do
        let r ← allocZone sp (rip.zone 0) v if r.1 = 0 then return (some .enospc, rip, r.2) else
          writeDouble sp (rip.zone 0) i (idx sp k) w free 0 r.1 (rip.setZone (nrDzones + 1) r.1)
            (r.2.zeroBlock r.1)
      else writeDouble sp (rip.zone 0) i (idx sp k) w free (rip.zone (nrDzones + 1))
        (rip.zone (nrDzones + 1)) rip v := by
  have hfirst : ¬k - nrDzones < sp.nindirs := by
    intro hyes
    rw [par, if_pos hyes] at hpar
    cases hpar
  have hidx : idx sp k = (k - nrDzones - sp.nindirs) % sp.nindirs := if_neg hfirst
  have hdiv : (k - nrDzones - sp.nindirs) / sp.nindirs = i := by
    rw [par, if_neg hfirst] at hpar
    exact Slot.sub.inj hpar
  simp only [writeMap, hk, Nat.not_lt.mpr hge, hfirst, if_false, hidx, hdiv, Nat.not_le.mpr hi]

end Equations

section Enter

variable {near w : Nat}

theorem writeIndir_enter (hz : z ≠ 0) :
    writeIndir sp near ex w false z v = .ok (none, z, v.wrIndir z ex w) := by
  simp [writeIndir, hz]
  rfl

theorem writeIndir_make (near ex w : Nat) (h : Accounted sp files v loose) :
    (room sp v = 0 ∧ writeIndir sp near ex w false 0 v = .ok (some .enospc, 0, v)) ∨
      ∃ z v', Made sp files v v' loose z ∧
        writeIndir sp near ex w false 0 v = .ok (none, z, v'.wrIndir z ex w) := by
  obtain ⟨r, heq, hr⟩ := allocZone_spec h.writable h.bit0 near
  have hstep : writeIndir sp near ex w false 0 v = if r.1 = 0 then .ok (some .enospc, 0, r.2)
      else .ok (none, r.1, (r.2.zeroBlock r.1).wrIndir r.1 ex w) := by
    simp only [writeIndir, heq]
    rfl
  rw [hstep]
  cases hr with
  | full hroom => exact .inl ⟨hroom, if_pos rfl⟩
  | @found z v' ha => exact .inr ⟨z, _, h.made ha, if_neg ha.used_self.ne_zero⟩

theorem frame_wrIndir (hp : p.Indirect) (hz : m (f, p) = z) :
    Frame sp m f v (v.wrIndir z ex w) := fun _ _ hu =>
  update_of_ne (fun heq => hu p hp (hz.trans heq.symm)) _ _

theorem Frame.trans_made {v'' : Vol} (hm : Made sp files v v' loose z)
    (h : ∀ u, Used sp v u → (∀ p : Slot, p.Indirect → m (f, p) ≠ u) → v''.disk u = v'.disk u) :
    Frame sp m f v v'' := fun u hu hne => (h u hu hne).trans (hm.kept u hu)

theorem missing_of_slot (hge : nrDzones ≤ k) (h0 : m (f, par sp k) = 0) :
    missing sp m f k = if par sp k = .ind ∨ m (f, .dbl) ≠ 0 then 1 else 2 := by
  apply if_neg
  rintro (hlt | hne)
  · exact absurd hlt (Nat.not_lt.mpr hge)
  · exact hne h0

theorem missing_pos (hge : nrDzones ≤ k) (h0 : m (f, par sp k) = 0) : 0 < missing sp m f k := by
  rw [missing_of_slot hge h0]
  split <;> decide

theorem wrIndir_comm {a b x y x' y' : Nat} (hne : a ≠ b) :
    (v.wrIndir a x y).wrIndir b x' y' = (v.wrIndir b x' y').wrIndir a x y := by
  rw [Vol.wrIndir, Vol.wrIndir, Vol.wrIndir, Vol.wrIndir, Vol.setBlock, Vol.setBlock, Vol.setBlock,
    Vol.setBlock]
  simp only [update_of_ne hne, update_of_ne hne.symm, update_comm hne]

theorem par_cases (hk : k < mapSize sp) :
    par sp k = .ind ∨ ∃ i, par sp k = .sub i ∧ i < sp.nindirs := by
  have hsingle := single_par hk
  cases hpar : par sp k with
  | ind => exact .inl rfl
  | sub i =>
    rw [hpar] at hsingle
    exact .inr ⟨i, rfl, hsingle⟩
  | dbl => exact absurd hpar par_ne_dbl
  | data j => exact absurd hpar par_ne_data

section Single

variable (h : Accounted sp files v loose) (hf : files f = some rip) (hge : nrDzones ≤ k)
  (hk : k < mapSize sp) (hempty : zoneOf sp rip v.disk (.data k) = 0) (hw : w ∈ loose)

include h hf hge hk hempty hw

theorem enterResult_here (hz : zoneOf sp rip v.disk (par sp k) ≠ 0) :
    EnterResult sp files v loose f k w rip
      (none, rip, v.wrIndir (zoneOf sp rip v.disk (par sp k)) (idx sp k) w) := by
  have hsingle := single_par hk
  have hm : zoneAt sp files v.disk (f, par sp k) ≠ 0 := by rwa [zoneAt_of hf]
  have hmap := h.zoneAt_wrIndir hf hsingle rfl hz (idx_lt (k := k)) (h.owned.kept hw).lt
  rw [base_par hge] at hmap
  apply EnterResult.done
  · rw [update_files hf]
    exact h.enter hf hsingle rfl hz idx_lt (by rwa [base_par hge]) hw
  · rw [update_files hf, hmap]
    exact .here (.inr hm)
  · rw [missing, if_pos (.inr hm)]
    rfl
  · exact frame_wrIndir indirect_par (zoneAt_of hf)
  · exact .refl

theorem enterResult_linked (h0 : zoneOf sp rip v.disk (par sp k) = 0)
    (hdbl : par sp k = .ind ∨ zoneAt sp files v.disk (f, .dbl) ≠ 0) {v'' : Vol} {rip' : Inode}
    (hm : Made sp files v v' loose z)
    (hacc : Accounted sp (update files f (some rip')) v'' (insert z loose \ {z}))
    (hmap : zoneAt sp (update files f (some rip')) v''.disk =
      update (zoneAt sp files v'.disk) (f, par sp k) z) (hroom : room sp v'' = room sp v')
    (hframe : ∀ u, (∀ p : Slot, p.Indirect → zoneAt sp files v.disk (f, p) ≠ u) →
      v''.disk u = v'.disk u) (halike : rip.Alike rip') :
    EnterResult sp files v loose f k w rip (none, rip', v''.wrIndir z (idx sp k) w) := by
  have hz0 : z ≠ 0 := (hm.acc.owned.kept (Set.mem_insert z loose)).ne_zero
  have hslot : zoneAt sp files v.disk (f, par sp k) = 0 := by rwa [zoneAt_of hf]
  have hf' : update files f (some rip') f = some rip' := update_self _ _ _
  have hsingle := single_par hk
  have hzone : zoneOf sp rip' v''.disk (par sp k) = z := by
    rw [← zoneAt_of hf', hmap, update_self]
  have hdata : zoneOf sp rip' v''.disk (.data k) = 0 := by
    have hne : (f, Slot.data k) ≠ (f, par sp k) := fun heq => par_ne_data (Prod.mk.inj heq).2.symm
    rw [← zoneAt_of hf', hmap, update_of_ne hne, hm.map, zoneAt_of hf, hempty]
  have hmap' := hacc.zoneAt_wrIndir hf' hsingle hzone hz0 (idx_lt (k := k)) (h.owned.kept hw).lt
  rw [base_par hge, hmap, hm.map] at hmap'
  apply EnterResult.done
  · have := hacc.enter hf' hsingle hzone hz0 (idx_lt) (by rwa [base_par hge])
      (by rwa [hm.insert_diff h])
    rwa [hm.insert_diff h] at this
  · rw [hmap']
    exact .single hge hslot hz0 hdbl
  · rw [missing_of_slot hge hslot, if_pos hdbl]
    exact (congrArg (· + 1) hroom).trans hm.room
  · refine .trans_made hm fun u hu hp => ?_
    have hne : u ≠ z := by
      rintro rfl
      exact hm.fresh hu
    exact (update_of_ne hne _ _).trans (hframe u hp)
  · exact halike

theorem enterResult_ind (hpar : par sp k = .ind) (h0 : rip.zone nrDzones = 0)
    (hm : Made sp files v v' loose z) : EnterResult sp files v loose f k w rip
      (none, rip.setZone nrDzones z, v'.wrIndir z (idx sp k) w) := by
  obtain ⟨hacc, hmap⟩ := hm.acc.link_ind hf h0 (Set.mem_insert z loose) hm.zero hm.zeroed
  rw [← hpar] at hmap
  exact enterResult_linked h hf hge hk hempty hw (hpar ▸ h0) (.inl hpar) hm hacc hmap rfl
    (fun _ _ => rfl) ⟨rfl, rfl⟩

theorem enterResult_sub (hpar : par sp k = .sub i) (hdbl : rip.zone (nrDzones + 1) ≠ 0)
    (h0 : zoneOf sp rip v.disk (.sub i) = 0) (hm : Made sp files v v' loose z) :
    EnterResult sp files v loose f k w rip
      (none, rip, (v'.wrIndir z (idx sp k) w).wrIndir (rip.zone (nrDzones + 1)) i z) := by
  have hi : i < sp.nindirs := by
    have := single_par hk
    rwa [hpar] at this
  have hslot : zoneAt sp files v.disk (f, .dbl) = rip.zone (nrDzones + 1) := zoneAt_of hf
  have hne : z ≠ rip.zone (nrDzones + 1) := fun heq =>
    hm.acc.owned.apart (p := (f, .dbl)) (Set.mem_insert z loose) ((zoneAt_of hf).trans heq.symm)
  have h0' : zoneOf sp rip v'.disk (.sub i) = 0 := by rw [← zoneAt_of hf, hm.map, zoneAt_of hf, h0]
  obtain ⟨hacc, hmap⟩ := hm.acc.link_sub hf hdbl hi h0' (Set.mem_insert z loose) hm.zero hm.zeroed
  rw [← update_files hf] at hacc
  rw [wrIndir_comm hne]
  refine enterResult_linked h hf hge hk hempty hw (hpar ▸ h0) (.inr (hslot ▸ hdbl)) hm hacc ?_ rfl
    (fun u hp => ?_) .refl
  · rw [update_files hf, hpar]
    exact hmap
  · exact update_of_ne (fun heq => hp .dbl trivial (hslot.trans heq.symm)) _ _

theorem writeDouble_enter (near z2 : Nat) (hpar : par sp k = .sub i)
    (hdbl : rip.zone (nrDzones + 1) ≠ 0) :
    ∃ r, writeDouble sp near i (idx sp k) w false z2 (rip.zone (nrDzones + 1)) rip v = .ok r ∧
      EnterResult sp files v loose f k w rip r := by
  have hi : i < sp.nindirs := by
    have := single_par hk
    rwa [hpar] at this
  simp only [writeDouble, hdbl, if_false, h.rdIndir_sub hf hdbl hi, ok_bind]
  by_cases h0 : zoneOf sp rip v.disk (.sub i) = 0
  · have hslot : zoneAt sp files v.disk (f, par sp k) = 0 := by rwa [zoneAt_of hf, hpar]
    rw [h0]
    rcases writeIndir_make near (idx sp k) w h with
      ⟨hroom, heq⟩ | ⟨z, v', hm, heq⟩
    · rw [heq, ok_bind]
      exact ⟨_, rfl, .full hroom (missing_pos hge hslot)⟩
    · have hz0 : z ≠ 0 := (hm.acc.owned.kept (Set.mem_insert z loose)).ne_zero
      rw [heq, ok_bind]
      simp only [hz0, if_false, false_and]
      exact ⟨_, rfl, enterResult_sub h hf hge hk hempty hw hpar hdbl h0 hm⟩
  · rw [writeIndir_enter h0, ok_bind]
    simp only [h0]
    refine ⟨_, rfl, ?_⟩
    rw [← hpar]
    exact enterResult_here h hf hge hk hempty hw (hpar ▸ h0)

theorem enterResult_dbl (hpar : par sp k = .sub i) (hdbl : rip.zone (nrDzones + 1) = 0)
    (hm : Made sp files v v' loose z) :
    ∃ r, writeDouble sp near i (idx sp k) w false 0 z (rip.setZone (nrDzones + 1) z) v' = .ok r ∧
      EnterResult sp files v loose f k w rip r := by
  have hz0 : z ≠ 0 := (hm.acc.owned.kept (Set.mem_insert z loose)).ne_zero
  have hslot : zoneAt sp files v.disk (f, .dbl) = 0 := (zoneAt_of hf).trans hdbl
  have hsub : zoneAt sp files v.disk (f, par sp k) = 0 := by
    rw [zoneAt_of hf, hpar, zoneOf_sub, hdbl, entry_zero, ite_self]
  obtain ⟨hacc, hmap⟩ := hm.acc.link_dbl hf hdbl (Set.mem_insert z loose) hm.zero hm.zeroed
  rw [hm.insert_diff h] at hacc
  rw [hm.map] at hmap
  have hf' : update files f (some (rip.setZone (nrDzones + 1) z)) f =
      some (rip.setZone (nrDzones + 1) z) := update_self _ _ _
  have hdata : zoneOf sp (rip.setZone (nrDzones + 1) z) v'.disk (.data k) = 0 := by
    rw [← zoneAt_of hf', hmap, update_of_ne (by simp), zoneAt_of hf, hempty]
  have hne : (f, par sp k) ≠ (f, .dbl) := fun heq => par_ne_dbl (Prod.mk.inj heq).2
  have hmissing : missing sp (zoneAt sp files v.disk) f k = 2 := by
    rw [missing_of_slot hge hsub, if_neg]
    rintro (heq | hne)
    · rw [hpar] at heq
      cases heq
    · exact hne hslot
  have hmissing' : missing sp (update (zoneAt sp files v.disk) (f, .dbl) z) f k = 1 := by
    rw [missing_of_slot hge ((update_of_ne hne _ _).trans hsub), if_pos]
    exact .inr (by rwa [update_self])
  obtain ⟨r, heq, hr⟩ := writeDouble_enter hacc hf' hge hk hdata hw near 0 hpar
    (by rwa [setZone_zone_self])
  refine ⟨r, heq, ?_⟩
  cases hr with
  | full hroom _ =>
    have hone : room sp v = 1 := by rw [← hm.room, hroom]
    exact .left hacc hmap hslot hz0 hone hmissing (.trans_made hm fun _ _ _ => rfl) ⟨rfl, rfl⟩
  | left _ _ hdbl' =>
    rw [hmap, update_self] at hdbl'
    exact absurd hdbl' hz0
  | @done rip' v'' acc entered hroom frame alike =>
    rw [update_idem] at acc entered
    rw [hmap] at entered hroom frame
    rw [hmissing'] at hroom
    have hframe : Frame sp (zoneAt sp files v.disk) f v v'' := by
      refine .trans_made hm fun u hu hp => frame u (hm.used u hu) fun p hind => ?_
      by_cases hpd : p = .dbl
      · rw [hpd, update_self]
        rintro rfl
        exact hm.fresh hu
      · rw [update_of_ne fun heq => hpd (Prod.mk.inj heq).2]
        exact hp p hind
    refine .done acc ?_ (by rw [hmissing, ← hm.room, ← hroom]) hframe alike
    generalize zoneAt sp (update files f (some rip')) v''.disk = m' at entered
    cases entered with
    | here h' =>
      rw [update_of_ne hne] at h'
      rcases h' with hlt | hne'
      · exact absurd hlt (Nat.not_lt.mpr hge)
      · exact absurd hsub hne'
    | single _ _ hb _ =>
      refine .double hge hsub hz0 hb ?_ hslot
      rw [hpar]
      exact Slot.noConfusion
    | double _ _ _ _ _ hd =>
      rw [update_self] at hd
      exact absurd hd hz0

end Single

theorem enterResult_direct (h : Accounted sp files v loose) (hf : files f = some rip)
    (hlt : k < nrDzones) (hempty : zoneOf sp rip v.disk (.data k) = 0) (hw : w ∈ loose) :
    EnterResult sp files v loose f k w rip (none, rip.setZone k w, v) := by
  have hmap : zoneAt sp (update files f (some (rip.setZone k w))) v.disk =
      update (zoneAt sp files v.disk) (f, .data k) w :=
    zoneAt_put hf (zoneOf_setZone_direct hlt)
  apply EnterResult.done
  · exact h.attach rfl rfl hmap ((zoneAt_of hf).trans hempty) hw fun hp => nomatch hp
  · rw [hmap]
    exact .here (.inl hlt)
  · rw [missing, if_pos (.inl hlt)]
    rfl
  · exact fun _ _ _ => rfl
  · exact ⟨rfl, rfl⟩

theorem writeMap_enter (h : Accounted sp files v loose) (hf : files f = some rip)
    (hpos : position / sp.blockSize = k) (hk : k < mapSize sp)
    (hempty : zoneOf sp rip v.disk (.data k) = 0) (hw : w ∈ loose) :
    ∃ r, writeMap sp position w false rip v = .ok r ∧ EnterResult sp files v loose f k w rip r := by
  rcases Nat.lt_or_ge k nrDzones with hlt | hge
  · refine ⟨_, ?_, enterResult_direct h hf hlt hempty hw⟩
    simp only [writeMap, hpos, hlt, Bool.false_eq_true, and_false]
    rfl
  rcases par_cases hk with hpar | ⟨i, hpar, hi⟩
  · rw [writeMap_ind hpos hge hpar]
    by_cases h0 : rip.zone nrDzones = 0
    · have hslot : zoneAt sp files v.disk (f, par sp k) = 0 := by
        rw [hpar]
        exact (zoneAt_of hf).trans h0
      rw [h0]
      rcases writeIndir_make (rip.zone 0) (idx sp k) w h with
        ⟨hroom, heq⟩ | ⟨z, v', hm, heq⟩
      · have hself : rip.setZone nrDzones 0 = rip := by rw [← h0, setZone_self]
        rw [heq]
        refine ⟨_, rfl, ?_⟩
        rw [hself]
        exact .full hroom (missing_pos hge hslot)
      · rw [heq]
        exact ⟨_, rfl, enterResult_ind h hf hge hk hempty hw hpar h0 hm⟩
    · have hres := enterResult_here h hf hge hk hempty hw (by rw [hpar]; exact h0)
      rw [hpar] at hres
      rw [writeIndir_enter h0]
      refine ⟨_, rfl, ?_⟩
      rw [setZone_self]
      exact hres
  · rw [writeMap_sub hpos hge hpar hi]
    by_cases h0 : rip.zone (nrDzones + 1) = 0
    · have hslot : zoneAt sp files v.disk (f, par sp k) = 0 := by
        rw [zoneAt_of hf, hpar, zoneOf_sub, h0, entry_zero, ite_self]
      rw [if_pos ⟨h0, rfl⟩]
      obtain ⟨r, heq, hr⟩ := allocZone_spec h.writable h.bit0 (rip.zone 0)
      rw [heq, ok_bind]
      cases hr with
      | full hroom => exact ⟨_, if_pos rfl, .full hroom (missing_pos hge hslot)⟩
      | found ha =>
        rw [if_neg ha.used_self.ne_zero]
        exact enterResult_dbl h hf hge hk hempty hw hpar h0 (h.made ha)
    · rw [if_neg fun hno => h0 hno.1]
      obtain ⟨r, heq, hr⟩ := writeDouble_enter h hf hge hk hempty hw (rip.zone 0)
        (rip.zone (nrDzones + 1)) hpar h0
      exact ⟨r, heq, hr⟩

end Enter

end Gergios.Mfs
