import Gergios.Mfs.WriteLoop

/-!
# Truncating files and cutting holes

The bytes of the range become zero. The zones that lie in it are freed, and of a zone that lies in
it with a part only, that part is overwritten.
-/

namespace Gergios.Mfs

open Lib Function List Nat

/-- The bytes from `a` to `b` are zero. -/
def punch (c : Nat → UInt8) (a b : Nat) : Nat → UInt8 := fun q => if a ≤ q ∧ q < b then 0 else c q

variable {sp : Super} {files files' : Files} {v v' : Vol} {f k : Nat} {rip rip' : Inode}
  {c : Nat → UInt8} {a b pos len : Nat} {v'' : Vol} {start stop size : Nat}

theorem punch_halves {x y : Nat} (q : Nat) (hx : a ≤ x) (hxy : x ≤ y) (hy : y ≤ b) :
    (if x ≤ q ∧ q < y then 0 else punch (punch c a x) y b q) = punch c a b q := by
  simp only [punch]
  split_ifs <;> first | rfl | omega

theorem punch_tail {x y : Nat} (q : Nat) (hx : a ≤ x) (hxb : x ≤ b) (hb : b ≤ y)
    (hc : b ≤ q → q < y → c q = 0) :
    (if x ≤ q ∧ q < y then 0 else punch c a x q) = punch c a b q := by
  simp only [punch]
  split_ifs <;> first | rfl | omega | exact (hc (by omega) (by omega)).symm

theorem putBytes_replicate : putBytes c pos (replicate len 0) = punch c pos (pos + len) := by
  funext q
  rw [putBytes, punch, length_replicate]
  split
  · rw [getD_replicate _ (by omega)]
  · rfl

/-- The volume with bytes of file `f` overwritten: the map is the same. -/
structure Overwritten (sp : Super) (files : Files) (v v' : Vol) (f : Nat) (c : Nat → UInt8) :
    Prop where
  acc : Accounted sp files v' ∅
  map : zoneAt sp files v'.disk = zoneAt sp files v.disk
  zmap : v'.zmap = v.zmap
  other : ∀ g, g ≠ f → content sp files v'.disk g = content sp files v.disk g
  self : content sp files v'.disk f = c

theorem Overwritten.refl (h : Accounted sp files v ∅) (hc : content sp files v.disk f = c) :
    Overwritten sp files v v f c := ⟨h, rfl, rfl, fun _ _ => rfl, hc⟩

theorem zerozoneRange_spec (pos len : Nat) (h : Accounted sp files v ∅) (hf : files f = some rip)
    (hmax : pos ≤ maxSize) (hlen : pos % sp.blockSize + len ≤ sp.blockSize) :
    ∃ v', zerozoneRange sp rip len pos len v = .ok v' ∧
      Overwritten sp files v v' f (punch (content sp files v.disk f) pos (pos + len)) := by
  have hround : pos / sp.blockSize * sp.blockSize / sp.blockSize = pos / sp.blockSize :=
    Nat.mul_div_cancel _ (blockSize_pos sp)
  have hk : pos / sp.blockSize < mapSize sp := block_lt_mapSize sp (le_of_maxSize hmax)
  have hread := h.readMap_eq hf (hround ▸ hk)
  rw [hround] at hread
  have hslot : zoneAt sp files v.disk (f, .data (pos / sp.blockSize)) =
      zoneOf sp rip v.disk (.data (pos / sp.blockSize)) := zoneAt_of hf
  cases len with
  | zero =>
    refine ⟨v, rfl, .refl h ?_⟩
    funext q
    exact (if_neg (by omega)).symm
  | succ n =>
    simp only [zerozoneRange, hread, ok_bind]
    by_cases hz0 : zoneOf sp rip v.disk (.data (pos / sp.blockSize)) = 0
    · refine ⟨v, if_pos hz0, .refl h ?_⟩
      -- a block that does not exist holds zeros
      rw [← putBytes_replicate]
      funext q
      by_cases hq : q / sp.blockSize = pos / sp.blockSize
      · have hzero : content sp files v.disk f q = 0 := by
          simp only [content, hq, hslot, hz0, if_true]
        rw [putBytes_replicate, punch, hzero, ite_self]
      · rw [putBytes_other_block (by rwa [length_replicate]) hq]
    · have hmin : min (sp.blockSize - pos % sp.blockSize) (n + 1) = n + 1 := by omega
      simp only [hz0, hmin, Nat.sub_self]
      generalize hb : putBytes (v.disk (zoneOf sp rip v.disk (.data (pos / sp.blockSize))))
        (pos % sp.blockSize) (replicate (n + 1) 0) = b
      generalize hz : zoneOf sp rip v.disk (.data (pos / sp.blockSize)) = z at *
      have hend : zerozoneRange sp rip n (pos + (n + 1)) 0 (v.setBlock z b) =
          .ok (v.setBlock z b) := by
        cases n with
        | zero => rfl
        | succ n => exact if_pos rfl
      have hnot : ∀ g (p : Slot), p.Indirect → zoneAt sp files v.disk (g, p) ≠ z := fun g p hp =>
        hslot ▸ h.data_not_indirect (hslot.symm ▸ hz0) g p hp
      have hmap : zoneAt sp files (v.setBlock z b).disk = zoneAt sp files v.disk :=
        zoneAt_setBlock hnot
      have hother : ∀ g q, ¬(g = f ∧ q / sp.blockSize = pos / sp.blockSize) →
          content sp files (v.setBlock z b).disk g q = content sp files v.disk g q := fun g q hne =>
        content_of_ne h hmap (fun _ => rfl)
          (fun w _ _ hw => update_of_ne (fun heq => hw (hslot.trans heq.symm)) _ _) hne
      refine ⟨_, hend, h.setBlock hnot, hmap, rfl, fun g hg => ?_, ?_⟩
      · funext q
        exact hother g q fun hno => hg hno.1
      · rw [← putBytes_replicate]
        refine content_stored (by rwa [length_replicate]) rfl hz0 (by rw [hmap, hslot])
          (update_self _ _ _) (fun q hq => ?_) fun q hq => hother f q fun hno => hq hno.2
        rw [← hb]
        refine putBytes_block hq fun _ => ?_
        simp only [content, hq, hslot, if_neg hz0]

/-- The zones `a` to `b` of file `f` and the indirect zones emptied by that have been freed. -/
structure Freed (sp : Super) (files files' : Files) (v v' : Vol) (f a b : Nat) : Prop where
  acc : Accounted sp files' v' ∅
  shrunk : Shrunk (zoneAt sp files v.disk) (zoneAt sp files' v'.disk) (Used sp v) (Used sp v')
  data : ∀ g j, zoneAt sp files' v'.disk (g, .data j) =
    if g = f ∧ a ≤ j ∧ j < b then 0 else zoneAt sp files v.disk (g, .data j)
  full : Full sp (zoneAt sp files v.disk) → Full sp (zoneAt sp files' v'.disk)
  content : ∀ g q, content sp files' v'.disk g q =
    if g = f ∧ a ≤ q / sp.blockSize ∧ q / sp.blockSize < b then 0 else content sp files v.disk g q

theorem Freed.refl (h : Accounted sp files v ∅) (hab : b ≤ a) : Freed sp files files v v f a b := by
  have hnot : ∀ {g j}, ¬(g = f ∧ a ≤ j ∧ j < b) := fun hno => by omega
  exact ⟨h, .refl, fun _ _ => (if_neg hnot).symm, id, fun _ _ => (if_neg hnot).symm⟩

theorem Freed.cons {files'' : Files} (h : Pruned sp files files' v v' ∅ f a ∅)
    (hacc : Accounted sp files v ∅) (h' : Freed sp files' files'' v' v'' f (a + 1) b)
    (hab : a < b) :
    Freed sp files files'' v v'' f a b := by
  have hcontent : ∀ g q, Mfs.content sp files' v'.disk g q =
      if g = f ∧ q / sp.blockSize = a then 0 else Mfs.content sp files v.disk g q := by
    intro g q
    simp only [Mfs.content, h.data]
    by_cases hgq : g = f ∧ q / sp.blockSize = a
    · rw [if_pos hgq, if_pos hgq, if_pos rfl]
    · rw [if_neg hgq, if_neg hgq]
      by_cases h0 : zoneAt sp files v.disk (g, .data (q / sp.blockSize)) = 0
      · rw [if_pos h0, if_pos h0]
      · rw [if_neg h0, if_neg h0,
          h.frame _ (hacc.used_zoneAt h0) fun p hp => hacc.data_not_indirect h0 f p hp]
  refine ⟨h'.acc, h.shrunk.trans h'.shrunk, fun g j => ?_, fun hfull => h'.full (h.full hfull),
    fun g q => ?_⟩
  · rw [h'.data, h.data]
    split
    · rw [if_pos (by omega)]
    · split
      · rw [if_pos (by omega)]
      · rw [if_neg (by omega)]
  · rw [h'.content, hcontent]
    split
    · rw [if_pos (by omega)]
    · split
      · rw [if_pos (by omega)]
      · rw [if_neg (by omega)]

theorem freeZones_spec (count : Nat) (h : Accounted sp files v ∅) (hf : files f = some rip)
    (hle : a + count ≤ mapSize sp) :
    ∃ rip' v', freeZones sp count a rip v = .ok (none, rip', v') ∧ rip.Alike rip' ∧
      Freed sp files (update files f (some rip')) v v' f a (a + count) := by
  induction count generalizing a files rip v with
  | zero =>
    refine ⟨rip, v, rfl, .refl, ?_⟩
    rw [update_files hf]
    exact .refl h le_rfl
  | succ count ih =>
    have hblock : a * sp.blockSize / sp.blockSize = a := Nat.mul_div_cancel _ (blockSize_pos sp)
    obtain ⟨⟨e, rip₁, v₁⟩, hr, rfl, halike, hpruned⟩ := writeMap_free h hf hblock (by omega)
    obtain ⟨rip₂, v₂, hr₂, halike₂, hfreed⟩ :=
      ih (a := a + 1) hpruned.acc (update_self _ _ _) (by omega)
    rw [update_idem, Nat.add_assoc, Nat.add_comm 1] at hfreed
    refine ⟨rip₂, v₂, ?_, halike.trans halike₂, .cons hpruned h hfreed (by omega)⟩
    rw [freeZones, hr]
    exact hr₂

/-- The bytes from `start` to `stop` of file `f`, no further than its size, have been freed. -/
structure FreeSpace (sp : Super) (files files' : Files) (v v' : Vol) (f size start stop : Nat) :
    Prop where
  acc : Accounted sp files' v' ∅
  shrunk : Shrunk (zoneAt sp files v.disk) (zoneAt sp files' v'.disk) (Used sp v) (Used sp v')
  data : ∀ g j, g ≠ f → zoneAt sp files' v'.disk (g, .data j) = zoneAt sp files v.disk (g, .data j)
  gone : size ≤ stop → ∀ j, zoneAt sp files' v'.disk (f, .data j) ≠ 0 → j * sp.blockSize < size →
    j * sp.blockSize < start
  full : Full sp (zoneAt sp files v.disk) → Full sp (zoneAt sp files' v'.disk)
  other : ∀ g, g ≠ f → content sp files' v'.disk g = content sp files v.disk g
  self : (∀ q, size ≤ q → content sp files v.disk f q = 0) →
    content sp files' v'.disk f = punch (content sp files v.disk f) start (min stop size)

theorem Overwritten.shrunk (h : Overwritten sp files v v' f c) :
    Shrunk (zoneAt sp files v.disk) (zoneAt sp files v'.disk) (Used sp v) (Used sp v') := by
  have hused : Used sp v' = Used sp v := by
    funext w
    rw [Used, Used, h.zmap]
  rw [h.map, hused]
  exact .refl

theorem div_mul_add_mod (sp : Super) (n : Nat) :
    n / sp.blockSize * sp.blockSize + n % sp.blockSize = n ∧ n % sp.blockSize < sp.blockSize := by
  have := div_add_mod n sp.blockSize
  rw [Nat.mul_comm] at this
  exact ⟨this, mod_lt n (blockSize_pos sp)⟩

theorem div_lt_iff {n k : Nat} : n / sp.blockSize < k ↔ n < k * sp.blockSize :=
  Nat.div_lt_iff_lt_mul (blockSize_pos sp)

theorem le_div_iff {n k : Nat} : k ≤ n / sp.blockSize ↔ k * sp.blockSize ≤ n :=
  Nat.le_div_iff_mul_le (blockSize_pos sp)

theorem mul_blockSize_lt {i j : Nat} : i * sp.blockSize < j * sp.blockSize ↔ i < j :=
  Nat.mul_lt_mul_right (blockSize_pos sp)

theorem nextblock_eq : nextblock sp start / sp.blockSize * sp.blockSize = nextblock sp start := by
  rw [nextblock]
  split
  · rw [Nat.add_zero, Nat.mul_div_cancel _ (blockSize_pos sp)]
  · rw [← succ_mul, Nat.mul_div_cancel _ (blockSize_pos sp)]

theorem freeSpace_range (h : Accounted sp files v ∅)
    (hf : files f = some rip) (hsize : rip.size = size) (hmax : size ≤ maxSize)
    (hlt : start < min stop size)
    (hblock : start / sp.blockSize = (min stop size - 1) / sp.blockSize)
    (hpart : start % sp.blockSize ≠ 0 ∨ min stop size % sp.blockSize ≠ 0 ∧ min stop size < size) :
    ∃ v', zerozoneRange sp rip (min stop size - start) start (min stop size - start) v = .ok v' ∧
      FreeSpace sp files files v v' f size start stop := by
  obtain ⟨hs, hsmod⟩ := div_mul_add_mod sp start
  obtain ⟨ht, htmod⟩ := div_mul_add_mod sp (min stop size - 1)
  rw [← hblock] at ht
  obtain ⟨v', heq, hover⟩ := zerozoneRange_spec start (min stop size - start) h hf
    (by omega) (by omega)
  have hend : start + (min stop size - start) = min stop size := by omega
  rw [hend] at hover
  refine ⟨v', heq, hover.acc, hover.shrunk, fun g j _ => by rw [hover.map], fun hstop j _ hj => ?_,
    fun hfull => by rwa [hover.map], hover.other, fun _ => hover.self⟩
  have hmin : min stop size = size := Nat.min_eq_right hstop
  rw [hmin] at hblock hpart ht hlt
  have hle : j ≤ (size - 1) / sp.blockSize := le_div_iff.mpr (by omega)
  have hjs : j * sp.blockSize ≤ start / sp.blockSize * sp.blockSize :=
    Nat.mul_le_mul_right _ (hblock ▸ hle)
  omega

theorem punch_self : punch c a a = c := by
  funext q
  exact if_neg (by omega)

theorem Overwritten.trans {c' : Nat → UInt8} (h : Overwritten sp files v v' f c)
    (h' : Overwritten sp files v' v'' f c') : Overwritten sp files v v'' f c' :=
  ⟨h'.acc, h'.map.trans h.map, h'.zmap.trans h.zmap,
    fun g hg => (h'.other g hg).trans (h.other g hg), h'.self⟩

theorem zerozoneLast_spec (h : Accounted sp files v ∅) (hf : files f = some rip)
    (hmax : start ≤ maxSize) :
    ∃ v', (if start % sp.blockSize ≠ 0 then zerozoneLast sp rip start v else pure v) = .ok v' ∧
      Overwritten sp files v v' f
        (punch (content sp files v.disk f) start (nextblock sp start)) := by
  obtain ⟨hs, hsmod⟩ := div_mul_add_mod sp start
  by_cases hzero : start % sp.blockSize = 0
  · have hnext : nextblock sp start = start := by
      rw [nextblock, if_pos hzero]
      omega
    refine ⟨v, if_neg (not_not_intro hzero), .refl h ?_⟩
    rw [hnext, punch_self]
  · have hnext : nextblock sp start = start + (sp.blockSize - start % sp.blockSize) := by
      rw [nextblock, if_neg hzero]
      omega
    rw [if_pos hzero, hnext]
    exact zerozoneRange_spec start _ h hf hmax (by omega)

theorem zerozoneFirst_spec (h : Accounted sp files v ∅) (hf : files f = some rip)
    (hmax : stop ≤ maxSize) :
    ∃ v', zerozoneFirst sp rip stop v = .ok v' ∧ Overwritten sp files v v' f
      (punch (content sp files v.disk f) (stop / sp.blockSize * sp.blockSize) stop) := by
  obtain ⟨ht, htmod⟩ := div_mul_add_mod sp stop
  have hround : stop - stop % sp.blockSize = stop / sp.blockSize * sp.blockSize := by omega
  have hmod : (stop / sp.blockSize * sp.blockSize) % sp.blockSize = 0 := mul_mod_left _ _
  obtain ⟨v', heq, hover⟩ := zerozoneRange_spec (stop / sp.blockSize * sp.blockSize)
    (stop % sp.blockSize) h hf (by omega) (by omega)
  rw [ht] at hover
  exact ⟨v', by rwa [zerozoneFirst, hround], hover⟩

theorem Overwritten.freed (h : Overwritten sp files v v' f c)
    (h' : Freed sp files files' v' v'' f a b)
    (hgone : size ≤ stop → ∀ j, j * sp.blockSize < size → ¬(a ≤ j ∧ j < b) →
      j * sp.blockSize < start) (hself : (∀ q, size ≤ q → content sp files v.disk f q = 0) →
      ∀ q, (if a * sp.blockSize ≤ q ∧ q < b * sp.blockSize then 0 else c q) =
        punch (content sp files v.disk f) start (min stop size) q) :
    FreeSpace sp files files' v v'' f size start stop := by
  refine ⟨h'.acc, h.shrunk.trans h'.shrunk, fun g j hg => ?_, fun hstop j hj hsize => ?_,
    fun hfull => h'.full (by rwa [h.map]), fun g hg => ?_, fun hclean => ?_⟩
  · rw [h'.data, if_neg fun hno => hg hno.1, h.map]
  · refine hgone hstop j hsize fun hno => hj ?_
    rw [h'.data, if_pos ⟨rfl, hno⟩]
  · funext q
    rw [h'.content, if_neg fun hno => hg hno.1, h.other g hg]
  · funext q
    rw [h'.content, ← hself hclean q]
    simp only [true_and, le_div_iff, div_lt_iff, h.self]

theorem nextblock_cases (sp : Super) (start : Nat) :
    start % sp.blockSize = 0 ∧ nextblock sp start = start / sp.blockSize * sp.blockSize ∨
    start % sp.blockSize ≠ 0 ∧
      nextblock sp start = start / sp.blockSize * sp.blockSize + sp.blockSize := by
  by_cases hzero : start % sp.blockSize = 0
  · exact .inl ⟨hzero, by rw [nextblock, if_pos hzero, Nat.add_zero]⟩
  · exact .inr ⟨hzero, by rw [nextblock, if_neg hzero]⟩

theorem Overwritten.freeZones (start stop size : Nat) {e : Nat} (h : Overwritten sp files v v' f c)
    (hf : files f = some rip) (hle : nextblock sp start ≤ e * sp.blockSize) (he : e ≤ mapSize sp)
    (hsize : size ≤ stop → size ≤ e * sp.blockSize)
    (hself : (∀ q, size ≤ q → content sp files v.disk f q = 0) →
      ∀ q, (if nextblock sp start ≤ q ∧ q < e * sp.blockSize then 0 else c q) =
        punch (content sp files v.disk f) start (min stop size) q) :
    ∃ rip' v'', Mfs.freeZones sp (e - nextblock sp start / sp.blockSize)
        (nextblock sp start / sp.blockSize) rip v' = .ok (none, rip', v'') ∧ rip.Alike rip' ∧
      FreeSpace sp files (update files f (some rip')) v v'' f size start stop := by
  have hp : nextblock sp start / sp.blockSize * sp.blockSize = nextblock sp start := nextblock_eq
  generalize nextblock sp start / sp.blockSize = p at *
  have hpe : p ≤ e := Nat.le_of_mul_le_mul_right (hp ▸ hle) (blockSize_pos sp)
  have hend : p + (e - p) = e := by omega
  obtain ⟨rip', v'', heq, halike, hfreed⟩ := freeZones_spec (e - p) h.acc hf (hend.symm ▸ he)
  rw [hend] at hfreed
  refine ⟨rip', v'', heq, halike, h.freed hfreed (fun hstop j hj hno => ?_) (hp.symm ▸ hself)⟩
  have hje : j < e := mul_blockSize_lt.mp (lt_of_lt_of_le hj (hsize hstop))
  have hjp : j * sp.blockSize < p * sp.blockSize := mul_blockSize_lt.mpr (by omega)
  obtain ⟨hs, -⟩ := div_mul_add_mod sp start
  rcases nextblock_cases sp start with ⟨hzero, hnext⟩ | ⟨hzero, hnext⟩
  · omega
  · rw [hp, hnext, ← succ_mul, mul_blockSize_lt] at hjp
    have := Nat.mul_le_mul_right sp.blockSize (le_of_lt_succ hjp)
    omega

theorem freeSpace_zones (h : Accounted sp files v ∅)
    (hf : files f = some rip) (hmax : size ≤ maxSize) (hlt : start < min stop size)
    (hblock : ¬(start / sp.blockSize = (min stop size - 1) / sp.blockSize ∧
      (start % sp.blockSize ≠ 0 ∨ min stop size % sp.blockSize ≠ 0 ∧ min stop size < size))) :
    ∃ v₁ v₂ rip' v', (if start % sp.blockSize ≠ 0 then zerozoneLast sp rip start v else pure v) =
        .ok v₁ ∧ (if min stop size % sp.blockSize ≠ 0 ∧ min stop size < size then
        zerozoneFirst sp rip (min stop size) v₁ else pure v₁) = .ok v₂ ∧
      freeZones sp (min stop size / sp.blockSize +
          (if min stop size = size ∧ min stop size % sp.blockSize ≠ 0 then 1 else 0) -
            nextblock sp start / sp.blockSize) (nextblock sp start / sp.blockSize) rip v₂ =
        .ok (none, rip', v') ∧ rip.Alike rip' ∧
      FreeSpace sp files (update files f (some rip')) v v' f size start stop := by
  have hstop : min stop size ≤ maxSize := le_trans (Nat.min_le_right _ _) hmax
  have htmap : min stop size / sp.blockSize < mapSize sp :=
    block_lt_mapSize sp (le_of_maxSize hstop)
  obtain ⟨v₁, h₁, hover₁⟩ := zerozoneLast_spec h hf (by omega : start ≤ maxSize)
  obtain ⟨v₂, h₂, hover₂⟩ := zerozoneFirst_spec hover₁.acc hf hstop
  obtain ⟨hs, hsmod⟩ := div_mul_add_mod sp start
  obtain ⟨ht, htmod⟩ := div_mul_add_mod sp (min stop size)
  obtain ⟨hu, humod⟩ := div_mul_add_mod sp (min stop size - 1)
  -- zones are compared by the positions at which they begin
  have hcmp : ∀ i j, i * sp.blockSize + sp.blockSize ≤ j * sp.blockSize ∨
      j * sp.blockSize ≤ i * sp.blockSize := by
    intro i j
    rcases Nat.lt_or_ge i j with hij | hij
    · exact .inl (by rw [← succ_mul]; exact Nat.mul_le_mul_right _ hij)
    · exact .inr (Nat.mul_le_mul_right _ hij)
  have hsu := hcmp (start / sp.blockSize) ((min stop size - 1) / sp.blockSize)
  have hst := hcmp (start / sp.blockSize) (min stop size / sp.blockSize)
  have hnext := nextblock_cases sp start
  have heq : (min stop size - 1) / sp.blockSize * sp.blockSize ≤
      start / sp.blockSize * sp.blockSize →
      start / sp.blockSize = (min stop size - 1) / sp.blockSize := fun hle =>
    Nat.le_antisymm (Nat.div_le_div_right (by omega))
      (Nat.le_of_mul_le_mul_right hle (blockSize_pos sp))
  by_cases hfirst : min stop size % sp.blockSize ≠ 0 ∧ min stop size < size
  · have hsize : ¬(min stop size = size ∧ min stop size % sp.blockSize ≠ 0) := by omega
    rw [hover₁.self] at hover₂
    have hne : start / sp.blockSize ≠ (min stop size - 1) / sp.blockSize := fun hno =>
      hblock ⟨hno, .inr hfirst⟩
    obtain ⟨rip', v', hfree, halike, hspace⟩ := Overwritten.freeZones start stop size
      (hover₁.trans hover₂) hf (by omega) htmap.le (by omega)
      fun _ q => punch_halves q (by omega) (by omega) (by omega)
    refine ⟨v₁, v₂, rip', v', h₁, (if_pos hfirst).trans h₂, ?_, halike, hspace⟩
    rw [if_neg hsize]
    exact hfree
  · have hlast : start % sp.blockSize ≠ 0 →
        start / sp.blockSize ≠ (min stop size - 1) / sp.blockSize := fun hzero hno =>
      hblock ⟨hno, .inl hzero⟩
    generalize he : (min stop size / sp.blockSize +
      if min stop size = size ∧ min stop size % sp.blockSize ≠ 0 then 1 else 0) = e
    have hend : min stop size ≤ e * sp.blockSize ∧ e ≤ mapSize sp ∧
        (e * sp.blockSize = min stop size ∨ min stop size = size) := by
      by_cases hsize : min stop size = size ∧ min stop size % sp.blockSize ≠ 0
      · rw [if_pos hsize] at he
        rw [← he, succ_mul]
        omega
      · rw [if_neg hsize, Nat.add_zero] at he
        rw [← he]
        omega
    obtain ⟨rip', v', hfree, halike, hspace⟩ := hover₁.freeZones start stop size
      hf (by omega) hend.2.1 (by omega)
      fun hclean q => punch_tail q (by omega) (by omega) hend.1 fun hq hqe => hclean q (by omega)
    exact ⟨v₁, v₁, rip', v', h₁, if_neg hfirst, hfree, halike, hspace⟩

/-- The outcome of cutting a hole: an empty range is refused, and there is no other error. -/
inductive FreeSpaceResult (sp : Super) (files : Files) (v : Vol) (f size start stop : Nat)
    (rip : Inode) : Option Errno × Inode × Vol → Prop
  | refused (hrange : min stop size ≤ start) :
    FreeSpaceResult sp files v f size start stop rip (some .einval, rip, v)
  | done {rip' : Inode} {v' : Vol} (hrange : start < min stop size) (halike : rip.Alike rip')
    (hspace : FreeSpace sp files (update files f (some rip')) v v' f size start stop) :
    FreeSpaceResult sp files v f size start stop rip (none, rip', v')

theorem freespInode_spec (start stop : Nat) (h : Accounted sp files v ∅) (hf : files f = some rip)
    (hmax : rip.size ≤ maxSize) : ∃ r, freespInode sp start stop rip v = .ok r ∧
      FreeSpaceResult sp files v f rip.size start stop rip r := by
  have hmin : (if rip.size < stop then rip.size else stop) = min stop rip.size := by
    rw [Nat.min_def]
    split <;> split <;> omega
  simp only [freespInode, hmin]
  by_cases hrange : min stop rip.size ≤ start
  · exact ⟨_, if_pos hrange, .refused hrange⟩
  have hlt : start < min stop rip.size := Nat.lt_of_not_le hrange
  rw [if_neg hrange]
  by_cases hblock : start / sp.blockSize = (min stop rip.size - 1) / sp.blockSize ∧
      (start % sp.blockSize ≠ 0 ∨
        min stop rip.size % sp.blockSize ≠ 0 ∧ min stop rip.size < rip.size)
  · obtain ⟨v', heq, hspace⟩ := freeSpace_range h hf rfl hmax hlt hblock.1 hblock.2
    rw [if_pos hblock, heq]
    refine ⟨_, rfl, .done hlt .refl ?_⟩
    rwa [update_files hf]
  · obtain ⟨v₁, v₂, rip', v', h₁, h₂, h₃, halike, hspace⟩ := freeSpace_zones h hf hmax hlt hblock
    refine ⟨_, ?_, .done hlt halike hspace⟩
    rw [if_neg hblock]
    rw [ite_bind_eq, h₁, ok_bind, ite_bind_eq, h₂, ok_bind, h₃]

theorem content_zone (sp : Super) (disk : Disk) (hf : files f = some rip)
    (hzone : rip'.zone = rip.zone) :
    content sp (update files f (some rip')) disk = content sp files disk := by
  funext g q
  simp only [content, zoneAt_zone sp disk hf hzone]

def Inode.resize (rip : Inode) (size : Nat) : Inode := { rip with size := size }

theorem FreeSpace.resize {newsize : Nat}
    (h : FreeSpace sp files (update files f (some rip)) v v' f size start stop) :
    FreeSpace sp files (update files f (some (rip.resize newsize))) v v' f size start stop := by
  have hself : update files f (some rip) f = some rip := update_self _ _ _
  have hzone : (rip.resize newsize).zone = rip.zone := rfl
  have hmap := zoneAt_zone sp v'.disk hself hzone
  have hcontent := content_zone sp v'.disk hself hzone
  rw [update_idem] at hmap hcontent
  refine ⟨h.acc.congr hmap, ?_, ?_, ?_, ?_, ?_, ?_⟩
  · exact hmap.symm ▸ h.shrunk
  · exact hmap.symm ▸ h.data
  · exact hmap.symm ▸ h.gone
  · exact hmap.symm ▸ h.full
  · exact hcontent.symm ▸ h.other
  · exact hcontent.symm ▸ h.self

inductive TruncResult (sp : Super) (files : Files) (v : Vol) (f newsize : Nat) (rip : Inode) :
    Option Errno × Inode × Vol → Prop
  | special (htype : rip.type = .charSpecial ∨ rip.type = .blockSpecial) :
    TruncResult sp files v f newsize rip (some .einval, rip, v)
  | big (hmax : maxSize < newsize) : TruncResult sp files v f newsize rip (some .efbig, rip, v)
  | cut {rip' : Inode} {v' : Vol} (htype : ¬(rip.type = .charSpecial ∨ rip.type = .blockSpecial))
    (hlt : newsize < rip.size) (halike : rip.Alike rip')
    (hspace : FreeSpace sp files (update files f (some (rip'.resize newsize))) v v' f
      rip.size newsize rip.size) :
    TruncResult sp files v f newsize rip (none, rip'.resize newsize, v')
  | extended (htype : ¬(rip.type = .charSpecial ∨ rip.type = .blockSpecial))
    (hle : rip.size ≤ newsize) (hmax : newsize ≤ maxSize) :
    TruncResult sp files v f newsize rip (none, rip.resize newsize, v)

theorem truncateInode_spec (newsize : Nat) (h : Accounted sp files v ∅) (hf : files f = some rip)
    (hmax : rip.size ≤ maxSize) :
    ∃ r, truncateInode sp newsize rip v = .ok r ∧ TruncResult sp files v f newsize rip r := by
  rw [truncateInode]
  by_cases htype : rip.type = .charSpecial ∨ rip.type = .blockSpecial
  · exact ⟨_, if_pos htype, .special htype⟩
  rw [if_neg htype]
  by_cases hbig : maxSize < newsize
  · exact ⟨_, if_pos hbig, .big hbig⟩
  rw [if_neg hbig]
  by_cases hlt : newsize < rip.size
  · obtain ⟨r, hr, hres⟩ := freespInode_spec newsize rip.size h hf hmax
    rw [if_pos hlt, hr]
    cases hres with
    | refused hrange =>
      rw [Nat.min_self] at hrange
      exact absurd hlt (Nat.not_lt.mpr hrange)
    | done _ halike hspace => exact ⟨_, rfl, .cut htype hlt halike hspace.resize⟩
  · rw [if_neg hlt]
    exact ⟨_, rfl, .extended htype (Nat.not_lt.mp hlt) (Nat.not_lt.mp hbig)⟩

end Gergios.Mfs
