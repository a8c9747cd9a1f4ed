import Gergios.Mfs.Chunk
import Mathlib.Algebra.Order.Interval.Finset.SuccPred
import Mathlib.Data.Finset.Union
import Mathlib.Data.List.GetD
import Mathlib.Data.Nat.SuccPred
import Mathlib.Order.Interval.Finset.Nat

/-!
# The loop of a write
-/

namespace Gergios.Mfs

open Lib Function List

variable {sp : Super} {files : Files} {v v' : Vol} {f k position cumIo fuel : Nat}
  {rip rip' : Inode}
  {data : UserData} {m m' : ZoneMap}

/-- The slots that hold a zone where block `k` of a file exists. -/
def slots (sp : Super) (k : Nat) : Finset Slot :=
  if k < nrDzones then {.data k}
  else if par sp k = .ind then {.data k, .ind}
  else {.data k, par sp k, .dbl}

/-- The number of zones that file `f` lacks for its blocks `ks` to exist. -/
def demand (sp : Super) (m : ZoneMap) (f : Nat) (ks : Finset Nat) : Nat :=
  ((ks.biUnion (slots sp)).filter fun p => m (f, p) = 0).card

variable {disk : Disk} {copied : Option Nat}

theorem par_eq_ind (hk : k < nrDzones + sp.nindirs) : par sp k = .ind :=
  if_pos (by have := nindirs_pos sp; omega)

theorem par_ne_ind (hk : nrDzones + sp.nindirs ≤ k) : par sp k ≠ .ind := by
  rw [par, if_neg (by omega)]
  exact Slot.noConfusion

theorem missing_le (hk : k < nrDzones + sp.nindirs) :
    missing sp m f k ≤ if m (f, .ind) = 0 then 1 else 0 := by
  rw [missing, par_eq_ind hk]
  split
  · exact Nat.zero_le _
  · rename_i hno
    rw [if_pos (.inl rfl), if_pos (not_not.mp fun h => hno (.inr h))]

theorem par_ne_zero (hk : nrDzones ≤ k) (h : zoneAt sp files disk (f, .data k) ≠ 0) :
    zoneAt sp files disk (f, par sp k) ≠ 0 := by
  cases hf : files f with
  | none => exact absurd (by rw [zoneAt, hf]) h
  | some rip =>
    rw [zoneAt_of hf] at h ⊢
    intro h0
    rw [zoneOf_data hk, h0] at h
    exact h rfl

theorem dbl_ne_zero (hpar : par sp k ≠ .ind) (h : zoneAt sp files disk (f, par sp k) ≠ 0) :
    zoneAt sp files disk (f, .dbl) ≠ 0 := by
  cases hf : files f with
  | none => exact absurd (by rw [zoneAt, hf]) h
  | some rip =>
    rw [zoneAt_of hf] at h ⊢
    intro h0
    apply h
    have h0' : rip.zone (nrDzones + 1) = 0 := h0
    cases hp : par sp k with
    | ind => exact absurd hp hpar
    | dbl => exact absurd hp par_ne_dbl
    | data j => exact absurd hp par_ne_data
    | sub i => rw [zoneOf_sub, h0', entry_zero, ite_self]

theorem slots_ne_zero {p : Slot} (h : zoneAt sp files disk (f, .data k) ≠ 0)
    (hp : p ∈ slots sp k) : zoneAt sp files disk (f, p) ≠ 0 := by
  unfold slots at hp
  split_ifs at hp with hlt hind
  · rwa [Finset.mem_singleton.mp hp]
  · have hpar := par_ne_zero (Nat.not_lt.mp hlt) h
    simp only [Finset.mem_insert, Finset.mem_singleton] at hp
    rcases hp with rfl | rfl
    · exact h
    · rwa [← hind]
  · have hpar := par_ne_zero (Nat.not_lt.mp hlt) h
    simp only [Finset.mem_insert, Finset.mem_singleton] at hp
    rcases hp with rfl | rfl | rfl
    · exact h
    · exact hpar
    · exact dbl_ne_zero hind hpar

theorem Mapped.of_not_slot {p : Slot} (h : Mapped sp m f k m') (hp : p ∉ slots sp k) :
    m' (f, p) = m (f, p) := by
  have hdata : p ≠ .data k := by
    rintro rfl
    apply hp
    unfold slots
    split_ifs <;> simp
  have hne : ∀ {q : Slot}, p ≠ q → (f, p) ≠ (f, q) := fun hq heq => hq (Prod.mk.inj heq).2
  cases h with
  | old => rfl
  | new _ _ entered =>
    cases entered with
    | here => exact update_of_ne (hne hdata) _ _
    | single hge =>
      have hpar : p ≠ par sp k := by
        rintro rfl
        apply hp
        rw [slots, if_neg (Nat.not_lt.mpr hge)]
        split_ifs with hind <;> simp [hind]
      rw [update_of_ne (hne hdata), update_of_ne (hne hpar)]
    | double hge _ _ _ hind =>
      rw [slots, if_neg (Nat.not_lt.mpr hge), if_neg hind] at hp
      simp only [Finset.mem_insert, Finset.mem_singleton, not_or] at hp
      rw [update_of_ne (hne hp.1), update_of_ne (hne hp.2.1), update_of_ne (hne hp.2.2)]

theorem card_slots (files : Files) (disk : Disk) (f k : Nat) :
    ((slots sp k).filter fun p => zoneAt sp files disk (f, p) = 0).card =
      needed sp (zoneAt sp files disk) f k := by
  by_cases h0 : zoneAt sp files disk (f, .data k) = 0
  · rw [needed, if_pos h0, missing, slots]
    by_cases hlt : k < nrDzones
    · simp [hlt, Finset.filter_singleton, h0]
    by_cases hind : par sp k = .ind
    · by_cases hp : zoneAt sp files disk (f, .ind) = 0
      · simp [hlt, hind, Finset.filter_insert, Finset.filter_singleton, h0, hp]
      · simp [hlt, hind, Finset.filter_insert, Finset.filter_singleton, h0, hp]
    · have hdata : Slot.data k ≠ par sp k := par_ne_data.symm
      have hdbl : par sp k ≠ .dbl := par_ne_dbl
      by_cases hp : zoneAt sp files disk (f, par sp k) = 0
      · by_cases hd : zoneAt sp files disk (f, .dbl) = 0
        · simp [hlt, hind, Finset.filter_insert, Finset.filter_singleton, h0, hp, hd, hdata, hdbl]
        · simp [hlt, hind, Finset.filter_insert, Finset.filter_singleton, h0, hp, hd, hdata]
      · have hd := dbl_ne_zero hind hp
        simp [hlt, hind, Finset.filter_insert, Finset.filter_singleton, h0, hp, hd]
  · rw [needed, if_neg h0, Finset.card_eq_zero, Finset.filter_eq_empty_iff]
    exact fun p hp => slots_ne_zero h0 hp

/-- What a write still needs after the chunk in block `k`. -/
theorem demand_insert {files' : Files} {disk' : Disk} (ks : Finset Nat)
    (h : Mapped sp (zoneAt sp files disk) f k (zoneAt sp files' disk')) :
    demand sp (zoneAt sp files disk) f (insert k ks) =
      needed sp (zoneAt sp files disk) f k + demand sp (zoneAt sp files' disk') f ks := by
  rw [demand, Finset.biUnion_insert, Finset.filter_union, ← card_slots files disk f k, demand,
    ← Finset.union_sdiff_self_eq_union, Finset.card_union_of_disjoint Finset.disjoint_sdiff]
  congr 2
  ext p
  simp only [Finset.mem_sdiff, Finset.mem_filter, not_and]
  by_cases hp : p ∈ slots sp k
  · have hne := slots_ne_zero h.self hp
    simp only [hp, hne, true_imp_iff, and_false, iff_false]
    tauto
  · simp [hp, h.of_not_slot hp]

theorem needed_le_demand (files : Files) (disk : Disk) (f k : Nat) (ks : Finset Nat) :
    needed sp (zoneAt sp files disk) f k ≤ demand sp (zoneAt sp files disk) f (insert k ks) := by
  rw [← card_slots]
  exact Finset.card_le_card (Finset.filter_subset_filter _
    (Finset.subset_biUnion_of_mem _ (Finset.mem_insert_self k ks)))

/-- A write of file `f` as far as `position`, from the volume `v₀`. -/
structure Writing (sp : Super) (files : Files) (v₀ : Vol) (f : Nat) (rip₀ : Inode) (position : Nat)
    (rip : Inode) (v : Vol) : Prop where
  acc : Accounted sp (update files f (some rip)) v ∅
  alike : rip₀.Alike rip
  other : ∀ g j, g ≠ f → zoneAt sp (update files f (some rip)) v.disk (g, .data j) =
    zoneAt sp files v₀.disk (g, .data j)
  tail : ∀ j, zoneAt sp (update files f (some rip)) v.disk (f, .data j) ≠ 0 →
    j * sp.blockSize < max rip₀.size position
  full : Full sp (zoneAt sp (update files f (some rip)) v.disk)

/-- A write from block `k` to block `last` does not come to the double indirect range of the file
with two free zones left and no double indirect zone. -/
def Roomy (sp : Super) (m : ZoneMap) (v : Vol) (f k last : Nat) : Prop :=
  m (f, .dbl) ≠ 0 ∨ last < nrDzones + sp.nindirs ∨
    room sp v ≠ demand sp m f (Finset.Ico k (nrDzones + sp.nindirs)) + 2

def UserData.Fits (sp : Super) (data : UserData) (start size : Nat) : Prop :=
  ∀ n, n < data.bytes.length → data.copied n ≠ none → sp.blockSize ∣ start + n → start + n < size

section Chunks

variable {v₀ : Vol} {rip₀ : Inode} {start last : Nat}

theorem Inode.Alike.trans {rip'' : Inode} (h : rip.Alike rip') (h' : rip'.Alike rip'') :
    rip.Alike rip'' := ⟨h'.1.trans h.1, h'.2.trans h.2⟩

theorem Writing.mapped {position' : Nat} (hw : Writing sp files v₀ f rip₀ position rip v)
    (hacc : Accounted sp (update files f (some rip')) v' ∅)
    (hmap : Mapped sp (zoneAt sp (update files f (some rip)) v.disk) f k
      (zoneAt sp (update files f (some rip')) v'.disk))
    (halike : rip.Alike rip') (hle : position ≤ position')
    (hk : k * sp.blockSize < max rip₀.size position') :
    Writing sp files v₀ f rip₀ position' rip' v' := by
  refine ⟨hacc, hw.alike.trans halike, fun g j hg => ?_, fun j hj => ?_, hmap.full hw.full⟩
  · rw [hmap.data_of_ne fun hno => hg hno.1, hw.other g j hg]
  · by_cases hjk : j = k
    · rwa [hjk]
    · rw [hmap.data_of_ne fun hno => hjk hno.2] at hj
      exact (hw.tail j hj).trans_le (max_le_max_left _ hle)

theorem Writing.same (hw : Writing sp files v₀ f rip₀ position rip v)
    (hacc : Accounted sp (update files f (some rip')) v' ∅)
    (hmap : zoneAt sp (update files f (some rip')) v'.disk =
      zoneAt sp (update files f (some rip)) v.disk)
    (halike : rip.Alike rip') : Writing sp files v₀ f rip₀ position rip' v' := by
  refine ⟨hacc, hw.alike.trans halike, ?_, ?_, ?_⟩
  · rw [hmap]
    exact hw.other
  · rw [hmap]
    exact hw.tail
  · rw [hmap]
    exact hw.full

theorem Roomy.not_left {v : Vol} (h : Roomy sp m v f k last) (hk : k ≤ last)
    (hdbl : m (f, .dbl) = 0) (hroom : room sp v = 2) (hneeded : needed sp m f k = 3) : False := by
  have hfar : nrDzones + sp.nindirs ≤ k := by
    by_contra hlt
    have hmissing := missing_le (m := m) (f := f) (Nat.lt_of_not_le hlt)
    rw [needed] at hneeded
    split at hneeded
    · split at hmissing <;> omega
    · omega
  rcases h with hne | hlt | hne
  · exact hne hdbl
  · omega
  · apply hne
    rw [Finset.Ico_eq_empty_of_le hfar, hroom]
    rfl

theorem Roomy.succ {files' : Files} {v' : Vol} (h : Roomy sp (zoneAt sp files v.disk) v f k last)
    (hmap : Mapped sp (zoneAt sp files v.disk) f k (zoneAt sp files' v'.disk))
    (hroom : room sp v' + needed sp (zoneAt sp files v.disk) f k = room sp v) :
    Roomy sp (zoneAt sp files' v'.disk) v' f (k + 1) last := by
  by_cases hk : nrDzones + sp.nindirs ≤ k
  · have hge : nrDzones ≤ k := (Nat.le_add_right _ _).trans hk
    exact .inl (dbl_ne_zero (par_ne_ind hk) (par_ne_zero hge hmap.self))
  rcases h with hne | hlast | hne
  · exact .inl (by rwa [hmap.indirect indirect_dbl hne])
  · exact .inr (.inl hlast)
  · have hdemand := demand_insert (Finset.Ico (k + 1) (nrDzones + sp.nindirs)) hmap
    rw [Finset.insert_Ico_add_one_left_eq_Ico (Nat.lt_of_not_le hk)] at hdemand
    exact .inr (.inr (by omega))

def chunkAt (sp : Super) (position nrbytes : Nat) : Nat :=
  min (sp.blockSize - position % sp.blockSize) nrbytes

theorem chunkAt_spec (sp : Super) (position : Nat) {nrbytes : Nat} (hn : 0 < nrbytes) :
    0 < chunkAt sp position nrbytes ∧ chunkAt sp position nrbytes ≤ nrbytes ∧
      position % sp.blockSize + chunkAt sp position nrbytes ≤ sp.blockSize ∧
      (chunkAt sp position nrbytes < nrbytes →
        (position + chunkAt sp position nrbytes) / sp.blockSize = position / sp.blockSize + 1) := by
  have hmod := Nat.mod_lt position (blockSize_pos sp)
  refine ⟨lt_min (Nat.sub_pos_of_lt hmod) hn, min_le_right _ _, ?_, fun hlt => ?_⟩
  · have : chunkAt sp position nrbytes ≤ sp.blockSize - position % sp.blockSize := min_le_left _ _
    omega
  · have hchunk : chunkAt sp position nrbytes = sp.blockSize - position % sp.blockSize := by
      rw [chunkAt] at hlt ⊢
      omega
    have hdiv := Nat.div_add_mod position sp.blockSize
    have heq : position + chunkAt sp position nrbytes =
        sp.blockSize * (position / sp.blockSize + 1) := by
      rw [Nat.mul_add]
      omega
    rw [heq, Nat.mul_div_cancel_left _ (blockSize_pos sp)]

/-- The blocks that `n` bytes from `position` on lie in. -/
def blocks (sp : Super) (position n : Nat) : Finset Nat :=
  if n = 0 then ∅
  else Finset.Ico (position / sp.blockSize) ((position + n - 1) / sp.blockSize + 1)

theorem blocks_eq_insert (sp : Super) (position : Nat) {n : Nat} (hn : 0 < n) :
    blocks sp position n = insert (position / sp.blockSize)
      (blocks sp (position + chunkAt sp position n) (n - chunkAt sp position n)) := by
  obtain ⟨hpos, hle, hblock, hnext⟩ := chunkAt_spec sp position hn
  have hfirst : position / sp.blockSize ≤ (position + n - 1) / sp.blockSize :=
    Nat.div_le_div_right (by omega)
  rw [blocks, if_neg hn.ne', blocks]
  rcases hle.eq_or_lt with heq | hlt
  · have hone : (position + n - 1) / sp.blockSize = position / sp.blockSize := by
      have hdiv := Nat.div_add_mod position sp.blockSize
      refine le_antisymm (Nat.lt_succ_iff.mp ((Nat.div_lt_iff_lt_mul (blockSize_pos sp)).mpr ?_))
        hfirst
      rw [Nat.succ_mul, Nat.mul_comm]
      omega
    rw [heq, Nat.sub_self, if_pos rfl, hone]
    simp
  · have hend : position + chunkAt sp position n + (n - chunkAt sp position n) - 1 =
        position + n - 1 := by omega
    rw [if_neg (Nat.sub_ne_zero_of_lt hlt), hend, hnext hlt,
      Finset.insert_Ico_add_one_left_eq_Ico (Nat.lt_succ_of_le hfirst)]

def UserData.chunk (sp : Super) (data : UserData) (position cumIo : Nat) : List UInt8 :=
  (data.bytes.drop cumIo).take (chunkAt sp position (data.bytes.length - cumIo))

theorem length_chunk (hn : cumIo < data.bytes.length) :
    (data.chunk sp position cumIo).length = chunkAt sp position (data.bytes.length - cumIo) := by
  rw [UserData.chunk, length_take, length_drop]
  exact min_eq_left (chunkAt_spec sp position (Nat.sub_pos_of_lt hn)).2.1

theorem chunk_fits (hn : cumIo < data.bytes.length) :
    position % sp.blockSize + (data.chunk sp position cumIo).length ≤ sp.blockSize := by
  rw [length_chunk hn]
  exact (chunkAt_spec sp position (Nat.sub_pos_of_lt hn)).2.2.1

theorem writeLoop_end (hn : data.bytes.length ≤ cumIo) :
    writeLoop sp data fuel position cumIo rip v = .ok (none, position, cumIo, rip, v) := by
  cases fuel with
  | zero => rfl
  | succ fuel => exact if_pos (Nat.sub_eq_zero_of_le hn)

theorem writeLoop_step (hn : cumIo < data.bytes.length) :
    writeLoop sp data (fuel + 1) position cumIo rip v =
      writeChunk sp position (position % sp.blockSize) (data.chunk sp position cumIo)
        (data.copied cumIo) (data.junk cumIo) rip v >>= fun r => match r.1 with
          | some e => .ok (some e, position, cumIo, r.2)
          | none =>
            writeLoop sp data fuel (position + chunkAt sp position (data.bytes.length - cumIo))
              (cumIo + chunkAt sp position (data.bytes.length - cumIo)) r.2.1 r.2.2 :=
  if_neg (Nat.sub_pos_of_lt hn).ne'

theorem le_of_maxSize (h : position ≤ maxSize) : position ≤ 2 ^ 31 := h.trans (by decide)

theorem writeLoop_accounted (fuel cumIo : Nat) (hw : Writing sp files v₀ f rip₀ position rip v)
    (hpos : position = start + cumIo) (hcum : cumIo ≤ data.bytes.length)
    (hmax : start + data.bytes.length ≤ maxSize) (hfuel : data.bytes.length - cumIo ≤ fuel)
    (hfits : data.Fits sp start rip₀.size) (hroomy : cumIo < data.bytes.length →
      Roomy sp (zoneAt sp (update files f (some rip)) v.disk) v f (position / sp.blockSize)
        ((start + data.bytes.length - 1) / sp.blockSize)) :
    ∃ e position' cumIo' rip' v', writeLoop sp data fuel position cumIo rip v =
        .ok (e, position', cumIo', rip', v') ∧ position' ≤ maxSize ∧
      Writing sp files v₀ f rip₀ position' rip' v' := by
  induction fuel generalizing position cumIo rip v with
  | zero =>
    refine ⟨_, _, _, _, _, writeLoop_end (by omega), by omega, hw⟩
  | succ fuel ih =>
    rcases hcum.eq_or_lt with heq | hn
    · exact ⟨_, _, _, _, _, writeLoop_end heq.ge, by omega, hw⟩
    obtain ⟨hpos', hle, hblock, hnext⟩ := chunkAt_spec sp position (Nat.sub_pos_of_lt hn)
    have hk : position / sp.blockSize < mapSize sp := block_lt_mapSize sp (le_of_maxSize (by omega))
    obtain ⟨r, hr, hres⟩ := writeChunk_spec (chunk_fits hn) rfl hw.acc (update_self _ _ _)
      (data.copied cumIo) (data.junk cumIo) hk
    rw [writeLoop_step hn, hr]
    have hdiv := Nat.div_add_mod position sp.blockSize
    rw [Nat.mul_comm] at hdiv
    cases hres with
    | full acc map _ _ alike =>
      rw [update_idem] at acc map
      exact ⟨_, _, _, _, _, rfl, by omega, hw.same acc map alike⟩
    | left _ _ hdbl _ hroom hneeded =>
      have hlast : position / sp.blockSize ≤ (start + data.bytes.length - 1) / sp.blockSize :=
        Nat.div_le_div_right (by omega)
      exact ((hroomy hn).not_left hlast hdbl hroom hneeded).elim
    | @wrote e rip' v' acc mapped reply hroom _ _ alike =>
      rw [update_idem] at acc mapped
      by_cases hcopied : data.copied cumIo = none
      · rw [if_pos hcopied] at reply
        subst reply
        refine ih _ (hw.mapped acc mapped alike (Nat.le_add_right _ _) (by omega)) (by omega)
          (by omega) (by omega) fun hmore => ?_
        rw [hnext (by omega)]
        exact (hroomy hn).succ mapped hroom
      · rw [if_neg hcopied] at reply
        subst reply
        refine ⟨_, _, _, _, _, rfl, by omega, hw.mapped acc mapped alike le_rfl ?_⟩
        by_cases hoff : position % sp.blockSize = 0
        · have := hfits cumIo hn hcopied (hpos ▸ Nat.dvd_of_mod_eq_zero hoff)
          omega
        · omega

theorem putBytes_nil {c : Nat → UInt8} : putBytes c position [] = c := by
  funext q
  apply if_neg
  rw [length_nil]
  omega

theorem putBytes_append (start : Nat) (c : Nat → UInt8) (a b : List UInt8) :
    putBytes (putBytes c start a) (start + a.length) b = putBytes c start (a ++ b) := by
  funext q
  rw [putBytes, putBytes, putBytes, length_append]
  by_cases hb : start + a.length ≤ q ∧ q < start + a.length + b.length
  · rw [if_pos hb, if_pos (by omega), getD_append_right _ _ _ _ (by omega)]
    congr 1
    omega
  · rw [if_neg hb]
    by_cases ha : start ≤ q ∧ q < start + a.length
    · rw [if_pos ha, if_pos (by omega), getD_append _ _ _ _ (by omega)]
    · rw [if_neg ha, if_neg (by omega)]

/-- A write of file `f` whose first `cumIo` bytes have been written. -/
structure Stored (sp : Super) (files : Files) (v₀ : Vol) (f : Nat) (rip₀ : Inode) (start : Nat)
    (bytes : List UInt8) (cumIo : Nat) (rip : Inode) (v : Vol) : Prop where
  acc : Accounted sp (update files f (some rip)) v ∅
  alike : rip₀.Alike rip
  other : ∀ g, g ≠ f → content sp (update files f (some rip)) v.disk g = content sp files v₀.disk g
  self : content sp (update files f (some rip)) v.disk f =
    putBytes (content sp files v₀.disk f) start (bytes.take cumIo)

theorem Stored.begin (start : Nat) (bytes : List UInt8) (h : Accounted sp files v ∅)
    (hf : files f = some rip) : Stored sp files v f rip start bytes 0 rip v := by
  refine ⟨?_, .refl, ?_, ?_⟩
  · rwa [update_files hf]
  · exact fun g _ => by rw [update_files hf]
  · rw [update_files hf, take_zero, putBytes_nil]

theorem Stored.chunk (hcopied : copied = none)
    (hs : Stored sp files v₀ f rip₀ start data.bytes cumIo rip v) (hpos : position = start + cumIo)
    (hn : cumIo < data.bytes.length)
    (hclean : ∀ pos, max rip₀.size start ≤ pos → content sp files v₀.disk f pos = 0)
    (hres : ChunkResult sp (update files f (some rip)) v f (position / sp.blockSize) rip
      position (data.chunk sp position cumIo) copied (none, rip', v')) :
    Stored sp files v₀ f rip₀ start data.bytes
        (cumIo + chunkAt sp position (data.bytes.length - cumIo)) rip' v' ∧
      Mapped sp (zoneAt sp (update files f (some rip)) v.disk) f (position / sp.blockSize)
        (zoneAt sp (update files f (some rip')) v'.disk) ∧
      room sp v' + needed sp (zoneAt sp (update files f (some rip)) v.disk) f
        (position / sp.blockSize) = room sp v := by
  have hlen : (data.bytes.take cumIo).length = cumIo := length_take_of_le hn.le
  cases hres with
  | wrote acc mapped _ hroom other stored alike =>
    rw [update_idem] at acc mapped other stored
    refine ⟨⟨acc, hs.alike.trans alike, fun g hg => ?_, ?_⟩, mapped, hroom⟩
    · rw [← hs.other g hg]
      funext pos
      exact other g pos fun hno => hg hno.1
    · rw [stored hcopied, hs.self, hpos, take_add]
      · have happend := putBytes_append start (content sp files v₀.disk f) (data.bytes.take cumIo)
          (data.chunk sp (start + cumIo) cumIo)
        rwa [hlen] at happend
      · intro hsize pos hge
        rw [hs.self, putBytes, if_neg (by rw [hlen]; omega)]
        apply hclean
        have := hs.alike.2
        omega

theorem Stored.same {e : Errno} {bytes : List UInt8} (hcopied : copied = none)
    (hs : Stored sp files v₀ f rip₀ start data.bytes cumIo rip v)
    (hres : ChunkResult sp (update files f (some rip)) v f k rip position bytes copied
      (some e, rip', v')) :
    Stored sp files v₀ f rip₀ start data.bytes cumIo rip' v' ∧ e = .enospc ∧
      room sp v < needed sp (zoneAt sp (update files f (some rip)) v.disk) f k := by
  have hkeep : Accounted sp (update files f (some rip')) v' ∅ → rip.Alike rip' →
      content sp (update files f (some rip')) v'.disk =
        content sp (update files f (some rip)) v.disk →
      Stored sp files v₀ f rip₀ start data.bytes cumIo rip' v' := fun acc alike kept =>
    ⟨acc, hs.alike.trans alike, fun g hg => kept ▸ hs.other g hg, kept ▸ hs.self⟩
  generalize hr : (some e, rip', v') = r at hres
  cases hres with
  | wrote _ _ reply =>
    rw [if_pos hcopied] at reply
    cases hr
    cases reply
  | full acc _ hroom kept alike =>
    cases hr
    rw [update_idem] at acc kept
    exact ⟨hkeep acc alike kept, rfl, hroom⟩
  | left acc _ _ _ hroom hneeded kept alike =>
    cases hr
    rw [update_idem] at acc kept
    exact ⟨hkeep acc alike kept, rfl, by omega⟩

/-- Either everything is stored and there was room for all of it, or the loop ends where the room
does; if there is none for the first block, that is where it began. -/
theorem writeLoop_content (fuel : Nat) (hs : Stored sp files v₀ f rip₀ start data.bytes cumIo rip v)
    (hpos : position = start + cumIo) (hcum : cumIo ≤ data.bytes.length)
    (hmax : start + data.bytes.length ≤ maxSize) (hfuel : data.bytes.length - cumIo ≤ fuel)
    (hcopied : ∀ n, data.copied n = none)
    (hclean : ∀ pos, max rip₀.size start ≤ pos → content sp files v₀.disk f pos = 0)
    (hm : zoneAt sp (update files f (some rip)) v.disk = m) :
    ∃ e cumIo' rip' v', writeLoop sp data fuel position cumIo rip v =
        .ok (e, start + cumIo', cumIo', rip', v') ∧
      Stored sp files v₀ f rip₀ start data.bytes cumIo' rip' v' ∧ cumIo' ≤ data.bytes.length ∧
      (e = none ∧ cumIo' = data.bytes.length ∧
          demand sp m f (blocks sp position (data.bytes.length - cumIo)) ≤ room sp v ∨
        e = some .enospc ∧
          room sp v < demand sp m f (blocks sp position (data.bytes.length - cumIo)) ∧
          (room sp v < needed sp m f (position / sp.blockSize) → cumIo' = cumIo)) := by
  induction fuel generalizing position cumIo rip v m with
  | zero =>
    have hend : cumIo = data.bytes.length := by omega
    refine ⟨_, cumIo, _, _, ?_, hs, hcum, .inl ⟨rfl, hend, ?_⟩⟩
    · rw [← hpos]
      exact writeLoop_end hend.ge
    · rw [hend, Nat.sub_self]
      exact Nat.zero_le _
  | succ fuel ih =>
    rcases hcum.eq_or_lt with heq | hn
    · refine ⟨_, cumIo, _, _, ?_, hs, hcum, .inl ⟨rfl, heq, ?_⟩⟩
      · rw [← hpos]
        exact writeLoop_end heq.ge
      · rw [heq, Nat.sub_self]
        exact Nat.zero_le _
    subst hm
    have hrest := Nat.sub_pos_of_lt hn
    obtain ⟨hpos', hle, hblock, -⟩ := chunkAt_spec sp position hrest
    have hk : position / sp.blockSize < mapSize sp := block_lt_mapSize sp (le_of_maxSize (by omega))
    obtain ⟨⟨e, rip', v'⟩, hr, hres⟩ := writeChunk_spec (chunk_fits hn) rfl hs.acc
      (update_self _ _ _) (data.copied cumIo) (data.junk cumIo) hk
    rw [writeLoop_step hn, hr, ok_bind, blocks_eq_insert sp position hrest]
    cases e with
    | some e =>
      obtain ⟨hs', rfl, hfull⟩ := hs.same (hcopied cumIo) hres
      exact ⟨_, cumIo, _, _, by rw [← hpos], hs', hcum,
        .inr ⟨rfl, hfull.trans_le (needed_le_demand ..), fun _ => rfl⟩⟩
    | none =>
      obtain ⟨hs', hmap, hroom⟩ := hs.chunk (hcopied cumIo) hpos hn hclean hres
      have hnext : position + chunkAt sp position (data.bytes.length - cumIo) =
          start + (cumIo + chunkAt sp position (data.bytes.length - cumIo)) := by omega
      obtain ⟨e, cumIo', rip'', v'', heq, hs'', hge, hend⟩ :=
        ih hs' hnext (by omega) (by omega) rfl
      rw [demand_insert _ hmap, Nat.sub_sub]
      refine ⟨e, cumIo', rip'', v'', heq, hs'', hge, ?_⟩
      rcases hend with ⟨he, hall, hfits⟩ | ⟨he, hfull, -⟩
      · exact .inl ⟨he, hall, by omega⟩
      · exact .inr ⟨he, by omega, fun hno => by omega⟩

end Chunks

end Gergios.Mfs
