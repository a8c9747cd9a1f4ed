import Gergios.Ext4.Joined

/-!
# What an insertion does to the mapping
-/

namespace Gergios.Ext4

open Lib List

variable {s : Inode} {W : List Extent}

/-! ### The root that is written -/

theorem setExtents_header (h : W.length < 2 ^ 16) :
    (s.setExtents W).header.ehMagic = extentMagic ∧ (s.setExtents W).header.ehDepth = 0 ∧
      (s.setExtents W).header.ehEntries.toNat = W.length ∧
      (s.setExtents W).extents = W.take inlineExtentsCount := by
  have hhead : (s.setExtents W).header = ⟨extentMagic, .ofNat W.length, s.header.ehMax, 0, 0⟩ :=
    headerAt_serializeRoot ..
  have hentries : (UInt16.ofNat W.length).toNat = W.length := by
    rw [UInt16.toNat_ofNat', Nat.mod_eq_of_lt h]
  refine ⟨by rw [hhead], by rw [hhead], by rw [hhead]; exact hentries, ?_⟩
  rw [Inode.extents, hhead]
  exact deserializeExtents_serializeRoot hentries

theorem setExtents_isLeaf (hs : s.hasExtents = true) (h : W.length < 2 ^ 16) :
    IsLeaf (s.setExtents W) :=
  ⟨hs, (setExtents_header h).1, (setExtents_header h).2.1⟩

theorem setExtents_runs (h : W.length < 2 ^ 16) :
    (s.setExtents W).runs = (W.map Extent.run).take inlineExtentsCount := by
  rw [Inode.runs, (setExtents_header h).2.2.2, map_take]

theorem extentInsert_eq {σ : Type} {logical : UInt32} {phys : UInt64} {count : UInt16}
    {writeInode : Inode → EStateM Stop σ Unit} {x : σ} (hs : IsLeaf s) :
    extentInsert logical phys count writeInode (s, x) =
      match insertNew logical phys count s.extents with
      | .error e => .error (.err e) (s, x)
      | .ok W => onWorld (writeInode (s.setExtents W)) (s.setExtents W, x) := by
  have hstep : extentInsert logical phys count writeInode (s, x) = (do
        let extents ← lift (insertNew logical phys count s.extents)
        setInode (s.setExtents extents)
        onWorld (writeInode (s.setExtents extents)) : EStateM Stop (Inode × σ) Unit) (s, x) := by
    simp only [extentInsert, getInode, bind, EStateM.bind, hs.extentHeader, hs.magic, hs.depth]
    rfl
  rw [hstep]
  cases insertNew logical phys count s.extents <;> rfl

/-! ### The map after an insertion -/

section Map

variable {n : Range} {w u m v : List Run} {k : Nat}

theorem stored_le {k : Nat} (h : k ≠ 2 ^ 15) : stored k ≤ k := by
  rw [stored]
  split
  · exact Nat.le_refl k
  · omega

theorem held_eq {r : Run} (h : r.len < 2 ^ 15) : held r = r := by rw [held, stored_of_lt h]

variable (h : Inserted n w u m v)
include h

theorem Inserted.runFind_beside (hk : ¬(n.taker w).Has k) : runFind (u ++ v) k = runFind w k := by
  obtain ⟨hrange, hm⟩ := not_or.mp fun hor => hk ((h.has k).mpr hor)
  have hrest := Range.runFind_rest (n := n) (w := w) (k := k)
  have hnone : runFind m k = none := runFind_eq_none_iff.mpr fun r hr hrk => hm ⟨r, hr, hrk⟩
  rw [if_neg hrange, h.rest, runFind_append, runFind_append, hnone, Option.or_none] at hrest
  rw [← hrest, runFind_append]

theorem Inserted.runFind_inside (hk : (n.taker w).Has k) : runFind (u ++ v) k = none :=
  runFind_eq_none_iff.mpr fun r hr hrk => (h.apart r hr).not_has hrk hk

theorem Inserted.runFind_eq (hne : (n.taker w).len ≠ 2 ^ 15) :
    runFind (u ++ held (n.taker w) :: v) k =
      if (held (n.taker w)).Has k then some ((n.taker w).valueAt k) else runFind (u ++ v) k := by
  refine runFind_middle fun r hr => ?_
  have hapart := h.apart r (mem_append_left v hr)
  have hle := stored_le hne
  simp only [Run.Apart, held, Run.stop] at *
  omega

theorem Inserted.runFind_ne_none {r : Run} (hr : r ∈ u ++ m ++ v) (hk : r.Has k) :
    runFind w k ≠ none := by
  have hrest := Range.runFind_rest (n := n) (w := w) (k := k)
  rw [h.rest] at hrest
  intro hnone
  rw [hnone, ite_self] at hrest
  exact Lib.runFind_ne_none hr hk hrest

theorem Inserted.length_le : n.pieces w ≤ (u ++ held (n.taker w) :: v).length := by
  have hone := h.one
  rw [← Range.length_rest, h.rest]
  simp only [length_append, length_cons]
  omega

def Range.Sound (n : Range) (w : List Run) : Prop :=
  (n.taker w).len < 2 ^ 15 ∧ (n.p < 2 ^ 48 ∨ n.JoinsBefore w) ∧ n.InOrder w

variable (hw : Ordered w) (hleg : ∀ r ∈ w, Legal r)
include hw hleg

theorem Inserted.map_of_sound (hs : n.Sound w) : (∀ k, n.l ≤ k → k < n.stop →
      runFind (u ++ held (n.taker w) :: v) k = some (n.p + (k - n.l))) ∧
    (∀ k, ¬(n.l ≤ k ∧ k < n.stop) → runFind (u ++ held (n.taker w) :: v) k = runFind w k) ∧
    Ordered (u ++ held (n.taker w) :: v) := by
  obtain ⟨hlen, hphys, hord⟩ := hs
  obtain ⟨hrange, hold⟩ := h.value hphys
  obtain ⟨hleft, hright⟩ := h.sorted hord
  have hrestOrd := Range.ordered_rest (n := n) (fun r hr => (hleg r hr).pos) hw
  have hfind := fun k => h.runFind_eq (k := k) (Nat.ne_of_lt hlen)
  rw [held_eq hlen] at *
  refine ⟨?_, ?_, ?_⟩
  · intro k h1 h2
    rw [hfind, if_pos ((h.has k).mpr (.inl ⟨h1, h2⟩)), hrange k h1]
  · intro k hk
    rw [hfind]
    split
    · rename_i htk
      obtain ⟨r, hr, hrk⟩ := ((h.has k).mp htk).resolve_left hk
      have hmem : r ∈ n.rest w := by rw [h.rest]; simp [hr]
      have hfound := hrestOrd.runFind_of_mem hmem hrk
      rw [Range.runFind_rest, if_neg hk] at hfound
      rw [hfound, hold r hr k hrk]
    · rename_i htk
      exact h.runFind_beside htk
  · rw [h.rest] at hrestOrd
    have huv : Ordered (u ++ v) := by
      refine hrestOrd.sublist ?_
      rw [append_assoc]
      exact (List.Sublist.refl u).append (sublist_append_right m v)
    obtain ⟨hu, hv, huv⟩ := pairwise_append.mp huv
    refine pairwise_append.mpr ⟨hu, pairwise_cons.mpr ⟨hright, hv⟩, ?_⟩
    intro x hx y hy
    rcases mem_cons.mp hy with rfl | hy
    · exact hleft x hx
    · exact huv x hx y hy

omit hw in
theorem Inserted.lengths_of_sound (hc : 0 < n.c) (hs : n.Sound w) :
    ∀ r ∈ u ++ held (n.taker w) :: v, 0 < r.len ∧ r.len < 2 ^ 15 := by
  have hrest : ∀ r ∈ n.rest w, 0 < r.len ∧ r.len < 2 ^ 15 := fun r hr =>
    ⟨(Range.mem_rest (fun r hr => (hleg r hr).pos) hr).1, rest_len_lt hleg hr⟩
  have hl : (n.taker w).Has n.l :=
    (h.has n.l).mpr (.inl ⟨Nat.le_refl _, Nat.lt_add_of_pos_right hc⟩)
  rw [held_eq hs.1]
  rw [h.rest] at hrest
  intro r hr
  rcases mem_append.mp hr with hr | hr
  · exact hrest r (by simp [hr])
  rcases mem_cons.mp hr with rfl | hr
  · refine ⟨?_, hs.1⟩
    simp only [Run.Has, Run.stop] at hl
    omega
  · exact hrest r (by simp [hr])

omit hw hleg in
theorem Inserted.sound_of_map (hc : 0 < n.c) (hrange : ∀ k, n.l ≤ k → k < n.stop →
      runFind (u ++ held (n.taker w) :: v) k = some (n.p + (k - n.l)))
    (hkeep : ∀ k, ¬(n.l ≤ k ∧ k < n.stop) → runFind (u ++ held (n.taker w) :: v) k = runFind w k)
    (hord : Ordered (u ++ held (n.taker w) :: v))
    (hlens : ∀ r ∈ u ++ held (n.taker w) :: v, 0 < r.len ∧ r.len < 2 ^ 15) : n.Sound w := by
  have hl : (n.taker w).Has n.l :=
    (h.has n.l).mpr (.inl ⟨Nat.le_refl _, Nat.lt_add_of_pos_right hc⟩)
  have hX := hlens (held (n.taker w)) (by simp)
  have hne : (n.taker w).len ≠ 2 ^ 15 := by
    intro heq
    have hlong : (held (n.taker w)).len = 2 ^ 32 - 2 ^ 15 := congrArg stored heq
    omega
  have hlen : (n.taker w).len < 2 ^ 15 := by
    by_contra hge
    have hstored : stored (n.taker w).len < (n.taker w).len := by
      rw [stored, if_neg hge, if_neg hne]
      omega
    -- the last block of the run is no longer in its extent
    have hlast : (n.taker w).Has ((n.taker w).stop - 1) := by
      simp only [Run.Has, Run.stop] at *
      omega
    have hnone : runFind (u ++ held (n.taker w) :: v) ((n.taker w).stop - 1) = none := by
      rw [h.runFind_eq hne, if_neg, h.runFind_inside hlast]
      simp only [Run.Has, Run.stop, held] at *
      omega
    by_cases hin : n.l ≤ (n.taker w).stop - 1 ∧ (n.taker w).stop - 1 < n.stop
    · rw [hrange _ hin.1 hin.2] at hnone
      cases hnone
    · obtain ⟨r, hr, hrk⟩ := ((h.has _).mp hlast).resolve_left hin
      rw [hkeep _ hin] at hnone
      exact h.runFind_ne_none (by simp [hr]) hrk hnone
  refine ⟨hlen, ?_, ?_⟩
  · by_contra hno
    obtain ⟨hp, hbefore⟩ := not_or.mp hno
    obtain ⟨hstart, hval⟩ := h.trunc hbefore
    have hfind := hrange n.l (Nat.le_refl _) (Nat.lt_add_of_pos_right hc)
    rw [h.runFind_eq hne, held_eq hlen, if_pos hl, Run.valueAt, hstart, hval] at hfind
    have := Option.some.inj hfind
    omega
  · by_contra hno
    obtain ⟨r, hr, hrs⟩ := h.unsorted hno
    have hbefore := (pairwise_append.mp hord).2.2 r hr _ mem_cons_self
    have hpos := (hlens r (by simp [hr])).1
    simp only [held, Run.stop, Run.Has] at *
    omega

def Range.Kept (n : Range) (w : List Run) : Prop :=
  (n.taker w).len ≠ 2 ^ 15 ∧ ∀ j < (n.taker w).len, runFind w ((n.taker w).start + j) =
      if j < stored (n.taker w).len then some ((n.taker w).val + j) else none

omit hw hleg in
theorem Inserted.length_le_four (hroom : m = [] → n.pieces w < 4) (hp : n.pieces w ≤ 4) :
    (u ++ held (n.taker w) :: v).length ≤ 4 := by
  rw [← Range.length_rest, h.rest] at *
  simp only [length_append, length_cons] at *
  cases m with
  | nil =>
    have := hroom rfl
    simp only [length_nil] at *
    omega
  | cons r m =>
    simp only [length_cons] at *
    omega

omit hw hleg in
theorem Inserted.same_of_kept (hk : n.Kept w) (k : Nat) :
    runFind (u ++ held (n.taker w) :: v) k = runFind w k := by
  obtain ⟨hne, hold⟩ := hk
  rw [h.runFind_eq hne]
  by_cases htk : (n.taker w).Has k
  · have hj : k = (n.taker w).start + (k - (n.taker w).start) := by
      have := htk.1
      omega
    have hold := hold (k - (n.taker w).start) (by simp only [Run.Has, Run.stop] at htk; omega)
    rw [← hj] at hold
    rw [hold, h.runFind_inside htk]
    refine if_congr ?_ rfl rfl
    simp only [Run.Has, Run.stop, held] at *
    omega
  · rw [if_neg, h.runFind_beside htk]
    have := stored_le hne
    simp only [Run.Has, Run.stop, held] at *
    omega

theorem Inserted.kept_of_same (hcap : w.length ≤ 4) (hroom : m = [] → n.pieces w < 4)
    (hsame : ∀ k, runFind ((u ++ held (n.taker w) :: v).take 4) k = runFind w k) :
    n.pieces w ≤ 4 ∧ n.Kept w := by
  have hpos : ∀ r ∈ n.rest w, 0 < r.len :=
    fun r hr => (Range.mem_rest (fun r hr => (hleg r hr).pos) hr).1
  have hstart : ∀ r ∈ n.rest w, r.Has r.start := fun r hr => by
    have := hpos r hr
    simp only [Run.Has, Run.stop]
    omega
  -- a part that the extent took would be lost with it
  have hu : u.length < 4 := by
    by_contra hge
    have hm : m ≠ [] := by
      rintro rfl
      have := hroom rfl
      rw [← Range.length_rest, h.rest] at this
      simp only [length_append] at this
      omega
    obtain ⟨r, hr⟩ := exists_mem_of_ne_nil m hm
    have hk := hstart r (by rw [h.rest]; simp [hr])
    have hnone : runFind (u.take 4) r.start = none :=
      runFind_eq_none_iff.mpr fun x hx hxk =>
        (h.apart x (mem_append_left v (mem_of_mem_take hx))).not_has hxk
          ((h.has _).mpr (.inr ⟨r, hr, hk⟩))
    have hsame := hsame r.start
    rw [take_append_of_le_length (by omega), hnone] at hsame
    exact h.runFind_ne_none (by simp [hr]) hk hsame.symm
  have htake : (u ++ held (n.taker w) :: v).take 4 =
      u ++ held (n.taker w) :: v.take (3 - u.length) := by
    rw [take_append, take_of_length_le (by omega), show 4 - u.length = 3 - u.length + 1 by omega,
      take_succ_cons]
  rw [htake] at hsame
  have hne : (n.taker w).len ≠ 2 ^ 15 := by
    intro heq
    obtain ⟨k, hk1, hk2, hnone⟩ := hw.exists_gap
      (fun r hr => Nat.le_of_lt (hleg r hr).len_lt) (n.taker w).start
    rw [← hsame] at hnone
    refine Lib.runFind_ne_none (r := held (n.taker w)) (by simp) ?_ hnone
    have hlong : stored (n.taker w).len = 2 ^ 32 - 2 ^ 15 := congrArg stored heq
    simp only [Run.Has, Run.stop, held]
    omega
  have hv : v.length ≤ 3 - u.length := by
    by_contra hge
    obtain ⟨x, y, rfl, hx⟩ : ∃ x y, v = x ++ y ∧ x = v.take (3 - u.length) :=
      ⟨_, _, (take_append_drop (3 - u.length) v).symm, rfl⟩
    rw [← hx] at hsame
    cases y with
    | nil =>
      have := congrArg length hx
      simp only [append_nil, length_take] at this hge
      omega
    | cons z y =>
      have hz : z ∈ n.rest w := by rw [h.rest]; simp
      have hord := Range.ordered_rest (n := n) (fun r hr => (hleg r hr).pos) hw
      rw [h.rest, ← append_assoc] at hord
      have hz := hstart z hz
      have hzt : z.Apart (n.taker w) := h.apart z (by simp)
      refine h.runFind_ne_none (by simp) hz ((hsame z.start).symm.trans ?_)
      refine runFind_eq_none_iff.mpr fun q hq hqk => ?_
      rcases mem_append.mp hq with hq | hq
      · exact (hord.apart q (by simp [hq])).not_has hqk hz
      rcases mem_cons.mp hq with rfl | hq
      · have := stored_le hne
        refine hzt.not_has hz ?_
        simp only [Run.Has, Run.stop, held] at *
        omega
      · exact (hord.apart q (by simp [hq])).not_has hqk hz
  rw [take_of_length_le hv] at hsame
  refine ⟨?_, hne, ?_⟩
  · refine h.length_le.trans ?_
    rw [length_append, length_cons]
    omega
  · intro j hj
    have htk : (n.taker w).Has ((n.taker w).start + j) := by
      simp only [Run.Has, Run.stop]
      omega
    rw [← hsame, h.runFind_eq hne, h.runFind_inside htk]
    simp only [Run.Has, Run.stop, held, Run.valueAt]
    grind

end Map

theorem length_deserializeFrom_le (b : List UInt8) (i k : Nat) :
    (deserializeFrom b i k).length ≤ k := by
  induction k generalizing i with
  | zero => exact Nat.le_refl 0
  | succ k ih =>
    rw [deserializeFrom]
    split
    · exact Nat.zero_le _
    · exact Nat.succ_le_succ (ih (i + 1))

theorem Range.pieces_le (n : Range) (w : List Run) : n.pieces w ≤ 2 * w.length := by
  induction w with
  | nil => exact Nat.zero_le _
  | cons r w ih =>
    simp only [pieces, map_cons, sum_cons, length_cons] at *
    split <;> split <;> omega

theorem WellFormed.length_runs (hs : WellFormed s) : s.runs.length ≤ 4 := by
  rw [Inode.runs, length_map]
  exact (length_deserializeFrom_le ..).trans hs.entries

theorem WellFormed.legal (hs : WellFormed s) (hr : InRange s) : ∀ r ∈ s.runs, Legal r :=
  fun r hmem => ⟨(hs.lengths r hmem).1, (hs.lengths r hmem).2, (hr r hmem).1, (hr r hmem).2⟩

theorem pure_inj {a b : Option Nat} :
    (pure a : EStateM Stop Unit (Option Nat)) = pure b ↔ a = b := by
  refine ⟨fun h => ?_, fun h => by rw [h]⟩
  have := congrFun h ()
  exact (EStateM.Result.ok.inj this).1

/-- What is asked of an insertion of the range into `s`. -/
def InsertCorrect (s : Inode) (n : Range) : EStateM.Result Stop (Inode × Unit) Unit → Prop
  | .ok _ (t, _) =>
    (∀ i < n.c, ∀ readBlock : Nat → EStateM Stop Unit (List UInt8),
      extentLookup t (n.l + i) readBlock = pure (some (n.p + i))) ∧
    (∀ lb, ¬(n.l ≤ lb ∧ lb < n.l + n.c) → ∀ readBlock : Nat → EStateM Stop Unit (List UInt8),
      extentLookup t lb readBlock = extentLookup s lb readBlock) ∧
    WellFormed t
  | .error _ (t, _) =>
    ∀ lb, ∀ readBlock : Nat → EStateM Stop Unit (List UInt8),
      extentLookup t lb readBlock = extentLookup s lb readBlock

/-- The root is full, or nothing that the updated root holds is out of place. When the inode cannot
be written, the root in memory has to be as it was. -/
def InsertSafe (n : Range) (w : List Run) (wr : Ext4Result Unit) : Prop :=
  ¬n.Joins w ∧ 4 ≤ n.pieces w ∨ n.pieces w ≤ 4 ∧ match wr with
      | .ok _ => n.Sound w
      | .error _ => n.Kept w

theorem WellFormed.insert_cases (hs : WellFormed s) (hr : InRange s) (logical : UInt32)
    (phys : UInt64) (count : UInt16) (hc : 1 ≤ count.toNat ∧ count.toNat ≤ 32767) :
    let n := rangeOf logical phys count
    (insertNew logical phys count s.extents = .error .extentTreeFull ∧
      ¬n.Joins s.runs ∧ 4 ≤ n.pieces s.runs) ∨
    ∃ W u m v, insertNew logical phys count s.extents = .ok W ∧ W.length < 2 ^ 16 ∧
      Inserted n s.runs u m v ∧ W.map Extent.run = u ++ held (n.taker s.runs) :: v ∧
      (m = [] → n.pieces s.runs < 4) := by
  intro n
  rcases insertNew_cases hs.ordered (hs.legal hr) hc.1 (by omega) with
    hfull | ⟨W, u, m, v, hok, hins, hmap, hroom⟩
  · exact .inl hfull
  · refine .inr ⟨W, u, m, v, hok, ?_, hins, hmap, hroom⟩
    have hW := congrArg length hmap
    have hrest := congrArg length hins.rest
    have hlen := hs.length_runs
    have hcap := n.pieces_le s.runs
    rw [Range.length_rest] at hrest
    change n.pieces s.runs = _ at hrest
    simp only [length_map, length_append, length_cons] at *
    omega

section Written

variable {n : Range} {u m v : List Run} (hs : WellFormed s) (hr : InRange s)
  (hW : W.length < 2 ^ 16) (hins : Inserted n s.runs u m v)
  (hmap : W.map Extent.run = u ++ held (n.taker s.runs) :: v) (hroom : m = [] → n.pieces s.runs < 4)
include hs hr hW hins hmap hroom

theorem insertCorrect_written_iff (hc : 0 < n.c) :
    InsertCorrect s n (.ok () (s.setExtents W, ())) ↔ n.pieces s.runs ≤ 4 ∧ n.Sound s.runs := by
  have hleaf := setExtents_isLeaf hs.extents hW
  obtain ⟨-, -, hentries, -⟩ := setExtents_header hW
  have hruns : (s.setExtents W).runs = (u ++ held (n.taker s.runs) :: v).take 4 :=
    hmap ▸ setExtents_runs hW
  have hlen : W.length = (u ++ held (n.taker s.runs) :: v).length := by
    rw [← hmap, length_map]
  simp only [InsertCorrect, extentLookup_eq hleaf, extentLookup_eq hs.toIsLeaf, pure_inj]
  constructor
  · rintro ⟨hrange, hkeep, hwf⟩
    have hfour : (u ++ held (n.taker s.runs) :: v).length ≤ 4 := by
      rw [← hlen, ← hentries]
      exact hwf.entries
    rw [take_of_length_le hfour] at hruns
    rw [hruns] at hrange hkeep
    refine ⟨hins.length_le.trans hfour, hins.sound_of_map hc ?_ ?_ ?_ ?_⟩
    · intro k h1 h2
      have hk : n.l + (k - n.l) = k := by omega
      have := hrange (k - n.l) (by simp only [Range.stop] at h2; omega) fun _ => pure []
      rwa [hk] at this
    · exact fun k hk => hkeep k hk fun _ => pure []
    · exact hruns ▸ hwf.ordered
    · exact hruns ▸ hwf.lengths
  · rintro ⟨hp, hsound⟩
    have hfour := hins.length_le_four hroom hp
    obtain ⟨hrange, hkeep, hord⟩ := hins.map_of_sound hs.ordered (hs.legal hr) hsound
    rw [take_of_length_le hfour] at hruns
    rw [hruns]
    refine ⟨?_, fun k hk _ => hkeep k hk, hleaf, by rw [hentries, hlen]; exact hfour,
      by rwa [hruns], ?_⟩
    · intro i hi _
      rw [hrange _ (Nat.le_add_right ..) (Nat.add_lt_add_left hi _), Nat.add_sub_cancel_left]
    · rw [hruns]
      exact hins.lengths_of_sound (hs.legal hr) hc hsound

theorem insertCorrect_unwritten_iff (e : Stop) :
    InsertCorrect s n (.error e (s.setExtents W, ())) ↔ n.pieces s.runs ≤ 4 ∧ n.Kept s.runs := by
  have hleaf := setExtents_isLeaf hs.extents hW
  have hruns : (s.setExtents W).runs = (u ++ held (n.taker s.runs) :: v).take 4 :=
    hmap ▸ setExtents_runs hW
  simp only [InsertCorrect, extentLookup_eq hleaf, extentLookup_eq hs.toIsLeaf, pure_inj, hruns]
  constructor
  · intro hsame
    exact hins.kept_of_same hs.ordered (hs.legal hr) hs.length_runs hroom fun k =>
      hsame k fun _ => pure []
  · rintro ⟨hp, hkept⟩ k -
    rw [take_of_length_le (hins.length_le_four hroom hp), hins.same_of_kept hkept]

end Written

/-- An insertion does what is asked of it exactly when it is safe. -/
theorem extent_insert_correct_iff (hs : WellFormed s) (hr : InRange s) (logical : UInt32)
    (phys : UInt64) (count : UInt16) (hc : 1 ≤ count.toNat ∧ count.toNat ≤ 32767)
    (wr : Ext4Result Unit) : InsertCorrect s (rangeOf logical phys count)
        (extentInsert logical phys count (fun _ => lift wr) (s, ())) ↔
      InsertSafe (rangeOf logical phys count) s.runs wr := by
  rw [extentInsert_eq hs.toIsLeaf]
  unfold InsertSafe
  rcases hs.insert_cases hr logical phys count hc with
    ⟨hfull, hno, hp⟩ | ⟨W, u, m, v, hok, hW, hins, hmap, hroom⟩
  · rw [hfull]
    exact ⟨fun _ => .inl ⟨hno, hp⟩, fun _ _ _ => rfl⟩
  have hnotfull : ¬(¬(rangeOf logical phys count).Joins s.runs ∧
      4 ≤ (rangeOf logical phys count).pieces s.runs) := by
    rintro ⟨hno, hp⟩
    have := hroom (not_not.mp fun h => hno (hins.joins.mp h))
    omega
  rw [or_iff_right hnotfull, hok]
  cases wr with
  | ok _ => exact insertCorrect_written_iff hs hr hW hins hmap hroom hc.1
  | error e => exact insertCorrect_unwritten_iff hs hr hW hins hmap hroom (.err e)

/-! ### Examples -/

def inodeOf (W : List Extent) : Inode :=
  Inode.setExtents ⟨extentsFl, 0, 0, 0, 0, 0, 0, 0, serializeRoot ⟨extentMagic, 0, 4, 0, 0⟩ []⟩ W

theorem extents_inodeOf (h : W.length ≤ 4) : (inodeOf W).extents = W := by
  rw [inodeOf, (setExtents_header (by omega)).2.2.2]
  exact take_of_length_le h

theorem runs_inodeOf (h : W.length ≤ 4) : (inodeOf W).runs = W.map Extent.run := by
  rw [Inode.runs, extents_inodeOf h]

theorem wellFormed_inodeOf (h : W.length ≤ 4) (hord : Ordered (W.map Extent.run))
    (hlens : ∀ r ∈ W.map Extent.run, 0 < r.len ∧ r.len < 2 ^ 15) : WellFormed (inodeOf W) := by
  have hW : W.length < 2 ^ 16 := by omega
  have hruns := runs_inodeOf h
  refine ⟨setExtents_isLeaf rfl hW, ?_, by rwa [hruns], by rwa [hruns]⟩
  exact (setExtents_header hW).2.2.1.trans_le h

/-- Eight blocks at 100, and four more that go on where they end. -/
theorem insert_adjacent_correct : InsertCorrect (inodeOf [mkExtent 0 8 100]) (rangeOf 8 108 4)
      (extentInsert 8 108 4 (fun _ => lift (.ok ())) (inodeOf [mkExtent 0 8 100], ())) := by
  have hruns : (inodeOf [mkExtent 0 8 100]).runs = [⟨0, 8, 100⟩] := runs_inodeOf (by decide)
  refine (extent_insert_correct_iff (wellFormed_inodeOf (by decide) (by decide) (by decide)) ?_
    8 108 4 (by decide) (.ok ())).mpr ?_
  · rw [InRange, hruns]
    decide
  · rw [hruns]
    exact .inr ⟨by decide, by decide, .inl (by decide), .inl (.inl ⟨_, .head _, by decide⟩)⟩

/-- Four extents, and one block in the middle of the first one that is inserted where it is: the
pieces need five entries, and the last extent is lost. -/
theorem insert_loses_extent :
    let W := [mkExtent 0 4 100, mkExtent 10 4 200, mkExtent 20 4 300, mkExtent 30 4 400]
    WellFormed (inodeOf W) ∧ InRange (inodeOf W) ∧ ¬InsertCorrect (inodeOf W) (rangeOf 1 101 1)
        (extentInsert 1 101 1 (fun _ => lift (.ok ())) (inodeOf W, ())) := by
  intro W
  have hruns : (inodeOf W).runs = W.map Extent.run := runs_inodeOf (by decide)
  have hwf : WellFormed (inodeOf W) := wellFormed_inodeOf (by decide) (by decide) (by decide)
  refine ⟨hwf, by rw [InRange, hruns]; decide, ?_⟩
  have hnew : insertNew 1 101 1 W = .ok [mkExtent 0 2 100, mkExtent 2 2 102, mkExtent 10 4 200,
      mkExtent 20 4 300, mkExtent 30 4 400] := rfl
  rw [extentInsert_eq hwf.toIsLeaf, extents_inodeOf (by decide), hnew]
  rintro ⟨-, hkeep, -⟩
  have hlost := hkeep 30 (by decide) fun _ => pure []
  rw [extentLookup_eq (setExtents_isLeaf hwf.extents (by decide)), extentLookup_eq hwf.toIsLeaf,
    pure_inj, setExtents_runs (by decide), hruns] at hlost
  exact absurd hlost (by decide)

end Gergios.Ext4
