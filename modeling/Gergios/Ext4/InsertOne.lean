import Mathlib.Data.List.Perm.Basic
import Gergios.Ext4.InsertMap

/-!
# Inserting one block that was not mapped

A block that no extent holds cuts none, so the extents need not be in order for the mapping to
come out right.
-/

namespace Gergios.Ext4

open Lib List

structure Spread (w : List Run) : Prop where
  apart : w.Pairwise Run.Apart
  lens : ∀ r ∈ w, 0 < r.len ∧ r.len < 2 ^ 15

theorem Spread.perm {u w : List Run} (h : u.Perm w) (hw : Spread w) : Spread u :=
  ⟨h.symm.pairwise hw.apart fun hab => hab.symm, fun r hr => hw.lens r (h.mem_iff.mp hr)⟩

variable {W : List Extent} {lb : Nat} {p : UInt64}

def JoinsTo (lb : Nat) (p : UInt64) (e : Extent) : Prop :=
  Continues (.ofNat lb) p e ∨ Precedes (.ofNat lb) p 1 e

theorem toNat_ofNat_block (hlb : lb < 2 ^ 32) : (UInt32.ofNat lb).toNat = lb := by
  rw [UInt32.toNat_ofNat', Nat.mod_eq_of_lt hlb]

theorem splitOverlaps_unmapped (hlb : lb < 2 ^ 32) (hnone : runFind (W.map Extent.run) lb = none) :
    splitOverlaps (UInt32.ofNat lb).toNat ((UInt32.ofNat lb).toNat + 1) W.length W = W := by
  rw [toNat_ofNat_block hlb, splitOverlaps_eq]
  have hparts : ∀ e ∈ W, parts lb (lb + 1) e = [e] := by
    intro e he
    have hno := runFind_eq_none_iff.mp hnone e.run (mem_map_of_mem he)
    rw [parts, if_neg]
    simp only [Run.Has] at hno
    omega
  rw [flatMap_congr hparts]
  exact flatMap_singleton' W

theorem insertPos_le (logical : UInt32) (j pos : Nat) (V : List Extent) (h : pos ≤ j + V.length) :
    insertPos logical j pos V ≤ j + V.length := by
  induction V generalizing j pos with
  | nil => exact h
  | cons e V ih =>
    rw [length_cons] at h ⊢
    have := ih (j + 1) (if logical > e.eeBlock then j + 1 else pos) (by split <;> omega)
    rw [insertPos]
    omega

section Add

variable {m rest : List Run} {x : Run} {v : Nat} (hw : Spread (m ++ rest))
  (hx : 0 < x.len ∧ x.len < 2 ^ 15) (hhas : ∀ k, x.Has k ↔ k = lb ∨ ∃ r ∈ m, r.Has k)
  (hval : ∀ r ∈ m, ∀ k, r.Has k → r.valueAt k = x.valueAt k) (hnone : runFind (m ++ rest) lb = none)
include hw hhas

include hx hnone in
theorem Spread.add : Spread (x :: rest) := by
  obtain ⟨-, hrest, hmr⟩ := pairwise_append.mp hw.apart
  refine ⟨pairwise_cons.mpr ⟨fun q hq => ?_, hrest⟩, forall_mem_cons.mpr ⟨hx, fun q hq =>
    hw.lens q (mem_append_right m hq)⟩⟩
  have hq' := mem_append_right m hq
  refine Run.apart_of_not_has hx.1 (hw.lens q hq').1 fun k hk hqk => ?_
  rcases (hhas k).mp hk with rfl | ⟨r, hr, hrk⟩
  · exact runFind_ne_none hq' hqk hnone
  · exact (hmr r hr q hq).not_has hrk hqk

include hval in
theorem Spread.runFind_add (hv : x.valueAt lb = v) (k : Nat) :
    runFind (x :: rest) k = if k = lb then some v else runFind (m ++ rest) k := by
  rw [runFind_cons]
  split
  · rename_i hk
    split
    · rename_i heq
      rw [heq, hv]
    rename_i hne
    obtain ⟨r, hr, hrk⟩ := ((hhas k).mp hk).resolve_left hne
    exact ((runFind_eq_some_iff hw.apart).mpr
      ⟨r, mem_append_left rest hr, hrk, hval r hr k hrk⟩).symm
  · rename_i hk
    obtain ⟨hne, hm⟩ := not_or.mp fun hor => hk ((hhas k).mpr hor)
    have hnone : runFind m k = none := runFind_eq_none_iff.mpr fun r hr hrk => hm ⟨r, hr, hrk⟩
    rw [if_neg hne, runFind_append, hnone, Option.none_or]

end Add

/-- What inserting block `lb` at `p` leaves of the extents `W`. -/
structure OneInserted (W : List Extent) (lb : Nat) (p : UInt64) (W' : List Extent) : Prop where
  length : W'.length ≤ inlineExtentsCount
  spread : Spread (W'.map Extent.run)
  find : ∀ k, runFind (W'.map Extent.run) k =
    if k = lb then some p.toNat else runFind (W.map Extent.run) k

theorem OneInserted.of_perm {W' : List Extent} {m rest : List Run} {x : Run}
    (hlen : W'.length ≤ inlineExtentsCount) (hw : Spread (W.map Extent.run))
    (hold : (W.map Extent.run).Perm (m ++ rest)) (hnew : (W'.map Extent.run).Perm (x :: rest))
    (hnone : runFind (W.map Extent.run) lb = none) (hx : 0 < x.len ∧ x.len < 2 ^ 15)
    (hhas : ∀ k, x.Has k ↔ k = lb ∨ ∃ r ∈ m, r.Has k)
    (hval : ∀ r ∈ m, ∀ k, r.Has k → r.valueAt k = x.valueAt k) (hv : x.valueAt lb = p.toNat) :
    OneInserted W lb p W' := by
  have hmr := hw.perm hold.symm
  rw [runFind_perm hold hmr.apart] at hnone
  have hadd := hmr.add hx hhas hnone
  refine ⟨hlen, hadd.perm hnew, fun k => ?_⟩
  rw [runFind_perm hnew hadd.apart, runFind_perm hold hmr.apart, hmr.runFind_add hhas hval hv]

theorem insertNew_one (hw : Spread (W.map Extent.run)) (hW : W.length ≤ inlineExtentsCount)
    (hlb : lb < 2 ^ 32) (hnone : runFind (W.map Extent.run) lb = none) (hp : p.toNat < 2 ^ 48)
    (hshort : ∀ e ∈ W, JoinsTo lb p e → e.run.len + 1 < 2 ^ 15)
    (hroom : (∃ e ∈ W, JoinsTo lb p e) ∨ W.length < inlineExtentsCount) :
    ∃ W', insertNew (.ofNat lb) p 1 W = .ok W' ∧ OneInserted W lb p W' := by
  have hnat := toNat_ofNat_block hlb
  have hone : (1 : UInt16).toNat = 1 := rfl
  rw [insertNew]
  simp only [hone, splitOverlaps_unmapped hlb hnone]
  rcases mergeNew_cases (.ofNat lb) p 1 W with ⟨hmerge, hno⟩ | ⟨U, e, V, rfl, -, he⟩
  · have hlen : W.length < inlineExtentsCount := by
      refine hroom.resolve_left ?_
      rintro ⟨e, he, hj | hj⟩
      · exact (hno e he).1 hj
      · exact (hno e he).2 hj
    rw [hmerge]
    rw [if_neg (Nat.not_le.mpr hlen)]
    have hpos := insertPos_le (.ofNat lb) 0 W.length W (by omega)
    rw [Nat.zero_add] at hpos
    have hperm := perm_insertIdx (mkExtent (.ofNat lb) (1 &&& 0x7FFF) p) W hpos
    have hrun : (mkExtent (.ofNat lb) (1 &&& 0x7FFF) p).run = ⟨lb, 1, p.toNat⟩ := by
      rw [run_mkExtent, hnat, Nat.mod_eq_of_lt hp]
      rfl
    refine ⟨_, rfl, .of_perm (m := []) (x := ⟨lb, 1, p.toNat⟩) ?_ hw (.refl _) ?_ hnone
      ⟨Nat.one_pos, Nat.one_lt_two_pow (by decide)⟩ ?_ (by simp) (by simp [Run.valueAt])⟩
    · rw [hperm.length_eq]
      exact hlen
    · rw [← hrun]
      exact hperm.map _
    · simp only [Run.Has, Run.stop, not_mem_nil, false_and, exists_false, or_false]
      omega
  · have hmem : e ∈ U ++ e :: V := by simp
    have hold : ((U ++ e :: V).map Extent.run).Perm ([e.run] ++ (U ++ V).map Extent.run) :=
      perm_middle.map _
    have hlen : (U ++ V).length + 1 ≤ inlineExtentsCount := by
      simp only [length_append] at *
      omega
    rcases he with ⟨hc, hmerge⟩ | ⟨-, hc, hmerge⟩
    · have hlt := hshort e hmem (.inl hc)
      obtain ⟨hstop, hphys⟩ := hc
      rw [hmerge]
      refine ⟨_, rfl, .of_perm (x := ⟨e.run.start, e.run.len + 1, e.run.val⟩) ?_ hw hold ?_ hnone
        ⟨Nat.succ_pos _, hlt⟩ ?_ ?_ ?_⟩
      · simpa [Nat.add_assoc] using hlen
      · rw [← held_eq (r := ⟨e.run.start, e.run.len + 1, e.run.val⟩) hlt,
          ← run_withLen (by omega) e]
        exact perm_middle.map _
      · simp only [Run.Has, Run.stop, List.mem_singleton, exists_eq_left] at *
        omega
      · intro r hr k _
        rw [List.mem_singleton.mp hr]
        rfl
      · simp only [Run.valueAt, Run.stop] at *
        omega
    · have hlt : 1 + e.run.len < 2 ^ 15 := by
        rw [Nat.add_comm]
        exact hshort e hmem (.inr hc)
      obtain ⟨hstop, hphys⟩ := hc
      have hval : p.toNat + 1 = e.run.val := by
        have := congrArg UInt64.toNat hphys
        rw [UInt64.toNat_add, UInt16.toNat_toUInt64, Nat.mod_eq_of_lt (by omega)] at this
        exact this
      rw [hmerge]
      refine ⟨_, rfl, .of_perm (x := ⟨lb, 1 + e.run.len, p.toNat⟩) ?_ hw hold ?_ hnone
        ⟨Nat.add_pos_left Nat.one_pos _, hlt⟩ ?_ ?_ (by simp [Run.valueAt])⟩
      · simpa [Nat.add_assoc] using hlen
      · have hrun := run_new (k := 1 + e.run.len) (by omega) (.ofNat lb) p
        rw [hnat, Nat.mod_eq_of_lt hp, held_eq hlt] at hrun
        rw [← hrun]
        exact perm_middle.map _
      · simp only [Run.Has, Run.stop, Range.stop, rangeOf, List.mem_singleton, exists_eq_left] at *
        omega
      · intro r hr k hk
        rw [List.mem_singleton.mp hr] at hk ⊢
        simp only [Run.Has, Run.valueAt, Range.stop, rangeOf] at *
        omega

end Gergios.Ext4
