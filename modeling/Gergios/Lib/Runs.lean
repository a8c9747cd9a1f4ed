import Mathlib.Data.List.Pairwise

/-!
# Maps held as lists of runs

A run takes consecutive keys to consecutive values. A list of runs is a map in which the first run
that holds a key decides. Cutting, replacing and removing runs are stated by their effect on that
map.
-/

namespace Gergios.Lib

open List

structure Run where
  start : Nat
  len : Nat
  val : Nat
deriving DecidableEq

namespace Run

def stop (r : Run) : Nat := r.start + r.len

def Has (r : Run) (k : Nat) : Prop := r.start ≤ k ∧ k < r.stop

instance (r : Run) (k : Nat) : Decidable (r.Has k) := inferInstanceAs (Decidable (_ ∧ _))

def valueAt (r : Run) (k : Nat) : Nat := r.val + (k - r.start)

/-- The part of a run below `n`. -/
def below (n : Nat) (r : Run) : List Run :=
  if r.start < n then [⟨r.start, min r.stop n - r.start, r.val⟩] else []

/-- The part of a run from `n` on. -/
def above (n : Nat) (r : Run) : List Run :=
  if n < r.stop then [⟨max r.start n, r.stop - max r.start n, r.valueAt (max r.start n)⟩] else []

/-- What is left of a run when the keys from `l` to `m` are taken out. -/
def cut (l m : Nat) (r : Run) : List Run := r.below l ++ r.above m

def Apart (r q : Run) : Prop := r.stop ≤ q.start ∨ q.stop ≤ r.start

variable {r q : Run} {k : Nat}

theorem Apart.not_has (h : r.Apart q) (hk : r.Has k) : ¬q.Has k := by
  simp only [Apart, Has] at *
  omega

theorem apart_of_not_has (hr : 0 < r.len) (hq : 0 < q.len) (h : ∀ k, r.Has k → ¬q.Has k) :
    r.Apart q := by
  have := h (max r.start q.start)
  simp only [Apart, Has, stop] at *
  omega

end Run

def runFind : List Run → Nat → Option Nat
  | [], _ => none
  | r :: w, k => if r.Has k then some (r.valueAt k) else runFind w k

def Ordered (w : List Run) : Prop := w.Pairwise fun r q => r.stop ≤ q.start

instance (w : List Run) : Decidable (Ordered w) := inferInstanceAs (Decidable (List.Pairwise ..))

variable {u w : List Run} {r q : Run} {k : Nat}

@[simp]
theorem runFind_nil : runFind [] k = none := rfl

theorem runFind_cons : runFind (r :: w) k = if r.Has k then some (r.valueAt k) else runFind w k :=
  rfl

theorem runFind_append : runFind (u ++ w) k = (runFind u k).or (runFind w k) := by
  induction u with
  | nil => rfl
  | cons r u ih =>
    simp only [cons_append, runFind_cons, ih]
    split <;> rfl

theorem runFind_eq_none_iff : runFind w k = none ↔ ∀ r ∈ w, ¬r.Has k := by
  induction w with
  | nil => simp
  | cons r w ih =>
    rw [runFind_cons]
    split <;> simp_all

theorem runFind_ne_none (hr : r ∈ w) (hk : r.Has k) : runFind w k ≠ none := by
  intro hnone
  exact runFind_eq_none_iff.mp hnone r hr hk

theorem runFind_middle (hu : ∀ q ∈ u, q.Apart r) :
    runFind (u ++ r :: w) k = if r.Has k then some (r.valueAt k) else runFind (u ++ w) k := by
  rw [runFind_append, runFind_cons, runFind_append]
  split
  · rename_i hk
    have hnone : runFind u k = none :=
      runFind_eq_none_iff.mpr fun q hq hqk => (hu q hq).not_has hqk hk
    rw [hnone, Option.none_or]
  · rfl

theorem Ordered.apart (hw : Ordered (u ++ r :: w)) : ∀ q ∈ u ++ w, q.Apart r := by
  obtain ⟨-, hrw, hur⟩ := pairwise_append.mp hw
  intro q hq
  rcases mem_append.mp hq with hq | hq
  · exact .inl (hur q hq r mem_cons_self)
  · exact .inr ((pairwise_cons.mp hrw).1 q hq)

theorem Ordered.runFind_of_mem (hw : Ordered w) (hr : r ∈ w) (hk : r.Has k) :
    runFind w k = some (r.valueAt k) := by
  obtain ⟨u, v, rfl⟩ := append_of_mem hr
  rw [runFind_middle fun q hq => hw.apart q (mem_append_left v hq), if_pos hk]

theorem exists_of_runFind {v : Nat} (h : runFind w k = some v) :
    ∃ r ∈ w, r.Has k ∧ r.valueAt k = v := by
  induction w with
  | nil => exact nomatch h
  | cons r w ih =>
    rw [runFind_cons] at h
    split at h
    · rename_i hk
      exact ⟨r, mem_cons_self, hk, Option.some.inj h⟩
    · obtain ⟨q, hq, hv⟩ := ih h
      exact ⟨q, mem_cons_of_mem r hq, hv⟩

theorem Ordered.eq_of_has_map {α : Type*} {f : α → Run} {l : List α} (hl : Ordered (l.map f))
    {a b : α} (ha : a ∈ l) (hb : b ∈ l) (hak : (f a).Has k) (hbk : (f b).Has k) : a = b := by
  by_contra hne
  have hapart : l.Pairwise fun x y => (f x).Apart (f y) := (pairwise_map.mp hl).imp .inl
  have : Std.Symm fun x y => (f x).Apart (f y) := ⟨fun _ _ h => h.symm⟩
  exact (hapart.forall ha hb hne).not_has hak hbk

theorem Ordered.eq_of_has (hw : Ordered w) (hr : r ∈ w) (hq : q ∈ w) (hrk : r.Has k)
    (hqk : q.Has k) : r = q :=
  eq_of_has_map (by rwa [map_id]) hr hq hrk hqk

theorem Ordered.exists_append (hw : Ordered w) (hpos : ∀ r ∈ w, 0 < r.len) (n : Nat) :
    ∃ u v, w = u ++ v ∧ (∀ r ∈ u, r.start < n) ∧ ∀ r ∈ v, n ≤ r.start := by
  induction w with
  | nil => exact ⟨[], [], rfl, by simp, by simp⟩
  | cons r w ih =>
    obtain ⟨hrw, hw⟩ := pairwise_cons.mp hw
    obtain ⟨hr, hpos⟩ := forall_mem_cons.mp hpos
    rcases Nat.lt_or_ge r.start n with hn | hn
    · obtain ⟨u, v, rfl, hu, hv⟩ := ih hw hpos
      exact ⟨r :: u, v, rfl, forall_mem_cons.mpr ⟨hn, hu⟩, hv⟩
    · refine ⟨[], r :: w, rfl, by simp, forall_mem_cons.mpr ⟨hn, ?_⟩⟩
      intro q hq
      have := hrw q hq
      simp only [Run.stop] at this
      omega

/-! ### Runs in any order -/

theorem runFind_eq_some_iff {v : Nat} (hw : w.Pairwise Run.Apart) :
    runFind w k = some v ↔ ∃ r ∈ w, r.Has k ∧ r.valueAt k = v := by
  refine ⟨exists_of_runFind, ?_⟩
  rintro ⟨r, hr, hk, rfl⟩
  obtain ⟨u, v, rfl⟩ := append_of_mem hr
  rw [runFind_middle fun q hq => (pairwise_append.mp hw).2.2 q hq r mem_cons_self, if_pos hk]

theorem runFind_perm (h : u.Perm w) (hw : w.Pairwise Run.Apart) : runFind u k = runFind w k := by
  have hu : u.Pairwise Run.Apart := h.symm.pairwise hw fun hab => hab.symm
  refine Option.ext fun v => ?_
  rw [runFind_eq_some_iff hu, runFind_eq_some_iff hw]
  simp only [h.mem_iff]

/-! ### Ordered runs -/

theorem Ordered.exists_gap {n : Nat} (hw : Ordered w) (hn : ∀ r ∈ w, r.len ≤ n) (a : Nat) :
    ∃ k, a ≤ k ∧ k ≤ a + w.length * n ∧ runFind w k = none := by
  induction w generalizing a with
  | nil => exact ⟨a, Nat.le_refl a, by simp, rfl⟩
  | cons r w ih =>
    obtain ⟨hrw, hw⟩ := pairwise_cons.mp hw
    have hr := hn r mem_cons_self
    have ih := ih hw fun q hq => hn q (mem_cons_of_mem r hq)
    rw [length_cons, Nat.succ_mul]
    rcases Nat.lt_or_ge a r.start with ha | ha
    · refine ⟨a, Nat.le_refl a, Nat.le_add_right a _, runFind_eq_none_iff.mpr ?_⟩
      intro q hq hqa
      rcases mem_cons.mp hq with rfl | hq
      · exact absurd hqa.1 (by omega)
      · have := hrw q hq
        simp only [Run.Has, Run.stop] at *
        omega
    · obtain ⟨k, hak, hkb, hnone⟩ := ih (max a r.stop)
      refine ⟨k, by omega, by simp only [Run.stop] at *; omega, ?_⟩
      rw [runFind_cons, if_neg fun hk => ?_]
      · exact hnone
      · exact absurd hk.2 (by omega)

section Restrict

variable {f : Run → List Run} {P : Nat → Prop} [DecidablePred P]

theorem runFind_flatMap (hf : ∀ r ∈ w, runFind (f r) k = if P k then runFind [r] k else none) :
    runFind (w.flatMap f) k = if P k then runFind w k else none := by
  induction w with
  | nil => simp
  | cons r w ih =>
    obtain ⟨hr, hw⟩ := forall_mem_cons.mp hf
    rw [flatMap_cons, runFind_append, hr, ih hw]
    split
    · rw [runFind_cons, runFind_cons]
      split <;> rfl
    · rfl

theorem Ordered.flatMap (hw : Ordered w) (hf : ∀ r ∈ w, Ordered (f r))
    (hin : ∀ r ∈ w, ∀ q ∈ f r, r.start ≤ q.start ∧ q.stop ≤ r.stop) : Ordered (w.flatMap f) := by
  refine pairwise_flatMap.mpr ⟨hf, ?_⟩
  refine hw.imp_of_mem ?_
  intro r q hr hq hrq x hx y hy
  have hxr := hin r hr x hx
  have hyq := hin q hq y hy
  omega

end Restrict

namespace Run

variable {l m n : Nat}

theorem runFind_below (r : Run) :
    runFind (r.below n) k = if k < n then runFind [r] k else none := by
  rw [below]
  split <;> simp only [runFind_cons, runFind_nil, Has, stop, valueAt] <;> grind

theorem runFind_above (r : Run) :
    runFind (r.above n) k = if n ≤ k then runFind [r] k else none := by
  rw [above]
  split <;> simp only [runFind_cons, runFind_nil, Has, stop, valueAt] at * <;> grind

theorem runFind_cut (hlm : l ≤ m) (r : Run) :
    runFind (r.cut l m) k = if l ≤ k ∧ k < m then none else runFind [r] k := by
  rw [cut, runFind_append, runFind_below, runFind_above]
  grind

theorem mem_below (h : q ∈ r.below n) (hr : 0 < r.len) :
    0 < q.len ∧ q.start = r.start ∧ q.stop = min r.stop n ∧ q.val = r.val := by
  grind [below, stop]

theorem mem_above (h : q ∈ r.above n) (hr : 0 < r.len) :
    0 < q.len ∧ q.start = max r.start n ∧ q.stop = r.stop ∧ q.val = r.valueAt q.start := by
  grind [above, stop]

theorem mem_cut (h : q ∈ r.cut l m) (hr : 0 < r.len) :
    0 < q.len ∧ (q.stop ≤ l ∨ m ≤ q.start) ∧ r.start ≤ q.start ∧ q.stop ≤ r.stop := by
  rcases mem_append.mp h with h | h
  · obtain ⟨hpos, hstart, hstop, -⟩ := mem_below h hr
    exact ⟨hpos, .inl (by omega), by omega, by omega⟩
  · obtain ⟨hpos, hstart, hstop, -⟩ := mem_above h hr
    exact ⟨hpos, .inr (by omega), by omega, by omega⟩

theorem ordered_cut (hlm : l ≤ m) (hr : 0 < r.len) : Ordered (r.cut l m) := by
  refine pairwise_append.mpr ⟨?_, ?_, ?_⟩
  · rw [below]; split <;> simp
  · rw [above]; split <;> simp
  · intro x hx y hy
    obtain ⟨-, -, hxs, -⟩ := mem_below hx hr
    obtain ⟨-, hys, -⟩ := mem_above hy hr
    omega

theorem cut_of_beside (hlm : l ≤ m) (hr : 0 < r.len) (h : r.stop ≤ l ∨ m ≤ r.start) :
    r.cut l m = [r] := by
  rw [cut, below, above]
  rcases h with h | h
  · rw [if_pos (by simp only [stop] at h; omega), if_neg (by omega), Nat.min_eq_left h, stop,
      Nat.add_sub_cancel_left]
    rfl
  · rw [if_neg (by omega), if_pos (by simp only [stop]; omega), Nat.max_eq_left h, stop, valueAt,
      Nat.add_sub_cancel_left, Nat.sub_self]
    rfl

theorem length_cut (r : Run) :
    (r.cut l m).length = (if r.start < l then 1 else 0) + (if m < r.stop then 1 else 0) := by
  rw [cut, below, above]
  split <;> split <;> rfl

end Run

theorem runFind_belows (n : Nat) :
    runFind (w.flatMap (Run.below n)) k = if k < n then runFind w k else none :=
  runFind_flatMap (P := (· < n)) fun r _ => r.runFind_below

theorem runFind_aboves (n : Nat) :
    runFind (w.flatMap (Run.above n)) k = if n ≤ k then runFind w k else none :=
  runFind_flatMap fun r _ => r.runFind_above

theorem Ordered.aboves (hw : Ordered w) (hpos : ∀ r ∈ w, 0 < r.len) (n : Nat) :
    Ordered (w.flatMap (Run.above n)) := by
  refine hw.flatMap (fun r _ => ?_) fun r hr q hq => ?_
  · rw [Run.above]
    split <;> simp [Ordered]
  · obtain ⟨-, h1, h2, -⟩ := Run.mem_above hq (hpos r hr)
    omega

end Gergios.Lib
