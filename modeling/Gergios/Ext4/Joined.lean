import Gergios.Ext4.Insert

/-!
# The extent that takes a new range

A new range joins the extent before it or the one after it when the physical blocks go on, and has
an extent of its own otherwise. That extent, and the parts of the others, are what the root maps
after an insertion.
-/

namespace Gergios.Ext4

open Lib List

/-- The run holds the key before `l` and would take `l` to `p`. -/
def Before (l p : Nat) (r : Run) : Prop := r.start < l ∧ l ≤ r.stop ∧ r.valueAt l = p

/-- The run takes `m` to `q`. -/
def After (m q : Nat) (r : Run) : Prop := r.Has m ∧ r.valueAt m = q

instance (l p : Nat) (r : Run) : Decidable (Before l p r) := inferInstanceAs (Decidable (_ ∧ _))

instance (m q : Nat) (r : Run) : Decidable (After m q r) := inferInstanceAs (Decidable (_ ∧ _))

/-- A new range of `c` blocks from `l` on, at the physical blocks from `p` on. -/
structure Range where
  l : Nat
  c : Nat
  p : Nat

namespace Range

variable (n : Range) (w : List Run)

def stop : Nat := n.l + n.c

def physEnd : Nat := (n.p + n.c) % 2 ^ 64

def JoinsBefore : Prop := ∃ r ∈ w, Before n.l n.p r

def JoinsAfter : Prop := ∃ r ∈ w, After n.stop n.physEnd r

def Joins : Prop := n.JoinsBefore w ∨ n.JoinsAfter w

def pieces : Nat :=
  (w.map fun r => (if r.start < n.l then 1 else 0) + (if n.stop < r.stop then 1 else 0)).sum

def taker : Run :=
  match w.find? (fun r => Before n.l n.p r) with
  | some r => ⟨r.start, n.l - r.start + n.c, r.val⟩
  | none =>
    match w.find? (fun r => After n.stop n.physEnd r) with
    | some r => ⟨n.l, r.stop - n.l, n.p % 2 ^ 48⟩
    | none => ⟨n.l, n.c, n.p % 2 ^ 48⟩

end Range

variable {n : Range} {w : List Run} {r : Run}

theorem Range.taker_of_before (hw : Ordered w) (hr : r ∈ w) (hb : Before n.l n.p r) :
    n.taker w = ⟨r.start, n.l - r.start + n.c, r.val⟩ := by
  have hsome : (w.find? fun r => Before n.l n.p r) = some r := by
    cases h : w.find? fun r => Before n.l n.p r with
    | none => exact absurd hb (by simpa using find?_eq_none.mp h r hr)
    | some q =>
      have hq : Before n.l n.p q := by simpa using find?_some h
      have hk : ∀ {x : Run}, Before n.l n.p x → x.Has (n.l - 1) := by
        rintro x ⟨h1, h2, -⟩
        exact ⟨by omega, by omega⟩
      rw [hw.eq_of_has (mem_of_find?_eq_some h) hr (hk hq) (hk hb)]
  rw [taker, hsome]

theorem Range.taker_of_after (hw : Ordered w) (hno : ¬n.JoinsBefore w) (hr : r ∈ w)
    (ha : After n.stop n.physEnd r) : n.taker w = ⟨n.l, r.stop - n.l, n.p % 2 ^ 48⟩ := by
  have hnone : (w.find? fun r => Before n.l n.p r) = none :=
    find?_eq_none.mpr fun q hq hb => hno ⟨q, hq, by simpa using hb⟩
  have hsome : (w.find? fun r => After n.stop n.physEnd r) = some r := by
    cases h : w.find? fun r => After n.stop n.physEnd r with
    | none => exact absurd ha (by simpa using find?_eq_none.mp h r hr)
    | some q =>
      have hq : After n.stop n.physEnd q := by simpa using find?_some h
      rw [hw.eq_of_has (mem_of_find?_eq_some h) hr hq.1 ha.1]
  rw [taker, hnone, hsome]

theorem Range.taker_of_not_joins (hno : ¬n.Joins w) : n.taker w = ⟨n.l, n.c, n.p % 2 ^ 48⟩ := by
  have hbefore : (w.find? fun r => Before n.l n.p r) = none :=
    find?_eq_none.mpr fun q hq hb => hno (.inl ⟨q, hq, by simpa using hb⟩)
  have hafter : (w.find? fun r => After n.stop n.physEnd r) = none :=
    find?_eq_none.mpr fun q hq hb => hno (.inr ⟨q, hq, by simpa using hb⟩)
  rw [taker, hbefore, hafter]

/-! ### The parts outside the range -/

def Range.rest (n : Range) (w : List Run) : List Run := w.flatMap (Run.cut n.l n.stop)

theorem Range.length_rest : (n.rest w).length = n.pieces w := by
  rw [rest, length_flatMap]
  congr 1
  exact map_congr_left fun r _ => r.length_cut

section Rest

variable {q : Run} {k : Nat}

theorem Range.runFind_rest :
    runFind (n.rest w) k = if n.l ≤ k ∧ k < n.stop then none else runFind w k := by
  have hle : n.l ≤ n.stop := Nat.le_add_right ..
  have h := runFind_flatMap (w := w) (k := k)
    (P := fun k => ¬(n.l ≤ k ∧ k < n.stop)) fun r _ => by rw [Run.runFind_cut hle, ite_not]
  rw [rest, h, ite_not]

theorem Range.below_mem_rest (hr : r ∈ w) (hstart : r.start < n.l) :
    ⟨r.start, min r.stop n.l - r.start, r.val⟩ ∈ n.rest w := by
  refine mem_flatMap.mpr ⟨r, hr, mem_append_left _ ?_⟩
  rw [Run.below, if_pos hstart]
  exact mem_singleton_self _

theorem Range.rest_of_before (hr : r ∈ w) (hb : Before n.l n.p r) :
    ∃ q ∈ n.rest w, q.stop = n.l ∧ q.val + q.len = n.p := by
  obtain ⟨hstart, hstop, hval⟩ := hb
  refine ⟨_, Range.below_mem_rest hr hstart, ?_, ?_⟩
  · simp only [Run.stop] at *
    omega
  · simp only [Run.valueAt] at *
    omega

theorem Range.rest_of_after {v : Nat} (hr : r ∈ w) (ha : After n.stop v r) :
    ∃ q ∈ n.rest w, q.start = n.stop ∧ q.val = v := by
  obtain ⟨⟨hstart, hstop⟩, hval⟩ := ha
  refine ⟨⟨max r.start n.stop, r.stop - max r.start n.stop, r.valueAt (max r.start n.stop)⟩,
    ?_, Nat.max_eq_right hstart, ?_⟩
  · refine mem_flatMap.mpr ⟨r, hr, mem_append_right _ ?_⟩
    rw [Run.above, if_pos hstop]
    exact mem_singleton_self _
  · rw [Nat.max_eq_right hstart, hval]

variable (hpos : ∀ r ∈ w, 0 < r.len)
include hpos

theorem Range.ordered_rest (hw : Ordered w) : Ordered (n.rest w) := by
  refine hw.flatMap (fun r hr => Run.ordered_cut (Nat.le_add_right ..) (hpos r hr)) ?_
  intro r hr q hq
  exact (Run.mem_cut hq (hpos r hr)).2.2

theorem Range.mem_rest (hq : q ∈ n.rest w) : 0 < q.len ∧ (q.stop ≤ n.l ∨ n.stop ≤ q.start) ∧
      ∃ r ∈ w, r.start ≤ q.start ∧ q.stop ≤ r.stop := by
  obtain ⟨r, hr, hq⟩ := mem_flatMap.mp hq
  obtain ⟨h1, h2, h3⟩ := Run.mem_cut hq (hpos r hr)
  exact ⟨h1, h2, r, hr, h3⟩

theorem Range.before_of_rest (hc : 0 < n.c) (hq : q ∈ n.rest w) (hstop : q.stop = n.l)
    (hval : q.val + q.len = n.p) :
    ∃ r ∈ w, Before n.l n.p r ∧ r.start = q.start ∧ r.val = q.val := by
  obtain ⟨r, hr, hq⟩ := mem_flatMap.mp hq
  rcases mem_append.mp hq with hq | hq
  · obtain ⟨hlen, hstart, hmin, hv⟩ := Run.mem_below hq (hpos r hr)
    refine ⟨r, hr, ⟨?_, by omega, ?_⟩, hstart.symm, hv.symm⟩ <;>
      simp only [Run.valueAt, Run.stop] at * <;> omega
  · obtain ⟨hlen, hstart, -, -⟩ := Run.mem_above hq (hpos r hr)
    simp only [Run.stop, Range.stop] at *
    omega

theorem Range.after_of_rest (hc : 0 < n.c) {v : Nat} (hq : q ∈ n.rest w)
    (hstart : q.start = n.stop) (hval : q.val = v) :
    ∃ r ∈ w, After n.stop v r ∧ r.stop = q.stop := by
  obtain ⟨r, hr, hq⟩ := mem_flatMap.mp hq
  rcases mem_append.mp hq with hq | hq
  · obtain ⟨hlen, -, hmin, -⟩ := Run.mem_below hq (hpos r hr)
    simp only [Run.stop, Range.stop] at *
    omega
  · obtain ⟨hlen, hmax, hstop, hv⟩ := Run.mem_above hq (hpos r hr)
    refine ⟨r, hr, ⟨⟨by omega, ?_⟩, ?_⟩, hstop.symm⟩
    · simp only [Run.stop] at *
      omega
    · rw [← hstart, ← hv, hval]

end Rest

/-! ### The extents after an insertion -/

def rangeOf (logical : UInt32) (phys : UInt64) (count : UInt16) : Range :=
  ⟨logical.toNat, count.toNat, phys.toNat⟩

def held (r : Run) : Run := ⟨r.start, stored r.len, r.val⟩

def Range.InOrder (n : Range) (w : List Run) : Prop :=
  n.Joins w ∨ n.pieces w = 0 ∨ ∃ r ∈ w, r.start < n.l

/-- The parts `m`, at most one, went into the extent that takes the range, which is now between
`u` and `v`. -/
structure Inserted (n : Range) (w u m v : List Run) : Prop where
  rest : n.rest w = u ++ m ++ v
  one : m.length ≤ 1
  joins : m ≠ [] ↔ n.Joins w
  has : ∀ k, (n.taker w).Has k ↔ n.l ≤ k ∧ k < n.stop ∨ ∃ r ∈ m, r.Has k
  apart : ∀ r ∈ u ++ v, r.Apart (n.taker w)
  trunc : ¬n.JoinsBefore w → (n.taker w).start = n.l ∧ (n.taker w).val = n.p % 2 ^ 48
  value : n.p < 2 ^ 48 ∨ n.JoinsBefore w →
    (∀ k, n.l ≤ k → (n.taker w).valueAt k = n.p + (k - n.l)) ∧
      ∀ r ∈ m, ∀ k, r.Has k → r.valueAt k = (n.taker w).valueAt k
  sorted : n.InOrder w → (∀ r ∈ u, r.stop ≤ (n.taker w).start) ∧ ∀ r ∈ v, (n.taker w).stop ≤ r.start
  unsorted : ¬n.InOrder w → ∃ r ∈ u, (n.taker w).stop ≤ r.start

section Insert

variable {u v : List Run} {q : Run}

theorem Inserted.of_before (hw : Ordered w) (hpos : ∀ r ∈ w, 0 < r.len) (hc : 0 < n.c)
    (hrest : n.rest w = u ++ q :: v) (hstop : q.stop = n.l) (hval : q.val + q.len = n.p) :
    Inserted n w u [q] v ∧ n.taker w = ⟨q.start, q.len + n.c, q.val⟩ := by
  have hq : q ∈ n.rest w := by rw [hrest]; simp
  obtain ⟨r, hr, hb, hstart, hv⟩ := Range.before_of_rest hpos hc hq hstop hval
  have htk : n.taker w = ⟨q.start, q.len + n.c, q.val⟩ := by
    rw [Range.taker_of_before hw hr hb]
    congr 1
    simp only [Run.stop] at hstop
    omega
  have hord := Range.ordered_rest (n := n) hpos hw
  rw [hrest] at hord
  obtain ⟨-, hqv, huq⟩ := pairwise_append.mp hord
  have hleft : ∀ x ∈ u, x.stop ≤ q.start := fun x hx => huq x hx q mem_cons_self
  have hright : ∀ x ∈ v, n.stop ≤ x.start := by
    intro x hx
    have hqx := (pairwise_cons.mp hqv).1 x hx
    have hx : x ∈ n.rest w := by rw [hrest]; simp [hx]
    obtain ⟨hlen, hside, -⟩ := Range.mem_rest hpos hx
    simp only [Run.stop] at *
    omega
  have hjoins : n.Joins w := .inl ⟨r, hr, hb⟩
  refine ⟨⟨by simpa using hrest, by simp, by simpa using hjoins, ?_, ?_,
    fun hno => absurd ⟨r, hr, hb⟩ hno, ?_, ?_, ?_⟩, htk⟩
  · simp only [htk, Run.Has, Run.stop, Range.stop, List.mem_singleton, exists_eq_left] at *
    omega
  · intro x hx
    rw [htk]
    rcases mem_append.mp hx with hx | hx
    · exact .inl (hleft x hx)
    · have := hright x hx
      simp only [Run.Apart, Run.stop, Range.stop] at *
      omega
  · rintro -
    refine ⟨fun k hk => ?_, ?_⟩
    · simp only [htk, Run.valueAt, Run.stop] at *
      omega
    · intro x hx k _
      rw [List.mem_singleton.mp hx, htk]
      rfl
  · rintro -
    rw [htk]
    refine ⟨hleft, fun x hx => ?_⟩
    have := hright x hx
    simp only [Run.stop, Range.stop] at *
    omega
  · intro hno
    exact absurd (.inl hjoins) hno

theorem Inserted.of_after (hw : Ordered w) (hpos : ∀ r ∈ w, 0 < r.len) (hc : 0 < n.c)
    (hlt : n.c < 2 ^ 16) (hno : ¬n.JoinsBefore w) (hrest : n.rest w = u ++ q :: v)
    (hstart : q.start = n.stop) (hval : q.val = n.physEnd) :
    Inserted n w u [q] v ∧ n.taker w = ⟨n.l, n.c + q.len, n.p % 2 ^ 48⟩ := by
  have hq : q ∈ n.rest w := by rw [hrest]; simp
  obtain ⟨r, hr, ha, hstop⟩ := Range.after_of_rest hpos hc hq hstart hval
  have htk : n.taker w = ⟨n.l, n.c + q.len, n.p % 2 ^ 48⟩ := by
    rw [Range.taker_of_after hw hno hr ha]
    congr 1
    simp only [Run.stop, Range.stop] at *
    omega
  have hord := Range.ordered_rest (n := n) hpos hw
  rw [hrest] at hord
  obtain ⟨-, hqv, huq⟩ := pairwise_append.mp hord
  have hleft : ∀ x ∈ u, x.stop ≤ n.l := by
    intro x hx
    have hxq := huq x hx q mem_cons_self
    have hx : x ∈ n.rest w := by rw [hrest]; simp [hx]
    obtain ⟨hlen, hside, -⟩ := Range.mem_rest hpos hx
    simp only [Run.stop] at *
    omega
  have hright : ∀ x ∈ v, q.stop ≤ x.start := (pairwise_cons.mp hqv).1
  have hjoins : n.Joins w := .inr ⟨r, hr, ha⟩
  refine ⟨⟨by simpa using hrest, by simp, by simpa using hjoins, ?_, ?_,
    fun _ => by rw [htk]; exact ⟨rfl, rfl⟩, ?_, ?_, ?_⟩, htk⟩
  · simp only [htk, Run.Has, Run.stop, Range.stop, List.mem_singleton, exists_eq_left] at *
    omega
  · intro x hx
    rw [htk]
    rcases mem_append.mp hx with hx | hx
    · exact .inl (hleft x hx)
    · have := hright x hx
      simp only [Run.Apart, Run.stop, Range.stop] at *
      omega
  · intro hp
    have hp : n.p < 2 ^ 48 := hp.resolve_right hno
    refine ⟨fun k hk => ?_, ?_⟩
    · rw [htk, Run.valueAt, Nat.mod_eq_of_lt hp]
    · intro x hx k hk
      rw [List.mem_singleton.mp hx] at hk ⊢
      simp only [htk, Run.valueAt, Run.Has, Range.physEnd, Range.stop] at *
      omega
  · rintro -
    rw [htk]
    refine ⟨hleft, fun x hx => ?_⟩
    have := hright x hx
    simp only [Run.stop, Range.stop] at *
    omega
  · intro hno
    exact absurd (.inl hjoins) hno

theorem Inserted.of_not_joins (hpos : ∀ r ∈ w, 0 < r.len) (hc : 0 < n.c)
    (hno : ¬n.Joins w) (hrest : n.rest w = u ++ v) (hu : ∀ r ∈ u, r.start < n.l)
    (hv : ∀ r ∈ v, n.l ≤ r.start) :
    if u = [] then Inserted n w v [] [] else Inserted n w u [] v := by
  have htk := Range.taker_of_not_joins hno
  have hside : ∀ x ∈ n.rest w, 0 < x.len ∧ (x.stop ≤ n.l ∨ n.stop ≤ x.start) :=
    fun x hx => ⟨(Range.mem_rest hpos hx).1, (Range.mem_rest hpos hx).2.1⟩
  have hleft : ∀ x ∈ u, x.stop ≤ n.l := by
    intro x hx
    obtain ⟨hlen, hside⟩ := hside x (by rw [hrest]; simp [hx])
    have := hu x hx
    simp only [Range.stop] at *
    omega
  have hright : ∀ x ∈ v, n.stop ≤ x.start := by
    intro x hx
    obtain ⟨hlen, hside⟩ := hside x (by rw [hrest]; simp [hx])
    have := hv x hx
    simp only [Run.stop] at *
    omega
  have hhas : ∀ k, (n.taker w).Has k ↔ n.l ≤ k ∧ k < n.stop ∨ ∃ r ∈ ([] : List Run), r.Has k := by
    intro k
    simp [htk, Run.Has, Run.stop, Range.stop]
  have hapart : ∀ r ∈ u ++ v, r.Apart (n.taker w) := by
    intro x hx
    rw [htk]
    rcases mem_append.mp hx with hx | hx
    · exact .inl (hleft x hx)
    · exact .inr (hright x hx)
  have htrunc : ¬n.JoinsBefore w → (n.taker w).start = n.l ∧ (n.taker w).val = n.p % 2 ^ 48 := by
    intro _
    rw [htk]
    exact ⟨rfl, rfl⟩
  have hvalue : n.p < 2 ^ 48 ∨ n.JoinsBefore w →
      (∀ k, n.l ≤ k → (n.taker w).valueAt k = n.p + (k - n.l)) ∧
        ∀ r ∈ ([] : List Run), ∀ k, r.Has k → r.valueAt k = (n.taker w).valueAt k := by
    intro hp
    have hp : n.p < 2 ^ 48 := hp.resolve_right fun h => hno (.inl h)
    refine ⟨fun k _ => ?_, by simp⟩
    rw [htk, Run.valueAt, Nat.mod_eq_of_lt hp]
  have hjoins : ([] : List Run) ≠ [] ↔ n.Joins w := by simpa using hno
  split
  · rename_i hnil
    subst hnil
    refine ⟨by simpa using hrest, by simp, hjoins, hhas, by simpa using hapart, htrunc, hvalue,
      ?_, ?_⟩
    · rintro (hj | hnil | ⟨r, hr, hlt⟩)
      · exact absurd hj hno
      · rw [← Range.length_rest, length_eq_zero_iff, hrest] at hnil
        rw [nil_append] at hnil
        simp [hnil]
      · have hmem := Range.below_mem_rest hr hlt
        rw [hrest] at hmem
        exact absurd (hv _ hmem) (by simpa using hlt)
    · intro hord
      obtain ⟨x, hx⟩ : ∃ x, x ∈ v := by
        refine exists_mem_of_ne_nil v ?_
        rintro rfl
        exact hord (.inr (.inl (by rw [← Range.length_rest, hrest]; rfl)))
      exact ⟨x, hx, by rw [htk]; exact hright x hx⟩
  · rename_i hne
    refine ⟨by simpa using hrest, by simp, hjoins, hhas, hapart, htrunc, hvalue, ?_, ?_⟩
    · rintro -
      rw [htk]
      exact ⟨hleft, hright⟩
    · intro hord
      obtain ⟨x, u, rfl⟩ := exists_cons_of_ne_nil hne
      obtain ⟨-, -, r, hr, hrx, -⟩ := Range.mem_rest hpos (show x ∈ n.rest w by rw [hrest]; simp)
      have := hu x mem_cons_self
      exact absurd (.inr (.inr ⟨r, hr, by omega⟩)) hord

end Insert

section Extents

variable {logical : UInt32} {phys : UInt64} {count : UInt16} {W : List Extent}

variable (logical)

def Continues (phys : UInt64) (e : Extent) : Prop :=
  e.run.stop = logical.toNat ∧ e.run.val + e.run.len = phys.toNat

def Precedes (phys : UInt64) (count : UInt16) (e : Extent) : Prop :=
  (rangeOf logical phys count).stop = e.run.start ∧ phys + count.toUInt64 = e.startBlock

theorem mergeNew_cases (phys : UInt64) (count : UInt16) (W : List Extent) :
    (mergeNew logical phys count W = none ∧
      ∀ e ∈ W, ¬Continues logical phys e ∧ ¬Precedes logical phys count e) ∨
    ∃ U e V, W = U ++ e :: V ∧ (∀ x ∈ U, ¬Continues logical phys x) ∧
      (Continues logical phys e ∧ mergeNew logical phys count W =
          some (U ++ { e with eeLen := .ofNat (e.run.len + count.toNat) } :: V) ∨
        ¬Continues logical phys e ∧ Precedes logical phys count e ∧ mergeNew logical phys count W =
            some (U ++ mkExtent logical (.ofNat (count.toNat + e.run.len)) phys :: V)) := by
  induction W with
  | nil => exact .inl ⟨rfl, by simp⟩
  | cons e W ih =>
    by_cases hcont : Continues logical phys e
    · exact .inr ⟨[], e, W, rfl, by simp, .inl ⟨hcont, if_pos hcont⟩⟩
    by_cases hprec : Precedes logical phys count e
    · exact .inr ⟨[], e, W, rfl, by simp, .inr ⟨hcont, hprec, (if_neg hcont).trans (if_pos hprec)⟩⟩
    have hstep : mergeNew logical phys count (e :: W) =
        (mergeNew logical phys count W).map (e :: ·) := (if_neg hcont).trans (if_neg hprec)
    rw [hstep]
    rcases ih with ⟨hnone, hW⟩ | ⟨U, x, V, rfl, hU, hx⟩
    · exact .inl ⟨by rw [hnone]; rfl, forall_mem_cons.mpr ⟨⟨hcont, hprec⟩, hW⟩⟩
    · refine .inr ⟨e :: U, x, V, rfl, forall_mem_cons.mpr ⟨hcont, hU⟩, ?_⟩
      rcases hx with ⟨hx, hsome⟩ | ⟨hx, hp, hsome⟩
      · exact .inl ⟨hx, by rw [hsome]; rfl⟩
      · exact .inr ⟨hx, hp, by rw [hsome]; rfl⟩

variable {logical}

theorem insertPos_append (U V : List Extent) (hU : ∀ e ∈ U, e.eeBlock < logical)
    (hV : ∀ e ∈ V, logical ≤ e.eeBlock) (j pos : Nat) :
    insertPos logical j pos (U ++ V) = if U = [] then pos else j + U.length := by
  induction U generalizing j pos with
  | nil =>
    rw [nil_append, if_pos rfl]
    induction V generalizing j with
    | nil => rfl
    | cons e V ih =>
      obtain ⟨he, hV⟩ := forall_mem_cons.mp hV
      rw [insertPos, if_neg (UInt32.not_lt.mpr he), ih hV]
  | cons e U ih =>
    obtain ⟨he, hU⟩ := forall_mem_cons.mp hU
    rw [cons_append, insertPos, ih hU, if_neg (cons_ne_nil e U)]
    split
    · rename_i hnil
      rw [hnil]
      rfl
    · rw [length_cons]
      omega

theorem run_withLen {k : Nat} (h : k < 2 ^ 16) (e : Extent) :
    ({ e with eeLen := .ofNat k } : Extent).run = held ⟨e.run.start, k, e.run.val⟩ := by
  rw [Extent.run, Extent.toNat_blockCount, UInt16.toNat_ofNat', Nat.mod_eq_of_lt h]
  rfl

theorem run_new {k : Nat} (h : k < 2 ^ 16) (logical : UInt32) (phys : UInt64) :
    (mkExtent logical (.ofNat k) phys).run = held ⟨logical.toNat, k, phys.toNat % 2 ^ 48⟩ := by
  rw [run_mkExtent, UInt16.toNat_ofNat', Nat.mod_eq_of_lt h]
  rfl

variable (logical phys) in
theorem map_run_splitOverlaps (hleg : ∀ r ∈ W.map Extent.run, Legal r) (hc : 0 < count.toNat) :
    (splitOverlaps logical.toNat (logical.toNat + count.toNat) W.length W).map Extent.run =
      (rangeOf logical phys count).rest (W.map Extent.run) := by
  rw [splitOverlaps_eq, map_flatMap, Range.rest, flatMap_map]
  refine flatMap_congr fun e he => ?_
  exact map_run_parts (hleg _ (mem_map_of_mem he)) (Nat.lt_add_of_pos_right hc)

theorem rest_len_lt {q : Run} (hleg : ∀ r ∈ w, Legal r) (hq : q ∈ n.rest w) : q.len < 2 ^ 15 := by
  obtain ⟨-, -, r, hr, h1, h2⟩ := Range.mem_rest (fun r hr => (hleg r hr).pos) hq
  have := (hleg r hr).len_lt
  simp only [Run.stop] at *
  omega

variable {R : List Extent}

theorem not_joins_of_parts (hrest : R.map Extent.run = (rangeOf logical phys count).rest w)
    (hR : ∀ e ∈ R, ¬Continues logical phys e ∧ ¬Precedes logical phys count e) :
    ¬(rangeOf logical phys count).Joins w := by
  rintro (⟨r, hr, hb⟩ | ⟨r, hr, ha⟩)
  · obtain ⟨q, hq, h1, h2⟩ := Range.rest_of_before hr hb
    rw [← hrest] at hq
    obtain ⟨e, he, rfl⟩ := mem_map.mp hq
    exact (hR e he).1 ⟨h1, h2⟩
  · obtain ⟨q, hq, h1, h2⟩ := Range.rest_of_after hr ha
    rw [← hrest] at hq
    obtain ⟨e, he, rfl⟩ := mem_map.mp hq
    refine (hR e he).2 ⟨h1.symm, ?_⟩
    rw [← UInt64.toNat_inj]
    exact h2.symm

theorem exists_inserted_new (hord : Ordered w) (hpos : ∀ r ∈ w, 0 < r.len)
    (hc : 0 < count.toNat) (hlt : count.toNat < 2 ^ 15)
    (hrest : R.map Extent.run = (rangeOf logical phys count).rest w)
    (hno : ¬(rangeOf logical phys count).Joins w) :
    ∃ u v, Inserted (rangeOf logical phys count) w u [] v ∧
      (R.insertIdx (insertPos logical 0 R.length R)
          (mkExtent logical (count &&& 0x7FFF) phys)).map Extent.run =
        u ++ held ((rangeOf logical phys count).taker w) :: v := by
  obtain ⟨u, v, huv, hu, hv⟩ := (Range.ordered_rest hpos hord).exists_append
    (fun q hq => (Range.mem_rest hpos hq).1) (rangeOf logical phys count).l
  have hins := Inserted.of_not_joins hpos hc hno huv hu hv
  obtain ⟨U, V, rfl, rfl, rfl⟩ : ∃ U V, R = U ++ V ∧ U.map Extent.run = u ∧
      V.map Extent.run = v := map_eq_append_iff.mp (hrest.trans huv)
  have hnew : (mkExtent logical (count &&& 0x7FFF) phys).run =
      held ((rangeOf logical phys count).taker w) := by
    rw [and_low hlt, run_mkExtent, Range.taker_of_not_joins hno]
    rfl
  rw [insertPos_append U V (fun e he => hu _ (mem_map_of_mem he))
    (fun e he => hv _ (mem_map_of_mem he))]
  rcases eq_or_ne U [] with rfl | hne
  · refine ⟨V.map Extent.run, [], hins, ?_⟩
    have hlast := insertIdx_length_append V [] (mkExtent logical (count &&& 0x7FFF) phys)
    rw [append_nil] at hlast
    rw [if_pos rfl, nil_append, hlast, map_append, map_singleton, hnew]
  · rw [if_neg (by simpa using hne)] at hins
    refine ⟨U.map Extent.run, V.map Extent.run, hins, ?_⟩
    rw [if_neg hne, Nat.zero_add, insertIdx_length_append, map_append, map_cons, hnew]

theorem insertNew_cases (hord : Ordered (W.map Extent.run))
    (hleg : ∀ r ∈ W.map Extent.run, Legal r) (hc : 0 < count.toNat) (hlt : count.toNat < 2 ^ 15) :
    let n := rangeOf logical phys count
    let w := W.map Extent.run
    (insertNew logical phys count W = .error .extentTreeFull ∧ ¬n.Joins w ∧ 4 ≤ n.pieces w) ∨
    ∃ W' u m v, insertNew logical phys count W = .ok W' ∧ Inserted n w u m v ∧
      W'.map Extent.run = u ++ held (n.taker w) :: v ∧ (m = [] → n.pieces w < 4) := by
  intro n w
  have hpos : ∀ r ∈ w, 0 < r.len := fun r hr => (hleg r hr).pos
  have hrest := map_run_splitOverlaps logical phys hleg hc
  rw [insertNew]
  generalize splitOverlaps logical.toNat (logical.toNat + count.toNat) W.length W = R at hrest ⊢
  have hlen : ∀ e ∈ R, e.run.len < 2 ^ 15 := by
    intro e he
    refine rest_len_lt hleg (n := n) ?_
    rw [← hrest]
    exact mem_map_of_mem he
  rcases mergeNew_cases logical phys count R with ⟨hnone, hR⟩ | ⟨U, e, V, rfl, hU, he⟩
  · have hno := not_joins_of_parts hrest hR
    have hR4 : R.length = n.pieces w := by rw [← Range.length_rest, ← hrest, length_map]
    simp only [hnone]
    split
    · rename_i hfull
      exact .inl ⟨rfl, hno, hR4 ▸ hfull⟩
    · rename_i hfull
      obtain ⟨u, v, hins, hmap⟩ := exists_inserted_new hord hpos hc hlt hrest hno
      exact .inr ⟨_, u, [], v, rfl, hins, hmap, fun _ => hR4 ▸ Nat.not_le.mp hfull⟩
  · have hsum : e.run.len + count.toNat < 2 ^ 16 := by
      have := hlen e (by simp)
      omega
    rw [map_append] at hrest
    right
    rcases he with ⟨hcont, hsome⟩ | ⟨hcont, hprec, hsome⟩ <;> simp only [hsome]
    · obtain ⟨hins, htk⟩ := Inserted.of_before hord hpos hc hrest.symm hcont.1 hcont.2
      refine ⟨_, _, _, _, rfl, hins, ?_, by simp⟩
      rw [map_append, map_cons, run_withLen hsum, htk]
      rfl
    · have hval : e.run.val = n.physEnd := by
        have := congrArg UInt64.toNat hprec.2
        exact this.symm
      -- the parts after `e` start after the range, so none of them ends where it starts
      have hno : ¬n.JoinsBefore w := by
        rintro ⟨r, hr, hb⟩
        obtain ⟨q, hq, h1, h2⟩ := Range.rest_of_before hr hb
        obtain ⟨hqlen, -⟩ := Range.mem_rest hpos hq
        have hordR := Range.ordered_rest (n := n) hpos hord
        rw [← hrest] at hq hordR
        rcases mem_append.mp hq with hq | hq
        · obtain ⟨x, hx, rfl⟩ := mem_map.mp hq
          exact hU x hx ⟨h1, h2⟩
        · rcases mem_cons.mp hq with rfl | hq
          · exact hcont ⟨h1, h2⟩
          · have hstop := (pairwise_cons.mp (pairwise_append.mp hordR).2.1).1 q hq
            have hstart : n.stop = e.run.start := hprec.1
            simp only [Run.stop, Range.stop] at *
            omega
      obtain ⟨hins, htk⟩ := Inserted.of_after hord hpos hc (by show count.toNat < _; omega)
        hno hrest.symm hprec.1.symm hval
      refine ⟨_, _, _, _, rfl, hins, ?_, by simp⟩
      rw [map_append, map_cons, run_new (by omega), htk]
      rfl

end Extents

end Gergios.Ext4
