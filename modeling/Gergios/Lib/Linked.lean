import Mathlib.Data.Fintype.Card

/-!
# Lists threaded through their own nodes

The successor of a node is stored in the node, so a list is nothing but a head and a
successor function. `Linked` reads such a list off; every edit below is stated as an
effect on the list that was read, whatever the rest of the node contains.
-/

namespace Gergios.Lib

open Function List Nat

universe u

variable {α : Type u} {next next' : α → Option α}

/-- Following `next` from `h` visits exactly the nodes of the list, then stops. -/
def Linked (next : α → Option α) : Option α → List α → Prop
  | h, [] => h = none
  | h, a :: l => h = some a ∧ Linked next (next a) l

variable {h prev : Option α} {l l' pre post : List α} {a y x : α} {p : α → Bool} {n : Nat}

@[simp]
theorem linked_nil : Linked next h [] ↔ h = none := Iff.rfl

section

variable (hl : Linked next h l)

include hl

theorem Linked.head?_eq : l.head? = h := by
  cases l with
  | nil => exact hl.symm
  | cons a l => exact hl.1.symm

theorem Linked.unique (hl' : Linked next h l') : l = l' := by
  induction l generalizing h l' with
  | nil =>
    cases l' with
    | nil => rfl
    | cons b l' => exact absurd (hl.symm.trans hl'.1) (by simp)
  | cons a l ih =>
    cases l' with
    | nil => exact absurd (hl'.symm.trans hl.1) (by simp)
    | cons b l' =>
      obtain rfl : a = b := Option.some.inj (hl.1.symm.trans hl'.1)
      rw [ih hl.2 hl'.2]

omit hl in
theorem Linked.tail (hl : Linked next h (pre ++ a :: post)) : Linked next (some a) (a :: post) := by
  induction pre generalizing h with
  | nil => exact ⟨rfl, hl.2⟩
  | cons b pre ih => exact ih hl.2

theorem Linked.nodup : l.Nodup := by
  induction l generalizing h with
  | nil => exact nodup_nil
  | cons a l ih =>
    refine nodup_cons.mpr ⟨fun ha => ?_, ih hl.2⟩
    obtain ⟨pre, post, rfl⟩ := append_of_mem ha
    have hself : Linked next (some a) (a :: (pre ++ a :: post)) := ⟨rfl, hl.2⟩
    have hlen := congrArg length (hself.unique hl.2.tail)
    simp at hlen
    omega

theorem Linked.length_le [Fintype α] : l.length ≤ Fintype.card α := hl.nodup.length_le_card

end

theorem Linked.append_congr (hl : Linked next h (pre ++ l)) (hpre : ∀ z ∈ pre, next' z = next z)
    (htail : ∀ {h}, Linked next h l → Linked next' h l') : Linked next' h (pre ++ l') := by
  induction pre generalizing h with
  | nil => exact htail hl
  | cons a pre ih =>
    refine ⟨hl.1, ?_⟩
    rw [hpre a mem_cons_self]
    exact ih hl.2 fun z hz => hpre z (mem_cons_of_mem a hz)

theorem Linked.congr (hl : Linked next h l) (heq : ∀ x ∈ l, next' x = next x) :
    Linked next' h l := by
  rw [← append_nil l] at hl ⊢
  exact hl.append_congr heq id

theorem Linked.next_eq_none_iff
    (hl : Linked next h (pre ++ a :: post)) : next a = none ↔ post = [] := by
  have ht := hl.tail.2
  cases post with
  | nil => exact ⟨fun _ => rfl, fun _ => ht⟩
  | cons b post => rw [ht.1]; simp

theorem Linked.next_eq_head? (hl : Linked next h (pre ++ a :: post)) : next a = post.head? :=
  hl.tail.2.head?_eq.symm

theorem Linked.insert (hl : Linked next h (pre ++ y :: post)) (hpre : ∀ z ∈ pre, next' z = next z)
    (hy : next' y = some x) (hx : next' x = next y) (hpost : ∀ z ∈ post, next' z = next z) :
    Linked next' h (pre ++ y :: x :: post) := by
  refine hl.append_congr hpre fun hl => ⟨hl.1, hy, ?_⟩
  rw [hx]
  exact hl.2.congr hpost

theorem Linked.bypass
    (hl : Linked next h (pre ++ y :: x :: post)) (hpre : ∀ z ∈ pre, next' z = next z)
    (hy : next' y = next x) (hpost : ∀ z ∈ post, next' z = next z) :
    Linked next' h (pre ++ y :: post) := by
  refine hl.append_congr hpre fun hl => ⟨hl.1, ?_⟩
  rw [hy]
  exact hl.2.2.congr hpost

/-! ## Writing a cell: the head of a list, or the link of the node in front of a place -/

/-- The head after writing `v` to the cell in front of which `prev` stands. -/
def cellHead (h prev v : Option α) : Option α :=
  match prev with
  | none => v
  | some _ => h

def cellNext [DecidableEq α] (next : α → Option α) (prev v : Option α) : α → Option α :=
  match prev with
  | none => next
  | some y => update next y v

section Cell

variable [DecidableEq α]

theorem cellNext_of_ne (hx : prev ≠ some x) (v : Option α) : cellNext next prev v x = next x := by
  cases prev with
  | none => rfl
  | some y =>
    have hne : x ≠ y := fun h => hx (congrArg some h.symm)
    exact update_of_ne hne v next

theorem Linked.unlinkCell (hl : Linked next h (pre ++ x :: post)) :
    Linked (cellNext next pre.getLast? (next x)) (cellHead h pre.getLast? (next x))
      (pre ++ post) := by
  cases pre using reverseRecOn with
  | nil => exact hl.2
  | append_singleton pre y =>
    simp only [getLast?_concat]
    rw [append_assoc] at hl ⊢
    have hnd := hl.nodup
    simp only [singleton_append, nodup_append, nodup_cons, mem_cons] at hnd
    refine hl.bypass (fun z hz => ?_) (update_self ..) (fun z hz => ?_)
    · exact update_of_ne (hnd.2.2 z hz y (.inl rfl)) _ _
    · have hzy : z ≠ y := fun h => hnd.2.1.1 (.inr (h ▸ hz))
      exact update_of_ne hzy _ _

theorem Linked.insertCell
    (hl : Linked next h (pre ++ post)) (hx : x ∉ pre ++ post) (hnext : next' x = post.head?)
    (hrest : ∀ z ∈ pre ++ post, next' z = next z) :
    Linked (cellNext next' pre.getLast? (some x)) (cellHead h pre.getLast? (some x))
      (pre ++ x :: post) := by
  cases pre using reverseRecOn with
  | nil =>
    rw [nil_append] at hl hrest
    refine ⟨rfl, ?_⟩
    rw [getLast?_nil, cellNext, hnext, hl.head?_eq]
    exact hl.congr hrest
  | append_singleton pre y =>
    simp only [getLast?_concat, cellNext]
    simp only [append_assoc, singleton_append] at hl hx hrest ⊢
    have hnd := hl.nodup
    simp only [nodup_append, nodup_cons, mem_cons] at hnd
    have hne : ∀ z ∈ pre ++ post, z ≠ y := by
      rintro z hz rfl
      rcases mem_append.mp hz with hz | hz
      · exact hnd.2.2 z hz z (.inl rfl) rfl
      · exact hnd.2.1.1 hz
    have hkeep : ∀ z ∈ pre ++ post, update next' y (some x) z = next z := by
      intro z hz
      rw [update_of_ne (hne z hz)]
      refine hrest z ?_
      rcases mem_append.mp hz with hz | hz <;> simp [hz]
    refine hl.insert (fun z hz => hkeep z (mem_append_left _ hz)) (update_self ..) ?_
      fun z hz => hkeep z (mem_append_right _ hz)
    have hxy : x ≠ y := by
      rintro rfl
      exact hx (by simp)
    rw [update_of_ne hxy, hnext, hl.next_eq_head?]

end Cell

/-! ## Walking a list with a pointer to the cell that was followed -/

/-- A walk that keeps the node before the current one and stops at the first node that
passes the test. The outer `none` is a walk that did not end within its fuel. -/
def walk (next : α → Option α) (p : α → Bool) :
    Nat → Option α → Option α → Option (Option (Option α × α))
  | 0, _, _ => none
  | _ + 1, _, none => some none
  | n + 1, prev, some a => if p a then some (some (prev, a)) else walk next p n (some a) (next a)

/-- What `walk` finds, in terms of the list it walks along. -/
def locate (p : α → Bool) : Option α → List α → Option (Option α × α)
  | _, [] => none
  | prev, a :: l => if p a then some (prev, a) else locate p (some a) l

theorem Linked.walk_eq
    (hl : Linked next h l) (hn : l.length < n) : walk next p n prev h = some (locate p prev l) := by
  induction l generalizing h prev n with
  | nil =>
    obtain ⟨m, rfl⟩ := Nat.exists_eq_add_of_lt hn
    rw [linked_nil.mp hl]
    rfl
  | cons a l ih =>
    obtain ⟨m, rfl⟩ := Nat.exists_eq_add_of_lt hn
    rw [hl.1, walk, locate]
    split
    · rfl
    · exact ih hl.2 (lt_of_succ_lt_succ hn)

theorem locate_eq_none_iff : locate p prev l = none ↔ ∀ x ∈ l, p x = false := by
  induction l generalizing prev with
  | nil => simp [locate]
  | cons a l ih => by_cases ha : p a <;> simp [locate, ha, ih]

theorem locate_eq_some {pr : Option α} (h : locate p prev l = some (pr, a)) :
    ∃ pre post, l = pre ++ a :: post ∧ pr = pre.getLast?.or prev := by
  induction l generalizing prev with
  | nil => cases h
  | cons b l ih =>
    rw [locate] at h
    split at h
    · cases h
      exact ⟨[], l, rfl, rfl⟩
    obtain ⟨pre, post, rfl, rfl⟩ := ih h
    refine ⟨b :: pre, post, rfl, ?_⟩
    cases pre using reverseRecOn <;> simp [getLast?_cons]

theorem locate_beq [BEq α] [LawfulBEq α]
    (h : x ∉ pre) : locate (· == x) prev (pre ++ x :: post) = some (pre.getLast?.or prev, x) := by
  induction pre generalizing prev with
  | nil => simp [locate]
  | cons a pre ih =>
    obtain ⟨hax, hpre⟩ : ¬x = a ∧ x ∉ pre := by simpa using h
    have ha : (a == x) = false := beq_eq_false_iff_ne.mpr (Ne.symm hax)
    rw [cons_append, locate, ha, ih hpre]
    cases pre using reverseRecOn <;> simp [getLast?_cons]

def lastCell (next : α → Option α) : Nat → Option α → Option α → Option (Option α)
  | 0, _, _ => none
  | _ + 1, prev, none => some prev
  | n + 1, _, some a => lastCell next n (some a) (next a)

theorem Linked.lastCell_eq (hl : Linked next h l)
    (hn : l.length < n) : lastCell next n prev h = some (l.getLast?.or prev) := by
  induction l generalizing h prev n with
  | nil =>
    obtain ⟨m, rfl⟩ := Nat.exists_eq_add_of_lt hn
    rw [linked_nil.mp hl]
    rfl
  | cons a l ih =>
    obtain ⟨m, rfl⟩ := Nat.exists_eq_add_of_lt hn
    rw [hl.1, lastCell, ih hl.2 (lt_of_succ_lt_succ hn)]
    cases l using reverseRecOn <;> simp [getLast?_cons]

/-- The walk to the first node that passes the test, or to the end: the node before the cell where
it stops, and what the cell holds. -/
def seek (next : α → Option α) (p : α → Bool) :
    Nat → Option α → Option α → Option (Option α × Option α)
  | 0, _, _ => none
  | _ + 1, prev, none => some (prev, none)
  | n + 1, prev, some a => if p a then some (prev, some a) else seek next p n (some a) (next a)

theorem Linked.seek_eq (hl : Linked next h l)
    (p : α → Bool) (prev : Option α) (hn : l.length < n) : seek next p n prev h =
      some ((l.takeWhile (!p ·)).getLast?.or prev, (l.dropWhile (!p ·)).head?) := by
  induction l generalizing h prev n with
  | nil =>
    obtain ⟨m, rfl⟩ := Nat.exists_eq_add_of_lt hn
    rw [linked_nil.mp hl]
    rfl
  | cons a l ih =>
    obtain ⟨m, rfl⟩ := Nat.exists_eq_add_of_lt hn
    rw [hl.1, seek]
    cases ha : p a with
    | true => simp [ha]
    | false =>
      rw [ih hl.2 _ (lt_of_succ_lt_succ hn)]
      simp only [takeWhile_cons, dropWhile_cons, ha]
      generalize l.takeWhile (!p ·) = l'
      cases l' using reverseRecOn <;> simp [getLast?_cons]

end Gergios.Lib
