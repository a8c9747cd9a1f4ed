import Gergios.Lib.Linked

/-!
# Chains that come to an end

A partial function is followed from one node to the next. If every chain ends then there is
no cycle. Edges may be taken away, and an edge may be added between nodes that the chain of
its target does not connect.
-/

namespace Gergios.Lib

universe u

variable {α : Type u} {next next' : α → Option α}

variable (next)

def Ends : Prop := ∀ a, ∃ l, Linked next (some a) l

abbrev Edge (x y : α) : Prop := next x = some y

variable {next} {a b : α} {l : List α}

theorem Linked.mem_iff_reaches (hl : Linked next (some a) l) :
    b ∈ l ↔ Relation.ReflTransGen (Edge next) a b := by
  induction l generalizing a with
  | nil => cases hl
  | cons c l ih =>
    obtain ⟨hc, hl⟩ := hl
    obtain rfl := Option.some.inj hc
    rw [List.mem_cons]
    constructor
    · rintro (rfl | hb)
      · exact .refl
      · cases hnext : next a with
        | none =>
          rw [hnext] at hl
          obtain rfl := hl.unique (linked_nil.mpr rfl)
          cases hb
        | some d =>
          rw [hnext] at hl
          exact .head hnext ((ih hl).mp hb)
    · intro h
      rcases Relation.ReflTransGen.cases_head h with rfl | ⟨d, hd, hdb⟩
      · exact .inl rfl
      · refine .inr ((ih ?_).mpr hdb)
        rwa [← hd]

theorem Linked.mem_tail_iff_reaches (hl : Linked next (some a) (a :: l)) :
    b ∈ l ↔ Relation.TransGen (Edge next) a b := by
  rw [Relation.TransGen.head'_iff]
  constructor
  · intro hb
    cases hnext : next a with
    | none =>
      have hnil := hl.2
      rw [hnext] at hnil
      obtain rfl := hnil.unique (linked_nil.mpr rfl)
      cases hb
    | some d =>
      have htail := hl.2
      rw [hnext] at htail
      exact ⟨d, hnext, htail.mem_iff_reaches.mp hb⟩
  · rintro ⟨d, hd, hdb⟩
    have htail := hl.2
    rw [show next a = some d from hd] at htail
    exact htail.mem_iff_reaches.mpr hdb

theorem Linked.head_eq (hl : Linked next (some a) l) : ∃ l', l = a :: l' := by
  cases l with
  | nil => cases hl
  | cons b l =>
    obtain rfl := Option.some.inj hl.1
    exact ⟨l, rfl⟩

theorem Linked.not_cycle (hl : Linked next (some a) l) : ¬Relation.TransGen (Edge next) a a := by
  intro hcycle
  obtain ⟨l', rfl⟩ := hl.head_eq
  have hnd := hl.nodup
  exact (List.nodup_cons.mp hnd).1 (hl.mem_tail_iff_reaches.mpr hcycle)

namespace Ends

theorem not_cycle (h : Ends next) (a : α) : ¬Relation.TransGen (Edge next) a a := by
  obtain ⟨l, hl⟩ := h a
  exact hl.not_cycle

theorem mono (h : Ends next) (hsub : ∀ a, next' a = next a ∨ next' a = none) : Ends next' := by
  intro a
  obtain ⟨l, hl⟩ := h a
  induction l generalizing a with
  | nil => cases hl
  | cons b l ih =>
    obtain ⟨hb, hl⟩ := hl
    obtain rfl := Option.some.inj hb
    rcases hsub a with heq | hnone
    · cases hnext : next a with
      | none => exact ⟨[a], rfl, heq.trans hnext⟩
      | some c =>
        rw [hnext] at hl
        obtain ⟨l', hl'⟩ := ih c hl
        exact ⟨a :: l', rfl, by rwa [heq, hnext]⟩
    · exact ⟨[a], rfl, hnone⟩

theorem insert (h : Ends next) (hl : Linked next (some b) l) (ha : a ∉ l)
    (hother : ∀ x, x ≠ a → next' x = next x) (hnew : next' a = some b) : Ends next' := by
  have hl' : Linked next' (some b) l := hl.congr fun x hx => hother x fun hxa => ha (hxa ▸ hx)
  intro x
  obtain ⟨k, hk⟩ := h x
  induction k generalizing x with
  | nil => cases hk
  | cons y k ih =>
    obtain ⟨hy, hk⟩ := hk
    obtain rfl := Option.some.inj hy
    by_cases hxa : x = a
    · exact ⟨x :: l, rfl, by rwa [hxa, hnew]⟩
    · cases hnext : next x with
      | none => exact ⟨[x], rfl, (hother x hxa).trans hnext⟩
      | some c =>
        rw [hnext] at hk
        obtain ⟨k', hk'⟩ := ih c hk
        exact ⟨x :: k', rfl, by rwa [hother x hxa, hnext]⟩

end Ends

end Gergios.Lib
