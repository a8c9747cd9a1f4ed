import Mathlib.Data.Set.Insert

/-!
# Places that own numbered resources

Each place holds a number, 0 if it holds none. A number that is held is in use, and no other place
holds it. The loose numbers are in use too, and no place holds them.
-/

namespace Gergios.Lib

open Function

structure Owned {P : Type} (m : P → Nat) (used : Nat → Prop) (loose : Set Nat) : Prop where
  zero : ¬used 0
  held : ∀ {p}, m p ≠ 0 → used (m p)
  once : ∀ {p q}, m p ≠ 0 → m p = m q → p = q
  kept : ∀ {z}, z ∈ loose → used z
  apart : ∀ {z p}, z ∈ loose → m p ≠ z

/-- Some places have been emptied, and the numbers in use are those before without the ones that
were held there. -/
structure Shrunk {P : Type} (m m' : P → Nat) (used used' : Nat → Prop) : Prop where
  place : ∀ p, m' p = m p ∨ m' p = 0
  used : ∀ z, used' z ↔ used z ∧ ∀ p, m p = z → m' p = z

variable {P : Type} {m m' m'' : P → Nat} {used used' used'' : Nat → Prop} {loose : Set Nat}
  {p q : P} {z : Nat}

namespace Owned

section

variable (h : Owned m used loose)

include h

theorem alloc (hz : ¬used z) (h0 : z ≠ 0) (hused : ∀ w, used' w ↔ used w ∨ w = z) :
    Owned m used' (insert z loose) where
  zero h' := ((hused 0).mp h').elim h.zero fun heq => h0 heq.symm
  held hp := (hused _).mpr (.inl (h.held hp))
  once := h.once
  kept := by
    rintro w (rfl | hw)
    · exact (hused _).mpr (.inr rfl)
    · exact (hused _).mpr (.inl (h.kept hw))
  apart := by
    rintro w p (rfl | hw)
    · rintro rfl
      exact hz (h.held h0)
    · exact h.apart hw

theorem free (hz : z ∈ loose) (hused : ∀ w, used' w ↔ used w ∧ w ≠ z) :
    Owned m used' (loose \ {z}) where
  zero h' := h.zero ((hused 0).mp h').1
  held hp := (hused _).mpr ⟨h.held hp, h.apart hz⟩
  once := h.once
  kept hw := (hused _).mpr ⟨h.kept hw.1, hw.2⟩
  apart hw := h.apart hw.1

variable [DecidableEq P]

theorem attach (hp : m p = 0) (hz : z ∈ loose) : Owned (update m p z) used (loose \ {z}) := by
  have hother : ∀ {q}, q ≠ p → update m p z q = m q := fun hq => update_of_ne hq _ _
  refine ⟨h.zero, fun {q} hq => ?_, fun {q r} hq heq => ?_, fun hw => h.kept hw.1,
    fun {w q} hw => ?_⟩
  · rcases eq_or_ne q p with rfl | hne
    · rw [update_self]
      exact h.kept hz
    · rw [hother hne] at hq ⊢
      exact h.held hq
  · rcases eq_or_ne q p with rfl | hne
    · rcases eq_or_ne r q with rfl | hr
      · rfl
      · rw [update_self, hother hr] at heq
        exact absurd heq.symm (h.apart hz)
    · rw [hother hne] at hq heq
      rcases eq_or_ne r p with rfl | hr
      · rw [update_self] at heq
        exact absurd heq (h.apart hz)
      · rw [hother hr] at heq
        exact h.once hq heq
  · rcases eq_or_ne q p with rfl | hne
    · rw [update_self]
      exact fun heq => hw.2 heq.symm
    · rw [hother hne]
      exact h.apart hw.1

theorem drop (hp : m p ≠ 0) (hused : ∀ w, used' w ↔ used w ∧ w ≠ m p) :
    Owned (update m p 0) used' loose := by
  have hother : ∀ {q}, update m p 0 q ≠ 0 → q ≠ p ∧ update m p 0 q = m q := by
    intro q hq
    rcases eq_or_ne q p with rfl | hne
    · exact absurd (update_self _ _ _) hq
    · exact ⟨hne, update_of_ne hne _ _⟩
  refine ⟨fun h' => h.zero ((hused 0).mp h').1, fun {q} hq => ?_, fun {q r} hq heq => ?_,
    fun hw => ?_, fun {w q} hw heq => ?_⟩
  · obtain ⟨hne, hmq⟩ := hother hq
    rw [hmq] at hq ⊢
    exact (hused _).mpr ⟨h.held hq, fun heq => hne (h.once hq heq)⟩
  · obtain ⟨-, hmq⟩ := hother hq
    obtain ⟨-, hmr⟩ := hother (heq ▸ hq)
    rw [hmq] at hq
    rw [hmq, hmr] at heq
    exact h.once hq heq
  · exact (hused _).mpr ⟨h.kept hw, fun heq => h.apart hw heq.symm⟩
  · have hw0 : w ≠ 0 := fun h0 => h.zero (h0 ▸ h.kept hw)
    obtain ⟨-, hmq⟩ := hother (heq ▸ hw0)
    exact h.apart hw (hmq.symm.trans heq)

end

end Owned

namespace Shrunk

theorem refl : Shrunk m m used used := ⟨fun _ => .inl rfl, fun _ => by simp⟩

theorem trans (h : Shrunk m m' used used') (h' : Shrunk m' m'' used' used'') :
    Shrunk m m'' used used'' := by
  refine ⟨fun p => ?_, fun w => ?_⟩
  · rcases h'.place p with heq | h0
    · rw [heq]
      exact h.place p
    · exact .inr h0
  · rw [h'.used, h.used, and_assoc]
    refine and_congr_right fun _ => ?_
    constructor
    · rintro ⟨hkeep, hkeep'⟩ p hp
      exact hkeep' p (hkeep p hp)
    · intro hkeep
      refine ⟨fun p hp => ?_, fun p hp => ?_⟩
      · rcases h.place p with heq | h0
        · exact heq.trans hp
        · have h0' : m'' p = 0 := (h'.place p).elim (fun heq => heq.trans h0) id
          rw [h0, ← h0', hkeep p hp]
      · rcases h.place p with heq | h0
        · exact hkeep p (heq.symm.trans hp)
        · have h0' : m'' p = 0 := (h'.place p).elim (fun heq => heq.trans h0) id
          rw [h0', ← h0, hp]

theorem drop [DecidableEq P] (hp : m p ≠ 0) (hused : ∀ w, used' w ↔ used w ∧ w ≠ m p) :
    Shrunk m (update m p 0) used used' := by
  refine ⟨fun q => ?_, fun w => ?_⟩
  · rcases eq_or_ne q p with rfl | hne
    · exact .inr (update_self _ _ _)
    · exact .inl (update_of_ne hne _ _)
  · rw [hused w]
    refine and_congr_right fun hw => ?_
    constructor
    · rintro hne q rfl
      exact update_of_ne (fun hqp => hne (by rw [hqp])) _ _
    · rintro hkeep rfl
      exact hp ((hkeep p rfl).symm.trans (update_self _ _ _))

end Shrunk

end Gergios.Lib
