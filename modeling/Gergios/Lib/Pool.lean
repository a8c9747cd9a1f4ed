import Gergios.Lib.Bitmap

/-!
# Pools of numbered items

The items are divided into groups. A group has a bitmap with a bit for each of its items, set when
the item is in use, and a count of those that are free.
-/

namespace Gergios.Lib

structure Numbering where
  groups : Nat
  size : Nat → Nat
  num : Nat → Nat → Nat
  inj : ∀ g h i j, i < size g → j < size h → num g i = num h j → g = h ∧ i = j

theorem mul_add_inj {m g h i j : Nat} (hi : i < m) (hj : j < m) (heq : g * m + i = h * m + j) :
    g = h ∧ i = j := by
  have hg : (i + m * g) / m = g := by
    rw [Nat.add_mul_div_left _ _ (by omega), Nat.div_eq_of_lt hi, Nat.zero_add]
  have hh : (j + m * h) / m = h := by
    rw [Nat.add_mul_div_left _ _ (by omega), Nat.div_eq_of_lt hj, Nat.zero_add]
  have hsum : i + m * g = j + m * h := by
    rw [Nat.mul_comm m g, Nat.mul_comm m h]
    omega
  have hgh : g = h := by rw [← hg, hsum, hh]
  subst hgh
  exact ⟨rfl, by omega⟩

structure Pool where
  bits : Nat → List UInt8
  free : Nat → Nat

namespace Pool

def set (p : Pool) (g : Nat) (b : List UInt8) (c : Nat) : Pool :=
  ⟨Function.update p.bits g b, Function.update p.free g c⟩

/-- The items in `A` are in use, and the counts are those of the others. -/
structure Ok (N : Numbering) (p : Pool) (A : Finset Nat) : Prop where
  room : ∀ g < N.groups, N.size g ≤ 8 * (p.bits g).length
  counts : ∀ g < N.groups, p.free g = (clearBits (p.bits g) (N.size g)).card
  used : ∀ g < N.groups, ∀ i < N.size g, N.num g i ∈ A ↔ bitAt (p.bits g) i = true
  within : ∀ a ∈ A, ∃ g < N.groups, ∃ i < N.size g, N.num g i = a

end Pool

/-- The items `i` to `i + c` of a group. -/
def Numbering.span (N : Numbering) (g i c : Nat) : Finset Nat :=
  (Finset.Ico i (i + c)).image (N.num g)

variable {N : Numbering} {p : Pool} {A : Finset Nat} {g i c : Nat}

theorem Numbering.mem_span {a : Nat} :
    a ∈ N.span g i c ↔ ∃ j, i ≤ j ∧ j < i + c ∧ N.num g j = a := by
  simp only [span, Finset.mem_image, Finset.mem_Ico, and_assoc]

theorem Numbering.num_mem_span {k j : Nat} (hj : j < N.size k) (hc : i + c ≤ N.size g) :
    N.num k j ∈ N.span g i c ↔ k = g ∧ i ≤ j ∧ j < i + c := by
  rw [mem_span]
  constructor
  · rintro ⟨m, h1, h2, heq⟩
    obtain ⟨rfl, rfl⟩ := N.inj g k m j (by omega) hj heq
    exact ⟨rfl, h1, h2⟩
  · rintro ⟨rfl, h1, h2⟩
    exact ⟨j, h1, h2, rfl⟩

theorem Numbering.span_one (N : Numbering) (g i : Nat) : N.span g i 1 = {N.num g i} := by
  rw [span, Nat.Ico_succ_singleton, Finset.image_singleton]

namespace Pool

theorem Ok.blank (m : Nat) (hroom : ∀ g < N.groups, N.size g ≤ 8 * m) :
    Ok N ⟨fun _ => List.replicate m 0, N.size⟩ ∅ := by
  refine ⟨?_, ?_, ?_, ?_⟩
  · intro g hg
    rw [List.length_replicate]
    exact hroom g hg
  · intro g hg
    exact (card_clearBits_replicate_zero m (N.size g)).symm
  · intro g hg i hi
    rw [bitAt_replicate_zero]
    simp
  · simp

theorem Ok.congr {q : Pool} (h : Ok N p A) (hbits : ∀ g < N.groups, q.bits g = p.bits g)
    (hfree : ∀ g < N.groups, q.free g = p.free g) : Ok N q A := by
  refine ⟨?_, ?_, ?_, h.within⟩
  · intro g hg
    rw [hbits g hg]
    exact h.room g hg
  · intro g hg
    rw [hbits g hg, hfree g hg]
    exact h.counts g hg
  · intro g hg
    rw [hbits g hg]
    exact h.used g hg

theorem bits_set (b : List UInt8) (k : Nat) :
    (p.set g b c).bits k = if k = g then b else p.bits k := Function.update_apply ..

theorem free_set (b : List UInt8) (k : Nat) :
    (p.set g b c).free k = if k = g then c else p.free k := Function.update_apply ..

theorem Ok.set {B : Finset Nat} {b : List UInt8} (h : Ok N p A) (hg : g < N.groups)
    (hlen : b.length = (p.bits g).length) (hcount : c = (clearBits b (N.size g)).card)
    (hsame : ∀ k < N.groups, k ≠ g → ∀ j < N.size k, N.num k j ∈ B ↔ N.num k j ∈ A)
    (hused : ∀ j < N.size g, N.num g j ∈ B ↔ bitAt b j = true)
    (hwithin : ∀ a ∈ B, ∃ g < N.groups, ∃ i < N.size g, N.num g i = a) : Ok N (p.set g b c) B := by
  refine ⟨?_, ?_, ?_, hwithin⟩
  · intro k hk
    rw [bits_set]
    split
    · rename_i heq
      rw [hlen, heq]
      exact h.room g hg
    · exact h.room k hk
  · intro k hk
    rw [bits_set, free_set]
    split
    · rename_i heq
      rw [hcount, heq]
    · exact h.counts k hk
  · intro k hk j hj
    rw [bits_set]
    split
    · rename_i heq
      subst heq
      exact hused j hj
    · rename_i hne
      rw [hsame k hk hne j hj]
      exact h.used k hk j hj

variable (h : Ok N p A) (hg : g < N.groups) (hc : i + c ≤ N.size g)
include h hg hc

theorem Ok.take (hclear : ∀ j, i ≤ j → j < i + c → bitAt (p.bits g) j = false) :
    c ≤ p.free g ∧ Disjoint A (N.span g i c) ∧
      Ok N (p.set g (putBits (p.bits g) i c) (p.free g - c)) (A ∪ N.span g i c) := by
  have hroom := h.room g hg
  have hcard := card_clearBits_putBits (by omega) hc hclear
  rw [← h.counts g hg] at hcard
  refine ⟨by omega, ?_, h.set hg length_putBits (by omega) ?_ ?_ ?_⟩
  · rw [Finset.disjoint_left]
    intro a ha hspan
    obtain ⟨j, h1, h2, rfl⟩ := Numbering.mem_span.mp hspan
    rw [h.used g hg j (by omega), hclear j h1 h2] at ha
    exact nomatch ha
  · intro k hk hne j hj
    rw [Finset.mem_union, Numbering.num_mem_span hj hc]
    simp [hne]
  · intro j hj
    rw [Finset.mem_union, Numbering.num_mem_span hj hc, h.used g hg j hj, bitAt_putBits (by omega)]
    simp
  · intro a ha
    rcases Finset.mem_union.mp ha with ha | ha
    · exact h.within a ha
    · obtain ⟨j, h1, h2, rfl⟩ := Numbering.mem_span.mp ha
      exact ⟨g, hg, j, by omega, rfl⟩

theorem Ok.give (hA : N.span g i c ⊆ A) :
    Ok N (p.set g (dropBits (p.bits g) i c) (p.free g + c)) (A \ N.span g i c) := by
  have hroom := h.room g hg
  have hset : ∀ j, i ≤ j → j < i + c → bitAt (p.bits g) j = true := by
    intro j h1 h2
    rw [← h.used g hg j (by omega)]
    exact hA (Numbering.mem_span.mpr ⟨j, h1, h2, rfl⟩)
  have hcard := card_clearBits_dropBits (by omega) hc hset
  rw [← h.counts g hg] at hcard
  refine h.set hg length_dropBits hcard.symm ?_ ?_ ?_
  · intro k hk hne j hj
    rw [Finset.mem_sdiff, Numbering.num_mem_span hj hc]
    simp [hne]
  · intro j hj
    rw [Finset.mem_sdiff, Numbering.num_mem_span hj hc, h.used g hg j hj, bitAt_dropBits (by omega)]
    simp only [true_and, Bool.and_eq_true, Bool.not_eq_true', decide_eq_false_iff_not]
  · intro a ha
    exact h.within a (Finset.mem_sdiff.mp ha).1

end Pool

/-! ### Bits that stand for nothing -/

def Pool.Padded (N : Numbering) (p : Pool) : Prop :=
  ∀ g < N.groups, ∀ i, N.size g ≤ i → i < 8 * (p.bits g).length → bitAt (p.bits g) i = true

namespace Pool

theorem Padded.congr {q : Pool} (h : Padded N p) (hbits : ∀ g < N.groups, q.bits g = p.bits g) :
    Padded N q := by
  intro g hg
  rw [hbits g hg]
  exact h g hg

theorem Padded.set {b : List UInt8} (h : Padded N p) (hlen : b.length = (p.bits g).length)
    (hb : ∀ i, N.size g ≤ i → bitAt (p.bits g) i = true → bitAt b i = true) :
    Padded N (p.set g b c) := by
  intro k hk i hi
  rw [bits_set]
  split
  · rename_i heq
    subst heq
    intro hlt
    exact hb i hi (h k hk i hi (hlen ▸ hlt))
  · exact h k hk i hi

theorem Padded.lt_size (h : Padded N p) (hg : g < N.groups) (hi : i < 8 * (p.bits g).length)
    (hclear : bitAt (p.bits g) i = false) : i < N.size g := by
  rw [← Nat.not_le]
  intro hle
  rw [h g hg i hle hi] at hclear
  exact nomatch hclear

end Pool

end Gergios.Lib
