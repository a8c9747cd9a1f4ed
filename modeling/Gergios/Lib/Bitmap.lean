import Mathlib.Data.Nat.Bitwise
import Mathlib.Order.Interval.Finset.Nat

/-!
# Bitmaps held as bytes

Bit `i` is bit `i % 8` of byte `i / 8`. Setting and clearing are stated by their effect on every
bit and on the set of bits that are clear.
-/

namespace Gergios.Lib

open List Nat

def byteBit (i : Nat) : UInt8 := 1 <<< UInt8.ofNat (i % 8)

def bitAt (b : List UInt8) (i : Nat) : Bool :=
  decide (i / 8 < b.length) && (b.getD (i / 8) 0 &&& byteBit i) != 0

def putBit (b : List UInt8) (i : Nat) : List UInt8 :=
  if i / 8 < b.length then b.set (i / 8) (b.getD (i / 8) 0 ||| byteBit i) else b

def dropBit (b : List UInt8) (i : Nat) : List UInt8 :=
  if i / 8 < b.length then b.set (i / 8) (b.getD (i / 8) 0 &&& ~~~byteBit i) else b

variable {b : List UInt8} {i j n : Nat}

theorem toNat_byteBit (i : Nat) : (byteBit i).toNat = 2 ^ (i % 8) := by
  have hall : ∀ k < 8, ((1 : UInt8) <<< UInt8.ofNat k).toNat = 2 ^ k := by decide
  exact hall (i % 8) (mod_lt i (by decide))

theorem toNat_not_byteBit (i k : Nat) (hk : k < 8) :
    (~~~byteBit i).toNat.testBit k = !decide (k = i % 8) := by
  have hall : ∀ k < 8, ∀ i < 8,
      (~~~((1 : UInt8) <<< UInt8.ofNat i)).toNat.testBit k = !decide (k = i) := by decide
  exact hall k hk (i % 8) (mod_lt i (by decide))

theorem and_byteBit_ne_zero (x : UInt8) (i : Nat) :
    (x &&& byteBit i != 0) = x.toNat.testBit (i % 8) := by
  have hand : (x &&& byteBit i).toNat = (x.toNat.testBit (i % 8)).toNat * 2 ^ (i % 8) := by
    rw [UInt8.toNat_and, toNat_byteBit, and_two_pow]
  rw [Bool.eq_iff_iff, bne_iff_ne, ne_eq, ← UInt8.toNat_inj, hand]
  cases x.toNat.testBit (i % 8) <;> simp

theorem bitAt_eq (b : List UInt8) (i : Nat) :
    bitAt b i = (b.getD (i / 8) 0).toNat.testBit (i % 8) := by
  rw [bitAt, and_byteBit_ne_zero]
  rcases Nat.lt_or_ge (i / 8) b.length with h | h
  · rw [decide_eq_true h, Bool.true_and]
  · rw [decide_eq_false (Nat.not_lt.mpr h), getD_eq_default _ _ h]
    exact (zero_testBit _).symm

@[simp]
theorem length_putBit : (putBit b i).length = b.length := by
  rw [putBit]
  split <;> simp

@[simp]
theorem length_dropBit : (dropBit b i).length = b.length := by
  rw [dropBit]
  split <;> simp

theorem getD_set (b : List UInt8) (k m : Nat) (x : UInt8) (hk : k < b.length) :
    (b.set k x).getD m 0 = if m = k then x else b.getD m 0 := by
  grind

section

variable (h : i < 8 * b.length)

include h

theorem bitAt_putBit : bitAt (putBit b i) j = (bitAt b j || decide (j = i)) := by
  have hi : i / 8 < b.length := by omega
  rw [bitAt_eq, bitAt_eq, putBit, if_pos hi, getD_set _ _ _ _ hi]
  split
  · rename_i heq
    rw [UInt8.toNat_or, testBit_or, toNat_byteBit, testBit_two_pow, heq]
    congr 1
    exact decide_eq_decide.mpr (by omega)
  · rename_i hne
    rw [decide_eq_false (by rintro rfl; exact hne rfl), Bool.or_false]

theorem bitAt_putBit_self : bitAt (putBit b i) i = true := by
  rw [bitAt_putBit h, decide_eq_true (Eq.refl i), Bool.or_true]

theorem bitAt_dropBit : bitAt (dropBit b i) j = (bitAt b j && !decide (j = i)) := by
  have hi : i / 8 < b.length := by omega
  rw [bitAt_eq, bitAt_eq, dropBit, if_pos hi, getD_set _ _ _ _ hi]
  split
  · rename_i heq
    rw [UInt8.toNat_and, testBit_and, toNat_not_byteBit _ _ (mod_lt j (by decide)), heq]
    congr 2
    exact decide_eq_decide.mpr (by omega)
  · rename_i hne
    rw [decide_eq_false (by rintro rfl; exact hne rfl), Bool.not_false, Bool.and_true]

theorem bitAt_dropBit_self : bitAt (dropBit b i) i = false := by
  rw [bitAt_dropBit h, decide_eq_true (Eq.refl i), Bool.not_true, Bool.and_false]

end

/-! ### The bits that are clear -/

/-- The clear bits below `n`. -/
def clearBits (b : List UInt8) (n : Nat) : Finset Nat :=
  (Finset.range n).filter fun i => bitAt b i = false

theorem mem_clearBits : i ∈ clearBits b n ↔ i < n ∧ bitAt b i = false := by
  rw [clearBits, Finset.mem_filter, Finset.mem_range]

theorem bitAt_replicate_zero (m i : Nat) : bitAt (replicate m 0) i = false := by
  have hzero : (replicate m (0 : UInt8)).getD (i / 8) 0 = 0 := by
    rw [getD_eq_getElem?_getD, getElem?_replicate]
    split <;> rfl
  rw [bitAt_eq, hzero]
  exact zero_testBit _

theorem card_clearBits_replicate_zero (m n : Nat) : (clearBits (replicate m 0) n).card = n := by
  rw [clearBits, Finset.filter_true_of_mem fun i _ => bitAt_replicate_zero m i, Finset.card_range]

theorem card_clearBits_le : (clearBits b n).card ≤ n :=
  (Finset.card_filter_le _ _).trans_eq (Finset.card_range n)

/-! ### Several bits -/

/-- `n` bits from `i` on are set. -/
def putBits (b : List UInt8) (i : Nat) : Nat → List UInt8
  | 0 => b
  | n + 1 => putBits (putBit b i) (i + 1) n

def dropBits (b : List UInt8) (i : Nat) : Nat → List UInt8
  | 0 => b
  | n + 1 => dropBits (dropBit b i) (i + 1) n

@[simp]
theorem length_putBits : (putBits b i n).length = b.length := by
  induction n generalizing b i with
  | zero => rfl
  | succ n ih => rw [putBits, ih, length_putBit]

@[simp]
theorem length_dropBits : (dropBits b i n).length = b.length := by
  induction n generalizing b i with
  | zero => rfl
  | succ n ih => rw [dropBits, ih, length_dropBit]

section

variable (h : i + n ≤ 8 * b.length)

include h

theorem bitAt_putBits : bitAt (putBits b i n) j = (bitAt b j || decide (i ≤ j ∧ j < i + n)) := by
  induction n generalizing b i with
  | zero => rw [putBits, decide_eq_false (by omega), Bool.or_false]
  | succ n ih =>
    rw [putBits, ih (by rw [length_putBit]; omega), bitAt_putBit (by omega), Bool.or_assoc,
      ← Bool.decide_or]
    congr 1
    exact decide_eq_decide.mpr (by omega)

theorem bitAt_dropBits : bitAt (dropBits b i n) j = (bitAt b j && !decide (i ≤ j ∧ j < i + n)) := by
  induction n generalizing b i with
  | zero => rw [dropBits, decide_eq_false (by omega), Bool.not_false, Bool.and_true]
  | succ n ih =>
    rw [dropBits, ih (by rw [length_dropBit]; omega), bitAt_dropBit (by omega), Bool.and_assoc,
      ← Bool.not_or, ← Bool.decide_or]
    congr 2
    exact decide_eq_decide.mpr (by omega)

variable {m : Nat}

theorem clearBits_putBits : clearBits (putBits b i n) m = clearBits b m \ Finset.Ico i (i + n) := by
  ext j
  rw [Finset.mem_sdiff, mem_clearBits, mem_clearBits, bitAt_putBits h, Bool.or_eq_false_iff,
    decide_eq_false_iff_not, Finset.mem_Ico]
  tauto

theorem clearBits_dropBits (hm : i + n ≤ m) :
    clearBits (dropBits b i n) m = clearBits b m ∪ Finset.Ico i (i + n) := by
  ext j
  rw [Finset.mem_union, mem_clearBits, mem_clearBits, bitAt_dropBits h, Bool.and_eq_false_iff,
    Finset.mem_Ico, Bool.not_eq_false', decide_eq_true_eq]
  constructor
  · rintro ⟨hj, hclear | hin⟩
    · exact .inl ⟨hj, hclear⟩
    · exact .inr hin
  · rintro (⟨hj, hclear⟩ | hin)
    · exact ⟨hj, .inl hclear⟩
    · exact ⟨by omega, .inr hin⟩

theorem card_clearBits_putBits (hm : i + n ≤ m)
    (hclear : ∀ j, i ≤ j → j < i + n → bitAt b j = false) :
    (clearBits (putBits b i n) m).card + n = (clearBits b m).card := by
  have hsub : Finset.Ico i (i + n) ⊆ clearBits b m := by
    intro j hj
    rw [Finset.mem_Ico] at hj
    exact mem_clearBits.mpr ⟨by omega, hclear j hj.1 hj.2⟩
  have hcard := Finset.card_sdiff_add_card_eq_card hsub
  rwa [card_Ico, Nat.add_sub_cancel_left, ← clearBits_putBits h] at hcard

theorem card_clearBits_dropBits (hm : i + n ≤ m)
    (hset : ∀ j, i ≤ j → j < i + n → bitAt b j = true) :
    (clearBits (dropBits b i n) m).card = (clearBits b m).card + n := by
  have hdisj : Disjoint (clearBits b m) (Finset.Ico i (i + n)) := by
    rw [Finset.disjoint_left]
    intro j hj hin
    rw [Finset.mem_Ico] at hin
    rw [mem_clearBits, hset j hin.1 hin.2] at hj
    exact nomatch hj.2
  rw [clearBits_dropBits h hm, Finset.card_union_of_disjoint hdisj, card_Ico,
    Nat.add_sub_cancel_left]

end

/-- The first clear bit from `i` on, of `n` that are left. -/
def firstClear (b : List UInt8) (i : Nat) : Nat → Option Nat
  | 0 => none
  | n + 1 => if !bitAt b i then some i else firstClear b (i + 1) n

theorem firstClear_eq_some (h : firstClear b i n = some j) : j < i + n ∧ bitAt b j = false := by
  induction n generalizing i with
  | zero => exact nomatch h
  | succ n ih =>
    rw [firstClear] at h
    split at h
    · rename_i hclear
      cases h
      exact ⟨by omega, by simpa using hclear⟩
    · obtain ⟨hlt, hclear⟩ := ih h
      exact ⟨by omega, hclear⟩

theorem firstClear_eq_none (h : firstClear b i n = none) (h1 : i ≤ j) (h2 : j < i + n) :
    bitAt b j = true := by
  induction n generalizing i with
  | zero => omega
  | succ n ih =>
    rw [firstClear] at h
    split at h
    · exact nomatch h
    rename_i hset
    rcases Nat.lt_or_eq_of_le h1 with h1 | rfl
    · exact ih h h1 (by omega)
    · simpa using hset

end Gergios.Lib
