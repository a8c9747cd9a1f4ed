import Mathlib.Data.BitVec

/-!
# Single bits of a word
-/

namespace Gergios.Lib

variable {v : BitVec 32} {i j : Nat}

theorem getLsbD_bit (hi : i < 32) : (1#32 <<< i).getLsbD j = decide (j = i) := by
  rw [BitVec.getLsbD_shiftLeft, BitVec.getLsbD_one]
  grind

theorem and_bit (hi : i < 32) (v : BitVec 32) :
    v &&& 1#32 <<< i = if v.getLsbD i then 1#32 <<< i else 0 := by
  apply BitVec.eq_of_getLsbD_eq
  intro j _
  rw [BitVec.getLsbD_and, getLsbD_bit hi]
  rcases eq_or_ne j i with rfl | hj
  · cases h : v.getLsbD j <;> simp [getLsbD_bit hi]
  · cases h : v.getLsbD i <;> simp [getLsbD_bit hi, hj]

theorem bit_ne_zero (hi : i < 32) : 1#32 <<< i ≠ 0#32 := by
  intro h0
  have hbit := getLsbD_bit (j := i) hi
  rw [h0] at hbit
  simp at hbit

theorem and_bit_eq_zero_iff (hi : i < 32) : v &&& 1#32 <<< i = 0 ↔ v.getLsbD i = false := by
  rw [and_bit hi]
  cases v.getLsbD i with
  | false => simp
  | true => simpa using bit_ne_zero hi

end Gergios.Lib
