import Gergios.Lib.Bits

/-!
# Bit maps kept in 32-bit words
-/

namespace Gergios.Lib

abbrev WordMap := Nat → BitVec 32

def wordBit (map : WordMap) (b : Nat) : Bool := (map (b / 32)).getLsbD (b % 32)

def setWordBit (map : WordMap) (b : Nat) : WordMap :=
  Function.update map (b / 32) (map (b / 32) ||| 1#32 <<< (b % 32))

def clearWordBit (map : WordMap) (b : Nat) : WordMap :=
  Function.update map (b / 32) (map (b / 32) &&& ~~~(1#32 <<< (b % 32)))

/-- The first clear bit of a word from bit `i` on, among the next `fuel` bits. -/
def lowClear (k : BitVec 32) (i : Nat) : Nat → Nat
  | 0 => i
  | fuel + 1 => if k &&& 1#32 <<< i ≠ 0 then lowClear k (i + 1) fuel else i

variable {map : WordMap} {b c i n fuel : Nat} {k : BitVec 32}

theorem eq_of_div_mod (h : c / 32 = b / 32) (h' : c % 32 = b % 32) : c = b := by omega

theorem wordBit_setWordBit : wordBit (setWordBit map b) c = (wordBit map c || decide (c = b)) := by
  have hb : b % 32 < 32 := Nat.mod_lt b (by decide)
  by_cases hw : c / 32 = b / 32
  · rw [wordBit, setWordBit, wordBit, hw, Function.update_self, BitVec.getLsbD_or, getLsbD_bit hb]
    congr 1
    exact decide_eq_decide.mpr ⟨eq_of_div_mod hw, fun h => by rw [h]⟩
  · have hne : c ≠ b := fun h => hw (by rw [h])
    rw [wordBit, setWordBit, wordBit, Function.update_of_ne hw, decide_eq_false hne, Bool.or_false]

theorem wordBit_clearWordBit :
    wordBit (clearWordBit map b) c = (wordBit map c && decide (c ≠ b)) := by
  have hb : b % 32 < 32 := Nat.mod_lt b (by decide)
  have hc : c % 32 < 32 := Nat.mod_lt c (by decide)
  by_cases hw : c / 32 = b / 32
  · rw [wordBit, clearWordBit, wordBit, hw, Function.update_self, BitVec.getLsbD_and,
      BitVec.getLsbD_not, getLsbD_bit hb, decide_eq_true hc]
    congr 1
    rw [← decide_not]
    exact decide_eq_decide.mpr (not_congr ⟨eq_of_div_mod hw, fun h => by rw [h]⟩)
  · have hne : c ≠ b := fun h => hw (by rw [h])
    rw [wordBit, clearWordBit, wordBit, Function.update_of_ne hw, decide_eq_true hne, Bool.and_true]

theorem lowClear_spec (hfuel : i + fuel = 32) (h : ∃ j, i ≤ j ∧ j < 32 ∧ k.getLsbD j = false) :
    lowClear k i fuel < 32 ∧ k.getLsbD (lowClear k i fuel) = false ∧
      ∀ j, i ≤ j → j < lowClear k i fuel → k.getLsbD j = true := by
  induction fuel generalizing i with
  | zero =>
    obtain ⟨j, hij, hj, -⟩ := h
    omega
  | succ fuel ih =>
    have hi : i < 32 := by omega
    rw [lowClear]
    cases hk : k.getLsbD i with
    | false =>
      rw [if_neg (not_not_intro ((and_bit_eq_zero_iff hi).mpr hk))]
      exact ⟨hi, hk, fun j hij hj => absurd hj (Nat.not_lt.mpr hij)⟩
    | true =>
      rw [if_pos (fun h0 => by simp [(and_bit_eq_zero_iff hi).mp h0] at hk)]
      have hrest : ∃ j, i + 1 ≤ j ∧ j < 32 ∧ k.getLsbD j = false := by
        obtain ⟨j, hij, hj, hclear⟩ := h
        rcases hij.eq_or_lt with rfl | hlt
        · simp [hk] at hclear
        · exact ⟨j, hlt, hj, hclear⟩
      obtain ⟨hlt, hlow, hbelow⟩ := ih (by omega) hrest
      refine ⟨hlt, hlow, fun j hij hj => ?_⟩
      rcases hij.eq_or_lt with rfl | hgt
      · exact hk
      · exact hbelow j hgt hj

theorem exists_clear_of_ne_allOnes (h : k ≠ BitVec.allOnes 32) :
    ∃ j, j < 32 ∧ k.getLsbD j = false := by
  by_contra hall
  push Not at hall
  apply h
  apply BitVec.eq_of_getLsbD_eq
  intro j hj
  rw [BitVec.getLsbD_allOnes, decide_eq_true hj]
  exact Bool.eq_true_of_not_eq_false (hall j hj)

/-- The clear bits below `n`. -/
def clearWordBits (map : WordMap) (n : Nat) : Finset Nat :=
  (Finset.range n).filter fun b => wordBit map b = false

theorem mem_clearWordBits : b ∈ clearWordBits map n ↔ b < n ∧ wordBit map b = false := by
  rw [clearWordBits, Finset.mem_filter, Finset.mem_range]

theorem clearWordBits_setWordBit :
    clearWordBits (setWordBit map b) n = (clearWordBits map n).erase b := by
  ext c
  rw [mem_clearWordBits, Finset.mem_erase, mem_clearWordBits, wordBit_setWordBit]
  by_cases hc : c = b <;> simp [hc]

theorem card_clearWordBits_setWordBit (hb : b < n) (h : wordBit map b = false) :
    (clearWordBits (setWordBit map b) n).card + 1 = (clearWordBits map n).card := by
  rw [clearWordBits_setWordBit]
  exact Finset.card_erase_add_one (mem_clearWordBits.mpr ⟨hb, h⟩)

end Gergios.Lib
