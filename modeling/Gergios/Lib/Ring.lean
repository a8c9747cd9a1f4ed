import Mathlib.Tactic.Ring

/-!
# Rings

A ring of `n` slots filled in turn: the `k`-th entry goes to slot `k % n`. The count is kept in a
32-bit counter whose low bits are the slot, so `n` is a power of two.
-/

namespace Gergios

open Function

/-- The slot for a counter, found with the mask `n - 1`. -/
def ringIdx (n : Nat) (counter : BitVec 32) : Nat := (counter &&& BitVec.ofNat 32 (n - 1)).toNat

theorem ringIdx_ofNat {s : Nat} (hs : s ≤ 32) (k : Nat) :
    ringIdx (2 ^ s) (BitVec.ofNat 32 k) = k % 2 ^ s := by
  have hlt : 2 ^ s - 1 < 2 ^ 32 :=
    Nat.lt_of_lt_of_le (Nat.sub_lt (Nat.two_pow_pos s) Nat.one_pos)
      (Nat.pow_le_pow_right (by decide) hs)
  rw [ringIdx, BitVec.toNat_and, BitVec.toNat_ofNat, BitVec.toNat_ofNat, Nat.mod_eq_of_lt hlt,
    Nat.and_two_pow_sub_one_eq_mod, Nat.mod_mod_of_dvd _ (Nat.pow_dvd_pow 2 hs)]

variable {α : Type*} {n lo : Nat} {slots : Nat → α} {xs : List α}

/-- Of the entries put in so far, those from `lo` on are still in their slots. -/
def Window (n : Nat) (slots : Nat → α) (lo : Nat) (xs : List α) : Prop :=
  ∀ k, (h : k < xs.length) → lo ≤ k → slots (k % n) = xs[k]

theorem Window.mono {lo' : Nat} (h : Window n slots lo xs) (hle : lo ≤ lo') :
    Window n slots lo' xs :=
  fun k hk hlo => h k hk (Nat.le_trans hle hlo)

theorem Window.push (h : Window n slots lo xs) (hroom : xs.length < lo + n) (x : α) :
    Window n (update slots (xs.length % n) x) lo (xs ++ [x]) := by
  intro k hk hlo
  rcases Nat.lt_or_ge k xs.length with hlt | hge
  · have hne : k % n ≠ xs.length % n := by
      intro heq
      have hdiv := Nat.dvd_of_mod_eq_zero (Nat.sub_mod_eq_zero_of_mod_eq heq.symm)
      have := Nat.le_of_dvd (Nat.sub_pos_of_lt hlt) hdiv
      omega
    rw [update_of_ne hne, List.getElem_append_left hlt]
    exact h k hlt hlo
  · have hlast : k = xs.length := by
      rw [List.length_append, List.length_singleton] at hk
      omega
    subst hlast
    rw [update_self, List.getElem_concat_length rfl]

end Gergios
