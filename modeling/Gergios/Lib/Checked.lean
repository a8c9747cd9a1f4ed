/-!
# Programs that assert

A failed assertion ends the program.
-/

namespace Gergios.Lib

inductive Failure where
  | assertion
  | panic
deriving DecidableEq

def check (p : Prop) [Decidable p] : Except Failure Unit :=
  if p then .ok () else .error .assertion

variable {α β : Type}

theorem ite_bind_eq {ε : Type} (p : Prop) [Decidable p] (x y : Except ε α)
    (f : α → Except ε β) : (if p then x >>= f else y >>= f) = (if p then x else y) >>= f := by
  split
  · rfl
  · rfl

@[simp] theorem ok_bind (a : α) (f : α → Except Failure β) : (Except.ok a >>= f) = f a :=
  rfl

theorem bind_eq_ok {x : Except Failure α} {f : α → Except Failure β} {b : β}
    (h : (x >>= f) = .ok b) : ∃ a, x = .ok a ∧ f a = .ok b := by
  cases x with
  | error e => cases h
  | ok a => exact ⟨a, rfl, h⟩

@[simp] theorem check_bind {p : Prop} [Decidable p] (h : p)
    (f : Unit → Except Failure α) : (check p >>= f) = f () := by
  rw [check, if_pos h]
  rfl

theorem check_bind_eq_ok {p : Prop} [Decidable p] {f : Unit → Except Failure α} {a : α} :
    (check p >>= f) = .ok a ↔ p ∧ f () = .ok a := by
  by_cases hp : p
  · rw [check_bind hp]
    simp [hp]
  · rw [check, if_neg hp]
    constructor
    · exact fun h => (nomatch h)
    · exact fun h => absurd h.1 hp

end Gergios.Lib
