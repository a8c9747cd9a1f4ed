import Mathlib.Logic.Basic

/-!
# Running state-passing programs

A program that can stop keeps its state on both exits. The equations run it one step at a time.
-/

namespace Gergios.Lib

variable {ε σ α β : Type} {m : EStateM ε σ α} {f : α → EStateM ε σ β} {s t : σ} {a : α} {e : ε}
  {P : β → σ → Prop}

theorem run_bind (m : EStateM ε σ α) (f : α → EStateM ε σ β) (s : σ) : (m >>= f) s = match m s with
      | .ok a t => f a t
      | .error e t => .error e t := rfl

theorem run_bind_ok (h : m s = .ok a t) : (m >>= f) s = f a t := by rw [run_bind, h]

theorem run_bind_error (h : m s = .error e t) : (m >>= f) s = .error e t := by rw [run_bind, h]

theorem run_bind_eq_ok {b : β} {u : σ} (h : (m >>= f) s = .ok b u) :
    ∃ a t, m s = .ok a t ∧ f a t = .ok b u := by
  rw [run_bind] at h
  split at h
  · rename_i a t hm
    exact ⟨a, t, hm, h⟩
  · exact nomatch h

theorem run_get (s : σ) : (get : EStateM ε σ σ) s = .ok s s := rfl

theorem run_modify (g : σ → σ) (s : σ) : (modify g : EStateM ε σ PUnit) s = .ok ⟨⟩ (g s) := rfl

/-! ### Outcomes -/

/-- From `s` the program returns with `Q` or stops with `C`. -/
def Outcome (m : EStateM ε σ α) (s : σ) (Q : α → σ → Prop) (C : ε → σ → Prop) : Prop :=
  match m s with
  | .ok a t => Q a t
  | .error e t => C e t

namespace Outcome

variable {Q R : α → σ → Prop} {C D : ε → σ → Prop}

theorem bind (h : Outcome m s R C)
    (hf : ∀ a t, R a t → Outcome (f a) t P C) : Outcome (m >>= f) s P C := by
  unfold Outcome at h ⊢
  rw [run_bind]
  cases hm : m s with
  | ok a t =>
    rw [hm] at h
    exact hf a t h
  | error e t =>
    rw [hm] at h
    exact h

theorem bind_ok (hm : m s = .ok a t) (h : Outcome (f a) t P C) : Outcome (m >>= f) s P C := by
  rwa [Outcome, run_bind_ok hm]

theorem pure (h : Q a s) : Outcome (pure a) s Q C := h

theorem mono (h : Outcome m s R D) (hQ : ∀ a t, R a t → Q a t) (hC : ∀ e t, D e t → C e t) :
    Outcome m s Q C := by
  unfold Outcome at h ⊢
  cases hm : m s with
  | ok a t =>
    rw [hm] at h
    exact hQ a t h
  | error e t =>
    rw [hm] at h
    exact hC e t h

theorem of_ok (h : Outcome m s Q C) (hm : m s = .ok a t) : Q a t := by
  rwa [Outcome, hm] at h

theorem of_error (h : Outcome m s Q C) (hm : m s = .error e t) : C e t := by
  rwa [Outcome, hm] at h

theorem exists_ok (h : Outcome m s Q C) (hC : ∀ e t, ¬ C e t) : ∃ a t, m s = .ok a t ∧ Q a t := by
  cases hm : m s with
  | ok a t => exact ⟨a, t, rfl, h.of_ok hm⟩
  | error e t => exact absurd (h.of_error hm) (hC e t)

end Outcome

def returned : EStateM.Result ε σ α → Option α
  | .ok a _ => some a
  | .error _ _ => none

theorem exists_of_returned {r : EStateM.Result ε σ α} (h : returned r = some a) :
    ∃ t, r = .ok a t := by
  cases r with
  | ok d t =>
    cases h
    exact ⟨t, rfl⟩
  | error e t => exact nomatch h

end Gergios.Lib
