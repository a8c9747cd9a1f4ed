import Mathlib.Logic.Basic

/-!
# Accounts of what is raised and reported

Things are raised one by one and collected under an operation; a report is meant to hand over
everything collected since the report before it. The account is a list of both, the newest
entry first.
-/

namespace Gergios.Lib

inductive Entry (α : Type*)
  | raised (x : α)
  | reported (x : α)

variable {α : Type*} (op : α → α → α) (e : α)

def due : List (Entry α) → α
  | [] => e
  | .raised x :: l => op (due l) x
  | .reported _ :: _ => e

def raisedAll : List (Entry α) → α
  | [] => e
  | .raised x :: l => op (raisedAll l) x
  | .reported _ :: l => raisedAll l

def reportedAll : List (Entry α) → α
  | [] => e
  | .raised _ :: l => reportedAll l
  | .reported x :: l => op (reportedAll l) x

def Honest : List (Entry α) → Prop
  | [] => True
  | .raised _ :: l => Honest l
  | .reported x :: l => x = due op e l ∧ Honest l

/-- What is pending is due, and each report has carried what was due. -/
def Balanced (l : List (Entry α)) (p : α) : Prop := Honest op e l ∧ p = due op e l

/-- What an entry makes of what is pending. -/
inductive Posting (p : α) : Option (Entry α) → α → Prop
  | none : Posting p none p
  | raised (x : α) : Posting p (some (.raised x)) (op p x)
  | reported : Posting p (some (.reported p)) e

variable {op e}

theorem Balanced.cons {β : Type*} {g : β → Option (Entry α)} {log : List β} {ev : β} {p p' : α}
    (h : Balanced op e (log.filterMap g) p) (hp : Posting op e p (g ev) p') :
    Balanced op e ((ev :: log).filterMap g) p' := by
  obtain ⟨hhonest, rfl⟩ := h
  rw [List.filterMap_cons]
  generalize g ev = entry at hp
  cases hp with
  | none => exact ⟨hhonest, rfl⟩
  | raised x => exact ⟨hhonest, rfl⟩
  | reported => exact ⟨⟨rfl, hhonest⟩, rfl⟩

theorem Honest.balance {l : List (Entry α)} (h : Honest op e l)
    (hassoc : ∀ a b c, op (op a b) c = op a (op b c)) (hid : ∀ a, op a e = a) :
    op (reportedAll op e l) (due op e l) = raisedAll op e l := by
  induction l with
  | nil => exact hid e
  | cons entry l ih =>
    cases entry with
    | raised x => rw [reportedAll, due, raisedAll, ← hassoc, ih h]
    | reported x =>
      obtain ⟨rfl, hl⟩ := h
      rw [reportedAll, due, raisedAll, ih hl, hid]

end Gergios.Lib
