import Mathlib.Data.BitVec
import Mathlib.Data.List.TakeWhile
import Gergios.Lib.Linked

/-!
# Queues of timers

`tmrs_settimer`, `tmrs_clrtimer` and `tmrs_exptimers` work on a list that is threaded through the
timers. A timer is set as long as it has a watchdog.
-/

namespace Gergios.Timers

open Lib Function List

/-- `clock_t`: times wrap around. -/
abbrev Clock := BitVec 32

def tmrdiffMax : Nat := 2 ^ 31 - 1

def tmrIsFirst (a b : Clock) : Bool := decide ((b - a).toNat ≤ tmrdiffMax)

/-- What a timer has been set to; `F` are the watchdog functions. -/
structure Setting (F : Type) where
  expTime : Clock
  func : Option F
  arg : Int

/-- `minix_timer_t`; `T` is the type of addresses of timers. -/
structure Timer (T F : Type) extends Setting F where
  next : Option T

structure TimerQueue (T F : Type) where
  tmrs : Option T
  timer : T → Timer T F

section Model

variable {T F : Type}

namespace TimerQueue

variable (s : TimerQueue T F)

def next (tp : T) : Option T := (s.timer tp).next

def setting (tp : T) : Setting F := (s.timer tp).toSetting

def headTime : Option Clock := s.tmrs.map fun tp => (s.timer tp).expTime

variable [DecidableEq T]

section

variable (s : TimerQueue T F)

def setNext (tp : T) (v : Option T) : TimerQueue T F :=
  { s with timer := update s.timer tp { s.timer tp with next := v } }

def modSetting (tp : T) (v : Setting F) : TimerQueue T F :=
  { s with timer := update s.timer tp { s.timer tp with toSetting := v } }

/-- The assignment to `*atp`. -/
def setCell : Option T → Option T → TimerQueue T F
  | none, v => { s with tmrs := v }
  | some p, v => s.setNext p v

end

end TimerQueue

structure Reply where
  had : Bool
  oldHead : Option Clock
  newHead : Option Clock

inductive Cmd (T F : Type) where
  | set (tp : T) (expTime : Clock) (watchdog : F) (arg : Int)
  | clr (tp : T)

structure Fired (T F : Type) where
  tp : T
  func : Option F
  arg : Int

variable [DecidableEq T]

def popExpired (now : Clock) (s : TimerQueue T F) : Option (Fired T F × TimerQueue T F) :=
  match s.tmrs with
  | none => none
  | some tp =>
    if tmrIsFirst (s.setting tp).expTime now then
      let t := { s with tmrs := s.next tp }
      some (⟨tp, (s.setting tp).func, (s.setting tp).arg⟩,
        t.modSetting tp { s.setting tp with func := none })
    else none

variable [Fintype T]

def maxWalk (T : Type) [Fintype T] : Nat := Fintype.card T + 1

variable (s : TimerQueue T F)

/-- `next_time` is 0 when no timer is left. `none` is a walk that does not end. -/
def tmrsClrtimer (tp : T) : Option (TimerQueue T F × Reply) :=
  let t := s.modSetting tp { s.setting tp with func := none }
  match seek t.next (· == tp) (maxWalk T) none t.tmrs with
  | none => none
  | some (prev, cur) =>
    let t := if cur.isSome then t.setCell prev (t.next tp) else t
    some (t, ⟨s.tmrs.isSome, s.headTime, some (t.headTime.getD 0)⟩)

def tmrsSettimer (tp : T) (expTime : Clock) (watchdog : F) (arg : Int) :
    Option (TimerQueue T F × Reply) :=
  match (if (s.setting tp).func.isSome then (tmrsClrtimer s tp).map (·.1) else some s) with
  | none => none
  | some t =>
    let t := t.modSetting tp ⟨expTime, some watchdog, arg⟩
    match seek t.next (fun a => tmrIsFirst expTime (t.setting a).expTime) (maxWalk T) none
        t.tmrs with
    | none => none
    | some (prev, cur) =>
      let t := (t.setNext tp cur).setCell prev (some tp)
      some (t, ⟨s.tmrs.isSome, s.headTime, t.headTime⟩)

def Cmd.exec : Cmd T F → Option (TimerQueue T F)
  | .set tp expTime watchdog arg => (tmrsSettimer s tp expTime watchdog arg).map (·.1)
  | .clr tp => (tmrsClrtimer s tp).map (·.1)

def execCmds : List (Cmd T F) → TimerQueue T F → Option (TimerQueue T F)
  | [], s => some s
  | c :: cs, s => (c.exec s).bind (execCmds cs)

/-- The loop of `tmrs_exptimers`. The watchdog that is called as number `k` does `calls k`; one
that is `NULL` is the end of the program. -/
def expLoop (calls : Nat → List (Cmd T F)) (now : Clock) :
    Nat → Nat → TimerQueue T F → Option (List (Fired T F) × TimerQueue T F)
  | 0, _, _ => none
  | n + 1, k, s =>
    match popExpired now s with
    | none => some ([], s)
    | some (r, t) =>
      match r.func, execCmds (calls k) t with
      | some _, some u => (expLoop calls now n (k + 1) u).map fun x => (r :: x.1, x.2)
      | _, _ => none

/-- `new_head` is filled in if a timer is left, which is also the return value. -/
def tmrsExptimers (calls : Nat → List (Cmd T F)) (now : Clock) (fuel : Nat) (s : TimerQueue T F) :
    Option (List (Fired T F) × TimerQueue T F × Option Clock) :=
  (expLoop calls now fuel 0 s).map fun x => (x.1, x.2, x.2.headTime)

end Model

/-! ## The functions on the list of timers that are set -/

section Spec

variable {T F : Type} {s t : TimerQueue T F} {l : List T} {tp : T}

structure Holds (s : TimerQueue T F) (l : List T) : Prop where
  linked : Linked s.next s.tmrs l
  mem_iff : ∀ a, a ∈ l ↔ (s.setting a).func ≠ none

theorem Holds.length_lt [Fintype T] (h : Holds s l) : l.length < maxWalk T :=
  Nat.lt_succ_of_le h.linked.length_le

variable [DecidableEq T]

section

variable (s : TimerQueue T F)

@[simp]
theorem setNext_next (tp : T) (v : Option T) : (s.setNext tp v).next = update s.next tp v := by
  funext a
  rcases eq_or_ne a tp with rfl | hne
  · simp [TimerQueue.setNext, TimerQueue.next]
  · simp [TimerQueue.setNext, TimerQueue.next, hne]

@[simp]
theorem setNext_setting (tp : T) (v : Option T) : (s.setNext tp v).setting = s.setting := by
  funext a
  rcases eq_or_ne a tp with rfl | hne
  · simp [TimerQueue.setNext, TimerQueue.setting]
  · simp [TimerQueue.setNext, TimerQueue.setting, hne]

@[simp]
theorem modSetting_next (tp : T) (v : Setting F) : (s.modSetting tp v).next = s.next := by
  funext a
  rcases eq_or_ne a tp with rfl | hne
  · simp [TimerQueue.modSetting, TimerQueue.next]
  · simp [TimerQueue.modSetting, TimerQueue.next, hne]

@[simp]
theorem modSetting_setting (tp : T) (v : Setting F) :
    (s.modSetting tp v).setting = update s.setting tp v := by
  funext a
  rcases eq_or_ne a tp with rfl | hne
  · simp [TimerQueue.modSetting, TimerQueue.setting]
  · simp [TimerQueue.modSetting, TimerQueue.setting, hne]

@[simp]
theorem modSetting_tmrs (tp : T) (v : Setting F) : (s.modSetting tp v).tmrs = s.tmrs := rfl

variable (prev v)

@[simp]
theorem setCell_next : (s.setCell prev v).next = cellNext s.next prev v := by
  cases prev with
  | none => rfl
  | some p => exact setNext_next s p v

@[simp]
theorem setCell_setting : (s.setCell prev v).setting = s.setting := by
  cases prev with
  | none => rfl
  | some p => exact setNext_setting s p v

@[simp]
theorem setCell_tmrs : (s.setCell prev v).tmrs = cellHead s.tmrs prev v := by
  cases prev <;> rfl

variable {prev v}

end

theorem popExpired_nil (now : Clock) (h : Holds s []) : popExpired now s = none := by
  rw [popExpired, linked_nil.mp h.linked]

theorem popExpired_cons (now : Clock) (h : Holds s (tp :: l)) : ∃ t,
    popExpired now s = (if tmrIsFirst (s.setting tp).expTime now then
      some (⟨tp, (s.setting tp).func, (s.setting tp).arg⟩, t) else none) ∧ Holds t l ∧
    t.setting = update s.setting tp { s.setting tp with func := none } := by
  refine ⟨TimerQueue.modSetting { s with tmrs := s.next tp } tp { s.setting tp with func := none },
    by rw [popExpired, h.linked.1], ⟨?_, fun a => ?_⟩, modSetting_setting ..⟩
  · rw [modSetting_next]
    exact h.linked.2
  · have hsame : TimerQueue.setting { s with tmrs := s.next tp } = s.setting := rfl
    rw [modSetting_setting, hsame]
    have hold := h.mem_iff a
    rcases eq_or_ne a tp with rfl | hne
    · simpa using (nodup_cons.mp h.linked.nodup).1
    · simpa [hne] using hold

variable [Fintype T]

theorem tmrsClrtimer_spec (h : Holds s l) (tp : T) : ∃ t r, tmrsClrtimer s tp = some (t, r) ∧
    Holds t (l.erase tp) ∧ t.setting = update s.setting tp { s.setting tp with func := none } := by
  have hseek := h.linked.seek_eq (· == tp) none h.length_lt
  have hmem : ∀ a, a ∈ l.erase tp ↔
      (update s.setting tp { s.setting tp with func := none } a).func ≠ none := by
    intro a
    rw [h.linked.nodup.mem_erase_iff]
    rcases eq_or_ne a tp with rfl | hne
    · simp
    · simp [hne, h.mem_iff]
  unfold tmrsClrtimer
  simp only [modSetting_next, modSetting_tmrs, hseek, Option.or_none]
  by_cases hin : tp ∈ l
  · obtain ⟨pre, post, hpre, rfl, herase⟩ := exists_erase_eq hin
    have hpos : ∀ a ∈ pre, (!a == tp) = true := by
      intro a ha
      rw [Bool.not_eq_true', beq_eq_false_iff_ne]
      rintro rfl
      exact hpre ha
    rw [herase] at hmem ⊢
    refine ⟨_, _, rfl, ⟨?_, ?_⟩, ?_⟩ <;>
    simp only [takeWhile_append_of_pos hpos, dropWhile_append_of_pos hpos, beq_self_eq_true,
      takeWhile_cons, dropWhile_cons, Bool.not_true, Bool.false_eq_true, if_false,
      append_nil, head?_cons, Option.isSome_some, if_true, setCell_next, setCell_tmrs,
      setCell_setting, modSetting_next, modSetting_setting]
    · exact h.linked.unlinkCell
    · exact hmem
  · have hpos : ∀ a ∈ l, (!a == tp) = true := by
      intro a ha
      rw [Bool.not_eq_true', beq_eq_false_iff_ne]
      rintro rfl
      exact hin ha
    rw [erase_of_not_mem hin] at hmem ⊢
    refine ⟨_, _, rfl, ⟨?_, ?_⟩, ?_⟩ <;>
    simp only [dropWhile_eq_nil_iff.mpr hpos, head?_nil, Option.isSome_none,
      Bool.false_eq_true, if_false, modSetting_next, modSetting_setting]
    · exact h.linked
    · exact hmem

theorem tmrsSettimer_spec (h : Holds s l) (tp : T) (expTime : Clock) (watchdog : F) (arg : Int) :
    ∃ t r, tmrsSettimer s tp expTime watchdog arg = some (t, r) ∧
      Holds t ((l.erase tp).orderedInsert
        (fun a b => tmrIsFirst (t.setting a).expTime (t.setting b).expTime = true) tp) ∧
      t.setting = update s.setting tp ⟨expTime, some watchdog, arg⟩ := by
  -- the timer is first taken out, if it is set
  obtain ⟨u, hclr, hu, hsetting⟩ : ∃ u, (if (s.setting tp).func.isSome then
      (tmrsClrtimer s tp).map (·.1) else some s) = some u ∧ Holds u (l.erase tp) ∧
      ∀ a, a ≠ tp → u.setting a = s.setting a := by
    by_cases hset : (s.setting tp).func.isSome
    · obtain ⟨u, r, hclr, hu, hsetting⟩ := tmrsClrtimer_spec h tp
      refine ⟨u, by rw [if_pos hset, hclr]; rfl, hu, fun a ha => ?_⟩
      rw [hsetting, update_of_ne ha]
    · have hnot : tp ∉ l := fun hmem => by simp [(h.mem_iff tp).mp hmem] at hset
      refine ⟨s, if_neg hset, ?_, fun _ _ => rfl⟩
      rwa [erase_of_not_mem hnot]
  have hnot : tp ∉ l.erase tp := fun hmem => by simp [h.linked.nodup.mem_erase_iff] at hmem
  have hupdate : update u.setting tp ⟨expTime, some watchdog, arg⟩ =
      update s.setting tp ⟨expTime, some watchdog, arg⟩ := by
    funext a
    rcases eq_or_ne a tp with rfl | hne
    · simp
    · simp [hne, hsetting a hne]
  generalize l.erase tp = l' at hu hnot
  unfold tmrsSettimer
  simp only [hclr, modSetting_next, modSetting_tmrs, modSetting_setting, hupdate]
  have hseek := hu.linked.seek_eq (fun a => tmrIsFirst expTime
    (update s.setting tp ⟨expTime, some watchdog, arg⟩ a).expTime) none hu.length_lt
  simp only [hseek, Option.or_none]
  refine ⟨_, _, rfl, ?_, ?_⟩
  · simp only [setCell_setting, setNext_setting, modSetting_setting, hupdate]
    rw [orderedInsert_eq_take_drop]
    simp only [update_self, Bool.not_eq_true, Bool.decide_eq_false]
    generalize hp : (fun a => !tmrIsFirst expTime
      (update s.setting tp ⟨expTime, some watchdog, arg⟩ a).expTime) = p
    have hsplit := l'.takeWhile_append_dropWhile (p := p)
    rw [← hsplit] at hnot hu
    refine ⟨?_, fun a => ?_⟩
    · simp only [setCell_next, setCell_tmrs, setNext_next, modSetting_next]
      refine hu.linked.insertCell hnot (update_self ..) fun z hz => ?_
      have hne : z ≠ tp := by
        rintro rfl
        exact hnot hz
      exact update_of_ne hne ..
    · simp only [setCell_setting, setNext_setting, modSetting_setting, hupdate]
      rcases eq_or_ne a tp with rfl | hne
      · simp
      · rw [update_of_ne hne, ← hsetting a hne, ← hu.mem_iff a]
        simp only [mem_append, mem_cons, hne, false_or]
  · simp only [setCell_setting, setNext_setting, modSetting_setting, hupdate]

end Spec

end Gergios.Timers
