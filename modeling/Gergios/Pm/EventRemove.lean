import Gergios.Pm.EventInv

/-!
# Removing a subscriber

The subscribers behind the removed one move up at once, and every position moves with them. A
process that waited for the removed one becomes due. The loop over the process table then brings the
indexes up to date and resumes the processes that are due.
-/

namespace Gergios.Pm

open Function List

variable {n : Nat} {slot : Nat}

/-- Where the subscriber now at `j` was before. -/
def up (slot j : Nat) : Nat := if slot ≤ j then j + 1 else j

variable {j : Nat} {pos : Fin n → Option Pos} {rest : Rest n}
  {s : State n} {x : Option Pos} {i : Fin n}

theorem up_ne (slot j : Nat) : up slot j ≠ slot := by
  unfold up
  split_ifs <;> omega

theorem up_lt_up {i : Nat} (h : i < j) : up slot i < up slot j := by
  unfold up
  split_ifs <;> omega

theorem exists_up {m : Nat} (hj : j < m) (hne : j ≠ slot) (hs : slot < m) :
    ∃ i, i < m - 1 ∧ up slot i = j := by
  rcases Nat.lt_or_gt_of_ne hne with h | h
  · exact ⟨j, by omega, if_neg (by omega)⟩
  · refine ⟨j - 1, by omega, ?_⟩
    rw [up, if_pos (by omega)]
    omega

def Pos.shift (slot : Nat) : Pos → Pos
  | .waits j => if j = slot then .due slot else if slot < j then .waits (j - 1) else .waits j
  | .due _ => .due slot

theorem Pos.shift_eq_waits {x : Pos} : x.shift slot = .waits j ↔ x = .waits (up slot j) := by
  cases x with
  | due k => simp [Pos.shift]
  | waits i =>
    simp only [Pos.shift, up]
    split_ifs <;> simp <;> omega

section Shift

variable {s : State n}

theorem shift_subs (hj : j < s.nsubs - 1) : (s.shift slot).subs j = s.subs (up slot j) := by
  simp only [State.shift, up]
  split_ifs with h₁ h₂ h₃
  · rfl
  · omega
  · omega
  · rfl

theorem up_lt (hj : j < s.nsubs - 1) : up slot j < s.nsubs := by
  unfold up
  split_ifs <;> omega

theorem LogOk.shift (hs : slot < s.nsubs) {event : Event} {log : EventLog} {k k' : Nat}
    (h : LogOk s event log k) (hk : ∀ j, j < s.nsubs - 1 → (j < k' ↔ up slot j < k)) :
    LogOk (s.shift slot) event (log.forget (s.subs slot).serial) k' where
  sorted := h.sorted
  below := by
    intro x hx j hj hn
    rw [shift_subs hn]
    exact h.below x hx _ (Nat.not_lt.mp (mt (hk j hn).mpr (by omega))) (up_lt hn)
  old := h.old
  past := by
    intro j hj hn hm
    rw [shift_subs hn] at hm ⊢
    exact h.past _ ((hk j hn).mp hj) (up_lt hn) (mem_filter.mp hm).1
  future := by
    intro j hj hn hm
    rw [shift_subs hn] at hm ⊢
    exact h.future _ (Nat.not_lt.mp (mt (hk j hn).mpr (by omega))) (up_lt hn)
      (mem_filter.mp hm).1
  member := by
    intro x hx
    obtain ⟨hm, hne⟩ := mem_filter.mp hx
    obtain ⟨j, hj, rfl⟩ := h.member x hm
    have hjs : j ≠ slot := by
      rintro rfl
      simp at hne
    obtain ⟨i, hi, rfl⟩ := exists_up hj hjs hs
    exact ⟨i, hi, by rw [shift_subs hi]⟩

theorem Active.shift (hs : slot < s.nsubs) {p : Proc} {k k' : Nat} {owed owed' : List Nat}
    (h : Active s p k owed) (hk : ∀ j, j < s.nsubs - 1 → (j < k' ↔ up slot j < k))
    (ho : owed.filter (· ≠ (s.subs slot).serial) = owed') :
    Active (s.shift slot) { p with log := p.log.forget (s.subs slot).serial } k' owed' := by
  obtain ⟨hu, hc, hone, hw, event, he, hl⟩ := h
  refine ⟨hu, hc, hone, ?_, event, he, hl.shift hs hk⟩
  rw [← ho, ← hw]
  rfl

theorem shift_procs (i : Fin n) : (s.shift slot).procs i = if (s.procs i).eventCall then
      { s.procs i with log := (s.procs i).log.forget (s.subs slot).serial }
    else s.procs i := rfl

theorem Inv.shift (hi : Inv s pos) (hs : slot < s.nsubs)
    (hdue : ∀ i k, pos i = some (.due k) → k = slot + 1) :
    Inv (s.shift slot) fun i => (pos i).map (Pos.shift slot) where
  bound := (Nat.sub_le _ _).trans hi.bound
  order := by
    intro i j hij hj
    rw [shift_subs hj, shift_subs (hij.trans hj)]
    exact hi.order _ _ (up_lt_up hij) (up_lt hj)
  fresh := by
    intro j hj
    rw [shift_subs hj]
    exact hi.fresh _ (up_lt hj)
  waiting := by
    intro j hj
    rw [shift_subs hj, hi.waiting _ (up_lt hj)]
    congr 1
    ext i
    rw [mem_waiters, mem_waiters]
    cases pos i with
    | none => simp
    | some x => simp [Pos.shift_eq_waits]
  placed := by
    intro i
    have hp := hi.placed i
    have hd := hdue i
    rw [shift_procs]
    revert hp hd
    cases pos i with
    | none =>
      intro hp _
      rw [if_neg (by simp [hp.1])]
      exact hp
    | some x =>
      cases x with
      | due k =>
        rintro ⟨-, ha⟩ hd
        obtain rfl := hd k rfl
        rw [if_pos ha.eventCall]
        refine ⟨Nat.le_sub_one_of_lt hs, ha.shift hs ?_ rfl⟩
        intro j _
        unfold up
        split_ifs <;> omega
      | waits j =>
        rintro ⟨hj, ha⟩ -
        rw [if_pos ha.eventCall]
        rcases lt_trichotomy j slot with hlt | rfl | hgt
        · have hx : Pos.shift slot (.waits j) = .waits j := by
            rw [Pos.shift, if_neg (by omega), if_neg (by omega)]
          rw [Option.map_some, hx]
          have hn : j < s.nsubs - 1 := by omega
          have hu : up slot j = j := if_neg (by omega)
          refine ⟨hn, ha.shift hs ?_ ?_⟩
          · intro i _
            unfold up
            split_ifs <;> omega
          · have := hi.order j slot hlt hs
            rw [shift_subs hn, hu]
            simp
            omega
        · rw [Option.map_some, Pos.shift, if_pos rfl]
          refine ⟨Nat.le_sub_one_of_lt hs, ha.shift hs ?_ (by simp)⟩
          intro i _
          unfold up
          split_ifs <;> omega
        · have hx : Pos.shift slot (.waits j) = .waits (j - 1) := by
            rw [Pos.shift, if_neg (by omega), if_pos hgt]
          rw [Option.map_some, hx]
          have hn : j - 1 < s.nsubs - 1 := by omega
          have hu : up slot (j - 1) = j := by
            rw [up, if_pos (by omega)]
            omega
          refine ⟨hn, ha.shift hs ?_ ?_⟩
          · intro i _
            unfold up
            split_ifs <;> omega
          · have := hi.order slot j hgt hj
            rw [shift_subs hn, hu]
            simp
            omega

end Shift

def Lags (slot : Nat) (p : Proc) : Option Pos → Prop
  | none => p.eventsub = none
  | some (.waits j) => p.eventsub = some (up slot j)
  | some (.due k) => k = slot ∧ p.eventsub = some slot

theorem Placed.setEventsub {p : Proc} (h : Placed s p x)
    (k : Option Nat) : Placed s { p with eventsub := k } x := by
  cases x with
  | none => exact h
  | some x =>
    cases x with
    | waits j =>
      obtain ⟨hj, hu, hc, ho, hw, hl⟩ := h
      exact ⟨hj, hu, hc, ho, hw, hl⟩
    | due j =>
      obtain ⟨hj, hu, hc, ho, hw, hl⟩ := h
      exact ⟨hj, hu, hc, ho, hw, hl⟩

theorem Inv.setNested (h : Inv s pos) (m : Nat) : Inv { s with nested := m } pos := by
  have hsame : SameSubs s { s with nested := m } := ⟨rfl, rfl, fun _ => rfl, fun _ => rfl⟩
  exact ⟨h.bound, h.order, h.fresh, h.waiting, fun i => (h.placed i).congr hsame⟩

theorem Inv.setEventsub (h : Inv s pos) (i : Fin n)
    (k : Option Nat) : Inv (s.setProc i { s.procs i with eventsub := k }) pos := by
  refine ⟨h.bound, h.order, h.fresh, h.waiting, ?_⟩
  intro j
  have hsame : SameSubs s (s.setProc i { s.procs i with eventsub := k }) :=
    ⟨rfl, rfl, fun _ => rfl, fun _ => rfl⟩
  have hp := (h.placed j).congr hsame
  rcases eq_or_ne j i with rfl | hne
  · simp only [State.setProc, update_self]
    exact hp.setEventsub k
  · simp only [State.setProc, update_of_ne hne]
    exact hp

/-- What the loop of `remove_sub` leaves as it was. -/
structure Adjusted (s s' : State n) : Prop where
  subs : SameSubs s s'
  nested : s'.nested = s.nested
  waiting : ∀ j, (s.subs j).waiting ≤ (s'.subs j).waiting

theorem Adjusted.refl (s : State n) : Adjusted s s :=
  ⟨⟨rfl, rfl, fun _ => rfl, fun _ => rfl⟩, rfl, fun _ => le_rfl⟩

theorem Adjusted.trans {t u : State n} (h₁ : Adjusted s t) (h₂ : Adjusted t u) : Adjusted s u where
  subs :=
    { nsubs := h₂.subs.nsubs.trans h₁.subs.nsubs
      serials := h₂.subs.serials.trans h₁.subs.serials
      serial := fun j => (h₂.subs.serial j).trans (h₁.subs.serial j)
      mask := fun j => (h₂.subs.mask j).trans (h₁.subs.mask j) }
  nested := h₂.nested.trans h₁.nested
  waiting j := (h₁.waiting j).trans (h₂.waiting j)

theorem adjust_spec (hf : rest.Frames) (hi : Inv s pos) (hl : Lags slot (s.procs i) (pos i)) :
    ∃ s' x, adjust rest slot s i = .ok s' ∧ Inv s' (update pos i x) ∧
      Agrees (s'.procs i) x ∧ Adjusted s s' ∧
      ∀ j, j ≠ i → (s'.procs j).eventsub = (s.procs j).eventsub := by
  have hp := hi.placed i
  cases hx : pos i with
  | none =>
    rw [hx] at hp hl
    refine ⟨s, none, ?_, ?_, hl, .refl s, fun _ _ => rfl⟩
    · simp [adjust, hp.1]
      rfl
    · rw [update_eq_self_iff.mpr hx.symm]
      exact hi
  | some x =>
    rw [hx] at hp hl
    cases x with
    | waits j =>
      have hk : (s.procs i).eventsub = some (up slot j) := hl
      have hin : (!((s.procs i).inUse && (s.procs i).eventCall)) = false := by
        rw [hp.2.inUse, hp.2.eventCall]
        rfl
      have hpos : update pos i (some (.waits j)) = pos :=
        update_eq_self_iff.mpr hx.symm
      by_cases hlt : slot < up slot j
      · have hj : up slot j - 1 = j := by
          unfold up at hlt ⊢
          split_ifs at hlt ⊢ <;> omega
        refine ⟨_, some (.waits j), ?_, hpos.symm ▸ hi.setEventsub i (some j), ?_, ?_, ?_⟩
        · simp only [adjust, hin, Bool.false_eq_true, if_false, hk, if_neg (up_ne slot j),
            if_pos hlt, hj]
          rfl
        · simp [Agrees, State.setProc]
        · exact ⟨⟨rfl, rfl, fun _ => rfl, fun _ => rfl⟩, rfl, fun _ => le_rfl⟩
        · intro k hki
          simp [State.setProc, hki]
      · have hj : up slot j = j := by
          unfold up at hlt ⊢
          split_ifs at hlt ⊢ <;> omega
        refine ⟨s, some (.waits j), ?_, hpos.symm ▸ hi, hj ▸ hk, .refl s, fun _ _ => rfl⟩
        simp only [adjust, hin, Bool.false_eq_true, if_false, hk, if_neg (up_ne slot j), if_neg hlt]
        rfl
    | due k =>
      obtain ⟨rfl, hk⟩ := hl
      have hin : (!((s.procs i).inUse && (s.procs i).eventCall)) = false := by
        rw [hp.2.inUse, hp.2.eventCall]
        rfl
      obtain ⟨t, x, ht, hinv, ha, hr⟩ :=
        resumeEvent_spec hf (hi.setNested (s.nested + 1)) hx hk
      refine ⟨{ t with nested := t.nested - 1 }, x, ?_, hinv.setNested _, ha, ?_, ?_⟩
      · simp only [adjust, hin, hk]
        rw [ht]
        rfl
      · refine ⟨⟨hr.subs.nsubs, hr.subs.serials, hr.subs.serial, hr.subs.mask⟩, ?_, hr.waiting⟩
        simp only [hr.nested]
        omega
      · exact hr.index

theorem adjust_loop (hf : rest.Frames) {is : List (Fin n)} (hn : is.Nodup) (hi : Inv s pos)
    (hl : ∀ i ∈ is, Lags slot (s.procs i) (pos i))
    (ha : ∀ i ∉ is, Agrees (s.procs i) (pos i)) :
    ∃ s' pos', is.foldlM (adjust rest slot) s = .ok s' ∧ Inv s' pos' ∧
      (∀ i, Agrees (s'.procs i) (pos' i)) ∧ Adjusted s s' := by
  induction is generalizing s pos with
  | nil => exact ⟨s, pos, rfl, hi, fun i => ha i not_mem_nil, .refl s⟩
  | cons i is ih =>
    obtain ⟨hni, hns⟩ := nodup_cons.mp hn
    obtain ⟨t, x, ht, hit, hat, hadj, hidx⟩ := adjust_spec hf hi (hl i mem_cons_self)
    -- the index is all that the two relations say of a process
    have hlag : ∀ j, j ≠ i → ∀ y, Lags slot (s.procs j) y → Lags slot (t.procs j) y := by
      intro j hj y h
      rcases y with _ | (y | y)
      · exact (hidx j hj).trans h
      · exact (hidx j hj).trans h
      · exact ⟨h.1, (hidx j hj).trans h.2⟩
    have hagree : ∀ j, j ≠ i → ∀ y, Agrees (s.procs j) y → Agrees (t.procs j) y := by
      intro j hj y h
      rcases y with _ | (y | y)
      · exact (hidx j hj).trans h
      · exact (hidx j hj).trans h
      · exact h.elim
    obtain ⟨s', pos', hs, hinv, hag, hadj'⟩ := ih hns hit
      (by
        intro j hj
        have hji : j ≠ i := by
          rintro rfl
          exact hni hj
        rw [update_of_ne hji]
        exact hlag j hji _ (hl j (mem_cons_of_mem _ hj)))
      (by
        intro j hj
        rcases eq_or_ne j i with rfl | hji
        · rw [update_self]
          exact hat
        · rw [update_of_ne hji]
          exact hagree j hji _ (ha j (by simp [hji, hj])))
    refine ⟨s', pos', ?_, hinv, hag, hadj.trans hadj'⟩
    rw [foldlM_cons, ht]
    exact hs

/-- The index of each process is that of its position, except that one process whose reply has just
come may be due from the next subscriber on. -/
def Before (slot : Nat) (p : Proc) : Option Pos → Prop
  | none => p.eventsub = none
  | some (.waits j) => p.eventsub = some j
  | some (.due k) => k = slot + 1 ∧ p.eventsub = some slot

theorem shift_eventsub (s : State n) (i : Fin n) :
    ((s.shift slot).procs i).eventsub = (s.procs i).eventsub := by
  rw [shift_procs]
  split_ifs <;> rfl

theorem Before.lags (h : Before slot (s.procs i) x) :
    Lags slot ((s.shift slot).procs i) (x.map (Pos.shift slot)) := by
  rcases x with _ | (j | k)
  · exact (shift_eventsub s i).trans h
  · have hk : ((s.shift slot).procs i).eventsub = some j := (shift_eventsub s i).trans h
    simp only [Option.map_some, Pos.shift]
    split_ifs with h₁ h₂
    · exact ⟨rfl, h₁ ▸ hk⟩
    · refine hk.trans (congrArg some ?_)
      rw [up, if_pos (by omega)]
      omega
    · refine hk.trans (congrArg some ?_)
      rw [up, if_neg (by omega)]
  · exact ⟨rfl, (shift_eventsub s i).trans h.2⟩

theorem removeSub_spec (hf : rest.Frames) (hi : Inv s pos) (hs : slot < s.nsubs)
    (hb : ∀ i, Before slot (s.procs i) (pos i)) :
    ∃ s' pos', removeSub rest slot s = .ok s' ∧ Inv s' pos' ∧
      (∀ i, Agrees (s'.procs i) (pos' i)) ∧ Adjusted (s.shift slot) s' := by
  have hdue : ∀ i k, pos i = some (.due k) → k = slot + 1 := by
    intro i k hk
    have := hb i
    rw [hk] at this
    exact this.1
  exact adjust_loop hf (nodup_finRange n) (hi.shift hs hdue) (fun i _ => (hb i).lags)
    fun i h => absurd (mem_finRange i) h

end Gergios.Pm
