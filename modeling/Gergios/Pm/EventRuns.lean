import Gergios.Pm.EventSteps

/-!
# Runs of the event facility
-/

namespace Gergios.Pm

variable {n : Nat} {s s₀ : State n}

theorem State.Initial.eventInv (h : s.Initial) : EventInv s fun _ => none where
  inv :=
    { bound := by rw [h.nsubs]; exact Nat.zero_le _
      order := fun i j _ hj => by simp [h.nsubs] at hj
      fresh := fun j hj => by simp [h.nsubs] at hj
      waiting := fun j hj => by simp [h.nsubs] at hj
      placed := fun i => by
        obtain ⟨hc, -, hl⟩ := h.procs i
        refine ⟨hc, ?_, ?_, ?_, ?_⟩ <;> simp [hl] }
  agrees i := (h.procs i).2.1
  nested := h.nested
  gone j hj := by simp [h.nsubs] at hj

theorem EventInv.run (h₀ : s₀.Initial) (h : Relation.ReflTransGen EventStep s₀ s) :
    ∃ pos, EventInv s pos := by
  induction h with
  | refl => exact ⟨_, h₀.eventInv⟩
  | tail _ hstep ih =>
    obtain ⟨pos, hi⟩ := ih
    obtain ⟨op, ha, hfit, hp⟩ := hstep
    obtain ⟨s', pos', hp', hi'⟩ := hi.step op ha hfit
    rw [hp] at hp'
    cases hp'
    exact ⟨pos', hi'⟩

/-- In a run of steps that fit all is in order and no assertion fails; and a subscription keeps it
so just if it fits. -/
theorem event_runs_ok (h₀ : s₀.Initial) (h : Relation.ReflTransGen EventStep s₀ s) :
    EventOk s ∧ (∀ op : EventOp n, op.Allowed s → op.Fits s → ∃ s', op.perform s = .ok s') ∧
      ∀ (rest : Rest n) (who : Int) (priv : Bool) (mask : Nat), rest.Frames →
        ∃ s', (EventOp.subscribe rest who priv mask).perform s = .ok s' ∧
          (EventOk s' ↔ (EventOp.subscribe rest who priv mask).Fits s) := by
  obtain ⟨pos, hi⟩ := EventInv.run h₀ h
  refine ⟨hi.ok, ?_, ?_⟩
  · intro op ha hfit
    obtain ⟨s', -, hp, -⟩ := hi.step op ha hfit
    exact ⟨s', hp⟩
  · intro rest who priv mask hf
    obtain ⟨s', hs, hok, hbad⟩ := subscribe_spec hf hi who priv mask
    refine ⟨s', hs, ?_, ?_⟩
    · intro h
      by_contra hn
      exact hbad hn h
    · intro hfit
      obtain ⟨pos', hi'⟩ := hok hfit
      exact hi'.ok

def quiet (n : Nat) : Rest n := ⟨fun _ ps => ps, fun _ ps => ps⟩

theorem quiet_frames (n : Nat) : (quiet n).Frames := by
  intro event i ps j
  have hsame : (quiet n).after event i ps j = ps j := by cases event <;> rfl
  rw [hsame]
  split_ifs with hc
  · rfl
  · exact ⟨by simpa using hc, rfl, rfl⟩

def oneExiting : State 1 where
  subs _ := ⟨0, 0, 0, 0⟩
  nsubs := 0
  nested := 0
  procs _ := ⟨true, false, true, false, false, 7, none, ⟨0, 0, [], [], []⟩⟩
  serials := 0

theorem oneReply_owed : ∃ s : State 1, Relation.ReflTransGen EventStep oneExiting s ∧
    s.nsubs = 1 ∧ (s.subs 1).waiting = 1 ∧ s.findSub 22 = none ∧ (s.procs 0).eventsub = some 0 := by
  have h₀ : Relation.ReflTransGen EventStep oneExiting oneExiting := .refl
  have h₁ := h₀.tail ⟨.subscribe (quiet 1) 20 true 2, quiet_frames 1, fun _ => rfl, rfl⟩
  have h₂ := h₁.tail ⟨.subscribe (quiet 1) 21 true 1, quiet_frames 1, fun _ => rfl, rfl⟩
  have h₃ := h₂.tail ⟨.exited (quiet 1) 0, ⟨quiet_frames 1, rfl, rfl, rfl⟩,
    (fun hp => by cases hp), rfl⟩
  have h₄ := h₃.tail ⟨.subscribe (quiet 1) 20 true 0, quiet_frames 1,
    fun ha => absurd rfl ha.2.2.1, rfl⟩
  exact ⟨_, h₄, rfl, rfl, rfl, rfl⟩

theorem event_runs_ok_owed : ∃ s : State 1, Relation.ReflTransGen EventStep oneExiting s ∧
    (s.procs 0).eventsub = some 0 ∧
    EventOk s ∧ (∀ op : EventOp 1, op.Allowed s → op.Fits s → ∃ s', op.perform s = .ok s') ∧
      ∀ (rest : Rest 1) (who : Int) (priv : Bool) (mask : Nat), rest.Frames →
        ∃ s', (EventOp.subscribe rest who priv mask).perform s = .ok s' ∧
          (EventOk s' ↔ (EventOp.subscribe rest who priv mask).Fits s) := by
  obtain ⟨s, hs, -, -, -, hsub⟩ := oneReply_owed
  exact ⟨s, hs, hsub, event_runs_ok ⟨rfl, rfl, fun _ => rfl, fun _ => ⟨rfl, rfl, rfl⟩⟩ hs⟩

/-- The next subscriber takes over the count of the slot that service 21 has left. -/
theorem subscribe_takes_stale_count : ∃ s s' : State 1,
    Relation.ReflTransGen EventStep oneExiting s ∧
      (EventOp.subscribe (quiet 1) 22 true 1).perform s = .ok s' ∧
      s'.nsubs = 2 ∧ (s'.subs 1).waiting = 1 ∧ s'.waitingFor 1 = ∅ ∧ ¬EventOk s' := by
  obtain ⟨s, hs, hn, hw, hfind, hsub⟩ := oneReply_owed
  have hperform : (EventOp.subscribe (quiet 1) 22 true 1).perform s = .ok (s.addSub 22 1) := by
    simp only [EventOp.perform, doProceventmask, hfind]
    simp [hn, nrSubs]
    rfl
  have hcount : ((s.addSub 22 1).subs 1).waiting = 1 := by
    simp [State.addSub, State.setSub, hn, hw]
  have hempty : (s.addSub 22 1).waitingFor 1 = ∅ := by
    apply Finset.eq_empty_of_forall_notMem
    intro i hi
    obtain rfl : i = 0 := Subsingleton.elim _ _
    have hidx : (s.procs 0).eventsub = some 1 := (Finset.mem_filter.mp hi).2.2
    rw [hsub] at hidx
    cases hidx
  have hnsubs : (s.addSub 22 1).nsubs = 2 := by
    simp [State.addSub, hn]
  refine ⟨s, _, hs, hperform, hnsubs, hcount, hempty, ?_⟩
  intro hok
  have hright := hok.waiting 1 (by omega)
  rw [hcount, hempty] at hright
  cases hright

end Gergios.Pm
