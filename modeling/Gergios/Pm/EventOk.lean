import Gergios.Pm.EventRemove

/-!
# What the event facility promises

Services subscribe, change their masks, reply and die in any order, and the rest of the process
manager runs in between. The promises are stated on the indexes and counts that the code keeps.
-/

namespace Gergios.Pm

open Lib

variable {n : Nat}

inductive EventOp (n : Nat) where
  | subscribe (rest : Rest n) (who : Int) (priv : Bool) (mask : Nat)
  | reply (rest : Rest n) (who : Int) (priv : Bool) (target : Option (Fin n)) (event : Nat)
  | exited (rest : Rest n) (i : Fin n)
  | unpaused (rest : Rest n) (i : Fin n)
  | other (ps : Fin n → Proc)

variable (s : State n)

def State.unpause (i : Fin n) : State n :=
  s.setProc i { s.procs i with unpaused := true }

def EventOp.perform : EventOp n → Except Failure (State n)
  | .subscribe rest who priv mask => do
    let (_, s) ← doProceventmask rest who priv mask s
    return s
  | .reply rest who priv target event => do
    let (_, s) ← doProcEventReply rest who priv target event s
    return s
  | .exited rest i => publishEvent rest i s
  | .unpaused rest i => publishEvent rest i (s.unpause i)
  | .other ps => return { s with procs := ps }

def EventOp.Allowed : EventOp n → Prop
  | .subscribe rest _ _ _ => rest.Frames
  | .reply rest _ _ _ _ => rest.Frames
  | .exited rest i => rest.Frames ∧ (s.procs i).inUse = true ∧ (s.procs i).eventCall = false ∧
      (s.procs i).exiting = true
  | .unpaused rest i => rest.Frames ∧ (s.procs i).inUse = true ∧ (s.procs i).eventCall = false ∧
      (s.procs i).exiting = false
  | .other ps => Elsewhere s.procs ps

def State.adds (who : Int) (priv : Bool) (mask : Nat) : Prop :=
  priv = true ∧ s.findSub who = none ∧ mask ≠ 0 ∧ s.nsubs ≠ nrSubs

def Rest.Keeps (rest : Rest n) (i : Fin n) : Prop :=
  ∀ event j ps, j ≠ i → rest.after event j ps i = ps i

/-- A new subscription takes a slot whose count is zero. When a subscribing service has died, no
process that goes on because of it touches the service's own slot. -/
def EventOp.Fits : EventOp n → Prop
  | .subscribe _ who priv mask => s.adds who priv mask → (s.subs s.nsubs).waiting = 0
  | .exited rest i => (s.procs i).priv = true → s.findSub (s.procs i).endpoint ≠ none → rest.Keeps i
  | _ => True

def EventStep (s s' : State n) : Prop :=
  ∃ op : EventOp n, op.Allowed s ∧ op.Fits s ∧ op.perform s = .ok s'

structure State.Initial (s : State n) : Prop where
  nsubs : s.nsubs = 0
  nested : s.nested = 0
  subs : ∀ j, (s.subs j).waiting = 0
  procs : ∀ i, (s.procs i).eventCall = false ∧ (s.procs i).eventsub = none ∧
    (s.procs i).log = ⟨0, 0, [], [], []⟩

/-- The processes that wait for a reply of subscriber `j`. -/
def State.waitingFor (j : Nat) : Finset (Fin n) :=
  Finset.univ.filter fun i => (s.procs i).eventCall = true ∧ (s.procs i).eventsub = some j

structure EventOk (s : State n) : Prop where
  waiting : ∀ j, j < s.nsubs → (s.subs j).waiting = (s.waitingFor j).card
  owed : ∀ i, (s.procs i).eventCall = true → ∃ j, j < s.nsubs ∧ (s.procs i).eventsub = some j ∧
    (s.procs i).log.owed = [(s.subs j).serial]
  /-- Subscriptions stand in the order in which they were made. -/
  order : ∀ i j, i < j → j < s.nsubs → (s.subs i).serial < (s.subs j).serial
  /-- An event is sent to each subscription at most once, in that order. -/
  sorted : ∀ i, (s.procs i).log.notified.Pairwise (· < ·)
  reached : ∀ i j k, (s.procs i).eventCall = true → (s.procs i).eventsub = some j → k ≤ j →
    (s.subs k).serial ∈ (s.procs i).log.must → (s.subs k).serial ∈ (s.procs i).log.notified
  complete : ∀ i, (s.procs i).eventCall = false →
    ∀ x ∈ (s.procs i).log.must, x ∈ (s.procs i).log.notified
  /-- A service that has unsubscribed stays only as long as it owes a reply. -/
  gone : ∀ j, j < s.nsubs → (s.subs j).mask = 0 → (s.waitingFor j).Nonempty
  once : ∀ i, (s.procs i).log.published =
    (s.procs i).log.resumed + if (s.procs i).eventCall then 1 else 0

/-- Every unsubscribed service other than `but` owes a reply. -/
def Gone (but : Option Nat) : Prop :=
  ∀ j, j < s.nsubs → but ≠ some j → (s.subs j).mask = 0 → 0 < (s.subs j).waiting

structure EventInv (s : State n) (pos : Fin n → Option Pos) : Prop where
  inv : Inv s pos
  agrees : ∀ i, Agrees (s.procs i) (pos i)
  nested : s.nested = 0
  gone : Gone s none

variable {p : Proc} {x : Option Pos} {s : State n} {pos : Fin n → Option Pos}

theorem Agrees.before (h : Agrees p x) (slot : Nat) : Before slot p x := by
  rcases x with _ | (j | k)
  · exact h
  · exact h
  · exact h.elim

theorem Agrees.congr {p' : Proc} (h : Agrees p x)
    (he : p'.eventsub = p.eventsub) : Agrees p' x := by
  rcases x with _ | (j | k)
  · exact he.trans h
  · exact he.trans h
  · exact h.elim

theorem Agrees.eventsub_iff (h : Agrees p x) (hp : Placed s p x) (j : Nat) :
    (p.eventCall = true ∧ p.eventsub = some j) ↔ x = some (.waits j) := by
  rcases x with _ | (k | k)
  · simp [hp.1]
  · have hk : p.eventsub = some k := h
    simp [hp.2.eventCall, hk]
  · exact h.elim

theorem EventInv.waitingFor (h : EventInv s pos) (j : Nat) : s.waitingFor j = waiters pos j := by
  ext i
  rw [mem_waiters, ← (h.agrees i).eventsub_iff (h.inv.placed i) j]
  simp [State.waitingFor]

theorem EventInv.ok (h : EventInv s pos) : EventOk s where
  waiting := by
    intro j hj
    rw [h.waitingFor, h.inv.waiting j hj]
  owed := by
    intro i hc
    have ha := h.agrees i
    have hp := h.inv.placed i
    revert ha hp
    rcases pos i with _ | (j | k)
    · intro _ hp
      simp [hp.1] at hc
    · rintro ha ⟨hj, hact⟩
      exact ⟨j, hj, ha, hact.owes⟩
    · exact fun ha => ha.elim
  order := h.inv.order
  sorted := by
    intro i
    have ha := h.agrees i
    have hp := h.inv.placed i
    revert ha hp
    rcases pos i with _ | (j | k)
    · exact fun _ hp => hp.2.sorted
    · rintro - ⟨-, hact⟩
      obtain ⟨e, -, hl⟩ := hact.log
      exact hl.sorted
    · exact fun ha => ha.elim
  reached := by
    intro i j k hc hj hk hm
    have ha := h.agrees i
    have hp := h.inv.placed i
    rw [((h.agrees i).eventsub_iff hp j).mp ⟨hc, hj⟩] at hp
    obtain ⟨hn, hact⟩ := hp
    obtain ⟨e, -, hl⟩ := hact.log
    exact hl.past k (by omega) (by omega) hm
  complete := by
    intro i hc
    have ha := h.agrees i
    have hp := h.inv.placed i
    revert ha hp
    rcases pos i with _ | (j | k)
    · exact fun _ hp => hp.2.complete
    · rintro - ⟨-, hact⟩
      simp [hact.eventCall] at hc
    · exact fun ha => ha.elim
  gone := by
    intro j hj hm
    rw [h.waitingFor, ← Finset.card_pos, ← h.inv.waiting j hj]
    exact h.gone j hj (by simp) hm
  once := by
    intro i
    have ha := h.agrees i
    have hp := h.inv.placed i
    revert ha hp
    rcases pos i with _ | (j | k)
    · rintro - ⟨hc, hd⟩
      simp [hc, hd.once]
    · rintro - ⟨-, hact⟩
      simp [hact.eventCall, hact.once]
    · exact fun ha => ha.elim

end Gergios.Pm
