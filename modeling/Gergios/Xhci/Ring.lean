import Mathlib.Data.List.Range
import Mathlib.Tactic.Ring

/-!
# Producer rings of the xHCI driver

The driver and a controller that goes by the cycle bits. `advance_dequeue`, which would give
consumed slots back and change the cycle, has no caller: a ring is used once, from slot 0 up to the
slot before the last. Transfer rings are given to the controller with the cycle state 0, which is
the low bit of their address, and the driver writes 1.
-/

namespace Gergios.Xhci

open Function Relation List

def maxTrbDataLen : Nat := 131071

inductive Body where
  | zeroed
  | link
  | command (parameter : Nat)
  | setup (packet : Nat) (chain : Bool)
  | data (phys len : Nat)
  | status
  | normal (phys len : Nat) (chain ioc : Bool)
  deriving DecidableEq

structure Trb where
  cycle : Bool
  body : Body

/-- `TrbRing` with the memory of its slots. -/
structure Ring where
  numTrbs : Nat
  enqueueIdx : Nat
  dequeueIdx : Nat
  cycle : Bool
  mem : Nat → Trb

namespace Ring

def new (numTrbs : Nat) (initialCycle : Bool) : Ring :=
  ⟨numTrbs, 0, 0, initialCycle, fun _ => ⟨false, .zeroed⟩⟩

def isFull (r : Ring) : Bool := (r.enqueueIdx + 1) % r.numTrbs == r.dequeueIdx

def reserve (r : Ring) : Option (Nat × Ring) :=
  if r.isFull then none
  else
    let nextIdx := (r.enqueueIdx + 1) % r.numTrbs
    let mem := if nextIdx = 0 then update r.mem (r.numTrbs - 1) ⟨r.cycle, .link⟩ else r.mem
    some (r.enqueueIdx, { r with mem := mem, enqueueIdx := nextIdx })

/-- Slots are reserved and written one after the other; a slot that cannot be reserved ends the
submission with what has been written. -/
def putAll (r : Ring) : List Body → Ring × List (Nat × Body) × Bool
  | [] => (r, [], true)
  | body :: rest =>
    match r.reserve with
    | none => (r, [], false)
    | some (i, r') =>
      let res := { r' with mem := update r'.mem i ⟨r.cycle, body⟩ }.putAll rest
      (res.1, (i, body) :: res.2.1, res.2.2)

end Ring

/-- The TRBs of `queue_bulk_transfer`. -/
def segments : Nat → Nat → Nat → Bool → List Body
  | 0, _, _, _ => []
  | k + 1, phys, remaining, ioc =>
    let len := if remaining > maxTrbDataLen then maxTrbDataLen else remaining
    .normal phys len (k != 0) (k == 0 && ioc) :: segments k (phys + len) (remaining - len) ioc

inductive Submission where
  | command (parameter : Nat)
  | control (packet phys len : Nat)
  | bulk (phys len : Nat) (ioc : Bool)

namespace Submission

def bodies : Submission → List Body
  | command parameter => [.command parameter]
  | control packet phys len =>
    if 0 < len then [.setup packet true, .data phys len, .status]
    else [.setup packet false, .status]
  | bulk phys len ioc =>
    segments ((len + maxTrbDataLen - 1) % 2 ^ 32 / maxTrbDataLen) phys len ioc

/-- `submit_command`, `control_transfer` and `queue_bulk_transfer` up to the doorbell. -/
def perform (r : Ring) (x : Submission) : Ring × List (Nat × Body) × Bool :=
  match x with
  | bulk .. =>
    if x.bodies.length + 1 > r.numTrbs - 1 ∨ x.bodies = [] then (r, [], false)
    else r.putAll x.bodies
  | _ => r.putAll x.bodies

end Submission

/-- The ring with the place and the cycle state of the controller. What has been committed and
consumed are ghosts, with the slots. -/
structure Sys where
  ring : Ring
  idx : Nat
  ccs : Bool
  doorbell : Bool
  committed : List (Nat × Body)
  consumed : List (Nat × Body)

namespace Sys

/-- The command ring is given to the controller with the cycle state `true`, a transfer ring with
`false`. -/
def start (n : Nat) (ccs : Bool) : Sys := ⟨.new n true, 0, ccs, false, [], []⟩

def submit (s : Sys) (x : Submission) : Sys :=
  let r := x.perform s.ring
  { s with
    ring := r.1
    doorbell := s.doorbell || r.2.2
    committed := if r.2.2 then s.committed ++ r.2.1 else s.committed }

/-- The TRB at its place is the controller's. -/
def Ready (s : Sys) : Prop := s.doorbell = true ∧ (s.ring.mem s.idx).cycle = s.ccs

def consume (s : Sys) : Sys :=
  let body := (s.ring.mem s.idx).body
  if body = .link then { s with idx := 0, ccs := !s.ccs }
  else { s with idx := s.idx + 1, consumed := s.consumed ++ [(s.idx, body)] }

inductive Step (s : Sys) : Sys → Prop
  | submit (x : Submission) : Step s (s.submit x)
  | consume : s.Ready → Step s s.consume

/-- The controller takes the committed TRBs, each once and in order, until none is left, and the
next slot is not one of those it has not taken. -/
structure Right (s : Sys) : Prop where
  ordered : s.consumed = s.committed.take s.consumed.length
  exact : ¬s.Ready → s.consumed = s.committed
  apart : ∀ i r, s.ring.reserve = some (i, r) → ∀ c ∈ s.committed.drop s.consumed.length, c.1 ≠ i

end Sys

/-- The TRBs of a submission fit behind those that were ever submitted. -/
def Submission.Fits (r : Ring) (x : Submission) : Prop :=
  x.bodies ≠ [] ∧ r.enqueueIdx + x.bodies.length ≤ r.numTrbs - 1 ∧
    (∀ phys len ioc, x = .bulk phys len ioc → x.bodies.length + 1 ≤ r.numTrbs - 1)

inductive FittingStep (s : Sys) : Sys → Prop
  | submit (x : Submission) : x.Fits s.ring → FittingStep s (s.submit x)
  | consume : s.Ready → FittingStep s s.consume

/-- A ring that holds what was ever submitted, in the slots from 0 on. -/
structure Filled (n : Nat) (r : Ring) (log : List (Nat × Body)) : Prop where
  numTrbs : r.numTrbs = n
  dequeueIdx : r.dequeueIdx = 0
  cycle : r.cycle = true
  length : log.length = r.enqueueIdx
  slot : ∀ i < r.enqueueIdx, log[i]? = some (i, (r.mem i).body) ∧ (r.mem i).cycle = true ∧
    (r.mem i).body ≠ .link
  free : ∀ i, r.enqueueIdx ≤ i → (r.mem i).cycle = false

structure Inv (n : Nat) (s : Sys) : Prop where
  filled : Filled n s.ring s.committed
  ccs : s.ccs = true
  idx_le : s.idx ≤ s.committed.length
  consumed : s.consumed = s.committed.take s.idx
  doorbell : s.committed ≠ [] → s.doorbell = true

section

variable {n : Nat} {r : Ring} {log : List (Nat × Body)} {body : Body} {s : Sys} {x : Submission}

theorem Filled.reserve (h : Filled n r log) (hlt : r.enqueueIdx + 1 < n) :
    r.reserve = some (r.enqueueIdx, { r with enqueueIdx := r.enqueueIdx + 1 }) := by
  have hnext : (r.enqueueIdx + 1) % r.numTrbs = r.enqueueIdx + 1 := by
    rw [h.numTrbs, Nat.mod_eq_of_lt hlt]
  have hfull : r.isFull = false := by
    rw [Ring.isFull, hnext, h.dequeueIdx]
    rfl
  simp only [Ring.reserve, hfull, hnext, Bool.false_eq_true, if_false, Nat.succ_ne_zero]

theorem Filled.put (h : Filled n r log) (hbody : body ≠ .link) : Filled n { r with
        enqueueIdx := r.enqueueIdx + 1
        mem := update r.mem r.enqueueIdx ⟨r.cycle, body⟩ } (log ++ [(r.enqueueIdx, body)]) where
  numTrbs := h.numTrbs
  dequeueIdx := h.dequeueIdx
  cycle := h.cycle
  length := by rw [length_append, h.length]; rfl
  slot i hi := by
    rcases Nat.lt_succ_iff_lt_or_eq.mp hi with hlt | rfl
    · rw [getElem?_append_left (h.length ▸ hlt)]
      simp only [update_of_ne (Nat.ne_of_lt hlt)]
      exact h.slot i hlt
    · rw [getElem?_append_right (Nat.le_of_eq h.length), h.length, Nat.sub_self]
      simp only [update_self]
      exact ⟨rfl, h.cycle, hbody⟩
  free i hi := by
    simp only [update_of_ne (Nat.ne_of_gt (Nat.lt_of_succ_le hi))]
    exact h.free i (Nat.le_of_succ_le hi)

theorem Filled.putAll {bodies : List Body} (h : Filled n r log) (hbodies : .link ∉ bodies)
    (hle : r.enqueueIdx + bodies.length ≤ n - 1) :
    (r.putAll bodies).2.2 = true ∧ Filled n (r.putAll bodies).1 (log ++ (r.putAll bodies).2.1) := by
  induction bodies generalizing r log with
  | nil => exact ⟨rfl, by rwa [Ring.putAll, append_nil]⟩
  | cons body rest ih =>
    rw [mem_cons, not_or] at hbodies
    rw [length_cons] at hle
    simp only [Ring.putAll, h.reserve (by omega)]
    rw [append_cons]
    exact ih (h.put (Ne.symm hbodies.1)) hbodies.2 (by dsimp only; omega)

theorem link_notMem_segments (k phys remaining : Nat) (ioc : Bool) :
    .link ∉ segments k phys remaining ioc := by
  induction k generalizing phys remaining with
  | zero => exact not_mem_nil
  | succ k ih =>
    rw [segments, mem_cons, not_or]
    exact ⟨nofun, ih _ _⟩

theorem link_notMem_bodies (x : Submission) : .link ∉ x.bodies := by
  cases x with
  | command parameter => simp [Submission.bodies]
  | control packet phys len =>
    rw [Submission.bodies]
    split <;> simp
  | bulk phys len ioc => exact link_notMem_segments _ _ _ _

theorem perform_of_fits (hx : x.Fits r) : x.perform r = r.putAll x.bodies := by
  cases x with
  | bulk phys len ioc =>
    refine if_neg (not_or.mpr ⟨?_, hx.1⟩)
    exact Nat.not_lt.mpr (hx.2.2 phys len ioc rfl)
  | _ => rfl

theorem perform_ok (h : Filled n r log) (hx : x.Fits r) :
    (x.perform r).2.2 = true ∧ Filled n (x.perform r).1 (log ++ (x.perform r).2.1) := by
  rw [perform_of_fits hx]
  exact h.putAll (link_notMem_bodies x) (h.numTrbs ▸ hx.2.1)

theorem start_inv (n : Nat) : Inv n (.start n true) where
  filled := ⟨rfl, rfl, rfl, rfl, fun _ hi => absurd hi (Nat.not_lt_zero _), fun _ _ => rfl⟩
  ccs := rfl
  idx_le := Nat.le_refl _
  consumed := rfl
  doorbell h := absurd rfl h

theorem submit_inv (h : Inv n s) (hx : x.Fits s.ring) : Inv n (s.submit x) := by
  obtain ⟨hok, hfilled⟩ := perform_ok h.filled hx
  refine ⟨?_, h.ccs, ?_, ?_, ?_⟩
  all_goals simp only [Sys.submit, hok, if_true, Bool.or_true]
  · exact hfilled
  · exact Nat.le_trans h.idx_le (length_append ▸ Nat.le_add_right _ _)
  · rw [take_append_of_le_length h.idx_le]
    exact h.consumed
  · exact fun _ => trivial

theorem Inv.lt_of_ready (h : Inv n s) (hready : s.Ready) : s.idx < s.ring.enqueueIdx := by
  apply Nat.lt_of_not_le
  intro hle
  have hcycle := hready.2
  rw [h.filled.free _ hle, h.ccs] at hcycle
  exact Bool.false_ne_true hcycle

theorem consume_inv (h : Inv n s) (hready : s.Ready) : Inv n s.consume := by
  have hlt := h.lt_of_ready hready
  obtain ⟨hslot, -, hbody⟩ := h.filled.slot _ hlt
  rw [Sys.consume, if_neg hbody]
  refine ⟨h.filled, h.ccs, h.filled.length ▸ hlt, ?_, h.doorbell⟩
  rw [h.consumed, take_add_one, hslot]
  rfl

theorem fitting_inv (h : ReflTransGen FittingStep (.start n true) s) : Inv n s := by
  induction h with
  | refl => exact start_inv n
  | tail _ hstep ih =>
    cases hstep with
    | submit x hx => exact submit_inv ih hx
    | consume hready => exact consume_inv ih hready

theorem Inv.right (h : Inv n s) : s.Right := by
  have hlength : s.consumed.length = s.idx := by
    rw [h.consumed, length_take, Nat.min_eq_left h.idx_le]
  refine ⟨by rw [hlength]; exact h.consumed, fun hready => ?_, fun i r hi c hc => ?_⟩
  · rcases Nat.lt_or_ge s.idx s.ring.enqueueIdx with hlt | hge
    · have hne : s.committed ≠ [] := fun hnil => by
        rw [← h.filled.length, hnil] at hlt
        exact absurd hlt (Nat.not_lt_zero _)
      refine absurd ⟨h.doorbell hne, ?_⟩ hready
      rw [(h.filled.slot _ hlt).2.1, h.ccs]
    · rw [h.consumed, take_of_length_le (h.filled.length ▸ hge)]
  · obtain ⟨j, hj⟩ := mem_iff_getElem?.mp (mem_of_mem_drop hc)
    have hlt : j < s.ring.enqueueIdx := h.filled.length ▸ (List.getElem?_eq_some_iff.mp hj).1
    rw [(h.filled.slot j hlt).1] at hj
    have hnext : i = s.ring.enqueueIdx := by
      rw [Ring.reserve] at hi
      split at hi
      · cases hi
      · exact (Prod.mk.inj (Option.some.inj hi)).1.symm
    rw [hnext, ← Option.some.inj hj]
    exact Nat.ne_of_lt hlt

/-- The controller waits at slot 0 for a cycle bit that the driver never writes. -/
structure Stuck (s : Sys) : Prop where
  dequeueIdx : s.ring.dequeueIdx = 0
  cycle : s.ring.cycle = true
  first : s.ring.enqueueIdx = 0 ∨ (s.ring.mem 0).cycle = true
  ccs : s.ccs = false
  idx : s.idx = 0
  consumed : s.consumed = []
  doorbell : s.doorbell = true → s.ring.enqueueIdx ≠ 0

theorem putAll_stuck (bodies : List Body) (hd : r.dequeueIdx = 0) (hc : r.cycle = true)
    (hfirst : r.enqueueIdx = 0 ∨ (r.mem 0).cycle = true) :
    (r.putAll bodies).1.dequeueIdx = 0 ∧ (r.putAll bodies).1.cycle = true ∧
      ((r.putAll bodies).1.enqueueIdx = 0 ∨ ((r.putAll bodies).1.mem 0).cycle = true) ∧
      (r.enqueueIdx ≠ 0 ∨ bodies ≠ [] ∧ (r.putAll bodies).2.2 = true →
        (r.putAll bodies).1.enqueueIdx ≠ 0) := by
  induction bodies generalizing r with
  | nil => exact ⟨hd, hc, hfirst, fun h => h.resolve_right fun h => h.1 rfl⟩
  | cons body rest ih =>
    by_cases hfull : r.isFull = true
    · simp only [Ring.putAll, Ring.reserve, hfull]
      exact ⟨hd, hc, hfirst, fun h => h.resolve_right fun h => Bool.false_ne_true h.2⟩
    · have hnext : (r.enqueueIdx + 1) % r.numTrbs ≠ 0 := fun h0 => by
        rw [Ring.isFull, h0, hd] at hfull
        exact hfull rfl
      simp only [Ring.putAll, Ring.reserve, if_neg hfull, if_neg hnext]
      have hslot : (update r.mem r.enqueueIdx ⟨r.cycle, body⟩ 0).cycle = true := by
        rcases Nat.eq_zero_or_pos r.enqueueIdx with h0 | hpos
        · rw [h0]
          exact hc
        · rw [update_of_ne (Nat.ne_of_lt hpos)]
          exact hfirst.resolve_left (Nat.ne_of_gt hpos)
      obtain ⟨h1, h2, h3, h4⟩ := ih (r := { r with
        enqueueIdx := (r.enqueueIdx + 1) % r.numTrbs
        mem := update r.mem r.enqueueIdx ⟨r.cycle, body⟩ }) hd hc (.inr hslot)
      exact ⟨h1, h2, h3, fun _ => h4 (.inl hnext)⟩

theorem perform_cases (r : Ring) (x : Submission) :
    x.perform r = (r, [], false) ∨ x.bodies ≠ [] ∧ x.perform r = r.putAll x.bodies := by
  cases x with
  | command parameter => exact .inr ⟨nofun, rfl⟩
  | control packet phys len =>
    refine .inr ⟨?_, rfl⟩
    rw [Submission.bodies]
    split <;> nofun
  | bulk phys len ioc =>
    rw [Submission.perform]
    split
    · exact .inl rfl
    · next h => exact .inr ⟨(not_or.mp h).2, rfl⟩

theorem submit_stuck (h : Stuck s) (x : Submission) : Stuck (s.submit x) := by
  rcases perform_cases s.ring x with heq | ⟨hne, heq⟩
  · simp only [Sys.submit, heq, Bool.or_false]
    exact ⟨h.dequeueIdx, h.cycle, h.first, h.ccs, h.idx, h.consumed, h.doorbell⟩
  · obtain ⟨h1, h2, h3, h4⟩ := putAll_stuck x.bodies h.dequeueIdx h.cycle h.first
    simp only [Sys.submit, heq]
    refine ⟨h1, h2, h3, h.ccs, h.idx, h.consumed, fun hbell => h4 ?_⟩
    exact (Bool.or_eq_true_iff.mp hbell).imp h.doorbell fun hok => ⟨hne, hok⟩

theorem stuck_of_run (h : ReflTransGen Sys.Step (.start n false) s) : Stuck s := by
  induction h with
  | refl => exact ⟨rfl, rfl, .inl rfl, rfl, rfl, rfl, nofun⟩
  | tail _ hstep ih =>
    cases hstep with
    | submit x => exact submit_stuck ih x
    | consume hready =>
      have hcycle := hready.2
      rw [ih.idx, ih.first.resolve_left (ih.doorbell hready.1), ih.ccs] at hcycle
      cases hcycle

end

/-- On the command ring, as long as all TRBs that were ever submitted fit before the last slot,
every submission succeeds and the controller takes what was submitted. From a transfer ring the
controller never takes anything. -/
theorem fitting_runs_right (n : Nat) : (∀ s, ReflTransGen FittingStep (.start n true) s →
      s.Right ∧ ∀ x : Submission, x.Fits s.ring → (x.perform s.ring).2.2 = true) ∧
    ∀ s, ReflTransGen Sys.Step (.start n false) s → s.consumed = [] := by
  refine ⟨fun s hs => ?_, fun s hs => (stuck_of_run hs).consumed⟩
  have hinv := fitting_inv hs
  exact ⟨hinv.right, fun x hx => (perform_ok hinv.filled hx).1⟩

/-- A ring of eight TRBs with a command, which the controller has taken, and a control transfer of
three TRBs behind it, of which it has taken the first. -/
theorem fitting_run_of_transfer : ∃ s, ReflTransGen FittingStep (.start 8 true) s ∧ s.Right ∧
    s.committed.length = 4 ∧ s.consumed.length = 2 ∧
    (Submission.perform s.ring (.command 3)).2.2 = true := by
  let s₁ := ((Sys.start 8 true).submit (.command 1)).consume
  let s₂ := (s₁.submit (.control 6 4096 18)).consume
  have h₁ : ReflTransGen FittingStep (.start 8 true) s₁ :=
    (ReflTransGen.single (.submit (.command 1) ⟨by decide, by decide, nofun⟩)).tail
      (.consume ⟨rfl, rfl⟩)
  have h₂ : ReflTransGen FittingStep (.start 8 true) s₂ :=
    (h₁.tail (.submit (.control 6 4096 18) ⟨by decide, by decide, nofun⟩)).tail
      (.consume ⟨rfl, rfl⟩)
  obtain ⟨hright, hsubmit⟩ := (fitting_runs_right 8).1 _ h₂
  exact ⟨s₂, h₂, hright, by decide, by decide, hsubmit _ ⟨by decide, by decide, nofun⟩⟩

/-- A ring of three TRBs after two commands that the controller has taken: no command can be
submitted any more. -/
theorem ring_full_for_ever :
    ∃ s, ReflTransGen Sys.Step (.start 3 true) s ∧ s.consumed = s.committed ∧
      s.committed.map (·.2) = [.command 1, .command 2] ∧
      ∀ parameter, Submission.perform s.ring (.command parameter) = (s.ring, [], false) := by
  let s₁ := (Sys.start 3 true).submit (.command 1)
  let s₂ := s₁.consume.submit (.command 2)
  have h : ReflTransGen Sys.Step (.start 3 true) s₂.consume :=
    (((ReflTransGen.single (.submit (.command 1))).tail (.consume ⟨rfl, rfl⟩)).tail
      (.submit (.command 2))).tail (.consume ⟨rfl, rfl⟩)
  have hfull : s₂.consume.ring.isFull = true := by decide
  refine ⟨_, h, by decide, by decide, fun parameter => ?_⟩
  simp only [Submission.perform, Submission.bodies, Ring.putAll, Ring.reserve, hfull, if_true]

end Gergios.Xhci
