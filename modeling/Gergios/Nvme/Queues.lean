import Mathlib.Data.Nat.Bitwise

/-!
# Submission and completion queues

The driver and a controller that keeps the queue rules. By these rules a command has its identifier
in the high half of dword 0, and a completion has the identifier in the low half of dword 3, the
phase tag in bit 16 and the status above it. The driver never sets the identifier of a command and
takes bit 0 of dword 3 for the phase tag.
-/

namespace Gergios.Nvme

open Function Nat

/-- `ADMIN_QUEUE_SIZE` and `IO_QUEUE_SIZE`; queue 0 is the admin queue. -/
def queueSize (i : Nat) : Nat := if i = 0 then 64 else 128

/-- `SqEntry::set_cmd` on dword 0. -/
def setCmd (dword opc fuse : Nat) : Nat := dword &&& 0xFFFF0000 ||| opc <<< 8 ||| fuse

namespace CqEntry

/-! A completion is given by its dword 3. -/

variable (dword : Nat)

def phase : Bool := dword &&& 1 != 0

def cid : Nat := dword &&& 0xFFFF

def status : Nat := dword >>> 16

def isSuccess : Bool := status dword &&& 0x3FF == 0

end CqEntry

/-- A completion as the controller posts it: the number of its command, the status, dword 3. -/
structure Completion where
  serial : Nat
  status : Nat
  dword : Nat

/-- A pair of queues. A command is dword 0 and, as a ghost, its number. The other ghosts are the
completions `posted` and `consumed` since the last reset, whether any was ever posted, and whether
the controller has read an entry behind the memory of its queue. -/
structure Queue where
  sq : Nat → Nat × Nat
  sqTail : Nat
  cq : Nat → Nat
  cqHead : Nat
  cqPhase : Bool
  /-- The identifier the call waits for. -/
  cid : Nat
  issued : Nat
  consumed : List Nat
  sqHead : Nat
  fetched : List (Nat × Nat)
  cqTail : Nat
  phaseTag : Bool
  posted : List Completion
  answered : Bool
  stray : Bool

namespace Queue

def init : Queue where
  sq := fun _ => (0, 0)
  sqTail := 0
  cq := fun _ => 0
  cqHead := 0
  cqPhase := true
  cid := 0
  issued := 0
  consumed := []
  sqHead := 0
  fetched := []
  cqTail := 0
  phaseTag := true
  posted := []
  answered := false
  stray := false

/-! ## The driver -/

variable (i : Nat) (q : Queue)

/-- Dword 0 of a command: the admin calls put their identifier over the opcode. -/
def command (opc : Nat) : Nat :=
  if i = 0 then setCmd 0 opc 0 &&& 0xFFFF0000 ||| q.sqTail else setCmd 0 opc 0

/-- `submit_admin_cmd`, and the same lines of `io_transfer` and `io_flush`. -/
def submit (opc : Nat) : Queue :=
  { q with
    sq := update q.sq q.sqTail (q.command i opc, q.issued + 1)
    sqTail := (q.sqTail + 1) % queueSize i
    cid := q.sqTail
    issued := q.issued + 1 }

def consume : Queue :=
  let newHead := (q.cqHead + 1) % queueSize i
  { q with
    cqHead := newHead
    cqPhase := if newHead = 0 then !q.cqPhase else q.cqPhase
    consumed := q.consumed ++ [q.cq q.cqHead] }

/-- One turn of the loops in `poll_admin_cq`, `io_transfer` and `io_flush`: what the call returns,
if it does. -/
def poll : Option Bool × Queue :=
  let entry := q.cq q.cqHead
  if CqEntry.phase entry = q.cqPhase ∧ (i = 0 → CqEntry.cid entry = q.cid) then
    (some (CqEntry.isSuccess entry), q.consume i)
  else (none, q)

/-- `process_completions`; the phase changes with the wrap, so it ends within one turn. -/
def processLoop (i : Nat) : Nat → Queue → Queue
  | 0, q => q
  | fuel + 1, q =>
    if CqEntry.phase (q.cq q.cqHead) = q.cqPhase then processLoop i fuel (q.consume i) else q

def processCompletions : Queue := q.processLoop i (queueSize i + 1)

/-! ## The controller

The sizes in the registers and commands are one less than the number of entries, and the driver
gives its number of entries: the controller reads one entry behind the memory of the queue. -/

def fetch (behind : Nat × Nat) : Queue :=
  let entry := if q.sqHead < queueSize i then q.sq q.sqHead else behind
  { q with
    sqHead := (q.sqHead + 1) % (queueSize i + 1)
    fetched := q.fetched ++ [(entry.1 >>> 16, entry.2)]
    stray := q.stray || decide (queueSize i ≤ q.sqHead) }

def post (c : Nat × Nat) (status : Nat) : Queue :=
  let dword := c.1 + 2 ^ 16 * q.phaseTag.toNat + 2 ^ 17 * status
  let tail := (q.cqTail + 1) % (queueSize i + 1)
  { q with
    cq := update q.cq q.cqTail dword
    cqTail := tail
    phaseTag := if tail = 0 then !q.phaseTag else q.phaseTag
    fetched := q.fetched.erase c
    posted := q.posted ++ [⟨c.2, status, dword⟩]
    answered := true }

end Queue

/-- `controller_reset`: the admin queue keeps its memory, the others get new memory. -/
def reset (s : Nat → Queue) : Nat → Queue := fun i =>
  let q := { Queue.init with answered := (s i).answered, stray := (s i).stray }
  if i = 0 then { q with sq := (s i).sq, cq := (s i).cq } else q

/-- A step of the driver or the controller. Any queue can be used at any time. -/
inductive Step (s : Nat → Queue) : (Nat → Queue) → Prop
  | submit (i opc : Nat) : opc < 256 → Step s (update s i ((s i).submit i opc))
  | poll (i : Nat) : Step s (update s i ((s i).poll i).2)
  | processAll : Step s fun i => if i = 0 then s i else (s i).processCompletions i
  | reset : Step s (reset s)
  | fetch (i : Nat) (behind : Nat × Nat) : (s i).sqHead ≠ (s i).sqTail →
      Step s (update s i ((s i).fetch i behind))
  | post (i : Nat) (c : Nat × Nat) (status : Nat) : c ∈ (s i).fetched → status < 2 ^ 15 →
      ((s i).cqTail + 1) % (queueSize i + 1) ≠ (s i).cqHead →
      Step s (update s i ((s i).post i c status))

abbrev Reachable (s : Nat → Queue) : Prop := Relation.ReflTransGen Step (fun _ => Queue.init) s

/-- The call in progress returns success only for the completion of its command, and the driver
takes the completions that have been posted, each once and in order. -/
structure Matched (i : Nat) (q : Queue) : Prop where
  success : (q.poll i).1 = some true → ∃ c ∈ q.posted, c.serial = q.issued ∧ c.status = 0
  polled : (q.poll i).2.consumed = (q.posted.map (·.dword)).take (q.consumed.length + 1)
  processed : i ≠ 0 → (q.processCompletions i).consumed = q.posted.map (·.dword)

/-- No entry looks new to the driver. -/
structure Queue.Blind (q : Queue) : Prop where
  phase_false : ∀ k, CqEntry.phase (q.cq k) = false
  cqPhase : q.cqPhase = true
  consumed : q.consumed = []

/-- Commands of the driver have identifier 0, and so have their completions. -/
structure Queue.Inv (i : Nat) (q : Queue) : Prop where
  tail_lt : q.sqTail < queueSize i
  sq_lt : ∀ k, (q.sq k).1 < 2 ^ 16
  fetched_zero : q.stray = false → ∀ c ∈ q.fetched, c.1 = 0
  blind : q.answered = false ∨ q.stray = false → q.Blind
  posted : q.answered = false → q.posted = []

section

variable {i opc : Nat} {q : Queue} {s s' : Nat → Queue}

theorem queueSize_le (i : Nat) : 0 < queueSize i ∧ queueSize i ≤ 128 := by
  rw [queueSize]
  split <;> decide

theorem setCmd_lt (h : opc < 256) : setCmd 0 opc 0 < 2 ^ 16 := by
  have hshift : opc <<< 8 < 2 ^ 16 := by
    omega
  rw [setCmd, zero_and, zero_or, or_zero]
  exact hshift

theorem command_lt (h : opc < 256) (htail : q.sqTail < queueSize i) : q.command i opc < 2 ^ 16 := by
  have hsize := queueSize_le i
  rw [Queue.command]
  split
  · exact or_lt_two_pow (Nat.lt_of_le_of_lt and_le_left (setCmd_lt h)) (by omega)
  · exact setCmd_lt h

theorem phase_zero : CqEntry.phase 0 = false := by decide

theorem poll_blind (h : q.Blind) : q.poll i = (none, q) := by
  refine if_neg fun hcond => ?_
  rw [h.phase_false, h.cqPhase] at hcond
  exact Bool.false_ne_true hcond.1

theorem processCompletions_blind (h : q.Blind) : q.processCompletions i = q := by
  refine if_neg fun hcond => ?_
  rw [h.phase_false, h.cqPhase] at hcond
  exact Bool.false_ne_true hcond

theorem init_inv (i : Nat) : Queue.init.Inv i where
  tail_lt := (queueSize_le i).1
  sq_lt _ := (by decide : 0 < 2 ^ 16)
  fetched_zero _ _ h := nomatch h
  blind _ := ⟨fun _ => phase_zero, rfl, rfl⟩
  posted _ := rfl

theorem submit_inv (h : q.Inv i) (hopc : opc < 256) : (q.submit i opc).Inv i where
  tail_lt := mod_lt _ (queueSize_le i).1
  sq_lt k := by
    simp only [Queue.submit, update_apply]
    split
    · exact command_lt hopc h.tail_lt
    · exact h.sq_lt k
  fetched_zero := h.fetched_zero
  blind hq := ⟨(h.blind hq).phase_false, (h.blind hq).cqPhase, (h.blind hq).consumed⟩
  posted := h.posted

theorem consume_inv (h : q.Inv i) (hq : ¬(q.answered = false ∨ q.stray = false)) :
    (q.consume i).Inv i where
  tail_lt := h.tail_lt
  sq_lt := h.sq_lt
  fetched_zero := h.fetched_zero
  blind hq' := absurd hq' hq
  posted := h.posted

theorem poll_inv (h : q.Inv i) : (q.poll i).2.Inv i := by
  by_cases hq : q.answered = false ∨ q.stray = false
  · rw [poll_blind (h.blind hq)]
    exact h
  · rw [Queue.poll]
    split
    · exact consume_inv h hq
    · exact h

theorem processLoop_inv (hq : ¬(q.answered = false ∨ q.stray = false)) (fuel : Nat) (h : q.Inv i) :
    (q.processLoop i fuel).Inv i := by
  induction fuel generalizing q with
  | zero => exact h
  | succ fuel ih =>
    rw [Queue.processLoop]
    split
    · exact ih hq (consume_inv h hq)
    · exact h

theorem processCompletions_inv (h : q.Inv i) : (q.processCompletions i).Inv i := by
  by_cases hq : q.answered = false ∨ q.stray = false
  · rw [processCompletions_blind (h.blind hq)]
    exact h
  · exact processLoop_inv hq _ h

theorem fetch_inv (h : q.Inv i) (behind : Nat × Nat) : (q.fetch i behind).Inv i where
  tail_lt := h.tail_lt
  sq_lt := h.sq_lt
  fetched_zero hstray c hc := by
    obtain ⟨hq, hin⟩ := Bool.or_eq_false_iff.mp hstray
    rcases List.mem_append.mp hc with hc | hc
    · exact h.fetched_zero hq c hc
    · rw [List.mem_singleton.mp hc, if_pos (Nat.not_le.mp (of_decide_eq_false hin)),
        shiftRight_eq_div_pow]
      exact div_eq_of_lt (h.sq_lt _)
  blind hq :=
    have hblind := h.blind (hq.imp_right fun hstray => (Bool.or_eq_false_iff.mp hstray).1)
    ⟨hblind.phase_false, hblind.cqPhase, hblind.consumed⟩
  posted := h.posted

theorem post_inv {c : Nat × Nat} {status : Nat} (h : q.Inv i) (hc : c ∈ q.fetched) :
    (q.post i c status).Inv i where
  tail_lt := h.tail_lt
  sq_lt := h.sq_lt
  fetched_zero hq d hd := h.fetched_zero hq d (List.mem_of_mem_erase hd)
  blind hq := by
    have hstray : q.stray = false := hq.resolve_left nofun
    have hblind := h.blind (.inr hstray)
    refine ⟨fun k => ?_, hblind.cqPhase, hblind.consumed⟩
    simp only [Queue.post, update_apply]
    split
    · have heven : (c.1 + 2 ^ 16 * q.phaseTag.toNat + 2 ^ 17 * status) % 2 = 0 := by
        rw [h.fetched_zero hstray c hc]
        omega
      rw [CqEntry.phase, and_one_is_mod, heven]
      rfl
    · exact hblind.phase_false k
  posted := nofun

theorem reset_inv (h : (s i).Inv i) : (reset s i).Inv i := by
  rw [reset]
  split
  · exact ⟨(init_inv i).tail_lt, h.sq_lt, nofun, fun hq => ⟨(h.blind hq).phase_false, rfl, rfl⟩,
      fun _ => rfl⟩
  · exact ⟨(init_inv i).tail_lt, (init_inv i).sq_lt, nofun,
      fun _ => ⟨fun _ => phase_zero, rfl, rfl⟩,
      fun _ => rfl⟩

theorem update_inv {j : Nat} (h : ∀ i, (s i).Inv i) (hq : q.Inv j) (i : Nat) :
    (update s j q i).Inv i := by
  rw [update_apply]
  split
  · next hij => exact hij ▸ hq
  · exact h i

theorem step_inv (h : ∀ i, (s i).Inv i) (hstep : Step s s') : ∀ i, (s' i).Inv i := by
  cases hstep with
  | submit i opc hopc => exact update_inv h (submit_inv (h i) hopc)
  | poll i => exact update_inv h (poll_inv (h i))
  | processAll =>
    intro i
    dsimp only
    split
    · exact h i
    · exact processCompletions_inv (h i)
  | reset => exact fun i => reset_inv (h i)
  | fetch i behind _ => exact update_inv h (fetch_inv (h i) behind)
  | post i c status hc _ _ => exact update_inv h (post_inv (h i) hc)

theorem reachable_inv (h : Reachable s) : ∀ i, (s i).Inv i := by
  induction h with
  | refl => exact init_inv
  | tail _ hstep ih => exact step_inv ih hstep

theorem blind_matched_iff (h : q.Blind) : Matched i q ↔ q.posted = [] := by
  constructor
  · intro hmatched
    have hpolled := hmatched.polled
    rw [poll_blind h, h.consumed] at hpolled
    cases hposted : q.posted with
    | nil => rfl
    | cons c rest =>
      rw [hposted] at hpolled
      cases hpolled
  · intro hposted
    refine ⟨fun hsome => ?_, ?_, fun _ => ?_⟩
    · rw [poll_blind h] at hsome
      cases hsome
    · rw [poll_blind h, h.consumed, hposted]
      rfl
    · rw [processCompletions_blind h, h.consumed, hposted]
      rfl

end

/-- In every run, whatever the order and delay of completions, a queue is served as it should be as
long as the controller has posted nothing to it; and if the controller has read only commands of the
driver, it is not from the first completion on. -/
theorem reachable_matched {s : Nat → Queue} (h : Reachable s) (i : Nat) :
    ((s i).answered = false → Matched i (s i)) ∧
    ((s i).stray = false → (Matched i (s i) ↔ (s i).posted = [])) := by
  have hinv := reachable_inv h i
  constructor
  · intro hq
    exact (blind_matched_iff (hinv.blind (.inl hq))).mpr (hinv.posted hq)
  · intro hq
    exact blind_matched_iff (hinv.blind (.inr hq))

/-- The Identify command of `init`, submitted and not yet completed. -/
theorem reachable_matched_identify : ∃ s, Reachable s ∧ (s 0).issued = 1 ∧ Matched 0 (s 0) :=
  have h := Relation.ReflTransGen.single (Step.submit (s := fun _ => Queue.init) 0 6 (by decide))
  ⟨_, h, rfl, (reachable_matched h 0).1 rfl⟩

/-- The controller completes the Identify command of `init` with success, and the driver never sees
it. -/
theorem completion_never_consumed : ∃ s, Reachable s ∧ (s 0).issued = 1 ∧
      (s 0).posted.map (fun c => (c.serial, c.status)) = [(1, 0)] ∧
      (s 0).poll 0 = (none, s 0) ∧ ¬Matched 0 (s 0) := by
  let s₁ : Nat → Queue := update (fun _ => Queue.init) 0 (Queue.init.submit 0 6)
  let s₂ : Nat → Queue := update s₁ 0 ((s₁ 0).fetch 0 (0, 0))
  let s₃ : Nat → Queue := update s₂ 0 ((s₂ 0).post 0 (0, 1) 0)
  have h : Reachable s₃ :=
    ((Relation.ReflTransGen.single (.submit 0 6 (by decide))).tail
      (.fetch 0 (0, 0) (by decide))).tail (.post 0 (0, 1) 0 (by decide) (by decide) (by decide))
  have hpoll : (s₃ 0).poll 0 = (none, s₃ 0) := poll_blind ((reachable_inv h 0).blind (.inr rfl))
  refine ⟨s₃, h, rfl, rfl, hpoll, fun hmatched => ?_⟩
  have hpolled := hmatched.polled
  rw [hpoll] at hpolled
  cases hpolled

end Gergios.Nvme
