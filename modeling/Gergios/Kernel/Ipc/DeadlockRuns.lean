import Gergios.Kernel.Ipc.QueueRuns
import Gergios.Kernel.Ipc.WaitGraph

/-!
# The deadlock test along a run

If no call blocks a process on itself then the waits never form a cycle. The test then visits
each process at most once, and it refuses a call exactly when the call would close a cycle.
-/

namespace Gergios.Kernel

open Lib

variable {s t : State} {caller : Slot}

/-- A process is blocked on the endpoint of another: `P_BLOCKEDON(p) == q->p_endpoint`. -/
def BlockedOn (s : State) (p q : Slot) : Prop := (s.proc p).blockedOn = (s.proc q).endpoint

/-- Blocking `c` on `x` closes a cycle, and not only that of a sender and its receiver. -/
def ClosesCycle (s : State) (fn : BlockFn) (c x : Slot) : Prop :=
  Relation.ReflTransGen (BlockedOn s) x c ∧ ¬(BlockedOn s x c ∧ permittedPair fn (s.proc x) = true)

variable {e : Endpoint} {x : Slot} {r : Errno} {nb : Bool}

theorem WaitInv.edge_iff (h : WaitInv s) {p q : Slot} :
    Edge (waitsFor s) p q ↔ BlockedOn s p q := by
  constructor
  · intro hpq
    exact (isokendpt_eq_some hpq).2.2.symm
  · intro hpq
    have hpq : (s.proc p).blockedOn = (s.proc q).endpoint := hpq
    rcases h.waitsOk p with hn | ha | ⟨d, hd⟩
    · exact absurd (hpq.symm.trans hn) (h.endpoints.ne_none q)
    · have hnr := isokprocn_procNr q
      rw [← h.endpoints q, ← hpq, ha] at hnr
      exact absurd hnr not_isokprocn_endpointP_any
    · have hdq : d = q := h.endpoints.injective ((isokendpt_eq_some hd).2.2.trans hpq)
      exact hdq ▸ hd

theorem WaitInv.edge_eq (h : WaitInv s) : Edge (waitsFor s) = BlockedOn s :=
  funext fun _ => funext fun _ => propext h.edge_iff

section Tests

variable (h : WaitInv s) (hfree : (s.proc caller).rtsFlags.slotFree = false)

include h hfree

theorem WaitInv.not_isEmpty : ¬(s.proc caller).isEmpty := by
  rw [h.slots.isEmpty_iff, hfree]
  exact Bool.false_ne_true

variable (hx : isokendpt s e = some x) (hself : e ≠ (s.proc caller).endpoint)

include hx hself

theorem WaitInv.deadlock_iff (fn : BlockFn) : ∃ chain, deadlock s fn caller e = .ok chain ∧
      (chain.groupSize ≠ 0 ↔ ClosesCycle s fn caller x) := by
  obtain ⟨chain, hchain, -, hiff⟩ :=
    deadlock_spec h.slots h.endpoints h.waitsOk h.ends fn (h.not_isEmpty hfree) hx
  refine ⟨chain, hchain, hiff.trans ?_⟩
  have hne : x ≠ caller := by
    rintro rfl
    exact hself (isokendpt_eq_some hx).2.2.symm
  rw [ClosesCycle, ← h.edge_eq, Relation.reflTransGen_iff_eq_or_transGen]
  simp only [hne.symm, false_or]

def SendBlocks (s : State) (caller dst : Slot) (m : UserMsg) (flags : SendFlags) : Prop :=
  (s.proc dst).rtsFlags.noEndpoint = false ∧
    willReceive s (s.proc caller).endpoint dst m.mtype = false ∧ flags.nonBlocking = false

theorem miniSend_elocked_iff {m : UserMsg} {flags : SendFlags}
    (hsend : miniSend s caller e m flags = .ok (t, r)) :
    r = .elocked ↔ SendBlocks s caller x m flags ∧ ClosesCycle s .send caller x := by
  obtain ⟨chain, hchain, hiff⟩ := h.deadlock_iff hfree hx hself .send
  simp only [miniSend, (isokendpt_eq_some hx).1, hchain] at hsend
  unfold SendBlocks
  split at hsend
  · rename_i hdead
    cases hsend
    simp [hdead]
  · rename_i hlive
    split at hsend
    · cases hsend
    split at hsend
    · rename_i hwill
      split at hsend
      · cases hsend
      · split at hsend <;> cases hsend <;> simp [hwill]
    · rename_i hwill
      split at hsend
      · rename_i hnb
        cases hsend
        simp [hnb]
      · rename_i hnb
        split at hsend
        · rename_i hgroup
          cases hsend
          simp [hlive, hwill, hnb, hiff.mp hgroup]
        · rename_i hgroup
          have hno : ¬ClosesCycle s .send caller x := fun hc => hgroup (hiff.mpr hc)
          repeat' split at hsend
          all_goals cases hsend
          all_goals simp [hno]

/-- The state in which `mini_receive` has found no message and turns to blocking. -/
def receiveEmpty (s : State) (caller : Slot) (srcE : Endpoint) (buf : Nat) : Option State :=
  let t := s.modProc caller fun p => { p with delivermsgVir := buf }
  if (t.proc caller).rtsFlags.sending then some t
  else
    match receiveSearch t caller srcE (isokendpt t srcE) with
    | .ok (u, false) => some u
    | _ => none

theorem receiveBlock_elocked_iff (hblock : receiveBlock s caller e nb = .ok (t, r)) :
    r = .elocked ↔ nb = false ∧ ClosesCycle s .receive caller x := by
  obtain ⟨chain, hchain, hiff⟩ := h.deadlock_iff hfree hx hself .receive
  simp only [receiveBlock, hchain] at hblock
  split at hblock
  · rename_i hnb
    cases hblock
    simp [hnb]
  · rename_i hnb
    split at hblock
    · rename_i hgroup
      cases hblock
      simp [hnb, hiff.mp hgroup]
    · rename_i hgroup
      cases hblock
      simp [show ¬ClosesCycle s .receive caller x from fun hc => hgroup (hiff.mpr hc)]

theorem miniReceive_elocked_iff {buf : Nat}
    (hreceiving : (s.proc caller).rtsFlags.receiving = false)
    (hrecv : miniReceive s caller e buf nb = .ok (t, r)) :
    r = .elocked ↔ (s.proc x).rtsFlags.noEndpoint = false ∧ nb = false ∧
      ∃ u, receiveEmpty s caller e buf = some u ∧ ClosesCycle u .receive caller x := by
  have hw : Wakes s (s.modProc caller fun p => { p with delivermsgVir := buf }) :=
    (NoteStep.modMisc s caller fun p => ⟨⟨p.miscFlags, buf, p.ipcStatus, rfl⟩, rfl⟩).wakes
  have hstep : ∀ {v : State}, Wakes s v → isokendpt v e = some x := fun hv =>
    (h.slots.isokendpt_eq (hv.slots h.slots) (fun i => (hv.proc i).slotFree)
      (fun i => (hv.proc i).endpoint) e).trans hx
  have hdead := (hw.proc x).noEndpoint
  have hblock : ∀ {v w : State} {r : Errno}, Wakes s v → receiveBlock v caller e nb = .ok (w, r) →
      (r = .elocked ↔ nb = false ∧ ClosesCycle v .receive caller x) := by
    intro v w r hv hb
    refine receiveBlock_elocked_iff (h.wakes hv) ((hv.proc caller).slotFree.trans hfree)
      (hstep hv) ?_ hb
    rw [(hv.proc caller).endpoint]
    exact hself
  simp only [miniReceive, if_neg (isokendpt_ne_any hx), okendpt, hstep hw, hdead,
    receiveFrom] at hrecv
  simp only [receiveEmpty, hstep hw]
  split at hrecv
  · cases hrecv
  cases hlive : (s.proc x).rtsFlags.noEndpoint with
  | true =>
    rw [if_pos hlive] at hrecv
    cases hrecv
    simp
  | false =>
  rw [hlive, if_neg Bool.false_ne_true] at hrecv
  simp only [true_and]
  split at hrecv
  · rename_i hs
    simp only [hs, if_true, Option.some.injEq, exists_eq_left']
    exact hblock hw hrecv
  · rename_i hs
    have hs' := Bool.eq_false_iff.mpr hs
    simp only [hs', Bool.false_eq_true, if_false]
    split at hrecv
    · cases hrecv
    · rename_i hsearch
      cases hrecv
      simp [hsearch]
    · rename_i v hsearch
      simp only [hsearch, Option.some.injEq, exists_eq_left']
      obtain ⟨hb, -⟩ | ⟨-, hcall, -⟩ :=
        (receiveSearch_cases ⟨Listens.wakes ⟨hfree, hreceiving⟩ hw, hs'⟩ ..).ok hsearch
      · cases hb
      · exact hblock (hw.trans hcall.wakes) hrecv

end Tests

theorem miniReceive_any_ne_elocked {buf : Nat}
    (hrecv : miniReceive s caller anyE buf nb = .ok (t, r)) : r ≠ .elocked := by
  have hblock : ∀ {v w : State} {r : Errno}, receiveBlock v caller anyE nb = .ok (w, r) →
      r ≠ .elocked := by
    intro v w r hb
    simp only [receiveBlock] at hb
    split at hb
    · cases hb
      decide
    · cases hb
      decide
  simp only [miniReceive, if_true, receiveFrom] at hrecv
  split at hrecv
  · cases hrecv
  split at hrecv
  · exact hblock hrecv
  split at hrecv
  · cases hrecv
  · cases hrecv
    decide
  · exact hblock hrecv

/-! ## Runs -/

structure DeadlockTestOk (s : State) : Prop where
  acyclic : ∀ p, ¬Relation.TransGen (BlockedOn s) p p
  ends : ∀ fn cp e x, (s.proc cp).rtsFlags.slotFree = false → isokendpt s e = some x →
    ∃ chain, deadlock s fn cp e = .ok chain ∧ chain.visited.Nodup
  send : ∀ caller e x m flags t r, (s.proc caller).rtsFlags.slotFree = false →
    isokendpt s e = some x → e ≠ (s.proc caller).endpoint →
    miniSend s caller e m flags = .ok (t, r) →
    (r = .elocked ↔ SendBlocks s caller x m flags ∧ ClosesCycle s .send caller x)
  receive : ∀ caller e x buf nb t r, (s.proc caller).rtsFlags.slotFree = false →
    (s.proc caller).rtsFlags.receiving = false → isokendpt s e = some x →
    e ≠ (s.proc caller).endpoint → miniReceive s caller e buf nb = .ok (t, r) →
    (r = .elocked ↔ (s.proc x).rtsFlags.noEndpoint = false ∧ nb = false ∧
      ∃ u, receiveEmpty s caller e buf = some u ∧ ClosesCycle u .receive caller x)
  receiveAny : ∀ caller buf nb t r, miniReceive s caller anyE buf nb = .ok (t, r) → r ≠ .elocked

theorem WaitInv.deadlockTestOk (h : WaitInv s) : DeadlockTestOk s where
  acyclic p := h.edge_eq ▸ h.ends.not_cycle p
  ends fn cp e x hfree hx := by
    obtain ⟨chain, hchain, hnd, -⟩ :=
      deadlock_spec h.slots h.endpoints h.waitsOk h.ends fn (h.not_isEmpty hfree) hx
    exact ⟨chain, hchain, hnd⟩
  send _ _ _ _ _ _ _ hfree hx hself hsend := miniSend_elocked_iff h hfree hx hself hsend
  receive _ _ _ _ _ _ _ hfree hr hx hself hrecv := miniReceive_elocked_iff h hfree hx hself hr hrecv
  receiveAny _ _ _ _ _ hrecv := miniReceive_any_ne_elocked hrecv

inductive CallsOnly : Op → Prop
  | call (caller : Slot) (req : Request) : CallsOnly (.call caller req)
  | quiet {op : Op} (h : op.IsQuiet) : CallsOnly op

def NoSelfWait (s : State) (op : Op) : Prop :=
  CallsOnly op ∧ ∀ caller req, op = .call caller req → req.blocksOn ≠ some (s.proc caller).endpoint

theorem WaitInv.running (h : WaitInv s) (hrun : (s.proc caller).isRunnable) :
    WaitInv (s.running caller) := by
  obtain ⟨q, hq⟩ := h.queues
  exact h.shrink (h.slots.running hrun) ⟨q, hq.congr (running_sameSend s caller)⟩ (fun _ => rfl)
    (fun _ => rfl) (fun _ => rfl) (fun _ => rfl) (fun _ => rfl) (fun _ h => h) fun _ h => h

theorem NoSelfWait.waitInv {op : Op} (h : WaitInv s) (hadm : NoSelfWait s op) (hen : op.Enabled s)
    (hex : op.exec s = .ok t) : WaitInv t := by
  obtain ⟨hop, hself⟩ := hadm
  cases hop with
  | call caller req =>
    exact (call_acts hen hex).waitInv (h.running hen) (isRunnable_flags hen).2.2
      (hself caller req rfl)
  | quiet hquiet => exact h.wakes (hquiet.wakes hen hex)

theorem IpcInit.waitInv (h : IpcInit s) (hfilters : ∀ k, (s.priv k).ipcf = []) : WaitInv s where
  slots := h.slots
  queues := ⟨_, h.sendQueues⟩
  endpoints := h.endpointsOk
  filters := hfilters
  sendto i hi := by rw [h.sending] at hi; cases hi
  getfrom i hi := by rw [h.receiving] at hi; cases hi
  both i hi := by rw [h.sending] at hi; cases hi
  ends i := by
    have hb : (s.proc i).blockedOn = noneE := by simp [Proc.blockedOn, h.sending, h.receiving]
    refine ⟨[i], rfl, ?_⟩
    rw [linked_nil, waitsFor, hb, isokendpt_none]

def CallsTestOk (s : State) : Prop := ∀ (caller : Slot) (req : Request) (u : State),
  (s.proc caller).isRunnable → req.blocksOn ≠ some (s.proc caller).endpoint →
    IpcActs caller req.blocksOn (s.running caller) u → DeadlockTestOk u

theorem deadlock_test_ok_without_self_waits {s₀ : State} (h₀ : IpcInit s₀)
    (hfilters : ∀ k, (s₀.priv k).ipcf = []) (h : Run NoSelfWait s₀ s) :
    DeadlockTestOk s ∧ CallsTestOk s := by
  have hinv : WaitInv s := h.invariant NoSelfWait.waitInv (h₀.waitInv hfilters)
  refine ⟨hinv.deadlockTestOk, fun caller req u hrun hself hacts => ?_⟩
  have hu := hacts.waitInv (hinv.running hrun) (isRunnable_flags hrun).2.2 hself
  exact hu.deadlockTestOk

/-- Process 10 waits for process 11. -/
theorem waiting_sender_test_ok : IpcInit (bootWith [10, 11]) ∧
    (∀ k, ((bootWith [10, 11]).priv k).ipcf = []) ∧
    ∃ s, Run NoSelfWait (bootWith [10, 11]) s ∧ BlockedOn s 10 11 ∧
      (DeadlockTestOk s ∧ CallsTestOk s) := by
  have hfilters : ∀ k, ((bootWith [10, 11]).priv k).ipcf = [] := by
    intro k
    simp only [bootWith]
    split <;> rfl
  obtain ⟨s, hrun, hblocked⟩ := exists_run NoSelfWait (fun s _ => (s.proc 10).endpoint = 5)
    [.call 10 (.sync .send 6 plainMsg)] (bootWith [10, 11])
    (fun s => (s.proc 10).blockedOn = (s.proc 11).endpoint)
    (by
      intro u op hop htest
      obtain rfl := List.mem_singleton.mp hop
      refine ⟨.call _ _, fun caller req h => ?_⟩
      cases h
      rw [of_decide_eq_true htest]
      decide)
    (by decide +kernel)
  exact ⟨bootWith_ipcInit _, hfilters, s, hrun, hblocked,
    deadlock_test_ok_without_self_waits (bootWith_ipcInit _) hfilters hrun⟩

/-- Process 10 receives from itself. It waits for itself from then on, and the test for a
message that process 11 sends to it does not come to an end. -/
theorem receive_from_self_hangs : IpcInit (bootWith [10, 11]) ∧
    (∀ k, ((bootWith [10, 11]).priv k).ipcf = []) ∧
    ∃ s, Run (fun _ op => CallsOnly op) (bootWith [10, 11]) s ∧
      Relation.TransGen (BlockedOn s) 10 10 ∧ (s.proc 11).isRunnable ∧ isokendpt s 5 = some 10 ∧
      deadlock s .send 11 5 = .error .hang ∧
      (Op.call 11 (.sync .send 5 plainMsg)).exec s = .error .hang := by
  obtain ⟨s, hrun, hblocked, hrunnable, hok, hdead, hcall⟩ :=
    exists_run (fun _ op => CallsOnly op) (fun _ _ => true)
      [.call 10 (.sync .receive 5 plainMsg)] (bootWith [10, 11])
      (fun s => (s.proc 10).blockedOn = (s.proc 10).endpoint ∧ (s.proc 11).isRunnable ∧
        isokendpt s 5 = some 10 ∧ haltOf (deadlock s .send 11 5) = some .hang ∧
        haltOf ((Op.call 11 (.sync .send 5 plainMsg)).exec s) = some .hang)
      (by
        intro u op hop _
        obtain rfl := List.mem_singleton.mp hop
        exact .call _ _)
      (by decide +kernel)
  refine ⟨bootWith_ipcInit _, fun k => ?_, s, hrun, .single hblocked, hrunnable, hok,
    haltOf_eq_some.mp hdead, haltOf_eq_some.mp hcall⟩
  simp only [bootWith]
  split <;> rfl

end Gergios.Kernel
