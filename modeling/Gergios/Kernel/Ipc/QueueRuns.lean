import Gergios.Kernel.Boot
import Gergios.Kernel.System.Released

/-!
# The queues of senders along a run

Calls keep the queues of senders and the links in order. `clear_endpoint` keeps the queues but
does not reset the links of the processes it takes out of them, so it keeps the links in order
only if each of those is the last of its queue when it is taken out.
-/

namespace Gergios.Kernel

open Lib List

variable {s t : State}

inductive Op.IsQuiet : Op → Prop
  | signal (e : Endpoint) (sig : Nat) : IsQuiet (.signal e sig)
  | interrupt (hook : IrqHook) : IsQuiet (.interrupt hook)
  | deliver (i : Slot) : IsQuiet (.deliver i)
  | setFlags (i : Slot) (f : RtsFlags) : IsQuiet (.setFlags i f)
  | unsetFlags (i : Slot) (f : RtsFlags) : IsQuiet (.unsetFlags i f)
  | store (i : Slot) (mem : Nat → Option AsynMsg) : IsQuiet (.store i mem)
  | tick (n : Nat) : IsQuiet (.tick n)

variable {op : Op} {caller : Slot}

theorem map_fst_eq_ok {ε α β : Type} {x : Except ε (α × β)} {a : α} (h : x.map (·.1) = .ok a) :
    ∃ b, x = .ok (a, b) := by
  cases x with
  | error e => cases h
  | ok r => cases h; exact ⟨r.2, rfl⟩

theorem Op.IsQuiet.steps (hquiet : op.IsQuiet) (hirq : ∀ hook, op ≠ .interrupt hook)
    (hen : op.Enabled s) (h : op.exec s = .ok t) : WakeSteps s t := by
  have hnote : ∀ {u : State}, NoteStep s u → WakeSteps s u := fun hu => .single (.note hu)
  cases hquiet with
  | signal e sig =>
    obtain ⟨r, hr⟩ := map_fst_eq_ok h
    exact (sendSig_notes hr).steps
  | interrupt hook => exact absurd rfl (hirq hook)
  | deliver i =>
    cases h
    exact hnote (.edit i (by constructor <;> simp) rfl fun hd => by cases hd)
  | setFlags i f =>
    cases h
    exact hnote (.set hen.1 hen.2)
  | unsetFlags i f =>
    cases h
    exact hnote (.unset i ⟨hen.1, hen.2.1, hen.2.2.2⟩)
  | store i mem =>
    cases h
    exact (AsynStep.store i mem).step
  | tick n =>
    cases h
    exact hnote (.tick n)

theorem Op.IsQuiet.wakes (hquiet : op.IsQuiet) (hen : op.Enabled s)
    (h : op.exec s = .ok t) : Wakes s t := by
  by_cases hirq : ∃ hook, op = .interrupt hook
  · obtain ⟨hook, rfl⟩ := hirq
    obtain ⟨rp, hn⟩ := genericHandler_notified h
    exact (raiseIrq_wakes ..).trans hn.wakes
  · exact (hquiet.steps (fun hook hop => hirq ⟨hook, hop⟩) hen h).wakes

theorem isRunnable_flags {p : Proc} (h : p.isRunnable) :
    p.rtsFlags.sending = false ∧ p.rtsFlags.receiving = false ∧ p.rtsFlags.slotFree = false := by
  have hflags : p.rtsFlags = {} := h
  simp [hflags]

theorem SlotsOk.running {i : Slot} (hs : SlotsOk s) (hrun : (s.proc i).isRunnable) :
    SlotsOk (s.running i) := by
  refine ⟨hs.isEmpty, fun c p hp => ?_⟩
  simp only [State.running, State.modCpu_cpu] at hp
  split at hp
  · cases hp
    exact (isRunnable_flags hrun).2.2
  · exact hs.procPtr c p hp

theorem running_sameSend (s : State) (i : Slot) : SameSend s (s.running i) := by
  constructor <;> intro j <;> rfl

theorem running_unblocked (hen : (s.proc caller).isRunnable) :
    Unblocked (s.running caller) caller := by
  obtain ⟨hs, hrecv, hfree⟩ := isRunnable_flags hen
  exact ⟨⟨hfree, hrecv⟩, hs⟩

theorem call_acts {req : Request} (hen : (s.proc caller).isRunnable)
    (h : (Op.call caller req).exec s = .ok t) :
    IpcActs caller req.blocksOn (s.running caller) t := by
  obtain ⟨r, hr⟩ := map_fst_eq_ok h
  exact (doIpc_acts (running_unblocked hen)).ok hr

structure QueueInv (s : State) : Prop where
  queues : ∃ q, SendQueues s q
  endpoints : EndpointsOk s
  links : LinksReset s

theorem QueueInv.congr (h : QueueInv s) (hs : SameSend s t) : QueueInv t := by
  obtain ⟨⟨q, hq⟩, he, hl⟩ := h
  exact ⟨⟨q, hq.congr hs⟩, he.congr hs.endpoint, hl.congr hs⟩

theorem IpcActs.queueInv {o : Option Endpoint} (h : IpcActs caller o s t) (hinv : QueueInv s) :
    QueueInv t := by
  induction h with
  | refl => exact hinv
  | tail _ hact ih =>
    obtain ⟨⟨q, hq⟩, he, hl⟩ := ih
    obtain ⟨hq', he', hl'⟩ := hact.sendQueues hq he
    exact ⟨hq', he', hl' hl⟩

theorem clear_queueInv {rc : Slot} (hinv : QueueInv s) (hord : ClearsInOrder s rc)
    (h : clearEndpoint s rc = .ok t) : QueueInv t := by
  obtain ⟨⟨q, hq⟩, he, hl⟩ := hinv
  exact ⟨⟨_, clearEndpoint_sendQueues hq he h⟩, (clearEndpoint_held hq.toHeld he h).2,
    clearEndpoint_linksReset hq he hl hord h⟩

inductive CallsAndClears : Op → Prop
  | call (caller : Slot) (req : Request) : CallsAndClears (.call caller req)
  | clear (rc : Slot) : CallsAndClears (.clear rc)
  | quiet {op : Op} (h : op.IsQuiet) : CallsAndClears op

def OrderedClears (s : State) (op : Op) : Prop :=
  CallsAndClears op ∧ ∀ rc, op = .clear rc → ClearsInOrder s rc

theorem OrderedClears.queueInv (hinv : QueueInv s) (hadm : OrderedClears s op)
    (hen : op.Enabled s) (h : op.exec s = .ok t) : QueueInv t := by
  obtain ⟨hop, hord⟩ := hadm
  cases hop with
  | call caller req =>
    exact (call_acts hen h).queueInv (hinv.congr (running_sameSend s caller))
  | clear rc => exact clear_queueInv hinv (hord rc rfl) h
  | quiet hquiet => exact hinv.congr (hquiet.wakes hen h).sameSend

/-- The lists that start at `p_caller_q` hold the processes that are `RTS_SENDING`, each once
and at its destination, and the links of all others are reset. -/
structure SendersQueued (s : State) (q : Slot → List Slot) : Prop where
  linked : ∀ d, Linked s.qLinks (s.proc d).callerQ (q d)
  sending_iff : ∀ i, (s.proc i).rtsFlags.sending = true ↔ ∃ d, i ∈ q d
  once : ∀ i d, i ∈ q d → (q d).count i = 1
  owner : ∀ i d, i ∈ q d → (s.proc i).sendtoE = (s.proc d).endpoint ∧ ∀ d', i ∈ q d' → d' = d
  reset : ∀ i, (s.proc i).rtsFlags.sending = false → (s.proc i).qLink = none

theorem QueueInv.sendersQueued (h : QueueInv s) : ∃ q, SendersQueued s q := by
  obtain ⟨⟨q, hq⟩, -, hl⟩ := h
  refine ⟨q, hq.queues.linked, fun i => ⟨hq.complete i, ?_⟩, fun i d hi => ?_, fun i d hi => ?_, hl⟩
  · rintro ⟨d, hd⟩
    exact (hq.sound hd).1
  · exact count_eq_one_of_mem (hq.queues.nodup d) hi
  · exact ⟨(hq.sound hi).2, fun d' hi' => hq.queues.owner_unique hi' hi⟩

theorem senders_queued_if_cleared_in_order {s₀ : State} (h₀ : IpcInit s₀)
    (h : Run OrderedClears s₀ s) :
    (∃ q, SendersQueued s q) ∧ ∀ caller req, (s.proc caller).isRunnable →
      (Op.call caller req).exec s ≠ .error .assertQLink := by
  have hinit : QueueInv s₀ := ⟨⟨_, h₀.sendQueues⟩, h₀.endpointsOk, h₀.linksReset⟩
  have hinv : QueueInv s := h.invariant OrderedClears.queueInv hinit
  refine ⟨hinv.sendersQueued, fun caller req hrun hex => ?_⟩
  have hdo : doIpc (s.running caller) caller req = .error .assertQLink := by
    simp only [Op.exec] at hex
    cases hr : doIpc (s.running caller) caller req with
    | error e => rw [hr] at hex; cases hex; rfl
    | ok r => rw [hr] at hex; cases hex
  exact (doIpc_acts (running_unblocked hrun)).error hdo rfl
    (hinv.links caller (isRunnable_flags hrun).1)

def plainMsg : UserMsg where
  addr := 1
  msg := some ⟨0, 1, .data []⟩
  mtype := some 1
  type_eq m h := by cases h; rfl

/-- Process 11 and then process 10 send to process 12, which dies. -/
theorem descending_senders_cleared : IpcInit (bootWith [10, 11, 12, 13]) ∧
    ∃ s, Run OrderedClears (bootWith [10, 11, 12, 13]) s ∧ (s.proc 12).rtsFlags.noEndpoint = true ∧
      (∃ q, SendersQueued s q) ∧ ∀ caller req, (s.proc caller).isRunnable →
        (Op.call caller req).exec s ≠ .error .assertQLink := by
  have hinit := bootWith_ipcInit [10, 11, 12, 13]
  -- the queue of process 12 when it dies
  let test : State → Op → Bool := fun s op => match op with
    | .clear _ => (s.proc 12).rtsFlags.sending = false ∧ (s.proc 12).callerQ = some 11 ∧
        (s.proc 11).qLink = some 10 ∧ (s.proc 10).qLink = none
    | _ => true
  obtain ⟨s, hrun, hdead⟩ := exists_run OrderedClears test
    [.call 11 (.sync .send 7 plainMsg), .call 10 (.sync .send 7 plainMsg), .clear 12]
    (bootWith [10, 11, 12, 13]) (fun s => (s.proc 12).rtsFlags.noEndpoint = true)
    (by
      intro u op hop htest
      simp only [mem_cons, not_mem_nil, or_false] at hop
      rcases hop with rfl | rfl | rfl
      · exact ⟨.call _ _, fun rc h => by cases h⟩
      · exact ⟨.call _ _, fun rc h => by cases h⟩
      · refine ⟨.clear _, fun rc h => ?_⟩
        cases h
        obtain ⟨hsend, h12, h11, h10⟩ := of_decide_eq_true htest
        refine ⟨fun h => ?_, [11, 10], ⟨h12, h11, h10⟩, by decide⟩
        rw [hsend] at h
        cases h)
    (by decide +kernel)
  exact ⟨hinit, s, hrun, hdead, senders_queued_if_cleared_in_order hinit hrun⟩

/-- Process 10 and then process 11 send to process 12, which dies. The link of process 10 still
leads to process 11, and its next message stops the kernel. -/
theorem ascending_senders_cleared : IpcInit (bootWith [10, 11, 12, 13]) ∧
    ∃ s, Run (fun _ op => CallsAndClears op) (bootWith [10, 11, 12, 13]) s ∧
      (¬∃ q, SendersQueued s q) ∧ (s.proc 10).isRunnable ∧
      (Op.call 10 (.sync .send 8 plainMsg)).exec s = .error .assertQLink := by
  obtain ⟨s, hrun, hsend, hlink, hrunnable, hhalt⟩ := exists_run
    (fun _ op => CallsAndClears op) (fun _ _ => true)
    [.call 10 (.sync .send 7 plainMsg), .call 11 (.sync .send 7 plainMsg), .clear 12]
    (bootWith [10, 11, 12, 13])
    (fun s => (s.proc 10).rtsFlags.sending = false ∧ (s.proc 10).qLink = some 11 ∧
      (s.proc 10).isRunnable ∧
      haltOf ((Op.call 10 (.sync .send 8 plainMsg)).exec s) = some .assertQLink)
    (by
      intro u op hop _
      simp only [mem_cons, not_mem_nil, or_false] at hop
      rcases hop with rfl | rfl | rfl
      · exact .call _ _
      · exact .call _ _
      · exact .clear _)
    (by decide +kernel)
  refine ⟨bootWith_ipcInit _, s, hrun, ?_, hrunnable, haltOf_eq_some.mp hhalt⟩
  rintro ⟨q, hq⟩
  rw [hq.reset 10 hsend] at hlink
  cases hlink

end Gergios.Kernel
