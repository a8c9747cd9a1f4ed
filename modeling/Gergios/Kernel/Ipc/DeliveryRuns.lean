import Gergios.Kernel.Ipc.QueueRuns
import Gergios.Kernel.Ipc.Steady

/-!
# Messages of blocked senders

What the history says of a sender: the message it has blocked on, until the message is copied
or the sender or its destination is cleared. A sender is in a queue if and only if it has such
a message. `do_fork` copies the head of the parent's queue together with the rest of its slot;
the two queues are one list then, unless it was empty.
-/

namespace Gergios.Kernel

open Function List

/-- The destination and the message that `i` waits with. The newest event comes first. -/
def outstanding : List Event → Slot → Option (Endpoint × Message)
  | [], _ => none
  | .blocked src e m :: l, i => if i = src then some (e, m) else outstanding l i
  | .copied src _ _ _ :: l, i => if i = src then none else outstanding l i
  | .cleared rc e :: l, i =>
    if i = rc ∨ (outstanding l i).any (·.1 = e) then none else outstanding l i
  | _ :: l, i => outstanding l i

def CopiesInOrder (log : List Event) : Prop := ∀ src dst e m l, .copied src dst e m :: l <:+ log →
  outstanding l src = some (e, m) ∧ endpointP e = procNr dst

variable {s t : State} {q : Slot → List Slot} {caller : Slot} {l log : List Event}
  {ev : Event} {e : Endpoint} {m : Message} {dst : Slot} {o : Option Endpoint}

theorem outstanding_cons_quiet (h : ev.isQuiet) (l : List Event) (i : Slot) :
    outstanding (ev :: l) i = outstanding l i := by
  cases ev <;> first | rfl | cases h

theorem outstanding_append_quiet (h : ∀ ev ∈ l, ev.isQuiet) (log : List Event)
    (i : Slot) : outstanding (l ++ log) i = outstanding log i := by
  induction l with
  | nil => rfl
  | cons ev l ih =>
    rw [cons_append, outstanding_cons_quiet (h ev mem_cons_self)]
    exact ih fun e he => h e (mem_cons_of_mem ev he)

theorem blocked_mem_of_outstanding {i : Slot}
    (hlog : outstanding log i = none) (h : outstanding (l ++ log) i = some (e, m)) :
    .blocked i e m ∈ l := by
  induction l with
  | nil =>
    rw [nil_append, hlog] at h
    cases h
  | cons ev l ih =>
    have hl : outstanding (ev :: (l ++ log)) i = some (e, m) := h
    cases ev with
    | blocked src e' m' =>
      simp only [outstanding] at hl
      split at hl
      · cases hl
        subst i
        exact mem_cons_self
      · exact mem_cons_of_mem _ (ih hl)
    | copied src dst e' m' =>
      simp only [outstanding] at hl
      split at hl
      · cases hl
      · exact mem_cons_of_mem _ (ih hl)
    | cleared rc e' =>
      simp only [outstanding] at hl
      split at hl
      · cases hl
      · exact mem_cons_of_mem _ (ih hl)
    | _ => exact mem_cons_of_mem _ (ih hl)

theorem copiesInOrder_cons (hl : CopiesInOrder l) (hev : ∀ src dst e m, ev = .copied src dst e m →
      outstanding l src = some (e, m) ∧ endpointP e = procNr dst) : CopiesInOrder (ev :: l) := by
  intro src dst e m l' hl'
  rcases suffix_cons_iff.mp hl' with h | h
  · cases h
    exact hev src dst e m rfl
  · exact hl src dst e m l' h

theorem CopiesInOrder.append_quiet (hlog : CopiesInOrder log)
    (h : ∀ ev ∈ l, ev.isQuiet) : CopiesInOrder (l ++ log) := by
  induction l with
  | nil => exact hlog
  | cons ev l ih =>
    refine copiesInOrder_cons (ih fun e he => h e (mem_cons_of_mem ev he)) ?_
    rintro src dst e m rfl
    cases h _ mem_cons_self

theorem CopiesInOrder.once {l' : List Event} {src dst' : Slot} {e' : Endpoint}
    {m' : Message} (h : CopiesInOrder log)
    (hl : .copied src dst e m :: (l ++ .copied src dst' e' m' :: l') <:+ log) :
    .blocked src e m ∈ l :=
  blocked_mem_of_outstanding (by simp [outstanding]) (h src dst e m _ hl).1

/-! ## The invariant -/

/-- The senders in the queues are those that wait with a message. A sender that is in no queue
is the child of a process that was blocked in `SENDREC` when it forked. -/
structure DeliveryInv (s : State) (q : Slot → List Slot) : Prop where
  slots : SlotsOk s
  endpoints : EndpointsOk s
  held : Held s q
  target : ∀ {i d}, i ∈ q d → (s.proc d).rtsFlags.slotFree = false
  queued : ∀ {i d}, i ∈ q d → outstanding s.log i = some ((s.proc i).sendtoE, (s.proc i).sendmsg)
  idle : ∀ {i}, (∀ d, i ∉ q d) → outstanding s.log i = none
  copies : CopiesInOrder s.log

theorem DeliveryInv.congr (h : DeliveryInv s q) (hs : SameSend s t) (hslots : SlotsOk t)
    (hlog : t.log = l ++ s.log) (hl : ∀ ev ∈ l, ev.isQuiet) : DeliveryInv t q where
  slots := hslots
  endpoints := h.endpoints.congr hs.endpoint
  held := h.held.congr hs
  target hi := by rw [hs.slotFree, h.target hi]
  queued hi := by rw [hlog, outstanding_append_quiet hl, h.queued hi, hs.sendtoE, hs.sendmsg]
  idle hi := by rw [hlog, outstanding_append_quiet hl, h.idle hi]
  copies := hlog ▸ h.copies.append_quiet hl

theorem DeliveryInv.wakes (h : DeliveryInv s q) (hw : Wakes s t) : DeliveryInv t q := by
  obtain ⟨l, hlog, hl⟩ := hw.log
  exact h.congr hw.sameSend (hw.slots h.slots) hlog hl

theorem Queued.deliveryInv {dstE : Endpoint} (hq : Queued s caller dstE dst t)
    (h : DeliveryInv s q) (hslots : SlotsOk t) :
    DeliveryInv t (update q dst (q dst ++ [caller])) := by
  have hheld := hq.held h.held
  obtain ⟨-, hlive, -⟩ := isokendpt_eq_some hq.target
  have hdst : (s.proc dst).rtsFlags.slotFree = false :=
    Bool.eq_false_iff.mpr fun hfree => hlive (h.slots.isEmpty dst hfree)
  have hmem : ∀ {i d}, i ∈ update q dst (q dst ++ [caller]) d → i ∈ q d ∨ i = caller ∧ d = dst := by
    intro i d hi
    by_cases hd : d = dst
    · subst hd
      rw [update_self, mem_append, List.mem_singleton] at hi
      exact hi.imp_right fun hi => ⟨hi, rfl⟩
    · rw [update_of_ne hd] at hi
      exact .inl hi
  obtain ⟨-, msg, flags, rfl⟩ := hq.state_eq h.held
  have hf := sendBlock_fields s caller dstE msg flags
  have hlog : ((sendBlock s caller dstE msg flags).writeCallerQ dst (q dst).getLast?
      (some caller)).log = .blocked caller dstE msg :: s.log := by
    rw [writeCallerQ_eq]
    simp [sendBlock, State.record]
  refine ⟨hslots, h.endpoints.congr fun i => ?_, hheld, fun hi => ?_, fun {i d} hi => ?_,
    fun {i} hi => ?_, ?_⟩
  · simp only [writeCallerQ_proc, hf]
  · simp only [writeCallerQ_proc, hf]
    rcases hmem hi with hi | ⟨-, rfl⟩
    · exact h.target hi
    · exact hdst
  · simp only [hlog, outstanding, writeCallerQ_proc, hf]
    by_cases hic : i = caller
    · simp only [if_pos hic]
    · simp only [if_neg hic]
      exact h.queued ((hmem hi).resolve_right fun hi => hic hi.1)
  · have hic : i ≠ caller := by
      rintro rfl
      exact hi dst (by simp)
    rw [hlog, outstanding, if_neg hic]
    refine h.idle fun d hd => hi d ?_
    by_cases hdd : d = dst
    · subst hdd
      simp [hd]
    · rwa [update_of_ne hdd]
  · rw [hlog]
    refine copiesInOrder_cons h.copies fun src dst e m hev => ?_
    cases hev

theorem Taken.deliveryInv {sender : Slot} {prev : Option Slot} {pre post : List Slot}
    (ht : Taken s caller sender prev t) (hfree : (s.proc sender).rtsFlags.slotFree = false)
    (h : DeliveryInv s q) (hslots : SlotsOk t) (hsplit : q caller = pre ++ sender :: post)
    (hprev : prev = pre.getLast?) : DeliveryInv t fun d => (q d).filter (· ≠ sender) := by
  have hheld := ht.held hfree h.held hsplit hprev
  rw [h.held.queues.filter_ne hsplit] at hheld
  obtain ⟨u, hn, rfl⟩ := ht.unlinked hfree
  have hw := hn.wakes
  have hf := copyMessage_fields s caller sender
  have hu := hw.sameSend
  obtain ⟨l, hl, hquiet⟩ := hw.log
  have hlog : (unlinkSender u caller sender prev).log =
      l ++ .copied sender caller (s.proc caller).endpoint (s.proc sender).sendmsg :: s.log := by
    rw [unlinkSender, writeCallerQ_eq]
    simpa [copyMessage, State.record] using hl
  have hmem : sender ∈ q caller := by simp [hsplit]
  refine ⟨hslots, h.endpoints.congr fun i => ?_, hheld, fun {i d} hi => ?_, fun {i d} hi => ?_,
    fun {i} hi => ?_, ?_⟩
  · simp only [unlinkSender_proc, hu.endpoint, hf]
  · simp only [unlinkSender_proc, hu.slotFree, hf]
    exact h.target (mem_of_mem_filter hi)
  · obtain ⟨hi, hne⟩ := mem_filter.mp hi
    rw [hlog, outstanding_append_quiet hquiet, outstanding, if_neg (by simpa using hne),
      h.queued hi]
    simp only [unlinkSender_proc, hu.sendtoE, hu.sendmsg, hf]
  · rw [hlog, outstanding_append_quiet hquiet, outstanding]
    split
    · rfl
    · rename_i hne
      exact h.idle fun d hd => hi d (mem_filter.mpr ⟨hd, decide_eq_true hne⟩)
  · rw [hlog]
    refine (copiesInOrder_cons h.copies fun src dst e m hev => ?_).append_quiet hquiet
    cases hev
    rw [h.queued hmem, (h.held.sound hmem).2]
    exact ⟨rfl, h.endpoints caller⟩

theorem IpcAct.deliveryInv (ha : IpcAct caller s o t) (h : DeliveryInv s q)
    (hcaller : (s.proc caller).rtsFlags.slotFree = false) : ∃ q', DeliveryInv t q' := by
  have hslots := ha.slotsOk h.slots hcaller
  cases ha with
  | wakes hcall => exact ⟨q, h.wakes hcall.wakes⟩
  | queued hq => exact ⟨_, hq.deliveryInv h hslots⟩
  | taken _ _ hwalk hfree _ ht =>
    obtain ⟨pre, post, hsplit, hprev⟩ := searchQueue_some h.held hwalk
    exact ⟨_, ht.deliveryInv hfree h hslots hsplit hprev⟩
  | blocked =>
    exact ⟨q, h.congr (blockReceiver_sameSend s caller ‹_›) hslots
      (l := []) (by simp [blockReceiver])
      (by simp)⟩

theorem IpcActs.deliveryInv (ha : IpcActs caller o s t) (h : ∃ q, DeliveryInv s q)
    (hcaller : (s.proc caller).rtsFlags.slotFree = false) : ∃ q, DeliveryInv t q := by
  induction ha with
  | refl => exact h
  | tail hacts hact ih =>
    obtain ⟨q, hq⟩ := ih
    refine hact.deliveryInv hq ?_
    rw [((IpcActs.steady hacts).proc caller).slotFree, hcaller]

/-! ## Death and birth -/

theorem clearEndpoint_deliveryInv {rc : Slot} (h : DeliveryInv s q)
    (hc : clearEndpoint s rc = .ok t) :
    DeliveryInv t (update (fun d => (q d).filter (· ≠ rc)) rc []) := by
  obtain ⟨hheld, hend⟩ := clearEndpoint_held h.held h.endpoints hc
  have hcl := clearEndpoint_cleared h.endpoints hc
  obtain ⟨l, hlog, hquiet⟩ := hcl.log
  have hmem : ∀ {i d}, i ∈ update (fun d => (q d).filter (· ≠ rc)) rc [] d ↔
      i ∈ q d ∧ i ≠ rc ∧ d ≠ rc := by
    intro i d
    by_cases hd : d = rc
    · simp [hd]
    · simp [hd]
  refine ⟨clearEndpoint_slotsOk h.slots h.endpoints hc, hend, hheld,
    fun hi => ?_, fun {i d} hi => ?_, fun {i} hi => ?_, ?_⟩
  · rw [hcl.slotFree]
    exact h.target (hmem.mp hi).1
  · obtain ⟨hi, hne, hd⟩ := hmem.mp hi
    rw [hlog, outstanding_append_quiet hquiet, outstanding, h.queued hi, if_neg, hcl.sendtoE,
      hcl.sendmsg]
    rintro (hrc | hto)
    · exact hne hrc
    · have hto : (s.proc i).sendtoE = (s.proc rc).endpoint := by simpa using hto
      exact hd (h.endpoints.injective ((h.held.sound hi).2.symm.trans hto))
  · rw [hlog, outstanding_append_quiet hquiet, outstanding]
    split
    · rfl
    rename_i hother
    rw [not_or] at hother
    refine h.idle fun d hd => ?_
    refine hi d (hmem.mpr ⟨hd, hother.1, ?_⟩)
    rintro rfl
    rw [h.queued hd, (h.held.sound hd).2] at hother
    simp at hother
  · rw [hlog]
    refine (copiesInOrder_cons h.copies fun src dst e m hev => ?_).append_quiet hquiet
    cases hev

section Fork

variable {rpp rpc : Slot} {vmInhibit : Bool}

theorem SlotsOk.forkSlot (hs : SlotsOk s) (hrpp : (s.proc rpp).rtsFlags.slotFree = false) :
    SlotsOk (forkSlot s rpp rpc vmInhibit) := by
  have hcopy := hs.modProc_live rpc (f := fun old => (s.proc rpp).forkChild old rpc) hrpp
  have hquantum := hcopy.rtsSet (i := rpc) (f := { noQuantum := true })
    (by simpa [Proc.forkChild] using hrpp) rfl
  refine SlotsOk.rtsUnset ?_ rpc rfl
  split
  · refine SlotsOk.rtsSet ?_ ?_ rfl
    · split
      · exact hquantum.modProc_live rpc (by simpa [Proc.forkChild, Proc.dropPriv] using hrpp)
      · exact hquantum
    · split <;> simpa [Proc.forkChild, Proc.dropPriv] using hrpp
  · split
    · exact hquantum.modProc_live rpc (by simpa [Proc.forkChild, Proc.dropPriv] using hrpp)
    · exact hquantum

theorem forkSlot_deliveryInv (h : DeliveryInv s q) (hrpp : (s.proc rpp).rtsFlags.slotFree = false)
    (hrpc : (s.proc rpc).isEmpty) (hq : (s.proc rpp).callerQ = none) :
    DeliveryInv (forkSlot s rpp rpc vmInhibit) q := by
  have hflags : (s.proc rpc).rtsFlags = { slotFree := true } := hrpc
  have hnil : q rpc = [] := by
    refine eq_nil_iff_forall_not_mem.mpr fun i hi => ?_
    have := h.target hi
    rw [hflags] at this
    cases this
  have hhead : (s.proc rpc).callerQ = none := by
    have := h.held.queues.linked rpc
    rwa [hnil] at this
  have hi_ne : ∀ {i d}, i ∈ q d → i ≠ rpc := by
    rintro i d hi rfl
    exact h.held.not_mem (by rw [hflags]) d hi
  have hd_ne : ∀ {i d}, i ∈ q d → d ≠ rpc := by
    rintro i d hi rfl
    rw [hnil] at hi
    cases hi
  refine ⟨h.slots.forkSlot hrpp, fun i => ?_, ⟨h.held.queues.congr (fun d => ?_) fun d i hi => ?_,
    fun {i d} hi => ?_⟩, fun {i d} hi => ?_, fun {i d} hi => ?_, fun {i} hi => ?_, ?_⟩
  · by_cases hi : i = rpc
    · rw [hi, forkSlot_self.2, endpointP_mkEndpoint (isokprocn_procNr rpc)]
    · rw [(forkSlot_of_ne s rpp vmInhibit hi).2.2.2.1, h.endpoints]
  · by_cases hd : d = rpc
    · subst hd
      simp only [State.callerQs, forkSlot_self, hq, hhead]
    · exact (forkSlot_of_ne s rpp vmInhibit hd).1
  · exact (forkSlot_of_ne s rpp vmInhibit (hi_ne hi)).2.1
  · obtain ⟨-, -, hto, -, -, hsend, -⟩ := forkSlot_of_ne s rpp vmInhibit (hi_ne hi)
    rw [hsend, hto, (forkSlot_of_ne s rpp vmInhibit (hd_ne hi)).2.2.2.1]
    exact h.held.sound hi
  · rw [(forkSlot_of_ne s rpp vmInhibit (hd_ne hi)).2.2.2.2.2.2]
    exact h.target hi
  · obtain ⟨-, -, hto, -, hmsg, -⟩ := forkSlot_of_ne s rpp vmInhibit (hi_ne hi)
    rw [forkSlot_log, h.queued hi, hto, hmsg]
  · rw [forkSlot_log, h.idle hi]
  · rw [forkSlot_log]
    exact h.copies

end Fork

/-! ## Runs -/

inductive CallsForksClears : Op → Prop
  | call (caller : Slot) (req : Request) : CallsForksClears (.call caller req)
  | fork (endpt : Endpoint) (rpc : Slot) (vmInhibit : Bool) :
      CallsForksClears (.fork endpt rpc vmInhibit)
  | clear (rc : Slot) : CallsForksClears (.clear rc)
  | quiet {op : Op} (h : op.IsQuiet) : CallsForksClears op

def ForksUnqueued (s : State) (op : Op) : Prop :=
  CallsForksClears op ∧ ∀ endpt rpc vmInhibit rpp, op = .fork endpt rpc vmInhibit →
    isokendpt s endpt = some rpp → (s.proc rpp).callerQ = none

theorem DeliveryInv.running (h : DeliveryInv s q) (hrun : (s.proc caller).isRunnable) :
    DeliveryInv (s.running caller) q :=
  h.congr (running_sameSend s caller) (h.slots.running hrun) (l := []) rfl (by simp)

theorem ForksUnqueued.deliveryInv {op : Op} (h : ∃ q, DeliveryInv s q) (hadm : ForksUnqueued s op)
    (hen : op.Enabled s) (hex : op.exec s = .ok t) : ∃ q, DeliveryInv t q := by
  obtain ⟨hop, hfork⟩ := hadm
  obtain ⟨q, h⟩ := h
  cases hop with
  | call caller req =>
    exact (call_acts hen hex).deliveryInv ⟨q, h.running hen⟩ (isRunnable_flags hen).2.2
  | fork endpt rpc vmInhibit =>
    obtain ⟨r, hr⟩ := map_fst_eq_ok hex
    obtain rfl | ⟨rpp, hrpp, hlive, hempty, rfl⟩ := doFork_cases hr
    · exact ⟨q, h⟩
    · have hfree : (s.proc rpp).rtsFlags.slotFree = false :=
        Bool.eq_false_iff.mpr fun hf => hlive (h.slots.isEmpty rpp hf)
      exact ⟨q, forkSlot_deliveryInv h hfree hempty (hfork endpt rpc vmInhibit rpp rfl hrpp)⟩
  | clear rc => exact ⟨_, clearEndpoint_deliveryInv h hex⟩
  | quiet hquiet => exact ⟨q, h.wakes (hquiet.wakes hen hex)⟩

theorem IpcInit.deliveryInv (h : IpcInit s) : DeliveryInv s fun _ => [] where
  slots := h.slots
  endpoints := h.endpointsOk
  held := h.sendQueues.toHeld
  target hi := by cases hi
  queued hi := by cases hi
  idle _ := by rw [h.log, outstanding]
  copies src dst e m l hl := by
    rw [h.log, suffix_nil] at hl
    cases hl

/-- A message that a sender has blocked on is copied at most once and for its addressee, and
the sender waits with it until then. -/
structure DeliveredOnce (s : State) : Prop where
  addressee : CopiesInOrder s.log
  once : ∀ src dst dst' e e' m m' l l',
    .copied src dst e m :: (l ++ .copied src dst' e' m' :: l') <:+ s.log → .blocked src e m ∈ l
  waits : ∀ i e m, outstanding s.log i = some (e, m) →
    (s.proc i).rtsFlags.sending = true ∧ (s.proc i).sendtoE = e ∧ (s.proc i).sendmsg = m

theorem DeliveryInv.deliveredOnce (h : DeliveryInv s q) : DeliveredOnce s where
  addressee := h.copies
  once _ _ _ _ _ _ _ _ _ hl := h.copies.once hl
  waits i e m hi := by
    by_cases hq : ∃ d, i ∈ q d
    · obtain ⟨d, hd⟩ := hq
      rw [h.queued hd] at hi
      cases hi
      exact ⟨(h.held.sound hd).1, rfl, rfl⟩
    · rw [h.idle (not_exists.mp hq)] at hi
      cases hi

theorem delivered_once_if_forked_unqueued {s₀ : State} (h₀ : IpcInit s₀)
    (h : Run ForksUnqueued s₀ s) : DeliveredOnce s := by
  have hinv : ∃ q, DeliveryInv s q := h.invariant ForksUnqueued.deliveryInv ⟨_, h₀.deliveryInv⟩
  obtain ⟨q, hq⟩ := hinv
  exact hq.deliveredOnce

/-- Process 10 waits for process 11 and forks; then process 12 sends to process 10. -/
theorem sender_after_fork_waits : IpcInit (bootWith [10, 11, 12, 16]) ∧
    ∃ s, Run ForksUnqueued (bootWith [10, 11, 12, 16]) s ∧
      outstanding s.log 12 = some (5, ⟨0, 1, .data []⟩) ∧
      (s.proc 20).rtsFlags.slotFree = false ∧ DeliveredOnce s := by
  have hinit := bootWith_ipcInit [10, 11, 12, 16]
  let test : State → Op → Bool := fun s op => match op with
    | .fork .. => isokendpt s 5 = some 10 ∧ (s.proc 10).callerQ = none
    | _ => true
  obtain ⟨s, hrun, hout, hfree⟩ := exists_run ForksUnqueued test
    [.call 10 (.sync .receive 6 plainMsg), .fork 5 20 false, .call 12 (.sync .send 5 plainMsg)]
    (bootWith [10, 11, 12, 16])
    (fun s => outstanding s.log 12 = some (5, ⟨0, 1, .data []⟩) ∧
      (s.proc 20).rtsFlags.slotFree = false)
    (by
      intro u op hop htest
      simp only [mem_cons, not_mem_nil, or_false] at hop
      rcases hop with rfl | rfl | rfl
      · exact ⟨.call _ _, fun _ _ _ _ h => by cases h⟩
      · obtain ⟨hok, hqueue⟩ := of_decide_eq_true htest
        refine ⟨.fork _ _ _, fun endpt rpc vmInhibit rpp h hrpp => ?_⟩
        cases h
        cases hok.symm.trans hrpp
        exact hqueue
      · exact ⟨.call _ _, fun _ _ _ _ h => by cases h⟩)
    (by decide +kernel)
  exact ⟨hinit, s, hrun, hout, hfree, delivered_once_if_forked_unqueued hinit hrun⟩

/-- The same, but process 12 sends first. The child finds process 12 in its queue and takes
the message, while process 12 is still at the head of the queue of process 10. -/
theorem forked_child_takes_message : IpcInit (bootWith [10, 11, 12, 16]) ∧
    ∃ s, Run (fun _ op => CallsForksClears op) (bootWith [10, 11, 12, 16]) s ∧
      s.log.head? = some (.copied 12 20 32783 ⟨0, 1, .data []⟩) ∧
      outstanding s.log.tail 12 = some (5, ⟨0, 1, .data []⟩) ∧ isokendpt s 5 = some 10 ∧
      (s.proc 10).callerQ = some 12 ∧ ¬DeliveredOnce s := by
  obtain ⟨s, hrun, hhead, hout, hok, hqueue⟩ := exists_run (fun _ op => CallsForksClears op)
    (fun _ _ => true)
    [.call 10 (.sync .receive 6 plainMsg), .call 12 (.sync .send 5 plainMsg), .fork 5 20 false,
      .call 11 (.sync .send 32783 plainMsg), .deliver 20,
      .unsetFlags 20 { noQuantum := true, noPriv := true }, .call 20 (.sync .receive anyE plainMsg)]
    (bootWith [10, 11, 12, 16])
    (fun s => s.log.head? = some (.copied 12 20 32783 ⟨0, 1, .data []⟩) ∧
      outstanding s.log.tail 12 = some (5, ⟨0, 1, .data []⟩) ∧ isokendpt s 5 = some 10 ∧
      (s.proc 10).callerQ = some 12)
    (by
      intro u op hop _
      simp only [mem_cons, not_mem_nil, or_false] at hop
      rcases hop with rfl | rfl | rfl | rfl | rfl | rfl | rfl
      · exact .call _ _
      · exact .call _ _
      · exact .fork _ _ _
      · exact .call _ _
      · exact .quiet (.deliver _)
      · exact .quiet (.unsetFlags _ _)
      · exact .call _ _)
    (by decide +kernel)
  refine ⟨bootWith_ipcInit _, s, hrun, hhead, hout, hok, hqueue, fun h => ?_⟩
  have hlog : .copied 12 20 32783 ⟨0, 1, .data []⟩ :: s.log.tail <:+ s.log := by
    rw [cons_head?_tail hhead]
  cases hout.symm.trans (h.addressee 12 20 32783 _ s.log.tail hlog).1

end Gergios.Kernel
