import Gergios.Kernel.Ipc.Actions

/-!
# The queues of senders

`Held` says that the lists that start at `p_caller_q` hold processes that are `RTS_SENDING`,
each at its destination; `SendQueues` says that they hold all of them. Nothing is asked of the
link of a process that is in no queue; that those links are reset is `LinksReset`, which the
assertion of `mini_send` relies on.
-/

namespace Gergios.Kernel

open Lib Function List

variable (s : State)

def State.callerQs (d : Slot) : Option Slot := (s.proc d).callerQ

def State.qLinks (j : Slot) : Option Slot := (s.proc j).qLink

def EndpointsOk : Prop := ∀ i, endpointP (s.proc i).endpoint = procNr i

structure Held (s : State) (q : Slot → List Slot) : Prop where
  queues : Queues s.callerQs s.qLinks q
  sound : ∀ {i d}, i ∈ q d →
    (s.proc i).rtsFlags.sending = true ∧ (s.proc i).sendtoE = (s.proc d).endpoint

structure SendQueues (s : State) (q : Slot → List Slot) : Prop extends Held s q where
  complete : ∀ i, (s.proc i).rtsFlags.sending = true → ∃ d, i ∈ q d

def LinksReset : Prop :=
  ∀ i, (s.proc i).rtsFlags.sending = false → (s.proc i).qLink = none

structure SameSend (s t : State) : Prop where
  callerQ : ∀ i, (t.proc i).callerQ = (s.proc i).callerQ
  qLink : ∀ i, (t.proc i).qLink = (s.proc i).qLink
  sendtoE : ∀ i, (t.proc i).sendtoE = (s.proc i).sendtoE
  endpoint : ∀ i, (t.proc i).endpoint = (s.proc i).endpoint
  sending : ∀ i, (t.proc i).rtsFlags.sending = (s.proc i).rtsFlags.sending
  sendmsg : ∀ i, (t.proc i).sendmsg = (s.proc i).sendmsg
  slotFree : ∀ i, (t.proc i).rtsFlags.slotFree = (s.proc i).rtsFlags.slotFree

variable {s t u : State} {q : Slot → List Slot} {caller : Slot}
  {i d dst sender : Slot} {pre post : List Slot} {dstE : Endpoint} {prev : Option Slot}

theorem EndpointsOk.injective (he : EndpointsOk s) {j : Slot}
    (h : (s.proc i).endpoint = (s.proc j).endpoint) : i = j :=
  procNr_injective ((he i).symm.trans ((congrArg endpointP h).trans (he j)))

theorem EndpointsOk.ne_none (he : EndpointsOk s) (i : Slot) : (s.proc i).endpoint ≠ noneE := by
  intro h
  have hnr := isokprocn_procNr i
  rw [← he i, h] at hnr
  exact not_isokprocn_endpointP_none hnr

theorem EndpointsOk.congr (he : EndpointsOk s)
    (h : ∀ i, (t.proc i).endpoint = (s.proc i).endpoint) :
    EndpointsOk t := fun i => by rw [h, he]

theorem Wakes.sameSend (h : Wakes s t) : SameSend s t where
  callerQ i := (h.proc i).callerQ
  qLink i := (h.proc i).qLink
  sendtoE i := (h.proc i).sendtoE
  endpoint i := (h.proc i).endpoint
  sending i := (h.proc i).sending
  sendmsg i := (h.proc i).sendmsg
  slotFree i := (h.proc i).slotFree

theorem SameSend.trans (h : SameSend s t) (h' : SameSend t u) : SameSend s u where
  callerQ i := (h'.callerQ i).trans (h.callerQ i)
  qLink i := (h'.qLink i).trans (h.qLink i)
  sendtoE i := (h'.sendtoE i).trans (h.sendtoE i)
  endpoint i := (h'.endpoint i).trans (h.endpoint i)
  sending i := (h'.sending i).trans (h.sending i)
  sendmsg i := (h'.sendmsg i).trans (h.sendmsg i)
  slotFree i := (h'.slotFree i).trans (h.slotFree i)

theorem LinksReset.congr (hl : LinksReset s) (h : SameSend s t) : LinksReset t := by
  intro i hi
  rw [h.qLink]
  exact hl i (h.sending i ▸ hi)

theorem writeCallerQ_proc (s : State) (d : Slot) (prev v : Option Slot) (i : Slot) :
    (s.writeCallerQ d prev v).proc i = { s.proc i with
      callerQ := cellHeads s.callerQs d prev v i
      qLink := cellNext s.qLinks prev v i } := by
  cases prev with
  | none =>
    simp only [State.writeCallerQ, State.modProc_proc, cellHeads, update_apply]
    split
    · subst i; rfl
    · rfl
  | some y =>
    simp only [State.writeCallerQ, State.modProc_proc, cellNext, update_apply]
    split
    · subst i; rfl
    · rfl

theorem writeCallerQ_eq (s : State) (d : Slot) (prev v : Option Slot) :
    s.writeCallerQ d prev v = { s with proc := (s.writeCallerQ d prev v).proc } := by
  cases prev <;> rfl

namespace Held

section

variable (hq : Held s q)

include hq

theorem congr (h : SameSend s t) : Held t q where
  queues := hq.queues.congr h.callerQ fun _ i _ => h.qLink i
  sound hi := by
    rw [h.sending, h.sendtoE, h.endpoint]
    exact hq.sound hi

theorem length_lt (d : Slot) : (q d).length < nrSlots + 1 :=
  Nat.lt_succ_of_le (by simpa [nrSlots] using (hq.queues.linked d).length_le)

theorem walk_eq (p : Slot → Bool) (d : Slot) :
    walk (fun j => (s.proc j).qLink) p (nrSlots + 1) none (s.proc d).callerQ =
      some (locate p none (q d)) :=
  (hq.queues.linked d).walk_eq (hq.length_lt d)

theorem lastCell_eq (d : Slot) :
    lastCell (fun j => (s.proc j).qLink) (nrSlots + 1) none (s.proc d).callerQ =
      some (q d).getLast? := by
  rw [← (q d).getLast?.or_none]
  exact (hq.queues.linked d).lastCell_eq (hq.length_lt d)

theorem not_mem (hi : (s.proc i).rtsFlags.sending = false) (d : Slot) : i ∉ q d := by
  intro hm
  rw [(hq.sound hm).1] at hi
  cases hi

theorem blockedOn_of_mem (hi : i ∈ q d) : (s.proc i).blockedOn = (s.proc d).endpoint := by
  obtain ⟨hs, hto⟩ := hq.sound hi
  rw [Proc.blockedOn, if_pos hs, hto]

theorem append (hi : (s.proc i).rtsFlags.sending = false) (hlink : (s.proc i).qLink = none)
    (hheads : ∀ j, (t.proc j).callerQ = cellHeads s.callerQs d (q d).getLast? (some i) j)
    (hnext : ∀ j, (t.proc j).qLink = cellNext s.qLinks (q d).getLast? (some i) j)
    (hsend : ∀ j, (t.proc j).rtsFlags.sending = ((s.proc j).rtsFlags.sending || decide (j = i)))
    (hto : ∀ j, (t.proc j).sendtoE = if j = i then (s.proc d).endpoint else (s.proc j).sendtoE)
    (hend : ∀ j, (t.proc j).endpoint = (s.proc j).endpoint) : Held t (update q d (q d ++ [i])) where
  queues := by
    refine (hq.queues.append d (fun d' => hq.not_mem hi d') hlink).congr hheads fun _ j _ => ?_
    exact hnext j
  sound := by
    have hold : ∀ {j d'}, j ∈ q d' → (t.proc j).rtsFlags.sending = true ∧
        (t.proc j).sendtoE = (t.proc d').endpoint := by
      intro j d' hj
      have hji : j ≠ i := fun h => hq.not_mem hi d' (h ▸ hj)
      rw [hsend, hto, hend, if_neg hji, (hq.sound hj).1]
      exact ⟨rfl, (hq.sound hj).2⟩
    intro j d' hj
    by_cases hd : d' = d
    · subst hd
      rw [update_self, mem_append, List.mem_singleton] at hj
      rcases hj with hj | rfl
      · exact hold hj
      · rw [hsend, hto, hend, if_pos rfl]
        exact ⟨by simp, rfl⟩
    · rw [update_of_ne hd] at hj
      exact hold hj

theorem remove (hd : q d = pre ++ i :: post)
    (hheads : ∀ j, (t.proc j).callerQ = cellHeads s.callerQs d pre.getLast? (s.proc i).qLink j)
    (hnext : ∀ j, j ≠ i → (t.proc j).qLink = cellNext s.qLinks pre.getLast? (s.proc i).qLink j)
    (hsend : ∀ j, (t.proc j).rtsFlags.sending = ((s.proc j).rtsFlags.sending && !decide (j = i)))
    (hto : ∀ j, (t.proc j).sendtoE = (s.proc j).sendtoE)
    (hend : ∀ j, (t.proc j).endpoint = (s.proc j).endpoint) :
    Held t (update q d (pre ++ post)) := by
  have hnd : (pre ++ i :: post).Nodup := hd ▸ hq.queues.nodup d
  have hout : ∀ d', i ∉ update q d (pre ++ post) d' := by
    intro d'
    by_cases hdd : d' = d
    · rw [hdd, update_self]
      rw [nodup_middle] at hnd
      exact (nodup_cons.mp hnd).1
    · rw [update_of_ne hdd]
      exact hq.queues.not_mem_of_ne (by simp [hd]) hdd
  have hsub : ∀ {j d'}, j ∈ update q d (pre ++ post) d' → j ∈ q d' := by
    intro j d' hj
    by_cases hdd : d' = d
    · rw [hdd, update_self, mem_append] at hj
      rw [hdd, hd, mem_append]
      exact hj.imp_right (mem_cons_of_mem i)
    · rwa [update_of_ne hdd] at hj
  constructor
  · refine (hq.queues.unlink hd).congr hheads fun d' j hj => ?_
    exact hnext j fun h => hout d' (h ▸ hj)
  · intro j d' hj
    have hji : j ≠ i := fun h => hout d' (h ▸ hj)
    rw [hsend, hto, hend, (hq.sound (hsub hj)).1]
    exact ⟨by simp [hji], (hq.sound (hsub hj)).2⟩

end

end Held

namespace SendQueues

theorem congr (hq : SendQueues s q) (h : SameSend s t) : SendQueues t q :=
  ⟨hq.toHeld.congr h, fun i hi => hq.complete i (h.sending i ▸ hi)⟩

theorem mem_iff (hq : SendQueues s q) (he : EndpointsOk s) (i d : Slot) : i ∈ q d ↔
    (s.proc i).rtsFlags.sending = true ∧ (s.proc i).sendtoE = (s.proc d).endpoint := by
  refine ⟨hq.sound, fun ⟨hs, hto⟩ => ?_⟩
  obtain ⟨d', hd'⟩ := hq.complete i hs
  exact he.injective (hto.symm.trans (hq.sound hd').2) ▸ hd'

end SendQueues

/-! ## The actions of a call -/

theorem sendBlock_fields (s : State) (i : Slot) (e : Endpoint) (m : Message) (flags : SendFlags)
    (j : Slot) : ((sendBlock s i e m flags).proc j).callerQ = (s.proc j).callerQ ∧
    ((sendBlock s i e m flags).proc j).qLink = (s.proc j).qLink ∧
    ((sendBlock s i e m flags).proc j).endpoint = (s.proc j).endpoint ∧
    ((sendBlock s i e m flags).proc j).getfromE = (s.proc j).getfromE ∧
    ((sendBlock s i e m flags).proc j).rtsFlags.receiving = (s.proc j).rtsFlags.receiving ∧
    ((sendBlock s i e m flags).proc j).rtsFlags.slotFree = (s.proc j).rtsFlags.slotFree ∧
    ((sendBlock s i e m flags).proc j).sendmsg = (if j = i then m else (s.proc j).sendmsg) ∧
    ((sendBlock s i e m flags).proc j).sendtoE = (if j = i then e else (s.proc j).sendtoE) ∧
    ((sendBlock s i e m flags).proc j).rtsFlags.sending =
      ((s.proc j).rtsFlags.sending || decide (j = i)) := by
  by_cases h : j = i <;> simp [sendBlock, State.modProc_proc, h]

section

variable (h : Queued s caller dstE dst t)

include h

theorem Queued.state_eq (hq : Held s q) : (s.proc caller).qLink = none ∧ ∃ msg flags,
      t = (sendBlock s caller dstE msg flags).writeCallerQ dst (q dst).getLast? (some caller) := by
  obtain ⟨msg, flags, happ⟩ := h.append
  have hf := sendBlock_fields s caller dstE msg flags
  simp only [appendCaller, hf, hq.lastCell_eq] at happ
  split at happ
  · cases happ
  · rename_i hlink
    cases happ
    exact ⟨by simpa using hlink, msg, flags, rfl⟩

theorem Queued.held (hq : Held s q) : Held t (update q dst (q dst ++ [caller])) := by
  obtain ⟨hlink, msg, flags, rfl⟩ := h.state_eq hq
  have hf := sendBlock_fields s caller dstE msg flags
  have hheads : (sendBlock s caller dstE msg flags).callerQs = s.callerQs :=
    funext fun j => (hf j).1
  have hlinks : (sendBlock s caller dstE msg flags).qLinks = s.qLinks := funext fun j => (hf j).2.1
  have hdst : (s.proc dst).endpoint = dstE := (isokendpt_eq_some h.target).2.2
  refine hq.append h.sending hlink ?_ ?_ ?_ ?_ ?_ <;> intro j <;>
    simp only [writeCallerQ_proc, hheads, hlinks, hf, hdst]

theorem Queued.sendQueues (hq : SendQueues s q) :
    SendQueues t (update q dst (q dst ++ [caller])) := by
  refine ⟨h.held hq.toHeld, fun i hi => ?_⟩
  obtain ⟨-, msg, flags, rfl⟩ := h.state_eq hq.toHeld
  simp only [writeCallerQ_proc, sendBlock_fields, Bool.or_eq_true, decide_eq_true_eq] at hi
  rcases hi with hi | rfl
  · obtain ⟨d, hd⟩ := hq.complete i hi
    refine ⟨d, ?_⟩
    by_cases hdd : d = dst
    · simp [hdd, hdd ▸ hd]
    · rwa [update_of_ne hdd]
  · exact ⟨dst, by simp⟩

theorem Queued.linksReset (hq : Held s q) (hl : LinksReset s) : LinksReset t := by
  obtain ⟨hlink, msg, flags, rfl⟩ := h.state_eq hq
  have hf := sendBlock_fields s caller dstE msg flags
  have hlinks : (sendBlock s caller dstE msg flags).qLinks = s.qLinks := funext fun j => (hf j).2.1
  intro j hj
  simp only [writeCallerQ_proc, hlinks, hf, Bool.or_eq_false_iff] at hj ⊢
  rw [cellNext_of_ne]
  · exact hl j hj.1
  · intro hlast
    exact hq.not_mem hj.1 dst (mem_of_getLast? hlast)

end

theorem unlinkSender_proc (s : State) (i sender : Slot) (prev : Option Slot) (j : Slot) :
    (unlinkSender s i sender prev).proc j = { s.proc j with
      callerQ := cellHeads s.callerQs i prev (s.proc sender).qLink j
      qLink := if j = sender then none else cellNext s.qLinks prev (s.proc sender).qLink j } := by
  by_cases h : j = sender <;> simp [unlinkSender, State.modProc_proc, writeCallerQ_proc, h]

section

variable (h : Taken s caller sender prev t)

include h

section

variable (hfree : (s.proc sender).rtsFlags.slotFree = false)

include hfree

theorem Taken.unlinked :
    ∃ u, NoteSteps (copyMessage s caller sender) u ∧ t = unlinkSender u caller sender prev := by
  have hn := takeMessage_notes s caller sender
  cases h with
  | plain => exact ⟨_, hn, rfl⟩
  | delayed _ hu =>
    rw [← takeMessage_slotFree caller sender] at hfree
    exact ⟨_, hn.trans ((sigDelayDone_notes hfree).ok hu), rfl⟩

omit hfree in
omit h in
theorem searchQueue_some {srcE : Endpoint}
    (hq : Held s q) (h : searchQueue s caller srcE = some (some (prev, sender))) :
    ∃ pre post, q caller = pre ++ sender :: post ∧ prev = pre.getLast? := by
  rw [searchQueue, hq.walk_eq] at h
  obtain ⟨pre, post, hsplit, hprev⟩ := locate_eq_some (Option.some.inj h)
  exact ⟨pre, post, hsplit, by rw [hprev, Option.or_none]⟩

theorem Taken.held (hq : Held s q) (hsplit : q caller = pre ++ sender :: post)
    (hprev : prev = pre.getLast?) :
    Held t (update q caller (pre ++ post)) := by
  obtain ⟨u, hn, rfl⟩ := h.unlinked hfree
  have hw := hn.wakes
  subst hprev
  have hu := hw.sameSend
  have hf := copyMessage_fields s caller sender
  have hheads : u.callerQs = s.callerQs := funext fun j => (hu.callerQ j).trans (hf j).1
  have hlinks : u.qLinks = s.qLinks := funext fun j => (hu.qLink j).trans (hf j).2.1
  refine hq.remove hsplit (fun j => ?_) (fun j hj => ?_) (fun j => ?_) (fun j => ?_) fun j => ?_
  · simp only [unlinkSender_proc, hheads, hu.qLink, hf]
  · simp only [unlinkSender_proc, hlinks, hu.qLink, hf, if_neg hj]
  · simp only [unlinkSender_proc, hu.sending, hf]
  · simp only [unlinkSender_proc, hu.sendtoE, hf]
  · simp only [unlinkSender_proc, hu.endpoint, hf]

theorem Taken.sendQueues (hq : SendQueues s q) (hsplit : q caller = pre ++ sender :: post)
    (hprev : prev = pre.getLast?) :
    SendQueues t (update q caller (pre ++ post)) := by
  refine ⟨h.held hfree hq.toHeld hsplit hprev, fun i hi => ?_⟩
  obtain ⟨u, hn, rfl⟩ := h.unlinked hfree
  have hw := hn.wakes
  simp only [unlinkSender_proc, (hw.proc i).sending, copyMessage_fields, Bool.and_eq_true,
    Bool.not_eq_true', decide_eq_false_iff_not] at hi
  obtain ⟨d, hd⟩ := hq.complete i hi.1
  refine ⟨d, ?_⟩
  by_cases hdd : d = caller
  · rw [hdd, hsplit] at hd
    simpa [hdd, hi.2] using hd
  · rwa [update_of_ne hdd]

theorem Taken.linksReset (hq : Held s q) (hsplit : q caller = pre ++ sender :: post)
    (hprev : prev = pre.getLast?) (hl : LinksReset s) :
    LinksReset t := by
  obtain ⟨u, hn, rfl⟩ := h.unlinked hfree
  have hw := hn.wakes
  have hu := hw.sameSend
  have hf := copyMessage_fields s caller sender
  have hlinks : u.qLinks = s.qLinks := funext fun j => (hu.qLink j).trans (hf j).2.1
  intro j hj
  simp only [unlinkSender_proc, hu.sending, hf] at hj ⊢
  split
  · rfl
  rename_i hne
  have hsend : (s.proc j).rtsFlags.sending = false := by simpa [hne] using hj
  rw [cellNext_of_ne, hlinks]
  · exact hl j hsend
  · rw [hprev]
    intro hlast
    refine hq.not_mem hsend caller ?_
    rw [hsplit]
    exact mem_append_left _ (mem_of_getLast? hlast)

end

end

theorem blockReceiver_sameSend (s : State) (caller : Slot) (srcE : Endpoint) :
    SameSend s (blockReceiver s caller srcE) := by
  constructor <;> intro i <;> by_cases h : i = caller <;>
    simp [blockReceiver, State.modProc_proc, h]

theorem IpcAct.sendQueues {o : Option Endpoint} (h : IpcAct caller s o t) (hq : SendQueues s q)
    (he : EndpointsOk s) :
    (∃ q', SendQueues t q') ∧ EndpointsOk t ∧ (LinksReset s → LinksReset t) := by
  cases h with
  | wakes hcall =>
    have hs := hcall.wakes.sameSend
    exact ⟨⟨q, hq.congr hs⟩, he.congr hs.endpoint, fun hl => hl.congr hs⟩
  | queued hqueued =>
    refine ⟨⟨_, hqueued.sendQueues hq⟩, he.congr fun i => ?_, hqueued.linksReset hq.toHeld⟩
    obtain ⟨-, msg, flags, rfl⟩ := hqueued.state_eq hq.toHeld
    simp only [writeCallerQ_proc, sendBlock_fields]
  | taken _ _ hwalk hfree _ htaken =>
    obtain ⟨pre, post, hsplit, hprev⟩ := searchQueue_some hq.toHeld hwalk
    refine ⟨⟨_, htaken.sendQueues hfree hq hsplit hprev⟩, he.congr fun i => ?_,
      htaken.linksReset hfree hq.toHeld hsplit hprev⟩
    obtain ⟨u, hn, rfl⟩ := htaken.unlinked hfree
    have hw := hn.wakes
    simp only [unlinkSender_proc, hw.sameSend.endpoint, copyMessage_fields]
  | blocked =>
    have hs := blockReceiver_sameSend s caller ‹_›
    exact ⟨⟨q, hq.congr hs⟩, he.congr hs.endpoint, fun hl => hl.congr hs⟩

end Gergios.Kernel
