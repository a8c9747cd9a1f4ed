import Gergios.Kernel.Ipc.AsyncWakes
import Gergios.Kernel.Ipc.Sync

/-!
# What an IPC call can do

Every call of `do_ipc` is a sequence of four kinds of actions: something that only wakes, a
sender being queued, a message being taken from a queued sender, and a receiver blocking.
The guards of an action are the checks that the code has made when it gets there.
-/

namespace Gergios.Kernel

open Lib

variable {s t u : State} {caller : Slot}

inductive AsynOp (caller : Slot) (s : State) : State → Prop
  | senda {table size : Nat} {t : State} {r : Errno}
      (hsys : (s.privOf caller).flags.sysProc = true)
      (h : tryDeliverSenda s caller table size = .ok (t, r)) : AsynOp caller s t
  | receive {receiveE : Endpoint} {src : Slot} {t : State} {r : Errno}
      (hfree : (s.proc caller).rtsFlags.slotFree = false)
      (hreceiving : (s.proc caller).rtsFlags.receiving = false)
      (h : tryOne s receiveE src caller = .ok (t, r)) : AsynOp caller s t

inductive CallStep (caller : Slot) (s : State) : State → Prop
  | note {t : State} (h : NoteStep s t) : CallStep caller s t
  | asyn {t : State} (h : AsynOp caller s t) : CallStep caller s t

abbrev CallSteps (caller : Slot) : State → State → Prop := Relation.ReflTransGen (CallStep caller)

/-- The sender leaves the queue: its message is taken, a delayed signal may be sent, and the
cell in front of it is closed. -/
inductive Taken (s : State) (caller sender : Slot) (prev : Option Slot) : State → Prop
  | plain (h : ((takeMessage s caller sender).proc sender).miscFlags.sigDelay = false) :
      Taken s caller sender prev (unlinkSender (takeMessage s caller sender) caller sender prev)
  | delayed {u : State} (h : ((takeMessage s caller sender).proc sender).miscFlags.sigDelay = true)
      (hu : sigDelayDone (takeMessage s caller sender) sender = .ok u) :
      Taken s caller sender prev (unlinkSender u caller sender prev)

/-- The search of the queue of `caller` in `mini_receive`. -/
def searchQueue (s : State) (caller : Slot) (srcE : Endpoint) :
    Option (Option (Option Slot × Slot)) :=
  walk (fun j => (s.proc j).qLink)
    (fun j => canReceive s srcE (s.proc j).endpoint caller (some (s.proc j).sendmsg.type))
    (nrSlots + 1) none (s.proc caller).callerQ

def blockReceiver (s : State) (caller : Slot) (srcE : Endpoint) : State :=
  rtsSet (s.modProc caller fun p => { p with getfromE := srcE }) caller { receiving := true }

structure Queued (s : State) (caller : Slot) (dstE : Endpoint) (dst : Slot) (t : State) : Prop where
  target : isokendpt s dstE = some dst
  live : (s.proc dst).rtsFlags.noEndpoint = false
  sending : (s.proc caller).rtsFlags.sending = false
  receiving : (s.proc caller).rtsFlags.receiving = false
  refused : ∃ mtype, willReceive s (s.proc caller).endpoint dst mtype = false
  safe : ∃ chain, deadlock s .send caller dstE = .ok chain ∧ chain.groupSize = 0
  append : ∃ msg flags, appendCaller (sendBlock s caller dstE msg flags) caller dst = .ok t

/-- One action of `caller`; a call that can block names the endpoint it would block on. -/
inductive IpcAct (caller : Slot) (s : State) : Option Endpoint → State → Prop
  | wakes {o : Option Endpoint} {t : State} (h : CallStep caller s t) : IpcAct caller s o t
  | queued {dst : Slot} {dstE : Endpoint} {t : State} (h : Queued s caller dstE dst t) :
      IpcAct caller s (some dstE) t
  | taken {srcE : Endpoint} {sender : Slot} {prev : Option Slot} {t : State}
      (hsending : (s.proc caller).rtsFlags.sending = false)
      (hreceiving : (s.proc caller).rtsFlags.receiving = false)
      (hwalk : searchQueue s caller srcE = some (some (prev, sender)))
      (hfree : (s.proc sender).rtsFlags.slotFree = false)
      (hlive : (s.proc sender).rtsFlags.noEndpoint = false)
      (h : Taken s caller sender prev t) : IpcAct caller s (some srcE) t
  | blocked {srcE : Endpoint} {chain : Chain}
      (hsrc : srcE = anyE ∨ ∃ i, isokendpt s srcE = some i ∧ (s.proc i).rtsFlags.noEndpoint = false)
      (hsending : (s.proc caller).rtsFlags.sending = true → (s.proc caller).sendtoE = srcE)
      (hreceiving : (s.proc caller).rtsFlags.receiving = false)
      (hdeliver : (s.proc caller).miscFlags.deliverMsg = false)
      (hsearch : (s.proc caller).rtsFlags.sending = false → searchQueue s caller srcE = some none)
      (hdead : deadlock s .receive caller srcE = .ok chain) (hgroup : chain.groupSize = 0) :
      IpcAct caller s (some srcE) (blockReceiver s caller srcE)

abbrev IpcActs (caller : Slot) (o : Option Endpoint) : State → State → Prop :=
  Relation.ReflTransGen fun s t => IpcAct caller s o t

variable {dstE srcE e : Endpoint} {m : UserMsg} {dst : Slot} {r : Errno} {src : Option Slot}
  {b nb : Bool}

/-- The process neither waits for a message nor for its own to be taken. -/
structure Unblocked (s : State) (i : Slot) : Prop extends Listens s i where
  sending : (s.proc i).rtsFlags.sending = false

variable {flags : SendFlags} {buf : Nat}

theorem Unblocked.wakes (h : Unblocked s caller) (hw : Wakes s t) : Unblocked t caller :=
  ⟨h.toListens.wakes hw, (hw.proc caller).sending.trans h.sending⟩

theorem AsynOp.steps (h : AsynOp caller s t) : WakeSteps s t := by
  cases h with
  | senda hsys h => exact (tryDeliverSenda_steps hsys ..).ok h
  | receive hfree hreceiving h => exact ((tryOne_steps ⟨hfree, hreceiving⟩ ..).ok h).1

theorem CallStep.steps (h : CallStep caller s t) : WakeSteps s t := by
  cases h with
  | note hn => exact .single (.note hn)
  | asyn ha => exact ha.steps

theorem CallStep.wakes (h : CallStep caller s t) : Wakes s t := h.steps.wakes

theorem CallSteps.wakes (h : CallSteps caller s t) : Wakes s t := by
  induction h with
  | refl => exact .refl s
  | tail _ hstep ih => exact ih.trans hstep.wakes

theorem CallSteps.acts {o : Option Endpoint} (h : CallSteps caller s t) : IpcActs caller o s t := by
  induction h with
  | refl => exact .refl
  | tail _ hstep ih => exact ih.tail (.wakes hstep)

theorem NoteStep.call (h : NoteStep s t) : CallSteps caller s t := .single (.note h)

theorem NoteSteps.call (h : NoteSteps s t) : CallSteps caller s t := by
  induction h with
  | refl => exact .refl
  | tail _ hstep ih => exact ih.tail (.note hstep)

/-! ## Sending -/

theorem Proc.acceptSend_woken (p : Proc) (m : Message) (call : Call) (b : Bool) :
    p.Woken (p.acceptSend m call b) := by
  have hstatus : p.Woken (if b then p.ipcStatusAdd msgFromKernel else p) := by
    split
    · exact p.ipcStatusAdd_woken _
    · exact .refl p
  refine hstatus.trans ((Proc.deliver_woken _ m).trans
    ((Proc.ipcStatusAdd_woken _ call.status).trans ?_))
  constructor <;> simp [Proc.acceptSend]

theorem Proc.acceptSend_rtsFlags (p : Proc) (m : Message) (call : Call) (b : Bool) :
    (p.acceptSend m call b).rtsFlags = p.rtsFlags := by
  cases b <;> simp [Proc.acceptSend, Proc.deliver]

theorem deadlockLoop_exits (s : State) (fn : BlockFn) (cpE : Endpoint) (n : Nat) (e : Endpoint)
    (visited : List Slot) : Exits False (fun _ => True) (deadlockLoop s fn cpE n e visited) := by
  induction n generalizing e visited with
  | zero => rintro ⟨⟩
  | succ n ih =>
    simp only [deadlockLoop, okendpt]
    split
    · trivial
    split
    · rename_i hok
      split at hok <;> cases hok
      rintro ⟨⟩
    · split
      · rintro ⟨⟩
      · split
        · trivial
        · split
          · split <;> trivial
          · exact ih _ _

theorem miniSend_cases (hdst : isokendpt s dstE = some dst)
    (hc : Unblocked s caller) (m : UserMsg) (flags : SendFlags) :
    Exits ((s.proc caller).qLink ≠ none) (fun a => NoteSteps s a.1 ∨
      (flags.nonBlocking = false ∧ Queued s caller dstE dst a.1))
    (miniSend s caller dstE m flags) := by
  simp only [miniSend, (isokendpt_eq_some hdst).1]
  split
  · exact .inl .refl
  rename_i hlive
  split
  · rintro ⟨⟩
  split
  · split
    · rintro ⟨⟩
    · split
      · exact .inl .refl
      · exact .inl (.single (.hand dst (Proc.acceptSend_woken ..) (Proc.acceptSend_rtsFlags ..)))
  · rename_i hnot
    split
    · exact .inl .refl
    rename_i hblocking
    split
    · exact fun h => ((deadlockLoop_exits ..).error ‹_› h).elim
    rename_i chain hdead
    split
    · exact .inl .refl
    rename_i hgroup
    split
    · exact .inl .refl
    split
    · rename_i happ
      simp only [appendCaller] at happ
      split at happ
      · rename_i hlink
        exact fun _ => by simpa [sendBlock] using hlink
      · split at happ <;> cases happ
        rintro ⟨⟩
    · rename_i happ
      exact .inr ⟨by simpa using hblocking, hdst, by simpa using hlive, hc.sending,
        hc.receiving, ⟨_, by simpa using hnot⟩, ⟨chain, hdead, by simpa using hgroup⟩,
        ⟨_, _, happ⟩⟩

/-! ## Receiving -/

theorem takeMessage_notes (s : State) (i sender : Slot) :
    NoteSteps (copyMessage s i sender) (takeMessage s i sender) := by
  simp only [takeMessage]
  split
  · refine .tail (.tail (.single (.ipcStatusAdd ..)) (.ipcStatusAdd ..))
      (.modMisc _ sender fun p => ?_)
    exact ⟨⟨_, p.delivermsgVir, p.ipcStatus, rfl⟩, rfl⟩
  · exact .single (.ipcStatusAdd ..)

theorem copyMessage_fields (s : State) (i sender j : Slot) :
    ((copyMessage s i sender).proc j).callerQ = (s.proc j).callerQ ∧
    ((copyMessage s i sender).proc j).qLink = (s.proc j).qLink ∧
    ((copyMessage s i sender).proc j).endpoint = (s.proc j).endpoint ∧
    ((copyMessage s i sender).proc j).getfromE = (s.proc j).getfromE ∧
    ((copyMessage s i sender).proc j).rtsFlags.receiving = (s.proc j).rtsFlags.receiving ∧
    ((copyMessage s i sender).proc j).rtsFlags.slotFree = (s.proc j).rtsFlags.slotFree ∧
    ((copyMessage s i sender).proc j).sendmsg = (s.proc j).sendmsg ∧
    ((copyMessage s i sender).proc j).sendtoE = (s.proc j).sendtoE ∧
    ((copyMessage s i sender).proc j).rtsFlags.sending =
      ((s.proc j).rtsFlags.sending && !decide (j = sender)) := by
  by_cases h : j = i <;> simp [copyMessage, State.modProc_proc, h, Proc.deliver]

theorem takeMessage_slotFree (i sender : Slot) :
    ((takeMessage s i sender).proc sender).rtsFlags.slotFree =
      (s.proc sender).rtsFlags.slotFree := by
  rw [((takeMessage_notes s i sender).wakes.proc sender).slotFree]
  simp only [copyMessage_fields]

section Search

variable (srcE : Endpoint) (src : Option Slot)

theorem receiveNotify_notes (hreceiving : (s.proc caller).rtsFlags.receiving = false) :
    Exits False (fun a => NoteSteps s a.1 ∧ (a.2 = false → a.1 = s))
      (receiveNotify s caller srcE src) := by
  simp only [receiveNotify]
  split
  · exact ⟨.refl, fun _ => rfl⟩
  split
  · exact ⟨.refl, fun _ => rfl⟩
  split
  · rintro ⟨⟩
  split
  · exact ⟨.single (.take _ hreceiving), fun h => by cases h⟩
  · exact ⟨.refl, fun _ => rfl⟩

theorem tryOne_call (hc : Listens s caller) (i : Slot) :
    Exits False (fun a => CallSteps caller s a.1 ∧ (a.2 ≠ .ok →
      (a.1.proc caller).miscFlags.deliverMsg = (s.proc caller).miscFlags.deliverMsg))
    (tryOne s srcE i caller) := by
  have hone := tryOne_steps hc srcE i
  cases h : tryOne s srcE i caller with
  | error e => exact hone.error h
  | ok a => exact ⟨.single (.asyn (.receive hc.slotFree hc.receiving h)), (hone.ok h).2⟩

theorem tryAsyncLoop_call (ks : List PrivId) (hc : Listens s caller) :
    Exits False (fun a => CallSteps caller s a.1 ∧ (a.2 ≠ .ok →
      (a.1.proc caller).miscFlags.deliverMsg = (s.proc caller).miscFlags.deliverMsg))
    (tryAsyncLoop caller ks s) := by
  induction ks generalizing s with
  | nil => exact ⟨.refl, fun _ => rfl⟩
  | cons k ks ih =>
    simp only [tryAsyncLoop]
    split
    · exact ih hc
    split
    · exact ih hc
    split
    · rintro ⟨⟩
    split
    · rintro ⟨⟩
    rename_i src _ _
    have hone := tryOne_call anyE hc src
    split
    · exact hone.error ‹_›
    · exact hone.ok ‹_›
    · rename_i r hnot h
      obtain ⟨hcall, hd⟩ := hone.ok h
      refine (ih (hc.wakes hcall.wakes)).mono fun a ha => ⟨hcall.trans ha.1, fun hr => ?_⟩
      rw [ha.2 hr]
      exact hd fun e => hnot (e ▸ rfl)

theorem receiveAsyn_call (hc : Listens s caller) :
    Exits False (fun a => CallSteps caller s a.1 ∧ (a.2 = false →
      (a.1.proc caller).miscFlags.deliverMsg = (s.proc caller).miscFlags.deliverMsg))
    (receiveAsyn s caller srcE src) := by
  have hone := tryOne_call srcE hc
  have hall := tryAsyncLoop_call (List.finRange nrSysProcs) hc
  simp only [receiveAsyn]
  split
  · exact ⟨.refl, fun _ => rfl⟩
  split
  · cases src with
    | some i => exact (hone i).error ‹_›
    | none => exact hall.error ‹_›
  · refine ⟨.trans ?_ (NoteStep.ipcStatusAdd ..).call, fun h => by cases h⟩
    cases src with
    | some i => exact ((hone i).ok ‹_›).1
    | none => exact (hall.ok ‹_›).1
  · rename_i hnot hr
    cases src with
    | some i => exact ⟨((hone i).ok hr).1, fun _ => ((hone i).ok hr).2 hnot⟩
    | none => exact ⟨(hall.ok hr).1, fun _ => (hall.ok hr).2 hnot⟩

theorem receiveQueued_act (hc : Unblocked s caller) : Exits False
    (fun a => (a.2 = false ∧ a.1 = s ∧ searchQueue s caller srcE = some none) ∨
      (a.2 = true ∧ IpcAct caller s (some srcE) a.1)) (receiveQueued s caller srcE) := by
  simp only [receiveQueued]
  split
  · rintro ⟨⟩
  · rename_i hwalk
    exact .inl ⟨rfl, rfl, hwalk⟩
  · rename_i prev sender hwalk
    split
    · rintro ⟨⟩
    rename_i hfree
    split
    · rintro ⟨⟩
    rename_i hlive
    split
    · rintro ⟨⟩
    have hact : ∀ {w}, Taken s caller sender prev w → IpcAct caller s (some srcE) w := fun hw =>
      .taken hc.sending hc.receiving hwalk (by simpa using hfree) (by simpa using hlive) hw
    split
    · rename_i hdelay
      split
      · refine (sigDelayDone_notes ?_).error ‹_›
        simpa [takeMessage_slotFree] using hfree
      · exact .inr ⟨rfl, hact (.delayed hdelay ‹_›)⟩
    · rename_i hdelay
      exact .inr ⟨rfl, hact (.plain (by simpa using hdelay))⟩

end Search

theorem isokendpt_of_deadlock {fn : BlockFn} {chain : Chain} (he : e ≠ anyE)
    (h : deadlock s fn caller e = .ok chain) : ∃ i, isokendpt s e = some i := by
  simp only [deadlock, deadlockLoop, if_neg he, okendpt] at h
  split at h
  · cases h
  rename_i hok
  split at hok
  · rename_i i hi
    exact ⟨i, hi⟩
  · cases hok

theorem receiveBlock_acts
    (hlive : ∀ i, isokendpt s srcE = some i → (s.proc i).rtsFlags.noEndpoint = false)
    (hsending : (s.proc caller).rtsFlags.sending = true → (s.proc caller).sendtoE = srcE)
    (hreceiving : (s.proc caller).rtsFlags.receiving = false)
    (hdeliver : (s.proc caller).miscFlags.deliverMsg = false)
    (hsearch : (s.proc caller).rtsFlags.sending = false → searchQueue s caller srcE = some none) :
    Exits False (fun a => IpcActs caller (some srcE) s a.1) (receiveBlock s caller srcE nb) := by
  simp only [receiveBlock]
  split
  · exact .refl
  split
  · exact (deadlockLoop_exits ..).error ‹_›
  rename_i chain hdead
  split
  · exact .refl
  rename_i hgroup
  refine .single (.blocked ?_ hsending hreceiving hdeliver hsearch hdead (by simpa using hgroup))
  by_cases he : srcE = anyE
  · exact .inl he
  · obtain ⟨i, hi⟩ := isokendpt_of_deadlock he hdead
    exact .inr ⟨i, hi, hlive i hi⟩

theorem receiveDone_note (s : State) (caller : Slot) : NoteStep s (receiveDone s caller) :=
  .modMisc s caller fun p => ⟨⟨_, p.delivermsgVir, p.ipcStatus, rfl⟩, rfl⟩

theorem receiveSearch_cases (hc : Unblocked s caller) (srcE : Endpoint) (src : Option Slot) :
    Exits False (fun a =>
    (a.2 = true ∧ IpcActs caller (some srcE) s a.1) ∨
      (a.2 = false ∧ CallSteps caller s a.1 ∧ searchQueue a.1 caller srcE = some none ∧
        (a.1.proc caller).miscFlags.deliverMsg = (s.proc caller).miscFlags.deliverMsg))
    (receiveSearch s caller srcE src) := by
  have hnotify := receiveNotify_notes srcE src hc.receiving
  have hasyn := receiveAsyn_call srcE src hc.toListens
  simp only [receiveSearch, Search.orElse]
  split
  · exact hnotify.error ‹_›
  · rename_i h₁
    exact .inl ⟨rfl, (hnotify.ok h₁).1.call.acts⟩
  · rename_i h₁
    obtain rfl := (hnotify.ok h₁).2 rfl
    split
    · exact hasyn.error ‹_›
    · rename_i h₂
      exact .inl ⟨rfl, (hasyn.ok h₂).1.acts⟩
    · rename_i u h₂
      obtain ⟨hcall, hd⟩ := hasyn.ok h₂
      refine (receiveQueued_act srcE (hc.wakes hcall.wakes)).mono ?_
      rintro ⟨t, b⟩ (⟨rfl, rfl, hsearch⟩ | ⟨rfl, hact⟩)
      · exact .inr ⟨rfl, hcall, hsearch, hd rfl⟩
      · exact .inl ⟨rfl, hcall.acts.tail hact⟩

theorem receiveFrom_acts (hc : Listens s caller)
    (hlive : ∀ i, procAddr (endpointP srcE) = some i → srcE ≠ anyE →
      (s.proc i).rtsFlags.noEndpoint = false)
    (hsending : (s.proc caller).rtsFlags.sending = true → (s.proc caller).sendtoE = srcE)
    (hdeliver : (s.proc caller).miscFlags.deliverMsg = false) :
    Exits False (fun a => IpcActs caller (some srcE) s a.1) (receiveFrom s caller srcE src nb) := by
  simp only [receiveFrom]
  split
  · refine receiveBlock_acts (fun i hi => ?_) hsending hc.receiving hdeliver fun hf => ?_
    · exact hlive i (isokendpt_eq_some hi).1 (isokendpt_ne_any hi)
    · rename_i hs; rw [hs] at hf; cases hf
  · rename_i hs
    have hidle : Unblocked s caller := ⟨hc, by simpa using hs⟩
    have hfound := receiveSearch_cases hidle srcE src
    split
    · exact hfound.error ‹_›
    · rename_i hsearch
      obtain ⟨-, hacts⟩ | ⟨hb, -⟩ := hfound.ok hsearch
      · exact hacts.trans (receiveDone_note ..).call.acts
      · cases hb
    · rename_i u hsearch
      obtain ⟨hb, -⟩ | ⟨-, hcall, hnone, hd⟩ := hfound.ok hsearch
      · cases hb
      have hw := hcall.wakes
      have hidle := hidle.wakes hw
      refine (receiveBlock_acts (fun i hi => ?_) (fun hs => ?_) hidle.receiving (hd.trans hdeliver)
        fun _ => hnone).mono fun _ => hcall.acts.trans
      · rw [(hw.proc i).noEndpoint]
        exact hlive i (isokendpt_eq_some hi).1 (isokendpt_ne_any hi)
      · rw [hidle.sending] at hs
        cases hs

theorem miniReceive_acts (hc : Listens s caller)
    (hsending : (s.proc caller).rtsFlags.sending = true → (s.proc caller).sendtoE = srcE) :
    Exits False (fun a => IpcActs caller (some srcE) s a.1)
      (miniReceive s caller srcE buf nb) := by
  have hbuf : NoteStep s (s.modProc caller fun p => { p with delivermsgVir := buf }) :=
    .modMisc s caller fun p => ⟨⟨p.miscFlags, buf, p.ipcStatus, rfl⟩, rfl⟩
  have hw := hbuf.wakes
  simp only [miniReceive]
  split
  · rintro ⟨⟩
  rename_i hdeliver
  have hfrom : ∀ {src : Option Slot}, (∀ i, procAddr (endpointP srcE) = some i → srcE ≠ anyE →
      (s.proc i).rtsFlags.noEndpoint = false) →
      Exits False (fun a => IpcActs caller (some srcE) s a.1) (receiveFrom
        (s.modProc caller fun p => { p with delivermsgVir := buf }) caller srcE src nb) := by
    intro src hlive
    refine (receiveFrom_acts (hc.wakes hw) (fun i hi hne => ?_) (fun hs => ?_)
      (by simpa using hdeliver)).mono fun _ => hbuf.call.acts.trans
    · rw [(hw.proc i).noEndpoint]; exact hlive i hi hne
    · rw [(hw.proc caller).sendtoE]
      exact hsending ((hw.proc caller).sending ▸ hs)
  split
  · rename_i hany
    exact hfrom fun _ _ hne => absurd hany hne
  simp only [okendpt]
  split
  · rename_i hok
    split at hok <;> cases hok
    rintro ⟨⟩
  rename_i i hok
  split at hok <;> cases hok
  rename_i hi
  split
  · exact hbuf.call.acts
  rename_i hlive
  refine hfrom fun j hj _ => ?_
  obtain rfl := Option.some.inj ((isokendpt_eq_some hi).1.symm.trans hj)
  rw [(hw.proc i).noEndpoint] at hlive
  simpa using hlive

/-! ## The calls -/

theorem callAllowed_target {call : Call} (hcall : call ≠ .receive)
    (h : callAllowed s caller call e = none) : ∃ i, isokendpt s e = some i := by
  simp only [callAllowed] at h
  split at h
  · cases h
  rename_i hok
  simp only [callTarget] at hok
  split at hok
  · cases hok
  split at hok
  · cases hok
  · rename_i i hi
    exact ⟨i, hi⟩

variable (s)

theorem setReplyPend_note (caller : Slot) : NoteStep s (setReplyPend s caller) :=
  .modMisc s caller fun p => ⟨⟨_, p.delivermsgVir, p.ipcStatus, rfl⟩, rfl⟩

theorem beginReceive_note (caller : Slot) : NoteStep s (beginReceive s caller) :=
  .modMisc s caller fun p => ⟨⟨_, p.delivermsgVir, 0, rfl⟩, rfl⟩

theorem isokendpt_setReplyPend (caller : Slot) (e : Endpoint) :
    isokendpt (setReplyPend s caller) e = isokendpt s e := by
  refine isokendpt_congr (fun i => ?_) fun i => ?_ <;>
    simp only [setReplyPend, State.modProc_proc] <;> split <;> simp_all

@[simp]
theorem writeCallerQ_rtsFlags (dst : Slot) (prev v : Option Slot) (i : Slot) :
    ((s.writeCallerQ dst prev v).proc i).rtsFlags = (s.proc i).rtsFlags ∧
    ((s.writeCallerQ dst prev v).proc i).sendtoE = (s.proc i).sendtoE := by
  cases prev <;> simp only [State.writeCallerQ, State.modProc_proc] <;> split <;> simp_all

variable {s}

theorem Queued.exists_eq (h : Queued s caller dstE dst t) :
    ∃ msg flags last,
      t = (sendBlock s caller dstE msg flags).writeCallerQ dst last (some caller) := by
  obtain ⟨msg, flags, happ⟩ := h.append
  simp only [appendCaller] at happ
  split at happ
  · cases happ
  split at happ
  · cases happ
  · cases happ
    exact ⟨msg, flags, _, rfl⟩

theorem Queued.ready (h : Queued s caller dstE dst t) :
    (t.proc caller).rtsFlags.slotFree = (s.proc caller).rtsFlags.slotFree ∧
    (t.proc caller).sendtoE = dstE ∧ (t.proc caller).rtsFlags.receiving = false := by
  obtain ⟨msg, flags, last, rfl⟩ := h.exists_eq
  simp [sendBlock, h.receiving]

theorem Unblocked.miniReceive_acts (hc : Unblocked s caller) :
    Exits False (fun a => IpcActs caller (some srcE) s a.1)
      (miniReceive s caller srcE buf nb) := by
  refine Kernel.miniReceive_acts hc.toListens fun hs => ?_
  rw [hc.sending] at hs
  cases hs

theorem miniSend_acts (hdst : isokendpt s dstE = some dst) (hc : Unblocked s caller) (m : UserMsg)
    (flags : SendFlags) :
    Exits ((s.proc caller).qLink ≠ none)
      (fun a => IpcActs caller (if flags.nonBlocking then none else some dstE) s a.1)
      (miniSend s caller dstE m flags) := by
  refine (miniSend_cases hdst hc m flags).mono ?_
  rintro a (hw | ⟨hblocking, hq⟩)
  · exact hw.call.acts
  · rw [hblocking]
    exact .single (.queued hq)

theorem doSendrec_acts (hdst : isokendpt s e = some dst) (hc : Unblocked s caller) :
    Exits ((s.proc caller).qLink ≠ none) (fun a => IpcActs caller (some e) s a.1)
      (doSendrec s caller e m) := by
  have hset := setReplyPend_note s caller
  have hdst' := (isokendpt_setReplyPend s caller e).trans hdst
  have hc' := hc.wakes hset.wakes
  have hsent := miniSend_cases hdst' hc' m {}
  have hacts := miniSend_acts hdst' hc' m {}
  simp only [doSendrec]
  split
  · rw [← (hset.wakes.proc caller).qLink]
    exact hsent.error ‹_›
  · rename_i u hsend
    have hreceive : Exits False (fun a => IpcActs caller (some e) u a.1)
        (miniReceive u caller e m.addr false) := by
      rcases hsent.ok hsend with hnotes | ⟨-, hu⟩
      · exact (hc'.wakes hnotes.wakes).miniReceive_acts
      · exact miniReceive_acts ⟨hu.ready.1.trans hc'.slotFree, hu.ready.2.2⟩ fun _ => hu.ready.2.1
    exact (hreceive.mono fun _ => (hset.call.acts.trans (hacts.ok hsend)).trans).elim
  · rename_i hsend
    exact hset.call.acts.trans (hacts.ok hsend)

def Call.blocksOn (call : Call) (e : Endpoint) : Option Endpoint :=
  match call with
  | .send | .sendrec | .receive => some e
  | .notify | .sendnb | .senda => none

def Request.blocksOn : Request → Option Endpoint
  | .sync call e _ => call.blocksOn e
  | .senda .. => none

theorem doSyncIpc_acts {call : Call} (hc : Unblocked s caller) :
    Exits ((s.proc caller).qLink ≠ none) (fun a => IpcActs caller (call.blocksOn e) s a.1)
      (doSyncIpc s caller call e m) := by
  simp only [doSyncIpc]
  split
  · exact .refl
  rename_i hallowed
  have htarget := fun hcall : call ≠ .receive => callAllowed_target hcall hallowed
  cases call with
  | sendrec =>
    obtain ⟨dst, hdst⟩ := htarget (by decide)
    exact doSendrec_acts hdst hc
  | send | sendnb =>
    obtain ⟨dst, hdst⟩ := htarget (by decide)
    exact miniSend_acts hdst hc m _
  | receive =>
    have hbegin := beginReceive_note s caller
    exact ((hc.wakes hbegin.wakes).miniReceive_acts.mono fun _ => hbegin.call.acts.trans).elim
  | notify => exact ((miniNotify_notes s caller e).mono fun _ hn => hn.1.call.acts).elim
  | senda => exact .refl

theorem doIpc_acts {req : Request} (hc : Unblocked s caller) :
    Exits ((s.proc caller).qLink ≠ none) (fun a => IpcActs caller req.blocksOn s a.1)
      (doIpc s caller req) := by
  simp only [doIpc]
  split
  · rintro ⟨⟩
  cases req with
  | sync call e m => exact doSyncIpc_acts hc
  | senda table size =>
    dsimp only
    split
    · exact .refl
    simp only [miniSenda]
    split
    · rename_i hsys
      cases h : tryDeliverSenda s caller table size with
      | error e => exact fun he => ((tryDeliverSenda_steps hsys table size).error h he).elim
      | ok a => exact CallSteps.acts (.single (.asyn (.senda hsys h)))
    · exact .refl

end Gergios.Kernel
