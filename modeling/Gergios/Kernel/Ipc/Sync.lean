import Gergios.Kernel.Ipc.Deadlock
import Gergios.Kernel.Ipc.Async

/-!
# Synchronous messages

`mini_send` and `mini_receive`. A sender that has to wait is appended to the queue of its
destination, which starts at `p_caller_q` and runs through `p_q_link`. A receiver looks at
pending notifications, at asynchronous messages and at that queue, in this order.
-/

namespace Gergios.Kernel

open Lib

/-- A pointer to a message of the caller: what reading it gives, for the message as a whole
and for its type alone. A copy that fails is `none`. -/
structure UserMsg where
  addr : Nat
  msg : Option Message
  mtype : Option Int
  type_eq : ∀ m, msg = some m → mtype = some m.type

/-- `NON_BLOCKING` and `FROM_KERNEL` -/
structure SendFlags where
  nonBlocking : Bool := false
  fromKernel : Bool := false
  deriving DecidableEq, Repr

variable (s : State)

/-- `*xpp = v`, where `xpp` is the link of `prev`, or the head of the queue of `dst`. -/
def State.writeCallerQ (dst : Slot) (prev v : Option Slot) : State :=
  match prev with
  | none => s.modProc dst fun p => { p with callerQ := v }
  | some y => s.modProc y fun p => { p with qLink := v }

/-! ## Sending -/

/-- `WILLRECEIVE` gets as far as the filters, which insist on a message pointer. -/
def asksFilter (srcE : Endpoint) (dst : Slot) : Bool :=
  (s.proc dst).rtsFlags.receiving && !(s.proc dst).rtsFlags.sending &&
    ((s.proc dst).getfromE == anyE || (s.proc dst).getfromE == srcE) &&
    !(s.privOf dst).ipcf.isEmpty

def sendCall (caller : Proc) (flags : SendFlags) : Call :=
  if caller.miscFlags.replyPend then .sendrec else if flags.nonBlocking then .sendnb else .send

def Proc.acceptSend (p : Proc) (m : Message) (call : Call) (fromKernel : Bool) : Proc :=
  let p := if fromKernel then p.ipcStatusAdd msgFromKernel else p
  let p := (p.deliver m).ipcStatusAdd call.status
  { p with miscFlags := { p.miscFlags with replyPend := false } }

def sendDeliver (caller dst : Slot) (m : Message) (flags : SendFlags) : State :=
  let t := s.modProc dst (·.acceptSend { m with source := (s.proc caller).endpoint }
    (sendCall (s.proc caller) flags) flags.fromKernel)
  rtsUnset t dst { receiving := true }

variable (caller : Slot)

def sendBlock (dstE : Endpoint) (m : Message) (flags : SendFlags) : State :=
  let t := s.modProc caller fun p =>
    { p with
      sendmsg := m
      miscFlags := { p.miscFlags with
        sendingFromKernel := p.miscFlags.sendingFromKernel || flags.fromKernel } }
  let t := rtsSet t caller { sending := true }
  (t.modProc caller fun p => { p with sendtoE := dstE }).record (.blocked caller dstE m)

/-- The loop to the end of the queue of `dst`, and the write there. -/
def appendCaller (caller dst : Slot) : Except Halt State :=
  if (s.proc caller).qLink ≠ none then .error .assertQLink
  else
    match lastCell (fun j => (s.proc j).qLink) (nrSlots + 1) none (s.proc dst).callerQ with
    | none => .error .hang
    | some last => .ok (s.writeCallerQ dst last (some caller))

def miniSend (dstE : Endpoint) (m : UserMsg) (flags : SendFlags) : Except Halt (State × Errno) :=
  match procAddr (endpointP dstE) with
  | none => .error .panicProc
  | some dst =>
    if (s.proc dst).rtsFlags.noEndpoint then .ok (s, .edeadsrcdst)
    else if m.addr = 0 ∧ asksFilter s (s.proc caller).endpoint dst then .error .assertMsgPtr
    else if willReceive s (s.proc caller).endpoint dst m.mtype then
      if (s.proc dst).miscFlags.deliverMsg then .error .assertDelivermsg
      else
        match m.msg with
        | none => .ok (s, .efault)
        | some msg => .ok (sendDeliver s caller dst msg flags, .ok)
    else if flags.nonBlocking then .ok (s, .enotready)
    else
      match deadlock s .send caller dstE with
      | .error h => .error h
      | .ok chain =>
        if chain.groupSize ≠ 0 then .ok (s, .elocked)
        else
          match m.msg with
          | none => .ok (s, .efault)
          | some msg =>
            match appendCaller (sendBlock s caller dstE msg flags) caller dst with
            | .error h => .error h
            | .ok t => .ok (t, .ok)

/-! ## Receiving -/

/-- `has_pending`: the bit of one source, or the first bit that is set. -/
def hasPending (map : Finset PrivId) (src : Option PrivId) : Option PrivId :=
  match src with
  | some k => if k ∈ map then some k else none
  | none => (List.finRange nrSysProcs).find? (· ∈ map)

def srcId (src : Option Slot) : Option PrivId := src.map fun i => (s.privOf i).id

abbrev Search := Except Halt (State × Bool)

def receiveNotify (srcE : Endpoint) (src : Option Slot) : Search :=
  if (s.proc caller).miscFlags.replyPend then .ok (s, false)
  else
    match hasPending (s.privOf caller).notifyPending (srcId s src) with
    | none => .ok (s, false)
    | some k =>
      match procAddr (s.priv k).procNr with
      | none => .error .panicProc
      | some sender =>
        if canReceive s srcE (s.proc sender).endpoint caller (some notifyMessage) then
          let t := s.modPrivOf caller fun p => { p with notifyPending := p.notifyPending.erase k }
          .ok (deliverNotify t (s.priv k).procNr (s.proc sender).endpoint caller, true)
        else .ok (s, false)

def receiveAsyn (srcE : Endpoint) (src : Option Slot) : Search :=
  match hasPending (s.privOf caller).asynPending (srcId s src) with
  | none => .ok (s, false)
  | some _ =>
    match (match src with
      | some i => tryOne s srcE i caller
      | none => tryAsync s caller) with
    | .error h => .error h
    | .ok (t, .ok) => .ok (t.modProc caller (·.ipcStatusAdd Call.senda.status), true)
    | .ok (t, _) => .ok (t, false)

variable (caller sender : Slot)

def copyMessage : State :=
  let m : Message := { (s.proc sender).sendmsg with source := (s.proc sender).endpoint }
  let t := s.modProc caller (·.deliver m)
  let t := t.record (.copied sender caller (s.proc caller).endpoint (s.proc sender).sendmsg)
  rtsUnset t sender { sending := true }

def queuedCall (sender : Proc) : Call := if sender.miscFlags.replyPend then .sendrec else .send

def takeMessage : State :=
  let t := copyMessage s caller sender
  let t := t.modProc caller (·.ipcStatusAdd (queuedCall (t.proc sender)).status)
  if (t.proc sender).miscFlags.sendingFromKernel then
    (t.modProc caller (·.ipcStatusAdd msgFromKernel)).modProc sender fun p =>
      { p with miscFlags := { p.miscFlags with sendingFromKernel := false } }
  else t

/-- `*xpp = sender->p_q_link; sender->p_q_link = NULL` -/
def unlinkSender (prev : Option Slot) : State :=
  (s.writeCallerQ caller prev (s.proc sender).qLink).modProc sender fun p =>
    { p with qLink := none }

def receiveQueued (srcE : Endpoint) : Search :=
  match walk (fun j => (s.proc j).qLink)
      (fun j => canReceive s srcE (s.proc j).endpoint caller (some (s.proc j).sendmsg.type))
      (nrSlots + 1) none (s.proc caller).callerQ with
  | none => .error .hang
  | some none => .ok (s, false)
  | some (some (prev, sender)) =>
    if (s.proc sender).rtsFlags.slotFree then .error .assertSlotFree
    else if (s.proc sender).rtsFlags.noEndpoint then .error .assertNoEndpoint
    else if (s.proc caller).miscFlags.deliverMsg then .error .assertDelivermsg
    else
      let t := takeMessage s caller sender
      if (t.proc sender).miscFlags.sigDelay then
        match sigDelayDone t sender with
        | .error h => .error h
        | .ok u => .ok (unlinkSender u caller sender prev, true)
      else .ok (unlinkSender t caller sender prev, true)

def Search.orElse (r : Search) (next : State → Search) : Search :=
  match r with
  | .error h => .error h
  | .ok (t, true) => .ok (t, true)
  | .ok (t, false) => next t

def receiveSearch (srcE : Endpoint) (src : Option Slot) : Search :=
  Search.orElse (receiveNotify s caller srcE src) fun t =>
    Search.orElse (receiveAsyn t caller srcE src) fun u => receiveQueued u caller srcE

def receiveBlock (srcE : Endpoint) (nonBlocking : Bool) : Except Halt (State × Errno) :=
  if nonBlocking then .ok (s, .enotready)
  else
    match deadlock s .receive caller srcE with
    | .error h => .error h
    | .ok chain =>
      if chain.groupSize ≠ 0 then .ok (s, .elocked)
      else
        let t := s.modProc caller fun p => { p with getfromE := srcE }
        .ok (rtsSet t caller { receiving := true }, .ok)

def receiveDone : State :=
  s.modProc caller fun p => { p with miscFlags := { p.miscFlags with replyPend := false } }

/-- `mini_receive` once the source is known; a caller that is `RTS_SENDING` does not search. -/
def receiveFrom (srcE : Endpoint) (src : Option Slot)
    (nonBlocking : Bool) : Except Halt (State × Errno) :=
  if (s.proc caller).rtsFlags.sending then receiveBlock s caller srcE nonBlocking
  else
    match receiveSearch s caller srcE src with
    | .error h => .error h
    | .ok (t, true) => .ok (receiveDone t caller, .ok)
    | .ok (t, false) => receiveBlock t caller srcE nonBlocking

def miniReceive (srcE : Endpoint) (buf : Nat) (nonBlocking : Bool) : Except Halt (State × Errno) :=
  if (s.proc caller).miscFlags.deliverMsg then .error .assertDelivermsg
  else
    let t := s.modProc caller fun p => { p with delivermsgVir := buf }
    if srcE = anyE then receiveFrom t caller srcE none nonBlocking
    else
      match okendpt t srcE with
      | .error h => .error h
      | .ok i =>
        if (t.proc i).rtsFlags.noEndpoint then .ok (t, .edeadsrcdst)
        else receiveFrom t caller srcE (some i) nonBlocking

/-! ## The calls -/

def capIpcOwner : BitVec 64 := 64

/-- The target of a call: a live process, or `ANY` for `RECEIVE`. -/
def callTarget (call : Call) (e : Endpoint) : Except Errno Int :=
  if e = anyE then
    if call = .receive then .ok anyE else .error .einval
  else
    match isokendpt s e with
    | none => .error .edeadsrcdst
    | some i =>
      if call = .receive then .ok (procNr i)
      else if !s.macHooks.all (fun hook => hook (s.proc caller).endpoint e call) then
        .error .ecalldenied
      else if (s.privOf caller).capEffective &&& capIpcOwner = 0 ∧ !maySendTo s caller i then
        .error .ecalldenied
      else .ok (procNr i)

/-- The checks of `do_sync_ipc`. -/
def callAllowed (call : Call) (e : Endpoint) : Option Errno :=
  match callTarget s caller call e with
  | .error r => some r
  | .ok n =>
    if call ∉ (s.privOf caller).trapMask then some .etrapdenied
    else if call ≠ .sendrec ∧ call ≠ .receive ∧ n < 0 then some .etrapdenied
    else none

def setReplyPend : State :=
  s.modProc caller fun p => { p with miscFlags := { p.miscFlags with replyPend := true } }

def beginReceive : State :=
  s.modProc caller fun p =>
    { p with miscFlags := { p.miscFlags with replyPend := false }, ipcStatus := 0 }

def doSendrec (e : Endpoint) (m : UserMsg) : Except Halt (State × Errno) :=
  match miniSend (setReplyPend s caller) caller e m {} with
  | .error h => .error h
  | .ok (t, .ok) => miniReceive t caller e m.addr false
  | .ok (t, r) => .ok (t, r)

def doSyncIpc (call : Call) (e : Endpoint) (m : UserMsg) : Except Halt (State × Errno) :=
  match callAllowed s caller call e with
  | some r => .ok (s, r)
  | none =>
    match call with
    | .sendrec => doSendrec s caller e m
    | .send => miniSend s caller e m {}
    | .receive => miniReceive (beginReceive s caller) caller e m.addr false
    | .notify => miniNotify s caller e
    | .sendnb => miniSend s caller e m { nonBlocking := true }
    | .senda => .ok (s, .ebadcall)

/-- What a process may ask of `do_ipc`. -/
inductive Request
  | sync (call : Call) (e : Endpoint) (m : UserMsg)
  | senda (table size : Nat)

/-- `do_ipc`, for a process that is not traced. -/
def doIpc (req : Request) : Except Halt (State × Errno) :=
  if (s.proc caller).miscFlags.deliverMsg then .error .panicDelivermsg
  else
    match req with
    | .sync call e m => doSyncIpc s caller call e m
    | .senda table size =>
      if maxSenda < size then .ok (s, .edom) else miniSenda s caller table size

end Gergios.Kernel
