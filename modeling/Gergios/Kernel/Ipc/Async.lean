import Gergios.Kernel.Ipc.Notify

/-!
# Asynchronous messages

A system process posts a table of messages with `SENDA`. The kernel delivers what it can,
marks the rest pending at the destinations, and remembers the table. Three scans work on a
table: `try_deliver_senda` when it is posted, `try_one` when a destination receives and
`cancel_async` when a destination dies. `umem` is what the kernel reads from the table's
owner, entry by entry; a missing entry is a copy that fails.
-/

namespace Gergios.Kernel

def amfValid : BitVec 32 := 1
def amfDone : BitVec 32 := 2
def amfNotify : BitVec 32 := 4
def amfNoreply : BitVec 32 := 8
def amfNotifyErr : BitVec 32 := 16
def amfAll : BitVec 32 := 31

section

variable (e : AsynMsg)

def AsynMsg.isSet (f : BitVec 32) : Bool := e.flags &&& f != 0

def AsynMsg.malformed : Bool := e.isSet (~~~amfAll) || !e.isSet amfValid

def AsynMsg.finish (r : Errno) : AsynMsg :=
  { e with result := r, flags := e.flags ||| amfDone }

def AsynMsg.wantsNotify (r : Errno) : Bool :=
  e.isSet amfNotify || (r != .ok && e.isSet amfNotifyErr)

end

def entryAddr (table i : Nat) : Nat := table + i * sizeofAsynmsg

variable (s : State)

def aRetr (src : Slot) (table i : Nat) : Option AsynMsg :=
  (s.umem src (entryAddr table i)).map fun e =>
    if e.dst = selfE then { e with dst := (s.proc src).endpoint } else e

/-- `A_INSRT`; a failed copy is ignored. -/
def aInsrt (src : Slot) (table i : Nat) (e : AsynMsg) : State :=
  if s.uwritable src (entryAddr table i) then
    { s with
      umem := Function.update s.umem src
        (Function.update (s.umem src) (entryAddr table i) (some e)) }
  else s

def maySendTo (rp dst : Slot) : Bool := (s.privOf dst).id ∈ (s.privOf rp).ipcTo

def mayAsynsendTo (rp dst : Slot) : Bool := maySendTo s rp dst || rp == dst

def setAsynPending (dst : Slot) (id : PrivId) : State :=
  s.modPrivOf dst fun p => { p with asynPending := insert id p.asynPending }

def unsetAsynPending (dst : Slot) (id : PrivId) : State :=
  s.modPrivOf dst fun p => { p with asynPending := p.asynPending.erase id }

def setTable (src : Slot) (table size : Nat) : State :=
  s.modPrivOf src fun p => { p with asyntab := table, asynsize := size }

def deliverAsyn (src dst : Slot) (addr : Nat) (m : Message) : State :=
  (s.modProc dst fun p => p.deliver { m with source := (s.proc src).endpoint }).record
    (.asynCopied src addr dst)

/-- `if (do_notify) mini_notify(proc_addr(ASYNCM), ..)` -/
def notifyIf (b : Bool) (s : State) (src : Slot) : Except Halt State :=
  if b then
    match miniNotify s asyncmSlot (s.proc src).endpoint with
    | .ok r => .ok r.1
    | .error h => .error h
  else .ok s

/-! ## Posting a table -/

variable (caller : Slot)

def sendaCheck (dst : Endpoint) : Except Errno Slot :=
  match isokendpt s dst with
  | none => .error .edeadsrcdst
  | some i =>
    if procNr i < 0 then .error .ecalldenied
    else if !mayAsynsendTo s caller i then .error .ecalldenied
    else if (s.proc i).rtsFlags.noEndpoint then .error .edeadsrcdst
    else .ok i

def sendaDeliver (caller dst : Slot) (addr : Nat) (m : Message) : State :=
  let t := deliverAsyn s caller dst addr m
  let t := t.modProc dst (·.ipcStatusAdd Call.senda.status)
  rtsUnset t dst { receiving := true }

/-- What a scan carries along: `done` once nothing is left, `notify` if the owner asked. -/
structure Scan where
  state : State
  done : Bool
  notify : Bool

def Scan.store (c : Scan) (src : Slot) (table i : Nat) (e : AsynMsg) (r : Errno) : Scan :=
  { c with
    state := aInsrt c.state src table i (e.finish r)
    notify := c.notify || e.wantsNotify r }

/-- What a scan does with an entry: passes over it, leaves it for later, takes it for its
destination, or closes it with an error. -/
inductive Verdict (α : Type)
  | skip
  | leave (dst : α)
  | accept (dst : α)
  | refuse (r : Errno)

def sendaVerdict (e : AsynMsg) : Verdict Slot :=
  if e.flags = 0 then .skip
  else if e.malformed then .skip
  else if e.isSet amfDone then .skip
  else
    match sendaCheck s caller e.dst with
    | .error r => .refuse r
    | .ok dst =>
      if willReceive s (s.proc caller).endpoint dst (some e.msg.type) &&
          (!e.isSet amfNoreply || !(s.proc dst).miscFlags.replyPend) then .accept dst
      else .leave dst

def sendaEntry (table : Nat) (c : Scan) (i : Nat) : Scan :=
  match aRetr c.state caller table i with
  | none => c
  | some e =>
    match sendaVerdict c.state caller e with
    | .skip => c
    | .refuse r => c.store caller table i e r
    | .accept dst =>
      { c with state := sendaDeliver c.state caller dst (entryAddr table i) e.msg }.store
        caller table i e .ok
    | .leave dst =>
      { c with
        state := setAsynPending c.state dst (c.state.privOf caller).id
        done := false }

def maxSenda : Nat := 16 * nrSlots

def clearTable : State :=
  s.modPrivOf caller fun p =>
    { p with asyntab := noTable, asynsize := 0, asynendpoint := (s.proc caller).endpoint }

variable (table size : Nat)

def sendaScan : Scan :=
  (List.range size).foldl (sendaEntry caller table) ⟨s, true, false⟩

def tryDeliverSenda : Except Halt (State × Errno) :=
  let t := (clearTable s caller).record (.posted caller table size)
  if size = 0 then .ok (t, .ok)
  else if maxSenda < size then .ok (t, .edom)
  else
    let c := sendaScan t caller table size
    match notifyIf c.notify c.state caller with
    | .error h => .error h
    | .ok u => .ok (if c.done then u else setTable u caller table size, .ok)

def miniSenda : Except Halt (State × Errno) :=
  if (s.privOf caller).flags.sysProc then tryDeliverSenda s caller table size
  else .ok (s, .eperm)

/-! ## Receiving from a table -/

/-- How the scan of `try_one` ends: with the result `r`, or at a copy that failed. -/
inductive OneEnd
  | fault (s : State)
  | finish (c : Scan) (r : Errno)

/-- An entry of the table of `src`, for the receiver `dst`. -/
def oneVerdict (receiveE : Endpoint) (src dst : Slot) (e : AsynMsg) : Verdict Unit :=
  if e.flags = 0 then .skip
  else if e.malformed then .refuse .einval
  else if e.isSet amfDone then .skip
  else if e.dst ≠ (s.proc dst).endpoint then .leave ()
  else if !canReceive s receiveE (s.proc src).endpoint dst (some e.msg.type) then .leave ()
  else if e.isSet amfNoreply && (s.proc dst).miscFlags.replyPend then .leave ()
  else .accept ()

/-- The loop of `try_one` from entry `i` on. -/
def tryOneLoop (receiveE : Endpoint) (src dst : Slot) (table : Nat) : Nat → Nat → Scan → OneEnd
  | 0, _, c => .finish c .eagain
  | n + 1, i, c =>
    match aRetr c.state src table i with
    | none => .fault c.state
    | some e =>
      match oneVerdict c.state receiveE src dst e with
      | .skip => tryOneLoop receiveE src dst table n (i + 1) c
      | .leave _ => tryOneLoop receiveE src dst table n (i + 1) { c with done := false }
      | .refuse r => .finish ({ c with done := false }.store src table i e r) r
      | .accept _ =>
        let t := deliverAsyn c.state src dst (entryAddr table i) e.msg
        .finish ({ c with state := t, done := false }.store src table i e .ok) .ok

def tryOne (receiveE : Endpoint) (src dst : Slot) : Except Halt (State × Errno) :=
  let p := s.privOf src
  if !p.flags.sysProc then .ok (s, .eperm)
  else
    let t := unsetAsynPending s dst p.id
    if p.asynsize = 0 then .ok (t, .eagain)
    else if p.asynendpoint ≠ (s.proc src).endpoint then .ok (t, .eagain)
    else if !mayAsynsendTo t src dst then .ok (t, .ecalldenied)
    else
      match tryOneLoop receiveE src dst p.asyntab p.asynsize 0 ⟨t, true, false⟩ with
      | .fault u => .ok (u, .efault)
      | .finish c r =>
        match notifyIf c.notify c.state src with
        | .error h => .error h
        | .ok u =>
          .ok (if c.done then setTable u src noTable 0 else setAsynPending u dst p.id, r)

/-- `try_async`, from the given privilege structures on. -/
def tryAsyncLoop (caller : Slot) : List PrivId → State → Except Halt (State × Errno)
  | [], s => .ok (s, .esrch)
  | k :: ks, s =>
    if (s.priv k).procNr = noneE then tryAsyncLoop caller ks s
    else if (s.priv k).id ∉ (s.privOf caller).asynPending then tryAsyncLoop caller ks s
    else
      match procAddr (s.priv k).procNr with
      | none => .error .panicProc
      | some src =>
        if (s.proc caller).miscFlags.deliverMsg then .error .assertDelivermsg
        else
          match tryOne s anyE src caller with
          | .error h => .error h
          | .ok (t, .ok) => .ok (t, .ok)
          | .ok (t, _) => tryAsyncLoop caller ks t

def tryAsync : Except Halt (State × Errno) :=
  tryAsyncLoop caller (List.finRange nrSysProcs) s

/-! ## A destination has died -/

/-- An entry of the table of a sender to the dead process `dst`. -/
def cancelVerdict (dst : Slot) (e : AsynMsg) : Verdict Unit :=
  if e.flags = 0 then .skip
  else if !e.malformed && e.isSet amfDone then .skip
  else if e.dst ≠ (s.proc dst).endpoint then .leave ()
  else .refuse (if e.malformed then .einval else .edeadsrcdst)

/-- The loop of `cancel_async`; the flag is set by a copy that failed. -/
def cancelLoop (src dst : Slot) (table : Nat) : Nat → Nat → Scan → Scan × Bool
  | 0, _, c => (c, false)
  | n + 1, i, c =>
    match aRetr c.state src table i with
    | none => (c, true)
    | some e =>
      match cancelVerdict c.state dst e with
      | .refuse r => cancelLoop src dst table n (i + 1) (c.store src table i e r)
      | .leave _ => cancelLoop src dst table n (i + 1) { c with done := false }
      | _ => cancelLoop src dst table n (i + 1) c

def cancelAsync (src dst : Slot) : Except Halt (State × Errno) :=
  let p := s.privOf src
  if !p.flags.sysProc then .ok (s, .eperm)
  else
    let t := unsetAsynPending (setTable s src noTable 0) dst p.id
    if p.asynsize = 0 then .ok (t, .eagain)
    else if !maySendTo t src dst then .ok (t, .ecalldenied)
    else
      match cancelLoop src dst p.asyntab p.asynsize 0 ⟨t, true, false⟩ with
      | (c, true) => .ok (c.state, .ok)
      | (c, false) =>
        match notifyIf c.notify c.state src with
        | .error h => .error h
        | .ok u => .ok (if c.done then u else setTable u src p.asyntab p.asynsize, .ok)

end Gergios.Kernel
