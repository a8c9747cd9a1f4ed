import Gergios.Lib.Checked
import Mathlib.Data.List.FinRange

/-!
# Process events

The subscribers stand in an array that is kept without gaps. A process in an event call has the
index of the subscriber whose reply it waits for. What the rest of the process manager does once an
event is over is left open.

Subscriptions are numbered, and each process has a record of its current event. Both are for the
statements only: no branch of the code reads them.
-/

namespace Gergios.Pm

open Lib

def nrSubs : Nat := 4

inductive Event where
  | exit
  | signal
deriving DecidableEq

/-- `PROC_EVENT_EXIT` and `PROC_EVENT_SIGNAL` -/
def Event.bit : Event → Nat
  | .exit => 0x01
  | .signal => 0x02

structure Sub where
  endpt : Int
  mask : Nat
  waiting : Nat
  serial : Nat
deriving DecidableEq

structure EventLog where
  published : Nat
  resumed : Nat
  notified : List Nat
  owed : List Nat
  /-- The subscriptions that have been interested in it since it was published. -/
  must : List Nat
deriving DecidableEq

structure Proc where
  inUse : Bool
  eventCall : Bool
  exiting : Bool
  unpaused : Bool
  priv : Bool
  endpoint : Int
  /-- `mp_eventsub`, with `none` for `NO_EVENTSUB`. -/
  eventsub : Option Nat
  log : EventLog
deriving DecidableEq

/-- `subs` keeps what was last stored in the slots from `nsubs` on. -/
structure State (n : Nat) where
  subs : Nat → Sub
  nsubs : Nat
  nested : Nat
  procs : Fin n → Proc
  serials : Nat

/-- `exit_restart` and `restart_sigs` -/
structure Rest (n : Nat) where
  exitRestart : Fin n → (Fin n → Proc) → Fin n → Proc
  restartSigs : Fin n → (Fin n → Proc) → Fin n → Proc

def Rest.after {n : Nat} (rest : Rest n) : Event → Fin n → (Fin n → Proc) → Fin n → Proc
  | .exit => rest.exitRestart
  | .signal => rest.restartSigs

inductive EventAnswer where
  | ok
  | eperm
  | enomem
  | enosys
  | suspend
deriving DecidableEq

def Proc.event (p : Proc) : Option Event :=
  if p.exiting then some .exit else if p.unpaused then some .signal else none

variable {n : Nat} (s : State n)

def State.setProc (i : Fin n) (p : Proc) : State n :=
  { s with procs := Function.update s.procs i p }

def State.setSub (j : Nat) (sub : Sub) : State n :=
  { s with subs := Function.update s.subs j sub }

/-- The next of `count` subscribers from `j` on that is interested. -/
def nextSub (subs : Nat → Sub) (event : Event) : Nat → Nat → Option Nat
  | 0, _ => none
  | count + 1, j =>
    if (subs j).mask &&& event.bit ≠ 0 then some j else nextSub subs event count (j + 1)

def EventLog.send (log : EventLog) (serial : Nat) : EventLog :=
  { log with notified := log.notified ++ [serial], owed := serial :: log.owed }

def State.sent (i : Fin n) (j : Nat) : State n :=
  let sub := s.subs j
  let p := s.procs i
  (s.setSub j { sub with waiting := sub.waiting + 1 }).setProc i
    { p with eventsub := some j, log := p.log.send sub.serial }

/-- The message is sent to subscriber `j`. -/
def State.notify (i : Fin n) (j : Nat) : Except Failure (State n) := do
  check ((s.subs j).waiting < n)
  return s.sent i j

variable (rest : Rest n)

def State.finish (i : Fin n) (event : Event) : State n :=
  let p := s.procs i
  let s := s.setProc i { p with
    eventCall := false
    eventsub := none
    log := { p.log with resumed := p.log.resumed + 1 } }
  { s with procs := rest.after event i s.procs }

def resumeEvent (i : Fin n) (s : State n) : Except Failure (State n) := do
  let p := s.procs i
  check p.inUse
  check p.eventCall
  match p.eventsub, p.event with
  | none, _ => throw .assertion
  | some _, none => throw .panic
  | some k, some event =>
    match nextSub s.subs event (s.nsubs - k) k with
    | some j => s.notify i j
    | none => return s.finish rest i event

def EventLog.forget (log : EventLog) (serial : Nat) : EventLog :=
  { log with owed := log.owed.filter (· ≠ serial), must := log.must.filter (· ≠ serial) }

/-- The subscribers after `slot` move up. The last slot keeps what it had. -/
def State.shift (slot : Nat) : State n :=
  { s with
    subs := fun j => if slot ≤ j ∧ j < s.nsubs - 1 then s.subs (j + 1) else s.subs j
    nsubs := s.nsubs - 1
    procs := fun i =>
      let p := s.procs i
      if p.eventCall then { p with log := p.log.forget (s.subs slot).serial } else p }

/-- The body of the loop in `remove_sub`. -/
def adjust (slot : Nat) (s : State n) (i : Fin n) : Except Failure (State n) :=
  let p := s.procs i
  if !(p.inUse && p.eventCall) then return s
  else
    match p.eventsub with
    | none => throw .assertion
    | some k =>
      if k = slot then do
        let s ← resumeEvent rest i { s with nested := s.nested + 1 }
        return { s with nested := s.nested - 1 }
      else if slot < k then return s.setProc i { p with eventsub := some (k - 1) }
      else return s

def removeSub (slot : Nat) (s : State n) : Except Failure (State n) :=
  (List.finRange n).foldlM (adjust rest slot) (s.shift slot)

def State.findSub (endpt : Int) : Option Nat :=
  (List.range s.nsubs).find? fun j => (s.subs j).endpt = endpt

def Proc.unmask (p : Proc) (serial mask : Nat) : Proc :=
  match p.event with
  | some event =>
    if p.eventCall ∧ mask &&& event.bit = 0 then
      { p with log := { p.log with must := p.log.must.filter (· ≠ serial) } }
    else p
  | none => p

def State.setMask (j mask : Nat) : State n :=
  { s.setSub j { s.subs j with mask := mask } with
    procs := fun i => (s.procs i).unmask (s.subs j).serial mask }

def State.addSub (endpt : Int) (mask : Nat) : State n :=
  { s.setSub s.nsubs
      { s.subs s.nsubs with endpt := endpt, mask := mask, serial := s.serials } with
    nsubs := s.nsubs + 1
    serials := s.serials + 1 }

def doProceventmask (who : Int) (priv : Bool) (mask : Nat) (s : State n) :
    Except Failure (EventAnswer × State n) :=
  if !priv then return (.eperm, s)
  else
    match s.findSub who with
    | some j =>
      if mask = 0 ∧ (s.subs j).waiting = 0 then do
        let s ← removeSub rest j s
        return (.ok, s)
      else return (.ok, s.setMask j mask)
    | none =>
      if mask = 0 then return (.ok, s)
      else if s.nsubs = nrSubs then return (.enomem, s)
      else return (.ok, s.addSub who mask)

/-- The reply that process `i` waits for has come from subscriber `j`. -/
def State.replied (i : Fin n) (j : Nat) : State n :=
  let p := s.procs i
  let sub := s.subs j
  (s.setSub j { sub with waiting := sub.waiting - 1 }).setProc i
    { p with log := { p.log with owed := p.log.owed.erase sub.serial } }

def acceptReply (i : Fin n) (j : Nat) (s : State n) : Except Failure (State n) := do
  check (0 < (s.subs j).waiting)
  let s := s.replied i j
  let sub := s.subs j
  if sub.mask = 0 ∧ sub.waiting = 0 then removeSub rest j s
  else resumeEvent rest i (s.setProc i { s.procs i with eventsub := some (j + 1) })

/-- `target` is the slot of the endpoint in the reply, if it has one. -/
def doProcEventReply (who : Int) (priv : Bool) (target : Option (Fin n))
    (event : Nat) (s : State n) : Except Failure (EventAnswer × State n) := do
  check (s.nested = 0)
  if !priv then return (.enosys, s)
  else
    match target with
    | none => return (.suspend, s)
    | some i =>
      let p := s.procs i
      match p.eventsub, p.event with
      | some j, some e =>
        if p.eventCall ∧ j < s.nsubs ∧ (s.subs j).endpt = who ∧ event = e.bit then do
          let s ← acceptReply rest i j s
          return (.suspend, s)
        else return (.suspend, s)
      | _, _ => return (.suspend, s)

def dropService (i : Fin n) (s : State n) : Except Failure (State n) :=
  let p := s.procs i
  if p.priv && p.exiting then
    match s.findSub p.endpoint with
    | some j => removeSub rest j s
    | none => return s
  else return s

def State.begin (i : Fin n) : State n :=
  let p := s.procs i
  let interested := fun e : Event =>
    ((List.range s.nsubs).filter fun j => (s.subs j).mask &&& e.bit ≠ 0).map fun j =>
      (s.subs j).serial
  s.setProc i { p with
    eventCall := true
    eventsub := some 0
    log :=
      { published := p.log.published + 1
        resumed := p.log.resumed
        notified := []
        owed := []
        must := (p.event.map interested).getD [] } }

def publishEvent (i : Fin n) (s : State n) : Except Failure (State n) := do
  check (s.nested = 0)
  check ((s.procs i).inUse ∧ !(s.procs i).eventCall)
  check ((s.procs i).eventsub = none)
  let s ← dropService rest i s
  resumeEvent rest i (s.begin i)

end Gergios.Pm
