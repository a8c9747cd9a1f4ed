import Gergios.Lib.Checked
import Mathlib.Data.List.Basic
import Mathlib.Logic.Relation

/-!
# The three-level lock

A thread runs until it waits for its event. What it does up to there, and from there on once it has
been signalled, is one step each.
-/

namespace Gergios.Vfs

open Lib

/-- `tll_access_t` -/
inductive Access where
  | none
  | read
  | readser
  | write
deriving DecidableEq

/-- `t_status` is the pair of `upgr` and `pend`. -/
structure Tll (T : Type) where
  current : Access
  owner : Option T
  readonly : Int
  upgr : Bool
  pend : Bool
  write : List T
  serial : List T

inductive Pc where
  | running
  /-- In `worker_wait` of `tll_append`. -/
  | append (locktype : Access)
  /-- In `worker_wait` of `tll_upgrade`. -/
  | upgrade
deriving DecidableEq

structure Sys (T : Type) where
  tll : Tll T
  pc : T → Pc
  /-- The threads that have been signalled and have not run since. -/
  signalled : List T

inductive Answer where
  | ok
  | ebusy
  | waiting
deriving DecidableEq

variable {T : Type} [DecidableEq T]

def tllInit : Tll T where
  current := .none
  owner := none
  readonly := 0
  upgr := false
  pend := false
  write := []
  serial := []

variable (s : Sys T) (self : T)

/-- `worker_wait` -/
def Sys.wait (pc : Pc) : Sys T :=
  { s with pc := Function.update s.pc self pc }

/-- `worker_wait` returns. It asserts that the thread has no successor in a queue, here that it is
in no queue at all. -/
def Sys.resume : Except Failure (Sys T) := do
  check (self ∉ s.tll.write ∧ self ∉ s.tll.serial)
  return { s with pc := Function.update s.pc self .running, signalled := s.signalled.erase self }

/-- `worker_signal`: a thread that does not wait misses its event. -/
def Sys.signal (worker : T) : Sys T :=
  if s.pc worker = .running ∨ worker ∈ s.signalled then s
  else { s with signalled := s.signalled ++ [worker] }

def Sys.signalOwner : Except Failure (Sys T) := do
  check (!s.tll.pend)
  match s.tll.owner with
  | some worker => return { s with tll := { s.tll with pend := true } }.signal worker
  -- `worker_wake` asserts that it is given a worker
  | none => throw .assertion

variable (tll : Tll T)

def Tll.enqueue (self : T) (locktype : Access) : Tll T :=
  if locktype = .read ∨ locktype = .write then { tll with write := tll.write ++ [self] }
  else { tll with serial := tll.serial ++ [self] }

variable (locktype : Access)

/-- `tll_append` up to its wait. -/
def tllAppend (s : Sys T) : Except Failure (Answer × Sys T) := do
  check (locktype ≠ .none)
  return (.waiting, { s with tll := s.tll.enqueue self locktype }.wait self (.append locktype))

def Tll.take (self : T) (locktype : Access) : Tll T :=
  if locktype = .read then
    { tll with current := .read, pend := false, owner := none, readonly := tll.readonly + 1 }
  else { tll with current := locktype, pend := false, owner := some self }

def Sys.grantSerial : Except Failure (Sys T) :=
  match s.tll.serial with
  | [] => return s
  | head :: rest => { s with tll := { s.tll with owner := some head, serial := rest } }.signalOwner

/-- `tll_append` after its wait. -/
def tllAppended (s : Sys T) : Except Failure (Sys T) := do
  let s ← s.resume self
  let t := { s with tll := s.tll.take self locktype }
  if t.tll.current = .write then check (t.tll.readonly = 0)
  if t.tll.current = .read then t.grantSerial else return t

def tllLock (s : Sys T) : Except Failure (Answer × Sys T) := do
  let tll := s.tll
  check (locktype ≠ .none)
  if tll.pend then tllAppend self locktype s
  else if tll.owner = some self then do
    check (!tll.upgr && !tll.pend)
    return (.ebusy, s)
  else if tll.current = .none then
    if locktype = .read then
      return (.ok, { s with tll := { tll with current := .read, readonly := 1 } })
    else do
      if locktype = .write then check (tll.readonly = 0)
      return (.ok, { s with tll := { tll with current := locktype, owner := some self } })
  else if tll.current = .write then tllAppend self locktype s
  else if locktype = .write then tllAppend self locktype s
  else if tll.write ≠ [] ∨ tll.upgr then do
    check (!tll.pend)
    tllAppend self locktype s
  else if tll.current = .readser then
    if locktype = .read ∧ !tll.upgr then
      return (.ok, { s with tll := { tll with readonly := tll.readonly + 1 } })
    else tllAppend self locktype s
  else if locktype = .read then
    return (.ok, { s with tll :=
      { tll with current := .read, readonly := tll.readonly + 1, owner := none } })
  else do
    check (locktype ≠ .write)
    return (.ok, { s with tll := { tll with current := locktype, owner := some self } })

def Sys.downgrade : Except Failure (Sys T) :=
  let tll := s.tll
  match tll.current with
  | .write => return { s with tll := { tll with current := .readser } }
  | .readser =>
    let t := { s with tll := { tll with readonly := tll.readonly + 1 } }
    if tll.write = [] ∧ tll.serial ≠ [] then t.grantSerial
    else return { t with tll := { t.tll with current := .read, owner := none } }
  | _ => throw .panic

def tllDowngrade (s : Sys T) : Except Failure (Sys T) := do
  check (s.tll.owner = some self)
  let t ← s.downgrade
  if t.tll.current ≠ .write ∧ t.tll.current ≠ .readser then check (t.tll.owner = none)
  return t

/-- The first part of `tll_unlock`: the lock is released by a reader, and may have been the last one
that an upgrade waits for. -/
def Tll.leave (self : T) : Except Failure (Tll T × Bool) :=
  if tll.owner = some self then do
    if tll.current = .write then check (tll.readonly = 0)
    return (tll, false)
  else do
    let tll := { tll with readonly := tll.readonly - 1 }
    check (0 ≤ tll.readonly)
    check (tll.current = .read ∨ tll.current = .readser)
    return (tll, tll.upgr && decide (tll.readonly = 0))

def Tll.next : Tll T :=
  match tll.write, tll.serial with
  | head :: rest, _ =>
    if tll.readonly = 0 then { tll with owner := some head, write := rest }
    else { tll with owner := none }
  | [], head :: rest => { tll with owner := some head, serial := rest }
  | [], [] => { tll with owner := none }

/-- The last part of `tll_unlock` before the signal. -/
def Tll.settle (signal : Bool) : Tll T :=
  let tll := if tll.owner = none then
      { tll with current := if tll.readonly = 0 then .none else .read }
    else tll
  if (tll.current = .none ∨ tll.current = .read) ∧ !signal then { tll with owner := none } else tll

/-- The rest of `tll_unlock`. -/
def Sys.passOn (signal : Bool) : Except Failure (Sys T) := do
  let tll := s.tll
  if tll.owner = some self ∨ tll.owner = none ∧ tll.readonly = 0 then do
    let tll := tll.next
    check (tll.owner ≠ some self)
    let signal := signal || tll.owner.isSome
    let t := { s with tll := tll.settle signal }
    if signal then t.signalOwner else return t
  else do
    let t := { s with tll := tll.settle signal }
    if signal then t.signalOwner else return t

def tllUnlock (s : Sys T) : Except Failure (Sys T) := do
  let (tll, signal) ← s.tll.leave self
  { s with tll := tll }.passOn self signal

/-- `tll_upgrade` up to its wait. -/
def tllUpgrade (s : Sys T) : Except Failure (Answer × Sys T) := do
  let tll := s.tll
  check (tll.owner = some self)
  check (tll.current ≠ .read)
  if tll.current = .write then return (.ok, s)
  else if tll.readonly ≠ 0 then do
    check (!tll.upgr)
    return (.waiting, { s with tll := { tll with upgr := true } }.wait self .upgrade)
  else return (.ok, { s with tll := { tll with current := .write } })

/-- `tll_upgrade` after its wait. -/
def tllUpgraded (s : Sys T) : Except Failure (Sys T) := do
  let s ← s.resume self
  let tll := { s.tll with upgr := false, pend := false }
  check (tll.readonly = 0)
  return { s with tll := { tll with current := .write } }

end Gergios.Vfs
