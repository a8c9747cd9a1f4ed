import Mathlib.Data.Fintype.Card
import Mathlib.Tactic.Ring

/-!
# Advisory record locks

The lock table has a fixed number of slots, and each request looks through all of them once. An
offset is a signed 64-bit number; the width of `long` is left open.
-/

namespace Gergios.Vfs

def nrLocksMax : Nat := 8

abbrev Slot := Fin nrLocksMax

def maxFilePos : Int := 0x7FFFFFFF

def offT (x : Int) : Int := Int.bmod x (2 ^ 64)

inductive LockType where
  | rdlck
  | wrlck
deriving DecidableEq

structure FileLock (V : Type) where
  type : LockType
  pid : Int
  vnode : V
  first : Int
  last : Int
deriving DecidableEq

inductive LockCmd where
  | getlk
  | setlk
  | setlkw
deriving DecidableEq

/-- `l_type`; `other` stands for the values that are none of the three. -/
inductive FlockType where
  | unlck
  | lock (type : LockType)
  | other
deriving DecidableEq

inductive Whence where
  | set
  | cur
  | fromEnd
  | other
deriving DecidableEq

/-- A request with what `lock_op` reads of the caller, the open file and the vnode. -/
structure LockRequest (V : Type) where
  cmd : LockCmd
  pid : Int
  vnode : V
  ltype : FlockType
  whence : Whence
  start : Int
  len : Int
  /-- The answers of the two copies from and to the caller. -/
  copyIn : Bool
  copyOut : Bool
  lockable : Bool
  readable : Bool
  writable : Bool
  pos : Int
  size : Int

/-- `blocked` has the processes suspended in `lock_op`. -/
structure LockTable (V : Type) where
  fileLock : Slot → Option (FileLock V)
  nrLocks : Int
  blocked : List Int

inductive LockAnswer (V : Type) where
  | ok
  | einval
  | ebadf
  | eagain
  | enolck
  | efault
  | suspend
  | report (flp : Option (FileLock V))
  | stray
deriving DecidableEq

variable {V : Type} [DecidableEq V] (q : LockRequest V)

def LockRequest.base : Option Int :=
  match q.whence with
  | .set => some 0
  | .cur => some q.pos
  | .fromEnd => some q.size
  | .other => none

def LockRequest.range (longBits : Nat) (q : LockRequest V) : Option (Int × Int) := do
  let first ← q.base
  let long := Int.bmod q.start (2 ^ longBits)
  if 0 < long ∧ offT (first + q.start) < first then none
  else if long < 0 ∧ first < offT (first + q.start) then none
  else
    let first := offT (first + q.start)
    let last := if q.len = 0 then maxFilePos else offT (offT (first + q.len) - 1)
    if last < first then none else some (first, last)

def LockRequest.refused : Option (LockAnswer V) :=
  if !q.copyIn then some .einval
  else if q.ltype = .other then some .einval
  else if q.cmd = .getlk ∧ q.ltype = .unlck then some .einval
  else if !q.lockable then some .einval
  else if q.cmd ≠ .getlk ∧ q.ltype = .lock .rdlck ∧ !q.readable then some .ebadf
  else if q.cmd ≠ .getlk ∧ q.ltype = .lock .wrlck ∧ !q.writable then some .ebadf
  else none

def LockRequest.passes (first last : Int) (flp : FileLock V) : Prop :=
  flp.vnode ≠ q.vnode ∨ last < flp.first ∨ flp.last < first ∨
    (q.ltype = .lock .rdlck ∧ flp.type = .rdlck) ∨ (q.ltype ≠ .unlck ∧ flp.pid = q.pid)

instance (q : LockRequest V) (first last : Int) (flp : FileLock V) :
    Decidable (q.passes first last flp) := inferInstanceAs (Decidable (_ ∨ _))

structure Scan (V : Type) where
  fileLock : Slot → Option (FileLock V)
  nrLocks : Int
  empty : Option Slot
  unlocking : Bool

def Scan.put (s : Scan V) (i : Slot) (flp : Option (FileLock V)) : Scan V :=
  { s with fileLock := Function.update s.fileLock i flp }

def firstFree (t : Slot → Option (FileLock V)) : Option Slot :=
  (List.finRange nrLocksMax).find? fun i => (t i).isNone

/-- The region is taken out of the lock in slot `i`. -/
def Scan.clear (s : Scan V) (first last : Int) (i : Slot) (flp : FileLock V) :
    Except (LockAnswer V) (Scan V) :=
  let s := { s with unlocking := true }
  if first ≤ flp.first ∧ flp.last ≤ last then
    .ok { s.put i none with nrLocks := s.nrLocks - 1 }
  else if first ≤ flp.first then .ok (s.put i (some { flp with first := last + 1 }))
  else if flp.last ≤ last then .ok (s.put i (some { flp with last := first - 1 }))
  else if s.nrLocks = (nrLocksMax : Int) then .error .enolck
  else
    match firstFree s.fileLock with
    | none => .error .stray
    | some j =>
      let s := (s.put j (some { flp with first := last + 1 })).put i
        (some { flp with last := first - 1 })
      .ok { s with nrLocks := s.nrLocks + 1 }

def lockScan (q : LockRequest V) (first last : Int) :
    List Slot → Scan V → Option (LockAnswer V) × Scan V
  | [], s => (none, s)
  | i :: is, s =>
    match s.fileLock i with
    | none => lockScan q first last is { s with empty := s.empty <|> some i }
    | some flp =>
      if q.passes first last flp then lockScan q first last is s
      else if q.cmd = .getlk then (some (.report (some flp)), s)
      else if q.ltype ≠ .unlck then (some (if q.cmd = .setlk then .eagain else .suspend), s)
      else
        match s.clear first last i flp with
        | .ok s => lockScan q first last is s
        | .error answer => (some answer, { s with unlocking := true })

variable (t : LockTable V)

def LockTable.lockRevive : LockTable V := { t with blocked := [] }

def LockTable.scan : Scan V := ⟨t.fileLock, t.nrLocks, none, false⟩

def LockTable.after (s : Scan V) : LockTable V :=
  { t with fileLock := s.fileLock, nrLocks := s.nrLocks }

def LockTable.store (q : LockRequest V) (first last : Int) (type : LockType)
    (i : Slot) : LockTable V :=
  { t with
    fileLock := Function.update t.fileLock i (some ⟨type, q.pid, q.vnode, first, last⟩)
    nrLocks := t.nrLocks + 1 }

def LockRequest.reply (flp : Option (FileLock V)) : LockAnswer V :=
  if q.copyOut then .report flp else .efault

/-- The part of `lock_op` after the loop. -/
def lockFinish (first last : Int) (t : LockTable V) :
    Option (LockAnswer V) × Scan V → LockAnswer V × LockTable V
  | (some (.report flp), s) => (q.reply flp, t.after s)
  | (some .suspend, s) => (.suspend, { t.after s with blocked := q.pid :: t.blocked })
  | (some answer, s) => (answer, t.after s)
  | (none, s) =>
    let t := if s.unlocking then (t.after s).lockRevive else t.after s
    if q.cmd = .getlk then (q.reply none, t)
    else
      match q.ltype, s.empty with
      | .lock type, some i => (.ok, t.store q first last type i)
      | .lock _, none => (.enolck, t)
      | _, _ => (.ok, t)

def lockOp (longBits : Nat) (q : LockRequest V) (t : LockTable V) : LockAnswer V × LockTable V :=
  match q.refused, q.range longBits with
  | some answer, _ => (answer, t)
  | none, none => (.einval, t)
  | none, some (first, last) =>
    lockFinish q first last t (lockScan q first last (List.finRange nrLocksMax) t.scan)

def LockTable.init : LockTable V := ⟨fun _ => none, 0, []⟩

end Gergios.Vfs
