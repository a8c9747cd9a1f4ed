import Gergios.Lib.State
import Gergios.Ext4.Insert

/-!
# The device behind the callbacks

The callers pass functions that read and write blocks, write the inode and allocate a block. They
work on one device, and any call can fail.
-/

namespace Gergios.Ext4

/-- What the callbacks answer: which calls of `read_block`, `write_block` and `write_inode` fail,
and the blocks that `alloc_block` returns. -/
structure Env where
  fault : Nat → Option Ext4Error
  alloc : Nat → Ext4Result UInt64

structure World where
  dev : Nat → List UInt8
  calls : Nat
  allocs : Nat

namespace Env

variable (env : Env)

def attempt {α : Type} (act : World → α × World) : EStateM Stop World α := fun x =>
  match env.fault x.calls with
  | some e => .error (.err e) { x with calls := x.calls + 1 }
  | none =>
    let r := act x
    .ok r.1 { r.2 with calls := x.calls + 1 }

def readBlock (pbn : Nat) : EStateM Stop World (List UInt8) :=
  env.attempt fun x => (x.dev pbn, x)

def writeBlock (pbn : Nat) (buf : List UInt8) : EStateM Stop World Unit :=
  env.attempt fun x => ((), { x with dev := Function.update x.dev pbn buf })

def writeInode (_ : Inode) : EStateM Stop World Unit := env.attempt fun x => ((), x)

def allocBlock : EStateM Stop World UInt64 := fun x =>
  match env.alloc x.allocs with
  | .ok p => .ok p { x with allocs := x.allocs + 1 }
  | .error e => .error (.err e) { x with allocs := x.allocs + 1 }

end Env

variable {env : Env} {s : Inode}

theorem onWorld_attempt {α : Type} (act : World → α × World) (x : World) :
    onWorld (env.attempt act) (s, x) = match env.fault x.calls with
      | some e => .error (.err e) (s, { x with calls := x.calls + 1 })
      | none => .ok (act x).1 (s, { (act x).2 with calls := x.calls + 1 }) := by
  unfold onWorld Env.attempt
  cases env.fault x.calls <;> rfl

theorem onWorld_allocBlock (x : World) :
    onWorld env.allocBlock (s, x) = match env.alloc x.allocs with
      | .ok p => .ok p (s, { x with allocs := x.allocs + 1 })
      | .error e => .error (.err e) (s, { x with allocs := x.allocs + 1 }) := by
  unfold onWorld Env.allocBlock
  cases env.alloc x.allocs <;> rfl

end Gergios.Ext4
