import Gergios.Mfs.Super
import Mathlib.Data.UInt

/-!
# Zones, indirect blocks and the block map of a file

A file has seven direct zones, one indirect zone and one double indirect zone. The block cache is
not part of the model: a block holds what was last written to it, except that a block acquired
without being read (`NO_READ`) holds anything.
-/

namespace Gergios.Mfs

open Lib Function

abbrev Block := Nat → UInt8

def wordAt (b : Block) (i : Nat) : Nat :=
  (b (4 * i)).toNat + 256 * ((b (4 * i + 1)).toNat + 256 * ((b (4 * i + 2)).toNat +
    256 * (b (4 * i + 3)).toNat))

def putWord (b : Block) (i v : Nat) : Block := fun k =>
  if k / 4 = i then UInt8.ofNat (v / 256 ^ (k % 4)) else b k

inductive FileType where
  | regular
  | directory
  | charSpecial
  | blockSpecial
  | other
deriving DecidableEq

structure Inode where
  type : FileType
  size : Nat
  zone : Nat → Nat
  zsearch : Nat

structure Vol where
  zmap : WordMap
  zsearch : Nat
  disk : Nat → Block
  /-- The zones that have been overwritten with zeros since they were allocated; no function of the
  source reads it. -/
  zeroed : Nat → Bool

inductive Errno where
  | enospc
  | efbig
  | einval
  | erofs
  | efault
deriving DecidableEq

def nrDzones : Nat := 7

def Inode.setZone (rip : Inode) (i z : Nat) : Inode := { rip with zone := update rip.zone i z }

def Vol.setBlock (v : Vol) (z : Nat) (b : Block) : Vol :=
  { v with disk := update v.disk z b }

def Vol.zeroBlock (v : Vol) (z : Nat) : Vol :=
  { v.setBlock z (fun _ => 0) with zeroed := update v.zeroed z true }

def Vol.wrIndir (v : Vol) (z index zone : Nat) : Vol := v.setBlock z (putWord (v.disk z) index zone)

variable (sp : Super)

/-- The answer 0 is `NO_ZONE`; the error code is then `ENOSPC`. -/
def allocZone (z : Nat) (v : Vol) : Except Failure (Nat × Vol) := do
  let bit := if z = sp.firstdatazone then v.zsearch
    else (z + 2 ^ 32 - (sp.firstdatazone - 1)) % 2 ^ 32
  let r ← allocBit sp v.zmap bit
  if r.1 = 0 then return (0, { v with zmap := r.2 })
  else
    let zone := sp.firstdatazone - 1 + r.1
    return (zone, { v with
      zmap := r.2
      zsearch := if z = sp.firstdatazone then r.1 else v.zsearch
      zeroed := update v.zeroed zone false })

def freeZone (numb : Nat) (v : Vol) : Except Failure Vol := do
  if numb < sp.firstdatazone ∨ sp.zones ≤ numb then return v
  else
    let bit := numb - (sp.firstdatazone - 1)
    let zmap ← freeBit sp v.zmap bit
    return { v with zmap := zmap, zsearch := if bit < v.zsearch then bit else v.zsearch }

def rdIndir (v : Vol) (z index : Nat) : Except Failure Nat :=
  let zone := wordAt (v.disk z) index
  if zone ≠ 0 ∧ (zone < sp.firstdatazone ∨ sp.zones ≤ zone) then .error .panic else .ok zone

def emptyIndir (v : Vol) (z : Nat) : Bool :=
  (List.range sp.nindirs).all fun i => wordAt (v.disk z) i == 0

/-- The block of a position, or 0, which is `NO_BLOCK`. -/
def readMap (position : Nat) (rip : Inode) (v : Vol) : Except Failure Nat := do
  let zone := position / sp.blockSize
  if zone < nrDzones then return rip.zone zone
  else
    let excess := zone - nrDzones
    if excess < sp.nindirs then
      if rip.zone nrDzones = 0 then return 0
      else rdIndir sp v (rip.zone nrDzones) excess
    else if rip.zone (nrDzones + 1) = 0 then return 0
    else
      let excess := excess - sp.nindirs
      let index := excess / sp.nindirs
      if sp.nindirs < index then return 0
      else
        let z ← rdIndir sp v (rip.zone (nrDzones + 1)) index
        if z = 0 then return 0
        else rdIndir sp v z (excess % sp.nindirs)

/-- The part of `write_map` that deals with a single indirect zone `z1`, which is 0 if there is
none: the zone is created, the entry `ex` is entered or freed, and an emptied zone is freed. The
second part of the answer is the zone that the inode or the double indirect block then refers to. -/
def writeIndir (near ex newZone : Nat) (free : Bool) (z1 : Nat) (v : Vol) :
    Except Failure (Option Errno × Nat × Vol) := do
  if z1 = 0 ∧ !free then
    let r ← allocZone sp near v
    if r.1 = 0 then return (some .enospc, 0, r.2)
    else return (none, r.1, (r.2.zeroBlock r.1).wrIndir r.1 ex newZone)
  else if z1 = 0 then return (none, 0, v)
  else if free then
    let oldZone ← rdIndir sp v z1 ex
    let v ← if oldZone ≠ 0 then do
        let v ← freeZone sp oldZone v
        pure (v.wrIndir z1 ex 0)
      else pure v
    if emptyIndir sp v z1 then
      let v ← freeZone sp z1 v
      return (none, 0, v)
    else return (none, z1, v)
  else return (none, z1, v.wrIndir z1 ex newZone)

/-- The double indirect zone `z` of `write_map`, which was `z2` at the start of the call, with the
single indirect zone at `indEx` in it. -/
def writeDouble (near indEx ex newZone : Nat) (free : Bool) (z2 z : Nat) (rip : Inode) (v : Vol) :
    Except Failure (Option Errno × Inode × Vol) := do
  let z1 ← if z = 0 then pure 0 else rdIndir sp v z indEx
  let r ← writeIndir sp near ex newZone free z1 v
  let v := if r.2.1 = z1 then r.2.2 else r.2.2.wrIndir z indEx r.2.1
  match r.1 with
  | some e => return (some e, rip, v)
  | none =>
    if r.2.1 = 0 ∧ z2 ≠ 0 ∧ emptyIndir sp v z then
      let v ← freeZone sp z2 v
      return (none, rip.setZone (nrDzones + 1) 0, v)
    else return (none, rip, v)

/-- `free` is `WMAP_FREE`; the new zone is then ignored. -/
def writeMap (position newZone : Nat) (free : Bool) (rip : Inode) (v : Vol) :
    Except Failure (Option Errno × Inode × Vol) := do
  let zone := position / sp.blockSize
  if zone < nrDzones then
    if rip.zone zone ≠ 0 ∧ free then
      let v ← freeZone sp (rip.zone zone) v
      return (none, rip.setZone zone 0, v)
    else return (none, rip.setZone zone newZone, v)
  else
    let excess := zone - nrDzones
    if excess < sp.nindirs then
      let r ← writeIndir sp (rip.zone 0) excess newZone free (rip.zone nrDzones) v
      return (r.1, rip.setZone nrDzones r.2.1, r.2.2)
    else
      let z2 := rip.zone (nrDzones + 1)
      let excess := excess - sp.nindirs
      let indEx := excess / sp.nindirs
      let ex := excess % sp.nindirs
      if z2 = 0 ∧ !free then
        -- the double indirect block is created, before the index is checked
        let r ← allocZone sp (rip.zone 0) v
        if r.1 = 0 then return (some .enospc, rip, r.2)
        else if sp.nindirs ≤ indEx then
          return (some .efbig, rip.setZone (nrDzones + 1) r.1, r.2)
        else
          writeDouble sp (rip.zone 0) indEx ex newZone free 0 r.1
            (rip.setZone (nrDzones + 1) r.1) (r.2.zeroBlock r.1)
      else if sp.nindirs ≤ indEx then return (some .efbig, rip, v)
      else writeDouble sp (rip.zone 0) indEx ex newZone free z2 z2 rip v

def newBlock (position : Nat) (rip : Inode) (v : Vol) :
    Except Failure (Option Errno × Nat × Inode × Vol) := do
  let b ← readMap sp position rip v
  if b = 0 then
    let near := if rip.zsearch = 0 then
        if rip.zone 0 = 0 then sp.firstdatazone else rip.zone 0
      else rip.zsearch
    let r ← allocZone sp near v
    if r.1 = 0 then return (some .enospc, 0, rip, r.2)
    else
      let w ← writeMap sp position r.1 false { rip with zsearch := r.1 } r.2
      match w.1 with
      | some e =>
        let v ← freeZone sp r.1 w.2.2
        return (some e, 0, w.2.1, v)
      | none => return (none, r.1, w.2.1, w.2.2.zeroBlock r.1)
  else return (none, b, rip, v.zeroBlock b)

end Gergios.Mfs
