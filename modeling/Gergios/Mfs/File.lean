import Gergios.Mfs.Zones

/-!
# Reading, writing and truncating files

Positions are those that `fsdriver` passes on: none is negative. A file system made by `mkfs` has
the largest signed 32-bit number as its maximum file size, so a position that is read or written
fits into 32 bits.
-/

namespace Gergios.Mfs

open Lib

def maxSize : Nat := 2 ^ 31 - 1

/-- The data of a write call, with the answers of `fsdriver_copyin` by offset: none if the copy
succeeds, and otherwise the number of bytes that had been copied. -/
structure UserData where
  bytes : List UInt8
  copied : Nat → Option Nat
  /-- What a block that is acquired without being read holds. -/
  junk : Nat → Block

structure State where
  /-- The inodes that `find_inode` finds. -/
  inodes : Nat → Option Inode
  vol : Vol

inductive Reply where
  | ok
  | count (n : Nat)
  | bytes (data : List UInt8)
  | err (e : Errno)
deriving DecidableEq

def putBytes (b : Block) (off : Nat) (bytes : List UInt8) : Block := fun k =>
  if off ≤ k ∧ k < off + bytes.length then bytes.getD (k - off) 0 else b k

def getBytes (b : Block) (off n : Nat) : List UInt8 := (List.range n).map fun k => b (off + k)

variable (sp : Super)

/-- The copy into a block that holds `buf`, at the end of `rw_chunk`. -/
def copyin (z off : Nat) (bytes : List UInt8) (copied : Option Nat) (buf : Block) (v : Vol) :
    Option Errno × Vol :=
  match copied with
  | none => (none, v.setBlock z (putBytes buf off bytes))
  | some n => (some .efault, v.setBlock z (putBytes buf off (bytes.take n)))

/-- `rw_chunk` for a write. -/
def writeChunk (position off : Nat) (bytes : List UInt8) (copied : Option Nat) (junk : Block)
    (rip : Inode) (v : Vol) : Except Failure (Option Errno × Inode × Vol) := do
  let b ← readMap sp position rip v
  let pastEnd := off = 0 ∧ rip.size ≤ position
  if b = 0 then
    let r ← newBlock sp position rip v
    match r.1 with
    | some e => return (some e, r.2.2)
    | none =>
      let w := copyin r.2.1 off bytes copied (fun _ => 0) r.2.2.2
      return (w.1, r.2.2.1, w.2)
  else
    let buf := if bytes.length = sp.blockSize then junk
      else if pastEnd then fun _ => 0
      else v.disk b
    let w := copyin b off bytes copied buf v
    return (w.1, rip, w.2)

def writeLoop (data : UserData) : Nat → Nat → Nat → Inode → Vol →
    Except Failure (Option Errno × Nat × Nat × Inode × Vol)
  | 0, position, cumIo, rip, v => .ok (none, position, cumIo, rip, v)
  | fuel + 1, position, cumIo, rip, v =>
    let nrbytes := data.bytes.length - cumIo
    if nrbytes = 0 then .ok (none, position, cumIo, rip, v)
    else do
      let off := position % sp.blockSize
      let chunk := min (sp.blockSize - off) nrbytes
      let r ← writeChunk sp position off ((data.bytes.drop cumIo).take chunk) (data.copied cumIo)
        (data.junk cumIo) rip v
      match r.1 with
      | some e => return (some e, position, cumIo, r.2)
      | none => writeLoop data fuel (position + chunk) (cumIo + chunk) r.2.1 r.2.2

def Inode.grow (rip : Inode) (position : Nat) : Inode :=
  if (rip.type = .regular ∨ rip.type = .directory) ∧ rip.size < position then
    { rip with size := position }
  else rip

def State.put (s : State) (ino : Nat) (rip : Inode) (v : Vol) : State :=
  { inodes := Function.update s.inodes ino (some rip), vol := v }

def fsWrite (ino position : Nat) (data : UserData) (s : State) : Except Failure (Reply × State) :=
  match s.inodes ino with
  | none => .ok (.err .einval, s)
  | some rip =>
    if sp.rdOnly then .ok (.err .erofs, s)
    else if maxSize < position + data.bytes.length then .ok (.err .efbig, s)
    else do
      let r ← writeLoop sp data data.bytes.length position 0 rip s.vol
      let s' := s.put ino (r.2.2.2.1.grow r.2.1) r.2.2.2.2
      match r.1 with
      | some e => return (.err e, s')
      | none => return (.count r.2.2.1, s')

/-- `rw_chunk` for a read. -/
def readChunk (position off chunk : Nat) (rip : Inode) (v : Vol) : Except Failure (List UInt8) := do
  let b ← readMap sp position rip v
  if b = 0 then return List.replicate chunk 0
  else return getBytes (v.disk b) off chunk

def readLoop (rip : Inode) (v : Vol) : Nat → Nat → Nat → Except Failure (List UInt8)
  | 0, _, _ => .ok []
  | fuel + 1, position, nrbytes =>
    if nrbytes = 0 ∨ rip.size ≤ position then .ok []
    else do
      let off := position % sp.blockSize
      let chunk := min (min (sp.blockSize - off) nrbytes) (rip.size - position)
      let bytes ← readChunk sp position off chunk rip v
      let rest ← readLoop rip v fuel (position + chunk) (nrbytes - chunk)
      return bytes ++ rest

def fsRead (ino position nrbytes : Nat) (s : State) : Except Failure (Reply × State) :=
  match s.inodes ino with
  | none => .ok (.err .einval, s)
  | some rip => do
    let bytes ← readLoop sp rip s.vol nrbytes position nrbytes
    return (.bytes bytes, s)

def zerozoneRange (rip : Inode) : Nat → Nat → Nat → Vol → Except Failure Vol
  | 0, _, _, v => .ok v
  | fuel + 1, pos, len, v =>
    if len = 0 then .ok v
    else do
      let b ← readMap sp (pos / sp.blockSize * sp.blockSize) rip v
      if b = 0 then return v
      else
        let offset := pos % sp.blockSize
        let bytes := min (sp.blockSize - offset) len
        zerozoneRange rip fuel (pos + bytes) (len - bytes)
          (v.setBlock b (putBytes (v.disk b) offset (List.replicate bytes 0)))

/-- `LAST_HALF`: from `pos` to the end of its zone. -/
def zerozoneLast (rip : Inode) (pos : Nat) (v : Vol) : Except Failure Vol :=
  let len := sp.blockSize - pos % sp.blockSize
  zerozoneRange sp rip len pos len v

/-- `FIRST_HALF`: from the start of its zone to `pos`. -/
def zerozoneFirst (rip : Inode) (pos : Nat) (v : Vol) : Except Failure Vol :=
  let len := pos % sp.blockSize
  zerozoneRange sp rip len (pos - len) len v

/-- `count` zones from `p` on are freed. -/
def freeZones : Nat → Nat → Inode → Vol → Except Failure (Option Errno × Inode × Vol)
  | 0, _, rip, v => .ok (none, rip, v)
  | count + 1, p, rip, v => do
    let r ← writeMap sp (p * sp.blockSize) 0 true rip v
    match r.1 with
    | some e => return (some e, r.2)
    | none => freeZones count (p + 1) r.2.1 r.2.2

def nextblock (pos : Nat) : Nat :=
  pos / sp.blockSize * sp.blockSize + if pos % sp.blockSize = 0 then 0 else sp.blockSize

def freespInode (start stop : Nat) (rip : Inode) (v : Vol) :
    Except Failure (Option Errno × Inode × Vol) := do
  let stop := if rip.size < stop then rip.size else stop
  if stop ≤ start then return (some .einval, rip, v)
  else
    let zeroLast := start % sp.blockSize ≠ 0
    let zeroFirst := stop % sp.blockSize ≠ 0 ∧ stop < rip.size
    if start / sp.blockSize = (stop - 1) / sp.blockSize ∧ (zeroLast ∨ zeroFirst) then
      let v ← zerozoneRange sp rip (stop - start) start (stop - start) v
      return (none, rip, v)
    else
      let v ← if zeroLast then zerozoneLast sp rip start v else pure v
      let v ← if zeroFirst then zerozoneFirst sp rip stop v else pure v
      let e := stop / sp.blockSize + if stop = rip.size ∧ stop % sp.blockSize ≠ 0 then 1 else 0
      let p := nextblock sp start / sp.blockSize
      freeZones sp (e - p) p rip v

def truncateInode (newsize : Nat) (rip : Inode) (v : Vol) :
    Except Failure (Option Errno × Inode × Vol) := do
  if rip.type = .charSpecial ∨ rip.type = .blockSpecial then return (some .einval, rip, v)
  else if maxSize < newsize then return (some .efbig, rip, v)
  else
    let r ← if newsize < rip.size then freespInode sp newsize rip.size rip v
      else pure (none, rip, v)
    match r.1 with
    | some e => return (some e, r.2)
    | none => return (none, { r.2.1 with size := newsize }, r.2.2)

/-- Truncates if `stop` is 0, and otherwise cuts a hole. -/
def fsTrunc (ino start stop : Nat) (s : State) : Except Failure (Reply × State) :=
  match s.inodes ino with
  | none => .ok (.err .einval, s)
  | some rip =>
    if sp.rdOnly then .ok (.err .erofs, s)
    else do
      let r ← if stop = 0 then truncateInode sp start rip s.vol
        else freespInode sp start stop rip s.vol
      match r.1 with
      | some e => return (.err e, s.put ino r.2.1 r.2.2)
      | none => return (.ok, s.put ino r.2.1 r.2.2)

end Gergios.Mfs
