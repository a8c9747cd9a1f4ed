import Gergios.Ext4.Crc
import Gergios.Ext4.Dirent
import Gergios.Ext4.GroupDesc

/-!
# Indexed directories

The first block of an indexed directory holds a record without an inode that fills the block. Behind
it stand the root of a tree of hashes and the numbers of the blocks that hold the entries.
-/

namespace Gergios.Ext4

open Lib

def ofExcept {α σ : Type} : Except Stop α → EStateM Stop σ α
  | .ok a => pure a
  | .error e => throw e

/-! ### Checksums of leaf blocks -/

variable (csumSeed dirIno generation : UInt32)

section

variable (block : List UInt8)

def computeDirLeafCsum (blockSize : Nat) : UInt32 :=
  crc32cLe (crc32cLe (crc32cLe csumSeed (le32 dirIno)) (le32 generation))
    (block.take (blockSize - direntTailSize))

def writeDirBlockTail (blockSize : Nat) (checksum : UInt32) : List UInt8 :=
  splice block (blockSize - direntTailSize) (le32 0 ++ le16 12 ++ [0, 0xDE] ++ le32 checksum)

def updateDirLeafCsum (blockSize : Nat) : List UInt8 :=
  if csumSeed = 0 then block
  else writeDirBlockTail block blockSize
    (computeDirLeafCsum csumSeed dirIno generation block blockSize)

end

variable (sb : Geometry)

def sealBlock (dirIno generation : UInt32) (block : List UInt8) : List UInt8 :=
  if sb.hasMetadataCsum then
    updateDirLeafCsum (crc32cLe 0xFFFFFFFF sb.sUuid) dirIno generation block sb.blockSize
  else block

/-! ### Hashes of names -/

/-- `rotate_left` on `u32`. -/
def rotateLeft (x : UInt32) (k : UInt32) : UInt32 := (x <<< k) ||| (x >>> (32 - k))

def md4Step (f : UInt32 → UInt32 → UInt32 → UInt32) (word : UInt32) (add rot : UInt32)
    (w : UInt32 × UInt32 × UInt32 × UInt32) : UInt32 × UInt32 × UInt32 × UInt32 :=
  let (a, b, c, d) := w
  (d, rotateLeft (a + f b c d + word + add) rot, b, c)

def halfMd4Hash (name : List UInt8) (seed : Fin 4 → UInt32) : UInt32 :=
  let buf := (List.range 32).map fun i => name.getD i 0
  let words : Nat → UInt32 := fun j => u32At buf (j * 4)
  let w := (seed 0 + seed 1, seed 1, seed 2, seed 3)
  let w := (List.range 8).foldl (fun w j =>
    md4Step (fun b c d => (b &&& c) ||| (~~~b &&& d)) (words j) 0 3 w) w
  let w := (List.range 8).foldl (fun w j =>
    md4Step (fun b c d => (b &&& d) ||| (c &&& ~~~d)) (words ((j * 5 + 1) % 8)) 0x5A827999 5 w) w
  let w := (List.range 8).foldl (fun w j =>
    md4Step (fun b c d => b ^^^ c ^^^ d) (words ((j * 3 + 5) % 8)) 0x6ED9EBA1 9 w) w
  w.1 + w.2.1

def htreeHash (name : List UInt8) (_hashVersion : UInt8) : UInt32 :=
  halfMd4Hash name sb.sHashSeed

/-! ### The tree -/

def dxRootInfoOffset : Nat := 8

def dxRootEntriesOffset : Nat := 16

def dxNodeEntriesOffset : Nat := 8

def IsDxRoot (block : List UInt8) : Prop :=
  u32At block 0 = 0 ∧ (u16At block 4).toNat = sb.blockSize

instance (sb : Geometry) (block : List UInt8) : Decidable (IsDxRoot sb block) :=
  inferInstanceAs (Decidable (_ ∧ _))

def dxGetCount (block : List UInt8) (entriesOff : Nat) : UInt16 :=
  if entriesOff + 4 > block.length then 0 else u16At block (entriesOff + 2)

/-- The first entry with a larger hash, by halving `lo` to `hi`. -/
def searchHash (block : List UInt8) (firstEntryOff : Nat) (hash : UInt32) : Nat → Nat → Nat → Nat
  | 0, lo, _ => lo
  | k + 1, lo, hi =>
    if lo < hi then
      let mid := lo + (hi - lo) / 2
      let midOff := firstEntryOff + mid * 8
      if midOff + 8 > block.length then lo
      else if u32At block midOff ≤ hash then searchHash block firstEntryOff hash k (mid + 1) hi
      else searchHash block firstEntryOff hash k lo mid
    else lo

section Model

variable (sb : Geometry) (env : Env)

def walkIndex (hash : UInt32) : Nat → List UInt8 → Nat → EStateM Stop World Nat
  | level, block, entriesOff => do
    let count := (dxGetCount block entriesOff).toNat
    if count = 0 then throw (.err .notFound)
    let firstEntryOff := entriesOff + 8
    let lo := searchHash block firstEntryOff hash count 0 count
    let entryOff := firstEntryOff + (if lo > 0 then lo - 1 else 0) * 8
    if entryOff + 8 > block.length then throw (.err .notFound)
    let entryBlock := (u32At block (entryOff + 4)).toNat
    match level with
    | 0 => return entryBlock
    | level + 1 => do
      let block ← env.readBlock entryBlock
      walkIndex hash level block dxNodeEntriesOffset

def htreeFindLeaf (name : List UInt8) : EStateM Stop World (Option Nat) := do
  let block ← env.readBlock 0
  if ¬IsDxRoot sb block then return none
  if block.length < dxRootInfoOffset + 8 then throw (.err .invalidExtentHeader)
  let hashVersion := block.getD (dxRootInfoOffset + 4) 0
  let indirectLevels := block.getD (dxRootInfoOffset + 6) 0
  let leaf ← walkIndex env (htreeHash sb name hashVersion) indirectLevels.toNat block
    dxRootEntriesOffset
  return some leaf

def htreeInsertEntry (dirIno generation : UInt32) (name : List UInt8) (fileType : UInt8)
    (childIno : UInt32) : EStateM Stop World Bool := do
  match ← htreeFindLeaf sb env name with
  | none => throw (.err .notFound)
  | some leafBlock => do
    let block ← env.readBlock leafBlock
    let (done, block) ← ofExcept (insertIntoBlock block childIno name fileType)
    if done then
      env.writeBlock leafBlock (sealBlock sb dirIno generation block)
      return true
    else return false

def htreeRemoveEntry (dirIno generation : UInt32) (name : List UInt8) :
    EStateM Stop World Bool := do
  match ← htreeFindLeaf sb env name with
  | none => throw (.err .notFound)
  | some leafBlock => do
    let block ← env.readBlock leafBlock
    let (done, block) ← ofExcept (removeFromBlock block name)
    if done then
      env.writeBlock leafBlock (sealBlock sb dirIno generation block)
      return true
    else return false

end Model

end Gergios.Ext4
