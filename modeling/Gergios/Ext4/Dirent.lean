import Gergios.Ext4.Lookup

/-!
# Directory blocks

A block is a chain of records. A record starts with an inode number, its length and the length and
type of a name; the name follows, and then what is left of the record is free. A record of inode 0
holds no entry.
-/

namespace Gergios.Ext4

open Lib

def dirEntryMinSize : Nat := 8

def dirEntryHeaderSize : Nat := 8

def direntTailSize : Nat := 12

structure DirEntry where
  inode : UInt32
  recLen : UInt16
  fileType : UInt8
  name : List UInt8
deriving DecidableEq

def isValidDirentName (name : List UInt8) : Bool :=
  name ≠ [] && name ≠ [46] && name ≠ [46, 46] && name.length ≤ 255 && 0 ∉ name

def direntSize (nameLen : UInt8) : Nat := (dirEntryHeaderSize + nameLen.toNat + 3) / 4 * 4

/-- The next entry from `pos` on, and where its record ends. -/
def nextEntry (data : List UInt8) : Nat → Nat → Except Stop (Option (DirEntry × Nat))
  | 0, _ => .ok none
  | k + 1, pos =>
    if pos + dirEntryMinSize > data.length then .ok none
    else
      let inode := u32At data pos
      let recLen := u16At data (pos + 4)
      if recLen = 0 ∨ pos + recLen.toNat > data.length then .ok none
      else if inode = 0 then nextEntry data k (pos + recLen.toNat)
      else
        let nameLen := (data.getD (pos + 6) 0).toNat
        if pos + 8 + nameLen > data.length then .error .panicked
        else .ok (some (⟨inode, recLen, data.getD (pos + 7) 0, bytesAt data (pos + 8) nameLen⟩,
          pos + recLen.toNat))

def lookupLinearFrom (data name : List UInt8) : Nat → Nat → Except Stop (Option DirEntry)
  | 0, _ => .ok none
  | k + 1, pos => do
    match ← nextEntry data data.length pos with
    | none => return none
    | some (entry, pos) =>
      if entry.name = name then return some entry
      lookupLinearFrom data name k pos

def lookupLinear (data name : List UInt8) : Except Stop (Option DirEntry) :=
  lookupLinearFrom data name data.length 0

def direntBytes (inode : UInt32) (recLen : UInt16) (fileType : UInt8) (name : List UInt8) :
    List UInt8 :=
  le32 inode ++ le16 recLen ++ [.ofNat name.length, fileType] ++ name

/-- The loop of `insert_into_block` at `pos`. -/
def insertFrom (block : List UInt8) (inode : UInt32) (name : List UInt8) (fileType : UInt8) :
    Nat → Nat → Except Stop (Bool × List UInt8)
  | 0, _ => .ok (false, block)
  | k + 1, pos =>
    if pos + dirEntryMinSize ≤ block.length then
      let entryInode := u32At block pos
      let recLen := (u16At block (pos + 4)).toNat
      if recLen = 0 ∨ pos + recLen > block.length then .ok (false, block)
      else
        let minEntrySize :=
          if entryInode ≠ 0 then direntSize (block.getD (pos + 6) 0) else dirEntryMinSize
        -- The difference of two `usize`, which wraps around.
        let available := (recLen + 2 ^ 64 - minEntrySize) % 2 ^ 64
        if available ≥ direntSize (.ofNat name.length) then
          let newPos := pos + minEntrySize
          if newPos + 8 + name.length > block.length then .error .panicked
          else .ok (true, splice (splice block (pos + 4) (le16 (.ofNat minEntrySize))) newPos
            (direntBytes inode (.ofNat available) fileType name))
        else insertFrom block inode name fileType k (pos + recLen)
    else .ok (false, block)

def insertIntoBlock (block : List UInt8) (inode : UInt32) (name : List UInt8) (fileType : UInt8) :
    Except Stop (Bool × List UInt8) :=
  insertFrom block inode name fileType block.length 0

/-- The loop of `remove_from_block` at `pos`, with the record before it at `prevPos`. -/
def removeFrom (block name : List UInt8) : Nat → Nat → Nat → Except Stop (Bool × List UInt8)
  | 0, _, _ => .ok (false, block)
  | k + 1, pos, prevPos =>
    if pos + dirEntryMinSize ≤ block.length then
      let entryInode := u32At block pos
      let recLen := (u16At block (pos + 4)).toNat
      if recLen = 0 ∨ pos + recLen > block.length then .ok (false, block)
      else
        let entryNameLen := (block.getD (pos + 6) 0).toNat
        if entryInode ≠ 0 ∧ entryNameLen = name.length then
          if pos + 8 + entryNameLen > block.length then .error .panicked
          else if bytesAt block (pos + 8) entryNameLen = name then
            .ok (true, splice (splice block pos (le32 0)) (prevPos + 4)
              (le16 (.ofNat (pos - prevPos + recLen))))
          else removeFrom block name k (pos + recLen) pos
        else removeFrom block name k (pos + recLen) pos
    else .ok (false, block)

def removeFromBlock (block name : List UInt8) : Except Stop (Bool × List UInt8) :=
  removeFrom block name block.length 0 0

end Gergios.Ext4
