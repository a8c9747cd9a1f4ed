import Gergios.Ext4.JournalFormat
import Gergios.Lib.State

/-!
# Commit, checkpoint and recovery

The callbacks read and write the journal device and write the file system. A call can fail, and the
power can go before it: then nothing runs any more.
-/

namespace Gergios.Ext4

open Lib

/-! ### The devices -/

inductive Halt where
  | stop (s : Stop)
  | cut

structure Disk where
  log : Nat → List UInt8
  fs : Nat → List UInt8
  logWrites : List (Nat × List UInt8)
  fsWrites : List (Nat × List UInt8)
  calls : Nat

def onDisk {σ α : Type} (m : EStateM Halt Disk α) : EStateM Halt (σ × Disk) α := fun s =>
  match m s.2 with
  | .ok a d => .ok a (s.1, d)
  | .error e d => .error e (s.1, d)

/-- `is_err` sees the errors that a callback returns. -/
def succeeds {α : Type} (m : EStateM Halt Disk α) : EStateM Halt Disk (Option α) := fun d =>
  match m d with
  | .ok a d => .ok (some a) d
  | .error (.stop (.err _)) d => .ok none d
  | .error e d => .error e d

section Calls

variable (answer : Nat → Option Halt)

def diskCall {α : Type} (act : Disk → α × Disk) : EStateM Halt Disk α := fun d =>
  match answer d.calls with
  | some e => .error e { d with calls := d.calls + 1 }
  | none => .ok (act d).1 { (act d).2 with calls := d.calls + 1 }

def readJournalBlock (b : Nat) : EStateM Halt Disk (List UInt8) :=
  diskCall answer fun d => (d.log b, d)

def writeJournalBlock (b : Nat) (buf : List UInt8) : EStateM Halt Disk Unit :=
  diskCall answer fun d => ((), { d with
    log := Function.update d.log b buf
    logWrites := d.logWrites ++ [(b, buf)] })

def writeFsBlock (b : Nat) (buf : List UInt8) : EStateM Halt Disk Unit :=
  diskCall answer fun d => ((), { d with
    fs := Function.update d.fs b buf
    fsWrites := d.fsWrites ++ [(b, buf)] })

end Calls

/-! ### The journal in memory -/

def saturatingSub (a b : UInt32) : UInt32 := if b ≤ a then a - b else 0

structure Journal where
  sb : Jbd2Superblock
  maxlen : UInt32
  first : UInt32
  nextLogBlock : UInt32
  csumV3 : Bool

namespace Journal

/-- The write position is `s_first`, on a clean journal and on any other. -/
def new (sb : Jbd2Superblock) : Journal :=
  { sb
    maxlen := sb.sMaxlen
    first := sb.sFirst
    nextLogBlock := if sb.isClean then sb.sFirst else sb.sFirst
    csumV3 := sb.csumV3 }

variable (j : Journal)

def freeBlocks : UInt32 :=
  let used :=
    if j.nextLogBlock ≥ j.sb.sStart then j.nextLogBlock - j.sb.sStart
    else j.maxlen - (j.sb.sStart - j.nextLogBlock)
  let usable := saturatingSub j.maxlen 3
  saturatingSub usable used

def hasSpaceFor (numDataBlocks : UInt32) : Bool := j.freeBlocks ≥ 1 + numDataBlocks + 1

end Journal

def journalStartTransaction (j : Journal) : Journal :=
  { j with sb := { j.sb with sSequence := j.sb.sSequence + 1, hSequence := j.sb.sSequence + 1 } }

/-! ### Commit -/

structure LogBlock where
  dest : UInt64
  data : List UInt8
  flags : UInt16

section Model

variable (answer : Nat → Option Halt)

/-- Buffers written one after the other from the position `pos` on. -/
def writeLog (first maxlen : UInt32) : List (List UInt8) → UInt32 → EStateM Halt Disk UInt32
  | [], pos => pure pos
  | buf :: rest, pos => do
    writeJournalBlock answer ((first + pos) % maxlen).toNat buf
    writeLog first maxlen rest ((pos + 1) % maxlen)

def descriptorBuffer (j : Journal) (blocks : List LogBlock) : List UInt8 :=
  serializeDescriptorBlock j.sb.sSequence (blocks.map fun b => (b.dest, b.flags)) j.csumV3

def commitBuffer (j : Journal) : List UInt8 :=
  setCommitTimestamp (serializeCommitBlock j.sb.sSequence j.csumV3) 0 0

/-- What `journal_commit` writes to the log: the descriptor block, the data and the commit block. -/
def logBuffers (j : Journal) (blocks : List LogBlock) : List (List UInt8) :=
  descriptorBuffer j blocks :: blocks.map LogBlock.data ++ [commitBuffer j]

def journalCommit (blocks : List LogBlock) : EStateM Halt (Journal × Disk) UInt32 := do
  if blocks.isEmpty then return 0
  let (j, _) ← get
  let n := UInt32.ofNat blocks.length
  if !j.hasSpaceFor n then throw (.stop (.err .noSpace))
  let pos ← onDisk (writeLog answer j.first j.maxlen (logBuffers j blocks) j.nextLogBlock)
  let sequence := j.sb.sSequence
  let sb := { j.sb with
    sSequence := sequence + 1
    sStart := j.nextLogBlock
    sErrno := 0
    hSequence := sequence + 1 }
  modify fun s => ({ j with sb, nextLogBlock := pos }, s.2)
  onDisk (writeJournalBlock answer 0 (serializeJournalSuperblock sb))
  return 1 + n + 1

/-! ### The scan of the log -/

structure CommittedTx where
  descriptorPos : UInt32
  tags : List Jbd2BlockTag

structure Scan where
  pos : UInt32
  transactions : List CommittedTx := []
  currentTags : List Jbd2BlockTag := []
  currentSeq : UInt32 := 0
  inTransaction : Bool := false
  descriptorPos : UInt32 := 0
  blocksSinceDescriptor : UInt32 := 0
  revokeSet : List UInt64 := []

namespace Scan

variable (s : Scan)

def descriptor (sequence : UInt32) (tags : List Jbd2BlockTag) : Scan :=
  { s with
    currentTags := tags
    currentSeq := sequence
    descriptorPos := s.pos
    inTransaction := true
    blocksSinceDescriptor := 0 }

def commit (sequence : UInt32) : Scan :=
  { s with
    transactions :=
      if s.inTransaction ∧ sequence = s.currentSeq then
        s.transactions ++ [⟨s.descriptorPos, s.currentTags⟩]
      else s.transactions
    inTransaction := false
    currentTags := [] }

def other : Scan :=
  if s.inTransaction then
    let since := s.blocksSinceDescriptor + 1
    if since > UInt32.ofNat s.currentTags.length + 2 then
      { s with blocksSinceDescriptor := since, inTransaction := false, currentTags := [] }
    else { s with blocksSinceDescriptor := since }
  else s

def note : ScanResult → Option Scan
  | .descriptor sequence tags => some (s.descriptor sequence tags)
  | .commit sequence => some (s.commit sequence)
  | .revoke records => some { s with revokeSet := s.revokeSet ++ records }
  | .invalidChecksum => none
  | .other | .ended => some s.other

end Scan

/-- Recovery and checkpoint read the log from `s_start` on, for at most as many blocks as it has.
They go on to the next position each in its own way. -/
def scanLog (sb : Jbd2Superblock) (maxlen first : UInt32) (advance : UInt32 → UInt32) :
    Nat → Scan → EStateM Halt Disk Scan
  | 0, s => pure s
  | fuel + 1, s => do
    match ← succeeds (readJournalBlock answer ((first + s.pos) % maxlen).toNat) with
    | none => pure s
    | some buf =>
      match scanJournalBlock buf sb with
      | .error e => throw (.stop e)
      | .ok r =>
        match s.note r with
        | none => pure s
        | some t =>
          let pos := advance s.pos
          if pos = sb.sStart then pure { t with pos }
          else scanLog sb maxlen first advance fuel { t with pos }

def unescapeBlock (block : List UInt8) : List UInt8 :=
  if block.length ≥ 4 then splice block 0 (be32 jbd2MagicNumber) else block

def blockImage (flags : UInt16) (data : List UInt8) : List UInt8 :=
  if flags &&& jbd2FlagDeleted ≠ 0 then zeroBlock
  else if flags &&& jbd2FlagEscape ≠ 0 then unescapeBlock data
  else data

/-- The copies of a transaction, the first of them at `address 0`; `n` blocks are written so far. A
copy that cannot be read is passed over. -/
def replayTags (revoked : List UInt64) (address : Nat → Nat) :
    List Jbd2BlockTag → Nat → UInt32 → EStateM Halt Disk UInt32
  | [], _, n => pure n
  | tag :: rest, i, n => do
    if tag.blockNumber ∈ revoked then replayTags revoked address rest (i + 1) n
    else
      match ← succeeds (readJournalBlock answer (address i)) with
      | none => replayTags revoked address rest (i + 1) n
      | some buf =>
        writeFsBlock answer tag.blockNumber.toNat (blockImage tag.tFlags buf)
        replayTags revoked address rest (i + 1) (n + 1)

def replay (revoked : List UInt64) (address : UInt32 → Nat → Nat) :
    List CommittedTx → UInt32 → EStateM Halt Disk UInt32
  | [], n => pure n
  | tx :: rest, n => do
    let n ← replayTags answer revoked (address tx.descriptorPos) tx.tags 0 n
    replay revoked address rest n

/-! ### Recovery -/

structure RecoveryConfig where
  journalBlocks : UInt32
  firstBlock : UInt32

def recoverJournal (sb : Jbd2Superblock) (config : RecoveryConfig) : EStateM Halt Disk UInt32 := do
  if sb.isClean then return 0
  let blocks := config.journalBlocks
  let first := config.firstBlock
  let scan ← scanLog answer sb blocks first (fun pos => if pos + 1 ≥ blocks then 0 else pos + 1)
    blocks.toNat { pos := sb.sStart }
  let _ ← replay answer scan.revokeSet
    (fun pos i => (first.toNat + (pos.toNat + 1 + i) % blocks.toNat) % blocks.toNat)
    scan.transactions 0
  return UInt32.ofNat scan.transactions.length

def readJournalSuperblock : EStateM Halt Disk Jbd2Superblock := do
  let buf ← readJournalBlock answer 0
  match parseJournalSuperblock buf with
  | .ok sb => pure sb
  | .error e => throw (.stop (.err e))

/-! ### Checkpoint -/

def journalCheckpoint : EStateM Halt (Journal × Disk) UInt32 := do
  let (j, _) ← get
  if j.sb.isClean then return 0
  let scan ← onDisk (scanLog answer j.sb j.maxlen j.first (fun pos => (pos + 1) % j.maxlen)
    j.maxlen.toNat { pos := j.sb.sStart })
  -- Revoke records are passed over.
  let n ← onDisk (replay answer [] (fun pos i =>
      ((j.first + UInt32.ofNat ((pos.toNat + 1 + i) % j.maxlen.toNat)) % j.maxlen).toNat)
    scan.transactions 0)
  let sb := if scan.transactions.isEmpty then j.sb else { j.sb with sStart := j.sb.sSequence }
  modify fun s => ({ j with sb }, s.2)
  onDisk (writeJournalBlock answer 0 (serializeJournalSuperblock sb))
  return n

end Model

end Gergios.Ext4
