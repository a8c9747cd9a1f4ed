import Gergios.Ext4.Crc
import Gergios.Ext4.Lookup

/-!
# The blocks of a journal

Block 0 of a journal device holds its superblock. A transaction is a descriptor block with a tag for
each block of the file system, the copies of these blocks, and a commit block. Words are big-endian.
-/

namespace Gergios.Ext4

open Lib

def jbd2MagicNumber : UInt32 := 0xC03B3998

def jbd2DescriptorBlock : UInt32 := 1

def jbd2CommitBlock : UInt32 := 2

def jbd2SuperblockV1 : UInt32 := 3

def jbd2SuperblockV2 : UInt32 := 4

def jbd2RevokeBlock : UInt32 := 5

def jbd2FlagEscape : UInt16 := 0x0001

def jbd2FlagSameUuid : UInt16 := 0x0002

def jbd2FlagDeleted : UInt16 := 0x0004

def jbd2FlagLastTag : UInt16 := 0x0008

def jbd2BlockSize : Nat := 1024

def jbd2FeatureIncompatCsumV2 : UInt32 := 1

def jbd2FeatureIncompatCsumV3 : UInt32 := 2

def jbd2Crc32Chksum : UInt8 := 1

def jbd2Crc32cChksum : UInt8 := 2

structure Jbd2Superblock where
  hSequence : UInt32
  sBlocksize : UInt32
  sMaxlen : UInt32
  sFirst : UInt32
  sSequence : UInt32
  sStart : UInt32
  sErrno : UInt32
  sFeatureCompat : UInt32
  sFeatureIncompat : UInt32
  sFeatureRoCompat : UInt32
  sUuid : List UInt8
  sNrUsers : UInt32
  sMaxTransaction : UInt32
  sMaxTransData : UInt32
  sCommitInterval : UInt32

namespace Jbd2Superblock

variable (sb : Jbd2Superblock)

def isClean : Bool := sb.sStart == 0 || sb.sStart == sb.sSequence

def csumV3 : Bool := sb.sFeatureIncompat &&& jbd2FeatureIncompatCsumV3 != 0

def csumV2or3 : Bool := sb.sFeatureIncompat &&& jbd2FeatureIncompatCsumV2 != 0 || sb.csumV3

end Jbd2Superblock

structure Jbd2BlockTag where
  tBlocknr : UInt32
  tFlags : UInt16
  tBlocknrHigh : UInt16
deriving DecidableEq

def Jbd2BlockTag.blockNumber (tag : Jbd2BlockTag) : UInt64 :=
  tag.tBlocknr.toUInt64 ||| (tag.tBlocknrHigh.toUInt64 <<< 32)

/-! ### Writing -/

def zeroBlock : List UInt8 := List.replicate jbd2BlockSize 0

def jbd2HeaderBytes (blocktype sequence : UInt32) : List UInt8 :=
  be32 jbd2MagicNumber ++ be32 blocktype ++ be32 sequence

variable (block : List UInt8)

/-- The checksum of a block whose four bytes at `off` count as zero. -/
def blockChecksum (off : Nat) : UInt32 :=
  crc32cLe 0 (splice block off (be32 0)) ^^^ 0xFFFFFFFF

def writeChecksum (off : Nat) : List UInt8 :=
  splice block off (be32 (blockChecksum block off))

def tagSize (csumV3 : Bool) : Nat := if csumV3 then 6 else 8

def tailReserve (csumV3 : Bool) : Nat := if csumV3 then 4 else 0

def tagBytes (csumV3 : Bool) (blockNr : UInt64) (flags : UInt16) : List UInt8 :=
  be32 blockNr.toUInt32 ++ be16 flags ++ if csumV3 then [] else be16 (blockNr >>> 32).toUInt16

/-- The tags from `off` on. The last one that has room gets the flag that ends the list. -/
def descriptorTags (csumV3 : Bool) (off : Nat) : List (UInt64 × UInt16) → List UInt8
  | [] => []
  | (blockNr, flags) :: rest =>
    let next := off + tagSize csumV3
    if rest.isEmpty ∨ next + tagSize csumV3 + tailReserve csumV3 > jbd2BlockSize then
      tagBytes csumV3 blockNr (flags ||| jbd2FlagSameUuid ||| jbd2FlagLastTag)
    else tagBytes csumV3 blockNr (flags ||| jbd2FlagSameUuid) ++ descriptorTags csumV3 next rest

def serializeDescriptorBlock (sequence : UInt32) (tags : List (UInt64 × UInt16)) (csumV3 : Bool) :
    List UInt8 :=
  let block := splice zeroBlock 0
    (jbd2HeaderBytes jbd2DescriptorBlock sequence ++ descriptorTags csumV3 12 tags)
  if csumV3 ∧ tags ≠ [] then writeChecksum block (jbd2BlockSize - 4) else block

def serializeCommitBlock (sequence : UInt32) (csumV3 : Bool) : List UInt8 :=
  let block := splice zeroBlock 0 (jbd2HeaderBytes jbd2CommitBlock sequence)
  if csumV3 then writeChecksum (splice block 12 [jbd2Crc32cChksum, 4]) 16 else block

def setCommitTimestamp (sec : UInt64) (nsec : UInt32) : List UInt8 :=
  if block.length < 32 then block
  else if block.getD 12 0 = jbd2Crc32cChksum ∧ block.getD 13 0 = 4 then
    writeChecksum (splice block 20 (be64 sec ++ be32 nsec)) 16
  else block

variable (sb : Jbd2Superblock)

def jbd2SuperblockBytes : List UInt8 :=
  jbd2HeaderBytes jbd2SuperblockV2 sb.hSequence ++
    [sb.sBlocksize, sb.sMaxlen, sb.sFirst, sb.sSequence, sb.sStart, sb.sErrno, sb.sFeatureCompat,
      sb.sFeatureIncompat, sb.sFeatureRoCompat].flatMap be32 ++
    sb.sUuid ++
    [sb.sNrUsers, sb.sMaxTransaction, sb.sMaxTransData, sb.sCommitInterval].flatMap be32

def serializeJournalSuperblock : List UInt8 :=
  splice zeroBlock 0 (jbd2SuperblockBytes sb)

/-! ### Reading -/

structure Jbd2Header where
  hMagic : UInt32
  hBlocktype : UInt32
  hSequence : UInt32

variable (data : List UInt8)

def parseJbd2Header (off : Nat) : Ext4Result Jbd2Header :=
  if off + 12 > data.length then .error .ioError
  else .ok ⟨be32At data off, be32At data (off + 4), be32At data (off + 8)⟩

def parseJournalSuperblock : Ext4Result Jbd2Superblock :=
  if data.length < jbd2BlockSize then .error .ioError
  else
    match parseJbd2Header data 0 with
    | .error e => .error e
    | .ok header =>
      if header.hMagic ≠ jbd2MagicNumber then .error .invalidMagic
      else if header.hBlocktype ≠ jbd2SuperblockV1 ∧ header.hBlocktype ≠ jbd2SuperblockV2 then
        .error (.unsupportedIncompat header.hBlocktype)
      else
        .ok {
          hSequence := header.hSequence
          sBlocksize := be32At data 12
          sMaxlen := be32At data 16
          sFirst := be32At data 20
          sSequence := be32At data 24
          sStart := be32At data 28
          sErrno := be32At data 32
          sFeatureCompat := be32At data 36
          sFeatureIncompat := be32At data 40
          sFeatureRoCompat := be32At data 44
          sUuid := bytesAt data 48 16
          sNrUsers := be32At data 64
          sMaxTransaction := be32At data 68
          sMaxTransData := be32At data 72
          sCommitInterval := be32At data 76 }

def parseTags (data : List UInt8) (csumV3 : Bool) : Nat → Nat → List Jbd2BlockTag
  | 0, _ => []
  | fuel + 1, off =>
    if off + tagSize csumV3 > data.length then []
    else
      let tag : Jbd2BlockTag :=
        { tBlocknr := be32At data off
          tFlags := be16At data (off + 4)
          tBlocknrHigh := if csumV3 then 0 else be16At data (off + 6) }
      let next := off + tagSize csumV3 + if tag.tFlags &&& jbd2FlagSameUuid = 0 then 16 else 0
      if tag.tFlags &&& jbd2FlagLastTag ≠ 0 then [tag]
      else tag :: parseTags data csumV3 fuel next

def parseDescriptorBlock (csumV3 : Bool) : List Jbd2BlockTag :=
  parseTags data csumV3 data.length 12

def validateDescriptorChecksum : Bool :=
  if !sb.csumV2or3 then true
  else if block.length < 4 then false
  else be32At block (block.length - 4) == blockChecksum block (block.length - 4)

structure Jbd2CommitBlock where
  chksumType : UInt8
  chksum : UInt32

def parseCommitBlock : Jbd2CommitBlock :=
  if data.length ≥ 16 then
    let maybeType := data.getD 12 0
    if (maybeType = jbd2Crc32Chksum ∨ maybeType = jbd2Crc32cChksum) ∧ data.getD 13 0 = 4 then
      ⟨maybeType, if data.length ≥ 20 then be32At data 16 else 0⟩
    else if maybeType ≠ 0 then
      let chksum := be32At data 12
      ⟨if chksum ≠ 0 then jbd2Crc32Chksum else 0, chksum⟩
    else ⟨0, 0⟩
  else ⟨0, 0⟩

def validateCommitChecksum (commit : Jbd2CommitBlock) : Bool :=
  if commit.chksumType = 0 ∨ commit.chksum = 0 then true
  else if commit.chksumType = jbd2Crc32Chksum then true
  else if commit.chksumType = jbd2Crc32cChksum then
    if block.length < 20 then false else commit.chksum == blockChecksum block 16
  else false

def parseRevokeBlock : Except Stop (List UInt64) :=
  if data.length < 16 then .error (.err .ioError)
  else
    let rCount := (be32At data 12).toNat
    if rCount < 12 then .error .panicked
    else .ok (((List.range ((rCount - 12) / 8)).filter fun i => 16 + i * 8 + 8 ≤ data.length).map
      fun i => be64At data (16 + i * 8))

inductive ScanResult where
  | descriptor (sequence : UInt32) (tags : List Jbd2BlockTag)
  | commit (sequence : UInt32)
  | revoke (records : List UInt64)
  | invalidChecksum
  | other
  | ended

def farSequence (hSequence sequence : UInt32) : Bool :=
  (if hSequence ≥ sequence then hSequence - sequence else sequence - hSequence) > 256 &&
    hSequence > 0

def scanJournalBlock (sb : Jbd2Superblock) : Except Stop ScanResult :=
  match parseJbd2Header data 0 with
  | .error e => .error (.err e)
  | .ok header =>
    if header.hMagic ≠ jbd2MagicNumber then .ok .other
    else if farSequence header.hSequence sb.sSequence then .ok .ended
    else if header.hBlocktype = jbd2DescriptorBlock then
      if validateDescriptorChecksum data sb then
        .ok (.descriptor header.hSequence (parseDescriptorBlock data sb.csumV3))
      else .ok .invalidChecksum
    else if header.hBlocktype = jbd2CommitBlock then
      if validateCommitChecksum data (parseCommitBlock data) then .ok (.commit header.hSequence)
      else .ok .invalidChecksum
    else if header.hBlocktype = jbd2RevokeBlock then
      match parseRevokeBlock data with
      | .ok records => .ok (.revoke records)
      | .error e => .error e
    else .ok .other

end Gergios.Ext4
