import Gergios.Ext4.Insert
import Gergios.Ext4.JournalFormat

/-!
# Reading back the blocks of a journal
-/

namespace Gergios.Ext4

open Lib List

variable {block data : List UInt8} {off : Nat} {csumV3 : Bool}
  {blockNr : UInt64} {flags : UInt16} {fuel : Nat} {tags : List (UInt64 × UInt16)}

theorem length_zeroBlock : zeroBlock.length = jbd2BlockSize := length_replicate

/-! ### Checksums -/

section

variable (h : off + 4 ≤ block.length)

include h

theorem length_writeChecksum : (writeChecksum block off).length = block.length :=
  length_splice h

theorem agree_writeChecksum {lo hi : Nat} (hout : hi ≤ off ∨ off + 4 ≤ lo) :
    Agree block (writeChecksum block off) lo hi :=
  agree_splice h hout

theorem blockChecksum_writeChecksum :
    blockChecksum (writeChecksum block off) off = blockChecksum block off := by
  unfold blockChecksum writeChecksum
  have hlen : (be32 0).length = (be32 (blockChecksum block off)).length := rfl
  rw [splice_splice h hlen]

theorem be32At_writeChecksum :
    be32At (writeChecksum block off) off = blockChecksum (writeChecksum block off) off := by
  rw [blockChecksum_writeChecksum h]
  exact (stands_splice h).be32At

end

/-! ### Headers -/

theorem length_jbd2HeaderBytes (blocktype sequence : UInt32) :
    (jbd2HeaderBytes blocktype sequence).length = 12 := rfl

theorem parseJbd2Header_of_stands {blocktype sequence : UInt32} (hlen : 12 ≤ data.length)
    (h : Stands data 0 (jbd2HeaderBytes blocktype sequence)) :
    parseJbd2Header data 0 = .ok ⟨jbd2MagicNumber, blocktype, sequence⟩ := by
  obtain ⟨h, h8⟩ := h.of_append
  obtain ⟨h0, h4⟩ := h.of_append
  unfold parseJbd2Header
  rw [if_neg (by omega), h0.be32At]
  have e4 : be32At data (0 + 4) = blocktype := h4.be32At
  have e8 : be32At data (0 + 8) = sequence := h8.be32At
  rw [e4, e8]

/-! ### Descriptor blocks -/

theorem or_and_right (x y z : UInt16) : (x ||| y) &&& z = (x &&& z) ||| (y &&& z) := by
  apply UInt16.eq_of_toBitVec_eq
  apply BitVec.eq_of_getLsbD_eq
  simp [Bool.and_or_distrib_right]

theorem length_tagBytes (blockNr : UInt64) (flags : UInt16) :
    (tagBytes csumV3 blockNr flags).length = tagSize csumV3 := by
  cases csumV3 <;> rfl

def tagOf (csumV3 : Bool) (blockNr : UInt64) (flags : UInt16) : Jbd2BlockTag :=
  ⟨blockNr.toUInt32, flags, if csumV3 then 0 else (blockNr >>> 32).toUInt16⟩

theorem tag_of_stands (h : Stands data off (tagBytes csumV3 blockNr flags)) :
    (⟨be32At data off, be16At data (off + 4), if csumV3 then 0 else be16At data (off + 6)⟩ :
      Jbd2BlockTag) = tagOf csumV3 blockNr flags := by
  obtain ⟨h, h6⟩ := h.of_append
  obtain ⟨h0, h4⟩ := h.of_append
  have e4 : be16At data (off + 4) = flags := h4.be16At
  rw [h0.be32At, e4, tagOf]
  cases csumV3 with
  | true => rfl
  | false =>
    have e6 : be16At data (off + 6) = (blockNr >>> 32).toUInt16 := h6.be16At
    simp only [e6]

theorem blockNumber_tagOf (blockNr : UInt64) (flags : UInt16) :
    (tagOf csumV3 blockNr flags).blockNumber = blockNr ↔
      blockNr.toNat < if csumV3 then 2 ^ 32 else 2 ^ 48 := by
  have hlt := blockNr.toNat_lt
  rw [← UInt64.toNat_inj, Jbd2BlockTag.blockNumber, tagOf, toNat_lo_or_hi _ (by
    exact (UInt16.toNat_lt _).trans (by decide)), UInt64.toNat_toUInt32, UInt16.toNat_toUInt64]
  cases csumV3 with
  | true =>
    rw [if_pos rfl, if_pos rfl, UInt16.toNat_zero]
    omega
  | false =>
    rw [if_neg (by decide), if_neg (by decide), UInt64.toNat_toUInt16, toNat_hi]
    omega

def Jbd2BlockTag.entry (tag : Jbd2BlockTag) : UInt64 × UInt16 := (tag.blockNumber, tag.tFlags)

theorem entry_tagOf (blockNr : UInt64) (flags : UInt16) :
    (tagOf csumV3 blockNr flags).entry = (blockNr, flags) ↔
      blockNr.toNat < if csumV3 then 2 ^ 32 else 2 ^ 48 := by
  rw [← blockNumber_tagOf blockNr flags, Jbd2BlockTag.entry, Prod.mk.injEq]
  exact and_iff_left rfl

/-- The tags of all blocks, with the flags that `serialize_descriptor_block` adds. -/
def markedTags : List (UInt64 × UInt16) → List (UInt64 × UInt16)
  | [] => []
  | [(blockNr, flags)] => [(blockNr, flags ||| jbd2FlagSameUuid ||| jbd2FlagLastTag)]
  | (blockNr, flags) :: rest => (blockNr, flags ||| jbd2FlagSameUuid) :: markedTags rest

theorem length_markedTags (tags : List (UInt64 × UInt16)) :
    (markedTags tags).length = tags.length := by
  fun_induction markedTags tags with
  | case1 => rfl
  | case2 => rfl
  | case3 _ _ _ _ ih => rw [length_cons, ih, length_cons]

/-- The tags end before the bytes of the checksum, also where none is written. -/
theorem length_descriptorTags (tags : List (UInt64 × UInt16)) (halign : csumV3 = true ∨ off % 8 = 4)
    (h : off + tagSize csumV3 + 4 ≤ jbd2BlockSize) :
    off + (descriptorTags csumV3 off tags).length + 4 ≤ jbd2BlockSize := by
  induction tags generalizing off with
  | nil =>
    rw [descriptorTags, length_nil]
    omega
  | cons tag rest ih =>
    rw [descriptorTags]
    split
    · rw [length_tagBytes]
      exact h
    · rename_i hmore
      have hnext := (not_or.mp hmore).2
      rw [length_append, length_tagBytes, ← Nat.add_assoc off]
      cases csumV3 with
      | true => exact ih (.inl rfl) (not_lt.mp hnext)
      | false =>
        change ¬off + 8 + 8 + 0 > 1024 at hnext
        have := halign.resolve_left (by decide)
        exact ih (.inr (by change (off + 8) % 8 = 4; omega))
          (by change off + 8 + 8 + 4 ≤ 1024; omega)

theorem parseTags_of_stands
    (h : Stands data off (tagBytes csumV3 blockNr (flags ||| jbd2FlagSameUuid)))
    (hlen : off + tagSize csumV3 ≤ data.length) (hfuel : 0 < fuel) :
    parseTags data csumV3 fuel off =
      if flags &&& jbd2FlagLastTag ≠ 0 then [tagOf csumV3 blockNr (flags ||| jbd2FlagSameUuid)]
      else tagOf csumV3 blockNr (flags ||| jbd2FlagSameUuid) ::
        parseTags data csumV3 (fuel - 1) (off + tagSize csumV3) := by
  obtain ⟨fuel, rfl⟩ := Nat.exists_eq_succ_of_ne_zero hfuel.ne'
  have htag := tag_of_stands h
  have hflags : be16At data (off + 4) = flags ||| jbd2FlagSameUuid :=
    congrArg Jbd2BlockTag.tFlags htag
  have hsame : (flags ||| jbd2FlagSameUuid) &&& jbd2FlagSameUuid ≠ 0 := by
    rw [or_and_right]
    exact fun h => absurd (UInt16.or_eq_zero_iff.mp h).2 (by decide)
  have hlast : (flags ||| jbd2FlagSameUuid) &&& jbd2FlagLastTag = flags &&& jbd2FlagLastTag := by
    rw [or_and_right]
    exact UInt16.or_zero
  rw [hflags] at htag
  rw [parseTags, if_neg (by omega)]
  simp only [hflags, htag, hlast, if_neg hsame, Nat.add_zero, Nat.succ_eq_add_one,
    Nat.add_sub_cancel]

theorem parseTags_last (h : Stands data off
      (tagBytes csumV3 blockNr (flags ||| jbd2FlagSameUuid ||| jbd2FlagLastTag)))
    (hlen : off + tagSize csumV3 ≤ data.length) (hfuel : 0 < fuel) :
    parseTags data csumV3 fuel off =
      [tagOf csumV3 blockNr (flags ||| jbd2FlagSameUuid ||| jbd2FlagLastTag)] := by
  rw [UInt16.or_assoc, UInt16.or_comm jbd2FlagSameUuid, ← UInt16.or_assoc] at h ⊢
  rw [parseTags_of_stands h hlen hfuel, if_pos]
  rw [or_and_right]
  exact fun h => absurd (UInt16.or_eq_zero_iff.mp h).2 (by decide)

theorem tagSize_pos (csumV3 : Bool) : 0 < tagSize csumV3 := by cases csumV3 <;> decide

/-- All tags are read back exactly if they have room, the block numbers fit into a tag, and no tag
but the last one says that it is the last. -/
theorem parseTags_eq_iff (hne : tags ≠ [])
    (hroom : off + tagSize csumV3 + tailReserve csumV3 ≤ jbd2BlockSize)
    (hstand : Stands data off (descriptorTags csumV3 off tags))
    (hlen : off + (descriptorTags csumV3 off tags).length ≤ data.length)
    (hfuel : (descriptorTags csumV3 off tags).length ≤ fuel) :
    (parseTags data csumV3 fuel off).map Jbd2BlockTag.entry = markedTags tags ↔
      off + tagSize csumV3 * tags.length + tailReserve csumV3 ≤ jbd2BlockSize ∧
      (∀ t ∈ tags, t.1.toNat < if csumV3 then 2 ^ 32 else 2 ^ 48) ∧
      ∀ t ∈ tags.dropLast, t.2 &&& jbd2FlagLastTag = 0 := by
  induction tags generalizing off fuel with
  | nil => exact absurd rfl hne
  | cons tag rest ih =>
    have hsize := tagSize_pos csumV3
    rw [descriptorTags] at hstand hlen hfuel
    cases rest with
    | nil =>
      rw [if_pos (.inl rfl)] at hstand
      rw [if_pos (.inl rfl), length_tagBytes] at hlen hfuel
      rw [parseTags_last hstand hlen (by omega), map_singleton, markedTags, singleton_inj,
        entry_tagOf]
      simp [hroom]
    | cons u rest =>
      rw [markedTags.eq_3 _ _ _ (by simp), dropLast_cons_of_ne_nil (by simp),
        @forall_mem_cons _ _ tag (u :: rest), @forall_mem_cons _ _ tag (dropLast _), length_cons,
        Nat.mul_succ]
      split at hstand
      · -- the writer stops here
        rename_i hfull
        rw [if_pos hfull, length_tagBytes] at hlen hfuel
        rw [parseTags_last hstand hlen (by omega)]
        refine iff_of_false (fun h => ?_) fun h => ?_
        · cases rest <;> simp [markedTags] at h
        · have := hfull.resolve_left (by simp)
          have := Nat.le_mul_of_pos_right (tagSize csumV3)
            (length_pos_of_ne_nil (cons_ne_nil u rest))
          omega
      · rename_i hmore
        rw [if_neg hmore, length_append, length_tagBytes] at hlen hfuel
        obtain ⟨h0, hrest⟩ := hstand.of_append
        rw [length_tagBytes] at hrest
        rw [parseTags_of_stands h0 (by omega) (by omega)]
        split
        · -- the reader stops here
          rename_i hlast
          refine iff_of_false (fun h => ?_) fun h => hlast h.2.2.1
          cases rest <;> simp [markedTags] at h
        · rename_i hlast
          rw [map_cons, cons.injEq, entry_tagOf,
            ih (by simp) (by rw [not_or] at hmore; omega) hrest (by omega) (by omega)]
          rw [not_not] at hlast
          simp only [hlast, true_and]
          rw [Nat.add_comm (_ * _), ← Nat.add_assoc off]
          exact and_left_comm.trans (and_congr_right fun _ => and_assoc.symm)

variable (csumV3) in
theorem serializeDescriptorBlock_spec (sequence : UInt32)
    (hne : tags ≠ []) : (serializeDescriptorBlock sequence tags csumV3).length = jbd2BlockSize ∧
    Stands (serializeDescriptorBlock sequence tags csumV3) 0
      (jbd2HeaderBytes jbd2DescriptorBlock sequence ++ descriptorTags csumV3 12 tags) ∧
    be32At (serializeDescriptorBlock sequence tags csumV3) (jbd2BlockSize - 4) = if csumV3 then
      blockChecksum (serializeDescriptorBlock sequence tags csumV3) (jbd2BlockSize - 4) else 0 := by
  have htags : 12 + (descriptorTags csumV3 12 tags).length + 4 ≤ jbd2BlockSize :=
    length_descriptorTags tags (.inr rfl) (by cases csumV3 <;> decide)
  have hfits : 0 + (jbd2HeaderBytes jbd2DescriptorBlock sequence ++
      descriptorTags csumV3 12 tags).length ≤ zeroBlock.length := by
    rw [length_append, length_jbd2HeaderBytes, length_zeroBlock]
    omega
  have hlen := (length_splice hfits).trans length_zeroBlock
  unfold serializeDescriptorBlock
  cases csumV3 with
  | false =>
    have hzero : Stands zeroBlock (jbd2BlockSize - 4) (be32 0) := by
      unfold Stands
      decide +kernel
    rw [if_neg (by simp)]
    refine ⟨hlen, stands_splice hfits, (hzero.congr (agree_splice hfits (.inr ?_))).be32At⟩
    rw [length_append, length_jbd2HeaderBytes]
    omega
  | true =>
    have hroom : jbd2BlockSize - 4 + 4 ≤ (splice zeroBlock 0 (jbd2HeaderBytes jbd2DescriptorBlock
        sequence ++ descriptorTags true 12 tags)).length := by
      rw [hlen]
      decide
    rw [if_pos ⟨rfl, hne⟩]
    refine ⟨(length_writeChecksum hroom).trans hlen, ?_, be32At_writeChecksum hroom⟩
    refine (stands_splice hfits).congr (agree_writeChecksum hroom (.inl ?_))
    rw [length_append, length_jbd2HeaderBytes]
    omega

theorem parseDescriptorBlock_eq_iff (csumV3 : Bool) (sequence : UInt32) (hne : tags ≠ []) :
    (parseDescriptorBlock (serializeDescriptorBlock sequence tags csumV3) csumV3).map
        Jbd2BlockTag.entry = markedTags tags ↔
      12 + tagSize csumV3 * tags.length + tailReserve csumV3 ≤ jbd2BlockSize ∧
      (∀ t ∈ tags, t.1.toNat < if csumV3 then 2 ^ 32 else 2 ^ 48) ∧
      ∀ t ∈ tags.dropLast, t.2 &&& jbd2FlagLastTag = 0 := by
  obtain ⟨hlen, hstand, -⟩ := serializeDescriptorBlock_spec csumV3 sequence hne
  have htags : 12 + (descriptorTags csumV3 12 tags).length + 4 ≤ jbd2BlockSize :=
    length_descriptorTags tags (.inr rfl) (by cases csumV3 <;> decide)
  exact parseTags_eq_iff hne (by cases csumV3 <;> decide)
    (by simpa [length_jbd2HeaderBytes] using hstand.of_append.2) (by omega) (by omega)

/-! ### What the scan makes of the blocks -/

variable {sb : Jbd2Superblock} {sequence : UInt32}

/-- With `CSUM_V2` alone no checksum is written, and only a block whose checksum is 0 passes. -/
theorem validateDescriptorChecksum_iff (hne : tags ≠ []) :
    validateDescriptorChecksum (serializeDescriptorBlock sequence tags sb.csumV3) sb = true ↔
      (sb.csumV2or3 = true → sb.csumV3 = true ∨
        blockChecksum (serializeDescriptorBlock sequence tags sb.csumV3)
          (jbd2BlockSize - 4) = 0) := by
  obtain ⟨hlen, -, hsum⟩ := serializeDescriptorBlock_spec sb.csumV3 sequence hne
  rw [validateDescriptorChecksum, hlen, hsum]
  cases sb.csumV2or3 with
  | false => simp
  | true =>
    rw [if_neg (by decide), if_neg (by decide), beq_iff_eq]
    split
    · simp [*]
    · simp [*, eq_comm]

theorem scan_descriptor (hne : tags ≠ []) (hfar : farSequence sequence sb.sSequence = false)
    (hcsum : sb.csumV2or3 = true → sb.csumV3 = true) :
    scanJournalBlock (serializeDescriptorBlock sequence tags sb.csumV3) sb =
      .ok (.descriptor sequence
        (parseDescriptorBlock (serializeDescriptorBlock sequence tags sb.csumV3) sb.csumV3)) := by
  obtain ⟨hlen, hstand, -⟩ := serializeDescriptorBlock_spec sb.csumV3 sequence hne
  have hvalid : validateDescriptorChecksum (serializeDescriptorBlock sequence tags sb.csumV3) sb =
    true := (validateDescriptorChecksum_iff hne).mpr fun hv => .inl (hcsum hv)
  unfold scanJournalBlock
  rw [parseJbd2Header_of_stands (by rw [hlen]; decide) hstand.of_append.1]
  dsimp only
  rw [if_neg (not_not.mpr rfl), if_neg (by rw [hfar]; decide), if_pos rfl, if_pos hvalid]

theorem scan_data (hlen : 12 ≤ data.length) (h : be32At data 0 ≠ jbd2MagicNumber) :
    scanJournalBlock data sb = .ok .other := by
  unfold scanJournalBlock parseJbd2Header
  rw [if_neg (by omega)]
  exact if_pos h

theorem validateCommitChecksum_parse (hlen : data.length = jbd2BlockSize)
    (h : data.getD 12 0 = 0 ∨ data.getD 12 0 = jbd2Crc32cChksum ∧ data.getD 13 0 = 4 ∧
      be32At data 16 = blockChecksum data 16) :
    validateCommitChecksum data (parseCommitBlock data) = true := by
  have h16 : data.length ≥ 16 := by rw [hlen]; decide
  have h20 : data.length ≥ 20 := by rw [hlen]; decide
  unfold parseCommitBlock
  rw [if_pos h16]
  obtain h0 | ⟨htype, hsize, hsum⟩ := h
  · rw [h0]
    rfl
  · rw [htype, hsize, if_pos ⟨.inr rfl, rfl⟩, if_pos h20, hsum]
    unfold validateCommitChecksum
    split
    · rfl
    · have hne : ¬ jbd2Crc32cChksum = jbd2Crc32Chksum := by decide
      rw [if_neg hne, if_pos rfl, if_neg (by omega)]
      exact beq_self_eq_true _

/-- A block with the header of a commit block and, where it has a checksum, the right one. -/
structure IsCommit (sequence : UInt32) (block : List UInt8) : Prop where
  length : block.length = jbd2BlockSize
  header : Stands block 0 (jbd2HeaderBytes jbd2CommitBlock sequence)
  checksum : block.getD 12 0 = 0 ∨ block.getD 12 0 = jbd2Crc32cChksum ∧ block.getD 13 0 = 4 ∧
    be32At block 16 = blockChecksum block 16

theorem isCommit_writeChecksum (hlen : block.length = jbd2BlockSize)
    (hheader : Stands block 0 (jbd2HeaderBytes jbd2CommitBlock sequence))
    (htype : Stands block 12 [jbd2Crc32cChksum, 4]) :
    IsCommit sequence (writeChecksum block 16) := by
  have h16 : 16 + 4 ≤ block.length := by
    rw [hlen]
    decide
  have hag : Agree block (writeChecksum block 16) 0 16 := agree_writeChecksum h16 (.inl le_rfl)
  have htype' : Stands (writeChecksum block 16) 12 [jbd2Crc32cChksum, 4] :=
    htype.congr (hag.mono (Nat.zero_le _) (by decide))
  constructor
  · exact (length_writeChecksum h16).trans hlen
  · exact hheader.congr (hag.mono le_rfl (by rw [length_jbd2HeaderBytes]; decide))
  · exact .inr ⟨htype' 0 (by decide), htype' 1 (by decide), be32At_writeChecksum h16⟩

theorem isCommit_serializeCommitBlock (sequence : UInt32) :
    IsCommit sequence (serializeCommitBlock sequence csumV3) := by
  have hzero : 0 + (jbd2HeaderBytes jbd2CommitBlock sequence).length ≤ zeroBlock.length := by
    rw [length_zeroBlock, length_jbd2HeaderBytes]
    decide
  have hlen := (length_splice hzero).trans length_zeroBlock
  have hstand := stands_splice hzero
  unfold serializeCommitBlock
  cases csumV3 with
  | false =>
    refine ⟨hlen, hstand, .inl ?_⟩
    rw [if_neg (by decide), getD_splice hzero, length_jbd2HeaderBytes, if_neg (by decide)]
    decide
  | true =>
    generalize splice zeroBlock 0 (jbd2HeaderBytes jbd2CommitBlock sequence) = block
      at hlen hstand ⊢
    have h12 : 12 + [jbd2Crc32cChksum, 4].length ≤ block.length := by
      rw [hlen]
      decide
    apply isCommit_writeChecksum
    · rw [length_splice h12, hlen]
    · exact hstand.congr (agree_splice h12 (.inl (by rw [length_jbd2HeaderBytes])))
    · exact stands_splice h12

theorem isCommit_setCommitTimestamp (sec : UInt64) (nsec : UInt32) (h : IsCommit sequence block) :
    IsCommit sequence (setCommitTimestamp block sec nsec) := by
  unfold setCommitTimestamp
  split
  · exact h
  split
  · rename_i htype
    have h20 : 20 + (be64 sec ++ be32 nsec).length ≤ block.length := by
      have hlen : (be64 sec ++ be32 nsec).length = 12 := rfl
      rw [h.length, hlen]
      decide
    have hag : Agree block (splice block 20 (be64 sec ++ be32 nsec)) 0 20 :=
      agree_splice h20 (.inl le_rfl)
    apply isCommit_writeChecksum
    · rw [length_splice h20, h.length]
    · exact h.header.congr (hag.mono le_rfl (by rw [length_jbd2HeaderBytes]; decide))
    · have hblock : Stands block 12 [jbd2Crc32cChksum, 4]
        | 0, _ => htype.1
        | 1, _ => htype.2
      exact hblock.congr (hag.mono (Nat.zero_le _) (by decide))
  · exact h

/-! ### Which transactions can be read back -/

section

variable (sb : Jbd2Superblock) (sequence : UInt32)

/-- The readers accept the blocks that `journal_commit` writes around the data, with all tags. -/
def ReadsBack (tags : List (UInt64 × UInt16)) : Prop :=
  let descriptor := serializeDescriptorBlock sequence tags sb.csumV3
  let commit := setCommitTimestamp (serializeCommitBlock sequence sb.csumV3) 0 0
  validateDescriptorChecksum descriptor sb = true ∧
  validateCommitChecksum commit (parseCommitBlock commit) = true ∧
  (parseDescriptorBlock descriptor sb.csumV3).map Jbd2BlockTag.entry = markedTags tags

structure Recordable (tags : List (UInt64 × UInt16)) : Prop where
  csum : sb.csumV2or3 = true → sb.csumV3 = true ∨
    blockChecksum (serializeDescriptorBlock sequence tags sb.csumV3) (jbd2BlockSize - 4) = 0
  room : 12 + tagSize sb.csumV3 * tags.length + tailReserve sb.csumV3 ≤ jbd2BlockSize
  dest : ∀ t ∈ tags, t.1.toNat < if sb.csumV3 then 2 ^ 32 else 2 ^ 48
  flags : ∀ t ∈ tags.dropLast, t.2 &&& jbd2FlagLastTag = 0

theorem transaction_reads_back_iff (hne : tags ≠ []) :
    ReadsBack sb sequence tags ↔ Recordable sb sequence tags := by
  have hcommit : IsCommit sequence
      (setCommitTimestamp (serializeCommitBlock sequence sb.csumV3) 0 0) :=
    isCommit_setCommitTimestamp 0 0 (isCommit_serializeCommitBlock sequence)
  have hvalid := validateCommitChecksum_parse hcommit.length hcommit.checksum
  rw [ReadsBack, parseDescriptorBlock_eq_iff _ _ hne, validateDescriptorChecksum_iff hne]
  constructor
  · rintro ⟨hcsum, -, hroom, hdest, hflags⟩
    exact ⟨hcsum, hroom, hdest, hflags⟩
  · intro h
    exact ⟨h.csum, hvalid, h.room, h.dest, h.flags⟩

def tagSb (incompat : UInt32) : Jbd2Superblock :=
  { hSequence := 1, sBlocksize := 1024, sMaxlen := 32, sFirst := 1, sSequence := 1, sStart := 0,
    sErrno := 0, sFeatureCompat := 0, sFeatureIncompat := incompat, sFeatureRoCompat := 0,
    sUuid := List.replicate 16 0, sNrUsers := 1, sMaxTransaction := 0, sMaxTransData := 0,
    sCommitInterval := 0 }

/-- Three tags with the checksums of version 3, and as many as a block holds without checksums. -/
theorem tags_read_back :
    ReadsBack (tagSb jbd2FeatureIncompatCsumV3) 1 [(7, 0), (9, 0), (4000, jbd2FlagDeleted)] ∧
      ReadsBack (tagSb 0) 1 (replicate 126 (7, 0)) := by
  constructor
  · have hcsum : (tagSb jbd2FeatureIncompatCsumV3).csumV3 = true := by decide
    exact (transaction_reads_back_iff _ 1 (cons_ne_nil _ _)).mpr
      ⟨fun _ => .inl hcsum, by decide, by simp [hcsum], by simp⟩
  · have hcsum : (tagSb 0).csumV3 = false := by decide
    have hne : replicate 126 ((7, 0) : UInt64 × UInt16) ≠ [] := cons_ne_nil _ _
    refine (transaction_reads_back_iff _ 1 hne).mpr
      ⟨fun h => ?_, ?_, fun t ht => ?_, fun t ht => ?_⟩
    · exact absurd h (by decide)
    · rw [length_replicate]
      decide
    · simp [eq_of_mem_replicate ht, hcsum]
    · simp [eq_of_mem_replicate ((dropLast_sublist _).subset ht)]

/-- The 127th tag has no room in the descriptor block. -/
theorem full_descriptor_loses_tags : ¬ReadsBack (tagSb 0) 1 (replicate 127 (7, 0)) := by
  intro h
  have h := (parseDescriptorBlock_eq_iff _ _ (by simp)).mp h.2.2
  exact absurd h.1 (by rw [length_replicate]; decide)

end

theorem scan_commit (h : IsCommit sequence data)
    (hfar : farSequence sequence sb.sSequence = false) :
    scanJournalBlock data sb = .ok (.commit sequence) := by
  have hvalid := validateCommitChecksum_parse h.length h.checksum
  unfold scanJournalBlock
  rw [parseJbd2Header_of_stands (by rw [h.length]; decide) h.header]
  dsimp only
  have hne : ¬ jbd2CommitBlock = jbd2DescriptorBlock := by decide
  rw [if_neg (not_not.mpr rfl), if_neg (by rw [hfar]; decide), if_neg hne, if_pos rfl,
    if_pos hvalid]

/-! ### The superblock -/

theorem scan_superblock {sb' : Jbd2Superblock} (h : parseJournalSuperblock data = .ok sb') :
    scanJournalBlock data sb = .ok .other ∨ scanJournalBlock data sb = .ok .ended := by
  unfold parseJournalSuperblock at h
  unfold scanJournalBlock
  split at h
  · exact nomatch h
  cases hheader : parseJbd2Header data 0 with
  | error e =>
    rw [hheader] at h
    exact nomatch h
  | ok header =>
    rw [hheader] at h
    dsimp only at h ⊢
    split at h
    · exact nomatch h
    rename_i hmagic
    split at h
    · exact nomatch h
    rw [if_neg hmagic]
    split
    · exact .inr rfl
    left
    have hother : header.hBlocktype = jbd2SuperblockV1 ∨
        header.hBlocktype = jbd2SuperblockV2 := by tauto
    obtain ht | ht := hother <;> rw [ht] <;> rfl

theorem length_jbd2SuperblockBytes (hsb : sb.sUuid.length = 16) :
    (jbd2SuperblockBytes sb).length = 80 := by
  rw [jbd2SuperblockBytes, length_append, length_append, hsb]
  rfl

theorem parseJournalSuperblock_serialize (hsb : sb.sUuid.length = 16) :
    parseJournalSuperblock (serializeJournalSuperblock sb) = .ok sb := by
  have hfits : 0 + (jbd2SuperblockBytes sb).length ≤ zeroBlock.length := by
    rw [length_jbd2SuperblockBytes hsb, length_zeroBlock]
    decide
  have hlen := (length_splice hfits).trans length_zeroBlock
  obtain ⟨h, h64⟩ := (stands_splice hfits).of_append
  obtain ⟨h, h48⟩ := h.of_append
  obtain ⟨h0, h12⟩ := h.of_append
  unfold serializeJournalSuperblock
  generalize splice zeroBlock 0 (jbd2SuperblockBytes sb) = data at hlen h0 h12 h48 h64 ⊢
  have huuid : bytesAt data 48 16 = sb.sUuid := by
    have hbytes : Stands data 48 sb.sUuid := h48
    rw [← hsb]
    apply hbytes.bytesAt
    rw [hsb, hlen]
    decide
  have w12 (i : Nat) (hi : i < 9) := h12.be32At_flatMap hi
  have h64' : Stands data 64 ([sb.sNrUsers, sb.sMaxTransaction, sb.sMaxTransData,
      sb.sCommitInterval].flatMap be32) := by
    rw [length_append, hsb] at h64
    exact h64
  have w64 (i : Nat) (hi : i < 4) := h64'.be32At_flatMap hi
  have e12 : be32At data 12 = sb.sBlocksize := w12 0 (by decide)
  have e16 : be32At data 16 = sb.sMaxlen := w12 1 (by decide)
  have e20 : be32At data 20 = sb.sFirst := w12 2 (by decide)
  have e24 : be32At data 24 = sb.sSequence := w12 3 (by decide)
  have e28 : be32At data 28 = sb.sStart := w12 4 (by decide)
  have e32 : be32At data 32 = sb.sErrno := w12 5 (by decide)
  have e36 : be32At data 36 = sb.sFeatureCompat := w12 6 (by decide)
  have e40 : be32At data 40 = sb.sFeatureIncompat := w12 7 (by decide)
  have e44 : be32At data 44 = sb.sFeatureRoCompat := w12 8 (by decide)
  have e64 : be32At data 64 = sb.sNrUsers := w64 0 (by decide)
  have e68 : be32At data 68 = sb.sMaxTransaction := w64 1 (by decide)
  have e72 : be32At data 72 = sb.sMaxTransData := w64 2 (by decide)
  have e76 : be32At data 76 = sb.sCommitInterval := w64 3 (by decide)
  rw [parseJournalSuperblock, if_neg (by omega),
    parseJbd2Header_of_stands (by rw [hlen]; decide) h0]
  dsimp only
  rw [if_neg (not_not.mpr rfl), if_neg (fun h => h.2 rfl), huuid, e12, e16, e20, e24, e28, e32,
    e36, e40, e44, e64, e68, e72, e76]

end Gergios.Ext4
