import Gergios.Ext4.InodeAlloc

/-!
# The inode table

`ext4_read_inode` finds an inode through the descriptor of its group, and so do the calls that write
an inode back. All calls of the callback succeed here. A superblock that `parse_superblock` accepts
comes back from the caller as `ext4_sb_info`, which knows three block sizes only.
-/

namespace Gergios.Ext4

open Lib Nat

structure SbInfo where
  blockSize : UInt32
  blocksCount : UInt64
  inodesCount : UInt64
  blocksPerGroup : UInt32
  inodesPerGroup : UInt32
  inodeSize : UInt16
  descSize : UInt16
  featureIncompat : UInt32
  featureRoCompat : UInt32
  uuid : List UInt8

def logBlockSize (blockSize : UInt32) : Nat :=
  if blockSize = 1024 then 0 else if blockSize = 2048 then 1 else 2

theorem logBlockSize_le (blockSize : UInt32) : logBlockSize blockSize ≤ 16 := by
  rw [logBlockSize]
  split
  · decide
  · split <;> decide

def sbFromSbi (sbi : SbInfo) : Geometry where
  sLogBlockSize := logBlockSize sbi.blockSize
  sLogBlockSize_le := logBlockSize_le sbi.blockSize
  sInodesCount := sbi.inodesCount.toUInt32
  sBlocksCountLo := sbi.blocksCount.toUInt32
  sBlocksCountHi := (sbi.blocksCount >>> 32).toUInt32
  sFirstDataBlock := if sbi.blockSize > 1024 then 0 else 1
  sBlocksPerGroup := sbi.blocksPerGroup
  sInodesPerGroup := sbi.inodesPerGroup
  sRevLevel := 1
  sInodeSize := sbi.inodeSize
  sDescSize := sbi.descSize
  sFeatureIncompat := sbi.featureIncompat
  sFeatureRoCompat := sbi.featureRoCompat
  sUuid := sbi.uuid
  sHashSeed _ := 0

structure DiskInode extends Inode where
  iMode : UInt16
  iUid : UInt16
  iDtime : UInt32
  iGid : UInt16
  iLinksCount : UInt16

structure InodeInfo where
  ino : UInt32
  mode : UInt16
  size : UInt64
  uid : UInt16
  gid : UInt16
  isDir : Bool
  isReg : Bool
  isLnk : Bool
  hasExtents : Bool
  linksCount : UInt16
  blocks : UInt64
  atime : UInt32
  ctime : UInt32
  mtime : UInt32
  dtime : UInt32

def sIfmt : UInt16 := 0xF000

def DiskInode.info (inode : DiskInode) (ino : UInt32) : InodeInfo where
  ino := ino
  mode := inode.iMode
  size := inode.fileSize
  uid := inode.iUid
  gid := inode.iGid
  isDir := inode.iMode &&& sIfmt == 0x4000
  isReg := inode.iMode &&& sIfmt == 0x8000
  isLnk := inode.iMode &&& sIfmt == 0xA000
  hasExtents := inode.hasExtents
  linksCount := inode.iLinksCount
  blocks := inode.blocksCount
  atime := inode.iAtime
  ctime := inode.iCtime
  mtime := inode.iMtime
  dtime := inode.iDtime

structure InodeSlot where
  block : UInt64
  offset : Nat

section Model

variable (sb : Geometry)

def groupDescBlock (group : UInt32) : UInt64 :=
  (if sb.blockSize = 1024 then 2 else 1) + .ofNat (group.toNat / (sb.blockSize / sb.descSize))

def groupDescOffset (group : UInt32) : Nat :=
  group.toNat % (sb.blockSize / sb.descSize) * sb.descSize

def parseGroupDesc (data : List UInt8) : Except Stop GroupDesc :=
  if data.length < sb.descSize then .error (.err .ioError)
  else if data.length < 32 then .error .panicked
  else
    let hi32 off := if 64 ≤ sb.descSize then u32At data off else 0
    let hi16 off := if 64 ≤ sb.descSize then u16At data off else 0
    .ok ⟨u32At data 0, u32At data 4, u32At data 8, u16At data 12, u16At data 14,
      hi32 32, hi32 36, hi32 40, hi16 44, hi16 46⟩

/-- How many bytes `parse_inode` indexes: the fields behind the first 128 are read in steps of four
bytes as far as `i_extra_isize` says. -/
def parsedBytes (data : List UInt8) : Nat :=
  if sb.inodeSize > 128 then max 130 (128 + 4 * min ((u16At data 128).toNat / 4) 8) else 128

def parseInode (data : List UInt8) : Except Stop DiskInode :=
  if data.length < sb.inodeSize then .error (.err .ioError)
  else if data.length < parsedBytes sb data then .error .panicked
  else .ok
    { iMode := u16At data 0
      iUid := u16At data 2
      iSizeLo := u32At data 4
      iAtime := u32At data 8
      iCtime := u32At data 12
      iMtime := u32At data 16
      iDtime := u32At data 20
      iGid := u16At data 24
      iLinksCount := u16At data 26
      iBlocksLo := u32At data 28
      iFlags := u32At data 32
      iBlock := ⟨(data.drop 40).takeD 60 0, List.takeD_length ..⟩
      iSizeHi := u32At data 108
      iBlocksHi := u32At data 116 }

variable (dev : UInt64 → List UInt8)

/-- A buffer of one block, filled by the callback. -/
def readBuf (block : UInt64) : List UInt8 := (dev block).takeD sb.blockSize 0

/-- A block without room for a descriptor makes the code divide by zero. -/
def readGroupDescriptor (group : UInt32) : Except Stop GroupDesc :=
  if sb.blockSize / sb.descSize = 0 then .error .panicked
  else
    let buf := readBuf sb dev (groupDescBlock sb group)
    let off := groupDescOffset sb group
    if off + sb.descSize > buf.length then .error (.err .ioError)
    else parseGroupDesc sb (buf.drop off)

def readInode (groups : List GroupDesc) (ino : UInt32) : Except Stop DiskInode :=
  match groups[(inodeToGroup ino sb).toNat]? with
  | none => .error (.err .notFound)
  | some gd =>
    let inodesPerBlock := sb.blockSize / sb.inodeSize
    let index := (inodeToGroupIndex ino sb).toNat
    if inodesPerBlock = 0 then .error .panicked
    else
      let buf := readBuf sb dev (gd.inodeTable sb + .ofNat (index / inodesPerBlock))
      parseInode sb (buf.drop (index % inodesPerBlock * sb.inodeSize))

/-- The block and the offset in it that `ext4_truncate`, `ext4_link` and `ext4_unlink` compute. -/
def inodeSlot (gd : GroupDesc) (ino : UInt32) : Except Stop InodeSlot :=
  let index := (inodeToGroupIndex ino sb).toNat
  let inodesPerBlock := sb.blockSize / sb.inodeSize
  if inodesPerBlock = 0 then .error .panicked
  else .ok ⟨gd.inodeTable sb + .ofNat (index / inodesPerBlock),
    index % inodesPerBlock * sb.inodeSize⟩

end Model

def ext4ReadInode (sbi : SbInfo) (dev : UInt64 → List UInt8) (ino : UInt32) :
    Except Stop InodeInfo := do
  let sb := sbFromSbi sbi
  let gd ← readGroupDescriptor sb dev (inodeToGroup ino sb)
  let inode ← readInode sb dev [gd] ino
  return inode.info ino

/-- Where the calls that change an inode write it back, after they have read it. -/
def writtenBack (sbi : SbInfo) (dev : UInt64 → List UInt8) (ino : UInt32) :
    Except Stop InodeSlot := do
  let sb := sbFromSbi sbi
  let gd ← readGroupDescriptor sb dev (inodeToGroup ino sb)
  let _ ← readInode sb dev [gd] ino
  inodeSlot sb gd ino

/-- What `parse_superblock` accepts, with inodes that divide a block and descriptors of 32 or 64
bytes. -/
structure SbInfo.Regular (sbi : SbInfo) : Prop where
  block : ∃ k ≤ 16, sbi.blockSize.toNat = 1024 * 2 ^ k
  inode : ∃ k, sbi.inodeSize.toNat = 2 ^ k
  inode_ge : 128 ≤ sbi.inodeSize.toNat
  inode_dvd : sbi.inodeSize.toNat ∣ sbi.blockSize.toNat
  desc : sbi.descSize = 32 ∨ sbi.descSize = 64
  group : 0 < sbi.inodesPerGroup

def IsIno (sb : Geometry) (ino : UInt32) : Prop := 1 ≤ ino ∧ ino ≤ sb.sInodesCount

namespace InodeSlot

variable (sb : Geometry) (a b : InodeSlot)

def start : Nat := a.block.toNat * sb.blockSize + a.offset

def Apart : Prop :=
  a.start sb + sb.inodeSize ≤ b.start sb ∨ b.start sb + sb.inodeSize ≤ a.start sb

def bytes (dev : UInt64 → List UInt8) : List UInt8 := (readBuf sb dev a.block).drop a.offset

end InodeSlot

/-- Every inode is read from where it is written back, and no two overlap. -/
def SlotsAgree (sbi : SbInfo) (dev : UInt64 → List UInt8) : Prop :=
  ∃ slot : UInt32 → InodeSlot,
    (∀ ino, IsIno (sbFromSbi sbi) ino → writtenBack sbi dev ino = .ok (slot ino) ∧
      ∃ inode, parseInode (sbFromSbi sbi) ((slot ino).bytes (sbFromSbi sbi) dev) = .ok inode ∧
        ext4ReadInode sbi dev ino = .ok (inode.info ino)) ∧
    ∀ i j, IsIno (sbFromSbi sbi) i → IsIno (sbFromSbi sbi) j → i ≠ j →
      (slot i).Apart (sbFromSbi sbi) (slot j)

/-! ### In one group -/

/-- What the sizes in use have to satisfy: inodes fill a block, and there are none of 129 to 159
bytes. -/
structure Geometry.Fits (sb : Geometry) : Prop where
  inode : sb.inodeSize ∣ sb.blockSize
  parsed : sb.inodeSize = 128 ∨ 160 ≤ sb.inodeSize
  desc : sb.descSize = 32 ∨ sb.descSize = 64

variable {sb : Geometry} {dev : UInt64 → List UInt8} {gd : GroupDesc} {ino i j : UInt32}

theorem blockSize_ge (sb : Geometry) : 1024 ≤ sb.blockSize := by
  rw [Superblock.blockSize, shiftLeft_eq]
  exact Nat.le_mul_of_pos_right _ (Nat.two_pow_pos _)

theorem length_readBuf (block : UInt64) : (readBuf sb dev block).length = sb.blockSize :=
  List.takeD_length ..

/-- Items of `size` bytes do not cross the end of a block. -/
theorem mod_mul_add_le (x : Nat) {size n : Nat} (hk : n / size ≠ 0) :
    x % (n / size) * size + size ≤ n := by
  rw [← succ_mul]
  exact (Nat.mul_le_mul_right _ (mod_lt x (Nat.pos_of_ne_zero hk))).trans (div_mul_le_self ..)

theorem readGroupDescriptor_ok (h : sb.descSize = 32 ∨ sb.descSize = 64)
    (dev : UInt64 → List UInt8) (group : UInt32) :
    ∃ gd, readGroupDescriptor sb dev group = .ok gd := by
  have hsize := blockSize_ge sb
  have hk : sb.blockSize / sb.descSize ≠ 0 := by
    rcases h with h | h <;> rw [h] <;> omega
  have hoff : groupDescOffset sb group + sb.descSize ≤ sb.blockSize := mod_mul_add_le _ hk
  rw [readGroupDescriptor, if_neg hk]
  dsimp only
  rw [length_readBuf, if_neg (by omega), parseGroupDesc, List.length_drop, length_readBuf,
    if_neg (by omega), if_neg (by omega)]
  exact ⟨_, rfl⟩

theorem parseInode_ok {data : List UInt8} (h : sb.inodeSize = 128 ∨ 160 ≤ sb.inodeSize)
    (hlen : sb.inodeSize ≤ data.length) : ∃ inode, parseInode sb data = .ok inode := by
  have hparsed : parsedBytes sb data ≤ sb.inodeSize := by
    rw [parsedBytes]
    split <;> omega
  rw [parseInode, if_neg (by omega), if_neg (by omega)]
  exact ⟨_, rfl⟩

theorem Geometry.Fits.inodesPerBlock_ne_zero (h : sb.Fits) : sb.blockSize / sb.inodeSize ≠ 0 := by
  have hsize := blockSize_ge sb
  have hpos : 0 < sb.inodeSize := pos_of_dvd_of_pos h.inode (by omega)
  exact (Nat.div_pos (le_of_dvd (by omega) h.inode) hpos).ne'

/-- The slot of an inode in the table of `gd`. -/
def tableSlot (sb : Geometry) (gd : GroupDesc) (ino : UInt32) : InodeSlot :=
  ⟨gd.inodeTable sb + .ofNat ((inodeToGroupIndex ino sb).toNat / (sb.blockSize / sb.inodeSize)),
    (inodeToGroupIndex ino sb).toNat % (sb.blockSize / sb.inodeSize) * sb.inodeSize⟩

theorem inodeSlot_eq (h : sb.Fits) (gd : GroupDesc) (ino : UInt32) :
    inodeSlot sb gd ino = .ok (tableSlot sb gd ino) :=
  if_neg h.inodesPerBlock_ne_zero

theorem tableSlot_offset_le (h : sb.Fits) (gd : GroupDesc) (ino : UInt32) :
    (tableSlot sb gd ino).offset + sb.inodeSize ≤ sb.blockSize :=
  mod_mul_add_le _ h.inodesPerBlock_ne_zero

theorem readInode_eq (h : sb.Fits) (hgroup : inodeToGroup ino sb = 0) :
    readInode sb dev [gd] ino = parseInode sb ((tableSlot sb gd ino).bytes sb dev) := by
  simp only [readInode, hgroup]
  exact if_neg h.inodesPerBlock_ne_zero

theorem InodeSlot.start_add_le {a b : InodeSlot} (ha : a.offset + sb.inodeSize ≤ sb.blockSize)
    (hlt : a.block.toNat < b.block.toNat) : a.start sb + sb.inodeSize ≤ b.start sb := by
  have hmul : a.block.toNat.succ * sb.blockSize ≤ b.block.toNat * sb.blockSize :=
    Nat.mul_le_mul_right _ hlt
  rw [succ_mul] at hmul
  rw [start, start]
  omega

theorem tableSlot_offset_lt
    (hlt : (inodeToGroupIndex i sb).toNat % (sb.blockSize / sb.inodeSize) <
      (inodeToGroupIndex j sb).toNat % (sb.blockSize / sb.inodeSize)) :
    (tableSlot sb gd i).offset + sb.inodeSize ≤ (tableSlot sb gd j).offset := by
  rw [tableSlot, tableSlot, ← succ_mul]
  exact Nat.mul_le_mul_right _ hlt

theorem tableSlot_apart (h : sb.Fits) (hne : inodeToGroupIndex i sb ≠ inodeToGroupIndex j sb) :
    (tableSlot sb gd i).Apart sb (tableSlot sb gd j) := by
  have hi := tableSlot_offset_le h gd i
  have hj := tableSlot_offset_le h gd j
  rcases Nat.lt_trichotomy (tableSlot sb gd i).block.toNat (tableSlot sb gd j).block.toNat with
    hlt | heq | hlt
  · exact .inl (InodeSlot.start_add_le hi hlt)
  · -- In one block the indices have different remainders.
    have hsmall : ∀ x : UInt32, x.toNat / (sb.blockSize / sb.inodeSize) < 2 ^ 64 := fun x =>
      (Nat.div_le_self ..).trans_lt (x.toNat_lt.trans (by decide))
    have hdiv : (inodeToGroupIndex i sb).toNat / (sb.blockSize / sb.inodeSize) =
        (inodeToGroupIndex j sb).toNat / (sb.blockSize / sb.inodeSize) := by
      have hq := congrArg UInt64.toNat ((UInt64.add_right_inj _).mp (UInt64.toNat_inj.mp heq))
      rwa [UInt64.toNat_ofNat_of_lt' (hsmall _), UInt64.toNat_ofNat_of_lt' (hsmall _)] at hq
    have hmod : (inodeToGroupIndex i sb).toNat % (sb.blockSize / sb.inodeSize) ≠
        (inodeToGroupIndex j sb).toNat % (sb.blockSize / sb.inodeSize) := fun hm =>
      hne (UInt32.toNat_inj.mp (by rw [← mod_add_div (UInt32.toNat _), hm, hdiv, mod_add_div]))
    rw [InodeSlot.Apart, InodeSlot.start, InodeSlot.start, heq, Nat.add_assoc, Nat.add_assoc,
      Nat.add_le_add_iff_left, Nat.add_le_add_iff_left]
    exact (Nat.lt_or_gt_of_ne hmod).imp tableSlot_offset_lt tableSlot_offset_lt
  · exact .inr (InodeSlot.start_add_le hj hlt)

theorem toNat_sub_one_lt (h : IsIno sb ino) (hle : sb.sInodesCount ≤ sb.sInodesPerGroup) :
    (ino - 1).toNat < sb.sInodesPerGroup.toNat := by
  have hpos : 1 ≤ ino.toNat := h.1
  have hlast : ino.toNat ≤ sb.sInodesPerGroup.toNat := h.2.trans hle
  rw [toNat_ino_sub_one hpos]
  omega

theorem inodeToGroup_eq_zero (h : IsIno sb ino) (hle : sb.sInodesCount ≤ sb.sInodesPerGroup) :
    inodeToGroup ino sb = 0 := by
  rw [← UInt32.toNat_inj, inodeToGroup, UInt32.toNat_div]
  exact Nat.div_eq_of_lt (toNat_sub_one_lt h hle)

theorem inodeToGroupIndex_eq (h : IsIno sb ino) (hle : sb.sInodesCount ≤ sb.sInodesPerGroup) :
    inodeToGroupIndex ino sb = ino - 1 := by
  rw [← UInt32.toNat_inj, inodeToGroupIndex, UInt32.toNat_mod]
  exact mod_eq_of_lt (toNat_sub_one_lt h hle)

/-! ### The sizes that `sb_from_sbi` passes on -/

variable {sbi : SbInfo}

theorem SbInfo.Regular.blockSize_eq (h : sbi.Regular) :
    (sbFromSbi sbi).blockSize = min sbi.blockSize.toNat 4096 := by
  change 1024 <<< logBlockSize sbi.blockSize = _
  obtain ⟨k, -, hk⟩ := h.block
  rcases k with _ | _ | k
  · have heq : sbi.blockSize = 1024 := UInt32.toNat_inj.mp hk
    rw [heq]
    rfl
  · have heq : sbi.blockSize = 2048 := UInt32.toNat_inj.mp hk
    rw [heq]
    rfl
  · have hge : 4096 ≤ sbi.blockSize.toNat := by
      have hpow : 1 ≤ 2 ^ k := Nat.one_le_two_pow
      rw [hk, pow_add]
      omega
    have hne : ∀ size : UInt32, size.toNat < 4096 → sbi.blockSize ≠ size := by
      rintro _ hlt rfl
      omega
    rw [logBlockSize, if_neg (hne 1024 (by decide)), if_neg (hne 2048 (by decide)),
      min_eq_right hge]
    rfl

theorem SbInfo.Regular.descSize (h : sbi.Regular) :
    (sbFromSbi sbi).descSize = 32 ∨ (sbFromSbi sbi).descSize = 64 := by
  rw [Geometry.descSize, sbFromSbi]
  rcases h.desc with hd | hd
  · rw [hd]
    exact .inl rfl
  · rw [hd]
    exact .inr rfl

theorem SbInfo.Regular.fits (h : sbi.Regular) (hle : sbi.inodeSize ≤ 4096) :
    (sbFromSbi sbi).Fits where
  inode := by
    change sbi.inodeSize.toNat ∣ _
    rw [h.blockSize_eq]
    rcases Nat.le_total sbi.blockSize.toNat 4096 with hsmall | hlarge
    · rw [min_eq_left hsmall]
      exact h.inode_dvd
    · obtain ⟨k, hk⟩ := h.inode
      have hpow : 2 ^ k ≤ 2 ^ 12 := hk ▸ UInt16.le_iff_toNat_le.mp hle
      rw [min_eq_right hlarge, hk]
      exact Nat.pow_dvd_pow 2 ((Nat.pow_le_pow_iff_right (by decide)).mp hpow)
  parsed := by
    change sbi.inodeSize.toNat = 128 ∨ 160 ≤ sbi.inodeSize.toNat
    obtain ⟨k, hk⟩ := h.inode
    have hge := h.inode_ge
    rw [hk] at hge ⊢
    rcases Nat.lt_or_ge k 8 with hlt | hge8
    · have hpow : 2 ^ k ≤ 2 ^ 7 := Nat.pow_le_pow_right (by decide) (by omega)
      omega
    · have hpow : 2 ^ 8 ≤ 2 ^ k := Nat.pow_le_pow_right (by decide) hge8
      omega
  desc := h.descSize

theorem ext4ReadInode_eq (hfits : (sbFromSbi sbi).Fits)
    (hgroup : inodeToGroup ino (sbFromSbi sbi) = 0)
    (hgd : readGroupDescriptor (sbFromSbi sbi) dev 0 = .ok gd) :
    ∃ inode, parseInode (sbFromSbi sbi)
        ((tableSlot (sbFromSbi sbi) gd ino).bytes (sbFromSbi sbi) dev) = .ok inode ∧
      ext4ReadInode sbi dev ino = .ok (inode.info ino) ∧
      writtenBack sbi dev ino = .ok (tableSlot (sbFromSbi sbi) gd ino) := by
  have hlen : (sbFromSbi sbi).inodeSize ≤
      ((tableSlot (sbFromSbi sbi) gd ino).bytes (sbFromSbi sbi) dev).length := by
    have hoff := tableSlot_offset_le hfits gd ino
    rw [InodeSlot.bytes, List.length_drop, length_readBuf]
    omega
  obtain ⟨inode, hparse⟩ := parseInode_ok hfits.parsed hlen
  have hread : readInode _ dev [gd] ino = .ok inode := (readInode_eq hfits hgroup).trans hparse
  refine ⟨inode, hparse, ?_, ?_⟩
  · simp only [ext4ReadInode, hgroup, hgd, bind, Except.bind, hread]
    rfl
  · simp only [writtenBack, hgroup, hgd, bind, Except.bind, hread, inodeSlot_eq hfits]

theorem SbInfo.Regular.slotsAgree (h : sbi.Regular)
    (hle : sbi.inodesCount.toUInt32 ≤ sbi.inodesPerGroup) (hsize : sbi.inodeSize ≤ 4096) :
    SlotsAgree sbi dev := by
  have hfits := h.fits hsize
  obtain ⟨gd, hgd⟩ := readGroupDescriptor_ok hfits.desc dev 0
  refine ⟨tableSlot (sbFromSbi sbi) gd, fun ino hino => ?_, fun i j hi hj hne => ?_⟩
  · obtain ⟨inode, hparse, hread, hwritten⟩ :=
      ext4ReadInode_eq hfits (inodeToGroup_eq_zero hino hle) hgd
    exact ⟨hwritten, inode, hparse, hread⟩
  · refine tableSlot_apart hfits fun heq => hne ?_
    rw [inodeToGroupIndex_eq hi hle, inodeToGroupIndex_eq hj hle] at heq
    exact (UInt32.sub_left_inj 1).mp heq

/-! ### What is not read -/

theorem ext4ReadInode_next_group (h : sbi.Regular) :
    ext4ReadInode sbi dev (sbi.inodesPerGroup + 1) = .error (.err .notFound) := by
  have hgroup : inodeToGroup (sbi.inodesPerGroup + 1) (sbFromSbi sbi) = 1 := by
    rw [inodeToGroup, UInt32.add_sub_cancel, ← UInt32.toNat_inj, UInt32.toNat_div]
    exact Nat.div_self h.group
  obtain ⟨gd, hgd⟩ := readGroupDescriptor_ok h.descSize dev 1
  simp only [ext4ReadInode, readInode, hgroup, hgd]
  rfl

theorem ext4ReadInode_large (h : sbi.Regular) (hsize : 4096 < sbi.inodeSize) :
    ext4ReadInode sbi dev 1 = .error .panicked := by
  have hgroup : inodeToGroup 1 (sbFromSbi sbi) = 0 := by
    rw [← UInt32.toNat_inj, inodeToGroup, UInt32.toNat_div]
    exact Nat.zero_div _
  have hzero : (sbFromSbi sbi).blockSize / (sbFromSbi sbi).inodeSize = 0 := by
    rw [h.blockSize_eq]
    exact Nat.div_eq_of_lt ((min_le_right ..).trans_lt (UInt16.lt_iff_toNat_lt.mp hsize))
  obtain ⟨gd, hgd⟩ := readGroupDescriptor_ok h.descSize dev 0
  simp only [ext4ReadInode, readInode, hgroup, hgd, hzero]
  rfl

theorem SlotsAgree.read_ok (hs : SlotsAgree sbi dev) (hino : IsIno (sbFromSbi sbi) ino)
    {e : Stop} : ext4ReadInode sbi dev ino ≠ .error e := by
  obtain ⟨slot, hslot, -⟩ := hs
  obtain ⟨-, inode, -, hread⟩ := hslot ino hino
  intro herr
  cases hread.symm.trans herr

theorem isIno_next_group (hlt : sbi.inodesPerGroup < sbi.inodesCount.toUInt32) :
    IsIno (sbFromSbi sbi) (sbi.inodesPerGroup + 1) := by
  have hlt' : sbi.inodesPerGroup.toNat < sbi.inodesCount.toUInt32.toNat := hlt
  have hnext : (sbi.inodesPerGroup + 1).toNat = sbi.inodesPerGroup.toNat + 1 := by
    rw [UInt32.toNat_add, UInt32.toNat_one]
    exact mod_eq_of_lt (by have := sbi.inodesCount.toUInt32.toNat_lt; omega)
  constructor <;> rw [UInt32.le_iff_toNat_le, hnext]
  · exact Nat.le_add_left ..
  · exact hlt'

/-- Inodes are read from where they are written back just if they all lie in the first group and
fit a block of 4096 bytes. -/
theorem inode_slots_agree_iff (h : sbi.Regular) (dev : UInt64 → List UInt8) :
    SlotsAgree sbi dev ↔ sbi.inodesCount.toUInt32 ≤ sbi.inodesPerGroup ∧
      (sbi.inodesCount.toUInt32 = 0 ∨ sbi.inodeSize ≤ 4096) := by
  constructor
  · intro hs
    constructor
    · refine UInt32.not_lt.mp fun hlt => ?_
      exact hs.read_ok (isIno_next_group hlt) (ext4ReadInode_next_group h)
    · refine or_iff_not_imp_left.mpr fun hne => UInt16.not_lt.mp fun hlt => ?_
      refine hs.read_ok ⟨UInt32.le_refl 1, ?_⟩ (ext4ReadInode_large h hlt)
      exact Nat.one_le_iff_ne_zero.mpr fun h0 => hne (UInt32.toNat_inj.mp h0)
  · rintro ⟨hle, hzero | hsize⟩
    · have hnone : ∀ ino, ¬IsIno (sbFromSbi sbi) ino := by
        rintro ino ⟨hpos, hlast⟩
        have hlast' : ino ≤ 0 := hzero ▸ hlast
        exact absurd (UInt32.le_trans hpos hlast') (by decide)
      exact ⟨fun _ => ⟨0, 0⟩, fun ino hino => absurd hino (hnone ino),
        fun i j hi => absurd hi (hnone i)⟩
    · exact h.slotsAgree hle hsize

def tableInfo (blockSize : UInt32) (inodeSize : UInt16) (inodesCount : UInt64) : SbInfo :=
  ⟨blockSize, 8192, inodesCount, 8192, 16, inodeSize, 32, 0, 0, []⟩

theorem first_group_slots_agree :
    SlotsAgree (tableInfo 1024 128 16) (fun _ => []) ∧
      SlotsAgree (tableInfo 8192 256 16) (fun _ => []) := by
  constructor
  · exact (inode_slots_agree_iff ⟨⟨0, by decide, rfl⟩, ⟨7, rfl⟩, by decide, ⟨8, rfl⟩, .inl rfl,
      by decide⟩ _).mpr ⟨by decide, .inr (by decide)⟩
  · exact (inode_slots_agree_iff ⟨⟨3, by decide, rfl⟩, ⟨8, rfl⟩, by decide, ⟨32, rfl⟩, .inl rfl,
      by decide⟩ _).mpr ⟨by decide, .inr (by decide)⟩

/-- The first inode of the second group is not found, and inodes that fill a block of 8192 bytes
make the code divide by zero. -/
theorem second_group_not_found :
    ext4ReadInode (tableInfo 1024 128 32) (fun _ => []) 17 = .error (.err .notFound) ∧
    ¬SlotsAgree (tableInfo 1024 128 32) (fun _ => []) ∧
    ext4ReadInode (tableInfo 8192 8192 16) (fun _ => []) 1 = .error .panicked ∧
    ¬SlotsAgree (tableInfo 8192 8192 16) (fun _ => []) := by
  have hnext : ext4ReadInode (tableInfo 1024 128 32) (fun _ => []) 17 = .error (.err .notFound) :=
    ext4ReadInode_next_group ⟨⟨0, by decide, rfl⟩, ⟨7, rfl⟩, by decide, ⟨8, rfl⟩, .inl rfl,
      by decide⟩
  have hlarge : ext4ReadInode (tableInfo 8192 8192 16) (fun _ => []) 1 = .error .panicked :=
    ext4ReadInode_large ⟨⟨3, by decide, rfl⟩, ⟨13, rfl⟩, by decide, ⟨1, rfl⟩, .inl rfl,
      by decide⟩ (by decide)
  exact ⟨hnext, fun hs => hs.read_ok ⟨by decide, by decide⟩ hnext, hlarge,
    fun hs => hs.read_ok ⟨by decide, by decide⟩ hlarge⟩

end Gergios.Ext4
