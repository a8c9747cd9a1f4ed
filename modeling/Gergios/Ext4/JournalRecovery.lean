import Mathlib.Data.Nat.ModEq
import Gergios.Ext4.JournalScan

/-!
# Recovery after a crash

A run opens a clean journal, starts and commits transactions and checkpoints them. The power goes
between two calls or inside one. A transaction is committed once its call has returned.
-/

namespace Gergios.Ext4

open Lib Function List Nat UInt32

/-! ### Transactions -/

structure Tx where
  sequence : UInt32
  start : UInt32
  blocks : List LogBlock

namespace Tx

def writes (t : Tx) : List (Nat × List UInt8) :=
  t.blocks.map fun b => (b.dest.toNat, blockImage b.flags b.data)

def buffers (csumV3 : Bool) (t : Tx) : List (List UInt8) :=
  serializeDescriptorBlock t.sequence (t.blocks.map fun b => (b.dest, b.flags)) csumV3 ::
    t.blocks.map LogBlock.data ++
    [setCommitTimestamp (serializeCommitBlock t.sequence csumV3) 0 0]

end Tx

/-- The blocks have tags of their own in one descriptor block. Their data is not taken for a block
of the journal: the caller has escaped it. -/
structure Loggable (csumV3 : Bool) (blocks : List LogBlock) : Prop where
  count : 12 + tagSize csumV3 * blocks.length + tailReserve csumV3 ≤ jbd2BlockSize
  data : ∀ b ∈ blocks, b.data.length = jbd2BlockSize
  plain : ∀ b ∈ blocks, be32At b.data 0 ≠ jbd2MagicNumber
  flags : ∀ b ∈ blocks, b.flags &&& jbd2FlagLastTag = 0
  dest : ∀ b ∈ blocks, b.dest.toNat < if csumV3 then 2 ^ 32 else 2 ^ 48

variable {i k : Nat} {answer : Nat → Option Halt}
  {csumV3 : Bool} {blocks : List LogBlock} {address : Nat → Nat} {bufs : List (List UInt8)}
  {w : Nat × List UInt8} {sb sb' : Jbd2Superblock} {d : Disk} {t : Tx} {op : JournalOp}

theorem Loggable.length_lt (h : Loggable csumV3 blocks) : blocks.length + 2 < 2 ^ 31 := by
  have hcount := h.count
  have hone : blocks.length ≤ tagSize csumV3 * blocks.length :=
    Nat.le_mul_of_pos_left _ (tagSize_pos csumV3)
  have hsize : jbd2BlockSize = 1024 := rfl
  omega

theorem blockImage_or {flags extra : UInt16} (data : List UInt8)
    (hdel : extra &&& jbd2FlagDeleted = 0) (hesc : extra &&& jbd2FlagEscape = 0) :
    blockImage (flags ||| extra) data = blockImage flags data := by
  rw [blockImage, blockImage, or_and_right, or_and_right, hdel, hesc, UInt16.or_zero,
    UInt16.or_zero]

theorem markedTags_cons (t : UInt64 × UInt16) (rest : List (UInt64 × UInt16)) :
    ∃ extra, extra &&& jbd2FlagDeleted = 0 ∧ extra &&& jbd2FlagEscape = 0 ∧
      markedTags (t :: rest) = (t.1, t.2 ||| extra) :: markedTags rest := by
  cases rest with
  | nil =>
    refine ⟨jbd2FlagSameUuid ||| jbd2FlagLastTag, by decide, by decide, ?_⟩
    rw [← UInt16.or_assoc]
    rfl
  | cons u rest => exact ⟨jbd2FlagSameUuid, by decide, by decide, rfl⟩

theorem replayed_eq {log : Nat → List UInt8} {tags : List Jbd2BlockTag}
    (htags : tags.map Jbd2BlockTag.entry = markedTags (blocks.map fun b => (b.dest, b.flags)))
    (hlog : ∀ k (hk : k < blocks.length), log (address (i + k)) = (blocks.get ⟨k, hk⟩).data) :
    replayed log address tags i =
      blocks.map fun b => (b.dest.toNat, blockImage b.flags b.data) := by
  induction blocks generalizing tags i with
  | nil =>
    rw [map_eq_nil_iff.mp htags]
    rfl
  | cons b rest ih =>
    have hdata : log (address i) = b.data := hlog 0 (zero_lt_succ _)
    obtain ⟨extra, hdel, hesc, hcons⟩ := markedTags_cons (b.dest, b.flags)
      (rest.map fun b => (b.dest, b.flags))
    rw [map_cons, hcons] at htags
    obtain ⟨tag, tail, rfl, htag, htail⟩ := map_eq_cons_iff.mp htags
    obtain ⟨hdest, hflags⟩ := Prod.mk.inj htag
    rw [replayed, hdest, hflags, hdata, blockImage_or _ hdel hesc, map_cons]
    congr 1
    refine ih htail fun k hk => ?_
    have := hlog (k + 1) (succ_lt_succ hk)
    rwa [show i + (k + 1) = i + 1 + k by omega] at this

/-! ### Transactions in the log -/

variable {first maxlen start pos : UInt32} {log : Nat → List UInt8} {csumV3 : Bool} {t : Tx}

theorem slot_inj (hi : i < maxlen.toNat) (hk : k < maxlen.toNat)
    (h : slot first maxlen start i = slot first maxlen start k) : i = k := by
  have := Nat.ModEq.add_left_cancel' _ h
  rwa [Nat.ModEq, mod_eq_of_lt hi, mod_eq_of_lt hk] at this

theorem advances_step (maxlen : UInt32) : Advances maxlen fun pos => (pos + 1) % maxlen :=
  fun _ => toNat_step

theorem mem_placed
    (hfits : first.toNat + maxlen.toNat ≤ 2 ^ 32) (hstart : start.toNat < maxlen.toNat)
    (hpos : pos.toNat = (start.toNat + i) % maxlen.toNat) (hw : w ∈ placed first maxlen pos bufs) :
    ∃ k < bufs.length, w.1 = slot first maxlen start (i + k) := by
  induction bufs generalizing pos i with
  | nil => exact nomatch hw
  | cons buf rest ih =>
    obtain rfl | hw := mem_cons.mp hw
    · exact ⟨0, zero_lt_succ _, block_eq_slot hfits hstart hpos⟩
    · obtain ⟨k, hk, heq⟩ := ih (advance_eq (advances_step maxlen) hstart hpos) hw
      exact ⟨k + 1, succ_lt_succ hk, by rwa [show i + (k + 1) = i + 1 + k by omega]⟩

theorem putAll_placed_slot
    (hfits : first.toNat + maxlen.toNat ≤ 2 ^ 32) (hstart : start.toNat < maxlen.toNat)
    (hpos : pos.toNat = (start.toNat + i) % maxlen.toNat) (hsize : i + bufs.length ≤ maxlen.toNat)
    (log : Nat → List UInt8) (hk : k < bufs.length) : bufs[k]? =
      some (putAll log (placed first maxlen pos bufs) (slot first maxlen start (i + k))) := by
  induction bufs generalizing pos i log k with
  | nil => exact nomatch hk
  | cons buf rest ih =>
    rw [length_cons] at hsize hk
    have hnext := advance_eq (advances_step maxlen) hstart hpos
    rw [placed, putAll_cons, block_eq_slot hfits hstart hpos]
    cases k with
    | zero =>
      rw [putAll_of_ne]
      · rw [Nat.add_zero, update_self]
        rfl
      · intro w hw heq
        obtain ⟨k, hk', hslot⟩ := mem_placed hfits hstart hnext hw
        have := slot_inj (by omega) (by omega) (hslot.symm.trans heq)
        omega
    | succ k =>
      have := ih hnext (by omega) (update log (slot first maxlen start i) buf)
        (show k < rest.length by omega)
      rwa [show i + 1 + k = i + (k + 1) by omega] at this

structure Live (log : Nat → List UInt8) (first maxlen : UInt32) (csumV3 : Bool) (t : Tx) :
    Prop where
  fits : first.toNat + maxlen.toNat ≤ 2 ^ 32
  nonempty : t.blocks ≠ []
  loggable : Loggable csumV3 t.blocks
  start_lt : t.start.toNat < maxlen.toNat
  size : t.blocks.length + 2 ≤ maxlen.toNat
  written : ∀ k < t.blocks.length + 2,
    (t.buffers csumV3)[k]? = some (log (slot first maxlen t.start k))

/-- The scan for `sb` finds the transaction and nothing else. -/
structure Seen (log : Nat → List UInt8) (first maxlen : UInt32) (sb : Jbd2Superblock) (t : Tx) :
    Prop where
  start_eq : sb.sStart = t.start
  near : farSequence t.sequence sb.sSequence = false
  rest : ∀ b < maxlen.toNat, (∀ k < t.blocks.length + 2, b ≠ slot first maxlen t.start k) →
    Harmless (scanJournalBlock (log b) sb)

def Tx.tags (csumV3 : Bool) (t : Tx) : List Jbd2BlockTag :=
  parseDescriptorBlock
    (serializeDescriptorBlock t.sequence (t.blocks.map fun b => (b.dest, b.flags)) csumV3) csumV3

section

variable (h : Live log first maxlen csumV3 t)

include h

theorem Live.entries : (t.tags csumV3).map Jbd2BlockTag.entry =
    markedTags (t.blocks.map fun b => (b.dest, b.flags)) := by
  have hlog := h.loggable
  rw [Tx.tags, parseDescriptorBlock_eq_iff _ _ (by simpa using h.nonempty), length_map,
    ← map_dropLast]
  refine ⟨hlog.count, forall_mem_map.mpr hlog.dest, forall_mem_map.mpr fun b hb => ?_⟩
  exact hlog.flags b (dropLast_subset _ hb)

theorem Live.length_tags : (t.tags csumV3).length = t.blocks.length := by
  simpa [length_markedTags] using congrArg length h.entries

theorem Live.descriptor : log (slot first maxlen t.start 0) =
      serializeDescriptorBlock t.sequence (t.blocks.map fun b => (b.dest, b.flags)) csumV3 :=
  (Option.some.inj (h.written 0 (zero_lt_succ _))).symm

theorem Live.data (hk : k < t.blocks.length) :
    log (slot first maxlen t.start (1 + k)) = (t.blocks.get ⟨k, hk⟩).data := by
  have hw := h.written (1 + k) (by omega)
  rw [Tx.buffers, getElem?_append_left (by
    rw [length_cons, length_map]; omega), Nat.add_comm 1,
    getElem?_cons_succ, getElem?_map, getElem?_eq_getElem hk] at hw
  rw [Nat.add_comm 1]
  exact (Option.some.inj hw).symm

theorem Live.commit :
    IsCommit t.sequence (log (slot first maxlen t.start (1 + t.blocks.length))) := by
  have hw := h.written (1 + t.blocks.length) (by omega)
  rw [Tx.buffers, getElem?_append_right (by
    rw [length_cons, length_map]; omega)] at hw
  simp only [length_cons, length_map, Nat.add_comm 1, Nat.sub_self,
    getElem?_cons_zero, Option.some.injEq] at hw
  rw [Nat.add_comm 1, ← hw]
  exact isCommit_setCommitTimestamp 0 0 (isCommit_serializeCommitBlock _)

theorem Live.holdsTx (hs : Seen log first maxlen sb t)
    (hcsum : sb.csumV3 = csumV3) (hfeat : sb.csumV2or3 = true → sb.csumV3 = true) :
    HoldsTx log sb first maxlen t.start t.sequence (t.tags csumV3) := by
  have htags := h.length_tags
  have hlog := h.loggable
  have hsize := h.size
  constructor
  · exact hs.start_eq
  · exact h.start_lt
  · rw [htags]
    exact hsize
  · have := hlog.length_lt
    omega
  · rw [h.descriptor, ← hcsum]
    exact scan_descriptor (by simpa using h.nonempty) hs.near hfeat
  · intro k hk
    rw [htags] at hk
    have hmem : t.blocks.get ⟨k, hk⟩ ∈ t.blocks := get_mem _ _
    rw [h.data hk]
    apply scan_data
    · rw [hlog.data _ hmem]
      decide
    · exact hlog.plain _ hmem
  · rw [htags]
    exact scan_commit h.commit hs.near
  · intro k hk hkm
    refine hs.rest _ (mod_lt _ (by omega)) fun i hi heq => ?_
    have := slot_inj hkm (by omega) heq
    omega

theorem Live.replayed (haddr : ∀ i, address i = slot first maxlen t.start (1 + i)) :
    replayed log address (t.tags csumV3) 0 = t.writes := by
  refine replayed_eq h.entries fun k hk => ?_
  rw [haddr, Nat.zero_add, h.data hk]

end

/-! ### Recovery of a device -/

theorem onlyCuts_steady : OnlyCuts steady := nofun

def recoverDevice (answer : Nat → Option Halt) : EStateM Halt Disk UInt32 := do
  let sb ← readJournalSuperblock answer
  recoverJournal answer sb ⟨sb.sMaxlen, sb.sFirst⟩

/-- Recovery replays the transactions in order, and the file system ends as `home`. -/
def Recovers (d : Disk) (pending : List Tx) (home : Nat → List UInt8) : Prop :=
  ∃ n d', recoverDevice steady d = .ok n d' ∧ n = ofNat pending.length ∧
    d'.fsWrites = d.fsWrites ++ pending.flatMap Tx.writes ∧ d'.fs = home

variable {d : Disk} {sb : Jbd2Superblock} (Q : UInt32 → Disk → Prop) in
theorem exists_recoverDevice (hsb : parseJournalSuperblock (d.log 0) = .ok sb)
    (h : ∀ d1, Wrote d [] [] d1 → Outcome (recoverJournal steady sb ⟨sb.sMaxlen, sb.sFirst⟩) d1 Q
      (fun e _ => Fired steady e)) : ∃ n d', recoverDevice steady d = .ok n d' ∧ Q n d' := by
  have hread : readJournalSuperblock steady d = .ok sb { d with calls := d.calls + 1 } := by
    have hbuf : readJournalBlock steady 0 d = .ok (d.log 0) { d with calls := d.calls + 1 } := rfl
    rw [readJournalSuperblock, run_bind_ok hbuf, hsb]
    rfl
  have hout := h { d with calls := d.calls + 1 } (.nil rfl rfl rfl rfl)
  obtain ⟨n, d', hrun, hq⟩ := hout.exists_ok fun _ _ ⟨_, h⟩ => nomatch h
  exact ⟨n, d', (run_bind_ok hread).trans hrun, hq⟩

theorem recovers_clean (hsb : parseJournalSuperblock (d.log 0) = .ok sb)
    (hclean : sb.isClean = true) : Recovers d [] d.fs := by
  obtain ⟨n, d', hrun, hn, h⟩ := exists_recoverDevice (fun n d' => n = 0 ∧ Wrote d [] [] d') hsb
    fun d1 h1 => by
      rw [recoverJournal, if_pos hclean]
      exact Outcome.pure ⟨rfl, h1⟩
  exact ⟨n, d', hrun, hn, h.fsWrites, h.fs⟩

theorem advances_recover (maxlen : UInt32) :
    Advances maxlen fun pos => if pos + 1 ≥ maxlen then 0 else pos + 1 := by
  intro pos hpos
  have hadd : (pos + 1).toNat = pos.toNat + 1 := by
    have := maxlen.toNat_lt
    rw [UInt32.toNat_add, toNat_one]
    omega
  dsimp only
  split
  · rename_i hge
    have hle := le_iff_toNat_le.mp hge
    rw [show pos.toNat + 1 = maxlen.toNat by omega, mod_self]
    rfl
  · rename_i hlt
    have := lt_iff_toNat_lt.mp (UInt32.not_le.mp hlt)
    rw [hadd, mod_eq_of_lt (by omega)]

theorem recoverAddress_eq (first maxlen pos : UInt32) (i : Nat) :
    (first.toNat + (pos.toNat + 1 + i) % maxlen.toNat) % maxlen.toNat =
      slot first maxlen pos (1 + i) := by
  rw [add_mod_mod]
  congr 1
  omega

theorem checkpointAddress_eq (hfits : first.toNat + maxlen.toNat ≤ 2 ^ 32)
    (hpos : pos.toNat < maxlen.toNat) (i : Nat) :
    ((first + ofNat ((pos.toNat + 1 + i) % maxlen.toNat)) % maxlen).toNat =
      slot first maxlen pos (1 + i) := by
  apply block_eq_slot hfits hpos
  have hlt := mod_lt (pos.toNat + 1 + i) (show 0 < maxlen.toNat by omega)
  rw [toNat_ofNat', mod_eq_of_lt (by omega), Nat.add_assoc]

theorem recovers_live (hsb : parseJournalSuperblock (d.log 0) = .ok sb)
    (hclean : sb.isClean = false) (hfeat : sb.csumV2or3 = true → sb.csumV3 = true)
    (h : Live d.log sb.sFirst sb.sMaxlen sb.csumV3 t) (hs : Seen d.log sb.sFirst sb.sMaxlen sb t) :
    Recovers d [t] (putAll d.fs t.writes) := by
  obtain ⟨n, d', hrun, hn, hw⟩ := exists_recoverDevice
    (fun n d' => n = 1 ∧ Wrote d [] t.writes d') hsb fun d1 h1 => by
      rw [recoverJournal, if_neg (by rw [hclean]; decide)]
      have hscan := scanLog_tx onlyCuts_steady h.fits (advances_recover sb.sMaxlen)
        (h.holdsTx hs rfl hfeat) d1 h1
      apply (hscan.mono (fun _ _ h => h) fun _ _ h => h.1).bind
      rintro scan d2 ⟨⟨htxs, hrev⟩, h2⟩
      have hlog : d2.log = d.log := h2.log
      rw [htxs, hrev]
      have hreplay := replay_outcome onlyCuts_steady
        (fun pos i => (sb.sFirst.toNat + (pos.toNat + 1 + i) % sb.sMaxlen.toNat) % sb.sMaxlen.toNat)
        ⟨t.start, t.tags sb.csumV3⟩ 0 d2
      rw [hlog, h.replayed (recoverAddress_eq sb.sFirst sb.sMaxlen t.start)] at hreplay
      apply (hreplay.mono (fun _ _ h => h) fun _ _ h => h.1).bind
      intro _ d3 h3
      exact Outcome.pure ⟨rfl, h2.trans h3⟩
  refine ⟨n, d', hrun, hn, ?_, hw.fs⟩
  rw [hw.fsWrites, flatMap_singleton]

/-! ### Runs -/

/-- The journal and the devices, the transactions that wait for a checkpoint, and the file system as
the committed transactions have left it. -/
structure JournalState where
  journal : Journal
  disk : Disk
  pending : List Tx
  home : Nat → List UInt8

def mounted (sb : Jbd2Superblock) (d : Disk) : JournalState := ⟨.new sb, d, [], d.fs⟩

inductive JournalOp where
  | start
  | commit (blocks : List LogBlock)
  | checkpoint

variable (s : JournalState)

def JournalState.tx (blocks : List LogBlock) : Tx :=
  ⟨s.journal.sb.sSequence, s.journal.nextLogBlock, blocks⟩

/-- A call that returns. A checkpoint that finds transactions moves `s_start`. -/
inductive JournalStep (s : JournalState) : JournalOp → JournalState → Prop
  | start : JournalStep s .start { s with journal := journalStartTransaction s.journal }
  | commit {blocks : List LogBlock} {n : UInt32} {j : Journal} {d : Disk} (hne : blocks ≠ [])
      (hrun : journalCommit steady blocks (s.journal, s.disk) = .ok n (j, d)) :
      JournalStep s (.commit blocks)
        ⟨j, d, s.pending ++ [s.tx blocks], putAll s.home (s.tx blocks).writes⟩
  | checkpoint {n : UInt32} {j : Journal} {d : Disk}
      (hrun : journalCheckpoint steady (s.journal, s.disk) = .ok n (j, d)) :
      JournalStep s .checkpoint
        ⟨j, d, if j.sb.sStart = s.journal.sb.sStart then s.pending else [], s.home⟩

inductive Crash (s : JournalState) : JournalOp → Disk → Prop
  | commit {answer : Nat → Option Halt} {blocks : List LogBlock} {j : Journal} {d : Disk}
      (hcuts : OnlyCuts answer)
      (hrun : journalCommit answer blocks (s.journal, s.disk) = .error .cut (j, d)) :
      Crash s (.commit blocks) d
  | checkpoint {answer : Nat → Option Halt} {j : Journal} {d : Disk} (hcuts : OnlyCuts answer)
      (hrun : journalCheckpoint answer (s.journal, s.disk) = .error .cut (j, d)) :
      Crash s .checkpoint d

/-- The blocks of the device that a transaction of `n` blocks from `pos` on leaves alone, the
superblock apart, hold nothing that a scan for `sb` takes up. -/
def NothingElse (sb : Jbd2Superblock) (pos : UInt32) (n : Nat) : Prop :=
  ∀ b < s.journal.maxlen.toNat, b ≠ 0 →
    (∀ k < n + 2, b ≠ slot s.journal.first s.journal.maxlen pos k) →
    Harmless (scanJournalBlock (s.disk.log b) sb)

structure CarefulCommit (s : JournalState) (blocks : List LogBlock) : Prop where
  none_pending : s.pending = []
  loggable : Loggable s.journal.csumV3 blocks
  sequence : s.journal.sb.sSequence + 1 ≠ 0
  start_ne : s.journal.nextLogBlock ≠ 0
  start_ne_sequence : s.journal.nextLogBlock ≠ s.journal.sb.sSequence + 1
  spares : ∀ k < blocks.length + 2,
    slot s.journal.first s.journal.maxlen s.journal.nextLogBlock k ≠ 0
  nothingElse : NothingElse s (s.journal.committed blocks.length).sb s.journal.nextLogBlock
    blocks.length

def CarefulCheckpoint : Prop :=
  s.journal.sb.isClean = true ∨ ∃ t, s.pending = [t] ∧
    farSequence t.sequence s.journal.sb.sSequence = false ∧
    NothingElse s s.journal.sb t.start t.blocks.length

def Careful : JournalOp → Prop
  | .start => True
  | .commit blocks => CarefulCommit s blocks
  | .checkpoint => CarefulCheckpoint s

/-! ### The invariant -/

/-- Between two calls the device with the superblock `sbd` holds the transaction that waits. -/
inductive Stored (first maxlen : UInt32) (s : JournalState) (sbd : Jbd2Superblock) : Prop
  | clean (hpending : s.pending = []) (hclean : sbd.isClean = true) (hfs : s.disk.fs = s.home)
  | waiting (t : Tx) (hpending : s.pending = [t]) (hstart : s.journal.sb.sStart = t.start)
      (hclean : sbd.isClean = false) (hlive : Live s.disk.log first maxlen s.journal.csumV3 t)
      (hseen : Seen s.disk.log first maxlen sbd t) (hfs : putAll s.disk.fs t.writes = s.home)

structure JournalInv (first maxlen : UInt32) (s : JournalState) : Prop where
  fits : first.toNat + maxlen.toNat ≤ 2 ^ 32
  first_eq : s.journal.first = first
  maxlen_eq : s.journal.maxlen = maxlen
  sFirst_eq : s.journal.sb.sFirst = first
  sMaxlen_eq : s.journal.sb.sMaxlen = maxlen
  csum_eq : s.journal.csumV3 = s.journal.sb.csumV3
  feature : s.journal.sb.csumV2or3 = true → s.journal.sb.csumV3 = true
  uuid : s.journal.sb.sUuid.length = 16
  next_lt : s.journal.nextLogBlock.toNat < maxlen.toNat
  device : ∃ sbd, parseJournalSuperblock (s.disk.log 0) = .ok sbd ∧ sbd.sFirst = first ∧
    sbd.sMaxlen = maxlen ∧ sbd.sFeatureIncompat = s.journal.sb.sFeatureIncompat ∧
    Stored first maxlen s sbd

theorem csumV3_congr (h : sb.sFeatureIncompat = sb'.sFeatureIncompat) : sb.csumV3 = sb'.csumV3 := by
  rw [Jbd2Superblock.csumV3, h, Jbd2Superblock.csumV3]

theorem csumV2or3_congr (h : sb.sFeatureIncompat = sb'.sFeatureIncompat) :
    sb.csumV2or3 = sb'.csumV2or3 := by
  rw [Jbd2Superblock.csumV2or3, csumV3_congr h, h, Jbd2Superblock.csumV2or3]

theorem length_sUuid {data : List UInt8} (h : parseJournalSuperblock data = .ok sb) :
    sb.sUuid.length = 16 := by
  unfold parseJournalSuperblock at h
  split at h
  · exact nomatch h
  have huuid : (bytesAt data 48 16).length = 16 := length_bytesAt (by
    have : jbd2BlockSize = 1024 := rfl
    omega)
  split at h
  · exact nomatch h
  split at h
  · exact nomatch h
  split at h
  · exact nomatch h
  · cases h
    exact huuid

theorem isClean_eq_false (h0 : sb.sStart ≠ 0) (hne : sb.sStart ≠ sb.sSequence) :
    sb.isClean = false := by
  rw [Jbd2Superblock.isClean, beq_false_of_ne h0, beq_false_of_ne hne]
  rfl

theorem isClean_cleaned (j : Journal) : j.cleaned.sb.isClean = true := by
  rw [Jbd2Superblock.isClean, Journal.cleaned, beq_self_eq_true, Bool.or_true]

variable (answer)

/-- What a checkpoint of `t` on `d` that the power stops leaves behind. -/
def Replaying (d : Disk) (t : Tx) (e : Halt) (r : Journal × Disk) : Prop :=
  Fired answer e ∧ ∃ k, Wrote d [] (t.writes.take k) r.2

/-- What a checkpoint of `t` in `s` can end with. -/
def Checkpoints (s : JournalState) (t : Tx) : Prop :=
  Outcome (journalCheckpoint answer) (s.journal, s.disk)
    (fun _ r => r.1 = s.journal.cleaned ∧
      Wrote s.disk [(0, serializeJournalSuperblock s.journal.cleaned.sb)] t.writes r.2)
    (Replaying answer s.disk t)

variable {answer}

namespace JournalInv

variable {s : JournalState}

theorem mounted (hsb : parseJournalSuperblock (d.log 0) = .ok sb) (hclean : sb.isClean = true)
    (hlen : sb.sFirst < sb.sMaxlen) (hfits : sb.sFirst.toNat + sb.sMaxlen.toNat ≤ 2 ^ 32)
    (hfeat : sb.csumV2or3 = true → sb.csumV3 = true) :
    JournalInv sb.sFirst sb.sMaxlen (mounted sb d) := by
  constructor
  · exact hfits
  · rfl
  · rfl
  · rfl
  · rfl
  · rfl
  · exact hfeat
  · exact length_sUuid hsb
  · have hnext : (Journal.new sb).nextLogBlock = sb.sFirst := ite_self _
    exact hnext ▸ lt_iff_toNat_lt.mp hlen
  · exact ⟨sb, hsb, rfl, rfl, rfl, .clean rfl hclean rfl⟩

section

variable (h : JournalInv first maxlen s)

include h

theorem recovers (hlog : d.log = s.disk.log)
    (hfs : d.fs = putAll s.disk.fs ((s.pending.flatMap Tx.writes).take k)) :
    Recovers d s.pending s.home := by
  obtain ⟨sbd, hsb, rfl, rfl, hfeat, hstored⟩ := h.device
  rw [← hlog] at hsb
  cases hstored with
  | clean hpending hclean hhome =>
    have hsame : d.fs = s.disk.fs := by
      rw [hfs, hpending, flatMap_nil, take_nil]
      rfl
    rw [hpending, ← hhome, ← hsame]
    exact recovers_clean hsb hclean
  | waiting t hpending hstart hclean hlive hseen hhome =>
    rw [hpending, flatMap_singleton] at hfs
    have hcsum : s.journal.csumV3 = sbd.csumV3 := h.csum_eq.trans (csumV3_congr hfeat).symm
    have hfeat' : sbd.csumV2or3 = true → sbd.csumV3 = true := by
      rw [csumV3_congr hfeat, csumV2or3_congr hfeat]
      exact h.feature
    rw [← hlog, hcsum] at hlive
    rw [← hlog] at hseen
    rw [hpending, ← hhome, ← putAll_take s.disk.fs t.writes k, ← hfs]
    exact recovers_live hsb hclean hfeat' hlive hseen

theorem mem_logPlaced (hw : w ∈ logPlaced s.journal blocks) :
    ∃ k < blocks.length + 2, w.1 = slot first maxlen s.journal.nextLogBlock k := by
  rw [logPlaced, h.first_eq, h.maxlen_eq] at hw
  obtain ⟨k, hk, heq⟩ := mem_placed h.fits h.next_lt (i := 0) (mod_eq_of_lt h.next_lt).symm hw
  rw [length_logBuffers] at hk
  exact ⟨k, hk, by rwa [Nat.zero_add] at heq⟩

theorem logPlaced_slot (hsize : blocks.length + 2 ≤ maxlen.toNat) (hk : k < blocks.length + 2) :
    ((s.tx blocks).buffers s.journal.csumV3)[k]? =
      some (putAll s.disk.log (logPlaced s.journal blocks)
        (slot first maxlen s.journal.nextLogBlock k)) := by
  rw [← length_logBuffers s.journal] at hk hsize
  have := putAll_placed_slot h.fits h.next_lt (i := 0) (mod_eq_of_lt h.next_lt).symm
    (by rwa [Nat.zero_add]) s.disk.log hk
  rw [Nat.zero_add] at this
  rw [logPlaced, h.first_eq, h.maxlen_eq]
  exact this

theorem started :
    JournalInv first maxlen { s with journal := journalStartTransaction s.journal } := by
  obtain ⟨sbd, hsb, hfirst, hmaxlen, hfeat, hstored⟩ := h.device
  refine { h with device := ⟨sbd, hsb, hfirst, hmaxlen, hfeat, ?_⟩ }
  cases hstored with
  | clean hpending hclean hhome => exact .clean hpending hclean hhome
  | waiting t hpending hstart hclean hlive hseen hhome =>
    exact .waiting t hpending hstart hclean hlive hseen hhome

end

theorem near_succ {sequence : UInt32} (h : sequence + 1 ≠ 0) :
    farSequence sequence (sequence + 1) = false := by
  have hlt := sequence.toNat_lt
  have hadd : (sequence + 1).toNat = sequence.toNat + 1 := by
    have hne : (sequence + 1).toNat ≠ 0 := fun h0 => h (UInt32.toNat_inj.mp h0)
    rw [UInt32.toNat_add, toNat_one] at hne ⊢
    omega
  have hnot : ¬ sequence ≥ sequence + 1 := by
    rw [ge_iff_le, le_iff_toNat_le]
    omega
  have hdiff : sequence + 1 - sequence = 1 := by
    rw [← UInt32.toNat_inj, UInt32.toNat_sub_of_le _ _ (le_iff_toNat_le.mpr (by omega))]
    rw [toNat_one]
    omega
  rw [farSequence, if_neg hnot, hdiff]
  rfl

section Commit

variable {blocks : List LogBlock} {log' : Nat → List UInt8} {sb' : Jbd2Superblock}

section

variable (h : JournalInv first maxlen s)

include h

theorem live_tx (hne : blocks ≠ []) (hc : CarefulCommit s blocks)
    (hsize : blocks.length + 2 ≤ maxlen.toNat)
    (hlog : log' = update (putAll s.disk.log (logPlaced s.journal blocks)) 0
      (serializeJournalSuperblock sb')) :
    Live log' first maxlen s.journal.csumV3 (s.tx blocks) := by
  constructor
  · exact h.fits
  · exact hne
  · exact hc.loggable
  · exact h.next_lt
  · exact hsize
  · intro k hk
    have hzero := hc.spares k hk
    rw [h.first_eq, h.maxlen_eq] at hzero
    rw [h.logPlaced_slot hsize hk, hlog]
    exact congrArg some (update_of_ne hzero _ _).symm

theorem seen (hsb : parseJournalSuperblock (log' 0) = .ok sb') (hstart : sb.sStart = t.start)
    (hnear : farSequence t.sequence sb.sSequence = false)
    (hnothing : NothingElse s sb t.start t.blocks.length)
    (hlog : ∀ b ≠ 0, (∀ k < t.blocks.length + 2, b ≠ slot first maxlen t.start k) →
      log' b = s.disk.log b) : Seen log' first maxlen sb t := by
  refine ⟨hstart, hnear, fun b hb hout => ?_⟩
  rcases eq_or_ne b 0 with rfl | hne
  · exact harmless_superblock _ hsb
  · rw [hlog b hne hout]
    refine hnothing b (by rwa [h.maxlen_eq]) hne ?_
    rw [h.first_eq, h.maxlen_eq]
    exact hout

theorem seen_tx (hc : CarefulCommit s blocks)
    (hsb : parseJournalSuperblock (serializeJournalSuperblock sb') = .ok sb')
    (hlog : log' = update (putAll s.disk.log (logPlaced s.journal blocks)) 0
      (serializeJournalSuperblock sb')) :
    Seen log' first maxlen (s.journal.committed blocks.length).sb (s.tx blocks) := by
  refine h.seen (by rwa [hlog]) rfl (near_succ hc.sequence) hc.nothingElse fun b hne hout => ?_
  rw [hlog, update_of_ne hne, putAll_of_ne]
  intro w hw heq
  obtain ⟨k, hk, hslot⟩ := h.mem_logPlaced hw
  exact hout k hk (heq.symm.trans hslot)

end

end Commit

section

variable (h : JournalInv first maxlen s)

include h

theorem committed (hne : blocks ≠ [])
    (hc : CarefulCommit s blocks) (hspace : blocks.length + 2 + 3 ≤ s.journal.maxlen.toNat)
    (hw : Wrote s.disk (logPlaced s.journal blocks ++
      [(0, serializeJournalSuperblock (s.journal.committed blocks.length).sb)]) [] d) :
    JournalInv first maxlen ⟨s.journal.committed blocks.length, d, s.pending ++ [s.tx blocks],
        putAll s.home (s.tx blocks).writes⟩ := by
  obtain ⟨sbd, -, -, -, -, hstored⟩ := h.device
  have hlog : d.log = update (putAll s.disk.log (logPlaced s.journal blocks)) 0
      (serializeJournalSuperblock (s.journal.committed blocks.length).sb) := by
    rw [hw.log, putAll_append]
    rfl
  have hparse : parseJournalSuperblock
      (serializeJournalSuperblock (s.journal.committed blocks.length).sb) = .ok _ :=
    parseJournalSuperblock_serialize h.uuid
  rw [h.maxlen_eq] at hspace
  refine { h with next_lt := ?_, device := ?_ }
  · have hnext := toNat_ahead (blocks.length + 2) h.next_lt
    rw [← h.maxlen_eq] at hnext ⊢
    exact hnext ▸ mod_lt _ (by rw [h.maxlen_eq]; omega)
  · refine ⟨(s.journal.committed blocks.length).sb, ?_, h.sFirst_eq, h.sMaxlen_eq, rfl, ?_⟩
    · rw [hlog]
      exact hparse
    · cases hstored with
      | waiting t hpending =>
        rw [hc.none_pending] at hpending
        exact nomatch hpending
      | clean hpending hclean hhome =>
        apply Stored.waiting (s.tx blocks)
        · rw [hpending]
          rfl
        · rfl
        · exact isClean_eq_false hc.start_ne hc.start_ne_sequence
        · exact h.live_tx hne hc (by omega) hlog
        · exact h.seen_tx hc hparse hlog
        · rw [hw.fs, ← hhome]
          rfl

theorem checkpoint_outcome (hcuts : OnlyCuts answer) (hclean : s.journal.sb.isClean = false)
    (hlive : Live s.disk.log first maxlen s.journal.csumV3 t)
    (hseen : Seen s.disk.log first maxlen s.journal.sb t) : Checkpoints answer s t := by
  obtain rfl := h.first_eq
  obtain rfl := h.maxlen_eq
  apply Outcome.bind_ok (run_get _)
  dsimp only
  rw [if_neg (by rw [hclean]; decide)]
  have hscan := scanLog_tx hcuts h.fits (advances_step _)
    (hlive.holdsTx hseen h.csum_eq.symm h.feature) s.disk (.refl _)
  apply onDisk_bind hscan fun _ _ h => ⟨h.1, 0, h.2⟩
  rintro scan d1 ⟨⟨htxs, -⟩, h1⟩
  have hlog1 : d1.log = s.disk.log := h1.log
  have hreplay := replay_outcome hcuts (fun pos i =>
    ((s.journal.first + ofNat ((pos.toNat + 1 + i) % s.journal.maxlen.toNat)) %
      s.journal.maxlen).toNat)
    ⟨t.start, t.tags s.journal.csumV3⟩ 0 d1
  rw [hlog1, hlive.replayed (checkpointAddress_eq h.fits hlive.start_lt)] at hreplay
  rw [htxs]
  apply onDisk_bind hreplay fun _ _ ⟨hfired, k, h⟩ => ⟨hfired, k, h1.trans h⟩
  intro n d2 h2
  have hall {ws : List (Nat × List UInt8)} {d3 : Disk} (h3 : Wrote d2 ws [] d3) :
      Wrote s.disk ws t.writes d3 := append_nil t.writes ▸ (h1.trans h2).trans h3
  apply onDisk_bind (writeJournalBlock_outcome d2 _ _)
  · rintro e d3 ⟨hfired, h3⟩
    refine ⟨hfired, t.writes.length, ?_⟩
    rw [take_length]
    exact hall h3
  · intro _ d3 h3
    exact Outcome.pure ⟨rfl, hall h3⟩

omit h in
theorem journalCheckpoint_clean (hclean : s.journal.sb.isClean = true) :
    journalCheckpoint answer (s.journal, s.disk) = .ok 0 (s.journal, s.disk) := by
  rw [journalCheckpoint, run_bind_ok (run_get _)]
  dsimp only
  rw [if_pos hclean]
  rfl

theorem checkpoint_cases (hcuts : OnlyCuts answer) (hc : CarefulCheckpoint s) :
    journalCheckpoint answer (s.journal, s.disk) = .ok 0 (s.journal, s.disk) ∨
    ∃ t, s.pending = [t] ∧ s.journal.sb.isClean = false ∧ putAll s.disk.fs t.writes = s.home ∧
      Checkpoints answer s t := by
  cases hclean : s.journal.sb.isClean with
  | true => exact .inl (journalCheckpoint_clean hclean)
  | false =>
    right
    obtain hclean' | ⟨t, hpending, hnear, hnothing⟩ := hc
    · rw [hclean] at hclean'
      exact nomatch hclean'
    · obtain ⟨sbd, hsb, -, -, -, hstored⟩ := h.device
      cases hstored with
      | clean hnone =>
        rw [hpending] at hnone
        exact nomatch hnone
      | waiting t' hpending' hstart _ hlive _ hhome =>
        obtain rfl : t' = t := by
          rw [hpending] at hpending'
          cases hpending'
          rfl
        exact ⟨t', hpending, rfl, hhome, h.checkpoint_outcome hcuts hclean hlive
          (h.seen hsb hstart hnear hnothing fun _ _ _ => rfl)⟩

theorem checkpointed (hhome : putAll s.disk.fs t.writes = s.home)
    (hw : Wrote s.disk [(0, serializeJournalSuperblock s.journal.cleaned.sb)] t.writes d) :
    JournalInv first maxlen ⟨s.journal.cleaned, d, [], s.home⟩ := by
  refine { h with device := ⟨s.journal.cleaned.sb, ?_, h.sFirst_eq, h.sMaxlen_eq, rfl, ?_⟩ }
  · rw [hw.log]
    exact parseJournalSuperblock_serialize h.uuid
  · exact .clean rfl (isClean_cleaned _) (hw.fs.trans hhome)

theorem step {s' : JournalState} (hc : Careful s op)
    (hstep : JournalStep s op s') : JournalInv first maxlen s' := by
  cases hstep with
  | start => exact h.started
  | @commit blocks n j d hne hrun =>
    have hends := journalCommit_commits steady s.journal s.disk blocks
    rw [hrun] at hends
    cases hends with
    | empty hnil => exact absurd hnil hne
    | done hspace hw =>
      exact h.committed hne hc (Journal.add_le_of_hasSpaceFor
        (hc.loggable.length_lt.trans (by decide)) hspace) hw
  | checkpoint hrun =>
    obtain hok | ⟨t, hpending, hclean, hhome, hout⟩ := h.checkpoint_cases onlyCuts_steady hc
    · cases hrun.symm.trans hok
      rw [if_pos rfl]
      exact h
    · obtain ⟨rfl, hw⟩ := hout.of_ok hrun
      rw [if_neg]
      · exact h.checkpointed hhome hw
      · intro heq
        rw [Jbd2Superblock.isClean, ← heq] at hclean
        exact nomatch (isClean_cleaned s.journal).symm.trans hclean

theorem torn {ws : List (Nat × List UInt8)}
    (hc : CarefulCommit s blocks) (hws : ∀ w ∈ ws, w ∈ logPlaced s.journal blocks)
    (hw : Wrote s.disk ws [] d) : Recovers d s.pending s.home := by
  obtain ⟨sbd, hsb, -, -, -, hstored⟩ := h.device
  have hzero : d.log 0 = s.disk.log 0 := by
    rw [hw.log, putAll_of_ne]
    intro w hmem heq
    obtain ⟨k, hk, hslot⟩ := h.mem_logPlaced (hws w hmem)
    apply hc.spares k hk
    rw [h.first_eq, h.maxlen_eq, ← hslot, heq]
  cases hstored with
  | waiting t hpending =>
    rw [hc.none_pending] at hpending
    exact nomatch hpending
  | clean hpending hclean hhome =>
    have hfs : d.fs = s.home := hw.fs.trans hhome
    rw [hpending, ← hfs]
    exact recovers_clean (by rwa [hzero]) hclean

theorem crashed (hc : Careful s op) (hcrash : Crash s op d) : Recovers d s.pending s.home := by
  cases hcrash with
  | @commit answer blocks j _ hcuts hrun =>
    have hends := journalCommit_commits answer s.journal s.disk blocks
    rw [hrun] at hends
    cases hends with
    | torn hw => exact h.torn hc (fun w hw => mem_of_mem_take hw) hw
    | logged _ hw => exact h.torn hc (fun w hw => hw) hw
  | checkpoint hcuts hrun =>
    obtain hok | ⟨t, hpending, -, -, hout⟩ := h.checkpoint_cases hcuts hc
    · cases hrun.symm.trans hok
    · obtain ⟨-, k, hw⟩ := hout.of_error hrun
      apply h.recovers hw.log
      rw [hpending, flatMap_singleton]
      exact hw.fs

end

theorem run (h0 : JournalInv first maxlen (Ext4.mounted sb d))
    (hrun : Relation.ReflTransGen (fun s s' => ∃ op, Careful s op ∧ JournalStep s op s')
      (Ext4.mounted sb d) s) : JournalInv first maxlen s := by
  induction hrun with
  | refl => exact h0
  | tail _ hstep ih =>
    obtain ⟨op, hc, hstep⟩ := hstep
    exact ih.step hc hstep

end JournalInv

/-- In a run of careful calls on a journal that was clean when it was opened, recovery after a crash
replays what is committed and not checkpointed, whether the power goes between two calls or inside
the next one. -/
theorem crash_recovery {s : JournalState}
    (hsb : parseJournalSuperblock (d.log 0) = .ok sb) (hclean : sb.isClean = true)
    (hlen : sb.sFirst < sb.sMaxlen) (hfits : sb.sFirst.toNat + sb.sMaxlen.toNat ≤ 2 ^ 32)
    (hfeat : sb.csumV2or3 = true → sb.csumV3 = true)
    (hrun : Relation.ReflTransGen (fun s s' => ∃ op, Careful s op ∧ JournalStep s op s')
      (mounted sb d) s) : Recovers s.disk s.pending s.home ∧
      ∀ op d', Careful s op → Crash s op d' → Recovers d' s.pending s.home := by
  have h := JournalInv.run (JournalInv.mounted hsb hclean hlen hfits hfeat) hrun
  constructor
  · exact h.recovers rfl (k := 0) rfl
  · intro op d' hc hcrash
    exact h.crashed hc hcrash

def smallSb : Jbd2Superblock :=
  { hSequence := 1, sBlocksize := 1024, sMaxlen := 32, sFirst := 1, sSequence := 1, sStart := 0,
    sErrno := 0, sFeatureCompat := 0, sFeatureIncompat := 0, sFeatureRoCompat := 0,
    sUuid := List.replicate 16 0, sNrUsers := 1, sMaxTransaction := 0, sMaxTransData := 0,
    sCommitInterval := 0 }

def smallDisk : Disk :=
  { log := update (fun _ => zeroBlock) 0 (serializeJournalSuperblock smallSb)
    fs := fun _ => zeroBlock
    logWrites := []
    fsWrites := []
    calls := 0 }

def filled (v : UInt8) : List LogBlock := [⟨7, replicate 1024 v, 0⟩]

theorem filled_ne_nil (v : UInt8) : filled v ≠ [] := cons_ne_nil _ _

theorem careful_filled : CarefulCommit (mounted smallSb smallDisk) (filled 1) := by
  constructor
  · rfl
  · constructor <;> decide +kernel
  · decide
  · decide
  · decide
  · decide
  · intro b _ hne _
    have hblock : (mounted smallSb smallDisk).disk.log b = zeroBlock := by
      rw [mounted, smallDisk]
      dsimp only
      rw [update_of_ne hne]
    rw [hblock, scan_data (by decide +kernel) (by decide +kernel)]
    exact .other

theorem small_journal_recovers :
    ∃ s : JournalState, s.pending = [⟨1, 1, filled 1⟩] ∧ Recovers s.disk s.pending s.home ∧
      ∀ op d', Careful s op → Crash s op d' → Recovers d' s.pending s.home := by
  obtain ⟨⟨j, d⟩, hrun⟩ := exists_of_returned
    (r := journalCommit steady (filled 1) (Journal.new smallSb, smallDisk)) (a := 3)
    (by decide +kernel)
  exact ⟨_, rfl, crash_recovery (parseJournalSuperblock_serialize rfl) rfl (by decide) (by decide)
    (by decide)
    (.single ⟨.commit (filled 1), careful_filled, .commit (filled_ne_nil 1) hrun⟩)⟩

/-- After two commits to one block the scan starts at the second, and the replay of the first comes
last. -/
theorem older_copy_replayed_last :
    ∃ s : JournalState, Relation.ReflTransGen (fun s s' => ∃ op, JournalStep s op s')
        (mounted smallSb smallDisk) s ∧ s.pending.length = 2 ∧
      (s.home 7).head? = some 2 ∧ ¬ Recovers s.disk s.pending s.home := by
  obtain ⟨⟨j, d⟩, h1⟩ := exists_of_returned
    (r := journalCommit steady (filled 1) (Journal.new smallSb, smallDisk)) (a := 3)
    (by decide +kernel)
  have hj : final (journalCommit steady (filled 1) (Journal.new smallSb, smallDisk)) = (j, d) := by
    rw [h1]
    rfl
  obtain ⟨⟨j', d'⟩, h2⟩ := exists_of_returned
    (r := journalCommit steady (filled 2)
      (final (journalCommit steady (filled 1) (Journal.new smallSb, smallDisk)))) (a := 3)
    (by decide +kernel)
  have hd : final (journalCommit steady (filled 2)
      (final (journalCommit steady (filled 1) (Journal.new smallSb, smallDisk)))) = (j', d') := by
    rw [h2]
    rfl
  have hold : ((final (recoverDevice steady (final (journalCommit steady (filled 2)
      (final (journalCommit steady (filled 1) (Journal.new smallSb, smallDisk))))).2)).fs 7).head? =
      some 1 := by
    decide +kernel
  rw [hd] at hold
  rw [hj] at h2
  refine ⟨_, .tail (.single ⟨_, .commit (filled_ne_nil 1) h1⟩) ⟨_, .commit (filled_ne_nil 2) h2⟩,
    rfl, rfl, ?_⟩
  rintro ⟨n, d'', hrun, -, -, hfs⟩
  rw [hrun] at hold
  have hnew : (d''.fs 7).head? = some 2 := by
    rw [hfs]
    rfl
  exact absurd (hold.symm.trans hnew) (by decide)

end Gergios.Ext4
