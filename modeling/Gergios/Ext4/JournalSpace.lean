import Gergios.Ext4.JournalCalls

/-!
# Space in the log

A run opens a clean journal and commits and checkpoints, each call with any outcome. A transaction
is checkpointed once a checkpoint has marked the journal clean.
-/

namespace Gergios.Ext4

open Lib List Nat UInt32

variable {w : Nat × List UInt8} {sb : Jbd2Superblock} {s' s : LogState} {d : Disk}

theorem final_onDisk_bind {σ α β : Type} {S : Set σ} {m : EStateM Halt Disk α}
    {f : α → EStateM Halt (σ × Disk) β} {s : σ × Disk} (h : s.1 ∈ S)
    (hf : ∀ a d, (final (f a (s.1, d))).1 ∈ S) : (final ((onDisk m >>= f) s)).1 ∈ S := by
  cases hm : m s.2 with
  | ok a d =>
    rw [run_bind_ok (onDisk_ok hm)]
    exact hf a d
  | error e d =>
    rw [run_bind_error (onDisk_error hm)]
    exact h

variable (answer : Nat → Option Halt)

theorem journalCheckpoint_journal (j : Journal) (d : Disk) :
    (final (journalCheckpoint answer (j, d))).1 ∈ ({j, j.cleaned} : Set Journal) := by
  unfold journalCheckpoint
  rw [run_bind_ok (run_get (j, d))]
  dsimp only
  split
  · exact .inl rfl
  apply final_onDisk_bind (.inl rfl)
  intro scan d1
  apply final_onDisk_bind (.inl rfl)
  intro n d2
  cases scan.transactions.isEmpty with
  | true => exact final_onDisk_bind (.inl rfl) fun _ _ => .inl rfl
  | false => exact final_onDisk_bind (.inr rfl) fun _ _ => .inr rfl

/-! ### Positions -/

variable {first maxlen pos : UInt32}

theorem mem_placed_front {bufs : List (List UInt8)} (hfirst : 1 ≤ first.toNat)
    (h : first.toNat + pos.toNat + bufs.length ≤ maxlen.toNat)
    (hw : w ∈ placed first maxlen pos bufs) : first.toNat + pos.toNat ≤ w.1 := by
  induction bufs generalizing pos with
  | nil => exact nomatch hw
  | cons buf rest ih =>
    rw [length_cons] at h
    have hmax := maxlen.toNat_lt
    obtain rfl | hw := mem_cons.mp hw
    · have hblock : ((first + pos) % maxlen).toNat = first.toNat + pos.toNat := by
        rw [UInt32.toNat_mod, UInt32.toNat_add, mod_eq_of_lt (by omega),
          mod_eq_of_lt (by omega)]
      omega
    · have hnext : ((pos + 1) % maxlen).toNat = pos.toNat + 1 := by
        rw [toNat_step (by omega), mod_eq_of_lt (by omega)]
      have := ih (by omega) hw
      omega

/-! ### Free blocks -/

theorem Journal.toNat_freeBlocks {j : Journal} {n : Nat}
    (hstart : j.sb.sStart.toNat < j.maxlen.toNat)
    (hn : n < j.maxlen.toNat)
    (hnext : j.nextLogBlock.toNat = (j.sb.sStart.toNat + n) % j.maxlen.toNat) :
    j.freeBlocks.toNat = j.maxlen.toNat - 3 - n := by
  have hused : (if j.nextLogBlock ≥ j.sb.sStart then j.nextLogBlock - j.sb.sStart
      else j.maxlen - (j.sb.sStart - j.nextLogBlock)).toNat = n := by
    rcases Nat.lt_or_ge (j.sb.sStart.toNat + n) j.maxlen.toNat with hlt | hge
    · rw [mod_eq_of_lt hlt] at hnext
      have hle : j.sb.sStart ≤ j.nextLogBlock := le_iff_toNat_le.mpr (by omega)
      rw [if_pos hle, UInt32.toNat_sub_of_le _ _ hle]
      omega
    · rw [mod_eq_sub_mod hge, mod_eq_of_lt (by omega)] at hnext
      have hlt : j.nextLogBlock < j.sb.sStart := lt_iff_toNat_lt.mpr (by omega)
      have hsub := UInt32.toNat_sub_of_le _ _ (UInt32.le_of_lt hlt)
      rw [if_neg (UInt32.not_le.mpr hlt),
        UInt32.toNat_sub_of_le _ _ (le_iff_toNat_le.mpr (by omega))]
      omega
  unfold freeBlocks
  rw [toNat_saturatingSub, toNat_saturatingSub, hused]
  rfl

/-! ### Runs -/

structure LogTx where
  start : UInt32
  size : Nat
deriving DecidableEq

def LogTx.blocks (j : Journal) (t : LogTx) : Set Nat :=
  {b | ∃ i < t.size, b = (j.first.toNat + (t.start.toNat + i)) % j.maxlen.toNat}

/-- The journal, its device, the transactions committed since it was opened and the number of log
blocks these have taken. -/
structure LogState where
  journal : Journal
  disk : Disk
  pending : List LogTx
  settled : List LogTx
  written : Nat

def opened (sb : Jbd2Superblock) (d : Disk) : LogState := ⟨.new sb, d, [], [], 0⟩

def commitStep (blocks : List LogBlock) (s : LogState) : LogState :=
  let r := final (journalCommit answer blocks (s.journal, s.disk))
  if r.1.sb.sSequence = s.journal.sb.sSequence then { s with journal := r.1, disk := r.2 }
  else
    { journal := r.1
      disk := r.2
      pending := s.pending ++ [⟨s.journal.nextLogBlock, blocks.length + 2⟩]
      settled := s.settled
      written := s.written + (blocks.length + 2) }

/-- A call that finds transactions moves `s_start`. -/
def checkpointStep (s : LogState) : LogState :=
  let r := final (journalCheckpoint answer (s.journal, s.disk))
  if r.1.sb.sStart = s.journal.sb.sStart then { s with journal := r.1, disk := r.2 }
  else { s with journal := r.1, disk := r.2, pending := [], settled := s.settled ++ s.pending }

theorem add_one_ne (v : UInt32) : v + 1 ≠ v := by
  intro h
  have hv := congrArg UInt32.toNat h
  rw [UInt32.toNat_add, toNat_one] at hv
  omega

theorem commitStep_cases (blocks : List LogBlock) (s : LogState) :
    (∃ d, commitStep answer blocks s = { s with disk := d }) ∨
    (s.journal.hasSpaceFor (ofNat blocks.length) = true ∧ ∃ d, commitStep answer blocks s =
        ⟨s.journal.committed blocks.length, d,
          s.pending ++ [⟨s.journal.nextLogBlock, blocks.length + 2⟩], s.settled,
          s.written + (blocks.length + 2)⟩) := by
  have hc := journalCommit_commits answer s.journal s.disk blocks
  unfold commitStep
  generalize journalCommit answer blocks (s.journal, s.disk) = r at hc ⊢
  cases hc with
  | empty | torn => exact .inl ⟨_, if_pos rfl⟩
  | logged hspace | done hspace => exact .inr ⟨hspace, _, if_neg (add_one_ne _)⟩

theorem checkpointStep_cases (s : LogState) :
    (∃ d, checkpointStep answer s = { s with disk := d }) ∨
    ∃ d, checkpointStep answer s =
      ⟨s.journal.cleaned, d, [], s.settled ++ s.pending, s.written⟩ := by
  have hj := journalCheckpoint_journal answer s.journal s.disk
  unfold checkpointStep
  generalize final (journalCheckpoint answer (s.journal, s.disk)) = r at hj ⊢
  obtain ⟨j, d⟩ := r
  obtain rfl | rfl := hj
  · exact .inl ⟨d, if_pos rfl⟩
  · rcases eq_or_ne s.journal.sb.sSequence s.journal.sb.sStart with heq | hne
    · refine .inl ⟨d, (if_pos heq).trans ?_⟩
      rw [Journal.cleaned, heq]
    · exact .inr ⟨d, if_neg hne⟩

inductive LogStep : LogState → LogState → Prop
  | start (s : LogState) : LogStep s { s with journal := journalStartTransaction s.journal }
  | commit (answer : Nat → Option Halt) {blocks : List LogBlock} (hlen : blocks.length + 2 < 2 ^ 32)
      (s : LogState) : LogStep s (commitStep answer blocks s)
  | checkpoint (answer : Nat → Option Halt) (s : LogState) : LogStep s (checkpointStep answer s)

structure LogInv (first maxlen : UInt32) (s : LogState) : Prop where
  one_le : 1 ≤ first.toNat
  first_eq : s.journal.first = first
  maxlen_eq : s.journal.maxlen = maxlen
  next : s.journal.nextLogBlock.toNat < maxlen.toNat
  front : 2 * first.toNat + s.written ≤ maxlen.toNat →
    s.journal.nextLogBlock.toNat = first.toNat + s.written ∧
      ∀ t ∈ s.pending ++ s.settled, t.start.toNat + t.size ≤ first.toNat + s.written
  last : ∀ t ∈ s.pending.getLast?, s.journal.sb.sStart = t.start ∧
    t.start.toNat < maxlen.toNat ∧ t.size + 3 ≤ maxlen.toNat ∧
      s.journal.nextLogBlock.toNat = (t.start.toNat + t.size) % maxlen.toNat

namespace LogInv

variable {s : LogState}

theorem opened (d : Disk) (hfirst : 1 ≤ sb.sFirst)
    (hlen : sb.sFirst < sb.sMaxlen) : LogInv sb.sFirst sb.sMaxlen (opened sb d) := by
  have hnext : (Journal.new sb).nextLogBlock = sb.sFirst := ite_self _
  constructor
  · exact le_iff_toNat_le.mp hfirst
  · rfl
  · rfl
  · exact hnext ▸ lt_iff_toNat_lt.mp hlen
  · intro _
    exact ⟨congrArg _ hnext, fun t ht => nomatch ht⟩
  · exact fun t ht => nomatch ht

section

variable (h : LogInv first maxlen s)

include h

theorem congr (hf : s'.journal.first = s.journal.first) (hm : s'.journal.maxlen = s.journal.maxlen)
    (hn : s'.journal.nextLogBlock = s.journal.nextLogBlock)
    (hs : s'.journal.sb.sStart = s.journal.sb.sStart) (hp : s'.pending = s.pending)
    (hset : s'.settled = s.settled) (hw : s'.written = s.written) : LogInv first maxlen s' := by
  constructor
  · exact h.one_le
  · rw [hf, h.first_eq]
  · rw [hm, h.maxlen_eq]
  · rw [hn]
    exact h.next
  · rw [hn, hp, hset, hw]
    exact h.front
  · rw [hn, hs, hp]
    exact h.last

theorem committed {blocks : List LogBlock} (hlen : blocks.length + 2 < 2 ^ 32)
    (hspace : s.journal.hasSpaceFor (ofNat blocks.length) = true) : LogInv first maxlen
      ⟨s.journal.committed blocks.length, d,
        s.pending ++ [⟨s.journal.nextLogBlock, blocks.length + 2⟩], s.settled,
        s.written + (blocks.length + 2)⟩ := by
  have hsize := Journal.add_le_of_hasSpaceFor hlen hspace
  rw [h.maxlen_eq] at hsize
  have hnext : (s.journal.committed blocks.length).nextLogBlock.toNat =
      (s.journal.nextLogBlock.toNat + (blocks.length + 2)) % maxlen.toNat := by
    have hahead := toNat_ahead (blocks.length + 2) h.next
    rw [← h.maxlen_eq] at hahead ⊢
    exact hahead
  have hone := h.one_le
  constructor
  · exact hone
  · exact h.first_eq
  · exact h.maxlen_eq
  · rw [hnext]
    exact mod_lt _ (by omega)
  · intro hfront
    dsimp only at hfront
    obtain ⟨heq, hle⟩ := h.front (by omega)
    have := h.next
    constructor
    · rw [hnext, heq, mod_eq_of_lt (by omega), Nat.add_assoc]
    · intro t ht
      simp only [mem_append, List.mem_singleton] at ht
      obtain (ht | rfl) | ht := ht
      · have := hle t (mem_append_left _ ht)
        dsimp only
        omega
      · dsimp only
        omega
      · have := hle t (mem_append_right _ ht)
        dsimp only
        omega
  · intro t ht
    rw [getLast?_concat] at ht
    cases ht
    exact ⟨rfl, h.next, hsize, hnext⟩

theorem checkpointed :
    LogInv first maxlen ⟨s.journal.cleaned, d, [], s.settled ++ s.pending, s.written⟩ := by
  constructor
  · exact h.one_le
  · exact h.first_eq
  · exact h.maxlen_eq
  · exact h.next
  · intro hfront
    obtain ⟨heq, hle⟩ := h.front hfront
    refine ⟨heq, fun t ht => hle t ?_⟩
    simp only [mem_append, nil_append] at ht ⊢
    exact ht.symm
  · exact fun t ht => nomatch ht

theorem step (hstep : LogStep s s') : LogInv first maxlen s' := by
  cases hstep with
  | start => exact h.congr rfl rfl rfl rfl rfl rfl rfl
  | @commit answer blocks hlen =>
    obtain ⟨d, hcall⟩ | ⟨hspace, d, hcall⟩ := commitStep_cases answer blocks s
    · rw [hcall]
      exact h.congr rfl rfl rfl rfl rfl rfl rfl
    · rw [hcall]
      exact h.committed hlen hspace
  | checkpoint answer =>
    obtain ⟨d, hcall⟩ | ⟨d, hcall⟩ := checkpointStep_cases answer s
    · rw [hcall]
      exact h.congr rfl rfl rfl rfl rfl rfl rfl
    · rw [hcall]
      exact h.checkpointed

end

theorem run (hfirst : 1 ≤ sb.sFirst)
    (hlen : sb.sFirst < sb.sMaxlen) (hrun : Relation.ReflTransGen LogStep (Ext4.opened sb d) s) :
    LogInv sb.sFirst sb.sMaxlen s := by
  induction hrun with
  | refl => exact opened d hfirst hlen
  | tail _ hstep ih => exact ih.step hstep

end LogInv

/-- The writes of a commit to the log go neither to the superblock nor to a block of a transaction
committed before. A call that gets that far writes the superblock after them. -/
def SparesLog (s : LogState) (answer : Nat → Option Halt) (blocks : List LogBlock) : Prop :=
  let r := final (journalCommit answer blocks (s.journal, s.disk))
  ∃ ws rest, r.2.logWrites = s.disk.logWrites ++ (ws ++ rest) ∧ (rest = [] ∨
      ws.length = blocks.length + 2 ∧ rest = [(0, serializeJournalSuperblock r.1.sb)]) ∧
    ∀ w ∈ ws, w.1 ≠ 0 ∧ ∀ t ∈ s.pending ++ s.settled, w.1 ∉ t.blocks s.journal

/-- `free_blocks` sets three blocks aside and counts the others that no transaction occupies. -/
def FreeCounted (j : Journal) (t : LogTx) : Prop :=
  j.sb.sStart.toNat ≤ j.nextLogBlock.toNat + j.maxlen.toNat ∧
    j.freeBlocks.toNat + t.size + 3 = j.maxlen.toNat

theorem LogInv.logPlaced_spares {blocks : List LogBlock} (h : LogInv first maxlen s)
    (hfront : 2 * first.toNat + s.written + (blocks.length + 2) ≤ maxlen.toNat)
    (hw : w ∈ logPlaced s.journal blocks) :
    w.1 ≠ 0 ∧ ∀ t ∈ s.pending ++ s.settled, w.1 ∉ t.blocks s.journal := by
  obtain ⟨hnext, hle⟩ := h.front (by omega)
  have hone := h.one_le
  rw [logPlaced, h.first_eq, h.maxlen_eq] at hw
  have hge := mem_placed_front hone (by rw [length_logBuffers]; omega) hw
  constructor
  · omega
  · rintro t ht ⟨i, hi, hb⟩
    have := hle t ht
    rw [h.first_eq, h.maxlen_eq, mod_eq_of_lt (by omega)] at hb
    omega

theorem LogInv.sparesLog {blocks : List LogBlock} (h : LogInv first maxlen s)
    (hfront : 2 * first.toNat + s.written + (blocks.length + 2) ≤ maxlen.toNat)
    (answer : Nat → Option Halt) : SparesLog s answer blocks := by
  have hspares : ∀ w ∈ logPlaced s.journal blocks,
      w.1 ≠ 0 ∧ ∀ t ∈ s.pending ++ s.settled, w.1 ∉ t.blocks s.journal :=
    fun w hw => h.logPlaced_spares hfront hw
  have hc := journalCommit_commits answer s.journal s.disk blocks
  unfold SparesLog
  generalize journalCommit answer blocks (s.journal, s.disk) = r at hc ⊢
  cases hc with
  | empty => exact ⟨[], [], (append_nil _).symm, .inl rfl, fun w hw => nomatch hw⟩
  | @torn e d k hd =>
    refine ⟨(logPlaced s.journal blocks).take k, [], ?_, .inl rfl,
      fun w hw => hspares w (mem_of_mem_take hw)⟩
    rw [append_nil]
    exact hd.logWrites
  | logged _ hd =>
    refine ⟨_, [], ?_, .inl rfl, hspares⟩
    rw [append_nil]
    exact hd.logWrites
  | done _ hd =>
    refine ⟨_, _, hd.logWrites, .inr ⟨?_, rfl⟩, hspares⟩
    rw [logPlaced, length_placed, length_logBuffers]

theorem LogInv.freeCounted {t : LogTx} (h : LogInv first maxlen s)
    (hone : s.pending = [t]) : FreeCounted s.journal t := by
  obtain ⟨hstart, hlt, hsize, hnext⟩ := h.last t (by rw [hone]; rfl)
  rw [← hstart, ← h.maxlen_eq] at hlt hnext
  rw [← h.maxlen_eq] at hsize
  have hfree := Journal.toNat_freeBlocks hlt (by omega) hnext
  constructor <;> omega

/-- As long as the log has not reached the end of the device, a commit writes to no block of an
earlier transaction and not over the superblock. While one transaction waits for a checkpoint,
`free_blocks` counts the blocks beside it. -/
theorem journal_space (hfirst : 1 ≤ sb.sFirst)
    (hlen : sb.sFirst < sb.sMaxlen) (hrun : Relation.ReflTransGen LogStep (opened sb d) s) :
    (∀ answer blocks, 2 * sb.sFirst.toNat + s.written + (blocks.length + 2) ≤ sb.sMaxlen.toNat →
      SparesLog s answer blocks) ∧ ∀ t, s.pending = [t] → FreeCounted s.journal t := by
  have h := LogInv.run hfirst hlen hrun
  constructor
  · intro answer blocks hfront
    exact h.sparesLog hfront answer
  · intro t hone
    exact h.freeCounted hone

def logSb : Jbd2Superblock :=
  { hSequence := 1, sBlocksize := 1024, sMaxlen := 32, sFirst := 1, sSequence := 1, sStart := 0,
    sErrno := 0, sFeatureCompat := 0, sFeatureIncompat := 0, sFeatureRoCompat := 0,
    sUuid := List.replicate 16 0, sNrUsers := 1, sMaxTransaction := 0, sMaxTransData := 0,
    sCommitInterval := 0 }

def blankDisk : Disk := ⟨fun _ => zeroBlock, fun _ => zeroBlock, [], [], 0⟩

def oneBlock : List LogBlock := [⟨7, zeroBlock, 0⟩]

def oneCommit : LogState := commitStep steady oneBlock (opened logSb blankDisk)

theorem oneCommit_run : Relation.ReflTransGen LogStep (opened logSb blankDisk) oneCommit :=
  .single (.commit steady (by decide) _)

theorem oneCommit_space :
    SparesLog oneCommit steady oneBlock ∧ FreeCounted oneCommit.journal ⟨1, 3⟩ := by
  obtain ⟨hspares, hfree⟩ := journal_space (by decide) (by decide) oneCommit_run
  exact ⟨hspares steady oneBlock (by decide +kernel), hfree ⟨1, 3⟩ (by decide +kernel)⟩

/-- `free_blocks` does not return the 31 blocks of the log less the three of the transaction. -/
theorem free_blocks_sets_aside :
    Relation.ReflTransGen LogStep (opened logSb blankDisk) oneCommit ∧
      oneCommit.pending.map LogTx.size = [3] ∧ oneCommit.journal.freeBlocks.toNat ≠
        logSb.sMaxlen.toNat - logSb.sFirst.toNat - (oneCommit.pending.map LogTx.size).sum :=
  ⟨oneCommit_run, by decide +kernel, by decide +kernel⟩

end Gergios.Ext4
