import Gergios.Ext4.Journal

/-!
# What the calls of a journal do
-/

namespace Gergios.Ext4

open Lib Function List UInt32

def final {ε σ α : Type} : EStateM.Result ε σ α → σ
  | .ok _ s => s
  | .error _ s => s

def steady : Nat → Option Halt := fun _ => none

/-! ### Positions -/

variable {first maxlen pos : UInt32} {f : Nat → List UInt8} {ws : List (Nat × List UInt8)}
  {d d' : Disk} {σ α : Type} {m : EStateM Halt Disk α} {s : σ × Disk}

theorem toNat_step (h : pos.toNat < maxlen.toNat) :
    ((pos + 1) % maxlen).toNat = (pos.toNat + 1) % maxlen.toNat := by
  have hmax := maxlen.toNat_lt
  rw [UInt32.toNat_mod, UInt32.toNat_add, toNat_one,
    Nat.mod_eq_of_lt (show pos.toNat + 1 < 2 ^ 32 by omega)]

theorem step_lt (h : pos.toNat < maxlen.toNat) : ((pos + 1) % maxlen).toNat < maxlen.toNat := by
  rw [toNat_step h]
  exact Nat.mod_lt _ (by omega)

/-- The position `n` blocks further on. -/
def ahead (maxlen : UInt32) : Nat → UInt32 → UInt32
  | 0, pos => pos
  | n + 1, pos => ahead maxlen n ((pos + 1) % maxlen)

theorem toNat_ahead (n : Nat) (h : pos.toNat < maxlen.toNat) :
    (ahead maxlen n pos).toNat = (pos.toNat + n) % maxlen.toNat := by
  induction n generalizing pos with
  | zero => rw [ahead, Nat.add_zero, Nat.mod_eq_of_lt h]
  | succ n ih => rw [ahead, ih (step_lt h), toNat_step h, Nat.mod_add_mod, Nat.add_assoc,
      Nat.add_comm 1]

/-! ### Free blocks -/

theorem toNat_saturatingSub (a b : UInt32) : (saturatingSub a b).toNat = a.toNat - b.toNat := by
  unfold saturatingSub
  split
  · rename_i h
    exact UInt32.toNat_sub_of_le _ _ h
  rename_i h
  have := UInt32.not_le.mp h
  rw [lt_iff_toNat_lt] at this
  rw [UInt32.toNat_zero]
  omega

variable (j : Journal)

theorem Journal.freeBlocks_le : j.freeBlocks.toNat ≤ j.maxlen.toNat - 3 := by
  unfold freeBlocks
  rw [toNat_saturatingSub, toNat_saturatingSub]
  exact Nat.sub_le _ _

theorem Journal.add_le_of_hasSpaceFor {j : Journal} {n : Nat} (hn : n + 2 < 2 ^ 32)
    (h : j.hasSpaceFor (ofNat n) = true) : n + 2 + 3 ≤ j.maxlen.toNat := by
  have hle : (1 + ofNat n + 1).toNat ≤ j.freeBlocks.toNat :=
    le_iff_toNat_le.mp (of_decide_eq_true h)
  rw [UInt32.toNat_add, UInt32.toNat_add, toNat_ofNat', toNat_one] at hle
  have := j.freeBlocks_le
  omega

/-! ### Writes to the log -/

variable (f)

/-- `f` after writes, the last one to a block counting. -/
def putAll (ws : List (Nat × List UInt8)) : Nat → List UInt8 :=
  ws.foldl (fun f w => update f w.1 w.2) f

theorem putAll_append (ws vs : List (Nat × List UInt8)) :
    putAll f (ws ++ vs) = putAll (putAll f ws) vs :=
  foldl_append

theorem putAll_cons (w : Nat × List UInt8) (ws : List (Nat × List UInt8)) :
    putAll f (w :: ws) = putAll (update f w.1 w.2) ws := rfl

variable {f}

theorem putAll_of_ne {b : Nat} (h : ∀ w ∈ ws, w.1 ≠ b) : putAll f ws b = f b := by
  induction ws generalizing f with
  | nil => rfl
  | cons w ws ih =>
    rw [putAll_cons, ih fun v hv => h v (mem_cons_of_mem _ hv),
      update_of_ne (h w mem_cons_self).symm]

theorem putAll_congr {g : Nat → List UInt8}
    (h : ∀ b, (∃ w ∈ ws, w.1 = b) ∨ f b = g b) : putAll f ws = putAll g ws := by
  induction ws generalizing f g with
  | nil =>
    funext b
    obtain ⟨w, hw, -⟩ | hb := h b
    · exact nomatch hw
    · exact hb
  | cons w ws ih =>
    rw [putAll_cons, putAll_cons]
    apply ih
    intro b
    rcases eq_or_ne b w.1 with rfl | hne
    · right
      rw [update_self, update_self]
    · rw [update_of_ne hne, update_of_ne hne]
      obtain ⟨v, hv, rfl⟩ | hb := h b
      · obtain rfl | hv := mem_cons.mp hv
        · exact absurd rfl hne
        · exact .inl ⟨v, hv, rfl⟩
      · exact .inr hb

theorem putAll_take (f : Nat → List UInt8) (ws : List (Nat × List UInt8)) (k : Nat) :
    putAll (putAll f (ws.take k)) ws = putAll f ws := by
  apply putAll_congr
  intro b
  rcases Classical.em (∃ w ∈ ws, w.1 = b) with h | h
  · exact .inl h
  · exact .inr (putAll_of_ne fun w hw hb => h ⟨w, mem_of_mem_take hw, hb⟩)

/-- `d'` comes from `d` by the writes `ls` to the journal device and `ws` to the file system. -/
structure Wrote (d : Disk) (ls ws : List (Nat × List UInt8)) (d' : Disk) : Prop where
  log : d'.log = putAll d.log ls
  logWrites : d'.logWrites = d.logWrites ++ ls
  fs : d'.fs = putAll d.fs ws
  fsWrites : d'.fsWrites = d.fsWrites ++ ws

theorem Wrote.nil (hlog : d'.log = d.log) (hw : d'.logWrites = d.logWrites)
    (hfs : d'.fs = d.fs) (hf : d'.fsWrites = d.fsWrites) : Wrote d [] [] d' :=
  ⟨hlog, by rw [hw, append_nil], hfs, by rw [hf, append_nil]⟩

theorem Wrote.refl (d : Disk) : Wrote d [] [] d := .nil rfl rfl rfl rfl

theorem Wrote.trans {d'' : Disk} {ls ls' ws' : List (Nat × List UInt8)}
    (h : Wrote d ls ws d') (h' : Wrote d' ls' ws' d'') : Wrote d (ls ++ ls') (ws ++ ws') d'' := by
  constructor
  · rw [h'.log, h.log, putAll_append]
  · rw [h'.logWrites, h.logWrites, append_assoc]
  · rw [h'.fs, h.fs, putAll_append]
  · rw [h'.fsWrites, h.fsWrites, append_assoc]

variable (answer : Nat → Option Halt)

theorem writeJournalBlock_cases (b : Nat) (buf : List UInt8)
    (d : Disk) : (∃ d', writeJournalBlock answer b buf d = .ok () d' ∧ Wrote d [(b, buf)] [] d') ∨
    ∃ e d', writeJournalBlock answer b buf d = .error e d' ∧ Wrote d [] [] d' ∧
      answer d.calls = some e := by
  unfold writeJournalBlock diskCall
  cases hans : answer d.calls with
  | none => exact .inl ⟨_, rfl, ⟨rfl, rfl, rfl, (append_nil _).symm⟩⟩
  | some e => exact .inr ⟨e, _, rfl, .nil rfl rfl rfl rfl, rfl⟩

def placed (first maxlen : UInt32) : UInt32 → List (List UInt8) → List (Nat × List UInt8)
  | _, [] => []
  | pos, buf :: rest =>
    (((first + pos) % maxlen).toNat, buf) :: placed first maxlen ((pos + 1) % maxlen) rest

theorem length_placed (first maxlen pos : UInt32) (bufs : List (List UInt8)) :
    (placed first maxlen pos bufs).length = bufs.length := by
  induction bufs generalizing pos with
  | nil => rfl
  | cons buf rest ih => rw [placed, length_cons, length_cons, ih]

theorem writeLog_cases (first maxlen : UInt32)
    (bufs : List (List UInt8)) (pos : UInt32) (d : Disk) :
    (∃ d', writeLog answer first maxlen bufs pos d = .ok (ahead maxlen bufs.length pos) d' ∧
      Wrote d (placed first maxlen pos bufs) [] d') ∨
    ∃ e d' k, writeLog answer first maxlen bufs pos d = .error e d' ∧
      Wrote d ((placed first maxlen pos bufs).take k) [] d' := by
  induction bufs generalizing pos d with
  | nil => exact .inl ⟨d, rfl, .refl d⟩
  | cons buf rest ih =>
    rw [writeLog]
    obtain ⟨d1, hw, h1⟩ | ⟨e, d1, hw, h1, -⟩ :=
      writeJournalBlock_cases answer ((first + pos) % maxlen).toNat buf d
    · rw [run_bind_ok hw]
      obtain ⟨d', hrun, h⟩ | ⟨e, d', k, hrun, h⟩ := ih ((pos + 1) % maxlen) d1
      · exact .inl ⟨d', hrun, h1.trans h⟩
      · exact .inr ⟨e, d', k + 1, hrun, h1.trans h⟩
    · exact .inr ⟨e, d1, 0, run_bind_error hw, h1⟩

theorem onDisk_ok {a : α} (h : m s.2 = .ok a d) : onDisk m s = .ok a (s.1, d) := by
  rw [onDisk, h]

theorem onDisk_error {e : Halt} (h : m s.2 = .error e d) : onDisk m s = .error e (s.1, d) := by
  rw [onDisk, h]

/-- The journal in memory after a transaction of `n` blocks. -/
def Journal.committed (n : Nat) : Journal :=
  { j with
    sb := { j.sb with
      sSequence := j.sb.sSequence + 1
      sStart := j.nextLogBlock
      sErrno := 0
      hSequence := j.sb.sSequence + 1 }
    nextLogBlock := ahead j.maxlen (n + 2) j.nextLogBlock }

def Journal.cleaned : Journal :=
  { j with sb := { j.sb with sStart := j.sb.sSequence } }

theorem length_logBuffers (blocks : List LogBlock) :
    (logBuffers j blocks).length = blocks.length + 2 := by
  simp [logBuffers]

def logPlaced (blocks : List LogBlock) : List (Nat × List UInt8) :=
  placed j.first j.maxlen j.nextLogBlock (logBuffers j blocks)

/-- How a call of `journal_commit` can end: before the log is complete, with a log that the
superblock does not know, or with both written. -/
inductive Commits (j : Journal) (d : Disk) (blocks : List LogBlock) :
    EStateM.Result Halt (Journal × Disk) UInt32 → Prop
  | empty (h : blocks = []) : Commits j d blocks (.ok 0 (j, d))
  | torn {e : Halt} {d' : Disk} {k : Nat} (hw : Wrote d ((logPlaced j blocks).take k) [] d') :
      Commits j d blocks (.error e (j, d'))
  | logged {e : Halt} {d' : Disk} (hspace : j.hasSpaceFor (ofNat blocks.length) = true)
      (hw : Wrote d (logPlaced j blocks) [] d') :
      Commits j d blocks (.error e (j.committed blocks.length, d'))
  | done {n : UInt32} {d' : Disk} (hspace : j.hasSpaceFor (ofNat blocks.length) = true)
      (hw : Wrote d (logPlaced j blocks ++
        [(0, serializeJournalSuperblock (j.committed blocks.length).sb)]) [] d') :
      Commits j d blocks (.ok n (j.committed blocks.length, d'))

theorem journalCommit_commits (j : Journal) (d : Disk)
    (blocks : List LogBlock) : Commits j d blocks (journalCommit answer blocks (j, d)) := by
  rcases eq_or_ne blocks [] with rfl | hne
  · exact .empty rfl
  unfold journalCommit
  rw [if_neg (by simpa using hne), run_bind_ok (run_get (j, d))]
  dsimp only
  cases hspace : j.hasSpaceFor (ofNat blocks.length) with
  | false => exact .torn (k := 0) (.refl d)
  | true =>
    rw [if_neg (by simp)]
    obtain ⟨d1, hlog, h1⟩ | ⟨e, d1, k, hlog, h1⟩ := writeLog_cases answer j.first j.maxlen
      (logBuffers j blocks) j.nextLogBlock d
    · rw [run_bind_ok (onDisk_ok hlog), length_logBuffers, run_bind_ok (run_modify _ _)]
      obtain ⟨d2, hsb, h2⟩ | ⟨e, d2, hsb, h2, -⟩ := writeJournalBlock_cases answer 0
        (serializeJournalSuperblock (j.committed blocks.length).sb) d1
      · rw [run_bind_ok (onDisk_ok hsb)]
        exact .done hspace (h1.trans h2)
      · rw [run_bind_error (onDisk_error hsb)]
        exact .logged hspace (append_nil (logPlaced j blocks) ▸ h1.trans h2)
    · rw [run_bind_error (onDisk_error hlog)]
      exact .torn h1

end Gergios.Ext4
