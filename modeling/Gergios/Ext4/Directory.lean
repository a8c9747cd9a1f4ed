import Gergios.Ext4.DirBlock
import Gergios.Ext4.Htree

/-!
# Directories

The callbacks address the blocks of the directory by their number in it. The generation of the inode
is passed on its own, since nothing here changes it.
-/

namespace Gergios.Ext4

open Lib Function List

section Model

variable (sb : Geometry) (env : Env)

def numBlocks (s : Inode) : Nat :=
  ((s.fileSize + .ofNat sb.blockSize - 1) / .ofNat sb.blockSize).toNat

/-- The scan of `lookup_in_dir` from block `b` on, of `k` blocks that are left. -/
def lookupBlocks (name : List UInt8) : Nat → Nat → EStateM Stop World (Option DirEntry)
  | _, 0 => return none
  | b, k + 1 => do
    let block ← env.readBlock b
    match ← ofExcept (lookupLinear block name) with
    | some entry => return some entry
    | none => lookupBlocks name (b + 1) k

def lookupInDir (s : Inode) (name : List UInt8) : EStateM Stop World (Option DirEntry) := do
  let block ← env.readBlock 0
  if IsDxRoot sb block then lookupBlocks env name 0 (numBlocks sb s)
  else ofExcept (lookupLinear block name)

def changeBlocks (dirIno generation : UInt32)
    (change : List UInt8 → Except Stop (Bool × List UInt8)) : Nat → Nat → EStateM Stop World Bool
  | _, 0 => return false
  | b, k + 1 => do
    let block ← env.readBlock b
    let (done, block) ← ofExcept (change block)
    if done then
      env.writeBlock b (sealBlock sb dirIno generation block)
      return true
    else changeBlocks dirIno generation change (b + 1) k

variable (dirIno generation : UInt32)

def emptyDirBlock : List UInt8 :=
  let block := splice (replicate sb.blockSize 0) 0
    (le32 0 ++ le16 (.ofNat (sb.blockSize - direntTailSize)))
  if sb.hasMetadataCsum then
    let csumSeed := crc32cLe 0xFFFFFFFF sb.sUuid
    writeDirBlockTail block sb.blockSize
      (computeDirLeafCsum csumSeed dirIno generation block sb.blockSize)
  else block

/-- The number of the new block is that of the device when it is written, and that in the directory
when it is returned. -/
def expandDir : EStateM Stop (Inode × World) Nat := do
  let s ← getInode
  let fileSize := s.fileSize
  let currentBlocks := fileSize / .ofNat sb.blockSize
  let physBlock ← onWorld env.allocBlock
  onWorld (env.writeBlock physBlock.toNat (emptyDirBlock sb dirIno generation))
  setInode (s.setFileSize (fileSize + .ofNat sb.blockSize))
  extentInsert currentBlocks.toUInt32 physBlock 1 env.writeInode
  return currentBlocks.toNat

def insertInDir (name : List UInt8) (fileType : UInt8)
    (childIno : UInt32) : EStateM Stop (Inode × World) Unit := do
  let block ← onWorld (env.readBlock 0)
  if IsDxRoot sb block then
    if ← onWorld (htreeInsertEntry sb env dirIno generation name fileType childIno) then return ()
    throw (.err .extentTreeFull)
  let s ← getInode
  if ← onWorld (changeBlocks sb env dirIno generation
      (insertIntoBlock · childIno name fileType) 0 (numBlocks sb s)) then return ()
  let newBlock ← expandDir sb env dirIno generation
  let block ← onWorld (env.readBlock newBlock)
  -- Whether there was room is not asked.
  let (_, block) ← ofExcept (insertIntoBlock block childIno name fileType)
  onWorld (env.writeBlock newBlock (sealBlock sb dirIno generation block))

def removeInDir (s : Inode) (dirIno generation : UInt32) (name : List UInt8) :
    EStateM Stop World Bool := do
  let block ← env.readBlock 0
  if IsDxRoot sb block then htreeRemoveEntry sb env dirIno generation name
  else changeBlocks sb env dirIno generation (removeFromBlock · name) 0 (numBlocks sb s)

end Model

variable {sb : Geometry} {env : Env} {s : Inode} {x x' : World} {b c : List UInt8} {n : Nat}
  {recs : List DirRec} {name : List UInt8}

/-! ### Blocks with a checksum -/

structure LeafOk (sb : Geometry) (b : List UInt8) (n : Nat) (recs : List DirRec) : Prop where
  block : DirBlock b n recs
  length : b.length = sb.blockSize
  room : sb.hasMetadataCsum = true → n + direntTailSize = sb.blockSize
  lt : n < 2 ^ 16

variable {pbn len : Nat} {buf : List UInt8} {α : Type} {q : Inode × World} {w : List DirRec}
  {dirIno generation : UInt32} {d d' : (Inode × World) × (List UInt8 → Option Entry)}

theorem LeafOk.writeDirBlockTail (h : LeafOk sb b n recs) (hn : n + direntTailSize = sb.blockSize)
    (checksum : UInt32) : LeafOk sb (writeDirBlockTail b sb.blockSize checksum) n recs := by
  have hlen := h.length
  have hoff : sb.blockSize - direntTailSize = n := by omega
  rw [direntTailSize] at hn
  rw [Ext4.writeDirBlockTail, hoff]
  have htail : n + (le32 0 ++ le16 12 ++ [0, 0xDE] ++ le32 checksum).length ≤ b.length := by
    rw [hlen, ← hn]
    exact Nat.le_refl _
  have hstands := stands_splice htail
  obtain ⟨hstands, -⟩ := hstands.of_append
  obtain ⟨hstands, -⟩ := hstands.of_append
  obtain ⟨h32, h16⟩ := hstands.of_append
  have hsame := length_splice htail
  refine ⟨⟨h.block.tiles.congr (agree_splice htail (.inl (Nat.le_refl _))) hsame, ?_, ?_⟩,
    hsame.trans hlen, h.room, h.lt⟩
  · rw [hsame]
    exact h.block.le
  · refine .inr (.inr ⟨h32.u32At, h16.u16At, ?_⟩)
    rw [hsame, hlen, direntTailSize, hn]

theorem LeafOk.sealBlock (h : LeafOk sb b n recs) (dirIno generation : UInt32) :
    LeafOk sb (sealBlock sb dirIno generation b) n recs := by
  rw [Ext4.sealBlock]
  split
  · rename_i hcsum
    rw [updateDirLeafCsum]
    split
    · exact h
    · exact h.writeDirBlockTail (h.room hcsum) _
  · exact h

theorem LeafOk.of_block {recs' : List DirRec} (h : LeafOk sb b n recs) (hc : DirBlock c n recs')
    (hlen : c.length = b.length) : LeafOk sb c n recs' :=
  ⟨hc, hlen.trans h.length, h.room, h.lt⟩

/-! ### Calls that succeed -/

theorem Env.attempt_outcome (act : World → α × World) (x : World) : Outcome (env.attempt act) x
    (fun a x' => a = (act x).1 ∧ x'.dev = (act x).2.dev) fun _ _ => env.fault x.calls ≠ none := by
  unfold Outcome Env.attempt
  cases env.fault x.calls with
  | some e => exact Option.some_ne_none e
  | none => exact ⟨rfl, rfl⟩

theorem Env.readBlock_outcome (pbn : Nat) (x : World) : Outcome (env.readBlock pbn) x
    (fun buf x' => buf = x.dev pbn ∧ x'.dev = x.dev) fun _ _ => env.fault x.calls ≠ none :=
  attempt_outcome _ x

theorem readBlock_ok (h : env.readBlock pbn x = .ok buf x') :
    buf = x.dev pbn ∧ x'.dev = x.dev := (Env.readBlock_outcome pbn x).of_ok h

theorem writeBlock_ok (h : env.writeBlock pbn buf x = .ok () x') :
    x'.dev = update x.dev pbn buf := ((Env.attempt_outcome _ x).of_ok h).2

theorem onWorld_ok {m : EStateM Stop World α} {a : α}
    (h : onWorld m (s, x) = .ok a q) : q.1 = s ∧ m x = .ok a q.2 := by
  unfold onWorld at h
  split at h
  · rename_i hm
    cases h
    exact ⟨rfl, hm⟩
  · exact nomatch h

theorem ofExcept_ok {σ : Type} {v : Except Stop α} {a : α} {y y' : σ}
    (h : ofExcept v y = .ok a y') : v = .ok a ∧ y' = y := by
  cases v with
  | ok d =>
    cases h
    exact ⟨rfl, rfl⟩
  | error e => exact nomatch h

section Blocks

variable {dirIno generation : UInt32} {change : List UInt8 → Except Stop (Bool × List UInt8)}
  {r : Bool} {j k : Nat}

theorem changeBlocks_found (hchange : change (x.dev j) = .ok (true, c))
    (h : changeBlocks sb env dirIno generation change j (k + 1) x = .ok r x') :
    r = true ∧ x'.dev = update x.dev j (sealBlock sb dirIno generation c) := by
  obtain ⟨buf, y, hread, h⟩ := run_bind_eq_ok h
  obtain ⟨rfl, hdev⟩ := readBlock_ok hread
  obtain ⟨⟨done, c'⟩, y', hof, h⟩ := run_bind_eq_ok h
  obtain ⟨heq, rfl⟩ := ofExcept_ok hof
  cases heq.symm.trans hchange
  obtain ⟨⟨⟩, z, hwrite, h⟩ := run_bind_eq_ok h
  cases h
  exact ⟨rfl, by rw [writeBlock_ok hwrite, hdev]⟩

theorem changeBlocks_none (hchange : ∀ i < k, change (x.dev (j + i)) = .ok (false, x.dev (j + i)))
    (h : changeBlocks sb env dirIno generation change j k x = .ok r x') : x'.dev = x.dev := by
  induction k generalizing j x with
  | zero =>
    cases h
    rfl
  | succ k ih =>
    obtain ⟨buf, y, hread, h⟩ := run_bind_eq_ok h
    obtain ⟨rfl, hdev⟩ := readBlock_ok hread
    obtain ⟨⟨done, c'⟩, y', hof, h⟩ := run_bind_eq_ok h
    obtain ⟨heq, rfl⟩ := ofExcept_ok hof
    cases heq.symm.trans (hchange 0 (Nat.succ_pos k))
    have hrest : ∀ i < k, change (y'.dev (j + 1 + i)) = .ok (false, y'.dev (j + 1 + i)) := by
      intro i hi
      rw [hdev, show j + 1 + i = j + (i + 1) by omega]
      exact hchange (i + 1) (by omega)
    exact (ih hrest h).trans hdev

end Blocks

/-! ### Linear directories -/

/-- The directory holds the entries that `M` says: its first block starts with the entry `.`, and
all entries stand in it, before `n`. -/
structure LinearDir (sb : Geometry) (n : Nat) (s : Inode) (x : World)
    (M : List UInt8 → Option Entry) : Prop where
  pos : 0 < numBlocks sb s
  first : ∃ len dot w, LeafOk sb (x.dev 0) n (⟨len, some dot⟩ :: w) ∧ dot.name = [46] ∧
    (names (⟨len, some dot⟩ :: w)).Nodup ∧
    ∀ m, M m = (live (⟨len, some dot⟩ :: w)).find? (·.name = m)
  others : ∀ j < numBlocks sb s, 0 < j → ∃ n recs, LeafOk sb (x.dev j) n recs ∧ live recs = []

def HasRoom (n : Nat) (x : World) (name : List UInt8) : Prop :=
  ∃ recs, DirBlock (x.dev 0) n recs ∧ ∃ r ∈ recs, direntSize (.ofNat name.length) ≤ r.slack

variable {M : List UInt8 → Option Entry}

theorem LeafOk.not_isDxRoot {e : Entry}
    (h : LeafOk sb b n (⟨len, some e⟩ :: w)) : ¬IsDxRoot sb b := by
  intro hdx
  obtain ⟨hrec, -⟩ := h.block.tiles
  have hentry := congrArg DirRec.entry hrec
  rw [recAt, entryAt, if_pos hdx.1] at hentry
  cases hentry

section

variable (h : LinearDir sb n s x M)

include h

theorem LinearDir.lookup (name : List UInt8) : Outcome (lookupInDir sb env s name) x
    (fun r _ => r.map DirEntry.entry = M name) fun _ _ => env.fault x.calls ≠ none := by
  obtain ⟨len, dot, w, hleaf, -, -, hM⟩ := h.first
  refine (Env.readBlock_outcome 0 x).bind ?_
  rintro buf y ⟨rfl, -⟩
  rw [if_neg hleaf.not_isDxRoot, hM]
  have heq := lookupLinear_eq hleaf.block name
  cases hlook : lookupLinear (x.dev 0) name with
  | ok r =>
    rw [hlook] at heq
    exact Except.ok.inj heq
  | error e =>
    rw [hlook] at heq
    exact nomatch heq

theorem LinearDir.rewrite {M' : List UInt8 → Option Entry} {dot : Entry} {x' : World}
    (hdev : x'.dev = update x.dev 0 c)
    (hleaf : LeafOk sb c n (⟨len, some dot⟩ :: w)) (hdot : dot.name = [46])
    (hnodup : (names (⟨len, some dot⟩ :: w)).Nodup)
    (hM : ∀ m, M' m = (live (⟨len, some dot⟩ :: w)).find? (·.name = m)) :
    LinearDir sb n s x' M' := by
  refine ⟨h.pos, ⟨len, dot, w, ?_, hdot, hnodup, hM⟩, fun j hj hpos => ?_⟩
  · rw [hdev]
    exact hleaf
  · rw [hdev, update_of_ne (by omega)]
    exact h.others j hj hpos

theorem LinearDir.insert {fileType : UInt8} {childIno : UInt32} (hname : name.length ≤ 255)
    (hino : childIno ≠ 0) (hfresh : M name = none)
    (hroom : HasRoom n x name)
    (hrun : insertInDir sb env dirIno generation name fileType childIno (s, x) = .ok () q) :
    q.1 = s ∧ LinearDir sb n s q.2 (update M name (some ⟨childIno, fileType, name⟩)) := by
  obtain ⟨len, dot, w, hleaf, hdot, hnodup, hM⟩ := h.first
  have hnew : name ∉ names (⟨len, some dot⟩ :: w) := by
    rw [mem_names]
    rintro ⟨e, he, heq⟩
    rw [hM, find?_eq_none] at hfresh
    exact hfresh e he (decide_eq_true heq)
  rcases insertIntoBlock_changes fileType hleaf.block hino (Nat.lt_succ_of_le hname) with
    ⟨hnone, -⟩ | ⟨recs', c, hsome, hinsert, hlen, hc⟩
  · obtain ⟨recs, hblock, r, hr, hslack⟩ := hroom
    obtain rfl := hleaf.block.tiles.unique hblock.tiles
    exact absurd (insertRec_eq_none.mp hnone r hr) (Nat.not_lt.mpr hslack)
  obtain ⟨buf, q₁, hread, hrun⟩ := run_bind_eq_ok hrun
  obtain ⟨hs, hread⟩ := onWorld_ok hread
  obtain ⟨rfl, hdev⟩ := readBlock_ok hread
  rw [if_neg hleaf.not_isDxRoot] at hrun
  obtain ⟨s', q₂, hget, hrun⟩ := run_bind_eq_ok hrun
  cases hget
  obtain ⟨done, q₃, hblocks, hrun⟩ := run_bind_eq_ok hrun
  obtain ⟨hs', hblocks⟩ := onWorld_ok hblocks
  obtain ⟨k, hk⟩ := Nat.exists_eq_succ_of_ne_zero h.pos.ne'
  rw [hs, hk] at hblocks
  obtain ⟨rfl, hwrite⟩ := changeBlocks_found (hdev ▸ hinsert) hblocks
  cases hrun
  obtain ⟨len', w', rfl⟩ := insertRec_head hsome
  obtain ⟨u, v, hold, hlive⟩ := live_insertRec hsome
  refine ⟨hs'.trans hs,
    h.rewrite (hdev ▸ hwrite) ((hleaf.of_block hc hlen).sealBlock _ _) hdot ?_ ?_⟩
  · rw [names, hlive, map_append, map_cons, nodup_middle, nodup_cons, ← map_append, ← hold]
    exact ⟨hnew, hnodup⟩
  · intro m
    rw [hlive]
    rcases eq_or_ne m name with rfl | hm
    · rw [update_self, find?_append, find?_eq_none_of_notMem,
        find?_cons_of_pos (by exact decide_eq_true rfl)]
      · rfl
      · intro hu
        apply hnew
        rw [names, hold, map_append]
        exact mem_append_left _ hu
    · rw [update_of_ne hm, find?_middle hm.symm, ← hold]
      exact hM m

theorem LinearDir.remove {r : Bool} (hname : name ≠ [46])
    (hrun : removeInDir sb env s dirIno generation name x = .ok r x') :
    LinearDir sb n s x' (update M name none) := by
  obtain ⟨len, dot, w, hleaf, hdot, hnodup, hM⟩ := h.first
  obtain ⟨buf, y, hread, hrun⟩ := run_bind_eq_ok hrun
  obtain ⟨rfl, hdev⟩ := readBlock_ok hread
  rw [if_neg hleaf.not_isDxRoot] at hrun
  rcases removeFromBlock_changes hleaf.block hleaf.lt name with
    ⟨hnone, hremove⟩ | ⟨recs', c, hsome, hremove, hlen, hc⟩
  · have hall : ∀ i < numBlocks sb s,
        removeFromBlock (y.dev (0 + i)) name = .ok (false, y.dev (0 + i)) := by
      intro i hi
      rw [hdev, Nat.zero_add]
      rcases Nat.eq_zero_or_pos i with rfl | hpos
      · exact hremove
      · obtain ⟨n', recs', hother, hempty⟩ := h.others i hi hpos
        rcases removeFromBlock_changes hother.block hother.lt name with
          ⟨-, hskip⟩ | ⟨recs'', c, hsome, -⟩
        · exact hskip
        · rw [removeRec_eq_none.mpr (by rw [hempty]; exact fun _ h => nomatch h)] at hsome
          exact nomatch hsome
    have hdev' := changeBlocks_none hall hrun
    have hsame : update M name none = M := by
      refine update_eq_self_iff.mpr ?_
      rw [hM, eq_comm, find?_eq_none]
      intro e he heq
      exact removeRec_eq_none.mp hnone e he (of_decide_eq_true heq)
    rw [hsame]
    refine ⟨h.pos, ⟨len, dot, w, ?_, hdot, hnodup, hM⟩, ?_⟩
    · rw [hdev', hdev]
      exact hleaf
    · rw [hdev', hdev]
      exact h.others
  · obtain ⟨k, hk⟩ := Nat.exists_eq_succ_of_ne_zero h.pos.ne'
    rw [hk] at hrun
    obtain ⟨-, hwrite⟩ := changeBlocks_found (hdev ▸ hremove) hrun
    have hnot : ¬(⟨len, some dot⟩ : DirRec).Named name := by
      rw [named_iff]
      rintro ⟨e, heq, rfl⟩
      cases heq
      exact hname hdot
    have hafter := hsome
    rw [removeRec, if_neg hnot] at hafter
    obtain ⟨len', w', rfl⟩ := removeAfter_head hafter
    obtain ⟨u, e, v, hold, hlive, rfl⟩ := live_removeRec hsome
    rw [names, hold, map_append, map_cons, nodup_middle, nodup_cons, ← map_append] at hnodup
    refine h.rewrite (hdev ▸ hwrite) ((hleaf.of_block hc hlen).sealBlock _ _) hdot ?_ ?_
    · rw [names, hlive]
      exact hnodup.2
    · intro m
      rw [hlive]
      rcases eq_or_ne m e.name with rfl | hm
      · rw [update_self, find?_eq_none_of_notMem hnodup.1]
      · rw [update_of_ne hm, hM, hold, find?_middle hm.symm]

end

/-! ### Runs -/

theorem length_le_of_valid (h : isValidDirentName name = true) : name.length ≤ 255 := by
  simp only [isValidDirentName, Bool.and_eq_true, decide_eq_true_eq] at h
  exact h.1.2

theorem ne_dot_of_valid (h : isValidDirentName name = true) : name ≠ [46] := by
  simp only [isValidDirentName, Bool.and_eq_true, decide_eq_true_eq] at h
  exact h.1.1.1.2

/-- A call that succeeds, and the entries before and after it. A new name is not yet in the
directory and has room in its first block. -/
inductive DirStep (sb : Geometry) (env : Env) (n : Nat) :
    (Inode × World) × (List UInt8 → Option Entry) →
      (Inode × World) × (List UInt8 → Option Entry) → Prop
  | inserted {s : Inode} {x : World} {q : Inode × World} {M : List UInt8 → Option Entry}
      {dirIno generation childIno : UInt32} {name : List UInt8} {fileType : UInt8}
      (hname : isValidDirentName name = true) (hino : childIno ≠ 0) (hfresh : M name = none)
      (hroom : HasRoom n x name)
      (h : insertInDir sb env dirIno generation name fileType childIno (s, x) = .ok () q) :
      DirStep sb env n ((s, x), M) (q, update M name (some ⟨childIno, fileType, name⟩))
  | removed {s : Inode} {x x' : World} {M : List UInt8 → Option Entry}
      {dirIno generation : UInt32} {name : List UInt8} {r : Bool}
      (hname : isValidDirentName name = true)
      (h : removeInDir sb env s dirIno generation name x = .ok r x') :
      DirStep sb env n ((s, x), M) ((s, x'), update M name none)

theorem DirStep.linearDir (h : LinearDir sb n d.1.1 d.1.2 d.2) (hstep : DirStep sb env n d d') :
    LinearDir sb n d'.1.1 d'.1.2 d'.2 := by
  cases hstep with
  | inserted hname hino hfresh hroom hrun =>
    obtain ⟨hs, hdir⟩ := h.insert (length_le_of_valid hname) hino hfresh hroom hrun
    exact hs ▸ hdir
  | removed hname hrun => exact h.remove (ne_dot_of_valid hname) hrun

theorem DirStep.run_linearDir
    (h : LinearDir sb n d.1.1 d.1.2 d.2) (hrun : Relation.ReflTransGen (DirStep sb env n) d d') :
    LinearDir sb n d'.1.1 d'.1.2 d'.2 := by
  induction hrun with
  | refl => exact h
  | tail _ hstep ih => exact hstep.linearDir ih

/-- Every name resolves to what was inserted last under it. -/
theorem linear_dir_lookup {s₀ : Inode} {x₀ : World} {M₀ : List UInt8 → Option Entry}
    (h₀ : LinearDir sb n s₀ x₀ M₀)
    (hrun : Relation.ReflTransGen (DirStep sb env n) ((s₀, x₀), M₀) ((s, x), M))
    (name : List UInt8) :
    (∀ r x', lookupInDir sb env s name x = .ok r x' → r.map DirEntry.entry = M name) ∧
      ∀ e x', lookupInDir sb env s name x = .error e x' → env.fault x.calls ≠ none := by
  have h : LinearDir sb n s x M := DirStep.run_linearDir h₀ hrun
  exact ⟨fun r x' hlook => (h.lookup name).of_ok hlook,
    fun e x' hlook => (h.lookup name).of_error hlook⟩

def dirSb : Geometry where
  toSuperblock := default
  sInodesCount := 2048
  sBlocksCountLo := 8192
  sBlocksCountHi := 0
  sFirstDataBlock := 0
  sBlocksPerGroup := 8192
  sInodesPerGroup := 2048
  sRevLevel := 1
  sInodeSize := 128
  sDescSize := 0
  sFeatureIncompat := 0
  sFeatureRoCompat := 0
  sUuid := []
  sHashSeed _ := 0

def dirEnv : Env := ⟨fun _ => none, fun _ => .error .noSpace⟩

/-- A directory of one block with nothing but `.` and `..`. -/
def freshBlock : List UInt8 :=
  direntBytes 2 12 2 [46] ++ [0, 0, 0] ++ direntBytes 2 1012 2 [46, 46] ++ replicate 1002 0

def freshRecs : List DirRec := [⟨12, some ⟨2, 2, [46]⟩⟩, ⟨1012, some ⟨2, 2, [46, 46]⟩⟩]

def dirInode (size : UInt32) : Inode :=
  ⟨0, size, 0, 0, 0, 0, 0, 0, ⟨replicate 60 0, length_replicate⟩⟩

theorem freshBlock_ok : LeafOk dirSb freshBlock 1024 freshRecs := by
  refine ⟨⟨?_, ?_, .inl ?_⟩, ?_, ?_, ?_⟩
  all_goals decide +kernel

theorem freshDir_ok : LinearDir dirSb 1024 (dirInode 1024) ⟨fun _ => freshBlock, 0, 0⟩
    fun m => (live freshRecs).find? (·.name = m) := by
  refine ⟨by decide +kernel, ⟨12, _, _, freshBlock_ok, rfl, by decide, fun _ => rfl⟩, ?_⟩
  have hone : numBlocks dirSb (dirInode 1024) = 1 := by decide +kernel
  omega

theorem fresh_dir_lookup : ∃ q, insertInDir dirSb dirEnv 2 0 [97] 1 11
        (dirInode 1024, ⟨fun _ => freshBlock, 0, 0⟩) = .ok () q ∧
      ∀ r x', lookupInDir dirSb dirEnv q.1 [97] q.2 = .ok r x' →
        r.map DirEntry.entry = some ⟨11, 1, [97]⟩ := by
  obtain ⟨q, hq⟩ := exists_of_returned (r := insertInDir dirSb dirEnv 2 0 [97] 1 11
    (dirInode 1024, ⟨fun _ => freshBlock, 0, 0⟩)) (a := ()) (by decide +kernel)
  have hroom : HasRoom 1024 ⟨fun _ => freshBlock, 0, 0⟩ [97] :=
    ⟨freshRecs, freshBlock_ok.block, _, mem_cons_of_mem _ (mem_singleton_self _), by decide⟩
  have hstep : DirStep dirSb dirEnv 1024
      ((dirInode 1024, ⟨fun _ => freshBlock, 0, 0⟩), fun m => (live freshRecs).find? (·.name = m))
      (q, _) := .inserted (by decide) (by decide) (by decide) hroom hq
  refine ⟨q, hq, fun r x' hlook => ?_⟩
  rw [(linear_dir_lookup freshDir_ok (.single hstep) [97]).1 r x' hlook, update_self]

def fullBlock : List UInt8 :=
  direntBytes 2 12 2 [46] ++ [0, 0, 0] ++ direntBytes 2 12 2 [46, 46] ++ [0, 0] ++
    direntBytes 11 264 1 (.replicate 255 97) ++ [0] ++
    direntBytes 12 264 1 (.replicate 255 98) ++ [0] ++
    direntBytes 13 264 1 (.replicate 255 99) ++ [0] ++ direntBytes 14 208 1 (.replicate 200 100)

def blankBlock : List UInt8 := [0, 0, 0, 0, 0, 4] ++ replicate 1018 0

def twoBlocks : World := ⟨fun j => if j = 0 then fullBlock else blankBlock, 0, 0⟩

def insertThenLookup (sb : Geometry) (env : Env) (name : List UInt8) (childIno : UInt32) :
    EStateM Stop (Inode × World) (Option DirEntry) := do
  insertInDir sb env 2 0 name 1 childIno
  let s ← getInode
  onWorld (lookupInDir sb env s name)

/-- A name that goes into the second block is not found. -/
theorem second_block_not_searched :
    LeafOk dirSb (twoBlocks.dev 0) 1024 [⟨12, some ⟨2, 2, [46]⟩⟩,
      ⟨12, some ⟨2, 2, [46, 46]⟩⟩, ⟨264, some ⟨11, 1, .replicate 255 97⟩⟩,
      ⟨264, some ⟨12, 1, .replicate 255 98⟩⟩, ⟨264, some ⟨13, 1, .replicate 255 99⟩⟩,
      ⟨208, some ⟨14, 1, .replicate 200 100⟩⟩] ∧
    LeafOk dirSb (twoBlocks.dev 1) 1024 [⟨1024, none⟩] ∧
    numBlocks dirSb (dirInode 2048) = 2 ∧
    ∃ q, insertThenLookup dirSb dirEnv [97] 15 (dirInode 2048, twoBlocks) =
      .ok none q := by
  refine ⟨⟨⟨?_, ?_, .inl ?_⟩, ?_, ?_, ?_⟩, ⟨⟨?_, ?_, .inl ?_⟩, ?_, ?_, ?_⟩, ?_,
    exists_of_returned ?_⟩
  all_goals decide +kernel

end Gergios.Ext4
