import Gergios.Ext4.Directory

/-!
# Searches in indexed directories

The entries of an index block divide the hashes into intervals. The search goes down through the
entries whose intervals contain the hash of the name.
-/

namespace Gergios.Ext4

open Lib Function List

def dxTailSize : Nat := 8

def computeDxNodeCsum (csumSeed : UInt32) (block : List UInt8) (blockSize : Nat) : UInt32 :=
  crc32cLe csumSeed (block.take (blockSize - dxTailSize))

def writeDxNodeTail (block : List UInt8) (blockSize : Nat) (checksum : UInt32) : List UInt8 :=
  splice block (blockSize - dxTailSize) (le32 0 ++ le32 checksum)

/-- The records of `.` and `..`, a record without an inode, the information on the tree and its only
entry. -/
def htreeDirHead (blockSize : Nat) (dirIno parentIno : UInt32) (hashVersion : UInt8) :
    List UInt8 :=
  direntBytes dirIno (.ofNat (direntSize 1)) 2 [46] ++ [0, 0, 0] ++
    direntBytes parentIno (.ofNat (direntSize 2)) 2 [46, 46] ++ [0, 0] ++
    le32 0 ++ le16 (.ofNat (blockSize - 24)) ++ [0, 0] ++ le32 0 ++ [hashVersion, 8, 0, 0] ++
    le16 (.ofNat ((blockSize - 40 - 4) / 8)) ++ le16 1 ++ le32 0 ++ le32 0 ++ le32 0

def initHtreeDir (env : Env) (block : List UInt8) (dirIno parentIno : UInt32)
    (hashVersion : UInt8) (csumSeed : UInt32) : EStateM Stop World Unit := do
  let blockSize := block.length
  let head := htreeDirHead blockSize dirIno parentIno hashVersion
  if blockSize < head.length then throw .panicked
  let block := head ++ replicate (blockSize - head.length) 0
  env.writeBlock 0 (if csumSeed ≠ 0 then
    writeDxNodeTail block blockSize (computeDxNodeCsum csumSeed block blockSize) else block)

section Layout

variable (block : List UInt8) (off : Nat)

def dxCount : Nat := (dxGetCount block off).toNat

def dxHash (i : Nat) : UInt32 := u32At block (off + 8 + i * 8)

def dxBlock (i : Nat) : Nat := (u32At block (off + 8 + i * 8 + 4)).toNat

/-- The entries stand in the block, sorted by their hashes from 0 on. -/
structure IndexBlock : Prop where
  pos : 0 < dxCount block off
  fits : off + 8 + dxCount block off * 8 ≤ block.length
  first : dxHash block off 0 = 0
  sorted : ∀ i j, i ≤ j → j < dxCount block off → dxHash block off i ≤ dxHash block off j

/-- The interval of an entry reaches from its hash up to that of the next entry. -/
structure InEntry (hash : UInt32) (i : Nat) : Prop where
  lt : i < dxCount block off
  le : dxHash block off i ≤ hash
  next : i + 1 < dxCount block off → hash < dxHash block off (i + 1)

end Layout

/-- The tree below an index block: the numbers of the index blocks are in `Index`, those of the
blocks with the entries of the directory in `Leaf`. -/
def Htree (dev : Nat → List UInt8) (Index Leaf : Nat → Prop) : Nat → List UInt8 → Nat → Prop
  | 0, b, off => IndexBlock b off ∧ ∀ i < dxCount b off, Leaf (dxBlock b off i)
  | level + 1, b, off => IndexBlock b off ∧ ∀ i < dxCount b off, Index (dxBlock b off i) ∧
      Htree dev Index Leaf level (dev (dxBlock b off i)) dxNodeEntriesOffset

/-- The hash is in the interval of `leaf` and in those of all subtrees around it. -/
def Leads (dev : Nat → List UInt8) (hash : UInt32) (leaf : Nat) : Nat → List UInt8 → Nat → Prop
  | 0, b, off => ∃ i, InEntry b off hash i ∧ leaf = dxBlock b off i
  | level + 1, b, off => ∃ i, InEntry b off hash i ∧
      Leads dev hash leaf level (dev (dxBlock b off i)) dxNodeEntriesOffset

variable {sb : Geometry} {env : Env} {x x' : World} {b name : List UInt8} {off leaf level : Nat}
  {hash : UInt32} {Index Leaf : Nat → Prop} {dev dev' : Nat → List UInt8}

/-! ### The search in one index block -/

theorem searchHash_spec (h : IndexBlock b off) (hash : UInt32) : ∀ k lo hi, lo ≤ hi →
      hi ≤ dxCount b off → hi - lo ≤ k → (∀ i < lo, dxHash b off i ≤ hash) →
      (∀ i, hi ≤ i → i < dxCount b off → hash < dxHash b off i) →
      let r := searchHash b (off + 8) hash k lo hi
      r ≤ dxCount b off ∧ (∀ i < r, dxHash b off i ≤ hash) ∧
        ∀ i, r ≤ i → i < dxCount b off → hash < dxHash b off i := by
  intro k
  induction k with
  | zero =>
    intro lo hi hle hhi hk hlo hup
    obtain rfl : lo = hi := by omega
    exact ⟨hhi, hlo, hup⟩
  | succ k ih =>
    intro lo hi hle hhi hk hlo hup
    have hfits := h.fits
    rw [searchHash]
    split
    · dsimp only
      rw [if_neg (by omega)]
      split
      · rename_i hmid
        exact ih _ _ (by omega) hhi (by omega)
          (fun i hi => UInt32.le_trans (h.sorted i _ (Nat.le_of_lt_succ hi) (by omega)) hmid) hup
      · rename_i hmid
        exact ih _ _ (by omega) (by omega) (by omega) hlo
          fun i hi hlt => UInt32.lt_of_lt_of_le (UInt32.not_le.mp hmid) (h.sorted _ i hi hlt)
    · obtain rfl : lo = hi := by omega
      exact ⟨hhi, hlo, hup⟩

theorem InEntry.unique {i j : Nat} (h : IndexBlock b off) (hi : InEntry b off hash i)
    (hj : InEntry b off hash j) : i = j := by
  have hlt : ∀ {i j}, InEntry b off hash i → InEntry b off hash j → ¬i < j := by
    intro i j hi hj hlt
    have hnext := hi.next (by have := hj.lt; omega)
    have hle := UInt32.le_trans (h.sorted (i + 1) j hlt hj.lt) hj.le
    exact absurd hle (UInt32.not_le.mpr hnext)
  have h1 := hlt hi hj
  have h2 := hlt hj hi
  omega

/-! ### The search in the tree -/

theorem Leads.unique {leaf' : Nat} (h : Htree dev Index Leaf level b off)
    (hl : Leads dev hash leaf level b off) (hl' : Leads dev hash leaf' level b off) :
    leaf = leaf' := by
  induction level generalizing b off with
  | zero =>
    obtain ⟨i, hi, rfl⟩ := hl
    obtain ⟨j, hj, rfl⟩ := hl'
    rw [hi.unique h.1 hj]
  | succ level ih =>
    obtain ⟨i, hi, hl⟩ := hl
    obtain ⟨j, hj, hl'⟩ := hl'
    obtain rfl := hi.unique h.1 hj
    exact ih (h.2 i hi.lt).2 hl hl'

/-- Only index blocks are read. -/
theorem Htree.congr {Leaf' : Nat → Prop} (h : Htree dev Index Leaf level b off)
    (hdev : ∀ j, Index j → dev' j = dev j) (hleaf : ∀ j, Leaf j → Leaf' j) :
    Htree dev' Index Leaf' level b off ∧
      ∀ {leaf}, Leads dev hash leaf level b off → Leads dev' hash leaf level b off := by
  induction level generalizing b off with
  | zero => exact ⟨⟨h.1, fun i hi => hleaf _ (h.2 i hi)⟩, id⟩
  | succ level ih =>
    refine ⟨⟨h.1, fun i hi => ?_⟩, fun ⟨i, hi, hl⟩ => ⟨i, hi, ?_⟩⟩
    · obtain ⟨hindex, htree⟩ := h.2 i hi
      rw [hdev _ hindex]
      exact ⟨hindex, (ih htree).1⟩
    · obtain ⟨hindex, htree⟩ := h.2 i hi.lt
      rw [hdev _ hindex]
      exact (ih htree).2 hl

def Faulty (env : Env) : Prop := ∃ k, env.fault k ≠ none

theorem outcome_faulty {α : Type} {m : EStateM Stop World α} {Q : α → World → Prop}
    (h : Outcome m x Q fun _ _ => env.fault x.calls ≠ none) : Outcome m x Q fun _ _ => Faulty env :=
  h.mono (fun _ _ h => h) fun _ _ h => ⟨x.calls, h⟩

theorem walkIndex_eq (h : IndexBlock b off) (env : Env) (hash : UInt32) : ∃ i,
    InEntry b off hash i ∧ ∀ level, walkIndex env hash level b off =
      match level with
      | 0 => pure (dxBlock b off i)
      | level + 1 => env.readBlock (dxBlock b off i) >>= fun block =>
        walkIndex env hash level block dxNodeEntriesOffset := by
  have hpos := h.pos
  have hfits := h.fits
  obtain ⟨hle, hlow, hup⟩ := searchHash_spec h hash (dxCount b off) 0 (dxCount b off)
    (Nat.zero_le _) (Nat.le_refl _) (Nat.le_refl _) (fun _ hi => absurd hi (Nat.not_lt_zero _))
    fun i hi hlt => absurd hlt (Nat.not_lt.mpr hi)
  generalize hr : searchHash b (off + 8) hash (dxCount b off) 0 (dxCount b off) = r at hle hlow hup
  have hne : r ≠ 0 := by
    rintro rfl
    have hlt := hup 0 (Nat.le_refl 0) hpos
    rw [h.first] at hlt
    exact absurd hlt UInt32.not_lt_zero
  refine ⟨r - 1, ⟨by omega, hlow _ (by omega), hup _ (by omega)⟩, fun level => ?_⟩
  rw [walkIndex]
  dsimp only
  rw [← dxCount, hr, if_neg hpos.ne', if_pos (Nat.pos_of_ne_zero hne), if_neg (by omega)]
  cases level <;> rfl

theorem Htree.walkIndex (h : Htree dev Index Leaf level b off) (hx : x.dev = dev) :
    Outcome (walkIndex env hash level b off) x
      (fun leaf x' => Leads dev hash leaf level b off ∧ Leaf leaf ∧ x'.dev = dev)
      fun _ _ => Faulty env := by
  induction level generalizing b off x with
  | zero =>
    obtain ⟨i, hi, heq⟩ := walkIndex_eq h.1 env hash
    rw [heq]
    exact .pure ⟨⟨i, hi, rfl⟩, h.2 i hi.lt, hx⟩
  | succ level ih =>
    obtain ⟨i, hi, heq⟩ := walkIndex_eq h.1 env hash
    rw [heq]
    refine (outcome_faulty (Env.readBlock_outcome _ x)).bind ?_
    rintro buf y ⟨rfl, hdev⟩
    rw [hx] at hdev ⊢
    exact (ih (h.2 i hi.lt).2 hdev).mono
      (fun leaf y' ⟨hl, hleaf, hy⟩ => ⟨⟨i, hi, hl⟩, hleaf, hy⟩) fun _ _ h => h

def rootLevels (root : List UInt8) : Nat := (root.getD (dxRootInfoOffset + 6) 0).toNat

structure HtreeDir (sb : Geometry) (dev : Nat → List UInt8) (Index Leaf : Nat → Prop) : Prop where
  root : IsDxRoot sb (dev 0)
  tree : Htree dev Index Leaf (rootLevels (dev 0)) (dev 0) dxRootEntriesOffset

/-- The interval of `leaf` contains the hash of the name. -/
def LeafFor (sb : Geometry) (dev : Nat → List UInt8) (name : List UInt8) (leaf : Nat) : Prop :=
  Leads dev (htreeHash sb name ((dev 0).getD (dxRootInfoOffset + 4) 0)) leaf
    (rootLevels (dev 0)) (dev 0) dxRootEntriesOffset

theorem Htree.index (h : Htree dev Index Leaf level b off) : IndexBlock b off := by
  cases level <;> exact h.1

theorem HtreeDir.findLeaf (h : HtreeDir sb x.dev Index Leaf) (name : List UInt8) :
    Outcome (htreeFindLeaf sb env name) x
      (fun r x' => ∃ leaf, r = some leaf ∧ LeafFor sb x.dev name leaf ∧ Leaf leaf ∧
        x'.dev = x.dev) fun _ _ => Faulty env := by
  refine (outcome_faulty (Env.readBlock_outcome 0 x)).bind ?_
  rintro buf y ⟨rfl, hdev⟩
  have hfits := h.tree.index.fits
  have hlen : ¬(x.dev 0).length < dxRootInfoOffset + 8 := by
    rw [dxRootEntriesOffset] at hfits
    rw [dxRootInfoOffset]
    omega
  rw [if_neg (not_not.mpr h.root), if_neg hlen]
  refine (h.tree.walkIndex hdev).bind ?_
  rintro leaf z ⟨hl, hleaf, hz⟩
  exact .pure ⟨leaf, rfl, hl, hleaf, hz⟩

/-- A block with entries is none of the index blocks. -/
def HoldsEntries (sb : Geometry) (dev : Nat → List UInt8) (Index : Nat → Prop) (j : Nat) : Prop :=
  ¬Index j ∧ ∃ n recs, LeafOk sb (dev j) n recs

variable {dirIno generation childIno : UInt32} {fileType : UInt8} {n : Nat} {recs : List DirRec}

/-- One block is changed as the list of its records is. -/
theorem changeLeaf_outcome {change : List UInt8 → Except Stop (Bool × List UInt8)}
    {o : Option (List DirRec)} (hleaf : LeafOk sb (x.dev leaf) n recs)
    (hchange : Changes (x.dev leaf) n (change (x.dev leaf)) o) :
    Outcome (changeBlocks sb env dirIno generation change leaf 1) x
      (fun r x' => r = o.isSome ∧ ∀ recs', o = some recs' →
        ∃ c, LeafOk sb c n recs' ∧ x'.dev = update x.dev leaf c) fun _ _ => Faulty env := by
  refine (outcome_faulty (Env.readBlock_outcome leaf x)).bind ?_
  rintro buf y ⟨rfl, hy⟩
  rcases hchange with ⟨rfl, heq⟩ | ⟨recs', c, rfl, heq, hlen, hc⟩
  · rw [heq]
    exact .pure ⟨rfl, fun _ h => nomatch h⟩
  rw [heq]
  refine .bind_ok rfl ((outcome_faulty (Env.attempt_outcome _ y)).bind ?_)
  rintro u x' ⟨-, hx'⟩
  rw [hy] at hx'
  refine .pure ⟨rfl, fun recs'' hrecs => ?_⟩
  cases hrecs
  exact ⟨_, (hleaf.of_block hc hlen).sealBlock dirIno generation, hx'⟩

theorem HtreeDir.insert (h : HtreeDir sb x.dev Index (HoldsEntries sb x.dev Index)) (h0 : Index 0)
    (hname : name.length ≤ 255) (hino : childIno ≠ 0)
    (hrun : htreeInsertEntry sb env dirIno generation name fileType childIno x = .ok true x') :
    HtreeDir sb x'.dev Index (HoldsEntries sb x'.dev Index) ∧
      ∃ leaf, LeafFor sb x'.dev name leaf ∧
        ∃ n recs, LeafOk sb (x'.dev leaf) n recs ∧ name ∈ names recs := by
  obtain ⟨r, y, hfind, hrun⟩ := run_bind_eq_ok hrun
  obtain ⟨leaf, rfl, hl, ⟨hnot, n, recs, hleaf⟩, hy⟩ := (h.findLeaf name).of_ok hfind
  rw [← hy] at hleaf
  obtain ⟨hsome, hnew⟩ := (changeLeaf_outcome hleaf (insertIntoBlock_changes fileType hleaf.block
    hino (Nat.lt_succ_of_le hname))).of_ok hrun
  obtain ⟨recs', hrecs⟩ := Option.isSome_iff_exists.mp hsome.symm
  obtain ⟨c, hc, hx'⟩ := hnew recs' hrecs
  rw [hy] at hx'
  have hdev : ∀ j, Index j → x'.dev j = x.dev j := by
    intro j hj
    rw [hx', update_of_ne]
    rintro rfl
    exact hnot hj
  have hgood : ∀ j, HoldsEntries sb x.dev Index j → HoldsEntries sb x'.dev Index j := by
    rintro j ⟨hj, hok⟩
    refine ⟨hj, ?_⟩
    rw [hx']
    rcases eq_or_ne j leaf with rfl | hne
    · rw [update_self]
      exact ⟨n, recs', hc⟩
    · rw [update_of_ne hne]
      exact hok
  obtain ⟨htree, hleads⟩ := h.tree.congr hdev hgood
  obtain ⟨u, v, -, hlive⟩ := live_insertRec hrecs
  refine ⟨⟨?_, ?_⟩, leaf, ?_, n, recs', ?_, ?_⟩
  · rw [hdev 0 h0]
    exact h.root
  · rw [hdev 0 h0]
    exact htree
  · rw [LeafFor, hdev 0 h0]
    exact hleads hl
  · rw [hx', update_self]
    exact hc
  · rw [names, hlive, map_append, map_cons]
    exact mem_append_right _ (mem_cons_self ..)

theorem HtreeDir.remove (h : HtreeDir sb x.dev Index Leaf)
    (hl : LeafFor sb x.dev name leaf) (hleaf : LeafOk sb (x.dev leaf) n recs)
    (hname : name ∈ names recs) :
    Outcome (htreeRemoveEntry sb env dirIno generation name) x (fun r _ => r = true)
      fun _ _ => Faulty env := by
  refine (h.findLeaf name).bind ?_
  rintro r y ⟨leaf', rfl, hl', -, hy⟩
  obtain rfl := hl.unique h.tree hl'
  rw [← hy] at hleaf
  refine (changeLeaf_outcome hleaf (removeFromBlock_changes hleaf.block hleaf.lt name)).mono ?_
    fun _ _ h => h
  rintro r x' ⟨rfl, -⟩
  rw [Option.isSome_iff_ne_none]
  intro hnone
  obtain ⟨e, he, heq⟩ := mem_names.mp hname
  exact removeRec_eq_none.mp hnone e he heq

theorem length_htreeDirHead (blockSize : Nat) (dirIno parentIno : UInt32) (hashVersion : UInt8) :
    (htreeDirHead blockSize dirIno parentIno hashVersion).length = 56 := by
  simp only [htreeDirHead, direntBytes, le32, le16, length_append, length_cons, length_nil]

/-- The first record of a new directory is `.`, which does not fill the block. -/
theorem initHtreeDir_recLen {block : List UInt8} {parentIno csumSeed : UInt32}
    {hashVersion : UInt8}
    (h : initHtreeDir env block dirIno parentIno hashVersion csumSeed x = .ok () x') :
    u16At (x'.dev 0) 4 = 12 := by
  unfold initHtreeDir at h
  dsimp only at h
  rw [length_htreeDirHead] at h
  split at h
  · exact nomatch h
  rename_i hlen
  have hrec (w : List UInt8) :
      u16At (htreeDirHead block.length dirIno parentIno hashVersion ++ w) 4 = 12 := by
    simp only [htreeDirHead, direntBytes, le32, append_assoc]
    rfl
  rw [writeBlock_ok h, update_self]
  split
  · rw [writeDxNodeTail, dxTailSize]
    refine (Agree.u16At (agree_splice ?_ (.inl (by omega)))).trans (hrec _)
    simp only [length_append, length_htreeDirHead, length_replicate]
    change block.length - 8 + 8 ≤ _
    omega
  · exact hrec _

/-- The call returns a value in `Q`, unless a callback fails. -/
def Gives {α : Type} (env : Env) (m : EStateM Stop World α) (x : World) (Q : α → Prop) : Prop :=
  (∀ r x', m x = .ok r x' → Q r) ∧ ∀ e x', m x = .error e x' → Faulty env

theorem gives {α : Type} {m : EStateM Stop World α} {Q : α → Prop}
    (h : Outcome m x (fun r _ => Q r) fun _ _ => Faulty env) : Gives env m x Q :=
  ⟨fun _ _ => h.of_ok, fun _ _ => h.of_error⟩

/-- The search finds the leaf of a name, and a name that was inserted there is removed there, in
every tree. A directory that `init_htree_dir` wrote is never taken for a tree. -/
theorem htree_search (sb : Geometry) (env : Env) :
    (∀ x Index Leaf, HtreeDir sb x.dev Index Leaf → ∀ name, Gives env (htreeFindLeaf sb env name) x
      fun r => ∃ leaf, r = some leaf ∧ ∀ l, LeafFor sb x.dev name l ↔ l = leaf) ∧
    (∀ x x' Index, Index 0 → HtreeDir sb x.dev Index (HoldsEntries sb x.dev Index) →
      ∀ dirIno generation name fileType childIno, name.length ≤ 255 → childIno ≠ 0 →
      htreeInsertEntry sb env dirIno generation name fileType childIno x = .ok true x' →
      Gives env (htreeRemoveEntry sb env dirIno generation name) x' (· = true)) ∧
    ∀ x x' block dirIno parentIno hashVersion csumSeed,
      initHtreeDir env block dirIno parentIno hashVersion csumSeed x = .ok () x' →
      ∀ name, Gives env (htreeFindLeaf sb env name) x' (· = none) := by
  refine ⟨fun x Index Leaf h name => gives ?_, fun x x' Index h0 h => ?_, ?_⟩
  · refine (h.findLeaf name).mono ?_ fun _ _ h => h
    rintro r x' ⟨leaf, rfl, hl, -⟩
    exact ⟨leaf, rfl, fun l => ⟨fun hl' => hl'.unique h.tree hl, fun heq => heq ▸ hl⟩⟩
  · intro dirIno generation name fileType childIno hname hino hrun
    obtain ⟨hdir, leaf, hl, n, recs, hleaf, hmem⟩ := h.insert h0 hname hino hrun
    exact gives (hdir.remove hl hleaf hmem)
  · intro x x' block dirIno parentIno hashVersion csumSeed hinit name
    refine gives ((outcome_faulty (Env.readBlock_outcome 0 x')).bind ?_)
    rintro buf y ⟨rfl, -⟩
    have hnot : ¬IsDxRoot sb (x'.dev 0) := by
      rintro ⟨-, hlen⟩
      rw [initHtreeDir_recLen hinit, Superblock.blockSize, Nat.shiftLeft_eq] at hlen
      have hpos := Nat.two_pow_pos sb.sLogBlockSize
      have h12 : (12 : UInt16).toNat = 12 := rfl
      omega
    rw [if_pos hnot]
    exact .pure rfl

/-- Block 0 has the root of a tree of two levels, block 1 its index block with two leaves. -/
def twoLeaves : World where
  dev j := if j = 0 then
      le32 0 ++ le16 1024 ++ [0, 0] ++ le32 0 ++ [0, 8, 1, 0] ++ le16 125 ++ le16 1 ++ le32 0 ++
        le32 0 ++ le32 1 ++ replicate 992 0
    else if j = 1 then
      le32 0 ++ le16 1024 ++ [0, 0] ++ le16 126 ++ le16 2 ++ le32 0 ++ le32 0 ++ le32 2 ++
        le32 0x80000000 ++ le32 3 ++ replicate 992 0
    else freshBlock
  calls := 0
  allocs := 0

theorem twoLeaves_htree :
    HtreeDir dirSb twoLeaves.dev (· < 2) (HoldsEntries dirSb twoLeaves.dev (· < 2)) := by
  have hlevels : rootLevels (twoLeaves.dev 0) = 1 := by decide +kernel
  have hroot : dxCount (twoLeaves.dev 0) dxRootEntriesOffset = 1 := by decide +kernel
  have hcount : dxCount (twoLeaves.dev 1) dxNodeEntriesOffset = 2 := by decide +kernel
  have hone : dxBlock (twoLeaves.dev 0) dxRootEntriesOffset 0 = 1 := by decide +kernel
  refine ⟨by decide +kernel, ?_⟩
  rw [hlevels]
  refine ⟨⟨by decide +kernel, by decide +kernel, by decide +kernel, fun i j hij hj => ?_⟩,
    fun i hi => ?_⟩
  · obtain rfl : i = j := by omega
    exact UInt32.le_refl _
  obtain rfl : i = 0 := by omega
  rw [hone]
  refine ⟨Nat.one_lt_two, ⟨by decide +kernel, by decide +kernel, by decide +kernel,
    fun i j hij hj => ?_⟩, fun i hi => ?_⟩
  · obtain rfl | ⟨rfl, rfl⟩ : i = j ∨ i = 0 ∧ j = 1 := by omega
    · exact UInt32.le_refl _
    · decide +kernel
  · obtain rfl | rfl : i = 0 ∨ i = 1 := by omega
    · exact ⟨by decide +kernel, 1024, freshRecs, freshBlock_ok⟩
    · exact ⟨by decide +kernel, 1024, freshRecs, freshBlock_ok⟩

theorem twoLeaves_search :
    (Gives dirEnv (htreeFindLeaf dirSb dirEnv [97]) twoLeaves
      fun r => ∃ leaf, r = some leaf ∧ ∀ l, LeafFor dirSb twoLeaves.dev [97] l ↔ l = leaf) ∧
    ∃ x', htreeInsertEntry dirSb dirEnv 2 0 [97] 1 11 twoLeaves = .ok true x' ∧
      Gives dirEnv (htreeRemoveEntry dirSb dirEnv 2 0 [97]) x' (· = true) := by
  obtain ⟨hfind, hinsert, -⟩ := htree_search dirSb dirEnv
  obtain ⟨x', hx'⟩ := exists_of_returned
    (r := htreeInsertEntry dirSb dirEnv 2 0 [97] 1 11 twoLeaves) (a := true) (by decide +kernel)
  exact ⟨hfind twoLeaves _ _ twoLeaves_htree [97], x', hx',
    hinsert twoLeaves x' _ Nat.two_pos twoLeaves_htree 2 0 [97] 1 11 (by decide) (by decide) hx'⟩

/-- In a new directory no leaf is found. -/
theorem new_htree_not_recognised : ∃ x',
    (initHtreeDir dirEnv (replicate 1024 0) 12 2 1 0 >>= fun _ =>
      htreeFindLeaf dirSb dirEnv [97]) twoLeaves = .ok none x' :=
  exists_of_returned (by decide +kernel)

end Gergios.Ext4
