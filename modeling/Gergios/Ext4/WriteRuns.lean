import Gergios.Ext4.InsertOne
import Gergios.Ext4.ReadWrite

/-!
# Reading what was written

The blocks of a write are processed one after the other. What holds between two of them says which
bytes of the file are new and that the others are as they were; it is also what is left when the
write stops with an error.
-/

namespace Gergios.Ext4

open Lib Function List Nat

variable {sb : Superblock} {env : Env} {offset : Nat} {buf : List UInt8} {s t : Inode}
  {dev : Nat → List UInt8}

def Written (offset : Nat) (buf : List UInt8) (o : Nat) : Prop :=
  offset ≤ o ∧ o < offset + buf.length

instance (o : Nat) : Decidable (Written offset buf o) := inferInstanceAs (Decidable (_ ∧ _))

/-- The state when the blocks below `n` are done. -/
structure Progress (sb : Superblock) (env : Env) (offset : Nat) (buf : List UInt8) (s₀ : Inode)
    (x₀ : World) (n : Nat) (s : Inode) (dev : Nat → List UInt8) (allocs : Nat) : Prop where
  leaf : IsLeaf s
  length : s.extents.length ≤ inlineExtentsCount
  spread : Spread s.runs
  size : s.fileSize = s₀.fileSize
  blocks : ∀ pbn, (dev pbn).length = sb.blockSize
  unshared : Unshared s
  allocated : ∀ j p, x₀.allocs ≤ j → j < allocs → env.alloc j = .ok p →
    ∃ lb, runFind s.runs lb = some p.toNat
  bytes : ∀ o, rawByte sb s dev o =
    if Written offset buf o ∧ o / sb.blockSize < n then buf.getD (o - offset) 0
    else rawByte sb s₀ x₀.dev o

/-! ### One block -/

variable {lb pbn : Nat} {old : List UInt8} {x y : World}

theorem rawByte_update {blk : List UInt8}
    (hfind : ∀ k, runFind t.runs k = if k = lb then some pbn else runFind s.runs k)
    (hfree : ∀ k, k ≠ lb → runFind s.runs k ≠ some pbn) (o : Nat) :
    rawByte sb t (update dev pbn blk) o =
      if o / sb.blockSize = lb then blk.getD (o % sb.blockSize) 0 else rawByte sb s dev o := by
  rw [rawByte, hfind]
  rcases eq_or_ne (o / sb.blockSize) lb with hlb | hne
  · rw [if_pos hlb, if_pos hlb]
    simp only [update_self]
  · rw [if_neg hne, if_neg hne, rawByte]
    cases hk : runFind s.runs (o / sb.blockSize) with
    | none => rfl
    | some b =>
      have hb : b ≠ pbn := by
        rintro rfl
        exact hfree _ hne hk
      simp only [update_of_ne hb]

theorem mul_add_inBlockOff (hlb : offset / sb.blockSize ≤ lb) :
    lb * sb.blockSize + inBlockOff sb offset lb = max offset (lb * sb.blockSize) ∧
      inBlockOff sb offset lb < sb.blockSize := by
  have hbs := sb.blockSize_bounds
  obtain ⟨hfirst, hlt⟩ := mul_add_first lb hlb (by omega : 0 < sb.blockSize)
  have hmod : inBlockOff sb offset lb =
      if lb = offset / sb.blockSize then offset % sb.blockSize else 0 := by
    rw [inBlockOff]
    split
    · rename_i heq
      rw [heq, ← mod_eq_sub_div_mul]
    · rfl
  rw [hmod]
  exact ⟨hfirst, by omega⟩

def done (sb : Superblock) (offset : Nat) (buf : List UInt8) (lb : Nat) : Nat :=
  min (offset + buf.length) (max offset (lb * sb.blockSize)) - offset

section Slice

variable (h : offset + buf.length + sb.blockSize ≤ 2 ^ 64)
include h

theorem endOffset_eq : endOffset offset buf = offset + buf.length := by
  have := sb.blockSize_bounds
  exact mod_eq_of_lt (by omega)

theorem endBlock_eq :
    endBlock sb offset buf = (offset + buf.length + sb.blockSize - 1) / sb.blockSize := by
  rw [endBlock, endOffset_eq h, mod_eq_of_lt (by omega)]

variable {lb : Nat} (hend : lb < endBlock sb offset buf)
include hend

theorem mul_add_inBlockEnd : lb * sb.blockSize + inBlockEnd sb offset buf lb =
      min (offset + buf.length) (lb * sb.blockSize + sb.blockSize) := by
  have hbs := sb.blockSize_bounds
  have hpos : 0 < sb.blockSize := by omega
  have hceil := endBlock_eq h
  have hlt := lt_of_lt_ceil (offset + buf.length) lb hpos (by rwa [← hceil])
  rw [inBlockEnd, endOffset_eq h]
  split
  · have hle := le_ceil_mul (offset + buf.length) hpos
    rw [← hceil, show endBlock sb offset buf = lb + 1 by omega, succ_mul] at hle
    omega
  · have hnext := lt_of_lt_ceil (offset + buf.length) (lb + 1) hpos (by rw [← hceil]; omega)
    rw [succ_mul] at hnext
    omega

theorem done_eq : done sb offset buf lb = max offset (lb * sb.blockSize) - offset := by
  have hbs := sb.blockSize_bounds
  have hlt := lt_of_lt_ceil (offset + buf.length) lb (by omega : 0 < sb.blockSize)
    (by rwa [← endBlock_eq h])
  rw [done, Nat.min_eq_right (by omega)]

variable (hlb : offset / sb.blockSize ≤ lb)
include hlb

theorem length_slice : (slice sb offset buf lb (done sb offset buf lb)).length =
    inBlockEnd sb offset buf lb - inBlockOff sb offset lb := by
  obtain ⟨hoff, -⟩ := mul_add_inBlockOff hlb
  have hstop := mul_add_inBlockEnd h hend
  rw [slice, length_take, length_drop, done_eq h hend]
  omega

theorem getD_slice (hold : old.length = sb.blockSize) {i : Nat} (hi : i < sb.blockSize) :
    (splice old (inBlockOff sb offset lb)
      (slice sb offset buf lb (done sb offset buf lb))).getD i 0 =
      if Written offset buf (lb * sb.blockSize + i) then buf.getD (lb * sb.blockSize + i - offset) 0
      else old.getD i 0 := by
  obtain ⟨hoff, hlt⟩ := mul_add_inBlockOff hlb
  have hstop := mul_add_inBlockEnd h hend
  have hlen := length_slice h hend hlb
  rw [getD_splice (by omega), hlen]
  have hiff : inBlockOff sb offset lb ≤ i ∧ i < inBlockOff sb offset lb +
      (inBlockEnd sb offset buf lb - inBlockOff sb offset lb) ↔
      Written offset buf (lb * sb.blockSize + i) := by
    simp only [Written]
    omega
  rw [if_congr hiff rfl rfl]
  split
  · rename_i hw
    have hin := hiff.mpr hw
    simp only [slice, done_eq h hend, getD_eq_getElem?_getD, getElem?_take, getElem?_drop]
    rw [if_pos (by omega)]
    congr 2
    omega
  · rfl

end Slice

/-- A block that `alloc_block` returned can be mapped for `lb`: it is not in use, its number has 48
bits, the extent that it joins stays within the length of an extent or there is an entry left, and
its contents can be written. -/
structure Placeable (env : Env) (lb : Nat) (q : Inode × World) (p : UInt64) : Prop where
  unused : ∀ k, runFind q.1.runs k ≠ some p.toNat
  fits : p.toNat < 2 ^ 48
  short : ∀ e ∈ q.1.extents, JoinsTo lb p e → e.run.len + 1 < 2 ^ 15
  room : (∃ e ∈ q.1.extents, JoinsTo lb p e) ∨ q.1.extents.length < inlineExtentsCount
  accepted : env.fault q.2.calls = none

def AllocSafe (env : Env) (lb : Nat) (q : Inode × World) : Prop :=
  runFind q.1.runs lb = none → ∀ p, env.alloc q.2.allocs = .ok p → Placeable env lb q p

section Step

variable {s₀ : Inode} {x₀ : World} {lb allocs : Nat}
  (hq : Progress sb env offset buf s₀ x₀ lb s dev allocs)
  (h : offset + buf.length + sb.blockSize ≤ 2 ^ 64) (hend : lb < endBlock sb offset buf)
  (hlb : offset / sb.blockSize ≤ lb)
include hq h hend hlb

theorem Progress.patch {allocs' : Nat} (hold : old.length = sb.blockSize)
    (hread : ∀ i < sb.blockSize, rawByte sb s dev (lb * sb.blockSize + i) = old.getD i 0)
    (hleaf : IsLeaf t) (hlen : t.extents.length ≤ inlineExtentsCount) (hspread : Spread t.runs)
    (hsize : t.fileSize = s.fileSize)
    (hfind : ∀ k, runFind t.runs k = if k = lb then some pbn else runFind s.runs k)
    (hfree : ∀ k, k ≠ lb → runFind s.runs k ≠ some pbn)
    (hallocs : ∀ j p, x₀.allocs ≤ j → j < allocs' → env.alloc j = .ok p →
      ∃ k, runFind t.runs k = some p.toNat) : Progress sb env offset buf s₀ x₀ (lb + 1) t
      (update dev pbn
        (splice old (inBlockOff sb offset lb) (slice sb offset buf lb (done sb offset buf lb))))
      allocs' := by
  have hbs := sb.blockSize_bounds
  refine ⟨hleaf, hlen, hspread, hsize.trans hq.size, ?_, ?_, hallocs, ?_⟩
  · intro b
    rcases eq_or_ne b pbn with rfl | hne
    · obtain ⟨hoff, hlt⟩ := mul_add_inBlockOff hlb
      have hstop := mul_add_inBlockEnd h hend
      have hslice := length_slice h hend hlb
      rw [update_self, length_splice (by omega), hold]
    · rw [update_of_ne hne]
      exact hq.blocks b
  · intro k j b hk hj
    rw [hfind] at hk hj
    split at hk <;> split at hj <;> rename_i h1 h2
    · rw [h1, h2]
    · exact absurd (hj.trans hk.symm) (hfree j h2)
    · exact absurd (hk.trans hj.symm) (hfree k h1)
    · exact hq.unshared k j b hk hj
  · intro o
    rw [rawByte_update hfind hfree]
    split
    · rename_i heq
      have ho : lb * sb.blockSize + o % sb.blockSize = o := by
        rw [← heq, div_add_mod']
      have hi : o % sb.blockSize < sb.blockSize := mod_lt _ (by omega)
      rw [getD_slice h hend hlb hold hi, ← hread _ hi, ho, hq.bytes, heq]
      simp
    · rw [hq.bytes]
      exact if_congr (and_congr_right' (by omega)) rfl rfl

omit h hend hlb in
theorem Progress.setBlocksCount (count : UInt64) :
    Progress sb env offset buf s₀ x₀ lb (s.setBlocksCount count) dev allocs :=
  ⟨⟨hq.leaf.extents, hq.leaf.magic, hq.leaf.depth⟩, hq.length, hq.spread, hq.size, hq.blocks,
    hq.unshared, hq.allocated, hq.bytes⟩

theorem Progress.fresh {p : UInt64} (h32 : lb < 2 ^ 32)
    (hnone : runFind s.runs lb = none) (hp : env.alloc allocs = .ok p)
    (hplace : Placeable env lb (s, x) p) : ∃ W, insertNew (.ofNat lb) p 1 s.extents = .ok W ∧
      Progress sb env offset buf s₀ x₀ (lb + 1) (s.setExtents W)
        (update dev p.toNat (splice (replicate sb.blockSize 0)
          (inBlockOff sb offset lb) (slice sb offset buf lb (done sb offset buf lb))))
        (allocs + 1) := by
  obtain ⟨hunused, hfits, hshort, hroom, -⟩ := hplace
  obtain ⟨W, hok, hone⟩ := insertNew_one hq.spread hq.length h32 hnone hfits hshort hroom
  have hW : W.length < 2 ^ 16 := hone.length.trans_lt (by decide)
  have hext : (s.setExtents W).extents = W := by
    rw [(setExtents_header hW).2.2.2, take_of_length_le hone.length]
  have hruns : (s.setExtents W).runs = W.map Extent.run := by rw [Inode.runs, hext]
  have hfind : ∀ k, runFind (s.setExtents W).runs k =
      if k = lb then some p.toNat else runFind s.runs k := by
    rw [hruns]
    exact hone.find
  refine ⟨W, hok, hq.patch h hend hlb length_replicate ?_
    (setExtents_isLeaf hq.leaf.extents hW) (by rw [hext]; exact hone.length)
    (by rw [hruns]; exact hone.spread) rfl hfind (fun k _ => hunused k) ?_⟩
  · intro i hi
    rw [rawByte_add lb hi, hnone]
    simp [getD_eq_getElem?_getD]
  · intro j b hj hlt hb
    rcases Nat.lt_succ_iff_lt_or_eq.mp hlt with hlt | rfl
    · obtain ⟨k, hk⟩ := hq.allocated j b hj hlt hb
      refine ⟨k, ?_⟩
      rw [hfind, if_neg, hk]
      rintro rfl
      cases hnone.symm.trans hk
    · cases hp.symm.trans hb
      exact ⟨lb, by rw [hfind, if_pos rfl]⟩

theorem Progress.blockStep (hx : x.dev = dev ∧ x.allocs = allocs)
    (h32 : lb < 2 ^ 32) (hsafe : AllocSafe env lb (s, x)) :
    match blockStep sb env offset buf lb (done sb offset buf lb) (s, x) with
    | .ok c (t, y) => c = inBlockEnd sb offset buf lb - inBlockOff sb offset lb ∧
      Progress sb env offset buf s₀ x₀ (lb + 1) t y.dev y.allocs
    | .error _ (t, y) =>
      ∃ n, Progress sb env offset buf s₀ x₀ n t y.dev y.allocs := by
  obtain ⟨rfl, rfl⟩ := hx
  have hraw : ∀ i < sb.blockSize, rawByte sb s x.dev (lb * sb.blockSize + i) = _ :=
    fun i hi => rawByte_add lb hi
  simp only [Ext4.blockStep, getInode, bind, EStateM.bind, onWorld, extentLookup_eq hq.leaf, pure,
    EStateM.pure]
  cases hfind : runFind s.runs lb with
  | some pbn =>
    simp only [hfind] at hraw
    simp only [EStateM.bind, Env.readBlock, Env.writeBlock, onWorld_attempt]
    cases hread : env.fault x.calls with
    | some e => exact ⟨lb, hq⟩
    | none =>
      simp only [onWorld_attempt]
      cases hwrite : env.fault (x.calls + 1) with
      | some e => exact ⟨lb, hq⟩
      | none =>
        refine ⟨rfl, hq.patch h hend hlb (hq.blocks pbn) hraw hq.leaf hq.length hq.spread rfl ?_ ?_
          hq.allocated⟩
        · intro k
          split
          · rename_i heq
            rw [heq, hfind]
          · rfl
        · intro k hk hkp
          exact hk (hq.unshared k lb pbn hkp hfind)
  | none =>
    simp only [EStateM.bind, Env.writeBlock, onWorld_allocBlock]
    cases halloc : env.alloc x.allocs with
    | error e =>
      refine ⟨lb, { hq with allocated := ?_ }⟩
      intro j p hj hlt hp
      rcases Nat.lt_succ_iff_lt_or_eq.mp hlt with hlt | rfl
      · exact hq.allocated j p hj hlt hp
      · cases halloc.symm.trans hp
    | ok p =>
      have hplace := hsafe hfind p halloc
      obtain ⟨W, hok, hnext⟩ := hq.fresh h hend hlb h32 hfind halloc hplace
      simp only [onWorld_attempt, hplace.accepted, extentInsert_eq hq.leaf, hok, Env.writeInode]
      cases hwrite : env.fault (x.calls + 1) with
      | some e => exact ⟨lb + 1, hnext⟩
      | none =>
        exact ⟨rfl, hnext.setBlocksCount _⟩

end Step

/-! ### The loop -/

/-- Every block that the loop gets from `alloc_block` can be mapped. -/
def LoopSafe (sb : Superblock) (env : Env) (offset : Nat) (buf : List UInt8) :
    Nat → Nat → Nat → Inode × World → Prop
  | _, 0, _, _ => True
  | lb, k + 1, total, q =>
    AllocSafe env lb q ∧ match blockStep sb env offset buf lb total q with
      | .ok copyLen q => LoopSafe sb env offset buf (lb + 1) k (total + copyLen) q
      | .error _ _ => True

section Loop

variable {s₀ : Inode} {x₀ : World} (h : offset + buf.length + sb.blockSize ≤ 2 ^ 64)
  (h32 : endBlock sb offset buf ≤ 2 ^ 32)
include h

theorem done_add (hend : lb < endBlock sb offset buf) (hlb : offset / sb.blockSize ≤ lb) :
    done sb offset buf lb + (inBlockEnd sb offset buf lb - inBlockOff sb offset lb) =
      done sb offset buf (lb + 1) := by
  obtain ⟨hoff, -⟩ := mul_add_inBlockOff hlb
  have hstop := mul_add_inBlockEnd h hend
  rw [done_eq h hend, done, succ_mul]
  omega

include h32 in
theorem Progress.writeLoop (k : Nat) (hq : Progress sb env offset buf s₀ x₀ lb s x.dev x.allocs)
    (hk : lb + k = endBlock sb offset buf) (hlb : offset / sb.blockSize ≤ lb)
    (hsafe : LoopSafe sb env offset buf lb k (done sb offset buf lb) (s, x)) :
    match writeLoop sb env offset buf lb k (done sb offset buf lb) (s, x) with
    | .ok total (t, y) => total = done sb offset buf (endBlock sb offset buf) ∧
      Progress sb env offset buf s₀ x₀ (endBlock sb offset buf) t y.dev y.allocs
    | .error _ (t, y) => ∃ n, Progress sb env offset buf s₀ x₀ n t y.dev y.allocs := by
  induction k generalizing lb s x with
  | zero =>
    rw [Nat.add_zero] at hk
    subst hk
    exact ⟨rfl, hq⟩
  | succ k ih =>
    have hstep := hq.blockStep h (by omega) hlb ⟨rfl, rfl⟩ (by omega) hsafe.1
    obtain ⟨-, hrest⟩ := hsafe
    simp only [Ext4.writeLoop, bind, EStateM.bind]
    cases hres : Ext4.blockStep sb env offset buf lb (done sb offset buf lb) (s, x) with
    | error e q =>
      rw [hres] at hstep
      exact hstep
    | ok c q =>
      rw [hres] at hstep hrest
      obtain ⟨rfl, hnext⟩ := hstep
      dsimp only at hrest ⊢
      rw [done_add h (by omega) hlb] at hrest ⊢
      exact ih hnext (by omega) (by omega) hrest

end Loop

/-! ### The file -/

def fileByte (sb : Superblock) (s : Inode) (dev : Nat → List UInt8) (o : Nat) : UInt8 :=
  match extentRead (readFrom dev) sb s o 1 () with
  | .ok bytes _ => bytes.headD 0
  | .error _ _ => 0

theorem fileByte_eq (hs : IsLeaf s) (hdev : ∀ pbn, (dev pbn).length = sb.blockSize) {o : Nat}
    (h : o + 1 + sb.blockSize ≤ 2 ^ 64) :
    fileByte sb s dev o = if o < s.fileSize.toNat then rawByte sb s dev o else 0 := by
  rw [fileByte, extentRead_eq hs hdev h]
  rcases Nat.lt_or_ge o s.fileSize.toNat with hlt | hge
  · rw [if_pos hlt, show min (o + 1) s.fileSize.toNat - o = 1 by omega]
    rfl
  · rw [if_neg (Nat.not_lt.mpr hge), Nat.sub_eq_zero_of_le (by omega)]
    rfl

/-- What is asked of a write to `s` that ended in the given way. -/
def WriteCorrect (sb : Superblock) (env : Env) (offset : Nat) (buf : List UInt8) (s : Inode)
    (x : World) : EStateM.Result Stop (Inode × World) Nat → Prop
  | .ok n (t, y) =>
    n = buf.length ∧ t.fileSize.toNat = max s.fileSize.toNat (offset + buf.length) ∧
      ∀ off len, off + len + sb.blockSize ≤ 2 ^ 64 → extentRead (readFrom y.dev) sb t off len =
          pure ((range' off (min (off + len) t.fileSize.toNat - off)).map fun o =>
            if Written offset buf o then buf.getD (o - offset) 0 else fileByte sb s x.dev o)
  | .error _ (t, y) =>
    (∀ j p, x.allocs ≤ j → j < y.allocs → env.alloc j = .ok p → ∃ lb, Maps t lb p.toNat) ∧
      ∀ o, ¬Written offset buf o → o + 1 + sb.blockSize ≤ 2 ^ 64 →
        fileByte sb t y.dev o = fileByte sb s x.dev o

def GapZero (sb : Superblock) (s : Inode) (dev : Nat → List UInt8) (offset : Nat) : Prop :=
  ∀ o, s.fileSize.toNat ≤ o → o < offset → rawByte sb s dev o = 0

theorem fileSize_setFileSize (size : UInt64) : (s.setFileSize size).fileSize = size := by
  have hhi : (size >>> 32).toUInt32.toUInt64 = size >>> 32 := by
    rw [← UInt64.toNat_inj, UInt32.toNat_toUInt64, UInt64.toNat_toUInt32, toNat_hi]
    have := size.toNat_lt
    omega
  have hsize : (s.setFileSize size).fileSize =
      size.toUInt32.toUInt64 ||| ((size >>> 32).toUInt32.toUInt64 <<< 32) := rfl
  have hlt : (size >>> 32).toNat < 2 ^ 32 := by
    rw [toNat_hi]
    have := size.toNat_lt
    omega
  rw [hsize, hhi, ← UInt64.toNat_inj, toNat_lo_or_hi _ hlt, toNat_hi, UInt64.toNat_toUInt32]
  omega

section Whole

variable {x : World} (hs : WellFormed s) (hun : Unshared s)
  (hdev : ∀ pbn, (x.dev pbn).length = sb.blockSize)
include hs hun hdev

theorem WellFormed.progress :
    Progress sb env offset buf s x (offset / sb.blockSize) s x.dev x.allocs := by
  refine ⟨hs.toIsLeaf, ?_, ⟨hs.ordered.imp .inl, hs.lengths⟩, rfl, hdev, hun, ?_, ?_⟩
  · have := hs.length_runs
    rwa [Inode.runs, length_map] at this
  · intro j p hj hlt
    exact absurd hlt (Nat.not_lt.mpr hj)
  · intro o
    rw [if_neg]
    rintro ⟨⟨hle, -⟩, hlt⟩
    exact absurd hlt (Nat.not_lt.mpr (Nat.div_le_div_right hle))

end Whole

section Bytes

variable {s₀ : Inode} {x₀ : World} {n allocs : Nat}
  (hq : Progress sb env offset buf s₀ x₀ n s dev allocs) (hs₀ : IsLeaf s₀)
  (hdev : ∀ pbn, (x₀.dev pbn).length = sb.blockSize) (hgap : GapZero sb s₀ x₀.dev offset)
include hq hs₀ hdev hgap

theorem Progress.fileByte_eq (hleaf : IsLeaf t) (hruns : t.runs = s.runs)
    (hsize : t.fileSize.toNat = s₀.fileSize.toNat ∨
      t.fileSize.toNat = max s₀.fileSize.toNat (offset + buf.length)) {o : Nat}
    (ho : ¬Written offset buf o) (h : o + 1 + sb.blockSize ≤ 2 ^ 64) :
    fileByte sb t dev o = fileByte sb s₀ x₀.dev o := by
  have hraw : rawByte sb t dev o = rawByte sb s₀ x₀.dev o := by
    have hsame : rawByte sb t dev o = rawByte sb s dev o := by rw [rawByte, rawByte, hruns]
    rw [hsame, hq.bytes, if_neg fun hw => ho hw.1]
  rw [Ext4.fileByte_eq hleaf hq.blocks h, Ext4.fileByte_eq hs₀ hdev h, hraw]
  rcases Nat.lt_or_ge o s₀.fileSize.toNat with hlt | hge
  · rw [if_pos hlt, if_pos (by omega)]
  · rw [if_neg (Nat.not_lt.mpr hge)]
    split
    · refine hgap o hge ?_
      simp only [Written] at ho
      omega
    · rfl

theorem Progress.writeCorrect_error (hleaf : IsLeaf t) (hruns : t.runs = s.runs)
    (hsize : t.fileSize.toNat = s₀.fileSize.toNat ∨
      t.fileSize.toNat = max s₀.fileSize.toNat (offset + buf.length)) (e : Stop)
    (hy : y.dev = dev ∧ y.allocs = allocs) :
    WriteCorrect sb env offset buf s₀ x₀ (.error e (t, y)) := by
  obtain ⟨rfl, rfl⟩ := hy
  refine ⟨?_, fun o ho h => hq.fileByte_eq hs₀ hdev hgap hleaf hruns hsize ho h⟩
  intro j p hj hlt hp
  obtain ⟨lb, hlb⟩ := hq.allocated j p hj hlt hp
  exact ⟨lb, fun readBlock => by rw [extentLookup_eq hleaf, hruns, hlb]⟩

theorem Progress.writeCorrect_ok (hn : n = endBlock sb offset buf)
    (h : offset + buf.length + sb.blockSize ≤ 2 ^ 64) (hleaf : IsLeaf t) (hruns : t.runs = s.runs)
    (hsize : t.fileSize.toNat = max s₀.fileSize.toNat (offset + buf.length))
    (hy : y.dev = dev) : WriteCorrect sb env offset buf s₀ x₀ (.ok buf.length (t, y)) := by
  subst hy
  refine ⟨rfl, hsize, fun off len hread => ?_⟩
  have hbs := sb.blockSize_bounds
  rw [extentRead_eq hleaf hq.blocks hread]
  congr 1
  refine map_congr_left fun o ho => ?_
  rw [mem_range'_1] at ho
  split
  · rename_i hw
    have hin : o / sb.blockSize < n := by
      rw [hn, endBlock_eq h, Nat.div_lt_iff_lt_mul (by omega)]
      exact hw.2.trans_le (le_ceil_mul _ (by omega))
    have hsame : rawByte sb t y.dev o = rawByte sb s y.dev o := by rw [rawByte, rawByte, hruns]
    rw [hsame, hq.bytes, if_pos ⟨hw, hin⟩]
  · rename_i hw
    have hread : o + 1 + sb.blockSize ≤ 2 ^ 64 := by omega
    rw [← hq.fileByte_eq hs₀ hdev hgap hleaf hruns (.inr hsize) hw hread,
      Ext4.fileByte_eq hleaf hq.blocks hread, if_pos (by omega)]

end Bytes

def grown (offset : Nat) (buf : List UInt8) (s t : Inode) : Inode :=
  (if endOffset offset buf > s.fileSize.toNat then t.setFileSize (.ofNat (endOffset offset buf))
    else t).updateTimestamps 0 0 0

theorem extentWrite_eq (hbuf : buf ≠ []) (x : World) :
    extentWrite sb env offset buf (s, x) = match writeLoop sb env offset buf (offset / sb.blockSize)
        (endBlock sb offset buf - offset / sb.blockSize) 0 (s, x) with
      | .error e q => .error e q
      | .ok total (t, y) =>
        match env.fault y.calls with
        | some e => .error (.err e) (grown offset buf s t, { y with calls := y.calls + 1 })
        | none => .ok total (grown offset buf s t, { y with calls := y.calls + 1 }) := by
  simp only [extentWrite, if_neg hbuf, getInode, bind, EStateM.bind]
  cases writeLoop sb env offset buf (offset / sb.blockSize)
    (endBlock sb offset buf - offset / sb.blockSize) 0 (s, x) with
  | error e q => rfl
  | ok total q =>
    simp only [setInode, Env.writeInode, onWorld_attempt]
    cases env.fault q.2.calls <;> rfl

variable (offset buf) in
theorem grown_root (s t : Inode) :
    (grown offset buf s t).runs = t.runs ∧ (IsLeaf t → IsLeaf (grown offset buf s t)) := by
  rw [grown]
  split <;> exact ⟨rfl, fun h => ⟨h.extents, h.magic, h.depth⟩⟩

theorem fileSize_grown (h : offset + buf.length + sb.blockSize ≤ 2 ^ 64)
    (ht : t.fileSize = s.fileSize) :
    (grown offset buf s t).fileSize.toNat = max s.fileSize.toNat (offset + buf.length) := by
  have hbs := sb.blockSize_bounds
  rw [grown, endOffset_eq h]
  split
  · change (t.setFileSize _).fileSize.toNat = _
    rw [fileSize_setFileSize, UInt64.toNat_ofNat']
    omega
  · change t.fileSize.toNat = _
    rw [ht]
    omega

/-- An empty write changes nothing. Another one, if each block that it gets can be mapped and the
gap before it is zero, is read back. -/
theorem extent_write_correct (hs : WellFormed s) (hun : Unshared s)
    (hdev : ∀ pbn, (x.dev pbn).length = sb.blockSize)
    (hlen : offset + buf.length ≤ 2 ^ 32 * sb.blockSize) (hgap : GapZero sb s x.dev offset)
    (hsafe : LoopSafe sb env offset buf (offset / sb.blockSize)
      (endBlock sb offset buf - offset / sb.blockSize) 0 (s, x)) :
    (buf = [] → extentWrite sb env offset buf (s, x) = .ok 0 (s, x)) ∧
      (buf ≠ [] → WriteCorrect sb env offset buf s x (extentWrite sb env offset buf (s, x))) := by
  refine ⟨fun hnil => by rw [hnil]; rfl, fun hbuf => ?_⟩
  have hbs := sb.blockSize_bounds
  have h : offset + buf.length + sb.blockSize ≤ 2 ^ 64 := by omega
  have hceil := endBlock_eq h
  have hzero : done sb offset buf (offset / sb.blockSize) = 0 := by
    have := div_mul_le_self offset sb.blockSize
    rw [done]
    omega
  have h32 : endBlock sb offset buf ≤ 2 ^ 32 := by
    rw [hceil]
    refine le_of_lt_succ ((Nat.div_lt_iff_lt_mul (by omega)).mpr ?_)
    omega
  have hle : offset / sb.blockSize ≤ endBlock sb offset buf := by
    rw [hceil]
    exact Nat.div_le_div_right (by omega)
  rw [← hzero] at hsafe
  have hfirst : Progress sb env offset buf s x (offset / sb.blockSize) s x.dev x.allocs :=
    hs.progress hun hdev
  have hloop := hfirst.writeLoop h h32 _ (Nat.add_sub_cancel' hle) (Nat.le_refl _) hsafe
  rw [hzero] at hloop
  rw [extentWrite_eq hbuf]
  cases hres : writeLoop sb env offset buf (offset / sb.blockSize)
    (endBlock sb offset buf - offset / sb.blockSize) 0 (s, x) with
  | error e q =>
    rw [hres] at hloop
    obtain ⟨n, hq⟩ := hloop
    exact hq.writeCorrect_error hs.toIsLeaf hdev hgap hq.leaf rfl (.inl (by rw [hq.size])) e
      ⟨rfl, rfl⟩
  | ok total q =>
    rw [hres] at hloop
    obtain ⟨htotal, hq⟩ := hloop
    obtain ⟨hruns, hleaf⟩ := grown_root offset buf s q.1
    have hsize := fileSize_grown h hq.size
    have htotal : total = buf.length := by
      have := le_ceil_mul (offset + buf.length) (by omega : 0 < sb.blockSize)
      rw [htotal, done, hceil]
      omega
    subst htotal
    dsimp only
    cases env.fault q.2.calls with
    | some e =>
      exact hq.writeCorrect_error hs.toIsLeaf hdev hgap (hleaf hq.leaf) hruns (.inr hsize) _
        ⟨rfl, rfl⟩
    | none => exact hq.writeCorrect_ok hs.toIsLeaf hdev hgap rfl h (hleaf hq.leaf) hruns hsize rfl

def firstFree : Env := ⟨fun _ => none, fun n => .ok (.ofNat (100 + n))⟩

def blank : World := ⟨fun _ => replicate 4096 0, 0, 0⟩

/-- Three bytes at offset 5 of an empty file. -/
theorem write_hole_correct : WriteCorrect sb4k firstFree 5 [1, 2, 3] (inodeOf []) blank
      (extentWrite sb4k firstFree 5 [1, 2, 3] (inodeOf [], blank)) := by
  have hruns : (inodeOf []).runs = [] := runs_inodeOf (by decide)
  refine (extent_write_correct (wellFormed_inodeOf (by decide) (by decide) (by decide)) ?_ ?_
    (by decide) ?_ ?_).2 (by decide)
  · intro k j b hk
    rw [hruns] at hk
    exact nomatch hk
  · exact fun pbn => length_replicate
  · intro o _ _
    rw [rawByte, hruns]
    rfl
  · refine ⟨fun _ p hp => ⟨?_, ?_, ?_, .inr (by rw [extents_inodeOf (by decide)]; decide), rfl⟩, ?_⟩
    · simp [hruns]
    · cases hp
      decide
    · simp [extents_inodeOf]
    · cases blockStep sb4k firstFree 5 [1, 2, 3] (5 / sb4k.blockSize) 0 (inodeOf [], blank) <;>
        trivial

/-- An empty write behind the end of the file leaves its size. -/
theorem empty_write_keeps_size : WellFormed (inodeOf []) ∧
      ¬WriteCorrect sb4k firstFree 10 [] (inodeOf []) blank
        (extentWrite sb4k firstFree 10 [] (inodeOf [], blank)) := by
  refine ⟨wellFormed_inodeOf (by decide) (by decide) (by decide), ?_⟩
  rintro ⟨-, hsize, -⟩
  exact absurd hsize (by decide)

end Gergios.Ext4
