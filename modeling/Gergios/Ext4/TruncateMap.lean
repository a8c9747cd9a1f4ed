import Gergios.Ext4.Truncate
import Mathlib.Data.List.Flatten

/-!
# What a truncation frees and keeps
-/

namespace Gergios.Ext4

open Lib List Option

/-- The physical blocks that calls of `free_blocks` name. -/
def passed (calls : Calls) : List Nat :=
  calls.flatMap fun c => range' c.1.toNat c.2.toNat

variable {w : List Run} {W : List Extent} {F : Calls} {s : Inode} {n lb b : Nat}
  {sb : Superblock} {j : Nat} {newSize : UInt64}

theorem passed_eq (hF : F.map callRun = w.map fun r => (r.val, r.len)) :
    passed F = w.flatMap fun r => range' r.val r.len := by
  have hcalls : passed F = (F.map callRun).flatMap fun c => range' c.1 c.2 := by
    rw [flatMap_map]
    rfl
  rw [hcalls, hF, flatMap_map]

theorem mem_range'_run {r : Run} : b ∈ range' r.val r.len ↔ ∃ k, r.Has k ∧ r.valueAt k = b := by
  rw [mem_range'_1]
  constructor
  · rintro ⟨h1, h2⟩
    refine ⟨r.start + (b - r.val), ?_, ?_⟩ <;> simp only [Run.Has, Run.stop, Run.valueAt] <;> omega
  · simp only [Run.Has, Run.stop, Run.valueAt] at *
    omega

section Beyond

variable (hw : Ordered w)
include hw

theorem mem_blocks_iff : b ∈ w.flatMap (fun r => range' r.val r.len) ↔
    ∃ k, runFind w k = some b := by
  rw [mem_flatMap]
  constructor
  · rintro ⟨r, hr, hb⟩
    obtain ⟨k, hk, rfl⟩ := mem_range'_run.mp hb
    exact ⟨k, hw.runFind_of_mem hr hk⟩
  · rintro ⟨k, hk⟩
    obtain ⟨r, hr, hrk, hv⟩ := exists_of_runFind hk
    exact ⟨r, hr, mem_range'_run.mpr ⟨k, hrk, hv⟩⟩

theorem nodup_blocks (hinj : ∀ k j b, runFind w k = some b → runFind w j = some b → k = j) :
    (w.flatMap fun r => range' r.val r.len).Nodup := by
  refine nodup_flatMap.mpr ⟨fun r _ => nodup_range', ?_⟩
  refine hw.imp_of_mem ?_
  intro r q hr hq hrq b hbr hbq
  obtain ⟨k, hk, hkb⟩ := mem_range'_run.mp hbr
  obtain ⟨j, hj, hjb⟩ := mem_range'_run.mp hbq
  have hkj := hinj k j b (hkb ▸ hw.runFind_of_mem hr hk) (hjb ▸ hw.runFind_of_mem hq hj)
  simp only [Run.Has] at *
  omega

end Beyond

/-! ### The statement -/

def unwrittenAt (s : Inode) (lb : Nat) : Option Bool :=
  (s.extents.find? fun e => e.run.Has lb).map Extent.isUninit

def Unshared (s : Inode) : Prop :=
  ∀ k j b, runFind s.runs k = some b → runFind s.runs j = some b → k = j

def Maps (s : Inode) (lb b : Nat) : Prop :=
  ∀ readBlock : Nat → EStateM Stop Unit (List UInt8), extentLookup s lb readBlock = pure (some b)

/-- What is asked of a truncation of `s` to `n` blocks that made the given calls and left `t`. -/
structure TruncateCorrect (s : Inode) (n : Nat) (answer : Nat → Ext4Result Unit) (t : Inode)
    (calls : Calls) : Prop where
  once : (passed calls).Nodup
  only : ∀ b ∈ passed calls, ∃ lb, n ≤ lb ∧ Maps s lb b
  all : (∀ k < calls.length, answer k = .ok ()) → ∀ lb b, n ≤ lb → Maps s lb b → b ∈ passed calls
  kept : ∀ lb < n, (∀ readBlock : Nat → EStateM Stop Unit (List UInt8),
    extentLookup t lb readBlock = extentLookup s lb readBlock) ∧ unwrittenAt t lb = unwrittenAt s lb
  refused : ¬(∀ k < calls.length, answer k = .ok ()) →
    ∀ b ∈ passed calls.dropLast, ∀ lb, ¬Maps t lb b

/-- The calls of a truncation to `n` blocks. -/
def Inode.freed (s : Inode) (n : Nat) : Calls := s.extents.flatMap (freedPart n)

def Inode.truncated (s : Inode) (n : Nat) (newSize : UInt64) : Inode :=
  (s.setExtents (s.extents.flatMap (keptPart n))).setFileSize newSize

/-- How a truncation to `n` blocks can leave the inode and the calls. -/
inductive Truncates (s : Inode) (n : Nat) (newSize : UInt64) (answer : Nat → Ext4Result Unit) :
    Inode × Calls → Prop
  | done (h : ∀ k < (s.freed n).length, answer k = .ok ()) :
      Truncates s n newSize answer (s.truncated n newSize, s.freed n)
  | refused {j : Nat} {x : Ext4Error} (hj : j < (s.freed n).length) (h : ∀ k < j, answer k = .ok ())
      (hx : answer j = .error x) : Truncates s n newSize answer (s, (s.freed n).take (j + 1))

def blocksOf (sb : Superblock) (size : Nat) : Nat := (size + sb.blockSize - 1) / sb.blockSize

/-- The size can be rounded up in 64 bits, and `free_blocks` refuses the first call, or no call,
with no unwritten extent across the new end. -/
def TruncateSafe (sb : Superblock) (s : Inode) (newSize : UInt64)
    (answer : Nat → Ext4Result Unit) : Prop :=
  let n := blocksOf sb newSize.toNat
  (newSize.toNat + sb.blockSize ≤ 2 ^ 64 ∨ s.extents = []) ∧ ((∃ x, answer 0 = .error x) ∨
      (∀ k < (s.extents.filter fun e => n < e.run.stop).length, answer k = .ok ()) ∧
        ∀ e ∈ s.extents, e.run.start < n → n < e.run.stop → e.isUninit = false)

/-! ### All extents together -/

theorem find_keptPart {e : Extent} (hlen : e.run.len < 2 ^ 15) (hlb : lb < n) :
    ((keptPart n e).find? fun e => e.run.Has lb).map Extent.isUninit =
      if e.run.Has lb then some (if n < e.run.stop then false else e.isUninit) else none := by
  rw [keptPart]
  rcases Nat.lt_or_ge e.run.start n with h1 | h1
  · rw [if_neg (by omega)]
    rcases Nat.lt_or_ge n e.run.stop with h2 | h2
    · have hlt : n - e.run.start < 2 ^ 15 := by
        simp only [Run.stop] at h2
        omega
      have hinit : ({ e with eeLen := .ofNat (n - e.run.start) } : Extent).isUninit = false := by
        rw [Extent.isUninit, and_high, UInt16.toNat_ofNat']
        exact decide_eq_false (by omega)
      rw [if_pos h2, if_pos h2, UInt32.toUInt16_ofNat', find?_singleton,
        run_withLen (by omega), held, stored_of_lt hlt]
      have hhas : (⟨e.run.start, n - e.run.start, e.run.val⟩ : Run).Has lb ↔ e.run.Has lb := by
        simp only [Run.Has, Run.stop] at *
        omega
      by_cases hk : e.run.Has lb <;> simp [hhas, hinit]
    · rw [if_neg (Nat.not_lt.mpr h2), if_neg (Nat.not_lt.mpr h2)]
      by_cases hk : e.run.Has lb <;> simp [hk]
  · rw [if_pos h1, if_neg fun hk => absurd hk.1 (by omega)]
    rfl

section Parts

variable (hlens : ∀ e ∈ W, 0 < e.run.len ∧ e.run.len < 2 ^ 15)
include hlens

theorem map_run_kept :
    (W.flatMap (keptPart n)).map Extent.run = (W.map Extent.run).flatMap (Run.below n) := by
  rw [map_flatMap, flatMap_map]
  exact flatMap_congr fun e he => map_run_keptPart (hlens e he).1 (hlens e he).2

theorem map_freed : (W.flatMap (freedPart n)).map callRun =
      ((W.map Extent.run).flatMap (Run.above n)).map fun r => (r.val, r.len) := by
  rw [map_flatMap, map_flatMap, flatMap_map]
  exact flatMap_congr fun e he => map_freedPart (hlens e he).1 (hlens e he).2

theorem length_freed :
    (W.flatMap (freedPart n)).length = (W.filter fun e => n < e.run.stop).length := by
  induction W with
  | nil => rfl
  | cons e W ih =>
    obtain ⟨he, hW⟩ := forall_mem_cons.mp hlens
    rw [flatMap_cons, length_append, ih hW, freedPart, filter_cons]
    have hstop : e.run.start < e.run.stop := by
      simp only [Run.stop]
      omega
    split
    · rw [if_pos (by simp; omega)]
      simp [Nat.add_comm]
    split
    · rename_i h
      rw [if_pos (by simpa using h)]
      simp [Nat.add_comm]
    · rename_i h
      rw [if_neg (by simpa using h)]
      simp

theorem find_kept (hlb : lb < n) :
    ((W.flatMap (keptPart n)).find? fun e => e.run.Has lb).map Extent.isUninit =
      (W.find? fun e => e.run.Has lb).map fun e =>
        if n < e.run.stop then false else e.isUninit := by
  induction W with
  | nil => rfl
  | cons e W ih =>
    obtain ⟨he, hW⟩ := forall_mem_cons.mp hlens
    rw [flatMap_cons, find?_append, map_or, ih hW, find_keptPart he.2 hlb]
    by_cases hk : e.run.Has lb <;> simp [hk]

end Parts

def finalState {α : Type} {σ : Type} : EStateM.Result Stop σ α → σ
  | .ok _ x => x
  | .error _ x => x

/-! ### The call -/

theorem extentTruncate_eq {σ : Type} (sb : Superblock) (newSize : UInt64)
    (freeBlocks : UInt64 → UInt32 → EStateM Stop σ Unit)
    (writeInode : Inode → EStateM Stop σ Unit) (x : σ) (hs : WellFormed s) :
    extentTruncate sb newSize freeBlocks writeInode (s, x) =
      let n := (newLogicalBlocks sb newSize).toNat
      let t := (s.setExtents (s.extents.flatMap (keptPart n))).setFileSize newSize
      match callAll freeBlocks (s.extents.flatMap (freedPart n)) x with
      | .error e y => .error e (s, y)
      | .ok _ y => onWorld (writeInode t) (t, y) := by
  have hlens : ∀ e ∈ s.extents, e.run.len < 2 ^ 15 := fun e he =>
    (hs.lengths _ (mem_map_of_mem he)).2
  have hloop := truncateLoop_eq (n := (newLogicalBlocks sb newSize).toNat) freeBlocks s.extents
    hlens
  have hstep : extentTruncate sb newSize freeBlocks writeInode (s, x) = (do
        let extents ←
          onWorld (truncateLoop (newLogicalBlocks sb newSize).toNat freeBlocks s.extents)
        setInode ((s.setExtents extents).setFileSize newSize)
        onWorld (writeInode ((s.setExtents extents).setFileSize newSize)) :
          EStateM Stop (Inode × σ) Unit) (s, x) := by
    simp only [extentTruncate, getInode, bind, EStateM.bind, hs.extentHeader, hs.magic, hs.depth]
    rfl
  rw [hstep, hloop]
  simp only [bind, EStateM.bind, onWorld]
  cases callAll freeBlocks (s.extents.flatMap (freedPart (newLogicalBlocks sb newSize).toNat)) x <;>
    rfl

theorem Superblock.blockSize_bounds (sb : Superblock) :
    1024 ≤ sb.blockSize ∧ sb.blockSize ≤ 2 ^ 26 := by
  have h1 : 2 ^ 0 ≤ 2 ^ sb.sLogBlockSize := Nat.pow_le_pow_right (by decide) (Nat.zero_le _)
  have h2 : 2 ^ sb.sLogBlockSize ≤ 2 ^ 16 := Nat.pow_le_pow_right (by decide) sb.sLogBlockSize_le
  rw [blockSize]
  omega

theorem toNat_newLogicalBlocks (sb : Superblock) (newSize : UInt64) :
    (newLogicalBlocks sb newSize).toNat =
      if newSize.toNat + sb.blockSize ≤ 2 ^ 64 then blocksOf sb newSize.toNat else 0 := by
  obtain ⟨hge, hle⟩ := sb.blockSize_bounds
  have hlt := newSize.toNat_lt
  have hbs : (UInt64.ofNat sb.blockSize).toNat = sb.blockSize := by
    rw [UInt64.toNat_ofNat', Nat.mod_eq_of_lt (by omega)]
  have hsum : (newSize + .ofNat sb.blockSize - 1).toNat =
      if newSize.toNat + sb.blockSize ≤ 2 ^ 64 then newSize.toNat + sb.blockSize - 1
      else newSize.toNat + sb.blockSize - 1 - 2 ^ 64 := by
    rw [UInt64.toNat_sub, UInt64.toNat_add, UInt64.toNat_one]
    split <;> omega
  rw [newLogicalBlocks, UInt64.toNat_div, hbs, hsum]
  split
  · rfl
  · exact Nat.div_eq_of_lt (by omega)

theorem lt_blocksOf {size : Nat} (h : 2 ^ 64 < size + sb.blockSize) :
    2 ^ 33 < blocksOf sb size := by
  obtain ⟨hge, hle⟩ := sb.blockSize_bounds
  rw [blocksOf, Nat.lt_div_iff_mul_lt (by omega)]
  omega

/-! ### When the calls are accepted, and when not -/

section Runs

variable (hs : WellFormed s)
include hs

theorem WellFormed.extents_lengths : ∀ e ∈ s.extents, 0 < e.run.len ∧ e.run.len < 2 ^ 15 :=
  fun _ he => hs.lengths _ (mem_map_of_mem he)

theorem maps_iff : Maps s lb b ↔ runFind s.runs lb = some b := by
  simp only [Maps, extentLookup_eq hs.toIsLeaf, pure_inj]
  exact ⟨fun h => h fun _ => pure [], fun h _ => h⟩

theorem passed_freed : passed (s.freed n) =
    (s.runs.flatMap (Run.above n)).flatMap fun r => range' r.val r.len :=
  passed_eq (map_freed hs.extents_lengths)

theorem mem_passed_iff : b ∈ passed (s.freed n) ↔ ∃ lb, n ≤ lb ∧ Maps s lb b := by
  have hord := hs.ordered.aboves (fun r hr => (hs.lengths r hr).1) n
  rw [passed_freed hs, mem_blocks_iff hord]
  simp only [runFind_aboves, maps_iff hs]
  refine exists_congr fun k => ?_
  by_cases hk : n ≤ k <;> simp [hk]

theorem nodup_passed (hun : Unshared s) : (passed (s.freed n)).Nodup := by
  have hord := hs.ordered.aboves (fun r hr => (hs.lengths r hr).1) n
  rw [passed_freed hs]
  refine nodup_blocks hord fun k j b hk hj => ?_
  rw [runFind_aboves, ite_none_right_eq_some] at hk hj
  exact hun k j b hk.2 hj.2

theorem exists_mem_passed (hj : 0 < j) (hlt : j ≤ (s.freed n).length) :
    ∃ b, b ∈ passed ((s.freed n).take j) := by
  obtain ⟨c, hc⟩ := exists_mem_of_length_pos
    (l := (s.freed n).take j) (by rw [length_take]; omega)
  have hrun : callRun c ∈ (s.runs.flatMap (Run.above n)).map fun r => (r.val, r.len) := by
    have hmem := mem_map_of_mem (f := callRun) (mem_of_mem_take hc)
    rwa [Inode.freed, map_freed hs.extents_lengths] at hmem
  obtain ⟨r, hr, hrc⟩ := mem_map.mp hrun
  obtain ⟨q, hq, hr⟩ := mem_flatMap.mp hr
  have hpos := (Run.mem_above hr (hs.lengths q hq).1).1
  refine ⟨c.1.toNat, mem_flatMap.mpr ⟨c, hc, mem_range'_1.mpr ⟨Nat.le_refl _, ?_⟩⟩⟩
  have hcount : r.len = c.2.toNat := congrArg Prod.snd hrc
  omega

omit hs in
theorem length_kept_le (W : List Extent) : (W.flatMap (keptPart n)).length ≤ W.length := by
  induction W with
  | nil => exact Nat.le_refl 0
  | cons e W ih =>
    have hone : (keptPart n e).length ≤ 1 := by
      rw [keptPart]
      split
      · exact Nat.zero_le 1
      · split <;> exact Nat.le_refl 1
    rw [flatMap_cons, length_append, length_cons]
    omega

theorem truncated_extents (newSize : UInt64) : IsLeaf (s.truncated n newSize) ∧
    (s.truncated n newSize).extents = s.extents.flatMap (keptPart n) := by
  have hlen : s.extents.length ≤ 4 := by simpa [Inode.runs] using hs.length_runs
  have hkept := length_kept_le (n := n) s.extents
  have hlt : (s.extents.flatMap (keptPart n)).length < 2 ^ 16 := by omega
  have hleaf := setExtents_isLeaf hs.extents hlt
  refine ⟨⟨hleaf.extents, hleaf.magic, hleaf.depth⟩, ?_⟩
  refine (setExtents_header hlt).2.2.2.trans (take_of_length_le ?_)
  exact hkept.trans hlen

variable {answer : Nat → Ext4Result Unit} (hun : Unshared s)
include hun

theorem truncateCorrect_accepted_iff (newSize : UInt64)
    (hall : ∀ k < (s.freed n).length, answer k = .ok ()) :
    TruncateCorrect s n answer (s.truncated n newSize) (s.freed n) ↔
      ∀ e ∈ s.extents, e.run.start < n → n < e.run.stop → e.isUninit = false := by
  obtain ⟨hleaf, hext⟩ := truncated_extents hs newSize
  have hflag : ∀ lb < n, unwrittenAt
      (s.truncated n newSize) lb =
      (s.extents.find? fun e => e.run.Has lb).map
        fun e => if n < e.run.stop then false else e.isUninit := by
    intro lb hlb
    rw [unwrittenAt, hext, find_kept hs.extents_lengths hlb]
  constructor
  · intro h e he h1 h2
    have hhas : e.run.Has e.run.start := ⟨Nat.le_refl _, by omega⟩
    have hfind : (s.extents.find? fun x => x.run.Has e.run.start) = some e := by
      cases hx : s.extents.find? fun x => x.run.Has e.run.start with
      | none => exact absurd hhas (by simpa using find?_eq_none.mp hx e he)
      | some x =>
        have hxk : x.run.Has e.run.start := by simpa using find?_some hx
        rw [hs.ordered.eq_of_has_map (mem_of_find?_eq_some hx) he hxk hhas]
    have hsame := (h.kept _ h1).2
    rw [hflag _ h1, unwrittenAt, hfind, map_some, if_pos h2] at hsame
    exact (some.inj hsame).symm
  · intro hinit
    refine ⟨nodup_passed hs hun, fun b hb => (mem_passed_iff hs).mp hb,
      fun _ lb b hlb hm => (mem_passed_iff hs).mpr ⟨lb, hlb, hm⟩, fun lb hlb => ⟨?_, ?_⟩,
      fun h => absurd hall h⟩
    · intro _
      rw [extentLookup_eq hleaf, extentLookup_eq hs.toIsLeaf, Inode.runs, hext,
        map_run_kept hs.extents_lengths, runFind_belows, if_pos hlb]
      rfl
    · rw [hflag lb hlb, unwrittenAt]
      cases hx : s.extents.find? fun e => e.run.Has lb with
      | none => rfl
      | some e =>
        have hk : e.run.Has lb := by simpa using find?_some hx
        have hstart := hk.1
        rw [map_some, map_some]
        split
        · rename_i hstop
          rw [hinit e (mem_of_find?_eq_some hx) (by omega) hstop]
        · rfl

theorem truncateCorrect_refused_iff (hj : j < (s.freed n).length)
    {x : Ext4Error} (hx : answer j = .error x) :
    TruncateCorrect s n answer s ((s.freed n).take (j + 1)) ↔ j = 0 := by
  have hlen : ((s.freed n).take (j + 1)).length = j + 1 := by
    rw [length_take]
    omega
  have hsub : ∀ i, (passed ((s.freed n).take i)).Sublist
      (passed (s.freed n)) := fun i => (take_sublist i _).flatMap _
  have hrefused : ¬∀ k < ((s.freed n).take (j + 1)).length, answer k = .ok () := by
    intro h
    rw [h j (by omega)] at hx
    exact nomatch hx
  have hlast : ((s.freed n).take (j + 1)).dropLast = (s.freed n).take j := by
    rw [dropLast_eq_take, hlen, Nat.add_sub_cancel, take_take, Nat.min_eq_left (by omega)]
  constructor
  · intro h
    by_contra hpos
    obtain ⟨b, hb⟩ := exists_mem_passed hs (Nat.pos_of_ne_zero hpos) (Nat.le_of_lt hj)
    obtain ⟨lb, -, hm⟩ := (mem_passed_iff hs).mp ((hsub j).subset hb)
    exact h.refused hrefused b (by rwa [hlast]) lb hm
  · rintro rfl
    refine ⟨(nodup_passed hs hun).sublist (hsub 1),
      fun b hb => (mem_passed_iff hs).mp ((hsub 1).subset hb), fun h => absurd h hrefused,
      fun _ _ => ⟨fun _ => rfl, rfl⟩, fun _ b hb => ?_⟩
    rw [hlast] at hb
    exact nomatch hb

omit hun in
theorem not_truncateCorrect_of_wrap {t : Inode} (hn : 2 ^ 33 < n) (hj : 0 < j)
    (hle : j ≤ (s.freed 0).length) : ¬TruncateCorrect s n answer t ((s.freed 0).take j) := by
  intro h
  obtain ⟨b, hb⟩ := exists_mem_passed hs hj hle
  obtain ⟨lb, hlb, hm⟩ := h.only b hb
  obtain ⟨r, hr, hk, -⟩ := exists_of_runFind ((maps_iff hs).mp hm)
  obtain ⟨e, -, rfl⟩ := mem_map.mp hr
  have hlen := (hs.lengths _ hr).2
  have hblock := e.eeBlock.toNat_lt
  have hstart : e.run.start = e.eeBlock.toNat := rfl
  simp only [Run.Has, Run.stop] at hk
  omega

end Runs

theorem truncates_extentTruncate (hs : WellFormed s)
    (answer : Nat → Ext4Result Unit) (wr : Ext4Result Unit)
    (hn : (newLogicalBlocks sb newSize).toNat = n ∨ s.extents = []) :
    Truncates s n newSize answer (finalState
      (extentTruncate sb newSize (freeBlocksCb answer) (fun _ => lift wr) (s, []))) := by
  have hsame {α : Type} (part : Nat → Extent → List α) :
      s.extents.flatMap (part (newLogicalBlocks sb newSize).toNat) =
        s.extents.flatMap (part n) := by
    rcases hn with rfl | hnil
    · rfl
    · rw [hnil]
      rfl
  rw [extentTruncate_eq sb newSize (freeBlocksCb answer) (fun _ => lift wr) [] hs]
  simp only [hsame]
  rcases callAll_cases answer (s.freed n) [] with ⟨hall, heq⟩ | ⟨j, hj, hall, x, hx, heq⟩
  · rw [← Inode.freed, heq]
    cases wr <;> exact .done (by simpa using hall)
  · rw [← Inode.freed, heq]
    exact .refused hj (by simpa using hall) (by simpa using hx)

theorem truncateCorrect_iff (hs : WellFormed s) (hun : Unshared s)
    {answer : Nat → Ext4Result Unit} {q : Inode × Calls} (hq : Truncates s n newSize answer q) :
    TruncateCorrect s n answer q.1 q.2 ↔ (∃ x, answer 0 = .error x) ∨
        (∀ k < (s.freed n).length, answer k = .ok ()) ∧
          ∀ e ∈ s.extents, e.run.start < n → n < e.run.stop → e.isUninit = false := by
  cases hq with
  | done hall =>
    rw [truncateCorrect_accepted_iff hs hun newSize hall]
    constructor
    · exact fun h => .inr ⟨hall, h⟩
    · rintro (⟨x, hx⟩ | ⟨-, h⟩)
      · intro e he h1 h2
        have hmem : e ∈ s.extents.filter fun e => n < e.run.stop := by simp [he, h2]
        have hpos := length_pos_of_mem hmem
        rw [← length_freed hs.extents_lengths] at hpos
        rw [hall 0 hpos] at hx
        exact nomatch hx
      · exact h
  | @refused j x hj hall hx =>
    rw [truncateCorrect_refused_iff hs hun hj hx]
    constructor
    · rintro rfl
      exact .inl ⟨x, hx⟩
    · rintro (⟨y, hy⟩ | ⟨hall, -⟩)
      · by_contra hpos
        rw [hall 0 (Nat.pos_of_ne_zero hpos)] at hy
        exact nomatch hy
      · rw [hall j hj] at hx
        exact nomatch hx

/-- A truncation does what is asked of it exactly when it is safe. -/
theorem extent_truncate_correct_iff (hs : WellFormed s) (hun : Unshared s) (sb : Superblock)
    (newSize : UInt64) (answer : Nat → Ext4Result Unit) (wr : Ext4Result Unit) :
    (let q := finalState
      (extentTruncate sb newSize (freeBlocksCb answer) (fun _ => lift wr) (s, []));
      TruncateCorrect s (blocksOf sb newSize.toNat) answer q.1 q.2) ↔
      TruncateSafe sb s newSize answer := by
  simp only [TruncateSafe, ← length_freed hs.extents_lengths]
  have hn := toNat_newLogicalBlocks sb newSize
  by_cases hsafe : newSize.toNat + sb.blockSize ≤ 2 ^ 64 ∨ s.extents = []
  · rw [and_iff_right hsafe]
    refine truncateCorrect_iff hs hun (truncates_extentTruncate hs answer wr ?_)
    exact hsafe.imp_left fun hfit => hn.trans (if_pos hfit)
  · obtain ⟨hfit, hnil⟩ := not_or.mp hsafe
    have hq := truncates_extentTruncate hs answer wr (.inl (hn.trans (if_neg hfit)))
    generalize finalState
      (extentTruncate sb newSize (freeBlocksCb answer) (fun _ => lift wr) (s, [])) = q at *
    have hbig := lt_blocksOf (Nat.not_le.mp hfit)
    refine ⟨fun h => absurd h ?_, fun h => absurd h.1 hsafe⟩
    have hpos : 0 < (s.freed 0).length := by
      obtain ⟨e, he⟩ := exists_mem_of_ne_nil _ hnil
      have hstop : 0 < e.run.stop := Nat.add_pos_right _ (hs.extents_lengths e he).1
      rw [Inode.freed, length_freed hs.extents_lengths]
      exact length_pos_of_mem (a := e) (by simp [he, hstop])
    cases hq with
    | done =>
      intro hc
      exact not_truncateCorrect_of_wrap hs hbig hpos (Nat.le_refl _)
        (by rw [take_length]; exact hc)
    | @refused j _ hj => exact not_truncateCorrect_of_wrap hs hbig (Nat.succ_pos j) hj

def sb4k : Superblock := ⟨2, by decide⟩

/-- Two extents, cut inside the first one. -/
theorem truncate_two_extents_correct : let s := inodeOf [mkExtent 0 8 100, mkExtent 10 4 200]
    let q := finalState
      (extentTruncate sb4k 20480 (freeBlocksCb fun _ => .ok ()) (fun _ => lift (.ok ())) (s, []))
    TruncateCorrect s (blocksOf sb4k 20480) (fun _ => .ok ()) q.1 q.2 := by
  intro s
  have hext : s.extents = [mkExtent 0 8 100, mkExtent 10 4 200] := extents_inodeOf (by decide)
  have hruns : s.runs = [⟨0, 8, 100⟩, ⟨10, 4, 200⟩] := runs_inodeOf (by decide)
  have hun : Unshared s := by
    intro k j b hk hj
    rw [hruns] at hk hj
    simp only [runFind_cons, runFind_nil, Run.Has, Run.stop, Run.valueAt] at hk hj
    grind
  refine (extent_truncate_correct_iff (wellFormed_inodeOf (by decide) (by decide) (by decide)) hun
    sb4k 20480 (fun _ => .ok ()) (.ok ())).mpr ⟨.inl (by decide), .inr ⟨fun _ _ => rfl, ?_⟩⟩
  rw [hext]
  decide

/-- The second of two calls is refused: the blocks of the first are free and still mapped. -/
theorem truncate_keeps_freed_blocks : let s := inodeOf [mkExtent 0 2 100, mkExtent 4 2 200]
    let answer : Nat → Ext4Result Unit := fun k => if k = 1 then .error .ioError else .ok ()
    let q := finalState
      (extentTruncate sb4k 0 (freeBlocksCb answer) (fun _ => lift (.ok ())) (s, []))
    WellFormed s ∧ Unshared s ∧ ¬TruncateCorrect s (blocksOf sb4k 0) answer q.1 q.2 := by
  intro s answer
  have hext : s.extents = [mkExtent 0 2 100, mkExtent 4 2 200] := extents_inodeOf (by decide)
  have hruns : s.runs = [⟨0, 2, 100⟩, ⟨4, 2, 200⟩] := runs_inodeOf (by decide)
  have hwf : WellFormed s := wellFormed_inodeOf (by decide) (by decide) (by decide)
  have hun : Unshared s := by
    intro k j b hk hj
    rw [hruns] at hk hj
    simp only [runFind_cons, runFind_nil, Run.Has, Run.stop, Run.valueAt] at hk hj
    grind
  refine ⟨hwf, hun, ?_⟩
  have hn : (newLogicalBlocks sb4k 0).toNat = blocksOf sb4k 0 := rfl
  have hq := truncates_extentTruncate hwf answer (.ok ()) (.inl hn)
  rw [truncateCorrect_iff hwf hun hq, Inode.freed, hext]
  rintro (⟨x, hx⟩ | ⟨hall, -⟩)
  · cases (show (Except.ok () : Ext4Result Unit) = .error x from hx)
  · cases (show (Except.error .ioError : Ext4Result Unit) = .ok () from hall 1 (by decide))

end Gergios.Ext4
