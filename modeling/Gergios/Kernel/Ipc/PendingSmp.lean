import Gergios.Kernel.Config

/-!
# Pending asynchronous messages on several processors

The search in a map of privilege ids, as it is compiled for several processors. The bits are those
of the words from the start of the map on, so those from `nrSysProcs` on are not bits of the map.
-/

namespace Gergios.Kernel.Smp

open List

def bitchunkBits : Nat := 32

/-- The result, the bits that were inspected and the ids of the processes that were marked with
`MF_SENDA_VM_MISS`. `NULL_PRIV_ID` is `none`. -/
structure Pending where
  id : Option Nat := none
  inspected : List Nat := []
  missed : List Nat := []

section Model

variable (map vmInhibit : Nat → Bool) (asynm : Bool)

/-- The loops over the bits from `srcId` on, of which `k` are in the map. After a bit that is clear
the next one is read before the end of the map is tested. A bit that is set there only makes the
loops end after a mark on what is taken for a process. -/
def searchBits : Nat → Nat → Bool → Pending
  | 0, srcId, wasClear => if wasClear then { inspected := [srcId] } else {}
  | k + 1, srcId, _ =>
    if map srcId then
      if asynm && vmInhibit srcId then
        let r := searchBits k (srcId + 1) false
        { r with inspected := srcId :: r.inspected, missed := srcId :: r.missed }
      else { id := some srcId, inspected := [srcId] }
    else
      let r := searchBits k (srcId + 1) true
      { r with inspected := srcId :: r.inspected }

def chunkAt (srcId : Nat) : List Nat := range' srcId bitchunkBits

/-- The loop over `c` chunks from `srcId` on. Once a chunk is not zero the rest of the map is
searched bit by bit. -/
def searchChunks : Nat → Nat → Pending
  | 0, _ => {}
  | c + 1, srcId =>
    let r := if (chunkAt srcId).any map then
        searchBits map vmInhibit asynm ((c + 1) * bitchunkBits) srcId false
      else searchChunks c (srcId + bitchunkBits)
    { r with inspected := chunkAt srcId ++ r.inspected }

def hasPending : Option Nat → Pending
  | some srcId =>
    if map srcId then
      if asynm && vmInhibit srcId then { inspected := [srcId], missed := [srcId] }
      else { id := some srcId, inspected := [srcId] }
    else { inspected := [srcId] }
  | none => searchChunks map vmInhibit asynm (nrSysProcs / bitchunkBits) 0

end Model

/-- The bit of a process that may be reported is set. -/
def ready (map vmInhibit : Nat → Bool) (i : Nat) : Bool := map i && !vmInhibit i

variable {map vmInhibit : Nat → Bool} {lo : Nat}

/-- Among the bits in `l`, the first that is ready was found and the inhibited processes before it
were marked. -/
def Finds (map vmInhibit : Nat → Bool) (l : List Nat) (r : Pending) : Prop :=
  r.id = l.find? (ready map vmInhibit) ∧
    r.missed = (l.takeWhile fun i => !ready map vmInhibit i).filter map

theorem searchBits_finds (k : Nat) (wasClear : Bool) :
    Finds map vmInhibit (range' lo k) (searchBits map vmInhibit true k lo wasClear) := by
  induction k generalizing lo wasClear with
  | zero =>
    rw [searchBits]
    cases wasClear <;> exact ⟨rfl, rfl⟩
  | succ k ih =>
    rw [searchBits, range'_succ]
    cases hset : map lo with
    | false => simpa [Finds, ready, hset] using ih true
    | true =>
      cases hinh : vmInhibit lo with
      | false => simp [Finds, ready, hset, hinh]
      | true => simpa [Finds, ready, hset, hinh] using ih false

/-- The bit behind the map is read iff no process is ready and the last bit of the map is clear. -/
theorem inspected_searchBits {n : Nat} (k : Nat) (wasClear : Bool) (hlo : lo + k = n)
    (hclear : k = 0 → wasClear = !map (n - 1)) :
    (∀ p ∈ (searchBits map vmInhibit true k lo wasClear).inspected, p < n) ↔
      (range' lo k).any (ready map vmInhibit) ∨ map (n - 1) = true := by
  induction k generalizing lo wasClear with
  | zero =>
    rw [searchBits, hclear rfl]
    cases map (n - 1) <;> simp [← hlo]
  | succ k ih =>
    have hlt : lo < n := by omega
    have hlast : k = 0 → map (n - 1) = map lo := by
      rintro rfl
      rw [← hlo, Nat.add_sub_cancel]
    rw [searchBits, range'_succ]
    cases hset : map lo with
    | false => simpa [ready, hset, hlt, -any_eq_true] using ih true (by omega) (by simp_all)
    | true =>
      cases hinh : vmInhibit lo with
      | false => simp [ready, hset, hinh, hlt]
      | true => simpa [ready, hset, hinh, hlt, -any_eq_true] using ih false (by omega) (by simp_all)

theorem searchChunks_spec {n : Nat} (c : Nat) (hlo : lo + c * bitchunkBits = n) :
    Finds map vmInhibit (range' lo (c * bitchunkBits)) (searchChunks map vmInhibit true c lo) ∧
    ((∀ p ∈ (searchChunks map vmInhibit true c lo).inspected, p < n) ↔
      ¬(range' lo (c * bitchunkBits)).any map ∨
        (range' lo (c * bitchunkBits)).any (ready map vmInhibit) ∨ map (n - 1) = true) := by
  induction c generalizing lo with
  | zero => simp [searchChunks, Finds]
  | succ c ih =>
    have hchunk : ∀ p ∈ chunkAt lo, p < n := by
      intro p hp
      rw [chunkAt, mem_range'_1] at hp
      rw [Nat.succ_mul] at hlo
      omega
    have hrange : range' lo ((c + 1) * bitchunkBits) =
        chunkAt lo ++ range' (lo + bitchunkBits) (c * bitchunkBits) := by
      rw [chunkAt, range'_append_1, Nat.succ_mul, Nat.add_comm]
    rw [searchChunks]
    dsimp only
    rw [forall_mem_append, and_iff_right hchunk]
    split
    · rename_i hany
      refine ⟨searchBits_finds _ false, ?_⟩
      rw [inspected_searchBits _ false hlo (by rw [bitchunkBits]; omega), hrange,
        any_append (f := map), hany, Bool.true_or, or_iff_right (not_not.mpr rfl)]
    · rename_i hzero
      have hclear : ∀ j ∈ chunkAt lo, map j = false := by simpa using hzero
      have hnot : ∀ j ∈ chunkAt lo, ready map vmInhibit j = false := by
        intro j hj
        rw [ready, hclear j hj, Bool.false_and]
      have hnext : lo + bitchunkBits + c * bitchunkBits = n := by
        rw [← hlo, Nat.succ_mul]
        omega
      obtain ⟨⟨hid, hmissed⟩, hread⟩ := ih hnext
      rw [hread, hrange]
      refine ⟨⟨?_, ?_⟩, ?_⟩
      · rw [find?_append, find?_eq_none.mpr (by simpa using hnot), Option.none_or]
        exact hid
      · rw [takeWhile_append_of_pos (by simpa using hnot), filter_append,
          filter_eq_nil_iff.mpr (by simpa using hclear), nil_append]
        exact hmissed
      · have hany : ∀ f, (∀ j ∈ chunkAt lo, f j = false) → (chunkAt lo).any f = false := by simp
        rw [any_append, any_append, hany map hclear, hany _ hnot, Bool.false_or, Bool.false_or]

def Correct (map vmInhibit : Nat → Bool) (r : Pending) : Prop :=
  (∀ p ∈ r.inspected, p < nrSysProcs) ∧ Finds map vmInhibit (range nrSysProcs) r

theorem has_pending_correct_iff (map vmInhibit : Nat → Bool) :
    Correct map vmInhibit (hasPending map vmInhibit true none) ↔
      (∀ i < nrSysProcs, map i = false) ∨ (∃ i < nrSysProcs, ready map vmInhibit i) ∨
        map (nrSysProcs - 1) = true := by
  obtain ⟨hfinds, hread⟩ := @searchChunks_spec map vmInhibit 0 nrSysProcs 4 rfl
  have hrange : range' 0 (4 * bitchunkBits) = range nrSysProcs := range_eq_range'.symm
  rw [hrange] at hfinds hread
  refine (and_iff_left hfinds).trans (hread.trans ?_)
  simp

/-- The only set bit is that of an inhibited process. -/
theorem bit_behind_map_inspected :
    nrSysProcs ∈ (hasPending (· == 0) (fun _ => true) true none).inspected := by
  decide +kernel

end Gergios.Kernel.Smp
