import Gergios.Safecopy.Grant

/-!
# Copies by a vector of grants

The vector is copied from the caller into an array of the kernel, and then the copies it asks for
are made one after another. What the copies do to memory is left to `safecopy`.
-/

namespace Gergios.Safecopy

open Kernel List

def scpvecNr : Nat := 64

def sizeofVscpVec : Nat := 40

structure VscpVec where
  vFrom : Endpoint
  vTo : Endpoint
  vGid : BitVec 32
  vOffset : BitVec 64
  vAddr : BitVec 64
  vBytes : BitVec 64

structure CopyCall where
  granter : Endpoint
  grantee : Endpoint
  grantid : BitVec 32
  bytes : BitVec 64
  offset : BitVec 64
  addr : BitVec 64
  access : BitVec 32

/-- What the kernel finds: the elements in memory from the start of its array on, after how many
bytes a fault stops the copy of the vector, with its status, and the effect of a copy. Status zero
is `OK`. -/
structure VecEnv (M : Type) where
  vec : Nat → VscpVec
  mapped : Nat
  fault : Int
  fault_ne : fault ≠ 0
  safecopy : CopyCall → M → Int × M

/-- The bytes of the array that were written, the elements that were read and the copies that
succeeded, in order. -/
structure VecRun (M : Type) where
  written : Nat := 0
  read : List Nat := []
  copies : List CopyCall := []
  mem : M
  status : Int

def VscpVec.call (v : VscpVec) (caller : Endpoint) : Option CopyCall :=
  if v.vFrom = selfE then
    some ⟨v.vTo, caller, v.vGid, v.vBytes, v.vOffset, v.vAddr, cpfWrite⟩
  else if v.vTo = selfE then
    some ⟨v.vFrom, caller, v.vGid, v.vBytes, v.vOffset, v.vAddr, cpfRead⟩
  else none

section Model

variable {M : Type} (env : VecEnv M) (caller : Endpoint)

/-- The loop from element `i` on, with `k` elements left. -/
def copyElements : Nat → Nat → M → VecRun M
  | 0, _, mem => { mem, status := 0 }
  | k + 1, i, mem =>
    match (env.vec i).call caller with
    | none => { read := [i], mem, status := -22 }
    | some c =>
      let (r, mem) := env.safecopy c mem
      if r ≠ 0 then { read := [i], mem, status := r }
      else
        let run := copyElements k (i + 1) mem
        { run with read := i :: run.read, copies := c :: run.copies }

/-- The status of `virtual_copy_vmcheck` into the array. -/
def virtualCopy (bytes : Nat) : Int :=
  if bytes = 0 then -33 else if env.mapped < bytes then env.fault else 0

/-- The product is a `size_t`, to which a negative number is converted. -/
def vecBytes (vecSize : BitVec 32) : Nat := (vecSize.toInt * sizeofVscpVec % 2 ^ 64).toNat

def doVsafecopy (vecSize : BitVec 32) (mem : M) : VecRun M :=
  let bytes := vecBytes vecSize
  let r := virtualCopy env bytes
  let run := if r ≠ 0 then { mem, status := r }
    else copyElements env caller vecSize.toInt.toNat 0 mem
  { run with written := min bytes env.mapped }

end Model

variable {M : Type}

/-- Only elements of the array are written and read. -/
def VecRun.Bounded (run : VecRun M) : Prop :=
  run.written ≤ scpvecNr * sizeofVscpVec ∧ ∀ i ∈ run.read, i < scpvecNr

/-- The copies that were made are those of the first `n` elements from `i` on. There were no more
than `k`, or the next one failed. -/
def VecRun.InOrder (env : VecEnv M) (caller : Endpoint) (i k : Nat) (run : VecRun M) : Prop :=
  ∃ n, run.copies.map some = (range' i n).map (fun j => (env.vec j).call caller) ∧
    (n = k ∧ run.read = range' i k ∧ run.status = 0 ∨
      n < k ∧ run.read = range' i (n + 1) ∧ run.status ≠ 0)

theorem copyElements_inOrder (env : VecEnv M) (caller : Endpoint) (k i : Nat) (mem : M) :
    (copyElements env caller k i mem).InOrder env caller i k := by
  induction k generalizing i mem with
  | zero => exact ⟨0, rfl, .inl ⟨rfl, rfl, rfl⟩⟩
  | succ k ih =>
    rw [copyElements]
    split
    · exact ⟨0, rfl, .inr ⟨Nat.succ_pos k, rfl, (by decide : (-22 : Int) ≠ 0)⟩⟩
    · rename_i c hc
      dsimp only
      split
      · rename_i hr
        exact ⟨0, rfl, .inr ⟨Nat.succ_pos k, rfl, hr⟩⟩
      · obtain ⟨n, hcopies, hend⟩ := ih (i + 1) (env.safecopy c mem).2
        refine ⟨n + 1, ?_, ?_⟩
        · rw [map_cons, hcopies, range'_succ, map_cons, hc]
        · rcases hend with ⟨rfl, hread, hstatus⟩ | ⟨hn, hread, hstatus⟩
          · exact .inl ⟨rfl, congrArg (i :: ·) hread, hstatus⟩
          · exact .inr ⟨Nat.succ_lt_succ hn, congrArg (i :: ·) hread, hstatus⟩

theorem mem_read_lt {env : VecEnv M} {caller : Endpoint} {run : VecRun M} {i j k : Nat}
    (h : run.InOrder env caller i k) (hj : j ∈ run.read) : j < i + k := by
  obtain ⟨n, -, ⟨rfl, hread, -⟩ | ⟨hn, hread, -⟩⟩ := h
  all_goals
    rw [hread, mem_range'_1] at hj
    omega

theorem vecBytes_le_iff (vecSize : BitVec 32) : vecBytes vecSize ≤ scpvecNr * sizeofVscpVec ↔
    0 ≤ vecSize.toInt ∧ vecSize.toInt ≤ scpvecNr := by
  have hle := vecSize.le_toInt
  have hlt := vecSize.toInt_lt
  rw [vecBytes, sizeofVscpVec, scpvecNr]
  generalize vecSize.toInt = els at *
  rcases Int.lt_or_le els 0 with hneg | hpos
  · rw [← Int.add_emod_right, Int.emod_eq_of_lt (by omega) (by omega)]
    omega
  · rw [Int.emod_eq_of_lt (by omega) (by omega)]
    omega

theorem le_mapped_of_virtualCopy {env : VecEnv M} {bytes : Nat} (h : virtualCopy env bytes = 0) :
    bytes ≤ env.mapped := by
  unfold virtualCopy at h
  split at h
  · omega
  · split at h
    · exact absurd h env.fault_ne
    · omega

/-- The copies are made in order up to the first that fails. Only elements of the array are used iff
the message asks for no more than there are, or a fault stops the copy of the vector before the end
of the array. -/
theorem vsafecopy_bounded_iff (env : VecEnv M) (caller : Endpoint) (vecSize : BitVec 32) (mem : M) :
    ((doVsafecopy env caller vecSize mem).Bounded ↔
      0 ≤ vecSize.toInt ∧ vecSize.toInt ≤ scpvecNr ∨ env.mapped ≤ scpvecNr * sizeofVscpVec) ∧
    ((doVsafecopy env caller vecSize mem).read = [] ∧
        (doVsafecopy env caller vecSize mem).copies = [] ∨
      (doVsafecopy env caller vecSize mem).InOrder env caller 0 vecSize.toInt.toNat) := by
  have hels := vecBytes_le_iff vecSize
  have horder := copyElements_inOrder env caller vecSize.toInt.toNat 0 mem
  rw [← hels, ← min_le_iff, doVsafecopy]
  dsimp only
  split
  · exact ⟨and_iff_left (fun _ hj => nomatch hj), .inl ⟨rfl, rfl⟩⟩
  · rename_i hr
    refine ⟨and_iff_left_of_imp fun hle j hj => ?_, .inr horder⟩
    rw [min_eq_left (le_mapped_of_virtualCopy (not_not.mp hr)), hels] at hle
    have hlt := mem_read_lt horder hj
    omega

/-- A message that asks for one element too many. -/
theorem vsafecopy_out_of_bounds :
    ¬(doVsafecopy (M := Unit)
      ⟨fun _ => ⟨selfE, 0, 0, 0, 0, 0⟩, 4096, -14, by decide,
        fun _ m => (0, m)⟩ 5 65 ()).Bounded := by
  rintro ⟨hle, -⟩
  exact absurd hle (by decide +kernel)

end Gergios.Safecopy
