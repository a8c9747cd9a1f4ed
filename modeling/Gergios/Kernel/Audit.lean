import Gergios.Kernel.Config
import Gergios.Lib.Ring
import Mathlib.Data.List.Induction

/-!
# The audit ring

`audit_log` and the retrieval of records with `do_audit`, which copies the newest records out in one
or two pieces. The time of a call and the answers of `data_copy` are given.
-/

namespace Gergios.Kernel

open Function

def auditBufferEntries : Nat := 1024

def auditServiceCrash : BitVec 32 := 10

def auditExtraSize : Nat := 32

structure AuditRecord where
  serial : BitVec 32
  type : BitVec 32
  result : Int
  timestamp : BitVec 64
  subject : Endpoint
  object : Endpoint
  extraLen : Nat
  extra : Fin auditExtraSize → UInt8

/-- The arguments of `audit_log`, with `none` for a null `extra`, and the time of the call. -/
structure AuditCall where
  type : BitVec 32
  result : Int
  subject : Endpoint
  object : Endpoint
  extra : Option (Nat → UInt8)
  extraLen : Nat
  monotonic : BitVec 64

structure Audit where
  buf : Nat → AuditRecord
  writeIdx : BitVec 32 := 0
  serial : BitVec 32 := 0

def AuditCall.valid (c : AuditCall) : Bool :=
  !(c.type == 0 || auditServiceCrash < c.type || auditExtraSize < c.extraLen)

def AuditCall.record (c : AuditCall) (serial : BitVec 32) : AuditRecord where
  serial := serial
  type := c.type
  result := c.result
  timestamp := c.monotonic
  subject := c.subject
  object := c.object
  extraLen := c.extraLen
  extra i :=
    match c.extra with
    | some bytes => if i < c.extraLen then bytes i else 0
    | none => 0

/-- `audit_log`; a call with bad arguments is dropped. -/
def auditLog (a : Audit) (c : AuditCall) : Audit :=
  if c.valid then
    { buf := update a.buf (ringIdx auditBufferEntries a.writeIdx) (c.record (a.serial + 1))
      writeIdx := a.writeIdx + 1
      serial := a.serial + 1 }
  else a

inductive AuditError
  | einval | efault
  | copy (r : Int)

/-- The caller's buffer, record by record. -/
abbrev AuditOut := Nat → Option AuditRecord

/-- `data_copy` of `n` records to the caller's buffer, `off` records from its start; it is not
called for none. -/
def copyRecords (r : Int) (src : Nat → AuditRecord) (off n : Nat) (out : AuditOut) :
    Except AuditError AuditOut :=
  if 0 < n ∧ r ≠ 0 then .error (.copy r)
  else .ok fun i => if off ≤ i ∧ i < off + n then some (src (i - off)) else out i

/-- The records up to the end of the ring. -/
def firstChunk (start count : Nat) : Nat :=
  if auditBufferEntries < start + count then auditBufferEntries - start else count

/-- `do_audit` for `AUDIT_OP_RETRIEVE`: the number of records and the buffer. -/
def auditRetrieve (a : Audit) (auditCount : Int) (auditBuf : Nat) (r₁ r₂ : Int) (out : AuditOut) :
    Except AuditError (Nat × AuditOut) := do
  if auditCount ≤ 0 ∨ auditBufferEntries < auditCount then .error .einval
  else if auditBuf = 0 then .error .efault
  else
    let avail := a.writeIdx.toNat
    let count := min (min auditCount.toNat avail) auditBufferEntries
    if count = 0 then .ok (0, out)
    else
      let start := ringIdx auditBufferEntries (BitVec.ofNat 32 (avail - count))
      let first := firstChunk start count
      let out ← copyRecords r₁ (fun i => a.buf (start + i)) 0 first out
      let out ← copyRecords r₂ a.buf first (count - first) out
      .ok (count, out)

/-- The records of the calls that were logged. -/
def logged (calls : List AuditCall) : List AuditRecord :=
  (calls.filter (·.valid)).mapIdx fun i c => c.record (BitVec.ofNat 32 (i + 1))

structure Audit.Holds (a : Audit) (rs : List AuditRecord) : Prop where
  writeIdx : a.writeIdx = BitVec.ofNat 32 rs.length
  serial : a.serial = BitVec.ofNat 32 rs.length
  window : Window auditBufferEntries a.buf (rs.length - auditBufferEntries) rs

variable {a : Audit} {rs : List AuditRecord} {count : Nat}

theorem auditIdx_ofNat (k : Nat) :
    ringIdx auditBufferEntries (BitVec.ofNat 32 k) = k % auditBufferEntries :=
  ringIdx_ofNat (s := 10) (by decide) k

theorem logged_concat (calls : List AuditCall) (c : AuditCall) :
    logged (calls ++ [c]) = if c.valid then logged calls ++
      [c.record (BitVec.ofNat 32 ((logged calls).length + 1))] else logged calls := by
  unfold logged
  cases hc : c.valid with
  | true => simp [hc]
  | false => simp [hc]

theorem Audit.Holds.log (h : a.Holds rs) {c : AuditCall} (hc : c.valid) :
    (auditLog a c).Holds (rs ++ [c.record (BitVec.ofNat 32 (rs.length + 1))]) := by
  have hserial : a.serial + 1 = BitVec.ofNat 32 (rs.length + 1) := by
    rw [h.serial, BitVec.ofNat_add]
    rfl
  rw [auditLog, if_pos hc]
  refine ⟨?_, ?_, ?_⟩
  · rw [h.writeIdx, List.length_append, BitVec.ofNat_add]
    rfl
  · rw [hserial, List.length_append]
    rfl
  · rw [h.writeIdx, auditIdx_ofNat, hserial, List.length_append]
    exact (h.window.mono (by omega)).push (by simp; omega) _

theorem audit_holds (buf : Nat → AuditRecord) (calls : List AuditCall) :
    (calls.foldl auditLog { buf }).Holds (logged calls) := by
  induction calls using List.reverseRecOn with
  | nil => exact ⟨rfl, rfl, nofun⟩
  | append_singleton calls c ih =>
    rw [List.foldl_append, List.foldl_cons, logged_concat]
    split
    · exact ih.log ‹_›
    · rwa [auditLog, if_neg ‹_›]

theorem copyRecords_ok (src : Nat → AuditRecord) (off n : Nat) (out : AuditOut) :
    copyRecords 0 src off n out =
      .ok fun i => if off ≤ i ∧ i < off + n then some (src (i - off)) else out i :=
  if_neg (not_and_of_not_right _ (not_not_intro rfl))

theorem Audit.Holds.newest (h : a.Holds rs) {i : Nat}
    (hle : count ≤ auditBufferEntries) (hi : i < min count rs.length) :
    (rs.drop (rs.length - count))[i]? =
      some (a.buf ((rs.length - min count rs.length + i) % auditBufferEntries)) := by
  have hlt : rs.length - count + i < rs.length := by omega
  rw [List.getElem?_drop, List.getElem?_eq_getElem hlt, ← h.window _ hlt (by omega)]
  congr 3
  omega

theorem firstChunk_cases (start count : Nat) :
    auditBufferEntries < start + count ∧ firstChunk start count = auditBufferEntries - start ∨
      start + count ≤ auditBufferEntries ∧ firstChunk start count = count := by
  rw [firstChunk]
  split
  · exact .inl ⟨‹_›, rfl⟩
  · exact .inr ⟨Nat.not_lt.mp ‹_›, rfl⟩

theorem auditIdx_add {k m i : Nat} (hi : i < m) (hm : m ≤ auditBufferEntries) :
    (k + i) % auditBufferEntries =
      if i < firstChunk (k % auditBufferEntries) m then k % auditBufferEntries + i
      else i - firstChunk (k % auditBufferEntries) m := by
  have hchunk := firstChunk_cases (k % auditBufferEntries) m
  generalize firstChunk _ m = first at *
  simp only [auditBufferEntries] at hm hchunk ⊢
  split <;> omega

theorem Audit.Holds.retrieve (h : a.Holds rs)
    (hlen : rs.length < 2 ^ 32) (hpos : 0 < count) (hle : count ≤ auditBufferEntries)
    {auditBuf : Nat} (hbuf : auditBuf ≠ 0) : ∃ out,
    auditRetrieve a count auditBuf 0 0 (fun _ => none) = .ok (min count rs.length, out) ∧
      ∀ i, out i = (rs.drop (rs.length - count))[i]? := by
  have havail : a.writeIdx.toNat = rs.length := by
    rw [h.writeIdx, BitVec.toNat_ofNat, Nat.mod_eq_of_lt hlen]
  have hcount : min (min count rs.length) auditBufferEntries = min count rs.length := by omega
  have hnew : ∀ i, i < min count rs.length → _ := fun i hi => h.newest hle hi
  have hnone : ∀ i, ¬i < min count rs.length → (rs.drop (rs.length - count))[i]? = none := by
    intro i hi
    rw [List.getElem?_eq_none]
    rw [List.length_drop]
    omega
  simp only [auditRetrieve, havail, Int.toNat_natCast, hcount, auditIdx_ofNat]
  rw [if_neg (by omega), if_neg hbuf]
  generalize min count rs.length = m at *
  split
  · exact ⟨_, by congr 2; exact Eq.symm ‹_›, fun i => (hnone i (by omega)).symm⟩
  · have hchunk := firstChunk_cases ((rs.length - m) % auditBufferEntries) m
    simp only [copyRecords_ok]
    refine ⟨_, rfl, fun i => ?_⟩
    rcases Nat.lt_or_ge i m with hi | hi
    · rw [hnew i hi, auditIdx_add hi (by omega)]
      generalize firstChunk _ m = first
      rcases Nat.lt_or_ge i first with hlt | hge
      · simp [hlt]
      · have hin : i < first + (m - first) := by omega
        simp [hge.not_gt, hin]
    · rw [hnone i (by omega)]
      simp only
      rw [if_neg (by omega), if_neg (by omega)]

def privChange : AuditCall := ⟨3, 0, 4, 6, none, 0, 8⟩

end Gergios.Kernel
