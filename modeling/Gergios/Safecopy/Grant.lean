import Mathlib.Data.BitVec
import Gergios.Kernel.Table

/-!
# Grants

A process lets others access its memory with entries of its grant table, which lies in its
own memory. An entry is a `cp_grant_t`, whose union is kept here as the words it is made of,
so that each member is a way to read the same words. A grant id packs the index of an entry
and its sequence number.
-/

namespace Gergios.Safecopy

open Kernel Nat BitVec

def cpfRead : BitVec 32 := 0x1
def cpfWrite : BitVec 32 := 0x2
def cpfTry : BitVec 32 := 0x10
def cpfUsed : BitVec 32 := 0x100
def cpfDirect : BitVec 32 := 0x200
def cpfIndirect : BitVec 32 := 0x400
def cpfMagic : BitVec 32 := 0x800
def cpfValid : BitVec 32 := 0x1000

/-- `cp_grant_t`; `int0` and `int4` are the union's words at offsets 0 and 4, `long8` and
`long16` those at 8 and 16. -/
structure CpGrant where
  flags : BitVec 32
  seq : BitVec 32
  int0 : BitVec 32
  int4 : BitVec 32
  long8 : BitVec 64
  long16 : BitVec 64
  faulted : BitVec 32
  deriving DecidableEq

namespace CpGrant

variable (g : CpGrant)

def isSet (f : BitVec 32) : Bool := g.flags &&& f != 0

def directWhoTo : Endpoint := g.int0.toInt
def directStart : BitVec 64 := g.long8
def directLen : BitVec 64 := g.long16

def indirectWhoTo : Endpoint := g.int0.toInt
def indirectWhoFrom : Endpoint := g.int4.toInt
def indirectGrant : BitVec 32 := g.long8.truncate 32

def magicWhoFrom : Endpoint := g.int0.toInt
def magicWhoTo : Endpoint := g.int4.toInt
def magicStart : BitVec 64 := g.long8
def magicLen : BitVec 64 := g.long16

def freeNext : Int := g.int0.toInt

end CpGrant

def sizeofGrant : Nat := 40
def offsetofFaulted : Nat := 32

def grantShift : Nat := 20
def grantMaxSeq : Nat := 2 ^ (31 - grantShift)
def grantMaxIdx : Nat := 2 ^ grantShift

variable (grant : BitVec 32)

def grantValid : Bool := -1 < grant.toInt

def grantIdx : BitVec 32 := grant &&& BitVec.ofNat 32 (grantMaxIdx - 1)

def grantSeq : BitVec 32 :=
  grant.sshiftRight grantShift &&& BitVec.ofNat 32 (grantMaxSeq - 1)

def grantId (idx seq : BitVec 32) : BitVec 32 := (seq <<< grantShift) ||| idx

section Ids

variable {idx seq grant : BitVec 32}

theorem grantIdx_toNat (grant : BitVec 32) :
    (grantIdx grant).toNat = grant.toNat % grantMaxIdx := by
  simp [grantIdx, grantMaxIdx, grantShift, and_two_pow_sub_one_eq_mod _ 20]

theorem grantValid_iff : grantValid grant = true ↔ grant.toNat < 2 ^ 31 := by
  rw [grantValid, decide_eq_true_iff, toInt_eq_toNat_cond]
  split <;> omega

theorem grantSeq_toNat (h : grantValid grant = true) :
    (grantSeq grant).toNat = grant.toNat / grantMaxIdx := by
  rw [grantValid_iff] at h
  have hmsb : grant.msb = false := by
    rw [msb_eq_false_iff_two_mul_lt]
    omega
  have hmask : ∀ n : Nat, n &&& 2047 = n % 2 ^ 11 := fun n => and_two_pow_sub_one_eq_mod n 11
  simp only [grantSeq, grantShift, grantMaxSeq, grantMaxIdx, toNat_and,
    sshiftRight_eq_of_msb_false hmsb]
  norm_num [hmask]
  omega

theorem grantId_toNat (hidx : idx.toNat < grantMaxIdx) (hseq : seq.toNat < grantMaxSeq) :
    (grantId idx seq).toNat = seq.toNat * grantMaxIdx + idx.toNat := by
  simp only [grantMaxIdx, grantMaxSeq, grantShift] at hidx hseq
  have hlt : seq.toNat * 2 ^ 20 < 2 ^ 32 := by omega
  rw [grantId, toNat_or, toNat_shiftLeft, grantShift, Nat.shiftLeft_eq,
    mod_eq_of_lt hlt, ← Nat.shiftLeft_eq, ← shiftLeft_add_eq_or_of_lt hidx, Nat.shiftLeft_eq]
  rfl

theorem grantId_spec (hidx : idx.toNat < grantMaxIdx) (hseq : seq.toNat < grantMaxSeq) :
    grantValid (grantId idx seq) = true ∧ grantIdx (grantId idx seq) = idx ∧
      grantSeq (grantId idx seq) = seq := by
  have hid := grantId_toNat hidx hseq
  simp only [grantMaxIdx, grantMaxSeq, grantShift] at hidx hseq hid
  have hvalid : grantValid (grantId idx seq) = true := grantValid_iff.mpr (by omega)
  refine ⟨hvalid, eq_of_toNat_eq ?_, eq_of_toNat_eq ?_⟩
  · rw [grantIdx_toNat]
    simp only [grantMaxIdx, grantShift]
    omega
  · rw [grantSeq_toNat hvalid]
    simp only [grantMaxIdx, grantShift]
    omega

end Ids

end Gergios.Safecopy
