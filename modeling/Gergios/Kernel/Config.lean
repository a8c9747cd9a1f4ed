import Mathlib.Data.Fin.Basic
import Mathlib.Tactic.NormNum

/-!
# Table sizes, endpoints and status codes

The sizes are those of `sys_config.h` and `com.h`. An endpoint packs a slot number and the
generation of that slot; the generation is zero for the numbers wired into `com.h`, so a
kernel task's endpoint is its (negative) process number.
-/

namespace Gergios.Kernel

abbrev nrTasks : Nat := 5
abbrev nrProcs : Nat := 256
abbrev nrSysProcs : Nat := 128
abbrev nrSchedQueues : Nat := 16
abbrev nrIrq : Nat := 16
abbrev nrIoRange : Nat := 64
abbrev nrMemRange : Nat := 20

/-- A `struct proc *` into the process table, as an index from `BEG_PROC_ADDR`. -/
abbrev Slot := Fin (nrTasks + nrProcs)

instance : NeZero (nrTasks + nrProcs) := ⟨by decide⟩

/-- A `struct priv *` into the table of privilege structures. -/
abbrev PrivId := Fin nrSysProcs

def staticPrivId (i : Slot) : PrivId := ⟨i.val % nrSysProcs, Nat.mod_lt _ (by decide)⟩

def staticSlot (k : PrivId) : Slot := ⟨k.val, Nat.lt_trans k.isLt (by decide)⟩

abbrev Endpoint := Int

def maxNrTasks : Int := 1023
def endpointGenerationSize : Int := 32768
def endpointMaxGeneration : Int := 2147483647 / endpointGenerationSize - 1
def endpointSlotTop : Int := endpointGenerationSize - maxNrTasks

def anyE : Endpoint := endpointSlotTop - 1
def noneE : Endpoint := endpointSlotTop - 2
def selfE : Endpoint := endpointSlotTop - 3

def mkEndpoint (g p : Int) : Endpoint := g * endpointGenerationSize + p
def endpointG (e : Endpoint) : Int := (e + maxNrTasks) / endpointGenerationSize
def endpointP (e : Endpoint) : Int := (e + maxNrTasks) % endpointGenerationSize - maxNrTasks

def anyUsr : Endpoint := mkEndpoint 1 (endpointP anyE)
def anySys : Endpoint := mkEndpoint 2 (endpointP anyE)
def anyTsk : Endpoint := mkEndpoint 3 (endpointP anyE)

def systemNr : Int := -2
def hardware : Int := -1
def vmProcNr : Int := 8

def procNr (i : Slot) : Int := (i.val : Int) - nrTasks

def asyncmSlot : Slot := 0
def systemSlot : Slot := 3
def hardwareSlot : Slot := 4

def isokprocn (n : Int) : Prop := 0 ≤ n + nrTasks ∧ n + nrTasks < (nrTasks + nrProcs : Nat)

instance (n : Int) : Decidable (isokprocn n) := inferInstanceAs (Decidable (_ ∧ _))

/-- `proc_addr`, on the numbers for which the address is inside the table. -/
def procAddr (n : Int) : Option Slot :=
  if h : isokprocn n then
    some ⟨(n + nrTasks).toNat, (Int.toNat_lt h.1).mpr h.2⟩
  else none

/-- `ROOT_USR_PROC_NR` is INIT, slot eleven of the user processes. -/
def userPrivId : PrivId := ⟨nrTasks + 11, by decide⟩

theorem endpointP_mkEndpoint {g p : Int} (h : isokprocn p) : endpointP (mkEndpoint g p) = p := by
  unfold isokprocn at h
  simp only [endpointP, mkEndpoint, endpointGenerationSize, maxNrTasks]
  push_cast at h
  omega

theorem isokprocn_procNr (i : Slot) : isokprocn (procNr i) := by
  unfold isokprocn procNr
  omega

@[simp]
theorem procAddr_procNr (i : Slot) : procAddr (procNr i) = some i := by
  rw [procAddr, dif_pos (isokprocn_procNr i)]
  simp [procNr]

theorem procNr_injective {i j : Slot} (h : procNr i = procNr j) : i = j := by
  apply Fin.ext
  unfold procNr at h
  omega

theorem not_isokprocn_endpointP_any : ¬isokprocn (endpointP anyE) := by decide

theorem not_isokprocn_endpointP_none : ¬isokprocn (endpointP noneE) := by decide

inductive Errno
  | ok | einval | eperm | esrch | eagain | efault | edom | ebusy | enomem | enoent
  | enotready | edeadsrcdst | elocked | ebadcall | ecalldenied | etrapdenied | ebadcpu
  | eloop | enospc
  deriving DecidableEq, Repr

inductive Call
  | send | receive | sendrec | notify | sendnb | senda
  deriving DecidableEq, Repr

def Call.toNat : Call → Nat
  | .send => 1
  | .receive => 2
  | .sendrec => 3
  | .notify => 4
  | .sendnb => 5
  | .senda => 16

/-- `s_asyntab` when there is no table: `-1` as an address. -/
def noTable : Nat := 2 ^ 64 - 1

def sizeofAsynmsg : Nat := 80

/-- The ways in which the kernel stops: a failed assertion, a panic, or a loop that does
not come to an end. -/
inductive Halt
  | assertQLink | assertDelivermsg | assertSlotFree | assertNoEndpoint | assertMsgPtr
  | assertVmrequest | assertVmresult | assertVmtype | panicEndpoint | panicSig | panicProc
  | panicDelivermsg | assertRunnable | hang
  deriving DecidableEq, Repr

end Gergios.Kernel
