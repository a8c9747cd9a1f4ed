import Mathlib.Data.Finset.Basic
import Gergios.Kernel.Config

/-!
# The process table, the privilege structures and the kernel's globals

Flag words are kept as records of their bits. `log` is a history variable: the kernel
functions write it and never read it. The buffers of user processes that the kernel copies
from and to on its own account, the tables of asynchronous messages, are `umem`.
-/

namespace Gergios.Kernel

open Function

/-- `p_rts_flags`; a process is runnable iff no bit is set. -/
structure RtsFlags where
  slotFree : Bool := false
  procStop : Bool := false
  sending : Bool := false
  receiving : Bool := false
  signaled : Bool := false
  sigPending : Bool := false
  pStop : Bool := false
  noPriv : Bool := false
  noEndpoint : Bool := false
  vmInhibit : Bool := false
  pageFault : Bool := false
  vmRequest : Bool := false
  vmReqTarget : Bool := false
  preempted : Bool := false
  noQuantum : Bool := false
  bootInhibit : Bool := false
  deriving DecidableEq, Repr

namespace RtsFlags

/-- `flags | f` -/
@[simps]
def set (a f : RtsFlags) : RtsFlags where
  slotFree := a.slotFree || f.slotFree
  procStop := a.procStop || f.procStop
  sending := a.sending || f.sending
  receiving := a.receiving || f.receiving
  signaled := a.signaled || f.signaled
  sigPending := a.sigPending || f.sigPending
  pStop := a.pStop || f.pStop
  noPriv := a.noPriv || f.noPriv
  noEndpoint := a.noEndpoint || f.noEndpoint
  vmInhibit := a.vmInhibit || f.vmInhibit
  pageFault := a.pageFault || f.pageFault
  vmRequest := a.vmRequest || f.vmRequest
  vmReqTarget := a.vmReqTarget || f.vmReqTarget
  preempted := a.preempted || f.preempted
  noQuantum := a.noQuantum || f.noQuantum
  bootInhibit := a.bootInhibit || f.bootInhibit

/-- `flags & ~f` -/
@[simps]
def unset (a f : RtsFlags) : RtsFlags where
  slotFree := a.slotFree && !f.slotFree
  procStop := a.procStop && !f.procStop
  sending := a.sending && !f.sending
  receiving := a.receiving && !f.receiving
  signaled := a.signaled && !f.signaled
  sigPending := a.sigPending && !f.sigPending
  pStop := a.pStop && !f.pStop
  noPriv := a.noPriv && !f.noPriv
  noEndpoint := a.noEndpoint && !f.noEndpoint
  vmInhibit := a.vmInhibit && !f.vmInhibit
  pageFault := a.pageFault && !f.pageFault
  vmRequest := a.vmRequest && !f.vmRequest
  vmReqTarget := a.vmReqTarget && !f.vmReqTarget
  preempted := a.preempted && !f.preempted
  noQuantum := a.noQuantum && !f.noQuantum
  bootInhibit := a.bootInhibit && !f.bootInhibit

theorem eq_empty_of_set_eq_empty {a f : RtsFlags} (h : a.set f = {}) : a = {} := by
  cases a
  simp only [set, mk.injEq, Bool.or_eq_false_iff] at h
  simp only [h]

def IsForeign (f : RtsFlags) : Prop :=
  f.slotFree = false ∧ f.sending = false ∧ f.receiving = false ∧ f.noEndpoint = false ∧
    f.vmRequest = false

instance (f : RtsFlags) : Decidable f.IsForeign := inferInstanceAs (Decidable (_ ∧ _))

end RtsFlags

/-- The `p_misc_flags` that the functions below test. -/
structure MiscFlags where
  replyPend : Bool := false
  kcallResume : Bool := false
  deliverMsg : Bool := false
  sigDelay : Bool := false
  sendingFromKernel : Bool := false
  msgFailed : Bool := false
  niced : Bool := false
  deriving DecidableEq, Repr

/-- The body of a message: what the sender put there, or what `BuildNotifyMessage` did. -/
inductive Payload
  | data (bytes : List Nat)
  | notify (timestamp : Nat) (interrupts : BitVec 64) (sigset : Finset Nat)
  deriving DecidableEq

structure Message where
  source : Endpoint
  type : Int
  payload : Payload
  deriving DecidableEq

def notifyMessage : Int := 0x1000

structure AsynMsg where
  flags : BitVec 32
  dst : Endpoint
  result : Errno
  msg : Message
  deriving DecidableEq

inductive SchedClass
  | other | fifo | rr
  deriving DecidableEq, Repr

inductive VmsType
  | none | kernelcall | delivermsg | map
  deriving DecidableEq, Repr

/-- `p_vmrequest`: a request to VM; `vmresult` is `none` for `VMSUSPEND`. -/
structure VmRequest where
  nextrequestor : Option Slot
  type : VmsType
  target : Endpoint
  start : Nat
  length : Nat
  writeflag : Bool
  vmresult : Option Errno
  deriving DecidableEq

structure Proc where
  nr : Int
  priv : PrivId
  rtsFlags : RtsFlags
  miscFlags : MiscFlags
  priority : Nat
  cpuTimeLeft : Nat
  quantumSizeMs : Nat
  scheduler : Option Slot
  schedClass : SchedClass
  rtPriority : Nat
  cpu : Nat
  nextready : Option Slot
  callerQ : Option Slot
  qLink : Option Slot
  getfromE : Endpoint
  sendtoE : Endpoint
  pending : Finset Nat
  endpoint : Endpoint
  sendmsg : Message
  delivermsg : Message
  delivermsgVir : Nat
  vmrequest : VmRequest
  retreg : Errno
  ipcStatus : Nat

/-- The `s_flags` that the functions below test. -/
structure PrivFlags where
  preemptible : Bool := false
  billable : Bool := false
  dynPrivId : Bool := false
  sysProc : Bool := false
  checkIrq : Bool := false
  checkIoPort : Bool := false
  checkMem : Bool := false
  deriving DecidableEq, Repr

structure IpcFilterEl where
  matchSource : Bool
  matchType : Bool
  source : Endpoint
  type : Int
  deriving DecidableEq, Repr

inductive IpcFilterType
  | blacklist | whitelist
  deriving DecidableEq, Repr

structure IpcFilter where
  type : IpcFilterType
  elements : List IpcFilterEl
  deriving DecidableEq, Repr

/-- `procNr` is `noneE` while the structure is free; `ipcf` is the chain of IPC filters. -/
structure Priv where
  procNr : Int
  id : PrivId
  flags : PrivFlags
  asyntab : Nat
  asynsize : Nat
  asynendpoint : Endpoint
  trapMask : Finset Call
  ipcTo : Finset PrivId
  sigMgr : Endpoint
  bakSigMgr : Endpoint
  notifyPending : Finset PrivId
  asynPending : Finset PrivId
  intPending : BitVec 64
  sigPending : Finset Nat
  ipcf : List IpcFilter
  irqTab : List Nat
  ioTab : List (Nat × Nat)
  memTab : List (Nat × Nat)
  capEffective : BitVec 64
  capPermitted : BitVec 64 := 0
  capBound : BitVec 64 := 0
  grantTable : BitVec 64 := 0
  grantEntries : Int := 0
  grantEndpoint : Endpoint := 0

/-- The variables of one CPU; `none` for `procPtr` is the CPU's idle process. -/
structure CpuLocal where
  procPtr : Option Slot
  billPtr : Option Slot
  ptproc : Option Slot
  runQHead : Nat → Option Slot
  runQTail : Nat → Option Slot

inductive Event
  | blocked (src : Slot) (dstE : Endpoint) (m : Message)
  | copied (src dst : Slot) (dstE : Endpoint) (m : Message)
  | cleared (rc : Slot) (e : Endpoint)
  | posted (src : Slot) (table size : Nat)
  | asynCopied (src : Slot) (addr : Nat) (dst : Slot)
  | irqRaised (dst : PrivId) (notifyId : Nat)
  | sigRaised (dst : PrivId) (sig : Nat)
  | notified (src : Int) (dst : PrivId) (m : Message)
  deriving DecidableEq

structure State where
  proc : Slot → Proc
  priv : PrivId → Priv
  cpuid : Nat
  cpu : Nat → CpuLocal
  ncpus : Nat
  cpuReady : Nat → Bool
  vmrequest : Option Slot
  umem : Slot → Nat → Option AsynMsg
  uwritable : Slot → Nat → Bool
  macHooks : List (Endpoint → Endpoint → Call → Bool)
  monotonic : Nat
  tscPerMs : Nat
  log : List Event

namespace State

variable (s : State)

def modProc (i : Slot) (f : Proc → Proc) : State :=
  { s with proc := update s.proc i (f (s.proc i)) }

def modPriv (k : PrivId) (f : Priv → Priv) : State :=
  { s with priv := update s.priv k (f (s.priv k)) }

def modCpu (c : Nat) (f : CpuLocal → CpuLocal) : State :=
  { s with cpu := update s.cpu c (f (s.cpu c)) }

def record (e : Event) : State := { s with log := e :: s.log }

variable (s : State) (i j : Slot) (k : PrivId) (c : Nat)

section

variable (f : Proc → Proc)

include f

@[simp] theorem modProc_priv : (s.modProc i f).priv = s.priv := rfl
@[simp] theorem modProc_log : (s.modProc i f).log = s.log := rfl

theorem modProc_proc : (s.modProc i f).proc j = if j = i then f (s.proc i) else s.proc j :=
  update_apply ..

@[simp] theorem modProc_proc_self : (s.modProc i f).proc i = f (s.proc i) :=
  update_self ..

end

theorem modProc_proc_of_ne {i j : Slot} (h : j ≠ i) (f : Proc → Proc) :
    (s.modProc i f).proc j = s.proc j := update_of_ne h ..

section

variable (f : Priv → Priv)

include f

@[simp] theorem modPriv_proc : (s.modPriv k f).proc = s.proc := rfl

end

theorem modPriv_priv (l : PrivId) (f : Priv → Priv) :
    (s.modPriv k f).priv l = if l = k then f (s.priv k) else s.priv l :=
  update_apply ..

@[simp] theorem modPriv_priv_self (f : Priv → Priv) : (s.modPriv k f).priv k = f (s.priv k) :=
  update_self ..

variable (f : CpuLocal → CpuLocal)

@[simp] theorem modCpu_proc : (s.modCpu c f).proc = s.proc := rfl
@[simp] theorem modCpu_priv : (s.modCpu c f).priv = s.priv := rfl

theorem modCpu_cpu (d : Nat) (f : CpuLocal → CpuLocal) :
    (s.modCpu c f).cpu d = if d = c then f (s.cpu c) else s.cpu d :=
  update_apply ..

@[simp] theorem record_proc (e : Event) : (s.record e).proc = s.proc := rfl
@[simp] theorem record_priv (e : Event) : (s.record e).priv = s.priv := rfl

end State

def State.privOf (s : State) (i : Slot) : Priv := s.priv (s.proc i).priv

def State.modPrivOf (s : State) (i : Slot) (f : Priv → Priv) : State :=
  s.modPriv (s.proc i).priv f

section PrivOf

variable (s : State) (i : Slot) (f : Priv → Priv)

@[simp] theorem modPrivOf_proc : (s.modPrivOf i f).proc = s.proc := rfl
@[simp] theorem modPrivOf_log : (s.modPrivOf i f).log = s.log := rfl

theorem modPrivOf_priv (k : PrivId) :
    (s.modPrivOf i f).priv k = if k = (s.proc i).priv then f (s.priv k) else s.priv k := by
  rw [State.modPrivOf, State.modPriv_priv]
  split
  · subst k; rfl
  · rfl

end PrivOf

/-- `isemptyp` -/
def Proc.isEmpty (p : Proc) : Prop := p.rtsFlags = { slotFree := true }

instance (p : Proc) : Decidable p.isEmpty := inferInstanceAs (Decidable (_ = _))

def Proc.isRunnable (p : Proc) : Prop := p.rtsFlags = {}

instance (p : Proc) : Decidable p.isRunnable := inferInstanceAs (Decidable (_ = _))

/-- The tables after `proc_init`, on top of the zeroed kernel image. -/
def procInit : State where
  proc i := {
    nr := procNr i, priv := 0, rtsFlags := { slotFree := true }, miscFlags := {}, priority := 0
    cpuTimeLeft := 0, quantumSizeMs := 0, scheduler := none, schedClass := .other, rtPriority := 0
    cpu := 0, nextready := none, callerQ := none, qLink := none, getfromE := 0, sendtoE := 0
    pending := ∅, endpoint := mkEndpoint 0 (procNr i), sendmsg := ⟨0, 0, .data []⟩
    delivermsg := ⟨0, 0, .data []⟩, delivermsgVir := 0
    vmrequest := ⟨none, .none, 0, 0, 0, false, some .ok⟩, retreg := .ok, ipcStatus := 0 }
  priv k := {
    procNr := noneE, id := k, flags := {}, asyntab := 0, asynsize := 0, asynendpoint := 0
    trapMask := ∅, ipcTo := ∅, sigMgr := noneE, bakSigMgr := noneE, notifyPending := ∅
    asynPending := ∅, intPending := 0, sigPending := ∅, ipcf := [], irqTab := [], ioTab := []
    memTab := [], capEffective := 0 }
  cpuid := 0
  cpu _ := ⟨none, none, none, fun _ => none, fun _ => none⟩
  ncpus := 1
  cpuReady c := c == 0
  vmrequest := none
  umem _ _ := none
  uwritable _ _ := true
  macHooks := []
  monotonic := 0
  tscPerMs := 1
  log := []

/-- `isokendpt`: the slot of a live process with this endpoint. -/
def isokendpt (s : State) (e : Endpoint) : Option Slot :=
  match procAddr (endpointP e) with
  | none => none
  | some i => if ¬(s.proc i).isEmpty ∧ (s.proc i).endpoint = e then some i else none

/-- `okendpt`: a wrong endpoint is fatal. -/
def okendpt (s : State) (e : Endpoint) : Except Halt Slot :=
  match isokendpt s e with
  | some i => .ok i
  | none => .error .panicEndpoint

theorem isokendpt_eq_some {s : State} {e : Endpoint} {i : Slot} (h : isokendpt s e = some i) :
    procAddr (endpointP e) = some i ∧ ¬(s.proc i).isEmpty ∧ (s.proc i).endpoint = e := by
  unfold isokendpt at h
  split at h
  · cases h
  rename_i j hj
  split at h
  · cases h
    exact ⟨hj, ‹_›⟩
  · cases h

theorem isokendpt_eq_some_iff {s : State} {e : Endpoint} {i : Slot} : isokendpt s e = some i ↔
      procAddr (endpointP e) = some i ∧ ¬(s.proc i).isEmpty ∧ (s.proc i).endpoint = e := by
  refine ⟨isokendpt_eq_some, fun ⟨hi, hlive⟩ => ?_⟩
  rw [isokendpt, hi]
  exact if_pos hlive

theorem isokendpt_ne_any {s : State} {e : Endpoint} {i : Slot} (h : isokendpt s e = some i) :
    e ≠ anyE := by
  rintro rfl
  have hp := (isokendpt_eq_some h).1
  cases hp

theorem isokendpt_none {s : State} : isokendpt s noneE = none := by
  rw [isokendpt, procAddr, dif_neg not_isokprocn_endpointP_none]

theorem isokendpt_congr {s t : State} {e : Endpoint}
    (hflags : ∀ i, (t.proc i).rtsFlags = (s.proc i).rtsFlags)
    (hendpoint : ∀ i, (t.proc i).endpoint = (s.proc i).endpoint) :
    isokendpt t e = isokendpt s e := by
  ext i
  simp only [isokendpt_eq_some_iff, Proc.isEmpty, hflags, hendpoint]

end Gergios.Kernel
