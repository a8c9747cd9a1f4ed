import Gergios.Kernel.Sched.Frame
import Gergios.Kernel.Ipc.Filter

/-!
# Notifications and signals

`mini_notify` delivers a notification to a process that waits for one, or marks it pending
by the privilege id of its source. What the notification carries is kept apart from that
mark: interrupts and kernel signals collect in the privilege structure of the destination
and move into the message when it is built. `send_sig` and `cause_sig` go through it.
-/

namespace Gergios.Kernel

def Proc.ipcStatusAdd (p : Proc) (v : Nat) : Proc :=
  if p.miscFlags.replyPend then p else { p with ipcStatus := p.ipcStatus ||| v }

def Call.status (c : Call) : Nat := c.toNat &&& 0x3f

/-- `IPC_STATUS_FLAGS(IPC_FLG_MSG_FROM_KERNEL)` -/
def msgFromKernel : Nat := 1 <<< 16

/-- The message is put in place for `delivermsg`. -/
def Proc.deliver (p : Proc) (m : Message) : Proc :=
  { p with delivermsg := m, miscFlags := { p.miscFlags with deliverMsg := true } }

variable (s : State)

/-- What a notification from process number `src` says, apart from its source. -/
def notifyPayload (src : Int) (dst : Slot) : Payload :=
  if src = hardware then .notify s.monotonic (s.privOf dst).intPending ∅
  else if src = systemNr then .notify s.monotonic 0 (s.privOf dst).sigPending
  else .notify s.monotonic 0 ∅

def Priv.takePending (p : Priv) (src : Int) : Priv :=
  if src = hardware then { p with intPending := 0 }
  else if src = systemNr then { p with sigPending := ∅ }
  else p

/-- `BuildNotifyMessage` into the delivery buffer of `dst`. -/
def deliverNotify (src : Int) (srcE : Endpoint) (dst : Slot) : State :=
  let m : Message := ⟨srcE, notifyMessage, notifyPayload s src dst⟩
  let t := s.modPrivOf dst (·.takePending src)
  let t := t.modProc dst fun p => (p.deliver m).ipcStatusAdd Call.notify.status
  t.record (.notified src (s.proc dst).priv m)

theorem deliverNotify_priv (src : Int) (e : Endpoint) (dst : Slot) (k : PrivId) :
    (deliverNotify s src e dst).priv k =
      if k = (s.proc dst).priv then (s.priv k).takePending src else s.priv k := by
  by_cases h : k = (s.proc dst).priv <;>
    simp [deliverNotify, modPrivOf_priv]

theorem Priv.takePending_fields (p : Priv) (src : Int) :
    (p.takePending src).intPending = (if src = hardware then 0 else p.intPending) ∧
    (p.takePending src).sigPending = (if src = systemNr then ∅ else p.sigPending) ∧
    (p.takePending src).notifyPending = p.notifyPending ∧
    (p.takePending src).asynPending = p.asynPending := by
  unfold Priv.takePending
  by_cases h : src = hardware
  · simp [h, hardware, systemNr]
  · by_cases h' : src = systemNr
    · simp [h', hardware, systemNr]
    · simp [h, h']

def markNotify (srcId : PrivId) (dst : Slot) : State :=
  s.modPrivOf dst fun p => { p with notifyPending := insert srcId p.notifyPending }

def miniNotify (caller : Slot) (dstE : Endpoint) : Except Halt (State × Errno) :=
  match isokendpt s dstE with
  | none => .ok (s, .edeadsrcdst)
  | some dst =>
    if willReceive s (s.proc caller).endpoint dst (some notifyMessage) &&
        !(s.proc dst).miscFlags.replyPend then
      if (s.proc dst).miscFlags.deliverMsg then .error .assertDelivermsg
      else
        let t := deliverNotify s (s.proc caller).nr (s.proc caller).endpoint dst
        .ok (rtsUnset t dst { receiving := true }, .ok)
    else .ok (markNotify s (s.privOf caller).id dst, .ok)

variable (rp : Slot)

def raiseSig (sig : Nat) : State :=
  (s.modPrivOf rp fun p => { p with sigPending := insert sig p.sigPending }).record
    (.sigRaised (s.proc rp).priv sig)

def sendSig (e : Endpoint) (sig : Nat) : Except Halt (State × Errno) :=
  match isokendpt s e with
  | none => .ok (s, .einval)
  | some rp =>
    match miniNotify (raiseSig s rp sig) systemSlot (s.proc rp).endpoint with
    | .ok r => .ok (r.1, .ok)
    | .error h => .error h

/-- `send_sig` where its failure is fatal. -/
def mustSendSig (e : Endpoint) (sig : Nat) : Except Halt State :=
  match sendSig s e sig with
  | .ok (t, .ok) => .ok t
  | .ok _ => .error .panicSig
  | .error h => .error h

def sigsIsLethal (sig : Nat) : Bool := sig ∈ [4, 10, 8, 11, 7, 6]

def sigksigsm : Nat := 73
def sigksig : Nat := 74
def sigsndelay : Nat := 70
def sigkmem : Nat := 71

def sigMgrOf : Endpoint :=
  if (s.privOf rp).sigMgr = selfE then (s.proc rp).endpoint else (s.privOf rp).sigMgr

/-- `cause_sig` of a process that has another signal manager. -/
def signalManager (mgr : Endpoint) (sig : Nat) : Except Halt State :=
  if sig ∈ (s.proc rp).pending then .ok s
  else
    let t := s.modProc rp fun p => { p with pending := insert sig p.pending }
    if (t.proc rp).rtsFlags.signaled then .ok t
    else mustSendSig (rtsSet t rp { signaled := true, sigPending := true }) mgr sigksig

/-- `cause_sig`. It calls itself at most once: the backup manager is then used up. -/
def causeSigLoop : Nat → State → Slot → Nat → Except Halt State
  | 0, _, _, _ => .error .hang
  | n + 1, s, rp, sig =>
    if (s.proc rp).endpoint = sigMgrOf s rp then
      if sigsIsLethal sig then
        if (s.privOf rp).bakSigMgr = noneE then .error .panicSig
        else
          match isokendpt s (s.privOf rp).bakSigMgr with
          | none => .error .panicSig
          | some mgr =>
            let t := s.modPrivOf rp fun p => { p with sigMgr := p.bakSigMgr, bakSigMgr := noneE }
            causeSigLoop n (rtsUnset t mgr { noPriv := true }) rp sig
      else mustSendSig (raiseSig s rp sig) (s.proc rp).endpoint sigksigsm
    else signalManager s rp (sigMgrOf s rp) sig

def causeSig (sig : Nat) : Except Halt State := causeSigLoop 2 s rp sig

def sigDelayDone : Except Halt State :=
  causeSig (s.modProc rp fun p => { p with miscFlags := { p.miscFlags with sigDelay := false } })
    rp sigsndelay

end Gergios.Kernel
