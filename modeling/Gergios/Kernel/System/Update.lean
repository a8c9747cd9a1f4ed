import Gergios.Kernel.Ipc.Sync
import Gergios.Kernel.System.VmRequest

/-!
# Live update

`do_update` lets two system processes change places. The slots and the privilege structures
are swapped as a whole and then mended: what belongs to the slot goes back to it. A copy of
a table of asynchronous messages that fails leaves the destination as it was.
-/

namespace Gergios.Kernel

open Lib

/-! ## Rights -/

def Priv.addEntry {α : Type} [DecidableEq α] (tab : Priv → List α) (setTab : Priv → List α → Priv)
    (check : PrivFlags → PrivFlags) (limit : Nat) (p : Priv) (x : α) : Priv × Errno :=
  let p := { p with flags := check p.flags }
  if x ∈ tab p then (p, .ok)
  else if limit ≤ (tab p).length then (p, .enomem)
  else (setTab p (tab p ++ [x]), .ok)

def Priv.addIrq : Priv → Nat → Priv × Errno :=
  addEntry (·.irqTab) (fun p l => { p with irqTab := l }) (fun f => { f with checkIrq := true })
    nrIrq

def Priv.addIo : Priv → Nat × Nat → Priv × Errno :=
  addEntry (·.ioTab) (fun p l => { p with ioTab := l }) (fun f => { f with checkIoPort := true })
    nrIoRange

def Priv.addMem : Priv → Nat × Nat → Priv × Errno :=
  addEntry (·.memTab) (fun p l => { p with memTab := l }) (fun f => { f with checkMem := true })
    nrMemRange

def Priv.inheritAll {α : Type} (add : Priv → α → Priv × Errno) : List α → Priv → Priv × Errno
  | [], p => (p, .ok)
  | x :: l, p =>
    match add p x with
    | (p, .ok) => inheritAll add l p
    | (p, r) => (p, r)

def Priv.inherit (p src : Priv) : Priv × Errno :=
  match inheritAll addIrq src.irqTab p with
  | (p, .ok) =>
    match inheritAll addIo src.ioTab p with
    | (p, .ok) => inheritAll addMem src.memTab p
    | r => r
  | r => r

variable (s : State) (src dst : Slot)

/-- `inherit_priv_irq`, `inherit_priv_io` and `inherit_priv_mem` -/
def inheritPriv : State × Errno :=
  let r := (s.privOf dst).inherit (s.privOf src)
  (s.modPrivOf dst fun _ => r.1, r.2)

variable (rp : Slot)

def setSendtoBit (id : PrivId) : State :=
  if (s.priv id).procNr = noneE ∨ (s.privOf rp).id = id then
    s.modPrivOf rp fun p => { p with ipcTo := p.ipcTo.erase id }
  else
    let t := s.modPrivOf rp fun p => { p with ipcTo := insert id p.ipcTo }
    if ∃ c ∈ (t.priv id).trapMask, c ≠ .receive then
      t.modPriv id fun p => { p with ipcTo := insert (t.privOf rp).id p.ipcTo }
    else t

def inheritTargets : State :=
  (List.finRange nrSysProcs).foldl
    (fun t id => if id ∈ (t.privOf src).ipcTo then setSendtoBit t dst id else t) s

/-! ## Tables and queues -/

/-- `data_copy` of `n` entries of a table. -/
def copyTable (srcTab dstTab n : Nat) : Option State :=
  if ∀ i < n, (s.umem src (entryAddr srcTab i)).isSome ∧ s.uwritable dst (entryAddr dstTab i) then
    some ((List.range n).foldl (fun t i => { t with
      umem := Function.update t.umem dst (Function.update (t.umem dst) (entryAddr dstTab i)
        (s.umem src (entryAddr srcTab i))) }) s)
  else none

def adjustAsynTable (srcPriv dstPriv : PrivId) : State :=
  match procAddr (s.priv srcPriv).procNr, procAddr (s.priv dstPriv).procNr with
  | some src, some dst =>
    let sp := s.priv srcPriv
    let dp := s.priv dstPriv
    if 0 < sp.asynsize ∧ 0 < dp.asynsize ∧ sp.asynendpoint = (s.proc dst).endpoint then
      match copyTable s src dst sp.asyntab dp.asyntab sp.asynsize with
      | some t => t.modPriv dstPriv fun p => { p with asynsize := sp.asynsize }
      | none => s
    else s
  | _, _ => s

def abortProcIpcSend : Except Halt State :=
  if ¬(s.proc rp).rtsFlags.sending then .ok s
  else
    let t := (rtsUnset s rp { sending := true }).modProc rp fun p =>
      { p with miscFlags := { p.miscFlags with sendingFromKernel := false } }
    match procAddr (endpointP (t.proc rp).sendtoE) with
    | none => .error .panicProc
    | some target =>
      match walk (fun j => (t.proc j).qLink) (· == rp) (nrSlots + 1) none (t.proc target).callerQ
        with
      | none => .error .hang
      | some none => .ok t
      | some (some (prev, _)) => .ok (unlinkSender t target rp prev)

/-! ## The swap -/

def Proc.adjustSlot (p orig : Proc) : Proc :=
  { p with
    endpoint := orig.endpoint
    nr := orig.nr
    priv := orig.priv
    callerQ := orig.callerQ
    scheduler := orig.scheduler }

def adjustProcSlot (orig : Proc) : State :=
  (s.modProc rp (·.adjustSlot orig)).modPriv orig.priv fun p => { p with procNr := orig.nr }

def Priv.adjustSlot (p orig : Priv) : Priv :=
  { p with
    id := orig.id
    asynPending := orig.asynPending
    notifyPending := orig.notifyPending
    intPending := orig.intPending
    sigPending := orig.sigPending }

def swapSlots (saved : State) : State :=
  let t := s.modProc src fun _ => saved.proc dst
  let t := t.modPriv (saved.proc src).priv fun _ => saved.privOf dst
  let t := t.modProc dst fun _ => saved.proc src
  let t := t.modPriv (saved.proc dst).priv fun _ => saved.privOf src
  let t := adjustProcSlot t src (saved.proc src)
  let t := adjustProcSlot t dst (saved.proc dst)
  let t := t.modPrivOf src (·.adjustSlot (saved.privOf src))
  t.modPrivOf dst (·.adjustSlot (saved.privOf dst))

def swapSlotPointer (p : Option Slot) (src dst : Slot) : Option Slot :=
  if p = some src then some dst else if p = some dst then some src else p

def setNextrequestor (v : Option Slot) : State :=
  s.modProc rp fun p => { p with vmrequest := { p.vmrequest with nextrequestor := v } }

def swapMemreq : Except Halt State :=
  if (s.proc src).rtsFlags.vmRequest = (s.proc dst).rtsFlags.vmRequest then .ok s
  else
    match walk s.nextrequestor (fun j => j == src || j == dst) (nrSlots + 1) none s.vmrequest with
    | none => .error .hang
    | some none => .ok s
    | some (some (prev, rp)) =>
      let other := if rp = src then dst else src
      .ok ((setNextrequestor s other (s.nextrequestor rp)).writeVmrequest prev (some other))

def Proc.isUpdatable (p : Proc) : Bool :=
  p.rtsFlags.noPriv || p.rtsFlags.sigPending || (p.rtsFlags.receiving && !p.rtsFlags.sending)

/-- `do_update` once the two processes are known to be updatable. -/
def updateSlots (rollback : Bool) : Except Halt State :=
  let saved := inheritTargets s src dst
  let srcPriv := (saved.proc src).priv
  let dstPriv := (saved.proc dst).priv
  let t := adjustAsynTable (adjustAsynTable saved srcPriv dstPriv) dstPriv srcPriv
  match (if rollback then abortProcIpcSend t src else .ok t) with
  | .error h => .error h
  | .ok u =>
    let v := swapSlots u src dst saved
    let v := v.modCpu v.cpuid fun c => { c with ptproc := swapSlotPointer c.ptproc src dst }
    swapMemreq v src dst

def doUpdate (srcE dstE : Endpoint) (rollback : Bool) : Except Halt (State × Errno) :=
  match isokendpt s srcE with
  | none => .ok (s, .einval)
  | some src =>
    if !(s.privOf src).flags.sysProc then .ok (s, .eperm)
    else
      match isokendpt s dstE with
      | none => .ok (s, .einval)
      | some dst =>
        if !(s.privOf dst).flags.sysProc then .ok (s, .eperm)
        else if (s.proc src).isRunnable ∨ (s.proc dst).isRunnable then .error .assertRunnable
        else if !(s.proc src).isUpdatable || !(s.proc dst).isUpdatable then .ok (s, .ebusy)
        else
          match inheritPriv s src dst with
          | (t, .ok) =>
            match updateSlots t src dst rollback with
            | .error h => .error h
            | .ok u => .ok (u, .ok)
          | (t, r) => .ok (t, r)

end Gergios.Kernel
