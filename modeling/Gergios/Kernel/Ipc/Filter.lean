import Gergios.Kernel.Table

/-!
# IPC filters and the receive conditions

`allow_ipc_filtered_msg` and the macros `CANRECEIVE` and `WILLRECEIVE`. The filters read the
type of a message: it is at hand for a message that the kernel holds and is copied in for
one that is still with its sender, where `none` stands for a copy that failed. The write of
the source into the examined message is left out: every delivery overwrites that field.
-/

namespace Gergios.Kernel

variable (s : State) (e : Endpoint)

def isUsrEp : Bool :=
  match procAddr (endpointP e) with
  | some i => !(s.privOf i).flags.sysProc
  | none => false

def isTskEp : Bool := endpointP e < 0

def isSysEp : Bool := !isUsrEp s e && !isTskEp e

/-- `IPCF_EL_MATCH` -/
def IpcFilterEl.isMatch (el : IpcFilterEl) (s : State) (src : Endpoint) (mtype : Int) : Bool :=
  (!el.matchType || el.type == mtype) &&
    (!el.matchSource || el.source == src || (el.source == anyUsr && isUsrEp s src) ||
      (el.source == anySys && isSysEp s src) || (el.source == anyTsk && isTskEp src))

def IpcFilter.apply (src : Endpoint) (mtype : Int) (allow : Bool) (f : IpcFilter) : Bool :=
  let white := f.type == .whitelist
  if allow != white && f.elements.any (·.isMatch s src mtype) then white else allow

def IpcFilter.readsType (f : IpcFilter) : Bool := f.elements.any (·.matchType)

def allowIpcFilteredMsg (rp : Slot) (src : Endpoint) (mtype : Option Int) : Bool :=
  match (s.privOf rp).ipcf with
  | [] => true
  | f :: fs =>
    if (f :: fs).any (·.readsType) && mtype.isNone then true
    else (f :: fs).foldl (IpcFilter.apply s src (mtype.getD 0)) (f.type == .blacklist)

def canReceive (receiveE src : Endpoint) (dst : Slot) (mtype : Option Int) : Bool :=
  (receiveE == anyE || receiveE == src) && allowIpcFilteredMsg s dst src mtype

def willReceive (src : Endpoint) (dst : Slot) (mtype : Option Int) : Bool :=
  (s.proc dst).rtsFlags.receiving && !(s.proc dst).rtsFlags.sending &&
    canReceive s (s.proc dst).getfromE src dst mtype

variable {s : State} {src : Endpoint} {dst : Slot} {mtype : Option Int}

theorem willReceive_iff : willReceive s src dst mtype = true ↔
      (s.proc dst).rtsFlags.receiving = true ∧ (s.proc dst).rtsFlags.sending = false ∧
        canReceive s (s.proc dst).getfromE src dst mtype = true := by
  simp [willReceive, and_assoc]

theorem canReceive_iff {receiveE : Endpoint} : canReceive s receiveE src dst mtype = true ↔
      (receiveE = anyE ∨ receiveE = src) ∧ allowIpcFilteredMsg s dst src mtype = true := by
  simp [canReceive]

end Gergios.Kernel
