import Gergios.Kernel.System.Fork
import Gergios.Kernel.System.Update

/-!
# Privilege structures given to processes

`do_privctl` gives a process a privilege structure and fills it in. The structure that the
caller supplies is not trusted to be well-formed. Whether the policy hooks allow a request, and
whether the supplied structure can be copied in, are parameters of the call.
-/

namespace Gergios.Kernel

def nrStaticPrivIds : Nat := nrTasks + 12
def nullPrivId : Int := -1
def rootSysProcNr : Endpoint := 2

def capBase : BitVec 64 := 0
def capFull : BitVec 64 := 0x1FFF
def capSysAdmin : BitVec 64 := 0x10

structure PrivArg where
  flags : PrivFlags := {}
  id : Int := 0
  sigMgr : Endpoint := noneE
  bakSigMgr : Endpoint := noneE
  nrIrq : Int := 0
  irqTab : List Nat := []
  nrIoRange : Int := 0
  ioTab : List (Nat × Nat) := []
  nrMemRange : Int := 0
  memTab : List (Nat × Nat) := []
  trapMask : Finset Call := ∅
  ipcTo : Finset PrivId := ∅
  capEffective : BitVec 64 := 0
  capPermitted : BitVec 64 := 0

/-! ## Send masks -/

variable (s : State) (rp : Slot)

def unsetSendtoBit (id : PrivId) : State :=
  let s := s.modPrivOf rp fun p => { p with ipcTo := p.ipcTo.erase id }
  s.modPriv id fun p => { p with ipcTo := p.ipcTo.erase (s.privOf rp).id }

def fillSendtoMask (map : Finset PrivId) : State :=
  (List.finRange nrSysProcs).foldl
    (fun s id => if id ∈ map then setSendtoBit s rp id else unsetSendtoBit s rp id) s

/-! ## Assigning a structure -/

def assignPriv (rc : Slot) (k : PrivId) : State :=
  (s.modProc rc fun p => { p with priv := k }).modPriv k fun p => { p with procNr := procNr rc }

def getPriv (rc : Slot) (id : Int) : Except Errno State :=
  if id = nullPrivId then
    match (List.finRange nrSysProcs).find? fun k =>
        nrStaticPrivIds ≤ k.val ∧ (s.priv k).procNr = noneE with
    | none => .error .enospc
    | some k => .ok (assignPriv s rc k)
  else if h : 0 ≤ id ∧ id < nrStaticPrivIds then
    let k : PrivId := ⟨id.toNat, Nat.lt_of_lt_of_le ((Int.toNat_lt h.1).mpr h.2) (by decide)⟩
    if (s.priv k).procNr ≠ noneE then .error .ebusy else .ok (assignPriv s rc k)
  else .error .einval

def Priv.dynamic (old caller : Priv) (nr : Int) (e : Endpoint) : Priv :=
  { caller with
    id := old.id
    procNr := nr
    asynPending := ∅
    notifyPending := ∅
    intPending := 0
    sigPending := ∅
    asyntab := noTable
    asynsize := 0
    asynendpoint := e
    flags := { sysProc := true, preemptible := true, dynPrivId := true }
    trapMask := {.send, .receive, .sendrec, .notify, .sendnb, .senda}
    sigMgr := rootSysProcNr
    bakSigMgr := noneE
    ioTab := []
    memTab := []
    irqTab := []
    capEffective := capBase
    capPermitted := capBase
    capBound := capFull
    grantTable := 0
    grantEntries := 0
    grantEndpoint := e
    ipcf := [] }

variable (a : PrivArg) (p : Priv)

def Priv.updateCaps : Priv :=
  if a.capEffective ≠ 0 ∨ a.capPermitted ≠ 0 then
    { p with
      capEffective := a.capEffective &&& p.capBound
      capPermitted := a.capPermitted &&& p.capBound }
  else p

def badCount (check : Bool) (n : Int) (max : Nat) : Bool := check && (n < 0 || max < n)

def takeTable {α : Type} (check : Bool) (n : Int) (new old : List α) : List α :=
  if check then new.take n.toNat else old

def Priv.updateFlags : Priv :=
  { p with flags := a.flags, sigMgr := a.sigMgr, bakSigMgr := a.bakSigMgr }

def Priv.updateIrqs : Priv :=
  { p with irqTab := takeTable a.flags.checkIrq a.nrIrq a.irqTab p.irqTab }

def Priv.updateIos : Priv :=
  { p with ioTab := takeTable a.flags.checkIoPort a.nrIoRange a.ioTab p.ioTab }

def Priv.updateMems : Priv :=
  { p with
    memTab := takeTable a.flags.checkMem a.nrMemRange a.memTab p.memTab
    trapMask := a.trapMask }

/-- The steps of `update_priv` stay done when a later table is refused. -/
def updatePriv : State × Errno :=
  let s := s.modPrivOf rp (Priv.updateFlags a)
  if badCount a.flags.checkIrq a.nrIrq nrIrq then (s, .einval)
  else
    let s := s.modPrivOf rp (Priv.updateIrqs a)
    if badCount a.flags.checkIoPort a.nrIoRange nrIoRange then (s, .einval)
    else
      let s := s.modPrivOf rp (Priv.updateIos a)
      if badCount a.flags.checkMem a.nrMemRange nrMemRange then (s, .einval)
      else
        let s := fillSendtoMask (s.modPrivOf rp (Priv.updateMems a)) rp a.ipcTo
        (s.modPrivOf rp (Priv.updateCaps a), .ok)

/-! ## The kernel call -/

/-- A supplied argument: no pointer, a pointer that cannot be copied from, or a structure. -/
inductive ArgPtr where
  | null
  | fault
  | arg (a : PrivArg)

def ArgPtr.privId : ArgPtr → Int
  | .arg a => if a.flags.dynPrivId then nullPrivId else a.id
  | _ => nullPrivId

def privSetSys (caller rp : Slot) (macAllow : Bool) (arg : ArgPtr) : State × Errno :=
  if ¬macAllow then (s, .eperm)
  else if ¬(s.proc rp).rtsFlags.noPriv then (s, .eperm)
  else
    match arg with
    | .fault => (s, .efault)
    | arg =>
      match getPriv s rp arg.privId with
      | .error e => (s, e)
      | .ok s =>
        let s := s.modPrivOf rp fun p =>
          p.dynamic (s.privOf caller) (procNr rp) (s.proc rp).endpoint
        let s := fillSendtoMask s rp Finset.univ
        match arg with
        | .arg a => updatePriv s rp a
        | _ => (s, .ok)

/-- `SYS_PRIV_SET_SYS` gets a structure for the process. -/
def takesPriv (macAllow : Bool) (arg : ArgPtr) : Bool :=
  macAllow && (s.proc rp).rtsFlags.noPriv && (match arg with | .fault => false | _ => true) &&
    (getPriv s rp arg.privId).isOk

def privSetUser : State × Errno :=
  if ¬(s.proc rp).rtsFlags.noPriv then (s, .eperm)
  else
    ((s.modProc rp fun p => { p with priv := userPrivId }).modPriv userPrivId fun p =>
      { p with capEffective := capBase, capPermitted := capBase, capBound := capBase }, .ok)

def privUpdateSys : ArgPtr → State × Errno
  | .null => (s, .einval)
  | .fault => (s, .efault)
  | .arg a => updatePriv s rp a

/-! ## What the calls do to capability sets -/

structure Caps where
  effective : BitVec 64
  permitted : BitVec 64
  bound : BitVec 64
  deriving DecidableEq

def Priv.caps : Caps := ⟨p.capEffective, p.capPermitted, p.capBound⟩

structure CapFrame (s t : State) : Prop where
  proc : t.proc = s.proc
  priv : ∀ k, (t.priv k).caps = (s.priv k).caps ∧ (t.priv k).procNr = (s.priv k).procNr

section Frames

variable {s t u : State} {rp : Slot} {k : PrivId} {a : PrivArg} {arg : ArgPtr} {macAllow : Bool}

theorem CapFrame.refl (s : State) : CapFrame s s := ⟨rfl, fun _ => ⟨rfl, rfl⟩⟩

theorem CapFrame.trans (h : CapFrame s t) (h' : CapFrame t u) : CapFrame s u := by
  refine ⟨h'.proc.trans h.proc, fun k => ?_⟩
  rw [(h'.priv k).1, (h'.priv k).2]
  exact h.priv k

theorem CapFrame.modPriv {f : Priv → Priv} (h : CapFrame s t)
    (hf : ∀ p, (f p).caps = p.caps ∧ (f p).procNr = p.procNr) : CapFrame s (t.modPriv k f) := by
  refine h.trans ⟨rfl, fun l => ?_⟩
  rw [State.modPriv_priv]
  split
  · subst l
    exact hf _
  · exact ⟨rfl, rfl⟩

theorem CapFrame.modPrivOf (h : CapFrame s t) (rp : Slot) (f : Priv → Priv)
    (hf : ∀ p, (f p).caps = p.caps ∧ (f p).procNr = p.procNr) : CapFrame s (t.modPrivOf rp f) :=
  h.modPriv hf

theorem setSendtoBit_frame (s : State) (rp : Slot) (id : PrivId) :
    CapFrame s (setSendtoBit s rp id) := by
  unfold setSendtoBit
  split
  · exact (CapFrame.refl s).modPrivOf rp _ fun _ => ⟨rfl, rfl⟩
  have hfst : CapFrame s (s.modPrivOf rp fun p => { p with ipcTo := insert id p.ipcTo }) :=
    (CapFrame.refl s).modPrivOf rp _ fun _ => ⟨rfl, rfl⟩
  simp only
  split
  · exact hfst.modPriv fun _ => ⟨rfl, rfl⟩
  · exact hfst

theorem unsetSendtoBit_frame (s : State) (rp : Slot) (id : PrivId) :
    CapFrame s (unsetSendtoBit s rp id) := by
  unfold unsetSendtoBit
  refine CapFrame.modPriv ?_ fun _ => ⟨rfl, rfl⟩
  exact (CapFrame.refl s).modPrivOf rp _ fun _ => ⟨rfl, rfl⟩

theorem fillSendtoMask_frame (s : State) (rp : Slot) (map : Finset PrivId) :
    CapFrame s (fillSendtoMask s rp map) := by
  unfold fillSendtoMask
  induction List.finRange nrSysProcs generalizing s with
  | nil => exact CapFrame.refl s
  | cons id ids ih =>
    refine CapFrame.trans ?_ (ih _)
    simp only
    split
    · exact setSendtoBit_frame s rp id
    · exact unsetSendtoBit_frame s rp id

def refused (a : PrivArg) : Bool :=
  badCount a.flags.checkIrq a.nrIrq nrIrq || badCount a.flags.checkIoPort a.nrIoRange nrIoRange ||
    badCount a.flags.checkMem a.nrMemRange nrMemRange

theorem updatePriv_spec (s : State) (rp : Slot) (a : PrivArg) :
    ∃ t, CapFrame s t ∧ updatePriv s rp a =
      if refused a then (t, .einval) else (t.modPrivOf rp (Priv.updateCaps a), .ok) := by
  have hflags := (CapFrame.refl s).modPrivOf rp (Priv.updateFlags a) fun _ => ⟨rfl, rfl⟩
  have hirqs := hflags.modPrivOf rp (Priv.updateIrqs a) fun _ => ⟨rfl, rfl⟩
  have hios := hirqs.modPrivOf rp (Priv.updateIos a) fun _ => ⟨rfl, rfl⟩
  have hmems := hios.modPrivOf rp (Priv.updateMems a) fun _ => ⟨rfl, rfl⟩
  unfold updatePriv refused
  cases badCount a.flags.checkIrq a.nrIrq nrIrq with
  | true => exact ⟨_, hflags, rfl⟩
  | false =>
    cases badCount a.flags.checkIoPort a.nrIoRange nrIoRange with
    | true => exact ⟨_, hirqs, rfl⟩
    | false =>
      cases badCount a.flags.checkMem a.nrMemRange nrMemRange with
      | true => exact ⟨_, hios, rfl⟩
      | false => exact ⟨_, hmems.trans (fillSendtoMask_frame _ rp a.ipcTo), rfl⟩

theorem getPriv_eq_ok {id : Int} (h : getPriv s rp id = .ok t) :
    ∃ k, t = assignPriv s rp k ∧ (s.priv k).procNr = noneE ∧
      (id = nullPrivId ∧ nrStaticPrivIds ≤ k.val ∨ id ≠ nullPrivId ∧ id = k.val) := by
  unfold getPriv at h
  split at h
  · rename_i hid
    split at h
    · cases h
    rename_i k hk
    cases h
    have hfree := List.find?_some hk
    simp only [decide_eq_true_eq] at hfree
    exact ⟨k, rfl, hfree.2, .inl ⟨hid, hfree.1⟩⟩
  · rename_i hid
    split at h
    · rename_i hrange
      simp only [ite_not] at h
      split at h
      · cases h
        exact ⟨_, rfl, ‹_›, .inr ⟨hid, (Int.toNat_of_nonneg hrange.1).symm⟩⟩
      · cases h
    · cases h

def freshPriv (s : State) (rp : Slot) (k : PrivId) : State :=
  (assignPriv s rp k).modPriv k fun p =>
    { p with capEffective := capBase, capPermitted := capBase, capBound := capFull }

theorem dynamic_frame (s : State) (caller rp : Slot) (k : PrivId) (e : Endpoint) :
    CapFrame (freshPriv s rp k) ((assignPriv s rp k).modPrivOf rp fun p =>
      p.dynamic ((assignPriv s rp k).privOf caller) (procNr rp) e) := by
  have hk : ((assignPriv s rp k).proc rp).priv = k := by simp [assignPriv]
  refine ⟨rfl, fun l => ?_⟩
  rw [freshPriv, State.modPrivOf, hk, State.modPriv_priv, State.modPriv_priv]
  split
  · refine ⟨rfl, ?_⟩
    simp [assignPriv, Priv.dynamic]
  · exact ⟨rfl, rfl⟩

theorem privSetSys_eq (caller : Slot) (hno : (s.proc rp).rtsFlags.noPriv = true)
    (hfault : arg ≠ .fault) (hget : getPriv s rp arg.privId = .ok (assignPriv s rp k)) :
    ∃ t, CapFrame (freshPriv s rp k) t ∧ privSetSys s caller rp true arg = match arg with
      | .arg a => if refused a then (t, .einval) else (t.modPrivOf rp (Priv.updateCaps a), .ok)
      | _ => (t, .ok) := by
  have hframe := (dynamic_frame s caller rp k ((assignPriv s rp k).proc rp).endpoint).trans
    (fillSendtoMask_frame _ rp Finset.univ)
  cases arg with
  | fault => exact absurd rfl hfault
  | null =>
    refine ⟨_, hframe, ?_⟩
    simp only [privSetSys, hno, hget, not_true_eq_false, if_false]
  | arg a =>
    obtain ⟨t, ht, heq⟩ := updatePriv_spec (fillSendtoMask ((assignPriv s rp k).modPrivOf rp
      fun p => p.dynamic ((assignPriv s rp k).privOf caller) (procNr rp)
        ((assignPriv s rp k).proc rp).endpoint) rp Finset.univ) rp a
    refine ⟨t, hframe.trans ht, ?_⟩
    simp only [privSetSys, hno, hget, not_true_eq_false, if_false, heq]

theorem takesPriv_iff :
    takesPriv s rp macAllow arg = true ↔ (∃ t, getPriv s rp arg.privId = .ok t) ∧
      (s.proc rp).rtsFlags.noPriv = true ∧ arg ≠ .fault ∧ macAllow = true := by
  cases hget : getPriv s rp arg.privId <;> cases arg <;>
    simp [takesPriv, hget, Except.toBool, and_comm]

theorem privSetSys_of_not_takes {caller : Slot}
    (h : takesPriv s rp macAllow arg = false) : (privSetSys s caller rp macAllow arg).1 = s := by
  cases macAllow with
  | false => rfl
  | true =>
    by_cases hno : (s.proc rp).rtsFlags.noPriv
    case neg => simp [privSetSys, hno]
    cases hget : getPriv s rp arg.privId with
    | error e => cases arg <;> simp only [privSetSys, hno, hget, not_true_eq_false, if_false]
    | ok t =>
      cases arg with
      | fault => simp [privSetSys, hno]
      | null | arg a => simp [takesPriv, hno, hget, Except.toBool] at h

end Frames

end Gergios.Kernel
