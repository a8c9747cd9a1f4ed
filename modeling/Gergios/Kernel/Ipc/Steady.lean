import Gergios.Kernel.Ipc.SendQueue

/-!
# What no call changes

A call changes who waits and what is pending. It does not change which processes there are,
what they are allowed to do, or their requests to VM.
-/

namespace Gergios.Kernel

structure Proc.Identity (p r : Proc) : Prop where
  nr : r.nr = p.nr
  priv : r.priv = p.priv
  endpoint : r.endpoint = p.endpoint
  vmrequest : r.vmrequest = p.vmrequest
  slotFree : r.rtsFlags.slotFree = p.rtsFlags.slotFree
  noEndpoint : r.rtsFlags.noEndpoint = p.rtsFlags.noEndpoint
  vmRequest : r.rtsFlags.vmRequest = p.rtsFlags.vmRequest

structure Steady (s t : State) : Prop where
  proc : ∀ i, (s.proc i).Identity (t.proc i)
  priv : ∀ k, (s.priv k).SameRights (t.priv k)
  vmrequest : t.vmrequest = s.vmrequest
  uwritable : t.uwritable = s.uwritable
  cpuid : t.cpuid = s.cpuid

variable {s t u : State} {caller : Slot} {o : Option Endpoint}

theorem Steady.refl (s : State) : Steady s s :=
  ⟨fun _ => by constructor <;> rfl, fun _ => .refl _, rfl, rfl, rfl⟩

theorem Steady.trans (h : Steady s t) (h' : Steady t u) : Steady s u where
  proc i := by
    obtain ⟨h1, h2, h3, h4, h5, h6, h7⟩ := h.proc i
    obtain ⟨g1, g2, g3, g4, g5, g6, g7⟩ := h'.proc i
    exact ⟨g1.trans h1, g2.trans h2, g3.trans h3, g4.trans h4, g5.trans h5, g6.trans h6,
      g7.trans h7⟩
  priv k := (h.priv k).trans (h'.priv k)
  vmrequest := h'.vmrequest.trans h.vmrequest
  uwritable := h'.uwritable.trans h.uwritable
  cpuid := h'.cpuid.trans h.cpuid

theorem Wakes.steady (h : Wakes s t) : Steady s t where
  proc i := ⟨(h.proc i).nr, (h.proc i).priv, (h.proc i).endpoint, (h.proc i).vmrequest,
    (h.proc i).slotFree, (h.proc i).noEndpoint, (h.proc i).vmRequest⟩
  priv := h.priv
  vmrequest := h.vmrequest
  uwritable := h.uwritable
  cpuid := h.cpuid

variable (s)

theorem writeCallerQ_priv (d : Slot) (prev v : Option Slot) :
    (s.writeCallerQ d prev v).priv = s.priv := by cases prev <;> rfl

theorem sendBlock_priv (i : Slot) (e : Endpoint) (m : Message) (flags : SendFlags) :
    (sendBlock s i e m flags).priv = s.priv := by simp [sendBlock]

theorem copyMessage_priv (i sender : Slot) : (copyMessage s i sender).priv = s.priv := by
  simp [copyMessage]

theorem unlinkSender_priv (i sender : Slot) (prev : Option Slot) :
    (unlinkSender s i sender prev).priv = s.priv := by
  simp [unlinkSender, writeCallerQ_priv]

theorem writeCallerQ_steady (d : Slot) (prev v : Option Slot) :
    Steady s (s.writeCallerQ d prev v) := by
  refine ⟨fun i => ?_, fun k => ?_, ?_, ?_, ?_⟩
  · rw [writeCallerQ_proc]
    constructor <;> rfl
  · rw [writeCallerQ_priv]
    exact .refl _
  all_goals cases prev <;> rfl

theorem sendBlock_steady (i : Slot) (e : Endpoint) (m : Message) (flags : SendFlags) :
    Steady s (sendBlock s i e m flags) := by
  refine ⟨fun j => ?_, fun k => ?_, ?_, ?_, ?_⟩
  · constructor <;> by_cases h : j = i <;> simp [sendBlock, State.modProc_proc, h]
  · rw [sendBlock_priv]
    exact .refl _
  all_goals simp [sendBlock, State.record, State.modProc]

theorem copyMessage_steady (i sender : Slot) : Steady s (copyMessage s i sender) := by
  refine ⟨fun j => ?_, fun k => ?_, ?_, ?_, ?_⟩
  · constructor <;> by_cases h : j = i <;> simp [copyMessage, State.modProc_proc, h, Proc.deliver]
  · rw [copyMessage_priv]
    exact .refl _
  all_goals simp [copyMessage, State.record, State.modProc]

theorem unlinkSender_steady (i sender : Slot) (prev : Option Slot) :
    Steady s (unlinkSender s i sender prev) := by
  refine (writeCallerQ_steady s i prev (s.proc sender).qLink).trans ⟨fun j => ?_, fun k => ?_, rfl,
    rfl, rfl⟩
  · constructor <;> by_cases h : j = sender <;> simp [unlinkSender, State.modProc_proc, h]
  · exact .refl _

theorem blockReceiver_steady (i : Slot) (e : Endpoint) : Steady s (blockReceiver s i e) := by
  refine ⟨fun j => ?_, fun k => ?_, ?_, ?_, ?_⟩
  · constructor <;> by_cases h : j = i <;> simp [blockReceiver, State.modProc_proc, h]
  · simp only [blockReceiver, rtsSet_rest]
    exact .refl _
  all_goals simp [blockReceiver, State.modProc]

variable {s}

theorem IpcAct.steady (h : IpcAct caller s o t) : Steady s t := by
  cases h with
  | wakes hcall => exact hcall.wakes.steady
  | queued hq =>
    obtain ⟨msg, flags, last, rfl⟩ := hq.exists_eq
    exact (sendBlock_steady ..).trans (writeCallerQ_steady ..)
  | taken _ _ _ hfree _ htaken =>
    obtain ⟨u, hn, rfl⟩ := htaken.unlinked hfree
    have hw := hn.wakes
    exact ((copyMessage_steady ..).trans hw.steady).trans (unlinkSender_steady ..)
  | blocked => exact blockReceiver_steady ..

theorem IpcActs.steady (h : IpcActs caller o s t) : Steady s t := by
  induction h with
  | refl => exact .refl _
  | tail _ hact ih => exact ih.trans hact.steady

/-! ## Free slots -/

section

variable (hs : SlotsOk s)

include hs

theorem SlotsOk.isEmpty_iff (i : Slot) :
    (s.proc i).isEmpty ↔ (s.proc i).rtsFlags.slotFree = true := by
  refine ⟨fun h => ?_, hs.isEmpty i⟩
  have hflags : (s.proc i).rtsFlags = { slotFree := true } := h
  rw [hflags]

theorem SlotsOk.isokendpt_eq (ht : SlotsOk t)
    (hfree : ∀ i, (t.proc i).rtsFlags.slotFree = (s.proc i).rtsFlags.slotFree)
    (hend : ∀ i, (t.proc i).endpoint = (s.proc i).endpoint) (e : Endpoint) :
    isokendpt t e = isokendpt s e := by
  ext i
  rw [isokendpt_eq_some_iff, isokendpt_eq_some_iff, hs.isEmpty_iff, ht.isEmpty_iff, hfree, hend]

theorem SlotsOk.modProc (i : Slot) {f : Proc → Proc}
    (hf : (f (s.proc i)).rtsFlags = (s.proc i).rtsFlags) : SlotsOk (s.modProc i f) := by
  refine hs.congr (fun j => ?_) fun _ => rfl
  rw [State.modProc_proc]
  split
  · subst j; exact hf
  · rfl

theorem SlotsOk.modProc_live (i : Slot) {f : Proc → Proc}
    (hf : (f (s.proc i)).rtsFlags.slotFree = false) : SlotsOk (s.modProc i f) := by
  refine ⟨fun j hj => ?_, fun c p hp => ?_⟩
  · by_cases hji : j = i
    · rw [hji, State.modProc_proc_self, hf] at hj
      cases hj
    · rw [State.modProc_proc_of_ne s hji] at hj ⊢
      exact hs.isEmpty j hj
  · by_cases hpi : p = i
    · rw [hpi, State.modProc_proc_self, hf]
    · rw [State.modProc_proc_of_ne s hpi]
      exact hs.procPtr c p hp

theorem SlotsOk.writeCallerQ (d : Slot) (prev v : Option Slot) :
    SlotsOk (s.writeCallerQ d prev v) := by
  refine hs.congr (fun i => by rw [writeCallerQ_proc]) fun _ => ?_
  cases prev <;> rfl

theorem SlotsOk.sendBlock (hfree : (s.proc caller).rtsFlags.slotFree = false) (e : Endpoint)
    (m : Message) (flags : SendFlags) : SlotsOk (sendBlock s caller e m flags) := by
  have h₁ := hs.modProc caller (f := fun p => { p with
    sendmsg := m
    miscFlags := { p.miscFlags with
      sendingFromKernel := p.miscFlags.sendingFromKernel || flags.fromKernel } }) rfl
  have h₂ := h₁.rtsSet (i := caller) (by simpa using hfree) (f := { sending := true }) rfl
  exact (h₂.modProc caller (f := fun p => { p with sendtoE := e }) rfl).congr (fun _ => rfl)
    fun _ => rfl

theorem SlotsOk.copyMessage (i sender : Slot) : SlotsOk (copyMessage s i sender) := by
  have h₁ := hs.modProc i (f := (·.deliver
    { (s.proc sender).sendmsg with source := (s.proc sender).endpoint })) rfl
  refine SlotsOk.rtsUnset ?_ sender rfl
  exact h₁.congr (fun _ => rfl) fun _ => rfl

theorem SlotsOk.blockReceiver (hfree : (s.proc caller).rtsFlags.slotFree = false) (e : Endpoint) :
    SlotsOk (blockReceiver s caller e) :=
  (hs.modProc caller rfl).rtsSet (by simpa using hfree) rfl

end

theorem IpcAct.slotsOk (h : IpcAct caller s o t) (hs : SlotsOk s)
    (hcaller : (s.proc caller).rtsFlags.slotFree = false) : SlotsOk t := by
  cases h with
  | wakes hcall => exact hcall.wakes.slots hs
  | queued hq =>
    obtain ⟨msg, flags, last, rfl⟩ := hq.exists_eq
    exact (hs.sendBlock hcaller ..).writeCallerQ ..
  | taken _ _ _ hfree _ htaken =>
    obtain ⟨u, hn, rfl⟩ := htaken.unlinked hfree
    have hw := hn.wakes
    exact ((hw.slots (hs.copyMessage ..)).writeCallerQ ..).modProc _ rfl
  | blocked => exact hs.blockReceiver hcaller _

end Gergios.Kernel
