import Gergios.Kernel.Step
import Gergios.Kernel.Ipc.SendQueue

/-!
# Where runs begin

Runs begin in a state in which no process has made a call yet: the tables are as `proc_init`
leaves them, apart from the processes and the privileges that have been set up since.
-/

namespace Gergios.Kernel

structure IpcInit (s : State) : Prop where
  endpoint : ∀ i, ∃ g, (s.proc i).endpoint = mkEndpoint g (procNr i)
  callerQ : ∀ i, (s.proc i).callerQ = none
  qLink : ∀ i, (s.proc i).qLink = none
  sending : ∀ i, (s.proc i).rtsFlags.sending = false
  receiving : ∀ i, (s.proc i).rtsFlags.receiving = false
  deliverMsg : ∀ i, (s.proc i).miscFlags.deliverMsg = false
  slots : SlotsOk s
  log : s.log = []

def Priv.allow (p : Priv) (nr : Int) : Priv :=
  { p with
    procNr := nr
    flags := { preemptible := true, billable := true, sysProc := true }
    trapMask := {.send, .receive, .sendrec, .notify, .sendnb, .senda}
    ipcTo := Finset.univ }

variable (live : List Slot)

def bootFlags (i : Slot) : RtsFlags :=
  if i.val < nrTasks then { procStop := true } else if i ∈ live then {} else { slotFree := true }

def bootWith : State :=
  { procInit with
    proc := fun i => { procInit.proc i with rtsFlags := bootFlags live i, priv := staticPrivId i }
    priv := fun k =>
      let i := staticSlot k
      if i.val < nrTasks ∨ i ∈ live then (procInit.priv k).allow (procNr i) else procInit.priv k }

theorem bootFlags_cases (i : Slot) :
    bootFlags live i = { procStop := true } ∨ bootFlags live i = {} ∨
      bootFlags live i = { slotFree := true } := by
  unfold bootFlags
  split
  · exact .inl rfl
  · split
    · exact .inr (.inl rfl)
    · exact .inr (.inr rfl)

theorem bootWith_ipcInit : IpcInit (bootWith live) where
  endpoint _ := ⟨0, rfl⟩
  callerQ _ := rfl
  qLink _ := rfl
  sending i := by rcases bootFlags_cases live i with h | h | h <;> simp [bootWith, h]
  receiving i := by rcases bootFlags_cases live i with h | h | h <;> simp [bootWith, h]
  deliverMsg _ := rfl
  slots := by
    refine ⟨fun i hi => ?_, fun _ _ h => by cases h⟩
    rcases bootFlags_cases live i with h | h | h
    · simp [bootWith, h] at hi
    · simp [bootWith, h] at hi
    · exact h
  log := rfl

theorem IpcInit.endpointsOk {s : State} (h : IpcInit s) : EndpointsOk s := by
  intro i
  obtain ⟨g, hg⟩ := h.endpoint i
  rw [hg, endpointP_mkEndpoint (isokprocn_procNr i)]

theorem IpcInit.sendQueues {s : State} (h : IpcInit s) : SendQueues s fun _ => [] where
  queues := ⟨fun o => h.callerQ o, fun hx => by cases hx⟩
  sound hi := by cases hi
  complete i hi := by rw [h.sending] at hi; cases hi

theorem IpcInit.linksReset {s : State} (h : IpcInit s) : LinksReset s := fun i _ => h.qLink i

end Gergios.Kernel
