import Gergios.Kernel.Ipc.SendQueue
import Gergios.Kernel.System.Clear

/-!
# Processes that stop waiting

`clear_ipc` ends the wait of one process, `clear_ipc_refs` the waits for one process.
`Released D` is what they have in common: the processes of `D` wait no more, and nothing else
is undone. In terms of the queues, the processes of `D` are filtered out.
-/

namespace Gergios.Kernel

open Lib Function List

structure Proc.Kept (p r : Proc) : Prop where
  nr : r.nr = p.nr
  priv : r.priv = p.priv
  getfromE : r.getfromE = p.getfromE
  sendtoE : r.sendtoE = p.sendtoE
  endpoint : r.endpoint = p.endpoint
  sendmsg : r.sendmsg = p.sendmsg
  vmrequest : r.vmrequest = p.vmrequest
  slotFree : r.rtsFlags.slotFree = p.rtsFlags.slotFree
  noEndpoint : r.rtsFlags.noEndpoint = p.rtsFlags.noEndpoint
  vmRequest : r.rtsFlags.vmRequest = p.rtsFlags.vmRequest

structure Released (D : Slot → Prop) (s t : State) : Prop where
  proc : ∀ i, (s.proc i).Kept (t.proc i)
  sending : ∀ i, (t.proc i).rtsFlags.sending = true ↔ (s.proc i).rtsFlags.sending = true ∧ ¬D i
  receiving : ∀ i, (t.proc i).rtsFlags.receiving = true →
    (s.proc i).rtsFlags.receiving = true ∧ ¬D i
  priv : ∀ k, (s.priv k).SameRights (t.priv k)
  vmrequest : t.vmrequest = s.vmrequest
  uwritable : t.uwritable = s.uwritable
  cpuid : t.cpuid = s.cpuid
  slots : SlotsOk s → SlotsOk t
  deliver : ∀ i, (t.proc i).miscFlags.deliverMsg = true →
    (s.proc i).miscFlags.deliverMsg = true ∨ (t.proc i).rtsFlags.receiving = false
  log : ∃ l, t.log = l ++ s.log ∧ ∀ e ∈ l, e.isQuiet

variable {s t u : State} {q : Slot → List Slot} {D D' : Slot → Prop}
  {i rc rp : Slot} {ret : Errno} {l : List Slot}

theorem Proc.Kept.trans {p q r : Proc} (h : p.Kept q) (h' : q.Kept r) : p.Kept r where
  nr := h'.nr.trans h.nr
  priv := h'.priv.trans h.priv
  getfromE := h'.getfromE.trans h.getfromE
  sendtoE := h'.sendtoE.trans h.sendtoE
  endpoint := h'.endpoint.trans h.endpoint
  sendmsg := h'.sendmsg.trans h.sendmsg
  vmrequest := h'.vmrequest.trans h.vmrequest
  slotFree := h'.slotFree.trans h.slotFree
  noEndpoint := h'.noEndpoint.trans h.noEndpoint
  vmRequest := h'.vmRequest.trans h.vmRequest

namespace Released

theorem of_wakes (h : Wakes s t) : Released (fun _ => False) s t where
  proc i := by
    obtain ⟨h1, h2, -, -, h3, h4, h5, h6, h7, h8, -, h9, h10, -⟩ := h.proc i
    exact ⟨h1, h2, h3, h4, h5, h6, h7, h8, h9, h10⟩
  sending i := by simp [(h.proc i).sending]
  receiving i hi := ⟨(h.proc i).receiving hi, id⟩
  priv := h.priv
  vmrequest := h.vmrequest
  uwritable := h.uwritable
  cpuid := h.cpuid
  slots := h.slots
  deliver := h.deliver
  log := h.log

section

variable (h : Released D s t)

include h

theorem trans (h' : Released D' t u) : Released (fun i => D i ∨ D' i) s u where
  proc i := (h.proc i).trans (h'.proc i)
  sending i := by rw [h'.sending, h.sending, not_or, and_assoc]
  receiving i hi := by
    obtain ⟨ht, hD'⟩ := h'.receiving i hi
    obtain ⟨hs, hD⟩ := h.receiving i ht
    exact ⟨hs, not_or.mpr ⟨hD, hD'⟩⟩
  priv k := (h.priv k).trans (h'.priv k)
  vmrequest := h'.vmrequest.trans h.vmrequest
  uwritable := h'.uwritable.trans h.uwritable
  cpuid := h'.cpuid.trans h.cpuid
  slots hs := h'.slots (h.slots hs)
  deliver i hi := by
    rcases h'.deliver i hi with ht | hr
    · rcases h.deliver i ht with hs | hr
      · exact .inl hs
      · refine .inr (Bool.eq_false_iff.mpr fun hu => ?_)
        rw [(h'.receiving i hu).1] at hr
        cases hr
    · exact .inr hr
  log := by
    obtain ⟨l, hl, hquiet⟩ := h.log
    obtain ⟨l', hl', hquiet'⟩ := h'.log
    refine ⟨l' ++ l, by rw [hl', hl, append_assoc], fun e he => ?_⟩
    rcases mem_append.mp he with he | he
    · exact hquiet' e he
    · exact hquiet e he

theorem congr (hD : ∀ i, D' i ↔ D i) : Released D' s t := by
  have : D' = D := funext fun i => propext (hD i)
  exact this ▸ h

theorem endpointsOk (he : EndpointsOk s) : EndpointsOk t :=
  he.congr fun i => (h.proc i).endpoint

theorem blockedOn : (t.proc i).blockedOn = (s.proc i).blockedOn ∨ (t.proc i).blockedOn = noneE := by
  have hs := h.sending i
  have hr := h.receiving i
  simp only [Proc.blockedOn, (h.proc i).sendtoE, (h.proc i).getfromE]
  cases hst : (t.proc i).rtsFlags.sending <;> cases hrt : (t.proc i).rtsFlags.receiving <;> simp_all

end

end Released

theorem SendQueues.released {q' : Slot → List Slot} (hq : SendQueues s q) (hr : Released D s t)
    (hq' : Held t q') (hsub : ∀ i d, i ∈ q d → ¬D i → i ∈ q' d) : SendQueues t q' where
  toHeld := hq'
  complete i hi := by
    obtain ⟨hs, hD⟩ := (hr.sending i).mp hi
    obtain ⟨d, hd⟩ := hq.complete i hs
    exact ⟨d, hsub i d hd hD⟩

/-! ## One process -/

theorem removeCaller_eq {target : Slot} (h : removeCaller s target rc = .ok t) :
    t = s ∨ ∃ prev, t = s.writeCallerQ target prev (s.proc rc).qLink := by
  simp only [removeCaller] at h
  split at h
  · cases h
  · cases h; exact .inl rfl
  · cases h; exact .inr ⟨_, rfl⟩

theorem Released.of_unset {f : Slot → Proc} (i : Slot)
    (hf : ∀ j, ∃ cq ql, f j = { s.proc j with callerQ := cq, qLink := ql }) :
    Released (· = i) s
      (rtsUnset (rtsUnset { s with proc := f } i { sending := true }) i { receiving := true }) := by
  have hflags : ∀ j, (f j).rtsFlags = (s.proc j).rtsFlags := by
    intro j
    obtain ⟨cq, ql, hj⟩ := hf j
    rw [hj]
  refine ⟨fun j => ?_, fun j => ?_, fun j => ?_, fun k => ?_, by simp, by simp, by simp,
    fun hs => ?_, fun j hj => ?_, [], by simp, by simp⟩
  · obtain ⟨cq, ql, hj⟩ := hf j
    constructor <;> simp [hj]
  · simp [hflags]
  · simp [hflags]
  · simp only [rtsUnset_rest]
    exact .refl _
  · have hu : SlotsOk { s with proc := f } := hs.congr hflags fun _ => rfl
    exact (hu.rtsUnset i rfl).rtsUnset i rfl
  · obtain ⟨cq, ql, hj'⟩ := hf j
    exact .inl (by simpa [hj'] using hj)

theorem clearIpc_released (h : clearIpc s i = .ok t) : Released (· = i) s t := by
  simp only [clearIpc] at h
  split at h
  · split at h
    · cases h
    · split at h
      · cases h
      · rename_i hv
        cases h
        rcases removeCaller_eq hv with hs | ⟨prev, hs⟩
        · rw [hs]
          exact Released.of_unset i fun j => ⟨_, _, rfl⟩
        · rw [hs, writeCallerQ_eq]
          exact .of_unset i fun j => ⟨_, _, writeCallerQ_proc ..⟩
  · rename_i hs
    cases h
    have hw := Released.of_wakes (Wakes.rtsUnset s i
      (f := { receiving := true }) ⟨rfl, rfl, rfl, rfl⟩)
    refine { hw with sending := fun j => ?_, receiving := fun j hj => ?_ }
    · rw [hw.sending]
      refine and_congr_right fun hj => ?_
      simp only [not_false_iff, true_iff]
      rintro rfl
      exact hs hj
    · refine ⟨(hw.receiving j hj).1, ?_⟩
      rintro rfl
      simp at hj

theorem clearIpc_cases (hq : Held s q) (he : EndpointsOk s) (h : clearIpc s i = .ok t) :
    (∀ j, (t.proc j).rtsFlags.sending = ((s.proc j).rtsFlags.sending && !decide (j = i))) ∧
    (((∀ d, i ∉ q d) ∧ ∀ j, (t.proc j).callerQ = (s.proc j).callerQ ∧
      (t.proc j).qLink = (s.proc j).qLink) ∨ (∃ d pre post, q d = pre ++ i :: post ∧ ∀ j,
      (t.proc j).callerQ = cellHeads s.callerQs d pre.getLast? (s.proc i).qLink j ∧
      (t.proc j).qLink = cellNext s.qLinks pre.getLast? (s.proc i).qLink j)) := by
  simp only [clearIpc] at h
  split at h
  · split at h
    · cases h
    rename_i d hok
    have hd : (s.proc d).endpoint = (s.proc i).sendtoE := by
      simp only [okendpt] at hok
      split at hok
      · rename_i hi
        cases hok
        exact (isokendpt_eq_some hi).2.2
      · cases hok
    by_cases hmem : i ∈ q d
    · obtain ⟨pre, post, hsplit⟩ := append_of_mem hmem
      have hnd : (pre ++ i :: post).Nodup := hsplit ▸ hq.queues.nodup d
      rw [nodup_middle, nodup_cons, mem_append, not_or] at hnd
      simp only [removeCaller, hq.walk_eq, hsplit, locate_beq hnd.1.1] at h
      cases h
      refine ⟨fun j => ?_, .inr ⟨d, pre, post, hsplit, fun j => ?_⟩⟩ <;> simp [writeCallerQ_proc]
    · have hnone : locate (· == i) none (q d) = none := by
        refine locate_eq_none_iff.mpr fun j hj => beq_eq_false_iff_ne.mpr ?_
        rintro rfl
        exact hmem hj
      simp only [removeCaller, hq.walk_eq, hnone] at h
      cases h
      refine ⟨fun j => by simp, .inl ⟨fun d' hd' => ?_, fun j => by simp⟩⟩
      -- a process is queued nowhere else than at its destination
      obtain rfl := he.injective ((hq.sound hd').2.symm.trans hd.symm)
      exact hmem hd'
  · rename_i hs
    have hs : (s.proc i).rtsFlags.sending = false := by simpa using hs
    cases h
    refine ⟨fun j => ?_, .inl ⟨hq.not_mem hs, fun j => by simp⟩⟩
    by_cases hj : j = i
    · simp [hj, hs]
    · simp [hj]

theorem clearIpc_held (hq : Held s q) (he : EndpointsOk s) (h : clearIpc s i = .ok t) :
    Held t fun d => (q d).filter (· ≠ i) := by
  have hr := clearIpc_released h
  obtain ⟨hsend, ⟨hout, ht⟩ | ⟨d, pre, post, hsplit, ht⟩⟩ := clearIpc_cases hq he h
  · have hq' : (fun d => (q d).filter (· ≠ i)) = q := funext fun d =>
      filter_ne_eq_self (hout d)
    rw [hq']
    refine ⟨hq.queues.congr (fun j => (ht j).1) fun _ j _ => (ht j).2, fun {j d} hj => ?_⟩
    have hji : j ≠ i := fun h => hout d (h ▸ hj)
    rw [hsend, (hr.proc j).sendtoE, (hr.proc d).endpoint, (hq.sound hj).1]
    exact ⟨by simp [hji], (hq.sound hj).2⟩
  · rw [← hq.queues.filter_ne hsplit]
    exact hq.remove hsplit (fun j => (ht j).1) (fun j _ => (ht j).2) hsend
      (fun j => (hr.proc j).sendtoE) fun j => (hr.proc j).endpoint

theorem clearIpc_linksReset (hq : Held s q) (he : EndpointsOk s) (hl : LinksReset s)
    (hlast : (s.proc i).rtsFlags.sending = true → (s.proc i).qLink = none)
    (h : clearIpc s i = .ok t) : LinksReset t := by
  have hi : (s.proc i).qLink = none := by
    cases hs : (s.proc i).rtsFlags.sending with
    | true => exact hlast hs
    | false => exact hl i hs
  obtain ⟨hsend, hcases⟩ := clearIpc_cases hq he h
  intro j hj
  rw [hsend, Bool.and_eq_false_iff] at hj
  have hold : (s.proc j).qLink = none := by
    rcases hj with hj | hj
    · exact hl j hj
    · obtain rfl : j = i := by simpa using hj
      exact hi
  rcases hcases with ⟨-, ht⟩ | ⟨d, pre, post, -, ht⟩
  · rw [(ht j).2, hold]
  · rw [(ht j).2]
    by_cases hprev : pre.getLast? = some j
    · rw [hprev, cellNext, update_self, hi]
    · rw [cellNext_of_ne hprev]
      exact hold

/-! ## Everybody who waits for one process -/

theorem Proc.isEmpty.blockedOn {p : Proc} (h : p.isEmpty) : p.blockedOn = noneE := by
  have hflags : p.rtsFlags = { slotFree := true } := h
  simp [Proc.blockedOn, hflags]

theorem clearRef_cases (he : EndpointsOk s) (h : clearRef rc ret s rp = .ok t) :
    ∃ u, Wakes s u ∧ (∀ i, (u.proc i).rtsFlags = (s.proc i).rtsFlags) ∧
      (((s.proc rp).blockedOn = (s.proc rc).endpoint ∧ clearIpc u rp = .ok t) ∨
        ((s.proc rp).blockedOn ≠ (s.proc rc).endpoint ∧ t = u)) := by
  simp only [clearRef] at h
  split at h
  · rename_i hempty
    cases h
    refine ⟨_, .refl _, fun _ => rfl, .inr ⟨?_, rfl⟩⟩
    rw [hempty.blockedOn]
    exact (he.ne_none rc).symm
  · have hpriv := Wakes.modPrivOf s rp (f := fun p => { p with
      notifyPending := p.notifyPending.erase (s.privOf rc).id
      asynPending := p.asynPending.erase (s.privOf rc).id }) fun _ => by constructor <;> rfl
    split at h
    · rename_i hwait
      refine ⟨_, hpriv.trans (Wakes.modProc _ rp ?_ ?_ ?_), fun i => ?_, .inl ⟨hwait, h⟩⟩
      · constructor <;> simp
      · rfl
      · exact fun hd => .inl hd
      · rw [State.modProc_proc]
        split
        · subst i; rfl
        · rfl
    · rename_i hwait
      cases h
      exact ⟨_, hpriv, fun _ => rfl, .inr ⟨hwait, rfl⟩⟩

theorem clearIpc_receiving (h : clearIpc s i = .ok t) {j : Slot} (hj : j ≠ i) :
    (t.proc j).rtsFlags.receiving = (s.proc j).rtsFlags.receiving := by
  simp only [clearIpc] at h
  split at h
  · split at h
    · cases h
    · split at h
      · cases h
      · rename_i hv
        cases h
        rcases removeCaller_eq hv with hs | ⟨prev, hs⟩
        · simp [hs, hj]
        · simp [hs, hj]
  · cases h
    simp [hj]

theorem Released.blockedOn_eq (h : Released D s t) (hD : ¬D i)
    (hr : (t.proc i).rtsFlags.receiving = (s.proc i).rtsFlags.receiving) :
    (t.proc i).blockedOn = (s.proc i).blockedOn := by
  have hs : (t.proc i).rtsFlags.sending = (s.proc i).rtsFlags.sending := by
    have := h.sending i
    cases hst : (t.proc i).rtsFlags.sending <;> simp_all
  simp only [Proc.blockedOn, hs, hr, (h.proc i).sendtoE, (h.proc i).getfromE]

theorem clearRef_released (he : EndpointsOk s) (h : clearRef rc ret s rp = .ok t) :
    Released (fun i => i = rp ∧ (s.proc i).blockedOn = (s.proc rc).endpoint) s t ∧
      ∀ i, i ≠ rp → (t.proc i).blockedOn = (s.proc i).blockedOn := by
  obtain ⟨u, hw, hflags, ⟨hwait, hc⟩ | ⟨hwait, rfl⟩⟩ := clearRef_cases he h
  · have hr := (Released.of_wakes hw).trans (clearIpc_released hc)
    refine ⟨hr.congr fun i => ?_, fun i hi => hr.blockedOn_eq (by simp [hi]) ?_⟩
    · rw [false_or]
      exact and_iff_left_of_imp fun hi => hi ▸ hwait
    · rw [clearIpc_receiving hc hi, hflags]
  · have hr := Released.of_wakes hw
    refine ⟨hr.congr fun i => ?_, fun i _ => hr.blockedOn_eq id (by rw [hflags])⟩
    rw [iff_false]
    rintro ⟨rfl, hi⟩
    exact hwait hi

theorem clearRefs_released (he : EndpointsOk s) (h : clearRefs rc ret l s = .ok t) :
    Released (fun i => i ∈ l ∧ (s.proc i).blockedOn = (s.proc rc).endpoint) s t := by
  induction l generalizing s with
  | nil =>
    cases h
    exact (Released.of_wakes (.refl _)).congr fun i => by simp
  | cons rp l ih =>
    simp only [clearRefs] at h
    split at h
    · cases h
    rename_i v hv
    obtain ⟨hr, hother⟩ := clearRef_released he hv
    have hend := (hr.proc rc).endpoint
    have htail := ih (hr.endpointsOk he) h
    rw [hend] at htail
    refine (hr.trans htail).congr fun i => ?_
    by_cases hi : i = rp
    · subst hi
      -- a process that has been released waits for nobody, so the rest leaves it alone
      have hnot : (s.proc i).blockedOn ≠ (s.proc rc).endpoint →
          (v.proc i).blockedOn ≠ (s.proc rc).endpoint := fun hne => by
        rcases hr.blockedOn with hb | hb
        · rwa [hb]
        · rw [hb]; exact (he.ne_none rc).symm
      tauto
    · simp [hi, hother i hi]

theorem clearRef_held (hq : Held s q) (he : EndpointsOk s)
    (h : clearRef rc ret s rp = .ok t) : Held t fun d => (q d).filter fun j =>
      ¬(j = rp ∧ (s.proc j).blockedOn = (s.proc rc).endpoint) := by
  obtain ⟨u, hw, -, ⟨hwait, hc⟩ | ⟨hwait, rfl⟩⟩ := clearRef_cases he h
  · have hfilter : (fun d => (q d).filter fun j =>
        ¬(j = rp ∧ (s.proc j).blockedOn = (s.proc rc).endpoint)) =
          fun d => (q d).filter (· ≠ rp) := by
      funext d
      refine filter_congr fun j _ => decide_eq_decide.mpr (not_congr ?_)
      exact and_iff_left_of_imp fun hj => hj ▸ hwait
    rw [hfilter]
    exact clearIpc_held (hq.congr hw.sameSend) (he.congr hw.sameSend.endpoint) hc
  · have hfilter : (fun d => (q d).filter fun j =>
        ¬(j = rp ∧ (s.proc j).blockedOn = (s.proc rc).endpoint)) = q := by
      funext d
      refine filter_eq_self.mpr fun j _ => decide_eq_true ?_
      rintro ⟨rfl, hj⟩
      exact hwait hj
    rw [hfilter]
    exact hq.congr hw.sameSend

theorem clearRef_sendQueues (hq : SendQueues s q) (he : EndpointsOk s)
    (h : clearRef rc ret s rp = .ok t) : SendQueues t fun d => (q d).filter fun j =>
      ¬(j = rp ∧ (s.proc j).blockedOn = (s.proc rc).endpoint) :=
  hq.released (clearRef_released he h).1 (clearRef_held hq.toHeld he h) fun _ _ hj hD =>
    mem_filter.mpr ⟨hj, decide_eq_true hD⟩

theorem clearRefs_held (hq : Held s q) (he : EndpointsOk s) (h : clearRefs rc ret l s = .ok t) :
    Held t (update q rc ((q rc).filter (· ∉ l))) := by
  induction l generalizing s q with
  | nil =>
    cases h
    simpa using hq
  | cons rp l ih =>
    simp only [clearRefs] at h
    split at h
    · cases h
    rename_i v hv
    have hr := (clearRef_released he hv).1
    have htail := ih (clearRef_held hq he hv) (hr.endpointsOk he) h
    convert htail using 1
    funext d
    by_cases hd : d = rc
    · subst hd
      rw [update_self, update_self, filter_filter]
      refine filter_congr fun j hj => ?_
      simp [hq.blockedOn_of_mem hj, Bool.and_comm]
    · rw [update_of_ne hd, update_of_ne hd, eq_comm]
      refine filter_eq_self.mpr fun j hj => decide_eq_true ?_
      rintro ⟨-, hwait⟩
      rw [hq.blockedOn_of_mem hj] at hwait
      exact hd (he.injective hwait)

theorem clearRefs_linksReset (hq : SendQueues s q)
    (he : EndpointsOk s) (hl : LinksReset s) (hasc : l.Pairwise (· < ·))
    (hdesc : (q rc).Pairwise (· > ·)) (hsub : ∀ j ∈ q rc, j ∈ l)
    (h : clearRefs rc ret l s = .ok t) : LinksReset t := by
  induction l generalizing s q with
  | nil => cases h; exact hl
  | cons rp l ih =>
    simp only [clearRefs] at h
    split at h
    · cases h
    rename_i v hv
    have hr := (clearRef_released he hv).1
    have hq' := clearRef_sendQueues hq he hv
    refine ih hq' (hr.endpointsOk he) ?_ (pairwise_cons.mp hasc).2 (hdesc.filter _) ?_ h
    · obtain ⟨u, hw, -, ⟨hwait, hc⟩ | ⟨-, rfl⟩⟩ := clearRef_cases he hv
      · have hs := hw.sameSend
        refine clearIpc_linksReset (hq.toHeld.congr hs) (he.congr hs.endpoint) (hl.congr hs)
          (fun hsend => ?_) hc
        rw [hs.qLink]
        rw [hs.sending] at hsend
        have hmem : rp ∈ q rc := by
          refine (hq.mem_iff he rp rc).mpr ⟨hsend, ?_⟩
          rwa [Proc.blockedOn, if_pos hsend] at hwait
        obtain ⟨pre, post, hsplit⟩ := append_of_mem hmem
        refine ((hsplit ▸ hq.queues.linked rc).next_eq_none_iff).mpr ?_
        -- whatever follows `rp` has a smaller number, and those have all been visited
        refine eq_nil_iff_forall_not_mem.mpr fun j hj => ?_
        rw [hsplit] at hdesc
        have hlt : j < rp := (pairwise_cons.mp (pairwise_append.mp hdesc).2.1).1 j hj
        rcases mem_cons.mp (hsub j (by simp [hsplit, hj])) with rfl | hjl
        · exact absurd hlt (lt_irrefl _)
        · exact absurd hlt (lt_asymm ((pairwise_cons.mp hasc).1 j hjl))
      · exact hl.congr hw.sameSend
    · intro j hj
      obtain ⟨hjq, hjn⟩ := mem_filter.mp hj
      rcases mem_cons.mp (hsub j hjq) with rfl | hjl
      · simp [hq.blockedOn_of_mem hjq] at hjn
      · exact hjl

/-! ## The death of a process -/

theorem cancelSenders_steps {n : Nat} (h : cancelSenders rc n s = .ok t) : WakeSteps s t := by
  induction n generalizing s with
  | zero => cases h
  | succ n ih =>
    simp only [cancelSenders] at h
    split at h
    · cases h; exact .refl
    split at h
    · cases h
    split at h
    · cases h
    · rename_i hc
      exact (cancelAsync_steps hc).trans (ih h)

theorem markDead_proc (s : State) (rc : Slot) :
    (markDead s rc).proc = (rtsSet s rc { noEndpoint := true }).proc := by
  simp only [markDead]
  split <;> rfl

theorem markDead_sameSend (s : State) (rc : Slot) : SameSend s (markDead s rc) := by
  constructor <;> intro i <;> rw [markDead_proc] <;> simp

theorem markDead_log (s : State) (rc : Slot) :
    (markDead s rc).log = .cleared rc (s.proc rc).endpoint :: s.log := by
  simp only [markDead]
  split <;> simp [State.record]

theorem clearMemreq_log (h : clearMemreq s rc = .ok t) : t.log = s.log := by
  simp only [clearMemreq] at h
  split at h
  · cases h; rfl
  split at h
  · cases h
  · cases h; simp
  · rename_i prev _ _
    cases h
    cases prev <;> simp [State.writeVmrequest]

theorem clearMemreq_slotsOk (hs : SlotsOk s) (h : clearMemreq s rc = .ok t) : SlotsOk t := by
  simp only [clearMemreq] at h
  split at h
  · cases h; exact hs
  split at h
  · cases h
  · cases h; exact hs.rtsUnset rc rfl
  · rename_i prev _ _
    cases h
    refine SlotsOk.rtsUnset (hs.congr (fun i => ?_) fun c => ?_) rc rfl
    · cases prev with
      | none => rfl
      | some y => by_cases hi : i = y <;> simp [State.writeVmrequest, State.modProc_proc, hi]
    · cases prev <;> rfl

theorem clearMemreq_sameSend (h : clearMemreq s rc = .ok t) : SameSend s t := by
  have hun : ∀ v : State, SameSend v (rtsUnset v rc { vmRequest := true }) := fun v => by
    constructor <;> intro i <;> simp
  simp only [clearMemreq] at h
  split at h
  · cases h; exact (Wakes.refl _).sameSend
  split at h
  · cases h
  · cases h; exact hun s
  · rename_i prev _ _
    cases h
    refine SameSend.trans ?_ (hun _)
    cases prev with
    | none => constructor <;> intro i <;> rfl
    | some y =>
      constructor <;> intro i <;> by_cases hi : i = y <;>
        simp [State.writeVmrequest, State.modProc_proc, hi]

theorem clearEndpoint_stages (h : clearEndpoint s rc = .ok t) :
    ¬(s.proc rc).isEmpty ∧ ∃ u v w, clearIpc (markDead s rc) rc = .ok u ∧ Wakes u v ∧
      clearRefs rc .edeadsrcdst procAddrs v = .ok w ∧ clearMemreq w rc = .ok t := by
  simp only [clearEndpoint] at h
  split at h
  · cases h
  rename_i hlive
  split at h
  · cases h
  rename_i u hu
  split at h
  · cases h
  rename_i w hw
  simp only [clearIpcRefs] at hw
  split at hw
  · cases hw
  · rename_i v hv
    exact ⟨hlive, u, v, w, hu, (cancelSenders_steps hv).wakes, hw, h⟩

/-- The processes that wait for `rc`, other than `rc` itself, are queued in descending order,
and `rc` itself is the last of the queue it waits in. -/
def ClearsInOrder (s : State) (rc : Slot) : Prop :=
  ((s.proc rc).rtsFlags.sending = true → (s.proc rc).qLink = none) ∧
    ∃ l, Linked s.qLinks (s.proc rc).callerQ l ∧ (l.filter (· ≠ rc)).Pairwise (· > ·)

theorem clearEndpoint_held (hq : Held s q) (he : EndpointsOk s) (h : clearEndpoint s rc = .ok t) :
    Held t (update (fun d => (q d).filter (· ≠ rc)) rc []) ∧ EndpointsOk t := by
  obtain ⟨-, u, v, w, hu, hv, hw, ht⟩ := clearEndpoint_stages h
  have hdead := markDead_sameSend s rc
  have hed := he.congr hdead.endpoint
  have hqu := clearIpc_held (hq.congr hdead) hed hu
  have hev := ((clearIpc_released hu).endpointsOk hed).congr hv.sameSend.endpoint
  have hqw := clearRefs_held (hqu.congr hv.sameSend) hev hw
  have hew := (clearRefs_released hev hw).endpointsOk hev
  have hmem := clearMemreq_sameSend ht
  refine ⟨?_, hew.congr hmem.endpoint⟩
  convert hqw.congr hmem using 2
  exact (filter_eq_nil_iff.mpr fun j _ => by simp [mem_procAddrs]).symm

/-- What `clear_endpoint` leaves of the senders. -/
structure Cleared (s : State) (rc : Slot) (t : State) : Prop where
  endpoint : ∀ i, (t.proc i).endpoint = (s.proc i).endpoint
  sendtoE : ∀ i, (t.proc i).sendtoE = (s.proc i).sendtoE
  sendmsg : ∀ i, (t.proc i).sendmsg = (s.proc i).sendmsg
  slotFree : ∀ i, (t.proc i).rtsFlags.slotFree = (s.proc i).rtsFlags.slotFree
  sending : ∀ i, (t.proc i).rtsFlags.sending = true ↔ (s.proc i).rtsFlags.sending = true ∧
    i ≠ rc ∧ (s.proc i).sendtoE ≠ (s.proc rc).endpoint
  log : ∃ l, t.log = l ++ .cleared rc (s.proc rc).endpoint :: s.log ∧ ∀ e ∈ l, e.isQuiet

theorem clearEndpoint_cleared (he : EndpointsOk s) (h : clearEndpoint s rc = .ok t) :
    Cleared s rc t := by
  obtain ⟨-, u, v, w, hu, hv, hw, ht⟩ := clearEndpoint_stages h
  have hdead := markDead_sameSend s rc
  have hmem := clearMemreq_sameSend ht
  have hru := (clearIpc_released hu).trans (Released.of_wakes hv)
  have hrw := clearRefs_released (hru.endpointsOk (he.congr hdead.endpoint)) hw
  have hr := hru.trans hrw
  refine ⟨fun i => ?_, fun i => ?_, fun i => ?_, fun i => ?_, fun i => ?_, ?_⟩
  · rw [hmem.endpoint, (hr.proc i).endpoint, hdead.endpoint]
  · rw [hmem.sendtoE, (hr.proc i).sendtoE, hdead.sendtoE]
  · rw [hmem.sendmsg, (hr.proc i).sendmsg, hdead.sendmsg]
  · rw [hmem.slotFree, (hr.proc i).slotFree, hdead.slotFree]
  · have hblocked : (v.proc i).rtsFlags.sending = true →
        (v.proc i).blockedOn = (s.proc i).sendtoE := by
      intro hs
      rw [Proc.blockedOn, if_pos hs, (hru.proc i).sendtoE, hdead.sendtoE]
    rw [hmem.sending, hrw.sending, hru.sending, hdead.sending, or_false, and_assoc]
    refine and_congr_right fun hs => and_congr_right fun hi => not_congr ?_
    rw [hblocked ((hru.sending i).mpr ⟨hdead.sending i ▸ hs, by simpa using hi⟩),
      (hru.proc rc).endpoint, hdead.endpoint]
    exact and_iff_right (mem_procAddrs i)
  · obtain ⟨l, hl, hquiet⟩ := hr.log
    refine ⟨l, ?_, hquiet⟩
    rw [clearMemreq_log ht, hl, markDead_log]

theorem clearEndpoint_slotsOk (hs : SlotsOk s) (he : EndpointsOk s)
    (h : clearEndpoint s rc = .ok t) : SlotsOk t := by
  obtain ⟨hlive, u, v, w, hu, hv, hw, ht⟩ := clearEndpoint_stages h
  have hfree : (s.proc rc).rtsFlags.slotFree = false :=
    Bool.eq_false_iff.mpr fun hrc => hlive (hs.isEmpty rc hrc)
  have hdead : SlotsOk (markDead s rc) := by
    have hset := hs.rtsSet hfree (f := { noEndpoint := true }) rfl
    refine hset.congr (fun i => by rw [markDead_proc]) fun c => ?_
    simp only [markDead]
    split <;> rfl
  have hr := (clearIpc_released hu).trans (Released.of_wakes hv)
  have hed := he.congr (markDead_sameSend s rc).endpoint
  exact clearMemreq_slotsOk ((clearRefs_released (hr.endpointsOk hed) hw).slots (hr.slots hdead)) ht

theorem clearEndpoint_sendQueues (hq : SendQueues s q) (he : EndpointsOk s)
    (h : clearEndpoint s rc = .ok t) :
    SendQueues t (update (fun d => (q d).filter (· ≠ rc)) rc []) := by
  refine ⟨(clearEndpoint_held hq.toHeld he h).1, fun i hi => ?_⟩
  obtain ⟨hs, hne, hto⟩ := ((clearEndpoint_cleared he h).sending i).mp hi
  obtain ⟨d, hd⟩ := hq.complete i hs
  have hdrc : d ≠ rc := by
    rintro rfl
    exact hto (hq.sound hd).2
  exact ⟨d, by simpa [hdrc, hne] using hd⟩

theorem clearEndpoint_linksReset (hq : SendQueues s q) (he : EndpointsOk s)
    (hl : LinksReset s) (hord : ClearsInOrder s rc) (h : clearEndpoint s rc = .ok t) :
    LinksReset t := by
  obtain ⟨-, u, v, w, hu, hv, hw, ht⟩ := clearEndpoint_stages h
  obtain ⟨hlast, l, hlinked, hdesc⟩ := hord
  obtain rfl := hlinked.unique (hq.queues.linked rc)
  have hdead := markDead_sameSend s rc
  have hed := he.congr hdead.endpoint
  have hqd := hq.congr hdead
  have hqu : SendQueues u fun d => (q d).filter (· ≠ rc) :=
    hqd.released (clearIpc_released hu) (clearIpc_held hqd.toHeld hed hu) fun _ _ hi hne =>
      mem_filter.mpr ⟨hi, decide_eq_true hne⟩
  have hev := ((clearIpc_released hu).endpointsOk hed).congr hv.sameSend.endpoint
  have hlu : LinksReset u := by
    refine clearIpc_linksReset hqd.toHeld hed (hl.congr hdead) (fun hs => ?_) hu
    rw [hdead.qLink]
    exact hlast (hdead.sending rc ▸ hs)
  have hlw := clearRefs_linksReset (hqu.congr hv.sameSend) hev (hlu.congr hv.sameSend)
    (pairwise_lt_finRange _) hdesc (fun j _ => mem_procAddrs j) hw
  exact hlw.congr (clearMemreq_sameSend ht)

end Gergios.Kernel
