import Gergios.Lib.Chains
import Gergios.Kernel.Ipc.Steady

/-!
# Who waits for whom

A blocked process waits for at most one other. As long as no process waits for itself, and
there are no filters, the deadlock test keeps this graph free of cycles, and for that reason
it comes to an end itself.
-/

namespace Gergios.Kernel

open Lib List

variable {s t : State} {caller : Slot}

/-- The process that `i` waits for. -/
def waitsFor (s : State) (i : Slot) : Option Slot := isokendpt s (s.proc i).blockedOn

variable {e : Endpoint} {i x : Slot}

def WaitsOk (s : State) : Prop := ∀ i, (s.proc i).blockedOn = noneE ∨ (s.proc i).blockedOn = anyE ∨
  ∃ d, isokendpt s (s.proc i).blockedOn = some d

variable {cp : Slot} {chain : Chain} {srcE : Endpoint} {o : Option Endpoint}

theorem waitsFor_eq_none (hw : WaitsOk s) (h : waitsFor s i = none) :
    (s.proc i).blockedOn = noneE ∨ (s.proc i).blockedOn = anyE := by
  rcases hw i with hn | ha | ⟨d, hd⟩
  · exact .inl hn
  · exact .inr ha
  · rw [waitsFor, hd] at h
    cases h

theorem waitsFor_eq_some_iff {d : Slot} (he : EndpointsOk s) (hlive : ¬(s.proc d).isEmpty) :
    waitsFor s i = some d ↔ (s.proc i).blockedOn = (s.proc d).endpoint := by
  rw [waitsFor, isokendpt_eq_some_iff]
  refine ⟨fun h => h.2.2.symm, fun h => ⟨?_, hlive, h.symm⟩⟩
  rw [h, he d, procAddr_procNr]

theorem deadlockLoop_spec (hs : SlotsOk s) (he : EndpointsOk s) (hw : WaitsOk s) (fn : BlockFn)
    (hcp : ¬(s.proc cp).isEmpty) {l : List Slot} (visited : List Slot) {n : Nat}
    (hl : Linked (waitsFor s) (some x) l) (hx : isokendpt s e = some x) (hn : l.length < n) :
    ∃ chain, deadlockLoop s fn (s.proc cp).endpoint n e visited = .ok chain ∧
      (∃ k, k <+: l ∧ chain.visited = visited ++ k) ∧
      (chain.groupSize ≠ 0 ↔ ∃ y ∈ l, waitsFor s y = some cp ∧
        ¬(visited = [] ∧ y = x ∧ permittedPair fn (s.proc x) = true)) := by
  induction n generalizing l x e visited with
  | zero => exact absurd hn (Nat.not_lt_zero _)
  | succ n ih =>
    obtain ⟨l', rfl⟩ := hl.head_eq
    have hxfree : ¬(s.proc x).rtsFlags.slotFree = true := fun h =>
      (isokendpt_eq_some hx).2.1 (hs.isEmpty x h)
    have hprefix : [x] <+: x :: l' := ⟨l', rfl⟩
    simp only [deadlockLoop, if_neg (isokendpt_ne_any hx), okendpt, hx, if_neg hxfree]
    by_cases hnone : (s.proc x).blockedOn = noneE
    · have hnext : waitsFor s x = none := by rw [waitsFor, hnone, isokendpt_none]
      have htail := hl.2
      rw [hnext] at htail
      obtain rfl := htail.unique (linked_nil.mpr rfl)
      rw [if_pos hnone]
      refine ⟨_, rfl, ⟨[x], hprefix, rfl⟩, ?_⟩
      simp [hnext]
    · rw [if_neg hnone]
      by_cases hback : (s.proc x).blockedOn = (s.proc cp).endpoint
      · have hnext : waitsFor s x = some cp := (waitsFor_eq_some_iff he hcp).mpr hback
        have htail := hl.2
        rw [hnext] at htail
        have hunique : ∀ y ∈ l', waitsFor s y ≠ some cp := by
          intro y hy hyc
          exact htail.not_cycle (.tail' (htail.mem_iff_reaches.mp hy) hyc)
        rw [if_pos hback]
        have hlen : (visited ++ [x]).length = 1 ↔ visited = [] := by simp
        simp only [hlen]
        split
        · rename_i hperm
          refine ⟨_, rfl, ⟨[x], hprefix, rfl⟩, ?_⟩
          simp only [ne_eq, not_true_eq_false, false_iff]
          rintro ⟨y, hy, hyc, hnot⟩
          rcases mem_cons.mp hy with rfl | hy
          · exact hnot ⟨hperm.1, rfl, hperm.2⟩
          · exact hunique y hy hyc
        · rename_i hperm
          refine ⟨_, rfl, ⟨[x], hprefix, rfl⟩, ?_⟩
          simp only [ne_eq, Nat.add_eq_zero_iff, one_ne_zero, and_false, not_false_iff, true_iff]
          exact ⟨x, mem_cons_self, hnext, fun h => hperm ⟨h.1, h.2.2⟩⟩
      · rw [if_neg hback]
        have htail := hl.2
        cases hnext : waitsFor s x with
        | none =>
          have hany := (waitsFor_eq_none hw hnext).resolve_left hnone
          rw [hnext] at htail
          obtain rfl := htail.unique (linked_nil.mpr rfl)
          cases n with
          | zero => simp at hn
          | succ n =>
            rw [hany]
            refine ⟨_, rfl, ⟨[x], hprefix, rfl⟩, ?_⟩
            simp [hnext]
        | some d =>
          rw [hnext] at htail
          obtain ⟨chain, hchain, ⟨k, hk, hvis⟩, hgroup⟩ := ih (visited ++ [x]) htail hnext
            (by simpa using hn)
          refine ⟨chain, hchain, ⟨x :: k, ?_, by simp [hvis]⟩, hgroup.trans ?_⟩
          · exact cons_prefix_cons.mpr ⟨rfl, hk⟩
          · have hxl : x ∉ l' := (nodup_cons.mp hl.nodup).1
            have hxc : waitsFor s x ≠ some cp := fun h =>
              hback ((waitsFor_eq_some_iff he hcp).mp h)
            constructor
            · rintro ⟨y, hy, hyc, -⟩
              exact ⟨y, mem_cons_of_mem x hy, hyc, fun h => hxl (h.2.1 ▸ hy)⟩
            · rintro ⟨y, hy, hyc, -⟩
              rcases mem_cons.mp hy with rfl | hy
              · exact absurd hyc hxc
              · exact ⟨y, hy, hyc, fun h => by simp at h⟩

theorem deadlock_spec (hs : SlotsOk s) (he : EndpointsOk s) (hw : WaitsOk s)
    (hends : Ends (waitsFor s)) (fn : BlockFn) (hcp : ¬(s.proc cp).isEmpty)
    (hx : isokendpt s e = some x) :
    ∃ chain, deadlock s fn cp e = .ok chain ∧ chain.visited.Nodup ∧
      (chain.groupSize ≠ 0 ↔ Relation.TransGen (Edge (waitsFor s)) x cp ∧
        ¬(waitsFor s x = some cp ∧ permittedPair fn (s.proc x) = true)) := by
  obtain ⟨l, hl⟩ := hends x
  have hlen : l.length < nrSlots + 1 := Nat.lt_succ_of_le (by simpa [nrSlots] using hl.length_le)
  obtain ⟨chain, hchain, ⟨k, hk, hvis⟩, hgroup⟩ :=
    deadlockLoop_spec hs he hw fn hcp [] hl hx hlen
  refine ⟨chain, hchain, ?_, hgroup.trans ?_⟩
  · rw [hvis]
    exact hl.nodup.sublist hk.sublist
  · rw [Relation.TransGen.tail'_iff]
    constructor
    · rintro ⟨y, hy, hyc, hnot⟩
      refine ⟨⟨y, hl.mem_iff_reaches.mp hy, hyc⟩, ?_⟩
      rintro ⟨hxc, hperm⟩
      refine hnot ⟨rfl, ?_, hperm⟩
      -- if `x` itself waits for `cp` then it is the only one in its chain to do so
      rcases Relation.ReflTransGen.cases_head (hl.mem_iff_reaches.mp hy) with rfl | ⟨d, hd, hdy⟩
      · rfl
      · obtain rfl := Option.some.inj ((show waitsFor s x = some d from hd).symm.trans hxc)
        exact absurd (.tail' hdy hyc) (hends.not_cycle d)
    · rintro ⟨⟨y, hy, hyc⟩, hnot⟩
      refine ⟨y, hl.mem_iff_reaches.mpr hy, hyc, ?_⟩
      rintro ⟨-, hyx, hperm⟩
      exact hnot ⟨hyx ▸ hyc, hperm⟩

/-! ## The invariant -/

structure WaitInv (s : State) : Prop where
  slots : SlotsOk s
  queues : ∃ q, SendQueues s q
  endpoints : EndpointsOk s
  filters : ∀ k, (s.priv k).ipcf = []
  sendto : ∀ i, (s.proc i).rtsFlags.sending = true → ∃ d, isokendpt s (s.proc i).sendtoE = some d
  getfrom : ∀ i, (s.proc i).rtsFlags.receiving = true →
    (s.proc i).getfromE = anyE ∨ ∃ d, isokendpt s (s.proc i).getfromE = some d
  both : ∀ i, (s.proc i).rtsFlags.sending = true → (s.proc i).rtsFlags.receiving = true →
    (s.proc i).getfromE = (s.proc i).sendtoE
  ends : Ends (waitsFor s)

namespace WaitInv

section

variable (h : WaitInv s)

include h

theorem waitsOk : WaitsOk s := by
  intro i
  cases hs : (s.proc i).rtsFlags.sending with
  | true =>
    have hb : (s.proc i).blockedOn = (s.proc i).sendtoE := if_pos hs
    rw [hb]
    exact .inr (.inr (h.sendto i hs))
  | false =>
    cases hr : (s.proc i).rtsFlags.receiving with
    | true =>
      have hb : (s.proc i).blockedOn = (s.proc i).getfromE := by simp [Proc.blockedOn, hs, hr]
      rw [hb]
      exact .inr (h.getfrom i hr)
    | false => exact .inl (by simp [Proc.blockedOn, hs, hr])

theorem allow (i : Slot) (src : Endpoint) (mtype : Option Int) :
    allowIpcFilteredMsg s i src mtype = true := by
  rw [allowIpcFilteredMsg, State.privOf, h.filters]

theorem shrink (hslots : SlotsOk t) (hqueues : ∃ q, SendQueues t q)
    (hfilters : ∀ k, (t.priv k).ipcf = (s.priv k).ipcf)
    (hfree : ∀ i, (t.proc i).rtsFlags.slotFree = (s.proc i).rtsFlags.slotFree)
    (hend : ∀ i, (t.proc i).endpoint = (s.proc i).endpoint)
    (hto : ∀ i, (t.proc i).sendtoE = (s.proc i).sendtoE)
    (hfrom : ∀ i, (t.proc i).getfromE = (s.proc i).getfromE)
    (hsend : ∀ i, (t.proc i).rtsFlags.sending = true → (s.proc i).rtsFlags.sending = true)
    (hrecv : ∀ i, (t.proc i).rtsFlags.receiving = true → (s.proc i).rtsFlags.receiving = true) :
    WaitInv t := by
  have hok := h.slots.isokendpt_eq hslots hfree hend
  refine ⟨hslots, hqueues, h.endpoints.congr hend, fun k => (hfilters k).trans (h.filters k),
    fun i hi => ?_, fun i hi => ?_, fun i hi hi' => ?_, h.ends.mono fun i => ?_⟩
  · rw [hok, hto]
    exact h.sendto i (hsend i hi)
  · rw [hok, hfrom]
    exact h.getfrom i (hrecv i hi)
  · rw [hto, hfrom]
    exact h.both i (hsend i hi) (hrecv i hi')
  · simp only [waitsFor, hok]
    cases hst : (t.proc i).rtsFlags.sending with
    | true => exact .inl (by simp [Proc.blockedOn, hst, hsend i hst, hto])
    | false =>
      cases hrt : (t.proc i).rtsFlags.receiving with
      | false =>
        right
        have hb : (t.proc i).blockedOn = noneE := by simp [Proc.blockedOn, hst, hrt]
        rw [hb, isokendpt_none]
      | true =>
        have hr := hrecv i hrt
        cases hss : (s.proc i).rtsFlags.sending with
        | true => simp [Proc.blockedOn, hst, hrt, hss, hfrom, h.both i hss hr]
        | false => simp [Proc.blockedOn, hst, hrt, hss, hr, hfrom]

theorem wakes (hw : Wakes s t) : WaitInv t := by
  obtain ⟨q, hq⟩ := h.queues
  exact h.shrink (hw.slots h.slots) ⟨q, hq.congr hw.sameSend⟩ (fun k => (hw.priv k).ipcf)
    (fun i => (hw.proc i).slotFree) (fun i => (hw.proc i).endpoint) (fun i => (hw.proc i).sendtoE)
    (fun i => (hw.proc i).getfromE) (fun i hi => (hw.proc i).sending ▸ hi)
    fun i => (hw.proc i).receiving

theorem grow (c : Slot) (hslots : SlotsOk t) (hqueues : ∃ q, SendQueues t q)
    (hfilters : ∀ k, (t.priv k).ipcf = (s.priv k).ipcf)
    (hfree : ∀ i, (t.proc i).rtsFlags.slotFree = (s.proc i).rtsFlags.slotFree)
    (hend : ∀ i, (t.proc i).endpoint = (s.proc i).endpoint)
    (hto : ∀ i, i ≠ c → (t.proc i).sendtoE = (s.proc i).sendtoE)
    (hfrom : ∀ i, i ≠ c → (t.proc i).getfromE = (s.proc i).getfromE)
    (hsend : ∀ i, i ≠ c → (t.proc i).rtsFlags.sending = (s.proc i).rtsFlags.sending)
    (hrecv : ∀ i, i ≠ c → (t.proc i).rtsFlags.receiving = (s.proc i).rtsFlags.receiving)
    (hvalid : e = anyE ∨ ∃ d, isokendpt s e = some d)
    (hsendto : (t.proc c).rtsFlags.sending = true → (t.proc c).sendtoE = e ∧ e ≠ anyE)
    (hgetfrom : (t.proc c).rtsFlags.receiving = true → (t.proc c).getfromE = e)
    (hnew : waitsFor s c = isokendpt s e ∨
      ∀ x, isokendpt s e = some x → ¬Relation.ReflTransGen (Edge (waitsFor s)) x c) :
    WaitInv t := by
  have hok := h.slots.isokendpt_eq hslots hfree hend
  refine ⟨hslots, hqueues, h.endpoints.congr hend, fun k => (hfilters k).trans (h.filters k),
    fun i hi => ?_, fun i hi => ?_, fun i hi hi' => ?_, ?_⟩
  · rw [hok]
    by_cases hic : i = c
    · subst hic
      rw [(hsendto hi).1]
      exact hvalid.resolve_left (hsendto hi).2
    · rw [hto i hic]
      exact h.sendto i (hsend i hic ▸ hi)
  · rw [hok]
    by_cases hic : i = c
    · subst hic
      rw [hgetfrom hi]
      exact hvalid
    · rw [hfrom i hic]
      exact h.getfrom i (hrecv i hic ▸ hi)
  · by_cases hic : i = c
    · subst hic
      rw [hgetfrom hi', (hsendto hi).1]
    · rw [hto i hic, hfrom i hic]
      exact h.both i (hsend i hic ▸ hi) (hrecv i hic ▸ hi')
  · have hother : ∀ i, i ≠ c → waitsFor t i = waitsFor s i := by
      intro i hic
      simp only [waitsFor, hok, Proc.blockedOn, hto i hic, hfrom i hic, hsend i hic, hrecv i hic]
    have hcaller : waitsFor t c = isokendpt s e ∨ waitsFor t c = none := by
      simp only [waitsFor, hok, Proc.blockedOn]
      split
      · rename_i hs
        exact .inl (by rw [(hsendto hs).1])
      split
      · rename_i hr
        exact .inl (by rw [hgetfrom hr])
      · exact .inr isokendpt_none
    have hless (hc : waitsFor t c = waitsFor s c ∨ waitsFor t c = none) : Ends (waitsFor t) := by
      refine h.ends.mono fun i => ?_
      by_cases hic : i = c
      · exact hic ▸ hc
      · exact .inl (hother i hic)
    rcases hcaller with hc | hc
    · rcases hnew with hsame | hfar
      · exact hless (.inl (hc.trans hsame.symm))
      · cases hx : isokendpt s e with
        | none => exact hless (.inr (hc.trans hx))
        | some x =>
          obtain ⟨l, hl⟩ := h.ends x
          refine h.ends.insert hl (fun hmem => hfar x hx (hl.mem_iff_reaches.mp hmem)) hother ?_
          rw [hc, hx]
    · exact hless (.inr hc)

end

end WaitInv

/-! ## The actions of a call -/

theorem WaitInv.not_reaches (h : WaitInv s) {fn : BlockFn}
    (hcaller : (s.proc caller).rtsFlags.slotFree = false) (hself : e ≠ (s.proc caller).endpoint)
    (hx : isokendpt s e = some x) (hdead : deadlock s fn caller e = .ok chain)
    (hgroup : chain.groupSize = 0)
    (hpair : waitsFor s x = some caller → permittedPair fn (s.proc x) = false) :
    ¬Relation.ReflTransGen (Edge (waitsFor s)) x caller := by
  have hlive : ¬(s.proc caller).isEmpty := fun hempty => by
    rw [(h.slots.isEmpty_iff caller).mp hempty] at hcaller
    cases hcaller
  obtain ⟨chain', hchain', -, hiff⟩ :=
    deadlock_spec h.slots h.endpoints h.waitsOk h.ends fn hlive hx
  obtain rfl : chain = chain' := Except.ok.inj (hdead.symm.trans hchain')
  intro hreach
  rcases Relation.reflTransGen_iff_eq_or_transGen.mp hreach with rfl | htrans
  · exact hself (isokendpt_eq_some hx).2.2.symm
  · refine hiff.mpr ⟨htrans, fun ⟨hxc, hperm⟩ => ?_⟩ hgroup
    rw [hpair hxc] at hperm
    cases hperm

theorem Queued.waitInv {dst : Slot} {dstE : Endpoint} (hq : Queued s caller dstE dst t)
    (h : WaitInv s) (hcaller : (s.proc caller).rtsFlags.slotFree = false)
    (hself : dstE ≠ (s.proc caller).endpoint) : WaitInv t := by
  obtain ⟨q, hqs⟩ := h.queues
  have hqueues := hq.sendQueues hqs
  obtain ⟨chain, hdead, hgroup⟩ := hq.safe
  have hfar := h.not_reaches hcaller hself hq.target hdead hgroup fun hwait => ?_
  · obtain ⟨-, msg, flags, rfl⟩ := hq.state_eq hqs.toHeld
    have hf := sendBlock_fields s caller dstE msg flags
    refine h.grow caller ((h.slots.sendBlock hcaller ..).writeCallerQ ..) ⟨_, hqueues⟩
      (fun k => ?_) (fun i => ?_) (fun i => ?_) (fun i hi => ?_) (fun i hi => ?_) (fun i hi => ?_)
      (fun i hi => ?_) (.inr ⟨dst, hq.target⟩) (fun _ => ⟨?_, isokendpt_ne_any hq.target⟩)
      (fun hr => ?_) (.inr fun x hx => ?_)
    · rw [writeCallerQ_priv, sendBlock_priv]
    · simp only [writeCallerQ_proc, hf]
    · simp only [writeCallerQ_proc, hf]
    · simp only [writeCallerQ_proc, hf, if_neg hi]
    · simp only [writeCallerQ_proc, hf]
    · simp only [writeCallerQ_proc, hf, hi, decide_false, Bool.or_false]
    · simp only [writeCallerQ_proc, hf]
    · simp only [writeCallerQ_proc, hf, if_true]
    · simp only [writeCallerQ_proc, hf, hq.receiving] at hr
      cases hr
    · obtain rfl := Option.some.inj (hq.target.symm.trans hx)
      exact hfar
  · refine Bool.eq_false_iff.mpr fun hperm => ?_
    obtain ⟨mtype, hnot⟩ := hq.refused
    have hsend : (s.proc dst).rtsFlags.sending = false := by simpa [permittedPair] using hperm
    have hto := (isokendpt_eq_some hwait).2.2
    simp only [Proc.blockedOn, hsend, Bool.false_eq_true, if_false] at hto
    split at hto
    · rename_i hrecv
      have hwill : willReceive s (s.proc caller).endpoint dst mtype = true :=
        willReceive_iff.mpr ⟨hrecv, hsend, canReceive_iff.mpr ⟨.inr hto.symm, h.allow ..⟩⟩
      rw [hwill] at hnot
      cases hnot
    · exact h.endpoints.ne_none caller hto

theorem Taken.waitInv {sender : Slot} {prev : Option Slot}
    (htaken : Taken s caller sender prev t) (h : WaitInv s)
    (hwalk : searchQueue s caller srcE = some (some (prev, sender)))
    (hfree : (s.proc sender).rtsFlags.slotFree = false) : WaitInv t := by
  obtain ⟨q, hq⟩ := h.queues
  obtain ⟨pre, post, hsplit, hprev⟩ := searchQueue_some hq.toHeld hwalk
  have hqueues := htaken.sendQueues hfree hq hsplit hprev
  obtain ⟨u, hn, rfl⟩ := htaken.unlinked hfree
  have hw := hn.wakes
  have hf := copyMessage_fields s caller sender
  have hu : SlotsOk (unlinkSender u caller sender prev) :=
    ((hw.slots (h.slots.copyMessage caller sender)).writeCallerQ ..).modProc sender rfl
  refine h.shrink hu ⟨_, hqueues⟩ (fun k => ?_) (fun i => ?_) (fun i => ?_) (fun i => ?_)
    (fun i => ?_)
    (fun i hi => ?_) fun i hi => ?_
  · rw [unlinkSender_priv, (hw.priv k).ipcf, copyMessage_priv]
  · simp only [unlinkSender_proc, (hw.proc i).slotFree, hf]
  · simp only [unlinkSender_proc, (hw.proc i).endpoint, hf]
  · simp only [unlinkSender_proc, (hw.proc i).sendtoE, hf]
  · simp only [unlinkSender_proc, (hw.proc i).getfromE, hf]
  · simp only [unlinkSender_proc, (hw.proc i).sending, hf, Bool.and_eq_true] at hi
    exact hi.1
  · simp only [unlinkSender_proc] at hi
    simpa only [hf] using (hw.proc i).receiving hi

theorem blockReceiver_fields (s : State) (i : Slot) (e : Endpoint) (j : Slot) :
    ((blockReceiver s i e).proc j).getfromE = (if j = i then e else (s.proc j).getfromE) ∧
    ((blockReceiver s i e).proc j).rtsFlags.receiving =
      ((s.proc j).rtsFlags.receiving || decide (j = i)) ∧
    ((blockReceiver s i e).proc j).rtsFlags.slotFree = (s.proc j).rtsFlags.slotFree := by
  by_cases h : j = i <;> simp [blockReceiver, State.modProc_proc, h]

theorem blockReceiver_waitInv (h : WaitInv s)
    (hcaller : (s.proc caller).rtsFlags.slotFree = false) (hself : srcE ≠ (s.proc caller).endpoint)
    (hsrc : srcE = anyE ∨ ∃ i, isokendpt s srcE = some i ∧ (s.proc i).rtsFlags.noEndpoint = false)
    (hsending : (s.proc caller).rtsFlags.sending = true → (s.proc caller).sendtoE = srcE)
    (hsearch : (s.proc caller).rtsFlags.sending = false → searchQueue s caller srcE = some none)
    (hdead : deadlock s .receive caller srcE = .ok chain) (hgroup : chain.groupSize = 0) :
    WaitInv (blockReceiver s caller srcE) := by
  obtain ⟨q, hq⟩ := h.queues
  have hsame := blockReceiver_sameSend s caller srcE
  have hf := blockReceiver_fields s caller srcE
  have hvalid : srcE = anyE ∨ ∃ d, isokendpt s srcE = some d :=
    hsrc.imp_right fun ⟨i, hi, _⟩ => ⟨i, hi⟩
  refine h.grow caller (h.slots.blockReceiver hcaller srcE) ⟨q, hq.congr hsame⟩ (fun k => ?_)
    (fun i => (hf i).2.2) hsame.endpoint (fun i _ => hsame.sendtoE i) (fun i hi => ?_)
    (fun i _ => hsame.sending i) (fun i hi => ?_) hvalid (fun hs => ?_) (fun _ => ?_) ?_
  · simp [blockReceiver]
  · rw [(hf i).1, if_neg hi]
  · simp [hf, hi]
  · rw [hsame.sending] at hs
    rw [hsame.sendtoE, hsending hs]
    refine ⟨rfl, ?_⟩
    rintro rfl
    obtain ⟨d, hd⟩ := h.sendto caller hs
    rw [hsending hs] at hd
    exact isokendpt_ne_any hd rfl
  · rw [(hf caller).1, if_pos rfl]
  · cases hs : (s.proc caller).rtsFlags.sending with
    | true =>
      left
      simp only [waitsFor, Proc.blockedOn, hs, if_true, hsending hs]
    | false =>
      right
      intro x hx
      refine h.not_reaches hcaller hself hx hdead hgroup fun hwait => ?_
      -- a source that sends to the caller is in its queue, where the search would have found it
      refine Bool.eq_false_iff.mpr fun hperm => ?_
      have hxs : (s.proc x).rtsFlags.sending = true := by
        cases hx' : (s.proc x).rtsFlags.sending with
        | true => rfl
        | false => rw [permittedPair, hx'] at hperm; cases hperm
      have hto := (isokendpt_eq_some hwait).2.2
      simp only [Proc.blockedOn, hxs] at hto
      have hmem : x ∈ q caller := (hq.mem_iff h.endpoints x caller).mpr ⟨hxs, hto.symm⟩
      have hnone := hsearch hs
      rw [searchQueue, hq.walk_eq] at hnone
      have hcan := locate_eq_none_iff.mp (Option.some.inj hnone) x hmem
      have hyes :
          canReceive s srcE (s.proc x).endpoint caller (some (s.proc x).sendmsg.type) = true :=
        canReceive_iff.mpr ⟨.inr (isokendpt_eq_some hx).2.2.symm, h.allow ..⟩
      rw [hyes] at hcan
      cases hcan

theorem IpcAct.waitInv (hact : IpcAct caller s o t) (h : WaitInv s)
    (hcaller : (s.proc caller).rtsFlags.slotFree = false)
    (hself : o ≠ some (s.proc caller).endpoint) :
    WaitInv t := by
  have hne : ∀ {e}, o = some e → e ≠ (s.proc caller).endpoint := by
    rintro e rfl rfl
    exact hself rfl
  cases hact with
  | wakes hcall => exact h.wakes hcall.wakes
  | queued hq => exact hq.waitInv h hcaller (hne rfl)
  | taken _ _ hwalk hfree _ htaken => exact htaken.waitInv h hwalk hfree
  | blocked hsrc hsending _ _ hsearch hdead hgroup =>
    exact blockReceiver_waitInv h hcaller (hne rfl) hsrc hsending hsearch hdead hgroup

theorem IpcActs.waitInv (h : IpcActs caller o s t) (hs : WaitInv s)
    (hcaller : (s.proc caller).rtsFlags.slotFree = false)
    (hself : o ≠ some (s.proc caller).endpoint) :
    WaitInv t := by
  induction h with
  | refl => exact hs
  | tail hacts hact ih =>
    have hid := (IpcActs.steady hacts).proc caller
    refine hact.waitInv ih (hid.slotFree.trans hcaller) ?_
    rw [hid.endpoint]
    exact hself

end Gergios.Kernel
