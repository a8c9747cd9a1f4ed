import Gergios.Pm.EventOk

/-!
# The steps of the event facility

Each call, reply and published event keeps the invariant, and none of them fails.
-/

namespace Gergios.Pm

open Lib Function List Nat

variable {n : Nat}

section Steps

variable {s : State n} {pos : Fin n → Option Pos} {rest : Rest n} {i : Fin n}
  {s' : State n} {slot k j : Nat} {event : Event}

theorem Gone.mono (h : Gone s none) (hs : SameSubs s s')
    (hw : ∀ j, (s.subs j).waiting ≤ (s'.subs j).waiting) : Gone s' none := by
  intro j hj _ hm
  exact (h j (hs.nsubs ▸ hj) (by simp) (hs.mask j ▸ hm)).trans_le (hw j)

theorem EventInv.remove (hf : rest.Frames) (hi : Inv s pos) (hs : slot < s.nsubs)
    (hb : ∀ i, Before slot (s.procs i) (pos i)) (hn : s.nested = 0) (hg : Gone s (some slot)) :
    ∃ s' pos', removeSub rest slot s = .ok s' ∧ EventInv s' pos' := by
  obtain ⟨s', pos', hr, hinv, hag, hadj⟩ := removeSub_spec hf hi hs hb
  refine ⟨s', pos', hr, hinv, hag, hadj.nested.trans hn, ?_⟩
  have hshift : Gone (s.shift slot) none := by
    intro j hj _ hm
    rw [shift_subs hj] at hm ⊢
    exact hg _ (up_lt hj) (fun h => up_ne slot j (Option.some.inj h).symm) hm
  exact hshift.mono hadj.subs hadj.waiting

theorem EventInv.resume (hf : rest.Frames) (hi : Inv s pos)
    (hd : pos i = some (.due k)) (hk : (s.procs i).eventsub = some k)
    (ha : ∀ j, j ≠ i → Agrees (s.procs j) (pos j)) (hn : s.nested = 0) (hg : Gone s none) :
    ∃ s' pos', resumeEvent rest i s = .ok s' ∧ EventInv s' pos' := by
  obtain ⟨s', x, hr, hinv, hx, hres⟩ := resumeEvent_spec hf hi hd hk
  refine ⟨s', _, hr, hinv, ?_, hres.nested.trans hn, hg.mono hres.subs hres.waiting⟩
  intro j
  rcases eq_or_ne j i with rfl | hne
  · rw [update_self]
    exact hx
  · rw [update_of_ne hne]
    exact (ha j hne).congr (hres.index j hne)

theorem Inv.replied (hi : Inv s pos) (hp : pos i = some (.waits j)) :
    Inv (s.replied i j) (update pos i (some (.due (j + 1)))) := by
  have hplaced := hi.placed i
  rw [hp] at hplaced
  obtain ⟨hj, hu, hc, ho, hw, event, he, hl⟩ := hplaced
  have hsame : SameSubs s (s.replied i j) :=
    (SameSubs.setSub s j { s.subs j with waiting := (s.subs j).waiting - 1 } rfl rfl).setProc i _
  have hproc : (s.replied i j).procs i = { s.procs i with
      log := { (s.procs i).log with owed := (s.procs i).log.owed.erase (s.subs j).serial } } :=
    update_self ..
  apply hi.move hsame
  · rw [hproc]
    refine ⟨hj, hu, hc, ho, ?_, event, he, ?_⟩
    · simp [hw]
    · obtain ⟨h₁, h₂, h₃, h₄, h₅, h₆⟩ := hl.congr hsame
      exact ⟨h₁, h₂, h₃, h₄, h₅, h₆⟩
  · intro k hk
    have hother : (s.replied i j).procs k = s.procs k := update_of_ne hk _ _
    rw [hother]
    exact (hi.placed k).congr hsame
  · intro k hk
    rcases eq_or_ne k j with rfl | hkj
    · have hcard := card_waiters_erase (x := some (.due (k + 1))) hp (by simp)
      have hcount : ((s.replied i k).subs k).waiting = (s.subs k).waiting - 1 := by
        simp [State.replied, State.setProc, State.setSub]
      rw [hcount, hi.waiting k hk]
      omega
    · have hcount : ((s.replied i j).subs k).waiting = (s.subs k).waiting := by
        simp [State.replied, State.setProc, State.setSub, hkj]
      rw [hcount, hi.waiting k hk, waiters_update_of_ne (by simp [hp, hkj.symm]) (by simp)]

theorem acceptReply_spec (hf : rest.Frames) (h : EventInv s pos) (hp : pos i = some (.waits j)) :
    ∃ s' pos', acceptReply rest i j s = .ok s' ∧ EventInv s' pos' := by
  have hplaced := h.inv.placed i
  have hag := h.agrees i
  rw [hp] at hplaced hag
  have hj := hplaced.1
  have hpos : 0 < (s.subs j).waiting := by
    rw [h.inv.waiting j hj]
    exact Finset.card_pos.mpr ⟨i, mem_waiters.mpr hp⟩
  have hinv := h.inv.replied hp
  have hidx : ∀ k, ((s.replied i j).procs k).eventsub = (s.procs k).eventsub := by
    intro k
    rcases eq_or_ne k i with rfl | hne
    · simp [State.replied, State.setProc]
    · simp [State.replied, State.setProc, State.setSub, hne]
  have hsubs : ∀ k, k ≠ j → (s.replied i j).subs k = s.subs k := by
    intro k hk
    simp [State.replied, State.setProc, State.setSub, hk]
  have hother : ∀ k, k ≠ i → Agrees ((s.replied i j).procs k)
      (update pos i (some (.due (j + 1))) k) := by
    intro k hk
    rw [update_of_ne hk]
    exact (h.agrees k).congr (hidx k)
  rw [acceptReply, check_bind hpos]
  simp only
  split_ifs with hlast
  · have hg : Gone (s.replied i j) (some j) := by
      intro k hk hne hm
      have hkj : k ≠ j := fun he => hne (congrArg some he.symm)
      rw [hsubs k hkj] at hm ⊢
      exact h.gone k hk (by simp) hm
    have hb : ∀ k, Before j ((s.replied i j).procs k)
        (update pos i (some (.due (j + 1))) k) := by
      intro k
      rcases eq_or_ne k i with rfl | hne
      · rw [update_self]
        exact ⟨rfl, (hidx k).trans hag⟩
      · exact (hother k hne).before j
    obtain ⟨s', pos', hr, hev⟩ := EventInv.remove hf hinv hj hb h.nested hg
    exact ⟨s', pos', hr, hev⟩
  · have hg : Gone (s.replied i j) none := by
      intro k hk _ hm
      rcases eq_or_ne k j with rfl | hkj
      · exact Nat.pos_of_ne_zero fun h0 => hlast ⟨hm, h0⟩
      · rw [hsubs k hkj] at hm ⊢
        exact h.gone k hk (by simp) hm
    refine EventInv.resume hf (hinv.setEventsub i (some (j + 1)))
      (update_self ..) (by simp [State.setProc]) ?_ h.nested hg
    intro k hk
    exact (hother k hk).congr (by simp [State.setProc, hk])

theorem reply_spec (hf : rest.Frames) (h : EventInv s pos) (who : Int) (priv : Bool)
    (target : Option (Fin n)) (event : Nat) :
    ∃ s' pos', (EventOp.reply rest who priv target event).perform s = .ok s' ∧
      EventInv s' pos' := by
  simp only [EventOp.perform, doProcEventReply, check_bind h.nested]
  cases priv with
  | false => exact ⟨s, pos, rfl, h⟩
  | true =>
    cases target with
    | none => exact ⟨s, pos, rfl, h⟩
    | some i =>
      simp only [Bool.not_true, Bool.false_eq_true, if_false]
      cases hk : (s.procs i).eventsub with
      | none => exact ⟨s, pos, rfl, h⟩
      | some j =>
        cases he : (s.procs i).event with
        | none => exact ⟨s, pos, rfl, h⟩
        | some e =>
          simp only
          split_ifs with hok
          · have hp := ((h.agrees i).eventsub_iff (h.inv.placed i) j).mp ⟨hok.1, hk⟩
            obtain ⟨s', pos', hs, hi⟩ := acceptReply_spec hf h hp
            refine ⟨s', pos', ?_, hi⟩
            rw [hs]
            rfl
          · exact ⟨s, pos, rfl, h⟩

theorem findSub_lt {endpt : Int} (h : s.findSub endpt = some j) : j < s.nsubs :=
  List.mem_range.mp (mem_of_find?_eq_some h)

theorem unmask_eventsub (p : Proc) (serial mask : Nat) :
    (p.unmask serial mask).eventsub = p.eventsub := by
  unfold Proc.unmask
  split
  · split_ifs <;> rfl
  · rfl

theorem setMask_serial (j mask k : Nat) :
    ((s.setMask j mask).subs k).serial = (s.subs k).serial := by
  rcases eq_or_ne k j with rfl | hne
  · simp [State.setMask, State.setSub]
  · simp [State.setMask, State.setSub, hne]

theorem setMask_waiting (j mask k : Nat) :
    ((s.setMask j mask).subs k).waiting = (s.subs k).waiting := by
  rcases eq_or_ne k j with rfl | hne
  · simp [State.setMask, State.setSub]
  · simp [State.setMask, State.setSub, hne]

theorem LogOk.setMask {log : EventLog} (hl : LogOk s event log k)
    (j mask : Nat) {must : List Nat} (hsub : ∀ x ∈ must, x ∈ log.must)
    (hlost : (s.subs j).serial ∈ must → mask &&& event.bit ≠ 0) :
    LogOk (s.setMask j mask) event { log with must := must } k where
  sorted := hl.sorted
  below := by
    simp only [setMask_serial]
    exact hl.below
  old := hl.old
  past := by
    intro i hi hn hm
    rw [setMask_serial] at hm ⊢
    exact hl.past i hi hn (hsub _ hm)
  future := by
    intro i hi hn hm
    rw [setMask_serial] at hm
    rcases eq_or_ne i j with rfl | hij
    · simpa [State.setMask, State.setSub] using hlost hm
    · have hother : (s.setMask j mask).subs i = s.subs i := by
        simp [State.setMask, State.setSub, hij]
      rw [hother]
      exact hl.future i hi hn (hsub _ hm)
  member := by
    intro x hx
    obtain ⟨i, hi, rfl⟩ := hl.member x (hsub x hx)
    exact ⟨i, hi, (setMask_serial j mask i).symm⟩

theorem Active.setMask {p : Proc} {owed : List Nat} (h : Active s p k owed)
    (j mask : Nat) : Active (s.setMask j mask) (p.unmask (s.subs j).serial mask) k owed := by
  obtain ⟨hu, hc, ho, hw, event, he, hl⟩ := h
  by_cases hlost : mask &&& event.bit = 0
  · have hp : p.unmask (s.subs j).serial mask =
        { p with log := { p.log with must := p.log.must.filter (· ≠ (s.subs j).serial) } } := by
      simp [Proc.unmask, he, hc, hlost]
    rw [hp]
    refine ⟨hu, hc, ho, hw, event, he, hl.setMask j mask ?_ ?_⟩
    · exact fun x hx => (mem_filter.mp hx).1
    · intro hm
      simp at hm
  · have hp : p.unmask (s.subs j).serial mask = p := by
      simp [Proc.unmask, he, hlost]
    rw [hp]
    exact ⟨hu, hc, ho, hw, event, he, hl.setMask j mask (fun _ hx => hx) fun _ => hlost⟩

theorem Inv.setMask (hi : Inv s pos) (j mask : Nat) : Inv (s.setMask j mask) pos := by
  constructor
  · exact hi.bound
  · simp only [setMask_serial]
    exact hi.order
  · simp only [setMask_serial]
    exact hi.fresh
  · simp only [setMask_waiting]
    exact hi.waiting
  · intro i
    have hp := hi.placed i
    change Placed _ ((s.procs i).unmask (s.subs j).serial mask) (pos i)
    revert hp
    rcases pos i with _ | (k | k)
    · rintro ⟨hc, hd⟩
      have hsame : (s.procs i).unmask (s.subs j).serial mask = s.procs i := by
        unfold Proc.unmask
        split
        · rw [if_neg (by simp [hc])]
        · rfl
      rw [hsame]
      exact ⟨hc, hd⟩
    · rintro ⟨hk, ha⟩
      refine ⟨hk, ?_⟩
      rw [setMask_serial]
      exact ha.setMask j mask
    · rintro ⟨hk, ha⟩
      exact ⟨hk, ha.setMask j mask⟩

theorem Inv.addSub (hi : Inv s pos) (ha : ∀ i, Agrees (s.procs i) (pos i)) (endpt : Int)
    (mask : Nat) (hn : s.nsubs ≠ nrSubs) (hw : (s.subs s.nsubs).waiting = 0) :
    Inv (s.addSub endpt mask) pos := by
  have hold : ∀ j, j < s.nsubs → (s.addSub endpt mask).subs j = s.subs j := by
    intro j hj
    simp [State.addSub, State.setSub, hj.ne]
  have hserial : ((s.addSub endpt mask).subs s.nsubs).serial = s.serials := by
    simp [State.addSub, State.setSub]
  have hwaiting : ((s.addSub endpt mask).subs s.nsubs).waiting = 0 := by
    simp [State.addSub, State.setSub, hw]
  have log : ∀ (event : Event) (l : EventLog) (k : Nat), k ≤ s.nsubs → LogOk s event l k →
      LogOk (s.addSub endpt mask) event l k := by
    intro event l k hk hl
    have hmust : s.serials ∉ l.must := by
      intro hm
      obtain ⟨j, hj, he⟩ := hl.member _ hm
      exact absurd (hi.fresh j hj) (by omega)
    constructor
    · exact hl.sorted
    · intro x hx j hj hn
      rcases Nat.lt_succ_iff_lt_or_eq.mp hn with hlt | rfl
      · rw [hold j hlt]
        exact hl.below x hx j hj hlt
      · rw [hserial]
        exact hl.old x hx
    · intro x hx
      exact (hl.old x hx).trans (lt_succ_self _)
    · intro j hj hn hm
      have hlt : j < s.nsubs := by omega
      rw [hold j hlt] at hm ⊢
      exact hl.past j hj hlt hm
    · intro j hj hn hm
      rcases Nat.lt_succ_iff_lt_or_eq.mp hn with hlt | rfl
      · rw [hold j hlt] at hm ⊢
        exact hl.future j hj hlt hm
      · rw [hserial] at hm
        exact absurd hm hmust
    · intro x hx
      obtain ⟨j, hj, rfl⟩ := hl.member x hx
      exact ⟨j, hj.trans (lt_succ_self _), by rw [hold j hj]⟩
  constructor
  · exact Nat.lt_of_le_of_ne hi.bound hn
  · intro i j hij hj
    have hlt : i < s.nsubs := by
      have : (s.addSub endpt mask).nsubs = s.nsubs + 1 := rfl
      omega
    rcases Nat.lt_succ_iff_lt_or_eq.mp hj with hjn | rfl
    · rw [hold i hlt, hold j hjn]
      exact hi.order i j hij hjn
    · rw [hold i hlt, hserial]
      exact hi.fresh i hlt
  · intro j hj
    rcases Nat.lt_succ_iff_lt_or_eq.mp hj with hjn | rfl
    · rw [hold j hjn]
      exact (hi.fresh j hjn).trans (lt_succ_self _)
    · rw [hserial]
      exact lt_succ_self _
  · intro j hj
    rcases Nat.lt_succ_iff_lt_or_eq.mp hj with hjn | rfl
    · rw [hold j hjn]
      exact hi.waiting j hjn
    · rw [hwaiting]
      symm
      apply Finset.card_eq_zero.mpr
      apply Finset.eq_empty_of_forall_notMem
      intro i hm
      have hp := hi.placed i
      rw [mem_waiters.mp hm] at hp
      exact absurd hp.1 (lt_irrefl _)
  · intro i
    have hp := hi.placed i
    have hag := ha i
    revert hp hag
    rcases pos i with _ | (k | k)
    · exact fun hp _ => hp
    · rintro ⟨hk, hu, hc, ho, hwd, e, he, hl⟩ -
      refine ⟨hk.trans (lt_succ_self _), hu, hc, ho, ?_, e, he, log e _ _ hk hl⟩
      rw [hold k hk]
      exact hwd
    · exact fun _ hag => hag.elim

theorem resumeEvent_keeps (hk : rest.Keeps i) {j : Fin n} (hne : j ≠ i)
    (h : resumeEvent rest j s = .ok s') : s'.procs i = s.procs i := by
  simp only [resumeEvent, check_bind_eq_ok] at h
  obtain ⟨-, -, h⟩ := h
  cases he : (s.procs j).eventsub with
  | none =>
    rw [he] at h
    cases h
  | some k =>
    cases hv : (s.procs j).event with
    | none =>
      rw [he, hv] at h
      cases h
    | some event =>
      rw [he, hv] at h
      simp only at h
      cases hx : nextSub s.subs event (s.nsubs - k) k with
      | none =>
        rw [hx] at h
        cases h
        simp only [State.finish, hk event j _ hne]
        exact update_of_ne hne.symm _ _
      | some m =>
        rw [hx] at h
        simp only [State.notify, check_bind_eq_ok] at h
        cases h.2
        exact update_of_ne hne.symm _ _

theorem adjust_keeps (hk : rest.Keeps i) (hc : (s.procs i).eventCall = false)
    {j : Fin n} (h : adjust rest slot s j = .ok s') : s'.procs i = s.procs i := by
  by_cases hin : (!((s.procs j).inUse && (s.procs j).eventCall)) = true
  · simp only [adjust, hin] at h
    cases h
    rfl
  · have hne : j ≠ i := by
      rintro rfl
      simp [hc] at hin
    cases he : (s.procs j).eventsub with
    | none =>
      simp only [adjust, if_neg hin, he] at h
      cases h
    | some k =>
      simp only [adjust, he] at h
      split_ifs at h with h₁ h₂
      · cases hr : resumeEvent rest j { s with nested := s.nested + 1 } with
        | error e =>
          rw [hr] at h
          cases h
        | ok t =>
          rw [hr] at h
          cases h
          have hkept := resumeEvent_keeps hk hne hr
          exact hkept
      · cases h
        exact update_of_ne hne.symm _ _
      · cases h
        rfl

theorem removeSub_keeps (hk : rest.Keeps i) (hc : (s.procs i).eventCall = false)
    (h : removeSub rest slot s = .ok s') : s'.procs i = s.procs i := by
  have hloop : ∀ (is : List (Fin n)) (t : State n), t.procs i = s.procs i →
      is.foldlM (adjust rest slot) t = .ok s' → s'.procs i = s.procs i := by
    intro is
    induction is with
    | nil =>
      intro t ht h
      cases h
      exact ht
    | cons j is ih =>
      intro t ht h
      rw [foldlM_cons] at h
      cases ha : adjust rest slot t j with
      | error e =>
        rw [ha] at h
        cases h
      | ok u =>
        rw [ha] at h
        exact ih u ((adjust_keeps hk (ht ▸ hc) ha).trans ht) h
  refine hloop _ _ ?_ h
  rw [shift_procs, if_neg (by simp [hc])]

theorem dropService_spec (hf : rest.Frames) (h : EventInv s pos)
    (hc : (s.procs i).eventCall = false)
    (hk : (s.procs i).priv = true → (s.procs i).exiting = true →
      s.findSub (s.procs i).endpoint ≠ none → rest.Keeps i) :
    ∃ s' pos', dropService rest i s = .ok s' ∧ EventInv s' pos' ∧ s'.procs i = s.procs i := by
  unfold dropService
  simp only
  split_ifs with hd
  · obtain ⟨hp, he⟩ := Bool.and_eq_true_iff.mp hd
    cases hs : s.findSub (s.procs i).endpoint with
    | none => exact ⟨s, pos, rfl, h, rfl⟩
    | some j =>
      have hg : Gone s (some j) := fun k hk _ => h.gone k hk (by simp)
      obtain ⟨s', pos', hr, hinv⟩ := EventInv.remove hf h.inv (findSub_lt hs)
        (fun k => (h.agrees k).before j) h.nested hg
      exact ⟨s', pos', hr, hinv, removeSub_keeps (hk hp he (by simp [hs])) hc hr⟩
  · exact ⟨s, pos, rfl, h, rfl⟩

theorem Inv.begin (hi : Inv s pos) (hp : pos i = none) (hu : (s.procs i).inUse = true)
    (he : (s.procs i).event = some event) :
    Inv (s.begin i) (update pos i (some (.due 0))) := by
  have hsame : SameSubs s (s.begin i) := ⟨rfl, rfl, fun _ => rfl, fun _ => rfl⟩
  have hplaced := hi.placed i
  rw [hp] at hplaced
  have hinj : ∀ j k, j < s.nsubs → k < s.nsubs → (s.subs j).serial = (s.subs k).serial → j = k := by
    intro j k hj hk heq
    rcases lt_trichotomy j k with hlt | rfl | hgt
    · exact absurd (hi.order j k hlt hk) (by omega)
    · rfl
    · exact absurd (hi.order k j hgt hj) (by omega)
  apply hi.move hsame
  · have hproc : (s.begin i).procs i = { s.procs i with
        eventCall := true
        eventsub := some 0
        log :=
          { published := (s.procs i).log.published + 1
            resumed := (s.procs i).log.resumed
            notified := []
            owed := []
            must := ((List.range s.nsubs).filter fun j =>
              (s.subs j).mask &&& event.bit ≠ 0).map fun j => (s.subs j).serial } } := by
      simp [State.begin, State.setProc, he]
    rw [hproc]
    refine ⟨Nat.zero_le _, hu, rfl, ?_, rfl, event, he, ?_⟩
    · simp [hplaced.2.once]
    · constructor
      · exact List.Pairwise.nil
      · exact fun _ hx => absurd hx not_mem_nil
      · exact fun _ hx => absurd hx not_mem_nil
      · exact fun _ hj => absurd hj (Nat.not_lt_zero _)
      · intro j _ hn hm
        obtain ⟨k, hk, hserial⟩ := mem_map.mp hm
        obtain ⟨hkn, hmask⟩ := mem_filter.mp hk
        obtain rfl := hinj k j (List.mem_range.mp hkn) hn hserial
        have hbit : (s.subs k).mask &&& event.bit ≠ 0 := by simpa using hmask
        exact hbit
      · intro x hx
        obtain ⟨k, hk, rfl⟩ := mem_map.mp hx
        exact ⟨k, List.mem_range.mp (mem_filter.mp hk).1, rfl⟩
  · intro j hj
    have hother : (s.begin i).procs j = s.procs j := update_of_ne hj _ _
    rw [hother]
    exact (hi.placed j).congr hsame
  · intro j hj
    rw [waiters_update_of_ne (by simp [hp]) (by simp)]
    exact hi.waiting j hj

theorem Placed.eq_none {p : Proc} {x : Option Pos} (h : Placed s p x)
    (hc : p.eventCall = false) : x = none := by
  rcases x with _ | (j | k)
  · rfl
  · simp [h.2.eventCall] at hc
  · simp [h.2.eventCall] at hc

theorem publishEvent_spec (hf : rest.Frames) (h : EventInv s pos)
    (hu : (s.procs i).inUse = true) (hc : (s.procs i).eventCall = false)
    (he : (s.procs i).event = some event)
    (hk : (s.procs i).priv = true → (s.procs i).exiting = true →
      s.findSub (s.procs i).endpoint ≠ none → rest.Keeps i) :
    ∃ s' pos', publishEvent rest i s = .ok s' ∧ EventInv s' pos' := by
  have hnone := (h.inv.placed i).eq_none hc
  have hidx := h.agrees i
  rw [hnone] at hidx
  have hcalls : (s.procs i).inUse = true ∧ (!(s.procs i).eventCall) = true := ⟨hu, by simp [hc]⟩
  have hsub : (s.procs i).eventsub = none := hidx
  obtain ⟨t, pos₁, ht, h₁, hproc⟩ := dropService_spec hf h hc hk
  have hn₁ := (h₁.inv.placed i).eq_none (hproc ▸ hc)
  have hinv := h₁.inv.begin hn₁ (hproc ▸ hu) (hproc ▸ he)
  have hres := EventInv.resume hf hinv (update_self ..)
    (by simp [State.begin, State.setProc])
    (by
      intro j hj
      rw [update_of_ne hj]
      exact (h₁.agrees j).congr (by simp [State.begin, State.setProc, hj])) h₁.nested h₁.gone
  obtain ⟨s', pos', hr, hev⟩ := hres
  refine ⟨s', pos', ?_, hev⟩
  rw [publishEvent, check_bind h.nested, check_bind hcalls, check_bind hsub, ht]
  exact hr

theorem subscribe_spec (hf : rest.Frames) (h : EventInv s pos) (who : Int) (priv : Bool)
    (mask : Nat) : ∃ s', (EventOp.subscribe rest who priv mask).perform s = .ok s' ∧
      ((EventOp.subscribe rest who priv mask).Fits s → ∃ pos', EventInv s' pos') ∧
      (¬(EventOp.subscribe rest who priv mask).Fits s → ¬EventOk s') := by
  simp only [EventOp.perform, doProceventmask, EventOp.Fits, State.adds]
  cases priv with
  | false => exact ⟨s, rfl, fun _ => ⟨pos, h⟩, fun hn => absurd (fun ha => by simp at ha) hn⟩
  | true =>
    simp only [Bool.not_true, Bool.false_eq_true, if_false, true_and]
    cases hs : s.findSub who with
    | some j =>
      have hj := findSub_lt hs
      simp only
      split_ifs with hr
      · have hg : Gone s (some j) := fun k hk _ => h.gone k hk (by simp)
        obtain ⟨s', pos', hr, hinv⟩ := EventInv.remove hf h.inv hj
          (fun k => (h.agrees k).before j) h.nested hg
        refine ⟨s', ?_, fun _ => ⟨pos', hinv⟩, fun hn => absurd (fun ha => by simp at ha) hn⟩
        rw [hr]
        rfl
      · refine ⟨_, rfl, fun _ => ⟨pos, h.inv.setMask j mask, ?_, h.nested, ?_⟩,
          fun hn => absurd (fun ha => by simp at ha) hn⟩
        · intro i
          exact (h.agrees i).congr (unmask_eventsub _ _ _)
        · intro k hk _ hm
          rcases eq_or_ne k j with rfl | hne
          · simp only [State.setMask, State.setSub, update_self] at hm ⊢
            exact Nat.pos_of_ne_zero fun h0 => hr ⟨hm, h0⟩
          · simp only [State.setMask, State.setSub, update_of_ne hne] at hm ⊢
            exact h.gone k hk (by simp) hm
    | none =>
      simp only
      split_ifs with hm hn
      · exact ⟨s, rfl, fun _ => ⟨pos, h⟩, fun hn => absurd (fun ha => absurd hm ha.2.1) hn⟩
      · exact ⟨s, rfl, fun _ => ⟨pos, h⟩, fun hx => absurd (fun ha => absurd hn ha.2.2) hx⟩
      · refine ⟨_, rfl, ?_, ?_⟩
        · intro hw
          refine ⟨pos, h.inv.addSub h.agrees who mask hn (hw ⟨trivial, hm, hn⟩), h.agrees,
            h.nested, ?_⟩
          intro k hk _ hk0
          rcases Nat.lt_succ_iff_lt_or_eq.mp hk with hlt | rfl
          · simp only [State.addSub, State.setSub, update_of_ne hlt.ne] at hk0 ⊢
            exact h.gone k hlt (by simp) hk0
          · simp only [State.addSub, State.setSub, update_self] at hk0
            exact absurd hk0 hm
        · intro hw hok
          have hcount := hok.waiting s.nsubs (lt_succ_self _)
          have hempty : (s.addSub who mask).waitingFor s.nsubs = ∅ := by
            apply Finset.eq_empty_of_forall_notMem
            intro i hi
            have hmem : i ∈ s.waitingFor s.nsubs := hi
            rw [h.waitingFor, mem_waiters] at hmem
            have hp := h.inv.placed i
            rw [hmem] at hp
            exact absurd hp.1 (lt_irrefl _)
          rw [hempty] at hcount
          apply hw
          intro _
          simpa [State.addSub, State.setSub] using hcount

theorem Elsewhere.eventInv {ps : Fin n → Proc} (he : Elsewhere s.procs ps) (h : EventInv s pos) :
    EventInv { s with procs := ps } pos where
  inv :=
    { bound := h.inv.bound
      order := h.inv.order
      fresh := h.inv.fresh
      waiting := h.inv.waiting
      placed := fun i => by
        have hsame : SameSubs s { s with procs := ps } := ⟨rfl, rfl, fun _ => rfl, fun _ => rfl⟩
        exact (he.placed (h.inv.placed i)).congr hsame }
  agrees i := (h.agrees i).congr (he.eventsub i)
  nested := h.nested
  gone := h.gone

theorem unpause_elsewhere (hc : (s.procs i).eventCall = false) :
    Elsewhere s.procs (s.unpause i).procs := by
  intro j
  rcases eq_or_ne j i with rfl | hne
  · simp [State.unpause, State.setProc, hc]
  · have hproc : (s.unpause i).procs j = s.procs j := update_of_ne hne _ _
    rw [hproc]
    split_ifs with hj
    · rfl
    · exact ⟨by simpa using hj, rfl, rfl⟩

theorem EventInv.step (h : EventInv s pos) (op : EventOp n) (ha : op.Allowed s)
    (hfit : op.Fits s) : ∃ s' pos', op.perform s = .ok s' ∧ EventInv s' pos' := by
  cases op with
  | subscribe rest who priv mask =>
    obtain ⟨s', hs, hok, -⟩ := subscribe_spec ha h who priv mask
    obtain ⟨pos', hi⟩ := hok hfit
    exact ⟨s', pos', hs, hi⟩
  | reply rest who priv target event => exact reply_spec ha h who priv target event
  | exited rest i =>
    obtain ⟨hf, hu, hc, hx⟩ := ha
    have he : (s.procs i).event = some .exit := by simp [Proc.event, hx]
    exact publishEvent_spec hf h hu hc he fun hp _ => hfit hp
  | unpaused rest i =>
    obtain ⟨hf, hu, hc, hx⟩ := ha
    have ht : EventInv (s.unpause i) pos := (unpause_elsewhere hc).eventInv h
    have hproc : (s.unpause i).procs i = { s.procs i with unpaused := true } :=
      update_self ..
    have hu' : ((s.unpause i).procs i).inUse = true := by rw [hproc]; exact hu
    have hc' : ((s.unpause i).procs i).eventCall = false := by rw [hproc]; exact hc
    have hx' : ((s.unpause i).procs i).exiting = false := by rw [hproc]; exact hx
    have he : ((s.unpause i).procs i).event = some .signal := by
      rw [hproc]
      simp [Proc.event, hx]
    apply publishEvent_spec hf ht hu' hc' he
    intro _ hexit
    rw [hx'] at hexit
    cases hexit
  | other ps => exact ⟨_, pos, rfl, ha.eventInv h⟩

end Steps

end Gergios.Pm
