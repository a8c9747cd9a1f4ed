import Gergios.Libsys.Asynsend

/-!
# Interleavings of senders and the kernel

Messages are sent, processed by the kernel in any order and asked for by `asyn_geterror`. An open
entry is never lost. An error that the caller wants to hear of may be.
-/

namespace Gergios.Libsys

open Kernel Function List

inductive SenderOp where
  | send (dst : Endpoint) (msg : Message) (fl : BitVec 32)
  | done (i : Nat) (r : Errno)
  | geterror

def SenderOp.exec (s : Sender) : SenderOp → Option Sender
  | .send dst msg fl => asynsend3 s dst msg fl
  | .done i r => kernelDone s i r
  | .geterror => some (asynGeterror s).1

def SenderStep (s t : Sender) : Prop := ∃ op : SenderOp, op.exec s = some t

def Sender.start (tab : Nat → AsynMsg) : Sender := ⟨tab, 0, 0, false, none⟩

variable {s t : Sender}

theorem start_ok (tab : Nat → AsynMsg) : SenderOk (Sender.start tab) where
  first_le := Nat.le_refl 0
  next_le := Nat.zero_le asynNr
  valid _ hi := (Nat.not_lt_zero _ hi).elim
  passed _ hi := (Nat.not_lt_zero _ hi).elim
  told _ _ h := nomatch h
  fresh _ := rfl

section

variable (hs : SenderOk s)

include hs

theorem SenderOk.update {i : Nat} {e : AsynMsg}
    (hvalid : e.isSet amfValid = (s.msgtable i).isSet amfValid)
    (hdone : completed (s.msgtable i) = true → completed e = true) :
    SenderOk { s with msgtable := update s.msgtable i e } := by
  refine ⟨hs.first_le, hs.next_le, fun j hj => ?_, fun j hj => ?_, hs.told, hs.fresh⟩
  · rcases eq_or_ne j i with rfl | hne
    · simpa [hvalid] using hs.valid j hj
    · simpa [hne] using hs.valid j hj
  · rcases eq_or_ne j i with rfl | hne
    · simpa using hdone (hs.passed j hj)
    · simpa [hne] using hs.passed j hj

theorem kernelDone_ok {i : Nat} {r : Errno} (h : kernelDone s i r = some t) : SenderOk t := by
  unfold kernelDone at h
  split at h
  · cases h
  split at h
  · rename_i hopen
    cases h
    refine hs.update (isSet_finish r) fun hdone => ?_
    obtain ⟨-, -, hopen⟩ := hopen
    rw [completed_eq, Bool.and_eq_true] at hdone
    simp [uncompleted, hdone.2] at hopen
  · cases h

theorem initTable_ok : SenderOk (initTable s) := by
  unfold initTable
  split
  · exact hs
  rename_i hinit
  have hnext := hs.fresh (by simpa using hinit)
  have hfirst : s.firstSlot = 0 := Nat.le_zero.mp (hnext ▸ hs.first_le)
  refine ⟨hs.first_le, hs.next_le, fun i hi => ?_, fun i hi => ?_, hs.told,
    fun h => Bool.noConfusion h⟩
  · simp only [hnext] at hi
    exact (Nat.not_lt_zero i hi).elim
  · simp only [hfirst] at hi
    exact (Nat.not_lt_zero i hi).elim

theorem asynGeterror_ok : SenderOk (asynGeterror s).1 ∧
    ∀ t d m r, asynGeterror s = (t, some (d, m, r)) → ∃ e : AsynMsg,
      e.dst = d ∧ e.msg = m ∧ e.result = r ∧
      (entries s).filter unacked = e :: (entries t).filter unacked ∧
      (entries t).filter uncompleted = (entries s).filter uncompleted := by
  unfold asynGeterror
  split
  · cases hfind : (List.range s.nextSlot).find? fun i => unacked (s.msgtable i) with
    | none => exact ⟨hs, fun t d m r h => by cases h⟩
    | some i =>
      obtain ⟨hun, pre, post, hrange, hpre⟩ := find?_eq_some_iff_append.mp hfind
      refine ⟨hs.update rfl fun h => h, fun t d m r h => ?_⟩
      cases h
      have hnodup : (pre ++ i :: post).Nodup := hrange ▸ nodup_range
      have hi : i ∉ pre ++ post := (nodup_middle.mp hnodup).notMem
      have hkeep : ∀ l : List Nat, l ⊆ pre ++ post →
          l.map (update s.msgtable i { s.msgtable i with result := .ok }) = l.map s.msgtable := by
        intro l hl
        refine map_congr_left fun j hj => update_of_ne ?_ ..
        rintro rfl
        exact hi (hl hj)
      have hnone : (pre.map s.msgtable).filter unacked = [] := by
        rw [filter_eq_nil_iff]
        intro e he
        obtain ⟨j, hj, rfl⟩ := mem_map.mp he
        simpa using hpre j hj
      have hsettled : unacked { s.msgtable i with result := .ok } = false := by simp [unacked]
      have hopen : uncompleted (s.msgtable i) = false := by
        have hmem : i ∈ List.range s.nextSlot := by simp [hrange]
        rw [uncompleted_eq (hs.valid i (List.mem_range.mp hmem)), completed_of_unacked hun]
        rfl
      have hopen' : uncompleted { s.msgtable i with result := .ok } = false := hopen
      refine ⟨s.msgtable i, rfl, rfl, rfl, ?_, ?_⟩
      · simp only [entries, hrange, map_append, map_cons, filter_append,
          filter_cons, update_self, hkeep pre (subset_append_left ..),
          hkeep post (subset_append_right ..), hnone, hun, hsettled, if_true,
          Bool.false_eq_true, if_false, nil_append]
      · simp only [entries, hrange, map_append, map_cons, filter_append,
          filter_cons, update_self, hkeep pre (subset_append_left ..),
          hkeep post (subset_append_right ..), hopen, hopen', Bool.false_eq_true, if_false]
  · exact ⟨hs, fun t d m r h => by cases h⟩

theorem asynsend3_spec {dst : Endpoint} {m : Message} {fl : BitVec 32}
    (h : asynsend3 s dst m fl = some t) : SenderOk t ∧ ∃ new, new.flags = fl ||| amfValid ∧
      new.dst = dst ∧ new.msg = m ∧
      (entries t).filter uncompleted = (entries s).filter uncompleted ++ [new].filter uncompleted ∧
      ((entries t).filter unacked = (entries s).filter unacked ++ [new].filter unacked ↔
        Keeps s) := by
  cases hinit : s.initialized with
  | true => exact asynsend3_ok hs hinit h
  | false =>
    have hnext := hs.fresh hinit
    have htable : initTable s =
        { s with msgtable := markEmpty s.msgtable 0, initialized := true } := by
      rw [initTable, hinit]
      rfl
    have hagain : asynsend3 (initTable s) dst m fl = some t := by
      rw [← h, asynsend3, asynsend3, htable]
      rfl
    obtain ⟨ht, new, hflags, hdst, hmsg, hopen, hiff⟩ :=
      asynsend3_ok (initTable_ok hs) (by rw [htable]) hagain
    have hkeeps : ∀ u : Sender, u.nextSlot = 0 → Keeps u := by
      intro u hu
      refine .inl fun i hi => ?_
      rw [hu] at hi
      exact (Nat.not_lt_zero i hi).elim
    have hentries : entries (initTable s) = entries s := by
      rw [htable, entries, entries, hnext]
      rfl
    rw [hentries] at hopen hiff
    refine ⟨ht, new, hflags, hdst, hmsg, hopen, iff_of_true (hiff.mpr ?_) (hkeeps s hnext)⟩
    exact hkeeps _ (by rw [htable]; exact hnext)

end

theorem senderStep_ok (hstep : SenderStep s t) (hs : SenderOk s) : SenderOk t := by
  obtain ⟨op, hexec⟩ := hstep
  cases op with
  | send dst msg fl => exact (asynsend3_spec hs hexec).1
  | done i r => exact kernelDone_ok hs hexec
  | geterror =>
    cases hexec
    exact (asynGeterror_ok hs).1

/-- Whatever the interleaving, a call leaves the entries that the kernel has not completed in the
table and in order; it keeps the errors that are still to be returned just if `Keeps` holds. -/
theorem asynsend3_keeps {tab : Nat → AsynMsg}
    (hrun : Relation.ReflTransGen SenderStep (Sender.start tab) s) :
    (∀ dst m fl t, asynsend3 s dst m fl = some t → ∃ new : AsynMsg,
      new.flags = fl ||| amfValid ∧ new.dst = dst ∧ new.msg = m ∧
      (entries t).filter uncompleted = (entries s).filter uncompleted ++ [new].filter uncompleted ∧
      ((entries t).filter unacked = (entries s).filter unacked ++ [new].filter unacked ↔ Keeps s)) ∧
    ∀ t d m r, asynGeterror s = (t, some (d, m, r)) → ∃ e : AsynMsg,
      e.dst = d ∧ e.msg = m ∧ e.result = r ∧
      (entries s).filter unacked = e :: (entries t).filter unacked ∧
      (entries t).filter uncompleted = (entries s).filter uncompleted := by
  have hs : SenderOk s := by
    induction hrun with
    | refl => exact start_ok tab
    | tail _ hstep ih => exact senderStep_ok hstep ih
  exact ⟨fun dst m fl t h => (asynsend3_spec hs h).2, (asynGeterror_ok hs).2⟩

def hello : Message := ⟨0, 0, .data []⟩

def zeroTable : Nat → AsynMsg := fun _ => ⟨0, 0, .ok, hello⟩

/-- A flagged message fails while the one before it is still open: its error is kept when the next
message is sent, and `asyn_geterror` then returns it. -/
theorem flagged_error_kept : ∃ s t u new,
    Relation.ReflTransGen SenderStep (Sender.start zeroTable) s ∧ Keeps s ∧
    ((entries s).filter unacked).length = 1 ∧ asynsend3 s 7 hello 0 = some t ∧ new.dst = 7 ∧
    (entries t).filter uncompleted = (entries s).filter uncompleted ++ [new].filter uncompleted ∧
    (entries t).filter unacked = (entries s).filter unacked ++ [new].filter unacked ∧
    asynGeterror t = (u, some (6, hello, .edeadsrcdst)) ∧
    (entries u).filter uncompleted = (entries t).filter uncompleted := by
  obtain ⟨s, t, u, hrun, hkeeps, herror, hsend, hget⟩ : ∃ s t u,
      Relation.ReflTransGen SenderStep (Sender.start zeroTable) s ∧ Keeps s ∧
      ((entries s).filter unacked).length = 1 ∧ asynsend3 s 7 hello 0 = some t ∧
      asynGeterror t = (u, some (6, hello, .edeadsrcdst)) :=
    ⟨_, _, _, .tail (.tail (.single ⟨.send 5 hello 0, rfl⟩) ⟨.send 6 hello amfNotify, rfl⟩)
      ⟨.done 1 .edeadsrcdst, rfl⟩, .inl (by decide), by decide, rfl, rfl⟩
  obtain ⟨new, -, hdst, -, hopen, herrors⟩ := (asynsend3_keeps hrun).1 7 hello 0 t hsend
  obtain ⟨e, -, -, -, -, hrest⟩ :=
    (asynsend3_keeps (hrun.tail ⟨.send 7 hello 0, hsend⟩)).2 u 6 hello .edeadsrcdst hget
  exact ⟨s, t, u, new, hrun, hkeeps, herror, hsend, hdst, hopen, herrors.mpr hkeeps, hget, hrest⟩

/-- The first message is flagged and fails, the second fails as well: the third takes the place of
the first. -/
theorem wanted_error_lost : ∃ s t, Relation.ReflTransGen SenderStep (Sender.start zeroTable) s ∧
    asynsend3 s 7 hello 0 = some t ∧ ((entries s).filter unacked).length = 1 ∧
    (entries t).filter unacked = [] := by
  refine ⟨_, _, .tail (.tail (.tail (.single ⟨.send 5 hello amfNotify, rfl⟩) ⟨.send 6 hello 0, rfl⟩)
    ⟨.done 0 .edeadsrcdst, rfl⟩)
    ⟨.done 1 .edeadsrcdst, rfl⟩, rfl, by decide, by decide⟩

end Gergios.Libsys
