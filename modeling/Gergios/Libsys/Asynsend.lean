import Gergios.Lib.Bits
import Gergios.Kernel.Ipc.Async

/-!
# The table of asynchronous messages of a process

`asynsend3` keeps the messages that the kernel has not dealt with yet in a table, which it announces
to the kernel with `SENDA`. The window from `first_slot` to `next_slot` slides over the table; when
the end is reached the messages are moved to the beginning. `asyn_geterror` returns the messages
that failed, if they were flagged.
-/

namespace Gergios.Libsys

open Kernel Lib Function List

def asynNr : Nat := 2 * nrProcs

/-- The static variables of `asynsend.c` and the part of the table that the kernel has been told
about. -/
structure Sender where
  msgtable : Nat → AsynMsg
  firstSlot : Nat
  nextSlot : Nat
  initialized : Bool
  announced : Option (Nat × Nat)

variable (e : AsynMsg)

def completed : Bool := e.flags &&& (amfValid ||| amfDone) == amfValid ||| amfDone

def flagged : Bool := e.isSet (amfNotify ||| amfNotifyErr)

def unacked : Bool := completed e && e.result != .ok && flagged e

def uncompleted : Bool := e.isSet amfValid && !e.isSet amfDone

/-- The loop that updates `first_slot`, for `n` slots; `needack` is overwritten by each error. -/
def skipCompleted (tab : Nat → AsynMsg) : Nat → Nat → Bool → Nat × Bool
  | 0, first, needack => (first, needack)
  | n + 1, first, needack =>
    if completed (tab first) then
      skipCompleted tab n (first + 1)
        (if (tab first).result ≠ .ok then flagged (tab first) else needack)
    else if (tab first).flags ≠ 0 then (first, needack)
    else skipCompleted tab n (first + 1) needack

def inUse : Bool :=
  e.flags != 0 && !(completed e && (e.result == .ok || !flagged e))

/-- The loop that moves them, for `n` slots from `src` on, and the next slot to move to. -/
def moveInUse : Nat → Nat → Nat → (Nat → AsynMsg) → Nat × (Nat → AsynMsg)
  | 0, _, dst, tab => (dst, tab)
  | n + 1, src, dst, tab =>
    if inUse (tab src) then moveInUse n (src + 1) (dst + 1) (update tab dst (tab src))
    else moveInUse n (src + 1) dst tab

def markEmpty (tab : Nat → AsynMsg) (first : Nat) : Nat → AsynMsg := fun i =>
  if first ≤ i ∧ i < asynNr then { tab i with flags := 0 } else tab i

variable (s : Sender)

def sendaReload : Sender :=
  { s with announced := some (s.firstSlot, s.nextSlot - s.firstSlot) }

/-- Room for one more message; `none` is the panic when there is none. -/
def makeRoom : Option Sender :=
  if s.nextSlot < asynNr then some s
  else
    let (dst, tab) := moveInUse (s.nextSlot - s.firstSlot) s.firstSlot 0 s.msgtable
    if dst < asynNr then
      some
        { s with msgtable := markEmpty tab dst, firstSlot := 0, nextSlot := dst, announced := none }
    else none

def initTable : Sender :=
  if s.initialized then s
  else { s with msgtable := markEmpty s.msgtable 0, initialized := true }

/-- The window is moved past what is completed, and back to the beginning if that is everything. -/
def updateFirst : Sender :=
  let (first, needack) := skipCompleted s.msgtable (s.nextSlot - s.firstSlot) s.firstSlot false
  if s.nextSlot ≤ first ∧ needack = false then { s with firstSlot := 0, nextSlot := 0 }
  else { s with firstSlot := first }

def putMsg (dst : Endpoint) (msg : Message) (fl : BitVec 32) : Sender :=
  { s with
    msgtable := update s.msgtable s.nextSlot
      { flags := fl ||| amfValid, dst := dst, result := (s.msgtable s.nextSlot).result, msg := msg }
    nextSlot := s.nextSlot + 1 }

def asynsend3 (dst : Endpoint) (msg : Message) (fl : BitVec 32) : Option Sender :=
  (makeRoom (updateFirst (initTable s))).map fun s => sendaReload (putMsg s dst msg fl)

def asynGeterror : Sender × Option (Endpoint × Message × Errno) :=
  if s.initialized then
    match (List.range s.nextSlot).find? fun i => unacked (s.msgtable i) with
    | none => (s, none)
    | some i =>
      let e := s.msgtable i
      ({ s with msgtable := update s.msgtable i { e with result := .ok } },
        some (e.dst, e.msg, e.result))
  else (s, none)

def kernelDone (i : Nat) (r : Errno) : Option Sender :=
  match s.announced with
  | none => none
  | some (start, len) =>
    if start ≤ i ∧ i < start + len ∧ uncompleted (s.msgtable i) then
      some { s with msgtable := update s.msgtable i ((s.msgtable i).finish r) }
    else none

/-! ## Entries -/

section Flags

variable {e : AsynMsg} {i : Nat}

theorem isSet_bit (hi : i < 32) : e.isSet (1#32 <<< i) = e.flags.getLsbD i := by
  rw [AsynMsg.isSet, Bool.eq_iff_iff, bne_iff_ne, ne_eq, and_bit_eq_zero_iff hi, Bool.not_eq_false]

theorem isSet_amfValid : e.isSet amfValid = e.flags.getLsbD 0 := isSet_bit (i := 0) (by decide)

theorem isSet_amfDone : e.isSet amfDone = e.flags.getLsbD 1 := isSet_bit (i := 1) (by decide)

theorem completed_eq : completed e = (e.isSet amfValid && e.isSet amfDone) := by
  have hvalid : e.flags &&& amfValid = if e.flags.getLsbD 0 then amfValid else 0 :=
    and_bit (i := 0) (by decide) e.flags
  have hdone : e.flags &&& amfDone = if e.flags.getLsbD 1 then amfDone else 0 :=
    and_bit (i := 1) (by decide) e.flags
  rw [completed, isSet_amfValid, isSet_amfDone, BitVec.and_or_distrib_left, hvalid, hdone]
  cases e.flags.getLsbD 0 <;> cases e.flags.getLsbD 1 <;> rfl

theorem uncompleted_eq (hvalid : e.isSet amfValid = true) : uncompleted e = !completed e := by
  rw [completed_eq, uncompleted, hvalid]
  simp

theorem flags_ne_zero (hvalid : e.isSet amfValid = true) : e.flags ≠ 0 := by
  intro h0
  rw [isSet_amfValid, h0] at hvalid
  simp at hvalid

theorem isSet_finish (r : Errno) : (e.finish r).isSet amfValid = e.isSet amfValid := by
  rw [isSet_amfValid, isSet_amfValid, AsynMsg.finish]
  simp [amfDone]

theorem isSet_new (fl : BitVec 32) {dst : Endpoint} {r : Errno} {m : Message} :
    AsynMsg.isSet ⟨fl ||| amfValid, dst, r, m⟩ amfValid = true := by
  rw [isSet_amfValid]
  simp [amfValid]

theorem inUse_eq (hvalid : e.isSet amfValid = true) : inUse e = (uncompleted e || unacked e) := by
  rw [uncompleted_eq hvalid, inUse, unacked, bne_iff_ne.mpr (flags_ne_zero hvalid)]
  cases completed e <;> cases h : e.result == .ok <;> cases flagged e <;> simp_all

end Flags

/-! ## The loops -/

section Loops

variable {tab : Nat → AsynMsg} {n first : Nat}

def LastFlagged (tab : Nat → AsynMsg) (lo hi : Nat) : Prop :=
  ∃ i, lo ≤ i ∧ i < hi ∧ (tab i).result ≠ .ok ∧ flagged (tab i) = true ∧
    ∀ j, i < j → j < hi → (tab j).result = .ok

theorem lastFlagged_iff {hi : Nat} (hlt : first < hi) : LastFlagged tab first hi ↔
    LastFlagged tab (first + 1) hi ∨ (tab first).result ≠ .ok ∧ flagged (tab first) = true ∧
      ∀ j, first + 1 ≤ j → j < hi → (tab j).result = .ok := by
  constructor
  · rintro ⟨i, hi, hlt', herr, hflag, hlast⟩
    rcases eq_or_ne i first with rfl | hne
    · exact .inr ⟨herr, hflag, hlast⟩
    · exact .inl ⟨i, by omega, hlt', herr, hflag, hlast⟩
  · rintro (⟨i, hi, hrest⟩ | ⟨herr, hflag, hlast⟩)
    · exact ⟨i, by omega, hrest⟩
    · exact ⟨first, Nat.le_refl _, hlt, herr, hflag, hlast⟩

theorem skipCompleted_spec (needack : Bool)
    (hvalid : ∀ i, first ≤ i → i < first + n → (tab i).flags ≠ 0) :
    ∃ f a, skipCompleted tab n first needack = (f, a) ∧ first ≤ f ∧ f ≤ first + n ∧
      (∀ i, first ≤ i → i < f → completed (tab i) = true) ∧
      (f < first + n → completed (tab f) = false) ∧ (a = true ↔ LastFlagged tab first f ∨
        needack = true ∧ ∀ j, first ≤ j → j < f → (tab j).result = .ok) := by
  induction n generalizing first needack with
  | zero =>
    refine ⟨first, needack, rfl, Nat.le_refl _, Nat.le_refl _, fun i h h' => ?_, fun h => ?_, ?_⟩
    · omega
    · omega
    · constructor
      · exact fun h => .inr ⟨h, fun j hj hj' => by omega⟩
      · rintro (⟨i, h, h', -⟩ | ⟨h, -⟩)
        · omega
        · exact h
  | succ n ih =>
    rw [skipCompleted]
    by_cases hdone : completed (tab first) = true
    · rw [if_pos hdone]
      have hvalid' : ∀ i, first + 1 ≤ i → i < first + 1 + n → (tab i).flags ≠ 0 :=
        fun i h h' => hvalid i (by omega) (by omega)
      obtain ⟨f, a, heq, hle, hle', hall, hstop, hack⟩ := ih
        (if (tab first).result ≠ .ok then flagged (tab first) else needack) hvalid'
      refine ⟨f, a, heq, by omega, by omega, fun i h h' => ?_, fun h => hstop (by omega), ?_⟩
      · rcases eq_or_ne i first with rfl | hne
        · exact hdone
        · exact hall i (by omega) h'
      · have hrest : (∀ j, first ≤ j → j < f → (tab j).result = .ok) ↔ (tab first).result = .ok ∧
            ∀ j, first + 1 ≤ j → j < f → (tab j).result = .ok := by
          constructor
          · exact fun h => ⟨h first (Nat.le_refl _) hle, fun j hj => h j (by omega)⟩
          · rintro ⟨h, h'⟩ j hj hjf
            rcases eq_or_ne j first with rfl | hne
            · exact h
            · exact h' j (by omega) hjf
        rw [hack, lastFlagged_iff hle, hrest]
        by_cases hok : (tab first).result = .ok
        · simp [hok]
        · simp [hok]
    · rw [if_neg hdone, if_pos (hvalid first (Nat.le_refl _) (by omega))]
      refine ⟨first, needack, rfl, Nat.le_refl _, by omega, fun i h h' => by omega,
        fun _ => by simpa using hdone, ?_⟩
      constructor
      · exact fun h => .inr ⟨h, fun j hj hj' => by omega⟩
      · rintro (⟨i, h, h', -⟩ | ⟨h, -⟩)
        · omega
        · exact h

theorem moveInUse_spec (tab : Nat → AsynMsg) (n : Nat) {src dst : Nat} (hle : dst ≤ src) : ∃ d t,
    moveInUse n src dst tab = (d, t) ∧ (List.range d).map t =
      (List.range dst).map tab ++ ((range' src n).map tab).filter inUse := by
  induction n generalizing src dst tab with
  | zero => exact ⟨dst, tab, rfl, by simp⟩
  | succ n ih =>
    rw [moveInUse]
    have hrange : range' src (n + 1) = src :: range' (src + 1) n := range'_succ ..
    by_cases huse : inUse (tab src) = true
    · rw [if_pos huse]
      obtain ⟨d, t, heq, hmap⟩ := ih _ (Nat.succ_le_succ hle)
      refine ⟨d, t, heq, ?_⟩
      have hold : (List.range dst).map (update tab dst (tab src)) = (List.range dst).map tab := by
        refine map_congr_left fun i hi => update_of_ne ?_ ..
        exact Nat.ne_of_lt (List.mem_range.mp hi)
      have hnew : (range' (src + 1) n).map (update tab dst (tab src)) =
          (range' (src + 1) n).map tab := by
        refine map_congr_left fun i hi => update_of_ne ?_ ..
        have := mem_range'_1.mp hi
        omega
      rw [hmap, hrange, range_succ, map_append, hold, hnew, map_singleton,
        update_self, map_cons, filter_cons_of_pos huse, append_assoc,
        singleton_append]
    · rw [if_neg huse]
      obtain ⟨d, t, heq, hmap⟩ := ih tab (Nat.le_succ_of_le hle)
      refine ⟨d, t, heq, ?_⟩
      rw [hmap, hrange, map_cons, filter_cons_of_neg huse]

end Loops

/-! ## The calls -/

section Calls

variable {s t : Sender} {dst : Endpoint} {m : Message} {fl : BitVec 32}

def entries (s : Sender) : List AsynMsg := (List.range s.nextSlot).map s.msgtable

structure SenderOk (s : Sender) : Prop where
  first_le : s.firstSlot ≤ s.nextSlot
  next_le : s.nextSlot ≤ asynNr
  valid : ∀ i < s.nextSlot, (s.msgtable i).isSet amfValid = true
  passed : ∀ i < s.firstSlot, completed (s.msgtable i) = true
  told : ∀ start len, s.announced = some (start, len) → start + len ≤ s.nextSlot
  fresh : s.initialized = false → s.nextSlot = 0

structure FirstOpen (s : Sender) (f : Nat) : Prop where
  le : f ≤ s.nextSlot
  before : ∀ i < f, completed (s.msgtable i) = true
  here : f < s.nextSlot → completed (s.msgtable f) = false

theorem updateFirst_cases (hs : SenderOk s) : ∃ f, FirstOpen s f ∧
    (updateFirst s = { s with firstSlot := 0, nextSlot := 0 } ∧ f = s.nextSlot ∧
        ¬LastFlagged s.msgtable s.firstSlot s.nextSlot ∨
      updateFirst s = { s with firstSlot := f } ∧
        (f = s.nextSlot → LastFlagged s.msgtable s.firstSlot s.nextSlot)) := by
  have hle := hs.first_le
  have hvalid : ∀ i, s.firstSlot ≤ i → i < s.firstSlot + (s.nextSlot - s.firstSlot) →
      (s.msgtable i).flags ≠ 0 := fun i _ hi => flags_ne_zero (hs.valid i (by omega))
  obtain ⟨f, a, heq, hfirst, hnext, hall, hstop, hack⟩ := skipCompleted_spec false hvalid
  rw [Nat.add_sub_cancel' hle] at hnext hstop
  have hopen : FirstOpen s f := by
    refine ⟨hnext, fun i hi => ?_, hstop⟩
    rcases Nat.lt_or_ge i s.firstSlot with h | h
    · exact hs.passed i h
    · exact hall i h hi
  simp only [Bool.false_eq_true, false_and, or_false] at hack
  refine ⟨f, hopen, ?_⟩
  simp only [updateFirst, heq]
  by_cases hreset : s.nextSlot ≤ f ∧ a = false
  · obtain rfl : f = s.nextSlot := Nat.le_antisymm hnext hreset.1
    rw [if_pos hreset]
    refine .inl ⟨rfl, rfl, fun hlast => ?_⟩
    rw [hack.mpr hlast] at hreset
    exact Bool.noConfusion hreset.2
  · rw [if_neg hreset]
    refine .inr ⟨rfl, ?_⟩
    rintro rfl
    refine hack.mp ?_
    simpa using hreset

theorem entries_split {f : Nat} (hf : f ≤ s.nextSlot) : entries s =
    (List.range f).map s.msgtable ++ (range' f (s.nextSlot - f)).map s.msgtable := by
  rw [← map_append, entries, range_eq_range', range_eq_range']
  have happend := range'_append_1 (s := 0) (m := f) (n := s.nextSlot - f)
  rw [Nat.zero_add, Nat.add_sub_cancel' hf] at happend
  rw [happend]

theorem makeRoom_cases {u : Sender} (hroom : makeRoom s = some u) :
    u.nextSlot < asynNr ∧ u.initialized = s.initialized ∧ (s.nextSlot < asynNr ∧ u = s ∨
      asynNr ≤ s.nextSlot ∧ u.firstSlot = 0 ∧ entries u =
        ((range' s.firstSlot (s.nextSlot - s.firstSlot)).map s.msgtable).filter inUse) := by
  unfold makeRoom at hroom
  split at hroom
  · rename_i hlt
    cases hroom
    exact ⟨hlt, rfl, .inl ⟨hlt, rfl⟩⟩
  · rename_i hfull
    obtain ⟨d, t, heq, hmap⟩ := moveInUse_spec s.msgtable (s.nextSlot - s.firstSlot)
      (Nat.zero_le s.firstSlot)
    simp only [heq] at hroom
    split at hroom
    · rename_i hd
      cases hroom
      refine ⟨hd, rfl, .inr ⟨Nat.le_of_not_lt hfull, rfl, ?_⟩⟩
      have hkeep : (List.range d).map (markEmpty t d) = (List.range d).map t := by
        refine map_congr_left fun i hi => if_neg fun h => ?_
        have := List.mem_range.mp hi
        omega
      simpa [entries, hkeep] using hmap
    · cases hroom

theorem entries_putMsg (s : Sender) (dst : Endpoint) (m : Message) (fl : BitVec 32) :
    entries (putMsg s dst m fl) = entries s ++
      [⟨fl ||| amfValid, dst, (s.msgtable s.nextSlot).result, m⟩] := by
  simp only [entries, putMsg, range_succ, map_append, map_singleton, update_self]
  congr 1
  refine map_congr_left fun i hi => update_of_ne ?_ ..
  exact Nat.ne_of_lt (List.mem_range.mp hi)

theorem forall_entries {p : AsynMsg → Prop} :
    (∀ i < s.nextSlot, p (s.msgtable i)) ↔ ∀ e ∈ entries s, p e := by
  simp [entries]

theorem putMsg_ok (hlt : s.nextSlot < asynNr) (hle : s.firstSlot ≤ s.nextSlot)
    (hvalid : ∀ i < s.nextSlot, (s.msgtable i).isSet amfValid = true)
    (hpassed : ∀ i < s.firstSlot, completed (s.msgtable i) = true)
    (hinit : s.initialized = true) : SenderOk (sendaReload (putMsg s dst m fl)) := by
  have hold : ∀ i < s.nextSlot, (putMsg s dst m fl).msgtable i = s.msgtable i := fun i hi =>
    update_of_ne (Nat.ne_of_lt hi) ..
  refine ⟨Nat.le_succ_of_le hle, hlt, fun i hi => ?_, fun i hi => ?_, ?_, fun hfalse => ?_⟩
  · rcases Nat.lt_succ_iff_lt_or_eq.mp hi with hi | rfl
    · exact (congrArg (AsynMsg.isSet · amfValid) (hold i hi)).trans (hvalid i hi)
    · simp only [sendaReload, putMsg, update_self]
      exact isSet_new fl
  · exact (congrArg completed (hold i (Nat.lt_of_lt_of_le hi hle))).trans (hpassed i hi)
  · rintro start len htold
    cases htold
    simp only [sendaReload, putMsg]
    omega
  · exact Bool.noConfusion (hinit.symm.trans hfalse)

theorem asynsend3_cases (hs : SenderOk s) (hinit : s.initialized = true)
    (h : asynsend3 s dst m fl = some t) : SenderOk t ∧ ∃ f new l, FirstOpen s f ∧
      new.flags = fl ||| amfValid ∧ new.dst = dst ∧ new.msg = m ∧ entries t = l ++ [new] ∧
      (l = [] ∧ f = s.nextSlot ∧ ¬LastFlagged s.msgtable s.firstSlot s.nextSlot ∨
        (f = s.nextSlot → LastFlagged s.msgtable s.firstSlot s.nextSlot) ∧
          (s.nextSlot < asynNr ∧ l = entries s ∨ asynNr ≤ s.nextSlot ∧
            l = ((range' f (s.nextSlot - f)).map s.msgtable).filter inUse)) := by
  have hsame : initTable s = s := if_pos hinit
  rw [asynsend3, hsame] at h
  obtain ⟨u, hroom, rfl⟩ := Option.map_eq_some_iff.mp h
  obtain ⟨f, hopen, hcases⟩ := updateFirst_cases hs
  obtain ⟨hlt, hinit', hroom'⟩ := makeRoom_cases hroom
  have hput := entries_putMsg u dst m fl
  have hnr : 0 < asynNr := by decide
  rcases hcases with ⟨hupd, hf, hlast⟩ | ⟨hupd, hlast⟩
  · rw [hupd] at hroom' hinit'
    obtain ⟨-, rfl⟩ | ⟨hfull, -⟩ := hroom'
    · refine ⟨putMsg_ok hlt (Nat.le_refl _) ?_ ?_ (hinit'.trans hinit), f, _, [], hopen, rfl, rfl,
        rfl, hput, .inl ⟨rfl, hf, hlast⟩⟩ <;> exact fun i hi => (Nat.not_lt_zero i hi).elim
    · exact (Nat.not_le.mpr hnr hfull).elim
  · rw [hupd] at hroom' hinit'
    obtain ⟨hspace, rfl⟩ | ⟨hfull, hfirst, hmoved⟩ := hroom'
    · exact ⟨putMsg_ok hlt hopen.le hs.valid hopen.before (hinit'.trans hinit), f, _, entries s,
        hopen, rfl, rfl, rfl, hput, .inr ⟨hlast, .inl ⟨hspace, rfl⟩⟩⟩
    · refine ⟨putMsg_ok hlt ?_ ?_ ?_ (hinit'.trans hinit), f, _, _, hopen, rfl, rfl, rfl,
        hmoved ▸ hput, .inr ⟨hlast, .inr ⟨hfull, rfl⟩⟩⟩
      · rw [hfirst]
        exact Nat.zero_le _
      · rw [forall_entries (p := fun e => e.isSet amfValid = true), hmoved]
        intro e he
        obtain ⟨i, hi, rfl⟩ := mem_map.mp (mem_of_mem_filter he)
        have hrange := mem_range'_1.mp hi
        simp only at hrange
        exact hs.valid i (by omega)
      · rw [hfirst]
        exact fun i hi => (Nat.not_lt_zero i hi).elim

/-- No error that has to be returned comes before the first open entry, or there is room for
another message while an entry is open or the last error of the window is one to be returned. -/
def Keeps (s : Sender) : Prop :=
  (∀ i < s.nextSlot, unacked (s.msgtable i) = true → ∃ j < i, uncompleted (s.msgtable j) = true) ∨
  s.nextSlot < asynNr ∧ ((∃ i < s.nextSlot, uncompleted (s.msgtable i) = true) ∨
    LastFlagged s.msgtable s.firstSlot s.nextSlot)

theorem completed_of_unacked {e : AsynMsg} (h : unacked e = true) : completed e = true := by
  unfold unacked at h
  simp only [Bool.and_eq_true] at h
  exact h.1.1

section FirstOpen

variable {f : Nat} (hs : SenderOk s) (hf : FirstOpen s f)
include hs hf

theorem FirstOpen.not_uncompleted {i : Nat} (hi : i < f) : uncompleted (s.msgtable i) = false := by
  rw [uncompleted_eq (hs.valid i (Nat.lt_of_lt_of_le hi hf.le)), hf.before i hi]
  rfl

theorem FirstOpen.uncompleted_iff : (∃ i < s.nextSlot, uncompleted (s.msgtable i) = true) ↔
    f < s.nextSlot := by
  constructor
  · rintro ⟨i, hi, hopen⟩
    rcases Nat.lt_or_ge i f with h | h
    · rw [hf.not_uncompleted hs h] at hopen
      cases hopen
    · omega
  · intro h
    refine ⟨f, h, ?_⟩
    rw [uncompleted_eq (hs.valid f h), hf.here h]
    rfl

theorem FirstOpen.filter_uncompleted : (entries s).filter uncompleted =
    ((range' f (s.nextSlot - f)).map s.msgtable).filter uncompleted := by
  rw [entries_split hf.le, filter_append]
  have hnil : ((List.range f).map s.msgtable).filter uncompleted = [] := by
    rw [filter_eq_nil_iff]
    intro e he
    obtain ⟨i, hi, rfl⟩ := mem_map.mp he
    rw [hf.not_uncompleted hs (List.mem_range.mp hi)]
    exact Bool.false_ne_true
  rw [hnil, nil_append]

theorem FirstOpen.unacked_iff : ((List.range f).map s.msgtable).filter unacked = [] ↔
    ∀ i < s.nextSlot, unacked (s.msgtable i) = true →
      ∃ j < i, uncompleted (s.msgtable j) = true := by
  rw [filter_eq_nil_iff]
  simp only [mem_map, List.mem_range, forall_exists_index, and_imp, forall_apply_eq_imp_iff₂]
  constructor
  · intro hnone i hi hun
    have hle : f ≤ i := Nat.le_of_not_lt fun h => hnone i h hun
    have hlt : f < s.nextSlot := Nat.lt_of_le_of_lt hle hi
    have hhere := hf.here hlt
    refine ⟨f, Nat.lt_of_le_of_ne hle ?_, ?_⟩
    · rintro rfl
      rw [completed_of_unacked hun] at hhere
      cases hhere
    · rw [uncompleted_eq (hs.valid f hlt), hhere]
      rfl
  · intro hall i hi hun
    obtain ⟨j, hj, hopen⟩ := hall i (Nat.lt_of_lt_of_le hi hf.le) hun
    rw [hf.not_uncompleted hs (Nat.lt_trans hj hi)] at hopen
    cases hopen

end FirstOpen

theorem filter_inUse {p : AsynMsg → Bool} {l : List AsynMsg}
    (hvalid : ∀ e ∈ l, e.isSet amfValid = true)
    (hp : ∀ e, p e = true → uncompleted e = true ∨ unacked e = true) :
    (l.filter inUse).filter p = l.filter p := by
  rw [filter_filter]
  refine filter_congr fun e he => ?_
  rw [inUse_eq (hvalid e he)]
  cases hpe : p e with
  | false => rfl
  | true => rcases hp e hpe with h | h <;> simp [h]

theorem asynsend3_ok (hs : SenderOk s) (hinit : s.initialized = true)
    (h : asynsend3 s dst m fl = some t) : SenderOk t ∧ ∃ new, new.flags = fl ||| amfValid ∧
      new.dst = dst ∧ new.msg = m ∧
      (entries t).filter uncompleted = (entries s).filter uncompleted ++ [new].filter uncompleted ∧
      ((entries t).filter unacked = (entries s).filter unacked ++ [new].filter unacked ↔
        Keeps s) := by
  obtain ⟨hok, f, new, l, hf, hflags, hdst, hmsg, hent, hcases⟩ := asynsend3_cases hs hinit h
  refine ⟨hok, new, hflags, hdst, hmsg, ?_⟩
  have hvalid : ∀ e ∈ (range' f (s.nextSlot - f)).map s.msgtable, e.isSet amfValid = true := by
    intro e he
    obtain ⟨i, hi, rfl⟩ := mem_map.mp he
    have hrange := mem_range'_1.mp hi
    exact hs.valid i (by omega)
  have hsplit : (entries s).filter unacked = ((List.range f).map s.msgtable).filter unacked ++
      ((range' f (s.nextSlot - f)).map s.msgtable).filter unacked := by
    rw [entries_split hf.le, filter_append]
  rw [hent, filter_append, filter_append, append_left_inj, append_left_inj,
    Keeps, hf.uncompleted_iff hs, ← hf.unacked_iff hs, hf.filter_uncompleted hs, hsplit]
  rcases hcases with ⟨rfl, rfl, hlast⟩ | ⟨hlast, ⟨hspace, rfl⟩ | ⟨hfull, rfl⟩⟩
  · simp only [Nat.sub_self, range'_zero, map_nil, filter_nil, append_nil,
      Nat.lt_irrefl, hlast, and_false, or_false, true_and]
    exact eq_comm
  · refine ⟨hf.filter_uncompleted hs, iff_of_true hsplit (.inr ⟨hspace, ?_⟩)⟩
    exact (Nat.lt_or_eq_of_le hf.le).imp_right hlast
  · rw [filter_inUse hvalid fun e he => .inl he, filter_inUse hvalid fun e he => .inr he]
    simp [Nat.not_lt.mpr hfull]

end Calls

end Gergios.Libsys
