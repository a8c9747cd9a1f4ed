import Gergios.Vfs.LockScan

/-!
# Record locks as a map of bytes

Each process has at most one kind of lock on a byte of a file: the kind of its last request for that
byte that succeeded. The table stands for such a map, and each request is compared with what it
should do to the map. Which bytes a request names is taken from the manual page of `fcntl`; the
range that the code looks at ends at `MAX_FILE_POS` where the length is zero.
-/

namespace Gergios.Vfs

open List Option

variable {V : Type} [DecidableEq V]

abbrev ByteLocks (V : Type) := Int → V → Int → Option LockType

def Represents (t : Locks V) (m : ByteLocks V) : Prop :=
  ∀ p v b y, Covers t p v b y ↔ m p v b = some y

def Within : Option (Int × Int) → Int → Prop
  | none, _ => False
  | some r, b => r.1 ≤ b ∧ b ≤ r.2

instance (r : Option (Int × Int)) (b : Int) : Decidable (Within r b) :=
  match r with
  | none => inferInstanceAs (Decidable False)
  | some _ => inferInstanceAs (Decidable (_ ∧ _))

def ByteLocks.set (m : ByteLocks V) (pid : Int) (vnode : V) (r : Option (Int × Int))
    (type : Option LockType) : ByteLocks V := fun p v b =>
  if p = pid ∧ v = vnode ∧ Within r b then type else m p v b

def ByteLocks.Conflicts (m : ByteLocks V) (pid : Int) (vnode : V) (r : Option (Int × Int))
    (type : LockType) : Prop :=
  ∃ p b y, p ≠ pid ∧ Within r b ∧ m p vnode b = some y ∧ ¬(type = .rdlck ∧ y = .rdlck)

def FlockType.kind : FlockType → Option LockType
  | .lock type => some type
  | _ => none

variable (longBits : Nat) (q : LockRequest V)

def LockRequest.region : Option (Int × Int) :=
  match q.refused with
  | some _ => none
  | none => q.range longBits

/-- The largest value of a file offset. -/
def maxOffset : Int := 2 ^ 63 - 1

/-- The bytes that a request names as `fcntl` has it: with a length of zero they extend to the
largest file offset, and they may not start before the beginning of the file. -/
def LockRequest.asked : Option (Int × Int) :=
  match q.refused, q.base with
  | none, some base =>
    let first := base + q.start
    let last := if q.len = 0 then maxOffset else first + q.len - 1
    if 0 ≤ first ∧ first ≤ last ∧ last ≤ maxOffset then some (first, last) else none
  | _, _ => none

def ByteLocks.after (m : ByteLocks V) (q : LockRequest V) (answer : LockAnswer V) : ByteLocks V :=
  if answer = .ok then m.set q.pid q.vnode q.asked q.ltype.kind else m

def LockRequest.Answered (t : Locks V) (m : ByteLocks V) (answer : LockAnswer V) : Prop :=
  match q.ltype, q.cmd with
  | .lock type, .getlk =>
    if q.copyOut then
      (answer = .report none ∧ ¬m.Conflicts q.pid q.vnode q.asked type) ∨
      ∃ i e, answer = .report (some e) ∧ t i = some e ∧ e.vnode = q.vnode ∧
        (∃ b, Within q.asked b ∧ e.first ≤ b ∧ b ≤ e.last) ∧
        e.pid ≠ q.pid ∧ ¬(type = .rdlck ∧ e.type = .rdlck)
    else answer = .efault
  | .lock type, _ =>
    answer = .ok ↔ ¬m.Conflicts q.pid q.vnode q.asked type ∧ used t < nrLocksMax
  | _, _ => answer = .ok ∨ used t = nrLocksMax

structure LockOk (longBits : Nat) (q : LockRequest V) (t : LockTable V) (m : ByteLocks V) :
    Prop where
  count : (lockOp longBits q t).2.nrLocks = used (lockOp longBits q t).2.fileLock
  map : Represents (lockOp longBits q t).2.fileLock (m.after q (lockOp longBits q t).1)
  unchanged : (lockOp longBits q t).1 ≠ .ok → (lockOp longBits q t).2.fileLock = t.fileLock ∧
    (lockOp longBits q t).2.nrLocks = t.nrLocks
  answered : q.asked ≠ none → q.Answered t.fileLock m (lockOp longBits q t).1

def Conflicting (t : Locks V) (pid : Int) (vnode : V) (r : Option (Int × Int))
    (type : LockType) : Prop :=
  ∃ p b y, p ≠ pid ∧ Within r b ∧ Covers t p vnode b y ∧ ¬(type = .rdlck ∧ y = .rdlck)

/-- A byte that is in one of the two ranges only: named and not looked at, or the reverse. -/
def LockRequest.Missed (r : Int × Int) (b : Int) : Prop := ¬(Within q.asked b ↔ Within (some r) b)

/-- For a lock that nothing in the range `r` stops, nothing in the bytes it names may do so. If it
is granted, the caller has no lock of the other type on these bytes, and has the missed bytes locked
that way already. An unlock meets locks of its own process only, misses none of them and has room
for every split, or fails at the first lock that it meets. -/
def LockRequest.FitsRegion (t : Locks V) (r : Int × Int) : Prop :=
  match q.ltype with
  | .lock type => ¬Conflicting t q.pid q.vnode (some r) type →
      if q.cmd = .getlk then q.copyOut → ¬Conflicting t q.pid q.vnode q.asked type
      else used t < nrLocksMax → ¬Conflicting t q.pid q.vnode q.asked type ∧
        (∀ b y, Within q.asked b → Covers t q.pid q.vnode b y → y = type) ∧
        ∀ b, q.Missed r b → Covers t q.pid q.vnode b type
  | _ =>
    (∀ p b y, Within (some r) b → Covers t p q.vnode b y → p = q.pid) ∧
        (∀ b y, q.Missed r b → ¬Covers t q.pid q.vnode b y) ∧
        room t q.vnode r.1 r.2 (finRange nrLocksMax) (nrLocksMax - used t) ∨
      used t = nrLocksMax ∧ stuck t q.vnode r.1 r.2 (finRange nrLocksMax)

/-- The request has no range that the code accepts: whatever it names, it must have failed. -/
def LockRequest.FitsNowhere (t : Locks V) : Prop :=
  match q.ltype with
  | .lock type =>
    q.cmd ≠ .getlk ∧ (Conflicting t q.pid q.vnode q.asked type ∨ used t = nrLocksMax)
  | _ => used t = nrLocksMax

def LockRequest.Fits (t : LockTable V) : Prop :=
  match q.region longBits with
  | some r => q.FitsRegion t.fileLock r
  | none => q.asked ≠ none → q.FitsNowhere t.fileLock

structure LockWorld (V : Type) where
  table : LockTable V
  map : ByteLocks V

def LockWorld.init : LockWorld V := ⟨.init, fun _ _ _ => none⟩

def LockWorld.perform (w : LockWorld V) (q : LockRequest V) : LockWorld V :=
  ⟨(lockOp longBits q w.table).2, w.map.after q (lockOp longBits q w.table).1⟩

def LockStep (w w' : LockWorld V) : Prop :=
  ∃ q : LockRequest V, q.Fits longBits w.table ∧ w' = w.perform longBits q

structure LockInv (w : LockWorld V) : Prop where
  ok : TableOk w.table.fileLock w.table.nrLocks
  represents : Represents w.table.fileLock w.map

variable {q : LockRequest V} {longBits : Nat} {t : LockTable V} {n : Int} {type : LockType}

omit [DecidableEq V] in
theorem LockRequest.refused_ne_ok {answer : LockAnswer V}
    (h : q.refused = some answer) : answer ≠ .ok := by
  rintro rfl
  unfold LockRequest.refused at h
  split_ifs at h <;> simp at h

theorem lockOp_invalid (h : q.region longBits = none) :
    (lockOp longBits q t).2 = t ∧ (lockOp longBits q t).1 ≠ .ok := by
  unfold LockRequest.region at h
  unfold lockOp
  cases hq : q.refused with
  | some answer => exact ⟨rfl, LockRequest.refused_ne_ok hq⟩
  | none =>
    simp only [hq] at h
    rw [h]
    exact ⟨rfl, by simp⟩

structure LockRequest.Valid (longBits : Nat) (q : LockRequest V) (first last : Int) : Prop where
  le : first ≤ last
  unlck : q.cmd = .getlk → q.ltype ≠ .unlck
  other : q.ltype ≠ .other
  eq : ∀ t, lockOp longBits q t =
    lockFinish q first last t (lockScan q first last (finRange nrLocksMax) t.scan)

theorem LockRequest.valid {first last : Int}
    (h : q.region longBits = some (first, last)) : q.Valid longBits first last := by
  unfold LockRequest.region at h
  cases hq : q.refused with
  | some answer => simp [hq] at h
  | none =>
    simp only [hq] at h
    constructor
    · unfold LockRequest.range at h
      cases hb : q.base with
      | none => simp [hb] at h
      | some base =>
        simp only [hb, bind_eq_bind, bind_some] at h
        split_ifs at h with h₁ h₂ h₃ h₄
        all_goals
          simp only [some.injEq, Prod.mk.injEq] at h
          omega
    · intro hc hu
      simp [LockRequest.refused, hc, hu] at hq
    · intro ho
      simp [LockRequest.refused, ho] at hq
    · intro t
      simp only [lockOp, hq, h]

theorem offT_of_range {x : Int} (h₁ : -2 ^ 63 ≤ x) (h₂ : x ≤ maxOffset) : offT x = x := by
  have h₃ : x ≤ 2 ^ 63 - 1 := h₂
  simp only [offT, Int.bmod]
  split_ifs <;> omega

/-- The byte after the last may be one beyond the largest offset. -/
theorem offT_pred {x : Int} (h₁ : 0 < x) (h₂ : x - 1 ≤ maxOffset) : offT (offT x - 1) = x - 1 := by
  rcases lt_or_eq_of_le h₂ with hlt | heq
  · rw [offT_of_range (x := x) (by omega) (by omega), offT_of_range (by omega) h₂]
  · have hend : x = 2 ^ 63 := by
      rw [maxOffset] at heq
      omega
    rw [hend]
    decide

omit [DecidableEq V] in
/-- Where a request names bytes, the range that the code looks at starts with them. -/
theorem LockRequest.region_asked {r a : Int × Int}
    (hr : q.region longBits = some r) (ha : q.asked = some a) : r.1 = a.1 ∧ r.2 ≤ a.2 := by
  unfold LockRequest.region at hr
  unfold LockRequest.asked at ha
  cases hq : q.refused with
  | some answer => simp [hq] at hr
  | none =>
    cases hb : q.base with
    | none => simp [hq, hb] at ha
    | some base =>
      simp only [hq, LockRequest.range, hb, bind_eq_bind, bind_some] at hr
      simp only [hq, hb] at ha
      obtain ⟨⟨h₀, h₁, h₂⟩, ha⟩ := ite_none_right_eq_some.mp ha
      obtain rfl := some.inj ha
      rw [offT_of_range (by omega) (h₁.trans h₂)] at hr
      obtain ⟨-, hr⟩ := ite_none_left_eq_some.mp hr
      obtain ⟨-, hr⟩ := ite_none_left_eq_some.mp hr
      obtain ⟨-, hr⟩ := ite_none_left_eq_some.mp hr
      obtain rfl := some.inj hr
      refine ⟨rfl, ?_⟩
      by_cases hlen : q.len = 0
      · simp only [if_pos hlen]
        decide
      · simp only [if_neg hlen] at h₁ h₂ ⊢
        rw [offT_pred (by omega) h₂]

omit [DecidableEq V] in
theorem LockRequest.refused_of_asked (h : q.asked ≠ none) : q.refused = none := by
  unfold LockRequest.asked at h
  cases hq : q.refused with
  | none => rfl
  | some answer => simp [hq] at h

omit [DecidableEq V] in
theorem LockRequest.within_asked {r : Int × Int} {b : Int} (hr : q.region longBits = some r)
    (ha : q.asked ≠ none) (hb : Within (some r) b) : Within q.asked b := by
  obtain ⟨a, ha⟩ := ne_none_iff_exists'.mp ha
  obtain ⟨h₁, h₂⟩ := LockRequest.region_asked hr ha
  rw [ha]
  exact ⟨h₁ ▸ hb.1, hb.2.trans h₂⟩

section Granted

variable {t : Locks V} {m : ByteLocks V} {q : LockRequest V} {r : Int × Int} {type : LockType}

omit [DecidableEq V] in
theorem not_passes {first last : Int} (ht : q.ltype = .lock type) (e : FileLock V) :
    ¬q.passes first last e ↔ e.Meets q.vnode first last ∧ e.pid ≠ q.pid ∧
      ¬(type = .rdlck ∧ e.type = .rdlck) := by
  simp only [LockRequest.passes, ht, FileLock.Meets, FlockType.lock.injEq, ne_eq, reduceCtorEq,
    not_false_eq_true, true_and, not_or, not_not, not_lt]
  tauto

omit [DecidableEq V] in
theorem Represents.conflicting (hm : Represents t m) (pid : Int) (vnode : V)
    (x : Option (Int × Int)) (type : LockType) :
    m.Conflicts pid vnode x type ↔ Conflicting t pid vnode x type := by
  unfold ByteLocks.Conflicts Conflicting
  simp only [hm _ _ _ _]

theorem passes_iff (ht : q.ltype = .lock type) (hok : TableOk t n) (hr : r.1 ≤ r.2) :
    (∀ i e, t i = some e → q.passes r.1 r.2 e) ↔
      ¬Conflicting t q.pid q.vnode (some r) type := by
  constructor
  · rintro hall ⟨p, b, y, hp, ⟨h₁, h₂⟩, ⟨i, e, hi, he⟩, hy⟩
    refine (not_passes ht e).mpr ⟨he.meets h₁ h₂, ?_, ?_⟩ (hall i e hi)
    · rw [he.2.1]
      exact hp
    · rw [he.1]
      exact hy
  · intro hc i e hi
    by_contra hn
    obtain ⟨hmeet, hp, hy⟩ := (not_passes ht e).mp hn
    obtain ⟨b, h₁, h₂, hb⟩ := hmeet.common (hok.ordered i e hi) hr
    exact hc ⟨e.pid, b, e.type, hp, ⟨h₁, h₂⟩, ⟨i, e, hi, hb⟩, hy⟩

theorem represents_put (q : LockRequest V) (type : LockType) {i : Slot}
    (hi : t i = none) (hm : Represents t m) :
    Represents (Function.update t i (some ⟨type, q.pid, q.vnode, r.1, r.2⟩))
        (m.set q.pid q.vnode q.asked (some type)) ↔
      (∀ b y, Within q.asked b → Covers t q.pid q.vnode b y → y = type) ∧
        ∀ b, q.Missed r b → Covers t q.pid q.vnode b type := by
  have hcov : ∀ p v b y, Covers (Function.update t i (some ⟨type, q.pid, q.vnode, r.1, r.2⟩))
      p v b y ↔ FileLock.Has ⟨type, q.pid, q.vnode, r.1, r.2⟩ p v b y ∨ Covers t p v b y := by
    intro p v b y
    rw [covers_put]
    apply or_congr_right
    constructor
    · rintro ⟨k, e, -, hk, he⟩
      exact ⟨k, e, hk, he⟩
    · rintro ⟨k, e, hk, he⟩
      refine ⟨k, e, ?_, hk, he⟩
      rintro rfl
      rw [hi] at hk
      cases hk
  constructor
  · intro h
    constructor
    · intro b y hb hy
      have hset := (h ..).mp ((hcov ..).mpr (.inr hy))
      rw [ByteLocks.set, if_pos ⟨rfl, rfl, hb⟩] at hset
      exact (some.inj hset).symm
    · intro b hb
      by_cases hin : Within q.asked b
      · have hset : m.set q.pid q.vnode q.asked (some type) q.pid q.vnode b = some type :=
          if_pos ⟨rfl, rfl, hin⟩
        rcases (hcov ..).mp ((h ..).mpr hset) with ⟨-, -, -, h₁⟩ | hc
        · exact absurd (iff_of_true hin h₁) hb
        · exact hc
      · have hr : Within (some r) b := by
          by_contra hn
          exact hb (iff_of_false hin hn)
        have hset := (h ..).mp ((hcov ..).mpr (.inl ⟨rfl, rfl, rfl, hr⟩))
        rw [ByteLocks.set, if_neg fun h => hin h.2.2] at hset
        exact (hm ..).mpr hset
  · rintro ⟨hown, hmissed⟩ p v b y
    rw [hcov, ByteLocks.set]
    split_ifs with hin
    · obtain ⟨rfl, rfl, hb⟩ := hin
      constructor
      · rintro (⟨rfl, -⟩ | hc)
        · rfl
        · rw [hown b y hb hc]
      · intro hy
        obtain rfl := some.inj hy
        by_cases hr : Within (some r) b
        · exact .inl ⟨rfl, rfl, rfl, hr⟩
        · exact .inr (hmissed b fun h => hr (h.mp hb))
    · rw [← hm p v b y]
      constructor
      · rintro (⟨rfl, rfl, rfl, hr⟩ | h)
        · exact hmissed b fun h => hin ⟨rfl, rfl, h.mpr hr⟩
        · exact h
      · exact .inr

theorem represents_cleared {t' : Locks V} (hm : Represents t m)
    (hc : Cleared q.vnode r.1 r.2 (finRange nrLocksMax) t t') :
    Represents t' (m.set q.pid q.vnode q.asked none) ↔
      (∀ p b y, Within (some r) b → Covers t p q.vnode b y → p = q.pid) ∧
        ∀ b y, q.Missed r b → ¬Covers t q.pid q.vnode b y := by
  have hcov : ∀ p v b y, Covers t' p v b y ↔
      Covers t p v b y ∧ ¬(v = q.vnode ∧ Within (some r) b) := by
    intro p v b y
    constructor
    · intro h
      refine ⟨hc.sub p v b y h, ?_⟩
      rintro ⟨rfl, h₁, h₂⟩
      obtain ⟨j, e, hj, he⟩ := h
      exact hc.gone j (mem_finRange j) e hj (he.meets h₁ h₂)
    · rintro ⟨h, hn⟩
      exact hc.keep p v b y h hn
  constructor
  · intro h
    constructor
    · intro p b y hb hy
      by_contra hp
      have hset : m.set q.pid q.vnode q.asked none p q.vnode b = some y := by
        rw [ByteLocks.set, if_neg fun hin => hp hin.1]
        exact (hm ..).mp hy
      exact ((hcov ..).mp ((h ..).mpr hset)).2 ⟨rfl, hb⟩
    · intro b y hb hy
      by_cases hin : Within q.asked b
      · have hr : ¬Within (some r) b := fun hr => hb (iff_of_true hin hr)
        have hset := (h ..).mp ((hcov ..).mpr ⟨hy, fun hr' => hr hr'.2⟩)
        rw [ByteLocks.set, if_pos ⟨rfl, rfl, hin⟩] at hset
        cases hset
      · have hset : m.set q.pid q.vnode q.asked none q.pid q.vnode b = some y := by
          rw [ByteLocks.set, if_neg fun hin' => hin hin'.2.2]
          exact (hm ..).mp hy
        have hr := ((hcov ..).mp ((h ..).mpr hset)).2
        exact hb (iff_of_false hin fun hr' => hr ⟨rfl, hr'⟩)
  · rintro ⟨hown, hmissed⟩ p v b y
    rw [hcov, ByteLocks.set]
    split_ifs with hin
    · obtain ⟨rfl, rfl, hb⟩ := hin
      refine iff_of_false ?_ (by simp)
      rintro ⟨h, hn⟩
      exact hmissed b y (fun hr => hn ⟨rfl, hr.mp hb⟩) h
    · rw [← hm p v b y]
      refine and_iff_left_of_imp ?_
      rintro h ⟨rfl, hb⟩
      obtain rfl := hown p b y hb h
      exact hmissed b y (fun hr => hin ⟨rfl, rfl, hr.mpr hb⟩) h

end Granted

section Step

variable {longBits : Nat} {q : LockRequest V} {w : LockWorld V} {r : Int × Int} {first last : Int}

theorem lockOk_of_unchanged (hw : LockInv w) (hne : (lockOp longBits q w.table).1 ≠ .ok)
    (hf : (lockOp longBits q w.table).2.fileLock = w.table.fileLock)
    (hn : (lockOp longBits q w.table).2.nrLocks = w.table.nrLocks) :
    LockOk longBits q w.table w.map ↔
      (q.asked ≠ none → q.Answered w.table.fileLock w.map (lockOp longBits q w.table).1) := by
  refine ⟨LockOk.answered, fun ha => ⟨by rw [hf, hn, hw.ok.count], ?_, fun _ => ⟨hf, hn⟩, ha⟩⟩
  rw [hf, ByteLocks.after, if_neg hne]
  exact hw.represents

theorem lockOk_of_ok (hok : (lockOp longBits q w.table).1 = .ok)
    (hc : (lockOp longBits q w.table).2.nrLocks = used (lockOp longBits q w.table).2.fileLock) :
    LockOk longBits q w.table w.map ↔
      (q.asked ≠ none → q.Answered w.table.fileLock w.map .ok) ∧
        Represents (lockOp longBits q w.table).2.fileLock
          (w.map.set q.pid q.vnode q.asked q.ltype.kind) := by
  have hafter : w.map.after q (lockOp longBits q w.table).1 =
      w.map.set q.pid q.vnode q.asked q.ltype.kind := if_pos hok
  rw [← hafter]
  constructor
  · intro h
    exact ⟨hok ▸ h.answered, h.map⟩
  · rintro ⟨ha, h⟩
    exact ⟨hc, h, fun hne => absurd hok hne, hok.symm ▸ ha⟩

inductive LockOutcome (q : LockRequest V) (t : LockTable V) (first last : Int) (type : LockType) :
    LockAnswer V → LockTable V → Prop
  | blocked (i : Slot) (e : FileLock V) (answer : LockAnswer V) (t' : LockTable V)
    (hi : t.fileLock i = some e) (hp : ¬q.passes first last e)
    (report : q.cmd = .getlk → answer = q.reply (some e))
    (fails : q.cmd ≠ .getlk → answer = .eagain ∨ answer = .suspend)
    (hf : t'.fileLock = t.fileLock) (hn : t'.nrLocks = t.nrLocks) :
    LockOutcome q t first last type answer t'
  | clear (hp : ∀ i e, t.fileLock i = some e → q.passes first last e) (hc : q.cmd = .getlk) :
    LockOutcome q t first last type (q.reply none) t
  | full (hc : q.cmd ≠ .getlk) (hu : used t.fileLock = nrLocksMax) :
    LockOutcome q t first last type .enolck t
  | granted (hp : ∀ i e, t.fileLock i = some e → q.passes first last e) (hc : q.cmd ≠ .getlk)
    (i : Slot) (hi : t.fileLock i = none) :
    LockOutcome q t first last type .ok (t.store q first last type i)

theorem lockOp_lock (hv : q.region longBits = some (first, last)) (ht : q.ltype = .lock type) :
    LockOutcome q t first last type (lockOp longBits q t).1 (lockOp longBits q t).2 := by
  rw [(LockRequest.valid hv).eq t]
  rcases lockScan_lock ht with ⟨i, -, e, hi, hp, s', hs, hf, hn⟩ | ⟨hall, hs⟩
  · rw [hs]
    cases hc : q.cmd with
    | getlk =>
      simp only [LockRequest.blockedBy, hc]
      exact .blocked i e _ _ hi hp (fun _ => rfl) (fun h => absurd hc h) hf hn
    | setlk =>
      simp only [LockRequest.blockedBy, hc]
      exact .blocked i e _ _ hi hp (fun h => by simp [hc] at h) (fun _ => .inl rfl) hf hn
    | setlkw =>
      simp only [LockRequest.blockedBy, hc]
      exact .blocked i e _ _ hi hp (fun h => by simp [hc] at h) (fun _ => .inr rfl) hf hn
  · have hp : ∀ i e, t.fileLock i = some e → q.passes first last e :=
      fun i => hall i (mem_finRange i)
    have hend : lockScan q first last (finRange nrLocksMax) t.scan =
        (none, ⟨t.fileLock, t.nrLocks, firstFree t.fileLock, false⟩) := hs
    rw [hend]
    by_cases hc : q.cmd = .getlk
    · simp only [lockFinish, if_pos hc]
      exact .clear hp hc
    · simp only [lockFinish, if_neg hc, ht]
      cases hff : firstFree t.fileLock with
      | none => exact .full hc (firstFree_eq_none hff)
      | some i => exact .granted hp hc i (firstFree_eq_some hff)

omit [DecidableEq V] in
theorem answered_set (ht : q.ltype = .lock type) (hc : q.cmd ≠ .getlk)
    (hm : Represents w.table.fileLock w.map) (a : LockAnswer V) :
    q.Answered w.table.fileLock w.map a ↔
      (a = .ok ↔ ¬Conflicting w.table.fileLock q.pid q.vnode q.asked type ∧
        used w.table.fileLock < nrLocksMax) := by
  rw [← hm.conflicting]
  cases hq : q.cmd with
  | getlk => exact absurd hq hc
  | setlk | setlkw => simp only [LockRequest.Answered, ht, hq]

omit [DecidableEq V] in
theorem answered_getlk (ht : q.ltype = .lock type) (hc : q.cmd = .getlk)
    (hm : Represents w.table.fileLock w.map) :
    q.Answered w.table.fileLock w.map (q.reply none) ↔
      (q.copyOut → ¬Conflicting w.table.fileLock q.pid q.vnode q.asked type) := by
  rw [← hm.conflicting]
  simp only [LockRequest.Answered, ht, hc, LockRequest.reply]
  split_ifs with ho <;> simp [ho]

omit [DecidableEq V] in
theorem Conflicting.ne_none {t : Locks V} {pid : Int} {vnode : V} {x : Option (Int × Int)}
    (h : Conflicting t pid vnode x type) : x ≠ none := by
  rintro rfl
  obtain ⟨_, _, _, _, hin, _⟩ := h
  exact hin

theorem lockOk_lock (hw : LockInv w) (hv : q.region longBits = some r)
    (ht : q.ltype = .lock type) :
    LockOk longBits q w.table w.map ↔ q.FitsRegion w.table.fileLock r := by
  have hle := (LockRequest.valid hv).le
  have hpass := passes_iff ht hw.ok hle
  simp only [LockRequest.FitsRegion, ht]
  have hout := lockOp_lock (t := w.table) hv ht
  generalize ha : (lockOp longBits q w.table).1 = answer at hout
  generalize ht' : (lockOp longBits q w.table).2 = t' at hout
  cases hout with
  | blocked i e _ _ hi hp report fails hf hn =>
    obtain ⟨hmeet, hpid, htype⟩ := (not_passes ht e).mp hp
    obtain ⟨b, h₁, h₂, hb⟩ := hmeet.common (hw.ok.ordered i e hi) hle
    have hconf : Conflicting w.table.fileLock q.pid q.vnode (some r) type :=
      ⟨e.pid, b, e.type, hpid, ⟨h₁, h₂⟩, ⟨i, e, hi, hb⟩, htype⟩
    refine iff_of_true ?_ fun hno => absurd hconf hno
    have hne : answer ≠ .ok := by
      by_cases hc : q.cmd = .getlk
      · rw [report hc, LockRequest.reply]
        split_ifs <;> simp
      · rcases fails hc with rfl | rfl <;> simp
    apply (lockOk_of_unchanged hw (ha ▸ hne) (by rw [ht', hf]) (by rw [ht', hn])).mpr
    intro hasked
    have hin := LockRequest.within_asked hv hasked ⟨h₁, h₂⟩
    rw [ha]
    by_cases hc : q.cmd = .getlk
    · simp only [LockRequest.Answered, ht, hc, report hc, LockRequest.reply]
      split_ifs with ho
      · exact .inr ⟨i, e, rfl, hi, hb.2.2.1, ⟨b, hin, hb.2.2.2⟩, hpid, htype⟩
      · rfl
    · apply (answered_set ht hc hw.represents answer).mpr
      exact iff_of_false hne fun h => h.1 ⟨e.pid, b, e.type, hpid, hin, ⟨i, e, hi, hb⟩, htype⟩
  | clear hp hc =>
    have hne : q.reply none ≠ .ok := by
      rw [LockRequest.reply]
      split_ifs <;> simp
    rw [lockOk_of_unchanged hw (ha ▸ hne) (by rw [ht']) (by rw [ht']), ha, if_pos hc,
      answered_getlk ht hc hw.represents]
    constructor
    · intro h _ ho hconf
      exact h hconf.ne_none ho hconf
    · intro h _
      exact h (hpass.mp hp)
  | full hc hu =>
    refine iff_of_true ?_ fun _ => ?_
    · apply (lockOk_of_unchanged hw (by simp [ha]) (by rw [ht']) (by rw [ht'])).mpr
      intro _
      rw [ha]
      exact (answered_set ht hc hw.represents _).mpr (iff_of_false (by simp) (by omega))
    · rw [if_neg hc]
      intro hlt
      omega
  | granted hp hc i hi =>
    have hlt := used_lt_of_free ⟨type, q.pid, q.vnode, r.1, r.2⟩ hi
    have hcount := (hw.ok.putFree hi (x := ⟨type, q.pid, q.vnode, r.1, r.2⟩) hle).count
    have hkind : q.ltype.kind = some type := by rw [ht]; rfl
    rw [lockOk_of_ok ha (by rw [ht']; exact hcount), ht', hkind, if_neg hc]
    refine Iff.trans (and_congr ?_ (represents_put q type hi hw.represents))
      ⟨fun h _ _ => h, fun h => h (hpass.mp hp) hlt⟩
    rw [answered_set ht hc hw.represents]
    constructor
    · intro h hconf
      exact ((h hconf.ne_none).mp rfl).1 hconf
    · exact fun h _ => iff_of_true rfl ⟨h, hlt⟩

theorem lockOk_unlock (hw : LockInv w) (hv : q.region longBits = some r)
    (hu : q.ltype = .unlck) :
    LockOk longBits q w.table w.map ↔ q.FitsRegion w.table.fileLock r := by
  have hvalid := LockRequest.valid hv
  have hc : q.cmd ≠ .getlk := fun h => hvalid.unlck h hu
  have hnr := hw.ok.count
  have hnodup := nodup_finRange nrLocksMax
  have heq := hvalid.eq w.table
  simp only [LockRequest.FitsRegion, hu]
  by_cases hroom : room w.table.fileLock q.vnode r.1 r.2 (finRange nrLocksMax)
      (nrLocksMax - used w.table.fileLock)
  · rw [← hnr] at hroom
    obtain ⟨s', hs, hcl, hok⟩ :=
      lockScan_unlock (s := w.table.scan) hu hc hvalid.le hnodup hw.ok hroom
    rw [hs] at heq
    have hfin : (lockOp longBits q w.table).1 = .ok ∧
        (lockOp longBits q w.table).2.fileLock = s'.fileLock ∧
        (lockOp longBits q w.table).2.nrLocks = s'.nrLocks := by
      rw [heq]
      simp only [lockFinish, if_neg hc, hu]
      split_ifs <;> exact ⟨trivial, rfl, rfl⟩
    have hans : q.Answered w.table.fileLock w.map .ok := by
      simp only [LockRequest.Answered, hu]
      exact .inl trivial
    have hkind : q.ltype.kind = none := by rw [hu]; rfl
    rw [lockOk_of_ok hfin.1 (by rw [hfin.2.1, hfin.2.2]; exact hok.count), hfin.2.1, hkind,
      represents_cleared hw.represents hcl]
    constructor
    · rintro ⟨-, hown, hmissed⟩
      exact .inl ⟨hown, hmissed, hnr ▸ hroom⟩
    · rintro (⟨hown, hmissed, -⟩ | ⟨hfull, hstuck⟩)
      · exact ⟨fun _ => hans, hown, hmissed⟩
      · rw [hnr, hfull] at hroom
        exact absurd hstuck (not_stuck_of_room hroom)
  · have hroom' : ¬room w.table.scan.fileLock q.vnode r.1 r.2 (finRange nrLocksMax)
        (nrLocksMax - w.table.scan.nrLocks) := by
      rw [show w.table.scan.nrLocks = used w.table.fileLock from hnr]
      exact hroom
    by_cases hstuck : used w.table.fileLock = nrLocksMax ∧
        stuck w.table.fileLock q.vnode r.1 r.2 (finRange nrLocksMax)
    · refine iff_of_true ?_ (.inr hstuck)
      obtain ⟨s', hs, hf, hn⟩ := lockScan_stuck (s := w.table.scan) hu hc hvalid.le hw.ok
        (hnr.trans (congrArg _ hstuck.1)) hstuck.2
      rw [hs] at heq
      simp only [lockFinish] at heq
      apply (lockOk_of_unchanged hw (by simp [heq]) (by rw [heq]; exact hf)
        (by rw [heq]; exact hn)).mpr
      intro _
      simp only [LockRequest.Answered, hu]
      exact .inr hstuck.1
    · refine iff_of_false ?_ ?_
      · intro h
        obtain ⟨hans, hch⟩ := lockScan_fails hu hc hvalid.le hnodup hw.ok hroom'
        have hchanged := hch.resolve_left fun hfs =>
          hstuck ⟨by exact_mod_cast hnr.symm.trans hfs.1, hfs.2⟩
        have hpair : lockScan q r.1 r.2 (finRange nrLocksMax) w.table.scan =
            (some .enolck, (lockScan q r.1 r.2 (finRange nrLocksMax) w.table.scan).2) :=
          Prod.ext hans rfl
        rw [hpair] at heq
        simp only [lockFinish] at heq
        have hsame := (h.unchanged (by simp [heq])).1
        rw [heq] at hsame
        exact hchanged hsame
      · rintro (⟨-, -, hr⟩ | hs)
        · exact hroom hr
        · exact hstuck hs

/-- The code refuses a request that names bytes, with `EINVAL`. -/
theorem lockOk_nowhere (hw : LockInv w) (hv : q.region longBits = none) :
    LockOk longBits q w.table w.map ↔ (q.asked ≠ none → q.FitsNowhere w.table.fileLock) := by
  obtain ⟨heq, hne⟩ := lockOp_invalid (t := w.table) hv
  rw [lockOk_of_unchanged hw hne (by rw [heq]) (by rw [heq])]
  refine imp_congr_right fun hasked => ?_
  have hq : q.refused = none := LockRequest.refused_of_asked hasked
  have hans : (lockOp longBits q w.table).1 = .einval := by
    simp only [LockRequest.region, hq] at hv
    simp only [lockOp, hq, hv]
  have hle := used_le w.table.fileLock
  rw [hans]
  cases ht : q.ltype with
  | other => simp [LockRequest.refused, ht] at hq
  | unlck => simp [LockRequest.Answered, LockRequest.FitsNowhere, ht]
  | lock type =>
    simp only [LockRequest.FitsNowhere, ht]
    by_cases hc : q.cmd = .getlk
    · simp [LockRequest.Answered, ht, hc]
    · rw [answered_set ht hc hw.represents]
      simp only [reduceCtorEq, false_iff, not_and_or, not_not, hc, ne_eq, not_false_eq_true,
        true_and]
      exact or_congr_right (by omega)

theorem lockOk_iff (hw : LockInv w) :
    LockOk longBits q w.table w.map ↔ q.Fits longBits w.table := by
  cases hv : q.region longBits with
  | none =>
    simp only [LockRequest.Fits, hv]
    exact lockOk_nowhere hw hv
  | some r =>
    simp only [LockRequest.Fits, hv]
    cases ht : q.ltype with
    | unlck => exact lockOk_unlock hw hv ht
    | lock type => exact lockOk_lock hw hv ht
    | other => exact absurd ht (LockRequest.valid hv).other

omit [DecidableEq V] in
theorem lockFinish_unlock (hu : q.ltype = .unlck) (t : LockTable V)
    (r : Option (LockAnswer V) × Scan V) : (lockFinish q first last t r).2.fileLock = r.2.fileLock ∧
      (lockFinish q first last t r).2.nrLocks = r.2.nrLocks := by
  obtain ⟨answer, s⟩ := r
  cases answer with
  | some answer => cases answer <;> exact ⟨rfl, rfl⟩
  | none =>
    simp only [lockFinish, hu]
    split_ifs <;> exact ⟨rfl, rfl⟩

theorem lockOp_ok (hok : TableOk t.fileLock t.nrLocks) :
    TableOk (lockOp longBits q t).2.fileLock (lockOp longBits q t).2.nrLocks := by
  cases hv : q.region longBits with
  | none =>
    rw [(lockOp_invalid hv).1]
    exact hok
  | some r =>
    obtain ⟨first, last⟩ := r
    have hvalid := LockRequest.valid hv
    cases ht : q.ltype with
    | other => exact absurd ht hvalid.other
    | unlck =>
      have hc : q.cmd ≠ .getlk := fun h => hvalid.unlck h ht
      rw [hvalid.eq t, (lockFinish_unlock ht t _).1, (lockFinish_unlock ht t _).2]
      exact lockScan_ok ht hc hvalid.le hok
    | lock type =>
      have hout := lockOp_lock (t := t) hv ht
      generalize (lockOp longBits q t).1 = answer at hout
      generalize (lockOp longBits q t).2 = t' at hout ⊢
      cases hout with
      | blocked i e _ _ hi hp report fails hf hn =>
        rw [hf, hn]
        exact hok
      | clear | full => exact hok
      | granted hp hc i hi =>
        exact hok.putFree hi hvalid.le

omit [DecidableEq V] in
theorem LockInv.init : LockInv (LockWorld.init : LockWorld V) where
  ok := by
    refine ⟨?_, fun i e he => (nomatch he)⟩
    have : inUse (LockWorld.init : LockWorld V).table.fileLock = ∅ := by
      ext i
      simp [mem_inUse, LockWorld.init, LockTable.init]
    rw [used, this]
    rfl
  represents p v b y := iff_of_false (fun ⟨_, _, h, _⟩ => (nomatch h)) (fun h => (nomatch h))

theorem LockInv.run (h : Relation.ReflTransGen (LockStep longBits) LockWorld.init w) :
    LockInv w := by
  induction h with
  | refl => exact .init
  | tail _ hstep ih =>
    obtain ⟨q, hfits, rfl⟩ := hstep
    exact ⟨lockOp_ok ih.ok, ((lockOk_iff ih).mpr hfits).map⟩

variable (pid : Int) (vnode : V)

def FileLock.mine (e : FileLock V) : Bool := e.vnode = vnode ∧ e.pid = pid

/-- One round of the loop in `close_fd`. -/
def LockTable.drop (t : LockTable V) (i : Slot) : LockTable V :=
  if (t.fileLock i).any (·.mine pid vnode) then
    { t with fileLock := Function.update t.fileLock i none, nrLocks := t.nrLocks - 1 }
  else t

/-- What `close_fd` does to the locks. -/
def closeFd (t : LockTable V) : LockTable V :=
  if 0 < t.nrLocks then
    let u := (finRange nrLocksMax).foldl (·.drop pid vnode) t
    if u.nrLocks < t.nrLocks then u.lockRevive else u
  else t

def lockEvent (longBits : Nat) (t : LockTable V) : LockRequest V ⊕ Int × V → LockTable V
  | .inl q => (lockOp longBits q t).2
  | .inr c => closeFd c.1 c.2 t

variable (hok : TableOk t.fileLock t.nrLocks)

include hok

theorem foldl_drop (is : List Slot) : let u := is.foldl (·.drop pid vnode) t
    TableOk u.fileLock u.nrLocks ∧ ∀ i, u.fileLock i =
      if i ∈ is then (t.fileLock i).filter (!·.mine pid vnode) else t.fileLock i := by
  induction is using reverseRecOn with
  | nil => exact ⟨hok, by simp⟩
  | append_singleton is i ih =>
    rw [foldl_concat, LockTable.drop]
    split_ifs with hmine
    · refine ⟨ih.1.remove (isSome_of_any hmine), ?_⟩
      cases h : t.fileLock i <;> grind [Function.update_apply]
    · cases h : t.fileLock i <;> grind

theorem closeFd_ok : let u := closeFd pid vnode t
    TableOk u.fileLock u.nrLocks ∧
      ∀ i, u.fileLock i = (t.fileLock i).filter (!·.mine pid vnode) := by
  have hu := foldl_drop pid vnode hok (finRange nrLocksMax)
  simp only [mem_finRange, if_true] at hu
  simp only [closeFd]
  split_ifs
  any_goals exact hu
  -- The loop is skipped only if no slot is in use.
  refine ⟨hok, fun i => ?_⟩
  have := hok.count
  cases h : t.fileLock i with
  | none => rfl
  | some e =>
    have := used_remove (isSome_of_mem h)
    omega

end Step

/-- In a run of requests that fit, the table stands for the map of the requests that succeeded, and
there a request does what it should just if it fits. -/
theorem lock_requests_ok_iff {w : LockWorld V}
    (h : Relation.ReflTransGen (LockStep longBits) LockWorld.init w) :
    w.table.nrLocks = used w.table.fileLock ∧ Represents w.table.fileLock w.map ∧
      ∀ q : LockRequest V, LockOk longBits q w.table w.map ↔ q.Fits longBits w.table := by
  have hi := LockInv.run h
  exact ⟨hi.ok.count, hi.represents, fun q => lockOk_iff hi⟩

/-- Whatever is asked or closed, counter and ranges stay right, and a close takes the locks of its
process on the file and no others. -/
theorem lock_table_stays_ok (es : List (LockRequest V ⊕ Int × V)) :
    let t := es.foldl (lockEvent longBits) .init
    TableOk t.fileLock t.nrLocks ∧
      ∀ pid vnode i, (closeFd pid vnode t).fileLock i =
        (t.fileLock i).filter (!·.mine pid vnode) := by
  refine (and_iff_left_of_imp fun hok pid vnode => (closeFd_ok pid vnode hok).2).2 ?_
  induction es using reverseRecOn with
  | nil => exact LockInv.init.ok
  | append_singleton es e ih =>
    rw [foldl_concat]
    cases e with
    | inl q => exact lockOp_ok ih
    | inr c => exact (closeFd_ok c.1 c.2 ih).1

def firstTen (pid : Int) (ltype : FlockType) : LockRequest Unit where
  cmd := .setlk
  pid := pid
  vnode := ()
  ltype := ltype
  whence := .set
  start := 0
  len := 10
  copyIn := true
  copyOut := true
  lockable := true
  readable := true
  writable := true
  pos := 0
  size := 0

def lockedByOne : LockWorld Unit := LockWorld.init.perform 32 (firstTen 1 (.lock .wrlck))

/-- Process 1 gives back what it has from byte 5 to the end of the file. -/
def restOfFile : LockRequest Unit := { firstTen 1 .unlck with start := 5, len := 0 }

theorem lock_requests_ok_locked :
    let w := lockedByOne.perform 32 restOfFile
    Relation.ReflTransGen (LockStep 32) LockWorld.init w ∧
      w.map 1 () 4 = some .wrlck ∧ w.map 1 () 5 = none ∧
      w.table.nrLocks = used w.table.fileLock ∧ Represents w.table.fileLock w.map ∧
      ∀ q : LockRequest Unit, LockOk 32 q w.table w.map ↔ q.Fits 32 w.table := by
  have hlock : (firstTen 1 (.lock .wrlck)).Fits 32 (LockWorld.init : LockWorld Unit).table := by
    have hregion : (firstTen 1 (.lock .wrlck)).region 32 = some (0, 9) := by decide +kernel
    have hasked : (firstTen 1 (.lock .wrlck)).asked = some (0, 9) := by decide +kernel
    have hfree : ∀ p b y, ¬Covers (LockWorld.init : LockWorld Unit).table.fileLock p () b y :=
      fun _ _ _ ⟨_, _, h, _⟩ => nomatch h
    have hfits : (firstTen 1 (.lock .wrlck)).FitsRegion
        (LockWorld.init : LockWorld Unit).table.fileLock (0, 9) := by
      refine fun _ _ => ⟨?_, fun b y _ h => absurd h (hfree _ b y), fun b hb => ?_⟩
      · exact fun ⟨p, b, y, _, _, h, _⟩ => hfree p b y h
      · rw [LockRequest.Missed, hasked] at hb
        exact absurd Iff.rfl hb
    simpa only [LockRequest.Fits, hregion] using hfits
  have hunlock : restOfFile.Fits 32 lockedByOne.table := by
    have hregion : restOfFile.region 32 = some (5, maxFilePos) := by decide +kernel
    have hasked : restOfFile.asked = some (5, maxOffset) := by decide +kernel
    have htable : ∀ i e, lockedByOne.table.fileLock i = some e → e.pid = 1 ∧ e.last = 9 := by
      have hall : ∀ i, (lockedByOne.table.fileLock i).all fun e => e.pid = 1 ∧ e.last = 9 := by
        decide +kernel
      intro i e hi
      simpa [hi] using hall i
    have hcov : ∀ p b y, Covers lockedByOne.table.fileLock p () b y → p = 1 ∧ b ≤ 9 := by
      rintro p b y ⟨i, e, hi, -, hp, -, -, hb⟩
      obtain ⟨h₁, h₂⟩ := htable i e hi
      exact ⟨hp.symm.trans h₁, h₂ ▸ hb⟩
    have hfits : restOfFile.FitsRegion lockedByOne.table.fileLock (5, maxFilePos) := by
      refine .inl ⟨fun p b y _ h => (hcov p b y h).1, ?_, ?_⟩
      · intro b y hb h
        have hle := (hcov _ b y h).2
        rw [LockRequest.Missed, hasked] at hb
        apply hb
        simp only [Within, maxFilePos, maxOffset]
        omega
      · refine room_of_not_around fun i e hi hround => ?_
        have hlast := (htable i e hi).2
        have hend : maxFilePos < e.last := hround.2
        rw [hlast] at hend
        exact absurd hend (by decide)
    simpa only [LockRequest.Fits, hregion] using hfits
  have hrun : Relation.ReflTransGen (LockStep 32) LockWorld.init
      (lockedByOne.perform 32 restOfFile) :=
    .tail (.single ⟨_, hlock, rfl⟩) ⟨_, hunlock, rfl⟩
  exact ⟨hrun, by decide +kernel, by decide +kernel, lock_requests_ok_iff hrun⟩

/-- Process 2 unlocks bytes that process 1 has locked. -/
theorem unlock_of_other_process :
    ¬LockOk 32 (firstTen 2 .unlck) lockedByOne.table lockedByOne.map := by
  intro h
  have hkept : lockedByOne.map.after (firstTen 2 .unlck)
      (lockOp 32 (firstTen 2 .unlck) lockedByOne.table).1 1 () 0 = some .wrlck := by
    decide +kernel
  have hgone : ∀ i, (lockOp 32 (firstTen 2 .unlck) lockedByOne.table).2.fileLock i = none := by
    decide +kernel
  obtain ⟨i, e, hi, -⟩ := (h.map ..).mpr hkept
  rw [hgone i] at hi
  cases hi

end Gergios.Vfs
