import Gergios.Vfs.Lock

/-!
# One pass over the lock table

What the loop of `lock_op` does is stated on the bytes that the table covers. A request for a lock
only reads the table; an unlock takes its region out of every lock of the file that it meets.
-/

namespace Gergios.Vfs

open Function List

variable {V : Type}

abbrev Locks (V : Type) := Slot → Option (FileLock V)

variable (e : FileLock V)

def FileLock.Has (pid : Int) (vnode : V) (byte : Int) (type : LockType) : Prop :=
  e.type = type ∧ e.pid = pid ∧ e.vnode = vnode ∧ e.first ≤ byte ∧ byte ≤ e.last

def Covers (t : Locks V) (pid : Int) (vnode : V) (byte : Int) (type : LockType) : Prop :=
  ∃ i e, t i = some e ∧ e.Has pid vnode byte type

def FileLock.Meets (vnode : V) (first last : Int) : Prop :=
  e.vnode = vnode ∧ e.first ≤ last ∧ first ≤ e.last

instance [DecidableEq V] (e : FileLock V) (vnode : V) (first last : Int) :
    Decidable (e.Meets vnode first last) := inferInstanceAs (Decidable (_ ∧ _))

def FileLock.Around (first last : Int) : Prop := e.first < first ∧ last < e.last

instance (e : FileLock V) (first last : Int) : Decidable (e.Around first last) :=
  inferInstanceAs (Decidable (_ ∧ _))

def inUse (t : Locks V) : Finset Slot := Finset.univ.filter fun i => (t i).isSome

def used (t : Locks V) : Nat := (inUse t).card

structure TableOk (t : Locks V) (nrLocks : Int) : Prop where
  count : nrLocks = used t
  ordered : ∀ i e, t i = some e → e.first ≤ e.last

section Slots

variable {t : Locks V} {e : FileLock V} {i : Slot} {x : Option (FileLock V)}

theorem mem_inUse : i ∈ inUse t ↔ (t i).isSome := by simp [inUse]

theorem used_le (t : Locks V) : used t ≤ nrLocksMax := by
  simpa [used] using Finset.card_le_univ (inUse t)

theorem inUse_put : inUse (update t i (some e)) = insert i (inUse t) := by
  ext j
  rw [Finset.mem_insert, mem_inUse, mem_inUse]
  rcases eq_or_ne j i with rfl | hne
  · simp
  · simp [hne]

theorem inUse_remove : inUse (update t i none) = (inUse t).erase i := by
  ext j
  rw [Finset.mem_erase, mem_inUse, mem_inUse]
  rcases eq_or_ne j i with rfl | hne
  · simp
  · simp [hne]

theorem used_put_free (h : t i = none) : used (update t i (some e)) = used t + 1 := by
  rw [used, inUse_put]
  exact Finset.card_insert_of_notMem (by simp [mem_inUse, h])

theorem used_lt_of_free (e : FileLock V) (h : t i = none) : used t < nrLocksMax := by
  have hle := used_le (update t i (some e))
  rw [used_put_free h] at hle
  omega

theorem used_put (h : (t i).isSome) : used (update t i (some e)) = used t := by
  rw [used, inUse_put, Finset.insert_eq_of_mem (mem_inUse.mpr h), used]

theorem used_remove (h : (t i).isSome) : used (update t i none) + 1 = used t := by
  rw [used, inUse_remove]
  exact Finset.card_erase_add_one (mem_inUse.mpr h)

theorem firstFree_eq_none (h : firstFree t = none) : used t = nrLocksMax := by
  have hall : inUse t = Finset.univ := by
    ext j
    have := find?_eq_none.mp h j (mem_finRange j)
    simpa [mem_inUse, Option.isSome_iff_ne_none] using this
  rw [used, hall, Finset.card_univ, Fintype.card_fin]

theorem firstFree_eq_some (h : firstFree t = some i) : t i = none := by
  simpa using find?_some h

end Slots

theorem FileLock.Meets.common {e : FileLock V} {vnode : V} {first last : Int}
    (h : e.Meets vnode first last) (he : e.first ≤ e.last) (hr : first ≤ last) :
    ∃ b, first ≤ b ∧ b ≤ last ∧ e.Has e.pid vnode b e.type := by
  obtain ⟨hv, h₁, h₂⟩ := h
  refine ⟨max first e.first, by omega, by omega, rfl, rfl, hv, by omega, by omega⟩

theorem FileLock.Has.meets {e : FileLock V} {pid first last : Int} {vnode : V} {type : LockType}
    (h : e.Has pid vnode b type) (h₁ : first ≤ b) (h₂ : b ≤ last) : e.Meets vnode first last := by
  obtain ⟨-, -, hv, hf, hl⟩ := h
  exact ⟨hv, by omega, by omega⟩

/-- The region has been taken out of the slots in `is`. -/
structure Cleared (vnode : V) (first last : Int) (is : List Slot) (t t' : Locks V) : Prop where
  sub : ∀ p v b y, Covers t' p v b y → Covers t p v b y
  keep : ∀ p v b y, Covers t p v b y → ¬(v = vnode ∧ first ≤ b ∧ b ≤ last) → Covers t' p v b y
  gone : ∀ i ∈ is, ∀ e, t' i = some e → ¬e.Meets vnode first last
  /-- Other slots stay, or take the second half of a lock that was split. -/
  slots : ∀ i ∉ is, t' i = t i ∨ t i = none ∧ ∀ e, t' i = some e → ¬e.Meets vnode first last

namespace Cleared

variable {vnode : V} {first last : Int} {t t' t'' : Locks V} {i : Slot} {is : List Slot}

theorem refl : Cleared vnode first last [] t t where
  sub _ _ _ _ h := h
  keep _ _ _ _ h _ := h
  gone _ h := (nomatch h)
  slots _ _ := .inl rfl

theorem skip (h : Cleared vnode first last is t t')
    (hi : ∀ e, t i = some e → ¬e.Meets vnode first last) :
    Cleared vnode first last (i :: is) t t' where
  sub := h.sub
  keep := h.keep
  gone := by
    intro j hj e he
    by_cases hm : j ∈ is
    · exact h.gone j hm e he
    · obtain rfl : j = i := (mem_cons.mp hj).resolve_right hm
      rcases h.slots j hm with hs | ⟨-, hs⟩
      · exact hi e (hs ▸ he)
      · exact hs e he
  slots j hj := h.slots j fun hm => hj (mem_cons_of_mem _ hm)

theorem trans (h₁ : Cleared vnode first last [i] t t') (h₂ : Cleared vnode first last is t' t'') :
    Cleared vnode first last (i :: is) t t'' where
  sub p v b y h := h₁.sub p v b y (h₂.sub p v b y h)
  keep p v b y h hn := h₂.keep p v b y (h₁.keep p v b y h hn) hn
  gone := (h₂.skip (h₁.gone i (List.mem_singleton.mpr rfl))).gone
  slots := by
    intro j hj
    obtain ⟨hne, hm⟩ := not_or.mp (mt mem_cons.mpr hj)
    rcases h₁.slots j (by simpa using hne) with hs₁ | ⟨hn, hs₁⟩
    · rw [← hs₁]
      exact h₂.slots j hm
    · rcases h₂.slots j hm with hs₂ | ⟨-, hs₂⟩
      · exact .inr ⟨hn, fun e he => hs₁ e (hs₂ ▸ he)⟩
      · exact .inr ⟨hn, hs₂⟩

end Cleared

section Clear

variable {vnode : V} {first last : Int} {t : Locks V} {i j : Slot} {e : FileLock V}

theorem covers_update : Covers (update t i x) p v b y ↔
      (∃ e, x = some e ∧ e.Has p v b y) ∨ ∃ k e, k ≠ i ∧ t k = some e ∧ e.Has p v b y := by
  constructor
  · rintro ⟨k, e, hk, he⟩
    rcases eq_or_ne k i with rfl | hne
    · rw [update_self] at hk
      exact .inl ⟨e, hk, he⟩
    · rw [update_of_ne hne] at hk
      exact .inr ⟨k, e, hne, hk, he⟩
  · rintro (⟨e, hx, he⟩ | ⟨k, e, hne, hk, he⟩)
    · exact ⟨i, e, by rw [update_self, hx], he⟩
    · exact ⟨k, e, by rw [update_of_ne hne, hk], he⟩

theorem covers_put : Covers (update t i (some x)) p v b y ↔
      x.Has p v b y ∨ ∃ k e, k ≠ i ∧ t k = some e ∧ e.Has p v b y := by
  simp [covers_update]

theorem covers_remove :
    Covers (update t i none) p v b y ↔ ∃ k e, k ≠ i ∧ t k = some e ∧ e.Has p v b y := by
  simp [covers_update]

theorem covers_split (hi : t i = some e) :
    Covers t p v b y ↔ e.Has p v b y ∨ ∃ k x, k ≠ i ∧ t k = some x ∧ x.Has p v b y := by
  rw [← covers_put, update_eq_self_iff.mpr hi.symm]

theorem Cleared.drop (hi : t i = some e) (hv : e.vnode = vnode) (h₁ : first ≤ e.first)
    (h₂ : e.last ≤ last) : Cleared vnode first last [i] t (update t i none) where
  sub p v b y h := (covers_split hi).mpr (.inr (covers_remove.mp h))
  keep := by
    intro p v b y h hn
    rcases (covers_split hi).mp h with ⟨-, -, rfl, hb₁, hb₂⟩ | h
    · exact absurd ⟨hv, by omega, by omega⟩ hn
    · exact covers_remove.mpr h
  gone := by
    intro j hj e he
    rw [List.mem_singleton.mp hj, update_self] at he
    cases he
  slots j hj := .inl (update_of_ne (by simpa using hj) _ _)

theorem Cleared.shrink {f l : Int} (hi : t i = some e) (hv : e.vnode = vnode) (hf : e.first ≤ f)
    (hl : l ≤ e.last) (hkeep : ∀ b, e.first ≤ b → b ≤ e.last → b < first ∨ last < b → f ≤ b ∧ b ≤ l)
    (hx : last < f ∨ l < first) :
    Cleared vnode first last [i] t (update t i (some { e with first := f, last := l })) where
  sub p v b y h := by
    refine (covers_split hi).mpr ((covers_put.mp h).imp_left ?_)
    rintro ⟨hy, hp, hb, h₁, h₂⟩
    exact ⟨hy, hp, hb, hf.trans h₁, le_trans h₂ hl⟩
  keep p v b y h hn := by
    refine covers_put.mpr (((covers_split hi).mp h).imp_left ?_)
    rintro ⟨hy, hp, rfl, h₁, h₂⟩
    exact ⟨hy, hp, rfl, hkeep b h₁ h₂ (by by_contra hin; exact hn ⟨hv, by omega, by omega⟩)⟩
  gone := by
    intro j hj e he
    rw [List.mem_singleton.mp hj, update_self] at he
    cases he
    rintro ⟨-, h₁, h₂⟩
    simp only at h₁ h₂
    omega
  slots j hj := .inl (update_of_ne (by simpa using hj) _ _)

theorem Cleared.split (hi : t i = some e) (hj : t j = none) (hv : e.vnode = vnode)
    (ha : e.Around first last) (hr : first ≤ last) :
    Cleared vnode first last [i] t (update (update t j (some { e with first := last + 1 })) i
      (some { e with last := first - 1 })) := by
  have hne : j ≠ i := by
    rintro rfl
    rw [hi] at hj
    cases hj
  have hback : ∀ p v b y, Covers (update (update t j (some { e with first := last + 1 })) i
      (some { e with last := first - 1 })) p v b y ↔
      FileLock.Has { e with last := first - 1 } p v b y ∨
      FileLock.Has { e with first := last + 1 } p v b y ∨
      ∃ k x, k ≠ i ∧ t k = some x ∧ x.Has p v b y := by
    intro p v b y
    rw [covers_put]
    apply or_congr_right
    constructor
    · rintro ⟨k, x, hk, hx, hb⟩
      rcases eq_or_ne k j with rfl | hkj
      · rw [update_self] at hx
        cases hx
        exact .inl hb
      · rw [update_of_ne hkj] at hx
        exact .inr ⟨k, x, hk, hx, hb⟩
    · rintro (hb | ⟨k, x, hk, hx, hb⟩)
      · exact ⟨j, _, hne, update_self .., hb⟩
      · have hkj : k ≠ j := by
          rintro rfl
          rw [hj] at hx
          cases hx
        exact ⟨k, x, hk, by rw [update_of_ne hkj, hx], hb⟩
  obtain ⟨h₁, h₂⟩ := ha
  constructor
  · intro p v b y h
    apply (covers_split hi).mpr
    rcases (hback p v b y).mp h with ⟨hy, hp, hb, h₃, h₄⟩ | ⟨hy, hp, hb, h₃, h₄⟩ | h
    · simp only at h₃ h₄
      exact .inl ⟨hy, hp, hb, h₃, by omega⟩
    · simp only at h₃ h₄
      exact .inl ⟨hy, hp, hb, by omega, h₄⟩
    · exact .inr h
  · intro p v b y h hn
    apply (hback p v b y).mpr
    rcases (covers_split hi).mp h with ⟨hy, hp, hb, h₃, h₄⟩ | h
    · rcases lt_or_ge b first with hlt | hge
      · exact .inl ⟨hy, hp, hb, h₃, Int.le_sub_one_of_lt hlt⟩
      · have hgt : last < b := by
          by_contra hle
          exact hn ⟨hb.symm.trans hv, hge, Int.not_lt.mp hle⟩
        exact .inr (.inl ⟨hy, hp, hb, hgt, h₄⟩)
    · exact .inr (.inr h)
  · intro k hk x hx
    rw [List.mem_singleton.mp hk, update_self] at hx
    cases hx
    rintro ⟨-, -, hm⟩
    simp only at hm
    omega
  · intro k hk
    rw [update_of_ne (by simpa using hk)]
    rcases eq_or_ne k j with rfl | hkj
    · refine .inr ⟨hj, ?_⟩
      intro x hx
      rw [update_self] at hx
      cases hx
      rintro ⟨-, hm, -⟩
      simp only at hm
      omega
    · exact .inl (update_of_ne hkj _ _)

theorem TableOk.update {m : Int} (h : TableOk t n)
    (hm : m = used (update t i x)) (hx : ∀ e, x = some e → e.first ≤ e.last) :
    TableOk (update t i x) m where
  count := hm
  ordered := by
    intro k e he
    rcases eq_or_ne k i with rfl | hne
    · rw [update_self] at he
      exact hx e he
    · rw [update_of_ne hne] at he
      exact h.ordered k e he

theorem TableOk.put (h : TableOk t n) (hi : (t i).isSome)
    (hx : x.first ≤ x.last) : TableOk (Function.update t i (some x)) n :=
  h.update (by rw [used_put hi, h.count]) fun _ he => Option.some.inj he ▸ hx

theorem TableOk.putFree (h : TableOk t n) (hi : t i = none)
    (hx : x.first ≤ x.last) : TableOk (Function.update t i (some x)) (n + 1) :=
  h.update (by rw [used_put_free hi, h.count]; rfl) fun _ he => Option.some.inj he ▸ hx

theorem TableOk.remove (h : TableOk t n) (hi : (t i).isSome) :
    TableOk (Function.update t i none) (n - 1) := by
  have := used_remove hi
  have := h.count
  exact h.update (by omega) nofun

/-- The slots given back when the region is taken out of a lock: one if the lock goes, and one is
taken if it is split. -/
def FileLock.freed (e : FileLock V) (first last : Int) : Int :=
  if first ≤ e.first ∧ e.last ≤ last then 1 else if e.Around first last then -1 else 0

theorem clear_spec {s : Scan V} (hok : TableOk s.fileLock s.nrLocks) (hi : s.fileLock i = some e)
    (hm : e.Meets vnode first last) (hr : first ≤ last) :
    (∃ s', s.clear first last i e = .ok s' ∧ Cleared vnode first last [i] s.fileLock s'.fileLock ∧
      TableOk s'.fileLock s'.nrLocks ∧ s'.nrLocks = s.nrLocks - e.freed first last ∧
      (e.Around first last → s.nrLocks < nrLocksMax)) ∨
    s.clear first last i e = .error .enolck ∧ e.Around first last ∧ s.nrLocks = nrLocksMax := by
  have hsome : (s.fileLock i).isSome := by rw [hi]; rfl
  obtain ⟨hv, hm₁, hm₂⟩ := hm
  simp only [Scan.clear, Scan.put]
  split_ifs with h₁ h₂ h₃ h₄
  · refine .inl ⟨_, rfl, .drop hi hv h₁.1 h₁.2, hok.remove hsome, ?_, ?_⟩
    · rw [FileLock.freed, if_pos h₁]
    · rintro ⟨ha, -⟩
      omega
  · have ha : ¬e.Around first last := fun ha => by have := ha.1; omega
    refine .inl ⟨_, rfl, .shrink hi hv (by omega) le_rfl (by omega) (by omega),
      hok.put hsome (by simp only; omega), ?_, fun h => absurd h ha⟩
    rw [FileLock.freed, if_neg h₁, if_neg ha, Int.sub_zero]
  · have ha : ¬e.Around first last := fun ha => by have := ha.2; omega
    refine .inl ⟨_, rfl, .shrink hi hv le_rfl (by omega) (by omega) (by omega),
      hok.put hsome (by simp only; omega), ?_, fun h => absurd h ha⟩
    rw [FileLock.freed, if_neg h₁, if_neg ha, Int.sub_zero]
  · exact .inr ⟨rfl, ⟨by omega, by omega⟩, h₄⟩
  · have ha : e.Around first last := ⟨by omega, by omega⟩
    have hle := used_le s.fileLock
    have hc := hok.count
    cases hf : firstFree s.fileLock with
    | none =>
      have := firstFree_eq_none hf
      omega
    | some j =>
      have hj := firstFree_eq_some hf
      have hne : i ≠ j := by
        rintro rfl
        rw [hi] at hj
        cases hj
      refine .inl ⟨_, rfl, .split hi hj hv ha hr, ?_, ?_, fun _ => by omega⟩
      · apply TableOk.put
        · exact hok.putFree hj (by simp only; omega)
        · rw [update_of_ne hne, hi]
          rfl
        · simp only
          omega
      · simp [FileLock.freed, h₁, ha]

end Clear

section Unlock

variable [DecidableEq V]

/-- The slots are looked through in order with this many free: every lock around the region still
finds a slot for its second part. -/
def room (t : Locks V) (vnode : V) (first last : Int) : List Slot → Int → Prop
  | [], _ => True
  | i :: is, free =>
    match t i with
    | none => room t vnode first last is free
    | some e =>
      if e.Meets vnode first last then
        (e.Around first last → 0 < free) ∧ room t vnode first last is (free + e.freed first last)
      else room t vnode first last is free

def stuck (t : Locks V) (vnode : V) (first last : Int) : List Slot → Prop
  | [] => False
  | i :: is =>
    match t i with
    | none => stuck t vnode first last is
    | some e =>
      if e.Meets vnode first last then e.Around first last else stuck t vnode first last is

variable {vnode : V} {first last : Int} {q : LockRequest V}

theorem room_congr (t t' : Locks V) {free : Int}
    (h : ∀ i ∈ is, t' i = t i ∨ t i = none ∧ ∀ e, t' i = some e → ¬e.Meets vnode first last) :
    room t' vnode first last is free ↔ room t vnode first last is free := by
  induction is generalizing free with
  | nil => exact Iff.rfl
  | cons i is ih =>
    have htail : ∀ free, room t' vnode first last is free ↔ room t vnode first last is free :=
      fun _ => ih fun j hj => h j (mem_cons_of_mem _ hj)
    rcases h i mem_cons_self with hi | ⟨hn, hi⟩
    · simp only [room, hi, htail]
    · cases ht : t' i with
      | none => simp only [room, hn, ht, htail]
      | some e => simp only [room, hn, ht, if_neg (hi e ht), htail]

theorem passes_unlock (hu : q.ltype = .unlck) (e : FileLock V) :
    q.passes first last e ↔ ¬e.Meets q.vnode first last := by
  simp only [LockRequest.passes, hu, reduceCtorEq, false_and, ne_eq, not_true_eq_false, or_false]
  constructor
  · rintro h ⟨hv, h₁, h₂⟩
    rcases h with h | h | h
    · exact h hv
    · omega
    · omega
  · intro h
    by_contra hn
    simp only [not_or, not_not] at hn
    exact h ⟨hn.1, by omega, by omega⟩

theorem lockScan_free {s : Scan V} (hi : s.fileLock i = none) : lockScan q first last (i :: is) s =
      lockScan q first last is { s with empty := s.empty <|> some i } := by
  rw [lockScan, hi]

theorem lockScan_pass {s : Scan V} {e : FileLock V}
    (hi : s.fileLock i = some e) (hp : q.passes first last e) :
    lockScan q first last (i :: is) s = lockScan q first last is s := by
  rw [lockScan, hi]
  simp only [if_pos hp]

theorem lockScan_clear {s : Scan V} {e : FileLock V}
    (hi : s.fileLock i = some e) (hm : e.Meets q.vnode first last) (hu : q.ltype = .unlck)
    (hc : q.cmd ≠ .getlk) : lockScan q first last (i :: is) s = match s.clear first last i e with
      | .ok s => lockScan q first last is s
      | .error answer => (some answer, { s with unlocking := true }) := by
  have hp : ¬q.passes first last e := by
    rw [passes_unlock hu]
    exact not_not_intro hm
  rw [lockScan, hi]
  exact (if_neg hp).trans ((if_neg hc).trans (if_neg (not_not_intro hu)))

section

variable (hu : q.ltype = .unlck)

include hu

section

variable (hc : q.cmd ≠ .getlk)

include hc

section

variable (hr : first ≤ last)

include hr

theorem lockScan_unlock {s : Scan V} (hn : is.Nodup) (hok : TableOk s.fileLock s.nrLocks)
    (hroom : room s.fileLock q.vnode first last is (nrLocksMax - s.nrLocks)) :
    ∃ s', lockScan q first last is s = (none, s') ∧
      Cleared q.vnode first last is s.fileLock s'.fileLock ∧ TableOk s'.fileLock s'.nrLocks := by
  induction is generalizing s with
  | nil => exact ⟨s, rfl, .refl, hok⟩
  | cons i is ih =>
    obtain ⟨hni, hns⟩ := nodup_cons.mp hn
    cases hi : s.fileLock i with
    | none =>
      simp only [room, hi] at hroom
      rw [lockScan_free hi]
      obtain ⟨s', hs, hcl, hok'⟩ := ih (s := { s with empty := s.empty <|> some i }) hns hok hroom
      exact ⟨s', hs, hcl.skip (fun e he => by simp [hi] at he), hok'⟩
    | some e =>
      by_cases hm : e.Meets q.vnode first last
      · simp only [room, hi, if_pos hm] at hroom
        rw [lockScan_clear hi hm hu hc]
        rcases clear_spec hok hi hm hr with ⟨s₁, hs₁, hcl₁, hok₁, hnr, -⟩ | ⟨-, ha, hfull⟩
        · rw [hs₁]
          have hroom₁ : room s₁.fileLock q.vnode first last is (nrLocksMax - s₁.nrLocks) := by
            apply (room_congr _ _ _).mpr
            · convert hroom.2 using 1
              omega
            · intro j hj
              apply hcl₁.slots j
              rintro hji
              rw [List.mem_singleton.mp hji] at hj
              exact hni hj
          obtain ⟨s', hs, hcl, hok'⟩ := ih hns hok₁ hroom₁
          exact ⟨s', hs, hcl₁.trans hcl, hok'⟩
        · have := hroom.1 ha
          omega
      · simp only [room, hi, if_neg hm] at hroom
        rw [lockScan_pass hi ((passes_unlock hu e).mpr hm)]
        obtain ⟨s', hs, hcl, hok'⟩ := ih hns hok hroom
        refine ⟨s', hs, hcl.skip ?_, hok'⟩
        rintro x hx
        rw [hi] at hx
        cases hx
        exact hm

theorem lockScan_stuck {s : Scan V} (hok : TableOk s.fileLock s.nrLocks)
    (hfull : s.nrLocks = nrLocksMax) (hs : stuck s.fileLock q.vnode first last is) :
    ∃ s', lockScan q first last is s = (some .enolck, s') ∧ s'.fileLock = s.fileLock ∧
      s'.nrLocks = s.nrLocks := by
  induction is generalizing s with
  | nil => exact hs.elim
  | cons i is ih =>
    cases hi : s.fileLock i with
    | none =>
      simp only [stuck, hi] at hs
      rw [lockScan_free hi]
      exact ih hok hfull hs
    | some e =>
      by_cases hm : e.Meets q.vnode first last
      · simp only [stuck, hi, if_pos hm] at hs
        rw [lockScan_clear hi hm hu hc]
        rcases clear_spec hok hi hm hr with ⟨-, -, -, -, -, hlt⟩ | ⟨he, -, -⟩
        · have := hlt hs
          omega
        · rw [he]
          exact ⟨_, rfl, rfl, rfl⟩
      · simp only [stuck, hi, if_neg hm] at hs
        rw [lockScan_pass hi ((passes_unlock hu e).mpr hm)]
        exact ih hok hfull hs

omit hr in
omit hc in
omit hu in
/-- Where no lock has to be split, there is room. -/
theorem room_of_not_around {t : Locks V} {free : Int}
    (h : ∀ i e, t i = some e → ¬e.Around first last) : room t vnode first last is free := by
  induction is generalizing free with
  | nil => trivial
  | cons i is ih =>
    cases hi : t i with
    | none =>
      simp only [room, hi]
      exact ih
    | some e =>
      simp only [room, hi]
      split_ifs
      · exact ⟨fun hround => absurd hround (h i e hi), ih⟩
      · exact ih

omit hr in
omit hc in
omit hu in
theorem not_stuck_of_room {t : Locks V} (h : room t vnode first last is 0) :
    ¬stuck t vnode first last is := by
  induction is with
  | nil => exact id
  | cons i is ih =>
    cases hi : t i with
    | none =>
      simp only [room, stuck, hi] at h ⊢
      exact ih h
    | some e =>
      by_cases hm : e.Meets vnode first last
      · simp only [room, stuck, hi, if_pos hm] at h ⊢
        exact fun ha => absurd (h.1 ha) (lt_irrefl _)
      · simp only [room, stuck, hi, if_neg hm] at h ⊢
        exact ih h

theorem lockScan_slots {s : Scan V} (hok : TableOk s.fileLock s.nrLocks) {j : Slot} (hj : j ∉ is) :
    (lockScan q first last is s).2.fileLock j = s.fileLock j ∨ s.fileLock j = none ∧
      ∀ e, (lockScan q first last is s).2.fileLock j = some e → ¬e.Meets q.vnode first last := by
  induction is generalizing s with
  | nil => exact .inl rfl
  | cons i is ih =>
    obtain ⟨hji, hjs⟩ := not_or.mp (mt mem_cons.mpr hj)
    cases hi : s.fileLock i with
    | none =>
      rw [lockScan_free hi]
      exact ih hok hjs
    | some e =>
      by_cases hm : e.Meets q.vnode first last
      · rw [lockScan_clear hi hm hu hc]
        rcases clear_spec hok hi hm hr with ⟨s₁, hs₁, hcl, hok₁, -⟩ | ⟨he, -⟩
        · rw [hs₁]
          rcases hcl.slots j (by simpa using hji) with h₁ | ⟨hn, h₁⟩
          · rw [← h₁]
            exact ih hok₁ hjs
          · refine .inr ⟨hn, ?_⟩
            rcases ih hok₁ hjs with h₂ | ⟨-, h₂⟩
            · simp only [h₂]
              exact h₁
            · exact h₂
        · rw [he]
          exact .inl rfl
      · rw [lockScan_pass hi ((passes_unlock hu e).mpr hm)]
        exact ih hok hjs

theorem lockScan_fails {s : Scan V} (hn : is.Nodup) (hok : TableOk s.fileLock s.nrLocks)
    (hroom : ¬room s.fileLock q.vnode first last is (nrLocksMax - s.nrLocks)) :
    (lockScan q first last is s).1 = some .enolck ∧
      (s.nrLocks = nrLocksMax ∧ stuck s.fileLock q.vnode first last is ∨
        (lockScan q first last is s).2.fileLock ≠ s.fileLock) := by
  induction is generalizing s with
  | nil => exact absurd trivial hroom
  | cons i is ih =>
    obtain ⟨hni, hns⟩ := nodup_cons.mp hn
    cases hi : s.fileLock i with
    | none =>
      simp only [room, stuck, hi] at hroom ⊢
      rw [lockScan_free hi]
      exact ih hns hok hroom
    | some e =>
      by_cases hm : e.Meets q.vnode first last
      · simp only [room, stuck, hi, if_pos hm] at hroom ⊢
        rw [lockScan_clear hi hm hu hc]
        rcases clear_spec hok hi hm hr with ⟨s₁, hs₁, hcl, hok₁, hnr, hlt⟩ | ⟨he, ha, hfull⟩
        · rw [hs₁]
          have hroom₁ : ¬room s₁.fileLock q.vnode first last is (nrLocksMax - s₁.nrLocks) := by
            intro h
            apply hroom
            refine ⟨fun ha => by have := hlt ha; omega, ?_⟩
            rw [room_congr s.fileLock s₁.fileLock] at h
            · convert h using 1
              omega
            · intro j hj
              apply hcl.slots j
              intro hji
              rw [List.mem_singleton.mp hji] at hj
              exact hni hj
          refine ⟨(ih hns hok₁ hroom₁).1, .inr ?_⟩
          -- slot `i` met the region before and does not any more
          intro heq
          have hgone := hcl.gone i (List.mem_singleton.mpr rfl)
          have hend : (lockScan q first last is s₁).2.fileLock i = some e := by rw [heq, hi]
          rcases lockScan_slots hu hc hr hok₁ hni with h₂ | ⟨-, h₂⟩
          · exact hgone e (h₂ ▸ hend) hm
          · exact h₂ e hend hm
        · rw [he]
          exact ⟨rfl, .inl ⟨hfull, ha⟩⟩
      · simp only [room, stuck, hi, if_neg hm] at hroom ⊢
        rw [lockScan_pass hi ((passes_unlock hu e).mpr hm)]
        exact ih hns hok hroom

theorem lockScan_ok {s : Scan V} (hok : TableOk s.fileLock s.nrLocks) :
    TableOk (lockScan q first last is s).2.fileLock (lockScan q first last is s).2.nrLocks := by
  induction is generalizing s with
  | nil => exact hok
  | cons i is ih =>
    cases hi : s.fileLock i with
    | none =>
      rw [lockScan_free hi]
      exact ih hok
    | some e =>
      by_cases hm : e.Meets q.vnode first last
      · rw [lockScan_clear hi hm hu hc]
        rcases clear_spec hok hi hm hr with ⟨s₁, hs₁, -, hok₁, -⟩ | ⟨he, -⟩
        · rw [hs₁]
          exact ih hok₁
        · rw [he]
          exact hok
      · rw [lockScan_pass hi ((passes_unlock hu e).mpr hm)]
        exact ih hok

end

end

end

end Unlock

section Lock

variable [DecidableEq V] {first last : Int} {q : LockRequest V}

def LockRequest.blockedBy (q : LockRequest V) (e : FileLock V) : LockAnswer V :=
  match q.cmd with
  | .getlk => .report (some e)
  | .setlk => .eagain
  | .setlkw => .suspend

theorem lockScan_lock {type : LockType} (ht : q.ltype = .lock type) {s : Scan V} :
    (∃ i ∈ is, ∃ e, s.fileLock i = some e ∧ ¬q.passes first last e ∧
      ∃ s', lockScan q first last is s = (some (q.blockedBy e), s') ∧
        s'.fileLock = s.fileLock ∧ s'.nrLocks = s.nrLocks) ∨
    (∀ i ∈ is, ∀ e, s.fileLock i = some e → q.passes first last e) ∧ lockScan q first last is s =
        (none, { s with empty := s.empty <|> is.find? fun i => (s.fileLock i).isNone }) := by
  induction is generalizing s with
  | nil =>
    refine .inr ⟨fun _ h => (nomatch h), ?_⟩
    simp [lockScan]
  | cons i is ih =>
    cases hi : s.fileLock i with
    | none =>
      rw [lockScan_free hi]
      rcases ih (s := { s with empty := s.empty <|> some i }) with
        ⟨j, hj, e, he, hp, hs⟩ | ⟨hp, hs⟩
      · exact .inl ⟨j, mem_cons_of_mem _ hj, e, he, hp, hs⟩
      · refine .inr ⟨?_, ?_⟩
        · intro j hj e he
          rcases mem_cons.mp hj with rfl | hj
          · rw [hi] at he
            cases he
          · exact hp j hj e he
        · rw [hs]
          cases s.empty <;> simp [hi]
    | some e =>
      by_cases hp : q.passes first last e
      · rw [lockScan_pass hi hp]
        rcases ih with ⟨j, hj, x, hx, hpx, hs⟩ | ⟨hall, hs⟩
        · exact .inl ⟨j, mem_cons_of_mem _ hj, x, hx, hpx, hs⟩
        · refine .inr ⟨?_, ?_⟩
          · intro j hj x hx
            rcases mem_cons.mp hj with rfl | hj
            · rw [hi] at hx
              cases hx
              exact hp
            · exact hall j hj x hx
          · rw [hs]
            simp [hi]
      · refine .inl ⟨i, mem_cons_self, e, hi, hp, s, ?_, rfl, rfl⟩
        rw [lockScan, hi]
        simp only [if_neg hp, ht]
        cases hq : q.cmd <;> simp [LockRequest.blockedBy, hq]

end Lock

end Gergios.Vfs
