import Gergios.Lib.Bits
import Gergios.Lib.Linked

/-!
# Interrupt lines

The hooks of a line are a list threaded through the hooks. Each has a bit of its own in
`irq_actids`, which is set while the hook is being handled or is disabled; the line is masked as
long as any bit is set. A hook is known by its address, so that the same hook can be registered
again.
-/

namespace Gergios.Kernel.Irq

open Lib Function List Nat Option

abbrev nrIrqVectors : Nat := 64

abbrev Line := Fin nrIrqVectors

instance : NeZero nrIrqVectors := ⟨by decide⟩

/-- `irq_hook_t`, as far as `interrupt.c` uses it; `H` is the type of addresses of hooks. -/
structure Hook (H : Type) where
  next : Option H
  irq : Line
  id : BitVec 32
  deriving DecidableEq

structure Lines (H : Type) where
  hook : H → Hook H
  handlers : Line → Option H
  actids : Line → BitVec 32
  unmasked : Line → Bool

inductive Fault where
  | panic | hang
  deriving DecidableEq

section Model

variable {H : Type} [DecidableEq H]

namespace Lines

variable (s : Lines H)

def next (h : H) : Option H := (s.hook h).next

variable (irq : Line)

/-- What `*line` is: the head of a list, or the link of the hook before. -/
def cell : Option H → Option H
  | none => s.handlers irq
  | some p => (s.hook p).next

def setCell : Option H → Option H → Lines H
  | none, v => { s with handlers := update s.handlers irq v }
  | some p, v => { s with hook := update s.hook p { s.hook p with next := v } }

def setActids (v : BitVec 32) : Lines H :=
  { s with actids := update s.actids irq v }

/-- `hw_intr_mask` and `hw_intr_unmask` -/
def setUnmasked (b : Bool) : Lines H :=
  { s with unmasked := update s.unmasked irq b }

end Lines

/-- The walk of `put_irq_handler` to the end of a list, collecting the ids in use; the inner
`none` is a hook that is already there. -/
def scan (s : Lines H) (h : H) :
    Nat → Option H → Option H → BitVec 32 → Except Fault (Option (Option H × BitVec 32))
  | 0, _, _, _ => .error .hang
  | _ + 1, prev, none, bitmap => .ok (some (prev, bitmap))
  | n + 1, _, some a, bitmap =>
    if a = h then .ok none else scan s h n (some a) (s.next a) (bitmap ||| (s.hook a).id)

def freeId (bitmap : BitVec 32) : Option (BitVec 32) :=
  ((List.range 32).map fun i => 1#32 <<< i).find? fun id => bitmap &&& id == 0

def enableIrq (s : Lines H) (h : H) : Lines H :=
  let irq := (s.hook h).irq
  let s := s.setActids irq (s.actids irq &&& ~~~(s.hook h).id)
  if s.actids irq = 0 then s.setUnmasked irq true else s

def disableIrq (s : Lines H) (h : H) : Lines H :=
  let irq := (s.hook h).irq
  if s.actids irq &&& (s.hook h).id ≠ 0 then s
  else (s.setActids irq (s.actids irq ||| (s.hook h).id)).setUnmasked irq false

/-- The loop of `rm_irq_handler`, which takes out every hook with the id. -/
def rmLoop (irq : Line) (id : BitVec 32) : Nat → Option H → Lines H → Except Fault (Lines H)
  | 0, _, _ => .error .hang
  | n + 1, prev, s =>
    match s.cell irq prev with
    | none => .ok s
    | some a =>
      if (s.hook a).id = id then
        let s := s.setCell irq prev (s.hook a).next
        rmLoop irq id n prev (s.setActids irq (s.actids irq &&& ~~~id))
      else rmLoop irq id n (some a) s

/-- The calls of the hooks of a line; `r` is what the handlers return. -/
def handleLoop (r : H → Bool) (irq : Line) : Nat → Option H → Lines H → Except Fault (Lines H)
  | 0, _, _ => .error .hang
  | _ + 1, none, s => .ok s
  | n + 1, some a, s =>
    let s := s.setActids irq (s.actids irq ||| (s.hook a).id)
    let s :=
      if r a then s.setActids (s.hook a).irq (s.actids (s.hook a).irq &&& ~~~(s.hook a).id) else s
    handleLoop r irq n (s.hook a).next s

variable [Fintype H]

def maxWalk (H : Type) [Fintype H] : Nat := Fintype.card H + 1

/-- What `put_irq_handler` and `put_msix_handler` have in common; `none` is a hook that is on the
line already. -/
def addHook (s : Lines H) (h : H) (irq : Line) : Except Fault (Option (Lines H)) :=
  match scan s h (maxWalk H) none (s.handlers irq) 0 with
  | .error e => .error e
  | .ok none => .ok none
  | .ok (some (prev, bitmap)) =>
    match freeId bitmap with
    | none => .error .panic
    | some id =>
      let s := { s with hook := update s.hook h ⟨none, irq, id⟩ }
      .ok (some (s.setCell irq prev (some h)))

def toLine (irq : Int) : Except Fault Line :=
  if h : 0 ≤ irq ∧ irq < nrIrqVectors then .ok ⟨irq.toNat, (Int.toNat_lt h.1).mpr h.2⟩
  else .error .panic

def putIrqHandler (s : Lines H) (h : H) (irq : Int) : Except Fault (Lines H) :=
  match toLine irq with
  | .error e => .error e
  | .ok irq =>
    match addHook s h irq with
    | .error e => .error e
    | .ok none => .ok s
    | .ok (some t) => .ok (enableIrq t h)

def rmIrqHandler (s : Lines H) (h : H) : Except Fault (Lines H) :=
  let irq := (s.hook h).irq
  match rmLoop irq (s.hook h).id (maxWalk H) none s with
  | .error e => .error e
  | .ok s =>
    if s.handlers irq = none then .ok (s.setUnmasked irq false)
    else if s.actids irq = 0 then .ok (s.setUnmasked irq true)
    else .ok s

def irqHandle (s : Lines H) (irq : Line) (r : H → Bool) : Except Fault (Lines H) :=
  let s := s.setUnmasked irq false
  if s.handlers irq = none then .ok s
  else
    match handleLoop r irq (maxWalk H) (s.handlers irq) s with
    | .error e => .error e
    | .ok s => .ok (if s.actids irq = 0 then s.setUnmasked irq true else s)

end Model

/-! ## Ids -/

def IsBit (id : BitVec 32) : Prop := ∃ i, i < 32 ∧ id = 1#32 <<< i

variable {bitmap id : BitVec 32} {j n : Nat}

theorem freeId_eq_some (h : freeId bitmap = some id) :
    ∃ i, i < 32 ∧ id = 1#32 <<< i ∧ bitmap.getLsbD i = false := by
  have hmem := mem_of_find?_eq_some h
  have hzero := find?_some h
  obtain ⟨i, hi, rfl⟩ := mem_map.mp hmem
  rw [List.mem_range] at hi
  rw [beq_iff_eq, and_bit_eq_zero_iff hi] at hzero
  exact ⟨i, hi, rfl, hzero⟩

theorem freeId_ne_none {α : Type} {l : List α} {id : α → BitVec 32}
    (hlen : l.length < 32) (hbit : ∀ a ∈ l, IsBit (id a))
    (hmap : ∀ j, bitmap.getLsbD j = true → ∃ a ∈ l, (id a).getLsbD j = true) :
    freeId bitmap ≠ none := by
  intro hfind
  have hlog : ∀ i < 32, (1#32 <<< i).toNat.log2 = i := by decide
  have hsub : List.range 32 ⊆ l.map fun a => (id a).toNat.log2 := by
    intro i hi
    have hi' := List.mem_range.mp hi
    have hset := find?_eq_none.mp hfind _ (mem_map_of_mem hi)
    rw [beq_iff_eq, and_bit_eq_zero_iff hi', Bool.not_eq_false] at hset
    obtain ⟨a, ha, hai⟩ := hmap i hset
    obtain ⟨j, hj, hid⟩ := hbit a ha
    rw [hid, getLsbD_bit hj, decide_eq_true_iff] at hai
    exact mem_map.mpr ⟨a, ha, by rw [hid, hlog j hj, hai]⟩
  have hle := (nodup_range.subperm hsub).length_le
  rw [length_range, length_map] at hle
  omega

/-! ## Lists -/

structure HookList {H : Type} (s : Lines H) (irq : Line) (l : List H) : Prop where
  chain : Linked s.next (s.handlers irq) l
  onLine : ∀ a ∈ l, (s.hook a).irq = irq
  single : ∀ a ∈ l, IsBit (s.hook a).id
  distinct : (l.map fun a => (s.hook a).id).Nodup

section Lists

variable {H : Type} {s t : Lines H} {irq : Line} {l : List H} {h : H}

theorem HookList.congr (hl : HookList s irq l) (hhead : t.handlers irq = s.handlers irq)
    (hhook : ∀ a ∈ l, t.hook a = s.hook a) : HookList t irq l := by
  refine ⟨?_, fun a ha => ?_, fun a ha => ?_, ?_⟩
  · rw [hhead]
    exact hl.chain.congr fun a ha => congrArg Hook.next (hhook a ha)
  · rw [hhook a ha]
    exact hl.onLine a ha
  · rw [hhook a ha]
    exact hl.single a ha
  · rw [map_congr_left fun a ha => congrArg Hook.id (hhook a ha)]
    exact hl.distinct

theorem HookList.eq_of_mem {irq' : Line} {l' : List H} (hl : HookList s irq l)
    (hl' : HookList s irq' l') (hmem : h ∈ l) (hmem' : h ∈ l') : irq = irq' :=
  (hl.onLine h hmem).symm.trans (hl'.onLine h hmem')

theorem getLsbD_foldl_or {f : H → BitVec 32}
    (h : (l.foldl (fun b a => b ||| f a) bitmap).getLsbD j = true) :
    bitmap.getLsbD j = true ∨ ∃ a ∈ l, (f a).getLsbD j = true := by
  induction l generalizing bitmap with
  | nil => exact .inl h
  | cons a l ih =>
    rcases ih h with hb | ⟨b, hb, hbj⟩
    · rw [BitVec.getLsbD_or, Bool.or_eq_true] at hb
      exact hb.imp_right fun ha => ⟨a, mem_cons_self, ha⟩
    · exact .inr ⟨b, mem_cons_of_mem a hb, hbj⟩

theorem getLsbD_foldl_of_mem (bitmap : BitVec 32) {f : H → BitVec 32} {a : H}
    (ha : a ∈ l) (haj : (f a).getLsbD j = true) :
    (l.foldl (fun b a => b ||| f a) bitmap).getLsbD j = true := by
  have hmono : ∀ (l : List H) (b : BitVec 32), b.getLsbD j = true →
      (l.foldl (fun b a => b ||| f a) b).getLsbD j = true := by
    intro l
    induction l with
    | nil => exact fun _ hb => hb
    | cons c l ih => exact fun b hb => ih _ (by rw [BitVec.getLsbD_or, hb, Bool.true_or])
  induction l generalizing bitmap with
  | nil => cases ha
  | cons c l ih =>
    rcases mem_cons.mp ha with rfl | ha
    · exact hmono l _ (by rw [BitVec.getLsbD_or, haj, Bool.or_true])
    · exact ih _ ha

theorem linked_lt_maxWalk [Fintype H] {next : H → Option H} {cur : Option H}
    (hl : Linked next cur l) : l.length < maxWalk H := lt_succ_of_le hl.length_le

theorem handleLoop_spec (r : H → Bool) {cur : Option H} (hl : Linked s.next cur l)
    (hirq : ∀ a ∈ l, (s.hook a).irq = irq) (hn : l.length < n) :
    ∃ v, handleLoop r irq n cur s = .ok (s.setActids irq v) ∧ ∀ j, v.getLsbD j = true →
        (s.actids irq).getLsbD j = true ∨ ∃ a ∈ l, (s.hook a).id.getLsbD j = true := by
  induction l generalizing n cur s with
  | nil =>
    obtain ⟨m, rfl⟩ := Nat.exists_eq_add_of_lt hn
    refine ⟨s.actids irq, ?_, fun j hj => .inl hj⟩
    rw [linked_nil.mp hl, handleLoop, Lines.setActids, update_eq_self]
  | cons a l ih =>
    obtain ⟨m, rfl⟩ := exists_eq_succ_of_ne_zero (Nat.ne_of_gt (zero_lt_of_lt hn))
    have ha := hirq a mem_cons_self
    -- both outcomes of the handler leave a state that differs in the bits of the line
    obtain ⟨w, hw, hstep⟩ : ∃ w : BitVec 32, (∀ j, w.getLsbD j = true →
        (s.actids irq).getLsbD j = true ∨ (s.hook a).id.getLsbD j = true) ∧
        handleLoop r irq (m + 1) cur s = handleLoop r irq m (s.next a) (s.setActids irq w) := by
      rw [hl.1, handleLoop]
      cases r a with
      | false =>
        refine ⟨s.actids irq ||| (s.hook a).id, fun j hj => ?_, rfl⟩
        rwa [BitVec.getLsbD_or, Bool.or_eq_true] at hj
      | true =>
        refine ⟨(s.actids irq ||| (s.hook a).id) &&& ~~~(s.hook a).id, fun j hj => ?_, ?_⟩
        · rw [BitVec.getLsbD_and, Bool.and_eq_true, BitVec.getLsbD_or, Bool.or_eq_true] at hj
          exact hj.1
        · simp [Lines.setActids, Lines.next, ha]
    obtain ⟨v, hv, hbits⟩ := ih (s := s.setActids irq w) hl.2
      (fun b hb => hirq b (mem_cons_of_mem a hb)) (lt_of_succ_lt_succ hn)
    refine ⟨v, ?_, fun j hj => ?_⟩
    · rw [hstep, hv]
      simp [Lines.setActids]
    · rcases hbits j hj with hacts | ⟨b, hb, hbj⟩
      · rw [Lines.setActids] at hacts
        simp only [update_self] at hacts
        exact (hw j hacts).imp_right fun hid => ⟨a, mem_cons_self, hid⟩
      · exact .inr ⟨b, mem_cons_of_mem a hb, hbj⟩

variable [DecidableEq H]

theorem scan_eq {prev cur : Option H} (hl : Linked s.next cur l)
    (hn : l.length < n) : scan s h n prev cur bitmap = .ok (if h ∈ l then none else
      some (l.getLast?.or prev, l.foldl (fun b a => b ||| (s.hook a).id) bitmap)) := by
  induction l generalizing n prev cur bitmap with
  | nil =>
    obtain ⟨m, rfl⟩ := Nat.exists_eq_add_of_lt hn
    rw [linked_nil.mp hl]
    rfl
  | cons a l ih =>
    obtain ⟨m, rfl⟩ := Nat.exists_eq_add_of_lt hn
    rw [hl.1, scan]
    by_cases ha : a = h
    · simp [ha]
    · rw [if_neg ha, ih hl.2 (lt_of_succ_lt_succ hn)]
      have hmem : h ∈ a :: l ↔ h ∈ l := by simp [Ne.symm ha]
      simp only [hmem]
      cases l using reverseRecOn <;> simp [getLast?_cons]

structure OffLine (s t : Lines H) (irq : Line) (l : List H) : Prop where
  hook : ∀ a, a ∉ l → t.hook a = s.hook a
  handlers : ∀ j, j ≠ irq → t.handlers j = s.handlers j
  actids : ∀ j, j ≠ irq → t.actids j = s.actids j
  unmasked : ∀ j, j ≠ irq → t.unmasked j = s.unmasked j

section

variable (s : Lines H)

section

variable (irq : Line)

variable (c v)

theorem setCell_rest : (∀ j, j ≠ irq → (s.setCell irq c v).handlers j = s.handlers j) ∧
    (s.setCell irq c v).actids = s.actids ∧ (s.setCell irq c v).unmasked = s.unmasked := by
  cases c with
  | none => exact ⟨fun j hj => update_of_ne hj .., rfl, rfl⟩
  | some p => exact ⟨fun _ _ => rfl, rfl, rfl⟩

theorem setCell_hook (a : H) : ((s.setCell irq c v).hook a).irq = (s.hook a).irq ∧
    ((s.setCell irq c v).hook a).id = (s.hook a).id ∧
    (c ≠ some a → (s.setCell irq c v).hook a = s.hook a) := by
  cases c with
  | none => exact ⟨rfl, rfl, fun _ => rfl⟩
  | some p =>
    rcases eq_or_ne a p with rfl | hne
    · simp [Lines.setCell]
    · simp [Lines.setCell, update_of_ne hne]

theorem setCell_next : (s.setCell irq c v).next = cellNext s.next c v := by
  cases c with
  | none => rfl
  | some p => exact comp_update Hook.next s.hook p _

theorem setCell_handlers : (s.setCell irq c v).handlers irq = cellHead (s.handlers irq) c v := by
  cases c with
  | none => exact update_self ..
  | some p => rfl

variable {c v}

def appended (l : List H) (h : H) (id : BitVec 32) : Lines H :=
  Lines.setCell { s with hook := update s.hook h ⟨none, irq, id⟩ } irq l.getLast? (some h)

theorem appended_hook (hh : h ∉ l) (id : BitVec 32) :
    (appended s irq l h id).hook h = ⟨none, irq, id⟩ ∧
    (∀ a, a ≠ h → ((appended s irq l h id).hook a).irq = (s.hook a).irq ∧
      ((appended s irq l h id).hook a).id = (s.hook a).id) ∧
    ∀ a, a ≠ h → l.getLast? ≠ some a → (appended s irq l h id).hook a = s.hook a := by
  have hset :=
    setCell_hook { s with hook := update s.hook h ⟨none, irq, id⟩ } irq l.getLast? (some h)
  have hne : ∀ a, a ≠ h → update s.hook h ⟨none, irq, id⟩ a = s.hook a :=
    fun a ha => update_of_ne ha ..
  refine ⟨?_, fun a ha => ?_, fun a ha hlast => ?_⟩
  · exact ((hset h).2.2 fun hlast => hh (mem_of_getLast? hlast)).trans (update_self ..)
  · obtain ⟨hirq, hid, -⟩ := hset a
    exact ⟨hirq.trans (congrArg _ (hne a ha)), hid.trans (congrArg _ (hne a ha))⟩
  · exact ((hset a).2.2 hlast).trans (hne a ha)

end

end

theorem appended_chain (hl : Linked s.next (s.handlers irq) l) (hh : h ∉ l) (id : BitVec 32) :
    Linked (appended s irq l h id).next ((appended s irq l h id).handlers irq) (l ++ [h]) := by
  rw [appended, setCell_next, setCell_handlers]
  rw [← append_nil l] at hl hh
  refine hl.insertCell hh (congrArg Hook.next (update_self h _ s.hook)) fun z hz => ?_
  have hne : z ≠ h := fun heq => hh (heq ▸ hz)
  exact congrArg Hook.next (update_of_ne hne _ s.hook)

theorem cell_setCell (s : Lines H) (irq : Line) (c v : Option H) :
    (s.setCell irq c v).cell irq c = v := by
  cases c <;> simp [Lines.cell, Lines.setCell]

theorem rmLoop_of_absent {prev : Option H}
    (hl : Linked s.next (s.cell irq prev) l) (hid : ∀ a ∈ l, (s.hook a).id ≠ id)
    (hn : l.length < n) : rmLoop irq id n prev s = .ok s := by
  induction l generalizing n prev with
  | nil =>
    obtain ⟨m, rfl⟩ := Nat.exists_eq_add_of_lt hn
    rw [rmLoop, linked_nil.mp hl]
  | cons a l ih =>
    obtain ⟨m, rfl⟩ := Nat.exists_eq_add_of_lt hn
    rw [rmLoop, hl.1]
    simp only [if_neg (hid a mem_cons_self)]
    exact ih hl.2 (fun b hb => hid b (mem_cons_of_mem a hb)) (lt_of_succ_lt_succ hn)

/-- The state after the hook behind the cell `c` has been taken out. -/
def removed (s : Lines H) (irq : Line) (c : Option H) (h : H) : Lines H :=
  (s.setCell irq c (s.next h)).setActids irq (s.actids irq &&& ~~~(s.hook h).id)

theorem rmLoop_eq {prev : Option H} {pre post : List H}
    (hl : Linked s.next (s.cell irq prev) (pre ++ h :: post))
    (hpre : ∀ a ∈ pre, (s.hook a).id ≠ (s.hook h).id)
    (hpost : ∀ a ∈ post, (s.hook a).id ≠ (s.hook h).id)
    (hprev : ∀ p, prev = some p → p ∉ pre ++ h :: post) (hn : (pre ++ h :: post).length < n) :
    rmLoop irq (s.hook h).id n prev s = .ok (removed s irq (pre.getLast?.or prev) h) := by
  induction pre generalizing n prev with
  | nil =>
    obtain ⟨m, rfl⟩ := Nat.exists_eq_add_of_lt hn
    rw [rmLoop, hl.1]
    simp only [if_true]
    have hacts := (setCell_rest s irq prev (s.hook h).next).2.1
    rw [hacts]
    have hhook : ∀ a ∈ post, ((s.setCell irq prev (s.next h)).hook a) = s.hook a := by
      intro a ha
      refine (setCell_hook s irq prev (s.next h) a).2.2 fun heq => hprev a heq ?_
      simp [ha]
    refine rmLoop_of_absent (l := post) ?_ (fun a ha => ?_) ?_
    · have hcell : ((s.setCell irq prev (s.next h)).setActids irq
          (s.actids irq &&& ~~~(s.hook h).id)).cell irq prev = s.next h := by
        have := cell_setCell s irq prev (s.next h)
        cases prev <;> exact this
      exact hcell ▸ Linked.congr hl.2 fun a ha => congrArg Hook.next (hhook a ha)
    · exact (congrArg Hook.id (hhook a ha)).trans_ne (hpost a ha)
    · exact lt_of_succ_lt_succ hn
  | cons b pre ih =>
    obtain ⟨m, rfl⟩ := Nat.exists_eq_add_of_lt hn
    rw [rmLoop, hl.1]
    simp only [if_neg (hpre b mem_cons_self)]
    have hb : b ∉ pre ++ h :: post := (nodup_cons.mp hl.nodup).1
    have htail : Linked s.next (s.cell irq (some b)) (pre ++ h :: post) := hl.2
    rw [ih htail (fun a ha => hpre a (mem_cons_of_mem b ha))
      (fun p hp => some.inj hp ▸ hb) (lt_of_succ_lt_succ hn)]
    cases pre using reverseRecOn <;> simp [getLast?_cons]

theorem removed_hook (s : Lines H) (irq : Line) (c : Option H) (h a : H) :
    ((removed s irq c h).hook a).irq = (s.hook a).irq ∧
    ((removed s irq c h).hook a).id = (s.hook a).id ∧
    (c ≠ some a → (removed s irq c h).hook a = s.hook a) := setCell_hook s irq c (s.next h) a

theorem HookList.remove {pre post : List H} (hl : HookList s irq (pre ++ h :: post)) :
    HookList (removed s irq pre.getLast? h) irq (pre ++ post) := by
  have hsub : (pre ++ post).Sublist (pre ++ h :: post) := by simp
  refine ⟨?_, fun a ha => ?_, fun a ha => ?_, ?_⟩
  · have hchain := hl.chain.unlinkCell
    rw [← setCell_next, ← setCell_handlers] at hchain
    exact hchain
  · rw [(removed_hook ..).1]
    exact hl.onLine a (hsub.subset ha)
  · rw [(removed_hook ..).2.1]
    exact hl.single a (hsub.subset ha)
  · rw [map_congr_left fun a _ => (removed_hook ..).2.1]
    exact hl.distinct.sublist (hsub.map _)

theorem removed_offLine (s : Lines H) (irq : Line) (h : H) (pre post : List H) :
    OffLine s (removed s irq pre.getLast? h) irq (pre ++ post) := by
  obtain ⟨hheads, -, hmasks⟩ := setCell_rest s irq pre.getLast? (s.next h)
  refine ⟨fun a ha => ?_, hheads, fun j hj => ?_, fun j _ => congrFun hmasks j⟩
  · refine (removed_hook s irq pre.getLast? h a).2.2 fun hlast => ha ?_
    exact mem_append_left _ (mem_of_getLast? hlast)
  · rw [removed, Lines.setActids]
    simp only [update_of_ne hj]
    rw [(setCell_rest s irq pre.getLast? (s.next h)).2.1]

def usedIds (s : Lines H) (l : List H) : BitVec 32 := l.foldl (fun b a => b ||| (s.hook a).id) 0

section

variable (hl : HookList s irq l)

include hl

theorem appended_spec (hh : h ∉ l) (hid : freeId (usedIds s l) = some id) :
    HookList (appended s irq l h id) irq (l ++ [h]) ∧
      OffLine s (appended s irq l h id) irq (h :: l) ∧
      (∀ a ∈ l, ((appended s irq l h id).hook a).id = (s.hook a).id) ∧
      (appended s irq l h id).actids = s.actids ∧
      (appended s irq l h id).unmasked = s.unmasked := by
  obtain ⟨i, hi, rfl, hclear⟩ := freeId_eq_some hid
  obtain ⟨hself, hkeep, hrest⟩ := appended_hook s irq hh (1#32 <<< i)
  obtain ⟨hheads, hacts, hmasks⟩ := setCell_rest
    { s with hook := update s.hook h ⟨none, irq, 1#32 <<< i⟩ } irq l.getLast? (some h)
  have hne : ∀ a ∈ l, a ≠ h := fun a ha heq => hh (heq ▸ ha)
  refine ⟨⟨appended_chain hl.chain hh _, ?_, ?_, ?_⟩,
    ⟨fun a ha => ?_, hheads, fun _ _ => congrFun hacts _, fun _ _ => congrFun hmasks _⟩,
    fun a ha => (hkeep a (hne a ha)).2, hacts, hmasks⟩
  · simp only [forall_mem_append, forall_mem_singleton]
    exact ⟨fun a ha => (hkeep a (hne a ha)).1.trans (hl.onLine a ha), by rw [hself]⟩
  · simp only [forall_mem_append, forall_mem_singleton]
    refine ⟨fun a ha => ?_, by rw [hself]; exact ⟨i, hi, rfl⟩⟩
    rw [(hkeep a (hne a ha)).2]
    exact hl.single a ha
  · rw [map_append, map_congr_left fun a ha => (hkeep a (hne a ha)).2, map_singleton, hself]
    refine nodup_append.mpr ⟨hl.distinct, nodup_singleton _, ?_⟩
    rintro _ hmem _ hid rfl
    obtain ⟨a, ha, rfl⟩ := mem_map.mp hmem
    rw [List.mem_singleton] at hid
    have hai : (s.hook a).id.getLsbD i = true := by
      rw [hid, getLsbD_bit hi]
      simp
    have hset := getLsbD_foldl_of_mem (f := fun a => (s.hook a).id) 0 ha hai
    exact Bool.false_ne_true (hclear.symm.trans hset)
  · rw [mem_cons, not_or] at ha
    exact hrest a ha.1 fun hlast => ha.2 (mem_of_getLast? hlast)

variable [Fintype H]

theorem addHook_of_mem (hh : h ∈ l) : addHook s h irq = .ok none := by
  simp only [addHook, scan_eq hl.chain (linked_lt_maxWalk hl.chain), if_pos hh]

theorem addHook_of_not_mem (hh : h ∉ l) : addHook s h irq = match freeId (usedIds s l) with
    | none => .error .panic
    | some id => .ok (some (appended s irq l h id)) := by
  simp only [addHook, scan_eq hl.chain (linked_lt_maxWalk hl.chain), if_neg hh, or_none]
  rfl

theorem addHook_eq_ok (hlen : l.length < 32) (hh : h ∉ l) : ∃ id, freeId (usedIds s l) = some id ∧
      addHook s h irq = .ok (some (appended s irq l h id)) := by
  have hused : ∀ j, (usedIds s l).getLsbD j = true → ∃ a ∈ l, (s.hook a).id.getLsbD j = true :=
    fun j hj => (getLsbD_foldl_or hj).resolve_left (by simp)
  obtain ⟨id, hid⟩ := ne_none_iff_exists'.mp (freeId_ne_none hlen hl.single hused)
  refine ⟨id, hid, ?_⟩
  rw [addHook_of_not_mem hl hh, hid]

end

end Lists

/-! ## Lines -/

/-- The bits of a line are those of its hooks, and it is unmasked iff it has a hook and no bit is
set. -/
structure LineOk {H : Type} (s : Lines H) (irq : Line) (l : List H) : Prop extends
    HookList s irq l where
  acts : ∀ j, (s.actids irq).getLsbD j = true → ∃ a ∈ l, (s.hook a).id.getLsbD j = true
  mask : s.unmasked irq = true ↔ l ≠ [] ∧ s.actids irq = 0

section Steps

variable {H : Type} {s t u : Lines H} {irq : Line} {l l' : List H} {h : H}

theorem OffLine.trans (hst : OffLine s t irq l) (htu : OffLine t u irq l') (hsub : l' ⊆ l) :
    OffLine s u irq l where
  hook a ha := (htu.hook a fun hx => ha (hsub hx)).trans (hst.hook a ha)
  handlers j hj := (htu.handlers j hj).trans (hst.handlers j hj)
  actids j hj := (htu.actids j hj).trans (hst.actids j hj)
  unmasked j hj := (htu.unmasked j hj).trans (hst.unmasked j hj)

theorem OffLine.hookList {j : Line} (hoff : OffLine s t irq l) (hj : j ≠ irq)
    (hl' : HookList s j l') (hdisj : ∀ a ∈ l', a ∉ l) : HookList t j l' :=
  hl'.congr (hoff.handlers j hj) fun a ha => hoff.hook a (hdisj a ha)

theorem OffLine.lineOk {j : Line} (hoff : OffLine s t irq l) (hj : j ≠ irq) (hl' : LineOk s j l')
    (hdisj : ∀ a ∈ l', a ∉ l) : LineOk t j l' := by
  refine ⟨hoff.hookList hj hl'.toHookList hdisj, fun i hi => ?_, ?_⟩
  · rw [hoff.actids j hj] at hi
    obtain ⟨a, ha, hai⟩ := hl'.acts i hi
    exact ⟨a, ha, by rwa [hoff.hook a (hdisj a ha)]⟩
  · rw [hoff.unmasked j hj, hoff.actids j hj]
    exact hl'.mask

def setLine (s : Lines H) (irq : Line) (v : BitVec 32) (b : Bool) : Lines H :=
  (s.setActids irq v).setUnmasked irq b

theorem setLine_offLine (s : Lines H) (irq : Line) (v : BitVec 32) (b : Bool) :
    OffLine s (setLine s irq v b) irq [] :=
  ⟨fun _ _ => rfl, fun _ _ => rfl, fun _ hj => update_of_ne hj .., fun _ hj => update_of_ne hj ..⟩

theorem setLine_lineOk {v : BitVec 32} {b : Bool} (hl : HookList s irq l)
    (hacts : ∀ j, v.getLsbD j = true → ∃ a ∈ l, (s.hook a).id.getLsbD j = true)
    (hmask : b = true ↔ l ≠ [] ∧ v = 0) : LineOk (setLine s irq v b) irq l := by
  refine ⟨hl.congr rfl fun _ _ => rfl, fun j hj => ?_, ?_⟩
  · simp only [setLine, Lines.setActids, Lines.setUnmasked, update_self] at hj
    exact hacts j hj
  · simp only [setLine, Lines.setActids, Lines.setUnmasked, update_self]
    exact hmask

theorem enableIrq_eq (hh : (s.hook h).irq = irq) : enableIrq s h =
    setLine s irq (s.actids irq &&& ~~~(s.hook h).id)
      (decide (s.actids irq &&& ~~~(s.hook h).id = 0) || s.unmasked irq) := by
  simp only [enableIrq, hh]
  by_cases h0 : s.actids irq &&& ~~~(s.hook h).id = 0#32
  · simp [Lines.setActids, setLine, h0]
  · simp [Lines.setActids, setLine, Lines.setUnmasked, h0]

theorem enableIrq_lists (s : Lines H) (h : H) :
    (enableIrq s h).hook = s.hook ∧ (enableIrq s h).handlers = s.handlers := by
  rw [enableIrq_eq rfl]
  exact ⟨rfl, rfl⟩

theorem disableIrq_lists (s : Lines H) (h : H) :
    (disableIrq s h).hook = s.hook ∧ (disableIrq s h).handlers = s.handlers := by
  unfold disableIrq
  simp only
  split <;> exact ⟨rfl, rfl⟩

theorem enableIrq_lineOk (hl : HookList s irq l) (hh : h ∈ l)
    (hacts : ∀ j, (s.actids irq).getLsbD j = true → ∃ a ∈ l, (s.hook a).id.getLsbD j = true)
    (hmask : s.actids irq ≠ 0 → s.unmasked irq = false) :
    LineOk (enableIrq s h) irq l ∧ OffLine s (enableIrq s h) irq [] := by
  rw [enableIrq_eq (hl.onLine h hh)]
  refine ⟨setLine_lineOk hl (fun j hj => hacts j ?_) ?_, setLine_offLine ..⟩
  · rw [BitVec.getLsbD_and, Bool.and_eq_true] at hj
    exact hj.1
  · have hne : l ≠ [] := ne_nil_of_mem hh
    by_cases h0 : s.actids irq &&& ~~~(s.hook h).id = 0#32
    · simp [h0, hne]
    · have hacts0 : s.actids irq ≠ 0 := fun hzero => h0 (by simp [hzero])
      simp [h0, hmask hacts0]

theorem LineOk.masked (hl : LineOk s irq l) (h0 : s.actids irq ≠ 0) : s.unmasked irq = false := by
  cases hm : s.unmasked irq with
  | false => rfl
  | true => exact absurd (hl.mask.mp hm).2 h0

theorem disableIrq_lineOk (hl : LineOk s irq l) (hh : h ∈ l) :
    LineOk (disableIrq s h) irq l ∧ OffLine s (disableIrq s h) irq [] := by
  simp only [disableIrq, hl.onLine h hh]
  split
  · exact ⟨hl, ⟨fun _ _ => rfl, fun _ _ => rfl, fun _ _ => rfl, fun _ _ => rfl⟩⟩
  refine ⟨setLine_lineOk hl.toHookList (fun j hj => ?_) ?_, setLine_offLine ..⟩
  · rw [BitVec.getLsbD_or, Bool.or_eq_true] at hj
    exact hj.elim (hl.acts j) fun hid => ⟨h, hh, hid⟩
  · refine iff_of_false Bool.false_ne_true fun hzero => ?_
    obtain ⟨i, hi, hid⟩ := hl.single h hh
    have hbit := congrArg (·.getLsbD i) hzero.2
    simp [hid, getLsbD_bit hi] at hbit

theorem removed_acts [DecidableEq H] {pre post : List H} (hl : LineOk s irq (pre ++ h :: post))
    (hj : ((removed s irq pre.getLast? h).actids irq).getLsbD j = true) :
    (s.actids irq).getLsbD j = true ∧
      ∃ a ∈ pre ++ post, ((removed s irq pre.getLast? h).hook a).id.getLsbD j = true := by
  simp only [removed, Lines.setActids, update_self] at hj
  rw [BitVec.getLsbD_and, Bool.and_eq_true] at hj
  obtain ⟨a, ha, haj⟩ := hl.acts j hj.1
  refine ⟨hj.1, a, ?_, by rwa [(removed_hook ..).2.1]⟩
  rcases mem_append.mp ha with hpre | htail
  · exact mem_append_left _ hpre
  · rcases mem_cons.mp htail with rfl | hpost
    · simp [haj] at hj
    · exact mem_append_right _ hpost

variable [Fintype H]

theorem irqHandle_lineOk (hl : LineOk s irq l) (r : H → Bool) :
    ∃ t, irqHandle s irq r = .ok t ∧ LineOk t irq l ∧ OffLine s t irq [] := by
  have hchain := hl.chain
  unfold irqHandle
  by_cases hnone : s.handlers irq = none
  · rw [hnone] at hchain
    obtain rfl : l = [] := hchain.unique rfl
    have hmasked : s.setUnmasked irq false = setLine s irq (s.actids irq) false := by
      simp [setLine, Lines.setActids]
    refine ⟨setLine s irq (s.actids irq) false, ?_, setLine_lineOk hl.toHookList hl.acts (by simp),
      setLine_offLine ..⟩
    simp only [hmasked]
    exact if_pos hnone
  · obtain ⟨v, hv, hbits⟩ := handleLoop_spec (s := s.setUnmasked irq false) r hchain hl.onLine
      (linked_lt_maxWalk hchain)
    have hne : l ≠ [] := by
      rintro rfl
      exact hnone hchain
    refine ⟨setLine s irq v (decide (v = 0#32)), ?_,
      setLine_lineOk hl.toHookList (fun j hj => (hbits j hj).elim (hl.acts j) id) (by simp [hne]),
      setLine_offLine ..⟩
    have hloop : handleLoop r irq (maxWalk H) ((s.setUnmasked irq false).handlers irq)
        (s.setUnmasked irq false) = _ := hv
    simp only [hloop]
    rw [if_neg (show ¬(s.setUnmasked irq false).handlers irq = none from hnone)]
    by_cases h0 : v = 0#32
    · simp [h0, setLine, Lines.setActids, Lines.setUnmasked]
    · simp [h0, setLine, Lines.setActids, Lines.setUnmasked]

variable [DecidableEq H]

theorem rmLoop_of_mem {pre post : List H} (hl : HookList s irq (pre ++ h :: post)) :
    rmLoop irq (s.hook h).id (maxWalk H) none s = .ok (removed s irq pre.getLast? h) := by
  have hmem : h ∈ pre ++ h :: post := by simp
  have hne : ∀ a ∈ pre ++ post, (s.hook a).id ≠ (s.hook h).id := by
    intro a ha heq
    have ha' : a ∈ pre ++ h :: post := (by simp : (pre ++ post).Sublist _).subset ha
    obtain rfl := inj_on_of_nodup_map hl.distinct ha' hmem heq
    exact (nodup_middle.mp hl.chain.nodup).notMem ha
  have hcell : Linked s.next (s.cell irq none) (pre ++ h :: post) := hl.chain
  have hloop := rmLoop_eq hcell (fun a ha => hne a (mem_append_left _ ha))
    (fun a ha => hne a (mem_append_right _ ha)) (by simp) (linked_lt_maxWalk hl.chain)
  rwa [or_none] at hloop

theorem rmIrqHandler_eq {pre post : List H} (hl : HookList s irq (pre ++ h :: post)) :
    ∃ b, rmIrqHandler s h = .ok ((removed s irq pre.getLast? h).setUnmasked irq b) ∧
      (b = true ↔ (removed s irq pre.getLast? h).handlers irq ≠ none ∧
        ((removed s irq pre.getLast? h).actids irq = 0 ∨
          (removed s irq pre.getLast? h).unmasked irq = true)) := by
  have honLine : (s.hook h).irq = irq := hl.onLine h (by simp)
  rw [rmIrqHandler, honLine, rmLoop_of_mem hl]
  generalize removed s irq pre.getLast? h = t
  have hself : t.setUnmasked irq (t.unmasked irq) = t := by simp [Lines.setUnmasked]
  simp only
  split
  case isTrue hnone => exact ⟨false, rfl, by simp [hnone]⟩
  split
  case isTrue hsome hzero => exact ⟨true, rfl, by simp [hsome, hzero]⟩
  case isFalse hsome hbits =>
    refine ⟨t.unmasked irq, by rw [hself], ?_⟩
    rw [and_iff_right hsome, or_iff_right hbits]

theorem rmIrqHandler_lineOk (hl : LineOk s irq l) (hh : h ∈ l) :
    ∃ t pre post, rmIrqHandler s h = .ok t ∧ l = pre ++ h :: post ∧ LineOk t irq (pre ++ post) ∧
      OffLine s t irq (pre ++ post) := by
  obtain ⟨pre, post, rfl⟩ := append_of_mem hh
  obtain ⟨b, heq, hb⟩ := rmIrqHandler_eq hl.toHookList
  have hlist := hl.toHookList.remove
  have hoff := removed_offLine s irq h pre post
  have hunmasked : (removed s irq pre.getLast? h).unmasked = s.unmasked :=
    (setCell_rest s irq pre.getLast? (s.next h)).2.2
  have hacts := fun j => removed_acts hl (j := j)
  generalize removed s irq pre.getLast? h = t at *
  have hset : t.setUnmasked irq b = setLine t irq (t.actids irq) b := by
    simp [setLine, Lines.setActids]
  have hempty : t.handlers irq = none ↔ pre ++ post = [] := by
    rw [← hlist.chain.head?_eq, head?_eq_none_iff]
  have hmasked : t.unmasked irq = true → t.actids irq = 0 := by
    intro hu
    rw [hunmasked] at hu
    apply BitVec.eq_of_getLsbD_eq
    intro j _
    cases hj : (t.actids irq).getLsbD j with
    | false => simp
    | true =>
      have := (hacts j hj).1
      simp [(hl.mask.mp hu).2] at this
  rw [hset] at heq
  refine ⟨_, pre, post, heq, rfl, ?_, hoff.trans (setLine_offLine ..) (by simp)⟩
  refine setLine_lineOk hlist (fun j hj => (hacts j hj).2) (hb.trans ?_)
  exact and_congr (not_congr hempty) (or_iff_left_of_imp hmasked)

theorem toLine_val (irq : Line) : toLine irq.val = .ok irq := by
  rw [toLine, dif_pos ⟨Int.natCast_nonneg _, Int.ofNat_lt.mpr irq.isLt⟩]
  simp

theorem putIrqHandler_lineOk (hl : LineOk s irq l) (hlen : l.length < 32) (hh : h ∉ l) :
    ∃ t, putIrqHandler s h irq.val = .ok t ∧ LineOk t irq (l ++ [h]) ∧
      OffLine s t irq (h :: l) := by
  obtain ⟨id, hfree, hadd⟩ := addHook_eq_ok hl.toHookList hlen hh
  obtain ⟨ht, hoff, hid, hacts, hmasks⟩ := appended_spec hl.toHookList hh hfree
  generalize appended s irq l h id = t at *
  have hmem : h ∈ l ++ [h] := by simp
  have hbits : ∀ j, (t.actids irq).getLsbD j = true →
      ∃ a ∈ l ++ [h], (t.hook a).id.getLsbD j = true := by
    intro j hj
    rw [hacts] at hj
    obtain ⟨a, ha, haj⟩ := hl.acts j hj
    exact ⟨a, by simp [ha], by rwa [hid a ha]⟩
  obtain ⟨hok, hoff'⟩ := enableIrq_lineOk ht hmem hbits (by rw [hacts, hmasks]; exact hl.masked)
  refine ⟨enableIrq t h, ?_, hok, hoff.trans hoff' (by simp)⟩
  rw [putIrqHandler, toLine_val]
  simp only [hadd]

end Steps

end Gergios.Kernel.Irq
