import Gergios.Lib.Linked
import Gergios.Safecopy.Verify

/-!
# The grant table of a process

The library keeps a table that only grows. Slots that are not in use form a list, which is
threaded through the union of the grants. Revoking a grant advances the sequence number of
its slot, so that the old id is no longer accepted. What the kernel has been told about the
table is part of the state; `none` is an assertion that fails.
-/

namespace Gergios.Safecopy

open Kernel Lib Function List

def nrStaticGrants : Nat := 3

structure GrantLib where
  addr : BitVec 64
  ngrants : Nat
  entry : Nat → CpGrant
  freelist : Int
  kernelTable : BitVec 64
  kernelEntries : Nat

/-- What the library cannot know when it grows the table: where new memory is and what is in
it, and whether the kernel takes the table. -/
structure Growth where
  static : BitVec 64
  malloc : Option (BitVec 64)
  junk : Nat → CpGrant
  setgrant : Bool

def noGrant : CpGrant := ⟨0, 0, 0, 0, 0, 0, 0⟩

def GrantLib.init : GrantLib := ⟨0, 0, fun _ => noGrant, -1, 0, 0⟩

def freshSlot (g : CpGrant) (next : Int) : CpGrant :=
  { g with flags := 0, seq := 0, int0 := BitVec.ofInt 32 next }

variable (l : GrantLib) (e : Growth)

/-- The rest of `cpf_prealloc` once there is memory for `size` grants at `addr`. -/
def GrantLib.install (addr : BitVec 64) (size : Nat) : GrantLib :=
  if e.setgrant then
    { addr
      ngrants := size
      entry := fun j =>
        if j < l.ngrants then l.entry j
        else freshSlot (e.junk j) (if j < size - 1 then (j : Int) + 1 else l.freelist)
      freelist := l.ngrants
      kernelTable := addr
      kernelEntries := size }
  else l

def growSize (n count : Nat) : Nat :=
  min grantMaxIdx (if count ≠ 0 then n + min count (grantMaxIdx - n) else (1 + n) * 2)

def cpfPrealloc (count : Nat) (e : Growth) : Option GrantLib :=
  if l.ngrants = 0 ∧ count ≤ nrStaticGrants then some (l.install e e.static nrStaticGrants)
  else if grantMaxIdx ≤ l.ngrants then some l
  else if growSize l.ngrants count ≤ l.ngrants then none
  else
    match e.malloc with
    | none => some l
    | some addr => some (l.install e addr (growSize l.ngrants count))

def takeSlot : Option (GrantLib × Option Nat) :=
  if l.freelist = -1 then some (l, none)
  else if 0 ≤ l.freelist ∧ l.freelist < l.ngrants ∧
      (l.entry l.freelist.toNat).isSet cpfUsed = false then
    some ({ l with freelist := (l.entry l.freelist.toNat).freeNext }, some l.freelist.toNat)
  else none

/-- `cpf_new_grantslot`; no slot is `-1`. -/
def cpfNewGrantslot : Option (GrantLib × Option Nat) :=
  if l.freelist = -1 then
    match cpfPrealloc l 0 e with
    | none => none
    | some l => takeSlot l
  else takeSlot l

def GrantLib.setEntry (j : Nat) (g : CpGrant) : GrantLib :=
  { l with entry := update l.entry j g }

def cpfGrant (fill : CpGrant → CpGrant) : Option (GrantLib × Option (BitVec 32)) :=
  match cpfNewGrantslot l e with
  | none => none
  | some (l, none) => some (l, none)
  | some (l, some j) =>
    let g := fill (l.entry j)
    some (l.setEntry j g, some (grantId (BitVec.ofNat 32 j) g.seq))

/-- `ACCESS_CHECK` -/
def accessOk (access : BitVec 32) : Bool := access &&& ~~~(cpfRead ||| cpfWrite ||| cpfTry) == 0

def grantInvalid : BitVec 32 := -1

def fillDirect (whoTo : BitVec 32) (addr bytes : BitVec 64) (access : BitVec 32) (g : CpGrant) :
    CpGrant :=
  { g with
    int0 := whoTo, long8 := addr, long16 := bytes, faulted := grantInvalid
    flags := access ||| cpfDirect ||| cpfUsed ||| cpfValid }

variable (whoTo whoFrom gr : BitVec 32)

def fillIndirect (g : CpGrant) : CpGrant :=
  { g with
    int0 := whoTo, int4 := whoFrom
    long8 := (g.long8 &&& 0xFFFFFFFF00000000) ||| gr.setWidth 64
    faulted := grantInvalid
    flags := cpfUsed ||| cpfIndirect ||| cpfValid }

def fillMagic (whoTo whoFrom : BitVec 32) (addr bytes : BitVec 64) (access : BitVec 32)
    (g : CpGrant) : CpGrant :=
  { g with
    int4 := whoTo, int0 := whoFrom, long8 := addr, long16 := bytes, faulted := grantInvalid
    flags := cpfUsed ||| cpfMagic ||| cpfValid ||| access }

def cpfGrantDirect (whoTo : BitVec 32) (addr bytes : BitVec 64)
    (access : BitVec 32) : Option (GrantLib × Option (BitVec 32)) :=
  if accessOk access then cpfGrant l e (fillDirect whoTo addr bytes access) else some (l, none)

def cpfGrantIndirect :
    Option (GrantLib × Option (BitVec 32)) := cpfGrant l e (fillIndirect whoTo whoFrom gr)

def cpfGrantMagic (whoTo whoFrom : BitVec 32) (addr bytes : BitVec 64)
    (access : BitVec 32) : Option (GrantLib × Option (BitVec 32)) :=
  if accessOk access then cpfGrant l e (fillMagic whoTo whoFrom addr bytes access)
  else some (l, none)

/-- `GID_CHECK_USED` -/
def gidUsed (grant : BitVec 32) : Bool :=
  let j := (grantIdx grant).toNat
  grantValid grant && decide (j < l.ngrants) && decide (grantSeq grant = (l.entry j).seq) &&
    (l.entry j).isSet cpfUsed

def nextSeq (seq : BitVec 32) : BitVec 32 :=
  if seq.toInt < (grantMaxSeq : Int) - 1 then seq + 1 else 0

def GrantLib.release (j : Nat) : GrantLib :=
  { l.setEntry j { l.entry j with
      flags := 0, seq := nextSeq (l.entry j).seq, int0 := BitVec.ofInt 32 l.freelist } with
    freelist := j }

/-- The result is `GRANT_FAULTED`, zero, or `none` for an id that is refused. -/
def cpfRevoke (grant : BitVec 32) : GrantLib × Option Nat :=
  if gidUsed l grant then
    let j := (grantIdx grant).toNat
    let g := l.entry j
    let r := if g.isSet cpfTry ∧ g.faulted = grant then 1 else 0
    (l.release j, some r)
  else (l, none)

/-! ## The free list -/

/-- A slot number as the library stores it, with `-1` for the end of the list. -/
def asIndex (x : Int) : Option Nat := if x = -1 then none else some x.toNat

def GrantLib.next (j : Nat) : Option Nat := asIndex (l.entry j).freeNext

def GrantLib.head : Option Nat := asIndex l.freelist

/-- The free list is `free`, and the kernel knows the table as it is. -/
structure TableOk (l : GrantLib) (free : List Nat) : Prop where
  chain : Linked l.next l.head free
  mem_iff : ∀ j, j ∈ free ↔ j < l.ngrants ∧ (l.entry j).isSet cpfUsed = false
  size : l.ngrants ≤ grantMaxIdx
  head_ge : -1 ≤ l.freelist
  next_ge : ∀ j ∈ free, -1 ≤ (l.entry j).freeNext
  registered : l.kernelTable = l.addr ∧ l.kernelEntries = l.ngrants

section FreeList

variable {l : GrantLib} {free : List Nat} {x : Int} {g : CpGrant} {j : Nat}

theorem asIndex_eq_some (hx : -1 ≤ x) : asIndex x = some j ↔ x = j := by
  unfold asIndex
  split
  · simp only [reduceCtorEq, false_iff]
    omega
  · rw [Option.some_inj]
    omega

theorem toInt_ofInt_index (hx : -1 ≤ x) (hlt : x < grantMaxIdx) :
    (BitVec.ofInt 32 x).toInt = x := by
  simp only [grantMaxIdx, grantShift] at hlt
  rw [BitVec.toInt_ofInt, Int.bmod_eq_of_le] <;> omega

theorem linked_range {next : Nat → Option Nat} {h : Option Nat} {l : List Nat} {n k : Nat}
    (hl : Linked next h l)
    (hnext : ∀ j, n ≤ j → j < n + (k + 1) → next j = if j < n + k then some (j + 1) else h) :
    Linked next (some n) (range' n (k + 1) ++ l) := by
  induction k generalizing n with
  | zero => exact ⟨rfl, by rw [hnext n (by omega) (by omega), if_neg (by omega)]; exact hl⟩
  | succ k ih =>
    refine ⟨rfl, ?_⟩
    rw [hnext n (by omega) (by omega), if_pos (by omega)]
    refine ih fun j hj hlt => ?_
    rw [hnext j (by omega) (by omega)]
    exact if_congr (by omega) rfl rfl

section

variable (h : TableOk l free)

include h

theorem TableOk.freelist_lt : l.freelist < l.ngrants := by
  rcases eq_or_lt_of_le h.head_ge with heq | hlt
  · omega
  · have hhead : l.head = some l.freelist.toNat := (asIndex_eq_some h.head_ge).mpr (by omega)
    have hmem := mem_of_head? (h.chain.head?_eq.trans hhead)
    have := ((h.mem_iff _).mp hmem).1
    omega

structure Grown (l l' : GrantLib) : Prop where
  le : l.ngrants ≤ l'.ngrants
  old : ∀ j, j < l.ngrants → l'.entry j = l.entry j
  new : ∀ j, l.ngrants ≤ j → j < l'.ngrants →
    (l'.entry j).seq = 0 ∧ (l'.entry j).isSet cpfUsed = false

omit h in
theorem Grown.refl (l : GrantLib) : Grown l l :=
  ⟨le_rfl, fun _ _ => rfl, fun _ hle hlt => absurd hlt (by omega)⟩

omit h in
theorem isSet_freshSlot (g : CpGrant) (x : Int) : (freshSlot g x).isSet cpfUsed = false := by
  simp [freshSlot, CpGrant.isSet]

theorem grown_tableOk {l' : GrantLib} {k : Nat} (hn : l'.ngrants = l.ngrants + (k + 1))
    (hsize : l'.ngrants ≤ grantMaxIdx) (hhead : l'.freelist = l.ngrants)
    (hreg : l'.kernelTable = l'.addr ∧ l'.kernelEntries = l'.ngrants)
    (hold : ∀ j, j < l.ngrants → l'.entry j = l.entry j)
    (hnew : ∀ j, l.ngrants ≤ j → ∃ g, l'.entry j =
      freshSlot g (if j < l.ngrants + k then (j : Int) + 1 else l.freelist)) :
    TableOk l' (range' l.ngrants (k + 1) ++ free) := by
  have hfl := h.freelist_lt
  have hge := h.head_ge
  have hlt : ∀ j ∈ free, j < l.ngrants := fun j hj => ((h.mem_iff j).mp hj).1
  have hnext : ∀ j, l.ngrants ≤ j → j < l.ngrants + (k + 1) →
      (l'.entry j).freeNext = if j < l.ngrants + k then (j : Int) + 1 else l.freelist := by
    intro j hle hj
    obtain ⟨g, hg⟩ := hnew j hle
    rw [hg]
    split <;> exact toInt_ofInt_index (by omega) (by omega)
  refine ⟨?_, fun j => ?_, hsize, by omega, fun j hj => ?_, hreg⟩
  · have hchain : Linked l'.next l.head free := h.chain.congr fun j hj => by
      rw [GrantLib.next, hold j (hlt j hj), GrantLib.next]
    rw [GrantLib.head, hhead, (asIndex_eq_some (by omega)).mpr rfl]
    refine linked_range hchain fun j hle hj => ?_
    rw [GrantLib.next, hnext j hle hj]
    split
    · exact (asIndex_eq_some (by omega)).mpr rfl
    · rfl
  · rw [mem_append, mem_range'_1, h.mem_iff]
    rcases Nat.lt_or_ge j l.ngrants with hj | hj
    · have hj' : j < l.ngrants + (k + 1) := by omega
      simp only [hold j hj, hn, hj, hj', Nat.not_le.mpr hj, false_and, false_or]
    · obtain ⟨g, hg⟩ := hnew j hj
      simp only [hg, isSet_freshSlot, hn, hj, Nat.not_lt.mpr hj, false_and, or_false, true_and,
        and_true]
  · rcases mem_append.mp hj with hj | hj
    · obtain ⟨hle, hj⟩ := mem_range'_1.mp hj
      rw [hnext j hle hj]
      split <;> omega
    · rw [hold j (hlt j hj)]
      exact h.next_ge j hj

theorem install_spec (e : Growth) (addr : BitVec 64) {size : Nat} (hlt : l.ngrants < size)
    (hsize : size ≤ grantMaxIdx) :
    Grown l (l.install e addr size) ∧ ∃ free', TableOk (l.install e addr size) free' := by
  unfold GrantLib.install
  split
  case isFalse => exact ⟨Grown.refl l, free, h⟩
  obtain ⟨k, rfl⟩ : ∃ k, size = l.ngrants + (k + 1) := ⟨size - l.ngrants - 1, by omega⟩
  refine ⟨⟨Nat.le_add_right _ _, fun j hj => if_pos hj, fun j hle _ => ?_⟩, _,
    grown_tableOk h rfl hsize rfl ⟨rfl, rfl⟩ (fun j hj => if_pos hj) fun j hle => ⟨e.junk j, ?_⟩⟩
  · simp only [if_neg (Nat.not_lt.mpr hle)]
    exact ⟨rfl, isSet_freshSlot _ _⟩
  · exact if_neg (Nat.not_lt.mpr hle)

theorem cpfPrealloc_spec (count : Nat) (e : Growth) :
    ∃ l', cpfPrealloc l count e = some l' ∧ Grown l l' ∧ ∃ free', TableOk l' free' := by
  unfold cpfPrealloc
  split
  case isTrue h0 =>
    refine ⟨_, rfl, install_spec h e _ ?_ (by decide)⟩
    rw [h0.1]
    decide
  split
  case isTrue => exact ⟨l, rfl, Grown.refl l, free, h⟩
  case isFalse hmax =>
    have hgrow : l.ngrants < growSize l.ngrants count := by
      unfold growSize
      split <;> omega
    rw [if_neg (by omega)]
    cases e.malloc with
    | none => exact ⟨l, rfl, Grown.refl l, free, h⟩
    | some addr => exact ⟨_, rfl, install_spec h e addr hgrow (min_le_left _ _)⟩

theorem takeSlot_spec : takeSlot l = some (l, none) ∨ ∃ j rest, free = j :: rest ∧
      takeSlot l = some ({ l with freelist := (l.entry j).freeNext }, some j) := by
  have hge := h.head_ge
  unfold takeSlot
  split
  case isTrue => exact .inl rfl
  case isFalse hne =>
    right
    obtain ⟨j, hj⟩ : ∃ j : Nat, l.freelist = j := ⟨l.freelist.toNat, by omega⟩
    have hhead : free.head? = some j := h.chain.head?_eq.trans ((asIndex_eq_some hge).mpr hj)
    obtain ⟨rest, rfl⟩ := head?_eq_some_iff.mp hhead
    obtain ⟨hlt, hfree⟩ := (h.mem_iff j).mp mem_cons_self
    refine ⟨j, rest, rfl, ?_⟩
    have htoNat : l.freelist.toNat = j := by omega
    rw [htoNat, if_pos ⟨by omega, by omega, hfree⟩]

structure SlotSet (l l' : GrantLib) (j : Nat) (g : CpGrant) : Prop where
  lt : j < l.ngrants
  ngrants : l'.ngrants = l.ngrants
  entry : l'.entry = update l.entry j g

omit h in
theorem fill_tableOk {rest : List Nat} (h : TableOk l (j :: rest)) (hg : g.isSet cpfUsed = true) :
    TableOk ((GrantLib.mk l.addr l.ngrants l.entry (l.entry j).freeNext l.kernelTable
      l.kernelEntries).setEntry j g) rest := by
  obtain ⟨hj, hnodup⟩ := nodup_cons.mp h.chain.nodup
  have hne : ∀ i ∈ rest, i ≠ j := fun i hi heq => hj (heq ▸ hi)
  refine ⟨h.chain.2.congr fun i hi => ?_, fun i => ?_, h.size, h.next_ge j mem_cons_self,
    fun i hi => ?_, h.registered⟩
  · simp only [GrantLib.next, GrantLib.setEntry, update_of_ne (hne i hi)]
  · rcases eq_or_ne i j with rfl | hij
    · simp [GrantLib.setEntry, hj, hg]
    · simp only [GrantLib.setEntry, update_of_ne hij, ← h.mem_iff, mem_cons, hij, false_or]
  · simp only [GrantLib.setEntry, update_of_ne (hne i hi)]
    exact h.next_ge i (mem_cons_of_mem j hi)

theorem free_tableOk (hlt : j < l.ngrants)
    (hused : (l.entry j).isSet cpfUsed = true) (hg : g.isSet cpfUsed = false)
    (hnext : g.freeNext = l.freelist) :
    TableOk { l.setEntry j g with freelist := j } (j :: free) := by
  have hne : ∀ i ∈ free, i ≠ j := by
    rintro i hi rfl
    exact absurd hused (by rw [((h.mem_iff i).mp hi).2]; decide)
  have hself : update l.entry j g j = g := update_self ..
  have hj : (-1 : Int) ≤ j := by omega
  refine ⟨⟨(asIndex_eq_some hj).mpr rfl, ?_⟩, fun i => ?_, h.size, hj, fun i hi => ?_, h.registered⟩
  · simp only [GrantLib.next, GrantLib.setEntry, hself, hnext]
    exact h.chain.congr fun i hi => by simp only [update_of_ne (hne i hi), GrantLib.next]
  · rcases eq_or_ne i j with rfl | hij
    · simp [GrantLib.setEntry, hg, hlt]
    · simp only [GrantLib.setEntry, update_of_ne hij, ← h.mem_iff, mem_cons, hij, false_or]
  · simp only [GrantLib.setEntry]
    rcases mem_cons.mp hi with rfl | hi
    · rw [hself, hnext]
      exact h.head_ge
    · rw [update_of_ne (hne i hi)]
      exact h.next_ge i hi

end

def Fills (fill : CpGrant → CpGrant) : Prop :=
  ∀ g, (fill g).isSet cpfUsed = true ∧ (fill g).seq = g.seq

theorem isSet_used (h : g.flags.getLsbD 8 = true) : g.isSet cpfUsed = true := by
  rw [CpGrant.isSet, bne_iff_ne]
  intro hzero
  have hbit := congrArg (·.getLsbD 8) hzero
  simp [cpfUsed] at hbit
  simp [hbit] at h

theorem fillDirect_fills (whoTo : BitVec 32) (addr bytes : BitVec 64) (access : BitVec 32) :
    Fills (fillDirect whoTo addr bytes access) :=
  fun _ => ⟨isSet_used (by simp [fillDirect, cpfUsed]), rfl⟩

theorem fillIndirect_fills (whoTo whoFrom gr : BitVec 32) : Fills (fillIndirect whoTo whoFrom gr) :=
  fun _ => ⟨isSet_used (by simp [fillIndirect, cpfUsed]), rfl⟩

theorem fillMagic_fills (whoTo whoFrom : BitVec 32) (addr bytes : BitVec 64) (access : BitVec 32) :
    Fills (fillMagic whoTo whoFrom addr bytes access) :=
  fun _ => ⟨isSet_used (by simp [fillMagic, cpfUsed]), rfl⟩

theorem cpfGrant_spec {fill : CpGrant → CpGrant} (h : TableOk l free) (e : Growth)
    (hfill : Fills fill) :
    ∃ l₁, Grown l l₁ ∧ (∃ free₁, TableOk l₁ free₁) ∧ (cpfGrant l e fill = some (l₁, none) ∨
      ∃ j l₂, (l₁.entry j).isSet cpfUsed = false ∧ SlotSet l₁ l₂ j (fill (l₁.entry j)) ∧
        cpfGrant l e fill = some (l₂, some (grantId (BitVec.ofNat 32 j) (l₁.entry j).seq)) ∧
        ∃ free', TableOk l₂ free') := by
  obtain ⟨l₁, free₁, hgrown, hok, hslot⟩ : ∃ l₁ free₁, Grown l l₁ ∧ TableOk l₁ free₁ ∧
      cpfNewGrantslot l e = takeSlot l₁ := by
    unfold cpfNewGrantslot
    split
    · obtain ⟨l₁, heq, hgrown, free₁, hok⟩ := cpfPrealloc_spec h 0 e
      exact ⟨l₁, free₁, hgrown, hok, by rw [heq]⟩
    · exact ⟨l, free, Grown.refl l, h, rfl⟩
  refine ⟨l₁, hgrown, ⟨free₁, hok⟩, ?_⟩
  rcases takeSlot_spec hok with hnone | ⟨j, rest, rfl, hsome⟩
  · exact .inl (by rw [cpfGrant, hslot, hnone])
  · obtain ⟨hlt, hfree⟩ := (hok.mem_iff j).mp mem_cons_self
    have hfilled := fill_tableOk hok (hfill (l₁.entry j)).1
    refine .inr ⟨j, _, hfree, ⟨hlt, ?_, ?_⟩, ?_, rest, hfilled⟩
    · rfl
    · rfl
    rw [cpfGrant, hslot, hsome]
    simp only [(hfill _).2]

end FreeList

/-! ## Ids -/

section Used

variable {l l' : GrantLib} {grant grant' : BitVec 32} {j : Nat} {g : CpGrant}

theorem gidUsed_iff : gidUsed l grant = true ↔ grantValid grant = true ∧
    (grantIdx grant).toNat < l.ngrants ∧ grantSeq grant = (l.entry (grantIdx grant).toNat).seq ∧
      (l.entry (grantIdx grant).toNat).isSet cpfUsed = true := by
  simp [gidUsed, and_assoc]

theorem grant_ext (hv : grantValid grant = true) (hv' : grantValid grant' = true)
    (hidx : (grantIdx grant).toNat = (grantIdx grant').toNat)
    (hseq : grantSeq grant = grantSeq grant') : grant = grant' := by
  have hseq' := congrArg BitVec.toNat hseq
  rw [grantSeq_toNat hv, grantSeq_toNat hv'] at hseq'
  rw [grantIdx_toNat, grantIdx_toNat] at hidx
  apply BitVec.eq_of_toNat_eq
  rw [← Nat.div_add_mod grant.toNat grantMaxIdx, hseq', hidx, Nat.div_add_mod]

theorem Grown.gidUsed_eq (h : Grown l l') : gidUsed l' grant = gidUsed l grant := by
  rw [Bool.eq_iff_iff, gidUsed_iff, gidUsed_iff]
  rcases Nat.lt_or_ge (grantIdx grant).toNat l.ngrants with hlt | hge
  · have hlt' := Nat.lt_of_lt_of_le hlt h.le
    simp only [h.old _ hlt, hlt, hlt']
  · constructor
    · rintro ⟨-, hlt, -, hused⟩
      rw [(h.new _ hge hlt).2] at hused
      cases hused
    · omega

theorem SlotSet.gidUsed_of_ne (h : SlotSet l l' j g) (hne : (grantIdx grant).toNat ≠ j) :
    gidUsed l' grant = gidUsed l grant := by
  simp only [gidUsed, h.ngrants, h.entry, update_of_ne hne]

theorem SlotSet.gidUsed_self (h : SlotSet l l' j g) (hidx : (grantIdx grant).toNat = j) :
    gidUsed l' grant = true ↔
      grantValid grant = true ∧ grantSeq grant = g.seq ∧ g.isSet cpfUsed = true := by
  rw [gidUsed_iff, h.ngrants, h.entry, hidx, update_self]
  simp only [h.lt, true_and]

end Used

/-! ## Runs -/

/-- The library with the ids that are live and those that have been revoked, latest first. -/
structure Grants where
  lib : GrantLib
  live : List (BitVec 32)
  revoked : List (BitVec 32)

def Grants.init : Grants := ⟨GrantLib.init, [], []⟩

def Grants.granted (t : Grants) (r : GrantLib × Option (BitVec 32)) : Grants :=
  { t with lib := r.1, live := r.2.toList ++ t.live }

def Grants.revoke (t : Grants) (grant : BitVec 32) : Grants :=
  match cpfRevoke t.lib grant with
  | (l, none) => { t with lib := l }
  | (l, some _) => ⟨l, t.live.erase grant, grant :: t.revoked⟩

/-- The calls of the library, and the mark that the kernel leaves in a grant at a soft fault. -/
inductive GrantOp where
  | prealloc (count : Nat) (e : Growth)
  | direct (e : Growth) (whoTo : BitVec 32) (addr bytes : BitVec 64) (access : BitVec 32)
  | indirect (e : Growth) (whoTo whoFrom gr : BitVec 32)
  | magic (e : Growth) (whoTo whoFrom : BitVec 32) (addr bytes : BitVec 64) (access : BitVec 32)
  | revoke (grant : BitVec 32)
  | fault (j : Nat) (value : BitVec 32)

def GrantOp.exec : GrantOp → Grants → Option Grants
  | .prealloc count e, t => (cpfPrealloc t.lib count e).map fun l => { t with lib := l }
  | .direct e whoTo addr bytes access, t =>
    (cpfGrantDirect t.lib e whoTo addr bytes access).map t.granted
  | .indirect e whoTo whoFrom gr, t => (cpfGrantIndirect t.lib e whoTo whoFrom gr).map t.granted
  | .magic e whoTo whoFrom addr bytes access, t =>
    (cpfGrantMagic t.lib e whoTo whoFrom addr bytes access).map t.granted
  | .revoke grant, t => some (t.revoke grant)
  | .fault j value, t =>
    some { t with lib := t.lib.setEntry j { t.lib.entry j with faulted := value } }

def GrantStep (t t' : Grants) : Prop := ∃ op : GrantOp, op.exec t = some t'

/-- How often slot `j` occurs in a list of revocations. -/
def revocations (log : List (BitVec 32)) (j : Nat) : Nat :=
  log.countP fun grant => (grantIdx grant).toNat == j

structure GrantsOk (t : Grants) : Prop where
  table : ∃ free, TableOk t.lib free
  seq : ∀ j, j < t.lib.ngrants → (t.lib.entry j).seq.toNat = revocations t.revoked j % grantMaxSeq
  fresh : ∀ j, t.lib.ngrants ≤ j → revocations t.revoked j = 0
  live : ∀ grant, grant ∈ t.live ↔ gidUsed t.lib grant = true
  nodup : t.live.Nodup
  revoked : ∀ later grant earlier, t.revoked = later ++ grant :: earlier →
    grantValid grant = true ∧ (grantIdx grant).toNat < t.lib.ngrants ∧
      (grantSeq grant).toNat = revocations earlier (grantIdx grant).toNat % grantMaxSeq

section Steps

variable {t : Grants} {l l' : GrantLib} {free : List Nat} {grant : BitVec 32}

section

variable (h : GrantsOk t)

include h

theorem GrantsOk.grow (hgrown : Grown t.lib l) (hl : ∃ free, TableOk l free) :
    GrantsOk { t with lib := l } := by
  refine ⟨hl, fun j hj => ?_, fun j hj => h.fresh j (hgrown.le.trans hj), fun grant => ?_, h.nodup,
    fun later grant earlier heq => ?_⟩
  · rcases Nat.lt_or_ge j t.lib.ngrants with hlt | hge
    · rw [hgrown.old j hlt]
      exact h.seq j hlt
    · rw [(hgrown.new j hge hj).1, h.fresh j hge]
      rfl
  · rw [h.live, hgrown.gidUsed_eq]
  · obtain ⟨hv, hlt, hseq⟩ := h.revoked later grant earlier heq
    exact ⟨hv, hlt.trans_le hgrown.le, hseq⟩

omit h in
theorem revocations_cons (log : List (BitVec 32)) (j : Nat) : revocations (grant :: log) j =
    revocations log j + if (grantIdx grant).toNat = j then 1 else 0 := by
  rw [revocations, countP_cons]
  simp [revocations]

theorem GrantsOk.id_spec (hj : j < t.lib.ngrants) :
    grantValid (grantId (BitVec.ofNat 32 j) (t.lib.entry j).seq) = true ∧
      (grantIdx (grantId (BitVec.ofNat 32 j) (t.lib.entry j).seq)).toNat = j ∧
      grantSeq (grantId (BitVec.ofNat 32 j) (t.lib.entry j).seq) = (t.lib.entry j).seq := by
  obtain ⟨free, hok⟩ := h.table
  have hmax := hj.trans_le hok.size
  have hidx : (BitVec.ofNat 32 j).toNat = j := by
    rw [BitVec.toNat_ofNat, Nat.mod_eq_of_lt (hmax.trans (by decide))]
  have hbound : (t.lib.entry j).seq.toNat < grantMaxSeq := by
    rw [h.seq j hj]
    exact Nat.mod_lt _ (by decide)
  obtain ⟨hv, hi, hs⟩ := grantId_spec (hidx.symm ▸ hmax) hbound
  exact ⟨hv, (congrArg BitVec.toNat hi).trans hidx, hs⟩

theorem GrantsOk.fill (hslot : SlotSet t.lib l j g)
    (hfree : (t.lib.entry j).isSet cpfUsed = false) (hused : g.isSet cpfUsed = true)
    (hseq : g.seq = (t.lib.entry j).seq) (hl : ∃ free, TableOk l free) :
    GrantsOk (t.granted (l, some (grantId (BitVec.ofNat 32 j) (t.lib.entry j).seq))) := by
  obtain ⟨hv, hi', hs⟩ := h.id_spec hslot.lt
  have hnotin : grantId (BitVec.ofNat 32 j) (t.lib.entry j).seq ∉ t.live := by
    rw [h.live, gidUsed_iff, hi']
    rintro ⟨-, -, -, hbad⟩
    rw [hfree] at hbad
    cases hbad
  refine ⟨hl, fun i hi => ?_, fun i hi => h.fresh i (hslot.ngrants ▸ hi),
    fun grant => ?_, nodup_cons.mpr ⟨hnotin, h.nodup⟩, fun later grant earlier heq => ?_⟩
  · simp only [Grants.granted, hslot.entry]
    rcases eq_or_ne i j with rfl | hne
    · rw [update_self, hseq]
      exact h.seq i hslot.lt
    · rw [update_of_ne hne]
      exact h.seq i (hslot.ngrants ▸ hi)
  · simp only [Grants.granted, Option.toList_some, cons_append, nil_append, mem_cons, h.live]
    rcases eq_or_ne (grantIdx grant).toNat j with heq | hne
    · rw [hslot.gidUsed_self heq, hseq, gidUsed_iff, heq, hfree]
      constructor
      · rintro (rfl | ⟨-, -, -, hbad⟩)
        · exact ⟨hv, hs, hused⟩
        · cases hbad
      · rintro ⟨hvalid, hseq', -⟩
        exact .inl (grant_ext hvalid hv (heq.trans hi'.symm) (hseq'.trans hs.symm))
    · rw [hslot.gidUsed_of_ne hne]
      refine or_iff_right fun hbad => hne ?_
      rw [hbad, hi']
  · obtain ⟨hvalid, hlt, hseq'⟩ := h.revoked later grant earlier heq
    exact ⟨hvalid, hslot.ngrants ▸ hlt, hseq'⟩

omit h in
theorem nextSeq_toNat {seq : BitVec 32} (h : seq.toNat < grantMaxSeq) :
    (nextSeq seq).toNat = (seq.toNat + 1) % grantMaxSeq := by
  have hint : seq.toInt = seq.toNat := BitVec.toInt_eq_toNat_of_lt (by
    simp only [grantMaxSeq, grantShift] at h
    omega)
  simp only [nextSeq, hint, grantMaxSeq, grantShift] at h ⊢
  split
  · rw [BitVec.toNat_add]
    simp
    omega
  · simp
    omega

omit h in
theorem release_tableOk (h : TableOk l free) (hlt : j < l.ngrants)
    (hused : (l.entry j).isSet cpfUsed = true) : TableOk (l.release j) (j :: free) :=
  free_tableOk h hlt hused (by simp [CpGrant.isSet])
    (toInt_ofInt_index h.head_ge (h.freelist_lt.trans_le (Int.ofNat_le.mpr h.size)))

theorem GrantsOk.release (hgid : gidUsed t.lib grant = true) :
    GrantsOk ⟨t.lib.release (grantIdx grant).toNat, t.live.erase grant, grant :: t.revoked⟩ := by
  obtain ⟨free, hok⟩ := h.table
  obtain ⟨hv, hlt, hseq, hused⟩ := gidUsed_iff.mp hgid
  have hslot : SlotSet t.lib (t.lib.release (grantIdx grant).toNat) (grantIdx grant).toNat _ :=
    ⟨hlt, rfl, rfl⟩
  have hcount := h.seq _ hlt
  refine ⟨⟨_, release_tableOk hok hlt hused⟩, fun j hj => ?_, fun j hj => ?_, fun id => ?_,
    h.nodup.erase grant, fun later id earlier heq => ?_⟩
  · rw [revocations_cons]
    simp only [hslot.entry]
    rcases eq_or_ne j (grantIdx grant).toNat with rfl | hne
    · rw [update_self, if_pos rfl, nextSeq_toNat (hcount ▸ Nat.mod_lt _ (by decide)),
        hcount, Nat.mod_add_mod]
    · rw [update_of_ne hne, if_neg (Ne.symm hne)]
      exact h.seq j hj
  · have hlt' : (grantIdx grant).toNat < j := Nat.lt_of_lt_of_le hlt hj
    rw [revocations_cons, if_neg (by omega)]
    exact h.fresh j hj
  · rw [h.nodup.mem_erase_iff, h.live]
    rcases eq_or_ne (grantIdx id).toNat (grantIdx grant).toNat with heq | hne
    · rw [hslot.gidUsed_self heq, gidUsed_iff, heq]
      constructor
      · rintro ⟨hne, hv', -, hseq', -⟩
        exact absurd (grant_ext hv' hv heq (hseq'.trans hseq.symm)) hne
      · rintro ⟨-, -, hbad⟩
        simp [CpGrant.isSet] at hbad
    · rw [hslot.gidUsed_of_ne hne]
      exact and_iff_right fun hbad => hne (by rw [hbad])
  · rcases later with _ | ⟨first, later⟩
    · cases heq
      exact ⟨hv, hlt, by rw [hseq, hcount]⟩
    · exact h.revoked later id earlier (cons.inj heq).2

theorem GrantsOk.fault (j : Nat) (value : BitVec 32) :
    GrantsOk { t with lib := t.lib.setEntry j { t.lib.entry j with faulted := value } } := by
  have hentry : ∀ i, ∃ v, update t.lib.entry j { t.lib.entry j with faulted := value } i =
      { t.lib.entry i with faulted := v } := by
    intro i
    rcases eq_or_ne i j with rfl | hne
    · exact ⟨value, update_self ..⟩
    · exact ⟨(t.lib.entry i).faulted, update_of_ne hne ..⟩
  choose v hv using hentry
  obtain ⟨free, hok⟩ := h.table
  refine ⟨⟨free, hok.chain.congr fun i _ => ?_, fun i => ?_, hok.size, hok.head_ge, fun i hi => ?_,
    hok.registered⟩, fun i hi => ?_, h.fresh, fun id => ?_, h.nodup, h.revoked⟩
  · simp only [GrantLib.next, GrantLib.setEntry, hv]
    rfl
  · simp only [GrantLib.setEntry, hv]
    exact hok.mem_iff i
  · simp only [GrantLib.setEntry, hv]
    exact hok.next_ge i hi
  · simp only [GrantLib.setEntry, hv]
    exact h.seq i hi
  · rw [h.live, gidUsed_iff, gidUsed_iff]
    simp only [GrantLib.setEntry, hv]
    rfl

/-- What a call of the library does. -/
inductive Change (t : Grants) : GrantOp → Grants → Prop
  | grow {op : GrantOp} {l : GrantLib} (hl : Grown t.lib l) (hok : ∃ free, TableOk l free) :
      Change t op { t with lib := l }
  | fill {op : GrantOp} {l l' : GrantLib} {j : Nat} {g : CpGrant} (hl : Grown t.lib l)
      (hok : ∃ free, TableOk l free) (hfree : (l.entry j).isSet cpfUsed = false)
      (hslot : SlotSet l l' j g) (hg : g.isSet cpfUsed = true ∧ g.seq = (l.entry j).seq)
      (hok' : ∃ free, TableOk l' free) :
      Change t op (t.granted (l', some (grantId (BitVec.ofNat 32 j) (l.entry j).seq)))
  | release {grant : BitVec 32} (hgid : gidUsed t.lib grant = true) : Change t (.revoke grant)
        ⟨t.lib.release (grantIdx grant).toNat, t.live.erase grant, grant :: t.revoked⟩
  | fault (j : Nat) (value : BitVec 32) : Change t (.fault j value)
      { t with lib := t.lib.setEntry j { t.lib.entry j with faulted := value } }

theorem GrantsOk.refuse (op : GrantOp) : Change t op t :=
  .grow (Grown.refl t.lib) h.table

theorem GrantsOk.granted {fill : CpGrant → CpGrant} (op : GrantOp) (e : Growth)
    (hfill : Fills fill) :
    ∃ t', (cpfGrant t.lib e fill).map t.granted = some t' ∧ Change t op t' := by
  obtain ⟨free, hok⟩ := h.table
  obtain ⟨l₁, hgrown, hok₁, heq | ⟨j, l₂, hfree, hslot, heq, hok₂⟩⟩ := cpfGrant_spec hok e hfill
  · exact ⟨_, by rw [heq]; rfl, .grow hgrown hok₁⟩
  · exact ⟨_, by rw [heq]; rfl, .fill hgrown hok₁ hfree hslot (hfill _) hok₂⟩

theorem GrantsOk.exec (op : GrantOp) : ∃ t', op.exec t = some t' ∧ Change t op t' := by
  obtain ⟨free, hok⟩ := h.table
  cases op with
  | prealloc count e =>
    obtain ⟨l, heq, hgrown, hl⟩ := cpfPrealloc_spec hok count e
    exact ⟨_, by rw [GrantOp.exec, heq]; rfl, .grow hgrown hl⟩
  | direct e whoTo addr bytes access =>
    rw [GrantOp.exec, cpfGrantDirect]
    split
    · exact h.granted _ e (fillDirect_fills whoTo addr bytes access)
    · exact ⟨t, rfl, h.refuse _⟩
  | indirect e whoTo whoFrom gr => exact h.granted _ e (fillIndirect_fills whoTo whoFrom gr)
  | magic e whoTo whoFrom addr bytes access =>
    rw [GrantOp.exec, cpfGrantMagic]
    split
    · exact h.granted _ e (fillMagic_fills whoTo whoFrom addr bytes access)
    · exact ⟨t, rfl, h.refuse _⟩
  | revoke grant =>
    refine ⟨_, rfl, ?_⟩
    unfold Grants.revoke cpfRevoke
    cases hgid : gidUsed t.lib grant with
    | false => exact h.refuse _
    | true => exact .release hgid
  | fault j value => exact ⟨_, rfl, .fault j value⟩

theorem GrantsOk.change {op : GrantOp} {t' : Grants} (hc : Change t op t') : GrantsOk t' := by
  cases hc with
  | grow hl hok => exact h.grow hl hok
  | fill hl hok hfree hslot hg hok' => exact (h.grow hl hok).fill hslot hfree hg.1 hg.2 hok'
  | release hgid => exact h.release hgid
  | fault j value => exact h.fault j value

end

theorem grantsOk_init : GrantsOk Grants.init := by
  refine ⟨⟨[], rfl, fun j => ?_, by decide, by decide, by simp, rfl, rfl⟩, fun j hj => ?_,
    fun j _ => rfl, fun grant => ?_, nodup_nil, fun later grant earlier heq => ?_⟩
  · simp [Grants.init, GrantLib.init]
  · exact absurd hj (Nat.not_lt_zero j)
  · simp [Grants.init, GrantLib.init, gidUsed]
  · simp [Grants.init] at heq

theorem grantsOk_of_run (h : Relation.ReflTransGen GrantStep Grants.init t) : GrantsOk t := by
  induction h with
  | refl => exact grantsOk_init
  | tail _ hstep ih =>
    obtain ⟨op, hop⟩ := hstep
    obtain ⟨t', ht', hc⟩ := ih.exec op
    cases hop.symm.trans ht'
    exact ih.change hc

end Steps

/-! ## Ids that have been revoked -/

/-- The process in slot `i` runs the library: the kernel knows what the library has told it, and
reads the table from the memory of the process. -/
structure Serves (s : State) (mem : GrantMem) (i : Slot) (l : GrantLib) : Prop where
  table : (s.privOf i).grantTable = l.kernelTable
  entries : (s.privOf i).grantEntries = l.kernelEntries
  endpoint : (s.privOf i).grantEndpoint = (s.proc i).endpoint
  mem : ∀ j, j < l.ngrants → mem i (l.addr + BitVec.ofNat 64 (sizeofGrant * j)) = some (l.entry j)

section Stale

variable {s : State} {mem : GrantMem} {i : Slot} {l : GrantLib} {free : List Nat}
  {granter grantee : Endpoint} {grant : BitVec 32}

theorem Serves.rejects (h : Serves s mem i l) (hok : TableOk l free)
    (hgranter : isokendpt s granter = some i) (hlt : (grantIdx grant).toNat < l.ngrants)
    (hseq : (l.entry (grantIdx grant).toNat).seq ≠ grantSeq grant) (bytes : BitVec 64)
    (access : BitVec 32) (offset : BitVec 64) :
    ∃ e, verifyGrant s mem granter grantee grant bytes access offset = .error e := by
  have hread : ∃ e, readGrant s mem access granter grantee grant = .error e := by
    have hentry : mem i (entryAddr s i grant) = some (l.entry (grantIdx grant).toNat) := by
      rw [entryAddr, h.table, hok.registered.1]
      exact h.mem _ hlt
    simp only [readGrant, hgranter, hentry, h.endpoint, ne_eq, not_true_eq_false, false_and,
      if_false]
    split_ifs <;> exact ⟨_, rfl⟩
  obtain ⟨e, he⟩ := hread
  refine ⟨e, ?_⟩
  rw [verifyGrant, followGrants, he]

theorem GrantsOk.stale (h : GrantsOk t) {later earlier : List (BitVec 32)}
    (hlog : t.revoked = later ++ grant :: earlier)
    (hcount : revocations (later ++ [grant]) (grantIdx grant).toNat < grantMaxSeq) :
    (t.lib.entry (grantIdx grant).toNat).seq ≠ grantSeq grant := by
  obtain ⟨-, hlt, hseq⟩ := h.revoked later grant earlier hlog
  intro heq
  have hslot := h.seq _ hlt
  have hone : revocations [grant] (grantIdx grant).toNat = 1 := by simp [revocations]
  rw [heq, hseq, hlog, append_cons] at hslot
  simp only [revocations, countP_append] at hslot hcount hone
  simp only [grantMaxSeq, grantShift] at hslot hcount
  omega

end Stale

/-- In every run of the library no assertion fails, the free list ends and has exactly the slots
that are not in use, and live grants have different ids. An id that has been revoked is refused by
the library and by the kernel as long as its slot has been revoked less than `GRANT_MAX_SEQ` times,
counted from that revocation on. -/
theorem grant_ids_fresh (h : Relation.ReflTransGen GrantStep Grants.init t) :
    (∀ op : GrantOp, (op.exec t).isSome) ∧
    (∃ free : List Nat, Linked t.lib.next t.lib.head free ∧ free.Nodup ∧
      ∀ j, j ∈ free ↔ j < t.lib.ngrants ∧ (t.lib.entry j).isSet cpfUsed = false) ∧ t.live.Nodup ∧
    ∀ later grant earlier, t.revoked = later ++ grant :: earlier →
      revocations (later ++ [grant]) (grantIdx grant).toNat < grantMaxSeq →
      cpfRevoke t.lib grant = (t.lib, none) ∧
      ∀ s mem i granter grantee bytes access offset, Serves s mem i t.lib →
        isokendpt s granter = some i →
        ∃ e, verifyGrant s mem granter grantee grant bytes access offset = .error e := by
  have hok := grantsOk_of_run h
  obtain ⟨free, htable⟩ := hok.table
  refine ⟨fun op => ?_, ⟨free, htable.chain, htable.chain.nodup, htable.mem_iff⟩, hok.nodup, ?_⟩
  · obtain ⟨t', heq, -⟩ := hok.exec op
    rw [heq]
    rfl
  · intro later grant earlier hlog hcount
    have hstale := hok.stale hlog hcount
    have hlt := (hok.revoked later grant earlier hlog).2.1
    refine ⟨?_, fun s mem i granter grantee bytes access offset hserves hgranter =>
      hserves.rejects htable hgranter hlt hstale bytes access offset⟩
    rw [cpfRevoke, if_neg]
    exact fun hused => hstale (gidUsed_iff.mp hused).2.2.1.symm

def staticOnly : Growth := ⟨0x1000, none, fun _ => noGrant, true⟩

def onceRevoked : Grants :=
  ((GrantOp.direct staticOnly 3 0x2000 64 cpfRead).exec Grants.init).elim Grants.init
    fun t => t.revoke 0

def oneTable : State :=
  { procInit with
    proc := fun i => { procInit.proc i with rtsFlags := { slotFree := i ≠ 10 } }
    priv := fun k => { procInit.priv k with
      grantTable := 0x1000, grantEntries := 3, grantEndpoint := 5 } }

theorem revoked_id_refused : onceRevoked.revoked = [0] ∧
    cpfRevoke onceRevoked.lib 0 = (onceRevoked.lib, none) ∧ ∃ e, verifyGrant oneTable
      (fun _ a => some (onceRevoked.lib.entry ((a.toNat - 0x1000) / sizeofGrant)))
      5 3 0 8 cpfRead 0 =
        .error e := by
  have hrun : Relation.ReflTransGen GrantStep Grants.init onceRevoked :=
    (Relation.ReflTransGen.single ⟨.direct staticOnly 3 0x2000 64 cpfRead, rfl⟩).tail
      ⟨.revoke 0, rfl⟩
  obtain ⟨-, -, -, hstale⟩ := grant_ids_fresh hrun
  obtain ⟨hlib, hkernel⟩ := hstale [] 0 [] rfl (by decide)
  refine ⟨rfl, hlib, hkernel oneTable _ 10 5 3 8 cpfRead 0 ⟨rfl, rfl, rfl, fun j hj => ?_⟩
    (by decide +kernel)⟩
  have hj' : j < 3 := hj
  obtain rfl | rfl | rfl : j = 0 ∨ j = 1 ∨ j = 2 := by omega
  all_goals rfl

end Gergios.Safecopy
