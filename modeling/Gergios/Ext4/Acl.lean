import Mathlib.Data.List.Nodup
import Gergios.Ext4.Layout

/-!
# Access control lists

`acl_permissions` goes once through the entries in the order of the list. The access algorithm it
stands for goes by classes: owner, named user, groups, others.
-/

namespace Gergios.Ext4

open Lib List

def ext4AclVersion : UInt32 := 0x02000000

def aclUserObj : UInt16 := 0x01
def aclUser : UInt16 := 0x02
def aclGroupObj : UInt16 := 0x04
def aclGroup : UInt16 := 0x08
def aclMask : UInt16 := 0x10
def aclOther : UInt16 := 0x20

structure Ext4AclEntry where
  tag : UInt16
  perms : UInt16
  id : UInt32
deriving DecidableEq

structure Ext4Acl where
  entries : List Ext4AclEntry

def parseAcl (data : List UInt8) : Ext4Result Ext4Acl :=
  if data.length < 4 then .error .invalidXattr
  else if u32At data 0 ≠ ext4AclVersion then .error .invalidXattr
  else .ok ⟨(List.range ((data.length - 4) / 8)).map fun i =>
    ⟨u16At data (4 + i * 8), u16At data (4 + i * 8 + 2), u32At data (4 + i * 8 + 4)⟩⟩

section Code

variable (acl : Ext4Acl) (uid gid targetUid targetGid : UInt32)

/-- One round of the loop of `acl_permissions`. -/
def aclStep (effectivePerms : UInt16) (e : Ext4AclEntry) : UInt16 :=
  if e.tag = aclUserObj then
    if targetUid = uid then e.perms else effectivePerms
  else if e.tag = aclUser then
    if e.id = targetUid then e.perms else effectivePerms
  else if e.tag = aclGroupObj then
    if targetGid = gid then e.perms else effectivePerms
  else if e.tag = aclGroup then
    if e.id = targetGid then e.perms else effectivePerms
  else if e.tag = aclMask then effectivePerms
  else if e.tag = aclOther then
    if effectivePerms = 0 then e.perms else effectivePerms
  else effectivePerms

def aclPermissions : UInt16 :=
  let effectivePerms := acl.entries.foldl (aclStep uid gid targetUid targetGid) 0
  match acl.entries.find? (·.tag = aclMask) with
  | none => effectivePerms
  | some mask =>
    let fromNamed := acl.entries.any fun e =>
      e.tag = aclUser ∧ e.id = targetUid ∨ e.tag = aclGroup ∧ e.id = targetGid ∨
        e.tag = aclGroupObj ∧ ¬targetUid = uid
    if fromNamed then effectivePerms &&& mask.perms else effectivePerms

end Code

structure WellFormedAcl (acl : Ext4Acl) : Prop where
  userObj : acl.entries.countP (·.tag = aclUserObj) = 1
  groupObj : acl.entries.countP (·.tag = aclGroupObj) = 1
  other : acl.entries.countP (·.tag = aclOther) = 1
  users : ((acl.entries.filter (·.tag = aclUser)).map (·.id)).Nodup
  groups : ((acl.entries.filter (·.tag = aclGroup)).map (·.id)).Nodup
  masks : acl.entries.countP (·.tag = aclMask) ≤ 1
  masked : ∀ e ∈ acl.entries, e.tag = aclUser ∨ e.tag = aclGroup →
    ∃ m ∈ acl.entries, m.tag = aclMask

/-! ### The access algorithm -/

section Classes

variable (acl : Ext4Acl) (uid gid targetUid targetGid : UInt32)

def permsOf (tag : UInt16) : UInt16 :=
  ((acl.entries.find? (·.tag = tag)).map (·.perms)).getD 0

def maskOf : UInt16 := ((acl.entries.find? (·.tag = aclMask)).map (·.perms)).getD 0xFFFF

def userApplies (e : Ext4AclEntry) : Prop := e.tag = aclUser ∧ e.id = targetUid

def groupApplies (e : Ext4AclEntry) : Prop :=
  e.tag = aclGroupObj ∧ targetGid = gid ∨ e.tag = aclGroup ∧ e.id = targetGid

instance : DecidablePred (userApplies targetUid) := fun _ => inferInstanceAs (Decidable (_ ∧ _))

instance : DecidablePred (groupApplies gid targetGid) :=
  fun _ => inferInstanceAs (Decidable (_ ∧ _ ∨ _ ∧ _))

/-- The permissions of the entries that decide. A request is granted by one of them that has all
of it. -/
def deciding : List UInt16 :=
  if targetUid = uid then [permsOf acl aclUserObj]
  else match acl.entries.find? (userApplies targetUid) with
    | some e => [e.perms &&& maskOf acl]
    | none =>
      match acl.entries.filter (groupApplies gid targetGid) with
      | [] => [permsOf acl aclOther]
      | gs => gs.map (·.perms &&& maskOf acl)

def Has (perms want : UInt16) : Prop := want &&& perms = want

instance (perms want : UInt16) : Decidable (Has perms want) :=
  inferInstanceAs (Decidable (_ = _))

def AccessGranted (want : UInt16) : Prop :=
  ∃ p ∈ deciding acl uid gid targetUid targetGid, Has p want

instance (want : UInt16) : Decidable (AccessGranted acl uid gid targetUid targetGid want) :=
  inferInstanceAs (Decidable (∃ _ ∈ _, _))

/-- `acl_permissions` and the algorithm grant the same requests. -/
def GrantsAlike : Prop :=
  ∀ want, Has (aclPermissions acl uid gid targetUid targetGid) want ↔
    AccessGranted acl uid gid targetUid targetGid want

end Classes

/-! ### Which entries apply, and in what order -/

section Order

variable (acl : Ext4Acl) (uid gid targetUid targetGid : UInt32)

def applies (e : Ext4AclEntry) : Prop :=
  e.tag = aclUserObj ∧ targetUid = uid ∨ userApplies targetUid e ∨ groupApplies gid targetGid e

instance : DecidablePred (applies uid gid targetUid targetGid) :=
  fun _ => inferInstanceAs (Decidable (_ ∧ _ ∨ _ ∨ _))

def UserNamed : Prop := ∃ e ∈ acl.entries, userApplies targetUid e

def InGroup : Prop := ∃ e ∈ acl.entries, groupApplies gid targetGid e

def NamedApplies : Prop :=
  ∃ e ∈ acl.entries, userApplies targetUid e ∨ e.tag = aclGroup ∧ e.id = targetGid

instance : Decidable (UserNamed acl targetUid) := inferInstanceAs (Decidable (∃ _ ∈ _, _))

instance : Decidable (InGroup acl gid targetGid) := inferInstanceAs (Decidable (∃ _ ∈ _, _))

instance : Decidable (NamedApplies acl targetUid targetGid) :=
  inferInstanceAs (Decidable (∃ _ ∈ _, _))

/-- No entry that applies stands behind this one, and the entry for others does not take its
place. -/
def HasLastWord (e : Ext4AclEntry) : Prop :=
  ∃ before after, acl.entries = before ++ e :: after ∧
    (∀ x ∈ after, ¬applies uid gid targetUid targetGid x) ∧
    (e.perms ≠ 0 ∨ ∃ o ∈ before, o.tag = aclOther)

/-- An entry that decides has the last word. For the owner no named entry brings in a mask that
cuts the permissions, and for others the mask covers them. -/
def InOrder : Prop :=
  if targetUid = uid then
    (∃ e, e.tag = aclUserObj ∧ HasLastWord acl uid gid targetUid targetGid e ∧
      (NamedApplies acl targetUid targetGid → Has (maskOf acl) e.perms)) ∨
    NamedApplies acl targetUid targetGid ∧ maskOf acl = 0 ∧ permsOf acl aclUserObj = 0
  else if UserNamed acl targetUid then
    maskOf acl = 0 ∨
      ∃ e, userApplies targetUid e ∧ HasLastWord acl uid gid targetUid targetGid e
  else if InGroup acl gid targetGid then
    maskOf acl = 0 ∨
      ∃ g, groupApplies gid targetGid g ∧ HasLastWord acl uid gid targetUid targetGid g ∧
        ∀ x ∈ acl.entries, groupApplies gid targetGid x → Has g.perms (x.perms &&& maskOf acl)
  else Has (maskOf acl) (permsOf acl aclOther)

/-- The entry is one of those that decide. -/
def Decides (e : Ext4AclEntry) : Prop :=
  if targetUid = uid then e.tag = aclUserObj
  else if UserNamed acl targetUid then userApplies targetUid e
  else if InGroup acl gid targetGid then groupApplies gid targetGid e
  else e.tag = aclOther

instance : DecidablePred (Decides acl uid gid targetUid targetGid) := fun e =>
  inferInstanceAs (Decidable (if targetUid = uid then e.tag = aclUserObj
    else if UserNamed acl targetUid then userApplies targetUid e
    else if InGroup acl gid targetGid then groupApplies gid targetGid e else e.tag = aclOther))

/-- The same entries in the same order, with other permissions where they should not matter. -/
def regrant (f : Ext4AclEntry → UInt16) : Ext4Acl :=
  ⟨acl.entries.map fun e =>
    if Decides acl uid gid targetUid targetGid e ∨ e.tag = aclMask then e
    else { e with perms := f e }⟩

end Order

section Loop

variable {acl : Ext4Acl} {uid gid targetUid targetGid : UInt32} {e : Ext4AclEntry}
  {l : List Ext4AclEntry} {p : UInt16}

theorem aclStep_of_applies (h : applies uid gid targetUid targetGid e)
    (p : UInt16) : aclStep uid gid targetUid targetGid p e = e.perms := by
  rcases h with ⟨ht, hid⟩ | ⟨ht, hid⟩ | ⟨ht, hid⟩ | ⟨ht, hid⟩ <;>
    simp [aclStep, ht, hid, aclUserObj, aclUser, aclGroupObj, aclGroup]

theorem aclStep_of_other (h : e.tag = aclOther) (p : UInt16) :
    aclStep uid gid targetUid targetGid p e = if p = 0 then e.perms else p := by
  simp [aclStep, h, aclUserObj, aclUser, aclGroupObj, aclGroup, aclMask, aclOther]

theorem aclStep_of_not (h : ¬applies uid gid targetUid targetGid e)
    (hother : e.tag ≠ aclOther) (p : UInt16) : aclStep uid gid targetUid targetGid p e = p := by
  simp only [applies, userApplies, groupApplies] at h
  simp only [aclStep]
  split_ifs <;> simp_all

/-- Entries that do not apply leave the permissions as they are, unless there are none and the
entry for others comes. -/
theorem foldl_eq_self (h : ∀ e ∈ l, ¬applies uid gid targetUid targetGid e)
    (hother : p = 0 → ∀ e ∈ l, e.tag = aclOther → e.perms = 0) :
    l.foldl (aclStep uid gid targetUid targetGid) p = p := by
  induction l with
  | nil => rfl
  | cons e l ih =>
    have hstep : aclStep uid gid targetUid targetGid p e = p := by
      by_cases ho : e.tag = aclOther
      · rw [aclStep_of_other ho]
        split
        · rename_i hp
          rw [hother hp e mem_cons_self ho, hp]
        · rfl
      · exact aclStep_of_not (h e mem_cons_self) ho p
    rw [foldl_cons, hstep]
    exact ih (fun x hx => h x (mem_cons_of_mem _ hx))
      fun hp x hx => hother hp x (mem_cons_of_mem _ hx)

theorem foldl_of_other {o : Ext4AclEntry} (h : ∀ e ∈ l, ¬applies uid gid targetUid targetGid e)
    (ho : o ∈ l) (htag : o.tag = aclOther) (hone : ∀ e ∈ l, e.tag = aclOther → e.perms = o.perms) :
    l.foldl (aclStep uid gid targetUid targetGid) 0 = o.perms := by
  induction l with
  | nil => cases ho
  | cons e l ih =>
    have hl := fun x hx => h x (mem_cons_of_mem e hx)
    have hperms := fun x hx => hone x (mem_cons_of_mem e hx)
    rw [foldl_cons]
    by_cases he : e.tag = aclOther
    · rw [aclStep_of_other he, if_pos rfl, hone e mem_cons_self he]
      exact foldl_eq_self hl fun hzero x hx hx' => by rw [hperms x hx hx', hzero]
    · rw [aclStep_of_not (h e mem_cons_self) he]
      refine ih hl ((mem_cons.mp ho).resolve_left ?_) hperms
      rintro rfl
      exact he htag

theorem WellFormedAcl.other_unique (h : WellFormedAcl acl) {before after : List Ext4AclEntry}
    (hsplit : acl.entries = before ++ after) (hbefore : ∃ o ∈ before, o.tag = aclOther) :
    ∀ e ∈ after, e.tag ≠ aclOther := by
  have hcount := h.other
  rw [hsplit, countP_append] at hcount
  have hpos : 0 < before.countP (·.tag = aclOther) := by
    rw [countP_pos_iff]
    simpa using hbefore
  have hzero := countP_eq_zero.mp (show after.countP (·.tag = aclOther) = 0 by omega)
  exact fun e he => by simpa using hzero e he

theorem foldl_of_lastWord (h : WellFormedAcl acl) (he : applies uid gid targetUid targetGid e)
    (hlast : HasLastWord acl uid gid targetUid targetGid e) :
    acl.entries.foldl (aclStep uid gid targetUid targetGid) 0 = e.perms := by
  obtain ⟨before, after, hsplit, hafter, hword⟩ := hlast
  rw [hsplit, foldl_append, foldl_cons, aclStep_of_applies he]
  refine foldl_eq_self hafter fun hzero x hx hother => absurd hother ?_
  have hbefore := hword.resolve_left (absurd hzero)
  exact h.other_unique hsplit hbefore x (mem_cons_of_mem e hx)

theorem exists_tag {tag : UInt16}
    (htag : acl.entries.countP (·.tag = tag) = 1) :
    ∃ e ∈ acl.entries, e.tag = tag ∧ e.perms = permsOf acl tag ∧
      ∀ x ∈ acl.entries, x.tag = tag → x = e := by
  rw [countP_eq_length_filter, length_eq_one_iff] at htag
  obtain ⟨e, he⟩ := htag
  have hmem : ∀ x, x ∈ acl.entries ∧ x.tag = tag ↔ x = e := fun x => by
    rw [← List.mem_singleton (a := x), ← he, mem_filter, decide_eq_true_eq]
  obtain ⟨hin, htag⟩ := (hmem e).mpr rfl
  refine ⟨e, hin, htag, ?_, fun x hx hx' => (hmem x).mp ⟨hx, hx'⟩⟩
  cases hfind : acl.entries.find? (·.tag = tag) with
  | none => simpa [htag] using find?_eq_none.mp hfind e hin
  | some x =>
    have hx := (hmem x).mp ⟨mem_of_find?_eq_some hfind, by simpa using find?_some hfind⟩
    rw [permsOf, hfind, hx]
    rfl

theorem exists_last_applying (h : ∃ e ∈ l, applies uid gid targetUid targetGid e) :
    ∃ before e after, l = before ++ e :: after ∧ applies uid gid targetUid targetGid e ∧
      ∀ x ∈ after, ¬applies uid gid targetUid targetGid x := by
  induction l with
  | nil => obtain ⟨e, he, -⟩ := h; cases he
  | cons y l ih =>
    by_cases hl : ∃ e ∈ l, applies uid gid targetUid targetGid e
    · obtain ⟨before, e, after, rfl, he⟩ := ih hl
      exact ⟨y :: before, e, after, rfl, he⟩
    · obtain ⟨e, he, happ⟩ := h
      rcases mem_cons.mp he with rfl | he
      · exact ⟨[], e, l, rfl, happ, fun x hx hx' => hl ⟨x, hx, hx'⟩⟩
      · exact absurd ⟨e, he, happ⟩ hl

theorem and_maskOf_of_none (h : acl.entries.find? (·.tag = aclMask) = none) (p : UInt16) :
    p &&& maskOf acl = p := by
  rw [maskOf, h]
  exact UInt16.and_neg_one

theorem aclPermissions_eq (h : WellFormedAcl acl) : aclPermissions acl uid gid targetUid targetGid =
      if ¬targetUid = uid ∨ NamedApplies acl targetUid targetGid then
        acl.entries.foldl (aclStep uid gid targetUid targetGid) 0 &&& maskOf acl
      else acl.entries.foldl (aclStep uid gid targetUid targetGid) 0 := by
  rw [aclPermissions]
  cases hmask : acl.entries.find? (·.tag = aclMask) with
  | none => rw [and_maskOf_of_none hmask, ite_self]
  | some m =>
    obtain ⟨o, ho, htag, -⟩ := exists_tag h.groupObj
    simp only [maskOf, hmask, any_eq_true, decide_eq_true_eq]
    refine if_congr ⟨?_, ?_⟩ rfl rfl
    · rintro ⟨e, he, hu | hg | ⟨-, hne⟩⟩
      · exact .inr ⟨e, he, .inl hu⟩
      · exact .inr ⟨e, he, .inr hg⟩
      · exact .inl hne
    · rintro (hne | ⟨e, he, hu | hg⟩)
      · exact ⟨o, ho, .inr (.inr ⟨htag, hne⟩)⟩
      · exact ⟨e, he, .inl hu⟩
      · exact ⟨e, he, .inr (.inl hg)⟩

end Loop

theorem forall_has_iff (v : UInt16) (cs : List UInt16) :
    (∀ want, Has v want ↔ ∃ c ∈ cs, Has c want) ↔ v ∈ cs ∧ ∀ c ∈ cs, Has v c := by
  unfold Has
  constructor
  · intro h
    have hge : ∀ c ∈ cs, c &&& v = c := fun c hc => (h c).mpr ⟨c, hc, UInt16.and_self⟩
    obtain ⟨c, hc, hv⟩ := (h v).mp UInt16.and_self
    have heq : v = c := by rw [← hv, UInt16.and_comm, hge c hc]
    exact ⟨heq ▸ hc, hge⟩
  · rintro ⟨hv, hge⟩ want
    constructor
    · intro hw
      exact ⟨v, hv, hw⟩
    · rintro ⟨c, hc, hw⟩
      rw [← hw, UInt16.and_assoc, hge c hc]

theorem Has.of_and {p m want : UInt16} (h : Has (p &&& m) want) : Has p want := by
  rw [Has] at h ⊢
  calc want &&& p = want &&& (p &&& m) &&& p := by rw [h]
    _ = want &&& (p &&& m) := by
      rw [UInt16.and_assoc, UInt16.and_comm (p &&& m), ← UInt16.and_assoc p, UInt16.and_self]
    _ = want := h

theorem greatest_singleton (v c : UInt16) : (v ∈ [c] ∧ ∀ x ∈ [c], Has v x) ↔ v = c := by
  simp only [List.mem_singleton, forall_eq, and_iff_left_iff_imp]
  rintro rfl
  exact UInt16.and_self

section Classes

variable {acl : Ext4Acl} {uid gid targetUid targetGid : UInt32} {e : Ext4AclEntry}

theorem grantsAlike_iff (h : WellFormedAcl acl) : GrantsAlike acl uid gid targetUid targetGid ↔
    let perms := if ¬targetUid = uid ∨ NamedApplies acl targetUid targetGid then
      acl.entries.foldl (aclStep uid gid targetUid targetGid) 0 &&& maskOf acl
      else acl.entries.foldl (aclStep uid gid targetUid targetGid) 0
    perms ∈ deciding acl uid gid targetUid targetGid ∧
      ∀ c ∈ deciding acl uid gid targetUid targetGid, Has perms c := by
  unfold GrantsAlike AccessGranted
  rw [forall_has_iff, aclPermissions_eq h]

theorem grantsAlike_owner (h : WellFormedAcl acl) : GrantsAlike acl uid gid uid targetGid ↔
    (if NamedApplies acl uid targetGid then
      acl.entries.foldl (aclStep uid gid uid targetGid) 0 &&& maskOf acl
      else acl.entries.foldl (aclStep uid gid uid targetGid) 0) = permsOf acl aclUserObj := by
  rw [grantsAlike_iff h, deciding, if_pos rfl]
  simp only [not_true, false_or]
  exact greatest_singleton _ _

theorem WellFormedAcl.find_user (h : WellFormedAcl acl) (he : e ∈ acl.entries)
    (happ : userApplies targetUid e) : acl.entries.find? (userApplies targetUid) = some e := by
  cases hfind : acl.entries.find? (userApplies targetUid) with
  | none => exact absurd happ (by simpa using find?_eq_none.mp hfind e he)
  | some x =>
    have hx : userApplies targetUid x := by simpa using find?_some hfind
    have hin : ∀ y ∈ acl.entries, userApplies targetUid y →
        y ∈ acl.entries.filter (·.tag = aclUser) := fun y hy happ => by simp [hy, happ.1]
    rw [inj_on_of_nodup_map h.users (hin x (mem_of_find?_eq_some hfind) hx) (hin e he happ)
      (hx.2.trans happ.2.symm)]

theorem grantsAlike_user (h : WellFormedAcl acl) (howner : ¬targetUid = uid)
    (he : e ∈ acl.entries) (happ : userApplies targetUid e) :
    GrantsAlike acl uid gid targetUid targetGid ↔
      acl.entries.foldl (aclStep uid gid targetUid targetGid) 0 &&& maskOf acl =
        e.perms &&& maskOf acl := by
  rw [grantsAlike_iff h, deciding, if_neg howner, h.find_user he happ]
  simp only [howner, not_false_eq_true, true_or, if_true]
  exact greatest_singleton _ _

theorem find_user_none (huser : ¬UserNamed acl targetUid) :
    acl.entries.find? (userApplies targetUid) = none :=
  find?_eq_none.mpr fun e he happ => huser ⟨e, he, by simpa using happ⟩

theorem grantsAlike_group (h : WellFormedAcl acl) (howner : ¬targetUid = uid)
    (huser : ¬UserNamed acl targetUid) (hgroup : InGroup acl gid targetGid) :
    GrantsAlike acl uid gid targetUid targetGid ↔
      (∃ g ∈ acl.entries, groupApplies gid targetGid g ∧
        g.perms &&& maskOf acl =
          acl.entries.foldl (aclStep uid gid targetUid targetGid) 0 &&& maskOf acl) ∧
      ∀ g ∈ acl.entries, groupApplies gid targetGid g →
        Has (acl.entries.foldl (aclStep uid gid targetUid targetGid) 0 &&& maskOf acl)
          (g.perms &&& maskOf acl) := by
  obtain ⟨g, hg, happ⟩ := hgroup
  have hmem : ∀ x, x ∈ acl.entries.filter (groupApplies gid targetGid) ↔
      x ∈ acl.entries ∧ groupApplies gid targetGid x := fun x => by simp
  have hfilter : acl.entries.filter (groupApplies gid targetGid) ≠ [] :=
    ne_nil_of_mem ((hmem g).mpr ⟨hg, happ⟩)
  rw [grantsAlike_iff h, deciding, if_neg howner, find_user_none huser]
  cases hgs : acl.entries.filter (groupApplies gid targetGid) with
  | nil => exact absurd hgs hfilter
  | cons x xs =>
    simp only [howner, not_false_eq_true, true_or, if_true, ← hgs, mem_map, hmem, and_assoc,
      forall_exists_index, and_imp]
    exact and_congr_right fun _ => ⟨fun hall g hg hg' => hall _ g hg hg' rfl,
      fun hall c x hx hx' hc => hc ▸ hall x hx hx'⟩

theorem grantsAlike_other (h : WellFormedAcl acl) (howner : ¬targetUid = uid)
    (huser : ¬UserNamed acl targetUid) (hgroup : ¬InGroup acl gid targetGid) :
    GrantsAlike acl uid gid targetUid targetGid ↔ Has (maskOf acl) (permsOf acl aclOther) := by
  have hfilter : acl.entries.filter (groupApplies gid targetGid) = [] :=
    filter_eq_nil_iff.mpr fun e he happ => hgroup ⟨e, he, by simpa using happ⟩
  have hnot : ∀ e ∈ acl.entries, ¬applies uid gid targetUid targetGid e := by
    rintro e he (⟨-, heq⟩ | hu | hg)
    · exact howner heq
    · exact huser ⟨e, he, hu⟩
    · exact hgroup ⟨e, he, hg⟩
  obtain ⟨o, ho, htag, hperms, hone⟩ := exists_tag h.other
  rw [grantsAlike_iff h, deciding, if_neg howner, find_user_none huser, hfilter,
    foldl_of_other hnot ho htag fun e he he' => by rw [hone e he he'], hperms]
  simp only [howner, not_false_eq_true, true_or, if_true]
  exact greatest_singleton _ _

end Classes

/-! ### Entries that should not matter -/

/-- The two lists differ in permissions only, and not in the mask. -/
structure SameOutline (acl acl' : Ext4Acl) (g : Ext4AclEntry → Ext4AclEntry) : Prop where
  entries : acl'.entries = acl.entries.map g
  tag : ∀ e, (g e).tag = e.tag
  id : ∀ e, (g e).id = e.id
  mask : ∀ e, e.tag = aclMask → g e = e

namespace SameOutline

variable {acl acl' : Ext4Acl} {g : Ext4AclEntry → Ext4AclEntry}
  {uid gid targetUid targetGid : UInt32} {e : Ext4AclEntry}

theorem userApplies_iff (h : SameOutline acl acl' g) (e : Ext4AclEntry) :
    userApplies targetUid (g e) ↔ userApplies targetUid e := by
  rw [userApplies, h.tag, h.id, userApplies]

theorem groupApplies_iff (h : SameOutline acl acl' g) (e : Ext4AclEntry) :
    groupApplies gid targetGid (g e) ↔ groupApplies gid targetGid e := by
  rw [groupApplies, h.tag, h.id, groupApplies]

theorem applies_iff (h : SameOutline acl acl' g) (e : Ext4AclEntry) :
    applies uid gid targetUid targetGid (g e) ↔ applies uid gid targetUid targetGid e := by
  rw [applies, h.userApplies_iff, h.groupApplies_iff, h.tag, applies]

theorem exists_iff (h : SameOutline acl acl' g) {P : Ext4AclEntry → Prop}
    (hP : ∀ e, P (g e) ↔ P e) : (∃ e ∈ acl'.entries, P e) ↔ ∃ e ∈ acl.entries, P e := by
  simp [h.entries, hP]

theorem userNamed_iff (h : SameOutline acl acl' g) :
    UserNamed acl' targetUid ↔ UserNamed acl targetUid := h.exists_iff h.userApplies_iff

theorem inGroup_iff (h : SameOutline acl acl' g) :
    InGroup acl' gid targetGid ↔ InGroup acl gid targetGid := h.exists_iff h.groupApplies_iff

theorem namedApplies_iff (h : SameOutline acl acl' g) :
    NamedApplies acl' targetUid targetGid ↔ NamedApplies acl targetUid targetGid :=
  h.exists_iff fun e => by rw [h.userApplies_iff, h.tag, h.id]

theorem tag_comp (h : SameOutline acl acl' g) (tag : UInt16) :
    (fun e : Ext4AclEntry => decide (e.tag = tag)) ∘ g = fun e => decide (e.tag = tag) := by
  funext e
  simp [h.tag]

theorem find_tag (h : SameOutline acl acl' g) {tag : UInt16} (hkeep : ∀ e, e.tag = tag → g e = e) :
    acl'.entries.find? (·.tag = tag) = acl.entries.find? (·.tag = tag) := by
  rw [h.entries, find?_map, h.tag_comp]
  cases hfind : acl.entries.find? (·.tag = tag) with
  | none => rfl
  | some e => rw [Option.map_some, hkeep e (by simpa using find?_some hfind)]

theorem permsOf_eq (h : SameOutline acl acl' g) {tag : UInt16}
    (hkeep : ∀ e, e.tag = tag → g e = e) : permsOf acl' tag = permsOf acl tag := by
  rw [permsOf, h.find_tag hkeep, permsOf]

theorem maskOf_eq (h : SameOutline acl acl' g) : maskOf acl' = maskOf acl := by
  rw [maskOf, h.find_tag h.mask, maskOf]

theorem wellFormed (h : SameOutline acl acl' g) (hacl : WellFormedAcl acl) :
    WellFormedAcl acl' := by
  have hcount : ∀ tag : UInt16, acl'.entries.countP (·.tag = tag) =
      acl.entries.countP (·.tag = tag) := fun tag => by
    rw [h.entries, countP_map, h.tag_comp]
  have hids : ∀ tag : UInt16, (acl'.entries.filter (·.tag = tag)).map (·.id) =
      (acl.entries.filter (·.tag = tag)).map (·.id) := fun tag => by
    rw [h.entries, filter_map, map_map, h.tag_comp]
    exact map_congr_left fun e _ => h.id e
  refine ⟨?_, ?_, ?_, ?_, ?_, ?_, fun e he htag => ?_⟩
  · rw [hcount, hacl.userObj]
  · rw [hcount, hacl.groupObj]
  · rw [hcount, hacl.other]
  · rw [hids]
    exact hacl.users
  · rw [hids]
    exact hacl.groups
  · rw [hcount]
    exact hacl.masks
  · rw [h.entries, mem_map] at he
    obtain ⟨x, hx, rfl⟩ := he
    rw [h.tag] at htag
    exact (h.exists_iff fun y => by rw [h.tag]).mpr (hacl.masked x hx htag)

theorem hasLastWord (h : SameOutline acl acl' g) (hkeep : g e = e)
    (hlast : HasLastWord acl uid gid targetUid targetGid e) :
    HasLastWord acl' uid gid targetUid targetGid e := by
  obtain ⟨before, after, hsplit, hafter, hword⟩ := hlast
  refine ⟨before.map g, after.map g, ?_, fun x hx => ?_, hword.imp_right ?_⟩
  · rw [h.entries, hsplit, map_append, map_cons, hkeep]
  · obtain ⟨y, hy, rfl⟩ := mem_map.mp hx
    rw [h.applies_iff]
    exact hafter y hy
  · rintro ⟨o, ho, htag⟩
    exact ⟨g o, mem_map_of_mem ho, by rw [h.tag, htag]⟩

end SameOutline

section Regrant

variable (acl : Ext4Acl) (uid gid targetUid targetGid : UInt32)

theorem regrant_outline (f : Ext4AclEntry → UInt16) : ∃ g : Ext4AclEntry → Ext4AclEntry,
    SameOutline acl (regrant acl uid gid targetUid targetGid f) g ∧
    (∀ e, Decides acl uid gid targetUid targetGid e → g e = e) ∧
    ∀ e, ¬Decides acl uid gid targetUid targetGid e → e.tag ≠ aclMask → (g e).perms = f e := by
  refine ⟨_, ⟨rfl, fun e => ?_, fun e => ?_, fun e he => if_pos (.inr he)⟩,
    fun e he => if_pos (.inl he), fun e hd hm => ?_⟩
  · split <;> rfl
  · split <;> rfl
  · rw [if_neg (not_or.mpr ⟨hd, hm⟩)]

theorem regrant_perms : regrant acl uid gid targetUid targetGid (·.perms) = acl := by
  simp [regrant]

variable {acl uid gid targetUid targetGid}

/-- Where no entry that decides has the last word, the others have it. -/
theorem foldl_regrant (h : WellFormedAcl acl) (v : UInt16)
    (hsome : ∃ e ∈ acl.entries, applies uid gid targetUid targetGid e)
    (hother : ∀ e, e.tag = aclOther → ¬Decides acl uid gid targetUid targetGid e)
    (hlast : ∀ e, Decides acl uid gid targetUid targetGid e →
      ¬HasLastWord acl uid gid targetUid targetGid e) :
    (regrant acl uid gid targetUid targetGid fun _ => v).entries.foldl
      (aclStep uid gid targetUid targetGid) 0 = v := by
  obtain ⟨g, hg, hkeep, hperms⟩ := regrant_outline acl uid gid targetUid targetGid fun _ => v
  obtain ⟨before, e, after, hsplit, happ, hafter⟩ := exists_last_applying hsome
  have hothers : ∀ x ∈ after.map g, x.tag = aclOther → x.perms = v := by
    intro x hx htag
    obtain ⟨y, -, rfl⟩ := mem_map.mp hx
    rw [hg.tag] at htag
    exact hperms y (hother y htag) (by rw [htag]; decide)
  have hafter' : ∀ x ∈ after.map g, ¬applies uid gid targetUid targetGid x := by
    intro x hx
    obtain ⟨y, hy, rfl⟩ := mem_map.mp hx
    rw [hg.applies_iff]
    exact hafter y hy
  rw [hg.entries, hsplit, map_append, map_cons, foldl_append, foldl_cons,
    aclStep_of_applies (hg.applies_iff e |>.mpr happ)]
  by_cases hd : Decides acl uid gid targetUid targetGid e
  · -- it has no permissions, and the entry for others comes after it
    have hword := fun hw => hlast e hd ⟨before, after, hsplit, hafter, hw⟩
    have hzero : e.perms = 0 := by_contra fun hne => hword (.inl hne)
    obtain ⟨o, ho, htag, -⟩ := exists_tag h.other
    have ho' : o ∈ after := by
      rw [hsplit, mem_append, mem_cons] at ho
      rcases ho with ho | rfl | ho
      · exact absurd (.inr ⟨o, ho, htag⟩) hword
      · exact absurd hd (hother o htag)
      · exact ho
    have hov : (g o).perms = v := hothers _ (mem_map_of_mem ho') (by rw [hg.tag, htag])
    rw [hkeep e hd, hzero, foldl_of_other hafter' (mem_map_of_mem ho') (by rw [hg.tag, htag])
      fun x hx hx' => by rw [hothers x hx hx', hov], hov]
  · have hmask : e.tag ≠ aclMask := by
      rintro hm
      simp [applies, userApplies, groupApplies, hm, aclUserObj, aclUser, aclGroupObj, aclGroup,
        aclMask] at happ
    rw [hperms e hd hmask]
    exact foldl_eq_self hafter' fun hv x hx hx' => by rw [hothers x hx hx', hv]

variable {e : Ext4AclEntry}

theorem not_decides_other (happ : ∃ e ∈ acl.entries, applies uid gid targetUid targetGid e)
    (htag : e.tag = aclOther) : ¬Decides acl uid gid targetUid targetGid e := by
  rw [Decides]
  split_ifs with howner huser hgroup
  · rw [htag]
    decide
  · simp [userApplies, htag, aclUser, aclOther]
  · simp [groupApplies, htag, aclGroupObj, aclGroup, aclOther]
  · obtain ⟨x, hx, h | h | h⟩ := happ
    · exact absurd h.2 howner
    · exact absurd ⟨x, hx, h⟩ huser
    · exact absurd ⟨x, hx, h⟩ hgroup

/-- Entries that decide apply, unless it is the one for others. -/
theorem Decides.applies (h : Decides acl uid gid targetUid targetGid e)
    (htag : e.tag ≠ aclOther) : applies uid gid targetUid targetGid e := by
  rw [Decides] at h
  split_ifs at h with howner
  · exact .inl ⟨h, howner⟩
  · exact .inr (.inl h)
  · exact .inr (.inr h)
  · exact absurd h htag

end Regrant

section Main

variable {acl : Ext4Acl} {uid gid targetUid targetGid : UInt32}

theorem InOrder.grantsAlike (h : WellFormedAcl acl)
    (hord : InOrder acl uid gid targetUid targetGid) :
    GrantsAlike acl uid gid targetUid targetGid := by
  rw [InOrder] at hord
  split_ifs at hord with howner huser hgroup
  · subst howner
    rw [grantsAlike_owner h]
    obtain ⟨u, -, -, hperms, hone⟩ := exists_tag h.userObj
    rcases hord with ⟨e, htag, hlast, hmask⟩ | ⟨hnamed, hzero, hperms⟩
    · obtain ⟨before, after, hsplit, -⟩ := id hlast
      have he : e = u := hone e (by simp [hsplit]) htag
      rw [foldl_of_lastWord h (.inl ⟨htag, rfl⟩) hlast, ← hperms, ← he]
      split_ifs with hnamed
      · exact hmask hnamed
      · rfl
    · rw [if_pos hnamed, hzero, hperms, UInt16.and_zero]
  · obtain ⟨e, he, happ⟩ := huser
    rw [grantsAlike_user h howner he happ]
    rcases hord with hzero | ⟨x, hx, hlast⟩
    · rw [hzero, UInt16.and_zero, UInt16.and_zero]
    · obtain ⟨before, after, hsplit, -⟩ := id hlast
      have hxe := (h.find_user (by simp [hsplit]) hx).symm.trans (h.find_user he happ)
      rw [foldl_of_lastWord h (.inr (.inl hx)) hlast, Option.some.inj hxe]
  · rw [grantsAlike_group h howner huser hgroup]
    rcases hord with hzero | ⟨g, happ, hlast, hall⟩
    · obtain ⟨g, hg, happ⟩ := hgroup
      simp only [hzero, UInt16.and_zero, Has, and_true, implies_true]
      exact ⟨g, hg, happ⟩
    · obtain ⟨before, after, hsplit, -⟩ := id hlast
      rw [foldl_of_lastWord h (.inr (.inr happ)) hlast]
      refine ⟨⟨g, by simp [hsplit], happ, rfl⟩, fun x hx hx' => ?_⟩
      have hsub := hall x hx hx'
      rw [Has] at hsub ⊢
      rw [← UInt16.and_assoc, hsub, UInt16.and_assoc, UInt16.and_self]
  · rwa [grantsAlike_other h howner huser hgroup]

theorem SameOutline.inOrder {acl' : Ext4Acl} {g : Ext4AclEntry → Ext4AclEntry}
    (h : SameOutline acl acl' g)
    (hkeep : ∀ e, Decides acl uid gid targetUid targetGid e → g e = e)
    (hord : InOrder acl uid gid targetUid targetGid) :
    InOrder acl' uid gid targetUid targetGid := by
  unfold Decides at hkeep
  rw [InOrder] at hord ⊢
  simp only [h.userNamed_iff, h.inGroup_iff, h.namedApplies_iff, h.maskOf_eq]
  split_ifs at hord hkeep ⊢ with howner huser hgroup
  · rw [h.permsOf_eq hkeep]
    refine hord.imp_left ?_
    rintro ⟨e, htag, hlast, hmask⟩
    exact ⟨e, htag, h.hasLastWord (hkeep e htag) hlast, hmask⟩
  · refine hord.imp_right ?_
    rintro ⟨e, happ, hlast⟩
    exact ⟨e, happ, h.hasLastWord (hkeep e happ) hlast⟩
  · refine hord.imp_right ?_
    rintro ⟨e, happ, hlast, hall⟩
    refine ⟨e, happ, h.hasLastWord (hkeep e happ) hlast, fun x hx hx' => ?_⟩
    rw [h.entries, mem_map] at hx
    obtain ⟨y, hy, rfl⟩ := hx
    rw [h.groupApplies_iff] at hx'
    rw [hkeep y hx']
    exact hall y hy hx'
  · rwa [h.permsOf_eq hkeep]

/-- If an entry of the class decides, then it has the last word, or the others have it whatever
their permissions are. -/
theorem lastWord_or_regrant (h : WellFormedAcl acl)
    (happ : ∃ e ∈ acl.entries, applies uid gid targetUid targetGid e) :
    (∃ e, Decides acl uid gid targetUid targetGid e ∧
      HasLastWord acl uid gid targetUid targetGid e ∧
      acl.entries.foldl (aclStep uid gid targetUid targetGid) 0 = e.perms) ∨
    ∀ v, (regrant acl uid gid targetUid targetGid fun _ => v).entries.foldl
      (aclStep uid gid targetUid targetGid) 0 = v := by
  by_cases hlast : ∃ e, Decides acl uid gid targetUid targetGid e ∧
      HasLastWord acl uid gid targetUid targetGid e
  · obtain ⟨e, hd, hlast⟩ := hlast
    have htag : e.tag ≠ aclOther := fun htag => not_decides_other happ htag hd
    exact .inl ⟨e, hd, hlast, foldl_of_lastWord h (hd.applies htag) hlast⟩
  · exact .inr fun v => foldl_regrant h v happ (fun e => not_decides_other happ)
      fun e hd hw => hlast ⟨e, hd, hw⟩

theorem eq_zero_of_forall_and {m p : UInt16} (h : ∀ v : UInt16, v &&& m = p) :
    m = 0 ∧ p = 0 := by
  have hp : p = 0 := by rw [← h 0, UInt16.zero_and]
  have hm := h m
  rw [UInt16.and_self, hp] at hm
  exact ⟨hm, hp⟩

/-- The answers for the list itself and for every other choice of the permissions. -/
abbrev AlwaysAlike (acl : Ext4Acl) (uid gid targetUid targetGid : UInt32) : Prop :=
  ∀ f, GrantsAlike (regrant acl uid gid targetUid targetGid f) uid gid targetUid targetGid

theorem AlwaysAlike.self (hall : AlwaysAlike acl uid gid targetUid targetGid) :
    GrantsAlike acl uid gid targetUid targetGid := by
  simpa only [regrant_perms] using hall (·.perms)

theorem AlwaysAlike.owner (h : WellFormedAcl acl) (hall : AlwaysAlike acl uid gid uid targetGid) :
    InOrder acl uid gid uid targetGid := by
  rw [InOrder, if_pos rfl]
  have hdec : ∀ e, Decides acl uid gid uid targetGid e ↔ e.tag = aclUserObj := fun e => by
    rw [Decides, if_pos rfl]
  obtain ⟨u, hu, htag, hperms, hone⟩ := exists_tag h.userObj
  rcases lastWord_or_regrant h ⟨u, hu, .inl ⟨htag, rfl⟩⟩ with ⟨e, hd, hlast, heq⟩ | hv
  · rw [hdec] at hd
    obtain ⟨before, after, hsplit, -⟩ := id hlast
    have he : e = u := hone e (by simp [hsplit]) hd
    refine .inl ⟨e, hd, hlast, fun hnamed => ?_⟩
    have hself := (grantsAlike_owner h).mp hall.self
    rwa [if_pos hnamed, heq, ← hperms, ← he] at hself
  · have hvs : ∀ v, (if NamedApplies acl uid targetGid then v &&& maskOf acl else v) =
        permsOf acl aclUserObj := fun v => by
      obtain ⟨g, hg, hkeep, -⟩ := regrant_outline acl uid gid uid targetGid fun _ => v
      have hself := (grantsAlike_owner (hg.wellFormed h)).mp (hall _)
      simp only [hg.namedApplies_iff, hg.maskOf_eq] at hself
      rwa [hv, hg.permsOf_eq fun e he => hkeep e ((hdec e).mpr he)] at hself
    by_cases hnamed : NamedApplies acl uid targetGid
    · simp only [if_pos hnamed] at hvs
      exact .inr ⟨hnamed, eq_zero_of_forall_and hvs⟩
    · simp only [if_neg hnamed] at hvs
      exact absurd ((hvs 0).trans (hvs 1).symm) (by decide)

theorem AlwaysAlike.user (h : WellFormedAcl acl) (howner : ¬targetUid = uid)
    (huser : UserNamed acl targetUid) (hall : AlwaysAlike acl uid gid targetUid targetGid) :
    InOrder acl uid gid targetUid targetGid := by
  rw [InOrder, if_neg howner, if_pos huser]
  have hdec : ∀ e, Decides acl uid gid targetUid targetGid e ↔ userApplies targetUid e :=
    fun e => by rw [Decides, if_neg howner, if_pos huser]
  obtain ⟨e, he, happ⟩ := huser
  rcases lastWord_or_regrant h ⟨e, he, .inr (.inl happ)⟩ with ⟨x, hd, hlast, -⟩ | hv
  · exact .inr ⟨x, (hdec x).mp hd, hlast⟩
  · refine .inl (eq_zero_of_forall_and (p := e.perms &&& maskOf acl) fun v => ?_).1
    obtain ⟨g, hg, hkeep, -⟩ := regrant_outline acl uid gid targetUid targetGid fun _ => v
    have hmem : e ∈ (regrant acl uid gid targetUid targetGid fun _ => v).entries := by
      rw [hg.entries, ← hkeep e ((hdec e).mpr happ)]
      exact mem_map_of_mem he
    have hself := (grantsAlike_user (hg.wellFormed h) howner hmem happ).mp (hall _)
    rwa [hv, hg.maskOf_eq] at hself

theorem AlwaysAlike.group (h : WellFormedAcl acl) (howner : ¬targetUid = uid)
    (huser : ¬UserNamed acl targetUid) (hgroup : InGroup acl gid targetGid)
    (hall : AlwaysAlike acl uid gid targetUid targetGid) :
    InOrder acl uid gid targetUid targetGid := by
  rw [InOrder, if_neg howner, if_neg huser, if_pos hgroup]
  have hdec : ∀ e, Decides acl uid gid targetUid targetGid e ↔ groupApplies gid targetGid e :=
    fun e => by rw [Decides, if_neg howner, if_neg huser, if_pos hgroup]
  obtain ⟨e, he, happ⟩ := id hgroup
  rcases lastWord_or_regrant h ⟨e, he, .inr (.inr happ)⟩ with ⟨x, hd, hlast, heq⟩ | hv
  · refine .inr ⟨x, (hdec x).mp hd, hlast, fun y hy hy' => ?_⟩
    have hsub := ((grantsAlike_group h howner huser hgroup).mp hall.self).2 y hy hy'
    rw [heq] at hsub
    exact hsub.of_and
  · have hvs : ∀ v, ∃ x ∈ acl.entries, groupApplies gid targetGid x ∧
        x.perms &&& maskOf acl = v &&& maskOf acl ∧ ∀ y ∈ acl.entries,
          groupApplies gid targetGid y → Has (v &&& maskOf acl) (y.perms &&& maskOf acl) := by
      intro v
      obtain ⟨g, hg, hkeep, -⟩ := regrant_outline acl uid gid targetUid targetGid fun _ => v
      have hself := (grantsAlike_group (hg.wellFormed h) howner (mt hg.userNamed_iff.mp huser)
        (hg.inGroup_iff.mpr hgroup)).mp (hall _)
      rw [hv, hg.maskOf_eq, hg.entries] at hself
      obtain ⟨⟨x, hx, happ, heq⟩, hsub⟩ := hself
      obtain ⟨y, hy, rfl⟩ := mem_map.mp hx
      rw [hg.groupApplies_iff] at happ
      rw [hkeep y ((hdec y).mpr happ)] at heq
      refine ⟨y, hy, happ, heq, fun z hz hz' => ?_⟩
      have hzg := hkeep z ((hdec z).mpr hz')
      exact hsub z (hzg ▸ mem_map_of_mem hz) hz'
    -- without permissions all are cut to nothing, and with those of the mask one is not cut
    obtain ⟨x, hx, happ, heq, -⟩ := hvs (maskOf acl)
    obtain ⟨-, -, -, -, hnone⟩ := hvs 0
    have hzero := hnone x hx happ
    rw [heq, UInt16.and_self, UInt16.zero_and, Has, UInt16.and_zero] at hzero
    exact .inl hzero.symm

/-- `acl_permissions` grants what the access algorithm grants, whatever the permissions of the
entries are that should not matter, exactly where the entries stand in the right order. -/
theorem acl_permissions_posix (h : WellFormedAcl acl) (uid gid targetUid targetGid : UInt32) :
    (∀ f, GrantsAlike (regrant acl uid gid targetUid targetGid f) uid gid targetUid targetGid) ↔
      InOrder acl uid gid targetUid targetGid := by
  constructor
  · intro hall
    by_cases howner : targetUid = uid
    · subst howner
      exact AlwaysAlike.owner h hall
    by_cases huser : UserNamed acl targetUid
    · exact AlwaysAlike.user h howner huser hall
    by_cases hgroup : InGroup acl gid targetGid
    · exact AlwaysAlike.group h howner huser hgroup hall
    · rw [InOrder, if_neg howner, if_neg huser, if_neg hgroup]
      exact (grantsAlike_other h howner huser hgroup).mp (AlwaysAlike.self hall)
  · intro hord f
    obtain ⟨g, hg, hkeep, -⟩ := regrant_outline acl uid gid targetUid targetGid f
    exact (hg.inOrder hkeep hord).grantsAlike (hg.wellFormed h)

end Main

def maskedGroups : Ext4Acl :=
  ⟨[⟨aclOther, 4, 0⟩, ⟨aclGroupObj, 5, 0⟩, ⟨aclGroup, 7, 20⟩, ⟨aclMask, 6, 0⟩, ⟨aclUser, 3, 5⟩,
    ⟨aclUserObj, 7, 0⟩]⟩

/-- A named user in a named group gets the entry for the user, cut by the mask. -/
theorem maskedGroups_user : WellFormedAcl maskedGroups ∧
    InOrder maskedGroups 1 1 5 20 ∧ GrantsAlike maskedGroups 1 1 5 20 ∧
    aclPermissions maskedGroups 1 1 5 20 = 2 := by
  have hacl : WellFormedAcl maskedGroups := by constructor <;> decide
  have hord : InOrder maskedGroups 1 1 5 20 := by
    refine .inr ⟨⟨aclUser, 3, 5⟩, by decide, maskedGroups.entries.take 4, _, rfl, ?_, .inl ?_⟩
    · decide
    · decide
  refine ⟨hacl, hord, ?_, by decide⟩
  have hall := (acl_permissions_posix hacl 1 1 5 20).mpr hord (·.perms)
  rwa [regrant_perms] at hall

def ownerAndGroup : Ext4Acl := ⟨[⟨aclUserObj, 7, 0⟩, ⟨aclGroupObj, 0, 0⟩, ⟨aclOther, 4, 0⟩]⟩

/-- An owner in the owning group is left with what others may do, and so is a member of that group,
whose entry grants nothing. -/
theorem later_entries_override :
    parseAcl [0, 0, 0, 2, 1, 0, 7, 0, 0, 0, 0, 0, 4, 0, 0, 0, 0, 0, 0, 0, 32, 0, 4, 0, 0, 0, 0, 0] =
      .ok ownerAndGroup ∧ WellFormedAcl ownerAndGroup ∧
    aclPermissions ownerAndGroup 1 1 1 1 = 4 ∧ AccessGranted ownerAndGroup 1 1 1 1 7 ∧
    aclPermissions ownerAndGroup 1 1 2 1 = 4 ∧ ¬AccessGranted ownerAndGroup 1 1 2 1 4 := by
  refine ⟨rfl, by constructor <;> decide, ?_⟩
  decide

end Gergios.Ext4
