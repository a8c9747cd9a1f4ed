import Gergios.Safecopy.Library

/-!
# The kernel and the library

What the library grants is meant to be accepted by the kernel until it is revoked. The kernel takes
4 GiB for the end of a process's memory, and looks for `ANY` in the wrong place of a magic grant.
-/

namespace Gergios.Safecopy

open Kernel Function BitVec

/-- Whoever `whoTo` names may use the grant for any part of the memory from `addr` on. -/
def Usable (s : State) (mem : GrantMem) (granter : Endpoint) (grant : BitVec 32) (whoTo : Endpoint)
    (addr bytes : BitVec 64) (access : BitVec 32) : Prop :=
  ∀ grantee acc len offset, Names whoTo grantee → acc &&& access = acc →
    offset.toNat + len.toNat ≤ bytes.toNat →
    ∃ v, verifyGrant s mem granter grantee grant len acc offset = .ok (some v) ∧
      v.offset = addr + offset

/-- Calls of the library that do not revoke the grant. -/
abbrev Keeping (grant : BitVec 32) : Grants → Grants → Prop :=
  Relation.ReflTransGen fun t t' => ∃ op : GrantOp, op ≠ .revoke grant ∧ op.exec t = some t'

/-- The entry of the grant is `g`, up to the mark of a fault. -/
structure Holds (l : GrantLib) (grant : BitVec 32) (g : CpGrant) : Prop where
  used : gidUsed l grant = true
  entry : ∃ v, l.entry (grantIdx grant).toNat = { g with faulted := v }

variable {access x : BitVec 32} {e : Growth} {l : GrantLib}

theorem or_and_of_subset {acc : BitVec 32} (h : acc &&& access = acc) :
    (access ||| x) &&& acc = acc := by
  grind

namespace Holds

variable {l l' : GrantLib} {grant : BitVec 32} {g : CpGrant} {t t' : Grants}

theorem grown (h : Holds l grant g) (hl : Grown l l') : Holds l' grant g := by
  constructor
  · rw [hl.gidUsed_eq]
    exact h.used
  · rw [hl.old _ (gidUsed_iff.mp h.used).2.1]
    exact h.entry

theorem slotSet (h : Holds l grant g) {j : Nat} {g' : CpGrant} (hl : SlotSet l l' j g')
    (hne : (grantIdx grant).toNat ≠ j) : Holds l' grant g := by
  constructor
  · rw [hl.gidUsed_of_ne hne]
    exact h.used
  · rw [hl.entry, update_of_ne hne]
    exact h.entry

theorem fault (h : Holds l grant g) (j : Nat) (value : BitVec 32) :
    Holds (l.setEntry j { l.entry j with faulted := value }) grant g := by
  obtain ⟨v, hv⟩ : ∃ v, (l.setEntry j { l.entry j with faulted := value }).entry
      (grantIdx grant).toNat = { l.entry (grantIdx grant).toNat with faulted := v } := by
    rcases eq_or_ne (grantIdx grant).toNat j with rfl | hne
    · exact ⟨value, update_self ..⟩
    · exact ⟨_, update_of_ne hne ..⟩
  obtain ⟨w, hw⟩ := h.entry
  constructor
  · rw [gidUsed_iff, hv]
    exact gidUsed_iff.mp h.used
  · exact ⟨v, by rw [hv, hw]⟩

theorem change (h : Holds t.lib grant g) {op : GrantOp} (hop : op ≠ .revoke grant)
    (hc : Change t op t') : Holds t'.lib grant g := by
  cases hc with
  | grow hl => exact h.grown hl
  | fill hl _ hfree hslot =>
    have h' := h.grown hl
    refine h'.slotSet hslot ?_
    rintro rfl
    exact absurd (gidUsed_iff.mp h'.used).2.2.2 (by rw [hfree]; decide)
  | @release other hgid =>
    obtain ⟨hv, hlt, hseq, -⟩ := gidUsed_iff.mp hgid
    obtain ⟨hv', -, hseq', -⟩ := gidUsed_iff.mp h.used
    refine h.slotSet ⟨hlt, rfl, rfl⟩ fun heq => hop ?_
    rw [heq] at hseq'
    rw [grant_ext hv hv' heq.symm (hseq.trans hseq'.symm)]
  | fault j value => exact h.fault j value

theorem run (h : Holds t.lib grant g) (ht : GrantsOk t) (hrun : Keeping grant t t') :
    Holds t'.lib grant g ∧ GrantsOk t' := by
  induction hrun with
  | refl => exact ⟨h, ht⟩
  | tail _ hstep ih =>
    obtain ⟨op, hop, hexec⟩ := hstep
    obtain ⟨u, hu, hc⟩ := ih.2.exec op
    cases hu.symm.trans hexec
    exact ⟨ih.1.change hop hc, ih.2.change hc⟩

theorem of_granted {fill : CpGrant → CpGrant} (ht : GrantsOk t) (hfill : Fills fill)
    (hr : cpfGrant t.lib e fill = some (l, some grant)) :
    ∃ g, Holds l grant (fill g) ∧ GrantsOk (t.granted (l, some grant)) := by
  obtain ⟨free, hok⟩ := ht.table
  obtain ⟨l₁, hgrown, hok₁, heq | ⟨j, l₂, hfree, hslot, heq, hok₂⟩⟩ := cpfGrant_spec hok e hfill
  · cases heq.symm.trans hr
  · cases heq.symm.trans hr
    have h₁ := ht.grow hgrown hok₁
    have hok' := h₁.fill hslot hfree (hfill _).1 (hfill _).2 hok₂
    refine ⟨l₁.entry j, ⟨(hok'.live _).mp List.mem_cons_self, (fill (l₁.entry j)).faulted, ?_⟩,
      hok'⟩
    rw [(h₁.id_spec hslot.lt).2.1, hslot.entry, update_self]

variable {s : State} {mem : GrantMem} {i : Slot} {granter : Endpoint}

theorem issued (h : Holds t.lib grant g) (ht : GrantsOk t) (hs : Serves s mem i t.lib)
    (haddr : t.lib.addr ≠ 0) (hi : isokendpt s granter = some i)
    (hg : g.flags = x ||| (cpfUsed ||| cpfValid)) :
    ∃ v, Issued s mem granter grant i { g with faulted := v } := by
  obtain ⟨free, hok⟩ := ht.table
  obtain ⟨v, hv⟩ := h.entry
  obtain ⟨hvalid, hlt, hseq, -⟩ := gidUsed_iff.mp h.used
  have htable : (s.privOf i).grantTable = t.lib.addr := hs.table.trans hok.registered.1
  refine ⟨v, hi, hvalid, htable ▸ haddr, ?_, ?_, ?_, ?_⟩
  · have hmax := hok.size
    rw [hs.entries, hok.registered.2, toInt_eq_toNat_of_lt]
    · exact Int.ofNat_lt.mpr hlt
    · unfold grantMaxIdx grantShift at hmax
      omega
  · rw [entryAddr, htable, ← hv]
    exact hs.mem _ hlt
  · rw [hg, BitVec.or_comm]
    exact or_and_of_subset BitVec.and_self
  · rw [hseq, hv]

end Holds

section Check

variable {access x f : BitVec 32} {addr bytes len offset : BitVec 64}

theorem isSet_of_accessOk {g : CpGrant} (h : accessOk access = true) (hg : g.flags = access ||| x)
    (hf : f &&& (cpfRead ||| cpfWrite ||| cpfTry) = 0) : g.isSet f = (x &&& f != 0) := by
  have hout := beq_iff_eq.mp h
  have hand : (access ||| x) &&& f = x &&& f := by
    ext k hk
    have h1 := congrArg (·.getLsbD k) hout
    grind
  rw [CpGrant.isSet, hg, hand]

theorem checkRange_of_le (owner : Endpoint) (h : offset.toNat + len.toNat ≤ bytes.toNat) :
    checkRange addr bytes len offset owner = .ok (addr + offset, owner) := by
  have hsum : (offset + len).toNat = offset.toNat + len.toNat := by
    rw [toNat_add]
    omega
  rw [checkRange, if_neg]
  rw [lt_def, lt_def]
  omega

theorem below_memTop_iff (h : addr.toNat + bytes.toNat ≤ 2 ^ 64) : ¬ memTop - bytes + 1 < addr ↔
      addr.toNat + bytes.toNat ≤ 2 ^ 32 ∨ 2 ^ 32 < bytes.toNat := by
  have hlim : (memTop - bytes + 1).toNat = (2 ^ 64 - bytes.toNat + (2 ^ 32 - 1) + 1) % 2 ^ 64 := by
    rw [toNat_add, toNat_sub]
    simp [memTop]
  rw [lt_def]
  omega

end Check

section Usable

variable {s : State} {mem : GrantMem} {i : Slot} {granter : Endpoint} {grant access : BitVec 32}
  {g : CpGrant} (hend : (s.privOf i).grantEndpoint = (s.proc i).endpoint)
  (h : Issued s mem granter grant i g) (haccess : accessOk access = true)
include hend h haccess

theorem usable_direct_iff (hflags : g.flags = access ||| cpfDirect ||| cpfUsed ||| cpfValid)
    (hfits : g.directStart.toNat + g.directLen.toNat ≤ 2 ^ 64) :
    Usable s mem granter grant g.directWhoTo g.directStart g.directLen access ↔
      g.directStart.toNat + g.directLen.toNat ≤ 2 ^ 32 ∨ 2 ^ 32 < g.directLen.toNat := by
  rw [BitVec.or_assoc, BitVec.or_assoc] at hflags
  have hind : g.isSet cpfIndirect = false := isSet_of_accessOk haccess hflags (by decide)
  have hdirect : g.isSet cpfDirect = true := isSet_of_accessOk haccess hflags (by decide)
  rw [← below_memTop_iff hfits]
  constructor
  · intro husable hguard
    obtain ⟨v, hv, -⟩ := husable _ 0 0 0 (.inl rfl) zero_and (Nat.zero_le _)
    rw [verifyGrant_of_issued _ _ _ _ hend h hind] at hv
    simp only [checkGrant, hdirect, hguard, if_true, ite_self] at hv
    cases hv
  · intro hguard grantee acc len offset hto hacc hle
    rw [verifyGrant_of_issued _ _ _ _ hend h hind,
      checkGrant_direct (f := ⟨granter, grantee, grant, i, g⟩) (hflags ▸ or_and_of_subset hacc)
        hdirect hguard hto, checkRange_of_le _ hle]
    exact ⟨_, rfl, rfl⟩

theorem usable_magic_iff (hflags : g.flags = access ||| cpfMagic ||| (cpfUsed ||| cpfValid))
    (howner : granter = vfsProcNr ∨ granter = mibProcNr) :
    Usable s mem granter grant g.magicWhoTo g.magicStart g.magicLen access ↔
      (g.magicWhoTo = anyE → g.magicWhoFrom = anyE) := by
  rw [BitVec.or_assoc] at hflags
  have hind : g.isSet cpfIndirect = false := isSet_of_accessOk haccess hflags (by decide)
  have hdirect : g.isSet cpfDirect = false := isSet_of_accessOk haccess hflags (by decide)
  have hmagic : g.isSet cpfMagic = true := isSet_of_accessOk haccess hflags (by decide)
  constructor
  · intro husable hany
    by_contra hfrom
    obtain ⟨v, hv, -⟩ := husable 0 0 0 0 (.inr hany) zero_and (Nat.zero_le _)
    have hrefused : g.magicWhoTo ≠ 0 ∧ (0 : Endpoint) ≠ anyE ∧ g.directWhoTo ≠ anyE :=
      ⟨hany ▸ by decide, by decide, hfrom⟩
    rw [verifyGrant_of_issued _ _ _ _ hend h hind] at hv
    simp only [checkGrant, hdirect, if_pos hrefused, Bool.false_eq_true, if_false, ite_self] at hv
    cases hv
  · intro hfrom grantee acc len offset hto hacc hle
    rw [verifyGrant_of_issued _ _ _ _ hend h hind,
      checkGrant_magic (f := ⟨granter, grantee, grant, i, g⟩) (hflags ▸ or_and_of_subset hacc)
        hdirect hmagic howner (hto.imp id hfrom), checkRange_of_le _ hle]
    exact ⟨_, rfl, rfl⟩

end Usable

/-- A grant of the library is accepted until it is revoked, exactly when its memory ends below
4 GiB or is larger than that, or, for a magic grant, when it is not to `ANY` or is from `ANY`. -/
theorem grants_usable_iff {t u : Grants} {s : State} {mem : GrantMem} {i : Slot}
    {granter : Endpoint} {grant : BitVec 32} (whoTo : BitVec 32)
    {addr bytes : BitVec 64} (ht : Relation.ReflTransGen GrantStep Grants.init t)
    (hrun : Keeping grant (t.granted (l, some grant)) u) (hs : Serves s mem i u.lib)
    (haddr : u.lib.addr ≠ 0) (hi : isokendpt s granter = some i) :
    (cpfGrantDirect t.lib e whoTo addr bytes access = some (l, some grant) →
      addr.toNat + bytes.toNat ≤ 2 ^ 64 →
      (Usable s mem granter grant whoTo.toInt addr bytes access ↔
        addr.toNat + bytes.toNat ≤ 2 ^ 32 ∨ 2 ^ 32 < bytes.toNat)) ∧
    ∀ whoFrom, cpfGrantMagic t.lib e whoTo whoFrom addr bytes access = some (l, some grant) →
      granter = vfsProcNr ∨ granter = mibProcNr →
      (Usable s mem granter grant whoTo.toInt addr bytes access ↔
        (whoTo.toInt = anyE → whoFrom.toInt = anyE)) := by
  have hissued {fill : CpGrant → CpGrant} (hfill : Fills fill) {x : BitVec 32}
      (hflags : ∀ g, (fill g).flags = x ||| (cpfUsed ||| cpfValid))
      (hcall : cpfGrant t.lib e fill = some (l, some grant)) :
      ∃ g v, Issued s mem granter grant i { fill g with faulted := v } := by
    obtain ⟨g, hg, hok⟩ := Holds.of_granted (grantsOk_of_run ht) hfill hcall
    obtain ⟨hu, hok⟩ := hg.run hok hrun
    exact ⟨g, hu.issued hok hs haddr hi (hflags g)⟩
  constructor
  · intro hcall hfits
    rw [cpfGrantDirect] at hcall
    split at hcall
    · rename_i haccess
      obtain ⟨g, v, hv⟩ := hissued (fillDirect_fills whoTo addr bytes access)
        (fun _ => BitVec.or_assoc ..) hcall
      exact usable_direct_iff hs.endpoint hv haccess rfl hfits
    · cases hcall
  · intro whoFrom hcall howner
    rw [cpfGrantMagic] at hcall
    split at hcall
    · rename_i haccess
      have hflags g : (fillMagic whoTo whoFrom addr bytes access g).flags =
          access ||| cpfMagic ||| (cpfUsed ||| cpfValid) := by
        rw [fillMagic, BitVec.or_comm _ access, BitVec.or_comm cpfUsed, BitVec.or_assoc,
          BitVec.or_assoc]
      obtain ⟨g, v, hv⟩ := hissued (fillMagic_fills whoTo whoFrom addr bytes access) hflags hcall
      exact usable_magic_iff hs.endpoint hv haccess (hflags g) howner
    · cases hcall

def staticTables : State :=
  { twoTables with priv := fun k => { twoTables.priv k with grantEntries := 3 } }

def tableMem (l : GrantLib) : GrantMem := fun _ a =>
  some (l.entry ((a.toNat - 0x1000) / sizeofGrant))

theorem serves_static {i : Slot} (hi : i = 6 ∨ i = 10)
    (hl : l.ngrants = 3 ∧ l.addr = 0x1000 ∧ l.kernelTable = 0x1000 ∧ l.kernelEntries = 3) :
    Serves staticTables (tableMem l) i l := by
  obtain ⟨hn, haddr, htable, hentries⟩ := hl
  refine ⟨htable ▸ rfl, hentries ▸ rfl, by rcases hi with rfl | rfl <;> decide, fun j hj => ?_⟩
  rw [haddr]
  obtain rfl | rfl | rfl : j = 0 ∨ j = 1 ∨ j = 2 := by omega
  all_goals rfl

def directTo (addr : BitVec 64) : Grants :=
  ((GrantOp.direct staticOnly 3 addr 64 cpfRead).exec Grants.init).getD Grants.init

theorem low_buffer_usable :
    Usable staticTables (tableMem (directTo 0x2000).lib) 5 0 3 0x2000 64 cpfRead :=
  ((grants_usable_iff (t := Grants.init) (u := directTo 0x2000) (l := (directTo 0x2000).lib)
    (e := staticOnly) 3 .refl .refl (serves_static (.inr rfl) ⟨rfl, rfl, rfl, rfl⟩)
    (by decide) (by decide +kernel)).1 rfl (by decide)).mpr (.inl (by decide))

/-- A buffer at 4 GiB is refused, and so is a magic grant of VFS to anyone. -/
theorem high_buffer_refused :
    Serves staticTables (tableMem (directTo 0x100000000).lib) 10 (directTo 0x100000000).lib ∧
    (directTo 0x100000000).live = [0] ∧
    verifyGrant staticTables (tableMem (directTo 0x100000000).lib) 5 3 0 8 cpfRead 0 =
      .error .eperm ∧
    ∃ t, (GrantOp.magic staticOnly (BitVec.ofInt 32 anyE) 3 0x2000 64 cpfRead).exec Grants.init =
        some t ∧ t.live = [0] ∧ Serves staticTables (tableMem t.lib) 6 t.lib ∧
      verifyGrant staticTables (tableMem t.lib) 1 5 0 8 cpfRead 0 = .error .eperm :=
  ⟨serves_static (.inr rfl) ⟨rfl, rfl, rfl, rfl⟩, rfl, by decide +kernel, _, rfl, rfl,
    serves_static (.inl rfl) ⟨rfl, rfl, rfl, rfl⟩, by decide +kernel⟩

end Gergios.Safecopy
