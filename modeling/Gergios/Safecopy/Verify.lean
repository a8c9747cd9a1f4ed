import Gergios.Safecopy.Grant

/-!
# Verification of a grant

`verify_grant` decides whether a process may access a range of a grant. It follows indirect
grants back to the process that owns the memory. The tables are in the memory of the
processes that issue the grants, which may have written anything into them.
-/

namespace Gergios.Safecopy

open Kernel

def maxIndirectDepth : Nat := 5
def memTop : BitVec 64 := 0xFFFFFFFF

def vfsProcNr : Endpoint := 1
def mibProcNr : Endpoint := 7

/-- What `data_copy` reads at an address of a process; `none` if the copy fails. -/
abbrev GrantMem := Slot → BitVec 64 → Option CpGrant

/-- `cp_sfinfo` of a grant with `CPF_TRY` -/
structure SoftFault where
  endpt : Endpoint
  addr : BitVec 64
  value : BitVec 32
  deriving DecidableEq

structure Verified where
  offset : BitVec 64
  granter : Endpoint
  fault : Option SoftFault
  deriving DecidableEq

structure Found where
  granter : Endpoint
  grantee : Endpoint
  grant : BitVec 32
  slot : Slot
  entry : CpGrant

variable (s : State)

def entryAddr (i : Slot) (grant : BitVec 32) : BitVec 64 :=
  (s.privOf i).grantTable + BitVec.ofNat 64 (sizeofGrant * (grantIdx grant).toNat)

variable (mem : GrantMem)

/-- The body of the loop up to the test for an indirect grant; `none` is the answer to a
request without access while the table is temporary. -/
def readGrant (access : BitVec 32) (granter grantee : Endpoint)
    (grant : BitVec 32) : Except Errno (Option (Slot × CpGrant)) :=
  match isokendpt s granter with
  | none => .error .einval
  | some i =>
    if ¬grantValid grant then .error .einval
    else
      let p := s.privOf i
      if p.grantEndpoint ≠ (s.proc i).endpoint ∧ access = 0 then .ok none
      else if p.grantEndpoint ≠ (s.proc i).endpoint ∧
          (p.grantTable = 0 ∨ grantee ≠ p.grantEndpoint) then .error .enotready
      else if p.grantTable = 0 then .error .eperm
      else if p.grantEntries ≤ (grantIdx grant).toInt then .error .eperm
      else
        match mem i (entryAddr s i grant) with
        | none => .error .eperm
        | some g =>
          if g.flags &&& (cpfUsed ||| cpfValid) ≠ cpfUsed ||| cpfValid then .error .eperm
          else if g.seq ≠ grantSeq grant then .error .eperm
          else .ok (some (i, g))

def followGrants (s : State) (mem : GrantMem) (access : BitVec 32) :
    Nat → Endpoint → Endpoint → BitVec 32 → Except Errno (Option Found)
  | n, granter, grantee, grant =>
    match readGrant s mem access granter grantee grant with
    | .error e => .error e
    | .ok none => .ok none
    | .ok (some (i, g)) =>
      if g.isSet cpfIndirect then
        match n with
        | 0 => .error .eloop
        | n + 1 =>
          if g.indirectWhoTo ≠ grantee ∧ grantee ≠ anyE ∧ g.indirectWhoTo ≠ anyE then .error .eperm
          else followGrants s mem access n g.indirectWhoFrom granter g.indirectGrant
      else .ok (some ⟨granter, grantee, grant, i, g⟩)

/-- The checks of the range: an address in the address space of `granter`. -/
def checkRange (start len bytes offset : BitVec 64) (granter : Endpoint) :
    Except Errno (BitVec 64 × Endpoint) :=
  if offset + bytes < offset ∨ len < offset + bytes then .error .eperm
  else .ok (start + offset, granter)

/-- The checks of the final grant. The grantee of a magic grant is compared with `ANY` in the
place where a direct grant has it. -/
def checkGrant (f : Found) (bytes offset : BitVec 64) (access : BitVec 32) :
    Except Errno (BitVec 64 × Endpoint) :=
  let g := f.entry
  if g.flags &&& access ≠ access then .error .eperm
  else if g.isSet cpfDirect then
    if memTop - g.directLen + 1 < g.directStart then .error .eperm
    else if g.directWhoTo ≠ f.grantee ∧ f.grantee ≠ anyE ∧ g.directWhoTo ≠ anyE then .error .eperm
    else checkRange g.directStart g.directLen bytes offset f.granter
  else if g.isSet cpfMagic then
    if f.granter ≠ vfsProcNr ∧ f.granter ≠ mibProcNr then .error .eperm
    else if g.magicWhoTo ≠ f.grantee ∧ f.grantee ≠ anyE ∧ g.directWhoTo ≠ anyE then .error .eperm
    else checkRange g.magicStart g.magicLen bytes offset g.magicWhoFrom
  else .error .eperm

def softFault (f : Found) : Option SoftFault :=
  if f.entry.isSet cpfTry then
    some ⟨f.granter, entryAddr s f.slot f.grant + BitVec.ofNat 64 offsetofFaulted, f.grant⟩
  else none

def verifyGrant (granter grantee : Endpoint) (grant : BitVec 32)
    (bytes : BitVec 64) (access : BitVec 32) (offset : BitVec 64) :
    Except Errno (Option Verified) :=
  match followGrants s mem access maxIndirectDepth granter grantee grant with
  | .error e => .error e
  | .ok none => .ok none
  | .ok (some f) =>
    match checkGrant f bytes offset access with
    | .error e => .error e
    | .ok (addr, owner) => .ok (some ⟨addr, owner, softFault s f⟩)

/-! ## What a request must be backed by -/

/-- `grant` names a used and valid entry of the table of a live process. -/
structure Issued (s : State) (mem : GrantMem) (granter : Endpoint) (grant : BitVec 32) (i : Slot)
    (g : CpGrant) : Prop where
  granter : isokendpt s granter = some i
  valid : grantValid grant = true
  table : (s.privOf i).grantTable ≠ 0
  inRange : (grantIdx grant).toInt < (s.privOf i).grantEntries
  entry : mem i (entryAddr s i grant) = some g
  flags : g.flags &&& (cpfUsed ||| cpfValid) = cpfUsed ||| cpfValid
  seq : g.seq = grantSeq grant

/-- A grant to `dst` may be used by `grantee`. -/
def Names (dst grantee : Endpoint) : Prop := dst = grantee ∨ dst = anyE

/-- A chain of `n` indirect grants, each used by the process that it names. -/
inductive Chain (s : State) (mem : GrantMem) : Nat → Endpoint → Endpoint → BitVec 32 → Found → Prop
  | final {granter grantee : Endpoint} {grant : BitVec 32} {i : Slot} {g : CpGrant}
      (h : Issued s mem granter grant i g) (hind : g.isSet cpfIndirect = false) :
      Chain s mem 0 granter grantee grant ⟨granter, grantee, grant, i, g⟩
  | hop {n : Nat} {granter grantee : Endpoint} {grant : BitVec 32} {i : Slot} {g : CpGrant}
      {f : Found} (h : Issued s mem granter grant i g) (hind : g.isSet cpfIndirect = true)
      (hto : Names g.indirectWhoTo grantee)
      (hrest : Chain s mem n g.indirectWhoFrom granter g.indirectGrant f) :
      Chain s mem (n + 1) granter grantee grant f

/-- The addresses from `addr` on lie in the memory from `start` on, and none of them wraps. -/
structure Covers (start len addr bytes : BitVec 64) : Prop where
  inside : ∀ x, addr.toNat ≤ x → x < addr.toNat + bytes.toNat →
    start.toNat ≤ x ∧ x < start.toNat + len.toNat
  noWrap : addr.toNat + bytes.toNat ≤ 2 ^ 64

def Allows (f : Found) (bytes addr : BitVec 64) (access : BitVec 32) : Prop :=
  let g := f.entry
  g.flags &&& access = access ∧ ((g.isSet cpfDirect = true ∧ Names g.directWhoTo f.grantee ∧
        Covers g.directStart g.directLen addr bytes) ∨
      (g.isSet cpfDirect = false ∧ g.isSet cpfMagic = true ∧
        (f.granter = vfsProcNr ∨ f.granter = mibProcNr) ∧ Names g.magicWhoTo f.grantee ∧
        Covers g.magicStart g.magicLen addr bytes))

def Backed (granter grantee : Endpoint) (grant : BitVec 32)
    (bytes : BitVec 64) (access : BitVec 32) (addr : BitVec 64) : Prop :=
  ∃ n ≤ maxIndirectDepth, ∃ f, Chain s mem n granter grantee grant f ∧ Allows f bytes addr access

section Verify

variable {s : State} {mem : GrantMem} {granter grantee : Endpoint} {grant access : BitVec 32}
  {bytes offset : BitVec 64}
  {i : Slot} {g : CpGrant} {start len addr : BitVec 64} {owner : Endpoint} {f : Found}

theorem names_of_not {dst : Endpoint} (hany : grantee ≠ anyE)
    (h : ¬(dst ≠ grantee ∧ grantee ≠ anyE ∧ dst ≠ anyE)) : Names dst grantee := by
  tauto

theorem readGrant_issued (h : readGrant s mem access granter grantee grant = .ok (some (i, g))) :
    Issued s mem granter grant i g := by
  simp only [readGrant] at h
  split at h
  · cases h
  rename_i j hj
  split at h
  · cases h
  rename_i hvalid
  split at h
  · cases h
  split at h
  · cases h
  split at h
  · cases h
  rename_i htable
  split at h
  · cases h
  split at h
  · cases h
  rename_i g' hentry
  split at h
  · cases h
  rename_i hflags
  split at h
  · cases h
  rename_i hseq
  cases h
  exact ⟨hj, by simpa using hvalid, htable, by omega, hentry, not_not.mp hflags, not_not.mp hseq⟩

theorem readGrant_ne_none (haccess : access ≠ 0) :
    readGrant s mem access granter grantee grant ≠ .ok none := by
  intro h
  simp only [readGrant, haccess, and_false, if_false] at h
  repeat' split at h
  all_goals cases h

theorem followGrants_chain {n : Nat} {r : Option Found} (haccess : access ≠ 0)
    (hany : grantee ≠ anyE) (h : followGrants s mem access n granter grantee grant = .ok r) :
    ∃ f, r = some f ∧ f.grantee ≠ anyE ∧ ∃ k ≤ n, Chain s mem k granter grantee grant f := by
  induction n generalizing granter grantee grant with
  | zero =>
    rw [followGrants] at h
    split at h
    · cases h
    · rename_i hr; exact absurd hr (readGrant_ne_none haccess)
    · rename_i i g hr
      split at h
      · cases h
      · rename_i hind
        cases h
        exact ⟨_, rfl, hany, 0, le_rfl, .final (readGrant_issued hr) (by simpa using hind)⟩
  | succ n ih =>
    rw [followGrants] at h
    split at h
    · cases h
    · rename_i hr; exact absurd hr (readGrant_ne_none haccess)
    · rename_i i g hr
      have hissued := readGrant_issued hr
      by_cases hind : g.isSet cpfIndirect
      · simp only [hind, if_true] at h
        split at h
        · cases h
        rename_i hto
        -- the next grantee is the granter, which is a live process
        obtain ⟨f, rfl, hf, k, hk, hchain⟩ := ih (isokendpt_ne_any hissued.granter) h
        exact ⟨f, rfl, hf, k + 1, by omega, .hop hissued hind (names_of_not hany hto) hchain⟩
      · simp only [hind] at h
        cases h
        exact ⟨_, rfl, hany, 0, by omega, .final hissued (by simpa using hind)⟩

theorem covers_of_le (hlen : start.toNat + len.toNat ≤ 2 ^ 64)
    (hwrap : ¬offset + bytes < offset) (hrange : ¬len < offset + bytes) :
    Covers start len (start + offset) bytes := by
  rw [BitVec.lt_def, BitVec.toNat_add] at hwrap
  rw [BitVec.lt_def, BitVec.toNat_add] at hrange
  constructor
  · intro x hx hx'
    rw [BitVec.toNat_add] at hx hx'
    omega
  · rw [BitVec.toNat_add]
    omega

theorem not_covers_of_lt (granter : Endpoint) (hlen : 2 ^ 64 < start.toNat + len.toNat) :
    checkRange start len 1 (len - 1) granter = .ok (start + (len - 1), granter) ∧
      ¬Covers start len (start + (len - 1)) 1 := by
  have hpos : (len - 1).toNat = len.toNat - 1 := by
    rw [BitVec.toNat_sub_of_le (by rw [BitVec.le_def]; simp; omega)]
    rfl
  have hend : len - 1 + 1 = len := BitVec.sub_add_cancel len 1
  have haddr : (start + (len - 1)).toNat = start.toNat + len.toNat - 1 - 2 ^ 64 := by
    rw [BitVec.toNat_add]
    omega
  refine ⟨?_, fun hcov => ?_⟩
  · rw [checkRange, hend, if_neg]
    rw [BitVec.lt_def, BitVec.lt_def]
    omega
  · have hin := (hcov.inside _ le_rfl (by simp)).1
    omega

/-- The memory of a final grant does not wrap, if the grant is accepted at all. A magic grant
that is from `ANY` is to `ANY`. -/
structure Sane (granter : Endpoint) (g : CpGrant) : Prop where
  direct : g.isSet cpfDirect = true → ¬memTop - g.directLen + 1 < g.directStart →
    g.directStart.toNat + g.directLen.toNat ≤ 2 ^ 64
  magic : g.isSet cpfDirect = false → g.isSet cpfMagic = true →
    (granter = vfsProcNr ∨ granter = mibProcNr) → (g.magicWhoTo = anyE → g.magicWhoFrom = anyE) →
    g.magicStart.toNat + g.magicLen.toNat ≤ 2 ^ 64 ∧ (g.magicWhoFrom = anyE → g.magicWhoTo = anyE)

theorem checkRange_covers {e : Endpoint} (hlen : start.toNat + len.toNat ≤ 2 ^ 64)
    (h : checkRange start len bytes offset owner = .ok (addr, e)) :
    Covers start len addr bytes := by
  unfold checkRange at h
  split at h
  · cases h
  rename_i hrange
  cases h
  rw [not_or] at hrange
  exact covers_of_le hlen hrange.1 hrange.2

theorem checkGrant_allows (hsane : Sane f.granter f.entry) (hany : f.grantee ≠ anyE)
    (h : checkGrant f bytes offset access = .ok (addr, owner)) : Allows f bytes addr access := by
  simp only [checkGrant] at h
  split at h
  · cases h
  rename_i haccess
  refine ⟨not_not.mp haccess, ?_⟩
  split at h
  · rename_i hdirect
    split at h
    · cases h
    rename_i hguard
    split at h
    · cases h
    · rename_i hto
      have hlen := hsane.direct hdirect hguard
      exact .inl ⟨hdirect, names_of_not hany hto, checkRange_covers hlen h⟩
  · rename_i hdirect
    split at h
    · rename_i hmagic
      split at h
      · cases h
      split at h
      · cases h
      have hdirect : f.entry.isSet cpfDirect = false := by simpa using hdirect
      have howner : f.granter = vfsProcNr ∨ f.granter = mibProcNr := by tauto
      -- what is compared with `ANY` is `cp_who_from`
      have hto : f.entry.magicWhoTo = f.grantee ∨ f.entry.magicWhoFrom = anyE := by
        tauto
      have hmeant : f.entry.magicWhoTo = anyE → f.entry.magicWhoFrom = anyE := by
        intro hx
        rcases hto with hto | hto
        · exact absurd (hto.symm.trans hx) hany
        · exact hto
      obtain ⟨hlen, hfrom⟩ := hsane.magic hdirect hmagic howner hmeant
      exact .inr ⟨hdirect, hmagic, howner, hto.imp id hfrom, checkRange_covers hlen h⟩
    · cases h

end Verify

def TablesFinal (s : State) : Prop :=
  ∀ i, ¬(s.proc i).isEmpty → (s.privOf i).grantEndpoint = (s.proc i).endpoint

def Sound (s : State) (mem : GrantMem) : Prop :=
  ∀ granter grantee grant bytes access offset r, grantee ≠ anyE →
    (access = cpfRead ∨ access = cpfWrite) →
    verifyGrant s mem granter grantee grant bytes access offset = .ok r →
    ∃ v, r = some v ∧ Backed s mem granter grantee grant bytes access v.offset

def GrantsSane (s : State) (mem : GrantMem) : Prop :=
  ∀ granter grant i g access, Issued s mem granter grant i g → g.isSet cpfIndirect = false →
    (access = cpfRead ∨ access = cpfWrite) → g.flags &&& access = access → Sane granter g

section Sound

variable {s : State} {mem : GrantMem} {granter grantee : Endpoint} {grant access : BitVec 32}
  {bytes offset : BitVec 64}

theorem access_ne_zero (haccess : access = cpfRead ∨ access = cpfWrite) : access ≠ 0 := by
  rcases haccess with rfl | rfl <;> decide

theorem Chain.issued {n : Nat} (h : Chain s mem n granter grantee grant f) :
    Issued s mem f.granter f.grant f.slot f.entry ∧ f.entry.isSet cpfIndirect = false := by
  induction h with
  | final h hind => exact ⟨h, hind⟩
  | hop _ _ _ _ ih => exact ih

theorem GrantsSane.sound (h : GrantsSane s mem) : Sound s mem := by
  intro granter grantee grant bytes access offset r hany haccess hv
  simp only [verifyGrant] at hv
  have hfound : ∀ {r}, followGrants s mem access maxIndirectDepth granter grantee grant = .ok r →
      ∃ f, r = some f ∧ f.grantee ≠ anyE ∧
        ∃ k ≤ maxIndirectDepth, Chain s mem k granter grantee grant f :=
    fun hr => followGrants_chain (access_ne_zero haccess) hany hr
  split at hv
  · cases hv
  · rename_i hf
    obtain ⟨f, hf, -⟩ := hfound hf
    cases hf
  · rename_i f hf
    obtain ⟨f', hf', hgrantee, n, hn, hchain⟩ := hfound hf
    cases hf'
    split at hv
    · cases hv
    rename_i addr owner hcheck
    cases hv
    obtain ⟨hissued, hind⟩ := hchain.issued
    have hflags : f.entry.flags &&& access = access := by
      simp only [checkGrant] at hcheck
      split at hcheck
      · cases hcheck
      · rename_i hx; exact not_not.mp hx
    have hsane := h _ _ _ _ access hissued hind haccess hflags
    exact ⟨_, rfl, n, hn, f, hchain, checkGrant_allows hsane hgrantee hcheck⟩

variable (grantee bytes access offset) in
theorem verifyGrant_of_issued (hend : (s.privOf i).grantEndpoint = (s.proc i).endpoint)
    (h : Issued s mem granter grant i g) (hind : g.isSet cpfIndirect = false) :
    verifyGrant s mem granter grantee grant bytes access offset =
      (checkGrant ⟨granter, grantee, grant, i, g⟩ bytes offset access).map fun r =>
        some ⟨r.1, r.2, softFault s ⟨granter, grantee, grant, i, g⟩⟩ := by
  have hread : readGrant s mem access granter grantee grant = .ok (some (i, g)) := by
    simp only [readGrant, h.granter, h.valid, hend, h.entry, h.flags, h.seq]
    simp [if_neg (not_le.mpr h.inRange)]
    exact h.table
  have hfollow : followGrants s mem access maxIndirectDepth granter grantee grant =
      .ok (some ⟨granter, grantee, grant, i, g⟩) := by
    simp [followGrants, maxIndirectDepth, hread, hind]
  rw [verifyGrant, hfollow]
  dsimp only
  cases checkGrant ⟨granter, grantee, grant, i, g⟩ bytes offset access <;> rfl

theorem Backed.allows
    (hb : Backed s mem granter grantee grant bytes access addr) (h : Issued s mem granter grant i g)
    (hind : g.isSet cpfIndirect = false) :
    Allows ⟨granter, grantee, grant, i, g⟩ bytes addr access := by
  obtain ⟨n, -, f, hchain, hallows⟩ := hb
  have hsame : ∀ {j g'}, Issued s mem granter grant j g' → j = i ∧ g' = g := by
    intro j g' h'
    obtain rfl := Option.some.inj (h'.granter.symm.trans h.granter)
    exact ⟨rfl, Option.some.inj (h'.entry.symm.trans h.entry)⟩
  cases hchain with
  | final h' hind' =>
    obtain ⟨rfl, rfl⟩ := hsame h'
    exact hallows
  | hop h' hind' =>
    obtain ⟨rfl, rfl⟩ := hsame h'
    rw [hind] at hind'
    cases hind'

theorem exists_other (e : Endpoint) : ∃ e' : Endpoint, e' ≠ anyE ∧ e' ≠ e := by
  by_cases h : e = 0
  · exact ⟨1, by decide, by rw [h]; decide⟩
  · exact ⟨0, by decide, fun h' => h h'.symm⟩

theorem Sound.allows (hsound : Sound s mem) (hfinal : TablesFinal s)
    (h : Issued s mem granter grant i g) (hind : g.isSet cpfIndirect = false)
    (haccess : access = cpfRead ∨ access = cpfWrite) (hany : grantee ≠ anyE)
    (hcheck : checkGrant ⟨granter, grantee, grant, i, g⟩ bytes offset access = .ok (addr, owner)) :
    Allows ⟨granter, grantee, grant, i, g⟩ bytes addr access := by
  have hv := verifyGrant_of_issued grantee access bytes offset
    (hfinal i (isokendpt_eq_some h.granter).2.1) h hind
  rw [hcheck] at hv
  obtain ⟨v, hv', hb⟩ := hsound _ _ _ _ _ _ _ hany haccess hv
  cases hv'
  exact hb.allows h hind

theorem checkGrant_direct (hflags : f.entry.flags &&& access = access)
    (hdirect : f.entry.isSet cpfDirect = true)
    (hguard : ¬memTop - f.entry.directLen + 1 < f.entry.directStart)
    (hto : Names f.entry.directWhoTo f.grantee) : checkGrant f bytes offset access =
      checkRange f.entry.directStart f.entry.directLen bytes offset f.granter := by
  have hnot : ¬(f.entry.directWhoTo ≠ f.grantee ∧ f.grantee ≠ anyE ∧
      f.entry.directWhoTo ≠ anyE) := by
    rcases hto with hto | hto <;> simp [hto]
  simp only [checkGrant, hdirect, if_neg hguard, if_neg hnot, if_neg (not_not.mpr hflags), if_true]

theorem checkGrant_magic (hflags : f.entry.flags &&& access = access)
    (hdirect : f.entry.isSet cpfDirect = false) (hmagic : f.entry.isSet cpfMagic = true)
    (howner : f.granter = vfsProcNr ∨ f.granter = mibProcNr)
    (hto : f.entry.magicWhoTo = f.grantee ∨ f.entry.magicWhoFrom = anyE) :
    checkGrant f bytes offset access =
      checkRange f.entry.magicStart f.entry.magicLen bytes offset f.entry.magicWhoFrom := by
  have hnot : ¬(f.entry.magicWhoTo ≠ f.grantee ∧ f.grantee ≠ anyE ∧
      f.entry.directWhoTo ≠ anyE) := by
    rintro ⟨hne, -, hfrom⟩
    exact hto.elim hne hfrom
  have howner : ¬(f.granter ≠ vfsProcNr ∧ f.granter ≠ mibProcNr) := by tauto
  simp only [checkGrant, hdirect, hmagic, if_neg howner, if_neg hnot, if_neg (not_not.mpr hflags)]
  simp

theorem Sound.sane_direct (hsound : Sound s mem) (hfinal : TablesFinal s)
    (h : Issued s mem granter grant i g) (hind : g.isSet cpfIndirect = false)
    (haccess : access = cpfRead ∨ access = cpfWrite) (hflags : g.flags &&& access = access)
    (hdirect : g.isSet cpfDirect = true) (hguard : ¬memTop - g.directLen + 1 < g.directStart) :
    g.directStart.toNat + g.directLen.toNat ≤ 2 ^ 64 := by
  by_contra hlen
  obtain ⟨grantee, hany, hto⟩ : ∃ e : Endpoint, e ≠ anyE ∧ Names g.directWhoTo e := by
    by_cases hx : g.directWhoTo = anyE
    · exact ⟨0, by decide, .inr hx⟩
    · exact ⟨_, hx, .inl rfl⟩
  obtain ⟨hrange, hout⟩ := not_covers_of_lt granter (not_le.mp hlen)
  have hallows := hsound.allows hfinal h hind haccess hany
    ((checkGrant_direct (f := ⟨granter, grantee, grant, i, g⟩) hflags hdirect hguard hto).trans
      hrange)
  rcases hallows.2 with ⟨-, -, hcov⟩ | ⟨hx, -⟩
  · exact hout hcov
  · rw [hdirect] at hx; cases hx

theorem Sound.sane_magic (hsound : Sound s mem) (hfinal : TablesFinal s)
    (h : Issued s mem granter grant i g) (hind : g.isSet cpfIndirect = false)
    (haccess : access = cpfRead ∨ access = cpfWrite) (hflags : g.flags &&& access = access)
    (hdirect : g.isSet cpfDirect = false) (hmagic : g.isSet cpfMagic = true)
    (howner : granter = vfsProcNr ∨ granter = mibProcNr)
    (hmeant : g.magicWhoTo = anyE → g.magicWhoFrom = anyE) :
    g.magicStart.toNat + g.magicLen.toNat ≤ 2 ^ 64 ∧
      (g.magicWhoFrom = anyE → g.magicWhoTo = anyE) := by
  have hallows : ∀ {grantee bytes offset addr owner}, grantee ≠ anyE →
      (g.magicWhoTo = grantee ∨ g.magicWhoFrom = anyE) →
      checkRange g.magicStart g.magicLen bytes offset g.magicWhoFrom = .ok (addr, owner) →
      Names g.magicWhoTo grantee ∧ Covers g.magicStart g.magicLen addr bytes := by
    intro grantee bytes offset addr owner hany hto hrange
    have hx := hsound.allows hfinal h hind haccess hany ((checkGrant_magic
      hflags hdirect hmagic howner hto).trans hrange)
    rcases hx.2 with ⟨hx, -⟩ | ⟨-, -, -, hnames, hcov⟩
    · rw [hdirect] at hx; cases hx
    · exact ⟨hnames, hcov⟩
  constructor
  · by_contra hlen
    obtain ⟨hrange, hout⟩ := not_covers_of_lt g.magicWhoFrom (not_le.mp hlen)
    by_cases hx : g.magicWhoTo = anyE
    · have hzero : (0 : Endpoint) ≠ anyE := by decide
      exact hout (hallows hzero (.inr (hmeant hx)) hrange).2
    · exact hout (hallows hx (.inl rfl) hrange).2
  · intro hfrom
    obtain ⟨grantee, hany, hne⟩ := exists_other g.magicWhoTo
    have hrange : checkRange g.magicStart g.magicLen 0 0 g.magicWhoFrom =
        .ok (g.magicStart + 0, g.magicWhoFrom) := by simp [checkRange]
    exact (hallows hany (.inr hfrom) hrange).1.resolve_left fun hx => hne hx.symm

theorem verify_grant_sound_iff (hfinal : TablesFinal s) : Sound s mem ↔ GrantsSane s mem := by
  refine ⟨fun hsound granter grant i g access h hind haccess hflags => ?_, GrantsSane.sound⟩
  exact ⟨hsound.sane_direct hfinal h hind haccess hflags,
    hsound.sane_magic hfinal h hind haccess hflags⟩

end Sound

def twoTables : State :=
  { procInit with
    proc := fun i => { procInit.proc i with
      rtsFlags := { slotFree := i ≠ 6 ∧ i ≠ 10 }
      priv := staticPrivId i }
    priv := fun k => { procInit.priv k with
      grantTable := 0x1000, grantEntries := 1, grantEndpoint := (k.val : Int) - nrTasks } }

theorem twoTables_final : TablesFinal twoTables := by
  intro i hi
  have hslot : i = 6 ∨ i = 10 := by
    by_contra hx
    rw [not_or] at hx
    exact hi (by simp [Proc.isEmpty, twoTables, hx])
  rcases hslot with rfl | rfl <;> decide

def tightGrants : GrantMem := fun _ _ =>
  some ⟨cpfRead ||| cpfDirect ||| cpfUsed ||| cpfValid, 0, 3, 0, 0x2000, 64, 0⟩

theorem tight_grants_sound :
    TablesFinal twoTables ∧ GrantsSane twoTables tightGrants ∧ Sound twoTables tightGrants := by
  have hsane : GrantsSane twoTables tightGrants := by
    intro granter grant i g access h _ _ _
    obtain rfl := Option.some.inj h.entry
    exact ⟨fun _ _ => by decide, fun hx => by cases hx⟩
  exact ⟨twoTables_final, hsane, (verify_grant_sound_iff twoTables_final).mpr hsane⟩

/-- Process 5 grants all memory from just above 4 GiB on, and more than that; VFS issues a magic
grant from `ANY` to process 5. -/
def looseGrants : GrantMem := fun i _ =>
  if i = 6 then
    some ⟨cpfRead ||| cpfMagic ||| cpfUsed ||| cpfValid, 0, BitVec.ofInt 32 anyE, 5, 0x2000, 64, 0⟩
  else
    some
      ⟨cpfRead ||| cpfDirect ||| cpfUsed ||| cpfValid, 0, 3, 0, 0x100000001, 0xFFFFFFFFFFFFFFFF, 0⟩

/-- Process 3 may read at address zero, which process 5 has not granted, and may use the magic
grant, which is for process 5. -/
theorem loose_grants_accepted : TablesFinal twoTables ∧
    verifyGrant twoTables looseGrants 5 3 0 8 cpfRead 0xFFFFFFFEFFFFFFFF = .ok (some ⟨0, 5, none⟩) ∧
    ¬Backed twoTables looseGrants 5 3 0 8 cpfRead 0 ∧
    verifyGrant twoTables looseGrants 1 3 0 8 cpfRead 0 = .ok (some ⟨0x2000, anyE, none⟩) ∧
    ¬Backed twoTables looseGrants 1 3 0 8 cpfRead 0x2000 := by
  refine ⟨twoTables_final, by decide +kernel, fun hb => ?_, by decide +kernel, fun hb => ?_⟩
  · have hissued : Issued twoTables looseGrants 5 0 10 _ :=
      ⟨by decide +kernel, by decide, by decide, by decide, rfl, by decide, by decide⟩
    rcases (hb.allows hissued (by decide)).2 with ⟨-, -, hcov⟩ | ⟨hx, -⟩
    · exact absurd (hcov.inside 0 (by decide) (by decide)).1 (by decide)
    · cases hx
  · have hissued : Issued twoTables looseGrants 1 0 6 _ :=
      ⟨by decide +kernel, by decide, by decide, by decide, rfl, by decide, by decide⟩
    rcases (hb.allows hissued (by decide)).2 with ⟨hx, -⟩ | ⟨-, -, -, hto, -⟩
    · cases hx
    · exact absurd hto (by unfold Names; decide)

end Gergios.Safecopy
