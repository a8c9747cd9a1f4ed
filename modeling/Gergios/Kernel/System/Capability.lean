import Gergios.Kernel.System.Privctl

/-!
# Capabilities

A privilege structure has an effective, a permitted and a bounding set of capabilities.
`do_capctl` changes them for a process; `do_privctl` and `do_fork` give processes their
structures. A process that has no structure yet has a null pointer in its place, and a call that
follows it stops the kernel.
-/

namespace Gergios.Kernel

/-- The kernel, with the processes whose `p_priv` is `NULL`. -/
structure CapState where
  kernel : State
  null : Slot → Bool

inductive CapctlOp where
  | get | set | boundGet | boundSet | list | other
  deriving DecidableEq

/-- No bit of `a` is outside `b`. -/
def Within (a b : BitVec 64) : Prop := a &&& ~~~b = 0

instance (a b : BitVec 64) : Decidable (Within a b) := inferInstanceAs (Decidable (_ = _))

def Priv.setEffective (caps : BitVec 64) (p : Priv) : Priv := { p with capEffective := caps }

def Priv.restrictBound (caps : BitVec 64) (p : Priv) : Priv :=
  { p with
    capBound := p.capBound &&& caps
    capPermitted := p.capPermitted &&& (p.capBound &&& caps)
    capEffective := p.capEffective &&& (p.capBound &&& caps) }

/-- The switch of `do_capctl`; the last component is what the message returns. -/
def capctl (s : State) (caller rp : Slot) (op : CapctlOp) (caps : BitVec 64) :
    State × Errno × Option (BitVec 64) :=
  let p := s.privOf rp
  match op with
  | .get => (s, .ok, some p.capEffective)
  | .set =>
    if ¬Within caps p.capPermitted then (s, .eperm, none)
    else if ¬Within caps p.capBound then (s, .eperm, none)
    else if caller ≠ rp ∧ (s.privOf caller).capEffective &&& capSysAdmin = 0 then (s, .eperm, none)
    else (s.modPrivOf rp (Priv.setEffective caps), .ok, none)
  | .boundGet => (s, .ok, some p.capBound)
  | .boundSet =>
    if (s.privOf caller).capEffective &&& capSysAdmin = 0 then (s, .eperm, none)
    else if Within p.capBound caps ∧ caps ≠ p.capBound then (s, .eperm, none)
    else (s.modPrivOf rp (Priv.restrictBound caps), .ok, none)
  | .list => (s, .ok, some capFull)
  | .other => (s, .einval, none)

variable (c : CapState)

/-- What the two calls begin with: the caller is a system process and names a live process.
`none` is a kernel that stops. -/
def CapState.target (caller : Slot) (endpt : Endpoint) : Option (Except Errno Slot) :=
  if c.null caller then none
  else if ¬(c.kernel.privOf caller).flags.sysProc then some (.error .eperm)
  else if endpt = selfE then
    (isokendpt c.kernel (c.kernel.proc caller).endpoint).map .ok
  else
    match isokendpt c.kernel endpt with
    | none => some (.error .einval)
    | some rp => some (.ok rp)

inductive CapOp where
  | capctl (caller : Slot) (endpt : Endpoint) (op : CapctlOp) (caps : BitVec 64)
  | setSys (caller : Slot) (endpt : Endpoint) (macAllow : Bool) (arg : ArgPtr)
  | updateSys (caller : Slot) (endpt : Endpoint) (arg : ArgPtr)
  | setUser (caller : Slot) (endpt : Endpoint)
  | fork (endpt : Endpoint) (rpc : Slot) (vmInhibit : Bool)

def CapState.deref (rp : Slot) (t : State) : Option CapState :=
  if c.null rp then none else some { c with kernel := t }

def CapState.assignIf (b : Bool) (rp : Slot) (t : State) : CapState :=
  ⟨t, if b then Function.update c.null rp false else c.null⟩

def CapState.fork (endpt : Endpoint) (rpc : Slot) (vmInhibit : Bool) : Option CapState :=
  match doFork c.kernel endpt rpc vmInhibit, isokendpt c.kernel endpt with
  | .error _, _ => none
  | .ok (t, .ok), some rpp => if c.null rpp then none else some (c.assignIf true rpc t)
  | .ok (t, _), _ => some { c with kernel := t }

def CapState.onTarget (caller : Slot) (endpt : Endpoint)
    (f : Slot → Option CapState) : Option CapState :=
  match c.target caller endpt with
  | none => none
  | some (.error _) => some c
  | some (.ok rp) => f rp

def CapOp.exec : CapOp → CapState → Option CapState
  | .capctl caller endpt op caps, c => c.onTarget caller endpt fun rp =>
    c.deref rp (Kernel.capctl c.kernel caller rp op caps).1
  | .setSys caller endpt macAllow arg, c => c.onTarget caller endpt fun rp =>
    some (c.assignIf (takesPriv c.kernel rp macAllow arg) rp
      (privSetSys c.kernel caller rp macAllow arg).1)
  | .updateSys caller endpt arg, c => c.onTarget caller endpt fun rp =>
    c.deref rp (privUpdateSys c.kernel rp arg).1
  | .setUser caller endpt, c => c.onTarget caller endpt fun rp =>
    some (c.assignIf (c.kernel.proc rp).rtsFlags.noPriv rp (privSetUser c.kernel rp).1)
  | .fork endpt rpc vmInhibit, c => c.fork endpt rpc vmInhibit

/-! ## Runs -/

/-- The rest of the kernel does not touch capability sets and does not give structures away. -/
structure Elsewhere (c d : CapState) : Prop where
  null : d.null = c.null
  proc : ∀ i, (d.kernel.proc i).priv = (c.kernel.proc i).priv
  priv : ∀ k, (d.kernel.priv k).caps = (c.kernel.priv k).caps ∧
    (d.kernel.priv k).procNr = (c.kernel.priv k).procNr

/-- A step of a run in which every call meets `Adm`. -/
inductive CapStep (Adm : CapOp → CapState → Prop) (c d : CapState) : Prop
  | call (op : CapOp) (hadm : Adm op c) (h : op.exec c = some d)
  | other (h : Elsewhere c d)

/-- The pointer of a process leads to the structure. A slot that has never been used has a null
pointer, and processes do not exit here. -/
def UsedBy (i : Slot) (k : PrivId) : Prop :=
  c.null i = false ∧ (c.kernel.proc i).priv = k

def Assigned (k : PrivId) : Prop :=
  (c.kernel.priv k).procNr ≠ noneE ∨ ∃ i, UsedBy c i k

structure Caps.Ok (p : Caps) : Prop where
  effective : Within p.effective p.permitted
  permitted : Within p.permitted p.bound

/-! ## Bit sets -/

section Sets

variable {a b m : BitVec 64}

theorem within_iff : Within a b ↔ ∀ i, a.getLsbD i = true → b.getLsbD i = true := by
  constructor
  · intro h i hi
    have hbit := congrArg (·.getLsbD i) h
    have hlt := BitVec.lt_of_getLsbD hi
    simpa [hi, hlt] using hbit
  · intro h
    ext i hi
    have := h i
    cases ha : a[i] <;> simp_all

theorem Within.refl (a : BitVec 64) : Within a a := within_iff.mpr fun _ h => h

theorem Within.trans {c : BitVec 64} (h : Within a b) (h' : Within b c) : Within a c :=
  within_iff.mpr fun i hi => within_iff.mp h' i (within_iff.mp h i hi)

theorem within_and_left : Within (a &&& m) a := within_iff.mpr fun i hi => by
  rw [BitVec.getLsbD_and, Bool.and_eq_true] at hi
  exact hi.1

theorem within_and_right : Within (a &&& m) m := within_iff.mpr fun i hi => by
  rw [BitVec.getLsbD_and, Bool.and_eq_true] at hi
  exact hi.2

theorem Within.and (h : Within a b) (h' : Within a m) : Within a (b &&& m) :=
  within_iff.mpr fun i hi => by
    rw [BitVec.getLsbD_and, within_iff.mp h i hi, within_iff.mp h' i hi]
    rfl

theorem zero_within (a : BitVec 64) : Within 0 a := within_iff.mpr fun i hi => by simp at hi

end Sets

/-! ## Steps -/

/-- What calls must avoid: a supplied structure with effective capabilities inside the bounding
set that it does not permit, and a request for the structure of user processes while it is in
use. -/
def CapOp.Careful : CapOp → CapState → Prop
  | .updateSys caller endpt (.arg a), c => ∀ rp, c.target caller endpt = some (.ok rp) →
    Within (a.capEffective &&& (c.kernel.privOf rp).capBound) a.capPermitted
  | .setSys _ _ _ (.arg a), c => Within (a.capEffective &&& capFull) a.capPermitted ∧
    (a.flags.dynPrivId = false → a.id = userPrivId.val → ∀ i, ¬UsedBy c i userPrivId)
  | _, _ => True

structure CapsInv (c : CapState) : Prop where
  ok : ∀ k, (c.kernel.priv k).caps.Ok
  used : ∀ i k, UsedBy c i k → k = userPrivId ∨ (c.kernel.priv k).procNr ≠ noneE

/-- One structure may have new capability sets and a new owner; processes have got structures
that are taken. -/
structure Changes (c d : CapState) (k : PrivId) (p : Caps) : Prop where
  self : (d.kernel.priv k).caps = p
  others : ∀ l, l ≠ k → (d.kernel.priv l).caps = (c.kernel.priv l).caps
  owner : ∀ l, (c.kernel.priv l).procNr ≠ noneE → (d.kernel.priv l).procNr ≠ noneE
  used : ∀ i l, UsedBy d i l → UsedBy c i l ∨ l = userPrivId ∨ (d.kernel.priv l).procNr ≠ noneE

section Steps

variable {c d : CapState} {k : PrivId} {p : Caps}

theorem Changes.inv (h : Changes c d k p) (hc : CapsInv c) (hp : p.Ok) : CapsInv d := by
  refine ⟨fun l => ?_, fun i l hused => ?_⟩
  · rcases eq_or_ne l k with rfl | hne
    · rw [h.self]
      exact hp
    · rw [h.others l hne]
      exact hc.ok l
  · rcases h.used i l hused with hold | hnew
    · exact (hc.used i l hold).imp_right (h.owner l)
    · exact hnew

theorem Changes.bound (h : Changes c d k p) {l : PrivId} (hl : Assigned c l)
    (hp : Assigned c k → Within p.bound (c.kernel.priv k).capBound) :
    Within (d.kernel.priv l).capBound (c.kernel.priv l).capBound := by
  rcases eq_or_ne l k with rfl | hne
  · have hself := congrArg Caps.bound h.self
    rw [show (d.kernel.priv l).capBound = p.bound from hself]
    exact hp hl
  · have hother := congrArg Caps.bound (h.others l hne)
    rw [show (d.kernel.priv l).capBound = (c.kernel.priv l).capBound from hother]
    exact Within.refl _

theorem Elsewhere.changes (h : Elsewhere c d) (k : PrivId) :
    Changes c d k (c.kernel.priv k).caps := by
  refine ⟨(h.priv k).1, fun l _ => (h.priv l).1, fun l hl => (h.priv l).2 ▸ hl, fun i l hused => ?_⟩
  obtain ⟨hnull, hpriv⟩ := hused
  exact .inl ⟨h.null ▸ hnull, h.proc i ▸ hpriv⟩

theorem Changes.of_modPriv (hframe : CapFrame c.kernel t) (k : PrivId)
    (f : Priv → Priv) (hf : (f (t.priv k)).procNr = (t.priv k).procNr) :
    Changes c { c with kernel := t.modPriv k f } k (f (t.priv k)).caps := by
  refine ⟨by simp, fun l hl => ?_, fun l hl => ?_, fun i l hused => .inl ?_⟩
  · simp only [State.modPriv_priv, if_neg hl]
    exact (hframe.priv l).1
  · rw [← (hframe.priv l).2] at hl
    simp only [State.modPriv_priv]
    split
    · subst l
      rw [hf]
      exact hl
    · exact hl
  · rw [UsedBy] at hused ⊢
    rw [← hframe.proc]
    exact hused

/-- A change after which the sets are contained in each other, and which does not widen the bound
of a structure that is assigned. -/
def Harmless (c d : CapState) : Prop :=
  ∃ k p, Changes c d k p ∧ p.Ok ∧ (Assigned c k → Within p.bound (c.kernel.priv k).capBound)

theorem harmless_of_elsewhere (hc : CapsInv c) (h : Elsewhere c d) : Harmless c d :=
  ⟨userPrivId, _, h.changes userPrivId, hc.ok _, fun _ => Within.refl _⟩

theorem harmless_of_frame (hc : CapsInv c) (h : CapFrame c.kernel t) :
    Harmless c { c with kernel := t } :=
  harmless_of_elsewhere hc ⟨rfl, fun i => by rw [h.proc], h.priv⟩

theorem capctl_harmless (hc : CapsInv c) (caller rp : Slot) (op : CapctlOp) (caps : BitVec 64) :
    Harmless c { c with kernel := (capctl c.kernel caller rp op caps).1 } := by
  have hsame := harmless_of_frame hc (CapFrame.refl c.kernel)
  have hok := hc.ok (c.kernel.proc rp).priv
  cases op with
  | get | boundGet | list | other => exact hsame
  | set =>
    unfold capctl
    simp only
    split
    · exact hsame
    split
    · exact hsame
    split
    · exact hsame
    · rename_i hperm _ _
      exact ⟨_, _, Changes.of_modPriv (CapFrame.refl c.kernel) _ (Priv.setEffective caps) rfl,
        ⟨not_not.mp hperm, hok.permitted⟩, fun _ => Within.refl _⟩
  | boundSet =>
    unfold capctl
    simp only
    split
    · exact hsame
    split
    · exact hsame
    · refine ⟨_, _, Changes.of_modPriv (CapFrame.refl c.kernel) _ (Priv.restrictBound caps) rfl,
        ⟨?_, within_and_right⟩, fun _ => within_and_left⟩
      exact (within_and_left.trans hok.effective).and within_and_right

theorem updateCaps_ok {q : Priv} {a : PrivArg} (hq : q.caps.Ok)
    (ha : Within (a.capEffective &&& q.capBound) a.capPermitted) :
    (q.updateCaps a).caps.Ok ∧ (q.updateCaps a).capBound = q.capBound ∧
      (q.updateCaps a).procNr = q.procNr := by
  unfold Priv.updateCaps
  split
  · exact ⟨⟨ha.and within_and_right, within_and_right⟩, rfl, rfl⟩
  · exact ⟨hq, rfl, rfl⟩

theorem updatePriv_harmless (hc : CapsInv c) (rp : Slot) {a : PrivArg}
    (ha : Within (a.capEffective &&& (c.kernel.privOf rp).capBound) a.capPermitted) :
    Harmless c { c with kernel := (updatePriv c.kernel rp a).1 } := by
  obtain ⟨t, hframe, heq⟩ := updatePriv_spec c.kernel rp a
  rw [heq]
  split
  · exact harmless_of_frame hc hframe
  have hcaps := (hframe.priv (t.proc rp).priv).1
  have hbound : (t.priv (t.proc rp).priv).capBound = (c.kernel.priv (t.proc rp).priv).capBound :=
    congrArg Caps.bound hcaps
  obtain ⟨hok, hb, hnr⟩ := updateCaps_ok
    (hcaps ▸ hc.ok _) (by rw [hbound, hframe.proc]; exact ha)
  refine ⟨(t.proc rp).priv, _, Changes.of_modPriv hframe _ _ hnr, hok, fun _ => ?_⟩
  rw [show (Priv.caps _).bound = _ from hb, hbound]
  exact Within.refl _

theorem procNr_ne_none (rp : Slot) : procNr rp ≠ noneE := by
  intro h
  have hok := isokprocn_procNr rp
  rw [h] at hok
  exact absurd hok (by decide)

theorem Changes.of_fresh {u : State} (hfree : (c.kernel.priv k).procNr = noneE)
    (hframe : CapFrame (freshPriv c.kernel rp k) t) (hproc : u.proc = t.proc)
    (hothers : ∀ l, l ≠ k → u.priv l = t.priv l) (hnr : (u.priv k).procNr = (t.priv k).procNr) :
    Changes c (c.assignIf true rp u) k (u.priv k).caps := by
  have hnr' : (u.priv k).procNr = procNr rp := by
    rw [hnr, (hframe.priv k).2]
    simp [freshPriv, assignPriv]
  refine ⟨rfl, fun l hl => ?_, fun l hl => ?_, fun i l hused => ?_⟩
  · rw [CapState.assignIf, hothers l hl, (hframe.priv l).1]
    simp [freshPriv, assignPriv, State.modPriv_priv, hl]
  · rcases eq_or_ne l k with rfl | hne
    · exact absurd hfree hl
    · rw [CapState.assignIf, hothers l hne, (hframe.priv l).2]
      simpa [freshPriv, assignPriv, State.modPriv_priv, hne] using hl
  · obtain ⟨hnull, hpriv⟩ := hused
    rcases eq_or_ne i rp with rfl | hne
    · obtain rfl : k = l := by
        rw [← hpriv]
        simp [CapState.assignIf, hproc, hframe.proc, freshPriv, assignPriv]
      refine .inr (.inr ?_)
      rw [CapState.assignIf, hnr']
      exact procNr_ne_none i
    · refine .inl ⟨?_, ?_⟩
      · simpa [CapState.assignIf, Function.update_of_ne hne] using hnull
      · simpa [CapState.assignIf, hproc, hframe.proc, freshPriv, assignPriv,
          State.modProc_proc_of_ne _ hne] using hpriv

theorem privId_eq_user {arg : ArgPtr} (hid : arg.privId = nullPrivId ∧ nrStaticPrivIds ≤ k.val ∨
    arg.privId ≠ nullPrivId ∧ arg.privId = k.val) (hk : k = userPrivId) :
    ∃ a, arg = .arg a ∧ a.flags.dynPrivId = false ∧ a.id = userPrivId.val := by
  subst hk
  rcases hid with ⟨-, hle⟩ | ⟨hne, heq⟩
  · exact absurd hle (by decide)
  · cases arg with
    | null | fault => exact absurd rfl hne
    | arg a =>
      cases hdyn : a.flags.dynPrivId with
      | true => exact absurd (by simp [ArgPtr.privId, hdyn]) hne
      | false => exact ⟨a, rfl, hdyn, by simpa [ArgPtr.privId, hdyn] using heq⟩

theorem privSetSys_harmless (hc : CapsInv c) (caller rp : Slot) (macAllow : Bool) (arg : ArgPtr)
    (ha : ∀ a, arg = .arg a → Within (a.capEffective &&& capFull) a.capPermitted ∧
      (a.flags.dynPrivId = false → a.id = userPrivId.val → ∀ i, ¬UsedBy c i userPrivId)) :
    Harmless c (c.assignIf (takesPriv c.kernel rp macAllow arg) rp
      (privSetSys c.kernel caller rp macAllow arg).1) := by
  cases htakes : takesPriv c.kernel rp macAllow arg with
  | false =>
    rw [privSetSys_of_not_takes htakes]
    exact harmless_of_frame hc (CapFrame.refl c.kernel)
  | true =>
    obtain ⟨⟨t, hget⟩, hno, hfault, rfl⟩ := takesPriv_iff.mp htakes
    obtain ⟨k, rfl, hfree, hid⟩ := getPriv_eq_ok hget
    obtain ⟨t, hframe, heq⟩ := privSetSys_eq caller hno hfault hget
    have hcaps : (t.priv k).caps = ⟨capBase, capBase, capFull⟩ := by
      rw [(hframe.priv k).1]
      simp [freshPriv, Priv.caps]
    have hok : (t.priv k).caps.Ok := hcaps ▸ ⟨zero_within _, zero_within _⟩
    have hnew : ¬Assigned c k := by
      rintro (hnr | ⟨i, hused⟩)
      · exact hnr hfree
      · obtain hk | hnr := hc.used i k hused
        · obtain ⟨a, rfl, hdyn, hid⟩ := privId_eq_user hid hk
          exact (ha a rfl).2 hdyn hid i (hk ▸ hused)
        · exact hnr hfree
    have hplain : Harmless c (c.assignIf true rp t) :=
      ⟨k, _, Changes.of_fresh hfree hframe rfl (fun _ _ => rfl) rfl, hok, fun h => absurd h hnew⟩
    rw [heq]
    cases arg with
    | fault => exact absurd rfl hfault
    | null => exact hplain
    | arg a =>
      simp only
      split
      · exact hplain
      have hptr : (t.proc rp).priv = k := by
        rw [hframe.proc]
        simp [freshPriv, assignPriv]
      obtain ⟨hok', -, hnr⟩ := updateCaps_ok hok
        (show Within (a.capEffective &&& (t.priv k).caps.bound) _ from hcaps ▸ (ha a rfl).1)
      refine ⟨k, _, Changes.of_fresh hfree hframe rfl (fun l hl => ?_) ?_, ?_,
        fun h => absurd h hnew⟩
      · simp [State.modPrivOf, hptr, State.modPriv_priv, hl]
      · simpa [State.modPrivOf, hptr] using hnr
      · simpa [State.modPrivOf, hptr] using hok'

theorem privSetUser_harmless (hc : CapsInv c) (rp : Slot) :
    Harmless c (c.assignIf (c.kernel.proc rp).rtsFlags.noPriv rp (privSetUser c.kernel rp).1) := by
  unfold privSetUser
  cases hno : (c.kernel.proc rp).rtsFlags.noPriv with
  | false => exact harmless_of_frame hc (CapFrame.refl c.kernel)
  | true =>
    refine ⟨userPrivId, ⟨0, 0, 0⟩, ⟨?_, fun l hl => ?_, fun l hl => ?_, fun i l hused => ?_⟩,
      ⟨zero_within _, zero_within _⟩, fun _ => zero_within _⟩
    · simp [CapState.assignIf, Priv.caps, capBase]
    · simp [CapState.assignIf, State.modPriv_priv, hl]
    · rcases eq_or_ne l userPrivId with rfl | hne
      · simpa [CapState.assignIf] using hl
      · simpa [CapState.assignIf, State.modPriv_priv, hne] using hl
    · obtain ⟨hnull, hpriv⟩ := hused
      rcases eq_or_ne i rp with rfl | hne
      · rw [← hpriv]
        simp [CapState.assignIf]
      · refine .inl ⟨?_, ?_⟩
        · simpa [CapState.assignIf, Function.update_of_ne hne] using hnull
        · simpa [CapState.assignIf, State.modProc_proc_of_ne _ hne] using hpriv

theorem forkSlot_privs (s : State) (rpp rpc : Slot) (vmInhibit : Bool) :
    (forkSlot s rpp rpc vmInhibit).priv = s.priv ∧
    (((forkSlot s rpp rpc vmInhibit).proc rpc).priv = userPrivId ∨
      ((forkSlot s rpp rpc vmInhibit).proc rpc).priv = (s.proc rpp).priv) := by
  simp only [forkSlot]
  split <;> split <;> simp [Proc.dropPriv, Proc.forkChild]

theorem forkSlot_priv_of_ne (s : State) (rpp : Slot) (vmInhibit : Bool) {j : Slot}
    (hj : j ≠ rpc) : ((forkSlot s rpp rpc vmInhibit).proc j).priv = (s.proc j).priv := by
  simp only [forkSlot]
  split <;> split <;> simp [State.modProc_proc, hj]

theorem forkSlot_harmless {rpp : Slot} (hc : CapsInv c) (hnull : c.null rpp = false) :
    Harmless c (c.assignIf true rpc (forkSlot c.kernel rpp rpc vmInhibit)) := by
  obtain ⟨hpriv, hself⟩ := forkSlot_privs c.kernel rpp rpc vmInhibit
  refine ⟨userPrivId, _, ⟨rfl, fun l _ => ?_, fun l hl => ?_, fun i l hused => ?_⟩, ?_, fun _ => ?_⟩
  · rw [CapState.assignIf, hpriv]
  · rw [CapState.assignIf, hpriv]
    exact hl
  · obtain ⟨hn, hl⟩ := hused
    simp only [CapState.assignIf, hpriv, if_true] at hn hl ⊢
    rcases eq_or_ne i rpc with rfl | hne
    · rcases hself with huser | hparent
      · exact .inr (.inl (hl.symm.trans huser))
      · exact .inr (hc.used rpp l ⟨hnull, hparent.symm.trans hl⟩)
    · rw [Function.update_of_ne hne] at hn
      rw [forkSlot_priv_of_ne c.kernel rpp vmInhibit hne] at hl
      exact .inl ⟨hn, hl⟩
  · rw [CapState.assignIf, hpriv]
    exact hc.ok userPrivId
  · rw [CapState.assignIf, hpriv]
    exact Within.refl _

theorem doFork_result (s : State) (endpt : Endpoint) (rpc : Slot) (vmInhibit : Bool) :
    doFork s endpt rpc vmInhibit = .ok (s, .einval) ∨
    (∃ e, doFork s endpt rpc vmInhibit = .error e) ∨ ∃ rpp, isokendpt s endpt = some rpp ∧
      doFork s endpt rpc vmInhibit = .ok (forkSlot s rpp rpc vmInhibit, .ok) := by
  unfold doFork
  cases isokendpt s endpt with
  | none => exact .inl rfl
  | some rpp =>
    simp only
    split
    · exact .inl rfl
    split
    · exact .inr (.inl ⟨_, rfl⟩)
    split
    · exact .inl rfl
    · exact .inr (.inr ⟨rpp, rfl, rfl⟩)

theorem fork_harmless (hc : CapsInv c)
    (h : c.fork endpt rpc vmInhibit = some d) : Harmless c d := by
  unfold CapState.fork at h
  rcases doFork_result c.kernel endpt rpc vmInhibit with heq | ⟨e, heq⟩ | ⟨rpp, hrpp, heq⟩
  · simp only [heq, Option.some.injEq] at h
    exact h ▸ harmless_of_frame hc (CapFrame.refl c.kernel)
  · simp only [heq, reduceCtorEq] at h
  · simp only [heq, hrpp] at h
    cases hnull : c.null rpp with
    | true => simp [hnull] at h
    | false =>
      simp only [hnull, Bool.false_eq_true, if_false, Option.some.injEq] at h
      exact h ▸ forkSlot_harmless hc hnull

theorem onTarget_eq_some {caller : Slot} {f : Slot → Option CapState}
    (h : c.onTarget caller endpt f = some d) :
    d = c ∨ ∃ rp, c.target caller endpt = some (.ok rp) ∧ f rp = some d := by
  unfold CapState.onTarget at h
  split at h
  · cases h
  · cases h
    exact .inl rfl
  · exact .inr ⟨_, ‹_›, h⟩

theorem deref_eq_some (h : c.deref rp t = some d) : d = { c with kernel := t } := by
  unfold CapState.deref at h
  split at h
  · cases h
  · cases h
    rfl

theorem CapOp.harmless {op : CapOp} (hc : CapsInv c) (hop : op.Careful c)
    (h : op.exec c = some d) : Harmless c d := by
  have hsame : Harmless c c := harmless_of_frame hc (CapFrame.refl c.kernel)
  cases op with
  | capctl caller endpt op caps =>
    obtain rfl | ⟨rp, -, hrp⟩ := onTarget_eq_some h
    · exact hsame
    · exact deref_eq_some hrp ▸ capctl_harmless hc caller rp op caps
  | setSys caller endpt macAllow arg =>
    obtain rfl | ⟨rp, -, hrp⟩ := onTarget_eq_some h
    · exact hsame
    · refine Option.some.inj hrp ▸ privSetSys_harmless hc caller rp macAllow arg ?_
      rintro a rfl
      exact hop
  | updateSys caller endpt arg =>
    obtain rfl | ⟨rp, htarget, hrp⟩ := onTarget_eq_some h
    · exact hsame
    · rw [deref_eq_some hrp]
      cases arg with
      | null | fault => exact hsame
      | arg a => exact updatePriv_harmless hc rp (hop rp htarget)
  | setUser caller endpt =>
    obtain rfl | ⟨rp, -, hrp⟩ := onTarget_eq_some h
    · exact hsame
    · exact Option.some.inj hrp ▸ privSetUser_harmless hc rp
  | fork endpt rpc vmInhibit => exact fork_harmless hc h

theorem CapStep.harmless (hc : CapsInv c) (h : CapStep CapOp.Careful c d) : Harmless c d := by
  cases h with
  | call op hop h => exact op.harmless hc hop h
  | other h => exact harmless_of_elsewhere hc h

end Steps

/-! ## The boot processes -/

variable (i : Slot)

def isBootProc : Bool := i.val < nrStaticPrivIds

def schedulableProc : Bool :=
  i.val < nrTasks || procNr i == rootSysProcNr || procNr i == vmProcNr

def bootRts : RtsFlags :=
  if isBootProc i then
    { procStop := true
      noPriv := ¬schedulableProc i
      noQuantum := ¬schedulableProc i
      vmInhibit := procNr i ≠ vmProcNr ∧ 0 ≤ procNr i
      bootInhibit := procNr i ≠ vmProcNr ∧ 0 ≤ procNr i }
  else { slotFree := true }

def bootPriv (p : Priv) : Priv :=
  { p with
    procNr := procNr i
    flags :=
      { sysProc := true, billable := procNr i == -4, preemptible := procNr i == rootSysProcNr }
    trapMask :=
      if nrTasks ≤ i.val then {.send, .receive, .sendrec, .notify, .sendnb, .senda}
      else if procNr i = -3 ∨ procNr i = systemNr then {.receive} else ∅
    sigMgr :=
      if i.val < nrTasks then noneE else if procNr i = vmProcNr then selfE else rootSysProcNr
    capEffective := capFull
    capPermitted := capFull
    capBound := capFull }

/-- The tables when the boot processes have been set up. What they may send to has no part in
what follows and is left open. -/
def capBoot (sendto : PrivId → Finset PrivId) : CapState where
  kernel := { procInit with
    proc := fun i => { procInit.proc i with
      rtsFlags := bootRts i
      priv := staticPrivId i }
    priv := fun k =>
      let i := staticSlot k
      let p := { procInit.priv k with ipcTo := sendto k }
      if schedulableProc i then bootPriv i p else p }
  null i := ¬schedulableProc i

section Boot

variable (sendto : PrivId → Finset PrivId)

theorem capBoot_caps (k : PrivId) : ((capBoot sendto).kernel.priv k).caps = ⟨0, 0, 0⟩ ∨
    ((capBoot sendto).kernel.priv k).caps = ⟨capFull, capFull, capFull⟩ := by
  simp only [capBoot]
  split
  · exact .inr rfl
  · exact .inl rfl

theorem capBoot_inv : CapsInv (capBoot sendto) := by
  refine ⟨fun k => ?_, fun i k hused => .inr ?_⟩
  · rcases capBoot_caps sendto k with h | h <;> rw [h]
    · exact ⟨zero_within _, zero_within _⟩
    · exact ⟨Within.refl _, Within.refl _⟩
  · obtain ⟨hnull, rfl⟩ := hused
    have hsched : schedulableProc i = true := by simpa [capBoot] using hnull
    have hlt : i.val < nrSysProcs := by
      simp only [schedulableProc, procNr, nrTasks, rootSysProcNr, vmProcNr, Bool.or_eq_true,
        decide_eq_true_eq, beq_iff_eq] at hsched
      simp only [nrSysProcs]
      omega
    have hslot : staticSlot (staticPrivId i) = i := Fin.ext (Nat.mod_eq_of_lt hlt)
    simp only [capBoot, hslot, hsched]
    exact procNr_ne_none i

end Boot

/-- In every run in which all calls are careful the sets of every structure are contained in each
other, and the bounding set does not gain a bit while the structure stays assigned. -/
theorem caps_contained_if_careful (sendto : PrivId → Finset PrivId) {c : CapState}
    (h : Relation.ReflTransGen (CapStep CapOp.Careful) (capBoot sendto) c) :
    (∀ k, (c.kernel.priv k).caps.Ok) ∧
    ∀ k d, Relation.ReflTransGen (fun c d => CapStep CapOp.Careful c d ∧ Assigned c k) c d →
      Within (d.kernel.priv k).capBound (c.kernel.priv k).capBound := by
  have hstep : ∀ {c d}, CapsInv c → CapStep CapOp.Careful c d → CapsInv d ∧
      ∀ k, Assigned c k → Within (d.kernel.priv k).capBound (c.kernel.priv k).capBound := by
    intro c d hc hcd
    obtain ⟨k, p, hchanges, hok, hbound⟩ := hcd.harmless hc
    exact ⟨hchanges.inv hc hok, fun l hl => hchanges.bound hl hbound⟩
  have hc : CapsInv c := by
    induction h with
    | refl => exact capBoot_inv sendto
    | tail _ hcd ih => exact (hstep ih hcd).1
  refine ⟨hc.ok, fun k d hrun => ?_⟩
  suffices CapsInv d ∧ Within (d.kernel.priv k).capBound (c.kernel.priv k).capBound from this.2
  induction hrun with
  | refl => exact ⟨hc, Within.refl _⟩
  | tail _ hde ih =>
    obtain ⟨hd, hbound⟩ := hstep ih.1 hde.1
    exact ⟨hd, (hbound k hde.2).trans ih.2⟩

variable (effective permitted : BitVec 64)

def capArg (id : Int) : PrivArg :=
  { flags := { sysProc := true }, id, capEffective := effective, capPermitted := permitted }

theorem update_vm (hne : effective ≠ 0) :
    ∃ d, (CapOp.updateSys 7 8 (.arg (capArg effective permitted 0))).exec (capBoot fun _ => ∅) =
        some d ∧ UsedBy d 13 13 ∧
      (d.kernel.priv 13).caps = ⟨effective &&& capFull, permitted &&& capFull, capFull⟩ := by
  obtain ⟨t, hframe, heq⟩ := updatePriv_spec (capBoot fun _ => ∅).kernel 13
    (capArg effective permitted 0)
  rw [if_neg (by simp [refused, capArg, badCount])] at heq
  have hptr : (t.proc 13).priv = 13 := by
    rw [hframe.proc]
    rfl
  have hbound : (t.priv 13).capBound = capFull := congrArg Caps.bound (hframe.priv 13).1
  refine ⟨⟨t.modPrivOf 13 (Priv.updateCaps (capArg effective permitted 0)),
    (capBoot fun _ => ∅).null⟩, ?_, ⟨rfl, hptr⟩, ?_⟩
  · have htarget : (capBoot fun _ => ∅).target 7 8 = some (.ok 13) := rfl
    have hnull : (capBoot fun _ => ∅).null 13 = false := rfl
    simp [CapOp.exec, CapState.onTarget, htarget, CapState.deref, hnull, privUpdateSys, heq]
  · have hcond : effective ≠ 0 ∨ permitted ≠ 0 := .inl hne
    simp only [State.modPrivOf, hptr, State.modPriv_priv_self, Priv.updateCaps, capArg,
      if_pos hcond, Priv.caps, hbound]

theorem vm_keeps_admin : ∃ d, Relation.ReflTransGen (CapStep CapOp.Careful) (capBoot fun _ => ∅) d ∧
    (d.kernel.priv 13).caps = ⟨capSysAdmin, capSysAdmin, capFull⟩ ∧ (d.kernel.priv 13).caps.Ok := by
  obtain ⟨d, hexec, -, hcaps⟩ := update_vm capSysAdmin capSysAdmin (by decide)
  have hcareful : (CapOp.updateSys 7 8 (.arg (capArg capSysAdmin capSysAdmin 0))).Careful
      (capBoot fun _ => ∅) := fun _ _ => within_and_left
  have hrun : Relation.ReflTransGen (CapStep CapOp.Careful) (capBoot fun _ => ∅) d :=
    .single (.call _ hcareful hexec)
  exact ⟨d, hrun, hcaps, (caps_contained_if_careful _ hrun).1 13⟩

def initUser : CapState :=
  ⟨(privSetUser (capBoot fun _ => ∅).kernel 16).1,
    Function.update (capBoot fun _ => ∅).null 16 false⟩

/-- The root system process gives VM an effective capability that VM is not permitted to have. It
gives PM the structure of user processes, which INIT uses; the bounding set was empty and is full
afterwards. -/
theorem caps_escape : (∃ d, Relation.ReflTransGen (CapStep fun _ _ => True) (capBoot fun _ => ∅) d ∧
      UsedBy d 13 13 ∧ ¬Within (d.kernel.priv 13).capEffective (d.kernel.priv 13).capPermitted) ∧
    ∃ d, Relation.ReflTransGen (CapStep fun _ _ => True) (capBoot fun _ => ∅) initUser ∧
      CapStep (fun _ _ => True) initUser d ∧
      UsedBy initUser 16 userPrivId ∧ UsedBy d 16 userPrivId ∧
      (initUser.kernel.priv userPrivId).capBound = 0 ∧
      (d.kernel.priv userPrivId).capBound = capFull := by
  constructor
  · obtain ⟨d, hexec, hused, hcaps⟩ := update_vm capSysAdmin 0 (by decide)
    refine ⟨d, .single (.call _ trivial hexec), hused, ?_⟩
    have heff : (d.kernel.priv 13).capEffective = capSysAdmin := congrArg Caps.effective hcaps
    have hperm : (d.kernel.priv 13).capPermitted = 0 := congrArg Caps.permitted hcaps
    rw [heff, hperm]
    decide
  · have huser : (CapOp.setUser 7 11).exec (capBoot fun _ => ∅) = some initUser := rfl
    have hget : getPriv initUser.kernel 5 (ArgPtr.arg (capArg 0 0 16)).privId =
        .ok (assignPriv initUser.kernel 5 userPrivId) := rfl
    obtain ⟨t, hframe, heq⟩ := privSetSys_eq 7 rfl (by simp) hget
    simp only [if_neg (show ¬refused (capArg 0 0 16) = true by decide)] at heq
    have hptr : (t.proc 5).priv = userPrivId := by
      rw [hframe.proc]
      rfl
    have hbound : (t.priv userPrivId).capBound = capFull :=
      congrArg Caps.bound (hframe.priv userPrivId).1
    have hexec : (CapOp.setSys 7 0 true (.arg (capArg 0 0 16))).exec initUser =
        some ⟨t.modPrivOf 5 (Priv.updateCaps (capArg 0 0 16)),
          Function.update initUser.null 5 false⟩ := by
      have htarget : initUser.target 7 0 = some (.ok 5) := rfl
      have htakes : takesPriv initUser.kernel 5 true (.arg (capArg 0 0 16)) = true := rfl
      simp only [CapOp.exec, CapState.onTarget, htarget, htakes, CapState.assignIf, heq, if_true]
    refine ⟨_, .single (.call _ trivial huser), .call _ trivial hexec, ⟨rfl, rfl⟩, ⟨rfl, ?_⟩, rfl,
      ?_⟩
    · simp only [State.modPrivOf, State.modPriv_proc, hframe.proc]
      rfl
    · simp only [State.modPrivOf, hptr, State.modPriv_priv_self]
      exact hbound

end Gergios.Kernel
