import Gergios.Mfs.Truncate

/-!
# Writes and truncations of any files

A write that needs a double indirect zone and finds only two free zones leaves that zone without an
entry, and a copy that fails in a block past the end of the file leaves the block there; truncation
does not reach either of them. Where neither happens, the zones of every file stay accounted for.
The volume is mounted for writing: a read-only one refuses all of these calls.
-/

namespace Gergios.Mfs

open Lib Function

inductive Op where
  | write (ino position : Nat) (data : UserData)
  | trunc (ino start stop : Nat)

def Inode.special (rip : Inode) : Bool := rip.type = .charSpecial ∨ rip.type = .blockSpecial

def State.files (s : State) : Files := fun f => (s.inodes f).filter fun rip => !rip.special

variable {sp : Super} {s s' : State} {f ino : Nat} {rip rip' : Inode} {op : Op}

def step (sp : Super) : Op → State → Except Failure (Reply × State)
  | .write ino position data, s => fsWrite sp ino position data s
  | .trunc ino start stop, s => fsTrunc sp ino start stop s

def State.map (sp : Super) (s : State) : ZoneMap := zoneAt sp s.files s.vol.disk

structure Consistent (sp : Super) (s : State) : Prop where
  acc : Accounted sp s.files s.vol ∅
  full : Full sp (s.map sp)
  tail : ∀ {f rip}, s.files f = some rip → ∀ {k}, s.map sp (f, .data k) ≠ 0 →
    k * sp.blockSize < rip.size
  size : ∀ {f rip}, s.files f = some rip → rip.size ≤ maxSize
  special : ∀ {f rip}, s.inodes f = some rip → rip.special → rip.size = 0

/-- What a write needs: a file that has a size, no copy that fails at the start of a block at or
past the end of the file, and not exactly two free zones where it comes to create the double
indirect zone. -/
def Op.Allowed (sp : Super) (s : State) : Op → Prop
  | .write ino position data => ∀ rip, s.inodes ino = some rip →
      (rip.type = .regular ∨ rip.type = .directory) ∧ data.Fits sp position rip.size ∧
      (data.bytes ≠ [] → Roomy sp (s.map sp) s.vol ino (position / sp.blockSize)
        ((position + data.bytes.length - 1) / sp.blockSize))
  | .trunc _ _ _ => True

variable {start stop size : Nat} {m : ZoneMap}

theorem files_of (h : s.inodes f = some rip) (hs : rip.special = false) : s.files f = some rip := by
  rw [State.files, h, Option.filter_some, hs]
  rfl

theorem inodes_of (h : s.files f = some rip) : s.inodes f = some rip ∧ rip.special = false := by
  obtain ⟨hf, hs⟩ := Option.filter_eq_some_iff.mp h
  exact ⟨hf, by simpa using hs⟩

theorem Inode.grow_zone (rip : Inode) (position : Nat) : (rip.grow position).zone = rip.zone := by
  rw [Inode.grow]
  split <;> rfl

theorem Inode.grow_type (rip : Inode) (position : Nat) : (rip.grow position).type = rip.type := by
  rw [Inode.grow]
  split <;> rfl

theorem Inode.grow_size (rip : Inode) (position : Nat)
    (h : rip.type = .regular ∨ rip.type = .directory) :
    (rip.grow position).size = max rip.size position := by
  rw [Inode.grow]
  split
  · rename_i hlt
    exact (max_eq_right hlt.2.le).symm
  · rename_i hlt
    exact (max_eq_left (Nat.not_lt.mp fun hno => hlt ⟨h, hno⟩)).symm

theorem special_of_alike (h : rip.Alike rip') : rip'.special = rip.special := by
  rw [Inode.special, Inode.special, h.1]

theorem files_put {v : Vol} (hs : rip.special = false) :
    (s.put ino rip v).files = update s.files ino (some rip) := by
  funext g
  rcases eq_or_ne g ino with rfl | hg
  · rw [update_self]
    exact files_of (update_self _ _ _) hs
  · rw [update_of_ne hg]
    exact congrArg (Option.filter _) (update_of_ne hg _ _)

theorem put_same (h : s.inodes ino = some rip) : s.put ino rip s.vol = s := by
  rw [State.put, ← h, update_eq_self]

namespace Consistent

variable {v : Vol}

section

variable (h : Consistent sp s)

include h

theorem put (hs : rip.special = false) (hacc : Accounted sp (update s.files ino (some rip)) v ∅)
    (hfull : Full sp (zoneAt sp (update s.files ino (some rip)) v.disk))
    (hother : ∀ g k, g ≠ ino → zoneAt sp (update s.files ino (some rip)) v.disk
      (g, .data k) = s.map sp (g, .data k))
    (hself : ∀ k, zoneAt sp (update s.files ino (some rip)) v.disk (ino, .data k) ≠ 0 →
      k * sp.blockSize < rip.size) (hsize : rip.size ≤ maxSize) :
    Consistent sp (s.put ino rip v) := by
  have hfiles : (s.put ino rip v).files = update s.files ino (some rip) := files_put hs
  rw [← hfiles] at hacc hfull hother hself
  refine ⟨hacc, hfull, ?_, ?_, ?_⟩
  · intro g rip' hg k hk
    rcases eq_or_ne g ino with rfl | hne
    · rw [hfiles, update_self] at hg
      cases hg
      exact hself k hk
    · rw [hfiles, update_of_ne hne] at hg
      exact h.tail hg ((hother g k hne).symm.trans_ne hk)
  · intro g rip' hg
    rcases eq_or_ne g ino with rfl | hne
    · rw [hfiles, update_self] at hg
      cases hg
      exact hsize
    · rw [hfiles, update_of_ne hne] at hg
      exact h.size hg
  · intro g rip' hg hspecial
    have hg' : update s.inodes ino (some rip) g = some rip' := hg
    rcases eq_or_ne g ino with rfl | hne
    · rw [update_self] at hg'
      cases hg'
      rw [hs] at hspecial
      cases hspecial
    · rw [update_of_ne hne] at hg'
      exact h.special hg' hspecial

theorem write {position : Nat} {data : UserData}
    (hallowed : (Op.write ino position data).Allowed sp s) :
    ∃ r, fsWrite sp ino position data s = .ok r ∧ Consistent sp r.2 := by
  rw [fsWrite]
  cases hino : s.inodes ino with
  | none => exact ⟨_, rfl, h⟩
  | some rip =>
    simp only [h.acc.writable]
    obtain ⟨htype, hfits, hroomy⟩ := hallowed rip hino
    by_cases hbig : maxSize < position + data.bytes.length
    · exact ⟨_, if_pos hbig, h⟩
    have hs : rip.special = false := by
      rw [Inode.special]
      rcases htype with htype | htype <;> simp [htype]
    have hf := files_of hino hs
    have hw : Writing sp s.files s.vol ino rip position rip s.vol := by
      refine ⟨?_, .refl, ?_, ?_, ?_⟩ <;> rw [update_files hf]
      · exact h.acc
      · exact fun _ _ _ => rfl
      · exact fun j hj => lt_max_of_lt_left (h.tail hf hj)
      · exact h.full
    obtain ⟨e, position', cumIo, rip', v', heq, hle, hw'⟩ := writeLoop_accounted
      data.bytes.length 0 hw rfl (Nat.zero_le _) (by omega) le_rfl hfits fun hpos => by
        rw [update_files hf]
        exact hroomy (List.length_pos_iff.mp hpos)
    rw [if_neg hbig, heq]
    have hmap := zoneAt_zone sp v'.disk (update_self ino (some rip') s.files)
      (rip'.grow_zone position')
    rw [update_idem] at hmap
    have hgrow : (rip'.grow position').size = max rip.size position' := by
      rw [rip'.grow_size position' (hw'.alike.1.symm ▸ htype), hw'.alike.2]
    have hspecial : (rip'.grow position').special = false := by
      rw [Inode.special, rip'.grow_type, ← Inode.special, special_of_alike hw'.alike, hs]
    have hput : Consistent sp (s.put ino (rip'.grow position') v') := by
      apply h.put hspecial (hw'.acc.congr hmap)
      · exact hmap ▸ hw'.full
      · exact hmap ▸ fun g k hg => hw'.other g k hg
      · exact hgrow ▸ hmap ▸ hw'.tail
      · exact hgrow ▸ max_le (h.size hf) hle
    cases e with
    | none => exact ⟨_, rfl, hput⟩
    | some e => exact ⟨_, rfl, hput⟩

theorem freed (hf : s.files ino = some rip)
    (hspace : FreeSpace sp s.files (update s.files ino (some rip')) s.vol v ino rip.size
      start stop) (htype : rip'.type = rip.type)
    (hsize : rip'.size = rip.size ∨ rip.size ≤ stop ∧ rip'.size = start)
    (hmax : rip'.size ≤ maxSize) : Consistent sp (s.put ino rip' v) := by
  have hspecial : rip'.special = false := by
    rw [Inode.special, htype]
    exact (inodes_of hf).2
  apply h.put hspecial hspace.acc (hspace.full h.full) (fun g k hg => hspace.data g k hg) _ hmax
  intro k hk
  have hbefore : k * sp.blockSize < rip.size := by
    apply h.tail hf
    intro h0
    rcases hspace.shrunk.place (ino, .data k) with heq | heq
    · exact hk (heq.trans h0)
    · exact hk heq
  rcases hsize with heq | ⟨hstop, heq⟩
  · rwa [heq]
  · rw [heq]
    exact hspace.gone hstop k hk hbefore

theorem extended (hf : s.files ino = some rip) (hle : rip.size ≤ size) (hmax : size ≤ maxSize) :
    Consistent sp (s.put ino (rip.resize size) s.vol) := by
  have hmap : zoneAt sp (update s.files ino (some (rip.resize size))) s.vol.disk =
      s.map sp := zoneAt_zone sp _ hf rfl
  have hspecial : (rip.resize size).special = false := (inodes_of hf).2
  apply h.put hspecial (h.acc.congr hmap)
  · exact hmap ▸ h.full
  · exact fun g k _ => congrFun hmap (g, .data k)
  · exact hmap ▸ fun k hk => (h.tail hf hk).trans_le hle
  · exact hmax

omit h in
theorem freespInode_special (hsize : rip.size = 0) (start stop : Nat) :
    freespInode sp start stop rip v = .ok (some .einval, rip, v) := by
  have hstop : (if rip.size < stop then rip.size else stop) = 0 := by
    split <;> omega
  simp only [freespInode, hstop]
  exact if_pos (Nat.zero_le _)

theorem trunc (ino start stop : Nat) :
    ∃ r, fsTrunc sp ino start stop s = .ok r ∧ Consistent sp r.2 := by
  rw [fsTrunc]
  cases hino : s.inodes ino with
  | none => exact ⟨_, rfl, h⟩
  | some rip =>
    simp only [h.acc.writable]
    cases hs : rip.special with
    | true =>
      have hsame : Consistent sp (s.put ino rip s.vol) := by rwa [put_same hino]
      have htype : rip.type = .charSpecial ∨ rip.type = .blockSpecial := by
        simpa [Inode.special] using hs
      by_cases hstop : stop = 0
      · rw [if_pos hstop, truncateInode, if_pos htype]
        exact ⟨_, rfl, hsame⟩
      · rw [if_neg hstop, freespInode_special (h.special hino hs)]
        exact ⟨_, rfl, hsame⟩
    | false =>
      have hf := files_of hino hs
      by_cases hstop : stop = 0
      · obtain ⟨r, hr, hres⟩ := truncateInode_spec start h.acc hf (h.size hf)
        rw [if_pos hstop, hr]
        cases hres with
        | special => exact ⟨_, rfl, by rwa [put_same hino]⟩
        | big => exact ⟨_, rfl, by rwa [put_same hino]⟩
        | cut _ hlt halike hspace =>
          exact ⟨_, rfl, h.freed hf hspace halike.1 (.inr ⟨le_rfl, rfl⟩) (hlt.le.trans (h.size hf))⟩
        | extended _ hle hmax =>
          exact ⟨_, rfl, h.extended hf hle hmax⟩
      · obtain ⟨r, hr, hres⟩ := freespInode_spec start stop h.acc hf (h.size hf)
        rw [if_neg hstop, hr]
        cases hres with
        | refused => exact ⟨_, rfl, by rwa [put_same hino]⟩
        | done _ halike hspace =>
          exact ⟨_, rfl, h.freed hf hspace halike.1 (.inl halike.2) (halike.2 ▸ h.size hf)⟩

end

end Consistent

theorem Full.exists_data (h : Full sp m) {p : Slot} (hp : p.Indirect)
    (hne : m (f, p) ≠ 0) : ∃ k, nrDzones ≤ k ∧ m (f, .data k) ≠ 0 ∧
      (par sp k = p ∨ p = .dbl ∧ nrDzones + sp.nindirs ≤ k) := by
  have hsingle : ∀ {q : Slot}, q.Indirect → q ≠ .dbl → m (f, q) ≠ 0 →
      ∃ k, nrDzones ≤ k ∧ m (f, .data k) ≠ 0 ∧ par sp k = q := by
    intro q hq hdbl hq0
    obtain ⟨r, hr, hr0⟩ := h f q hq hq0 (Set.notMem_empty _)
    cases r with
    | ind => cases hr
    | dbl => cases hr
    | sub i =>
      cases hr
      exact absurd rfl hdbl
    | data k =>
      rw [Slot.parent] at hr
      split at hr
      · cases hr
      · rename_i hge
        exact ⟨k, Nat.not_lt.mp hge, hr0, Option.some.inj hr⟩
  by_cases hdbl : p = .dbl
  · subst hdbl
    obtain ⟨r, hr, hr0⟩ := h f _ hp hne (Set.notMem_empty _)
    cases r with
    | ind => cases hr
    | dbl => cases hr
    | sub i =>
      obtain ⟨k, hge, hk, hpar⟩ := hsingle (indirect_sub i) Slot.noConfusion hr0
      refine ⟨k, hge, hk, .inr ⟨rfl, Nat.not_lt.mp fun hlt => ?_⟩⟩
      rw [par_eq_ind hlt] at hpar
      cases hpar
    | data k =>
      rw [Slot.parent] at hr
      split at hr
      · cases hr
      · rw [par] at hr
        split at hr <;> cases hr
  · obtain ⟨k, hge, hk, hpar⟩ := hsingle hp hdbl hne
    exact ⟨k, hge, hk, .inl hpar⟩

theorem Full.eq_zero (h : Full sp m) (hdata : ∀ k, m (f, .data k) = 0) (p : Slot) :
    m (f, p) = 0 := by
  by_contra hne
  cases p with
  | data k => exact hne (hdata k)
  | ind =>
    obtain ⟨k, -, hk, -⟩ := h.exists_data indirect_ind hne
    exact hk (hdata k)
  | dbl =>
    obtain ⟨k, -, hk, -⟩ := h.exists_data indirect_dbl hne
    exact hk (hdata k)
  | sub i =>
    obtain ⟨k, -, hk, -⟩ := h.exists_data (indirect_sub i) hne
    exact hk (hdata k)

theorem FreeSpace.zone_of_ne {files files' : Files} {v v' : Vol} {g : Nat}
    (h : FreeSpace sp files files' v v' f size start stop)
    (hfull : Full sp (zoneAt sp files v.disk)) (hg : g ≠ f) (p : Slot) :
    zoneAt sp files' v'.disk (g, p) = zoneAt sp files v.disk (g, p) := by
  rcases h.shrunk.place (g, p) with heq | hzero
  · exact heq
  by_contra hne
  rw [hzero] at hne
  have hindirect : p.Indirect := by
    cases p with
    | data k => exact absurd (hzero.symm.trans (h.data g k hg)) hne
    | ind => exact indirect_ind
    | dbl => exact indirect_dbl
    | sub i => exact indirect_sub i
  -- a data zone below it is still there, and with it all indirect zones above
  obtain ⟨k, hge, hk, hpar⟩ := hfull.exists_data hindirect (Ne.symm hne)
  rw [← h.data g k hg] at hk
  rcases hpar with rfl | ⟨rfl, hdbl⟩
  · exact par_ne_zero hge hk hzero
  · exact dbl_ne_zero (par_ne_ind hdbl) (par_ne_zero hge hk) hzero

section

variable (h : Consistent sp s)

include h

theorem Consistent.empty (hf : s.files f = some rip) (hsize : rip.size = 0) (p : Slot) :
    s.map sp (f, p) = 0 := by
  refine h.full.eq_zero (fun k => ?_) p
  by_contra hk
  have := h.tail hf hk
  omega

theorem Consistent.truncate_zero (hf : s.files f = some rip) :
    ∃ s', fsTrunc sp f 0 0 s = .ok (.ok, s') ∧ (∀ p, s'.map sp (f, p) = 0) ∧
      ∀ z, Used sp s'.vol z ↔ Used sp s.vol z ∧ ∀ p, s.map sp (f, p) ≠ z := by
  obtain ⟨hino, hs⟩ := inodes_of hf
  obtain ⟨⟨reply, s'⟩, heq, hcons⟩ := h.trunc f 0 0
  obtain ⟨r, hr, hres⟩ := truncateInode_spec 0 h.acc hf (h.size hf)
  have hfiles : ∀ {size : Nat} {rip' : Inode} {v' : Vol}, rip'.type = rip.type →
      (s.put f (rip'.resize size) v').files f = some (rip'.resize size) := by
    intro size rip' v' htype
    apply files_of (update_self _ _ _)
    rw [← hs, Inode.special]
    exact htype ▸ rfl
  simp only [fsTrunc, hino, h.acc.writable, hr] at heq ⊢
  cases hres with
  | special htype => simp [Inode.special, htype] at hs
  | big hmax => exact absurd hmax (Nat.not_lt_zero _)
  | @cut rip' v' _ hlt halike hspace =>
    cases heq
    have hempty := hcons.empty (hfiles halike.1) rfl
    refine ⟨_, rfl, hempty, fun z => (hspace.shrunk.used z).trans ?_⟩
    rw [State.map,
      files_put (by rw [← hs, Inode.special, Inode.special, ← halike.1]; rfl)] at hempty
    constructor
    · rintro ⟨hz, hkeep⟩
      refine ⟨hz, fun p hp => hz.ne_zero ?_⟩
      rw [← hkeep (f, p) hp]
      exact hempty p
    · rintro ⟨hz, hno⟩
      refine ⟨hz, ?_⟩
      rintro ⟨g, p⟩ hp
      rcases eq_or_ne g f with rfl | hg
      · exact absurd hp (hno p)
      · exact (hspace.zone_of_ne h.full hg p).trans hp
  | extended _ hle hmax =>
    cases heq
    have hempty := h.empty hf (Nat.le_zero.mp hle)
    refine ⟨_, rfl, hcons.empty (hfiles rfl) rfl,
      fun z => ⟨fun hz => ⟨hz, fun p hp => ?_⟩, And.left⟩⟩
    exact hz.ne_zero (hp.symm.trans (hempty p))

def Step (sp : Super) (s s' : State) : Prop :=
  ∃ op reply, op.Allowed sp s ∧ step sp op s = .ok (reply, s')

theorem Consistent.step (hallowed : op.Allowed sp s) :
    ∃ r, step sp op s = .ok r ∧ Consistent sp r.2 := by
  cases op with
  | write ino position data => exact h.write hallowed
  | trunc ino start stop => exact h.trunc ino start stop

theorem Consistent.run (hrun : Relation.ReflTransGen (Step sp) s s') : Consistent sp s' := by
  induction hrun with
  | refl => exact h
  | tail _ hstep ih =>
    obtain ⟨op, reply, hallowed, heq⟩ := hstep
    obtain ⟨r, hr, hcons⟩ := ih.step hallowed
    rw [heq] at hr
    cases hr
    exact hcons

end

/-- In every state that is reached by allowed steps, each zone in the map of a file is marked used
and stands there once, each indirect zone is initialised and has an entry, the next allowed step
does not fail, and truncating a file to nothing frees exactly its zones. -/
theorem run_accounts_zones (h : Consistent sp s) (hrun : Relation.ReflTransGen (Step sp) s s') :
    (∀ f p, s'.map sp (f, p) ≠ 0 → Used sp s'.vol (s'.map sp (f, p))) ∧
    (∀ f p g q, s'.map sp (f, p) ≠ 0 → s'.map sp (f, p) = s'.map sp (g, q) → f = g ∧ p = q) ∧
    (∀ f (p : Slot), p.Indirect → s'.map sp (f, p) ≠ 0 →
      s'.vol.zeroed (s'.map sp (f, p)) = true ∧ HasEntry sp (s'.map sp) f p) ∧
    (∀ op : Op, op.Allowed sp s' → ∃ r, Mfs.step sp op s' = .ok r) ∧
    ∀ f rip, s'.files f = some rip → ∃ s'', fsTrunc sp f 0 0 s' = .ok (.ok, s'') ∧
      (∀ p, s''.map sp (f, p) = 0) ∧
      ∀ z, Used sp s''.vol z ↔ Used sp s'.vol z ∧ ∀ p, s'.map sp (f, p) ≠ z := by
  have hcons := h.run hrun
  refine ⟨fun f p hne => hcons.acc.owned.held hne, fun f p g q hne heq => ?_,
    fun f p hp hne => ⟨hcons.acc.zeroed hp hne, hcons.full f p hp hne (Set.notMem_empty _)⟩,
    fun op hallowed => ?_, fun f rip hf => hcons.truncate_zero hf⟩
  · exact Prod.mk.inj (hcons.acc.owned.once hne heq)
  · obtain ⟨r, hr, -⟩ := hcons.step hallowed
    exact ⟨r, hr⟩

def smallSuper : Super :=
  ⟨4096, 10, 12, 1, false, by decide, by decide, by decide, by decide, by decide, by decide,
    by decide⟩

def emptyState : State where
  inodes f := if f = 1 then some ⟨.regular, 0, fun _ => 0, 0⟩ else none
  vol := ⟨fun _ => 1#32, 0, fun _ _ => 0xff, fun _ => false⟩

def oneByte : UserData := ⟨[7], fun _ => none, fun _ _ => 0⟩

theorem emptyState_map (q : Nat × Slot) : emptyState.map smallSuper q = 0 := by
  obtain ⟨g, p⟩ := q
  by_cases hg : g = 1
  · subst hg
    have hf : emptyState.files 1 = some ⟨.regular, 0, fun _ => 0, 0⟩ := rfl
    rw [State.map, zoneAt_of hf]
    cases p with
    | ind => rfl
    | dbl => rfl
    | sub i =>
      rw [zoneOf_sub, entry_zero, ite_self]
    | data k =>
      rcases Nat.lt_or_ge k nrDzones with hlt | hge
      · rw [zoneOf_data_of_lt hlt]
      · have hind : ∀ q : Slot, q.Indirect →
            zoneOf smallSuper ⟨.regular, 0, fun _ => 0, 0⟩ emptyState.vol.disk q = 0 := by
          intro q hq
          cases q with
          | ind => rfl
          | dbl => rfl
          | sub i => rw [zoneOf_sub, entry_zero, ite_self]
          | data k => exact hq.elim
        rw [zoneOf_data hge, hind _ (indirect_par), entry_zero]
  · have hf : emptyState.files g = none := by simp [State.files, emptyState, hg]
    rw [State.map, zoneAt, hf]

theorem emptyState_consistent : Consistent smallSuper emptyState := by
  have hmap := emptyState_map
  have hsize : ∀ {f rip}, emptyState.inodes f = some rip → rip.size = 0 := by
    intro f rip hf
    simp only [emptyState] at hf
    split at hf
    · cases hf
      rfl
    · cases hf
  refine ⟨⟨rfl, ⟨not_used_zero, ?_, ?_, ?_, ?_⟩, rfl, ?_⟩, ?_, ?_, ?_, ?_⟩
  · exact fun hp => absurd (hmap _) hp
  · exact fun hp => absurd (hmap _) hp
  · exact fun hz => hz.elim
  · exact fun hz => hz.elim
  · exact fun _ hp => absurd (hmap _) hp
  · exact fun g p _ hp => absurd (hmap _) hp
  · exact fun _ _ hk => absurd (hmap _) hk
  · exact fun hf => (hsize (inodes_of hf).1).trans_le (Nat.zero_le _)
  · exact fun hf _ => hsize hf

/-- A byte in the indirect range, behind a hole, takes both free zones; a truncation gives them
back, and the next write takes one again. -/
theorem run_accounts_zones_truncated :
    Consistent smallSuper emptyState ∧ ∃ s₁ s₂ s₃,
      Relation.ReflTransGen (Step smallSuper) emptyState s₁ ∧
      s₁.map smallSuper (1, .data 7) = 10 ∧ s₁.map smallSuper (1, .ind) = 11 ∧
      Used smallSuper s₁.vol 11 ∧ Relation.ReflTransGen (Step smallSuper) s₁ s₂ ∧
      s₂.map smallSuper (1, .ind) = 0 ∧ Relation.ReflTransGen (Step smallSuper) s₂ s₃ ∧
      s₃.map smallSuper (1, .data 0) = 10 ∧ Used smallSuper s₃.vol 10 := by
  have heval : (step smallSuper (.write 1 28672 oneByte) emptyState >>= fun r₁ =>
      step smallSuper (.trunc 1 5 0) r₁.2 >>= fun r₂ =>
      step smallSuper (.write 1 0 oneByte) r₂.2 >>= fun r₃ =>
      .ok (r₁.2.map smallSuper (1, .data 7), r₁.2.map smallSuper (1, .ind),
        r₂.2.map smallSuper (1, .ind), (r₂.2.inodes 1).map (·.type),
        r₃.2.map smallSuper (1, .data 0))) = .ok (10, 11, 0, some .regular, 10) := by
    decide +kernel
  obtain ⟨⟨_, s₁⟩, hwrite, heval⟩ := bind_eq_ok heval
  obtain ⟨⟨_, s₂⟩, htrunc, heval⟩ := bind_eq_ok heval
  obtain ⟨⟨_, s₃⟩, hagain, heval⟩ := bind_eq_ok heval
  simp only [Except.ok.injEq, Prod.mk.injEq] at heval
  obtain ⟨hdata, hind, hfreed, htype, hnew⟩ := heval
  have hallowed : (Op.write 1 28672 oneByte).Allowed smallSuper emptyState := by
    intro rip hino
    cases hino
    exact ⟨.inl rfl, fun n _ hcopied => absurd rfl hcopied, fun _ => .inr (.inl (by decide))⟩
  have hallowed' : (Op.write 1 0 oneByte).Allowed smallSuper s₂ := by
    intro rip hino
    rw [hino] at htype
    exact ⟨.inl (Option.some.inj htype), fun n _ hcopied => absurd rfl hcopied,
      fun _ => .inr (.inl (by decide))⟩
  have hrun₁ : Relation.ReflTransGen (Step smallSuper) emptyState s₁ :=
    .single ⟨_, _, hallowed, hwrite⟩
  have hrun₂ : Relation.ReflTransGen (Step smallSuper) s₁ s₂ :=
    .single ⟨.trunc 1 5 0, _, trivial, htrunc⟩
  have hrun₃ : Relation.ReflTransGen (Step smallSuper) s₂ s₃ := .single ⟨_, _, hallowed', hagain⟩
  have hused₁ := (run_accounts_zones emptyState_consistent hrun₁).1 1 .ind (by rw [hind]; decide)
  have hused₃ := (run_accounts_zones emptyState_consistent (hrun₁.trans (hrun₂.trans hrun₃))).1 1
    (.data 0) (by rw [hnew]; decide)
  rw [hind] at hused₁
  rw [hnew] at hused₃
  exact ⟨emptyState_consistent, s₁, s₂, s₃, hrun₁, hdata, hind, hused₁, hrun₂, hfreed, hrun₃, hnew,
    hused₃⟩

theorem failed_write_leaks_zone : Consistent smallSuper emptyState ∧ ∃ s₁ s₂,
      fsWrite smallSuper 1 4222976 oneByte emptyState = .ok (.err .enospc, s₁) ∧
      s₁.map smallSuper (1, .dbl) = 11 ∧ fsTrunc smallSuper 1 0 0 s₁ = .ok (.ok, s₂) ∧
      s₂.map smallSuper (1, .dbl) = 11 ∧ Used smallSuper s₂.vol 11 := by
  have heval : (fsWrite smallSuper 1 4222976 oneByte emptyState >>= fun r =>
      fsTrunc smallSuper 1 0 0 r.2 >>= fun r' => .ok (r.1, r.2.map smallSuper (1, .dbl), r'.1,
        r'.2.map smallSuper (1, .dbl), wordBit r'.2.vol.zmap 2)) =
      .ok (.err .enospc, 11, .ok, 11, true) := by decide +kernel
  obtain ⟨⟨reply, s₁⟩, hwrite, heval⟩ := bind_eq_ok heval
  obtain ⟨⟨reply', s₂⟩, htrunc, heval⟩ := bind_eq_ok heval
  simp only [Except.ok.injEq, Prod.mk.injEq] at heval
  obtain ⟨rfl, hmap, rfl, hmap', hbit⟩ := heval
  exact ⟨emptyState_consistent, s₁, s₂, hwrite, hmap, htrunc, hmap', by decide, by decide, hbit⟩

end Gergios.Mfs
