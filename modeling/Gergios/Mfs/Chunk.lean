import Gergios.Mfs.File
import Gergios.Mfs.FreeMap

/-!
# One chunk of a write

A chunk lies in one block. The block is created if there is none, and what the file holds elsewhere
stays as it is.
-/

namespace Gergios.Mfs

open Lib Function Nat

variable (sp : Super)

def content (files : Files) (disk : Disk) (g pos : Nat) : UInt8 :=
  let z := zoneAt sp files disk (g, .data (pos / sp.blockSize))
  if z = 0 then 0 else disk z (pos % sp.blockSize)

variable {sp} {files files' : Files} {v v' : Vol} {loose : Set Nat} {f k z position : Nat}
  {p : Slot} {rip : Inode} {m : ZoneMap}

namespace Entered

variable {m' : ZoneMap} (h : Entered sp m f k z m')

include h

variable {g : Nat} {b : Block}

theorem data (g j : Nat) : m' (g, .data j) = if g = f ∧ j = k then z else m (g, .data j) := by
  have hpar : ∀ j, (g, Slot.data j) ≠ (f, par sp k) := fun j heq =>
    par_ne_data (Prod.mk.inj heq).2.symm
  have hdbl : ∀ j, (g, Slot.data j) ≠ (f, .dbl) := fun j heq => nomatch (Prod.mk.inj heq).2
  by_cases hgj : g = f ∧ j = k
  · rw [if_pos hgj, hgj.1, hgj.2]
    cases h <;> exact update_self _ _ _
  · have hne : (g, Slot.data j) ≠ (f, .data k) := by
      rintro ⟨⟩
      exact hgj ⟨rfl, rfl⟩
    rw [if_neg hgj]
    cases h with
    | here => exact update_of_ne hne _ _
    | single => rw [update_of_ne hne, update_of_ne (hpar j)]
    | double =>
      rw [update_of_ne hne, update_of_ne (hpar j), update_of_ne (hdbl j)]

theorem self : m' (f, .data k) = z := by rw [h.data, if_pos ⟨rfl, rfl⟩]

theorem indirect (hp : p.Indirect) (hne : m (g, p) ≠ 0) : m' (g, p) = m (g, p) := by
  have hdata : (g, p) ≠ (f, .data k) := by
    rintro ⟨⟩
    cases hp
  cases h with
  | here => exact update_of_ne hdata _ _
  | single hk h0 =>
    rw [update_of_ne hdata, update_of_ne]
    intro heq
    exact hne (heq ▸ h0)
  | double hk h0 _ _ _ hd =>
    rw [update_of_ne hdata, update_of_ne, update_of_ne]
    · intro heq
      exact hne (heq ▸ hd)
    · intro heq
      exact hne (heq ▸ h0)

theorem full (hfull : Full sp m) (hz : z ≠ 0) : Full sp m' := by
  intro g p hp hne _
  by_cases hold : m (g, p) ≠ 0
  · obtain ⟨q, hq, hmq⟩ := hfull g p hp hold (Set.notMem_empty _)
    refine ⟨q, hq, ?_⟩
    by_cases hqi : q.Indirect
    · rwa [h.indirect hqi hmq]
    · cases q with
      | data j =>
        rw [h.data]
        split
        · exact hz
        · exact hmq
      | _ => exact absurd trivial hqi
  · have hnew := not_not.mp hold
    have hself := h.self
    have hdata : (g, p) ≠ (f, .data k) := by
      rintro ⟨⟩
      cases hp
    cases h with
    | here =>
      rw [update_of_ne hdata] at hne
      exact absurd hnew hne
    | single hge =>
      rw [update_of_ne hdata] at hne
      by_cases hpk : (g, p) = (f, par sp k)
      · cases hpk
        exact ⟨.data k, parent_data hge, by rwa [hself]⟩
      · rw [update_of_ne hpk] at hne
        exact absurd hnew hne
    | @double a b hge _ _ hb hpar _ =>
      rw [update_of_ne hdata] at hne
      by_cases hpk : (g, p) = (f, par sp k)
      · cases hpk
        exact ⟨.data k, parent_data hge, by rwa [hself]⟩
      · rw [update_of_ne hpk] at hne
        by_cases hpd : (g, p) = (f, .dbl)
        · cases hpd
          have hparent : (par sp k).parent sp = some .dbl := by
            cases hpk : par sp k with
            | ind => exact absurd hpk hpar
            | dbl => exact absurd hpk par_ne_dbl
            | data j => exact absurd hpk par_ne_data
            | sub i => rfl
          refine ⟨par sp k, hparent, ?_⟩
          rw [update_of_ne fun heq => par_ne_data (Prod.mk.inj heq).2, update_self]
          exact hb
        · rw [update_of_ne hpd] at hne
          exact absurd hnew hne

end Entered

inductive NewBlock (sp : Super) (files : Files) (v : Vol) (f k : Nat) (rip : Inode) :
    Option Errno × Nat × Inode × Vol → Prop where
  | done {z : Nat} {rip' : Inode} {v' : Vol}
      (acc : Accounted sp (update files f (some rip')) v' ∅)
      (entered : Entered sp (zoneAt sp files v.disk) f k z
        (zoneAt sp (update files f (some rip')) v'.disk))
      (hz : z ≠ 0) (fresh : ¬Used sp v z)
      (room : room sp v' + (missing sp (zoneAt sp files v.disk) f k + 1) = room sp v)
      (frame : Frame sp (zoneAt sp files v.disk) f v v') (alike : rip.Alike rip') :
      NewBlock sp files v f k rip (none, z, rip', v')
  | full {rip' : Inode} {v' : Vol}
      (acc : Accounted sp (update files f (some rip')) v' ∅)
      (map : zoneAt sp (update files f (some rip')) v'.disk = zoneAt sp files v.disk)
      (room : room sp v ≤ missing sp (zoneAt sp files v.disk) f k)
      (frame : Frame sp (zoneAt sp files v.disk) f v v') (alike : rip.Alike rip') :
      NewBlock sp files v f k rip (some .enospc, 0, rip', v')
  | left {a : Nat} {rip' : Inode} {v' : Vol}
      (acc : Accounted sp (update files f (some rip')) v' ∅)
      (map : zoneAt sp (update files f (some rip')) v'.disk =
        update (zoneAt sp files v.disk) (f, .dbl) a)
      (hdbl : zoneAt sp files v.disk (f, .dbl) = 0) (ha : a ≠ 0)
      (room : room sp v = 2) (missing : missing sp (zoneAt sp files v.disk) f k = 2)
      (frame : Frame sp (zoneAt sp files v.disk) f v v') (alike : rip.Alike rip') :
      NewBlock sp files v f k rip (some .enospc, 0, rip', v')

theorem zoneAt_zone (sp : Super) (disk : Disk) (hf : files f = some rip)
    (hzone : rip'.zone = rip.zone) :
    zoneAt sp (update files f (some rip')) disk = zoneAt sp files disk := by
  apply zoneAt_put_same hf
  apply zoneOf_eq
  · exact fun p hp => zoneOf_indirect_congr (congrFun hzone _) (congrFun hzone _) (fun _ => rfl) hp
  · intro k hk
    rw [zoneOf_data_of_lt hk, hzone]
  · exact fun k hk => (zoneOf_data hk).symm

theorem Accounted.congr (h : Accounted sp files v loose)
    (hmap : zoneAt sp files' v.disk = zoneAt sp files v.disk) : Accounted sp files' v loose where
  writable := h.writable
  owned := hmap ▸ h.owned
  bit0 := h.bit0
  zeroed := hmap ▸ h.zeroed

theorem newBlock_spec (h : Accounted sp files v ∅) (hf : files f = some rip)
    (hpos : position / sp.blockSize = k) (hk : k < mapSize sp)
    (hempty : zoneOf sp rip v.disk (.data k) = 0) :
    ∃ r, newBlock sp position rip v = .ok r ∧ NewBlock sp files v f k rip r := by
  have hread : readMap sp position rip v = .ok 0 := by
    rw [h.readMap_eq hf (hpos ▸ hk), hpos, hempty]
  obtain ⟨r, hr, hres⟩ := allocZone_spec h.writable h.bit0
    (if rip.zsearch = 0 then if rip.zone 0 = 0 then sp.firstdatazone else rip.zone 0
      else rip.zsearch)
  simp only [newBlock, hread, ok_bind, if_true, hr]
  cases hres with
  | full hroom =>
    refine ⟨_, if_pos rfl, .full ?_ ?_ (hroom ▸ Nat.zero_le _) (fun _ _ _ => rfl) .refl⟩
    · rwa [update_files hf]
    · rw [update_files hf]
  | @found z v1 ha =>
    have hz0 : z ≠ 0 := ha.used_self.ne_zero
    have hzone : ∀ disk, zoneAt sp (update files f (some { rip with zsearch := z })) disk =
        zoneAt sp files disk := fun disk => zoneAt_zone sp disk hf rfl
    have hmap1 : zoneAt sp (update files f (some { rip with zsearch := z })) v1.disk =
        zoneAt sp files v.disk := (hzone v1.disk).trans (by rw [ha.disk])
    have hacc1 : Accounted sp (update files f (some { rip with zsearch := z })) v1 {z} := by
      have := (h.alloc ha).congr (hzone v1.disk)
      rwa [insert_empty_eq] at this
    have hf1 : update files f (some { rip with zsearch := z }) f =
        some { rip with zsearch := z } := update_self _ _ _
    have hempty1 : zoneOf sp { rip with zsearch := z } v1.disk (.data k) = 0 := by
      rw [← zoneAt_of hf1, hmap1, zoneAt_of hf, hempty]
    obtain ⟨w, hw, hent⟩ := writeMap_enter hacc1 hf1 hpos hk hempty1 rfl
    simp only [hz0, hw, ok_bind]
    have hframe : ∀ {u : Vol}, Frame sp (zoneAt sp files v.disk) f v1 u →
        Frame sp (zoneAt sp files v.disk) f v u := fun hu w hw hp =>
      (hu w ((ha.used w).mpr (.inl hw)) hp).trans (congrFun ha.disk w)
    cases hent with
    | @done rip' v' acc entered room frame alike =>
      rw [update_idem] at acc entered
      rw [hmap1] at entered room frame
      have hnot : ∀ g (p : Slot), p.Indirect →
          zoneAt sp (update files f (some rip')) v'.disk (g, p) ≠ z := by
        intro g p hp heq
        have hself := entered.self
        have hpair := acc.owned.once (heq ▸ hz0) (heq.trans hself.symm)
        cases hpair
        cases hp
      have hmap' : zoneAt sp (update files f (some rip')) (v'.zeroBlock z).disk =
          zoneAt sp (update files f (some rip')) v'.disk := zoneAt_setBlock hnot
      rw [Set.sdiff_self] at acc
      refine ⟨_, rfl, .done (acc.zeroBlock hnot) ?_ hz0 ha.fresh ?_ ?_ alike⟩
      · rw [hmap']
        exact entered
      · rw [← ha.room, ← room]
        rfl
      · intro u hu hp
        have hne : u ≠ z := by
          rintro rfl
          exact ha.fresh hu
        exact (update_of_ne hne _ _).trans (hframe frame u hu hp)
    | full hroom hmissing =>
      obtain ⟨v', hfree, hrel⟩ := freeZone_spec h.writable hacc1.bit0 ha.used_self
      rw [hmap1] at hmissing
      simp only [hfree]
      refine ⟨_, rfl, .full ?_ ?_ ?_ ?_ ⟨rfl, rfl⟩⟩
      · have := hacc1.release hrel rfl
        rwa [Set.sdiff_self] at this
      · rw [hrel.disk, hmap1]
      · rw [← ha.room, hroom]
        exact hmissing
      · exact fun w _ _ => congrFun (hrel.disk.trans ha.disk) w
    | @left a rip' v' acc map hdbl ha0 room missing frame alike =>
      rw [update_idem] at acc map
      rw [hmap1] at map hdbl missing frame
      obtain ⟨v'', hfree, hrel⟩ := freeZone_spec h.writable acc.bit0 (acc.owned.kept rfl)
      simp only [hfree]
      refine ⟨_, rfl, .left ?_ ?_ hdbl ha0 ?_ missing ?_ alike⟩
      · have := acc.release hrel rfl
        rwa [Set.sdiff_self] at this
      · rw [hrel.disk, map]
      · rw [← ha.room, room]
      · exact hframe fun w hw hp => (congrFun hrel.disk w).trans (frame w hw hp)

/-- The number of zones that a chunk in block `k` needs. -/
def needed (sp : Super) (m : ZoneMap) (f k : Nat) : Nat :=
  if m (f, .data k) = 0 then missing sp m f k + 1 else 0

/-- Block `k` of a file exists, and is the only block that may be new. -/
inductive Mapped (sp : Super) (m : ZoneMap) (f k : Nat) : ZoneMap → Prop where
  | old (h : m (f, .data k) ≠ 0) : Mapped sp m f k m
  | new {z : Nat} {m' : ZoneMap} (h : m (f, .data k) = 0) (hz : z ≠ 0)
      (entered : Entered sp m f k z m') : Mapped sp m f k m'

namespace Mapped

variable {m' : ZoneMap} (h : Mapped sp m f k m')

include h

theorem self : m' (f, .data k) ≠ 0 := by
  cases h with
  | old h => exact h
  | new _ hz entered => rwa [entered.self]

theorem data_of_ne {j : Nat} (hne : ¬(g = f ∧ j = k)) : m' (g, .data j) = m (g, .data j) := by
  cases h with
  | old => rfl
  | new _ _ entered => rw [entered.data, if_neg hne]

theorem indirect (hp : p.Indirect) (hne : m (g, p) ≠ 0) : m' (g, p) = m (g, p) := by
  cases h with
  | old => rfl
  | new _ _ entered => exact entered.indirect hp hne

theorem full (hfull : Full sp m) : Full sp m' := by
  cases h with
  | old => exact hfull
  | new _ hz entered => exact entered.full hfull hz

end Mapped

theorem content_of_ne {m' : ZoneMap} (h : Accounted sp files v loose)
    (hmap : zoneAt sp files' v'.disk = m')
    (hdata : ∀ {g j}, ¬(g = f ∧ j = k) → m' (g, .data j) = zoneAt sp files v.disk (g, .data j))
    (hkept : ∀ w, Used sp v w → (∀ p : Slot, p.Indirect → zoneAt sp files v.disk (f, p) ≠ w) →
      zoneAt sp files v.disk (f, .data k) ≠ w → v'.disk w = v.disk w)
    (hne : ¬(g = f ∧ pos / sp.blockSize = k)) :
    content sp files' v'.disk g pos = content sp files v.disk g pos := by
  subst hmap
  simp only [content, hdata hne]
  by_cases h0 : zoneAt sp files v.disk (g, .data (pos / sp.blockSize)) = 0
  · rw [if_pos h0, if_pos h0]
  · rw [if_neg h0, if_neg h0, hkept _ (h.used_zoneAt h0) fun p hp => h.data_not_indirect h0 f p hp]
    intro heq
    obtain ⟨hg, hj⟩ := h.once_indirect h0 heq
    exact hne ⟨hg.symm, (Slot.data.inj hj).symm⟩

theorem putBytes_block (hblock : pos / sp.blockSize = position / sp.blockSize)
    (hrest : ¬(position ≤ pos ∧ pos < position + bytes.length) → b (pos % sp.blockSize) = c pos) :
    putBytes b (position % sp.blockSize) bytes (pos % sp.blockSize) =
      putBytes c position bytes pos := by
  have h1 := div_add_mod pos sp.blockSize
  have h2 := div_add_mod position sp.blockSize
  rw [hblock] at h1
  by_cases hin : position ≤ pos ∧ pos < position + bytes.length
  · rw [putBytes, if_pos (by omega), putBytes, if_pos hin]
    congr 1
    omega
  · rw [putBytes, if_neg (by omega), putBytes, if_neg hin]
    exact hrest hin

inductive ChunkResult (sp : Super) (files : Files) (v : Vol) (f k : Nat) (rip : Inode)
    (position : Nat) (bytes : List UInt8) (copied : Option Nat) :
    Option Errno × Inode × Vol → Prop where
  | wrote {e : Option Errno} {rip' : Inode} {v' : Vol}
      (acc : Accounted sp (update files f (some rip')) v' ∅)
      (mapped : Mapped sp (zoneAt sp files v.disk) f k
        (zoneAt sp (update files f (some rip')) v'.disk))
      (reply : e = if copied = none then none else some .efault)
      (room : room sp v' + needed sp (zoneAt sp files v.disk) f k = room sp v)
      (other : ∀ g pos, ¬(g = f ∧ pos / sp.blockSize = k) →
        content sp (update files f (some rip')) v'.disk g pos = content sp files v.disk g pos)
      (stored : copied = none →
        (rip.size ≤ position → ∀ pos, position ≤ pos → content sp files v.disk f pos = 0) →
        content sp (update files f (some rip')) v'.disk f =
          putBytes (content sp files v.disk f) position bytes)
      (alike : rip.Alike rip') : ChunkResult sp files v f k rip position bytes copied (e, rip', v')
  | full {rip' : Inode} {v' : Vol}
      (acc : Accounted sp (update files f (some rip')) v' ∅)
      (map : zoneAt sp (update files f (some rip')) v'.disk = zoneAt sp files v.disk)
      (room : room sp v < needed sp (zoneAt sp files v.disk) f k)
      (kept : content sp (update files f (some rip')) v'.disk = content sp files v.disk)
      (alike : rip.Alike rip') :
      ChunkResult sp files v f k rip position bytes copied (some .enospc, rip', v')
  | left {a : Nat} {rip' : Inode} {v' : Vol}
      (acc : Accounted sp (update files f (some rip')) v' ∅)
      (map : zoneAt sp (update files f (some rip')) v'.disk =
        update (zoneAt sp files v.disk) (f, .dbl) a)
      (hdbl : zoneAt sp files v.disk (f, .dbl) = 0) (ha : a ≠ 0)
      (room : room sp v = 2) (needed : needed sp (zoneAt sp files v.disk) f k = 3)
      (kept : content sp (update files f (some rip')) v'.disk = content sp files v.disk)
      (alike : rip.Alike rip') :
      ChunkResult sp files v f k rip position bytes copied (some .enospc, rip', v')

theorem content_same {m' : ZoneMap} (h : Accounted sp files v loose)
    (hmap : zoneAt sp files' v'.disk = m')
    (hdata : ∀ {g j}, m' (g, .data j) = zoneAt sp files v.disk (g, .data j))
    (hframe : Frame sp (zoneAt sp files v.disk) f v v') :
    content sp files' v'.disk = content sp files v.disk := by
  subst hmap
  funext g pos
  simp only [content, hdata]
  by_cases h0 : zoneAt sp files v.disk (g, .data (pos / sp.blockSize)) = 0
  · rw [if_pos h0, if_pos h0]
  · rw [if_neg h0, if_neg h0, hframe _ (h.used_zoneAt h0) fun p hp => h.data_not_indirect h0 f p hp]

theorem copyin_eq (z off : Nat) (bytes : List UInt8) (copied : Option Nat) (buf : Block) (v : Vol) :
    ∃ b, copyin z off bytes copied buf v =
        (if copied = none then none else some .efault, v.setBlock z b) ∧
      (copied = none → b = putBytes buf off bytes) := by
  cases copied with
  | none => exact ⟨_, rfl, fun _ => rfl⟩
  | some n => exact ⟨_, rfl, fun h => nomatch h⟩

section

variable {bytes : List UInt8} (hlen : position % sp.blockSize + bytes.length ≤ sp.blockSize)

include hlen

theorem putBytes_other_block
    (hne : pos / sp.blockSize ≠ position / sp.blockSize) :
    putBytes c position bytes pos = c pos := by
  apply if_neg
  rintro ⟨h1, h2⟩
  apply hne
  have hmod := div_add_mod position sp.blockSize
  apply Nat.div_eq_of_lt_le
  · rw [Nat.mul_comm]
    omega
  · rw [Nat.add_mul, Nat.mul_comm]
    omega

variable (hpos : position / sp.blockSize = k)

include hpos

theorem content_stored (hz : z ≠ 0)
    (hslot : zoneAt sp files' v'.disk (f, .data k) = z) (hdisk : v'.disk z = b)
    (hb : ∀ pos, pos / sp.blockSize = k →
      b (pos % sp.blockSize) = putBytes (content sp files v.disk f) position bytes pos)
    (hother : ∀ pos, pos / sp.blockSize ≠ k →
      content sp files' v'.disk f pos = content sp files v.disk f pos) :
    content sp files' v'.disk f = putBytes (content sp files v.disk f) position bytes := by
  funext pos
  by_cases hblock : pos / sp.blockSize = k
  · rw [← hb pos hblock]
    simp only [content, hblock, hslot, if_neg hz, hdisk]
  · rw [hother pos hblock, putBytes_other_block hlen (hpos ▸ hblock)]

variable (h : Accounted sp files v ∅) (hf : files f = some rip) {e : Option Errno}
  {copied : Option Nat}

include h hf

theorem writeChunk_new (hempty : zoneOf sp rip v.disk (.data k) = 0)
    (hnew : NewBlock sp files v f k rip (none, z, rip', v'))
    (he : e = if copied = none then none else some .efault)
    (hb : copied = none → b = putBytes (fun _ => 0) (position % sp.blockSize) bytes) :
    ChunkResult sp files v f k rip position bytes copied (e, rip', v'.setBlock z b) := by
  have hslot : zoneAt sp files v.disk (f, .data k) = 0 := (zoneAt_of hf).trans hempty
  cases hnew with
  | done acc entered hz fresh room frame alike =>
    have hself := entered.self
    have hnot : ∀ g (p : Slot), p.Indirect →
        zoneAt sp (update files f (some rip')) v'.disk (g, p) ≠ z := fun g p hp =>
      hself ▸ acc.data_not_indirect (hself.symm ▸ hz) g p hp
    have hmap : zoneAt sp (update files f (some rip')) (v'.setBlock z b).disk =
        zoneAt sp (update files f (some rip')) v'.disk := zoneAt_setBlock hnot
    have hkept : ∀ w, Used sp v w → (∀ p : Slot, p.Indirect → zoneAt sp files v.disk (f, p) ≠ w) →
        zoneAt sp files v.disk (f, .data k) ≠ w → (v'.setBlock z b).disk w = v.disk w := by
      intro w hw hp _
      have hne : w ≠ z := by
        rintro rfl
        exact fresh hw
      exact (update_of_ne hne _ _).trans (frame w hw hp)
    have hmapped : Mapped sp (zoneAt sp files v.disk) f k
        (zoneAt sp (update files f (some rip')) v'.disk) := .new hslot hz entered
    have hother : ∀ g pos, ¬(g = f ∧ pos / sp.blockSize = k) →
        content sp (update files f (some rip')) (v'.setBlock z b).disk g pos =
          content sp files v.disk g pos := fun g pos hne =>
      content_of_ne h hmap hmapped.data_of_ne hkept hne
    refine .wrote (acc.setBlock hnot) (hmap ▸ hmapped) he ?_ hother (fun hcopied _ => ?_) alike
    · rw [needed, if_pos hslot]
      exact room
    · refine content_stored hlen hpos hz (by rw [hmap, hself]) (update_self _ _ _)
        (fun pos hblock => ?_) fun pos hne => hother f pos fun hno => hne hno.2
      rw [hb hcopied]
      refine putBytes_block (hblock.trans hpos.symm) fun _ => ?_
      simp only [content, hblock, if_pos hslot]

theorem writeChunk_old {buf junk : Block} (hz : zoneOf sp rip v.disk (.data k) = z) (hz0 : z ≠ 0)
    (he : e = if copied = none then none else some .efault)
    (hbuf : buf = if bytes.length = sp.blockSize then junk
      else if position % sp.blockSize = 0 ∧ rip.size ≤ position then fun _ => 0 else v.disk z)
    (hb : copied = none → b = putBytes buf (position % sp.blockSize) bytes) :
    ChunkResult sp files v f k rip position bytes copied (e, rip, v.setBlock z b) := by
  have hslot : zoneAt sp files v.disk (f, .data k) = z := (zoneAt_of hf).trans hz
  have hnot : ∀ g (p : Slot), p.Indirect → zoneAt sp files v.disk (g, p) ≠ z := fun g p hp =>
    hslot ▸ h.data_not_indirect (hslot.symm ▸ hz0) g p hp
  have hmap : zoneAt sp files (v.setBlock z b).disk = zoneAt sp files v.disk := zoneAt_setBlock hnot
  have hmapped : Mapped sp (zoneAt sp files v.disk) f k (zoneAt sp files v.disk) :=
    .old (hslot ▸ hz0)
  have hother : ∀ g pos, ¬(g = f ∧ pos / sp.blockSize = k) →
      content sp (update files f (some rip)) (v.setBlock z b).disk g pos =
        content sp files v.disk g pos := by
    intro g pos hne
    rw [update_files hf]
    exact content_of_ne h hmap hmapped.data_of_ne
      (fun w _ _ hw => update_of_ne (fun heq => hw (hslot.trans heq.symm)) _ _) hne
  refine .wrote ?_ ?_ he ?_ hother (fun hcopied hclean => ?_) .refl
  · rw [update_files hf]
    exact h.setBlock hnot
  · rw [update_files hf, hmap]
    exact hmapped
  · rw [needed, if_neg (hslot ▸ hz0)]
    rfl
  · refine content_stored hlen hpos hz0 (by rw [update_files hf, hmap, hslot])
      (update_self _ _ _) (fun pos hblock => ?_) fun pos hne => hother f pos fun hno => hne hno.2
    rw [hb hcopied]
    refine putBytes_block (hblock.trans hpos.symm) fun hout => ?_
    have hmod := mod_lt pos (blockSize_pos sp)
    have h1 := div_add_mod pos sp.blockSize
    have h2 := div_add_mod position sp.blockSize
    rw [hblock, ← hpos] at h1
    rw [hbuf]
    split
    · omega
    split
    · rename_i hpast
      exact (hclean hpast.2 pos (by omega)).symm
    · simp only [content, hblock, hslot, if_neg hz0]

theorem writeChunk_spec (copied : Option Nat) (junk : Block) (hk : k < mapSize sp) :
    ∃ r, writeChunk sp position (position % sp.blockSize) bytes copied junk rip v = .ok r ∧
      ChunkResult sp files v f k rip position bytes copied r := by
  have hread : readMap sp position rip v = .ok (zoneOf sp rip v.disk (.data k)) := by
    rw [h.readMap_eq hf (hpos ▸ hk), hpos]
  have hslot : zoneAt sp files v.disk (f, .data k) = zoneOf sp rip v.disk (.data k) := zoneAt_of hf
  simp only [writeChunk, hread, ok_bind]
  by_cases hempty : zoneOf sp rip v.disk (.data k) = 0
  · have hneeded : needed sp (zoneAt sp files v.disk) f k =
        missing sp (zoneAt sp files v.disk) f k + 1 := if_pos (hslot.trans hempty)
    obtain ⟨r, hr, hres⟩ := newBlock_spec h hf hpos hk hempty
    simp only [hempty, hr, ok_bind]
    have hres' := hres
    cases hres with
    | full acc map room frame alike =>
      refine ⟨_, rfl, .full acc map ?_ (content_same h map rfl frame) alike⟩
      rw [hneeded]
      exact lt_succ_of_le room
    | left acc map hdbl ha room missing frame alike =>
      refine ⟨_, rfl, .left acc map hdbl ha room ?_ (content_same h map ?_ frame) alike⟩
      · rw [hneeded, missing]
      · intro g j
        apply update_of_ne
        rintro ⟨⟩
    | @done z rip' v' =>
      obtain ⟨b, hcopy, hb⟩ := copyin_eq z (position % sp.blockSize) bytes copied (fun _ => 0) v'
      simp only [hcopy]
      exact ⟨_, rfl, writeChunk_new hlen hpos h hf hempty hres' rfl hb⟩
  · simp only [hempty]
    refine ⟨_, rfl, ?_⟩
    obtain ⟨b, hcopy, hb⟩ := copyin_eq (zoneOf sp rip v.disk (.data k))
      (position % sp.blockSize) bytes
      copied (if bytes.length = sp.blockSize then junk
        else if position % sp.blockSize = 0 ∧ rip.size ≤ position then fun _ => 0
        else v.disk (zoneOf sp rip v.disk (.data k))) v
    rw [hcopy]
    exact writeChunk_old hlen hpos h hf rfl hempty rfl rfl hb

end

end Gergios.Mfs
