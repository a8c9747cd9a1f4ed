import Gergios.Mfs.Map

/-!
# Zones that are accounted for

Every zone in a slot is marked used in the zone map and stands in no other slot, and every indirect
zone has been initialised. The loose zones are marked used and stand in no slot.
-/

namespace Gergios.Mfs

open Lib Function

variable (sp : Super)

def Used (v : Vol) (z : Nat) : Prop :=
  sp.firstdatazone ≤ z ∧ z < sp.zones ∧ wordBit v.zmap (z - (sp.firstdatazone - 1)) = true

def room (v : Vol) : Nat := (clearWordBits v.zmap sp.mapBits).card

structure Accounted (files : Files) (v : Vol) (loose : Set Nat) : Prop where
  writable : sp.rdOnly = false
  owned : Owned (zoneAt sp files v.disk) (Used sp v) loose
  bit0 : wordBit v.zmap 0 = true
  zeroed : ∀ {f : Nat} {p : Slot}, p.Indirect → zoneAt sp files v.disk (f, p) ≠ 0 →
    v.zeroed (zoneAt sp files v.disk (f, p)) = true

structure Allocated (v v' : Vol) (z : Nat) : Prop where
  disk : v'.disk = v.disk
  zeroed : v'.zeroed = update v.zeroed z false
  bit0 : wordBit v'.zmap 0 = true
  fresh : ¬Used sp v z
  used : ∀ w, Used sp v' w ↔ Used sp v w ∨ w = z
  room : room sp v' + 1 = room sp v

structure Released (v v' : Vol) (z : Nat) : Prop where
  disk : v'.disk = v.disk
  zeroed : v'.zeroed = v.zeroed
  bit0 : wordBit v'.zmap 0 = true
  used : ∀ w, Used sp v' w ↔ Used sp v w ∧ w ≠ z

variable {sp} {files files' : Files} {v v' : Vol} {loose : Set Nat} {f k w z : Nat} {p q : Slot}

theorem not_used_zero : ¬Used sp v 0 := fun h => by
  have := sp.four_lt
  have := h.1
  omega

theorem Used.ne_zero (h : Used sp v z) : z ≠ 0 := by
  rintro rfl
  exact not_used_zero h

theorem Used.lt (h : Used sp v z) : z < 2 ^ 32 := h.2.1.trans sp.zones_lt

inductive AllocZone (sp : Super) (v : Vol) : Nat × Vol → Prop where
  | found {z : Nat} {v' : Vol} (h : Allocated sp v v' z) : AllocZone sp v (z, v')
  | full (h : room sp v = 0) : AllocZone sp v (0, v)

theorem Allocated.used_self (h : Allocated sp v v' z) : Used sp v' z := (h.used z).mpr (.inr rfl)

theorem allocZone_spec (hrd : sp.rdOnly = false) (h0 : wordBit v.zmap 0 = true) (near : Nat) :
    ∃ r, allocZone sp near v = .ok r ∧ AllocZone sp v r := by
  obtain ⟨r, heq, hr⟩ := allocBit_spec hrd h0 (if near = sp.firstdatazone then v.zsearch
    else (near + 2 ^ 32 - (sp.firstdatazone - 1)) % 2 ^ 32)
  rw [allocZone, heq, ok_bind]
  cases hr with
  | full hused =>
    refine ⟨_, if_pos rfl, .full ?_⟩
    rw [room, Finset.card_eq_zero, Finset.eq_empty_iff_forall_notMem]
    intro b hb
    obtain ⟨hlt, hclear⟩ := mem_clearWordBits.mp hb
    simp [hused b hlt] at hclear
  | @found b hpos hlt hclear =>
    refine ⟨_, if_neg hpos.ne', .found ⟨rfl, rfl, ?_, ?_, fun w => ?_, ?_⟩⟩
    · rw [wordBit_setWordBit, h0, Bool.true_or]
    · rintro ⟨-, -, hbit⟩
      rw [Nat.add_sub_cancel_left] at hbit
      simp [hbit] at hclear
    · simp only [Used, wordBit_setWordBit, Bool.or_eq_true, decide_eq_true_eq]
      rw [Super.mapBits] at hlt
      constructor
      · rintro ⟨h1, h2, hbit | hbit⟩
        · exact .inl ⟨h1, h2, hbit⟩
        · exact .inr (by omega)
      · rintro (⟨h1, h2, hbit⟩ | rfl)
        · exact ⟨h1, h2, .inl hbit⟩
        · exact ⟨by omega, by omega, .inr (by omega)⟩
    · exact card_clearWordBits_setWordBit hlt hclear

theorem freeZone_spec (hrd : sp.rdOnly = false) (h0 : wordBit v.zmap 0 = true) (hz : Used sp v z) :
    ∃ v', freeZone sp z v = .ok v' ∧ Released sp v v' z := by
  have hfirst := sp.four_lt
  obtain ⟨h1, h2, hbit⟩ := hz
  have hrange : ¬(z < sp.firstdatazone ∨ sp.zones ≤ z) := by omega
  have hfree : freeBit sp v.zmap (z - (sp.firstdatazone - 1)) =
      .ok (clearWordBit v.zmap (z - (sp.firstdatazone - 1))) := by
    simp [freeBit, hrd, hbit]
  refine ⟨_, (if_neg hrange).trans (congrArg (· >>= _) hfree), rfl, rfl, ?_, fun w => ?_⟩
  · have hne : (0 : Nat) ≠ z - (sp.firstdatazone - 1) := by omega
    rw [wordBit_clearWordBit, h0, decide_eq_true hne, Bool.and_true]
  · simp only [Used, wordBit_clearWordBit, Bool.and_eq_true, decide_eq_true_eq]
    constructor
    · rintro ⟨hw1, hw2, hb, hne⟩
      exact ⟨⟨hw1, hw2, hb⟩, fun heq => hne (by rw [heq])⟩
    · rintro ⟨⟨hw1, hw2, hb⟩, hne⟩
      exact ⟨hw1, hw2, hb, by omega⟩

theorem rdIndir_spec {i : Nat} (h : wordAt (v.disk z) i ≠ 0 → Used sp v (wordAt (v.disk z) i)) :
    rdIndir sp v z i = .ok (wordAt (v.disk z) i) := by
  apply if_neg
  rintro ⟨hne, hrange⟩
  obtain ⟨h1, h2, -⟩ := h hne
  omega

theorem emptyIndir_iff : emptyIndir sp v z = true ↔ ∀ i < sp.nindirs, wordAt (v.disk z) i = 0 := by
  simp [emptyIndir]

namespace Accounted

section

variable (h : Accounted sp files v loose)

include h

theorem used_zoneAt {q : Nat × Slot} (hq : zoneAt sp files v.disk q ≠ 0) :
    Used sp v (zoneAt sp files v.disk q) := h.owned.held hq

theorem alloc (ha : Allocated sp v v' z) : Accounted sp files v' (insert z loose) where
  writable := h.writable
  owned := by
    rw [ha.disk]
    exact h.owned.alloc ha.fresh ha.used_self.ne_zero ha.used
  bit0 := ha.bit0
  zeroed := by
    rw [ha.disk, ha.zeroed]
    intro f p hp hne
    rw [update_of_ne]
    · exact h.zeroed hp hne
    · intro heq
      exact ha.fresh (heq ▸ h.owned.held hne)

theorem release (hr : Released sp v v' z) (hz : z ∈ loose) :
    Accounted sp files v' (loose \ {z}) where
  writable := h.writable
  owned := by
    rw [hr.disk]
    exact h.owned.free hz hr.used
  bit0 := hr.bit0
  zeroed := by
    rw [hr.disk, hr.zeroed]
    exact h.zeroed

theorem attach (hzmap : v'.zmap = v.zmap) (hzeroed : v'.zeroed = v.zeroed)
    (hmap : zoneAt sp files' v'.disk = update (zoneAt sp files v.disk) (f, p) z)
    (hempty : zoneAt sp files v.disk (f, p) = 0) (hz : z ∈ loose)
    (hinit : p.Indirect → v.zeroed z = true) : Accounted sp files' v' (loose \ {z}) where
  writable := h.writable
  owned := by
    have hused : Used sp v' = Used sp v := by
      funext w
      rw [Used, Used, hzmap]
    rw [hmap, hused]
    exact h.owned.attach hempty hz
  bit0 := hzmap ▸ h.bit0
  zeroed := by
    rw [hmap, hzeroed]
    intro g q hq hne
    rcases eq_or_ne (g, q) (f, p) with heq | hother
    · cases heq
      rw [update_self]
      exact hinit hq
    · rw [update_of_ne hother] at hne ⊢
      exact h.zeroed hq hne

theorem drop {v'' : Vol} (hne : zoneAt sp files v.disk (f, p) ≠ 0)
    (hr : Released sp v v' (zoneAt sp files v.disk (f, p))) (hzmap : v''.zmap = v'.zmap)
    (hzeroed : v''.zeroed = v'.zeroed)
    (hmap : zoneAt sp files' v''.disk = update (zoneAt sp files v.disk) (f, p) 0) :
    Accounted sp files' v'' loose where
  writable := h.writable
  owned := by
    have hused : Used sp v'' = Used sp v' := by
      funext w
      rw [Used, Used, hzmap]
    rw [hmap, hused]
    exact h.owned.drop hne hr.used
  bit0 := hzmap ▸ hr.bit0
  zeroed := by
    rw [hmap, hzeroed, hr.zeroed]
    intro g q hq hne'
    rcases eq_or_ne (g, q) (f, p) with heq | hother
    · cases heq
      exact absurd (update_self _ _ _) hne'
    · rw [update_of_ne hother] at hne' ⊢
      exact h.zeroed hq hne'

theorem once_indirect (hp : zoneAt sp files v.disk (f, p) ≠ 0) {g : Nat}
    (heq : zoneAt sp files v.disk (g, q) = zoneAt sp files v.disk (f, p)) :
    g = f ∧ q = p := Prod.mk.inj (h.owned.once (heq ▸ hp) heq)

theorem setBlock {b : Block} (hz : ∀ g (p : Slot), p.Indirect → zoneAt sp files v.disk (g, p) ≠ z) :
    Accounted sp files (v.setBlock z b) loose := by
  have hmap : zoneAt sp files (v.setBlock z b).disk = zoneAt sp files v.disk := zoneAt_setBlock hz
  refine ⟨h.writable, ?_, h.bit0, ?_⟩
  · rw [hmap]
    exact h.owned
  · rw [hmap]
    exact h.zeroed

theorem data_not_indirect (hz : zoneAt sp files v.disk (f, .data k) ≠ 0) (g : Nat) (p : Slot)
    (hp : p.Indirect) : zoneAt sp files v.disk (g, p) ≠ zoneAt sp files v.disk (f, .data k) := by
  intro heq
  obtain ⟨-, rfl⟩ := h.once_indirect hz heq
  cases hp

theorem zeroBlock (hz : ∀ g (p : Slot), p.Indirect → zoneAt sp files v.disk (g, p) ≠ z) :
    Accounted sp files (v.zeroBlock z) loose := by
  have h' := h.setBlock (b := fun _ => 0) hz
  refine ⟨h'.writable, h'.owned, h'.bit0, fun {g p} hp hne => ?_⟩
  have hmap : zoneAt sp files (v.zeroBlock z).disk = zoneAt sp files v.disk := zoneAt_setBlock hz
  rw [hmap] at hne ⊢
  exact (update_of_ne (hz g p hp) _ _).trans (h.zeroed hp hne)

end

end Accounted

end Gergios.Mfs
