import Gergios.Vm.Region

/-!
# The search for a free range of addresses

The search goes down from the top of the range, gap by gap, and takes the upper end of the first gap
that is large enough, if possible with a free page on either side.
-/

namespace Gergios.Vm

open List Nat Option

section Code

variable (dataTop : Nat) (regions : List VirRegion) (minv maxv length : Nat)

def freeVrangeTry (rangestart rangeend : Nat) : Option Nat :=
  let frstart := max rangestart minv
  let frend := min rangeend maxv
  if frend > frstart ∧ frend - frstart ≥ length then some (frend - length) else none

def freeVrange (start limit : Nat) : Option Nat :=
  (freeVrangeTry minv maxv length (wrap (start + pageSize)) (wrapSub limit pageSize)).or
    (freeVrangeTry minv maxv length start limit)

/-- The gaps from `upper` downwards, below which lie the regions of the list, the highest first. -/
def walkDown : Nat → List VirRegion → Option Nat
  | upper, [] => freeVrange minv maxv length 0 upper
  | upper, r :: rest =>
    (freeVrange minv maxv length (wrap (r.vaddr + r.length)) upper).or (walkDown r.vaddr rest)

/-- The top of the gap that holds `maxv`. -/
def gapTop : Nat := ((regions.find? (maxv ≤ ·.vaddr)).map (·.vaddr)).getD dataTop

/-- The regions that start below `maxv`, the highest first. -/
def regionsBelow : List VirRegion := (regions.filter (·.vaddr < maxv)).reverse

/-- No address is `SLOT_FAIL`. -/
def regionFindSlotRange : Except Stop (Option Nat) :=
  if length = 0 then .error .assertion
  else
    let top := if maxv = 0 then wrap (minv + length) else maxv
    if maxv = 0 ∧ top ≤ minv then .ok none
    else if length % pageSize ≠ 0 ∨ minv ≥ top then .error .assertion
    else if wrap (minv + length) > top then .ok none
    else
      match walkDown minv top length (gapTop dataTop regions top) (regionsBelow regions top) with
      | none => .ok none
      | some startv =>
        if startv < minv ∨ startv ≥ top ∨ wrap (startv + length) > top then .error .assertion
        else .ok (some startv)

/-- `hint` is `vm_region_top`. -/
def regionFindSlot (hint : Nat) : Except Stop (Option Nat) :=
  if maxv ≠ 0 ∧ hint < maxv ∧ hint ≥ minv then
    match regionFindSlotRange dataTop regions minv hint length with
    | .error e => .error e
    | .ok (some v) => .ok (some v)
    | .ok none => regionFindSlotRange dataTop regions minv maxv length
  else regionFindSlotRange dataTop regions minv maxv length

end Code

/-- There is a slot between `minv` and `top`. -/
def Fits (dataTop : Nat) (regions : List VirRegion) (length minv top : Nat) : Prop :=
  ∃ a, minv ≤ a ∧ a + length ≤ top ∧ a + length ≤ dataTop ∧ Clear regions a length

section Gaps

variable {minv maxv length start limit : Nat} {a : Nat}

theorem freeVrangeTry_some (h : freeVrangeTry minv maxv length start limit = some a) :
    start ≤ a ∧ minv ≤ a ∧ a + length = min limit maxv := by
  simp only [freeVrangeTry, ite_none_right_eq_some, some.injEq] at h
  omega

theorem freeVrangeTry_none (hlen : 0 < length)
    (h : freeVrangeTry minv maxv length start limit = none) (hs : start ≤ a) (hmin : minv ≤ a)
    (hmax : a + length ≤ maxv) : limit < a + length := by
  simp only [freeVrangeTry, ite_eq_right_iff, reduceCtorEq, imp_false] at h
  omega

theorem wrap_of_lt {x : Nat} (h : x < addressLimit) : wrap x = x := mod_eq_of_lt h

theorem wrapSub_of_le {x y : Nat} (hle : y ≤ x) (hx : x < addressLimit) : wrapSub x y = x - y := by
  unfold wrapSub wrap
  have : x + (addressLimit - y) = x - y + addressLimit := by omega
  rw [this, add_mod_right, mod_eq_of_lt (by omega)]

theorem freeVrange_some (hs : start + pageSize < addressLimit) (hl : pageSize ≤ limit)
    (hlim : limit < addressLimit) (h : freeVrange minv maxv length start limit = some a) :
    start ≤ a ∧ minv ≤ a ∧ a + length ≤ limit ∧ a + length ≤ maxv := by
  rw [freeVrange, wrap_of_lt hs, wrapSub_of_le hl hlim, or_eq_some_iff] at h
  obtain h | ⟨-, h⟩ := h <;> have := freeVrangeTry_some h <;> omega

theorem freeVrange_none (hlen : 0 < length) (h : freeVrange minv maxv length start limit = none)
    (hs : start ≤ a) (hmin : minv ≤ a) (hmax : a + length ≤ maxv) : limit < a + length := by
  rw [freeVrange, or_eq_none_iff] at h
  exact freeVrangeTry_none hlen h.2 hs hmin hmax

end Gaps

/-! ### One search -/

section Walk

variable {dataTop : Nat} {regions : List VirRegion} {minv maxv length upper : Nat}

/-- The regions of the list lie below `upper`, the highest first. -/
structure Descends (dataTop upper : Nat) (below : List VirRegion) : Prop where
  placed : ∀ r ∈ below, r.Placed dataTop
  order : below.Pairwise fun r s => s.limit ≤ r.vaddr
  limit_le : ∀ r ∈ below, r.limit ≤ upper

theorem Descends.tail (h : Descends dataTop upper (r :: rest)) : Descends dataTop r.vaddr rest where
  placed s hs := h.placed s (mem_cons_of_mem _ hs)
  order := (pairwise_cons.mp h.order).2
  limit_le s hs := (pairwise_cons.mp h.order).1 s hs

theorem clear_below (hlen : 0 < length)
    (h : freeVrange minv maxv length r.limit upper = none) (hmin : minv ≤ a)
    (hmax : a + length ≤ maxv) (hle : a + length ≤ upper) (hclear : Clear (r :: rest) a length) :
    a + length ≤ r.vaddr ∧ Clear rest a length := by
  refine ⟨?_, fun s hs => hclear s (mem_cons_of_mem _ hs)⟩
  obtain hbelow | habove := hclear r mem_cons_self
  · exact hbelow
  · have := freeVrange_none hlen h habove hmin hmax
    omega

theorem walkDown_complete (hlen : 0 < length)
    (hd : Descends dataTop upper below) (htop : dataTop < addressLimit) (hup : upper ≤ dataTop)
    (h : walkDown minv maxv length upper below = none) (hmin : minv ≤ a)
    (hmax : a + length ≤ maxv) (hle : a + length ≤ upper) : ¬Clear below a length := by
  induction below generalizing upper with
  | nil =>
    have := freeVrange_none hlen h (Nat.zero_le a) hmin hmax
    omega
  | cons r rest ih =>
    have hlim : r.vaddr + r.length ≤ upper := hd.limit_le r mem_cons_self
    rw [walkDown, wrap_of_lt (by omega), or_eq_none_iff] at h
    intro hclear
    obtain ⟨hle', hrest⟩ := clear_below hlen h.1 hmin hmax hle hclear
    exact ih hd.tail (by omega) h.2 hle' hrest

theorem walkDown_sound (hlen : 0 < length)
    (hd : Descends dataTop upper below) (htop : dataTop + pageSize < addressLimit)
    (hup : upper ≤ dataTop) (hpage : pageSize ∣ upper)
    (h : walkDown minv maxv length upper below = some a) :
    (minv ≤ a ∧ a + length ≤ maxv ∧ a + length ≤ upper ∧ Clear below a length) ∨
      (upper = 0 ∨ ∃ r ∈ below, r.vaddr = 0) ∧
        (∀ b, minv ≤ b → b + length ≤ maxv → b + length ≤ upper → ¬Clear below b length) ∧
        pageSize ≤ a ∧ minv ≤ a ∧ a + length = min (addressLimit - pageSize) maxv := by
  induction below generalizing upper with
  | nil =>
    obtain rfl | hpos := Nat.eq_zero_or_pos upper
    · rw [walkDown, freeVrange, or_eq_some_iff] at h
      obtain h | ⟨-, h⟩ := h <;> have hs := freeVrangeTry_some h
      · right
        exact ⟨.inl rfl, fun b _ _ _ => by omega, hs⟩
      · omega
    · left
      have hs := freeVrange_some (by omega) (le_of_dvd hpos hpage) (by omega) h
      exact ⟨hs.2.1, hs.2.2.2, hs.2.2.1, by simp [Clear]⟩
  | cons r rest ih =>
    have hr := hd.placed r mem_cons_self
    have hlim : r.vaddr + r.length ≤ upper := hd.limit_le r mem_cons_self
    have hlength := le_of_dvd hr.length_pos hr.length_dvd
    rw [walkDown, wrap_of_lt (by omega), or_eq_some_iff] at h
    obtain h | ⟨hnone, h⟩ := h
    · left
      have hs := freeVrange_some (by omega) (by omega) (by omega) h
      refine ⟨hs.2.1, hs.2.2.2, hs.2.2.1, ?_⟩
      rintro s hs'
      right
      obtain rfl | hs' := mem_cons.mp hs'
      · exact hs.1
      · have := hd.tail.limit_le s hs'
        omega
    · obtain ⟨h1, h2, h3, h4⟩ | ⟨hzero, hfull, h⟩ := ih hd.tail (by omega) hr.vaddr_dvd h
      · left
        refine ⟨h1, h2, by omega, ?_⟩
        rintro s hs
        obtain rfl | hs := mem_cons.mp hs
        · exact .inl h3
        · exact h4 s hs
      · right
        refine ⟨.inr ?_, ?_, h⟩
        · obtain hzero | ⟨s, hs, hzero⟩ := hzero
          · exact ⟨r, mem_cons_self, hzero⟩
          · exact ⟨s, mem_cons_of_mem _ hs, hzero⟩
        · intro b hmin hmax hle hclear
          obtain ⟨hle', hrest⟩ := clear_below hlen hnone hmin hmax hle hclear
          exact hfull b hmin hmax hle' hrest

theorem walkDown_zero (hlen : 0 < length)
    (hd : Descends dataTop upper below) (h : walkDown minv maxv length upper below = none)
    (hzero : upper = 0 ∨ ∃ r ∈ below, r.vaddr = 0) (hmax : max pageSize minv + length ≤ maxv) :
    addressLimit - pageSize < max pageSize minv + length := by
  induction below generalizing upper with
  | nil =>
    obtain rfl : upper = 0 := by simpa using hzero
    rw [walkDown, freeVrange, or_eq_none_iff] at h
    exact freeVrangeTry_none hlen h.1 (Nat.le_max_left _ _) (Nat.le_max_right _ _) hmax
  | cons r rest ih =>
    rw [walkDown, or_eq_none_iff] at h
    apply ih hd.tail h.2
    have hlim : r.vaddr + r.length ≤ upper := hd.limit_le r mem_cons_self
    obtain rfl | ⟨s, hs, hzero⟩ := hzero
    · omega
    · obtain rfl | hs := mem_cons.mp hs
      · exact .inl hzero
      · exact .inr ⟨s, hs, hzero⟩

theorem gapTop_le (maxv : Nat) (h : WellPlaced dataTop regions) :
    gapTop dataTop regions maxv ≤ dataTop := by
  unfold gapTop
  cases hf : regions.find? (maxv ≤ ·.vaddr) with
  | none => exact Nat.le_refl _
  | some r =>
    have := (h.placed r (mem_of_find?_eq_some hf)).limit_le
    exact Nat.le_trans (Nat.le_add_right _ _) this

theorem pageSize_dvd_gapTop (h : WellPlaced dataTop regions) (htop : pageSize ∣ dataTop) :
    pageSize ∣ gapTop dataTop regions maxv := by
  unfold gapTop
  cases hf : regions.find? (maxv ≤ ·.vaddr) with
  | none => exact htop
  | some r => exact (h.placed r (mem_of_find?_eq_some hf)).vaddr_dvd

theorem le_gapTop (hmax : a ≤ maxv) (hdata : a ≤ dataTop) : a ≤ gapTop dataTop regions maxv := by
  unfold gapTop
  cases hf : regions.find? (maxv ≤ ·.vaddr) with
  | none => exact hdata
  | some r => exact Nat.le_trans hmax (by simpa using find?_some hf)

theorem gapTop_eq_zero (hdata : 0 < dataTop) (h : gapTop dataTop regions maxv = 0) :
    ∃ r ∈ regions, r.vaddr = 0 := by
  unfold gapTop at h
  cases hf : regions.find? (maxv ≤ ·.vaddr) with
  | none =>
    rw [hf] at h
    exact absurd h (Nat.ne_of_gt hdata)
  | some r =>
    rw [hf] at h
    exact ⟨r, mem_of_find?_eq_some hf, h⟩

theorem mem_regionsBelow : r ∈ regionsBelow regions maxv ↔ r ∈ regions ∧ r.vaddr < maxv := by
  simp [regionsBelow]

theorem descends_regionsBelow (maxv : Nat) (h : WellPlaced dataTop regions) :
    Descends dataTop (gapTop dataTop regions maxv) (regionsBelow regions maxv) where
  placed r hr := h.placed r (mem_regionsBelow.mp hr).1
  order := by
    rw [regionsBelow, pairwise_reverse]
    exact h.disjoint.filter _
  limit_le r hr := by
    obtain ⟨hr, hlt⟩ := mem_regionsBelow.mp hr
    unfold gapTop
    cases hf : regions.find? (maxv ≤ ·.vaddr) with
    | none => exact (h.placed r hr).limit_le
    | some s =>
      have hs : maxv ≤ s.vaddr := by simpa using find?_some hf
      exact h.limit_le hr (mem_of_find?_eq_some hf) (Nat.lt_of_lt_of_le hlt hs)

theorem clear_iff_regionsBelow (hmax : a + length ≤ maxv) :
    Clear regions a length ↔ Clear (regionsBelow regions maxv) a length := by
  constructor
  · exact fun h r hr => h r (mem_regionsBelow.mp hr).1
  · intro h r hr
    obtain hlt | hge := Nat.lt_or_ge r.vaddr maxv
    · exact h r (mem_regionsBelow.mpr ⟨hr, hlt⟩)
    · exact .inl (Nat.le_trans hmax hge)

end Walk

/-! ### Both searches -/

section Slots

variable (dataTop : Nat) (regions : List VirRegion) (length minv : Nat)

/-- A search up to `top` ends below a region at address 0, and takes its gap for the slot. -/
def Misled (top : Nat) : Prop :=
  (∃ r ∈ regions, r.vaddr = 0) ∧ ¬Fits dataTop regions length minv top ∧
    max pageSize minv + length ≤ top

/-- What a search up to `top` is for. -/
def SlotFound (top : Nat) : Except Stop (Option Nat) → Prop
  | .error _ => False
  | .ok (some a) => minv ≤ a ∧ a + length ≤ top ∧ a + length ≤ dataTop ∧ Clear regions a length
  | .ok none => ¬Fits dataTop regions length minv top

def SlotCondition (maxv hint : Nat) : Prop :=
  (maxv = 0 → minv + length < addressLimit → ¬Misled dataTop regions length minv (minv + length)) ∧
  (maxv ≠ 0 → ¬Misled dataTop regions length minv maxv) ∧
  (minv ≤ hint → hint < maxv → ¬Misled dataTop regions length minv hint ∧
    -- an empty range is an assertion, and at address 0 means that address and no other
    (hint = minv → minv = 0 ∧ (Fits dataTop regions length 0 length → length ≤ maxv)))

end Slots

section Range

variable {dataTop : Nat} {regions : List VirRegion} {length minv top : Nat}

/-- How a search up to `top` can end. -/
inductive Searched (dataTop : Nat) (regions : List VirRegion) (length minv top : Nat) :
    Option Nat → Prop
  | found {a : Nat} (h : minv ≤ a ∧ a + length ≤ top ∧ a + length ≤ dataTop ∧
      Clear regions a length) : Searched dataTop regions length minv top (some a)
  | misled {a : Nat} (h : Misled dataTop regions length minv top) (hmin : minv ≤ a)
      (hend : a + length = top) : Searched dataTop regions length minv top (some a)
  | full (hfits : ¬Fits dataTop regions length minv top)
      (hmis : ¬Misled dataTop regions length minv top) :
      Searched dataTop regions length minv top none

section

variable (h : WellPlaced dataTop regions) (hpos : 0 < dataTop)
  (hdata : dataTop + pageSize < addressLimit) (hdvd : pageSize ∣ dataTop) (hlen : 0 < length)
  (htop : top ≤ addressLimit - pageSize)

include h hpos hdata hdvd hlen htop

theorem searched_walkDown (minv : Nat) : Searched dataTop regions length minv top
    (walkDown minv top length (gapTop dataTop regions top) (regionsBelow regions top)) := by
  have hd := descends_regionsBelow top h
  have hup := gapTop_le top h
  have hfits : Fits dataTop regions length minv top →
      ∃ b, minv ≤ b ∧ b + length ≤ top ∧ b + length ≤ gapTop dataTop regions top ∧
        Clear (regionsBelow regions top) b length := by
    rintro ⟨b, hmin, hmax, hle, hclear⟩
    exact ⟨b, hmin, hmax, le_gapTop hmax hle, (clear_iff_regionsBelow hmax).mp hclear⟩
  cases hw : walkDown minv top length (gapTop dataTop regions top) (regionsBelow regions top) with
  | some a =>
    obtain ⟨hmin, hmax, hle, hclear⟩ | ⟨hzero, hfull, hpage, hmin, hend⟩ :=
      walkDown_sound hlen hd hdata hup (pageSize_dvd_gapTop h hdvd) hw
    · exact .found ⟨hmin, hmax, Nat.le_trans hle hup, (clear_iff_regionsBelow hmax).mpr hclear⟩
    · have hnot : ¬Fits dataTop regions length minv top := by
        intro hf
        obtain ⟨b, h1, h2, h3, h4⟩ := hfits hf
        exact hfull b h1 h2 h3 h4
      refine .misled ⟨?_, hnot, by omega⟩ hmin (by omega)
      obtain hzero | ⟨r, hr, hzero⟩ := hzero
      · exact gapTop_eq_zero hpos hzero
      · exact ⟨r, (mem_regionsBelow.mp hr).1, hzero⟩
  | none =>
    refine .full ?_ ?_
    · intro hf
      obtain ⟨b, h1, h2, h3, h4⟩ := hfits hf
      exact walkDown_complete hlen hd (by omega) hup hw h1 h2 h3 h4
    · rintro ⟨⟨r, hr, hzero⟩, -, hle⟩
      have := walkDown_zero hlen hd hw (.inr ⟨r, mem_regionsBelow.mpr ⟨hr, by omega⟩, hzero⟩) hle
      omega

theorem searched_regionFindSlotRange (hlen_dvd : pageSize ∣ length) (hlt : minv < top) :
    ∃ r, regionFindSlotRange dataTop regions minv top length = .ok r ∧
      Searched dataTop regions length minv top r := by
  have hpage := pageSize_pos
  have hmod : ¬(length % pageSize ≠ 0 ∨ minv ≥ top) := by
    omega
  have hstart : ¬(top = 0 ∧ top ≤ minv) := by omega
  rw [regionFindSlotRange, if_neg (Nat.ne_of_gt hlen)]
  simp only [if_neg (show ¬top = 0 by omega), if_neg hmod, if_neg hstart]
  by_cases hover : wrap (minv + length) > top
  · have hnot : ∀ a, minv ≤ a → ¬a + length ≤ top := by
      intro a hmin hle
      rw [wrap_of_lt (by omega)] at hover
      omega
    rw [if_pos hover]
    refine ⟨none, rfl, .full ?_ ?_⟩
    · rintro ⟨a, hmin, hmax, -⟩
      exact hnot a hmin hmax
    · rintro ⟨-, -, hle⟩
      exact hnot _ (Nat.le_max_right _ _) hle
  rw [if_neg hover]
  have hfine : ∀ a, minv ≤ a → a + length ≤ top →
      ¬(a < minv ∨ a ≥ top ∨ wrap (a + length) > top) := by
    intro a hmin hmax
    rw [wrap_of_lt (by omega)]
    omega
  have hs := searched_walkDown h hpos hdata hdvd hlen htop minv
  refine ⟨_, ?_, hs⟩
  cases hw : walkDown minv top length (gapTop dataTop regions top) (regionsBelow regions top) with
  | none => rfl
  | some a =>
    refine if_neg ?_
    rw [hw] at hs
    cases hs with
    | found ha => exact hfine a ha.1 ha.2.1
    | misled _ hmin hend => exact hfine a hmin (Nat.le_of_eq hend)

theorem slotFound_iff (hlen_dvd : pageSize ∣ length) (hlt : minv < top) :
    SlotFound dataTop regions length minv top
        (regionFindSlotRange dataTop regions minv top length) ↔
      ¬Misled dataTop regions length minv top := by
  obtain ⟨r, hr, hs⟩ := searched_regionFindSlotRange h hpos hdata hdvd hlen htop hlen_dvd hlt
  rw [hr]
  cases hs with
  | found ha =>
    refine iff_of_true ha ?_
    rintro ⟨-, hfits, -⟩
    exact hfits ⟨_, ha⟩
  | misled hmis => exact iff_of_false (fun ha => hmis.2.1 ⟨_, ha⟩) (not_not_intro hmis)
  | full hfits hmis => exact iff_of_true hfits hmis

end

theorem regionFindSlotRange_here (hlt : minv + length < addressLimit) (hlen : 0 < length) :
    regionFindSlotRange dataTop regions minv 0 length =
      regionFindSlotRange dataTop regions minv (minv + length) length := by
  have hne : ¬minv + length = 0 := by omega
  simp only [regionFindSlotRange, wrap_of_lt hlt, if_true]
  simp only [hne, false_and, if_false, true_and, if_neg (show ¬minv + length ≤ minv by omega)]

theorem regionFindSlotRange_over (hlt : addressLimit ≤ minv + length) (hmin : minv < addressLimit)
    (hlen : length < addressLimit) (hpos : 0 < length) :
    regionFindSlotRange dataTop regions minv 0 length = .ok none := by
  have hwrap : wrap (minv + length) ≤ minv := by
    rw [wrap, mod_eq_sub_mod hlt, mod_eq_of_lt (by omega)]
    omega
  simp only [regionFindSlotRange, if_neg (Nat.ne_of_gt hpos), if_true, true_and, if_pos hwrap]

theorem regionFindSlotRange_empty (hlen : 0 < length) (hmin : 0 < minv) :
    regionFindSlotRange dataTop regions minv minv length = .error .assertion := by
  have hne : ¬minv = 0 := by omega
  simp only [regionFindSlotRange, if_neg (Nat.ne_of_gt hlen), hne, if_false, false_and,
    Nat.le_refl, or_true, if_true]

end Range

theorem region_find_slot {regions : List VirRegion} {minv maxv length : Nat}
    (h : WellPlaced dataTop regions) (hpos : 0 < dataTop)
    (hdata : dataTop + pageSize < addressLimit) (hdvd : pageSize ∣ dataTop)
    (hmin_dvd : pageSize ∣ minv) (hmax_dvd : pageSize ∣ maxv)
    (hmin : minv < addressLimit) (hmax : maxv < addressLimit) (hlt : maxv = 0 ∨ minv < maxv)
    (hlen : 0 < length) (hlen_dvd : pageSize ∣ length) (hlen_lt : length < addressLimit)
    (hint : Nat) : SlotFound dataTop regions length minv (if maxv = 0 then minv + length else maxv)
      (regionFindSlot dataTop regions minv maxv length hint) ↔
    SlotCondition dataTop regions length minv maxv hint := by
  have hsearch {top : Nat} (hlt : minv < top) (htop : top ≤ addressLimit - pageSize) :=
    slotFound_iff h hpos hdata hdvd hlen htop hlen_dvd hlt
  obtain rfl | hne := Nat.eq_zero_or_pos maxv
  · simp only [regionFindSlot, SlotCondition, ne_eq, not_true, false_and, if_false, if_true,
      Nat.not_lt_zero, IsEmpty.forall_iff, implies_true, and_true, true_implies]
    obtain hfit | hover := Nat.lt_or_ge (minv + length) addressLimit
    · rw [regionFindSlotRange_here hfit hlen]
      have hle := le_sub_pageSize (Nat.dvd_add hmin_dvd hlen_dvd) hfit
      rw [hsearch (by omega) hle]
      exact ⟨fun hm _ => hm, fun hm => hm hfit⟩
    · rw [regionFindSlotRange_over hover hmin hlen_lt hlen]
      refine iff_of_true ?_ (fun hfit => absurd hfit (by omega))
      rintro ⟨a, ha, -, hle, -⟩
      omega
  have hlt : minv < maxv := by omega
  have hle := le_sub_pageSize hmax_dvd hmax
  simp only [SlotCondition, show ¬maxv = 0 by omega, if_false, IsEmpty.forall_iff, ne_eq,
    not_false_eq_true, true_implies, true_and]
  by_cases hhint : minv ≤ hint ∧ hint < maxv
  swap
  · rw [regionFindSlot, if_neg (by omega), hsearch hlt hle]
    exact ⟨fun hm => ⟨hm, fun h1 h2 => absurd ⟨h1, h2⟩ hhint⟩, fun hm => hm.1⟩
  obtain ⟨hmin', hmax'⟩ := hhint
  rw [regionFindSlot, if_pos ⟨by omega, hmax', hmin'⟩]
  simp only [hmin', hmax', true_implies]
  obtain rfl | hgt := Nat.eq_or_lt_of_le hmin'
  · obtain rfl | hne' := Nat.eq_zero_or_pos minv
    · rw [regionFindSlotRange_here (by omega) hlen, Nat.zero_add]
      have hnot : ¬Misled dataTop regions length 0 0 := by
        rintro ⟨-, -, hbad⟩
        omega
      obtain ⟨r, hr, hs⟩ := searched_regionFindSlotRange h hpos hdata hdvd hlen
        (le_sub_pageSize hlen_dvd hlen_lt) hlen_dvd hlen
      simp only [hr, hnot, not_false_eq_true, true_and, true_implies]
      cases hs with
      | found ha =>
        constructor
        · rintro ⟨-, hle', -⟩
          refine ⟨?_, fun _ => by omega⟩
          rintro ⟨-, hfits, -⟩
          exact hfits ⟨_, ha.1, hle', ha.2.2⟩
        · rintro ⟨-, hle'⟩
          have := hle' ⟨_, ha⟩
          exact ⟨ha.1, by omega, ha.2.2⟩
      | misled hmis =>
        have := hmis.2.2
        have := pageSize_pos
        omega
      | full hfits =>
        rw [hsearch hlt hle]
        exact ⟨fun hm => ⟨hm, fun hf => absurd hf hfits⟩, fun hm => hm.1⟩
    · rw [regionFindSlotRange_empty hlen hne']
      refine iff_of_false id ?_
      rintro ⟨-, -, hzero⟩
      exact absurd (hzero rfl).1 (by omega)
  · obtain ⟨r, hr, hs⟩ :=
      searched_regionFindSlotRange h hpos hdata hdvd hlen (by omega) hlen_dvd hgt
    simp only [hr]
    cases hs with
    | found ha =>
      refine iff_of_true ⟨ha.1, by omega, ha.2.2⟩ ⟨?_, ?_, fun heq => absurd heq (by omega)⟩
      · rintro ⟨-, hfits, -⟩
        exact hfits ⟨_, ha.1, by omega, ha.2.2⟩
      · rintro ⟨-, hfits, -⟩
        exact hfits ⟨_, ha⟩
    | misled hmis hmin'' hend =>
      refine iff_of_false ?_ fun hc => hc.2.1 hmis
      rintro ⟨h1, -, h2⟩
      exact hmis.2.1 ⟨_, h1, by omega, h2⟩
    | full hfits hmis =>
      rw [hsearch hlt hle]
      exact ⟨fun hm => ⟨hm, hmis, fun heq => absurd heq (by omega)⟩, fun hm => hm.1⟩

/-- One page at `vaddr`. -/
def onePage (vaddr : Nat) : VirRegion := ⟨vaddr, pageSize⟩

theorem onePage_placed (h : 0x2000 ≤ dataTop) : (onePage 0x1000).Placed dataTop :=
  ⟨⟨1, rfl⟩, ⟨1, rfl⟩, by decide, h⟩

theorem zeroPage_placed (h : 0x1000 ≤ dataTop) : (onePage 0).Placed dataTop :=
  ⟨⟨0, rfl⟩, ⟨1, rfl⟩, by decide, h⟩

theorem slot_above_one_page : SlotFound 0x10000 [onePage 0x1000] 0x1000 0x1000 0x10000
      (regionFindSlot 0x10000 [onePage 0x1000] 0x1000 0x10000 0x1000 0x2000) := by
  have hplaced : WellPlaced 0x10000 [onePage 0x1000] := by
    refine ⟨?_, by simp⟩
    rintro r hr
    obtain rfl := List.mem_singleton.mp hr
    exact onePage_placed (by decide)
  apply (region_find_slot hplaced (by decide) (by decide) ⟨16, rfl⟩ ⟨1, rfl⟩ ⟨16, rfl⟩ (by decide)
    (by decide) (.inr (by decide)) (by decide) ⟨1, rfl⟩ (by decide) 0x2000).mpr
  have hzero : ∀ top, ¬Misled 0x10000 [onePage 0x1000] 0x1000 0x1000 top := by
    rintro top ⟨⟨r, hr, hzero⟩, -⟩
    obtain rfl := List.mem_singleton.mp hr
    cases hzero
  refine ⟨fun h => absurd h (by decide), fun _ => hzero _, fun _ _ => ⟨hzero _, ?_⟩⟩
  exact fun h => absurd h (by decide)

/-- With a page at address 0 the search gives out the range of another region. A hint at the low end
of the range stops the server. -/
theorem slot_over_region : WellPlaced 0x10000 [onePage 0, onePage 0x1000] ∧
    regionFindSlot 0x10000 [onePage 0, onePage 0x1000] 0x1000 0 0x1000 0 = .ok (some 0x1000) ∧
    ¬Clear [onePage 0, onePage 0x1000] 0x1000 0x1000 ∧ WellPlaced 0x10000 [onePage 0] ∧
    regionFindSlot 0x10000 [onePage 0] 0x1000 0x10000 0x1000 0x1000 = .error .assertion := by
  refine ⟨⟨?_, ?_⟩, by decide +kernel, ?_, ⟨?_, by simp⟩, by decide +kernel⟩
  · rintro r hr
    obtain rfl | rfl : r = onePage 0 ∨ r = onePage 0x1000 := by simpa using hr
    · exact zeroPage_placed (by decide)
    · exact onePage_placed (by decide)
  · simp [VirRegion.limit, onePage, pageSize]
  · simp [Clear, VirRegion.limit, onePage, pageSize]
  · rintro r hr
    obtain rfl := List.mem_singleton.mp hr
    exact zeroPage_placed (by decide)

end Gergios.Vm
