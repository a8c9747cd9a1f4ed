import Mathlib.Data.List.GetD
import Mathlib.Tactic.Ring

/-!
# Physical region pages

How the driver describes the memory of a transfer to the controller, and how the controller reads
the description. The number of pages is computed from the length alone, without the offset of the
first byte in its page. Addresses do not wrap.
-/

namespace Gergios.Nvme

open List Nat

/-- `MAX_PRP_LIST`. -/
def prpListEntries : Nat := 512

def maxNamespaces : Nat := 32

/-- `PrpList::build` for a list buffer at the physical address `mem`: the second entry, the number
of pages and what is written to the buffer. -/
def build (mem : Option Nat) (dataPhys totalBytes pageSize : Nat) : Nat × Nat × List Nat :=
  let numPages := (totalBytes + pageSize - 1) / pageSize
  if numPages ≤ 1 then (0, 1, [])
  else
    let offsetInPage := dataPhys % pageSize
    let firstPageEnd := pageSize - offsetInPage
    if numPages = 2 ∧ totalBytes ≤ firstPageEnd + pageSize then (dataPhys + pageSize, 2, [])
    else
      match mem with
      | some phys =>
        let n := min (numPages - 1) prpListEntries
        let base := dataPhys + pageSize
        (phys, n + 1, (List.range n).map fun i => base + i * pageSize)
      | none => (0, 1, [])

/-- The controller as far as `io_transfer` reads it, and the quadwords of physical memory. -/
structure Driver where
  active : Bool
  nsBlockSize : Nat → Nat
  prpList : Option Nat
  pageShift : Nat
  mem : Nat → Nat
  /-- The supported sizes of memory pages. -/
  shift_ge : 12 ≤ pageShift
  shift_le : pageShift ≤ 27
  /-- `alloc_contig` returns whole pages of the host. -/
  list_aligned : ∀ phys ∈ prpList, 4096 ∣ phys

/-- `DPTR`, the two entries of a command. -/
structure DataPointer where
  prp1 : Nat
  prp2 : Nat

/-- A command as far as it says what memory is moved. -/
structure Command extends DataPointer where
  /-- The number of blocks less one, in the lower half. -/
  cdw12 : Nat

/-- The number of blocks that the controller moves. -/
def Command.blocks (c : Command) : Nat := c.cdw12 % 2 ^ 16 + 1

namespace Driver

variable (d : Driver)

def pageSize : Nat := 2 ^ d.pageShift

/-- The list in memory after it has been written. -/
def store (phys : Nat) (list : List Nat) (a : Nat) : Nat :=
  if phys ≤ a ∧ (a - phys) % 8 = 0 ∧ (a - phys) / 8 < list.length then list.getD ((a - phys) / 8) 0
  else d.mem a

/-- `io_transfer` up to the submission of the command, without metadata, which no caller passes: the
request is rejected, or there are a command and the memory it is read with. `nsid - 1` and
`count - 1` wrap. -/
def ioTransfer (nsid count dataPhys : Nat) : Option (Command × (Nat → Nat)) :=
  if d.active = false then none
  else
    let idx := (nsid + 2 ^ 32 - 1) % 2 ^ 32
    if maxNamespaces ≤ idx then none
    else
      let r := build d.prpList dataPhys (count * d.nsBlockSize idx) d.pageSize
      some (⟨⟨dataPhys, r.1⟩, (count + 2 ^ 32 - 1) % 2 ^ 32⟩, d.store r.1 r.2.2)

end Driver

/-! ## The rules for entries and lists -/

/-- The address of entry `k` of `n` entries in a list: where the page of the list has no room for
all that are left, its last quadword points to the next list. -/
def listEntryAddr (pageSize : Nat) (mem : Nat → Nat) : Nat → Nat → Nat → Nat → Nat
  | 0, list, _, k => list + 8 * k
  | fuel + 1, list, n, k =>
    let slots := (pageSize - list % pageSize) / 8
    if n ≤ slots ∨ k < slots - 1 then list + 8 * k
    else
      let next := mem (list + 8 * (slots - 1))
      listEntryAddr pageSize mem fuel next (n - (slots - 1)) (k - (slots - 1))

namespace DataPointer

variable (c : DataPointer) (pageSize : Nat) (mem : Nat → Nat) (len : Nat)

def first : Nat := min len (pageSize - c.prp1 % pageSize)

/-- The number of entries behind the first. -/
def entries : Nat := (len - c.first pageSize len + pageSize - 1) / pageSize

/-- The second entry is a list if it has to stand for more than one page. -/
def HasList : Prop := pageSize < len - c.first pageSize len

instance : Decidable (c.HasList pageSize len) := inferInstanceAs (Decidable (_ < _))

def entryAddr (k : Nat) : Nat :=
  listEntryAddr pageSize mem (c.entries pageSize len) c.prp2 (c.entries pageSize len) k

def entry (k : Nat) : Nat :=
  if c.HasList pageSize len then mem (c.entryAddr pageSize mem len k) else c.prp2

/-- Where byte `i` of the transfer is. -/
def byteAddr (i : Nat) : Nat :=
  if i < c.first pageSize len then c.prp1 + i
  else
    let j := i - c.first pageSize len
    c.entry pageSize mem len (j / pageSize) + j % pageSize

end DataPointer

/-- The entries stand for the `len` bytes from `addr`, those behind the first are aligned, and
their list lies in the buffer. -/
structure Describes (d : Driver) (c : DataPointer) (mem : Nat → Nat) (addr len : Nat) : Prop where
  bytes : ∀ i < len, c.byteAddr d.pageSize mem len i = addr + i
  aligned : ∀ k < c.entries d.pageSize len, d.pageSize ∣ c.entry d.pageSize mem len k
  within : c.HasList d.pageSize len → ∃ phys ∈ d.prpList, ∀ k < c.entries d.pageSize len,
    phys ≤ c.entryAddr d.pageSize mem len k ∧
    c.entryAddr d.pageSize mem len k + 8 ≤ phys + 8 * prpListEntries

/-- The transfer lies in one page, or it starts at a page and its entries fit. -/
def Straight (d : Driver) (addr len : Nat) : Prop :=
  addr % d.pageSize + len ≤ d.pageSize ∨
  addr % d.pageSize = 0 ∧ (len ≤ 2 * d.pageSize ∨
    d.prpList.isSome ∧ len ≤ (prpListEntries + 1) * d.pageSize)

section

variable {d : Driver} {addr len x : Nat} {mem : Nat → Nat} {n k phys : Nat}

theorem pageSize_pos (d : Driver) : 0 < d.pageSize := Nat.two_pow_pos _

theorem dvd_pageSize (d : Driver) : 4096 ∣ d.pageSize := Nat.pow_dvd_pow 2 d.shift_ge

theorem pages_le {ps : Nat} (hps : 0 < ps) : (n + ps - 1) / ps ≤ k ↔ n ≤ k * ps := by
  rw [← Nat.lt_succ_iff, Nat.div_lt_iff_lt_mul hps, succ_mul]
  omega

theorem first_eq : DataPointer.first ⟨addr, x⟩ d.pageSize len =
    min len (d.pageSize - addr % d.pageSize) := rfl

theorem Describes.of_one (h : addr % d.pageSize + len ≤ d.pageSize) :
    Describes d ⟨addr, x⟩ mem addr len := by
  have hfirst : DataPointer.first ⟨addr, x⟩ d.pageSize len = len := by
    rw [first_eq]
    omega
  have hentries : DataPointer.entries ⟨addr, x⟩ d.pageSize len = 0 := by
    rw [DataPointer.entries, hfirst, Nat.sub_self, Nat.zero_add]
    exact div_eq_of_lt (sub_lt (pageSize_pos d) Nat.one_pos)
  refine ⟨fun i hi => ?_, fun k hk => ?_, fun hlist => ?_⟩
  · rw [DataPointer.byteAddr, hfirst, if_pos hi]
  · rw [hentries] at hk
    exact absurd hk (Nat.not_lt_zero k)
  · rw [DataPointer.HasList, hfirst, Nat.sub_self] at hlist
    exact absurd hlist (Nat.not_lt_zero _)

/-- A transfer that starts at a page: every entry stands for the next page. -/
theorem Describes.of_entries (h : addr % d.pageSize = 0) (hgt : d.pageSize < len)
    (hentry : ∀ k < DataPointer.entries ⟨addr, x⟩ d.pageSize len,
      DataPointer.entry ⟨addr, x⟩ d.pageSize mem len k = addr + d.pageSize + k * d.pageSize)
    (hwithin : DataPointer.HasList ⟨addr, x⟩ d.pageSize len → ∃ phys ∈ d.prpList,
      ∀ k < DataPointer.entries ⟨addr, x⟩ d.pageSize len,
        phys ≤ DataPointer.entryAddr ⟨addr, x⟩ d.pageSize mem len k ∧
        DataPointer.entryAddr ⟨addr, x⟩ d.pageSize mem len k + 8 ≤ phys + 8 * prpListEntries) :
    Describes d ⟨addr, x⟩ mem addr len := by
  have hpos := pageSize_pos d
  have hfirst : DataPointer.first ⟨addr, x⟩ d.pageSize len = d.pageSize := by
    rw [first_eq]
    omega
  refine ⟨fun i hi => ?_, fun k hk => ?_, hwithin⟩
  · rw [DataPointer.byteAddr, hfirst]
    split
    · rfl
    have hk : (i - d.pageSize) / d.pageSize < DataPointer.entries ⟨addr, x⟩ d.pageSize len := by
      rw [DataPointer.entries]
      apply Nat.lt_of_not_le
      rw [pages_le hpos]
      have := div_mul_le_self (i - d.pageSize) d.pageSize
      omega
    have hdiv := div_add_mod (i - d.pageSize) d.pageSize
    rw [Nat.mul_comm] at hdiv
    simp only [hentry _ hk]
    omega
  · rw [hentry k hk]
    have haddr := Nat.dvd_add (dvd_of_mod_eq_zero h) (Nat.dvd_refl d.pageSize)
    exact Nat.dvd_add haddr (Nat.dvd_mul_left _ _)

theorem listEntryAddr_eq {ps fuel list : Nat}
    (h : n ≤ (ps - list % ps) / 8 ∨ k < (ps - list % ps) / 8 - 1) :
    listEntryAddr ps mem fuel list n k = list + 8 * k := by
  cases fuel with
  | zero => rfl
  | succ fuel => exact if_pos h

theorem le_slots (d : Driver) {list : Nat} (hlist : 4096 ∣ list) :
    prpListEntries ≤ (d.pageSize - list % d.pageSize) / 8 ∧
      512 ∣ (d.pageSize - list % d.pageSize) / 8 := by
  have hlt := mod_lt list (pageSize_pos d)
  have hdvd : 4096 ∣ d.pageSize - list % d.pageSize :=
    Nat.dvd_sub (dvd_pageSize d) ((dvd_mod_iff (dvd_pageSize d)).mpr hlist)
  obtain ⟨m, hm⟩ := hdvd
  have hm0 : 0 < m := Nat.pos_of_ne_zero fun h0 => by
    omega
  have hslots : 4096 * m / 8 = 512 * m := by omega
  rw [hm, hslots]
  exact ⟨Nat.le_mul_of_pos_right _ hm0, Nat.dvd_mul_right _ _⟩

theorem store_entry {list : List Nat} (hk : k < list.length) :
    d.store phys list (phys + 8 * k) = list.getD k 0 := by
  have hsub : phys + 8 * k - phys = 8 * k := Nat.add_sub_cancel_left _ _
  rw [Driver.store, hsub, mul_mod_right, Nat.mul_div_cancel_left _ (by decide : 0 < 8)]
  exact if_pos ⟨Nat.le_add_right _ _, rfl, hk⟩

variable {list : Option Nat}

theorem build_one (h : len ≤ d.pageSize) : build list addr len d.pageSize = (0, 1, []) :=
  if_pos ((pages_le (pageSize_pos d)).mpr (by rwa [Nat.one_mul]))

theorem build_eq (h : d.pageSize < len) : build list addr len d.pageSize =
    if len ≤ 2 * d.pageSize ∧ addr % d.pageSize + len ≤ 2 * d.pageSize then
      (addr + d.pageSize, 2, []) else match list with
      | some phys => (phys, min ((len + d.pageSize - 1) / d.pageSize - 1) prpListEntries + 1,
          (List.range (min ((len + d.pageSize - 1) / d.pageSize - 1) prpListEntries)).map
            fun i => addr + d.pageSize + i * d.pageSize)
      | none => (0, 1, []) := by
  have hone : ¬(len + d.pageSize - 1) / d.pageSize ≤ 1 := by
    rw [pages_le (pageSize_pos d)]
    omega
  have htwo : (len + d.pageSize - 1) / d.pageSize = 2 ∧
      len ≤ d.pageSize - addr % d.pageSize + d.pageSize ↔
      len ≤ 2 * d.pageSize ∧ addr % d.pageSize + len ≤ 2 * d.pageSize := by
    rw [← pages_le (pageSize_pos d)]
    omega
  simp only [build, if_neg hone, htwo]

theorem store_build (hgt : d.pageSize < len) (hk : k < prpListEntries)
    (hlen : (k + 1) * d.pageSize < len)
    (hbuild : ¬(len ≤ 2 * d.pageSize ∧ addr % d.pageSize + len ≤ 2 * d.pageSize)) :
    d.store phys (build (some phys) addr len d.pageSize).2.2 (phys + 8 * k) =
      addr + d.pageSize + k * d.pageSize := by
  have hpages : ¬(len + d.pageSize - 1) / d.pageSize ≤ k + 1 := by
    rw [pages_le (pageSize_pos d)]
    omega
  have hn : k < min ((len + d.pageSize - 1) / d.pageSize - 1) prpListEntries := by omega
  rw [build_eq hgt, if_neg hbuild, store_entry (by rwa [length_map, length_range])]
  rw [getD_eq_getElem?_getD, getElem?_map, getElem?_range hn]
  rfl

theorem store_build_zero (hgt : d.pageSize < len)
    (hbuild : ¬(len ≤ 2 * d.pageSize ∧ addr % d.pageSize + len ≤ 2 * d.pageSize)) :
    d.store phys (build (some phys) addr len d.pageSize).2.2 phys = addr + d.pageSize := by
  simpa only [Nat.mul_zero, Nat.zero_mul, Nat.add_zero] using
    store_build (k := 0) hgt (by decide) (by omega) hbuild

/-- The command that `io_transfer` makes for the bytes. -/
abbrev Driver.Right (d : Driver) (addr len : Nat) : Prop :=
  Describes d ⟨addr, (build d.prpList addr len d.pageSize).1⟩
    (d.store (build d.prpList addr len d.pageSize).1 (build d.prpList addr len d.pageSize).2.2)
    addr len

theorem Straight.right (h : Straight d addr len) : d.Right addr len := by
  have hpos := pageSize_pos d
  rcases Nat.lt_or_ge d.pageSize len with hgt | hle
  · rcases h with hone | ⟨hoff, hlen⟩
    · exact Describes.of_one hone
    have hfirst : ∀ x, DataPointer.first ⟨addr, x⟩ d.pageSize len = d.pageSize := fun x => by
      rw [first_eq]
      omega
    by_cases htwo : len ≤ 2 * d.pageSize
    · have hbuild : len ≤ 2 * d.pageSize ∧ addr % d.pageSize + len ≤ 2 * d.pageSize := by omega
      have hlist : ∀ x, ¬DataPointer.HasList ⟨addr, x⟩ d.pageSize len := fun x => by
        rw [DataPointer.HasList, hfirst]
        omega
      apply Describes.of_entries hoff hgt
      · intro k hk
        have hk0 : k = 0 := by
          rw [DataPointer.entries, hfirst] at hk
          have := (pages_le (n := len - d.pageSize) (k := 1) hpos).mpr (by omega)
          omega
        rw [DataPointer.entry, if_neg (hlist _), build_eq hgt, if_pos hbuild, hk0, Nat.zero_mul]
        rfl
      · exact fun h => absurd h (hlist _)
    · obtain ⟨hsome, hmax⟩ := hlen.resolve_left htwo
      obtain ⟨phys, hphys⟩ := Option.isSome_iff_exists.mp hsome
      have hslots := (le_slots d (d.list_aligned phys hphys)).1
      have hbuild : ¬(len ≤ 2 * d.pageSize ∧ addr % d.pageSize + len ≤ 2 * d.pageSize) := by omega
      have hprp2 : (build (some phys) addr len d.pageSize).1 = phys := by
        rw [build_eq hgt, if_neg hbuild]
      have hentries : DataPointer.entries ⟨addr, phys⟩ d.pageSize len ≤ prpListEntries := by
        rw [DataPointer.entries, hfirst, pages_le hpos]
        rw [succ_mul] at hmax
        omega
      have haddr : ∀ mem k,
          DataPointer.entryAddr ⟨addr, phys⟩ d.pageSize mem len k = phys + 8 * k :=
        fun mem k => listEntryAddr_eq (.inl (Nat.le_trans hentries hslots))
      rw [Driver.Right, hphys, hprp2]
      apply Describes.of_entries hoff hgt
      · intro k hk
        have hlist : DataPointer.HasList ⟨addr, phys⟩ d.pageSize len := by
          rw [DataPointer.HasList, hfirst]
          omega
        have hk' := Nat.lt_of_lt_of_le hk hentries
        rw [DataPointer.entry, if_pos hlist, haddr, store_build hgt hk' _ hbuild]
        apply Nat.lt_of_not_le
        intro hno
        have : DataPointer.entries ⟨addr, phys⟩ d.pageSize len ≤ k := by
          rw [DataPointer.entries, hfirst, pages_le hpos]
          rw [succ_mul] at hno
          omega
        omega
      · refine fun _ => ⟨phys, hphys, fun k hk => ?_⟩
        rw [haddr]
        omega
  · have hone : addr % d.pageSize + len ≤ d.pageSize := by
      rcases h with hone | ⟨hoff, -⟩ <;> omega
    exact Describes.of_one hone

/-- The entry behind the first has to be the next page. -/
theorem Describes.entry_zero (h : Describes d ⟨addr, x⟩ mem addr len)
    (hlen : d.pageSize < addr % d.pageSize + len) :
    DataPointer.entry ⟨addr, x⟩ d.pageSize mem len 0 = addr + (d.pageSize - addr % d.pageSize) := by
  have hmod := mod_lt addr (pageSize_pos d)
  have hfirst : DataPointer.first ⟨addr, x⟩ d.pageSize len = d.pageSize - addr % d.pageSize := by
    rw [first_eq]
    omega
  have hbyte := h.bytes (d.pageSize - addr % d.pageSize) (by omega)
  simpa only [DataPointer.byteAddr, hfirst, Nat.lt_irrefl, if_false, Nat.sub_self, zero_mod,
    Nat.zero_div, Nat.add_zero] using hbyte

theorem hasList_iff (hlen : d.pageSize < addr % d.pageSize + len) :
    DataPointer.HasList ⟨addr, x⟩ d.pageSize len ↔ 2 * d.pageSize < addr % d.pageSize + len := by
  have hmod := mod_lt addr (pageSize_pos d)
  rw [DataPointer.HasList, first_eq]
  omega

theorem listEntryAddr_zero {fuel : Nat} (hphys : 4096 ∣ phys) :
    listEntryAddr d.pageSize mem fuel phys n 0 = phys := by
  have hslots := (le_slots d hphys).1
  rw [prpListEntries] at hslots
  rw [listEntryAddr_eq (.inr (by omega)), Nat.add_zero]

/-- With an offset, the entry behind the first is 0 or a page too far. -/
theorem Driver.Right.aligned_addr (h : d.Right addr len)
    (hlen : d.pageSize < addr % d.pageSize + len) : addr % d.pageSize = 0 := by
  have hmod := mod_lt addr (pageSize_pos d)
  have hentry := h.entry_zero hlen
  rcases Nat.lt_or_ge d.pageSize len with hgt | hle
  · by_cases hbuild : len ≤ 2 * d.pageSize ∧ addr % d.pageSize + len ≤ 2 * d.pageSize
    · rw [DataPointer.entry, if_neg (by rw [hasList_iff hlen]; omega), build_eq hgt, if_pos hbuild]
        at hentry
      simp only at hentry
      omega
    · have hlist : ∀ x, DataPointer.HasList ⟨addr, x⟩ d.pageSize len := fun x => by
        rw [hasList_iff hlen]
        omega
      obtain ⟨phys, hphys, -⟩ := h.within (hlist _)
      have hprp2 : (build d.prpList addr len d.pageSize).1 = phys := by
        rw [hphys, build_eq hgt, if_neg hbuild]
      rw [hprp2, hphys, DataPointer.entry, if_pos (hlist _), DataPointer.entryAddr,
        listEntryAddr_zero (d.list_aligned phys hphys), store_build_zero hgt hbuild] at hentry
      omega
  · rw [DataPointer.entry, if_neg (by rw [hasList_iff hlen]; omega), build_one hle] at hentry
    simp only at hentry
    omega

/-- Where a list of one page is too short, its last quadword is taken for the address of a further
list. -/
theorem listEntryAddr_chain (hoff : addr % d.pageSize = 0)
    (hslots : (d.pageSize - phys % d.pageSize) / 8 = 512) (hn : 512 < n)
    (hlen : 512 * d.pageSize < len) :
    listEntryAddr d.pageSize (d.store phys (build (some phys) addr len d.pageSize).2.2) n phys n
      511 = addr + d.pageSize + 511 * d.pageSize := by
  obtain ⟨fuel, rfl⟩ : ∃ fuel, n = fuel + 1 := ⟨n - 1, by omega⟩
  have hdvd : 4096 ∣ addr + d.pageSize + 511 * d.pageSize := by
    have hps := dvd_pageSize d
    have haddr := Nat.dvd_trans hps (dvd_of_mod_eq_zero hoff)
    omega
  rw [listEntryAddr, hslots, if_neg (by omega),
    store_build (by omega) (by decide) hlen (by omega), listEntryAddr_zero hdvd]

theorem Driver.Right.le_entries (h : d.Right addr len) (hoff : addr % d.pageSize = 0)
    (hgt : 2 * d.pageSize < len) : d.prpList.isSome ∧ len ≤ (prpListEntries + 1) * d.pageSize := by
  have hpos := pageSize_pos d
  have hlist : ∀ x, DataPointer.HasList ⟨addr, x⟩ d.pageSize len := fun x => by
    rw [hasList_iff (by omega)]
    omega
  obtain ⟨phys, hphys, hwithin⟩ := h.within (hlist _)
  refine ⟨by rw [hphys]; rfl, ?_⟩
  by_contra hlong
  rw [prpListEntries] at hlong
  have hbuild : ¬(len ≤ 2 * d.pageSize ∧ addr % d.pageSize + len ≤ 2 * d.pageSize) := by omega
  have hprp2 : (build d.prpList addr len d.pageSize).1 = phys := by
    rw [hphys, build_eq (by omega), if_neg hbuild]
  have hfirst : DataPointer.first ⟨addr, phys⟩ d.pageSize len = d.pageSize := by
    rw [first_eq]
    omega
  have hentries : 512 < DataPointer.entries ⟨addr, phys⟩ d.pageSize len := by
    apply Nat.lt_of_not_le
    rw [DataPointer.entries, pages_le hpos]
    omega
  have hdiv : (512 * d.pageSize - d.pageSize) / d.pageSize = 511 := by
    rw [← Nat.sub_one_mul, Nat.mul_div_cancel _ hpos]
  have hbyte := h.bytes (512 * d.pageSize) (by omega)
  rw [hprp2, hphys] at hwithin hbyte
  simp only [DataPointer.byteAddr, hfirst, if_neg (by omega : ¬512 * d.pageSize < d.pageSize), hdiv,
    DataPointer.entry, if_pos (hlist _)] at hbyte
  simp only [DataPointer.entryAddr] at hwithin hbyte
  obtain ⟨hslots, m, hm⟩ := le_slots d (d.list_aligned phys hphys)
  rw [prpListEntries] at hwithin hslots
  by_cases hm1 : m = 1
  · have hchain := listEntryAddr_chain hoff (by omega : (d.pageSize - phys % d.pageSize) / 8 = 512)
      hentries (by omega : 512 * d.pageSize < len)
    have hnext := hwithin 511 (by omega)
    rw [hchain] at hnext hbyte
    -- The further list starts in the buffer only where the buffer does, at its first entry.
    have hstart : addr + d.pageSize + 511 * d.pageSize = phys := by
      have hps := dvd_pageSize d
      have haddr := Nat.dvd_trans hps (dvd_of_mod_eq_zero hoff)
      have hlist := d.list_aligned phys hphys
      omega
    rw [hstart, store_build_zero (by omega) hbuild, ← Nat.sub_one_mul, mul_mod_left] at hbyte
    omega
  · have hnext := (hwithin 512 hentries).2
    rw [listEntryAddr_eq (.inr (by omega))] at hnext
    omega

theorem right_iff : d.Right addr len ↔ Straight d addr len := by
  refine ⟨fun h => ?_, Straight.right⟩
  rcases Nat.lt_or_ge d.pageSize (addr % d.pageSize + len) with hmore | hone
  · have hoff := h.aligned_addr hmore
    rcases Nat.lt_or_ge (2 * d.pageSize) len with hgt | hle
    · exact .inr ⟨hoff, .inr (h.le_entries hoff hgt)⟩
    · exact .inr ⟨hoff, .inl hle⟩
  · exact .inl hone

end

theorem blocks_eq_iff (p : DataPointer) (count : Nat) :
    Command.blocks ⟨p, (count + 2 ^ 32 - 1) % 2 ^ 32⟩ = count ↔ 1 ≤ count ∧ count ≤ 2 ^ 16 := by
  simp only [Command.blocks]
  omega

/-- Every command that `io_transfer` submits moves the blocks of the request to or from its buffer
exactly where the request is rejected, or its number of blocks can be stored and the buffer lies in
one page, or starts at a page and the list has room for its pages. -/
theorem ioTransfer_describes_iff (d : Driver) (nsid count addr : Nat) :
    (∀ c mem, d.ioTransfer nsid count addr = some (c, mem) → c.blocks = count ∧
      Describes d c.toDataPointer mem addr
        (count * d.nsBlockSize ((nsid + 2 ^ 32 - 1) % 2 ^ 32))) ↔
    (d.active = false ∨ maxNamespaces ≤ (nsid + 2 ^ 32 - 1) % 2 ^ 32) ∨
      (1 ≤ count ∧ count ≤ 2 ^ 16) ∧
      Straight d addr (count * d.nsBlockSize ((nsid + 2 ^ 32 - 1) % 2 ^ 32)) := by
  rw [← right_iff, Driver.ioTransfer]
  generalize (nsid + 2 ^ 32 - 1) % 2 ^ 32 = idx
  by_cases hactive : d.active = false
  · rw [if_pos hactive]
    exact ⟨fun _ => .inl (.inl hactive), fun _ c mem h => nomatch h⟩
  rw [if_neg hactive]
  by_cases hidx : maxNamespaces ≤ idx
  · rw [if_pos hidx]
    exact ⟨fun _ => .inl (.inr hidx), fun _ c mem h => nomatch h⟩
  rw [if_neg hidx]
  constructor
  · intro h
    obtain ⟨hcount, hright⟩ := h _ _ rfl
    exact .inr ⟨(blocks_eq_iff _ count).mp hcount, hright⟩
  · rintro ((h | h) | ⟨hcount, hright⟩) c mem hsome
    · exact absurd h hactive
    · exact absurd h hidx
    · cases hsome
      exact ⟨(blocks_eq_iff _ count).mpr hcount, hright⟩

/-- A transfer of one page that starts in the middle of a page: its second half goes to page 0. -/
theorem unaligned_transfer_reaches_page_zero :
    ∃ d : Driver, d.pageSize = 4096 ∧ ∃ c mem, d.ioTransfer 1 8 0x1800 = some (c, mem) ∧
      c.blocks = 8 ∧ 8 * d.nsBlockSize 0 = 4096 ∧ c.byteAddr d.pageSize mem 4096 2048 = 0 ∧
      ¬Describes d c.toDataPointer mem 0x1800 4096 := by
  let d : Driver := ⟨true, fun _ => 512, some 0x100000, 12, fun _ => 0, by decide, by decide,
    fun phys h => by cases h; decide⟩
  have hps : d.pageSize = 4096 := rfl
  have hbuild : build d.prpList 0x1800 (8 * 512) d.pageSize = (0, 1, []) := build_one (by decide)
  have hio : d.ioTransfer 1 8 0x1800 = some (⟨⟨0x1800, 0⟩, 7⟩, d.store 0 []) := by
    simp only [Driver.ioTransfer, hbuild, d]
    rw [if_neg (by decide), if_neg (by decide)]
    rfl
  have hbyte : DataPointer.byteAddr ⟨0x1800, 0⟩ d.pageSize (d.store 0 []) 4096 2048 = 0 := by
    decide +kernel
  refine ⟨d, hps, ⟨⟨0x1800, 0⟩, 7⟩, d.store 0 [], hio, rfl, rfl, hbyte, fun h => ?_⟩
  have := h.bytes 2048 (by decide)
  rw [hbyte] at this
  cases this

end Gergios.Nvme
