import Gergios.Vm.Alloc

/-!
# What the page allocator gives out

A search takes the highest run of free pages below its limit. On a machine with 64-bit addresses a
search that fails is not noticed as such: the second search never runs, and for one page the server
stores outside of the map.
-/

namespace Gergios.Vm

open List Nat

/-- The `n` pages from `m` are free. -/
def IsRun (free : Nat → Bool) (n m : Nat) : Prop := ∀ i, m ≤ i → i < m + n → free i = true

def HasRun (free : Nat → Bool) (n top : Nat) : Prop := ∃ m, m + n ≤ top ∧ IsRun free n m

/-- The highest run below `top`. -/
structure TopRun (free : Nat → Bool) (n top m : Nat) : Prop where
  le : m + n ≤ top
  run : IsRun free n m
  highest : ∀ m', m < m' → m' + n ≤ top → ¬IsRun free n m'

section Search

variable {free : Nat → Bool} {n i top : Nat} {m : Nat} {pages : Int}

theorem chunkSkip_le (free : Nat → Bool) (c : Nat) : chunkSkip free c ≤ c := by
  induction c with
  | zero => exact Nat.le_refl 0
  | succ c ih =>
    rw [chunkSkip]
    split <;> omega

theorem chunkSkip_empty {c : Nat} (hlow : (chunkSkip free c + 1) * bitchunkBits ≤ i)
    (hhigh : i < (c + 1) * bitchunkBits) : free i = false := by
  induction c with
  | zero =>
    have : chunkSkip free 0 = 0 := rfl
    rw [this] at hlow
    omega
  | succ c ih =>
    rw [chunkSkip] at hlow
    split at hlow
    · rename_i hempty
      obtain hlt | hge := Nat.lt_or_ge i ((c + 1) * bitchunkBits)
      · exact ih hlow hlt
      · have hk := all_eq_true.mp hempty (i - (c + 1) * bitchunkBits) (by
          rw [List.mem_range]
          rw [succ_mul] at hhigh
          omega)
        rw [Nat.add_sub_cancel' hge] at hk
        simpa using hk
    · omega

theorem IsRun.avoids (h : IsRun free n m) (hi : free i = false) : i < m ∨ m + n ≤ i := by
  by_contra hin
  have := h i (by omega) (by omega)
  rw [hi] at this
  cases this

theorem findbitLoop_skip (hi : free i = false) (pages : Int) (fuel run : Nat) :
    ∃ next ≤ i, (∀ j, next ≤ j → j ≤ i → free j = false) ∧
      findbitLoop free pages (fuel + 1) (i + 1) run = findbitLoop free pages fuel next 0 := by
  have hle := chunkSkip_le free (i / bitchunkBits)
  have hmul := div_add_mod i bitchunkBits
  have hmod : i % bitchunkBits < bitchunkBits := mod_lt _ (by decide)
  rw [Nat.mul_comm bitchunkBits] at hmul
  rw [findbitLoop, if_neg (by simp [hi])]
  by_cases hmoved : chunkSkip free (i / bitchunkBits) = i / bitchunkBits
  · simp only [if_pos hmoved]
    refine ⟨i, Nat.le_refl i, fun j h1 h2 => ?_, rfl⟩
    obtain rfl : i = j := by omega
    exact hi
  · simp only [if_neg hmoved]
    have hchunk : (chunkSkip free (i / bitchunkBits) + 1) * bitchunkBits ≤
        i / bitchunkBits * bitchunkBits := Nat.mul_le_mul_right _ (by omega)
    refine ⟨_, ?_, fun j h1 h2 => ?_, rfl⟩
    · rw [succ_mul] at hchunk
      omega
    · apply chunkSkip_empty
      · rwa [succ_mul]
      · rw [succ_mul]
        omega

/-- How a search below `top` ends. -/
inductive Scanned (free : Nat → Bool) (n top : Nat) : Except Stop (Option Nat) → Prop
  | found {m : Nat} (h : TopRun free n top m) : Scanned free n top (.ok (some m))
  | none (h : ¬HasRun free n top) : Scanned free n top (.ok none)

theorem Scanned.mono {next : Nat} {r : Except Stop (Option Nat)} (h : Scanned free n next r)
    (hle : next ≤ top) (hdown : ∀ m, m + n ≤ top → IsRun free n m → m + n ≤ next) :
    Scanned free n top r := by
  cases h with
  | found h =>
    refine .found ⟨Nat.le_trans h.le hle, h.run, fun m' h1 h2 hr => ?_⟩
    exact h.highest m' h1 (hdown m' h2 hr) hr
  | none h => exact .none fun ⟨m, hm, hr⟩ => h ⟨m, hdown m hm hr, hr⟩

theorem scanned_findbitLoop (free : Nat → Bool) (hn : 1 ≤ n) (fuel left run : Nat)
    (hfuel : left ≤ fuel) (hrun : IsRun free run left) (hlt : run < n) :
    Scanned free n (left + run) (findbitLoop free n fuel left run) := by
  -- the `run` pages above those that are left are free, and too few
  induction fuel generalizing left run with
  | zero =>
    obtain rfl := Nat.le_zero.mp hfuel
    exact .none fun ⟨m, hm, _⟩ => by omega
  | succ fuel ih =>
    cases left with
    | zero => exact .none fun ⟨m, hm, _⟩ => by omega
    | succ i =>
      by_cases hi : free i = true
      · rw [findbitLoop, if_pos hi, if_neg (by omega)]
        have hrun' : IsRun free (run + 1) i := by
          intro j h1 h2
          obtain rfl | h1 := Nat.eq_or_lt_of_le h1
          · exact hi
          · exact hrun j h1 (by omega)
        by_cases hdone : run + 1 = n
        · rw [if_pos (by omega)]
          exact .found ⟨by omega, hdone ▸ hrun', fun m' h1 h2 => by omega⟩
        · rw [if_neg (by omega), Nat.add_right_comm]
          exact ih i (run + 1) (by omega) hrun' (by omega)
      · have hi' : free i = false := by simpa using hi
        obtain ⟨next, hnext, hempty, hloop⟩ := findbitLoop_skip hi' n fuel run
        rw [hloop]
        apply (ih next 0 (by omega) (fun j h1 h2 => absurd h2 (by omega)) (by omega)).mono
        · omega
        · intro m hm hr
          by_contra hgt
          have := hr.avoids (hempty (min i (m + n - 1)) (by omega) (by omega))
          omega

theorem findbitLoop_bogus (free : Nat → Bool) (hpages : pages ≤ 0)
    (fuel left : Nat) (hfuel : left ≤ fuel) :
    (findbitLoop free pages fuel left 0 = .error .assertion ∧ ∃ i < left, free i = true) ∨
      findbitLoop free pages fuel left 0 = .ok none ∧ ∀ i < left, free i = false := by
  induction fuel generalizing left with
  | zero =>
    obtain rfl := Nat.le_zero.mp hfuel
    exact .inr ⟨rfl, fun i hi => by omega⟩
  | succ fuel ih =>
    cases left with
    | zero => exact .inr ⟨rfl, fun i hi => by omega⟩
    | succ i =>
      by_cases hi : free i = true
      · left
        rw [findbitLoop, if_pos hi, if_pos (by simp; omega)]
        exact ⟨rfl, i, lt_succ_self i, hi⟩
      · have hi' : free i = false := by simpa using hi
        obtain ⟨next, hnext, hempty, hloop⟩ := findbitLoop_skip hi' pages fuel 0
        rw [hloop]
        obtain ⟨hloop, j, hj, hfree⟩ | ⟨hloop, hnone⟩ := ih next (by omega)
        · left
          exact ⟨hloop, j, by omega, hfree⟩
        · right
          refine ⟨hloop, fun j hj => ?_⟩
          obtain hlt | hge := Nat.lt_or_ge j next
          · exact hnone j hlt
          · exact hempty j hge (by omega)

end Search

/-! ### One call of `alloc_pages` -/

section Pages

variable {memsetOk : Nat → Nat → Bool} {flags : AllocFlags} {s : Pages} {n : Nat}

def Hit (n : Nat) (flags : AllocFlags) (s : Pages) : Prop :=
  ¬flags.lower16mb ∧ ¬flags.lower1mb ∧ n = 1 ∧ ∃ i ∈ s.freePageCache, s.free i = true

def searchTop (flags : AllocFlags) (lastscan : Int) : Nat := startscan flags lastscan + 1

theorem popFree_cases (free : Nat → Bool) (cache : List Nat) :
    (∃ i, (popFree free cache).1 = some i ∧ i ∈ cache ∧ free i = true) ∨
      (popFree free cache).1 = none ∧ ∀ i ∈ cache, free i = false := by
  induction cache with
  | nil => simp [popFree]
  | cons i rest ih =>
    rw [popFree]
    by_cases hi : free i = true
    · left
      rw [if_pos hi]
      exact ⟨i, rfl, mem_cons_self, hi⟩
    · rw [if_neg hi]
      obtain ⟨j, hj, hmem, hfree⟩ | ⟨hnone, hall⟩ := ih
      · left
        exact ⟨j, hj, mem_cons_of_mem _ hmem, hfree⟩
      · right
        refine ⟨hnone, fun j hj => ?_⟩
        obtain rfl | hj := mem_cons.mp hj
        · simpa using hi
        · exact hall j hj

theorem maxpage_lt (flags : AllocFlags) : maxpage flags < numberPhysicalPages := by
  unfold maxpage pageSize numberPhysicalPages
  split
  · decide
  · split <;> decide

theorem startscan_le (flags : AllocFlags) (lastscan : Int) :
    startscan flags lastscan ≤ maxpage flags := by
  unfold startscan
  split <;> omega

theorem popCached_cases (n : Nat) (flags : AllocFlags) (s : Pages) :
    (∃ i ∈ s.freePageCache, (popCached n flags s).1 = some i ∧ Hit n flags s ∧ s.free i = true) ∨
      (popCached n flags s).1 = none ∧ ¬Hit n flags s := by
  unfold popCached
  split
  · rename_i hlimit
    right
    refine ⟨rfl, ?_⟩
    rintro ⟨h1, h2, rfl, -⟩
    obtain h | h | h := hlimit
    · exact h1 h
    · exact h2 h
    · exact h rfl
  · rename_i hlimit
    simp only [not_or] at hlimit
    obtain ⟨i, hi, hmem, hfree⟩ | ⟨hnone, hall⟩ := popFree_cases s.free s.freePageCache
    · left
      exact ⟨i, hmem, hi, ⟨hlimit.1, hlimit.2.1, by omega, i, hmem, hfree⟩, hfree⟩
    · right
      refine ⟨hnone, ?_⟩
      rintro ⟨-, -, -, i, hi, hfree⟩
      rw [hall i hi] at hfree
      cases hfree

theorem popFree_subset (free : Nat → Bool) (cache : List Nat) : (popFree free cache).2 ⊆ cache := by
  induction cache with
  | nil => exact List.Subset.refl _
  | cons i rest ih =>
    rw [popFree]
    split
    · exact subset_cons_self i rest
    · exact subset_cons_of_subset i ih

theorem popCached_subset (pages : Int) (flags : AllocFlags) (s : Pages) :
    (popCached pages flags s).2 ⊆ s.freePageCache := by
  unfold popCached
  split
  · exact List.Subset.refl _
  · exact popFree_subset s.free s.freePageCache

theorem searchPages_cases (flags : AllocFlags) (hn : 1 ≤ n)
    (hcache : ∀ i ∈ s.freePageCache, i < numberPhysicalPages) :
    (∃ m cache, searchPages n flags s = .ok (m, cache) ∧ m + n ≤ maxpage flags + 1 ∧
      IsRun s.free n m ∧ (Hit n flags s ∨ TopRun s.free n (searchTop flags s.lastscan) m)) ∨
    (∃ cache ⊆ s.freePageCache, searchPages n flags s = .ok (addressLimit - 2, cache) ∧
      ¬Hit n flags s ∧ ¬HasRun s.free n (searchTop flags s.lastscan)) := by
  have hmax := maxpage_lt flags
  have hstart := startscan_le flags s.lastscan
  have hsize : numberPhysicalPages < noMem := by decide
  obtain ⟨i, hmem, hpop, hhit, hfree⟩ | ⟨hpop, hhit⟩ := popCached_cases n flags s
  · left
    refine ⟨i, (popCached n flags s).2, by simp only [searchPages, hpop], ?_, ?_, .inl hhit⟩
    · have := hcache i hmem
      have hone := hhit.2.2.1
      rw [maxpage, if_neg hhit.1, if_neg hhit.2.1]
      omega
    · intro j h1 h2
      obtain rfl : i = j := by have := hhit.2.2.1; omega
      exact hfree
  have hscan := scanned_findbitLoop s.free hn (startscan flags s.lastscan + 1) _ 0 (Nat.le_refl _)
    (fun j h1 h2 => absurd h2 (by omega)) (by omega)
  generalize hloop : findbitLoop s.free n _ _ 0 = r at hscan
  cases hscan with
  | @found m htop =>
    left
    have hle := htop.le
    refine ⟨m, (popCached n flags s).2, ?_, by omega, htop.run, .inr htop⟩
    simp only [searchPages, hpop, findbit, hloop, if_neg (show ¬m = noMem by omega)]
  | none hnone =>
    right
    refine ⟨(popCached n flags s).2, popCached_subset _ _ _, ?_, hhit, hnone⟩
    simp only [searchPages, hpop, findbit, hloop, if_neg (show ¬addressLimit - 2 = noMem by decide)]

/-- `s` with the pages from `m` taken. -/
def Pages.take (s : Pages) (m n : Nat) (cache : List Nat) : Pages :=
  { s with
    free := fun i => s.free i && !(decide (m ≤ i) && decide (i < m + n))
    freePageCache := cache
    lastscan := m }

def StrayMemset (memsetOk : Nat → Nat → Bool) (flags : AllocFlags) (pages : Int) : Prop :=
  flags.clear = true ∧ memsetOk (wrap (pageSize * (addressLimit - 2)))
    ((pageSize * pages) % (addressLimit : Int)).toNat = false

instance {memsetOk : Nat → Nat → Bool} {flags : AllocFlags} :
    Decidable (StrayMemset memsetOk flags pages) := inferInstanceAs (Decidable (_ ∧ _))

def ClearsMemory (memsetOk : Nat → Nat → Bool) : Prop :=
  ∀ m n, m + n ≤ numberPhysicalPages → memsetOk (pageSize * m) (pageSize * n) = true

theorem allocPages_found (hclear : ClearsMemory memsetOk)
    (hsearch : searchPages n flags s = .ok (m, cache)) (hle : m + n ≤ numberPhysicalPages) :
    allocPages memsetOk n flags s = if ClearOverflows n flags then .error .overflow
      else .ok (m, s.take m n cache) := by
  have hsize : numberPhysicalPages = 2 ^ 20 := rfl
  have hmod : ((m + n : Int) % (addressLimit : Int)).toNat = m + n := by
    unfold addressLimit
    omega
  have hlen : ((pageSize * n : Int) % (addressLimit : Int)).toNat = pageSize * n := by
    unfold addressLimit pageSize
    omega
  have haddr : wrap (pageSize * m) = pageSize * m := by
    unfold wrap addressLimit pageSize
    omega
  have hlast : toInt32 m = m := by
    unfold toInt32
    omega
  have hne : ¬m = noMem := by
    unfold noMem
    omega
  have hstray : ¬(numberPhysicalPages ≤ m ∧ m < m + n) := by omega
  simp only [allocPages, hsearch, if_neg hne, hmod, if_neg hstray, hlen, haddr, hclear m n hle,
    Bool.true_eq_false, and_false, hlast]
  rfl

theorem allocPages_failed (memsetOk : Nat → Nat → Bool) (hpages : pages ≠ 1)
    (hlow : -2 ^ 31 ≤ pages) (hhigh : pages < 2 ^ 31)
    (hsearch : searchPages pages flags s = .ok (addressLimit - 2, cache)) :
    allocPages memsetOk pages flags s = if ClearOverflows pages flags then .error .overflow
      else if StrayMemset memsetOk flags pages then .error .panic
      else .ok (addressLimit - 2, { s with freePageCache := cache, lastscan := -2 }) := by
  have hout (i : Nat) : ¬(addressLimit - 2 ≤ i ∧
      i < (((addressLimit - 2 : Nat) + pages) % (addressLimit : Int)).toNat) := by
    unfold addressLimit
    omega
  have hstray : ¬(numberPhysicalPages ≤ addressLimit - 2 ∧ addressLimit - 2 <
      (((addressLimit - 2 : Nat) + pages) % (addressLimit : Int)).toNat) :=
    fun h => hout _ ⟨Nat.le_refl _, h.2⟩
  simp only [allocPages, hsearch, if_neg hstray, ← Bool.decide_and, decide_eq_false (hout _),
    Bool.not_false, Bool.and_true]
  rfl

theorem clearOverflows_iff : ClearOverflows n flags ↔ flags.clear = true ∧ 2 ^ 19 ≤ n := by
  unfold ClearOverflows pageSize
  refine and_congr_right fun _ => ?_
  omega

theorem allocPages_one (hsearch : searchPages 1 flags s = .ok (addressLimit - 2, cache)) :
    allocPages memsetOk 1 flags s = .error .stray := by
  simp only [allocPages, hsearch, if_neg (show ¬addressLimit - 2 = noMem by decide)]
  exact if_pos (by decide)

end Pages

/-! ### Evictions -/

def evictable (lru : List CachedPage) : List Nat :=
  (lru.filter (·.refcount = 1)).map (·.page)

/-- The cache without the `k` oldest of them. -/
def keepPages : Nat → List CachedPage → List CachedPage
  | 0, lru => lru
  | _ + 1, [] => []
  | k + 1, cp :: rest => if cp.refcount = 1 then keepPages k rest else cp :: keepPages (k + 1) rest

/-- The map when the `k` oldest of them are free. -/
def freeAfter (s : Pages) (k : Nat) (i : Nat) : Bool :=
  s.free i || decide (i ∈ (evictable s.lru).take k)

section Evict

variable {lru : List CachedPage} {s : Pages} {n k : Nat}

theorem evictable_keepPages (n : Nat) (lru : List CachedPage) :
    evictable (keepPages n lru) = (evictable lru).drop n := by
  induction lru generalizing n with
  | nil => cases n <;> simp [keepPages, evictable]
  | cons cp rest ih =>
    cases n with
    | zero => rfl
    | succ n =>
      rw [keepPages]
      by_cases h : cp.refcount = 1
      · rw [if_pos h, ih]
        simp [evictable, h]
      · have := ih (n + 1)
        simpa [evictable, h] using this

theorem keepPages_keepPages (n k : Nat) (lru : List CachedPage) :
    keepPages k (keepPages n lru) = keepPages (n + k) lru := by
  induction lru generalizing n with
  | nil =>
    cases n with
    | zero => rw [Nat.zero_add]; rfl
    | succ n => cases k <;> simp [keepPages]
  | cons cp rest ih =>
    cases n with
    | zero => rw [Nat.zero_add]; rfl
    | succ n =>
      rw [keepPages, succ_add, keepPages]
      by_cases h : cp.refcount = 1
      · rw [if_pos h, if_pos h, ih]
      · rw [if_neg h, if_neg h]
        cases k with
        | zero => rfl
        | succ k =>
          rw [keepPages, if_neg h, ih]
          congr 2
          omega

theorem length_keepPages (n : Nat) (lru : List CachedPage) :
    (keepPages n lru).length + min n (evictable lru).length = lru.length := by
  induction lru generalizing n with
  | nil => cases n <;> simp [keepPages, evictable]
  | cons cp rest ih =>
    cases n with
    | zero => simp [keepPages]
    | succ n =>
      rw [keepPages]
      by_cases h : cp.refcount = 1
      · have := ih n
        simp only [if_pos h, evictable, filter_cons, decide_eq_true h, if_true, map_cons,
          length_cons] at this ⊢
        omega
      · have := ih (n + 1)
        simp only [if_neg h, evictable, filter_cons, decide_eq_false h, length_cons,
          Bool.false_eq_true, if_false] at this ⊢
        omega

theorem cacheScan_eq (freed : Nat) (hle : freed ≤ n) (lru : List CachedPage) :
    ((cacheScan n freed lru).1.map (·.page), (cacheScan n freed lru).2) =
      ((evictable lru).take (n - freed), keepPages (n - freed) lru) := by
  induction lru generalizing freed with
  | nil =>
    cases n - freed <;> simp [cacheScan, evictable, keepPages]
  | cons cp rest ih =>
    rw [cacheScan]
    obtain rfl | hlt := Nat.eq_or_lt_of_le hle
    · simp [keepPages]
    · obtain ⟨d, hd⟩ : ∃ d, n - freed = d + 1 := ⟨n - freed - 1, by omega⟩
      rw [if_pos (by exact_mod_cast hlt), hd, keepPages]
      by_cases h : cp.refcount = 1
      · have := ih (freed + 1) hlt
        rw [show n - (freed + 1) = d by omega] at this
        simp only [Prod.mk.injEq] at this
        simp only [if_pos h, map_cons, this.1, this.2]
        simp [evictable, h]
      · have := ih freed hle
        rw [hd] at this
        simp only [Prod.mk.injEq] at this
        simp only [if_neg h, this.1, this.2]
        simp [evictable, h]

theorem foldl_pushFreed_lt {l : List Nat} {b : Nat} (hl : ∀ i ∈ l, i < b)
    (hcache : ∀ i ∈ cache, i < b) : ∀ i ∈ l.foldl pushFreed cache, i < b := by
  induction l generalizing cache with
  | nil => exact hcache
  | cons x l ih =>
    apply ih fun i hi => hl i (mem_cons_of_mem _ hi)
    unfold pushFreed
    split
    · intro i hi
      obtain rfl | hi := mem_cons.mp hi
      · exact hl i mem_cons_self
      · exact hcache i hi
    · exact hcache

structure Pages.Real (s : Pages) : Prop where
  cache : ∀ i ∈ s.freePageCache, i < numberPhysicalPages
  lru : ∀ i ∈ evictable s.lru, i < numberPhysicalPages

theorem foldl_freeMem (l : List CachedPage) (s : Pages) :
    let s' := l.foldl (fun s cp => freeMem cp.page 1 s) s
    s'.lru = s.lru ∧ s'.lastscan = s.lastscan ∧
      (∀ i, s'.free i = (s.free i || decide (i ∈ l.map (·.page)))) ∧
      ∀ b, (∀ i ∈ l.map (·.page), i < b) → (∀ i ∈ s.freePageCache, i < b) →
        ∀ i ∈ s'.freePageCache, i < b := by
  induction l generalizing s with
  | nil => simp
  | cons cp l ih =>
    obtain ⟨h1, h2, h3, h4⟩ := ih (freeMem cp.page 1 s)
    refine ⟨h1, h2, fun i => ?_, fun b hl hb => ?_⟩
    · rw [foldl_cons, h3 i]
      have : (decide (cp.page ≤ i) && decide (i < cp.page + 1)) = decide (i = cp.page) := by
        rw [← Bool.decide_and]
        exact decide_eq_decide.mpr (by omega)
      simp only [freeMem, this, map_cons, mem_cons, Bool.decide_or, Bool.or_assoc]
    · apply h4 b fun i hi => hl i (mem_cons_of_mem _ hi)
      apply foldl_pushFreed_lt _ hb
      intro i hi
      obtain rfl : i = cp.page := by simpa using hi
      exact hl _ mem_cons_self

theorem cacheFreepages_spec (n : Nat) (s : Pages) (hreal : s.Real) : let r := cacheFreepages n s
    r.1 = min n (evictable s.lru).length ∧ r.2.lru = keepPages n s.lru ∧
      r.2.lastscan = s.lastscan ∧ r.2.free = freeAfter s n ∧ r.2.Real := by
  have hscan := cacheScan_eq 0 (Nat.zero_le n) s.lru
  rw [Nat.sub_zero, Prod.mk.injEq] at hscan
  obtain ⟨h1, h2, h3, h4⟩ :=
    foldl_freeMem (cacheScan n 0 s.lru).1 { s with lru := (cacheScan n 0 s.lru).2 }
  refine ⟨?_, h1.trans hscan.2, h2, ?_, ?_, ?_⟩
  · have := congrArg length hscan.1
    rwa [length_map, length_take] at this
  · funext i
    rw [freeAfter, ← hscan.1]
    exact h3 i
  · apply h4 _ _ hreal.cache
    rw [hscan.1]
    exact fun i hi => hreal.lru i (mem_of_mem_take hi)
  · intro i hi
    apply hreal.lru
    have : (cacheFreepages n s).2.lru = keepPages n s.lru := h1.trans hscan.2
    rw [this, evictable_keepPages] at hi
    exact mem_of_mem_drop hi

theorem freeAfter_zero (s : Pages) : freeAfter s 0 = s.free := by
  funext i
  simp [freeAfter]

/-- `s'` is `s` with the `k` oldest of the evictable pages free. -/
structure Evicted (s : Pages) (k : Nat) (s' : Pages) : Prop where
  free : s'.free = freeAfter s k
  lru : s'.lru = keepPages k s.lru

theorem Evicted.zero (s : Pages) : Evicted s 0 s :=
  ⟨(freeAfter_zero s).symm, by cases hl : s.lru <;> rfl⟩

theorem Evicted.freeAfter_eq (h : Evicted s n s') (k : Nat) :
    freeAfter s' k = freeAfter s (n + k) := by
  funext i
  rw [freeAfter, freeAfter, h.free, h.lru, evictable_keepPages, freeAfter, take_add,
    Bool.or_assoc, ← Bool.decide_or]
  simp only [mem_append]

theorem Evicted.trans {u : Pages} (h : Evicted s n s') (h' : Evicted s' k u) :
    Evicted s (n + k) u where
  free := h'.free.trans (h.freeAfter_eq k)
  lru := by rw [h'.lru, h.lru, keepPages_keepPages]

end Evict

/-! ### The rounds of `alloc_mem` -/

/-- How far search `k` of a request looks. Only the first starts at the last position. -/
def roundTop (flags : AllocFlags) (s : Pages) (k : Nat) : Nat :=
  if k = 0 then searchTop flags s.lastscan else maxpage flags + 1

/-- Search `k` of a request for `n` pages would find some. -/
def RoundFinds (n : Nat) (flags : AllocFlags) (s : Pages) (k : Nat) : Prop :=
  HasRun (freeAfter s (k * n)) n (roundTop flags s k)

def RoundHappens (n : Nat) (s : Pages) (k : Nat) : Prop :=
  k = 0 ∨ (k - 1) * n < (evictable s.lru).length

section Rounds

variable {memsetOk : Nat → Nat → Bool} {flags : AllocFlags} {s : Pages} {n : Nat}

theorem toInt32_of_lt (hn : n < 2 ^ 31) : toInt32 n = n := by
  unfold toInt32
  omega

theorem allocLoop_found (hclear : ClearsMemory memsetOk) (hint : ¬ClearOverflows n flags)
    (hn : n < 2 ^ 31) (hsearch : searchPages n flags s = .ok (m, cache))
    (hle : m + n ≤ maxpage flags + 1) (rounds : Nat) :
    allocLoop memsetOk n flags rounds s = .ok (m, s.take m n cache) := by
  have hmax := maxpage_lt flags
  have hsize : numberPhysicalPages = 2 ^ 20 := rfl
  have halloc := (allocPages_found hclear hsearch (by omega)).trans (if_neg hint)
  have hmod : m % 2 ^ 32 = m := mod_eq_of_lt (by omega)
  have hne : ¬m = noMem := by
    unfold noMem
    omega
  rw [allocLoop.eq_def, toInt32_of_lt hn, halloc]
  simp only [hmod, if_neg hne]

theorem allocLoop_failed (hn : n < 2 ^ 31)
    (halloc : ∃ s1, allocPages memsetOk n flags s = .ok (addressLimit - 2, s1) ∧ s1.free = s.free ∧
      s1.lru = s.lru ∧ s1.lastscan = -2 ∧ s1.Real) (rounds : Nat) :
    ∃ s2, s2.Real ∧ Evicted s n s2 ∧ s2.lastscan = -2 ∧ allocLoop memsetOk n flags (rounds + 1) s =
      if 0 < min n (evictable s.lru).length then allocLoop memsetOk n flags rounds s2
      else .ok (noMem, s2) := by
  obtain ⟨s1, halloc, hfree, hlru, hlast, hreal1⟩ := halloc
  obtain ⟨h1, h2, h3, h4, h5⟩ := cacheFreepages_spec n s1 hreal1
  refine ⟨(cacheFreepages n s1).2, h5, ⟨?_, by rw [h2, hlru]⟩, h3.trans hlast, ?_⟩
  · rw [h4]
    funext i
    rw [freeAfter, freeAfter, hfree, hlru]
  · rw [allocLoop.eq_def, toInt32_of_lt hn, halloc]
    have hmod : (addressLimit - 2) % 2 ^ 32 = noMem := by decide
    simp only [hmod, if_true, h1, hlru]

/-- How the loop of `alloc_mem` ends. -/
inductive AllocEnds (n : Nat) (flags : AllocFlags) (s : Pages) : Except Stop (Nat × Pages) → Prop
  | found {k m : Nat} {u : Pages} (cache : List Nat) (happens : RoundHappens n s k)
      (first : ∀ j < k, ¬RoundFinds n flags s j)
      (top : TopRun (freeAfter s (k * n)) n (roundTop flags s k) m)
      (evicted : Evicted s (k * n) u) :
      AllocEnds n flags s (.ok (m, u.take m n cache))
  | none {k : Nat} {s' : Pages} (never : ∀ j, RoundHappens n s j → ¬RoundFinds n flags s j)
      (evicted : Evicted s (k * n) s') : AllocEnds n flags s (.ok (noMem, s'))

section Later

variable (hevict : Evicted s n s') (hlast : s'.lastscan = -2) (hsome : 0 < (evictable s.lru).length)

include hlast in
theorem roundTop_later (k : Nat) : roundTop flags s' k = roundTop flags s (k + 1) := by
  have htop : roundTop flags s' k = maxpage flags + 1 := by
    unfold roundTop searchTop startscan
    rw [hlast]
    split <;> simp
  rw [htop]
  rfl

include hevict

theorem Evicted.freeAfter_mul (k : Nat) : freeAfter s' (k * n) = freeAfter s ((k + 1) * n) := by
  rw [hevict.freeAfter_eq, succ_mul, Nat.add_comm]

include hlast in
theorem roundFinds_later (k : Nat) : RoundFinds n flags s' k ↔ RoundFinds n flags s (k + 1) := by
  rw [RoundFinds, RoundFinds, hevict.freeAfter_mul, roundTop_later hlast]

include hsome

theorem roundHappens_later (k : Nat) : RoundHappens n s' k ↔ RoundHappens n s (k + 1) := by
  have hmul : ∀ j, (j + 1) * n = j * n + n := fun j => succ_mul j n
  unfold RoundHappens
  rw [hevict.lru, evictable_keepPages, length_drop]
  cases k with
  | zero => simpa using hsome
  | succ k =>
    have := hmul k
    simp only [Nat.add_sub_cancel]
    omega

include hlast

/-- The first search has failed. -/
theorem AllocEnds.later {r : Except Stop (Nat × Pages)} (h : AllocEnds n flags s' r)
    (hfirst : ¬RoundFinds n flags s 0) : AllocEnds n flags s r := by
  have hadd (k : Nat) : n + k * n = (k + 1) * n := by rw [succ_mul, Nat.add_comm]
  cases h with
  | @found k m u cache happens first top evicted =>
    refine .found cache ((roundHappens_later hevict hsome k).mp happens) ?_ ?_
      (hadd k ▸ hevict.trans evicted)
    · intro j hj hf
      cases j with
      | zero => exact hfirst hf
      | succ j => exact first j (by omega) ((roundFinds_later hevict hlast j).mpr hf)
    · rwa [← roundTop_later hlast, ← hevict.freeAfter_mul]
  | @none k u never evicted =>
    refine .none ?_ (hadd k ▸ hevict.trans evicted)
    intro j hj hf
    cases j with
    | zero => exact hfirst hf
    | succ j =>
      exact never j ((roundHappens_later hevict hsome j).mpr hj)
        ((roundFinds_later hevict hlast j).mpr hf)

end Later

theorem allocLoop_ends (hclear : ClearsMemory memsetOk) (hint : ¬ClearOverflows n flags)
    (hn : 2 ≤ n) (hlt : n < 2 ^ 31) (hstray : ¬StrayMemset memsetOk flags n) (hreal : s.Real)
    (rounds : Nat) (hrounds : (evictable s.lru).length < rounds) :
    AllocEnds n flags s (allocLoop memsetOk n flags rounds s) := by
  induction rounds generalizing s with
  | zero => omega
  | succ rounds ih =>
    obtain ⟨m, cache, hsearch, hle, hrun, hhit | htop⟩ | ⟨cache, hsub, hsearch, hhit, hnone⟩ :=
      searchPages_cases (n := n) flags (by omega) hreal.cache
    · have := hhit.2.2.1
      omega
    · rw [allocLoop_found hclear hint hlt hsearch hle]
      refine .found (k := 0) cache (.inl rfl) (fun j hj => absurd hj (Nat.not_lt_zero j)) ?_ ?_
      · rwa [Nat.zero_mul, freeAfter_zero]
      · rw [Nat.zero_mul]
        exact .zero s
    -- the first search fails
    have hfirst : ¬RoundFinds n flags s 0 := by
      rw [RoundFinds, Nat.zero_mul, freeAfter_zero]
      exact hnone
    have halloc := allocPages_failed memsetOk (by omega) (by omega) (by omega) hsearch
    rw [if_neg hint, if_neg hstray] at halloc
    obtain ⟨s2, hreal2, hevict, hlast, hloop⟩ := allocLoop_failed hlt
      ⟨_, halloc, rfl, rfl, rfl, ⟨fun i hi => hreal.cache i (hsub hi), hreal.lru⟩⟩ rounds
    rw [hloop]
    obtain hzero | hpos := Nat.eq_zero_or_pos (evictable s.lru).length
    · rw [if_neg (by omega)]
      refine .none (k := 1) ?_ (by rwa [Nat.one_mul])
      rintro j (rfl | hj)
      · exact hfirst
      · omega
    · rw [if_pos (by omega)]
      have hlen := congrArg length (evictable_keepPages n s.lru)
      rw [← hevict.lru, length_drop] at hlen
      exact (ih hreal2 (by omega)).later hevict hlast hpos hfirst

end Rounds

end Gergios.Vm
