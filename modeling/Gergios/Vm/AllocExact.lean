import Gergios.Vm.AllocRuns

/-!
# When a request for pages is served exactly
-/

namespace Gergios.Vm

open List

def wantedTop (flags : AllocFlags) : Nat :=
  min (if flags.lower16mb then 16 * 1024 * 1024 / pageSize else numberPhysicalPages)
    (if flags.lower1mb then 1024 * 1024 / pageSize else numberPhysicalPages)

/-- The pages from `m` serve a request. -/
structure Suits (free : Nat → Bool) (clicks : Nat) (flags : AllocFlags) (m : Nat) : Prop where
  le : m + clicks ≤ wantedTop flags
  align64k : flags.align64k → 64 * 1024 / pageSize ∣ m
  align16k : flags.align16k → 16 * 1024 / pageSize ∣ m
  run : IsRun free clicks m

def AllocRight (clicks : Nat) (flags : AllocFlags) (s : Pages) :
    Except Stop (Option Nat × Pages) → Prop
  | .error _ => False
  | .ok (some m, s') => ∃ k, s'.lru = keepPages k s.lru ∧ Suits (freeAfter s k) clicks flags m ∧
      (∀ i, s'.free i = (freeAfter s k i && !(decide (m ≤ i) && decide (i < m + clicks)))) ∧
      (freeMem m clicks s').free = freeAfter s k
  | .ok (none, s') =>
      (¬∃ m, Suits (freeAfter s (evictable s.lru).length) clicks flags m) ∧
      ∃ k, s'.lru = keepPages k s.lru ∧ s'.free = freeAfter s k

/-- No search for `n` pages finds any. -/
def NeverFinds (n : Nat) (flags : AllocFlags) (s : Pages) : Prop :=
  ¬Hit n flags s ∧ ∀ k, RoundHappens n s k → ¬RoundFinds n flags s k

/-- A request for a number of pages that an `int` holds. -/
structure ProperCondition (memsetOk : Nat → Nat → Bool) (clicks : Nat) (flags : AllocFlags)
    (s : Pages) (n : Nat) : Prop where
  cleared : flags.clear = true → n < 2 ^ 19
  first : Hit n flags s ∨ RoundFinds n flags s 0 ∨ 2 ≤ n ∧ ¬StrayMemset memsetOk flags n
  /-- Pages taken for the alignment are not all given back. -/
  align : (Hit n flags s ∨ ∃ k, RoundHappens n s k ∧ RoundFinds n flags s k) → alignClicks flags = 0
  /-- The limit of 1 MB is dropped where that of 16 MB is asked for as well. -/
  limit : ∀ k, RoundHappens n s k → (∀ j < k, ¬RoundFinds n flags s j) →
    ∀ m, m + n ≤ roundTop flags s k → IsRun (freeAfter s (k * n)) n m → m + n ≤ wantedTop flags
  /-- With nothing to evict there is one search only, and it does not see the pages above the last
  position. -/
  above : NeverFinds n flags s → evictable s.lru = [] → clicks ≤ n →
    ∀ m, searchTop flags s.lastscan < m + n → m + n ≤ wantedTop flags → ¬IsRun s.free n m
  /-- The pages for the alignment are asked for on top of those wanted. -/
  aligned : NeverFinds n flags s → alignClicks flags ≠ 0 →
    ∀ m, Suits (freeAfter s (evictable s.lru).length) clicks flags m →
      ∃ m', m' ≤ m ∧ m + clicks ≤ m' + n ∧ m' + n ≤ wantedTop flags ∧
        IsRun (freeAfter s (evictable s.lru).length) n m'

def AllocCondition (memsetOk : Nat → Nat → Bool) (clicks : Nat) (flags : AllocFlags)
    (s : Pages) : Prop :=
  let n := askedPages clicks flags
  if n = 0 ∨ 2 ^ 31 ≤ n then
    clicks ≠ 0 ∧ (∀ i < searchTop flags s.lastscan, s.free i = false) ∧
      (flags.clear = true → -2 ^ 19 ≤ toInt32 n) ∧ ¬StrayMemset memsetOk flags (toInt32 n)
  else ProperCondition memsetOk clicks flags s n

section Outcome

variable {memsetOk : Nat → Nat → Bool} {flags : AllocFlags} {s u : Pages} {cache : List Nat}
  {clicks m k : Nat}

theorem wantedTop_le (flags : AllocFlags) : wantedTop flags ≤ numberPhysicalPages := by
  unfold wantedTop
  split <;> split <;> decide

theorem alignClicks_le (flags : AllocFlags) : alignClicks flags ≤ 16 := by
  unfold alignClicks
  split
  · decide
  · split <;> decide

theorem freeAfter_of_keepPages {k k' : Nat} (h : keepPages k s.lru = keepPages k' s.lru) :
    freeAfter s k = freeAfter s k' := by
  have h1 := length_keepPages k s.lru
  have h2 := length_keepPages k' s.lru
  rw [h] at h1
  have htake : ∀ j, (evictable s.lru).take j =
      (evictable s.lru).take (min j (evictable s.lru).length) := by
    intro j
    rw [take_eq_take_iff]
    omega
  have hmin : min k (evictable s.lru).length = min k' (evictable s.lru).length := by omega
  funext i
  rw [freeAfter, freeAfter, htake k, htake k', hmin]

theorem allocRight_found (hclicks : clicks < 2 ^ 32) (hevict : Evicted s k u)
    (hrun : IsRun (freeAfter s k) (askedPages clicks flags) m)
    (hle : m + askedPages clicks flags ≤ numberPhysicalPages)
    (hloop : allocLoop memsetOk (askedPages clicks flags) flags (s.lru.length + 1) s =
      .ok (m, u.take m (askedPages clicks flags) cache)) :
    AllocRight clicks flags s (allocMem memsetOk clicks flags s) ↔
      alignClicks flags = 0 ∧ m + askedPages clicks flags ≤ wantedTop flags := by
  have hne : ¬m = noMem := by
    unfold noMem numberPhysicalPages at *
    omega
  rw [← hevict.free] at hrun
  obtain hzero | hpos := Nat.eq_zero_or_pos (alignClicks flags)
  · have hn : askedPages clicks flags = clicks := by
      rw [askedPages, hzero, Nat.add_zero, Nat.mod_eq_of_lt hclicks]
    rw [hn] at hloop hrun ⊢
    have hmem : allocMem memsetOk clicks flags s = .ok (some m, u.take m clicks cache) := by
      simp [allocMem, hn, hloop, if_neg hne, hzero]
    rw [hmem]
    constructor
    · rintro ⟨k', -, hsuits, -⟩
      exact ⟨hzero, hsuits.le⟩
    · rintro ⟨-, hle'⟩
      have hnone : flags.align64k = false ∧ flags.align16k = false := by
        unfold alignClicks at hzero
        split at hzero
        · cases hzero
        · split at hzero
          · cases hzero
          · simp_all
      rw [AllocRight]
      refine ⟨k, hevict.lru, ⟨hle', by simp [hnone.1], by simp [hnone.2], ?_⟩, ?_, ?_⟩ <;>
        rw [← hevict.free]
      · exact hrun
      · exact fun i => rfl
      · funext i
        simp only [freeMem, Pages.take]
        cases hin : decide (m ≤ i) && decide (i < m + clicks) with
        | true =>
          simp only [Bool.and_eq_true, decide_eq_true_eq] at hin
          simp [hrun i hin.1 hin.2]
        | false => simp
  · refine iff_of_false ?_ fun h => by omega
    obtain ⟨e, s', hmem, he, hlru, hfree⟩ : ∃ e s',
        allocMem memsetOk clicks flags s = .ok (some (m + e), s') ∧ e < alignClicks flags ∧
        s'.lru = u.lru ∧ ∀ i, m + e ≤ i →
          s'.free i = (u.take m (askedPages clicks flags) cache).free i := by
      obtain hmod | hmod := Nat.eq_zero_or_pos (m % alignClicks flags)
      · refine ⟨0, u.take m (askedPages clicks flags) cache, ?_, hpos, rfl, fun i _ => rfl⟩
        simp [allocMem, hloop, if_neg hne, hmod]
      · refine ⟨alignClicks flags - m % alignClicks flags, freeMem m (alignClicks flags -
          m % alignClicks flags) (u.take m (askedPages clicks flags) cache), ?_, by omega, rfl,
          fun i hi => ?_⟩
        · simp [allocMem, hloop, if_neg hne, hmod, hpos]
        · have hout : ¬(m ≤ i ∧ i < m + (alignClicks flags - m % alignClicks flags)) := by omega
          simp only [freeMem, ← Bool.decide_and, decide_eq_false hout, Bool.or_false]
    rw [hmem]
    rintro ⟨k', hlru', hsuits, hfree', -⟩
    have hsize := Nat.le_trans hsuits.le (wantedTop_le flags)
    have halign := alignClicks_le flags
    have hn : askedPages clicks flags = clicks + alignClicks flags := by
      unfold askedPages numberPhysicalPages at *
      exact Nat.mod_eq_of_lt (by omega)
    have hsame : freeAfter s k' = u.free :=
      (freeAfter_of_keepPages (by rw [← hlru', hlru, hevict.lru])).trans hevict.free.symm
    -- the page behind those given out was free and is not any more
    have hused := hfree (m + e + clicks) (by omega)
    dsimp only [Pages.take] at hused
    rw [hfree', hsame, hrun _ (by omega) (by omega), ← Bool.decide_and, ← Bool.decide_and,
      decide_eq_false (by omega), decide_eq_true (by omega)] at hused
    cases hused

theorem allocRight_none (hevict : Evicted s k u)
    (hloop : allocLoop memsetOk (askedPages clicks flags) flags (s.lru.length + 1) s =
      .ok (noMem, u)) : AllocRight clicks flags s (allocMem memsetOk clicks flags s) ↔
      ¬∃ m, Suits (freeAfter s (evictable s.lru).length) clicks flags m := by
  have hmem : allocMem memsetOk clicks flags s = .ok (none, u) := by simp [allocMem, hloop]
  rw [hmem]
  exact ⟨fun h => h.1, fun h => ⟨h, k, hevict.lru, hevict.free⟩⟩

theorem not_allocRight_error {e : Stop}
    (hloop : allocLoop memsetOk (askedPages clicks flags) flags (s.lru.length + 1) s = .error e) :
    ¬AllocRight clicks flags s (allocMem memsetOk clicks flags s) := by
  have hmem : allocMem memsetOk clicks flags s = .error e := by simp [allocMem, hloop]
  rw [hmem]
  exact id

theorem allocRight_bogus (hclicks : clicks < 2 ^ 32)
    (hn : askedPages clicks flags = 0 ∨ 2 ^ 31 ≤ askedPages clicks flags) :
    AllocRight clicks flags s (allocMem memsetOk clicks flags s) ↔
      clicks ≠ 0 ∧ (∀ i < searchTop flags s.lastscan, s.free i = false) ∧
        (flags.clear = true → -2 ^ 19 ≤ toInt32 (askedPages clicks flags)) ∧
        ¬StrayMemset memsetOk flags (toInt32 (askedPages clicks flags)) := by
  have hlt : askedPages clicks flags < 2 ^ 32 := Nat.mod_lt _ (by decide)
  have hpages : toInt32 (askedPages clicks flags) ≤ 0 ∧
      -2 ^ 31 ≤ toInt32 (askedPages clicks flags) := by
    unfold toInt32
    omega
  generalize hp : toInt32 (askedPages clicks flags) = pages at *
  have hpop : popCached pages flags s = (none, s.freePageCache) :=
    if_pos (.inr (.inr (by omega)))
  have hone : ¬addressLimit - 2 = noMem := by decide
  obtain ⟨hloop, i, hi, hfree⟩ | ⟨hloop, hall⟩ := findbitLoop_bogus s.free hpages.1
    (startscan flags s.lastscan + 1) (startscan flags s.lastscan + 1) (Nat.le_refl _)
  · have herr : allocLoop memsetOk (askedPages clicks flags) flags (s.lru.length + 1) s =
        .error .assertion := by
      rw [allocLoop, hp]
      simp [allocPages, searchPages, hpop, findbit, hloop]
    refine iff_of_false (not_allocRight_error herr) ?_
    rintro ⟨-, hnone, -⟩
    rw [hnone i hi] at hfree
    cases hfree
  have hsearch : searchPages pages flags s = .ok (addressLimit - 2, s.freePageCache) := by
    simp [searchPages, hpop, findbit, hloop, hone]
  have halloc := allocPages_failed memsetOk (by omega) hpages.2 (by omega) hsearch
  by_cases hint : ClearOverflows pages flags
  · have herr : allocLoop memsetOk (askedPages clicks flags) flags (s.lru.length + 1) s =
        .error .overflow := by
      rw [allocLoop, hp, halloc, if_pos hint]
    refine iff_of_false (not_allocRight_error herr) fun h => hint.2 ?_
    have := h.2.2.1 hint.1
    unfold pageSize
    omega
  rw [if_neg hint] at halloc
  have hint' : flags.clear = true → -2 ^ 19 ≤ pages := fun hc => by
    by_contra hlow
    refine hint ⟨hc, fun h => ?_⟩
    unfold pageSize at h
    omega
  by_cases hstray : StrayMemset memsetOk flags pages
  · have herr : allocLoop memsetOk (askedPages clicks flags) flags (s.lru.length + 1) s =
        .error .panic := by
      rw [allocLoop, hp, halloc, if_pos hstray]
    exact iff_of_false (not_allocRight_error herr) fun h => h.2.2.2 hstray
  have hkeep : cacheScan pages 0 s.lru = ([], s.lru) := by
    cases s.lru with
    | nil => rfl
    | cons cp rest => rw [cacheScan, if_neg (by omega)]
  have hnone : allocLoop memsetOk (askedPages clicks flags) flags (s.lru.length + 1) s =
      .ok (noMem, { s with lastscan := -2 }) := by
    have hmod : (addressLimit - 2) % 2 ^ 32 = noMem := by decide
    rw [allocLoop, hp, halloc, if_neg hstray]
    simp only [hmod, if_true, cacheFreepages, hkeep, length_nil, foldl_nil, Nat.lt_irrefl, if_false]
  have hevict : Evicted s 0 { s with lastscan := -2 } :=
    ⟨(Evicted.zero s).free, (Evicted.zero s).lru⟩
  rw [allocRight_none hevict hnone]
  constructor
  · intro hsuits
    refine ⟨?_, hall, hint', hstray⟩
    rintro rfl
    exact hsuits ⟨0, by simp, fun _ => Nat.dvd_zero _, fun _ => Nat.dvd_zero _,
      fun i h1 h2 => absurd h2 (by omega)⟩
  · rintro ⟨hpos, -⟩ ⟨m, hsuits⟩
    have hsize := Nat.le_trans hsuits.le (wantedTop_le flags)
    have halign := alignClicks_le flags
    unfold askedPages numberPhysicalPages at *
    omega

theorem roundTop_le (flags : AllocFlags) (s : Pages) (k : Nat) :
    roundTop flags s k ≤ numberPhysicalPages := by
  have h1 := startscan_le flags s.lastscan
  have h2 := maxpage_lt flags
  unfold roundTop searchTop
  split <;> omega

variable {n : Nat}

theorem properCondition_found (hcleared : flags.clear = true → n < 2 ^ 19)
    (hfirst : Hit n flags s ∨ RoundFinds n flags s 0 ∨ 2 ≤ n ∧ ¬StrayMemset memsetOk flags n)
    (hhap : RoundHappens n s k) (hnot : ∀ j < k, ¬RoundFinds n flags s j)
    (htop : TopRun (freeAfter s (k * n)) n (roundTop flags s k) m) :
    ProperCondition memsetOk clicks flags s n ↔
      alignClicks flags = 0 ∧ m + n ≤ wantedTop flags := by
  have hfinds : RoundFinds n flags s k := ⟨m, htop.le, htop.run⟩
  constructor
  · intro h
    exact ⟨h.align (.inr ⟨k, hhap, hfinds⟩), h.limit k hhap hnot m htop.le htop.run⟩
  · rintro ⟨halign, hle⟩
    refine ⟨hcleared, hfirst, fun _ => halign, ?_, fun hnone => absurd hfinds (hnone.2 k hhap),
      fun hnone => absurd hfinds (hnone.2 k hhap)⟩
    intro k' hhap' hnot' m' hle' hrun'
    obtain hlt | rfl | hgt := Nat.lt_trichotomy k' k
    · exact absurd ⟨m', hle', hrun'⟩ (hnot k' hlt)
    · obtain hlt | hge := Nat.lt_or_ge m m'
      · exact absurd hrun' (htop.highest m' hlt hle')
      · omega
    · exact absurd hfinds (hnot' k hgt)

theorem properCondition_hit (hcleared : flags.clear = true → n < 2 ^ 19) (hhit : Hit n flags s)
    (hle : m + n ≤ numberPhysicalPages) :
    ProperCondition memsetOk clicks flags s n ↔
      alignClicks flags = 0 ∧ m + n ≤ wantedTop flags := by
  have hwanted : wantedTop flags = numberPhysicalPages := by
    rw [wantedTop, if_neg hhit.1, if_neg hhit.2.1, Nat.min_self]
  rw [hwanted]
  constructor
  · exact fun h => ⟨h.align (.inl hhit), hle⟩
  · rintro ⟨halign, -⟩
    refine ⟨hcleared, .inl hhit, fun _ => halign, ?_, fun hnone => absurd hhit hnone.1,
      fun hnone => absurd hhit hnone.1⟩
    intro k' _ _ m' hle' _
    rw [hwanted]
    exact Nat.le_trans hle' (roundTop_le flags s k')

theorem le_freeAfter (hrun : IsRun s.free n m) (k : Nat) : IsRun (freeAfter s k) n m :=
  fun i h1 h2 => by rw [freeAfter, hrun i h1 h2, Bool.true_or]

theorem wantedTop_le_maxpage (flags : AllocFlags) : wantedTop flags ≤ maxpage flags + 1 := by
  unfold wantedTop maxpage
  split <;> split <;> decide

/-- Among `a` pages more than wanted there is an aligned start. -/
theorem exists_aligned (flags : AllocFlags) (m : Nat) : ∃ m', m ≤ m' ∧
    m' ≤ m + alignClicks flags ∧ (flags.align64k → 64 * 1024 / pageSize ∣ m') ∧
    (flags.align16k → 16 * 1024 / pageSize ∣ m') := by
  unfold alignClicks pageSize
  split
  · exact ⟨(m + 15) / 16 * 16, by omega, by omega, fun _ => ⟨(m + 15) / 16, by omega⟩,
      fun _ => ⟨(m + 15) / 16 * 4, by omega⟩⟩
  · rename_i h64
    split
    · exact ⟨(m + 3) / 4 * 4, by omega, by omega, fun h => absurd h h64,
        fun _ => ⟨(m + 3) / 4, by omega⟩⟩
    · rename_i h16
      exact ⟨m, by omega, by omega, fun h => absurd h h64, fun h => absurd h h16⟩

/-- The last search sees every page that can be had. -/
theorem NeverFinds.evicted (h : NeverFinds n flags s) (hn : 1 ≤ n) (hsome : evictable s.lru ≠ [])
    (hle : m + n ≤ maxpage flags + 1) :
    ¬IsRun (freeAfter s (evictable s.lru).length) n m := by
  intro hrun
  have hlen := length_pos_iff.mpr hsome
  generalize hk : ((evictable s.lru).length - 1) / n = k
  have hdiv := Nat.div_add_mod ((evictable s.lru).length - 1) n
  have hmod := Nat.mod_lt ((evictable s.lru).length - 1) hn
  rw [hk, Nat.mul_comm] at hdiv
  have hall : (k + 1) * n = k * n + n := Nat.succ_mul k n
  have hfree : freeAfter s ((k + 1) * n) = freeAfter s (evictable s.lru).length := by
    funext i
    rw [freeAfter, freeAfter, take_of_length_le (by omega), take_of_length_le (Nat.le_refl _)]
  refine h.2 (k + 1) (.inr ?_) ⟨m, ?_, ?_⟩
  · rw [Nat.add_sub_cancel]
    omega
  · rwa [roundTop, if_neg (Nat.succ_ne_zero k)]
  · rwa [hfree]

theorem not_suits_iff (hclicks : clicks < 2 ^ 32) (hn : n = askedPages clicks flags) (hpos : 1 ≤ n)
    (hnone : NeverFinds n flags s) :
    (¬∃ m, Suits (freeAfter s (evictable s.lru).length) clicks flags m) ↔
      (evictable s.lru = [] → clicks ≤ n → ∀ m, searchTop flags s.lastscan < m + n →
        m + n ≤ wantedTop flags → ¬IsRun s.free n m) ∧
      (alignClicks flags ≠ 0 → ∀ m, Suits (freeAfter s (evictable s.lru).length) clicks flags m →
        ∃ m', m' ≤ m ∧ m + clicks ≤ m' + n ∧ m' + n ≤ wantedTop flags ∧
          IsRun (freeAfter s (evictable s.lru).length) n m') := by
  have hsmall := alignClicks_le flags
  constructor
  · intro hno
    refine ⟨fun _ hle m _ htop hrun => hno ?_, fun _ m hsuits => absurd ⟨m, hsuits⟩ hno⟩
    have hadd : n = clicks + alignClicks flags := by
      unfold askedPages at hn
      omega
    obtain ⟨m', h1, h2, h64, h16⟩ := exists_aligned flags m
    exact ⟨m', by omega, h64, h16, fun i hi hi' =>
      le_freeAfter hrun _ i (by omega) (by omega)⟩
  · rintro ⟨habove, haligned⟩ ⟨m, hsuits⟩
    obtain ⟨m', hle, hle', htop, hrun⟩ : ∃ m', m' ≤ m ∧ m + clicks ≤ m' + n ∧
        m' + n ≤ wantedTop flags ∧ IsRun (freeAfter s (evictable s.lru).length) n m' := by
      by_cases halign : alignClicks flags = 0
      · have hadd : n = clicks := by
          rw [hn, askedPages, halign, Nat.add_zero, Nat.mod_eq_of_lt hclicks]
        exact ⟨m, Nat.le_refl m, by omega, hadd ▸ hsuits.le, hadd ▸ hsuits.run⟩
      · exact haligned halign m hsuits
    by_cases hsome : evictable s.lru = []
    · rw [hsome, length_nil, freeAfter_zero] at hrun
      obtain hlow | hhigh := Nat.lt_or_ge (searchTop flags s.lastscan) (m' + n)
      · exact habove hsome (by omega) m' hlow htop hrun
      · refine hnone.2 0 (.inl rfl) ⟨m', hhigh, ?_⟩
        rwa [Nat.zero_mul, freeAfter_zero]
    · exact hnone.evicted hpos hsome (Nat.le_trans htop (wantedTop_le_maxpage flags)) hrun

end Outcome

def noFlags : AllocFlags := ⟨false, false, false, false, false⟩

/-- Page 3 is free and page 4 in the file cache. -/
def oneCached : Pages := ⟨(· = 3), [], 5, [⟨4, 1, Nat.le_refl 1⟩]⟩

def below1mb : AllocFlags := { noFlags with lower1mb := true }

def scannedTo5 (free : Nat → Bool) : Pages := ⟨free, [], 5, []⟩

end Gergios.Vm
