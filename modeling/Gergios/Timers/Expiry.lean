import Gergios.Timers.Queue

/-!
# Expiry under a clock that wraps around

`tmr_is_first` orders times as long as they are no more than half the range apart, which is what
`timers.h` asks of all times that are compared. Then the queue is ordered by the time that is left,
and `tmrs_exptimers` runs what has expired.
-/

namespace Gergios.Timers

open Lib Function List Nat Option

/-- The time that is left until `e`, negative if `e` has passed. -/
def rel (now e : Clock) : Int := (e - now).toInt

def Near (x y : Int) : Prop := x - y ≤ tmrdiffMax ∧ y - x ≤ tmrdiffMax

instance (x y : Int) : Decidable (Near x y) := inferInstanceAs (Decidable (_ ∧ _))

variable {now : Clock} {k n : Nat}

theorem Near.symm {x y : Int} (h : Near x y) : Near y x := ⟨h.2, h.1⟩

theorem tmrIsFirst_iff {a b : Clock} (h : Near (rel now a) (rel now b)) :
    tmrIsFirst a b = true ↔ rel now a ≤ rel now b := by
  have hsub : b - a = (b - now) - (a - now) := by
    rw [sub_sub_sub_cancel_right]
  unfold Near rel tmrdiffMax at h
  unfold tmrIsFirst rel tmrdiffMax
  rw [decide_eq_true_iff, hsub]
  rw [BitVec.toInt_eq_toNat_cond, BitVec.toInt_eq_toNat_cond] at *
  rw [BitVec.toNat_sub]
  split_ifs at * <;> omega

theorem rel_self (now : Clock) : rel now now = 0 := by
  simp [rel]

theorem rel_succ {e : Clock} (h : Near (rel now e) 0) : rel (now + 1) e = rel now e - 1 := by
  unfold Near rel tmrdiffMax at *
  rw [BitVec.toInt_eq_toNat_cond, BitVec.toInt_eq_toNat_cond] at *
  split_ifs at * <;> simp at * <;> omega

section Ordered

variable {T F : Type} {now : Clock} {s t : TimerQueue T F} {l : List T}

def due (now : Clock) (s : TimerQueue T F) (a : T) : Int := rel now (s.setting a).expTime

def Pending (s : TimerQueue T F) (a : T) : Prop := (s.setting a).func ≠ none

instance [DecidableEq F] (s : TimerQueue T F) (a : T) : Decidable (Pending s a) :=
  inferInstanceAs (Decidable (_ ≠ _))

/-- The queue in order, with times that may be compared with each other and with the clock. -/
structure Ordered (now : Clock) (s : TimerQueue T F) (l : List T) : Prop extends Holds s l where
  near_now : ∀ a ∈ l, Near (due now s a) 0
  near : ∀ a ∈ l, ∀ b ∈ l, Near (due now s a) (due now s b)
  sorted : (l.map (due now s)).Pairwise (· ≤ ·)

theorem due_congr {a : T} (h : t.setting a = s.setting a) : due now t a = due now s a := by
  rw [due, due, h]

theorem Ordered.expired_iff (hs : Ordered now s l) {a : T} (ha : a ∈ l) :
    tmrIsFirst (s.setting a).expTime now = true ↔ due now s a ≤ 0 := by
  have hnear := hs.near_now a ha
  rw [← rel_self now] at hnear ⊢
  exact tmrIsFirst_iff hnear

theorem Ordered.of_sublist {l' : List T} (hs : Ordered now s l) (ht : Holds t l')
    (hsub : l'.Sublist l) (hsame : ∀ a ∈ l', t.setting a = s.setting a) : Ordered now t l' := by
  have hdue : ∀ a ∈ l', due now t a = due now s a := fun a ha => due_congr (hsame a ha)
  refine ⟨ht, fun a ha => ?_, fun a ha b hb => ?_, ?_⟩
  · rw [hdue a ha]
    exact hs.near_now a (hsub.subset ha)
  · rw [hdue a ha, hdue b hb]
    exact hs.near a (hsub.subset ha) b (hsub.subset hb)
  · rw [map_congr_left hdue]
    exact hs.sorted.sublist (hsub.map _)

theorem Ordered.tick (hs : Ordered now s l)
    (hnear : ∀ a, Pending s a → Near (due (now + 1) s a) 0) :
    Ordered (now + 1) s l := by
  have hdue : ∀ a ∈ l, due (now + 1) s a = due now s a - 1 :=
    fun a ha => rel_succ (hs.near_now a ha)
  refine ⟨hs.toHolds, fun a ha => hnear a ((hs.mem_iff a).mp ha), fun a ha b hb => ?_, ?_⟩
  · have h := hs.near a ha b hb
    rw [hdue a ha, hdue b hb]
    unfold Near at h ⊢
    omega
  · rw [map_congr_left hdue, pairwise_map]
    refine (pairwise_map.mp hs.sorted).imp fun h => ?_
    exact Int.sub_le_sub_right h 1

def Cmd.Ok (now : Clock) (s : TimerQueue T F) : Cmd T F → Prop
  | .set tp expTime _ _ => Near (rel now expTime) 0 ∧
    ∀ a, a ≠ tp → Pending s a → Near (rel now expTime) (due now s a)
  | .clr _ => True

/-- A timer is set for a time after `now`. -/
def Cmd.Later (now : Clock) : Cmd T F → Prop
  | .set _ expTime _ _ => 0 < rel now expTime
  | .clr _ => True

def Cmd.tp : Cmd T F → T
  | .set tp _ _ _ => tp
  | .clr tp => tp

def Cmd.setting (old : Setting F) : Cmd T F → Setting F
  | .set _ expTime watchdog arg => ⟨expTime, some watchdog, arg⟩
  | .clr _ => { old with func := none }

def expired (now : Clock) (s : TimerQueue T F) (l : List T) : List T :=
  l.filter fun a => decide (due now s a ≤ 0)

/-- What a call of `tmrs_exptimers` has done: `log` are the watchdogs that were run. -/
structure Expiry (calls : Nat → List (Cmd T F)) (now : Clock) (k : Nat) (s t : TimerQueue T F)
    (log : List (Fired T F)) : Prop where
  fired : ∀ r ∈ log, Pending s r.tp ∧ due now s r.tp ≤ 0 ∧ r.func = (s.setting r.tp).func ∧
    r.arg = (s.setting r.tp).arg
  once : (log.map (·.tp)).Nodup
  inOrder : log.Pairwise fun r r' => due now s r.tp ≤ due now s r'.tp
  complete : ∀ a, Pending s a → due now s a ≤ 0 → a ∈ log.map (·.tp) ∨
    ∃ j < log.length, ∃ c ∈ calls (k + j), c.tp = a
  none_left : ∀ a, Pending t a → 0 < due now t a

theorem expired_lt {tp : T} {v : TimerQueue T F} {l' : List T} (hs : Ordered now s (tp :: l))
    (hv : Ordered now v l') (hdue : due now s tp ≤ 0)
    (hold : ∀ a, Pending v a → due now v a ≤ 0 → a ≠ tp ∧ v.setting a = s.setting a) :
    (expired now v l').length < (expired now s (tp :: l)).length := by
  have hcons : expired now s (tp :: l) = tp :: expired now s l := by
    simp [expired, hdue]
  have hsub : expired now v l' ⊆ expired now s l := by
    intro a ha
    rw [expired, mem_filter, decide_eq_true_iff] at ha ⊢
    have hpend := (hv.mem_iff a).mp ha.1
    obtain ⟨hne, hsame⟩ := hold a hpend ha.2
    rw [hsame, ← hs.mem_iff] at hpend
    rw [due_congr hsame] at ha
    exact ⟨(mem_cons.mp hpend).resolve_left hne, ha.2⟩
  rw [hcons]
  exact lt_succ_of_le ((hv.linked.nodup.filter _).subperm hsub).length_le

theorem Expiry.cons {calls : Nat → List (Cmd T F)} {tp : T} {v : TimerQueue T F}
    {log : List (Fired T F)} (hx : Expiry calls now (k + 1) v t log) (hpend : Pending s tp)
    (hdue : due now s tp ≤ 0) (hmin : ∀ a, Pending s a → due now s tp ≤ due now s a)
    (hold : ∀ a, Pending v a → due now v a ≤ 0 → a ≠ tp ∧ v.setting a = s.setting a)
    (hkept : ∀ a, a ≠ tp → v.setting a = s.setting a ∨ ∃ c ∈ calls k, c.tp = a) :
    Expiry calls now k s t (⟨tp, (s.setting tp).func, (s.setting tp).arg⟩ :: log) := by
  have hlog : ∀ r ∈ log, r.tp ≠ tp ∧ v.setting r.tp = s.setting r.tp ∧ Pending s r.tp := by
    intro r hr
    obtain ⟨hp, hd, -⟩ := hx.fired r hr
    obtain ⟨hne, hsame⟩ := hold r.tp hp hd
    exact ⟨hne, hsame, by rwa [Pending, hsame] at hp⟩
  refine ⟨?_, ?_, ?_, fun a ha hadue => ?_, hx.none_left⟩
  · refine forall_mem_cons.mpr ⟨⟨hpend, hdue, rfl, rfl⟩, fun r hr => ?_⟩
    obtain ⟨-, hsame, hp⟩ := hlog r hr
    obtain ⟨-, hd, hfunc, harg⟩ := hx.fired r hr
    rw [due_congr hsame] at hd
    rw [hsame] at hfunc harg
    exact ⟨hp, hd, hfunc, harg⟩
  · rw [map_cons, nodup_cons]
    refine ⟨fun hin => ?_, hx.once⟩
    obtain ⟨r, hr, heq⟩ := mem_map.mp hin
    exact (hlog r hr).1 heq
  · refine pairwise_cons.mpr ⟨fun r hr => hmin r.tp (hlog r hr).2.2, ?_⟩
    refine hx.inOrder.imp_of_mem fun hr hr' h => ?_
    rwa [due_congr (hlog _ hr).2.1, due_congr (hlog _ hr').2.1] at h
  · rcases eq_or_ne a tp with rfl | hne
    · exact .inl (by simp)
    · rcases hkept a hne with hsame | ⟨c, hc, hca⟩
      · have ha' : Pending v a := by rwa [Pending, hsame]
        rcases hx.complete a ha' ((due_congr hsame).trans_le hadue) with hin | ⟨j, hj, c, hc, hca⟩
        · exact .inl (mem_cons_of_mem _ hin)
        · refine .inr ⟨j + 1, succ_lt_succ hj, c, ?_, hca⟩
          rwa [Nat.add_right_comm] at hc
      · exact .inr ⟨0, succ_pos _, c, hc, hca⟩

variable [DecidableEq T] [Fintype T]

theorem Cmd.exec_ordered {c : Cmd T F} (hs : Ordered now s l) (hc : c.Ok now s) :
    ∃ t l', c.exec s = some t ∧ Ordered now t l' ∧
      t.setting = update s.setting c.tp (c.setting (s.setting c.tp)) := by
  cases c with
  | clr tp =>
    obtain ⟨t, r, hclr, ht, hsetting⟩ := tmrsClrtimer_spec hs.toHolds tp
    refine ⟨t, l.erase tp, by rw [Cmd.exec, hclr]; rfl, ?_, hsetting⟩
    refine hs.of_sublist ht erase_sublist fun a ha => ?_
    have hne : a ≠ tp := (hs.linked.nodup.mem_erase_iff.mp ha).1
    rw [hsetting, update_of_ne hne]
  | set tp expTime watchdog arg =>
    obtain ⟨hnow, hothers⟩ := hc
    obtain ⟨t, r, hset, ht, hsetting⟩ := tmrsSettimer_spec hs.toHolds tp expTime watchdog arg
    have hself : due now t tp = rel now expTime := by
      rw [due, hsetting, update_self]
    have hrest : ∀ a ∈ l.erase tp, a ∈ l ∧ due now t a = due now s a ∧
        Near (rel now expTime) (due now s a) := by
      intro a ha
      obtain ⟨hne, hmem⟩ := hs.linked.nodup.mem_erase_iff.mp ha
      refine ⟨hmem, due_congr ?_, hothers a hne ((hs.mem_iff a).mp hmem)⟩
      rw [hsetting, update_of_ne hne]
    have hnear : ∀ a ∈ l.erase tp, Near (due now t tp) (due now t a) := by
      intro a ha
      rw [hself, (hrest a ha).2.1]
      exact (hrest a ha).2.2
    refine ⟨t, _, by rw [Cmd.exec, hset]; rfl,
      ⟨ht, fun a ha => ?_, fun a ha b hb => ?_, ?_⟩, hsetting⟩
    · rcases (mem_orderedInsert _).mp ha with rfl | ha
      · rwa [hself]
      · rw [(hrest a ha).2.1]
        exact hs.near_now a (hrest a ha).1
    · rcases (mem_orderedInsert _).mp ha with rfl | ha
      · rcases (mem_orderedInsert _).mp hb with rfl | hb
        · unfold Near tmrdiffMax
          omega
        · exact hnear b hb
      · rcases (mem_orderedInsert _).mp hb with rfl | hb
        · exact (hnear a ha).symm
        · rw [(hrest a ha).2.1, (hrest b hb).2.1]
          exact hs.near a (hrest a ha).1 b (hrest b hb).1
    · rw [map_orderedInsert _ (· ≤ ·) (due now t) _ _
        (fun a ha => tmrIsFirst_iff (hnear a ha).symm) fun a ha => tmrIsFirst_iff (hnear a ha)]
      refine List.Pairwise.orderedInsert _ _ ?_
      rw [map_congr_left fun a ha => (hrest a ha).2.1]
      exact hs.sorted.sublist (erase_sublist.map _)

def CmdsOk (now : Clock) : List (Cmd T F) → TimerQueue T F → Prop
  | [], _ => True
  | c :: cs, s => c.Ok now s ∧ c.Later now ∧ ∀ t, c.exec s = some t → CmdsOk now cs t

theorem execCmds_ordered {cs : List (Cmd T F)} (hs : Ordered now s l) (hcs : CmdsOk now cs s) :
    ∃ t l', execCmds cs s = some t ∧ Ordered now t l' ∧ ∀ a, t.setting a = s.setting a ∨
      (∃ c ∈ cs, c.tp = a) ∧ (Pending t a → 0 < due now t a) := by
  induction cs generalizing s l with
  | nil => exact ⟨s, l, rfl, hs, fun a => .inl rfl⟩
  | cons c cs ih =>
    obtain ⟨hok, hlater, hrest⟩ := hcs
    obtain ⟨u, l', hexec, hu, hsetting⟩ := Cmd.exec_ordered hs hok
    obtain ⟨t, l'', hexecs, ht, hcases⟩ := ih hu (hrest u hexec)
    refine ⟨t, l'', by rw [execCmds, hexec]; exact hexecs, ht, fun a => ?_⟩
    rcases hcases a with hkept | ⟨⟨d, hd, hda⟩, hpend⟩
    · rcases eq_or_ne a c.tp with rfl | hne
      · refine .inr ⟨⟨c, mem_cons_self, rfl⟩, fun hpend => ?_⟩
        rw [Pending, hkept, hsetting, update_self] at hpend
        rw [due, hkept, hsetting, update_self]
        cases c with
        | set tp expTime watchdog arg => exact hlater
        | clr tp => exact (hpend rfl).elim
      · rw [hsetting, update_of_ne hne] at hkept
        exact .inl hkept
    · exact .inr ⟨⟨d, mem_cons_of_mem c hd, hda⟩, hpend⟩

/-! ## The loop -/

/-- The watchdogs that the loop calls, from number `k` on, make only calls that are in order. -/
def WatchdogsOk (calls : Nat → List (Cmd T F)) (now : Clock) : Nat → Nat → TimerQueue T F → Prop
  | 0, _, _ => True
  | n + 1, k, s => ∀ r t, popExpired now s = some (r, t) → CmdsOk now (calls k) t ∧
    ∀ u, execCmds (calls k) t = some u → WatchdogsOk calls now n (k + 1) u

theorem watchdogsOk_nil (n k : Nat) (s : TimerQueue T F) : WatchdogsOk (fun _ => []) now n k s := by
  induction n generalizing k s with
  | zero => trivial
  | succ n ih => exact fun r t _ => ⟨trivial, fun u _ => ih (k + 1) u⟩

theorem fire_ordered {calls : Nat → List (Cmd T F)} {tp : T} {u : TimerQueue T F}
    (hs : Ordered now s (tp :: l)) (hu : Holds u l)
    (hsetting : u.setting = update s.setting tp { s.setting tp with func := none })
    (hcmds : CmdsOk now (calls k) u) :
    ∃ v l', execCmds (calls k) u = some v ∧ Ordered now v l' ∧
      (∀ a, Pending v a → due now v a ≤ 0 → a ≠ tp ∧ v.setting a = s.setting a) ∧
      ∀ a, a ≠ tp → v.setting a = s.setting a ∨ ∃ c ∈ calls k, c.tp = a := by
  have hsame : ∀ a, a ≠ tp → u.setting a = s.setting a := fun a ha => by
    rw [hsetting, update_of_ne ha]
  have hnot : tp ∉ l := (nodup_cons.mp hs.linked.nodup).1
  have hu' : Ordered now u l := hs.of_sublist hu (sublist_cons_self tp l) fun a ha => by
    refine hsame a ?_
    rintro rfl
    exact hnot ha
  obtain ⟨v, l', hexecs, hv, hcases⟩ := execCmds_ordered hu' hcmds
  refine ⟨v, l', hexecs, hv, fun a hpend hdue => ?_, fun a ha => ?_⟩
  · rcases hcases a with hkept | ⟨-, hlate⟩
    · have hne : a ≠ tp := by
        rintro rfl
        rw [Pending, hkept, hsetting, update_self] at hpend
        exact hpend rfl
      exact ⟨hne, hkept.trans (hsame a hne)⟩
    · exact absurd (hlate hpend) (Int.not_lt.mpr hdue)
  · exact (hcases a).imp (·.trans (hsame a ha)) (·.1)

theorem expLoop_spec {calls : Nat → List (Cmd T F)} (hs : Ordered now s l)
    (hn : (expired now s l).length < n) (hok : ∀ m, WatchdogsOk calls now m k s) :
    ∃ log t l', expLoop calls now n k s = some (log, t) ∧ Ordered now t l' ∧
      Expiry calls now k s t log := by
  induction n generalizing s l k with
  | zero => exact (Nat.not_lt_zero _ hn).elim
  | succ n ih =>
    -- nothing is left that has expired
    have hdone : popExpired now s = none → (∀ a ∈ l, 0 < due now s a) → ∃ log t l',
        expLoop calls now (n + 1) k s = some (log, t) ∧ Ordered now t l' ∧
        Expiry calls now k s t log := by
      intro hpop hlate
      refine ⟨[], s, l, by rw [expLoop, hpop], hs, by simp, by simp, by simp, fun a ha hdue => ?_,
        fun a ha => hlate a ((hs.mem_iff a).mpr ha)⟩
      exact absurd (hlate a ((hs.mem_iff a).mpr ha)) (Int.not_lt.mpr hdue)
    cases l with
    | nil => exact hdone (popExpired_nil now hs.toHolds) (by simp)
    | cons tp l =>
      obtain ⟨u, hpop, hu, hsetting⟩ := popExpired_cons now hs.toHolds
      have hexp := hs.expired_iff mem_cons_self
      have hsorted := pairwise_map.mp hs.sorted
      rw [pairwise_cons] at hsorted
      by_cases hfirst : tmrIsFirst (s.setting tp).expTime now = true
      · rw [if_pos hfirst] at hpop
        have hdue := hexp.mp hfirst
        obtain ⟨v, l', hexecs, hv, hold, hkept⟩ :=
          fire_ordered hs hu hsetting (hok 1 _ u hpop).1
        have hlen := Nat.lt_of_lt_of_le (expired_lt hs hv hdue hold) (le_of_lt_succ hn)
        obtain ⟨log, t, l'', hloop, ht, hx⟩ := ih hv hlen fun m => (hok (m + 1) _ u hpop).2 v hexecs
        have hpend : Pending s tp := (hs.mem_iff tp).mp mem_cons_self
        obtain ⟨f, hf⟩ := ne_none_iff_exists'.mp hpend
        refine ⟨⟨tp, (s.setting tp).func, (s.setting tp).arg⟩ :: log, t, l'', ?_, ht, ?_⟩
        · simp only [expLoop, hpop, hf, hexecs, hloop, map_some]
        · refine hx.cons hpend hdue (fun a ha => ?_) hold hkept
          rcases mem_cons.mp ((hs.mem_iff a).mpr ha) with rfl | ha
          · exact Int.le_refl _
          · exact hsorted.1 a ha
      · rw [if_neg hfirst] at hpop
        refine hdone hpop fun a ha => ?_
        have htp : 0 < due now s tp := by
          rw [hexp] at hfirst
          omega
        rcases mem_cons.mp ha with rfl | ha
        · exact htp
        · exact Int.lt_of_lt_of_le htp (hsorted.1 a ha)

theorem expLoop_add {calls : Nat → List (Cmd T F)} {x : List (Fired T F) × TimerQueue T F}
    (h : expLoop calls now n k s = some x) (m : Nat) : expLoop calls now (n + m) k s = some x := by
  induction n generalizing s k x with
  | zero => cases h
  | succ n ih =>
    rw [Nat.add_right_comm, expLoop]
    rw [expLoop] at h
    split at h
    · exact h
    split at h
    · obtain ⟨y, hy, hx⟩ := map_eq_some_iff.mp h
      rw [ih hy]
      exact congrArg some hx
    · cases h

theorem expLoop_unique {calls : Nat → List (Cmd T F)} {m : Nat}
    {x y : List (Fired T F) × TimerQueue T F} (hx : expLoop calls now n k s = some x)
    (hy : expLoop calls now m k s = some y) : x = y := by
  have hx' := expLoop_add hx m
  rw [Nat.add_comm, expLoop_add hy n] at hx'
  exact (some.inj hx').symm

end Ordered

/-! ## Runs -/

structure Clocked (T F : Type) where
  q : TimerQueue T F
  now : Clock

inductive TimerOp (T F : Type) where
  | cmd (c : Cmd T F)
  | expire (calls : Nat → List (Cmd T F))
  | tick

section Runs

variable {T F : Type} [DecidableEq T] [Fintype T] {s t : Clocked T F}

def TimerOp.Gives (s t : Clocked T F) : TimerOp T F → Prop
  | .cmd c => ∃ q, c.exec s.q = some q ∧ t = ⟨q, s.now⟩
  | .expire calls => ∃ fuel log q head,
    tmrsExptimers calls s.now fuel s.q = some (log, q, head) ∧ t = ⟨q, s.now⟩
  | .tick => t = ⟨s.q, s.now + 1⟩

def TimerOp.Proper (s : Clocked T F) : TimerOp T F → Prop
  | .cmd c => c.Ok s.now s.q
  | .expire calls => ∀ n, WatchdogsOk calls s.now n 0 s.q
  | .tick => ∀ a, Pending s.q a → Near (due (s.now + 1) s.q a) 0

def TimerStep (Adm : Clocked T F → TimerOp T F → Prop) (s t : Clocked T F) : Prop :=
  ∃ op, Adm s op ∧ op.Gives s t

theorem timerStep_ordered {l : List T} (hstep : TimerStep TimerOp.Proper s t)
    (hs : Ordered s.now s.q l) : ∃ l', Ordered t.now t.q l' := by
  obtain ⟨op, hok, hgives⟩ := hstep
  cases op with
  | cmd c =>
    obtain ⟨q, hexec, rfl⟩ := hgives
    obtain ⟨u, l', hexec', hu, -⟩ := Cmd.exec_ordered hs hok
    obtain rfl : q = u := some.inj (hexec.symm.trans hexec')
    exact ⟨l', hu⟩
  | expire calls =>
    obtain ⟨fuel, log, q, head, hexp, rfl⟩ := hgives
    obtain ⟨x, hloop, hx⟩ := map_eq_some_iff.mp hexp
    obtain ⟨log', u, l', hloop', hu, -⟩ := expLoop_spec hs (lt_succ_self _) hok
    obtain rfl := expLoop_unique hloop hloop'
    cases hx
    exact ⟨l', hu⟩
  | tick =>
    subst hgives
    exact ⟨l, hs.tick hok⟩

/-- In every state that is reached the queue is in order, and a call of `tmrs_exptimers` ends
having run what has expired. -/
theorem timers_in_order {s₀ : Clocked T F} (hnil : s₀.q.tmrs = none) (hclear : ∀ a, ¬Pending s₀.q a)
    (hrun : Relation.ReflTransGen (TimerStep TimerOp.Proper) s₀ s) :
    (∃ l, Linked s.q.next s.q.tmrs l ∧ l.Nodup ∧ (∀ a, a ∈ l ↔ Pending s.q a) ∧
      l.Pairwise fun a b => due s.now s.q a ≤ due s.now s.q b) ∧
    ∀ calls, (∀ n, WatchdogsOk calls s.now n 0 s.q) → ∃ fuel log t head,
      tmrsExptimers calls s.now fuel s.q = some (log, t, head) ∧
      Expiry calls s.now 0 s.q t log := by
  obtain ⟨l, hs⟩ : ∃ l, Ordered s.now s.q l := by
    induction hrun with
    | refl =>
      refine ⟨[], ⟨hnil, fun a => ?_⟩, by simp, by simp, by simp⟩
      exact iff_of_false (by simp) (hclear a)
    | tail _ hstep ih =>
      obtain ⟨l, hs⟩ := ih
      exact timerStep_ordered hstep hs
  refine ⟨⟨l, hs.linked, hs.linked.nodup, hs.mem_iff, pairwise_map.mp hs.sorted⟩,
    fun calls hok => ?_⟩
  obtain ⟨log, t, -, hloop, -, hx⟩ := expLoop_spec hs (lt_succ_self _) hok
  exact ⟨_, log, t, t.headTime, by rw [tmrsExptimers, hloop]; rfl, hx⟩

end Runs

def idle (now : Clock) : Clocked Bool Unit := ⟨⟨none, fun _ => ⟨⟨0, none, 0⟩, none⟩⟩, now⟩

theorem both_run_after_wrap : ∃ s,
    Relation.ReflTransGen (TimerStep TimerOp.Proper) (idle 0xFFFFFFFE) s ∧ ∃ fuel log t head,
      tmrsExptimers (fun _ => []) s.now fuel s.q = some (log, t, head) ∧
      ∀ a, a ∈ log.map (·.tp) := by
  obtain ⟨s, hrun, hexp, hok⟩ : ∃ s,
      Relation.ReflTransGen (TimerStep TimerOp.Proper) (idle 0xFFFFFFFE) s ∧
      (∀ a, Pending s.q a ∧ due s.now s.q a ≤ 0) ∧
        ∀ n, WatchdogsOk (fun _ => []) s.now n 0 s.q := by
    refine ⟨_, .tail (.tail (.tail (.tail (.single
      ⟨.cmd (.set true 1 () 0), ⟨by decide, by decide⟩, _, rfl, rfl⟩)
      ⟨.cmd (.set false 0 () 0), ⟨by decide, by decide⟩, _, rfl, rfl⟩)
      ⟨.tick, (by decide : ∀ a, Pending _ a → Near _ 0), rfl⟩)
      ⟨.tick, (by decide : ∀ a, Pending _ a → Near _ 0), rfl⟩)
      ⟨.tick, (by decide : ∀ a, Pending _ a → Near _ 0), rfl⟩, by decide,
      fun n => watchdogsOk_nil n 0 _⟩
  obtain ⟨fuel, log, t, head, hcall, hx⟩ :=
    (timers_in_order rfl (fun a h => h rfl) hrun).2 (fun _ => []) hok
  refine ⟨s, hrun, fuel, log, t, head, hcall, fun a => ?_⟩
  exact (hx.complete a (hexp a).1 (hexp a).2).resolve_right (by simp)

def Cmd.Within (now : Clock) : Cmd Bool Unit → Prop
  | .set _ expTime _ _ => Near (rel now expTime) 0
  | .clr _ => True

def TimerOp.Within (s : Clocked Bool Unit) : TimerOp Bool Unit → Prop
  | .cmd c => c.Within s.now
  | .expire calls => ∀ k, ∀ c ∈ calls k, c.Within s.now
  | .tick => ∀ a, Pending s.q a → Near (due (s.now + 1) s.q a) 0

/-- A timer that is two ticks late and one that is as far ahead as possible: the second goes to
the front, and the first is not run. -/
theorem late_timer_not_run : ∃ s, Relation.ReflTransGen (TimerStep TimerOp.Within) (idle 0) s ∧
    (∀ a, Pending s.q a ∧ Near (due s.now s.q a) 0) ∧ due s.now s.q true ≤ 0 ∧
    (∃ l, Linked s.q.next s.q.tmrs l ∧ ¬l.Pairwise fun a b => due s.now s.q a ≤ due s.now s.q b) ∧
    tmrsExptimers (fun _ => []) s.now 1 s.q = some ([], s.q, some 0x7FFFFFFF) := by
  refine ⟨_, .tail (.single ⟨.cmd (.set true 0xFFFFFFFE () 0), (by decide : Near _ 0), _, rfl, rfl⟩)
    ⟨.cmd (.set false 0x7FFFFFFF () 0), (by decide : Near _ 0), _, rfl, rfl⟩,
    by decide, by decide, ⟨[false, true], ⟨rfl, rfl, rfl⟩, by decide⟩, rfl⟩

end Gergios.Timers
