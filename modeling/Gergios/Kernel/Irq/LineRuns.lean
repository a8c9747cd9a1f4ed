import Gergios.Kernel.Irq.Hooks

/-!
# Runs of the interrupt system

Hooks may be registered, removed, enabled and disabled in any order, and interrupts may come in
between. The callers see to it that a hook is removed, enabled or disabled only while it is
registered, and that it is on one line at a time.
-/

namespace Gergios.Kernel.Irq

open Lib Function

inductive IrqOp (H : Type) where
  | put (h : H) (irq : Line)
  | rm (h : H)
  | enable (h : H)
  | disable (h : H)
  | handle (irq : Line) (r : H → Bool)

section Runs

variable {H : Type} {s t : Lines H} {lists : Line → List H} {irq : Line} {h : H}

def Lines.init (hook : H → Hook H) : Lines H := ⟨hook, fun _ => none, fun _ => 0, fun _ => false⟩

def OnLine (s : Lines H) (irq : Line) (h : H) : Prop :=
  ∃ l, Linked s.next (s.handlers irq) l ∧ h ∈ l

def Registered (s : Lines H) (h : H) : Prop := OnLine s (s.hook h).irq h

def IrqOp.Proper (s : Lines H) : IrqOp H → Prop
  | .put h irq => (∀ l, Linked s.next (s.handlers irq) l → l.length < 32) ∧
    ∀ j, OnLine s j h → j = irq
  | .rm h => Registered s h
  | .enable h => Registered s h
  | .disable h => Registered s h
  | .handle _ _ => True

theorem mem_of_onLine (hs : ∀ j, LineOk s j (lists j)) (hon : OnLine s irq h) : h ∈ lists irq := by
  obtain ⟨l, hl, hmem⟩ := hon
  rwa [hl.unique (hs irq).chain] at hmem

theorem lines_of_step {l l' : List H} (hs : ∀ j, LineOk s j (lists j)) (ht : LineOk t irq l')
    (hoff : OffLine s t irq l) (hdisj : ∀ j, j ≠ irq → ∀ a ∈ lists j, a ∉ l) (j : Line) :
    LineOk t j (update lists irq l' j) := by
  rcases eq_or_ne j irq with rfl | hne
  · rwa [update_self]
  · rw [update_of_ne hne]
    exact hoff.lineOk hne (hs j) (hdisj j hne)

theorem not_mem_other (hs : ∀ j, LineOk s j (lists j)) {j : Line} (hj : j ≠ irq) {a : H}
    (ha : a ∈ lists j) : a ∉ lists irq := fun ha' =>
  hj ((hs j).toHookList.eq_of_mem (hs irq).toHookList ha ha')

variable [DecidableEq H] [Fintype H]

def IrqOp.exec (s : Lines H) : IrqOp H → Except Fault (Lines H)
  | .put h irq => putIrqHandler s h irq.val
  | .rm h => rmIrqHandler s h
  | .enable h => .ok (enableIrq s h)
  | .disable h => .ok (disableIrq s h)
  | .handle irq r => irqHandle s irq r

def IrqStep (Adm : Lines H → IrqOp H → Prop) (s t : Lines H) : Prop :=
  ∃ op, Adm s op ∧ op.exec s = .ok t

theorem putIrqHandler_of_mem {l : List H} (hl : HookList s irq l) (hh : h ∈ l) :
    putIrqHandler s h irq.val = .ok s := by
  rw [putIrqHandler, toLine_val]
  simp only [addHook_of_mem hl hh]

theorem IrqOp.exec_ok {op : IrqOp H} (hs : ∀ j, LineOk s j (lists j)) (hop : op.Proper s) :
    ∃ (t : Lines H) (lists' : Line → List H), op.exec s = .ok t ∧ ∀ j, LineOk t j (lists' j) := by
  have hnil : ∀ {irq : Line} (j : Line), j ≠ irq → ∀ a ∈ lists j, a ∉ ([] : List H) := by simp
  cases op with
  | put h irq =>
    obtain ⟨hlen, hother⟩ := hop
    by_cases hh : h ∈ lists irq
    · exact ⟨s, lists, putIrqHandler_of_mem (hs irq).toHookList hh, hs⟩
    · obtain ⟨t, heq, ht, hoff⟩ := putIrqHandler_lineOk (hs irq) (hlen _ (hs irq).chain) hh
      refine ⟨t, _, heq, lines_of_step hs ht hoff fun j hj a ha => ?_⟩
      rw [List.mem_cons, not_or]
      refine ⟨?_, not_mem_other hs hj ha⟩
      rintro rfl
      exact hj (hother j ⟨_, (hs j).chain, ha⟩)
  | rm h =>
    obtain ⟨t, pre, post, heq, hlist, ht, hoff⟩ :=
      rmIrqHandler_lineOk (hs _) (mem_of_onLine hs hop)
    refine ⟨t, _, heq, lines_of_step hs ht hoff fun j hj a ha hmem => not_mem_other hs hj ha ?_⟩
    rw [hlist]
    exact (by simp : (pre ++ post).Sublist (pre ++ h :: post)).subset hmem
  | enable h =>
    have hl := hs (s.hook h).irq
    obtain ⟨ht, hoff⟩ := enableIrq_lineOk hl.toHookList (mem_of_onLine hs hop) hl.acts hl.masked
    exact ⟨_, _, rfl, lines_of_step hs ht hoff hnil⟩
  | disable h =>
    obtain ⟨ht, hoff⟩ := disableIrq_lineOk (hs (s.hook h).irq) (mem_of_onLine hs hop)
    exact ⟨_, _, rfl, lines_of_step hs ht hoff hnil⟩
  | handle irq r =>
    obtain ⟨t, heq, ht, hoff⟩ := irqHandle_lineOk (hs irq) r
    exact ⟨t, _, heq, lines_of_step hs ht hoff hnil⟩

/-- In every run of proper steps the hooks of each line have different single-bit ids, only bits of
registered hooks are set, and the line is unmasked iff it has a hook and no bit is set. No step
panics or fails to end. -/
theorem lines_disciplined {hook : H → Hook H}
    (hrun : Relation.ReflTransGen (IrqStep IrqOp.Proper) (Lines.init hook) s) :
    (∀ irq, ∃ l, LineOk s irq l) ∧ ∀ op : IrqOp H, op.Proper s → ∃ t, op.exec s = .ok t := by
  suffices hinv : ∃ lists : Line → List H, ∀ irq, LineOk s irq (lists irq) by
    obtain ⟨lists, hs⟩ := hinv
    refine ⟨fun irq => ⟨_, hs irq⟩, fun op hop => ?_⟩
    obtain ⟨t, -, heq, -⟩ := op.exec_ok hs hop
    exact ⟨t, heq⟩
  induction hrun with
  | refl =>
    refine ⟨fun _ => [], fun irq => ⟨⟨rfl, by simp, by simp, by simp⟩,
      fun j hj => ?_, by simp [Lines.init]⟩⟩
    simp [Lines.init] at hj
  | tail _ hstep ih =>
    obtain ⟨lists, hs⟩ := ih
    obtain ⟨op, hop, hexec⟩ := hstep
    obtain ⟨t, lists', heq, ht⟩ := op.exec_ok hs hop
    cases hexec.symm.trans heq
    exact ⟨lists', ht⟩

end Runs

def twoHooks : Lines (Fin 2) := Lines.init fun _ => ⟨none, 0, 0⟩

/-- Hook 0 is registered and disabled. -/
theorem one_hook_disciplined : ∃ s : Lines (Fin 2),
    Relation.ReflTransGen (IrqStep IrqOp.Proper) twoHooks s ∧ s.handlers 3 = some 0 ∧
      s.actids 3 = 1 ∧ s.unmasked 3 = false ∧ ∃ l, LineOk s 3 l := by
  have hput : (IrqOp.put 0 3 : IrqOp (Fin 2)).Proper twoHooks := by
    have hempty : ∀ j l, Linked twoHooks.next (twoHooks.handlers j) l → l = [] :=
      fun j l hl => hl.unique (show Linked twoHooks.next none [] from rfl)
    refine ⟨fun l hl => ?_, fun j hj => ?_⟩
    · rw [hempty 3 l hl]
      decide
    · obtain ⟨l, hl, hmem⟩ := hj
      rw [hempty j l hl] at hmem
      cases hmem
  have hrun : Relation.ReflTransGen (IrqStep IrqOp.Proper) twoHooks _ :=
    .tail (.single ⟨.put 0 3, hput, rfl⟩) ⟨.disable 0, ⟨[0], ⟨rfl, rfl⟩, by simp⟩, rfl⟩
  exact ⟨_, hrun, rfl, rfl, rfl, (lines_disciplined hrun).1 3⟩

/-- Hook 0 is enabled after it has been removed: the line is unmasked without a hook. Hook 0 is
disabled after it has been removed: a bit is set that no hook has. Hook 0 is moved to line 4 while
hook 1 is behind it: hook 1 is no longer on line 3. -/
theorem lines_undisciplined : (∃ s, Relation.ReflTransGen (IrqStep fun _ _ => True) twoHooks s ∧
      s.handlers 3 = none ∧ s.unmasked 3 = true) ∧
    (∃ s, Relation.ReflTransGen (IrqStep fun _ _ => True) twoHooks s ∧
      s.handlers 3 = none ∧ s.actids 3 = 1) ∧
    ∃ s, Relation.ReflTransGen (IrqStep fun _ _ => True) twoHooks s ∧
      s.handlers 3 = some 0 ∧ (s.hook 0).irq = 4 ∧ (s.hook 1).irq = 3 ∧ (s.hook 0).next = none := by
  exact ⟨⟨_, .tail (.tail (.single ⟨.put 0 3, trivial, rfl⟩) ⟨.rm 0, trivial, rfl⟩)
      ⟨.enable 0, trivial, rfl⟩, rfl, rfl⟩,
    ⟨_, .tail (.tail (.single ⟨.put 0 3, trivial, rfl⟩) ⟨.rm 0, trivial, rfl⟩)
      ⟨.disable 0, trivial, rfl⟩, rfl, rfl⟩,
    ⟨_, .tail (.tail (.single ⟨.put 0 3, trivial, rfl⟩) ⟨.put 1 3, trivial, rfl⟩)
      ⟨.put 0 4, trivial, rfl⟩, rfl, rfl, rfl, rfl⟩⟩

end Gergios.Kernel.Irq
