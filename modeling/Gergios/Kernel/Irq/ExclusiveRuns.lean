import Gergios.Kernel.Irq.Exclusive

/-!
# Runs of interrupt requests

What holds in every state as long as the drivers free only what is theirs and keep their pages
apart, and a run in which they do not.
-/

namespace Gergios.Kernel.Irq

open Function

inductive IrqEvent where
  | request (caller : Endpoint) (priv : Option IrqPriv) (r : IrqRequest)
  | clear (e : Endpoint)
  | spawn (e : Endpoint)

section Runs

variable {K : Type} {s t : IrqState K}

def IrqEvent.Enabled (s : IrqState K) : IrqEvent → Prop
  | .request caller _ _ => s.live caller = true
  | .clear _ => True
  | .spawn e => e ≠ noneE ∧ s.live e = false

def IrqEvent.Careful (s : IrqState K) : IrqEvent → Prop
  | .request _ _ (.setPolicy vec _) => ∀ v, msixIdx vec = some v → s.msixBitmap v = true
  | .request _ _ (.msixFree vec) => ∀ v i, msixIdx vec = some v →
    s.live (s.procNrE i) = true → ¬OnLine s.lines (msixIrq v) (.inl i)
  | .request _ _ (.threadSetMmio vec policy) => ∀ irq, toLine vec = .ok irq →
    policy.toNat % pageSize = 0 ∧
    (∀ j, (s.mmio j).valid = true →
      j.val % irqThreadMmioPages = irq.val % irqThreadMmioPages → j = irq) ∧
    ∀ base, s.pagedir (vmPde (mmioAddr irq)) ≠ .large base
  | .clear e => ∀ v i j, OnLine s.lines (msixIrq v) (.inl i) → OnLine s.lines (msixIrq v) (.inl j) →
    s.procNrE i = e → s.procNrE j = e
  | _ => True

structure Started (s : IrqState K) : Prop where
  free : ∀ i, s.procNrE i = noneE
  lists : ∃ lists : Line → List (HookId ⊕ K),
    (∀ j, HookList s.lines j (lists j)) ∧ ∀ i j, .inl i ∉ lists j
  unmapped : ∀ irq, (s.mmio irq).valid = false
  none_dead : s.live noneE = false

variable {vec : Int} {r : Reply}
  {irq : Line} {caller : Endpoint} {priv : Option IrqPriv} {notify : Int}

theorem Started.hooksOk (hs : Started s) : HooksOk s := by
  obtain ⟨lists, hlists, hnot⟩ := hs.lists
  refine ⟨⟨lists, hlists, fun i j => ?_⟩, fun i hi => (hi (hs.free i)).elim, hs.none_dead,
    fun i v hi => (hi (hs.free i)).elim⟩
  exact iff_of_false (hnot i j) fun h => h.1 (hs.free i)

theorem Started.windowOk (hs : Started s) : WindowOk s := by
  refine ⟨fun irq h => ?_, fun irq j h => ?_⟩ <;>
  · rw [hs.unmapped irq] at h
    cases h

theorem WindowOk.translate_eq {up : Upper} (hup : up.ShowsWindow) (hw : WindowOk s)
    (hv : (s.mmio irq).valid = true) :
    translate up s.pagedir (s.mmio irq).virtAddr = some (s.mmio irq).physAddr ∧
      deviceRegister up s irq = some (some ((s.mmio irq).physAddr + 8)) := by
  obtain ⟨haddr, hpte⟩ := hw.mapped irq hv
  have hne : mmioAddr irq ≠ 0 := by
    rw [mmioAddr, irqThreadMmioBase]
    omega
  rw [deviceRegister, haddr, if_pos ⟨hv, hne⟩]
  exact ⟨translate_mmioAddr_add hup irq 0 (by decide) hpte,
    congrArg some (translate_mmioAddr_add hup irq 8 (by decide) hpte)⟩

theorem doMsixAlloc_ok {v : Line} (hs : HooksOk s) {i : HookId}
    (h : doMsixAlloc s = (t, .ok (some (v + 1)))) : ¬OnLine t.lines v (.inl i) := by
  unfold doMsixAlloc msixAllocIrq at h
  cases hfind : (List.finRange nrMsixIrqs).find? fun i => !s.msixBitmap i with
  | none =>
    rw [hfind] at h
    cases h
  | some w =>
    have hw := List.find?_some hfind
    simp only [hfind, Prod.mk.injEq, Except.ok.injEq, Option.some.injEq, Nat.add_right_cancel_iff]
      at h
    obtain ⟨rfl, hval⟩ := h
    obtain rfl : msixIrq w = v := Fin.ext hval
    obtain ⟨lists, hb⟩ := hs.bound
    rw [hb.onLine_iff]
    rintro ⟨hi, hirq⟩
    simp [hs.vectors i w hi hirq] at hw

theorem doMsixAlloc_inv (hs : HooksOk s) (hw : WindowOk s) :
    HooksOk (doMsixAlloc s).1 ∧ WindowOk (doMsixAlloc s).1 := by
  unfold doMsixAlloc msixAllocIrq
  cases (List.finRange nrMsixIrqs).find? fun i => !s.msixBitmap i with
  | none => exact ⟨hs, hw⟩
  | some w =>
    refine ⟨⟨hs.bound, hs.owners, hs.none_dead, fun i v hi hv => ?_⟩, hw.congr rfl rfl⟩
    rcases eq_or_ne v w with rfl | hne
    · exact update_self ..
    · exact (update_of_ne hne ..).trans (hs.vectors i v hi hv)

theorem doMsixFree_ok (hs : HooksOk s) (hw : WindowOk s)
    (hfree : ∀ v i, msixIdx vec = some v → s.live (s.procNrE i) = true →
      ¬OnLine s.lines (msixIrq v) (.inl i))
    (h : doMsixFree s vec = (t, r)) : HooksOk t ∧ WindowOk t := by
  unfold doMsixFree at h
  split at h
  · cases h
    exact ⟨hs, hw⟩
  rename_i v hidx
  split at h
  · cases h
    obtain ⟨lists, hb⟩ := hs.bound
    refine ⟨⟨⟨lists, hb⟩, hs.owners, hs.none_dead, fun i w hi hirq => ?_⟩, hw.congr rfl rfl⟩
    have hne : w ≠ v := by
      rintro rfl
      exact hfree w i hidx (hs.owners i hi) (hb.onLine_iff.mpr ⟨hi, hirq⟩)
    rw [msixFreeIrq]
    simp only [update_of_ne hne]
    exact hs.vectors i w hi hirq
  · cases h
    exact ⟨hs, hw⟩

theorem doThreadSetMmio_ok {policy : BitVec 32} (hs : HooksOk s)
    (hw : WindowOk s) (hcare : ∀ irq, toLine vec = .ok irq → policy.toNat % pageSize = 0 ∧
      (∀ j, (s.mmio j).valid = true →
        j.val % irqThreadMmioPages = irq.val % irqThreadMmioPages → j = irq) ∧
      ∀ base, s.pagedir (vmPde (mmioAddr irq)) ≠ .large base)
    (h : doThreadSetMmio s vec policy = .ok (t, r)) : HooksOk t ∧ WindowOk t := by
  unfold doThreadSetMmio at h
  split at h
  · cases h
    exact ⟨hs, hw⟩
  rename_i irq hline
  obtain ⟨halign, hapart, hlarge⟩ := hcare irq hline
  have hpfa : vmPfa policy.toNat = policy.toNat := by
    unfold vmPfa
    unfold pageSize at halign ⊢
    omega
  split at h
  · cases h
    exact ⟨hs, hw⟩
  split at h
  · cases h
  all_goals
    rename_i hset
    cases h
    exact irqThreadSetMmio_spec hset hs hw hpfa hapart hlarge

variable [DecidableEq K] [Fintype K]

def IrqEvent.exec (s : IrqState K) : IrqEvent → Except Fault (IrqState K × Reply)
  | .request caller priv r => doIrqctl s caller priv r
  | .clear e => doClear s e
  | .spawn e => .ok ({ s with live := update s.live e true }, .ok none)

def IrqctlStep (Adm : IrqState K → IrqEvent → Prop) (s t : IrqState K) : Prop :=
  ∃ ev r, ev.Enabled s ∧ Adm s ev ∧ ev.exec s = .ok (t, r)

theorem toLine_eq_ok (h : toLine vec = .ok irq) : vec = irq.val := by
  unfold toLine at h
  split at h
  · cases h
    simp only
    omega
  · cases h

theorem doSetPolicy_ok (hs : HooksOk s) (hw : WindowOk s) (hc : s.live caller = true)
    (hvec : ∀ v, msixIdx vec = some v → s.msixBitmap v = true)
    (h : doSetPolicy s caller priv vec notify = .ok (t, r)) : HooksOk t ∧ WindowOk t := by
  unfold doSetPolicy at h
  split at h
  · cases h
    exact ⟨hs, hw⟩
  · cases h
    exact ⟨hs, hw⟩
  · rename_i irq priv hline
    obtain rfl := toLine_eq_ok hline
    split at h
    · split at h
      · cases h
        exact ⟨hs, hw⟩
      · split at h
        · cases h
        · cases h
          exact ⟨hs, hw⟩
        · rename_i u i hbind
          cases h
          obtain ⟨hu, hmmio, hdir⟩ := bindHook_hooksOk (installs_putIrqHandler irq) hs hc
            (fun v hv => hvec v (hv ▸ msixIdx_msixIrq v)) hbind
          exact ⟨hu.congr rfl rfl rfl rfl, hw.congr hmmio hdir⟩
    · cases h
      exact ⟨hs, hw⟩

theorem doMsixSetPolicy_ok (hs : HooksOk s) (hw : WindowOk s) (hc : s.live caller = true)
    (h : doMsixSetPolicy s caller priv vec notify = .ok (t, r)) : HooksOk t ∧ WindowOk t := by
  unfold doMsixSetPolicy at h
  split at h
  · cases h
    exact ⟨hs, hw⟩
  rename_i v hidx
  split at h
  · rename_i halloc
    split at h
    · cases h
      exact ⟨hs, hw⟩
    · cases h
      exact ⟨hs, hw⟩
    · split at h
      · cases h
      · cases h
        exact ⟨hs, hw⟩
      · rename_i u i hbind
        cases h
        have hvec : ∀ w, msixIrq v = msixIrq w → s.msixBitmap w = true := by
          intro w hw'
          have hvw : some v = some w := by rw [← msixIdx_msixIrq v, hw', msixIdx_msixIrq w]
          exact Option.some.inj hvw ▸ halloc
        obtain ⟨hu, hmmio, hdir⟩ :=
          bindHook_hooksOk (installs_putMsixHandler (msixIrq v)) hs hc hvec hbind
        exact ⟨hu, hw.congr hmmio hdir⟩
  · cases h
    exact ⟨hs, hw⟩

theorem irqctlStep_ok (hstep : IrqctlStep IrqEvent.Careful s t) (hs : HooksOk s)
    (hw : WindowOk s) : HooksOk t ∧ WindowOk t := by
  obtain ⟨ev, r, hen, hcare, hexec⟩ := hstep
  obtain ⟨lists, hb⟩ := hs.bound
  -- enabling and disabling a hook changes bits and masks only
  have hlists : ∀ l : Lines (HookId ⊕ K), l.hook = s.lines.hook → l.handlers = s.lines.handlers →
      HooksOk { s with lines := l } := by
    intro l hhook hheads
    refine ⟨⟨lists, hb.congr hhook hheads⟩, hs.owners, hs.none_dead, fun i v hi hv => ?_⟩
    simp only [hhook] at hv
    exact hs.vectors i v hi hv
  cases ev with
  | clear e =>
    refine doClear_ok hs hw (fun he i j v hi hj hje hiv hjv => hje ?_) hexec
    exact hcare v i j (hb.onLine_iff.mpr ⟨hi ▸ he, hiv⟩) (hb.onLine_iff.mpr ⟨hj, hjv⟩) hi
  | spawn e =>
    cases hexec
    refine ⟨⟨hs.bound, fun i hi => ?_, ?_, hs.vectors⟩, hw.congr rfl rfl⟩
    · simp only
      rcases eq_or_ne (s.procNrE i) e with heq | hne
      · rw [heq, update_self]
      · rw [update_of_ne hne]
        exact hs.owners i hi
    · simp only [update_of_ne (Ne.symm hen.1)]
      exact hs.none_dead
  | request caller priv req =>
    cases req with
    | enable hookId =>
      simp only [IrqEvent.exec, doIrqctl] at hexec
      split at hexec
      · cases hexec
        exact ⟨hs, hw⟩
      · cases hexec
        obtain ⟨hhook, hheads⟩ := enableIrq_lists s.lines _
        exact ⟨hlists _ hhook hheads, hw.congr rfl rfl⟩
    | disable hookId =>
      simp only [IrqEvent.exec, doIrqctl] at hexec
      split at hexec
      · cases hexec
        exact ⟨hs, hw⟩
      · cases hexec
        obtain ⟨hhook, hheads⟩ := disableIrq_lists s.lines _
        exact ⟨hlists _ hhook hheads, hw.congr rfl rfl⟩
    | setPolicy vec notify => exact doSetPolicy_ok hs hw hen hcare hexec
    | rmPolicy hookId => exact doRmPolicy_ok hs hw hexec
    | msixAlloc =>
      obtain rfl : (doMsixAlloc s).1 = t := congrArg Prod.fst (Except.ok.inj hexec)
      exact doMsixAlloc_inv hs hw
    | msixFree vec => exact doMsixFree_ok hs hw hcare (Except.ok.inj hexec)
    | msixSetPolicy vec notify => exact doMsixSetPolicy_ok hs hw hen hexec
    | threadSetMmio vec policy => exact doThreadSetMmio_ok hs hw hcare hexec

end Runs

variable (dir : PageDir)

def startState : IrqState Empty where
  lines := Lines.init fun _ => ⟨none, 0, 0⟩
  procNrE _ := noneE
  notifyId _ := 0
  msixBitmap _ := false
  registered _ := false
  mmio _ := ⟨false, 0, 0⟩
  pagedir := dir
  pagetables := 5
  live _ := false

theorem startState_started : Started (startState dir) := by
  refine ⟨fun _ => rfl, ⟨fun _ => [], fun j => ⟨rfl, ?_, ?_, List.nodup_nil⟩, ?_⟩, fun _ => rfl,
    rfl⟩
  all_goals simp

/-- Nothing but the window leads to `pagedir`: its pages lie on both sides of 4 GB. -/
def windowOnly : Upper := ⟨fun i j => i.val == 0 && (j.val == 3 || j.val == 4), fun _ _ => none⟩

theorem windowOnly_shows : windowOnly.ShowsWindow := by
  unfold Upper.ShowsWindow
  decide +kernel

/-- `pg_identity` -/
def identityDir : PageDir := fun i => .large (i * 2 ^ 21)

/-- A vector is handed out whose hook is still there, and a page of device registers is not the one
that was asked for. -/
def SharesResources : Prop :=
  ∃ s, Relation.ReflTransGen (IrqctlStep fun _ _ => True) (startState dir) s ∧
    (∃ t, ∃ v : Line, ∃ i, doIrqctl s 21 none .msixAlloc = .ok (t, .ok (some (v + 1))) ∧
      t.live (t.procNrE i) = true ∧ OnLine t.lines v (.inl i)) ∧
    (s.mmio 4).valid = true ∧
    ∀ up : Upper, up.ShowsWindow →
      translate up s.pagedir (s.mmio 4).virtAddr ≠ some (s.mmio 4).physAddr

end Gergios.Kernel.Irq
