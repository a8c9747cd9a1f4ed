import Gergios.Kernel.Irq.Irqctl

/-!
# Who owns vectors and registers

A vector that `IRQ_MSIX_ALLOC` hands out should have no hook left on it, and the window of an IRQ
should show the registers of its own device. Neither is enforced: anyone may free any vector, and
four pages serve all IRQs.
-/

namespace Gergios.Kernel.Irq

open Function List

/-! ## Hooks and their owners -/

section Bound

variable {K : Type} {l t : Lines (HookId ⊕ K)} {owner : HookId → Endpoint}
  {lists : Line → List (HookId ⊕ K)} {i : HookId} {irq : Line} {e : Endpoint}

structure Bound (l : Lines (HookId ⊕ K)) (owner : HookId → Endpoint)
    (lists : Line → List (HookId ⊕ K)) : Prop where
  line : ∀ j, HookList l j (lists j)
  mem_iff : ∀ i j, .inl i ∈ lists j ↔ owner i ≠ noneE ∧ (l.hook (.inl i)).irq = j

section

variable (hb : Bound l owner lists)

include hb

variable {irq : Line} {r : Reply}

theorem Bound.congr (hhook : t.hook = l.hook) (hheads : t.handlers = l.handlers) :
    Bound t owner lists := by
  refine ⟨fun j => (hb.line j).congr (congrFun hheads j) fun a _ => congrFun hhook a, ?_⟩
  rw [hhook]
  exact hb.mem_iff

theorem Bound.onLine_iff :
    OnLine l irq (.inl i) ↔ owner i ≠ noneE ∧ (l.hook (.inl i)).irq = irq := by
  rw [← hb.mem_iff]
  constructor
  · rintro ⟨l', hl', hmem⟩
    rwa [hl'.unique (hb.line irq).chain] at hmem
  · exact fun hmem => ⟨lists irq, (hb.line irq).chain, hmem⟩

theorem Bound.put {owner' : HookId → Endpoint} {l₀ l' : List (HookId ⊕ K)}
    (hl' : HookList t irq l') (hoff : OffLine l t irq l₀)
    (hdisj : ∀ j, j ≠ irq → ∀ a ∈ lists j, a ∉ l₀)
    (hirq : ∀ k j, j ≠ irq → (owner' k ≠ noneE ∧ (t.hook (.inl k)).irq = j ↔
      owner k ≠ noneE ∧ (l.hook (.inl k)).irq = j))
    (hmem : ∀ k, .inl k ∈ l' ↔ owner' k ≠ noneE ∧ (t.hook (.inl k)).irq = irq) :
    Bound t owner' (update lists irq l') := by
  refine ⟨fun j => ?_, fun k j => ?_⟩
  · rcases eq_or_ne j irq with rfl | hj
    · rwa [update_self]
    · rw [update_of_ne hj]
      exact hoff.hookList hj (hb.line j) (hdisj j hj)
  · rcases eq_or_ne j irq with rfl | hj
    · rw [update_self]
      exact hmem k
    · rw [update_of_ne hj, hirq k j hj]
      exact hb.mem_iff k j

variable [DecidableEq K] [Fintype K]

theorem Bound.rm (hi : owner i ≠ noneE) :
    ∃ t lists', rmIrqHandler l (.inl i) = .ok t ∧ Bound t (update owner i noneE) lists' ∧
      ∀ a, (t.hook a).irq = (l.hook a).irq := by
  have hmem : .inl i ∈ lists (l.hook (.inl i)).irq := (hb.mem_iff i _).mpr ⟨hi, rfl⟩
  have hline := hb.line (l.hook (.inl i)).irq
  generalize hirq : (l.hook (.inl i)).irq = irq at hmem hline
  obtain ⟨pre, post, hsplit⟩ := append_of_mem hmem
  have hlist := hsplit ▸ hline
  obtain ⟨b, hrm, -⟩ := rmIrqHandler_eq hlist
  have hirqs : ∀ a, ((removed l irq pre.getLast? (.inl i)).hook a).irq = (l.hook a).irq :=
    fun a => (removed_hook ..).1
  refine ⟨_, update lists irq (pre ++ post), hrm, ?_, hirqs⟩
  have hremoved : Bound (removed l irq pre.getLast? (.inl i)) (update owner i noneE)
      (update lists irq (pre ++ post)) := by
    refine hb.put hlist.remove (removed_offLine l irq _ pre post) ?_ ?_ ?_
    · intro j hj a ha ha'
      refine hj ((hb.line j).eq_of_mem hline ha ?_)
      rw [hsplit]
      exact (by simp : (pre ++ post).Sublist _).subset ha'
    · intro k j hj
      rw [hirqs]
      rcases eq_or_ne k i with rfl | hk
      · simp [hirq, hj.symm]
      · rw [update_of_ne hk]
    · intro k
      rw [hirqs]
      have hold := hb.mem_iff k irq
      rw [hsplit] at hold
      rcases eq_or_ne k i with rfl | hk
      · simp [(nodup_middle.mp hlist.chain.nodup).notMem]
      · rw [update_of_ne hk, ← hold]
        simp [hk]
  exact hremoved.congr rfl rfl

theorem Bound.add {r : Option (Lines (HookId ⊕ K))} (hi : owner i = noneE) (he : e ≠ noneE)
    (hadd : addHook l (.inl i) irq = .ok r) :
    ∃ t lists', r = some t ∧ Bound t (update owner i e) lists' ∧
      (t.hook (.inl i)).irq = irq ∧ ∀ a, a ≠ .inl i → (t.hook a).irq = (l.hook a).irq := by
  have hnot : ∀ j, .inl i ∉ lists j := fun j hmem => ((hb.mem_iff i j).mp hmem).1 hi
  rw [addHook_of_not_mem (hb.line irq) (hnot irq)] at hadd
  cases hid : freeId (usedIds l (lists irq)) with
  | none =>
    rw [hid] at hadd
    cases hadd
  | some id =>
    rw [hid] at hadd
    obtain ⟨hlist, hoff, -⟩ := appended_spec (hb.line irq) (hnot irq) hid
    obtain ⟨hself, hkeep, -⟩ := appended_hook l irq (hnot irq) id
    have hself' := congrArg Hook.irq hself
    have hkeep' : ∀ a, a ≠ .inl i → ((appended l irq (lists irq) (.inl i) id).hook a).irq =
        (l.hook a).irq := fun a ha => (hkeep a ha).1
    refine ⟨_, _, (Except.ok.inj hadd).symm, hb.put hlist hoff ?_ ?_ ?_, hself', hkeep'⟩
    · intro j hj a ha hmem
      rcases mem_cons.mp hmem with rfl | hmem
      · exact hnot j ha
      · exact hj ((hb.line j).eq_of_mem (hb.line irq) ha hmem)
    · intro k j hj
      rcases eq_or_ne k i with rfl | hk
      · rw [hself']
        simp [hi, hj.symm]
      · rw [update_of_ne hk, hkeep' _ fun h => hk (Sum.inl.inj h)]
    · intro k
      rcases eq_or_ne k i with rfl | hk
      · rw [hself']
        simp [he]
      · rw [update_of_ne hk, hkeep' _ fun h => hk (Sum.inl.inj h), ← hb.mem_iff]
        simp [hk]

end

end Bound

/-! ## The window -/

section Window

variable {dir : PageDir} {a b : Nat}

def pteAt (dir : PageDir) (vaddr : Nat) : Option Nat :=
  match dir (vmPde vaddr) with
  | .table pt => pt (vmPte vaddr)
  | _ => none

theorem walk_of_pteAt {p : Nat} (h : pteAt dir a = some p) :
    walk dir a = some (p + a % pageSize) := by
  unfold pteAt at h
  unfold walk
  split at h <;> simp_all

theorem pteAt_setPte_of_ne (hne : vmPte b ≠ vmPte a) (p : Option Nat) :
    pteAt (setPte dir a p) b = pteAt dir b := by
  unfold setPte
  split
  · rename_i pt ht
    rcases eq_or_ne (vmPde b) (vmPde a) with heq | hne'
    · simp [pteAt, heq, ht, update_of_ne hne]
    · simp [pteAt, update_of_ne hne']
  · rfl

theorem pteAt_newTable (h : dir (vmPde a) = .absent) :
    pteAt (update dir (vmPde a) (.table fun _ => none)) b = pteAt dir b := by
  rcases eq_or_ne (vmPde b) (vmPde a) with heq | hne
  · simp [pteAt, heq, h]
  · simp [pteAt, update_of_ne hne]

theorem vmPte_mmioAddr {j : Line} (h : vmPte (mmioAddr irq) = vmPte (mmioAddr j)) :
    irq.val % irqThreadMmioPages = j.val % irqThreadMmioPages := by
  simp only [vmPte, mmioAddr, irqThreadMmioPages, pageSize, Fin.ext_iff, Fin.val_ofNat] at h ⊢
  omega

theorem mmioAddr_page (irq : Line) : mmioAddr irq % pageSize = 0 := by
  simp only [mmioAddr, irqThreadMmioBase, pageSize]
  omega

/-- An offset into a page of the window changes none of the four indices. -/
theorem translate_mmioAddr_add {up : Upper} (hup : up.ShowsWindow) (irq : Line) (off : Nat)
    {p : Nat} (hoff : off < pageSize) (h : pteAt dir (mmioAddr irq) = some p) :
    translate up dir (mmioAddr irq + off) = some (p + off) := by
  have hpage := mmioAddr_page irq
  have hpml4 : vmPml4e (mmioAddr irq + off) = vmPml4e (mmioAddr irq) := by
    simp only [vmPml4e, pageSize, Fin.ext_iff, Fin.val_ofNat] at hoff hpage ⊢
    omega
  have hpdp : vmPdpe (mmioAddr irq + off) = vmPdpe (mmioAddr irq) := by
    simp only [vmPdpe, pageSize, Fin.ext_iff, Fin.val_ofNat] at hoff hpage ⊢
    omega
  have hpde : vmPde (mmioAddr irq + off) = vmPde (mmioAddr irq) := by
    simp only [vmPde, pageSize, Fin.ext_iff, Fin.val_ofNat] at hoff hpage ⊢
    omega
  have hpte : vmPte (mmioAddr irq + off) = vmPte (mmioAddr irq) := by
    simp only [vmPte, pageSize, Fin.ext_iff, Fin.val_ofNat] at hoff hpage ⊢
    omega
  have hsame : pteAt dir (mmioAddr irq + off) = some p := by
    rw [pteAt, hpde, hpte]
    exact h
  rw [translate, hpml4, hpdp, hup irq, if_pos rfl, walk_of_pteAt hsame, Nat.add_mod, hpage,
    Nat.zero_add, Nat.mod_mod, Nat.mod_eq_of_lt hoff]

end Window

/-! ## The invariants -/

section Invariant

variable {K : Type} {s t : IrqState K}

structure HooksOk (s : IrqState K) : Prop where
  bound : ∃ lists, Bound s.lines s.procNrE lists
  owners : ∀ i, s.procNrE i ≠ noneE → s.live (s.procNrE i) = true
  none_dead : s.live noneE = false
  vectors : ∀ i v, s.procNrE i ≠ noneE → (s.lines.hook (.inl i)).irq = msixIrq v →
    s.msixBitmap v = true

structure WindowOk (s : IrqState K) : Prop where
  mapped : ∀ irq, (s.mmio irq).valid = true → (s.mmio irq).virtAddr = mmioAddr irq ∧
    pteAt s.pagedir (mmioAddr irq) = some (s.mmio irq).physAddr
  apart : ∀ irq j, (s.mmio irq).valid = true → (s.mmio j).valid = true →
    irq.val % irqThreadMmioPages = j.val % irqThreadMmioPages → irq = j

theorem irqThreadUnregister_windowOk (hw : WindowOk s) (irq : Line) :
    WindowOk (irqThreadUnregister s irq) := by
  unfold irqThreadUnregister
  simp only
  split
  · rename_i hvalid
    have hkept : ∀ j, (update s.mmio irq ⟨false, 0, 0⟩ j).valid = true → j ≠ irq ∧
        update s.mmio irq ⟨false, 0, 0⟩ j = s.mmio j := by
      intro j hj
      rcases eq_or_ne j irq with rfl | hne
      · simp at hj
      · exact ⟨hne, update_of_ne hne ..⟩
    obtain ⟨haddr, -⟩ := hw.mapped irq hvalid
    refine ⟨fun j hj => ?_, fun j k hj hk => ?_⟩
    · obtain ⟨hne, hkeep⟩ := hkept j hj
      simp only [hkeep] at hj ⊢
      obtain ⟨haddr', hpte⟩ := hw.mapped j hj
      refine ⟨haddr', ?_⟩
      split
      · have happart : vmPte (mmioAddr j) ≠ vmPte (mmioAddr irq) := fun h =>
          hne (hw.apart j irq hj hvalid (vmPte_mmioAddr h))
        rw [pgUnmapPage, haddr, pteAt_setPte_of_ne happart]
        exact hpte
      · exact hpte
    · obtain ⟨-, hkeepj⟩ := hkept j hj
      obtain ⟨-, hkeepk⟩ := hkept k hk
      simp only [hkeepj] at hj
      simp only [hkeepk] at hk
      exact hw.apart j k hj hk
  · exact ⟨hw.mapped, hw.apart⟩

theorem ensureTable_spec {vaddr : Nat} (h : ensureTable s vaddr = .ok t) :
    t.mmio = s.mmio ∧ t.lines = s.lines ∧ t.procNrE = s.procNrE ∧ t.msixBitmap = s.msixBitmap ∧
    t.live = s.live ∧ (∀ b, pteAt t.pagedir b = pteAt s.pagedir b) ∧
    ((∀ base, s.pagedir (vmPde vaddr) ≠ .large base) →
      ∃ pt, t.pagedir (vmPde vaddr) = .table pt) := by
  unfold ensureTable at h
  split at h
  · rename_i habsent
    split at h
    · cases h
    · obtain rfl := Except.ok.inj h
      exact ⟨rfl, rfl, rfl, rfl, rfl, fun b => pteAt_newTable habsent, fun _ => ⟨_, update_self ..⟩⟩
  · rename_i hpresent
    obtain rfl := Except.ok.inj h
    refine ⟨rfl, rfl, rfl, rfl, rfl, fun _ => rfl, fun hlarge => ?_⟩
    cases hpde : s.pagedir (vmPde vaddr) with
    | absent => exact (hpresent hpde).elim
    | large base => exact (hlarge base hpde).elim
    | table pt => exact ⟨pt, rfl⟩

theorem HooksOk.congr (hs : HooksOk s) (hlines : t.lines = s.lines)
    (howner : t.procNrE = s.procNrE) (hmsix : t.msixBitmap = s.msixBitmap)
    (hlive : t.live = s.live) : HooksOk t := by
  refine ⟨?_, ?_, ?_, ?_⟩
  · rw [hlines, howner]
    exact hs.bound
  · rw [howner, hlive]
    exact hs.owners
  · rw [hlive]
    exact hs.none_dead
  · rw [howner, hlines, hmsix]
    exact hs.vectors

theorem WindowOk.congr (hw : WindowOk s) (hmmio : t.mmio = s.mmio) (hdir : t.pagedir = s.pagedir) :
    WindowOk t := by
  constructor
  · rw [hmmio, hdir]
    exact hw.mapped
  · rw [hmmio]
    exact hw.apart

theorem irqThreadSetMmio_spec {phys : Nat} {r : Except Errno Unit}
    (h : irqThreadSetMmio s irq phys = .ok (t, r)) (hs : HooksOk s) (hw : WindowOk s)
    (halign : vmPfa phys = phys) (hapart : ∀ j, (s.mmio j).valid = true →
      j.val % irqThreadMmioPages = irq.val % irqThreadMmioPages → j = irq)
    (hlarge : ∀ base, s.pagedir (vmPde (mmioAddr irq)) ≠ .large base) : HooksOk t ∧ WindowOk t := by
  unfold irqThreadSetMmio at h
  cases hensure : ensureTable s (mmioAddr irq) with
  | error f =>
    rw [hensure] at h
    cases h
  | ok u =>
    obtain ⟨hmmio, hlines, howner, hmsix, hlive, hpte, htable⟩ := ensureTable_spec hensure
    obtain ⟨pt, hpt⟩ := htable hlarge
    simp only [hensure, pgRemapPage, hpt] at h
    obtain ⟨rfl, -⟩ := Prod.mk.inj (Except.ok.inj h)
    have hcases : ∀ j, (update u.mmio irq ⟨true, phys, mmioAddr irq⟩ j).valid = true →
        j = irq ∨ j ≠ irq ∧ (s.mmio j).valid = true ∧
          update u.mmio irq ⟨true, phys, mmioAddr irq⟩ j = s.mmio j := by
      intro j hj
      rcases eq_or_ne j irq with hji | hne
      · exact .inl hji
      · rw [update_of_ne hne, hmmio] at hj ⊢
        exact .inr ⟨hne, hj, rfl⟩
    refine ⟨hs.congr hlines howner hmsix hlive, fun j hj => ?_, fun j k hj hk hjk => ?_⟩
    · rcases hcases j hj with rfl | ⟨hne, hvalid, hkeep⟩
      · simp [pteAt, setPte, hpt, halign]
      · obtain ⟨haddr, hold⟩ := hw.mapped j hvalid
        simp only [hkeep]
        refine ⟨haddr, ?_⟩
        rw [pteAt_setPte_of_ne fun heq => hne (hapart j hvalid (vmPte_mmioAddr heq)), hpte]
        exact hold
    · rcases hcases j hj with rfl | ⟨-, hvalidj, -⟩
      · rcases hcases k hk with rfl | ⟨-, hvalidk, -⟩
        · rfl
        · exact (hapart k hvalidk hjk.symm).symm
      · rcases hcases k hk with rfl | ⟨-, hvalidk, -⟩
        · exact hapart j hvalidj hjk
        · exact hw.apart j k hvalidj hvalidk hjk

theorem msixIdx_eq_some {v : Vector} (h : msixIdx irq.val = some v) : irq = msixIrq v := by
  unfold msixIdx at h
  split at h
  · cases h
    apply Fin.ext
    simp only [msixIrq]
    omega
  · cases h

theorem msixIdx_msixIrq (v : Vector) : msixIdx (msixIrq v).val = some v := by
  unfold msixIdx msixIrq
  rw [dif_pos (by simp only; omega)]
  congr 1
  apply Fin.ext
  simp only
  omega

theorem freeVectorOf_spec (s : IrqState K) (i : HookId) :
    (freeVectorOf s i).lines = s.lines ∧ (freeVectorOf s i).procNrE = s.procNrE ∧
    (freeVectorOf s i).live = s.live ∧ (freeVectorOf s i).mmio = s.mmio ∧
    (freeVectorOf s i).pagedir = s.pagedir ∧ ∀ v, (s.lines.hook (.inl i)).irq ≠ msixIrq v →
      (freeVectorOf s i).msixBitmap v = s.msixBitmap v := by
  unfold freeVectorOf
  split
  · rename_i w hw
    split
    · refine ⟨rfl, rfl, rfl, rfl, rfl, fun v hv => update_of_ne ?_ ..⟩
      rintro rfl
      exact hv (msixIdx_eq_some hw)
    · exact ⟨rfl, rfl, rfl, rfl, rfl, fun _ _ => rfl⟩
  · exact ⟨rfl, rfl, rfl, rfl, rfl, fun _ _ => rfl⟩

end Invariant

section Requests

variable {K : Type} [DecidableEq K] [Fintype K] {s t : IrqState K} {i : HookId} {irq : Line}
  {caller e : Endpoint} {notifyId : Nat}
  {put : Lines (HookId ⊕ K) → HookId ⊕ K → Except Fault (Lines (HookId ⊕ K))}

def Installs (put : Lines (HookId ⊕ K) → HookId ⊕ K → Except Fault (Lines (HookId ⊕ K)))
    (irq : Line) : Prop :=
  ∀ l h t, put l h = .ok t → ∃ r, addHook l h irq = .ok r ∧ t.hook = (r.getD l).hook ∧
    t.handlers = (r.getD l).handlers

theorem installs_putIrqHandler (irq : Line) :
    Installs (K := K) (fun l h => putIrqHandler l h irq.val) irq := by
  intro l h t hput
  simp only [putIrqHandler, toLine_val] at hput
  cases hadd : addHook l h irq with
  | error f =>
    rw [hadd] at hput
    cases hput
  | ok r =>
    rw [hadd] at hput
    refine ⟨r, rfl, ?_⟩
    cases r with
    | none =>
      obtain rfl := Except.ok.inj hput
      exact ⟨rfl, rfl⟩
    | some u =>
      obtain rfl := Except.ok.inj hput
      exact enableIrq_lists u h

theorem installs_putMsixHandler (irq : Line) :
    Installs (K := K) (fun l h => putMsixHandler l h irq) irq := by
  intro l h t hput
  simp only [putMsixHandler] at hput
  cases hadd : addHook l h irq with
  | error f =>
    rw [hadd] at hput
    cases hput
  | ok r =>
    rw [hadd] at hput
    refine ⟨r, rfl, ?_⟩
    cases r <;> obtain rfl := Except.ok.inj hput <;> exact ⟨rfl, rfl⟩

theorem takeHook_spec {l : Lines (HookId ⊕ K)} {lists : Line → List (HookId ⊕ K)}
    (hb : Bound s.lines s.procNrE lists) (hc : caller ≠ noneE)
    (h : takeHook s caller notifyId = .ok (some (l, i))) :
    (∃ lists', Bound l (update s.procNrE i noneE) lists') ∧
      ∀ a, (l.hook a).irq = (s.lines.hook a).irq := by
  unfold takeHook at h
  cases hfind : existingHook s caller notifyId with
  | some k =>
    have hk := find?_some hfind
    rw [decide_eq_true_iff] at hk
    obtain ⟨u, lists', hrm, hb', hirq⟩ := hb.rm (hk.1 ▸ hc)
    simp only [hfind, hrm] at h
    cases h
    exact ⟨⟨lists', hb'⟩, hirq⟩
  | none =>
    simp only [hfind] at h
    cases hfree : freeHook s with
    | none =>
      rw [hfree] at h
      cases h
    | some k =>
      have hk := find?_some hfree
      rw [decide_eq_true_iff] at hk
      rw [hfree] at h
      cases h
      refine ⟨⟨lists, ?_⟩, fun _ => rfl⟩
      rw [← hk, update_eq_self]
      exact hb

theorem bindHook_hooksOk (hput : Installs put irq) (hs : HooksOk s)
    (hc : s.live caller = true) (hvec : ∀ v, irq = msixIrq v → s.msixBitmap v = true)
    (h : bindHook put s caller notifyId = .ok (some (t, i))) :
    HooksOk t ∧ t.mmio = s.mmio ∧ t.pagedir = s.pagedir := by
  have hnone : caller ≠ noneE := by
    rintro rfl
    simp [hs.none_dead] at hc
  obtain ⟨lists, hb⟩ := hs.bound
  unfold bindHook at h
  cases htake : takeHook s caller notifyId with
  | error f =>
    rw [htake] at h
    cases h
  | ok r =>
    rw [htake] at h
    rcases r with - | ⟨l, k⟩
    · cases h
    · obtain ⟨⟨lists', hb'⟩, hirqs⟩ := takeHook_spec hb hnone htake
      simp only at h
      cases hl : put l (.inl k) with
      | error f =>
        rw [hl] at h
        cases h
      | ok u =>
        rw [hl] at h
        cases h
        obtain ⟨r, hadd, hhook, hheads⟩ := hput l _ u hl
        obtain ⟨u', lists'', rfl, hb'', hself, hkeep⟩ :=
          hb'.add (update_self ..) hnone hadd
        rw [update_idem] at hb''
        refine ⟨⟨⟨lists'', hb''.congr hhook hheads⟩, fun j hj => ?_, hs.none_dead,
          fun j v hj hjv => ?_⟩, rfl, rfl⟩
        · rcases eq_or_ne j i with rfl | hne
          · simpa using hc
          · simp only [update_of_ne hne] at hj ⊢
            exact hs.owners j hj
        · simp only [hhook, Option.getD_some] at hjv
          rcases eq_or_ne j i with rfl | hne
          · exact hvec v (hself.symm.trans hjv)
          · simp only [update_of_ne hne] at hj
            rw [hkeep _ fun h => hne (Sum.inl.inj h), hirqs] at hjv
            exact hs.vectors j v hj hjv

theorem HooksOk.rm (hs : HooksOk s) (hi : s.procNrE i ≠ noneE) :
    ∃ l, rmIrqHandler s.lines (.inl i) = .ok l ∧
      HooksOk { s with lines := l, procNrE := update s.procNrE i noneE } := by
  obtain ⟨lists, hb⟩ := hs.bound
  obtain ⟨l, lists', hrm, hb', hirq⟩ := hb.rm hi
  have hkeep : ∀ j, update s.procNrE i noneE j ≠ noneE →
      update s.procNrE i noneE j = s.procNrE j := by
    intro j hj
    rcases eq_or_ne j i with rfl | hne
    · simp at hj
    · rw [update_of_ne hne]
  refine ⟨l, hrm, ⟨lists', hb'⟩, fun j hj => ?_, hs.none_dead, fun j v hj hjv => ?_⟩
  · simp only [hkeep j hj] at hj ⊢
    exact hs.owners j hj
  · simp only [hkeep j hj] at hj
    simp only [hirq] at hjv
    exact hs.vectors j v hj hjv

theorem doRmPolicy_ok {hookId : Int} (hs : HooksOk s) (hw : WindowOk s)
    (h : doRmPolicy s caller hookId = .ok (t, r)) : HooksOk t ∧ WindowOk t := by
  unfold doRmPolicy at h
  cases hown : ownedHook s caller hookId with
  | error e =>
    simp only [hown] at h
    cases h
    exact ⟨hs, hw⟩
  | ok i =>
    have hi : s.procNrE i ≠ noneE := by
      unfold ownedHook at hown
      split at hown
      · simp only at hown
        split at hown
        · cases hown
        split at hown
        · cases hown
        · cases hown
          assumption
      · cases hown
    obtain ⟨l, hrm, hs'⟩ := hs.rm hi
    simp only [hown, hrm] at h
    cases h
    have hw' : WindowOk { s with lines := l, procNrE := update s.procNrE i noneE } :=
      ⟨hw.mapped, hw.apart⟩
    refine ⟨?_, irqThreadUnregister_windowOk hw' _⟩
    refine hs'.congr ?_ ?_ ?_ ?_ <;> · unfold irqThreadUnregister; simp only; split <;> rfl

/-! ## Exit -/

/-- While the hooks of `e` go, only those that it still has may be on a vector that is free. -/
structure Clearing (e : Endpoint) (s : IrqState K) : Prop where
  bound : ∃ lists, Bound s.lines s.procNrE lists
  vectors : ∀ i v, s.procNrE i ≠ noneE → s.procNrE i ≠ e →
    (s.lines.hook (.inl i)).irq = msixIrq v → s.msixBitmap v = true
  unshared : ∀ i j v, s.procNrE i = e → s.procNrE j ≠ noneE → s.procNrE j ≠ e →
    (s.lines.hook (.inl i)).irq = msixIrq v → (s.lines.hook (.inl j)).irq ≠ msixIrq v

theorem Clearing.step (hs : Clearing e s) (he : e ≠ noneE) (hi : s.procNrE i = e) :
    ∃ l, rmIrqHandler (freeVectorOf s i).lines (.inl i) = .ok l ∧ Clearing e { freeVectorOf s i with
        lines := l, procNrE := update (freeVectorOf s i).procNrE i noneE } := by
  obtain ⟨hlines, howner, -, -, -, hvec⟩ := freeVectorOf_spec s i
  obtain ⟨lists, hb⟩ := hs.bound
  obtain ⟨l, lists', hrm, hb', hirq⟩ := hb.rm (hi ▸ he : s.procNrE i ≠ noneE)
  rw [hlines, howner]
  have hkeep : ∀ j, update s.procNrE i noneE j ≠ noneE → s.procNrE j ≠ noneE ∧
      update s.procNrE i noneE j = s.procNrE j := by
    intro j hj
    rcases eq_or_ne j i with rfl | hne
    · simp at hj
    · rw [update_of_ne hne] at hj ⊢
      exact ⟨hj, rfl⟩
  refine ⟨l, hrm, ⟨lists', hb'⟩, fun j v hj hje hjv => ?_, fun j k v hj hk hke hjv => ?_⟩
  · obtain ⟨hj', hjk⟩ := hkeep j hj
    simp only [hjk] at hje
    simp only [hirq] at hjv
    have hne : (s.lines.hook (.inl i)).irq ≠ msixIrq v := fun h =>
      hs.unshared i j v hi hj' hje h hjv
    exact (hvec v hne).trans (hs.vectors j v hj' hje hjv)
  · obtain ⟨hk', hkk⟩ := hkeep k hk
    simp only [hkk] at hke
    simp only [hirq] at hjv ⊢
    have hj' : s.procNrE j = e := by
      have hje : update s.procNrE i noneE j = e := hj
      rw [← hje]
      exact (hkeep j (by rwa [hje])).2.symm
    exact hs.unshared j k v hj' hk' hke hjv

theorem clearHooks_spec {is : List HookId} (he : e ≠ noneE) (hs : Clearing e s)
    (h : clearHooks e is s = .ok t) :
    Clearing e t ∧ t.live = s.live ∧ t.mmio = s.mmio ∧ t.pagedir = s.pagedir ∧
    (∀ j, t.procNrE j = s.procNrE j ∨ t.procNrE j = noneE) ∧ ∀ i ∈ is, t.procNrE i ≠ e := by
  induction is generalizing s with
  | nil =>
    cases h
    exact ⟨hs, rfl, rfl, rfl, fun _ => .inl rfl, by simp⟩
  | cons i is ih =>
    rw [clearHooks] at h
    split at h
    · rename_i hi
      obtain ⟨l, hrm, hs'⟩ := hs.step he hi
      simp only [hrm] at h
      obtain ⟨ht, hlive, hmmio, hdir, howner, hgone⟩ := ih hs' h
      obtain ⟨-, howner', hlive', hmmio', hdir', -⟩ := freeVectorOf_spec s i
      have hself : t.procNrE i ≠ e := by
        rcases howner i with h' | h'
        · rw [h']
          simpa using he.symm
        · exact h' ▸ he.symm
      refine ⟨ht, hlive.trans hlive', hmmio.trans hmmio', hdir.trans hdir', fun j => ?_,
        forall_mem_cons.mpr ⟨hself, hgone⟩⟩
      refine (howner j).elim (fun h' => ?_) .inr
      rw [h', howner']
      rcases eq_or_ne j i with rfl | hne
      · exact .inr (update_self ..)
      · exact .inl (update_of_ne hne ..)
    · obtain ⟨ht, hlive, hmmio, hdir, howner, hgone⟩ := ih hs h
      refine ⟨ht, hlive, hmmio, hdir, howner, forall_mem_cons.mpr ⟨?_, hgone⟩⟩
      rcases howner i with h' | h'
      · rwa [h']
      · exact h' ▸ he.symm

theorem doClear_ok (hs : HooksOk s) (hw : WindowOk s)
    (hshare : e ≠ noneE → ∀ i j v, s.procNrE i = e → s.procNrE j ≠ noneE → s.procNrE j ≠ e →
      (s.lines.hook (.inl i)).irq = msixIrq v → (s.lines.hook (.inl j)).irq ≠ msixIrq v)
    (h : doClear s e = .ok (t, r)) : HooksOk t ∧ WindowOk t := by
  unfold doClear at h
  split at h
  · rename_i hlive
    have he : e ≠ noneE := by
      rintro rfl
      simp [hs.none_dead] at hlive
    cases hloop : clearHooks e (finRange nrIrqHooks) s with
    | error f =>
      rw [hloop] at h
      cases h
    | ok u =>
      rw [hloop] at h
      cases h
      have hstart : Clearing e s := ⟨hs.bound, fun i v hi _ => hs.vectors i v hi, hshare he⟩
      obtain ⟨hu, hulive, hmmio, hdir, howner, hgone⟩ := clearHooks_spec he hstart hloop
      have hgone' : ∀ i, u.procNrE i ≠ e := fun i => hgone i (mem_finRange i)
      refine ⟨⟨hu.bound, fun i hi => ?_, ?_, fun i v hi => hu.vectors i v hi (hgone' i)⟩,
        hw.congr hmmio hdir⟩
      · simp only [update_of_ne (hgone' i), hulive]
        have hsame := (howner i).resolve_right hi
        rw [hsame] at hi ⊢
        exact hs.owners i hi
      · simp only [update_of_ne he.symm, hulive]
        exact hs.none_dead
  · cases h
    exact ⟨hs, hw⟩

end Requests

end Gergios.Kernel.Irq
