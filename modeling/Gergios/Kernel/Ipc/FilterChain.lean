import Gergios.Kernel.Ipc.Filter
import Mathlib.Data.List.Find

/-!
# What a chain of IPC filters means

The loop of `allow_ipc_filtered_msg` skips a filter that could not change the verdict reached so
far, and copies the message type in only if the flags that `check_ipc_filter` stored with some
filter ask for it.
-/

namespace Gergios.Kernel

def isAnyEp (e : Endpoint) : Bool := e == anyUsr || e == anySys || e == anyTsk

variable (s : State)

/-- `IPCF_EL_CHECK` -/
def IpcFilterEl.check (el : IpcFilterEl) : Bool :=
  (el.matchType || el.matchSource) &&
    (!el.matchSource || isAnyEp el.source || (isokendpt s el.source).isSome)

/-- `check_ipc_filter` with `fill_flags`: the bits `IPCF_MATCH_M_SOURCE` and `IPCF_MATCH_M_TYPE` of
the flags that are stored with the filter, or `none` for `EINVAL`. -/
def checkIpcFilter (f : IpcFilter) : Option (Bool × Bool) :=
  f.elements.foldlM (fun flags el =>
    if el.check s then some (flags.1 || el.matchSource, flags.2 || el.matchType) else none)
    (false, false)

theorem checkIpcFilter_readsType {s : State} {f : IpcFilter} {flags : Bool × Bool}
    (h : checkIpcFilter s f = some flags) : f.readsType = flags.2 := by
  suffices ∀ (els : List IpcFilterEl) start, els.foldlM (fun flags el =>
      if el.check s then some (flags.1 || el.matchSource, flags.2 || el.matchType) else none)
      start = some flags → (start.2 || els.any (·.matchType)) = flags.2 by
    simpa [IpcFilter.readsType] using this f.elements _ h
  intro els
  induction els with
  | nil =>
    rintro start ⟨⟩
    simp
  | cons el els ih =>
    intro start h
    by_cases hc : el.check s
    · rw [List.foldlM_cons, if_pos hc] at h
      simpa [Bool.or_assoc] using ih _ h
    · rw [List.foldlM_cons, if_neg hc] at h
      cases h

variable (src : Endpoint) (mtype : Int)

def IpcFilter.matches (f : IpcFilter) : Bool :=
  f.elements.any (·.isMatch s src mtype)

/-- What a chain of filters means: the last filter with a matching element decides; if there is
none, a message is let through if the chain starts with a blacklist. -/
def verdict (chain : List IpcFilter) : Bool :=
  match chain.reverse.find? (·.matches s src mtype) with
  | some f => f.type == .whitelist
  | none => chain.head?.any (·.type == .blacklist)

/-- The test that skips a filter of the verdict already reached changes nothing. -/
theorem apply_eq (allow : Bool) (f : IpcFilter) :
    f.apply s src mtype allow = if f.matches s src mtype then f.type == .whitelist else allow := by
  simp only [IpcFilter.apply, IpcFilter.matches]
  cases allow <;> cases f.type == .whitelist <;> simp

theorem foldl_apply (allow : Bool)
    (chain : List IpcFilter) : chain.foldl (IpcFilter.apply s src mtype) allow =
      match chain.reverse.find? (·.matches s src mtype) with
      | some f => f.type == .whitelist
      | none => allow := by
  induction chain using List.reverseRecOn with
  | nil => rfl
  | append_singleton chain f ih =>
    rw [List.foldl_append, List.foldl_cons, ih, apply_eq, List.reverse_append,
      List.reverse_singleton, List.singleton_append, List.find?_cons]
    cases f.matches s src mtype <;> rfl

theorem matches_of_readsType {f : IpcFilter} (h : f.readsType = false) (s : State)
    (src : Endpoint) (mtype mtype' : Int) : f.matches s src mtype = f.matches s src mtype' := by
  rw [IpcFilter.readsType, List.any_eq_false] at h
  rw [Bool.eq_iff_iff, IpcFilter.matches, List.any_eq_true, IpcFilter.matches, List.any_eq_true]
  refine exists_congr fun el => and_congr_right fun hel => ?_
  simp [IpcFilterEl.isMatch, h el hel]

theorem verdict_of_readsType {chain : List IpcFilter} (h : ∀ f ∈ chain, f.readsType = false)
    (s : State) (src : Endpoint) (mtype mtype' : Int) :
    verdict s src mtype chain = verdict s src mtype' chain := by
  rw [verdict, List.find?_congr, verdict]
  intro f hf
  exact matches_of_readsType (h f (List.mem_reverse.mp hf)) s src mtype mtype'

section Allow

variable {s : State} {rp : Slot} {chain : List IpcFilter} (hchain : (s.privOf rp).ipcf = chain)
  (hne : chain ≠ [])

include hchain hne

theorem allowIpcFilteredMsg_eq {copied : Option Int}
    (h : (chain.any (·.readsType) && copied.isNone) = false) (src : Endpoint) :
    allowIpcFilteredMsg s rp src copied = verdict s src (copied.getD 0) chain := by
  rw [allowIpcFilteredMsg, hchain]
  cases chain with
  | nil => exact absurd rfl hne
  | cons f fs =>
    simp only [h, Bool.false_eq_true, if_false]
    rw [foldl_apply, verdict, List.head?_cons, Option.any_some]

/-- `flags` are the bits stored with the filters when they were accepted. If none of them asks for
the message type, it may be anything, or never have been copied in. -/
theorem filtered_verdict (flags : IpcFilter → Bool × Bool)
    (accepted : ∀ f ∈ chain, ∃ t, checkIpcFilter t f = some (flags f)) (src : Endpoint)
    (mtype : Int) : allowIpcFilteredMsg s rp src (some mtype) = verdict s src mtype chain ∧
    ((∀ f ∈ chain, (flags f).2 = false) → ∀ copied,
      allowIpcFilteredMsg s rp src copied = verdict s src mtype chain) := by
  refine ⟨allowIpcFilteredMsg_eq hchain hne (Bool.and_false _) src, fun hflags copied => ?_⟩
  have hreads : ∀ f ∈ chain, f.readsType = false := by
    intro f hf
    obtain ⟨t, ht⟩ := accepted f hf
    exact (checkIpcFilter_readsType ht).trans (hflags f hf)
  have hany : chain.any (·.readsType) = false := by simpa using hreads
  rw [allowIpcFilteredMsg_eq hchain hne (by rw [hany, Bool.false_and])]
  exact verdict_of_readsType hreads s src _ mtype

end Allow

/-- The second filter shuts out the tasks among what the first lets in; the third lets them in again
with a message of type 7. -/
def taskFilters : List IpcFilter :=
  [⟨.whitelist, [⟨true, false, anyUsr, 0⟩]⟩, ⟨.blacklist, [⟨true, false, anyTsk, 0⟩]⟩,
    ⟨.whitelist, [⟨true, true, anyTsk, 7⟩]⟩]

def filtering (chain : List IpcFilter) : State :=
  procInit.modPrivOf 0 fun p => { p with ipcf := chain }

/-- Without the third filter no message type is needed. -/
theorem filtered_tasks : (∀ copied,
      allowIpcFilteredMsg (filtering (taskFilters.take 2)) 0 (mkEndpoint 0 5) copied = true ∧
      allowIpcFilteredMsg (filtering (taskFilters.take 2)) 0 hardware copied = false) ∧
    allowIpcFilteredMsg (filtering taskFilters) 0 hardware (some 7) = true ∧
    allowIpcFilteredMsg (filtering taskFilters) 0 hardware (some 8) = false := by
  have haccepted : ∀ f ∈ taskFilters, checkIpcFilter procInit f = some (true, f.readsType) := by
    decide +kernel
  have hchain : ∀ chain, ((filtering chain).privOf 0).ipcf = chain := fun _ => rfl
  have htwo : ∀ src, _ := fun src =>
    (filtered_verdict (hchain (taskFilters.take 2)) (by decide) (fun f => (true, f.readsType))
      (fun f hf => ⟨procInit, haccepted f (List.mem_of_mem_take hf)⟩) src 0).2 (by decide)
  have hthree : ∀ mtype, _ := fun mtype =>
    (filtered_verdict (hchain taskFilters) (by decide) (fun f => (true, f.readsType))
      (fun f hf => ⟨procInit, haccepted f hf⟩) hardware mtype).1
  refine ⟨fun copied => ⟨?_, ?_⟩, ?_, ?_⟩
  · rw [htwo]
    decide +kernel
  · rw [htwo]
    decide +kernel
  · rw [hthree]
    decide +kernel
  · rw [hthree]
    decide +kernel

end Gergios.Kernel
