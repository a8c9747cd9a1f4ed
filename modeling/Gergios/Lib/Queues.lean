import Gergios.Lib.Linked

/-!
# Families of lists over one successor function

Several lists share the link field of their nodes, so they must not share nodes. An edit
writes one cell: the head of a list, or the link of the node in front of the edited place.
The three edits are removal of a node, appending at the end and pushing at the front.
-/

namespace Gergios.Lib

open Function List

universe u v

variable {ι : Type u} {α : Type v}

structure Queues (heads : ι → Option α) (next : α → Option α) (q : ι → List α) : Prop where
  linked : ∀ o, Linked next (heads o) (q o)
  owner_unique : ∀ {o o' x}, x ∈ q o → x ∈ q o' → o = o'

/-- The heads after writing `v` to the cell in front of which `prev` stands. -/
def cellHeads [DecidableEq ι] (heads : ι → Option α) (o : ι) (prev v : Option α) : ι → Option α :=
  match prev with
  | none => update heads o v
  | some _ => heads

variable {heads heads' : ι → Option α} {next next' : α → Option α} {q : ι → List α} {o : ι} {x : α}

theorem Queues.nodup (hq : Queues heads next q) (o : ι) : (q o).Nodup := (hq.linked o).nodup

theorem Queues.congr (hq : Queues heads next q) (hheads : ∀ o, heads' o = heads o)
    (hnext : ∀ o, ∀ x ∈ q o, next' x = next x) : Queues heads' next' q where
  linked o := by
    rw [hheads]
    exact (hq.linked o).congr (hnext o)
  owner_unique := hq.owner_unique

theorem Queues.not_mem_of_ne (hq : Queues heads next q) {o' : ι} (hx : x ∈ q o)
    (hne : o' ≠ o) : x ∉ q o' := fun hx' => hne (hq.owner_unique hx' hx)

variable [DecidableEq ι] [DecidableEq α]

omit [DecidableEq α] in
theorem cellHeads_self (o : ι) (prev v : Option α) :
    cellHeads heads o prev v o = cellHead (heads o) prev v := by
  cases prev with
  | none => exact update_self ..
  | some y => rfl

omit [DecidableEq α] in
theorem cellHeads_of_ne {o' : ι} (hne : o' ≠ o) (prev v : Option α) :
    cellHeads heads o prev v o' = heads o' := by
  cases prev with
  | none => exact update_of_ne hne v heads
  | some y => rfl

omit [DecidableEq α] in
private theorem owner_unique_update (hq : Queues heads next q) {l : List α}
    (hl : ∀ x ∈ l, x ∈ q o ∨ ∀ o', x ∉ q o') {o₁ o₂ : ι}
    (h₁ : x ∈ update q o l o₁) (h₂ : x ∈ update q o l o₂) : o₁ = o₂ := by
  by_cases e₁ : o₁ = o <;> by_cases e₂ : o₂ = o
  · rw [e₁, e₂]
  · subst e₁
    rw [update_self] at h₁
    rw [update_of_ne e₂] at h₂
    exact (hl x h₁).elim (fun h => hq.owner_unique h h₂) fun h => absurd h₂ (h o₂)
  · subst e₂
    rw [update_self] at h₂
    rw [update_of_ne e₁] at h₁
    exact (hl x h₂).elim (fun h => hq.owner_unique h₁ h) fun h => absurd h₁ (h o₁)
  · rw [update_of_ne e₁] at h₁
    rw [update_of_ne e₂] at h₂
    exact hq.owner_unique h₁ h₂

theorem Queues.unlink (hq : Queues heads next q) {pre post : List α} (ho : q o = pre ++ x :: post) :
    Queues (cellHeads heads o pre.getLast? (next x)) (cellNext next pre.getLast? (next x))
      (update q o (pre ++ post)) where
  linked o' := by
    have hl := ho ▸ hq.linked o
    by_cases hne : o' = o
    · subst hne
      rw [update_self, cellHeads_self]
      exact hl.unlinkCell
    · rw [update_of_ne hne, cellHeads_of_ne hne]
      refine (hq.linked o').congr fun z hz => ?_
      refine cellNext_of_ne (fun hlast => ?_) _
      refine hq.not_mem_of_ne hz (Ne.symm hne) ?_
      rw [ho]
      exact mem_append_left _ (mem_of_getLast? hlast)
  owner_unique h₁ h₂ := by
    refine owner_unique_update hq (fun z hz => .inl ?_) h₁ h₂
    rw [ho]
    rcases mem_append.mp hz with h | h <;> simp [h]

omit [DecidableEq ι] in
theorem filter_ne_eq_self {l : List α} (hx : x ∉ l) : l.filter (· ≠ x) = l :=
  filter_eq_self.mpr fun _ hz => decide_eq_true (ne_of_mem_of_not_mem hz hx)

/-- Removing a node from its list removes it from all of them. -/
theorem Queues.filter_ne (hq : Queues heads next q) {pre post : List α}
    (ho : q o = pre ++ x :: post) :
    update q o (pre ++ post) = fun o' => (q o').filter (· ≠ x) := by
  have hnd : (pre ++ x :: post).Nodup := ho ▸ hq.nodup o
  rw [nodup_middle, nodup_cons, mem_append, not_or] at hnd
  funext o'
  by_cases hne : o' = o
  · subst hne
    rw [update_self, ho, filter_append, filter_cons_of_neg (by simp), filter_ne_eq_self hnd.1.1,
      filter_ne_eq_self hnd.1.2]
  · rw [update_of_ne hne, filter_ne_eq_self]
    exact hq.not_mem_of_ne (by simp [ho]) hne

theorem Queues.append (hq : Queues heads next q) (o : ι) (hx : ∀ o', x ∉ q o')
    (hnext : next x = none) :
    Queues (cellHeads heads o (q o).getLast? (some x)) (cellNext next (q o).getLast? (some x))
      (update q o (q o ++ [x])) where
  linked o' := by
    by_cases hne : o' = o
    · subst hne
      rw [update_self, cellHeads_self]
      have hl : Linked next (heads o') (q o' ++ []) := by
        rw [append_nil]
        exact hq.linked o'
      exact hl.insertCell (by simpa using hx o') hnext fun _ _ => rfl
    · rw [update_of_ne hne, cellHeads_of_ne hne]
      refine (hq.linked o').congr fun z hz => cellNext_of_ne (fun hlast => ?_) _
      exact hq.not_mem_of_ne hz (Ne.symm hne) (mem_of_getLast? hlast)
  owner_unique h₁ h₂ := by
    refine owner_unique_update hq (fun z hz => ?_) h₁ h₂
    rcases mem_append.mp hz with h | h
    · exact .inl h
    · exact .inr (List.mem_singleton.mp h ▸ hx)

theorem Queues.push (hq : Queues heads next q) (o : ι) (hx : ∀ o', x ∉ q o') :
    Queues (update heads o (some x)) (update next x (heads o)) (update q o (x :: q o)) where
  linked o' := by
    have hcongr : ∀ o', Linked (update next x (heads o)) (heads o') (q o') := by
      intro o'
      refine (hq.linked o').congr fun z hz => ?_
      have hzx : z ≠ x := fun h => hx o' (h ▸ hz)
      exact update_of_ne hzx _ _
    by_cases hne : o' = o
    · subst hne
      rw [update_self, update_self]
      refine ⟨rfl, ?_⟩
      rw [update_self]
      exact hcongr o'
    · rw [update_of_ne hne, update_of_ne hne]
      exact hcongr o'
  owner_unique h₁ h₂ := by
    refine owner_unique_update hq (fun z hz => ?_) h₁ h₂
    rcases mem_cons.mp hz with rfl | h
    · exact .inr hx
    · exact .inl h

end Gergios.Lib
