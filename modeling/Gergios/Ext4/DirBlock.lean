import Mathlib.Data.List.Nodup
import Gergios.Ext4.DirRecords

/-!
# The entries of a directory block
-/

namespace Gergios.Ext4

open List Option

variable {b : List UInt8} {n : Nat} {r : DirRec} {recs : List DirRec} {name : List UInt8}
  {new : Entry} {recs' : List DirRec} {p : DirRec}

theorem live_cons (r : DirRec) (w : List DirRec) : live (r :: w) = r.entry.toList ++ live w := by
  cases h : r.entry with
  | none => exact filterMap_cons_none h
  | some e => exact filterMap_cons_some h

theorem live_insertRec (h : insertRec new recs = some recs') :
    ∃ u v, live recs = u ++ v ∧ live recs' = u ++ new :: v := by
  induction recs generalizing recs' with
  | nil => exact nomatch h
  | cons r w ih =>
    rw [insertRec] at h
    split at h
    · cases h
      exact ⟨r.entry.toList, live w, live_cons r w, by rw [live_cons]; rfl⟩
    obtain ⟨w', hw, rfl⟩ := map_eq_some_iff.mp h
    obtain ⟨u, v, hold, hnew⟩ := ih hw
    refine ⟨r.entry.toList ++ u, v, ?_, ?_⟩
    · rw [live_cons, hold, append_assoc]
    · rw [live_cons, hnew, append_assoc]

theorem insertRec_head {w : List DirRec}
    (h : insertRec new (r :: w) = some recs') : ∃ len w', recs' = ⟨len, r.entry⟩ :: w' := by
  rw [insertRec] at h
  split at h
  · cases h
    exact ⟨_, _, rfl⟩
  · obtain ⟨w', -, rfl⟩ := map_eq_some_iff.mp h
    exact ⟨r.len, w', rfl⟩

theorem removeAfter_head
    (h : removeAfter name p recs = some recs') : ∃ len w', recs' = ⟨len, p.entry⟩ :: w' := by
  cases recs with
  | nil => exact nomatch h
  | cons r w =>
    rw [removeAfter] at h
    split at h
    · cases h
      exact ⟨_, _, rfl⟩
    · obtain ⟨w', -, rfl⟩ := map_eq_some_iff.mp h
      exact ⟨p.len, w', rfl⟩

theorem insertRec_eq_none :
    insertRec new recs = none ↔ ∀ r ∈ recs, r.slack < direntSize (.ofNat new.name.length) := by
  induction recs with
  | nil => simp [insertRec]
  | cons r w ih =>
    rw [insertRec, forall_mem_cons]
    split
    · rename_i hge
      simp [Nat.not_lt.mpr hge]
    · rename_i hlt
      rw [map_eq_none_iff, ih, and_iff_right (Nat.not_le.mp hlt)]

theorem named_iff {name : List UInt8} : r.Named name ↔ ∃ e, r.entry = some e ∧ e.name = name :=
  map_eq_some_iff

theorem live_removeAfter (h : removeAfter name p recs = some recs') :
    ∃ u e v, live (p :: recs) = u ++ e :: v ∧ live recs' = u ++ v ∧ e.name = name := by
  induction recs generalizing p recs' with
  | nil => exact nomatch h
  | cons r w ih =>
    rw [removeAfter] at h
    split at h
    · rename_i hnamed
      obtain ⟨e, hentry, hname⟩ := named_iff.mp hnamed
      cases h
      refine ⟨p.entry.toList, e, live w, ?_, live_cons _ w, hname⟩
      rw [live_cons, live_cons, hentry]
      rfl
    · obtain ⟨w', hw, rfl⟩ := map_eq_some_iff.mp h
      obtain ⟨u, e, v, hold, hnew, hname⟩ := ih hw
      refine ⟨p.entry.toList ++ u, e, v, ?_, ?_, hname⟩
      · rw [live_cons, hold, append_assoc]
      · rw [live_cons, hnew, append_assoc]

theorem live_removeRec (h : removeRec name recs = some recs') :
    ∃ u e v, live recs = u ++ e :: v ∧ live recs' = u ++ v ∧ e.name = name := by
  cases recs with
  | nil => exact nomatch h
  | cons r w =>
    rw [removeRec] at h
    split at h
    · rename_i hnamed
      obtain ⟨e, hentry, hname⟩ := named_iff.mp hnamed
      cases h
      refine ⟨[], e, live w, ?_, live_cons _ w, hname⟩
      rw [live_cons, hentry]
      rfl
    · exact live_removeAfter h

theorem removeAfter_eq_none : removeAfter name p recs = none ↔ ∀ r ∈ recs, ¬r.Named name := by
  induction recs generalizing p with
  | nil => simp [removeAfter]
  | cons r w ih =>
    rw [removeAfter, forall_mem_cons]
    split
    · rename_i hnamed
      simp [hnamed]
    · rename_i hnot
      rw [map_eq_none_iff, ih, and_iff_right hnot]

theorem removeRec_eq_none : removeRec name recs = none ↔ ∀ e ∈ live recs, e.name ≠ name := by
  have hall : (∀ e ∈ live recs, e.name ≠ name) ↔ ∀ r ∈ recs, ¬r.Named name := by
    simp only [live, mem_filterMap, named_iff]
    constructor
    · rintro h r hr ⟨e, hentry, hname⟩
      exact h e ⟨r, hr, hentry⟩ hname
    · rintro h e ⟨r, hr, hentry⟩ hname
      exact h r hr ⟨e, hentry, hname⟩
  rw [hall]
  cases recs with
  | nil => simp [removeRec]
  | cons r w =>
    rw [removeRec, forall_mem_cons]
    split
    · rename_i hnamed
      simp [hnamed]
    · rename_i hnot
      rw [removeAfter_eq_none, and_iff_right hnot]

/-! ### What the operations do to the names -/

def resolve (data name : List UInt8) : Except Stop (Option Entry) :=
  (lookupLinear data name).map (Option.map DirEntry.entry)

def names (recs : List DirRec) : List (List UInt8) := (live recs).map Entry.name

theorem resolve_eq (h : DirBlock b n recs) (m : List UInt8) :
    resolve b m = .ok ((live recs).find? (·.name = m)) := lookupLinear_eq h m

theorem mem_names : name ∈ names recs ↔ ∃ e ∈ live recs, e.name = name := mem_map

theorem find?_eq_none_of_notMem {l : List Entry} (h : name ∉ l.map Entry.name) :
    l.find? (·.name = name) = none := by
  rw [find?_eq_none]
  intro e he heq
  exact h (mem_map.mpr ⟨e, he, of_decide_eq_true heq⟩)

theorem find?_middle {u v : List Entry} {e : Entry} {m : List UInt8} (h : e.name ≠ m) :
    (u ++ e :: v).find? (·.name = m) = (u ++ v).find? (·.name = m) := by
  rw [find?_append, find?_append, find?_cons_of_neg (by rwa [decide_eq_true_eq])]

def BlockInsertCorrect (b : List UInt8) (n : Nat) (recs : List DirRec) (new : Entry) : Prop :=
  (∀ r ∈ recs, r.slack < direntSize (.ofNat new.name.length)) ∧
      insertIntoBlock b new.inode new.name new.fileType = .ok (false, b) ∨
    (∃ r ∈ recs, direntSize (.ofNat new.name.length) ≤ r.slack) ∧
      ∃ c recs', insertIntoBlock b new.inode new.name new.fileType = .ok (true, c) ∧
        c.length = b.length ∧ DirBlock c n recs' ∧
        (∃ u v, live recs = u ++ v ∧ live recs' = u ++ new :: v) ∧
        (new.name ∉ names recs → resolve c new.name = .ok (some new)) ∧
        ∀ m ≠ new.name, resolve c m = resolve b m

def BlockRemoveCorrect (b : List UInt8) (n : Nat) (recs : List DirRec) (name : List UInt8) : Prop :=
  name ∉ names recs ∧ removeFromBlock b name = .ok (false, b) ∨ name ∈ names recs ∧
      ∃ c recs', removeFromBlock b name = .ok (true, c) ∧ c.length = b.length ∧ DirBlock c n recs' ∧
        (∃ u e v, live recs = u ++ e :: v ∧ live recs' = u ++ v ∧ e.name = name) ∧
        ((names recs).Nodup → resolve c name = .ok none) ∧
        ∀ m ≠ name, resolve c m = resolve b m

theorem blockInsertCorrect (h : DirBlock b n recs) (hino : new.inode ≠ 0)
    (hname : new.name.length ≤ 255) : BlockInsertCorrect b n recs new := by
  rcases insertIntoBlock_changes new.fileType h hino (Nat.lt_succ_of_le hname) with
    ⟨hnone, hrun⟩ | ⟨recs', c, hsome, hrun, hlen, hc⟩
  · exact .inl ⟨insertRec_eq_none.mp hnone, hrun⟩
  · obtain ⟨u, v, hold, hnew⟩ := live_insertRec hsome
    refine .inr ⟨?_, c, recs', hrun, hlen, hc, ⟨u, v, hold, hnew⟩, fun hfresh => ?_, fun m hm => ?_⟩
    · by_contra hfull
      push Not at hfull
      rw [insertRec_eq_none.mpr hfull] at hsome
      exact nomatch hsome
    · rw [names, hold, map_append, mem_append, not_or] at hfresh
      rw [resolve_eq hc, hnew, find?_append, find?_eq_none_of_notMem hfresh.1,
        find?_cons_of_pos (by exact decide_eq_true rfl)]
      rfl
    · rw [resolve_eq hc, resolve_eq h, hold, hnew, find?_middle hm.symm]

theorem blockRemoveCorrect (h : DirBlock b n recs) (hn : n < 2 ^ 16) (name : List UInt8) :
    BlockRemoveCorrect b n recs name := by
  have hiff : removeRec name recs = none ↔ name ∉ names recs := by
    rw [removeRec_eq_none, mem_names]
    push Not
    rfl
  rcases removeFromBlock_changes h hn name with
    ⟨hnone, hrun⟩ | ⟨recs', c, hsome, hrun, hlen, hc⟩
  · exact .inl ⟨hiff.mp hnone, hrun⟩
  · obtain ⟨u, e, v, hold, hnew, heq⟩ := live_removeRec hsome
    refine .inr ⟨?_, c, recs', hrun, hlen, hc, ⟨u, e, v, hold, hnew, heq⟩, fun hnodup => ?_,
      fun m hm => ?_⟩
    · rw [mem_names, hold]
      exact ⟨e, by simp, heq⟩
    · rw [names, hold, map_append, map_cons, nodup_middle, nodup_cons, ← map_append, heq] at hnodup
      rw [resolve_eq hc, hnew, find?_eq_none_of_notMem hnodup.1]
    · rw [resolve_eq hc, resolve_eq h, hold, hnew, find?_middle (heq ▸ hm.symm)]

/-- Insertion and removal keep the records of a block and change one name. -/
theorem dir_block_correct (h : DirBlock b n recs) (hname : name.length ≤ 255) :
    (∀ inode fileType, inode ≠ 0 → BlockInsertCorrect b n recs ⟨inode, fileType, name⟩) ∧
      (n < 2 ^ 16 → BlockRemoveCorrect b n recs name) :=
  ⟨fun _ _ hino => blockInsertCorrect h hino hname, fun hn => blockRemoveCorrect h hn name⟩

/-- A block with the names `a` and `b`. -/
def twoNames : List UInt8 :=
  [5, 0, 0, 0, 12, 0, 1, 1, 97, 0, 0, 0, 6, 0, 0, 0, 24, 0, 1, 1, 98, 0, 0, 0, 0, 0, 0, 0, 0, 0,
    0, 0, 0, 0, 0, 0]

theorem twoNames_block : DirBlock twoNames 36 [⟨12, some ⟨5, 1, [97]⟩⟩, ⟨24, some ⟨6, 1, [98]⟩⟩] :=
  ⟨⟨rfl, by decide, by decide, rfl, by decide, by decide, rfl⟩, by decide, .inl (by decide)⟩

theorem twoNames_correct :
    BlockInsertCorrect twoNames 36 [⟨12, some ⟨5, 1, [97]⟩⟩, ⟨24, some ⟨6, 1, [98]⟩⟩] ⟨7, 1, [97]⟩ ∧
      BlockRemoveCorrect twoNames 36 [⟨12, some ⟨5, 1, [97]⟩⟩, ⟨24, some ⟨6, 1, [98]⟩⟩] [97] :=
  have h := dir_block_correct twoNames_block (by decide)
  ⟨h.1 7 1 (by decide), h.2 (by decide)⟩

/-- A name that is there already is inserted again behind its first entry, and still resolves to
that one. -/
theorem inserted_name_shadowed :
    DirBlock twoNames 36 [⟨12, some ⟨5, 1, [97]⟩⟩, ⟨24, some ⟨6, 1, [98]⟩⟩] ∧
      isValidDirentName [97] = true ∧ ∃ c, insertIntoBlock twoNames 7 [97] 1 = .ok (true, c) ∧
        lookupLinear c [97] = .ok (some ⟨5, 12, 1, [97]⟩) :=
  ⟨twoNames_block, by decide, _, rfl, rfl⟩

end Gergios.Ext4
