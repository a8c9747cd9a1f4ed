import Gergios.Ext4.Dirent

/-!
# Directory blocks as lists of records

Lookup, insertion and removal of the block are those of the list.
-/

namespace Gergios.Ext4

open Lib List Nat

structure Entry where
  inode : UInt32
  fileType : UInt8
  name : List UInt8
deriving DecidableEq

structure DirRec where
  len : Nat
  entry : Option Entry
deriving DecidableEq

def DirRec.used (r : DirRec) : Nat :=
  match r.entry with
  | none => dirEntryMinSize
  | some e => direntSize (.ofNat e.name.length)

def DirRec.slack (r : DirRec) : Nat := r.len - r.used

variable (b : List UInt8)

def entryAt (pos : Nat) : Option Entry :=
  if u32At b pos = 0 then none
  else some ⟨u32At b pos, b.getD (pos + 7) 0, bytesAt b (pos + 8) (b.getD (pos + 6) 0).toNat⟩

def recAt (pos : Nat) : DirRec := ⟨(u16At b (pos + 4)).toNat, entryAt b pos⟩

def usedAt (pos : Nat) : Nat :=
  if u32At b pos ≠ 0 then direntSize (b.getD (pos + 6) 0) else dirEntryMinSize

/-- The records from `pos` to `n`. -/
def Tiles (b : List UInt8) : Nat → List DirRec → Nat → Prop
  | pos, [], n => pos = n
  | pos, r :: w, n => recAt b pos = r ∧ usedAt b pos ≤ r.len ∧ 4 ∣ r.len ∧ Tiles b (pos + r.len) w n

def decidableTiles (b : List UInt8) :
    (pos : Nat) → (recs : List DirRec) → (n : Nat) → Decidable (Tiles b pos recs n)
  | pos, [], n => inferInstanceAs (Decidable (pos = n))
  | pos, r :: w, n =>
    have := decidableTiles b (pos + r.len) w n
    inferInstanceAs (Decidable (_ ∧ _ ∧ _ ∧ _))

instance (b : List UInt8) (pos : Nat) (recs : List DirRec) (n : Nat) :
    Decidable (Tiles b pos recs n) :=
  decidableTiles b pos recs n

def Stops (b : List UInt8) (n : Nat) : Prop :=
  b.length < n + dirEntryMinSize ∨ u16At b (n + 4) = 0 ∨
    u32At b n = 0 ∧ u16At b (n + 4) = 12 ∧ n + direntTailSize = b.length

structure DirBlock (b : List UInt8) (n : Nat) (recs : List DirRec) : Prop where
  tiles : Tiles b 0 recs n
  le : n ≤ b.length
  stops : Stops b n

def live (recs : List DirRec) : List Entry := recs.filterMap DirRec.entry

def insertRec (new : Entry) : List DirRec → Option (List DirRec)
  | [] => none
  | r :: w =>
    if direntSize (.ofNat new.name.length) ≤ r.slack then
      some (⟨r.used, r.entry⟩ :: ⟨r.slack, some new⟩ :: w)
    else (insertRec new w).map (r :: ·)

def DirRec.Named (r : DirRec) (name : List UInt8) : Prop := r.entry.map Entry.name = some name

instance (r : DirRec) (name : List UInt8) : Decidable (r.Named name) :=
  inferInstanceAs (Decidable (_ = _))

/-- A record of that name is joined to the one before it, which is `p` at first. -/
def removeAfter (name : List UInt8) (p : DirRec) : List DirRec → Option (List DirRec)
  | [] => none
  | r :: w =>
    if r.Named name then some (⟨p.len + r.len, p.entry⟩ :: w)
    else (removeAfter name r w).map (p :: ·)

def removeRec (name : List UInt8) : List DirRec → Option (List DirRec)
  | [] => none
  | r :: w => if r.Named name then some (⟨r.len, none⟩ :: w) else removeAfter name r w

variable {b c : List UInt8} {pos n : Nat} {r : DirRec} {recs : List DirRec} {name : List UInt8}
  {w : List DirRec} {k : Nat} {p : DirRec} {prevPos : Nat}

theorem le_direntSize (k : UInt8) : 8 + k.toNat ≤ direntSize k := by
  rw [direntSize, dirEntryHeaderSize]
  omega

theorem usedAt_ge (b : List UInt8) (pos : Nat) : 8 ≤ usedAt b pos := by
  rw [usedAt]
  split
  · exact (Nat.le_add_right _ _).trans (le_direntSize _)
  · exact Nat.le_refl _

theorem dvd_usedAt (b : List UInt8) (pos : Nat) : 4 ∣ usedAt b pos := by
  rw [usedAt]
  split
  · exact Nat.dvd_mul_left _ _
  · exact ⟨2, rfl⟩

theorem used_recAt (h : pos + usedAt b pos ≤ b.length) : (recAt b pos).used = usedAt b pos := by
  rw [usedAt] at *
  rw [DirRec.used, recAt, entryAt]
  split at h
  · rename_i hne
    rw [if_neg hne, if_pos hne]
    have hle := le_direntSize (b.getD (pos + 6) 0)
    dsimp only
    rw [length_bytesAt (by omega), UInt8.ofNat_toNat]
  · rename_i heq
    rw [if_pos (not_ne_iff.mp heq), if_neg heq]

theorem entryAt_congr (h4 : Agree b c pos (pos + 4)) (h6 : Agree b c (pos + 6) (pos + usedAt b pos))
    (hlen : c.length = b.length) : entryAt c pos = entryAt b pos ∧ usedAt c pos = usedAt b pos := by
  have h8 := usedAt_ge b pos
  have hnameLen : c.getD (pos + 6) 0 = b.getD (pos + 6) 0 := h6 _ (by omega) (by omega)
  have htype : c.getD (pos + 7) 0 = b.getD (pos + 7) 0 := h6 _ (by omega) (by omega)
  refine ⟨?_, by rw [usedAt, usedAt, h4.u32At, hnameLen]⟩
  rw [entryAt, entryAt, h4.u32At, hnameLen, htype]
  split
  · rfl
  rename_i hne
  have hle := le_direntSize (b.getD (pos + 6) 0)
  have hused : usedAt b pos = direntSize (b.getD (pos + 6) 0) := if_pos hne
  rw [Agree.bytesAt (h6.mono (by omega) (by omega)) hlen]

theorem recAt_congr (h : Agree b c pos (pos + usedAt b pos)) (hlen : c.length = b.length) :
    recAt c pos = recAt b pos ∧ usedAt c pos = usedAt b pos := by
  have h8 := usedAt_ge b pos
  obtain ⟨hentry, hused⟩ := entryAt_congr (h.mono (Nat.le_refl _) (by omega))
    (h.mono (by omega) (Nat.le_refl _)) hlen
  have hu16 : u16At c (pos + 4) = u16At b (pos + 4) := (h.mono (by omega) (by omega)).u16At
  exact ⟨by rw [recAt, recAt, hu16, hentry], hused⟩

section

variable (h : Tiles b pos recs n)

include h

theorem Tiles.le : pos ≤ n := by
  induction recs generalizing pos with
  | nil => exact Nat.le_of_eq h
  | cons r w ih =>
    obtain ⟨-, -, -, hw⟩ := h
    exact (Nat.le_add_right _ _).trans (ih hw)

theorem Tiles.congr (hagree : Agree b c pos n) (hlen : c.length = b.length) :
    Tiles c pos recs n := by
  induction recs generalizing pos with
  | nil => exact h
  | cons r w ih =>
    obtain ⟨hr, hused, hdvd, hw⟩ := h
    have hle := hw.le
    obtain ⟨hrec, hsame⟩ := recAt_congr (hagree.mono (Nat.le_refl _) (by omega)) hlen
    exact ⟨hrec.trans hr, hsame ▸ hused, hdvd, ih hw (hagree.mono (by omega) (Nat.le_refl _))⟩

theorem Tiles.unique {recs' : List DirRec} (h' : Tiles b pos recs' n) : recs = recs' := by
  induction recs generalizing pos recs' with
  | nil =>
    obtain rfl : pos = n := h
    cases recs' with
    | nil => rfl
    | cons r' w' =>
      obtain ⟨-, hused, -, hw⟩ := h'
      have hle := hw.le
      have h8 := usedAt_ge b pos
      omega
  | cons r w ih =>
    obtain ⟨hr, hused, -, hw⟩ := h
    cases recs' with
    | nil =>
      obtain rfl : pos = n := h'
      have hle := hw.le
      have h8 := usedAt_ge b pos
      omega
    | cons r' w' =>
      obtain ⟨hr', -, -, hw'⟩ := h'
      obtain rfl : r = r' := hr.symm.trans hr'
      rw [ih hw hw']

omit h in
theorem Stops.congr (h : Stops b n) (hagree : Agree b c n b.length) (hlen : c.length = b.length) :
    Stops c n := by
  rw [Stops, hlen]
  rcases Nat.lt_or_ge b.length (n + dirEntryMinSize) with hlt | hge
  · exact .inl hlt
  · rw [dirEntryMinSize] at hge
    rw [(hagree.mono (Nat.le_refl _) (by omega)).u32At,
      (hagree.mono (by omega) (by omega) : Agree b c (n + 4) (n + 4 + 2)).u16At]
    exact h

theorem Tiles.length_le : pos + 8 * recs.length ≤ n := by
  induction recs generalizing pos with
  | nil => exact Nat.le_of_eq h
  | cons r w ih =>
    obtain ⟨-, hused, -, hw⟩ := h
    have hle := ih hw
    have h8 := usedAt_ge b pos
    rw [length_cons]
    omega

omit h in
theorem Tiles.head (h : Tiles b pos (r :: w) n) (hle : n ≤ b.length) :
    pos + dirEntryMinSize ≤ b.length ∧ u16At b (pos + 4) ≠ 0 ∧
      (u16At b (pos + 4)).toNat = r.len ∧ pos + r.len ≤ b.length ∧ r.used = usedAt b pos ∧
      r.entry = entryAt b pos := by
  obtain ⟨rfl, hused, -, hw⟩ := h
  have hend := hw.le
  have h8 := usedAt_ge b pos
  refine ⟨by rw [dirEntryMinSize]; omega, ?_, rfl, by omega, used_recAt (by omega), rfl⟩
  intro hzero
  rw [recAt, hzero] at hused
  change usedAt b pos ≤ 0 at hused
  omega

/-! ### Lookup -/

def DirEntry.entry (d : DirEntry) : Entry := ⟨d.inode, d.fileType, d.name⟩

omit h in
theorem nextEntry_stop (h : Stops b n) (k : Nat) : nextEntry b k n = .ok none := by
  cases k with
  | zero => rfl
  | succ k =>
    rw [nextEntry]
    rcases h with hend | hzero | ⟨hino, hlen, heq⟩
    · rw [if_pos hend]
    · dsimp only
      split
      · rfl
      · rw [if_pos (.inl hzero)]
    · -- The record of the checksum is skipped, and behind it is the end.
      have hafter : nextEntry b k (n + 12) = .ok none := by
        cases k with
        | zero => rfl
        | succ k =>
          rw [nextEntry, if_pos]
          rw [dirEntryMinSize]
          rw [direntTailSize] at heq
          omega
      dsimp only
      rw [hlen, hino, if_pos rfl, show (12 : UInt16).toNat = 12 from rfl, hafter]
      split
      · rfl
      · split <;> rfl

theorem nextEntry_cases (hle : n ≤ b.length) (hstop : Stops b n) (hk : recs.length ≤ k) :
    live recs = [] ∧ nextEntry b k pos = .ok none ∨
    ∃ d pos' w, nextEntry b k pos = .ok (some (d, pos')) ∧ live recs = d.entry :: live w ∧
      Tiles b pos' w n ∧ w.length < recs.length := by
  induction recs generalizing pos k with
  | nil =>
    obtain rfl : pos = n := h
    exact .inl ⟨rfl, nextEntry_stop hstop k⟩
  | cons r w ih =>
    obtain ⟨hmin, hne, hlen, hend, hused, hentry⟩ := h.head hle
    obtain ⟨-, hfits, -, hw⟩ := h
    cases k with
    | zero => exact absurd hk (by simp)
    | succ k =>
      rw [nextEntry, if_neg (by omega)]
      rw [if_neg (by rw [hlen]; exact not_or.mpr ⟨hne, by omega⟩), hlen]
      rcases eq_or_ne (u32At b pos) 0 with hzero | hlive
      · rw [entryAt, if_pos hzero] at hentry
        have hskip : live (r :: w) = live w := filterMap_cons_none hentry
        rw [if_pos hzero, hskip]
        rcases ih hw (le_of_succ_le_succ hk) with hnone | ⟨d, pos', w', hnext, hrest⟩
        · exact .inl hnone
        · exact .inr ⟨d, pos', w', hnext, hrest.1, hrest.2.1, by rw [length_cons]; omega⟩
      · have hname := le_direntSize (b.getD (pos + 6) 0)
        have husedAt : usedAt b pos = direntSize (b.getD (pos + 6) 0) := if_pos hlive
        rw [entryAt, if_neg hlive] at hentry
        rw [if_neg hlive, if_neg (by omega)]
        exact .inr ⟨_, _, w, rfl, filterMap_cons_some hentry, hw, lt_succ_self _⟩

theorem lookupLinearFrom_eq (hle : n ≤ b.length) (hstop : Stops b n) (hk : recs.length ≤ k) :
    (lookupLinearFrom b name k pos).map (Option.map DirEntry.entry) =
      .ok ((live recs).find? (·.name = name)) := by
  induction k generalizing pos recs with
  | zero =>
    obtain rfl := eq_nil_of_length_eq_zero (le_zero.mp hk)
    rfl
  | succ k ih =>
    have hfuel : recs.length ≤ b.length := by
      have := h.length_le
      omega
    rw [lookupLinearFrom]
    rcases nextEntry_cases h hle hstop hfuel with
      ⟨hnone, hnext⟩ | ⟨d, pos', w, hnext, hlive, hw, hlt⟩
    · rw [hnext, hnone]
      rfl
    · rw [hnext, hlive]
      change Except.map _ (if d.name = name then _ else _) = _
      rcases eq_or_ne d.name name with heq | hne
      · rw [if_pos heq, find?_cons_of_pos (by exact decide_eq_true heq)]
        rfl
      · rw [if_neg hne, find?_cons_of_neg (by rw [decide_eq_true_eq]; exact hne),
          ← ih hw (by omega)]

end

theorem lookupLinear_eq (h : DirBlock b n recs) (name : List UInt8) :
    (lookupLinear b name).map (Option.map DirEntry.entry) =
      .ok ((live recs).find? (·.name = name)) := by
  refine lookupLinearFrom_eq h.tiles h.le h.stops ?_
  have hlen := h.tiles.length_le
  have hle := h.le
  omega

/-! ### Insertion -/

theorem length_direntBytes (inode : UInt32) (recLen : UInt16) (fileType : UInt8)
    (name : List UInt8) : (direntBytes inode recLen fileType name).length = 8 + name.length := by
  simp only [direntBytes, le32, le16, length_append, length_cons, length_nil]

theorem recAt_of_stands {inode : UInt32} {recLen : UInt16} {fileType : UInt8}
    (h : Stands b pos (direntBytes inode recLen fileType name)) (hino : inode ≠ 0)
    (hname : name.length < 256) (hle : pos + 8 + name.length ≤ b.length) :
    recAt b pos = ⟨recLen.toNat, some ⟨inode, fileType, name⟩⟩ ∧
      usedAt b pos = direntSize (.ofNat name.length) := by
  obtain ⟨hhead, hbytes⟩ := h.of_append
  obtain ⟨hhead, htwo⟩ := hhead.of_append
  obtain ⟨h32, h16⟩ := hhead.of_append
  have h6 : b.getD (pos + 6) 0 = .ofNat name.length := htwo 0 (by simp)
  have h7 : b.getD (pos + 7) 0 = fileType := htwo 1 (by simp)
  have hslice : bytesAt b (pos + 8) name.length = name := hbytes.bytesAt hle
  have hu32 : u32At b pos = inode := h32.u32At
  have hu16 : u16At b (pos + 4) = recLen := h16.u16At
  constructor
  · rw [recAt, entryAt, hu16, hu32, if_neg hino, h6, h7, UInt8.toNat_ofNat',
      mod_eq_of_lt hname, hslice]
  · rw [usedAt, hu32, if_pos hino, h6]

/-- `c` is the block `b` with other records from `pos` on. -/
structure Edited (b c : List UInt8) (pos n : Nat) (recs : List DirRec) : Prop where
  length : c.length = b.length
  tiles : Tiles c pos recs n
  before : Agree b c 0 pos
  after : Agree b c n b.length

/-- A walk over the records from `pos` on ends as the operation on their list does. -/
def Walks (b : List UInt8) (pos n : Nat) (res : Except Stop (Bool × List UInt8)) :
    Option (List DirRec) → Prop
  | none => res = .ok (false, b)
  | some recs => ∃ c, res = .ok (true, c) ∧ Edited b c pos n recs

def Changes (b : List UInt8) (n : Nat) (res : Except Stop (Bool × List UInt8))
    (o : Option (List DirRec)) : Prop :=
  o = none ∧ res = .ok (false, b) ∨
    ∃ recs c, o = some recs ∧ res = .ok (true, c) ∧ c.length = b.length ∧ DirBlock c n recs

section Walks

variable {res : Except Stop (Bool × List UInt8)} {o : Option (List DirRec)}

theorem Walks.cons (h : Tiles b pos (r :: w) n) (hw : Walks b (pos + r.len) n res o) :
    Walks b pos n res (o.map (r :: ·)) := by
  obtain ⟨hrec, hfits, hdvd, -⟩ := h
  cases o with
  | none => exact hw
  | some recs =>
    obtain ⟨c, hres, hlen, htiles, hbefore, hafter⟩ := hw
    have hhere : Agree b c pos (pos + usedAt b pos) := hbefore.mono (Nat.zero_le _) (by omega)
    obtain ⟨hsame, hused⟩ := recAt_congr hhere hlen
    exact ⟨c, hres, hlen, ⟨hsame.trans hrec, hused ▸ hfits, hdvd, htiles⟩,
      hbefore.mono (Nat.le_refl _) (by omega), hafter⟩

theorem Walks.changes (h : DirBlock b n recs) (hw : Walks b 0 n res o) : Changes b n res o := by
  cases o with
  | none => exact .inl ⟨rfl, hw⟩
  | some recs =>
    obtain ⟨c, hres, hlen, htiles, -, hafter⟩ := hw
    exact .inr ⟨recs, c, rfl, hres, hlen, htiles, hlen ▸ h.le, h.stops.congr hafter hlen⟩

end Walks

theorem splice_twice {p q : Nat} {x y : List UInt8} (hx : p + x.length ≤ b.length)
    (hy : q + y.length ≤ b.length) (hc : c = splice (splice b p x) q y) :
    c.length = b.length ∧ Stands c q y ∧ (p + x.length ≤ q ∨ q + y.length ≤ p → Stands c p x) ∧
      ∀ lo hi, hi ≤ p ∨ p + x.length ≤ lo → hi ≤ q ∨ q + y.length ≤ lo → Agree b c lo hi := by
  have hlen : (splice b p x).length = b.length := length_splice hx
  rw [← hlen] at hy
  subst hc
  refine ⟨(length_splice hy).trans hlen, stands_splice hy, fun h k hk => ?_, fun lo hi h1 h2 =>
    (agree_splice hx h1).trans (agree_splice hy h2)⟩
  rw [agree_splice hy h (p + k) (Nat.le_add_right _ _) (Nat.add_lt_add_left hk _)]
  exact stands_splice hx k hk

section Insert

variable {inode : UInt32} {fileType : UInt8}

theorem insertFrom_stop (h : Stops b n) (k : Nat) :
    insertFrom b inode name fileType k n = .ok (false, b) := by
  cases k with
  | zero => rfl
  | succ k =>
    rw [insertFrom]
    dsimp only
    rcases h with hend | hzero | ⟨hino, hlen, heq⟩
    · rw [if_neg (by omega)]
    · split
      · rw [if_pos (.inl (by rw [hzero]; rfl))]
      · rfl
    · rw [direntTailSize] at heq
      have hneed := le_direntSize (.ofNat name.length)
      have hafter : insertFrom b inode name fileType k (n + 12) = .ok (false, b) := by
        cases k with
        | zero => rfl
        | succ k => rw [insertFrom, if_neg (by rw [dirEntryMinSize]; omega)]
      rw [hlen, hino, if_neg (not_not.mpr rfl), dirEntryMinSize,
        show (12 : UInt16).toNat = 12 from rfl, if_pos (by omega), if_neg (by omega),
        if_neg (by omega), hafter]

theorem split_tiles (h : Tiles b pos (r :: w) n) (hle : n ≤ b.length)
    (hino : inode ≠ 0) (hname : name.length < 256)
    (hslack : direntSize (.ofNat name.length) ≤ r.slack)
    (hc : c = splice (splice b (pos + 4) (le16 (.ofNat (usedAt b pos)))) (pos + usedAt b pos)
      (direntBytes inode (.ofNat r.slack) fileType name)) :
    Edited b c pos n (⟨r.used, r.entry⟩ :: ⟨r.slack, some ⟨inode, fileType, name⟩⟩ :: w) := by
  obtain ⟨hmin, -, hlen, hend, hused, hentry⟩ := h.head hle
  obtain ⟨-, hfits, hdvd, hw⟩ := h
  have hwle := hw.le
  have h16 := (u16At b (pos + 4)).toNat_lt
  have h8 := usedAt_ge b pos
  have hneed := le_direntSize (.ofNat name.length)
  rw [UInt8.toNat_ofNat'] at hneed
  have hsum : usedAt b pos + r.slack = r.len := by
    rw [DirRec.slack]
    omega
  have hbytes := length_direntBytes inode (.ofNat r.slack) fileType name
  have hlen16 : (le16 (.ofNat (usedAt b pos))).length = 2 := rfl
  -- Only the length of the record and the bytes of the new one are written.
  obtain ⟨hlenc, hstands, hcut, hagree⟩ := splice_twice (by omega) (by omega) hc
  obtain ⟨hnew, hnewUsed⟩ := recAt_of_stands hstands hino hname (by omega)
  obtain ⟨hsame, hsameUsed⟩ :=
    entryAt_congr (hagree pos (pos + 4) (by omega) (by omega))
      (hagree (pos + 6) _ (by omega) (by omega)) hlenc
  refine ⟨hlenc, ⟨?_, ?_, ?_, ?_, ?_, ?_, ?_⟩, hagree _ _ (by omega) (by omega),
    hagree _ _ (by omega) (by omega)⟩
  · rw [recAt, (hcut (by omega)).u16At, hsame, hentry, hused, UInt16.toNat_ofNat',
      mod_eq_of_lt (by omega)]
  · rw [hsameUsed, hused]
  · rw [hused]
    exact dvd_usedAt b pos
  · rw [hused, hnew, UInt16.toNat_ofNat', mod_eq_of_lt (by omega)]
  · rw [hused, hnewUsed]
    exact hslack
  · have hdvdUsed := dvd_usedAt b pos
    change 4 ∣ r.slack
    omega
  · have hnext : pos + r.used + r.slack = pos + r.len := by omega
    rw [hnext]
    exact hw.congr (hagree _ _ (by omega) (by omega)) hlenc

theorem insertFrom_walks (h : Tiles b pos recs n) (hle : n ≤ b.length)
    (hstop : Stops b n) (hk : recs.length ≤ k) (hino : inode ≠ 0) (hname : name.length < 256) :
    Walks b pos n (insertFrom b inode name fileType k pos)
      (insertRec ⟨inode, fileType, name⟩ recs) := by
  induction recs generalizing pos k with
  | nil =>
    obtain rfl : pos = n := h
    exact insertFrom_stop hstop k
  | cons r w ih =>
    obtain ⟨hmin, hne, hlen, hend, hused, hentry⟩ := h.head hle
    obtain ⟨-, hfits, -, hw⟩ := id h
    cases k with
    | zero => exact absurd hk (by simp)
    | succ k =>
      have hmax := (u16At b (pos + 4)).toNat_lt
      have h8 := usedAt_ge b pos
      have havail : (r.len + 2 ^ 64 - usedAt b pos) % 2 ^ 64 = r.slack := by
        rw [DirRec.slack]
        omega
      have hneed := le_direntSize (.ofNat name.length)
      rw [UInt8.toNat_ofNat'] at hneed
      rw [insertFrom, if_pos hmin]
      dsimp only
      rw [hlen, if_neg (by omega), ← usedAt, havail, insertRec]
      rcases Nat.lt_or_ge r.slack (direntSize (.ofNat name.length)) with hlt | hge
      · rw [if_neg (Nat.not_le.mpr hlt), if_neg (Nat.not_le.mpr hlt)]
        exact (ih hw (le_of_succ_le_succ hk)).cons h
      · rw [if_pos hge, if_pos hge]
        rw [if_neg (by omega)]
        exact ⟨_, rfl, split_tiles h hle hino hname hge rfl⟩

variable (fileType) in
theorem insertIntoBlock_changes (h : DirBlock b n recs) (hino : inode ≠ 0)
    (hname : name.length < 256) : Changes b n (insertIntoBlock b inode name fileType)
      (insertRec ⟨inode, fileType, name⟩ recs) := by
  have hlen := h.tiles.length_le
  have hle := h.le
  exact (insertFrom_walks h.tiles h.le h.stops (by omega : recs.length ≤ b.length) hino
    hname).changes h

end Insert

/-! ### Removal -/

theorem removeFrom_stop (h : Stops b n) (k prevPos : Nat) :
    removeFrom b name k n prevPos = .ok (false, b) := by
  cases k with
  | zero => rfl
  | succ k =>
    rw [removeFrom]
    rcases h with hend | hzero | ⟨hino, hlen, heq⟩
    · rw [if_neg (by omega)]
    · split
      · rw [if_pos (.inl (by rw [hzero]; rfl))]
      · rfl
    · rw [direntTailSize] at heq
      have hafter : removeFrom b name k (n + 12) n = .ok (false, b) := by
        cases k with
        | zero => rfl
        | succ k => rw [removeFrom, if_neg (by rw [dirEntryMinSize]; omega)]
      rw [hlen, hino, dirEntryMinSize, show (12 : UInt16).toNat = 12 from rfl,
        if_pos (by omega), if_neg (by omega), if_neg (fun h => h.1 rfl), hafter]

theorem removeFrom_succ (h : Tiles b pos (r :: w) n) (hle : n ≤ b.length)
    (k prevPos : Nat) (name : List UInt8) : removeFrom b name (k + 1) pos prevPos =
      if r.Named name then .ok (true, splice (splice b pos (le32 0)) (prevPos + 4)
          (le16 (.ofNat (pos - prevPos + r.len)))) else removeFrom b name k (pos + r.len) pos := by
  obtain ⟨hmin, hne, hlen, hend, hused, hentry⟩ := h.head hle
  obtain ⟨-, hfits, -, hw⟩ := h
  rw [removeFrom, if_pos hmin]
  dsimp only
  rw [hlen, if_neg (by
    rw [← hlen]
    exact not_or.mpr ⟨fun hzero => hne (UInt16.toNat_inj.mp hzero), by omega⟩)]
  rcases eq_or_ne (u32At b pos) 0 with hzero | hlive
  · rw [entryAt, if_pos hzero] at hentry
    have hnot : ¬r.Named name := by
      rw [DirRec.Named, hentry]
      exact fun h => nomatch h
    rw [if_neg (fun h => h.1 hzero), if_neg hnot]
  · have hname := le_direntSize (b.getD (pos + 6) 0)
    have husedAt : usedAt b pos = direntSize (b.getD (pos + 6) 0) := if_pos hlive
    have hslice : (bytesAt b (pos + 8) (b.getD (pos + 6) 0).toNat).length =
        (b.getD (pos + 6) 0).toNat := length_bytesAt (by omega)
    rw [entryAt, if_neg hlive] at hentry
    have hnamed : r.Named name ↔ bytesAt b (pos + 8) (b.getD (pos + 6) 0).toNat = name := by
      rw [DirRec.Named, hentry]
      exact Option.some_inj
    rw [if_congr hnamed rfl rfl]
    rcases eq_or_ne (bytesAt b (pos + 8) (b.getD (pos + 6) 0).toNat) name with heq | hdiff
    · rw [if_pos ⟨hlive, by rw [← heq, hslice]⟩, if_neg (by omega)]
    · split
      · rw [if_neg (by omega)]
      · rfl

theorem clear_tiles (h : Tiles b pos (r :: w) n) (hle : n ≤ b.length)
    (hc : c = splice (splice b pos (le32 0)) (pos + 4) (le16 (.ofNat (pos - pos + r.len)))) :
    Edited b c pos n (⟨r.len, none⟩ :: w) := by
  obtain ⟨hmin, -, hlen, hend, -, -⟩ := h.head hle
  obtain ⟨-, hfits, hdvd, hw⟩ := h
  have hwle := hw.le
  have h16 := (u16At b (pos + 4)).toNat_lt
  have h8 := usedAt_ge b pos
  have hlen32 : (le32 0).length = 4 := rfl
  have hlen16 : (le16 (.ofNat (pos - pos + r.len))).length = 2 := rfl
  obtain ⟨hlenc, hstands, hzero, hagree⟩ := splice_twice (by omega) (by omega) hc
  have hino : u32At c pos = 0 := (hzero (by omega)).u32At
  rw [Nat.sub_self, Nat.zero_add] at hstands
  refine ⟨hlenc, ⟨?_, ?_, hdvd, ?_⟩, hagree _ _ (by omega) (by omega),
    hagree _ _ (by omega) (by omega)⟩
  · rw [recAt, entryAt, hino, if_pos rfl, hstands.u16At, UInt16.toNat_ofNat',
      mod_eq_of_lt (by omega)]
  · rw [usedAt, hino]
    exact h8.trans hfits
  · exact hw.congr (hagree _ _ (by omega) (by omega)) hlenc

theorem merge_tiles (h : Tiles b prevPos (p :: r :: w) n) (hle : n ≤ b.length) (hn : n < 2 ^ 16)
    (hpos : pos = prevPos + p.len) (hc : c = splice (splice b pos (le32 0)) (prevPos + 4)
      (le16 (.ofNat (pos - prevPos + r.len)))) :
    Edited b c prevPos n (⟨p.len + r.len, p.entry⟩ :: w) := by
  obtain ⟨-, -, hlenp, hendp, -, hentry⟩ := h.head hle
  obtain ⟨-, hfitsp, hdvdp, h⟩ := h
  rw [← hpos] at h
  obtain ⟨-, hfits, hdvd, hw⟩ := h
  have hwle := hw.le
  have h8 := usedAt_ge b pos
  have h8p := usedAt_ge b prevPos
  have hlen32 : (le32 0).length = 4 := rfl
  have hlen16 : (le16 (.ofNat (pos - prevPos + r.len))).length = 2 := rfl
  obtain ⟨hlenc, hstands, -, hagree⟩ := splice_twice (by omega) (by omega) hc
  rw [show pos - prevPos + r.len = p.len + r.len by omega] at hstands
  obtain ⟨hsame, hsameUsed⟩ :=
    entryAt_congr (hagree prevPos (prevPos + 4) (by omega) (by omega))
      (hagree (prevPos + 6) _ (by omega) (by omega)) hlenc
  refine ⟨hlenc, ⟨?_, ?_, Nat.dvd_add hdvdp hdvd, ?_⟩, hagree _ _ (by omega) (by omega),
    hagree _ _ (by omega) (by omega)⟩
  · rw [recAt, hstands.u16At, hsame, hentry, UInt16.toNat_ofNat', mod_eq_of_lt (by omega)]
  · rw [hsameUsed]
    exact hfitsp.trans (Nat.le_add_right _ _)
  · rw [← Nat.add_assoc, ← hpos]
    exact hw.congr (hagree _ _ (by omega) (by omega)) hlenc

theorem removeFrom_walks (h : Tiles b prevPos (p :: recs) n)
    (hle : n ≤ b.length) (hn : n < 2 ^ 16) (hstop : Stops b n) (hk : recs.length ≤ k)
    (hpos : pos = prevPos + p.len) :
    Walks b prevPos n (removeFrom b name k pos prevPos) (removeAfter name p recs) := by
  induction recs generalizing p prevPos pos k with
  | nil =>
    obtain ⟨-, -, -, hend⟩ := h
    obtain rfl : pos = n := hpos.trans hend
    exact removeFrom_stop hstop k prevPos
  | cons r w ih =>
    obtain ⟨-, -, -, hw⟩ := id h
    cases k with
    | zero => exact absurd hk (by simp)
    | succ k =>
      rw [← hpos] at hw
      rw [removeFrom_succ hw hle, removeAfter]
      split
      · exact ⟨_, rfl, merge_tiles h hle hn hpos rfl⟩
      · exact Walks.cons h (hpos ▸ ih hw (le_of_succ_le_succ hk) rfl)

theorem removeFromBlock_changes (h : DirBlock b n recs) (hn : n < 2 ^ 16) (name : List UInt8) :
    Changes b n (removeFromBlock b name) (removeRec name recs) := by
  have hlen := h.tiles.length_le
  have hle := h.le
  refine Walks.changes h ?_
  obtain ⟨htiles, -, hstop⟩ := id h
  rw [removeFromBlock]
  cases recs with
  | nil =>
    obtain rfl : 0 = n := htiles
    exact removeFrom_stop hstop _ 0
  | cons r w =>
    rw [length_cons] at hlen
    obtain ⟨k, hk⟩ : ∃ k, b.length = k + 1 := ⟨b.length - 1, by omega⟩
    have hround := removeFrom_succ htiles hle k 0 name
    rw [← hk] at hround
    rw [hround, removeRec]
    split
    · exact ⟨_, rfl, clear_tiles htiles hle rfl⟩
    · exact removeFrom_walks htiles hle hn hstop (by omega : w.length ≤ k) rfl

end Gergios.Ext4
