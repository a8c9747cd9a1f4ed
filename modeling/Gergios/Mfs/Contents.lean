import Gergios.Mfs.Accounting

/-!
# A file as an array of bytes

Reads, writes, truncations and holes of one file, against an array of bytes with a size. A write for
which there is no room fails and leaves the array as it is. The code keeps what it has stored before
the disk was full, and the size at the position it came to, even if that is behind the end of the
file and nothing has been stored.
-/

namespace Gergios.Mfs

open Lib Function List Nat

inductive FileOp where
  | read (position nrbytes : Nat)
  | write (position : Nat) (data : UserData)
  | trunc (start stop : Nat)

def fileStep (sp : Super) (f : Nat) : FileOp → State → Except Failure (Reply × State)
  | .read position nrbytes, s => fsRead sp f position nrbytes s
  | .write position data, s => fsWrite sp f position data s
  | .trunc start stop, s => fsTrunc sp f start stop s

structure Flat where
  size : Nat
  byte : Nat → UInt8

namespace Flat

variable (c : Flat)

def read (position nrbytes : Nat) : List UInt8 :=
  (List.range (min nrbytes (c.size - position))).map fun i => c.byte (position + i)

def write (position : Nat) (bytes : List UInt8) : Flat :=
  if bytes = [] then c
  else { size := max c.size (position + bytes.length), byte := putBytes c.byte position bytes }

def resize (size : Nat) : Flat :=
  { size := size, byte := fun q => if q < size then c.byte q else 0 }

def hole (start stop : Nat) : Flat :=
  { c with byte := punch c.byte start (min stop c.size) }

end Flat

/-- A call on the array; `fits` says whether the volume has the zones that a write needs. -/
inductive FlatStep (fits : Bool) (c : Flat) : FileOp → Reply → Flat → Prop
  | read (position nrbytes : Nat) :
    FlatStep fits c (.read position nrbytes) (.bytes (c.read position nrbytes)) c
  | write (position : Nat) (data : UserData) (hmax : position + data.bytes.length ≤ maxSize)
    (hfits : fits = true) :
    FlatStep fits c (.write position data) (.count data.bytes.length) (c.write position data.bytes)
  | writeBig (position : Nat) (data : UserData) (hmax : maxSize < position + data.bytes.length) :
    FlatStep fits c (.write position data) (.err .efbig) c
  | writeFull (position : Nat) (data : UserData) (hmax : position + data.bytes.length ≤ maxSize)
    (hfull : fits = false) : FlatStep fits c (.write position data) (.err .enospc) c
  | trunc (size : Nat) (hmax : size ≤ maxSize) : FlatStep fits c (.trunc size 0) .ok (c.resize size)
  | truncBig (size : Nat) (hmax : maxSize < size) : FlatStep fits c (.trunc size 0) (.err .efbig) c
  | hole {start stop : Nat} (hstop : stop ≠ 0) (hrange : start < min stop c.size) :
    FlatStep fits c (.trunc start stop) .ok (c.hole start stop)
  | noHole {start stop : Nat} (hstop : stop ≠ 0) (hrange : min stop c.size ≤ start) :
    FlatStep fits c (.trunc start stop) (.err .einval) c

/-- The volume is accounted for, and file `f` holds the bytes `c`. -/
structure Holds (sp : Super) (f : Nat) (s : State) (c : Flat) : Prop where
  acc : Accounted sp s.files s.vol ∅
  file : ∃ rip, s.inodes f = some rip ∧ (rip.type = .regular ∨ rip.type = .directory) ∧
    rip.size = c.size
  byte : content sp s.files s.vol.disk f = c.byte
  clean : ∀ q, c.size ≤ q → c.byte q = 0
  size : c.size ≤ maxSize

def FileOp.fits (sp : Super) (f : Nat) (s : State) : FileOp → Bool
  | .write position data =>
    demand sp (s.map sp) f (blocks sp position data.bytes.length) ≤ room sp s.vol
  | .read _ _ | .trunc _ _ => true

/-- The copies of a write succeed, and there is room for all of it, or not even for its first block
and it begins within the file or at its end. An empty write does not begin behind the end. -/
def FileOp.Allowed (sp : Super) (f : Nat) (s : State) : FileOp → Prop
  | .write position data => position + data.bytes.length ≤ maxSize → (∀ n, data.copied n = none) ∧
      ∀ rip, s.inodes f = some rip → position ≤ rip.size ∧
          room sp s.vol < needed sp (s.map sp) f (position / sp.blockSize) ∨
        (data.bytes = [] → position ≤ rip.size) ∧ (FileOp.write position data).fits sp f s
  | .read _ _ | .trunc _ _ => True

variable {sp : Super} {s s' : State} {f : Nat} {rip rip' : Inode} {c : Flat} {files : Files}
  {v : Vol}
  {position nrbytes : Nat}

theorem div_mod_add (sp : Super) (position i : Nat)
    (hi : position % sp.blockSize + i < sp.blockSize) :
    (position + i) / sp.blockSize = position / sp.blockSize ∧
      (position + i) % sp.blockSize = position % sp.blockSize + i := by
  have hdiv := div_add_mod position sp.blockSize
  have heq : position + i =
      position % sp.blockSize + i + sp.blockSize * (position / sp.blockSize) := by
    omega
  constructor
  · rw [heq, add_mul_div_left _ _ (blockSize_pos sp), div_eq_of_lt hi, Nat.zero_add]
  · rw [heq, add_mul_mod_self_left, mod_eq_of_lt hi]

theorem readChunk_spec (chunk : Nat) (h : Accounted sp files v ∅) (hf : files f = some rip)
    (hk : position / sp.blockSize < mapSize sp)
    (hchunk : position % sp.blockSize + chunk ≤ sp.blockSize) :
    readChunk sp position (position % sp.blockSize) chunk rip v =
      .ok ((List.range chunk).map fun i => content sp files v.disk f (position + i)) := by
  have hslot : zoneAt sp files v.disk (f, .data (position / sp.blockSize)) =
      zoneOf sp rip v.disk (.data (position / sp.blockSize)) := zoneAt_of hf
  rw [readChunk, h.readMap_eq hf hk, ok_bind]
  split
  · rename_i h0
    refine congrArg Except.ok (eq_replicate_iff.mpr ⟨?_, ?_⟩).symm
    · rw [length_map, length_range]
    · intro b hb
      obtain ⟨i, hi, rfl⟩ := mem_map.mp hb
      have hlt := List.mem_range.mp hi
      obtain ⟨hblock, -⟩ := div_mod_add sp position i (by omega)
      simp only [content, hblock, hslot, h0, if_true]
  · rename_i h0
    refine congrArg Except.ok (map_congr_left fun i hi => ?_)
    have hlt := List.mem_range.mp hi
    obtain ⟨hblock, hoff⟩ := div_mod_add sp position i (by omega)
    simp only [content, hblock, hoff, hslot, if_neg h0]

theorem readLoop_spec (fuel : Nat) (h : Accounted sp files v ∅) (hf : files f = some rip)
    (hmax : rip.size ≤ maxSize) (hfuel : nrbytes ≤ fuel) :
    readLoop sp rip v fuel position nrbytes =
      .ok ((List.range (min nrbytes (rip.size - position))).map
      fun i => content sp files v.disk f (position + i)) := by
  induction fuel generalizing position nrbytes with
  | zero =>
    rw [le_zero.mp hfuel, Nat.zero_min]
    rfl
  | succ fuel ih =>
    rw [readLoop]
    by_cases hend : nrbytes = 0 ∨ rip.size ≤ position
    · have hzero : min nrbytes (rip.size - position) = 0 := by omega
      rw [if_pos hend, hzero]
      rfl
    · have hmod := mod_lt position (blockSize_pos sp)
      generalize hchunk : min (min (sp.blockSize - position % sp.blockSize) nrbytes)
        (rip.size - position) = chunk
      have hk : position / sp.blockSize < mapSize sp :=
        block_lt_mapSize sp (le_of_maxSize (by omega))
      have hsplit : min nrbytes (rip.size - position) =
          chunk + min (nrbytes - chunk) (rip.size - (position + chunk)) := by omega
      rw [if_neg hend]
      simp only [hchunk]
      rw [readChunk_spec chunk h hf hk (by omega), ih (by omega), hsplit,
        List.range_add, map_append, List.map_map]
      simp only [Nat.add_assoc]
      rfl

theorem not_special (h : rip.type = .regular ∨ rip.type = .directory) : rip.special = false := by
  rw [Inode.special]
  rcases h with h | h
  · simp [h]
  · simp [h]

namespace Holds

theorem put {c' : Flat} (htype : rip.type = .regular ∨ rip.type = .directory)
    (hsize : rip.size = c'.size) (hacc : Accounted sp (update s.files f (some rip)) v ∅)
    (hbyte : content sp (update s.files f (some rip)) v.disk f = c'.byte)
    (hclean : ∀ q, c'.size ≤ q → c'.byte q = 0) (hmax : c'.size ≤ maxSize) :
    Holds sp f (s.put f rip v) c' := by
  have hfiles : (s.put f rip v).files = update s.files f (some rip) :=
    files_put (not_special htype)
  refine ⟨?_, ⟨rip, update_self _ _ _, htype, hsize⟩, ?_, hclean, hmax⟩
  · rw [hfiles]
    exact hacc
  · rw [hfiles]
    exact hbyte

section

variable (h : Holds sp f s c)

include h

theorem read (position nrbytes : Nat) :
    fsRead sp f position nrbytes s = .ok (.bytes (c.read position nrbytes), s) := by
  obtain ⟨rip, hino, htype, hsize⟩ := h.file
  have hf := files_of hino (not_special htype)
  simp only [fsRead, hino]
  rw [readLoop_spec nrbytes h.acc hf (hsize ▸ h.size) le_rfl, h.byte, hsize]
  rfl

section

variable (htype : rip.type = .regular ∨ rip.type = .directory)

include htype

theorem stored {data : UserData} {n : Nat} (hsize : rip.size = c.size)
    (hmax : position + data.bytes.length ≤ maxSize) (hn : n ≤ data.bytes.length)
    (hpos : n = 0 → position ≤ c.size)
    (hs : Stored sp s.files s.vol f rip position data.bytes n rip' v) :
    Holds sp f (s.put f (rip'.grow (position + n)) v) (c.write position (data.bytes.take n)) := by
  have hmap := zoneAt_zone sp v.disk (update_self f (some rip') s.files)
    (rip'.grow_zone (position + n))
  have hcontent := content_zone sp v.disk (update_self f (some rip') s.files)
    (rip'.grow_zone (position + n))
  rw [update_idem] at hmap hcontent
  have htype' : rip'.type = .regular ∨ rip'.type = .directory := hs.alike.1.symm ▸ htype
  have hgrow : (rip'.grow (position + n)).size = max c.size (position + n) := by
    rw [rip'.grow_size _ htype', hs.alike.2, hsize]
  have hlen : (data.bytes.take n).length = n := length_take_of_le hn
  have hbyte : content sp (update s.files f (some (rip'.grow (position + n)))) v.disk f =
      putBytes c.byte position (data.bytes.take n) := by
    rw [hcontent, hs.self, h.byte]
  have hwrite : c.write position (data.bytes.take n) =
      ⟨max c.size (position + n), putBytes c.byte position (data.bytes.take n)⟩ := by
    rw [Flat.write]
    split
    · rename_i hnil
      have h0 : n = 0 := by rw [← hlen, hnil, length_nil]
      have hle := hpos h0
      rw [hnil, putBytes_nil, h0, Nat.add_zero, Nat.max_eq_left hle]
    · rw [hlen]
  rw [hwrite]
  have hfile : (rip'.grow (position + n)).type = .regular ∨
      (rip'.grow (position + n)).type = .directory := by rwa [rip'.grow_type]
  refine Holds.put hfile hgrow (hs.acc.congr hmap) hbyte ?_ (max_le h.size (by omega))
  intro q hq
  have hq' := max_le_iff.mp hq
  exact (if_neg (by omega)).trans (h.clean q hq'.1)

omit htype in
theorem write {data : UserData} (hallowed : (FileOp.write position data).Allowed sp f s) :
    ∃ reply s' c', fsWrite sp f position data s = .ok (reply, s') ∧
      FlatStep ((FileOp.write position data).fits sp f s) c (.write position data) reply c' ∧
      Holds sp f s' c' := by
  obtain ⟨rip, hino, htype, hsize⟩ := h.file
  have hf := files_of hino (not_special htype)
  simp only [fsWrite, hino, h.acc.writable, Bool.false_eq_true, if_false]
  by_cases hbig : maxSize < position + data.bytes.length
  · exact ⟨_, s, c, if_pos hbig, .writeBig position data hbig, h⟩
  have hmax := Nat.not_lt.mp hbig
  obtain ⟨hcopied, hroom⟩ := hallowed hmax
  have hclean : ∀ q, max rip.size position ≤ q → content sp s.files s.vol.disk f q = 0 := by
    intro q hq
    rw [h.byte]
    exact h.clean q (hsize ▸ (le_max_left _ _).trans hq)
  have hmap : zoneAt sp (update s.files f (some rip)) s.vol.disk = s.map sp := by
    rw [update_files hf, State.map]
  obtain ⟨e, n, rip', v', heq, hs', hn, hend⟩ := writeLoop_content data.bytes.length
    (.begin position data.bytes h.acc hf) rfl (Nat.zero_le _) hmax (by omega) hcopied hclean hmap
  rw [Nat.add_zero] at heq hend
  rw [if_neg hbig, heq, ok_bind]
  rcases hend with ⟨rfl, rfl, hfits⟩ | ⟨rfl, hfull, hnone⟩
  · have hpos : data.bytes.length = 0 → position ≤ c.size := by
      intro h0
      rcases hroom rip hino with ⟨hle, -⟩ | ⟨hempty, -⟩
      · rwa [← hsize]
      · rw [← hsize]
        exact hempty (length_eq_zero_iff.mp h0)
    have hholds := h.stored htype hsize hmax le_rfl hpos hs'
    rw [take_length] at hholds
    exact ⟨_, _, _, rfl, .write position data hmax (decide_eq_true hfits), hholds⟩
  · -- There was no room for the first block, so nothing has been stored.
    rcases hroom rip hino with ⟨hle, hlt⟩ | ⟨-, hfits⟩
    · obtain rfl := hnone hlt
      have hholds := h.stored htype hsize hmax (Nat.zero_le _) (fun _ => hsize ▸ hle) hs'
      have hsame : c.write position (data.bytes.take 0) = c := if_pos rfl
      rw [hsame] at hholds
      exact ⟨_, _, _, rfl,
        .writeFull position data hmax (decide_eq_false (Nat.not_le.mpr hfull)), hholds⟩
    · exact absurd (of_decide_eq_true hfits) (Nat.not_le.mpr hfull)

theorem resized {size : Nat} (hacc : Accounted sp (update s.files f (some (rip.resize size))) v ∅)
    (hbyte : content sp (update s.files f (some (rip.resize size))) v.disk f =
      punch c.byte size c.size) (hmax : size ≤ maxSize) :
    Holds sp f (s.put f (rip.resize size) v) (c.resize size) := by
  have htype' : (rip.resize size).type = .regular ∨ (rip.resize size).type = .directory := htype
  refine put htype' rfl hacc ?_ ?_ hmax
  · rw [hbyte]
    funext q
    simp only [punch, Flat.resize]
    rcases Nat.lt_or_ge q size with hq | hq
    · rw [if_neg (by omega), if_pos hq]
    · rw [if_neg (Nat.not_lt.mpr hq)]
      exact ite_eq_left_iff.mpr fun hno => h.clean q (by omega)
  · exact fun q hq => if_neg (Nat.not_lt.mpr hq)

theorem holed {start stop : Nat} (hsize : rip.size = c.size)
    (hacc : Accounted sp (update s.files f (some rip)) v ∅)
    (hbyte : content sp (update s.files f (some rip)) v.disk f =
      punch c.byte start (min stop c.size)) : Holds sp f (s.put f rip v) (c.hole start stop) := by
  refine put htype hsize hacc hbyte ?_ h.size
  intro q hq
  have hq0 : c.byte q = 0 := h.clean q hq
  exact ite_eq_left_iff.mpr fun _ => hq0

end

theorem trunc (start stop : Nat) : ∃ reply s' c', fsTrunc sp f start stop s = .ok (reply, s') ∧
      FlatStep ((FileOp.trunc start stop).fits sp f s) c (.trunc start stop) reply c' ∧
      Holds sp f s' c' := by
  obtain ⟨rip, hino, htype, hsize⟩ := h.file
  have hf := files_of hino (not_special htype)
  have hmax : rip.size ≤ maxSize := hsize ▸ h.size
  have hclean : ∀ q, rip.size ≤ q → content sp s.files s.vol.disk f q = 0 := by
    intro q hq
    rw [h.byte]
    exact h.clean q (hsize ▸ hq)
  simp only [fsTrunc, hino, h.acc.writable, Bool.false_eq_true, if_false]
  by_cases hstop : stop = 0
  · subst hstop
    obtain ⟨r, hr, hres⟩ := truncateInode_spec start h.acc hf hmax
    rw [hr]
    cases hres with
    | special hspecial => rcases htype with htype | htype <;> simp [htype] at hspecial
    | big hbig => exact ⟨_, _, c, rfl, .truncBig start hbig, by rwa [put_same hino]⟩
    | @cut rip' v' _ hlt halike hspace =>
      refine ⟨_, _, c.resize start, rfl, .trunc start (hlt.le.trans hmax), ?_⟩
      refine h.resized (halike.1.symm ▸ htype) hspace.acc ?_ (hlt.le.trans hmax)
      rw [hspace.self hclean, Nat.min_self, h.byte, hsize]
    | extended _ hle hbig =>
      have hcontent : content sp (update s.files f (some (rip.resize start))) s.vol.disk =
          content sp s.files s.vol.disk := content_zone sp _ hf rfl
      refine ⟨_, _, c.resize start, rfl, .trunc start hbig, ?_⟩
      refine h.resized htype (h.acc.congr (zoneAt_zone sp _ hf rfl)) ?_ hbig
      rw [hcontent, h.byte]
      funext q
      exact (if_neg (by omega)).symm
  · obtain ⟨r, hr, hres⟩ := freespInode_spec start stop h.acc hf hmax
    rw [if_neg hstop, hr]
    cases hres with
    | refused hrange =>
      exact ⟨_, _, c, rfl, .noHole hstop (hsize ▸ hrange), by rwa [put_same hino]⟩
    | done hrange halike hspace =>
      refine ⟨_, _, c.hole start stop, rfl, .hole hstop (hsize ▸ hrange), ?_⟩
      refine h.holed (halike.1.symm ▸ htype) (halike.2.trans hsize) hspace.acc ?_
      rw [hspace.self hclean, h.byte, hsize]

theorem step {op : FileOp} (hallowed : op.Allowed sp f s) :
    ∃ reply s' c', fileStep sp f op s = .ok (reply, s') ∧
      FlatStep (op.fits sp f s) c op reply c' ∧ Holds sp f s' c' := by
  cases op with
  | read position nrbytes =>
    exact ⟨_, s, c, h.read position nrbytes, .read position nrbytes, h⟩
  | write position data => exact h.write hallowed
  | trunc start stop => exact h.trunc start stop

end

end Holds

structure Call where
  op : FileOp
  /-- Whether there was room for what the call writes. -/
  fits : Bool
  reply : Reply

/-- Calls on file `f` that are allowed, with their replies. -/
inductive FileRun (sp : Super) (f : Nat) : State → List Call → State → Prop
  | nil {s : State} : FileRun sp f s [] s
  | cons {s s' s'' : State} {call : Call} {calls : List Call} (hallowed : call.op.Allowed sp f s)
    (hfits : call.op.fits sp f s = call.fits)
    (hstep : fileStep sp f call.op s = .ok (call.reply, s')) (hrun : FileRun sp f s' calls s'') :
    FileRun sp f s (call :: calls) s''

inductive FlatRun : Flat → List Call → Flat → Prop
  | nil {c : Flat} : FlatRun c [] c
  | cons {c c' c'' : Flat} {call : Call} {calls : List Call}
    (hstep : FlatStep call.fits c call.op call.reply c') (hrun : FlatRun c' calls c'') :
    FlatRun c (call :: calls) c''

/-- In every run of allowed calls the replies are those of the array of bytes, the file holds that
array at the end, and the next allowed call does not fail. -/
theorem run_holds_flat {calls : List Call} (h : Holds sp f s c)
    (hrun : FileRun sp f s calls s') : ∃ c', FlatRun c calls c' ∧ Holds sp f s' c' ∧
      ∀ op : FileOp, op.Allowed sp f s' → ∃ r, fileStep sp f op s' = .ok r := by
  induction hrun generalizing c with
  | nil =>
    refine ⟨c, .nil, h, fun op hallowed => ?_⟩
    obtain ⟨reply, s', c', heq, -⟩ := h.step hallowed
    exact ⟨_, heq⟩
  | cons hallowed hfits hstep _ ih =>
    obtain ⟨reply, s', c', heq, hflat, hholds⟩ := h.step hallowed
    rw [hstep] at heq
    cases heq
    rw [hfits] at hflat
    obtain ⟨c'', hrun', hrest⟩ := ih hholds
    exact ⟨c'', .cons hflat hrun', hrest⟩

theorem emptyState_holds : Holds smallSuper 1 emptyState ⟨0, fun _ => 0⟩ := by
  refine ⟨emptyState_consistent.acc, ⟨_, rfl, .inl rfl, rfl⟩, ?_, fun _ _ => rfl, Nat.zero_le _⟩
  funext q
  exact if_pos (emptyState_map _)

/-- A byte in the indirect range takes both free zones, so that there is none for the hole before
it; cutting it out makes room, and the file is truncated at the end. -/
def holeCalls : List Call :=
  [⟨.write 28672 oneByte, true, .count 1⟩, ⟨.write 0 oneByte, false, .err .enospc⟩,
    ⟨.read 28670 5, true, .bytes [0, 0, 7]⟩, ⟨.trunc 28672 28673, true, .ok⟩,
    ⟨.write 0 oneByte, true, .count 1⟩, ⟨.trunc 3 0, true, .ok⟩,
    ⟨.read 0 5, true, .bytes [7, 0, 0]⟩]

theorem run_holds_flat_holes : ∃ s', FileRun smallSuper 1 emptyState holeCalls s' ∧
    ∃ c', FlatRun ⟨0, fun _ => 0⟩ holeCalls c' ∧ Holds smallSuper 1 s' c' := by
  have heval : (fileStep smallSuper 1 (.write 28672 oneByte) emptyState >>= fun r₁ =>
      fileStep smallSuper 1 (.write 0 oneByte) r₁.2 >>= fun r₂ =>
      fileStep smallSuper 1 (.read 28670 5) r₂.2 >>= fun r₃ =>
      fileStep smallSuper 1 (.trunc 28672 28673) r₃.2 >>= fun r₄ =>
      fileStep smallSuper 1 (.write 0 oneByte) r₄.2 >>= fun r₅ =>
      fileStep smallSuper 1 (.trunc 3 0) r₅.2 >>= fun r₆ =>
      fileStep smallSuper 1 (.read 0 5) r₆.2 >>= fun r₇ =>
      .ok ([r₁.1, r₂.1, r₃.1, r₄.1, r₅.1, r₆.1, r₇.1],
        decide (room smallSuper r₁.2.vol < needed smallSuper (r₁.2.map smallSuper) 1 0),
        (FileOp.write 0 oneByte).fits smallSuper 1 r₁.2,
        (FileOp.write 0 oneByte).fits smallSuper 1 r₄.2)) =
      .ok (holeCalls.map Call.reply, true, false, true) := by decide +kernel
  obtain ⟨⟨_, s₁⟩, h₁, heval⟩ := bind_eq_ok heval
  obtain ⟨⟨_, s₂⟩, h₂, heval⟩ := bind_eq_ok heval
  obtain ⟨⟨_, s₃⟩, h₃, heval⟩ := bind_eq_ok heval
  obtain ⟨⟨_, s₄⟩, h₄, heval⟩ := bind_eq_ok heval
  obtain ⟨⟨_, s₅⟩, h₅, heval⟩ := bind_eq_ok heval
  obtain ⟨⟨_, s₆⟩, h₆, heval⟩ := bind_eq_ok heval
  obtain ⟨⟨_, s₇⟩, h₇, heval⟩ := bind_eq_ok heval
  simp only [Except.ok.injEq, Prod.mk.injEq, holeCalls, map_cons, map_nil, cons.injEq,
    and_true, decide_eq_true_eq] at heval
  obtain ⟨⟨rfl, rfl, rfl, rfl, rfl, rfl, rfl⟩, hlow, hfull, hfits⟩ := heval
  have hfits₁ : (FileOp.write 28672 oneByte).fits smallSuper 1 emptyState = true := by
    decide +kernel
  have hallowed₁ : (FileOp.write 28672 oneByte).Allowed smallSuper 1 emptyState :=
    fun _ => ⟨fun _ => rfl, fun _ _ => .inr ⟨fun h => (nomatch h), hfits₁⟩⟩
  have hallowed₂ : (FileOp.write 0 oneByte).Allowed smallSuper 1 s₁ :=
    fun _ => ⟨fun _ => rfl, fun _ _ => .inl ⟨Nat.zero_le _, hlow⟩⟩
  have hallowed₅ : (FileOp.write 0 oneByte).Allowed smallSuper 1 s₄ :=
    fun _ => ⟨fun _ => rfl, fun _ _ => .inr ⟨fun _ => Nat.zero_le _, hfits⟩⟩
  have hrun : FileRun smallSuper 1 emptyState holeCalls s₇ :=
    .cons hallowed₁ hfits₁ h₁ <| .cons hallowed₂ hfull h₂ <| .cons trivial rfl h₃ <|
      .cons trivial rfl h₄ <| .cons hallowed₅ hfits h₅ <| .cons trivial rfl h₆ <|
      .cons trivial rfl h₇ .nil
  obtain ⟨c', hflat, hholds, -⟩ := run_holds_flat emptyState_holds hrun
  exact ⟨s₇, hrun, c', hflat, hholds⟩

/-- The disk is full before the first byte is stored, and the file has grown. -/
theorem failed_write_grows_file : Holds smallSuper 1 emptyState ⟨0, fun _ => 0⟩ ∧ ∃ s₁ s₂,
    fsWrite smallSuper 1 4222976 oneByte emptyState = .ok (.err .enospc, s₁) ∧
    fsRead smallSuper 1 0 1 s₁ = .ok (.bytes [0], s₂) ∧
    ∀ fits c', FlatStep fits ⟨0, fun _ => 0⟩ (.write 4222976 oneByte) (.err .enospc) c' →
      c'.read 0 1 = [] := by
  have heval : (fsWrite smallSuper 1 4222976 oneByte emptyState >>= fun r =>
      fsRead smallSuper 1 0 1 r.2 >>= fun r' => .ok (r.1, r'.1)) =
        .ok (.err .enospc, .bytes [0]) := by decide +kernel
  obtain ⟨⟨reply, s₁⟩, hwrite, heval⟩ := bind_eq_ok heval
  obtain ⟨⟨reply', s₂⟩, hread, heval⟩ := bind_eq_ok heval
  cases heval
  refine ⟨emptyState_holds, s₁, s₂, hwrite, hread, fun fits c' hflat => ?_⟩
  cases hflat with
  | writeFull => rfl

end Gergios.Mfs
