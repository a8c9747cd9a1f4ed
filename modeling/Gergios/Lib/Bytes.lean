import Mathlib.Data.List.GetD

/-!
# Words in a buffer
-/

namespace Gergios.Lib

open List

def le16 (v : UInt16) : List UInt8 := [.ofNat v.toNat, .ofNat (v.toNat / 256)]

def le32 (v : UInt32) : List UInt8 :=
  [.ofNat v.toNat, .ofNat (v.toNat / 256), .ofNat (v.toNat / 65536), .ofNat (v.toNat / 16777216)]

variable (b : List UInt8)

def u16At (off : Nat) : UInt16 :=
  .ofNat ((b.getD off 0).toNat + 256 * (b.getD (off + 1) 0).toNat)

def u32At (off : Nat) : UInt32 :=
  .ofNat ((b.getD off 0).toNat + 256 * (b.getD (off + 1) 0).toNat +
    65536 * (b.getD (off + 2) 0).toNat + 16777216 * (b.getD (off + 3) 0).toNat)

/-- `b` with `bs` copied over it at `off`. -/
def splice (off : Nat) (bs : List UInt8) : List UInt8 :=
  b.take off ++ bs ++ b.drop (off + bs.length)

variable {b bs c : List UInt8} {off k : Nat}

section

variable (h : off + bs.length ≤ b.length)

include h

theorem length_splice : (splice b off bs).length = b.length := by
  simp only [splice, length_append, length_take, length_drop]
  omega

theorem getD_splice : (splice b off bs).getD k 0 =
      if off ≤ k ∧ k < off + bs.length then bs.getD (k - off) 0 else b.getD k 0 := by
  simp only [splice, getD_eq_getElem?_getD, getElem?_append, length_append]
  grind

/-- The bytes of `bs` stand in `b` at `off`. -/
def Stands (b : List UInt8) (off : Nat) (bs : List UInt8) : Prop :=
  ∀ k < bs.length, b.getD (off + k) 0 = bs.getD k 0

theorem stands_splice : Stands (splice b off bs) off bs := by
  intro k hk
  rw [getD_splice h, if_pos (by omega), Nat.add_sub_cancel_left]

end

theorem Stands.of_append (h : Stands b off (bs ++ c)) :
    Stands b off bs ∧ Stands b (off + bs.length) c := by
  constructor
  · intro k hk
    rw [h k (by simp; omega), getD_append _ _ _ _ hk]
  · intro k hk
    rw [Nat.add_assoc, h _ (by simp; omega), getD_append_right _ _ _ _ (by omega),
      Nat.add_sub_cancel_left]

theorem Stands.u16At (h : Stands b off (le16 v)) : u16At b off = v := by
  have h0 : b.getD off 0 = .ofNat v.toNat := h 0 (by simp [le16])
  have h1 : b.getD (off + 1) 0 = .ofNat (v.toNat / 256) := h 1 (by simp [le16])
  rw [Lib.u16At, h0, h1, ← UInt16.toNat_inj, UInt16.toNat_ofNat', UInt8.toNat_ofNat',
    UInt8.toNat_ofNat']
  have := v.toNat_lt
  omega

theorem Stands.u32At {v : UInt32} (h : Stands b off (le32 v)) : u32At b off = v := by
  have h0 : b.getD off 0 = .ofNat v.toNat := h 0 (by simp [le32])
  have h1 : b.getD (off + 1) 0 = .ofNat (v.toNat / 256) := h 1 (by simp [le32])
  have h2 : b.getD (off + 2) 0 = .ofNat (v.toNat / 65536) := h 2 (by simp [le32])
  have h3 : b.getD (off + 3) 0 = .ofNat (v.toNat / 16777216) := h 3 (by simp [le32])
  rw [Lib.u32At, h0, h1, h2, h3, ← UInt32.toNat_inj, UInt32.toNat_ofNat']
  simp only [UInt8.toNat_ofNat']
  have := v.toNat_lt
  omega

/-- The `n` bytes at `off`. -/
def bytesAt (b : List UInt8) (off n : Nat) : List UInt8 := (b.drop off).take n

theorem length_bytesAt (h : off + n ≤ b.length) : (bytesAt b off n).length = n := by
  rw [bytesAt, length_take, length_drop]
  omega

theorem getD_bytesAt (hk : k < n) : (bytesAt b off n).getD k 0 = b.getD (off + k) 0 := by
  simp only [bytesAt, getD_eq_getElem?_getD, getElem?_take, getElem?_drop]
  rw [if_pos hk]

theorem ext_getD (hlen : b.length = c.length) (h : ∀ k < b.length, b.getD k 0 = c.getD k 0) :
    b = c := by
  refine ext_getElem hlen fun k hb hc => ?_
  have hk := h k hb
  rwa [getD_eq_getElem _ _ hb, getD_eq_getElem _ _ hc] at hk

theorem Stands.bytesAt (h : Stands b off bs) (hle : off + bs.length ≤ b.length) :
    bytesAt b off bs.length = bs := by
  refine ext_getD (length_bytesAt hle) fun k hk => ?_
  rw [length_bytesAt hle] at hk
  rw [getD_bytesAt hk, h k hk]

/-! ### Big-endian words -/

def be16 (v : UInt16) : List UInt8 := [.ofNat (v.toNat / 256), .ofNat v.toNat]

def be32 (v : UInt32) : List UInt8 :=
  [.ofNat (v.toNat / 16777216), .ofNat (v.toNat / 65536), .ofNat (v.toNat / 256), .ofNat v.toNat]

def be64 (v : UInt64) : List UInt8 := be32 (v >>> 32).toUInt32 ++ be32 v.toUInt32

variable (b)

def be16At (off : Nat) : UInt16 :=
  .ofNat (256 * (b.getD off 0).toNat + (b.getD (off + 1) 0).toNat)

def be32At (off : Nat) : UInt32 :=
  .ofNat (16777216 * (b.getD off 0).toNat + 65536 * (b.getD (off + 1) 0).toNat +
    256 * (b.getD (off + 2) 0).toNat + (b.getD (off + 3) 0).toNat)

def be64At (off : Nat) : UInt64 :=
  ((be32At b off).toUInt64 <<< 32) ||| (be32At b (off + 4)).toUInt64

variable {b}

theorem Stands.be16At (h : Stands b off (be16 v)) : be16At b off = v := by
  have h0 : b.getD off 0 = .ofNat (v.toNat / 256) := h 0 (by simp [be16])
  have h1 : b.getD (off + 1) 0 = .ofNat v.toNat := h 1 (by simp [be16])
  rw [Lib.be16At, h0, h1, ← UInt16.toNat_inj, UInt16.toNat_ofNat', UInt8.toNat_ofNat',
    UInt8.toNat_ofNat']
  have := v.toNat_lt
  omega

theorem Stands.be32At {v : UInt32} (h : Stands b off (be32 v)) : be32At b off = v := by
  have h0 : b.getD off 0 = .ofNat (v.toNat / 16777216) := h 0 (by simp [be32])
  have h1 : b.getD (off + 1) 0 = .ofNat (v.toNat / 65536) := h 1 (by simp [be32])
  have h2 : b.getD (off + 2) 0 = .ofNat (v.toNat / 256) := h 2 (by simp [be32])
  have h3 : b.getD (off + 3) 0 = .ofNat v.toNat := h 3 (by simp [be32])
  rw [Lib.be32At, h0, h1, h2, h3, ← UInt32.toNat_inj, UInt32.toNat_ofNat']
  simp only [UInt8.toNat_ofNat']
  have := v.toNat_lt
  omega

theorem Stands.be32At_flatMap {ws : List UInt32} (h : Stands b off (ws.flatMap be32)) {i : Nat}
    (hi : i < ws.length) : Lib.be32At b (off + 4 * i) = ws.get ⟨i, hi⟩ := by
  induction ws generalizing off i with
  | nil => exact nomatch hi
  | cons w rest ih =>
    obtain ⟨h0, hrest⟩ := Stands.of_append (flatMap_cons ▸ h)
    cases i with
    | zero => exact h0.be32At
    | succ i =>
      have hi' : i < rest.length := by simpa using hi
      have hoff : off + 4 * (i + 1) = off + (be32 w).length + 4 * i := by
        have hlen : (be32 w).length = 4 := rfl
        omega
      rw [hoff]
      exact ih hrest hi'

/-! ### Buffers that agree -/

/-- The two buffers have the same bytes from `lo` to `hi`. -/
def Agree (b c : List UInt8) (lo hi : Nat) : Prop := ∀ k, lo ≤ k → k < hi → c.getD k 0 = b.getD k 0

variable {lo hi : Nat}

theorem Agree.mono {lo' hi' : Nat} (h : Agree b c lo hi) (h1 : lo ≤ lo') (h2 : hi' ≤ hi) :
    Agree b c lo' hi' :=
  fun k hk hk' => h k (by omega) (by omega)

theorem Agree.trans {d : List UInt8} (h : Agree b c lo hi) (h' : Agree c d lo hi) :
    Agree b d lo hi :=
  fun k hk hk' => (h' k hk hk').trans (h k hk hk')

theorem Stands.congr (h : Stands b off bs) (hag : Agree b c off (off + bs.length)) :
    Stands c off bs :=
  fun k hk => (hag (off + k) (by omega) (by omega)).trans (h k hk)

theorem splice_splice (h : off + bs.length ≤ b.length) (hlen : c.length = bs.length) :
    splice (splice b off bs) off c = splice b off c := by
  have hs := length_splice h
  refine ext_getD ?_ fun k _ => ?_
  · rw [length_splice (by omega), hs, length_splice (by omega)]
  · rw [getD_splice (by omega), getD_splice h, getD_splice (by omega), hlen]
    split <;> rfl

theorem agree_splice (h : off + bs.length ≤ b.length) (hout : hi ≤ off ∨ off + bs.length ≤ lo) :
    Agree b (splice b off bs) lo hi := by
  intro k h1 h2
  rw [getD_splice h, if_neg (by omega)]

theorem Agree.u16At (h : Agree b c off (off + 2)) : u16At c off = u16At b off := by
  rw [Lib.u16At, Lib.u16At, h off (by omega) (by omega), h (off + 1) (by omega) (by omega)]

theorem Agree.u32At (h : Agree b c off (off + 4)) : u32At c off = u32At b off := by
  rw [Lib.u32At, Lib.u32At, h off (by omega) (by omega), h (off + 1) (by omega) (by omega),
    h (off + 2) (by omega) (by omega), h (off + 3) (by omega) (by omega)]

theorem Agree.bytesAt (h : Agree b c off (off + n)) (hlen : c.length = b.length) :
    bytesAt c off n = bytesAt b off n := by
  have hsame : (Lib.bytesAt c off n).length = (Lib.bytesAt b off n).length := by
    simp only [Lib.bytesAt, length_take, length_drop, hlen]
  refine ext_getD hsame fun k hk => ?_
  have hkn : k < n := by
    simp only [Lib.bytesAt, length_take] at hk
    omega
  rw [getD_bytesAt hkn, getD_bytesAt hkn, h (off + k) (by omega) (by omega)]

end Gergios.Lib
