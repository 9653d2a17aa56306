import Mathlib.Data.List.Basic
import Mathlib.Tactic.Ring

/-!
# Byte strings and integers on the wire

A buffer is a `List UInt8`.  `be16`/`be32` are the big-endian encodings of `UInt16`/`UInt32` and
`ofBe16`/`ofBe32` read them back (`ofBe16_be16`, `ofBe32_be32`).

The parsers of this development walk a buffer with a position.  What they see from position `pos`
on is `buf.drop pos`, and the two lemmas `getElem?_of_drop` and `drop_of_drop_append` let a proof
move through an encoded buffer one piece at a time: each takes the equation
`buf.drop pos = piece ++ rest` and gives back the one for the next position.
-/

namespace Wire

open List

/-- A byte buffer. -/
abbrev Bytes := List UInt8

/-- A statement about the members of a list is decided along the list, before an enumeration of the
whole type is tried: fixed-width integers and characters have one, but it is far too long. -/
instance (priority := high) decidableForallMem {α : Type} (l : List α) (p : α → Prop)
    [DecidablePred p] :
    Decidable (∀ a ∈ l, p a) :=
  List.decidableBAll p l

/-- What holds of the bytes, number by number, holds of every byte. -/
theorem forall_byte {P : UInt8 → Prop} (h : ∀ n : Fin 256, P (UInt8.ofNat n)) (b : UInt8) :
    P b := by
  have hb := h ⟨b.toNat, b.toNat_lt⟩
  rwa [UInt8.ofNat_toNat] at hb

/-! ### Big-endian integers -/

/-- `u16::to_be_bytes`. -/
def be16 (x : UInt16) : Bytes := [UInt8.ofNat (x.toNat / 256), UInt8.ofNat (x.toNat % 256)]

/-- `u16::from_be_bytes`. -/
def ofBe16 (a b : UInt8) : UInt16 := UInt16.ofNat (a.toNat * 256 + b.toNat)

/-- `u16::to_ne_bytes` on a little-endian machine. -/
def le16 (x : UInt16) : Bytes := [UInt8.ofNat (x.toNat % 256), UInt8.ofNat (x.toNat / 256)]

/-- `u32::to_be_bytes`. -/
def be32 (x : UInt32) : Bytes :=
  [UInt8.ofNat (x.toNat / 16777216), UInt8.ofNat (x.toNat / 65536 % 256),
    UInt8.ofNat (x.toNat / 256 % 256), UInt8.ofNat (x.toNat % 256)]

/-- `u32::from_be_bytes`. -/
def ofBe32 (a b c d : UInt8) : UInt32 :=
  UInt32.ofNat (((a.toNat * 256 + b.toNat) * 256 + c.toNat) * 256 + d.toNat)

@[simp] theorem length_be16 : (be16 x).length = 2 := rfl

@[simp] theorem length_le16 : (le16 x).length = 2 := rfl

@[simp] theorem length_be32 : (be32 x).length = 4 := rfl

theorem ofBe16_be16 : ofBe16 (UInt8.ofNat (x.toNat / 256)) (UInt8.ofNat (x.toNat % 256)) = x := by
  have hx := x.toNat_lt
  apply UInt16.toNat_inj.mp
  simp only [ofBe16, UInt16.toNat_ofNat', UInt8.toNat_ofNat']
  omega

theorem le16_injective : Function.Injective le16 := by
  intro x y h
  have hx := x.toNat_lt
  have hy := y.toNat_lt
  simp only [le16, List.cons.injEq, and_true, ← UInt8.toNat_inj, UInt8.toNat_ofNat'] at h
  apply UInt16.toNat_inj.mp
  omega

theorem be32_injective : Function.Injective be32 := by
  intro x y h
  have hx := x.toNat_lt
  have hy := y.toNat_lt
  simp only [be32, List.cons.injEq, and_true, ← UInt8.toNat_inj, UInt8.toNat_ofNat'] at h
  apply UInt32.toNat_inj.mp
  omega

theorem ofBe32_be32 :
    ofBe32 (UInt8.ofNat (x.toNat / 16777216)) (UInt8.ofNat (x.toNat / 65536 % 256))
      (UInt8.ofNat (x.toNat / 256 % 256)) (UInt8.ofNat (x.toNat % 256)) = x := by
  have hx := x.toNat_lt
  apply UInt32.toNat_inj.mp
  simp only [ofBe32, UInt32.toNat_ofNat', UInt8.toNat_ofNat']
  omega

theorem be16_ofBe16 : be16 (ofBe16 a b) = [a, b] := by
  have ha := a.toNat_lt
  have hb := b.toNat_lt
  have hval : (ofBe16 a b).toNat = a.toNat * 256 + b.toNat := by
    simp only [ofBe16, UInt16.toNat_ofNat']
    omega
  have hdiv : (a.toNat * 256 + b.toNat) / 256 = a.toNat := by omega
  have hmod : (a.toNat * 256 + b.toNat) % 256 = b.toNat := by omega
  simp only [be16, hval, hdiv, hmod, UInt8.ofNat_toNat]

theorem be32_ofBe32 (a b c d : UInt8) : be32 (ofBe32 a b c d) = [a, b, c, d] := by
  have ha := a.toNat_lt
  have hb := b.toNat_lt
  have hc := c.toNat_lt
  have hd := d.toNat_lt
  simp only [be32, ofBe32, UInt32.toNat_ofNat', List.cons.injEq, and_true, ← UInt8.toNat_inj,
    UInt8.toNat_ofNat']
  omega

theorem toNat_ofNat_of_lt (h : n < 65536) : (UInt16.ofNat n).toNat = n := by
  exact Nat.mod_eq_of_lt h

/-! ### Writing into a buffer -/

/-- `buf[pos..pos + piece.len()].copy_from_slice(piece)`, for a range inside the buffer. -/
def splice (buf : Bytes) (pos : ℕ) (piece : Bytes) : Bytes :=
  buf.take pos ++ piece ++ buf.drop (pos + piece.length)

theorem length_splice {buf piece : Bytes} {pos : ℕ} (h : pos + piece.length ≤ buf.length) :
    (splice buf pos piece).length = buf.length := by
  simp only [splice, length_append, length_take, length_drop]
  omega

theorem getElem?_splice {buf piece : Bytes} {pos : ℕ} (h : pos + piece.length ≤ buf.length) :
    (splice buf pos piece)[x]? = if pos ≤ x ∧ x < pos + piece.length then piece[x - pos]?
      else buf[x]? := by
  have hfront : (buf.take pos).length = pos := by
    rw [length_take]
    omega
  rw [splice, append_assoc]
  by_cases hlt : x < pos
  · rw [getElem?_append_left (by omega), getElem?_take, if_pos hlt, if_neg (by omega)]
  · rw [getElem?_append_right (by omega), hfront]
    by_cases hin : x < pos + piece.length
    · rw [getElem?_append_left (by omega), if_pos (by omega)]
    · rw [getElem?_append_right (by omega), getElem?_drop, if_neg (by omega)]
      congr 1
      omega

/-! ### Reading a buffer from a position -/

variable {buf : Bytes} {pos : ℕ}

theorem getElem?_of_drop (h : buf.drop pos = b :: rest) : buf[pos]? = some b := by
  have h0 : (buf.drop pos)[0]? = some b := by rw [h]; rfl
  simpa using h0

theorem drop_of_drop_append (h : buf.drop pos = piece ++ rest) :
    buf.drop (pos + piece.length) = rest := by
  rw [← drop_drop, h, drop_left]

theorem drop_succ_of_drop (h : buf.drop pos = b :: rest) : buf.drop (pos + 1) = rest := by
  have h' : buf.drop pos = [b] ++ rest := h
  exact drop_of_drop_append h'

theorem le_length_of_drop_append (h : buf.drop pos = piece ++ rest)
    (hne : piece ≠ []) : pos + piece.length ≤ buf.length := by
  have hlen := congrArg List.length h
  have hpos := length_pos_iff.mpr hne
  simp only [length_drop, length_append] at hlen
  omega

/-! ### Flags -/

theorem or_and_distrib (a b f : UInt32) : (a ||| b) &&& f = (a &&& f) ||| (b &&& f) := by
  apply UInt32.eq_of_toBitVec_eq
  exact BitVec.and_or_distrib_right

theorem or_and_of_disjoint {a b f : UInt32} (h : b &&& f = 0) : (a ||| b) &&& f = a &&& f := by
  rw [or_and_distrib, h, UInt32.or_zero]

end Wire
