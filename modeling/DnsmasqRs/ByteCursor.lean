import DnsmasqRs.Lib.Wire

/-!
# The checked byte cursor (`byte_cursor.rs`)

A `ByteCursor` is a buffer and a position; every primitive read returns `None` on truncation and
otherwise the value, with the position moved past it.  The reads below take the buffer and the
position and return the value, and the caller adds the number of bytes read to its position.
-/

namespace DnsmasqRs.ByteCursor

open Wire List

/-- `ByteCursor::read_slice`: `n` bytes at `pos`, or `None` if fewer remain. -/
def readSlice (buf : Bytes) (pos n : ℕ) : Option Bytes :=
  if pos + n ≤ buf.length then some ((buf.drop pos).take n) else none

/-- `ByteCursor::read_u8`. -/
def readU8 (buf : Bytes) (pos : ℕ) : Option UInt8 := buf[pos]?

/-- `ByteCursor::read_u16_be`. -/
def readU16Be (buf : Bytes) (pos : ℕ) : Option UInt16 :=
  match readSlice buf pos 2 with
  | some [a, b] => some (ofBe16 a b)
  | _ => none

/-- `ByteCursor::read_u32_be`. -/
def readU32Be (buf : Bytes) (pos : ℕ) : Option UInt32 :=
  match readSlice buf pos 4 with
  | some [a, b, c, d] => some (ofBe32 a b c d)
  | _ => none

variable {buf : Bytes} {pos : ℕ}

theorem readU8_of_drop (h : buf.drop pos = b :: rest) : readU8 buf pos = some b :=
  getElem?_of_drop h

theorem readSlice_of_drop (h : buf.drop pos = piece ++ rest)
    (hpos : pos ≤ buf.length) : readSlice buf pos piece.length = some piece := by
  have hlen := congrArg List.length h
  simp only [length_drop, length_append] at hlen
  rw [readSlice, if_pos (by omega), h, take_left]

theorem readU16Be_of_drop (h : buf.drop pos = be16 x ++ rest) : readU16Be buf pos = some x := by
  have hle := le_length_of_drop_append h (by simp [be16])
  have hs : readSlice buf pos 2 = some (be16 x) := readSlice_of_drop h (by omega)
  simp only [readU16Be, hs, be16, ofBe16_be16]

theorem readU32Be_of_drop (h : buf.drop pos = be32 x ++ rest) : readU32Be buf pos = some x := by
  have hle := le_length_of_drop_append h (by simp [be32])
  have hs : readSlice buf pos 4 = some (be32 x) := readSlice_of_drop h (by omega)
  simp only [readU32Be, hs, be32, ofBe32_be32]

theorem readU16Be_congr (hlen : buf.length = buf'.length)
    (hdrop : buf.drop n = buf'.drop n) (hn : n ≤ pos) : readU16Be buf pos = readU16Be buf' pos := by
  have hdrop' := congrArg (List.drop (pos - n)) hdrop
  simp only [drop_drop, Nat.add_sub_cancel' hn] at hdrop'
  unfold readU16Be readSlice
  rw [hlen, hdrop']

theorem readSlice_eq_some (h : readSlice buf pos n = some s) :
    pos + n ≤ buf.length ∧ s = (buf.drop pos).take n ∧ s.length = n := by
  rw [readSlice] at h
  split at h
  · next hle =>
    obtain rfl := Option.some.inj h
    refine ⟨hle, rfl, ?_⟩
    rw [length_take, length_drop]
    omega
  · cases h

theorem exists_readU32Be (buf : Bytes) (pos : ℕ) (h : pos + 4 ≤ buf.length) :
    ∃ x, readU32Be buf pos = some x := by
  have hlen : ((buf.drop pos).take 4).length = 4 := by
    rw [length_take, length_drop]
    omega
  obtain ⟨a, b, c, d, habcd⟩ := length_eq_four.mp hlen
  exact ⟨ofBe32 a b c d, by rw [readU32Be, readSlice, if_pos h, habcd]⟩

end DnsmasqRs.ByteCursor
