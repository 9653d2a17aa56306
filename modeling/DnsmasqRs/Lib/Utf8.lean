import DnsmasqRs.Lib.Wire

/-!
# UTF-8 strings

A string is the list of its characters (`Str`), so that every value is a valid string; its bytes
are the UTF-8 encoding of that list (`bytes`), and `fromUtf8` is the partial inverse
(`fromUtf8_eq_some_iff`).  Lengths and offsets are in bytes, as they are in the languages that
store strings this way.

Slicing at a byte offset is a partial operation: `splitAt s i` is `none` when `i` is past the end
or falls inside a character, which is where such a language panics.  `splitAt_eq_some_iff` says
what a successful slice is.

Case folding is the ASCII one, `Char.toLower` on characters and `lowerByte` on bytes; the two agree
(`bytes_asciiLower`).
-/

namespace Utf8

open Wire List Option

/-- A string, as the list of its characters. -/
abbrev Str := List Char

/-- The UTF-8 encoding of a string. -/
def bytes (s : Str) : Bytes := s.flatMap String.utf8EncodeChar

/-- The length of a string in bytes. -/
def byteLen (s : Str) : ℕ := (bytes s).length

/-- Decode a byte string, or fail where it is not valid UTF-8. -/
def fromUtf8 (b : Bytes) : Option Str := b.toByteArray.utf8Decode?.map Array.toList

@[simp] theorem bytes_nil : bytes [] = [] := rfl

@[simp] theorem bytes_cons :
    bytes (c :: s) = String.utf8EncodeChar c ++ bytes s := rfl

@[simp] theorem bytes_append : bytes (s ++ t) = bytes s ++ bytes t :=
  flatMap_append

@[simp] theorem byteLen_nil : byteLen [] = 0 := rfl

@[simp] theorem byteLen_cons : byteLen (c :: s) = c.utf8Size + byteLen s := by
  simp [byteLen]

@[simp] theorem byteLen_append : byteLen (s ++ t) = byteLen s + byteLen t := by
  simp [byteLen]

theorem length_bytes : (bytes s).length = byteLen s := rfl

variable {s : Str}

theorem byteLen_eq_zero : byteLen s = 0 ↔ s = [] := by
  cases s with
  | nil => simp
  | cons c s =>
    have := c.utf8Size_pos
    simp only [byteLen_cons, reduceCtorEq, iff_false]
    omega

theorem toByteArray_bytes : (bytes s).toByteArray = s.utf8Encode := rfl

@[simp] theorem fromUtf8_bytes (s : Str) : fromUtf8 (bytes s) = some s := by
  rw [fromUtf8, toByteArray_bytes, utf8Decode?_utf8Encode]
  rfl

theorem fromUtf8_eq_some_iff : fromUtf8 b = some s ↔ b = bytes s := by
  constructor
  · intro h
    rw [fromUtf8, map_eq_some_iff] at h
    obtain ⟨arr, harr, rfl⟩ := h
    have hsome : b.toByteArray.utf8Decode?.isSome := by rw [harr]; rfl
    have henc := ByteArray.utf8Encode_get_utf8Decode? (h := hsome)
    simp only [harr, get_some] at henc
    rw [← toByteArray_bytes] at henc
    simpa using congrArg (fun a : ByteArray => a.data.toList) henc.symm
  · rintro rfl
    exact fromUtf8_bytes s

theorem bytes_injective : Function.Injective bytes := by
  intro s t h
  have hs := fromUtf8_bytes s
  rw [h, fromUtf8_bytes] at hs
  exact (some.inj hs).symm

/-! ### Slicing at a byte offset -/

/-- `s.split_at(i)`: the two parts of `s` around byte `i`, or `none` when `i` is not on a character
boundary of `s`. -/
def splitAt : Str → ℕ → Option (Str × Str)
  | s, 0 => some ([], s)
  | [], _ + 1 => none
  | c :: s, i + 1 =>
    if i + 1 < c.utf8Size then none
    else (splitAt s (i + 1 - c.utf8Size)).map fun p => (c :: p.1, p.2)

/-- `&s[i..]`, or `none` when `i` is not on a character boundary. -/
def sliceFrom (s : Str) (i : ℕ) : Option Str := (splitAt s i).map Prod.snd

/-- `s.is_char_boundary(i)`. -/
def isCharBoundary (s : Str) (i : ℕ) : Bool := (splitAt s i).isSome

variable {i : ℕ}

theorem splitAt_eq_some_iff : splitAt s i = some (p, t) ↔ s = p ++ t ∧ byteLen p = i := by
  induction s generalizing i p with
  | nil =>
    cases i with
    | zero =>
      simp only [splitAt, some.injEq, Prod.mk.injEq, nil_eq, append_eq_nil_iff]
      constructor
      · rintro ⟨rfl, rfl⟩; exact ⟨⟨rfl, rfl⟩, rfl⟩
      · rintro ⟨⟨rfl, rfl⟩, -⟩; exact ⟨rfl, rfl⟩
    | succ i =>
      simp only [splitAt, reduceCtorEq, nil_eq, append_eq_nil_iff, false_iff, not_and, and_imp]
      rintro rfl -
      simp
  | cons c s ih =>
    cases i with
    | zero =>
      simp only [splitAt, some.injEq, Prod.mk.injEq, byteLen_eq_zero]
      constructor
      · rintro ⟨rfl, rfl⟩; exact ⟨rfl, rfl⟩
      · rintro ⟨h, rfl⟩; exact ⟨rfl, h⟩
    | succ i =>
      simp only [splitAt]
      split
      · simp only [reduceCtorEq, false_iff, not_and]
        intro hs
        cases p with
        | nil => simp
        | cons d p =>
          obtain ⟨rfl, -⟩ := List.cons.inj hs
          simp only [byteLen_cons]
          omega
      · simp only [map_eq_some_iff, Prod.mk.injEq, Prod.exists]
        constructor
        · rintro ⟨q, u, hq, rfl, rfl⟩
          obtain ⟨rfl, hlen⟩ := ih.mp hq
          refine ⟨rfl, ?_⟩
          rw [byteLen_cons]
          omega
        · rintro ⟨hs, hlen⟩
          cases p with
          | nil => simp at hlen
          | cons d p =>
            obtain ⟨rfl, rfl⟩ := List.cons.inj hs
            refine ⟨p, t, ih.mpr ⟨rfl, ?_⟩, rfl, rfl⟩
            rw [byteLen_cons] at hlen
            omega

theorem isSome_sliceFrom : (sliceFrom s i).isSome = isCharBoundary s i := by
  rw [sliceFrom, isSome_map, isCharBoundary]

theorem isCharBoundary_of_sliceFrom {s t : Str} (h : sliceFrom s i = some t) :
    isCharBoundary s i := by
  rw [← isSome_sliceFrom, h, isSome_some]

theorem isCharBoundary_of_sliceFrom_eq_none (h : sliceFrom s i = none) :
    isCharBoundary s i = false := by
  rw [← isSome_sliceFrom, h, isSome_none]

/-! ### ASCII -/

/-- `c.is_ascii()`. -/
def isAsciiChar (c : Char) : Bool := c.toNat < 128

/-- `s.is_ascii()`. -/
def isAscii (s : Str) : Bool := s.all isAsciiChar

/-- What holds of the ASCII characters, number by number, holds of every one. -/
theorem forall_ascii {P : Char → Prop} (hall : ∀ n : Fin 128, P (Char.ofNat n)) (c : Char)
    (h : isAsciiChar c) : P c := by
  have hc := hall ⟨c.toNat, of_decide_eq_true h⟩
  rwa [Char.ofNat_toNat] at hc

variable {c : Char}

theorem utf8EncodeChar_of_ascii (h : isAsciiChar c) :
    String.utf8EncodeChar c = [UInt8.ofNat c.toNat] := by
  revert c
  apply forall_ascii
  decide

theorem utf8Size_of_ascii (h : isAsciiChar c) : c.utf8Size = 1 := by
  rw [← String.length_utf8EncodeChar, utf8EncodeChar_of_ascii h]
  rfl

theorem byteLen_of_ascii (h : isAscii s) : byteLen s = s.length := by
  induction s with
  | nil => rfl
  | cons c s ih =>
    simp only [isAscii, all_cons, Bool.and_eq_true] at h
    rw [byteLen_cons, utf8Size_of_ascii h.1, ih h.2, length_cons]
    omega

theorem splitAt_of_ascii (h : isAscii s) (hi : i ≤ s.length) :
    splitAt s i = some (s.take i, s.drop i) := by
  rw [splitAt_eq_some_iff]
  refine ⟨(take_append_drop i s).symm, ?_⟩
  have htake : isAscii (s.take i) := by
    rw [isAscii, List.all_eq_true] at h ⊢
    exact fun c hc => h c (mem_of_mem_take hc)
  rw [byteLen_of_ascii htake, length_take]
  omega

theorem isAscii_drop (h : isAscii s) : isAscii (s.drop i) := by
  rw [isAscii, List.all_eq_true] at h ⊢
  exact fun c hc => h c (mem_of_mem_drop hc)

theorem sliceFrom_of_ascii (h : isAscii s) (hi : i ≤ s.length) :
    sliceFrom s i = some (s.drop i) := by
  rw [sliceFrom, splitAt_of_ascii h hi]
  rfl

theorem bytes_of_ascii (h : isAscii s) : bytes s = s.map fun c => UInt8.ofNat c.toNat := by
  induction s with
  | nil => rfl
  | cons c s ih =>
    simp only [isAscii, all_cons, Bool.and_eq_true] at h
    rw [bytes_cons, utf8EncodeChar_of_ascii h.1, ih h.2]
    rfl

theorem le_of_mem_utf8EncodeChar (h : isAsciiChar c = false) :
    ∀ b ∈ String.utf8EncodeChar c, 128 ≤ b.toNat := by
  have hge : 128 ≤ c.val.toNat := by
    simp only [isAsciiChar, decide_eq_false_iff_not, not_lt] at h
    exact h
  have hbyte : ∀ n : ℕ, 128 ≤ n → n < 256 → 128 ≤ (UInt8.ofNat n).toNat := by
    intro n h1 h2
    rw [UInt8.toNat_ofNat', Nat.mod_eq_of_lt h2]
    exact h1
  intro b hb
  simp only [String.utf8EncodeChar] at hb
  split at hb
  · omega
  · split at hb
    · simp only [mem_cons, not_mem_nil, or_false] at hb
      rcases hb with rfl | rfl <;> exact hbyte _ (by omega) (by omega)
    · split at hb
      · simp only [mem_cons, not_mem_nil, or_false] at hb
        rcases hb with rfl | rfl | rfl <;> exact hbyte _ (by omega) (by omega)
      · simp only [mem_cons, not_mem_nil, or_false] at hb
        rcases hb with rfl | rfl | rfl | rfl <;> exact hbyte _ (by omega) (by omega)

theorem getElem?_bytes_of_ascii (h : isAscii s) (hc : isAsciiChar c) :
    (bytes s)[i]? = some (UInt8.ofNat c.toNat) ↔ s[i]? = some c := by
  rw [bytes_of_ascii h, getElem?_map, map_eq_some_iff]
  constructor
  · rintro ⟨d, hd, heq⟩
    have hdascii : isAsciiChar d := all_eq_true.mp h d (mem_of_getElem? hd)
    simp only [isAsciiChar, decide_eq_true_eq] at hc hdascii
    have hnat := congrArg UInt8.toNat heq
    simp only [UInt8.toNat_ofNat'] at hnat
    rw [hd, some.injEq]
    exact Char.toNat_inj.mp (by omega)
  · intro hs
    exact ⟨c, hs, rfl⟩

/-! ### ASCII case folding -/

/-- `u8::to_ascii_lowercase`. -/
def lowerByte (b : UInt8) : UInt8 := if 65 ≤ b.toNat ∧ b.toNat ≤ 90 then b + 32 else b

/-- `str::to_ascii_lowercase`. -/
def asciiLower (s : Str) : Str := s.map Char.toLower

/-- `a.eq_ignore_ascii_case(b)`: the two are the same after `to_ascii_lowercase`. -/
def eqIgnoreAsciiCase (a b : Str) : Bool := asciiLower a == asciiLower b

theorem eqIgnoreAsciiCase_iff : eqIgnoreAsciiCase a b ↔ asciiLower a = asciiLower b := by
  rw [eqIgnoreAsciiCase, beq_iff_eq]

@[simp] theorem asciiLower_nil : asciiLower [] = [] := rfl

@[simp] theorem asciiLower_cons :
    asciiLower (c :: s) = c.toLower :: asciiLower s := rfl

@[simp] theorem asciiLower_append : asciiLower (s ++ t) = asciiLower s ++ asciiLower t :=
  map_append

theorem toLower_of_not_ascii (h : isAsciiChar c = false) : c.toLower = c := by
  simp only [isAsciiChar, decide_eq_false_iff_not, not_lt] at h
  refine dif_neg ?_
  rintro ⟨-, hZ⟩
  have hle : c.val.toNat ≤ 90 := UInt32.le_iff_toNat_le.mp hZ
  have hv : c.val.toNat = c.toNat := rfl
  omega

theorem toLower_of_ascii (h : isAsciiChar c) :
    c.toLower.toLower = c.toLower ∧ isAsciiChar c.toLower := by
  revert c
  apply forall_ascii
  decide

theorem toLower_toLower : c.toLower.toLower = c.toLower := by
  cases h : isAsciiChar c with
  | true => exact (toLower_of_ascii h).1
  | false => rw [toLower_of_not_ascii h, toLower_of_not_ascii h]

@[simp] theorem asciiLower_asciiLower : asciiLower (asciiLower s) = asciiLower s := by
  simp only [asciiLower, List.map_map]
  exact List.map_congr_left fun c _ => toLower_toLower

theorem map_lowerByte_of_not_ascii (h : isAsciiChar c = false) :
    (String.utf8EncodeChar c).map lowerByte = String.utf8EncodeChar c := by
  rw [List.map_congr_left (g := id), List.map_id]
  intro b hb
  have hge := le_of_mem_utf8EncodeChar h b hb
  rw [lowerByte, if_neg (by omega), id]

theorem encode_toLower_of_ascii (h : isAsciiChar c) :
    String.utf8EncodeChar c.toLower = (String.utf8EncodeChar c).map lowerByte := by
  revert c
  apply forall_ascii
  decide

theorem bytes_asciiLower : bytes (asciiLower s) = (bytes s).map lowerByte := by
  induction s with
  | nil => rfl
  | cons c s ih =>
    rw [asciiLower_cons, bytes_cons, bytes_cons, map_append]
    congr 1
    cases h : isAsciiChar c with
    | true => exact encode_toLower_of_ascii h
    | false => rw [toLower_of_not_ascii h, map_lowerByte_of_not_ascii h]

@[simp] theorem byteLen_asciiLower : byteLen (asciiLower s) = byteLen s := by
  rw [byteLen, bytes_asciiLower, length_map, byteLen]

end Utf8
