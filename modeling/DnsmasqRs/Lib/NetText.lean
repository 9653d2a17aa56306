import DnsmasqRs.Lib.Utf8

/-!
# Numbers and addresses as text

The readers of Rust's standard library for unsigned numbers (`from_str_radix`) and for IP addresses,
as they read from the front of a string and leave the rest, and the writers for decimal and
hexadecimal numbers.  IPv4 addresses are read as four octets and IPv6 addresses as eight groups.

Numbers, bytes and dotted addresses are read back as they were written (`parseUint_decimal`,
`parseUint_hexByte`, `parseIpv4_dotted`).
-/

namespace NetText

open Wire Utf8 List Option

/-- The value of a digit in base 16 or less. -/
def digitValue (c : Char) : Option ℕ :=
  if '0' ≤ c ∧ c ≤ '9' then some (c.toNat - 48)
  else if 'a' ≤ c ∧ c ≤ 'f' then some (c.toNat - 87)
  else if 'A' ≤ c ∧ c ≤ 'F' then some (c.toNat - 55)
  else none

/-- `from_str_radix` for an unsigned type with values below `bound`: an optional plus sign and at
least one digit. -/
def parseUint (radix bound : ℕ) (s : Str) : Option ℕ :=
  let digits := match s with
    | '+' :: rest => rest
    | _ => s
  if digits = [] then none
  else
    (digits.foldlM (fun n c =>
      (digitValue c).bind fun d => if d < radix then some (n * radix + d) else none) 0).filter
      (· < bound)

/-- A number below `bound` of at most `maxDigits` digits, and what follows it. -/
def readNumber (radix maxDigits bound : ℕ) (allowZeroPrefix : Bool) (s : Str) : Option (ℕ × Str) :=
  let digits := s.takeWhile fun c => (digitValue c).any (· < radix)
  let value := digits.foldl (fun n c => n * radix + (digitValue c).getD 0) 0
  if digits = [] ∨ maxDigits < digits.length ∨ bound ≤ value then none
  else if !allowZeroPrefix && digits.head? == some '0' && 1 < digits.length then none
  else some (value, s.drop digits.length)

/-- What `inner` reads, behind a separator unless it is the first item. -/
def readSeparator {α : Type} (sep : Char) (index : ℕ) (inner : Str → Option (α × Str)) (s : Str) :
    Option (α × Str) :=
  if index = 0 then inner s
  else
    match s with
    | c :: rest => if c = sep then inner rest else none
    | [] => none

/-- The octets of an IPv4 address from number `index` on. -/
def readOctets (index : ℕ) (s : Str) : Option (List ℕ × Str) :=
  if index < 4 then do
    let (octet, s) ← readSeparator '.' index (readNumber 10 3 256 false) s
    let (octets, s) ← readOctets (index + 1) s
    return (octet :: octets, s)
  else some ([], s)
  termination_by 4 - index

/-- `Ipv4Addr::from_str`. -/
def parseIpv4 (s : Str) : Option (List ℕ) :=
  if 15 < byteLen s then none
  else
    match readOctets 0 s with
    | some (octets, []) => some octets
    | _ => none

/-- The groups of an IPv6 address from number `index` on, and whether they end with an IPv4 address.
-/
def readGroups (limit index : ℕ) (s : Str) : List ℕ × Bool × Str :=
  if index < limit then
    match if index + 1 < limit then readSeparator ':' index (readOctets 0) s else none with
    | some ([a, b, c, d], rest) => ([a * 256 + b, c * 256 + d], true, rest)
    | _ =>
      match readSeparator ':' index (readNumber 16 4 65536 true) s with
      | some (group, rest) =>
        let (groups, ipv4, rest) := readGroups limit (index + 1) rest
        (group :: groups, ipv4, rest)
      | none => ([], false, s)
  else ([], false, s)
  termination_by limit - index

/-- `Ipv6Addr::from_str`. -/
def parseIpv6 (s : Str) : Option (List ℕ) :=
  let (head, headIpv4, rest) := readGroups 8 0 s
  if head.length = 8 then (if rest = [] then some head else none)
  else if headIpv4 then none
  else
    match rest with
    | ':' :: ':' :: rest =>
      -- the `::` stands for at least one group of zeros
      let (tail, _, rest) := readGroups (8 - (head.length + 1)) 0 rest
      if rest = [] then some (head ++ List.replicate (8 - head.length - tail.length) 0 ++ tail)
      else none
    | _ => none

/-- A number in decimal. -/
def decimal (n : ℕ) : Str := (Nat.repr n).toList

/-- A byte as two hexadecimal digits. -/
def hexByte (b : UInt8) : Str := [Nat.digitChar (b.toNat / 16), Nat.digitChar (b.toNat % 16)]

example : parseIpv4 "192.0.2.1".toList = some [192, 0, 2, 1] := by decide +kernel

example : parseIpv4 "192.0.02.1".toList = none := by decide +kernel

example :
    parseIpv6 "2001:db8::7".toList = some [0x2001, 0xdb8, 0, 0, 0, 0, 0, 7] := by decide +kernel

/-! ### What is written can be read -/

theorem decimal_eq : decimal n = Nat.toDigits 10 n := by
  unfold decimal
  rw [Nat.repr_eq_ofList_toDigits, String.toList_ofList]

theorem isDigit_of_mem_decimal (h : c ∈ decimal n) : c.isDigit :=
  Nat.isDigit_of_mem_toDigits (by decide) (by decide) (decimal_eq ▸ h)

theorem digitValue_of_isDigit (h : c.isDigit) :
    digitValue c = some (c.toNat - 48) ∧ c.toNat - 48 < 10 := by
  have hc : '0' ≤ c ∧ c ≤ '9' :=
    Bool.and_eq_true_iff.mp h |>.imp of_decide_eq_true of_decide_eq_true
  have hle : c.toNat ≤ 57 := hc.2
  exact ⟨if_pos hc, by omega⟩

theorem foldl_decimal : (decimal n).foldl (fun n c => n * 10 + (digitValue c).getD 0) 0 = n := by
  have hvalue (l : List Char) (hl : ∀ c ∈ l, c.isDigit) (init : ℕ) :
      l.foldl (fun n c => n * 10 + (digitValue c).getD 0) init = Nat.ofDigitChars 10 l init := by
    induction l generalizing init with
    | nil => rfl
    | cons c l ih =>
      rw [foldl_cons, ih fun c hc => hl c (mem_cons_of_mem _ hc), Nat.ofDigitChars_cons,
        (digitValue_of_isDigit (hl c mem_cons_self)).1, Nat.mul_comm]
      rfl
  rw [hvalue _ (fun c hc => isDigit_of_mem_decimal hc), decimal_eq, Nat.ofDigitChars_ten_toDigits]

theorem decimal_ne_nil : decimal n ≠ [] := by
  rw [decimal_eq]
  exact Nat.toDigits_ne_nil

/-- **A number in decimal is read back**. -/
theorem parseUint_decimal (h : n < bound) : parseUint 10 bound (decimal n) = some n := by
  have hfold (l : List Char) (hl : ∀ c ∈ l, c.isDigit) (init : ℕ) :
      l.foldlM (fun n c => (digitValue c).bind fun d => if d < 10 then some (n * 10 + d)
        else none) init =
        some (l.foldl (fun n c => n * 10 + (digitValue c).getD 0) init) := by
    induction l generalizing init with
    | nil => rfl
    | cons c l ih =>
      obtain ⟨hvalue, hlt⟩ := digitValue_of_isDigit (hl c mem_cons_self)
      rw [foldlM_cons, foldl_cons, hvalue]
      dsimp only [bind_some, getD_some]
      rw [if_pos hlt]
      exact ih (fun c hc => hl c (mem_cons_of_mem _ hc)) _
  unfold parseUint
  extract_lets digits
  -- no sign is written in front
  have hplain : digits = decimal n := by
    unfold digits
    split
    · next rest heq => exact nomatch isDigit_of_mem_decimal (c := '+') (heq ▸ mem_cons_self)
    · rfl
  rw [hplain, if_neg (decimal_ne_nil), hfold _ fun c hc => isDigit_of_mem_decimal hc, foldl_decimal]
  exact filter_some_pos (decide_eq_true h)

theorem length_decimal_of_head? (h : (decimal n).head? = some '0') : (decimal n).length = 1 := by
  have hpos (n : ℕ) (hn : 0 < n) : (Nat.toDigits 10 n).head? ≠ some '0' := by
    induction n using Nat.strong_induction_on with
    | _ n ih =>
      rw [Nat.toDigits_eq_if (by decide)]
      split
      · simpa [Nat.digitChar_eq_zero] using hn.ne'
      · rw [head?_append_of_ne_nil _ Nat.toDigits_ne_nil]
        exact ih (n / 10) (by omega) (by omega)
  rw [decimal_eq] at h ⊢
  cases n with
  | zero => rfl
  | succ n => exact absurd h (hpos _ n.succ_pos)

theorem readNumber_decimal (hdigits : (decimal n).length ≤ maxDigits)
    (hbound : n < bound) (hrest : ∀ c, rest.head? = some c → digitValue c = none) :
    readNumber 10 maxDigits bound false (decimal n ++ rest) = some (n, rest) := by
  have htake :
      (decimal n ++ rest).takeWhile (fun c => (digitValue c).any (· < 10)) = decimal n := by
    rw [takeWhile_append_of_pos]
    · cases rest with
      | nil => exact append_nil _
      | cons c rest =>
        rw [takeWhile_cons_of_neg (by rw [hrest c rfl]; exact Bool.false_ne_true), append_nil]
    · intro c hc
      obtain ⟨hvalue, hlt⟩ := digitValue_of_isDigit (isDigit_of_mem_decimal hc)
      rw [hvalue]
      exact decide_eq_true hlt
  unfold readNumber
  dsimp only
  rw [htake, foldl_decimal, if_neg, if_neg, drop_left]
  · intro hzero
    simp only [Bool.and_eq_true, beq_iff_eq, decide_eq_true_eq] at hzero
    have hone := length_decimal_of_head? hzero.1.2
    omega
  · rintro (hnil | hlong | hbig)
    · exact decimal_ne_nil hnil
    · omega
    · omega

/-- Octets in decimal, with dots between them. -/
def dotted (octets : List ℕ) : Str := ['.'].intercalate (octets.map decimal)

theorem length_decimal_le (h : n < 256) : (decimal n).length ≤ 3 := by
  rw [decimal_eq, Nat.length_toDigits_le_iff (by decide) (by decide)]
  omega

theorem isAscii_decimal : (decimal n).all isAsciiChar := by
  rw [List.all_eq_true]
  intro c hc
  have hlt := (digitValue_of_isDigit (isDigit_of_mem_decimal hc)).2
  exact decide_eq_true (by omega)

/-- **A dotted address is read back**. -/
theorem parseIpv4_dotted (ha : a < 256) (hb : b < 256) (hc : c < 256) (hd : d < 256) :
    parseIpv4 (dotted [a, b, c, d]) = some [a, b, c, d] := by
  have htext : dotted [a, b, c, d] =
      decimal a ++ '.' :: (decimal b ++ '.' :: (decimal c ++ '.' :: (decimal d ++ []))) := by
    simp [dotted, List.intercalate]
  have hdot (s : Str) (x : Char) (hx : ('.' :: s).head? = some x) : digitValue x = none := by
    obtain rfl := some.inj hx
    rfl
  have hnil (x : Char) (hx : ([] : Str).head? = some x) : digitValue x = none := by cases hx
  have hread {n : ℕ} (hn : n < 256) {rest : Str} :=
    @readNumber_decimal n 3 256 rest (length_decimal_le hn) hn
  have hlen : byteLen (dotted [a, b, c, d]) ≤ 15 := by
    have hascii : isAscii (dotted [a, b, c, d]) := by
      rw [htext, isAscii]
      simp [isAscii_decimal, isAsciiChar]
    have h1 := length_decimal_le ha
    have h2 := length_decimal_le hb
    have h3 := length_decimal_le hc
    have h4 := length_decimal_le hd
    rw [byteLen_of_ascii hascii, htext]
    simp only [length_append, length_cons, length_nil]
    omega
  have hoctets : readOctets 0 (dotted [a, b, c, d]) = some ([a, b, c, d], []) := by
    rw [htext]
    simp only [readOctets, readSeparator, ↓reduceIte, Nat.reduceLT, Nat.reduceAdd, Nat.reduceEqDiff,
      hread ha (hdot _), hread hb (hdot _), hread hc (hdot _), hread hd hnil, bind_eq_bind,
      Option.bind_some, Option.pure_def, one_ne_zero]
  rw [parseIpv4, if_neg (Nat.not_lt.mpr hlen), hoctets]

/-- **A byte in hexadecimal is read back**. -/
theorem parseUint_hexByte : (parseUint 16 256 (hexByte b)).map UInt8.ofNat = some b := by
  revert b
  apply forall_byte
  decide +kernel

end NetText
