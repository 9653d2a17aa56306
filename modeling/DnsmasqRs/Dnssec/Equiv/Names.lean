import Mathlib.Order.Compare
import Mathlib.Data.List.Lex
import DnsmasqRs.Dnssec.Trust
import DnsmasqRs.Rfc1035.Equiv.Name

/-!
# Names of the validator

The validator keys its tables by `norm_name`: lower case, and without the dots at the end.  Doing
this twice is doing it once (`normName_normName`), and it leaves the labels of a name alone but for
their case. `dns_suffixes` has the suffixes of the name by labels, and `Encloses` is that order on
names.  Byte strings are compared as lists of numbers (`compares_bytes`).
-/

namespace DnsmasqRs.Dnssec

open Wire Utf8 Rfc1035 List

variable {name s z : Str}

/-! ### Normalised names -/

/-- Only the character itself has the lower case `x`, if this is so among the ASCII characters. -/
theorem toLower_eq_iff (hx : x.toLower = x)
    (hall : ∀ n : Fin 128, (Char.ofNat n).toLower = x → Char.ofNat n = x) :
    c.toLower = x ↔ c = x := by
  constructor
  · intro h
    by_cases hascii : isAsciiChar c
    · exact forall_ascii (P := fun c => c.toLower = x → c = x) hall c hascii h
    · rwa [toLower_of_not_ascii (Bool.eq_false_iff.mpr hascii)] at h
  · rintro rfl
    exact hx

theorem toLower_eq_dot_iff : c.toLower = '.' ↔ c = '.' := toLower_eq_iff rfl (by decide)

theorem trimEndDots_asciiLower : trimEndDots (asciiLower s) = asciiLower (trimEndDots s) := by
  have hdot : (fun c : Char => c.toLower == '.') = fun c => c == '.' := by
    funext c
    rw [Bool.eq_iff_iff, beq_iff_eq, beq_iff_eq, toLower_eq_dot_iff]
  simp only [trimEndDots, List.rdropWhile, asciiLower, ← map_reverse, dropWhile_map]
  exact congrArg (fun p => List.map Char.toLower (List.dropWhile p (List.reverse s)).reverse) hdot

theorem trimEndDots_trimEndDots : trimEndDots (trimEndDots s) = trimEndDots s :=
  rdropWhile_idempotent _ _

@[simp] theorem normName_normName (name : Str) : normName (normName name) = normName name := by
  rw [normName, normName, trimEndDots_asciiLower, trimEndDots_trimEndDots, asciiLower_asciiLower]

@[simp] theorem findDs_normName (cache : DnssecCache) (name : Str) :
    cache.findDs (normName name) = cache.findDs name := by
  rw [DnssecCache.findDs, DnssecCache.findDs, normName_normName]

/-! ### Suffixes -/

/-- **The zone is the name or encloses it**, by labels and up to the case of ASCII letters. -/
def Encloses (z name : Str) : Prop := normName z ∈ dnsSuffixes name

theorem exists_dnsSuffixes : ∃ shorter, dnsSuffixes name = shorter ++ [normName name] := by
  unfold dnsSuffixes
  dsimp only
  split
  · next hroot => exact ⟨[], by rw [hroot, nil_append]⟩
  · have hpos : 0 < (splitLabels (normName name)).length :=
      length_pos_iff.mpr (splitLabels_ne_nil _)
    obtain ⟨n, hn⟩ : ∃ n, (splitLabels (normName name)).length = n + 1 :=
      ⟨_, (Nat.sub_add_cancel hpos).symm⟩
    rw [hn, range_succ_eq_map, reverse_cons, map_append, map_cons, drop_zero,
      joinLabels_splitLabels]
    exact ⟨_ :: _, rfl⟩

theorem normName_mem_dnsSuffixes : normName name ∈ dnsSuffixes name := by
  obtain ⟨shorter, h⟩ := exists_dnsSuffixes
  rw [h]
  exact mem_concat_self

@[simp] theorem dnsSuffixes_normName : dnsSuffixes (normName name) = dnsSuffixes name := by
  simp only [dnsSuffixes, normName_normName]

theorem nil_mem_dnsSuffixes : [] ∈ dnsSuffixes name := by
  unfold dnsSuffixes
  dsimp only
  split <;> simp

/-- What stands behind a dot is a suffix. -/
theorem mem_dnsSuffixes_of_append (h : normName name = front ++ '.' :: z) :
    z ∈ dnsSuffixes name := by
  have hsplit : splitLabels (normName name) = splitLabels front ++ splitLabels z := by
    rw [h, splitLabels, splitOn_append_cons_self]
    rfl
  have hlen := length_pos_iff.mpr (splitLabels_ne_nil z)
  unfold dnsSuffixes
  dsimp only
  rw [if_neg (by rw [h]; simp), hsplit, length_append]
  refine mem_cons_of_mem _ (mem_map.mpr ⟨(splitLabels front).length, ?_, ?_⟩)
  · rw [mem_reverse, mem_range]
    omega
  · rw [drop_left, joinLabels_splitLabels]

theorem trimEndDots_append (h : trimEndDots s ≠ []) :
    trimEndDots (front ++ s) = front ++ trimEndDots s := by
  unfold trimEndDots rdropWhile at h ⊢
  rw [reverse_append, dropWhile_append, if_neg (by simpa using h), reverse_append, reverse_reverse]

/-- **The suffix test of `explore_rrset`**, if it is made in ASCII lower case, tells that the signer
encloses the name. -/
theorem encloses_of_enclosesLower (h : enclosesLower (asciiLower s) (asciiLower name)) :
    Encloses s name := by
  by_cases hroot : normName s = []
  · rw [Encloses, hroot]
    exact nil_mem_dnsSuffixes
  simp only [enclosesLower, Bool.or_eq_true, decide_eq_true_eq, isSuffixOf_iff_suffix] at h
  rw [normName, ← trimEndDots_asciiLower] at hroot
  unfold Encloses
  rcases h with (hnil | heq) | ⟨front, happend⟩
  · rw [hnil] at hroot
    exact absurd rfl hroot
  · rw [normName, ← trimEndDots_asciiLower, ← heq, trimEndDots_asciiLower]
    exact normName_mem_dnsSuffixes
  · rw [normName, ← trimEndDots_asciiLower]
    refine mem_dnsSuffixes_of_append (?_ : _ = front ++ '.' :: trimEndDots (asciiLower s))
    rw [normName, ← trimEndDots_asciiLower, ← happend, append_cons, trimEndDots_append hroot,
      ← append_cons]

/-! ### The order of byte strings -/

/-- A byte string as a list of numbers, in whose order it is compared. -/
def bytesKey (b : Bytes) : List ℕ := b.map UInt8.toNat

theorem bytesKey_injective : Function.Injective bytesKey :=
  map_injective_iff.mpr fun _ _ => UInt8.toNat_inj.mp

theorem compares_cons [LinearOrder α] {as bs : List α} {c d : Ordering}
    (hc : c.Compares a b) (hd : d.Compares as bs) : (c.then d).Compares (a :: as) (b :: bs) := by
  cases c with
  | lt | gt => exact cons_lt_cons_iff.mpr (.inl hc)
  | eq =>
    have hab : a = b := hc
    subst hab
    cases d with
    | lt | gt => exact cons_lt_cons_iff.mpr (.inr ⟨rfl, hd⟩)
    | eq => exact congrArg (a :: ·) hd

theorem compares_uint8 (a b : UInt8) : (compare a b).Compares a.toNat b.toNat := by
  show (compareOfLessAndEq a b).Compares _ _
  unfold compareOfLessAndEq
  split
  · exact ‹a < b›
  · split
    · exact congrArg UInt8.toNat ‹a = b›
    · rename_i hlt hne
      rw [UInt8.lt_iff_toNat_lt] at hlt
      rw [← UInt8.toNat_inj] at hne
      show b.toNat < a.toNat
      omega

theorem compares_bytes (a b : Bytes) : (compare a b).Compares (bytesKey a) (bytesKey b) := by
  induction a generalizing b with
  | nil =>
    cases b with
    | nil => exact rfl
    | cons y b => exact nil_lt_cons _ _
  | cons x a ih =>
    cases b with
    | nil => exact nil_lt_cons _ _
    | cons y b =>
      show (List.compareLex compare (x :: a) (y :: b)).Compares (x.toNat :: bytesKey a)
        (y.toNat :: bytesKey b)
      rw [List.compareLex_cons_cons]
      exact compares_cons (compares_uint8 x y) (ih b)

end DnsmasqRs.Dnssec
