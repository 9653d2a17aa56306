import DnsmasqRs.Pattern

/-!
# What a glob pattern matches

`Matches` reads a pattern as a sequence of characters and stars.  Going back to the last star only
is enough: what an earlier star could match by standing for more characters, the last one can
(`possible_star`).
-/

namespace DnsmasqRs.Pattern

open Utf8 List

/-- The pattern matches the value: a star stands for whatever is in front of some suffix, any other
character for itself. -/
def Matches : Str → Str → Prop
  | [], v => v = []
  | c :: p, v => if c = '*' then ∃ u, u <:+ v ∧ Matches p u else ∃ u, v = c :: u ∧ Matches p u

variable {p v : Str} {next : Option (Str × Str)}

theorem matches_star : Matches ('*' :: p) v ↔ ∃ u, u <:+ v ∧ Matches p u := by
  rw [Matches, if_pos rfl]

/-- What is left to match is a suffix that the stars of the pattern reach. -/
theorem matches_append (hlits : '*' ∉ lits) (h : Matches (lits ++ p) v) :
    ∃ u, u <:+ v ∧ lits.length + u.length = v.length ∧ Matches p u := by
  induction lits generalizing v with
  | nil => exact ⟨v, suffix_rfl, Nat.zero_add _, h⟩
  | cons c lits ih =>
    rw [mem_cons, not_or] at hlits
    rw [cons_append, Matches, if_neg (Ne.symm hlits.1)] at h
    obtain ⟨v, rfl, h⟩ := h
    obtain ⟨u, hu, hlen, hmatch⟩ := ih hlits.2 h
    exact ⟨u, hu.trans (suffix_cons c v), by simp only [length_cons]; omega, hmatch⟩

/-- The value can still be matched, from here or from a retry. -/
def Possible (p v : Str) (next : Option (Str × Str)) : Prop :=
  Matches p v ∨ ∃ q ∈ next, ∃ u, u <:+ q.2 ∧ Matches q.1 u

/-- Since the last star, the pattern and the value have been the same. -/
def InStep (p v : Str) (next : Option (Str × Str)) : Prop :=
  ∀ q ∈ next, ∃ lits, '*' ∉ lits ∧ q.1 = lits ++ p ∧ ∃ x, x :: q.2 = lits ++ v

theorem inStep_retryFrom : InStep p v (retryFrom p v) := by
  intro q hq
  cases v with
  | nil => cases hq
  | cons x v =>
    cases hq
    exact ⟨[], not_mem_nil, rfl, x, rfl⟩

theorem possible_retryFrom : Possible p v (retryFrom p v) ↔ Matches ('*' :: p) v := by
  rw [matches_star, Possible]
  cases v with
  | nil => simp [retryFrom]
  | cons x v => simp [retryFrom, suffix_cons_iff, or_and_right, exists_or]

/-- **Earlier stars need not be tried again.** -/
theorem possible_star (h : InStep ('*' :: p) v next) :
    Possible ('*' :: p) v next ↔ Matches ('*' :: p) v := by
  refine or_iff_left_of_imp ?_
  rintro ⟨q, hq, u, hu, hmatch⟩
  obtain ⟨lits, hlits, hp, x, hv⟩ := h q hq
  rw [hp] at hmatch
  obtain ⟨w, hw, hlen, hmatch⟩ := matches_append hlits hmatch
  obtain ⟨u', hu', hmatch⟩ := matches_star.mp hmatch
  have hwv : w <:+ v := by
    refine suffix_of_suffix_length_le ((hw.trans hu).trans (suffix_cons x q.2))
      (hv ▸ suffix_append lits v) ?_
    have hle := hu.length_le
    have hsum := congrArg length hv
    rw [length_cons, length_append] at hsum
    omega
  exact matches_star.mpr ⟨u', hu'.trans hwv, hmatch⟩

theorem not_matches (hend : ¬(p = [] ∧ v = [])) (hstar : p.head? ≠ some '*')
    (hsame : ¬(p ≠ [] ∧ p.head? = v.head?)) :
    ¬Matches p v := by
  cases p with
  | nil => exact fun h => hend ⟨rfl, h⟩
  | cons c p =>
    rw [Matches, if_neg fun hc => hstar (congrArg some hc)]
    rintro ⟨u, rfl, -⟩
    exact hsame ⟨cons_ne_nil _ _, rfl⟩

/-- **The loop** finds out whether a match is possible. -/
theorem globLoop_iff (hle : ∀ q ∈ next, p.length ≤ q.1.length) (h : InStep p v next) :
    globLoop p v next hle ↔ Possible p v next := by
  fun_induction globLoop p v next hle with
  | case1 p v next hle hend =>
    obtain ⟨rfl, rfl⟩ := hend
    exact iff_of_true rfl (.inl rfl)
  | case2 p v next hle hend hstar ih =>
    obtain ⟨p, rfl⟩ := head?_eq_some_iff.mp hstar
    rw [ih inStep_retryFrom, possible_star h]
    exact possible_retryFrom
  | case3 p v next hle hend hstar hsame ih =>
    obtain ⟨c, p, rfl⟩ := exists_cons_of_ne_nil hsame.1
    obtain ⟨v, rfl⟩ := head?_eq_some_iff.mp hsame.2.symm
    have hc : c ≠ '*' := fun hc => hstar (congrArg some hc)
    rw [ih fun q hq => ?_, Possible, Possible, Matches, if_neg hc]
    · simp
    · obtain ⟨lits, hlits, hp, x, hv⟩ := h q hq
      exact ⟨lits ++ [c], by simp [hlits, Ne.symm hc], by simp [hp], x, by simp [hv]⟩
  | case4 p v hend hstar hsame p' v' hle _ ih =>
    rw [ih inStep_retryFrom, possible_retryFrom, matches_star, Possible,
      or_iff_right (not_matches hend hstar hsame)]
    simp
  | case5 p v hend hstar hsame hle => simp [Possible, not_matches hend hstar hsame]

/-- **`glob_match`** says whether the pattern matches the value, both in upper case. -/
theorem globMatch_iff (value pattern : Str) : globMatch value pattern = true ↔
    Matches (pattern.map Char.toUpper) (value.map Char.toUpper) := by
  rw [globMatch, globLoop_iff _ (by simp [InStep]), Possible]
  simp

end DnsmasqRs.Pattern
