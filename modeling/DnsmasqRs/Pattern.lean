import DnsmasqRs.Lib.Utf8

/-!
# Glob patterns (`pattern.rs`)

A value matched against a pattern in which `*` stands for any characters.  After a mismatch the loop
goes back to the last star only, and lets it stand for one character more.
-/

namespace DnsmasqRs.Pattern

open Utf8

/-- `next_pi` and `next_vi` after a star in front of `p`, as what is left of the pattern and of the
value: there is no retry at the end of the value. -/
def retryFrom (p v : Str) : Option (Str × Str) := if v = [] then none else some (p, v.tail)

theorem length_le_of_mem_retryFrom : ∀ q ∈ retryFrom p v, p.length ≤ q.1.length := by
  grind [retryFrom]

/-- The loop of `glob_match`, with `p` and `v` left of the pattern and of the value.  A retry starts
behind the star. -/
def globLoop (p v : Str) (next : Option (Str × Str)) (h : ∀ q ∈ next, p.length ≤ q.1.length) :
    Bool :=
  if p = [] ∧ v = [] then true
  else if hstar : p.head? = some '*' then
    globLoop p.tail v (retryFrom p.tail v) length_le_of_mem_retryFrom
  else if hsame : p ≠ [] ∧ p.head? = v.head? then
    globLoop p.tail v.tail next fun q hq => by have := h q hq; grind
  else
    match next with
    | some (p', v') => globLoop p' v' (retryFrom p' v') length_le_of_mem_retryFrom
    | none => false
termination_by (next.elim p.length (·.1.length), next.elim 0 (·.2.length + 1), p.length)
decreasing_by
  · have hp : p.tail.length < p.length := by cases p <;> simp at hstar ⊢
    cases next with
    | none => unfold retryFrom; split <;> simp [Prod.lex_def] <;> grind
    | some q => have := h q rfl; unfold retryFrom; split <;> simp [Prod.lex_def] <;> grind
  · cases next <;> simp [Prod.lex_def] <;> grind
  · unfold retryFrom
    split <;> simp [Prod.lex_def]
    grind

/-- `glob_match`. -/
def globMatch (value pattern : Str) : Bool :=
  globLoop (pattern.map Char.toUpper) (value.map Char.toUpper) none nofun

end DnsmasqRs.Pattern
