import Mathlib.Data.Nat.Init

/-!
# Bisection with a three-way test

`bisect probe low high` halves `[low, high)` by a test that says at each index whether to look left
(`lt`), to look right (`gt`) or to stop.  It ends at an index where the test stops, or with the
index it narrowed the range down to.  It also returns its lower bound, so that a caller who searches
for several keys, each behind the one before, can start the next search from there.

For a test that goes from `gt` over `eq` to `lt` (`Descending`), the three outcomes are exact
(`bisect_spec`): a miss to the left means that the test is `lt` from the first index on, and one to
the right that it is `gt` up to the index and `lt` behind it.
-/

namespace BinarySearch

open List

/-- How a bisection ends. -/
inductive Outcome where
  /-- The test stopped here. -/
  | hit (i : ℕ)
  /-- Narrowed to this index, and the test still looks left. -/
  | below (i : ℕ)
  /-- Narrowed to this index, and the test still looks right. -/
  | above (i : ℕ)
  deriving DecidableEq

/-- The bisection and its last lower bound; `none` where the bounds cross or the test is asked out
of range. -/
def bisect (probe : ℕ → Option Ordering) (low high : ℕ) : Option (Outcome × ℕ) :=
  if high < low then none
  else
    match probe ((low + high) / 2) with
    | none => none
    | some .eq => some (.hit ((low + high) / 2), low)
    | some .lt =>
      if high = (low + high) / 2 then some (.below high, low)
      else bisect probe low ((low + high) / 2)
    | some .gt =>
      if low = (low + high) / 2 then some (.above low, low)
      else bisect probe ((low + high) / 2) high
  termination_by high - low

/-- On `[0, n)` the test goes from `gt` over `eq` to `lt`. -/
structure Descending (c : ℕ → Ordering) (n : ℕ) : Prop where
  gt_of_le : ∀ i j, i ≤ j → j < n → c j = .gt → c i = .gt
  lt_of_le : ∀ i j, i ≤ j → j < n → c i = .lt → c j = .lt

/-- What an outcome says of a test on `[0, n)`. -/
def Outcome.Correct (c : ℕ → Ordering) (n : ℕ) : Outcome → Prop
  | .hit i => i < n ∧ c i = .eq
  | .below i => i = 0 ∧ c 0 = .lt
  | .above i => i < n ∧ c i = .gt ∧ ∀ j, i < j → j < n → c j = .lt

/-- A lower bound that may be carried into a search. -/
def LowerBound (c : ℕ → Ordering) (n low : ℕ) : Prop := low < n ∧ (low = 0 ∨ c low = .gt)

variable {c : ℕ → Ordering} {n low high : ℕ} {probe : ℕ → Option Ordering}

/-- The bisection of a descending test succeeds, and its outcome is correct. -/
theorem bisect_spec (hprobe : ∀ i < n, probe i = some (c i)) (hc : Descending c n)
    (hlow : LowerBound c n low) (hle : low ≤ high) (hhigh : high = n ∨ high < n ∧ c high = .lt) :
    ∃ o low', bisect probe low high = some (o, low') ∧ o.Correct c n ∧ LowerBound c n low' := by
  have hlown := hlow.1
  have hi : (low + high) / 2 < n := by omega
  induction hk : high - low using Nat.strongRecOn generalizing low high with
  | _ k ih =>
    unfold bisect
    rw [if_neg (Nat.not_lt_of_le hle), hprobe _ hi]
    cases htest : c ((low + high) / 2) with
    | eq => exact ⟨_, _, rfl, ⟨hi, htest⟩, hlow⟩
    | lt =>
      by_cases hdone : high = (low + high) / 2
      · -- the range is a single index, so it is the one nothing is known of: the first
        have hsame : low = high := by omega
        have hzero : low = 0 := by
          rcases hlow.2 with hzero | hgt
          · exact hzero
          · rw [hsame, hdone, htest] at hgt
            cases hgt
        rw [← hsame, hzero] at htest
        simp only [if_pos hdone]
        exact ⟨_, _, rfl, ⟨by omega, htest⟩, hlow⟩
      · simp only [if_neg hdone]
        exact ih _ (by omega) hlow (by omega) (.inr ⟨hi, htest⟩) hlown (by omega) rfl
    | gt =>
      by_cases hdone : low = (low + high) / 2
      · simp only [if_pos hdone]
        refine ⟨_, _, rfl, ⟨hlown, by rw [hdone, htest], ?_⟩, hlow⟩
        intro j hj hjn
        rcases hhigh with rfl | ⟨-, hlt⟩
        · omega
        · rcases Nat.lt_or_ge j high with hjh | hjh
          · omega
          · exact hc.lt_of_le high j hjh hjn hlt
      · simp only [if_neg hdone]
        exact ih _ (by omega) ⟨hi, .inr htest⟩ (by omega) hhigh hi (by omega) rfl

/-! ### Sorted lists -/

section Sorted

variable {α : Type} {cmp : α → α → Ordering}

/-- The test for a key against the elements of a list. -/
def test (cmp : α → α → Ordering) (key : α) (l : List α) (i : ℕ) : Ordering :=
  l[i]?.elim .lt (cmp key)

theorem test_of_getElem? (h : l[i]? = some a) : test cmp key l i = cmp key a := by
  rw [test, h, Option.elim_some]

theorem descending_test [Std.TransCmp cmp] (h : l.Pairwise fun a b => (cmp a b).isLE) :
    Descending (test cmp key l) l.length := by
  have hle : ∀ i j (_ : i ≤ j) (hj : j < l.length), (cmp l[i] l[j]).isLE := by
    intro i j hij hj
    rcases Nat.eq_or_lt_of_le hij with rfl | hlt
    · exact Std.ReflCmp.isLE_rfl
    · exact pairwise_iff_getElem.mp h i j (by omega) hj hlt
  constructor
  · intro i j hij hj hgt
    rw [test_of_getElem? (getElem?_eq_getElem hj)] at hgt
    rw [test_of_getElem? (getElem?_eq_getElem (by omega : i < l.length))]
    exact Std.OrientedCmp.gt_iff_lt.mpr
      (Std.TransCmp.lt_of_isLE_of_lt (hle i j hij hj) (Std.OrientedCmp.gt_iff_lt.mp hgt))
  · intro i j hij hj hlt
    rw [test_of_getElem? (getElem?_eq_getElem (by omega : i < l.length))] at hlt
    rw [test_of_getElem? (getElem?_eq_getElem hj)]
    exact Std.TransCmp.lt_of_lt_of_isLE hlt (hle i j hij hj)

end Sorted

end BinarySearch
