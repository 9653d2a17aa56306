import Mathlib.Data.List.Basic

/-!
# Stable sorting by a comparison

`sortBy cmp` sorts a list the way a stable library sort does: elements are taken from the left, and
each one moves to the left past those it is strictly less than.

A comparison that is used for sorting is often finer than the order one cares about: it breaks ties
by further keys, and not always in a transitive way.  `pairwise_sortBy` needs only that `cmp` agrees
with a transitive relation, and then gives a list that is ordered by that relation.
-/

namespace StableSort

open List

variable {α : Type} (cmp : α → α → Ordering)

/-- Insert `x` into the sorted part, which is kept with its last element first. -/
def insertTail (x : α) : List α → List α
  | [] => [x]
  | y :: ys => if cmp x y = .lt then y :: insertTail x ys else x :: y :: ys

/-- The list sorted by `cmp`, equal elements in their old order. -/
def sortBy (l : List α) : List α := (l.foldl (fun sorted x => insertTail cmp x sorted) []).reverse

variable {cmp}

theorem insertTail_perm : (insertTail cmp x l).Perm (x :: l) := by
  induction l with
  | nil => exact .refl _
  | cons y ys ih =>
    unfold insertTail
    split_ifs
    · exact (ih.cons y).trans (.swap x y ys)
    · exact .refl _

section Pairwise

variable {r : α → α → Prop} (htrans : ∀ a b c, r a b → r b c → r a c)
  (hlt : ∀ a b, cmp a b = .lt → r a b) (hge : ∀ a b, cmp a b ≠ .lt → r b a)

include htrans hlt hge

theorem pairwise_insertTail (h : l.Pairwise fun a b => r b a) :
    (insertTail cmp x l).Pairwise fun a b => r b a := by
  induction l with
  | nil => exact pairwise_singleton _ _
  | cons y ys ih =>
    have hy := (pairwise_cons.mp h).1
    unfold insertTail
    split_ifs with hxy
    · refine pairwise_cons.mpr ⟨?_, ih h.of_cons⟩
      intro z hz
      rcases mem_cons.mp ((insertTail_perm).mem_iff.mp hz) with rfl | hz
      · exact hlt z y hxy
      · exact hy z hz
    · refine pairwise_cons.mpr ⟨?_, h⟩
      intro z hz
      rcases mem_cons.mp hz with rfl | hz
      · exact hge x z hxy
      · exact htrans z y x (hy z hz) (hge x y hxy)

/-- The sorted list is ordered by every transitive relation that the comparison agrees with. -/
theorem pairwise_sortBy : (sortBy cmp l).Pairwise r := by
  have hfold : ∀ sorted : List α, (sorted.Pairwise fun a b => r b a) →
      (l.foldl (fun sorted x => insertTail cmp x sorted) sorted).Pairwise fun a b => r b a := by
    induction l with
    | nil => exact fun _ h => h
    | cons x l ih => exact fun sorted h => ih _ (pairwise_insertTail htrans hlt hge h)
  exact pairwise_reverse.mpr (hfold [] List.Pairwise.nil)

end Pairwise

end StableSort
