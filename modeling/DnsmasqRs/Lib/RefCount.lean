import Mathlib.Logic.Function.Basic
import Mathlib.Data.List.Count
import Mathlib.Data.List.Perm.Basic

/-!
# Reference counts

Resources of type `α` are open or closed; an open one has a reference count.  `refs a` is the count
of `a`, or `none` while it is closed.  The holders' references are one list `held`, with a resource
in it as often as it is held.

`Balanced refs held` says that the counts are those of the list and that nothing else is open.  It
depends on the list up to order only (`Balanced.perm`), so a reference that moves from one holder to
another changes nothing, and each of the three operations on a counted resource keeps it: opening a
closed one (`Balanced.acquire`), taking one more reference (`Balanced.share`) and giving one back
(`Balanced.release`), which closes the resource with its last reference.
-/

namespace RefCount

open List Option

variable {α : Type*} [DecidableEq α]

/-- The counts are the numbers of references held, and what is not held is closed. -/
def Balanced (refs : α → Option ℕ) (held : List α) : Prop :=
  ∀ a, refs a = if held.count a = 0 then none else some (held.count a)

variable {refs : α → Option ℕ} {held : List α} {a : α} {n : ℕ}

theorem balanced_nil (h : ∀ a, refs a = none) : Balanced refs [] := by
  intro a
  rw [h a]
  rfl

section

variable (h : Balanced refs held)
include h

theorem Balanced.perm (hp : held.Perm held') : Balanced refs held' := by
  intro a
  rw [h a, hp.count_eq a]

theorem Balanced.eq_count (ha : refs a = some n) : n = held.count a ∧ 1 ≤ n := by
  rw [h a] at ha
  split_ifs at ha with h0
  obtain rfl := some.inj ha
  exact ⟨rfl, Nat.one_le_iff_ne_zero.mpr h0⟩

/-- A resource is open exactly while it is held. -/
theorem Balanced.ne_none_iff : refs a ≠ none ↔ a ∈ held := by
  rw [h a, ← count_pos_iff]
  split_ifs with h0
  · simp [h0]
  · simp only [ne_eq, reduceCtorEq, not_false_eq_true, true_iff]
    exact Nat.pos_of_ne_zero h0

theorem Balanced.not_mem (ha : refs a = none) : a ∉ held := by
  intro hmem
  exact h.ne_none_iff.mpr hmem ha

theorem Balanced.acquire (ha : refs a = none) :
    Balanced (Function.update refs a (some 1)) (a :: held) := by
  have h0 : held.count a = 0 := count_eq_zero.mpr (h.not_mem ha)
  intro b
  by_cases hb : b = a
  · subst hb
    rw [Function.update_self, count_cons_self, h0]
    rfl
  · rw [Function.update_of_ne hb, count_cons_of_ne (Ne.symm hb), h b]

theorem Balanced.share (ha : refs a = some n) :
    Balanced (Function.update refs a (some (n + 1))) (a :: held) := by
  obtain ⟨rfl, -⟩ := h.eq_count ha
  intro b
  by_cases hb : b = a
  · subst hb
    rw [Function.update_self, count_cons_self, if_neg (Nat.succ_ne_zero _)]
  · rw [Function.update_of_ne hb, count_cons_of_ne (Ne.symm hb), h b]

end

/-- Giving back a reference; the last one closes the resource. -/
theorem Balanced.release (h : Balanced refs (a :: held)) (ha : refs a = some n) :
    Balanced (Function.update refs a (if n = 1 then none else some (n - 1))) held := by
  obtain ⟨hn, -⟩ := h.eq_count ha
  rw [count_cons_self] at hn
  intro b
  by_cases hb : b = a
  · subst hb
    rw [Function.update_self, hn]
    simp only [Nat.add_eq_right, Nat.add_sub_cancel]
  · rw [Function.update_of_ne hb, h b, count_cons_of_ne (Ne.symm hb)]

theorem Balanced.exists_of_mem (h : Balanced refs held) (ha : a ∈ held) : ∃ n, refs a = some n :=
  ne_none_iff_exists'.mp (h.ne_none_iff.mpr ha)

theorem flatMap_set_perm {l : List β} {i : ℕ} {y : β} (h : l[i]? = some y) (x : β)
    (g : β → List γ) : (g y ++ (l.set i x).flatMap g).Perm (g x ++ l.flatMap g) := by
  induction l generalizing i with
  | nil => cases h
  | cons z l ih =>
    cases i with
    | zero =>
      obtain rfl := some.inj h
      exact perm_append_comm_assoc _ _ _
    | succ i =>
      calc g y ++ (g z ++ (l.set i x).flatMap g)
        _ |>.Perm (g z ++ (g y ++ (l.set i x).flatMap g)) := perm_append_comm_assoc _ _ _
        _ |>.Perm (g z ++ (g x ++ l.flatMap g)) := (ih h).append_left _
        _ |>.Perm (g x ++ (g z ++ l.flatMap g)) := perm_append_comm_assoc _ _ _

end RefCount
