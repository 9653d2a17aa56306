import Mathlib.Data.List.Count

/-!
# Counting the slots of a table

How many slots of a table have a property, for two versions of the table: if every slot that has it
afterwards had one before, they are no more; if one slot gained it and the others are as they were,
they are one more.
-/

namespace Slots

open List Option

variable {α : Type*} {p : α → Bool}

theorem countP_le_countP {l l' : List α}
    (h : ∀ (i : ℕ) a, l'[i]? = some a → p a → ∃ b, l[i]? = some b ∧ q b) :
    l'.countP p ≤ l.countP q := by
  induction l' generalizing l with
  | nil => exact Nat.zero_le _
  | cons a l' ih =>
    have htail : l'.countP p ≤ l.tail.countP q := by
      apply ih
      intro i b hb hp
      obtain ⟨c, hc, hq⟩ := h (i + 1) b hb hp
      exact ⟨c, by rw [getElem?_tail]; exact hc, hq⟩
    rw [countP_cons]
    by_cases hp : p a
    · obtain ⟨b, hb, hq⟩ := h 0 a rfl hp
      obtain ⟨l₀, rfl⟩ : ∃ l₀, l = b :: l₀ := by
        cases l with
        | nil => cases hb
        | cons c l₀ =>
          rw [← some.inj hb]
          exact ⟨l₀, rfl⟩
      rw [if_pos hp, countP_cons, if_pos hq]
      exact Nat.succ_le_succ htail
    · rw [if_neg hp]
      exact Nat.le_trans htail (tail_sublist l).countP_le

theorem countP_eq_add_one {l l' : List α} {k : ℕ} {a : α}
    (hothers : ∀ i : ℕ, i ≠ k → l'[i]? = l[i]?) (hk : l'[k]? = some a) (ha : p a)
    (hno : ∀ b, l[k]? = some b → p b = false) : l'.countP p = l.countP p + 1 := by
  have hcount (l : List α) :
      l.countP p = (l.take k).countP p + (l[k]?.toList.countP p + (l.drop (k + 1)).countP p) := by
    rw [← countP_append, ← drop_eq_getElem?_toList_append, ← countP_append, take_append_drop]
  have htake : l'.take k = l.take k := by
    apply ext_getElem?
    intro i
    rw [getElem?_take, getElem?_take]
    split_ifs with hi
    · exact hothers i (Nat.ne_of_lt hi)
    · rfl
  have hdrop : l'.drop (k + 1) = l.drop (k + 1) := by
    apply ext_getElem?
    intro i
    rw [getElem?_drop, getElem?_drop]
    exact hothers _ (by omega)
  have hbefore : l[k]?.toList.countP p = 0 := by
    cases hb : l[k]? with
    | none => rfl
    | some b => simp [hno b hb]
  have hafter : l'[k]?.toList.countP p = 1 := by simp [hk, ha]
  rw [hcount l', hcount l, htake, hdrop, hafter]
  omega

end Slots
