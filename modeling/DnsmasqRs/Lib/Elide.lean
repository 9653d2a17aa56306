import Mathlib.Data.List.TakeDrop
import Mathlib.Tactic.Common

/-!
# Taking ranges out of a list

`keep l ranges 0` is the list without the elements in the ranges.  What stays moves down: an element
at `x` comes to be at `shift ranges x`, that is `x` less what was taken out before it
(`getElem?_keep`). Inside a stretch that stays, `shift` keeps distances (`shift_of_clear`), and it
takes both ends of a range to the same place (`shift_finish`).
-/

namespace Elide

open List

/-- The ranges are not empty, do not overlap and are in order from `lo` on. -/
def Ascending : ℕ → List (ℕ × ℕ) → Prop
  | _, [] => True
  | lo, (start, finish) :: rest => lo ≤ start ∧ start < finish ∧ Ascending finish rest

/-- The position is in one of the ranges. -/
def Within (ranges : List (ℕ × ℕ)) (x : ℕ) : Prop := ∃ r ∈ ranges, r.1 ≤ x ∧ x < r.2

/-- No range has a position from `lo` up to `hi`. -/
def Clear (ranges : List (ℕ × ℕ)) (lo hi : ℕ) : Prop := ∀ r ∈ ranges, r.2 ≤ lo ∨ hi ≤ r.1

/-- How much is taken out before a position. -/
def removed : List (ℕ × ℕ) → ℕ → ℕ
  | [], _ => 0
  | (start, finish) :: rest, x => if finish ≤ x then finish - start + removed rest x else 0

/-- Where a position moves to. -/
def shift (ranges : List (ℕ × ℕ)) (x : ℕ) : ℕ := x - removed ranges x

/-- The list from `cursor` on without the ranges. -/
def keep {α : Type*} (l : List α) : List (ℕ × ℕ) → ℕ → List α
  | [], cursor => l.drop cursor
  | (start, finish) :: rest, cursor => (l.take start).drop cursor ++ keep l rest finish

variable {α : Type*} {l : List α} {ranges : List (ℕ × ℕ)} {lo x y : ℕ}

section

variable (h : Ascending lo ranges)
include h

theorem Ascending.mono (hlo : lo' ≤ lo) : Ascending lo' ranges := by
  cases ranges with
  | nil => trivial
  | cons r rest =>
    obtain ⟨hstart, hr⟩ := h
    exact ⟨Nat.le_trans hlo hstart, hr⟩

/-- Ranges that all end before others begin. -/
theorem Ascending.append (hlo : lo ≤ mid)
    (hmid : ∀ r ∈ ranges, r.2 ≤ mid) (hrest : Ascending mid rest) :
    Ascending lo (ranges ++ rest) := by
  induction ranges generalizing lo with
  | nil => exact hrest.mono hlo
  | cons r ranges ih =>
    obtain ⟨hstart, hne, htail⟩ := h
    exact ⟨hstart, hne, ih htail (hmid r mem_cons_self) fun r hr => hmid r (mem_cons_of_mem _ hr)⟩

theorem Ascending.bounds (hr : r ∈ ranges) : lo ≤ r.1 ∧ r.1 < r.2 := by
  induction ranges generalizing lo with
  | nil => cases hr
  | cons head rest ih =>
    obtain ⟨hstart, hne, hrest⟩ := h
    rcases mem_cons.mp hr with rfl | hr
    · exact ⟨hstart, hne⟩
    · have := ih hrest hr
      omega

theorem Ascending.separate (hr : r ∈ ranges) (hr' : r' ∈ ranges) :
    r = r' ∨ r.2 ≤ r'.1 ∨ r'.2 ≤ r.1 := by
  induction ranges generalizing lo with
  | nil => cases hr
  | cons head rest ih =>
    obtain ⟨-, -, hrest⟩ := h
    rcases mem_cons.mp hr with rfl | hmem <;> rcases mem_cons.mp hr' with rfl | hmem'
    · exact .inl rfl
    · exact .inr (.inl (hrest.bounds hmem').1)
    · exact .inr (.inr (hrest.bounds hmem).1)
    · exact ih hrest hmem hmem'

theorem Ascending.removed_eq_zero (hx : x ≤ lo) : removed ranges x = 0 := by
  cases ranges with
  | nil => rfl
  | cons r rest =>
    obtain ⟨hstart, hne, -⟩ := h
    exact if_neg (by omega)

theorem Ascending.removed_le (hx : lo ≤ x) : removed ranges x ≤ x - lo := by
  induction ranges generalizing lo with
  | nil => exact Nat.zero_le _
  | cons r rest ih =>
    obtain ⟨hstart, hne, hrest⟩ := h
    rw [removed]
    split
    · next hle =>
      have := ih hrest hle
      omega
    · exact Nat.zero_le _

end

/-- Nothing is taken out between two positions with no end of a range between them. -/
theorem removed_eq_of_gap (hxy : x ≤ y) (hgap : ∀ r ∈ ranges, r.2 ≤ x ∨ y < r.2) :
    removed ranges y = removed ranges x := by
  induction ranges with
  | nil => rfl
  | cons r rest ih =>
    have hhead := hgap r mem_cons_self
    have hrest := ih fun r hr => hgap r (mem_cons_of_mem _ hr)
    rw [removed, removed, hrest]
    by_cases hx : r.2 ≤ x
    · rw [if_pos hx, if_pos (Nat.le_trans hx hxy)]
    · rw [if_neg hx, if_neg (by omega)]

/-- **Inside a stretch that stays** distances are kept. -/
theorem Ascending.shift_of_clear (h : Ascending lo ranges) (hclear : Clear ranges c hi)
    (hx : c ≤ x) (hxy : x ≤ y) (hy : y ≤ hi) : shift ranges y = shift ranges x + (y - x) := by
  have hle := (h.mono (Nat.zero_le lo)).removed_le (Nat.zero_le x)
  have hgap : ∀ r ∈ ranges, r.2 ≤ x ∨ y < r.2 := by
    intro r hr
    have hbounds := h.bounds hr
    have := hclear r hr
    omega
  rw [shift, shift, removed_eq_of_gap hxy hgap]
  omega

theorem Clear.not_within (h : Clear ranges lo hi) (hlo : lo ≤ x) (hhi : x < hi) :
    ¬ Within ranges x := by
  rintro ⟨r, hr, hin⟩
  have := h r hr
  omega

theorem Clear.mono (h : Clear ranges lo hi) (hlo : lo ≤ lo') (hhi : hi' ≤ hi) :
    Clear ranges lo' hi' := by
  intro r hr
  have := h r hr
  omega

theorem Ascending.le_shift (h : Ascending lo ranges) (hx : lo ≤ x) : lo ≤ shift ranges x := by
  have := h.removed_le hx
  rw [shift]
  omega

theorem removed_mono (hxy : x ≤ y) : removed ranges x ≤ removed ranges y := by
  induction ranges with
  | nil => exact Nat.le_refl _
  | cons r rest ih =>
    rw [removed, removed]
    by_cases hx : r.2 ≤ x
    · rw [if_pos hx, if_pos (Nat.le_trans hx hxy)]
      omega
    · rw [if_neg hx]
      exact Nat.zero_le _

theorem shift_le_add (hxy : x ≤ y) : shift ranges y ≤ shift ranges x + (y - x) := by
  have : removed ranges x ≤ removed ranges y := removed_mono hxy
  rw [shift, shift]
  omega

theorem Ascending.removed_finish (h : Ascending lo ranges) (hr : r ∈ ranges) :
    removed ranges r.2 = removed ranges r.1 + (r.2 - r.1) := by
  induction ranges generalizing lo with
  | nil => cases hr
  | cons head rest ih =>
    obtain ⟨hstart, hne, hrest⟩ := h
    rw [removed, removed]
    rcases mem_cons.mp hr with rfl | hr
    · rw [if_pos (Nat.le_refl _), if_neg (by omega), hrest.removed_eq_zero (Nat.le_refl _)]
      omega
    · have hbounds := hrest.bounds hr
      rw [if_pos (by omega), if_pos (by omega), ih hrest hr]
      omega

/-- **The two ends of a range** come together. -/
theorem Ascending.shift_finish (h : Ascending lo ranges) (hr : r ∈ ranges) :
    shift ranges r.2 = shift ranges r.1 := by
  have hbounds := h.bounds hr
  rw [shift, shift, h.removed_finish hr]
  omega

theorem Ascending.shift_of_le (h : Ascending lo ranges) (hx : x ≤ lo) : shift ranges x = x := by
  rw [shift, h.removed_eq_zero hx, Nat.sub_zero]

theorem Ascending.length_keep (h : Ascending cursor ranges)
    (hlen : ∀ r ∈ ranges, r.2 ≤ l.length) (hcursor : cursor ≤ l.length) :
    (keep l ranges cursor).length = shift ranges l.length - cursor := by
  induction ranges generalizing cursor with
  | nil => exact length_drop
  | cons r rest ih =>
    obtain ⟨hstart, hne, hrest⟩ := h
    have hfinish : r.2 ≤ l.length := hlen r mem_cons_self
    have htail := ih hrest (fun r hr => hlen r (mem_cons_of_mem _ hr)) hfinish
    have hle := hrest.removed_le hfinish
    rw [keep, length_append, length_drop, length_take, htail, shift, shift, removed, if_pos hfinish]
    omega

/-- **What stays is found where it was moved to**. -/
theorem Ascending.getElem?_keep (h : Ascending cursor ranges)
    (hlen : ∀ r ∈ ranges, r.2 ≤ l.length) (hx : cursor ≤ x) (hout : ¬ Within ranges x) :
    (keep l ranges cursor)[shift ranges x - cursor]? = l[x]? := by
  induction ranges generalizing cursor with
  | nil =>
    rw [keep, shift, removed, getElem?_drop]
    congr 1
    omega
  | cons r rest ih =>
    obtain ⟨hstart, hne, hrest⟩ := h
    have hfinish : r.2 ≤ l.length := hlen r mem_cons_self
    have hfirst : ((l.take r.1).drop cursor).length = r.1 - cursor := by
      rw [length_drop, length_take]
      omega
    rw [keep, shift, removed]
    by_cases hbefore : x < r.1
    · -- still in front of the first range
      rw [if_neg (by omega), Nat.sub_zero, getElem?_append_left (by omega), getElem?_drop,
        getElem?_take, if_pos (by omega)]
      congr 1
      omega
    · have hpast : r.2 ≤ x := by
        by_contra hlt
        exact hout ⟨r, mem_cons_self, by omega, by omega⟩
      have hle := hrest.removed_le hpast
      have htail := ih hrest (fun r hr => hlen r (mem_cons_of_mem _ hr)) hpast
        fun ⟨r, hr, hin⟩ => hout ⟨r, mem_cons_of_mem _ hr, hin⟩
      rw [if_pos hpast, getElem?_append_right (by omega), ← htail, shift]
      congr 1
      omega

end Elide
