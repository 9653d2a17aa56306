import DnsmasqRs.Lib.Utf8
import Mathlib.Data.List.DropRight

/-!
# Lines and fields

The functions of Rust's standard library that cut a text into lines (`lines`), words
(`split_whitespace`) and fields (`splitn`), and `trim`.

A text of lines that each end with a line feed is cut into just these lines (`lines_flatMap`), and a
line of fields without the separator into just these fields (`splitn_cons`).  The other way round,
what comes out has no line feed (`newline_not_mem_of_mem_lines`), and no field but the last has a
separator (`not_mem_of_mem_dropLast_splitn`).
-/

namespace Text

open Utf8 List

/-- `char::is_whitespace`. -/
def isWhitespace (c : Char) : Bool :=
  [0x20, 0x85, 0xA0, 0x1680, 0x2028, 0x2029, 0x202F, 0x205F, 0x3000].contains c.toNat
    || (0x09 ≤ c.toNat && c.toNat ≤ 0x0D) || (0x2000 ≤ c.toNat && c.toNat ≤ 0x200A)

/-- `str::split_whitespace`. -/
def splitWhitespace (s : Str) : List Str := (s.splitOnP isWhitespace).filter (· ≠ [])

/-- `str::lines`: a carriage return before the end of a line belongs to it. -/
def lines (s : Str) : List Str :=
  let parts := s.splitOnP (· == '\n')
  let full := parts.dropLast.map fun l => if l.getLast? = some '\r' then l.dropLast else l
  full ++ (parts.getLast?.filter (· ≠ [])).toList

/-- `str::trim`. -/
def trim (s : Str) : Str := (s.dropWhile isWhitespace).rdropWhile isWhitespace

/-- `str::splitn`: the last of `n` fields is all that is left. -/
def splitn : ℕ → Char → Str → List Str
  | 0, _, _ => []
  | 1, _, s => [s]
  | n + 2, sep, s =>
    if sep ∈ s then s.takeWhile (· ≠ sep) :: splitn (n + 1) sep ((s.dropWhile (· ≠ sep)).drop 1)
    else [s]

theorem isWhitespace_eq_false (h : 0x20 < c.toNat) (h' : c.toNat < 0x7F) :
    isWhitespace c = false := by
  have hspace : ¬ (c.toNat ≤ 0x0D) ∧ ¬ (0x2000 ≤ c.toNat) := by omega
  have hlist : c.toNat ∉ [0x20, 0x85, 0xA0, 0x1680, 0x2028, 0x2029, 0x202F, 0x205F, 0x3000] := by
    simp only [mem_cons, not_mem_nil, or_false, not_or]
    omega
  simp [isWhitespace, hspace, hlist]

/-! ### Lines -/

theorem splitOnP_flatMap (h : ∀ l ∈ ls, '\n' ∉ l) :
    (ls.flatMap (· ++ ['\n'])).splitOnP (· == '\n') = ls ++ [[]] := by
  induction ls with
  | nil => rfl
  | cons l ls ih =>
    have hl (c : Char) (hc : c ∈ l) : (c == '\n') = false := by
      apply beq_false_of_ne
      rintro rfl
      exact h l mem_cons_self hc
    rw [flatMap_cons, append_assoc, singleton_append,
      splitOnP_append_cons_of_forall_mem hl '\n' rfl, ih fun l hl => h l (mem_cons_of_mem _ hl)]
    rfl

/-- **Lines that end with a line feed** are the lines of their text. -/
theorem lines_flatMap (hlf : ∀ l ∈ ls, '\n' ∉ l)
    (hcr : ∀ l ∈ ls, l.getLast? ≠ some '\r') : lines (ls.flatMap (· ++ ['\n'])) = ls := by
  unfold lines
  rw [splitOnP_flatMap hlf]
  have hkept : ls.map (fun l => if l.getLast? = some '\r' then l.dropLast else l) = ls := by
    conv_rhs => rw [← map_id ls]
    exact map_congr_left fun l hl => if_neg (hcr l hl)
  simp [hkept]

theorem newline_not_mem_of_mem_splitOnP {s l : Str} (h : l ∈ s.splitOnP (· == '\n')) :
    '\n' ∉ l := by
  induction s generalizing l with
  | nil =>
    obtain rfl := mem_singleton.mp h
    exact not_mem_nil
  | cons c s ih =>
    rw [splitOnP_cons_eq_if_modifyHead] at h
    split at h
    · rcases mem_cons.mp h with rfl | h
      · exact not_mem_nil
      · exact ih h
    · next hc =>
      -- the character goes to the front of the first line
      have hne := splitOnP_ne_nil (fun c => c == '\n') s
      cases hs : s.splitOnP (· == '\n') with
      | nil => exact absurd hs hne
      | cons l₀ ls =>
        rw [hs] at h
        have hmem (l' : Str) (hl' : l' ∈ l₀ :: ls) : '\n' ∉ l' := ih (hs ▸ hl')
        rcases mem_cons.mp h with rfl | h
        · intro hn
          rcases mem_cons.mp hn with rfl | hn
          · exact hc rfl
          · exact hmem l₀ mem_cons_self hn
        · exact hmem l (mem_cons_of_mem _ h)

/-- **A line has no line feed**. -/
theorem newline_not_mem_of_mem_lines {s l : Str} (h : l ∈ lines s) : '\n' ∉ l := by
  rcases mem_append.mp h with h | h
  · obtain ⟨l', hl', rfl⟩ := mem_map.mp h
    have hmem := newline_not_mem_of_mem_splitOnP (dropLast_subset _ hl')
    split
    · exact fun hn => hmem (dropLast_subset _ hn)
    · exact hmem
  · rw [Option.mem_toList] at h
    have hlast := Option.eq_some_of_filter_eq_some h
    exact newline_not_mem_of_mem_splitOnP (mem_of_getLast? hlast)

/-! ### Trimming -/

theorem mem_of_mem_trim (h : c ∈ trim s) : c ∈ s :=
  (dropWhile_sublist _).subset ((List.rdropWhile_prefix _ _).subset h)

theorem trim_eq_self (hhead : ∀ c, s.head? = some c → isWhitespace c = false)
    (hlast : ∀ c, s.getLast? = some c → isWhitespace c = false) : trim s = s := by
  have hfront : s.dropWhile isWhitespace = s := by
    cases s with
    | nil => rfl
    | cons c s => exact dropWhile_cons_of_neg (by rw [hhead c rfl]; exact Bool.false_ne_true)
  rw [trim, hfront, rdropWhile_eq_self_iff]
  intro hne hws
  rw [hlast _ (getLast?_eq_some_getLast hne)] at hws
  cases hws

/-! ### Fields -/

/-- **A field that ends with the separator** is split off. -/
theorem splitn_cons (h : sep ∉ a) :
    splitn (n + 2) sep (a ++ sep :: s) = a :: splitn (n + 1) sep s := by
  have hne (c : Char) (hc : c ∈ a) : decide (c ≠ sep) := by
    apply decide_eq_true
    rintro rfl
    exact h hc
  rw [splitn, if_pos (mem_append_right _ mem_cons_self), takeWhile_append_of_pos hne,
    takeWhile_cons_of_neg (by simp), append_nil, dropWhile_append_of_pos hne,
    dropWhile_cons_of_neg (by simp), drop_one, tail_cons]

/-- **No field but the last has a separator**. -/
theorem not_mem_of_mem_dropLast_splitn (h : field ∈ (splitn n sep s).dropLast) : sep ∉ field := by
  induction n, sep, s using splitn.induct with
  | case1 | case2 => cases h
  | case3 n sep s hmem ih =>
    rw [splitn, if_pos hmem] at h
    have hfield : field = s.takeWhile (· ≠ sep) ∨
        field ∈ (splitn (n + 1) sep ((s.dropWhile (· ≠ sep)).drop 1)).dropLast := by
      cases hrest : splitn (n + 1) sep ((s.dropWhile (· ≠ sep)).drop 1) with
      | nil => rw [hrest] at h; cases h
      | cons f fs =>
        rw [hrest] at h
        exact mem_cons.mp h
    rcases hfield with rfl | hfield
    · intro hsep
      have := mem_takeWhile_imp hsep
      simp at this
    · exact ih hfield
  | case4 n sep s hmem =>
    rw [splitn, if_neg hmem] at h
    cases h

theorem mem_of_mem_splitn (h : field ∈ splitn n sep s) (hc : c ∈ field) : c ∈ s := by
  induction n, sep, s using splitn.induct with
  | case1 => cases h
  | case2 =>
    obtain rfl := mem_singleton.mp h
    exact hc
  | case3 n sep s hmem ih =>
    rw [splitn, if_pos hmem] at h
    rcases mem_cons.mp h with rfl | h
    · exact (takeWhile_sublist _).subset hc
    · exact (dropWhile_sublist _).subset (mem_of_mem_drop (ih h))
  | case4 n sep s hmem =>
    rw [splitn, if_neg hmem] at h
    obtain rfl := mem_singleton.mp h
    exact hc

end Text
