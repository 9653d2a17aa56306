import DnsmasqRs.Lib.Utf8

/-!
# Paths, resolved by their text

A path is a text with slashes.  `resolve` goes through its components: an empty component and `.`
stay where they are, `..` goes up, and at the top it stays there.

In a path that starts with a slash, a component `..` that is not the last one shows as `/../`
(`dotdot_infix`).  So a path without that text, whose last component is not `..` either, only ever
goes down, and stays inside any directory its text starts with (`inside_of_no_dotdot`).
-/

namespace LexicalPath

open Utf8 List

/-- What is between the slashes. -/
def components (path : Str) : List Str := path.splitOn '/'

/-- One component further, from the directory with these names. -/
def enter (dir : List Str) (name : Str) : List Str :=
  if name = [] ∨ name = ['.'] then dir
  else if name = ['.', '.'] then dir.dropLast
  else dir ++ [name]

/-- The names from the top down to where the path leads. -/
def resolve (path : Str) : List Str := (components path).foldl enter []

/-- The path leads into the directory or to something below it. -/
def Inside (path dir : Str) : Prop := resolve dir <+: resolve path

instance (path dir : Str) : Decidable (Inside path dir) := inferInstanceAs (Decidable (_ <+: _))

theorem components_append_slash (front back : Str) :
    components (front ++ '/' :: back) = components front ++ components back :=
  splitOn_append_cons_self front back

theorem intercalate_append (hxs : xs ≠ []) (hys : ys ≠ []) :
    ['/'].intercalate (xs ++ ys) = ['/'].intercalate xs ++ '/' :: ['/'].intercalate ys := by
  induction xs with
  | nil => exact absurd rfl hxs
  | cons x xs ih =>
    by_cases hnil : xs = []
    · subst hnil
      rw [singleton_append, intercalate_cons_of_ne_nil hys, intercalate_singleton, append_assoc,
        singleton_append]
    · have hne : xs ++ ys ≠ [] := append_ne_nil_of_left_ne_nil hnil ys
      rw [cons_append, intercalate_cons_of_ne_nil hne, ih hnil, intercalate_cons_of_ne_nil hnil,
        append_assoc, append_assoc, append_assoc]

/-- A component between others stands between slashes. -/
theorem infix_of_components {before after : List Str} (hbefore : before ≠ [])
    (hafter : after ≠ []) (h : components path = before ++ name :: after) :
    '/' :: (name ++ ['/']) <:+: path := by
  have hpath :
      path = ['/'].intercalate before ++ '/' :: (name ++ '/' :: ['/'].intercalate after) := by
    have hjoin : ['/'].intercalate (path.splitOn '/') = path := intercalate_splitOn '/'
    unfold components at h
    rw [← hjoin, h, intercalate_append hbefore (cons_ne_nil _ _), intercalate_cons_of_ne_nil hafter,
      append_assoc, singleton_append]
  refine ⟨['/'].intercalate before, ['/'].intercalate after, ?_⟩
  rw [hpath]
  simp

/-- **A component `..` of an absolute path shows as `/../`**, unless it is the last one. -/
theorem dotdot_infix {path : Str} (hslash : path.head? = some '/')
    (hmem : ['.', '.'] ∈ (components path).dropLast) :
    ['/', '.', '.', '/'] <:+: path := by
  obtain ⟨rest, rfl⟩ : ∃ rest, path = '/' :: rest := by
    cases path with
    | nil => cases hslash
    | cons c rest => exact ⟨rest, by rw [Option.some.inj hslash]⟩
  obtain hnil | ⟨front, last, hcomp⟩ := eq_nil_or_concat' (components ('/' :: rest))
  · exact absurd hnil (splitOn_ne_nil '/' ('/' :: rest))
  · rw [hcomp, dropLast_concat] at hmem
    obtain ⟨before, after, rfl⟩ := append_of_mem hmem
    rw [append_assoc] at hcomp
    refine infix_of_components ?_ (by simp) hcomp
    -- the first component is empty
    rintro rfl
    have hhead : components ('/' :: rest) = [] :: components rest := components_append_slash [] rest
    cases (List.cons.inj hcomp).1

/-- Names other than `..` only go down. -/
theorem isPrefix_foldl_enter {names : List Str} (h : ['.', '.'] ∉ names) (dir : List Str) :
    dir <+: names.foldl enter dir := by
  induction names generalizing dir with
  | nil => exact prefix_rfl
  | cons name names ih =>
    have hname : name ≠ ['.', '.'] := fun heq => h (heq ▸ mem_cons_self)
    have hstep : dir <+: enter dir name := by
      unfold enter
      split
      · exact prefix_rfl
      · exact prefix_append dir [name]
    exact hstep.trans (ih (fun hmem => h (mem_cons_of_mem _ hmem)) _)

/-- **A path that starts with the text of a directory stays inside it**, if `/../` is not in it and
its last component is not `..`. -/
theorem inside_of_no_dotdot {dir rest : Str} (hslash : (dir ++ '/' :: rest).head? = some '/')
    (hno : ¬ ['/', '.', '.', '/'] <:+: dir ++ '/' :: rest)
    (hlast : (components (dir ++ '/' :: rest)).getLast? ≠ some ['.', '.']) :
    Inside (dir ++ '/' :: rest) (dir ++ ['/']) := by
  have hdown : ['.', '.'] ∉ components rest := by
    intro hmem
    rw [components_append_slash] at hlast
    have hne : components rest ≠ [] := splitOn_ne_nil '/' rest
    apply hno
    apply dotdot_infix hslash
    rw [components_append_slash, dropLast_append_of_ne_nil hne]
    apply mem_append_right
    rw [getLast?_append_of_ne_nil _ hne] at hlast
    obtain hmem | hmem := mem_append.mp ((dropLast_append_getLast hne).symm ▸ hmem)
    · exact hmem
    · exact absurd
        ((getLast?_eq_some_getLast hne).trans (congrArg some (mem_singleton.mp hmem).symm)) hlast
  unfold Inside resolve
  rw [components_append_slash, components_append_slash, foldl_append, foldl_append]
  exact isPrefix_foldl_enter hdown _

end LexicalPath
