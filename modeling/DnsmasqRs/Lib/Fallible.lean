import Mathlib.Logic.Basic

/-!
# Computations that can fail

Inversion lemmas for `Except`: what it means that a computation of several steps succeeded, or that
it does not fail in a given way.  `findFirst` and `anyOf` are searches through a list with a test
that can itself fail; they fail exactly where the test does at an element they get to.
-/

namespace Fallible

open List

variable {ε α β : Type} {e : ε}

variable {x : Except ε α}

/-- A computation that succeeded, one step at a time. -/
theorem bind_eq_ok : x >>= f = .ok r ↔ ∃ a, x = .ok a ∧ f a = .ok r := by
  cases x with
  | error e =>
    constructor
    · intro h
      cases h
    · rintro ⟨_, h, _⟩
      cases h
  | ok a =>
    constructor
    · intro h
      exact ⟨a, rfl, h⟩
    · rintro ⟨_, ha, h⟩
      rw [Except.ok.inj ha]
      exact h

theorem map_eq_ok : x.map f = .ok r ↔ ∃ a, x = .ok a ∧ f a = r := by
  cases x with
  | error e => exact iff_of_false (fun h => nomatch h) fun ⟨_, h, _⟩ => nomatch h
  | ok a =>
    constructor
    · intro h
      exact ⟨a, rfl, Except.ok.inj h⟩
    · rintro ⟨_, ha, rfl⟩
      rw [Except.ok.inj ha]
      rfl

theorem toOption_eq_some : x.toOption = some a ↔ x = .ok a := by
  cases x with
  | error e => exact iff_of_false (fun h => nomatch h) fun h => nomatch h
  | ok b =>
    show some b = some a ↔ _
    rw [Option.some.injEq, Except.ok.injEq]

theorem isOk_iff : x.isOk ↔ ∃ a, x = .ok a := by
  cases x with
  | error e => exact iff_of_false Bool.false_ne_true fun ⟨_, h⟩ => nomatch h
  | ok a => exact iff_of_true rfl ⟨a, rfl⟩

theorem isOk_map : (x.map f).isOk = x.isOk := by
  cases x <;> rfl

/-- A computation does not fail with `e` if no step does that it gets to. -/
theorem bind_ne_error_iff :
    x >>= f ≠ .error e ↔ x ≠ .error e ∧ ∀ a, x = .ok a → f a ≠ .error e := by
  cases x with
  | error e' =>
    show Except.error e' ≠ Except.error e ↔ _
    simp
  | ok a =>
    show f a ≠ .error e ↔ _
    simp

theorem map_ne_error_iff : x.map f ≠ .error e ↔ x ≠ .error e := by
  cases x with
  | error e' =>
    show Except.error e' ≠ Except.error e ↔ Except.error e' ≠ Except.error e
    rw [ne_eq, ne_eq, Except.error.injEq, Except.error.injEq]
  | ok a => exact iff_of_true nofun nofun

/-! ### Searches -/

/-- The first result of `f`. -/
def findFirst (f : α → Except ε (Option β)) : List α → Except ε (Option β)
  | [] => .ok none
  | x :: l => do
    match ← f x with
    | some b => return some b
    | none => findFirst f l

/-- Whether `p` holds of an element, up to the first one. -/
def anyOf (p : α → Except ε Bool) (l : List α) : Except ε Bool :=
  (findFirst (fun x => (p x).map fun b => if b then some () else none) l).map Option.isSome

/-- What holds of the elements up to the first one without `P`, read from the front. -/
theorem forall_split_cons {P Q : α → Prop} {a : α} {l : List α} :
    (∀ pre x post, a :: l = pre ++ x :: post → (∀ y ∈ pre, P y) → Q x) ↔
      Q a ∧ (P a → ∀ pre x post, l = pre ++ x :: post → (∀ y ∈ pre, P y) → Q x) := by
  constructor
  · intro h
    refine ⟨h [] a l rfl (forall_mem_nil _), fun ha pre x post heq hpre => ?_⟩
    exact h (a :: pre) x post (by rw [heq, cons_append]) (forall_mem_cons.mpr ⟨ha, hpre⟩)
  · rintro ⟨hhead, htail⟩ pre x post heq hpre
    cases pre with
    | nil =>
      obtain ⟨rfl, rfl⟩ := List.cons.inj heq
      exact hhead
    | cons b pre =>
      obtain ⟨rfl, rfl⟩ := List.cons.inj heq
      rw [forall_mem_cons] at hpre
      exact htail hpre.1 pre x post rfl hpre.2

/-- A search does not fail with `e` if `f` does not at any element behind ones without a result. -/
theorem findFirst_ne_error_iff : findFirst f l ≠ .error e ↔
      ∀ pre x post, l = pre ++ x :: post → (∀ y ∈ pre, f y = .ok none) → f x ≠ .error e := by
  induction l with
  | nil => exact iff_of_true nofun fun pre x post h => absurd h (by simp)
  | cons a l ih =>
    rw [findFirst, bind_ne_error_iff, forall_split_cons (P := fun y => f y = .ok none), ← ih]
    refine and_congr_right fun _ => ⟨fun h => h none, fun h r hr => ?_⟩
    cases r with
    | some b => exact nofun
    | none => exact h hr

theorem anyOf_ne_error_iff : anyOf p l ≠ .error e ↔
      ∀ pre x post, l = pre ++ x :: post → (∀ y ∈ pre, p y = .ok false) → p x ≠ .error e := by
  have hnone : ∀ y, ((p y).map fun b => if b then some () else none) = .ok none
    ↔ p y = .ok false := by
    intro y
    rw [map_eq_ok]
    constructor
    · rintro ⟨b, hb, hif⟩
      cases b with
      | false => exact hb
      | true => cases hif
    · exact fun h => ⟨false, h, rfl⟩
  rw [anyOf, map_ne_error_iff, findFirst_ne_error_iff]
  simp only [hnone, map_ne_error_iff]

end Fallible
