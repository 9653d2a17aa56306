import Mathlib.Logic.Basic

/-!
# Runs of a partial step function

A system takes a step on an event, or does not return from it (`none`).  `Reaches step ok s₀ s` says
that a run of steps leads from `s₀` to `s` in which every event was admissible (`ok`) in the state
it met; `ok := fun _ _ => True` admits all runs.

What the first state has and every admissible step keeps, every reached state has
(`Reaches.invariant`).

`Always step p s es` says that `p` holds before and after every step of the run over the events
`es`, and `EachStep step q s es` that `q` holds of every state and event of it.  Where `q` is just
what a step from a good state needs to lead to a state with `p`, and then to a good one, the two say
the same (`always_iff`).
-/

namespace Run

variable {σ ε : Type*}

/-- The states a run of admissible steps can lead to. -/
inductive Reaches (step : σ → ε → Option σ) (ok : σ → ε → Prop) (s₀ : σ) : σ → Prop where
  | refl : Reaches step ok s₀ s₀
  | tail {s s' : σ} {e : ε} (hs : Reaches step ok s₀ s) (hok : ok s e)
      (hstep : step s e = some s') :
      Reaches step ok s₀ s'

variable {step : σ → ε → Option σ} {ok : σ → ε → Prop} {s₀ s : σ}

/-- **The invariant rule**. -/
theorem Reaches.invariant {I : σ → Prop} (h₀ : I s₀)
    (hkeep : ∀ s e s', I s → ok s e → step s e = some s' → I s') (h : Reaches step ok s₀ s) :
    I s := by
  induction h with
  | refl => exact h₀
  | tail _ hok hstep ih => exact hkeep _ _ _ ih hok hstep

/-- What a run over a list of events leads to is reached. -/
theorem exists_reaches (step : σ → ε → Option σ) (es : List ε) (p : σ → Bool)
    (hs : Reaches step (fun _ _ => True) s₀ s) (h : (es.foldlM step s).any p) :
    ∃ s, Reaches step (fun _ _ => True) s₀ s ∧ p s := by
  induction es generalizing s with
  | nil => exact ⟨s, hs, h⟩
  | cons e es ih =>
    rw [List.foldlM_cons] at h
    cases hstep : step s e with
    | none => simp [hstep] at h
    | some s' =>
      rw [hstep] at h
      exact ih (hs.tail trivial hstep) h

/-! ### What holds all along a run -/

/-- The property holds of every state of the run. -/
def Always (step : σ → ε → Option σ) (p : σ → Prop) : σ → List ε → Prop
  | s, [] => p s
  | s, e :: es => p s ∧ ∀ s', step s e = some s' → Always step p s' es

/-- The property holds of every step of the run. -/
def EachStep (step : σ → ε → Option σ) (q : σ → ε → Prop) : σ → List ε → Prop
  | _, [] => True
  | s, e :: es => q s e ∧ ∀ s', step s e = some s' → EachStep step q s' es

theorem Always.head (h : Always step p s es) : p s := by
  cases es with
  | nil => exact h
  | cons e es => exact h.1

/-- **A property that steps keep just when `q` holds of them** holds all along a run just when `q`
does. -/
theorem always_iff {I p : σ → Prop} {q : σ → ε → Prop} {es : List ε} (hp : ∀ s, I s → p s)
    (hstep : ∀ s e, I s → ok s e → (q s e ↔ ∀ s', step s e = some s' → p s'))
    (hkeep : ∀ s e s', I s → ok s e → q s e → step s e = some s' → I s')
    (hs : I s) (hok : EachStep step ok s es) : Always step p s es ↔ EachStep step q s es := by
  induction es generalizing s with
  | nil => exact iff_of_true (hp s hs) trivial
  | cons e es ih =>
    constructor
    · rintro ⟨-, hrest⟩
      have hq : q s e := (hstep s e hs hok.1).mpr fun s' hs' => (hrest s' hs').head
      exact ⟨hq, fun s' hs' => (ih (hkeep s e s' hs hok.1 hq hs') (hok.2 s' hs')).mp (hrest s' hs')⟩
    · rintro ⟨hq, hrest⟩
      exact ⟨hp s hs, fun s' hs' =>
        (ih (hkeep s e s' hs hok.1 hq hs') (hok.2 s' hs')).mpr (hrest s' hs')⟩

end Run
