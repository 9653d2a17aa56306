import DnsmasqRs.Domain

/-!
# Where synthetic names are sliced

Reading an address from a name slices it in one place only, behind the prefix of a conditional
domain. `synthesize_ne_slice_iff` says exactly when a search through the conditional domains does
not panic there.
-/

namespace DnsmasqRs.Domain

open Utf8 Fallible

variable {A : Type} {fam : Family A} {name : Str} {c : CondDomain}

/-- The prefix, if it is not longer than the name, ends on a character boundary of the name. -/
def PrefixSliceable (name : Str) (pfx : Option Str) : Prop :=
  ∀ p, pfx = some p → byteLen p ≤ byteLen name → isCharBoundary name (byteLen p)

theorem stripPrefix_ne_slice_iff : stripPrefix name pfx ≠ .error .slice
    ↔ PrefixSliceable name pfx := by
  cases pfx with
  | none => exact iff_of_true (by rintro ⟨⟩) (by rintro _ ⟨⟩)
  | some p =>
    rw [stripPrefix]
    split_ifs with hshort
    · refine iff_of_true (by rintro ⟨⟩) fun p' hp' hle => ?_
      obtain rfl := Option.some.inj hp'
      omega
    · have hbound : PrefixSliceable name (some p) ↔ isCharBoundary name (byteLen p) := by
        constructor
        · exact fun h => h p rfl (Nat.not_lt.mp hshort)
        · rintro h p' ⟨⟩ -
          exact h
      rw [hbound, isCharBoundary]
      cases splitAt name (byteLen p) with
      | none | some => simp

theorem trySynth_ne_slice_iff : trySynth fam name c ≠ .error .slice
    ↔ PrefixSliceable name c.pfx := by
  rw [trySynth, bind_ne_error_iff, stripPrefix_ne_slice_iff, and_iff_left_iff_imp]
  intro _ tail _
  repeat' split
  all_goals rintro ⟨⟩

/-- Behind conditional domains that give no address, the prefix of the next one ends on a boundary.
-/
def SynthSliceable (fam : Family A) (name : Str) (domains : List CondDomain) : Prop :=
  ∀ pre c post, domains = pre ++ c :: post →
    (∀ d ∈ pre, fam.skip d ∨ trySynth fam name d = .ok none) → fam.skip c = false →
      PrefixSliceable name c.pfx

theorem synthesize_ne_slice_iff : synthesize fam name domains ≠ .error .slice
    ↔ SynthSliceable fam name domains := by
  have hnone : ∀ d, (if fam.skip d then .ok none else trySynth fam name d) = .ok none ↔
      fam.skip d ∨ trySynth fam name d = .ok none := by
    intro d
    split_ifs with hskip
    · exact iff_of_true rfl (.inl hskip)
    · rw [or_iff_right hskip]
  rw [synthesize, findFirst_ne_error_iff]
  simp only [hnone, SynthSliceable]
  refine forall_congr' fun pre => forall_congr' fun c => forall_congr' fun post => imp_congr_right
    fun _ => imp_congr_right fun _ => ?_
  split_ifs with hskip
  · exact iff_of_true nofun fun h => absurd (hskip.symm.trans h) (by decide)
  · rw [trySynth_ne_slice_iff]
    exact ⟨fun h _ => h, fun h => h (Bool.eq_false_iff.mpr hskip)⟩

end DnsmasqRs.Domain
