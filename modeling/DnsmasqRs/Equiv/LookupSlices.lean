import DnsmasqRs.DomainMatch
import DnsmasqRs.Lib.Fallible

/-!
# Where the server lookup slices

`ServerArray::lookup` takes the rest of the name from every position that its outer loop visits, and
slices nowhere else.  `lookup_ne_slice_iff` says that it panics on a slice exactly if one of these
positions is off a character boundary.
-/

namespace DnsmasqRs.DomainMatch

open Utf8 BinarySearch Fallible

/-! ### No other slices -/

theorem findIn_ne_slice : findIn entries p lo hi ≠ .error .slice := by
  fun_induction findIn entries p lo hi with
  | case1 | case2 | case4 => nofun
  | case3 lo hlt e he hp ih => exact ih

theorem narrow_ne_slice (entries : List ServerEntry) (flags : UInt32) (hi : ℕ)
    (ks : List (ServFlags × Bool)) (lo : ℕ) : narrow entries flags hi ks lo ≠ .error .slice := by
  induction ks generalizing lo with
  | nil =>
    unfold narrow
    repeat' split
    all_goals nofun
  | cons k ks ih =>
    rw [narrow, bind_ne_error_iff]
    refine ⟨findIn_ne_slice, fun i _ => ?_⟩
    dsimp only
    split
    · nofun
    · exact ih _

namespace ServerArray

variable {arr : ServerArray} {domain : Str}

theorem filterServers_ne_slice : arr.filterServers seed flags ≠ .error .slice := by
  unfold filterServers
  split
  · nofun
  · split
    · rw [bind_ne_error_iff]
      exact ⟨findIn_ne_slice, nofun⟩
    · exact narrow_ne_slice _ _ _ _ _

theorem hitRange_ne_slice : arr.hitRange domain qdomain start found flags ≠ .error .slice := by
  unfold hitRange
  dsimp only
  repeat' split
  all_goals first | exact filterServers_ne_slice | rintro ⟨⟩

theorem cropQuery_ne_slice : arr.cropQuery qlen outcome ≠ .error .slice := by
  unfold cropQuery
  repeat' split
  all_goals rintro ⟨⟩

theorem goOn_ne_slice : arr.goOn domain start low flags crop ≠ .error .slice := by
  rw [goOn, advance]
  split_ifs
  all_goals nofun

theorem lookupStep_ne_slice_iff (arr : ServerArray) (domain : Str) (c : Cursor) :
    arr.lookupStep domain c ≠ .error .slice ↔ isCharBoundary domain c.start := by
  rw [← isSome_sliceFrom]
  unfold lookupStep
  cases sliceFrom domain c.start with
  | none => simp
  | some qdomain =>
    refine iff_of_true ?_ rfl
    dsimp only
    split
    · rintro ⟨⟩
    · split
      · next fault hfault =>
        rintro ⟨⟩
        exact hitRange_ne_slice hfault
      · exact goOn_ne_slice
      · split
        · rintro ⟨⟩
        · split
          · exact goOn_ne_slice
          · rintro ⟨⟩
    · split
      · next outcome low _ _ fault hfault =>
        rintro ⟨⟩
        exact cropQuery_ne_slice hfault
      · exact goOn_ne_slice

/-- The cursors that the loop gets to. -/
inductive Visits (arr : ServerArray) (domain : Str) : Cursor → Cursor → Prop where
  | here {c : Cursor} (hstart : c.start ≤ byteLen domain) : Visits arr domain c c
  | later {c c' c'' : Cursor} (hstart : c.start ≤ byteLen domain)
      (hstep : arr.lookupStep domain c = .ok (.inr c')) (hlater : Visits arr domain c' c'') :
      Visits arr domain c c''

/-- Where a turn leads nowhere else, only its own cursor is visited. -/
theorem visits_iff_of_stop (hstart : c.start ≤ byteLen domain)
    (hstop : ∀ c', arr.lookupStep domain c ≠ .ok (.inr c')) : Visits arr domain c c' ↔ c' = c := by
  constructor
  · intro h
    cases h with
    | here _ => rfl
    | later _ hstep _ => exact absurd hstep (hstop _)
  · rintro rfl
    exact .here hstart

theorem visits_iff_of_step (hstart : c.start ≤ byteLen domain)
    (hstep : arr.lookupStep domain c = .ok (.inr c₁)) :
    Visits arr domain c c' ↔ c' = c ∨ Visits arr domain c₁ c' := by
  constructor
  · intro h
    cases h with
    | here _ => exact .inl rfl
    | later _ hstep' hlater =>
      rw [hstep] at hstep'
      cases hstep'
      exact .inr hlater
  · rintro (rfl | h)
    · exact .here hstart
    · exact .later hstart hstep h

theorem lookupLoop_ne_slice_iff :
    arr.lookupLoop domain c ≠ .error .slice
      ↔ ∀ c', Visits arr domain c c' → isCharBoundary domain c'.start := by
  fun_induction lookupLoop arr domain c with
  | case1 c hend =>
    refine iff_of_true nofun fun c' hvisits => ?_
    cases hvisits <;> omega
  | case2 c hin fault hstep =>
    have hiff := lookupStep_ne_slice_iff arr domain c
    rw [hstep] at hiff
    simp only [visits_iff_of_stop (Nat.not_lt.mp hin) (by rw [hstep]; nofun), forall_eq, ← hiff]
    simp
  | case3 c hin range hstep =>
    refine iff_of_true nofun fun c' hvisits => ?_
    rw [visits_iff_of_stop (Nat.not_lt.mp hin) (by rw [hstep]; nofun)] at hvisits
    rw [hvisits, ← lookupStep_ne_slice_iff, hstep]
    nofun
  | case4 c hin c₁ hstep ih =>
    have hhere : isCharBoundary domain c.start := by
      rw [← lookupStep_ne_slice_iff, hstep]
      nofun
    simp only [ih, visits_iff_of_step (Nat.not_lt.mp hin) hstep, or_imp, forall_and, forall_eq,
      hhere, true_and]

theorem nodotsFallback_ne_slice : arr.nodotsFallback found flags ≠ .error .slice := by
  unfold nodotsFallback
  split
  · split
    · next fault hfault =>
      unfold nothingBetter at hfault
      repeat' split at hfault
      all_goals cases hfault
      rintro ⟨⟩
    · rw [map_ne_error_iff]
      exact filterServers_ne_slice
    · rintro ⟨⟩
  · rintro ⟨⟩

/-- Every position that the lookup of a name gets to is a character boundary. -/
def LookupSliceable (arr : ServerArray) (domain : Str) (flags : UInt32) : Prop :=
  arr.entries ≠ [] → ∀ c, Visits arr (zoneName domain flags) ⟨0, 0, flags⟩ c →
    isCharBoundary (zoneName domain flags) c.start

theorem lookup_ne_slice_iff : arr.lookup domain flags ≠ .error .slice
    ↔ arr.LookupSliceable domain flags := by
  unfold lookup LookupSliceable
  split_ifs with hempty
  · exact iff_of_true nofun fun h => absurd hempty h
  · rw [bind_ne_error_iff, lookupLoop_ne_slice_iff, and_iff_left]
    · exact ⟨fun h _ => h, fun h => h hempty⟩
    · intro r _
      dsimp only
      split
      · exact nodotsFallback_ne_slice
      · nofun

end ServerArray

end DnsmasqRs.DomainMatch
