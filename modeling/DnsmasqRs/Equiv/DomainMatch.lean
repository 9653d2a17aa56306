import DnsmasqRs.Equiv.SuffixSearch

/-!
# The server lookup is a search through the suffixes

The loop of `lookup` bisects for one suffix after the other, with the lower bound carried between
them.  `lookupStep_spec` says what one turn can do, and `lookupLoop_eq` that the loop computes
`naiveFrom`, except on an array that is `stuck`.  So `lookup` is the naive search exactly if the
search finds a range or the array is not stuck (`lookup_eq_naiveLookup_iff`).
-/

namespace DnsmasqRs.DomainMatch

open Utf8 BinarySearch List Option

namespace ServerArray

variable {arr : ServerArray} {i found : ℕ} {flags : UInt32}

/-! ### ASCII names -/

section Ascii

variable {domain : Str} (hascii : isAscii domain = true)

include hascii

theorem getElem?_bytes_eq_dot : (bytes domain)[i]? = some 0x2E ↔ domain[i]? = some '.' := by
  have hdot : isAsciiChar '.' := by decide
  exact getElem?_bytes_of_ascii hascii hdot

theorem atBoundary_eq_atLabel : atBoundary domain start = atLabel domain start := by
  unfold atBoundary atLabel
  rw [byteLen_of_ascii hascii]
  congr 1
  rw [Bool.eq_iff_iff, beq_iff_eq, beq_iff_eq]
  exact getElem?_bytes_eq_dot hascii

/-- The range of the group that was hit is the one of the suffix. -/
theorem hitRange_eq (hfound : arr.test (domain.drop start) found = .eq)
    (hpos : arr.hasWildcard = false → atLabel domain start) :
    arr.hitRange domain (domain.drop start) start found flags
      = .ok (arr.suffixRange domain start flags) := by
  unfold hitRange suffixRange
  rw [atBoundary_eq_atLabel hascii]
  generalize domain.drop start = q at *
  cases hwild : arr.hasWildcard with
  | false =>
    rw [hpos hwild]
    exact filterServers_of_test hfound
  | true =>
    have hprobe : ∀ k, k < arr.entries.length →
      ((arr.probe q k == some .eq) ↔ arr.test q k = .eq) := by
      intro k hk
      rw [probe_eq hk, beq_iff_eq, some.injEq]
    have hn := lt_of_test_eq hfound
    -- backing up stays in the group
    obtain ⟨first, hfirst⟩ :
      ∃ first, first = backWhile (fun i => arr.probe q i == some .eq) found := ⟨_, rfl⟩
    have hle : first ≤ found := by rw [hfirst]; exact backWhile_le _ _
    have htest : arr.test q first = .eq := by
      rcases Nat.eq_or_lt_of_le hle with heq | hlt
      · rw [heq, hfound]
      · exact (hprobe first (by omega)).mp (of_backWhile_le hfirst.ge hlt)
    simp only [if_true, ← hfirst, Bool.true_and]
    cases hlabel : atLabel domain start with
    | true => simpa using filterServers_of_test htest
    | false =>
      -- and so does going forward, up to the last entry of the group
      obtain ⟨hle', hlt', hall, hend⟩ :=
        forwardWhile_spec (fun i => arr.probe q (i + 1) == some .eq) (lt_of_test_eq htest)
      generalize forwardWhile (fun i => arr.probe q (i + 1) == some .eq) arr.entries.length first
        = last at *
      have hlast : arr.test q last = .eq := by
        rcases Nat.eq_or_lt_of_le hle' with heq | hlt
        · rw [← heq, htest]
        · obtain ⟨k, rfl⟩ : ∃ k, last = k + 1 := ⟨last - 1, by omega⟩
          exact (hprobe (k + 1) hlt').mp (hall k (by omega) (by omega))
      have hgetLast := getLast?_filter_of_test hlast fun hlt heq => by
        have := hend hlt
        rw [(hprobe _ hlt).mpr heq] at this
        cases this
      rw [hgetLast, getElem?_eq_getElem hlt']
      cases hw : (arr.entries[last]).isWildcard with
      | false => simp [hw]
      | true => simpa [hw] using filterServers_of_test hlast

/-! ### Moving on -/

omit hascii in
theorem suffixRange_of_noMatch (h : ∀ e ∈ arr.entries, matchesName (domain.drop i) e = false) :
    arr.suffixRange domain i flags = none := by
  have hnone : arr.entries.findIdx? (matchesName (domain.drop i)) = none :=
    findIdx?_eq_none_iff.mpr h
  unfold suffixRange
  simp only [hnone, bind_none, ite_self]

omit hascii in
theorem suffixRange_of_not_atLabel (hwild : arr.hasWildcard = false)
    (hlabel : atLabel domain i = false) :
    arr.suffixRange domain i flags = none := by
  unfold suffixRange
  simp [hwild, hlabel]

theorem nextLabel_spec (start : ℕ) (hpos : 0 < start) :
    (∀ k, start ≤ k → k < nextLabel domain start → atLabel domain k = false)
      ∧ (start ≤ domain.length →
        nextLabel domain start ≤ domain.length ∧ atLabel domain (nextLabel domain start))
      ∧ (domain.length < start → nextLabel domain start = start) := by
  fun_induction nextLabel domain start with
  | case1 start h ih =>
    obtain ⟨hlt, -, hdot⟩ := h
    rw [byteLen_of_ascii hascii] at hlt
    obtain ⟨hall, hin, -⟩ := ih (by omega)
    refine ⟨?_, fun _ => hin hlt, fun _ => by omega⟩
    intro k hk hkn
    rcases Nat.eq_or_lt_of_le hk with rfl | hk
    · have hdot' : domain[start - 1]? ≠ some '.' :=
        fun h => hdot ((getElem?_bytes_eq_dot hascii).mpr h)
      simp [atLabel, hdot', hpos.ne', hlt.ne]
    · exact hall k hk hkn
  | case2 start h =>
    refine ⟨fun k hk hkn => absurd hk (by omega), fun hle => ⟨hle, ?_⟩, fun _ => rfl⟩
    rcases Nat.eq_or_lt_of_le hle with heq | hlt
    · simp [atLabel, heq]
    · have hdot : (bytes domain)[start - 1]? = some 0x2E := by
        by_contra hdot
        exact h ⟨by rw [byteLen_of_ascii hascii]; exact hlt, hpos, hdot⟩
      simp [atLabel, (getElem?_bytes_eq_dot hascii).mp hdot]

/-- The state in which the loop reaches a position. -/
structure Ready (arr : ServerArray) (domain : Str) (start low : ℕ) : Prop where
  low : start ≤ domain.length → LowerBound (arr.test (domain.drop start)) arr.entries.length low
  label : start ≤ domain.length → arr.hasWildcard = false → atLabel domain start
  past : domain.length < start → arr.stuck = false

theorem lowerBound_of_lt (hlt : start < start') (hle : start' ≤ domain.length)
    (h : LowerBound (arr.test (domain.drop start)) arr.entries.length low) :
    LowerBound (arr.test (domain.drop start')) arr.entries.length low := by
  refine ⟨h.1, ?_⟩
  rcases h.2 with hzero | hgt
  · exact .inl hzero
  · right
    have he := getElem?_eq_getElem h.1
    rw [test_eq he] at hgt ⊢
    obtain ⟨hnd, hlen⟩ := domainLen_of_orderEntry_gt hgt
    apply orderEntry_of_shorter hnd
    rw [byteLen_of_ascii (isAscii_drop hascii), length_drop] at hlen ⊢
    omega

variable {crop : ℤ}

omit hascii in
theorem advance_of_nonneg (hcrop : 0 ≤ crop) :
    arr.advance domain start crop = .ok (if arr.hasWildcard then start + max crop.toNat 1
      else nextLabel domain (start + max crop.toNat 1)) := by
  unfold advance
  by_cases hzero : crop = 0
  · subst hzero
    rfl
  · have hmax : max crop.toNat 1 = crop.toNat := by omega
    simp only [hzero, if_false, hmax]
    rw [if_neg (by omega)]

theorem goOn_spec (hcrop : 0 ≤ crop)
    (hlow : LowerBound (arr.test (domain.drop start)) arr.entries.length low)
    (hpast : domain.length < start + max crop.toNat 1 → arr.stuck = false) :
    ∃ start', arr.goOn domain start low flags crop = .ok (.inr ⟨start', low, flags⟩)
      ∧ start + max crop.toNat 1 ≤ start' ∧ Ready arr domain start' low
      ∧ (∀ k, start + max crop.toNat 1 ≤ k → k < start' → arr.suffixRange domain k flags = none)
      ∧ (domain.length ≤ start + max crop.toNat 1 → start' = start + max crop.toNat 1) := by
  unfold goOn
  rw [advance_of_nonneg hcrop]
  have hlt : start < start + max crop.toNat 1 := by omega
  generalize start + max crop.toNat 1 = next at *
  cases hwild : arr.hasWildcard with
  | true =>
    refine ⟨next, rfl, le_rfl, ⟨?_, ?_, hpast⟩, fun k hk hkn => absurd hk (by omega), fun _ => rfl⟩
    · exact fun hle => lowerBound_of_lt hascii hlt hle hlow
    · intro _ hfalse
      rw [hwild] at hfalse
      cases hfalse
  | false =>
    obtain ⟨hall, hin, hout⟩ := nextLabel_spec hascii next (by omega)
    have hge := le_nextLabel domain next
    refine ⟨nextLabel domain next, rfl, hge, ⟨?_, ?_, ?_⟩, ?_, ?_⟩
    · exact fun hle => lowerBound_of_lt hascii (hlt.trans_le hge) hle hlow
    · exact fun hle _ => (hin (by omega)).2
    · intro hlt
      apply hpast
      by_contra hle
      omega
    · exact fun k hk hkn => suffixRange_of_not_atLabel hwild (hall k hk hkn)
    · intro hle
      rcases Nat.eq_or_lt_of_le hle with heq | hlt
      · omega
      · exact hout hlt

/-! ### One turn of the loop -/

/-- What one turn of the loop can do. -/
inductive StepSpec (arr : ServerArray) (domain : Str) (c : Cursor) :
    Except Fault ((ℕ × ℕ) ⊕ Cursor) → Prop
  | found {range : ℕ × ℕ} (hrange : arr.suffixRange domain c.start c.flags = some range)
      (hresolv : arr.usesResolv range = false) : StepSpec arr domain c (.ok (.inl range))
  | resolv {range : ℕ × ℕ} {low : ℕ} (hrange : arr.suffixRange domain c.start c.flags = some range)
      (hresolv : arr.usesResolv range)
      (hready : Ready arr domain (max (c.start + 1) domain.length) low) :
      StepSpec arr domain c (.ok (.inr ⟨max (c.start + 1) domain.length, low, c.flags ||| fServer⟩))
  | skip {start low : ℕ} (hlt : c.start < start)
      (hnone : ∀ k, c.start ≤ k → k < start → arr.suffixRange domain k c.flags = none)
      (hready : Ready arr domain start low) :
      StepSpec arr domain c (.ok (.inr ⟨start, low, c.flags⟩))
  | stuck (hstuck : arr.stuck)
      (hnone : ∀ k, c.start ≤ k → k ≤ domain.length → arr.suffixRange domain k c.flags = none) :
      StepSpec arr domain c (.error .overflow)

/-- The suffixes at the lengths that a crop skips have no group. -/
theorem CropSpec.suffixRange_eq_none
    (h : CropSpec arr (domain.drop start) crop) (hk : start ≤ k) (hkn : k ≤ domain.length)
    (hskip : crop < 0 ∨ k < start + max crop.toNat 1) : arr.suffixRange domain k flags = none := by
  apply suffixRange_of_noMatch
  rcases Nat.eq_or_lt_of_le hk with rfl | hlt
  · exact h.noMatch
  · intro e he
    rw [Bool.eq_false_iff]
    intro hmatch
    obtain ⟨hnd, hlen⟩ := domainLen_of_matchesName hmatch
    have hgap := h.gap e he hnd
    have hneg := h.neg
    rw [byteLen_of_ascii (isAscii_drop hascii), length_drop] at hlen hgap hneg
    rcases hskip with hskip | hskip
    · have := (hneg hskip).2 e he hnd
      omega
    · omega

omit hascii in
theorem advance_of_neg (hcrop : crop < 0) : arr.advance domain start crop = .error .overflow := by
  unfold advance
  simp only [hcrop.ne, if_false]
  rw [if_pos hcrop]

theorem stepSpec_of_crop (hstart : c.start ≤ domain.length)
    (h : CropSpec arr (domain.drop c.start) crop)
    (hlow : LowerBound (arr.test (domain.drop c.start)) arr.entries.length low) :
    StepSpec arr domain c (arr.goOn domain c.start low c.flags crop) := by
  by_cases hneg : crop < 0
  · rw [goOn, advance_of_neg hneg]
    refine .stuck (h.neg hneg).1 ?_
    intro k hk hkn
    exact h.suffixRange_eq_none hascii hk hkn (.inl hneg)
  · have hcrop := h.le
    have hdone := h.done
    rw [byteLen_of_ascii (isAscii_drop hascii), length_drop] at hcrop hdone
    have hpast : domain.length < c.start + max crop.toNat 1 → arr.stuck = false := by
      intro hlt
      exact hdone (by omega) (by omega)
    obtain ⟨next, hgo, hle, hready, hnone, hend⟩ := goOn_spec hascii (by omega) hlow hpast
    rw [hgo]
    refine .skip (by omega) ?_ hready
    intro k hk hkn
    by_cases hskip : k < c.start + max crop.toNat 1
    · exact h.suffixRange_eq_none hascii hk (by omega) (.inr hskip)
    · exact hnone k (by omega) hkn

omit hascii in
theorem lt_of_suffixRange {range : ℕ × ℕ} (h : arr.suffixRange domain i flags = some range) :
    range.1 < arr.entries.length := by
  unfold suffixRange at h
  dsimp only at h
  split_ifs at h
  obtain ⟨seed, hseed, h⟩ := bind_eq_some_iff.mp h
  obtain ⟨r, hr, hlt⟩ := filterServers_ok (findIdx?_eq_some_iff_getElem.mp hseed).1 flags
  rw [hr] at h
  exact hlt range.1 range.2 h

theorem stepSpec_of_hit (hstart : c.start ≤ domain.length)
    (hfound : arr.test (domain.drop c.start) found = .eq)
    (hlow : LowerBound (arr.test (domain.drop c.start)) arr.entries.length low)
    (hr : r = match arr.suffixRange domain c.start c.flags with
      | none => arr.goOn domain c.start low c.flags 1
      | some range =>
        if arr.usesResolv range then
          arr.goOn domain c.start low (c.flags ||| fServer) (byteLen (domain.drop c.start))
        else .ok (.inl range)) : StepSpec arr domain c r := by
  -- a hit at the end is a catch-all
  have hpast : domain.length < c.start + 1 → arr.stuck = false := by
    intro hlt
    obtain ⟨e, he, hmatch⟩ := matchesName_of_test hfound
    obtain ⟨hnd, hlen⟩ := domainLen_of_matchesName hmatch
    rw [drop_of_length_le (by omega)] at hlen
    exact stuck_of_empty (mem_of_getElem? he) hnd hlen
  cases hrange : arr.suffixRange domain c.start c.flags with
  | none =>
    rw [hrange] at hr
    obtain ⟨next, hgo, hle, hready, hnone, -⟩ :=
      goOn_spec hascii (show (0 : ℤ) ≤ 1 by decide) hlow hpast
    rw [hr, hgo]
    refine .skip hle ?_ hready
    intro k hk hkn
    rcases Nat.eq_or_lt_of_le hk with rfl | hk
    · exact hrange
    · exact hnone k hk hkn
  | some range =>
    rw [hrange] at hr
    cases hresolv : arr.usesResolv range with
    | false =>
      simp only [hresolv] at hr
      rw [hr]
      exact .found hrange hresolv
    | true =>
      simp only [hresolv, if_true] at hr
      have hqlen : byteLen (domain.drop c.start) = domain.length - c.start := by
        rw [byteLen_of_ascii (isAscii_drop hascii), length_drop]
      have hnext :
          c.start + max ((byteLen (domain.drop c.start) : ℤ)).toNat 1
            = max (c.start + 1) domain.length := by
        omega
      obtain ⟨next, hgo, -, hready, -, hend⟩ := goOn_spec hascii (Int.natCast_nonneg _) hlow
        (by rw [hnext]; exact fun hlt => hpast (by omega))
      rw [hnext] at hend
      rw [hend (Nat.le_max_right _ _)] at hgo hready
      rw [hr, hgo]
      exact .resolv hrange hresolv hready

/-- **One turn** of the loop. -/
theorem lookupStep_spec (hn : 0 < arr.entries.length) {c : Cursor}
    (hstart : c.start ≤ domain.length) (hready : Ready arr domain c.start c.low) :
    StepSpec arr domain c (arr.lookupStep domain c) := by
  have hprobe : ∀ i < arr.entries.length, arr.probe (domain.drop c.start) i
      = some (arr.test (domain.drop c.start) i) := fun i hi => probe_eq hi
  have hlow := hready.low hstart
  obtain ⟨o, low, hbisect, ho, hlow'⟩ :=
    bisect_spec hprobe (arr.descending) hlow hlow.1.le (.inl rfl)
  unfold lookupStep
  rw [sliceFrom_of_ascii hascii hstart]
  dsimp only
  rw [hbisect]
  cases o with
  | hit found =>
    apply stepSpec_of_hit hascii hstart ho.2 hlow'
    dsimp only
    rw [hitRange_eq hascii ho.2 (hready.label hstart)]
    cases hrange : arr.suffixRange domain c.start c.flags with
    | none => rfl
    | some range =>
      have he := getElem?_eq_getElem (lt_of_suffixRange hrange)
      simp only [he, usesResolv, any_some]
  | below | above =>
    obtain ⟨crop, hcrop, hspec⟩ := cropQuery_spec ho (by simp) hn
    dsimp only
    rw [hcrop]
    exact stepSpec_of_crop hascii hstart hspec hlow'

/-! ### The loop -/

omit hascii in
theorem naiveFrom_of_gt (h : domain.length < i) : arr.naiveFrom domain i flags = (none, flags) := by
  unfold naiveFrom
  rw [if_neg (by omega)]

omit hascii in
theorem naiveFrom_skip (hij : i ≤ j)
    (h : ∀ k, i ≤ k → k < j → k ≤ domain.length → arr.suffixRange domain k flags = none) :
    arr.naiveFrom domain i flags = arr.naiveFrom domain j flags := by
  induction j, hij using Nat.le_induction with
  | base => rfl
  | succ j hij ih =>
    rw [ih fun k hik hkj => h k hik (Nat.lt_succ_of_lt hkj)]
    by_cases hj : j ≤ domain.length
    · rw [naiveFrom, if_pos hj, h j hij j.lt_succ_self hj]
    · rw [naiveFrom_of_gt (by omega), naiveFrom_of_gt (by omega)]

/-- **The loop** computes the naive search, unless that finds nothing and the array is stuck. -/
theorem lookupLoop_eq (hn : 0 < arr.entries.length) (hready : Ready arr domain c.start c.low) :
    arr.lookupLoop domain c = if (arr.naiveFrom domain c.start c.flags).1 = none
      ∧ arr.stuck then .error .overflow
      else .ok (arr.naiveFrom domain c.start c.flags) := by
  fun_induction lookupLoop arr domain c with
  | case1 c hlt =>
    rw [byteLen_of_ascii hascii] at hlt
    rw [naiveFrom_of_gt hlt, if_neg (by simp [hready.past hlt])]
  | case2 c hle fault hstep =>
    rw [byteLen_of_ascii hascii] at hle
    have hspec := lookupStep_spec hascii hn (Nat.le_of_not_lt hle) hready
    rw [hstep] at hspec
    cases hspec with
    | stuck hstuck hnone =>
      have hnaive : arr.naiveFrom domain c.start c.flags = (none, c.flags) := by
        rw [naiveFrom_skip (j := domain.length + 1) (by omega) fun k hk _ hkn => hnone k hk hkn,
          naiveFrom_of_gt (by omega)]
      rw [hnaive, if_pos ⟨rfl, hstuck⟩]
  | case3 c hle range hstep =>
    rw [byteLen_of_ascii hascii] at hle
    have hspec := lookupStep_spec hascii hn (Nat.le_of_not_lt hle) hready
    rw [hstep] at hspec
    cases hspec with
    | found hrange hresolv =>
      have hnaive : arr.naiveFrom domain c.start c.flags = (some range, c.flags) := by
        rw [naiveFrom, if_pos (Nat.le_of_not_lt hle), hrange]
        simp only [hresolv, Bool.false_eq_true, if_false]
      rw [hnaive]
      simp
  | case4 c hle c' hstep ih =>
    rw [byteLen_of_ascii hascii] at hle
    have hspec := lookupStep_spec hascii hn (Nat.le_of_not_lt hle) hready
    rw [hstep] at hspec
    cases hspec with
    | resolv hrange hresolv hready' =>
      have hnaive : arr.naiveFrom domain c.start c.flags
          = arr.naiveFrom domain (max (c.start + 1) domain.length) (c.flags ||| fServer) := by
        rw [naiveFrom, if_pos (Nat.le_of_not_lt hle), hrange]
        simp only [hresolv, if_true]
        split_ifs with hlt
        · rw [Nat.max_eq_right hlt]
        · rw [naiveFrom_of_gt (by omega)]
      rw [hnaive]
      exact ih hready'
    | skip hlt hnone hready' =>
      rw [naiveFrom_skip hlt.le fun k hk hkn _ => hnone k hk hkn]
      exact ih hready'

/-! ### The lookup -/

omit hascii in
theorem naiveFrom_lt {range : ℕ × ℕ} (h : (arr.naiveFrom domain i flags).1 = some range) :
    range.1 < arr.entries.length := by
  fun_induction naiveFrom arr domain i flags with
  | case1 i flags hi hnone ih | case2 i flags hi range' hrange hresolv hlt ih => exact ih h
  | case3 | case5 => cases h
  | case4 i flags hi range' hrange hresolv =>
    cases h
    exact lt_of_suffixRange hrange

omit hascii in
theorem nodotsFallback_ok {found : Option (ℕ × ℕ)}
    (h : ∀ range, found = some range → range.1 < arr.entries.length) (flags : UInt32) :
    arr.nodotsFallback found flags = .ok (arr.nodotsFallback found flags).toOption.join := by
  obtain ⟨b, hb⟩ : ∃ b, arr.nothingBetter found = .ok b := by
    cases found with
    | none => exact ⟨true, rfl⟩
    | some range =>
      unfold nothingBetter
      simp [getElem?_eq_getElem (h range rfl)]
  unfold nodotsFallback
  rw [hb]
  cases hlast : arr.entries.getLast? with
  | none => rfl
  | some last =>
    have hn := length_pos_of_mem (mem_of_getLast? hlast)
    obtain ⟨r, hr, -⟩ := filterServers_ok (Nat.sub_lt hn Nat.one_pos) flags
    rw [hr]
    cases b <;> split_ifs <;> rfl

theorem isAscii_zoneName : isAscii (zoneName domain flags) := by
  unfold zoneName parentZone
  split_ifs
  · rw [isAscii, List.all_eq_true] at hascii ⊢
    intro c hc
    exact hascii c ((dropWhile_sublist _).mem (mem_of_mem_tail hc))
  · exact hascii

/-- The lookup is the naive search, or gets stuck. -/
theorem lookup_eq (arr : ServerArray) (flags : UInt32) : arr.lookup domain flags =
      if (arr.naiveFrom (zoneName domain flags) 0 flags).1 = none ∧ arr.stuck then .error .overflow
      else .ok (arr.naiveLookup domain flags) := by
  have hlt : ∀ range, (arr.naiveFrom (zoneName domain flags) 0 flags).1 = some range →
      range.1 < arr.entries.length := fun _ => naiveFrom_lt
  have hfallback := nodotsFallback_ok hlt (arr.naiveFrom (zoneName domain flags) 0 flags).2
  unfold lookup naiveLookup
  by_cases hempty : arr.entries = []
  · have hnone : (arr.naiveFrom (zoneName domain flags) 0 flags).1 = none := by
      rw [eq_none_iff_forall_ne_some]
      intro range h
      have := hlt range h
      simp [hempty] at this
    have hstuck : arr.stuck = false := by simp [stuck, stuckLen, hempty]
    have hfallback' : (arr.nodotsFallback none (arr.naiveFrom (zoneName domain flags) 0 flags).2)
        = .ok none := by simp [nodotsFallback, hempty]
    simp only [hempty, hstuck, hnone, hfallback', if_true]
    simp [Except.toOption]
  · have hn := length_pos_of_ne_nil hempty
    have hready : Ready arr (zoneName domain flags) 0 0 :=
      ⟨fun _ => ⟨hn, .inl rfl⟩, fun _ _ => rfl, fun h => absurd h (by omega)⟩
    have hloop := lookupLoop_eq (isAscii_zoneName hascii) hn (c := ⟨0, 0, flags⟩) hready
    rw [if_neg hempty]
    dsimp only at hloop ⊢
    rw [hloop]
    by_cases hfail : (arr.naiveFrom (zoneName domain flags) 0 flags).1 = none ∧ arr.stuck
    · rw [if_pos hfail, if_pos hfail]
      rfl
    · split_ifs with hsingle
      · exact hfallback
      · rfl

end Ascii

/-- **The lookup refines the naive search** through the suffixes of an ASCII name exactly if the
search finds a range or the array is not stuck; otherwise it fails. -/
theorem lookup_eq_naiveLookup_iff (servers localDomains : List Server) {domain : Str}
    (hascii : isAscii domain = true) (flags : UInt32) :
    (build servers localDomains).lookup domain flags
        = .ok ((build servers localDomains).naiveLookup domain flags)
      ↔ ((build servers localDomains).naiveFrom (zoneName domain flags) 0 flags).1 ≠ none
        ∨ (build servers localDomains).stuck = false := by
  rw [lookup_eq hascii]
  split_ifs with h
  · simp [h]
  · simp only [true_iff]
    by_contra hnot
    rw [not_or, not_not, Bool.not_eq_false] at hnot
    exact h hnot

/-- A server with some address. -/
def sampleServer (flags : ServFlags) (domain : Str) : Server :=
  { flags, domain, addr := .v4 .unspecified }

/-- A catch-all and a server for `com`: the query for `x.com` finds the latter. -/
theorem lookup_com :
    (build [sampleServer 0 [], sampleServer 0 ['c', 'o', 'm']] []).lookup
    ['x', '.', 'c', 'o', 'm'] 0
      = .ok ((build [sampleServer 0 [], sampleServer 0 ['c', 'o', 'm']] []).naiveLookup ['x', '.',
        'c', 'o', 'm'] 0) :=
  (lookup_eq_naiveLookup_iff _ _ (by decide) 0).mpr (.inr (by decide +kernel))

/-- A `NODOTS` server with a domain, alone: the query for `x` should go to it, and fails. -/
theorem lookup_overflow :
    (build [sampleServer .forNodots ['a', 'b', 'c']] []).lookup ['x'] 0 = .error .overflow
      ∧ (build [sampleServer .forNodots ['a', 'b', 'c']] []).naiveLookup ['x'] 0 = some (0, 1) := by
  decide +kernel

end ServerArray

end DnsmasqRs.DomainMatch
