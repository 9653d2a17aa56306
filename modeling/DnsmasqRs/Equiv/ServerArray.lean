import DnsmasqRs.DomainMatch

/-!
# Groups of server entries

The entries of a domain stand next to each other in the sorted array, so that a name is compared
with them in the order behind, equal, before (`descending`).  Whichever entry of a group a search
ends at, `filter_servers` gives the same range (`filterServers_congr`), and it never leaves the
array (`filterServers_ok`).
-/

namespace DnsmasqRs.DomainMatch

open Utf8 BinarySearch List

/-! ### Comparing a name with an entry -/

/-- The entry is one of the group of the domain `q`. -/
def matchesName (q : Str) (e : ServerEntry) : Bool := !e.isNodots && eqIgnoreAsciiCase q e.domain

variable {q : Str} {e : ServerEntry}

/-- An entry for a name, as a key for the order of the groups. -/
def ServerEntry.ofName (q : Str) : ServerEntry := ⟨q, 0, 0, 0, false⟩

theorem orderEntry_eq_groupOrder : orderEntry q e = groupOrder (.ofName q) e := by
  have hname : (ServerEntry.ofName q).isNodots = false := by
    show ServFlags.contains 0 .forNodots = false
    decide
  unfold orderEntry groupOrder compareLex compareOn
  rw [hname]
  cases e.isNodots with
  | true => rfl
  | false =>
    show _ = (compare e.domainLen (byteLen q)).then (hostnameOrder q e.domain)
    rcases Nat.lt_trichotomy (byteLen q) e.domainLen with hlt | heq | hgt
    · rw [Nat.compare_eq_gt.mpr hlt]
      simp [hlt]
    · simp [heq]
    · rw [Nat.compare_eq_lt.mpr hgt]
      simp [hgt, Nat.not_lt_of_gt hgt]

theorem orderEntry_eq_iff : orderEntry q e = .eq ↔ matchesName q e := by
  have hname : hostnameOrder q e.domain = .eq ↔ asciiLower q = asciiLower e.domain := by
    rw [hostnameOrder_eq_compare]
    exact Std.compare_eq_iff_eq
  rw [matchesName, Bool.and_eq_true, eqIgnoreAsciiCase_iff, ← hname, orderEntry]
  constructor
  · intro h
    split_ifs at h with hnd
    exact ⟨by simpa using hnd, h⟩
  · rintro ⟨hnd, h⟩
    have hlen := congrArg byteLen (hname.mp h)
    simp only [byteLen_asciiLower] at hlen
    rw [Bool.not_eq_true'] at hnd
    simp [ServerEntry.domainLen, hnd, hlen, h]

theorem domainLen_of_matchesName (h : matchesName q e) :
    e.isNodots = false ∧ e.domainLen = byteLen q := by
  obtain ⟨hnd, heq⟩ := (Bool.and_eq_true _ _).mp h
  have hlen := congrArg byteLen (eqIgnoreAsciiCase_iff.mp heq)
  simp only [byteLen_asciiLower] at hlen
  exact ⟨by simpa using hnd, hlen.symm⟩

theorem domainLen_of_orderEntry_gt (h : orderEntry q e = .gt) :
    e.isNodots = false ∧ byteLen q ≤ e.domainLen := by
  unfold orderEntry at h
  split_ifs at h with hnd hlt hgt
  · exact ⟨by simpa using hnd, hlt.le⟩
  · exact ⟨by simpa using hnd, Nat.le_of_not_lt hgt⟩

theorem domainLen_pos_of_orderEntry_gt (h : orderEntry q e = .gt) : 0 < e.domainLen := by
  apply Nat.pos_of_ne_zero
  intro hzero
  have hle := (domainLen_of_orderEntry_gt h).2
  -- both are empty, and equal then
  have hq : q = [] := byteLen_eq_zero.mp (by omega)
  have he : e.domain = [] := byteLen_eq_zero.mp hzero
  rw [orderEntry, ServerEntry.domainLen, hq, he, if_neg (Nat.lt_irrefl _)] at h
  split_ifs at h
  cases h

theorem domainLen_of_orderEntry_lt (h : orderEntry q e = .lt) (hnd : e.isNodots = false) :
    e.domainLen ≤ byteLen q := by
  rw [orderEntry, if_neg (by simp [hnd])] at h
  split_ifs at h with hlt hgt
  · exact hgt.le
  · exact Nat.le_of_not_lt hlt

theorem orderEntry_of_shorter (hnd : e.isNodots = false) (hlen : byteLen q < e.domainLen) :
    orderEntry q e = .gt := by
  unfold orderEntry
  simp [hnd, hlen]

/-! ### Walking over indices -/

section While

variable {p : ℕ → Bool} {n i j : ℕ}

theorem backWhile_le (p : ℕ → Bool) (i : ℕ) : backWhile p i ≤ i := by
  induction i with
  | zero => exact le_rfl
  | succ i ih =>
    unfold backWhile
    split_ifs
    · exact ih.trans i.le_succ
    · exact le_rfl

theorem of_backWhile_le (hi : backWhile p j ≤ i) (hij : i < j) : p i := by
  induction j with
  | zero => omega
  | succ j ih =>
    unfold backWhile at hi
    split_ifs at hi with hp
    · rcases Nat.eq_or_lt_of_le (Nat.le_of_lt_succ hij) with rfl | hlt
      · exact hp
      · exact ih hi hlt
    · omega

theorem backWhile_eq_of_forall (hij : i ≤ j) (h : ∀ k, i ≤ k → k < j → p k) :
    backWhile p j = backWhile p i := by
  induction j, hij using Nat.le_induction with
  | base => rfl
  | succ j hij ih =>
    rw [backWhile, if_pos (h j hij j.lt_succ_self)]
    exact ih fun k hik hkj => h k hik (Nat.lt_succ_of_lt hkj)

theorem forwardWhile_spec (p : ℕ → Bool) (hi : i < n) :
    i ≤ forwardWhile p n i ∧ forwardWhile p n i < n
      ∧ (∀ k, i ≤ k → k < forwardWhile p n i → p k)
      ∧ (forwardWhile p n i + 1 < n → p (forwardWhile p n i) = false) := by
  fun_induction forwardWhile p n i with
  | case1 i h ih =>
    obtain ⟨hle, hlt, hall, hend⟩ := ih h.1
    refine ⟨by omega, hlt, ?_, hend⟩
    intro k hik hk
    rcases Nat.eq_or_lt_of_le hik with rfl | hik
    · exact h.2
    · exact hall k hik hk
  | case2 i h =>
    refine ⟨le_rfl, hi, fun k hik hk => absurd hik (by omega), ?_⟩
    intro hlt
    simpa [hlt] using h

theorem forwardWhile_eq_of_forall (hij : i ≤ j) (hj : j < n)
    (h : ∀ k, i ≤ k → k < j → p k) : forwardWhile p n i = forwardWhile p n j := by
  induction j, hij using Nat.le_induction with
  | base => rfl
  | succ j hij ih =>
    rw [ih (by omega) fun k hik hkj => h k hik (Nat.lt_succ_of_lt hkj)]
    rw [forwardWhile.eq_def p n j, if_pos ⟨hj, h j hij j.lt_succ_self⟩]

end While

namespace ServerArray

variable {arr : ServerArray} {i j : ℕ} {flags : UInt32}

/-! ### Groups -/

/-- The comparison of the name with the entries, by index. -/
def test (arr : ServerArray) (q : Str) : ℕ → Ordering :=
  BinarySearch.test groupOrder (.ofName q) arr.entries

theorem test_eq (h : arr.entries[i]? = some e) : arr.test q i = orderEntry q e := by
  rw [orderEntry_eq_groupOrder]
  exact test_of_getElem? h

theorem probe_eq (hi : i < arr.entries.length) : arr.probe q i = some (arr.test q i) := by
  have he := getElem?_eq_getElem hi
  rw [test_eq he, probe, he, Option.map_some]

theorem descending : Descending (arr.test q) arr.entries.length :=
  descending_test arr.sorted

theorem lt_of_test_eq (h : arr.test q i = .eq) : i < arr.entries.length := by
  by_contra hi
  rw [test, BinarySearch.test, getElem?_eq_none (Nat.le_of_not_lt hi)] at h
  cases h

theorem test_eq_of_between (hi : arr.test q i = .eq) (hj : arr.test q j = .eq) (hik : i ≤ k)
    (hkj : k ≤ j) : arr.test q k = .eq := by
  have hjn := lt_of_test_eq hj
  cases hk : arr.test q k with
  | lt =>
    rw [(arr.descending).lt_of_le k j hkj hjn hk] at hj
    cases hj
  | eq => rfl
  | gt =>
    rw [(arr.descending).gt_of_le i k hik (by omega) hk] at hi
    cases hi

theorem sameGroup_of_test (hi : arr.test q i = .eq) (hj : arr.test q j = .eq) :
    arr.sameGroup i j := by
  have hei := getElem?_eq_getElem (lt_of_test_eq hi)
  have hej := getElem?_eq_getElem (lt_of_test_eq hj)
  rw [test_eq hei, orderEntry_eq_iff, matchesName, Bool.and_eq_true, eqIgnoreAsciiCase_iff] at hi
  rw [test_eq hej, orderEntry_eq_iff, matchesName, Bool.and_eq_true, eqIgnoreAsciiCase_iff] at hj
  unfold sameGroup
  rw [hei, hej]
  dsimp only
  rw [if_neg (by simpa using hi.1), beq_iff_eq, orderEntry_eq_iff, matchesName, Bool.and_eq_true,
    eqIgnoreAsciiCase_iff]
  exact ⟨hj.1, hi.2.symm.trans hj.2⟩

/-- A group has one range, whichever of its entries the search ends at. -/
theorem filterServers_congr (hi : arr.test q i = .eq) (hj : arr.test q j = .eq) :
    arr.filterServers i flags = arr.filterServers j flags := by
  wlog hij : i ≤ j generalizing i j
  · exact (this hj hi (by omega)).symm
  have hjn := lt_of_test_eq hj
  have hsame : ∀ k, i ≤ k → k < j → arr.sameGroup k (k + 1) := by
    intro k hik hkj
    exact sameGroup_of_test (test_eq_of_between hi hj hik hkj.le)
      (test_eq_of_between hi hj (by omega) hkj)
  have hi' : ¬ arr.entries.length ≤ i := by omega
  have hj' : ¬ arr.entries.length ≤ j := by omega
  unfold filterServers
  rw [if_neg hi', if_neg hj', backWhile_eq_of_forall hij hsame,
    forwardWhile_eq_of_forall hij hjn hsame]

/-! ### Ranges -/

theorem findIn_ok {entries : List ServerEntry} {hi : ℕ} (hhi : hi ≤ entries.length) :
    ∃ r, findIn entries p lo hi = .ok r ∧ ∀ i, r = some i → lo ≤ i ∧ i < hi := by
  fun_induction findIn entries p lo hi with
  | case1 lo hlt hnone =>
    rw [getElem?_eq_none_iff] at hnone
    omega
  | case2 lo hlt e he hp =>
    refine ⟨_, rfl, ?_⟩
    rintro i ⟨⟩
    exact ⟨le_rfl, hlt⟩
  | case3 lo hlt e he hp ih =>
    obtain ⟨r, hr, hbound⟩ := ih
    refine ⟨r, hr, ?_⟩
    intro i hi'
    have := hbound i hi'
    omega
  | case4 lo hlt => exact ⟨none, rfl, fun _ h => nomatch h⟩

theorem narrow_ok {entries : List ServerEntry} (flags : UInt32) {hi : ℕ}
    (hhi : hi ≤ entries.length) (ks : List (ServFlags × Bool)) (lo : ℕ) (hlo : lo ≤ hi) :
    ∃ r, narrow entries flags hi ks lo = .ok r ∧ ∀ nl nh, r = some (nl, nh) → nl < hi := by
  induction ks generalizing lo with
  | nil =>
    unfold narrow
    by_cases hlt : lo < hi
    · rw [getElem?_eq_getElem (by omega)]
      dsimp only
      split_ifs
      · exact ⟨none, rfl, fun _ _ h => nomatch h⟩
      · refine ⟨_, rfl, ?_⟩
        rintro nl nh ⟨⟩
        exact hlt
    · rw [if_neg hlt]
      exact ⟨none, rfl, fun _ _ h => nomatch h⟩
  | cons k ks ih =>
    obtain ⟨kind, wanted⟩ := k
    obtain ⟨r, hr, hbound⟩ := findIn_ok hhi
    have hle : lo ≤ r.getD hi ∧ r.getD hi ≤ hi := by
      cases r with
      | none => exact ⟨hlo, le_rfl⟩
      | some i => exact ⟨(hbound i rfl).1, (hbound i rfl).2.le⟩
    unfold narrow
    rw [hr]
    show ∃ r', (if wanted && r.getD hi != lo then .ok (some (lo, r.getD hi))
      else narrow entries flags hi ks (r.getD hi)) = Except.ok r' ∧ _
    split_ifs with hwanted
    · refine ⟨_, rfl, ?_⟩
      rintro nl nh ⟨⟩
      have hne : r.getD hi ≠ lo := by simpa using (Bool.and_eq_true _ _).mp hwanted |>.2
      omega
    · exact ih _ hle.2

theorem filterServers_ok (hi : i < arr.entries.length) (flags : UInt32) :
    ∃ r, arr.filterServers i flags = .ok r
      ∧ ∀ nl nh, r = some (nl, nh) → nl < arr.entries.length := by
  have hback := backWhile_le (fun i => arr.sameGroup i (i + 1)) i
  have hfwd := forwardWhile_spec (fun i => arr.sameGroup i (i + 1)) hi
  unfold filterServers
  rw [if_neg (by omega)]
  dsimp only
  split_ifs
  · obtain ⟨r, hr, -⟩ := findIn_ok (Nat.succ_le_of_lt hfwd.2.1)
    rw [hr]
    refine ⟨_, rfl, ?_⟩
    intro nl nh h
    split_ifs at h
    cases h
    omega
  · obtain ⟨r, hr, hbound⟩ := narrow_ok flags (Nat.succ_le_of_lt hfwd.2.1) (kinds flags)
      (backWhile (fun i => arr.sameGroup i (i + 1)) i) (by omega)
    refine ⟨r, hr, ?_⟩
    intro nl nh h
    have := hbound nl nh h
    omega

end ServerArray

end DnsmasqRs.DomainMatch
