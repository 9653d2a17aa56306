import DnsmasqRs.Equiv.ServerArray

/-!
# The search through the suffixes, and what a bisection that misses says about it

`naiveFrom` is what the lookup is for: walk the suffixes of the query from the longest to the empty
one and take the first that is the domain of a group with a suitable range.

The code crops the query after a miss by a computed amount.  `CropSpec` says what is known of that
amount: no domain has one of the lengths that are skipped, and it is negative only on an array that
is `stuck`, where the query has run out of domains and the next entry is a `NODOTS` one with a name
of its own.
-/

namespace DnsmasqRs.DomainMatch

open Utf8 BinarySearch List Option

namespace ServerArray

variable {q : Str} {e : ServerEntry} {arr : ServerArray} {i found : ℕ} {flags : UInt32}

/-! ### The naive search -/

/-- The position is the beginning of a label of the name, or its end. -/
def atLabel (domain : Str) (i : ℕ) : Bool :=
  i == 0 || i == domain.length || domain[i - 1]? == some '.'

/-- The range for the suffix of the name at `i`: that of the group with this domain.  A suffix that
does not begin at a label is eligible if the last entry of the group is a wildcard. -/
def suffixRange (arr : ServerArray) (domain : Str) (i : ℕ) (flags : UInt32) : Option (ℕ × ℕ) :=
  let isMatch := matchesName (domain.drop i)
  if atLabel domain i || arr.hasWildcard && (arr.entries.filter isMatch).getLast?.any (·.isWildcard)
  then (arr.entries.findIdx? isMatch).bind fun seed => (arr.filterServers seed flags).toOption.join
  else none

/-- The range says to use `resolv.conf`. -/
def usesResolv (arr : ServerArray) (range : ℕ × ℕ) : Bool :=
  arr.entries[range.1]?.any fun e => ServFlags.contains e.flags .useResolv

/-- Walk the suffixes of the name from position `i` on, and take the first with a range.  A range
that says to use `resolv.conf` sends the walk to the empty suffix, for real servers. -/
def naiveFrom (arr : ServerArray) (domain : Str) (i : ℕ) (flags : UInt32) :
    Option (ℕ × ℕ) × UInt32 :=
  if i ≤ domain.length then
    match arr.suffixRange domain i flags with
    | none => arr.naiveFrom domain (i + 1) flags
    | some range =>
      if arr.usesResolv range then
        if i < domain.length then arr.naiveFrom domain domain.length (flags ||| fServer)
        else (none, flags ||| fServer)
      else (some range, flags)
  else (none, flags)
  termination_by domain.length + 1 - i

/-- The naive search, with the `NODOTS` override. -/
def naiveLookup (arr : ServerArray) (domain : Str) (flags : UInt32) : Option (ℕ × ℕ) :=
  let domain := zoneName domain flags
  let (found, flags') := arr.naiveFrom domain 0 flags
  if singleLabel domain flags then (arr.nodotsFallback found flags').toOption.join else found

theorem matchesName_of_test (hi : arr.test q i = .eq) :
    ∃ e, arr.entries[i]? = some e ∧ matchesName q e := by
  have he := getElem?_eq_getElem (lt_of_test_eq hi)
  refine ⟨_, he, ?_⟩
  rw [test_eq he] at hi
  exact orderEntry_eq_iff.mp hi

/-- The group of a name that the bisection hits is the one the naive search finds. -/
theorem findIdx?_of_test (hfound : arr.test q found = .eq) :
    ∃ seed, arr.entries.findIdx? (matchesName q) = some seed ∧ arr.test q seed = .eq := by
  obtain ⟨e, he, hmatch⟩ := matchesName_of_test hfound
  obtain ⟨seed, hseed⟩ : ∃ seed, arr.entries.findIdx? (matchesName q) = some seed := by
    rw [← Option.isSome_iff_exists, List.findIdx?_isSome, List.any_eq_true]
    exact ⟨e, mem_of_getElem? he, hmatch⟩
  refine ⟨seed, hseed, ?_⟩
  obtain ⟨hlt, hmatch, -⟩ := findIdx?_eq_some_iff_getElem.mp hseed
  rw [test_eq (getElem?_eq_getElem hlt)]
  exact orderEntry_eq_iff.mpr hmatch

theorem filterServers_of_test (hfound : arr.test q found = .eq) :
    arr.filterServers found flags = .ok ((arr.entries.findIdx? (matchesName q)).bind fun seed =>
      (arr.filterServers seed flags).toOption.join) := by
  obtain ⟨seed, hseed, htest⟩ := findIdx?_of_test hfound
  obtain ⟨r, hr, -⟩ := filterServers_ok (lt_of_test_eq htest) flags
  rw [filterServers_congr hfound htest, hseed, bind_some, hr]
  rfl

theorem getLast?_filter_of_test (hi : arr.test q i = .eq)
    (hlast : i + 1 < arr.entries.length → arr.test q (i + 1) ≠ .eq) :
    (arr.entries.filter (matchesName q)).getLast? = arr.entries[i]? := by
  have hin := lt_of_test_eq hi
  have hrest : (arr.entries.drop (i + 1)).filter (matchesName q) = [] := by
    rw [filter_eq_nil_iff]
    intro e he hmatch
    obtain ⟨k, hk⟩ := mem_iff_getElem?.mp he
    rw [getElem?_drop] at hk
    have htest :
        arr.test q (i + 1 + k) = .eq := by rw [test_eq hk]; exact orderEntry_eq_iff.mpr hmatch
    have hlt := lt_of_test_eq htest
    exact hlast (by omega) (test_eq_of_between hi htest i.le_succ (by omega))
  obtain ⟨e, he, hmatch⟩ := matchesName_of_test hi
  obtain ⟨_, rfl⟩ := List.getElem?_eq_some_iff.mp he
  rw [he]
  conv_lhs => rw [← take_append_drop i arr.entries, drop_eq_getElem_cons hin]
  rw [filter_append, filter_cons_of_pos hmatch, hrest, getLast?_concat]

/-! ### Getting stuck -/

/-- The length that the query is cropped to once it is shorter than all domains: that of the first
entry behind the domains, which is a `NODOTS` one, with another length than the last domain. -/
def stuckLen (arr : ServerArray) : Option ℕ :=
  match (arr.entries.filter fun e => !e.isNodots).getLast? with
  | none => arr.entries.head?.map (·.domainLen)
  | some e =>
    if e.domainLen = 0 then none
    else ((arr.entries.filter (·.isNodots)).find? (·.domainLen ≠ e.domainLen)).map (·.domainLen)

/-- The query cannot get below that length. -/
def stuck (arr : ServerArray) : Bool := arr.stuckLen.any (0 < ·)

theorem domainLen_le_of_groupOrder (h : (groupOrder a b).isLE)
    (hb : b.isNodots = false) : a.isNodots = false ∧ b.domainLen ≤ a.domainLen := by
  unfold groupOrder compareLex compareOn at h
  rw [hb] at h
  cases ha : a.isNodots with
  | true => rw [ha] at h; cases h
  | false =>
    rw [ha] at h
    refine ⟨rfl, Nat.le_of_not_lt fun hlt => ?_⟩
    have hgt : compare b.domainLen a.domainLen = .gt := Nat.compare_eq_gt.mpr hlt
    simp [hgt] at h

theorem groupOrder_of_split (h : arr.entries = l₁ ++ a :: l₂) (hb : b ∈ a :: l₂) :
    (groupOrder a b).isLE := by
  rcases mem_cons.mp hb with rfl | hb
  · exact Std.ReflCmp.isLE_rfl
  · have hsorted := arr.sorted
    rw [h] at hsorted
    exact (pairwise_cons.mp (pairwise_append.mp hsorted).2.1).1 b hb

/-- A catch-all upstream keeps the lookup from getting stuck. -/
theorem stuck_of_empty (he : e ∈ arr.entries) (hnd : e.isNodots = false) (hlen : e.domainLen = 0) :
    arr.stuck = false := by
  unfold stuck stuckLen
  cases hlast : (arr.entries.filter fun e => !e.isNodots).getLast? with
  | none =>
    rw [getLast?_eq_none_iff, filter_eq_nil_iff] at hlast
    exact absurd (by simp [hnd]) (hlast e he)
  | some d =>
    -- the last domain is the shortest
    have hd : d.domainLen = 0 := by
      obtain ⟨init, hsplit⟩ := getLast?_eq_some_iff.mp hlast
      have hsorted := arr.sorted.filter fun e => !e.isNodots
      have hmem : e ∈ arr.entries.filter fun e => !e.isNodots := mem_filter.mpr ⟨he, by simp [hnd]⟩
      have hdnd := (mem_filter.mp (mem_of_getLast? hlast)).2
      rw [hsplit] at hsorted hmem
      rcases mem_append.mp hmem with hmem | hmem
      · have hle := (pairwise_append.mp hsorted).2.2 e hmem d (mem_singleton_self d)
        have := (domainLen_le_of_groupOrder hle (by simpa using hdnd)).2
        omega
      · rw [← mem_singleton.mp hmem, hlen]
    simp [hd]

/-- Behind the last domain `e`, the entries of its length do not count. -/
theorem stuckLen_of_split {front same rest : List ServerEntry}
    (h : arr.entries = front ++ e :: (same ++ rest)) (hnd : e.isNodots = false)
    (hlen : 0 < e.domainLen) (hsame : ∀ a ∈ same, a.domainLen = e.domainLen)
    (hrest : ∀ a ∈ rest, a.isNodots) :
    arr.stuckLen = (rest.find? (·.domainLen ≠ e.domainLen)).map (·.domainLen) := by
  have hfront : ∀ a ∈ front, a.isNodots = false := by
    intro a ha
    have hsorted := arr.sorted
    rw [h] at hsorted
    have hle := (pairwise_append.mp hsorted).2.2 a ha e mem_cons_self
    exact (domainLen_le_of_groupOrder hle hnd).1
  have hrestnil : (rest.filter fun e => !e.isNodots) = [] := by
    rw [filter_eq_nil_iff]
    intro a ha
    simp [hrest a ha]
  -- the last domain has the length of `e`
  obtain ⟨d, hlast, hd⟩ : ∃ d, (arr.entries.filter fun e => !e.isNodots).getLast? = some d
      ∧ d.domainLen = e.domainLen := by
    have hne : e :: (same.filter fun e => !e.isNodots) ≠ [] := cons_ne_nil _ _
    refine ⟨(e :: same.filter fun e => !e.isNodots).getLast hne, ?_, ?_⟩
    · rw [h, filter_append, filter_cons_of_pos (by simp [hnd]), filter_append, hrestnil,
        append_nil, getLast?_append, getLast?_eq_some_getLast hne, some_or]
    · rcases mem_cons.mp (getLast_mem hne) with heq | hmem
      · rw [heq]
      · exact hsame _ (mem_filter.mp hmem).1
  have hnodots : arr.entries.filter (·.isNodots) = same.filter (·.isNodots) ++ rest := by
    have hfrontnil : front.filter (·.isNodots) = [] := by
      rw [filter_eq_nil_iff]
      intro a ha
      simp [hfront a ha]
    rw [h, filter_append, hfrontnil, nil_append, filter_cons_of_neg (by simp [hnd]),
      filter_append, filter_eq_self.mpr hrest]
  have hsamenone : (same.filter (·.isNodots)).find? (·.domainLen ≠ e.domainLen) = none := by
    rw [find?_eq_none]
    intro a ha
    simp [hsame a (mem_filter.mp ha).1]
  unfold stuckLen
  rw [hlast]
  dsimp only
  rw [if_neg (by omega), hd, hnodots, find?_append, hsamenone, none_or]

/-! ### Cropping -/

/-- What is known of the amount the query is cropped by when no domain matches. -/
structure CropSpec (arr : ServerArray) (q : Str) (crop : ℤ) : Prop where
  noMatch : ∀ e ∈ arr.entries, matchesName q e = false
  /-- No domain has one of the lengths that are skipped. -/
  gap : ∀ e ∈ arr.entries, e.isNodots = false →
    byteLen q ≤ e.domainLen ∨ (e.domainLen : ℤ) ≤ byteLen q - crop
  neg : crop < 0 → arr.stuck ∧ ∀ e ∈ arr.entries, e.isNodots = false → byteLen q ≤ e.domainLen
  le : crop ≤ max (byteLen q) 1
  /-- The empty query is not cropped on a stuck array. -/
  done : byteLen q = 0 → 0 ≤ crop → arr.stuck = false

theorem matchesName_eq_false_of_test (h : ∀ i < arr.entries.length, arr.test q i ≠ .eq) :
    ∀ e ∈ arr.entries, matchesName q e = false := by
  intro e he
  obtain ⟨i, hi⟩ := mem_iff_getElem?.mp he
  have hlt := (List.getElem?_eq_some_iff.mp hi).1
  rw [Bool.eq_false_iff]
  intro hmatch
  apply h i hlt
  rw [test_eq hi]
  exact orderEntry_eq_iff.mpr hmatch

/-- All entries come behind the query: crop it to the first one. -/
theorem cropSpec_below (hn : arr.entries[0]? = some e) (hlt : arr.test q 0 = .lt) :
    CropSpec arr q (byteLen q - e.domainLen) := by
  have hsplit : arr.entries = [] ++ e :: arr.entries.tail := by
    exact (eq_cons_of_mem_head? (by rwa [head?_eq_getElem?]))
  have hle : ∀ a ∈ arr.entries, (groupOrder e a).isLE := by
    intro a ha
    rw [hsplit] at ha
    exact groupOrder_of_split hsplit ha
  have horder : orderEntry q e = .lt := by rw [← test_eq hn, hlt]
  have hnodots : e.isNodots → arr.stuckLen = some e.domainLen := by
    intro hnd
    have hnil : (arr.entries.filter fun e => !e.isNodots) = [] := by
      rw [filter_eq_nil_iff]
      intro a ha hand
      rw [(domainLen_le_of_groupOrder (hle a ha) (by simpa using hand)).1] at hnd
      cases hnd
    rw [stuckLen, hnil, hsplit]
    rfl
  constructor
  · apply matchesName_eq_false_of_test
    intro i hi
    rw [(arr.descending).lt_of_le 0 i i.zero_le hi hlt]
    simp
  · intro a ha hnd
    have := (domainLen_le_of_groupOrder (hle a ha) hnd).2
    omega
  · intro hneg
    have hnd : e.isNodots := by
      by_contra hnd
      have := domainLen_of_orderEntry_lt horder (by simpa using hnd)
      omega
    refine ⟨by simp [stuck, hnodots hnd]; omega, ?_⟩
    intro a ha hand
    rw [(domainLen_le_of_groupOrder (hle a ha) hand).1] at hnd
    cases hnd
  · omega
  · intro hzero hnonneg
    cases hnd : e.isNodots with
    | true => simp [stuck, hnodots hnd]; omega
    | false => exact stuck_of_empty (mem_of_getElem? hn) hnd (by omega)

/-- The query lies behind the entry `e` and before the later ones. -/
structure Between (arr : ServerArray) (q : Str) (front : List ServerEntry) (e : ServerEntry)
    (back : List ServerEntry) : Prop where
  split : arr.entries = front ++ e :: back
  noMatch : ∀ a ∈ arr.entries, matchesName q a = false
  front : ∀ a ∈ front, byteLen q ≤ a.domainLen
  order : orderEntry q e = .gt
  back : ∀ a ∈ back, orderEntry q a = .lt

theorem between_of_test (hi : arr.entries[i]? = some e) (hgt : arr.test q i = .gt)
    (hlater : ∀ j, i < j → j < arr.entries.length → arr.test q j = .lt) :
    Between arr q (arr.entries.take i) e (arr.entries.drop (i + 1)) := by
  obtain ⟨hin, heq⟩ := List.getElem?_eq_some_iff.mp hi
  constructor
  · rw [← heq, ← List.drop_eq_getElem_cons hin, List.take_append_drop]
  · apply matchesName_eq_false_of_test
    intro j hj
    rcases Nat.lt_or_ge i j with hij | hij
    · rw [hlater j hij hj]; simp
    · rw [(arr.descending).gt_of_le j i hij hin hgt]; simp
  · intro a ha
    obtain ⟨j, hj⟩ := List.mem_iff_getElem?.mp ha
    have hlt : j < i := by
      have := (List.getElem?_eq_some_iff.mp hj).1
      rw [List.length_take] at this
      omega
    rw [List.getElem?_take_of_lt hlt] at hj
    have hjgt := (arr.descending).gt_of_le j i hlt.le hin hgt
    rw [test_eq hj] at hjgt
    exact (domainLen_of_orderEntry_gt hjgt).2
  · rw [← test_eq hi, hgt]
  · intro a ha
    obtain ⟨j, hj⟩ := List.mem_iff_getElem?.mp ha
    rw [List.getElem?_drop] at hj
    rw [← test_eq hj]
    exact hlater _ (by omega) (List.getElem?_eq_some_iff.mp hj).1

section Between

variable {front same : List ServerEntry}

/-- No entry of another length follows: crop by one. -/
theorem Between.cropSpec_last (h : Between arr q front e same)
    (hsame : ∀ a ∈ same, a.domainLen = e.domainLen) : CropSpec arr q 1 := by
  obtain ⟨hnd, hqe⟩ := domainLen_of_orderEntry_gt h.order
  constructor
  · exact h.noMatch
  · intro a ha _
    rw [h.split, mem_append, mem_cons] at ha
    rcases ha with ha | rfl | ha
    · exact .inl (h.front a ha)
    · exact .inl hqe
    · exact .inl (by rw [hsame a ha]; exact hqe)
  · omega
  · omega
  · have hsplit : arr.entries = front ++ e :: (same ++ []) := by
      rw [append_nil]
      exact h.split
    have hlen :=
      stuckLen_of_split hsplit hnd (domainLen_pos_of_orderEntry_gt h.order) hsame (by simp)
    simp [stuck, hlen]

/-- Crop to the next entry of another length. -/
theorem Between.cropSpec_next (h : Between arr q front e (same ++ e' :: rest))
    (hsame : ∀ a ∈ same, a.domainLen = e.domainLen) (hne : e'.domainLen ≠ e.domainLen) :
    CropSpec arr q (byteLen q - e'.domainLen) := by
  obtain ⟨hnd, hqe⟩ := domainLen_of_orderEntry_gt h.order
  have hmem : e' ∈ same ++ e' :: rest := by simp
  have hsplit' : arr.entries = (front ++ e :: same) ++ e' :: rest := by
    rw [h.split, append_assoc, cons_append]
  have hle : ∀ a ∈ e' :: rest, (groupOrder e' a).isLE := fun a ha => groupOrder_of_split hsplit' ha
  have hbefore : ∀ a ∈ front ++ e :: same, byteLen q ≤ a.domainLen := by
    intro a ha
    rw [mem_append, mem_cons] at ha
    rcases ha with ha | rfl | ha
    · exact h.front a ha
    · exact hqe
    · rw [hsame a ha]; exact hqe
  -- if the next entry is a `NODOTS` one, so are all behind it
  have hnodots : e'.isNodots →
    (∀ a ∈ e' :: rest, a.isNodots) ∧ arr.stuckLen = some e'.domainLen := by
    intro hnd'
    have hall : ∀ a ∈ e' :: rest, a.isNodots := by
      intro a ha
      by_contra hand
      rw [(domainLen_le_of_groupOrder (hle a ha) (by simpa using hand)).1] at hnd'
      cases hnd'
    refine ⟨hall, ?_⟩
    rw [stuckLen_of_split h.split hnd (domainLen_pos_of_orderEntry_gt h.order) hsame hall,
      find?_cons_of_pos (by simpa using hne), map_some]
  constructor
  · exact h.noMatch
  · intro a ha hand
    rw [hsplit'] at ha
    rcases mem_append.mp ha with ha | ha
    · exact .inl (hbefore a ha)
    · have := (domainLen_le_of_groupOrder (hle a ha) hand).2
      right
      omega
  · intro hneg
    have hnd' : e'.isNodots := by
      by_contra hnd'
      have := domainLen_of_orderEntry_lt (h.back e' hmem) (by simpa using hnd')
      omega
    obtain ⟨hall, hlen⟩ := hnodots hnd'
    refine ⟨by simp [stuck, hlen]; omega, ?_⟩
    intro a ha hand
    rw [hsplit'] at ha
    rcases mem_append.mp ha with ha | ha
    · exact hbefore a ha
    · rw [hall a ha] at hand
      cases hand
  · omega
  · intro hzero hnonneg
    cases hnd' : e'.isNodots with
    | true => simp [stuck, (hnodots hnd').2]; omega
    | false =>
      refine stuck_of_empty (e := e') ?_ hnd' (by omega)
      rw [hsplit']
      simp

end Between

theorem cropQuery_spec (ho : o.Correct (arr.test q) arr.entries.length)
    (hmiss : ∀ i, o ≠ .hit i) (hn : 0 < arr.entries.length) :
    ∃ crop, arr.cropQuery (byteLen q) o = .ok crop ∧ CropSpec arr q crop := by
  cases o with
  | hit i => exact absurd rfl (hmiss i)
  | below i =>
    obtain ⟨rfl, hlt⟩ := ho
    have h0 := getElem?_eq_getElem hn
    simp only [cropQuery, h0]
    exact ⟨_, rfl, cropSpec_below h0 hlt⟩
  | above i =>
    obtain ⟨hin, hgt, hlater⟩ := ho
    have hi := getElem?_eq_getElem hin
    have hbetween := between_of_test hi hgt hlater
    simp only [cropQuery, hi]
    cases hfind : (arr.entries.drop (i + 1)).find? fun e' =>
      e'.domainLen ≠ arr.entries[i].domainLen with
    | none =>
      refine ⟨1, rfl, hbetween.cropSpec_last ?_⟩
      intro a ha
      simpa using find?_eq_none.mp hfind a ha
    | some e' =>
      obtain ⟨hne, same, rest, hdrop, hsame⟩ := find?_eq_some_iff_append.mp hfind
      refine ⟨_, rfl, Between.cropSpec_next (hdrop ▸ hbetween) ?_ (by simpa using hne)⟩
      intro a ha
      simpa using hsame a ha

end ServerArray

end DnsmasqRs.DomainMatch
