import DnsmasqRs.Forward.Engine
import DnsmasqRs.Rfc1035.Equiv.AnswerSafe
import DnsmasqRs.Rfc1035.Equiv.ExtractSafe

/-!
# Where a query's name is sliced on its way

A client's query is answered from local data, or servers are chosen for it by their domains, and its
reply is exempt from the rebind protection by its name.  All three slice the name by byte lengths of
the configuration; `query_ne_slice_iff` says exactly when none of them panics.  A configured domain
of one byte is enough for a question name of one accented letter (`query_slices_accented`).
-/

namespace DnsmasqRs.Forward

open Wire Utf8 ByteCursor DnsProtocol Rfc1035 Cache Domain DomainMatch Fallible Option

/-! ### Server selection -/

theorem isSome_domainMatchesSuffix_iff : (domainMatchesSuffix name domain).isSome
    ↔ SuffixSliceable name domain := by
  have hmatches : matchesSuffix name domain = orSlice (domainMatchesSuffix name domain) := by
    unfold matchesSuffix domainMatchesSuffix
    split_ifs <;> rfl
  rw [← orSlice_ne_slice_iff, ← hmatches, matchesSuffix_ne_slice_iff]

/-- The suffixes for the domains of the servers start on character boundaries, if any server has a
domain. -/
def CandidatesSliceable {D : Type} (e : ForwardEngine D) (pkt : Bytes) : Prop :=
  e.config.serverDomains.all (· = []) = false → ∀ idx ∈ e.upstreamOrder,
    SuffixSliceable (queryNameLower pkt) (e.serverDomain idx)

theorem isSome_bestMatches_iff {D : Type} (e : ForwardEngine D) (qname : Str) (order : List ℕ)
    (bestLen : ℕ) (candidates : List ℕ) : (e.bestMatches qname order bestLen candidates).isSome ↔
      ∀ idx ∈ order, SuffixSliceable qname (e.serverDomain idx) := by
  induction order generalizing bestLen candidates with
  | nil => exact iff_of_true rfl (List.forall_mem_nil _)
  | cons idx order ih =>
    rw [ForwardEngine.bestMatches, List.forall_mem_cons]
    dsimp only
    by_cases hempty : e.serverDomain idx = []
    · rw [if_pos hempty, ih, hempty, and_iff_right_of_imp]
      exact fun _ hne => absurd byteLen_nil hne
    · rw [if_neg hempty, ← isSome_domainMatchesSuffix_iff]
      cases domainMatchesSuffix qname (e.serverDomain idx) with
      | none => simp
      | some matched =>
        rw [bind_eq_bind, bind_some, isSome_some, and_iff_right rfl]
        split_ifs <;> exact ih _ _

theorem isSome_candidateServers_iff {D : Type} (e : ForwardEngine D) (pkt : Bytes) :
    (e.candidateServers pkt).isSome ↔ CandidatesSliceable e pkt := by
  unfold ForwardEngine.candidateServers CandidatesSliceable
  split_ifs with hall
  · refine iff_of_true rfl fun h => ?_
    rw [hall] at h
    cases h
  · have hbest := isSome_bestMatches_iff e (queryNameLower pkt) e.upstreamOrder 0 []
    rw [imp_iff_right (Bool.eq_false_iff.mpr hall), ← hbest]
    cases e.bestMatches (queryNameLower pkt) e.upstreamOrder 0 [] with
    | none => rfl
    | some candidates =>
      rw [bind_eq_bind, bind_some]
      split_ifs <;> rfl

/-! ### The exemption from rebind protection -/

/-- Behind entries that do not match, the suffix for the next one starts on a boundary. -/
def NoRebindSliceable (domain : Str) (noRebind : List Str) : Prop :=
  ∀ pre rbd post, noRebind = pre ++ rbd :: post →
    (∀ d ∈ pre, matchesNoRebind domain d = .ok false) → SuffixSliceable domain rbd

theorem domainNoRebind_ne_slice_iff (domain : Str) (noRebind : List Str) :
    domainNoRebind domain noRebind ≠ .error .slice ↔ NoRebindSliceable domain noRebind := by
  have hentry : ∀ rbd, matchesNoRebind domain rbd ≠ .error .slice ↔ SuffixSliceable domain rbd := by
    intro rbd
    unfold matchesNoRebind SuffixSliceable
    split_ifs with hempty hshort
    · exact iff_of_true nofun fun h => absurd hempty h
    · refine iff_of_true nofun fun _ hle => ?_
      omega
    · rw [orSlice_ne_slice_iff, isSome_suffixOnLabel]
      exact ⟨fun h _ _ => h, fun h => h hempty (Nat.not_lt.mp hshort)⟩
  simp only [domainNoRebind, anyOf_ne_error_iff, hentry, NoRebindSliceable]

/-! ### All three -/

variable {M : Type} [Lru M CacheKey CacheRecord] {D : Type}

/-- Local answering, server selection and the rebind exemption panic on a slice exactly where one
that they get to is off a character boundary. -/
theorem query_ne_slice_iff (query : DnsPacket) (cache : DnsCache M) (now : Instant)
    (config : LocalConfig) (metrics : Metrics) (e : ForwardEngine D) (pkt : Bytes) (domain : Str)
    (noRebind : List Str) : (answerRequest query cache now config metrics ≠ .error .slice ↔
        AnswerSliceable query cache now config metrics) ∧
      ((e.candidateServers pkt).isSome = true ↔ CandidatesSliceable e pkt) ∧
      (domainNoRebind domain noRebind ≠ .error .slice ↔ NoRebindSliceable domain noRebind) :=
  ⟨answerRequest_ne_slice_iff query cache now config metrics, isSome_candidateServers_iff e pkt,
    domainNoRebind_ne_slice_iff domain noRebind⟩

/-- No local data at all. -/
def noLocalData : LocalConfig where
  localTtl := 0
  ednsPktsz := 1232
  txtRecords := []
  rrRecords := []
  mxRecords := []
  ptrRecords := []
  hostRecords := []
  cnames := []
  naptrRecords := []
  intNames := []
  nodotsLocal := false
  synthDomains := []
  addressServers := .build [] []
  addressServerList := []
  literalDomains := []
  cachesize := 150

/-- A synthetic domain with the prefix `x`. -/
def synthX : CondDomain where
  domain := ['d']
  pfx := some ['x']
  start := .unspecified
  finish := .unspecified
  start6 := .unspecified
  finish6 := .unspecified
  is6 := false
  indexed := true

/-- A query for the address of `é`. -/
def accentedQuery : Bytes :=
  [0x12, 0x34, 0x01, 0x00, 0, 1, 0, 0, 0, 0, 0, 0] ++ [2, 0xC3, 0xA9, 0, 0, 1, 0, 1]

/-- The answer of a new cache to `accentedQuery`, without the cache. -/
def answerAccented (config : LocalConfig) : Option (Except Fault (Option DnsPacket)) :=
  (DnsPacket.parse accentedQuery).toOption.map fun query =>
    (answerRequest query emptyCache 0 config ⟨0, 0, 0, 0⟩).map Prod.snd

/-- The domain or prefix `x` makes each of them slice inside the `é`. -/
theorem query_slices_accented :
    answerAccented { noLocalData with literalDomains := [['x']] } = some (.error .slice) ∧
      answerAccented { noLocalData with synthDomains := [synthX] } = some (.error .slice) ∧
      answerAccented { noLocalData with
        addressServers := .build []
          [{ flags := .literalAddress ||| .wildcard, domain := ['x'], addr := .v4 .unspecified }] }
        = some (.error .slice) ∧
      (ForwardEngine.new (D := Unit)
        { upstreams := [⟨.v4 .unspecified, 53⟩], serverDomains := [['x']] }
        1024).candidateServers accentedQuery = none ∧
      domainNoRebind (queryNameLower accentedQuery) [['x']] = .error .slice := by
  decide +kernel

end DnsmasqRs.Forward
