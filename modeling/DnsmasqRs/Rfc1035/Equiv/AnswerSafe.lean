import DnsmasqRs.Equiv.Domain
import DnsmasqRs.Equiv.LookupSlices
import DnsmasqRs.Rfc1035.Answer

/-!
# Where local answering slices the name

`answer_request` slices the name at the end of the CNAME chain by byte lengths of the configuration:
at the prefixes of `--synth-domain`, at the positions that the lookup of `--address` domains visits,
and at the suffixes as long as `--local` domains.  `AnswerSliceable` says which of these it gets to
for a query and that they fall on character boundaries; that is exactly when it does not panic on a
slice (`answerRequest_ne_slice_iff`).
-/

namespace DnsmasqRs.Rfc1035

open Utf8 Cache Domain DomainMatch Fallible

/-! ### Suffixes -/

theorem isSome_suffixOnLabel :
    (suffixOnLabel name domain).isSome = isCharBoundary name (byteLen name - byteLen domain) := by
  rw [suffixOnLabel, Option.isSome_map, isSome_sliceFrom]

/-- The suffix as long as `domain`, if the name has one, starts on a character boundary. -/
def SuffixSliceable (name domain : Str) : Prop :=
  byteLen domain ≠ 0 → byteLen domain ≤ byteLen name →
    isCharBoundary name (byteLen name - byteLen domain)

theorem orSlice_ne_slice_iff : orSlice o ≠ .error .slice ↔ o.isSome := by
  cases o with
  | none | some => simp [orSlice]

theorem matchesSuffix_ne_slice_iff : matchesSuffix name domain ≠ .error .slice
    ↔ SuffixSliceable name domain := by
  unfold matchesSuffix SuffixSliceable
  split_ifs with hshort
  · refine iff_of_true nofun fun hne hle => ?_
    omega
  · rw [orSlice_ne_slice_iff, isSome_suffixOnLabel]
    rw [not_or] at hshort
    exact ⟨fun h _ _ => h, fun h => h hshort.1 (Nat.not_lt.mp hshort.2)⟩

/-- Behind domains that the name is not in, the suffix for the next one starts on a boundary. -/
def SuffixesSliceable (name : Str) (domains : List Str) : Prop :=
  ∀ pre domain post, domains = pre ++ domain :: post →
    (∀ d ∈ pre, matchesSuffix name d = .ok false) → SuffixSliceable name domain

theorem domainMatchesAnySuffix_ne_slice_iff :
    domainMatchesAnySuffix name domains ≠ .error .slice ↔ SuffixesSliceable name domains := by
  simp only [domainMatchesAnySuffix, anyOf_ne_error_iff, matchesSuffix_ne_slice_iff,
    SuffixesSliceable]

/-! ### The stages -/

section Stages

variable {M : Type} [Lru M CacheKey CacheRecord]

/-- Both syntheses are safe, if the first gives nothing. -/
structure BothSynthSliceable (name : Str) (domains : List CondDomain) : Prop where
  ipv4 : SynthSliceable family4 name domains
  ipv6 : synthesizeIpv4 name domains = .ok none → SynthSliceable family6 name domains

section

variable (name : Str) (config : LocalConfig) (cache : DnsCache M) (now : Instant)
  (fam : AnswerFamily A)
  (req : Request) (r : Reply M)

/-- The name is known by its records, or the syntheses are safe. -/
def LocalSliceable : Prop :=
  knownByRecords name config cache now = false → BothSynthSliceable name config.synthDomains

theorem checkForLocalDomain_ne_slice_iff :
    checkForLocalDomain name config cache now ≠ .error .slice
      ↔ LocalSliceable name config cache now := by
  unfold checkForLocalDomain LocalSliceable
  split_ifs with hknown
  · refine iff_of_true nofun fun h => ?_
    rw [hknown] at h
    cases h
  · rw [Bool.not_eq_true] at hknown
    rw [hknown, bind_ne_error_iff, synthesizeIpv4, synthesize_ne_slice_iff]
    constructor
    · rintro ⟨h4, h6⟩ -
      refine ⟨h4, fun hnone => ?_⟩
      have hsome := h6 none hnone
      rw [if_neg (by simp), bind_ne_error_iff, synthesizeIpv6, synthesize_ne_slice_iff] at hsome
      exact hsome.1
    · intro h
      refine ⟨(h rfl).ipv4, fun ipv4 hipv4 => ?_⟩
      cases ipv4 with
      | some ip => exact nofun
      | none =>
        rw [if_neg (by simp), bind_ne_error_iff, synthesizeIpv6, synthesize_ne_slice_iff]
        exact ⟨(h rfl).ipv6 hipv4, nofun⟩

/-- The cache has an answer of the family, or the synthesis is safe. -/
def FamilySliceable {A : Type} (fam : AnswerFamily A) (req : Request) (r : Reply M) : Prop :=
  (r.cache.lookupForward r.name fam.flag req.now).2 = none →
    SynthSliceable fam.synth r.name req.config.synthDomains

theorem familyAnswer_ne_slice_iff :
    familyAnswer fam req r ≠ .error .slice ↔ FamilySliceable fam req r := by
  unfold familyAnswer FamilySliceable
  cases hcached : (r.cache.lookupForward r.name fam.flag req.now).2 with
  | some rec =>
    refine iff_of_true ?_ nofun
    simp only [hcached]
    repeat' split
    all_goals nofun
  | none =>
    simp only [hcached, map_ne_error_iff, synthesize_ne_slice_iff, true_imp_iff]

theorem ite_ne_slice_iff (b : Bool) (x : Except Fault α) (a : α) :
    (if b then x else .ok a) ≠ .error .slice ↔ (b → x ≠ .error .slice) := by
  cases b with
  | true => exact ⟨fun h _ => h, fun h => h rfl⟩
  | false => exact iff_of_true nofun nofun

/-- The family is not asked for, or it is safe. -/
def AskedSliceable {A : Type} (fam : AnswerFamily A) (req : Request) (r : Reply M) : Prop :=
  req.asks fam.rtype → FamilySliceable fam req r

theorem askedAnswer_ne_slice_iff :
    askedAnswer fam req r ≠ .error .slice ↔ AskedSliceable fam req r := by
  rw [askedAnswer, ite_ne_slice_iff, familyAnswer_ne_slice_iff, AskedSliceable]

end

/-- The host records have an address, or both families are safe in turn. -/
structure AddressSliceable (req : Request) (r : Reply M) : Prop where
  ipv4 : hostAnswers req r = [] → AskedSliceable answer4 req r
  ipv6 : hostAnswers req r = [] → ∀ r', askedAnswer answer4 req r = .ok r' →
    AskedSliceable answer6 req r'

theorem addressAnswers_ne_slice_iff (req : Request) (r : Reply M) :
    addressAnswers req r ≠ .error .slice ↔ AddressSliceable req r := by
  unfold addressAnswers
  by_cases hhost : hostAnswers req r = []
  · rw [if_neg (not_not.mpr hhost), bind_ne_error_iff]
    simp only [askedAnswer_ne_slice_iff]
    constructor
    · rintro ⟨h4, h6⟩
      exact ⟨fun _ => h4, fun _ => h6⟩
    · intro h
      exact ⟨h.ipv4 hhost, h.ipv6 hhost⟩
  · rw [if_pos hhost]
    exact iff_of_true nofun ⟨fun h => absurd h hhost, fun h => absurd h hhost⟩

/-- `is_local_answer` asks whether the name is known locally: the entry has no address, and neither
has the first one of its domain. -/
def asksLocally (arr : ServerArray) (first : ℕ) : Bool :=
  arr.entries[first]?.any (fun entry =>
    ServFlags.contains entry.flags .literalAddress && !ServFlags.contains entry.flags .addr4
      && !ServFlags.contains entry.flags .addr6 && !ServFlags.contains entry.flags .allZeros)
  && arr.entries[backWhile (fun i => arr.sameGroup i (i + 1)) first]?.any fun rolled =>
    !ServFlags.intersects rolled.flags ServerArray.servLocalAddress

theorem isLocalAnswer_ne_slice_iff :
    isLocalAnswer arr first known ≠ .error .slice
      ↔ (asksLocally arr first → known ≠ .error .slice) := by
  unfold isLocalAnswer asksLocally
  cases arr.entries[first]? with
  | none => exact iff_of_true nofun nofun
  | some entry =>
    dsimp only
    split_ifs with hliteral h4 h6 hzero
    · exact iff_of_true nofun (by simp_all)
    · exact iff_of_true nofun (by simp_all)
    · exact iff_of_true nofun (by simp_all)
    · exact iff_of_true nofun (by simp_all)
    · cases arr.entries[backWhile (fun i => arr.sameGroup i (i + 1)) first]? with
      | none => exact iff_of_true nofun (by simp)
      | some rolled =>
        dsimp only
        split_ifs with hlocal
        · exact iff_of_true nofun (by simp [hlocal])
        · rw [map_ne_error_iff]
          simp_all

/-- There is an answer already, or the lookup of the name is safe and, behind it, the test for local
names. -/
structure LiteralSliceable (req : Request) (r : Reply M) : Prop where
  lookup : r.ans = false → req.config.addressServers.LookupSliceable r.name req.gotname
  known : r.ans = false →
    ∀ first last, req.config.addressServers.lookup r.name req.gotname = .ok (some (first, last)) →
      asksLocally req.config.addressServers first → LocalSliceable r.name req.config r.cache req.now

theorem literalAnswers_ne_slice_iff (req : Request) (budget baseLen : ℕ) (r : Reply M) :
    literalAnswers req budget baseLen r ≠ .error .slice ↔ LiteralSliceable req r := by
  unfold literalAnswers
  cases hans : r.ans with
  | true => exact iff_of_true nofun ⟨fun h => absurd (hans.symm.trans h) (by decide),
      fun h => absurd (hans.symm.trans h) (by decide)⟩
  | false =>
    rw [if_neg Bool.false_ne_true, bind_ne_error_iff, ServerArray.lookup_ne_slice_iff]
    have hflags :
        ∀ first last : ℕ, ∀ f : UInt32 → Except Fault (Reply M),
          (∀ flags, f flags ≠ .error .slice) → ((isLocalAnswer req.config.addressServers first
            (checkForLocalDomain r.name req.config r.cache req.now) >>= f) ≠ .error .slice ↔
            (asksLocally req.config.addressServers first →
              LocalSliceable r.name req.config r.cache req.now)) := by
      intro first last f hf
      rw [bind_ne_error_iff, isLocalAnswer_ne_slice_iff, checkForLocalDomain_ne_slice_iff]
      exact and_iff_left fun flags _ => hf flags
    constructor
    · rintro ⟨hlookup, hrest⟩
      refine ⟨fun _ => hlookup, fun _ first last hfound => ?_⟩
      refine (hflags first last _ ?_).mp (hrest _ hfound)
      intro flags
      dsimp only
      repeat' split
      all_goals nofun
    · intro h
      refine ⟨h.lookup hans, fun found hfound => ?_⟩
      cases found with
      | none => nofun
      | some range =>
        refine (hflags range.1 range.2 _ ?_).mpr (h.known hans range.1 range.2 hfound)
        intro flags
        dsimp only
        repeat' split
        all_goals nofun

/-- `--domain-needed` does not apply, or the test for local names is safe. -/
def NodotsSliceable (req : Request) (r : Reply M) : Prop :=
  needsDomain req r → LocalSliceable r.name req.config r.cache req.now

theorem nodotsAnswers_ne_slice_iff (req : Request) (r : Reply M) :
    nodotsAnswers req r ≠ .error .slice ↔ NodotsSliceable req r := by
  unfold nodotsAnswers NodotsSliceable
  rw [ite_ne_slice_iff, map_ne_error_iff, checkForLocalDomain_ne_slice_iff]

/-- There is an answer already, or the suffixes for the `--local` domains are safe. -/
def LiteralDomainSliceable (req : Request) (r : Reply M) : Prop :=
  r.ans = false → SuffixesSliceable r.name req.config.literalDomains

omit [Lru M CacheKey CacheRecord] in
theorem literalDomainAnswers_ne_slice_iff :
    literalDomainAnswers req r ≠ .error .slice ↔ LiteralDomainSliceable req r := by
  unfold literalDomainAnswers LiteralDomainSliceable
  cases r.ans with
  | true => exact iff_of_true nofun nofun
  | false =>
    rw [if_neg Bool.false_ne_true, map_ne_error_iff, domainMatchesAnySuffix_ne_slice_iff]
    exact ⟨fun h _ => h, fun h => h rfl⟩

/-! ### The whole answer -/

/-- Each stage that is reached is safe, with the reply that it is reached with. -/
structure StagesSliceable (req : Request) (budget baseLen : ℕ) (r : Reply M) : Prop where
  addresses : AddressSliceable req (recordStages req r)
  literals : ∀ r', addressStage req r = .ok r' →
    LiteralSliceable req (naptrAnswers req (srvAnswers req (mxAnswers req r')))
  nodots : ∀ r', literalStage req budget baseLen r = .ok r' → NodotsSliceable req r'
  domains : ∀ r', nodotsStage req budget baseLen r = .ok r' → LiteralDomainSliceable req r'

variable (query : DnsPacket) (cache : DnsCache M) (now : Instant) (config : LocalConfig)
  (metrics : Metrics)

theorem answerStages_ne_slice_iff (req : Request) (budget baseLen : ℕ) (r : Reply M) :
    answerStages req budget baseLen r ≠ .error .slice ↔ StagesSliceable req budget baseLen r := by
  rw [answerStages, bind_ne_error_iff, nodotsStage, bind_ne_error_iff, literalStage,
    bind_ne_error_iff, addressStage]
  simp only [addressAnswers_ne_slice_iff, literalAnswers_ne_slice_iff, nodotsAnswers_ne_slice_iff,
    literalDomainAnswers_ne_slice_iff]
  constructor
  · rintro ⟨⟨⟨haddr, hlit⟩, hnodots⟩, hdomains⟩
    exact ⟨haddr, hlit, hnodots, hdomains⟩
  · intro h
    exact ⟨⟨⟨h.addresses, h.literals⟩, h.nodots⟩, h.domains⟩

/-- The stages for a query's question are safe, if it is answered locally at all. -/
def AnswerSliceable : Prop :=
  ∀ q, localQuestion query = some q →
    StagesSliceable { qtype := q.qtype, qclass := q.qclass, now, config, metrics }
      (responseBudget query config) (responseBaseLen query) { cache, name := toLowercase q.name }

/-- Local answering panics on a slice exactly for the queries with a slice off a boundary. -/
theorem answerRequest_ne_slice_iff : answerRequest query cache now config metrics ≠ .error .slice ↔
      AnswerSliceable query cache now config metrics := by
  unfold answerRequest AnswerSliceable
  cases localQuestion query with
  | none => exact iff_of_true nofun nofun
  | some q =>
    simp only [map_ne_error_iff, answerStages_ne_slice_iff]
    exact ⟨fun h q' hq' => Option.some.inj hq' ▸ h, fun h => h q rfl⟩

end Stages

end DnsmasqRs.Rfc1035
