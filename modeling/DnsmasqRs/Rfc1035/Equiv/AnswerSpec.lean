import Mathlib.Tactic.IntervalCases
import DnsmasqRs.Rfc1035.Equiv.Findings

/-!
# The response of local answering

A query that `answer_request` answers goes through the stages that look at records (`dataStage`)
and, if they find nothing, through those for names that are not to be forwarded (`fallbackStage`).
The latter answer NXDOMAIN for the names that `FallbackNx` describes.
-/

namespace DnsmasqRs.Rfc1035

open Lru Utf8 Wire Cache Domain DomainMatch Fallible DnsProtocol
open DnsCache (Expired)

variable {M : Type} [Lru M CacheKey CacheRecord]

/-! ### Names that are not forwarded -/

/-- The stages for names that are not to be forwarded. -/
def fallbackStage (req : Request) (budget baseLen : ℕ) (r : Reply M) : Except Fault (Reply M) := do
  let r ← literalAnswers req budget baseLen r
  let r ← nodotsAnswers req r
  literalDomainAnswers req r

theorem answerStages_eq (req : Request) (budget baseLen : ℕ) (r : Reply M) :
    answerStages req budget baseLen r = dataStage req r >>= fallbackStage req budget baseLen := by
  unfold answerStages nodotsStage literalStage dataStage fallbackStage
  cases addressStage req r with
  | error e => rfl
  | ok r₁ =>
    show (literalAnswers req budget baseLen _ >>= nodotsAnswers req) >>= literalDomainAnswers req
      = _
    rw [bind_assoc]
    rfl

/-- What is answered already stays as it is. -/
theorem nodotsAnswers_of_ans {r : Reply M} (hans : r.ans) :
    nodotsAnswers req r >>= literalDomainAnswers req = .ok r := by
  have hneeds : needsDomain req r = false := by simp [needsDomain, hans]
  have hnodots :
      nodotsAnswers req r = .ok r := by rw [nodotsAnswers, hneeds, if_neg Bool.false_ne_true]
  rw [hnodots]
  show literalDomainAnswers req r = _
  rw [literalDomainAnswers, if_pos hans]

theorem fallbackStage_of_ans {r : Reply M} (hans : r.ans) :
    fallbackStage req budget baseLen r = .ok r := by
  have hliteral : literalAnswers req budget baseLen r = .ok r := by rw [literalAnswers, if_pos hans]
  rw [fallbackStage, hliteral]
  exact nodotsAnswers_of_ans hans

/-- The flags that the `--address` and `--local` domains give a name. -/
def literalVerdict (req : Request) (cache : DnsCache M) (name : Str) : Except Fault UInt32 := do
  match ← req.config.addressServers.lookup name req.gotname with
  | none => return 0
  | some (first, _) =>
    isLocalAnswer req.config.addressServers first
      (checkForLocalDomain name req.config cache req.now)

/-- `--domain-needed` applies to the name. -/
def singleLabel (req : Request) (name : Str) : Bool :=
  req.config.nodotsLocal && req.gotname != 0 && !name.contains '.' && name != []

/-- A name that nothing was found for is not to be forwarded and does not exist. -/
def FallbackNx (req : Request) (cache : DnsCache M) (name : Str) : Prop :=
  literalVerdict req cache name = .ok fNxdomain ∨ literalVerdict req cache name = .ok 0 ∧
      (singleLabel req name ∧ checkForLocalDomain name req.config cache req.now = .ok false
        ∨ singleLabel req name = false
          ∧ domainMatchesAnySuffix name req.config.literalDomains = .ok true)

theorem mem_of_isLocalAnswer (h : isLocalAnswer arr first known = .ok flags) :
    flags ∈ [0, fNxdomain, fNoerr, fIpv4, fIpv6, fIpv4 ||| fIpv6] := by
  unfold isLocalAnswer at h
  cases hentry : arr.entries[first]? with
  | none =>
    rw [hentry] at h
    obtain rfl := Except.ok.inj h
    decide
  | some entry =>
    rw [hentry] at h
    dsimp only at h
    split_ifs at h
    · obtain rfl := Except.ok.inj h
      decide
    · obtain rfl := Except.ok.inj h
      decide
    · obtain rfl := Except.ok.inj h
      decide
    · obtain rfl := Except.ok.inj h
      decide
    · split at h
      · cases h
      · split_ifs at h
        · obtain rfl := Except.ok.inj h
          decide
        · obtain ⟨known, -, rfl⟩ := map_eq_ok.mp h
          cases known <;> decide

section Drops

variable [LawfulLru M CacheKey CacheRecord] {req : Request} {c c' : DnsCache M}
  (h : OnlyDrops (Expired req.now) c.records c'.records)

include h

theorem checkForLocalDomain_of_onlyDrops :
    checkForLocalDomain name req.config c' req.now
      = checkForLocalDomain name req.config c req.now := by
  unfold checkForLocalDomain knownByRecords
  rw [DnsCache.cacheFindNonTerminal_of_onlyDrops h]

theorem fallbackNx_of_onlyDrops : FallbackNx req c' name = FallbackNx req c name := by
  unfold FallbackNx literalVerdict
  rw [checkForLocalDomain_of_onlyDrops h]

end Drops

/-- What the fallback stages add to a reply without an answer. -/
structure Falls (req : Request) (r r' : Reply M) : Prop where
  name : r'.name = r.name
  cache : r'.cache = r.cache
  answers : ∃ rrs, r'.answers = r.answers ++ rrs
    ∧ (∀ rr ∈ rrs, rr.name = r.name ∧ (rr.rtype = 1 ∨ rr.rtype = 28))
    ∧ (rrs ≠ [] → r'.nxdomain = false)
  nxdomain : r'.nxdomain ↔ FallbackNx req r.cache r.name
  notimp : r'.notimp = r.notimp
  ans : r'.nxdomain → r'.ans

theorem mem_literalRecords
    (h : rr ∈ literalRecords arr servers first last name ttl rtype zero octets) :
    rr.name = name ∧ rr.rtype = rtype := by
  obtain ⟨i, -, hi⟩ := List.mem_filterMap.mp h
  obtain ⟨entry, -, hentry⟩ := Option.bind_eq_some_iff.mp hi
  obtain ⟨rdata, -, rfl⟩ := Option.map_eq_some_iff.mp hentry
  exact ⟨rfl, rfl⟩

theorem mem_makeLocalAnswer (h : rr ∈ makeLocalAnswer arr servers first last flags name ttl) :
    rr.name = name ∧ (rr.rtype = 1 ∨ rr.rtype = 28) := by
  rcases List.mem_append.mp h with h | h
  · split_ifs at h
    · obtain ⟨hname, htype⟩ := mem_literalRecords h
      exact ⟨hname, .inl htype⟩
    · exact absurd h List.not_mem_nil
  · split_ifs at h
    · obtain ⟨hname, htype⟩ := mem_literalRecords h
      exact ⟨hname, .inr htype⟩
    · exact absurd h List.not_mem_nil

variable {req : Request}

/-- Where the domains say nothing, the other two tests decide. -/
theorem falls_of_silent {r r' : Reply M} (hans : r.ans = false)
    (hnx : r.nxdomain = false) (hverdict : literalVerdict req r.cache r.name = .ok 0)
    (h : nodotsAnswers req r >>= literalDomainAnswers req = .ok r') : Falls req r r' := by
  obtain ⟨r₁, hnodots, hdomain⟩ := bind_eq_ok.mp h
  have hfallback : FallbackNx req r.cache r.name ↔
      singleLabel req r.name ∧ checkForLocalDomain r.name req.config r.cache req.now = .ok false
        ∨ singleLabel req r.name = false
        ∧ domainMatchesAnySuffix r.name req.config.literalDomains = .ok true := by
    rw [FallbackNx, hverdict, and_iff_right rfl, or_iff_right fun h => ?_]
    exact absurd (Except.ok.inj h) (by decide)
  have hneeds : needsDomain req r = singleLabel req r.name := by
    simp [needsDomain, singleLabel, hans]
  unfold nodotsAnswers at hnodots
  rw [hneeds] at hnodots
  cases hsingle : singleLabel req r.name with
  | true =>
    rw [hsingle] at hnodots
    obtain ⟨known, hknown, rfl⟩ := map_eq_ok.mp hnodots
    obtain rfl := Except.ok.inj hdomain
    refine ⟨rfl, rfl, ⟨[], (List.append_nil _).symm, by simp, by simp⟩, ?_, rfl, fun _ => rfl⟩
    rw [hfallback, hsingle, hknown]
    cases known <;> simp
  | false =>
    rw [hsingle] at hnodots
    obtain rfl := Except.ok.inj hnodots
    rw [literalDomainAnswers, hans] at hdomain
    obtain ⟨matched, hmatched, rfl⟩ := map_eq_ok.mp hdomain
    cases matched with
    | true =>
      refine ⟨rfl, rfl, ⟨[], (List.append_nil _).symm, by simp, by simp⟩, ?_, rfl, fun _ => rfl⟩
      rw [hfallback, hsingle, hmatched]
      simp
    | false =>
      refine ⟨rfl, rfl, ⟨[], (List.append_nil _).symm, by simp, by simp⟩, ?_, rfl, by simp [hnx]⟩
      rw [hfallback, hsingle, hmatched]
      simp [hnx]

/-- A verdict other than that is the answer. -/
theorem fallbackNx_of_verdict {cache : DnsCache M}
    (hverdict : literalVerdict req cache name = .ok flags) (hflags : flags ≠ 0) :
    FallbackNx req cache name ↔ flags = fNxdomain := by
  rw [FallbackNx, hverdict, or_iff_left fun h => hflags (Except.ok.inj h.1), Except.ok.injEq]

theorem falls_fallbackStage {r r' : Reply M} (hans : r.ans = false)
    (hnx : r.nxdomain = false) (h : fallbackStage req budget baseLen r = .ok r') :
    Falls req r r' := by
  obtain ⟨r₁, hliteral, hrest⟩ := bind_eq_ok.mp h
  rw [literalAnswers, hans] at hliteral
  obtain ⟨found, hfound, hliteral⟩ := bind_eq_ok.mp hliteral
  cases found with
  | none =>
    obtain rfl := Except.ok.inj hliteral
    have hverdict : literalVerdict req r.cache r.name = .ok 0 := by
      rw [literalVerdict, hfound]
      rfl
    exact falls_of_silent hans hnx hverdict hrest
  | some range =>
    obtain ⟨flags, hflags, hliteral⟩ := bind_eq_ok.mp hliteral
    have hverdict : literalVerdict req r.cache r.name = .ok flags := by
      rw [literalVerdict, hfound]
      exact hflags
    rcases List.mem_cons.mp (mem_of_isLocalAnswer hflags) with rfl | hmem
    · obtain rfl := Except.ok.inj hliteral
      exact falls_of_silent hans hnx hverdict hrest
    · have hne : flags ≠ 0 := by
        rintro rfl
        exact absurd hmem (by decide)
      have hbits : ∀ flags ∈ [fNxdomain, fNoerr, fIpv4, fIpv6, fIpv4 ||| fIpv6],
          ((flags &&& fNxdomain != 0) ↔ flags = fNxdomain)
          ∧ ((flags &&& fNxdomain != 0) ∨ (flags &&& fNoerr != 0)
            ∨ (flags &&& (fIpv4 ||| fIpv6) != 0)) := by
        decide
      obtain ⟨hname, hsome⟩ := hbits flags hmem
      have hfallback := (fallbackNx_of_verdict hverdict hne).trans hname.symm
      have hlast : ∀ r₂ : Reply M, r₂.ans → (pure r₂ : Except Fault _) = .ok r₁ → r' = r₂ := by
        intro r₂ hans₂ heq
        rw [← Except.ok.inj heq, nodotsAnswers_of_ans hans₂] at hrest
        exact (Except.ok.inj hrest).symm
      dsimp only at hliteral
      split_ifs at hliteral with hnxdomain hnoerr haddr hlong
      · obtain rfl := hlast _ rfl hliteral
        refine ⟨rfl, rfl, ⟨[], (List.append_nil _).symm, by simp, by simp⟩, ?_, rfl, fun _ => rfl⟩
        exact iff_of_true rfl (hfallback.mpr hnxdomain)
      · obtain rfl := hlast _ rfl hliteral
        refine ⟨rfl, rfl, ⟨[], (List.append_nil _).symm, by simp, by simp⟩, ?_, rfl, fun _ => rfl⟩
        exact iff_of_false (by simp [hnx]) fun h => hnxdomain (hfallback.mp h)
      · obtain rfl := hlast _ rfl hliteral
        refine ⟨rfl, rfl, ⟨[], (List.append_nil _).symm, by simp, by simp⟩, ?_, rfl, fun _ => rfl⟩
        exact iff_of_false (by simp [hnx]) fun h => hnxdomain (hfallback.mp h)
      · obtain rfl := hlast _ rfl hliteral
        refine ⟨rfl, rfl, ⟨_, rfl, fun rr hrr => mem_makeLocalAnswer hrr, fun _ => hnx⟩, ?_, rfl,
          fun _ => rfl⟩
        exact iff_of_false (by simp [hnx]) fun h => hnxdomain (hfallback.mp h)
      · exact absurd hsome (by simp_all)

/-! ### The response -/

omit [Lru M CacheKey CacheRecord] in
theorem rcode_finishResponse :
    (finishResponse query config r).header.rcode = if r.notimp then 4 else if r.nxdomain then 3
      else 0 := by
  have hmask :
      ∀ x code : UInt8, ((x &&& ~~~hb4Rcode) ||| code ||| hb4Ra) &&& hb4Rcode
        = code &&& hb4Rcode := by
    intro x code
    unfold hb4Rcode hb4Ra
    apply UInt8.eq_of_toBitVec_eq
    simp only [UInt8.toBitVec_and, UInt8.toBitVec_or, UInt8.toBitVec_not]
    ext i hi
    interval_cases i <;> simp
  show ((_ &&& ~~~hb4Rcode) ||| _ ||| hb4Ra) &&& hb4Rcode = _
  rw [hmask]
  split_ifs <;> decide

omit [Lru M CacheKey CacheRecord] in
theorem rcode_cases (query : DnsPacket) (config : LocalConfig) (r : Reply M) :
    ((finishResponse query config r).header.rcode = 4 ↔ r.notimp)
      ∧ ((finishResponse query config r).header.rcode = 3 ↔ r.notimp = false ∧ r.nxdomain)
      ∧ ((finishResponse query config r).header.rcode = 0
        ↔ r.notimp = false ∧ r.nxdomain = false) := by
  rw [rcode_finishResponse]
  cases r.notimp <;> cases r.nxdomain <;> decide

theorem answerRequest_eq_ok_iff {query : DnsPacket} {q : DnsQuestion} {cache cache' : DnsCache M}
    {now : Instant} {config : LocalConfig} {metrics : Metrics} (hq : localQuestion query = some q) :
    answerRequest query cache now config metrics = .ok (cache', answer) ↔
      ∃ r₁ r₂, dataStage { qtype := q.qtype, qclass := q.qclass, now, config, metrics }
          { cache, name := toLowercase q.name } = .ok r₁
        ∧ fallbackStage { qtype := q.qtype, qclass := q.qclass, now, config, metrics }
          (responseBudget query config) (responseBaseLen query) r₁ = .ok r₂
        ∧ cache' = r₂.cache ∧ answer = if r₂.ans then some (finishResponse query config r₂)
          else none := by
  unfold answerRequest
  rw [hq]
  rw [map_eq_ok, answerStages_eq]
  simp only [bind_eq_ok, Prod.mk.injEq]
  constructor
  · rintro ⟨r₂, ⟨r₁, hdata, hfallback⟩, hcache, hanswer⟩
    exact ⟨r₁, r₂, hdata, hfallback, hcache.symm, hanswer.symm⟩
  · rintro ⟨r₁, r₂, hdata, hfallback, hcache, hanswer⟩
    exact ⟨r₂, ⟨r₁, hdata, hfallback⟩, hcache.symm, hanswer.symm⟩

theorem answerRequest_eq_ok {query resp : DnsPacket} {cache cache' : DnsCache M} {now : Instant}
    {config : LocalConfig} {metrics : Metrics} :
    answerRequest query cache now config metrics = .ok (cache', some resp)
      ↔ ∃ q r₁ r₂, localQuestion query = some q
        ∧ dataStage { qtype := q.qtype, qclass := q.qclass, now, config, metrics }
          { cache, name := toLowercase q.name } = .ok r₁
        ∧ fallbackStage { qtype := q.qtype, qclass := q.qclass, now, config, metrics }
          (responseBudget query config) (responseBaseLen query) r₁ = .ok r₂
        ∧ r₂.ans ∧ cache' = r₂.cache ∧ resp = finishResponse query config r₂ := by
  cases hq : localQuestion query with
  | none =>
    refine iff_of_false (fun h => ?_) (by simp)
    rw [answerRequest, hq] at h
    cases h
  | some q =>
    rw [answerRequest_eq_ok_iff hq]
    constructor
    · rintro ⟨r₁, r₂, hdata, hfallback, hcache, hresp⟩
      split_ifs at hresp with hans
      exact ⟨q, r₁, r₂, rfl, hdata, hfallback, hans, hcache, Option.some.inj hresp⟩
    · rintro ⟨q', r₁, r₂, hq', hdata, hfallback, hans, hcache, rfl⟩
      obtain rfl := Option.some.inj hq'
      exact ⟨r₁, r₂, hdata, hfallback, hcache, (if_pos hans).symm⟩

omit [Lru M CacheKey CacheRecord] in
/-- An answer with a property that can be computed. -/
theorem exists_answer (answer : Except Fault (DnsCache M × Option DnsPacket)) (p : DnsPacket → Bool)
    (h : (answer.toOption.bind Prod.snd).any p) :
    ∃ cache' resp, answer = .ok (cache', some resp) ∧ p resp := by
  cases hanswer : answer with
  | error e =>
    rw [hanswer] at h
    cases h
  | ok out =>
    obtain ⟨cache', resp⟩ := out
    rw [hanswer] at h
    cases resp with
    | none => cases h
    | some resp => exact ⟨cache', resp, rfl, h⟩

/-- The request of a question. -/
def requestOf (q : DnsQuestion) (now : Instant) (config : LocalConfig) (metrics : Metrics) :
    Request :=
  { qtype := q.qtype, qclass := q.qclass, now, config, metrics }

/-- The reply at the end of the chain from a question's name. -/
def questionEnd (q : DnsQuestion) (cache : DnsCache M) (now : Instant) (config : LocalConfig)
    (metrics : Metrics) : Reply M :=
  endReply (requestOf q now config metrics) { cache, name := toLowercase q.name }

section Response

variable [LawfulLru M CacheKey CacheRecord] {query resp : DnsPacket} {q : DnsQuestion}
  {cache cache' : DnsCache M} {now : Instant} {config : LocalConfig} {metrics : Metrics}

theorem ans_questionEnd (h : (questionEnd q cache now config metrics).nxdomain) :
    (questionEnd q cache now config metrics).ans := by
  unfold questionEnd endReply at h ⊢
  split_ifs at h ⊢
  have hspec :=
    resolveCnameChain_spec (requestOf q now config metrics) 16 { cache, name := toLowercase q.name }
  rw [hspec.nxdomain, Bool.false_or] at h
  rw [hspec.ans, h, Bool.or_true]

section

variable (q) (cache) (now) (config) (metrics)

theorem mem_answers_questionEnd :
    ∀ rr ∈ (questionEnd q cache now config metrics).answers, rr.rtype = 5 := by
  unfold questionEnd endReply
  split_ifs
  · obtain ⟨cnames, hcnames, htypes, -⟩ :=
      (resolveCnameChain_spec (requestOf q now config metrics) 16
        { cache, name := toLowercase q.name }).answers
    rw [hcnames]
    exact htypes
  · simp

theorem notimp_questionEnd : (questionEnd q cache now config metrics).notimp = false := by
  unfold questionEnd endReply
  split_ifs
  · exact (resolveCnameChain_spec _ 16 _).notimp
  · rfl

theorem nxdomain_questionEnd : (questionEnd q cache now config metrics).nxdomain = (q.qclass == 1
      && endsNxdomain (requestOf q now config metrics) cache 16 (toLowercase q.name)) := by
  unfold questionEnd endReply
  split_ifs with hclass
  · rw [(resolveCnameChain_spec _ 16 _).nxdomain, show q.qclass = 1 from hclass]
    simp
  · rw [show (q.qclass == 1) = false from beq_false_of_ne hclass]
    rfl

theorem onlyDrops_questionEnd :
    OnlyDrops (Expired now) cache.records (questionEnd q cache now config metrics).cache.records :=
  onlyDrops_endReply (requestOf q now config metrics) { cache, name := toLowercase q.name }

variable {q} (hqclass : q.qclass = 1)
include hqclass

theorem name_questionEnd : (questionEnd q cache now config metrics).name
      = (chainEnd (requestOf q now config metrics) cache 16 (toLowercase q.name)).2 := by
  rw [questionEnd, endReply_of_in hqclass]
  exact (resolveCnameChain_spec _ 16 _).name

theorem ans_questionEnd_of_in : (questionEnd q cache now config metrics).ans
      = (chainAnswers (requestOf q now config metrics) cache 16 (toLowercase q.name)
        || endsNxdomain (requestOf q now config metrics) cache 16 (toLowercase q.name)) := by
  rw [questionEnd, endReply_of_in hqclass]
  exact (resolveCnameChain_spec _ 16 _).ans

theorem answers_questionEnd_eq_nil_iff : (questionEnd q cache now config metrics).answers = []
      ↔ (chainEnd (requestOf q now config metrics) cache 16 (toLowercase q.name)).1 = 16 := by
  obtain ⟨cnames, hcnames, -, hnil⟩ :=
    (resolveCnameChain_spec (requestOf q now config metrics) 16
      { cache, name := toLowercase q.name }).answers
  rw [questionEnd, endReply_of_in hqclass, hcnames]
  exact hnil

end

/-- The response to a question, by what is found at the end of the chain. -/
structure Responds (req : Request) (e : Reply M) (resp : DnsPacket) : Prop where
  answers : ∃ found fallback, resp.answers = e.answers ++ found ++ fallback
    ∧ (∀ rr, rr ∈ found ↔ Finds req e.cache e.name (.record rr))
    ∧ (∀ rr ∈ fallback, rr.name = e.name ∧ (rr.rtype = 1 ∨ rr.rtype = 28))
    ∧ (fallback ≠ [] → e.ans = false ∧ (∀ f, ¬Finds req e.cache e.name f) ∧ resp.header.rcode ≠ 3)
  notimp : resp.header.rcode = 4 ↔ Finds req e.cache e.name .notImplemented
  nxdomain : resp.header.rcode = 3 ↔ e.nxdomain ∨ Finds req e.cache e.name .noName
    ∨ e.ans = false ∧ (∀ f, ¬Finds req e.cache e.name f) ∧ FallbackNx req e.cache e.name
  noerror : resp.header.rcode = 0 ↔ resp.header.rcode ≠ 3 ∧ resp.header.rcode ≠ 4

/-- The answer is what the stages found. -/
theorem responds_of_found
    (hadds : Adds now (questionEnd q cache now config metrics) r
      (Finds (requestOf q now config metrics)
      (questionEnd q cache now config metrics).cache (questionEnd q cache now config metrics).name))
    (hans : r.ans) :
    Responds (requestOf q now config metrics) (questionEnd q cache now config metrics)
      (finishResponse query config r) := by
  obtain ⟨hfour, hthree, hzero⟩ := rcode_cases query config r
  have hnotimp := hadds.notimp
  rw [notimp_questionEnd, or_iff_right Bool.false_ne_true] at hnotimp
  have hclass : (questionEnd q cache now config metrics).nxdomain → q.qclass = 1 := by
    intro h
    rw [nxdomain_questionEnd, Bool.and_eq_true] at h
    exact eq_of_beq h.1
  generalize questionEnd q cache now config metrics = e at hadds hnotimp hclass ⊢
  obtain ⟨found, hfound, hmem⟩ := hadds.answers
  have hthird : ¬(e.ans = false ∧ (∀ f, ¬Finds (requestOf q now config metrics) e.cache e.name f)
      ∧ FallbackNx (requestOf q now config metrics) e.cache e.name) := by
    rintro ⟨hno, hnone, -⟩
    rcases hadds.ans.mp hans with h | ⟨f, hf⟩
    · rw [hno] at h
      cases h
    · exact hnone f hf
  -- NOTIMP is for class CHAOS and NXDOMAIN for class IN
  have hnot : r.nxdomain → r.notimp = false := by
    intro h
    by_contra hne
    have hchaos := (hnotimp.mp (Bool.not_eq_false _ ▸ hne)).chaos_of_notImplemented.1
    have hin : q.qclass = 1 := by
      rcases hadds.nxdomain.mp h with h | h
      · exact hclass h
      · exact (asks_eq_true h.ptr_of_noName.1).1
    exact absurd (hin.symm.trans hchaos) (by decide)
  refine ⟨⟨found, [], ?_, hmem, by simp, by simp⟩, ?_, ?_, ?_⟩
  · rw [List.append_nil]
    exact hfound
  · rw [hfour, hnotimp]
  · rw [hthree, or_iff_left hthird, ← hadds.nxdomain, and_iff_right_of_imp hnot]
  · rw [hzero, ne_eq, ne_eq, hfour, hthree]
    cases r.notimp <;> cases r.nxdomain <;> decide

/-- Nothing was found, and the answer is that of the fallback stages. -/
theorem responds_of_falls
    (hadds : Adds now (questionEnd q cache now config metrics) r
      (Finds (requestOf q now config metrics)
      (questionEnd q cache now config metrics).cache (questionEnd q cache now config metrics).name))
    (hans : r.ans = false) (hfalls : Falls (requestOf q now config metrics) r r') :
    Responds (requestOf q now config metrics) (questionEnd q cache now config metrics)
      (finishResponse query config r') := by
  obtain ⟨hfour, hthree, hzero⟩ := rcode_cases query config r'
  have hnotimp : r'.notimp = false := by
    rw [hfalls.notimp, ← Bool.not_eq_true, hadds.notimp, notimp_questionEnd]
    rintro (h | h)
    · cases h
    · rw [hadds.ans.mpr (.inr ⟨_, h⟩)] at hans
      cases hans
  have hnxans : (questionEnd q cache now config metrics).nxdomain → _ := ans_questionEnd
  generalize questionEnd q cache now config metrics = e at hadds hnxans ⊢
  have hnone : ∀ f, ¬Finds (requestOf q now config metrics) e.cache e.name f := by
    intro f hf
    rw [hadds.ans.mpr (.inr ⟨f, hf⟩)] at hans
    cases hans
  have hno : e.ans = false := by
    rw [← Bool.not_eq_true]
    intro h
    rw [hadds.ans.mpr (.inl h)] at hans
    cases hans
  have hnx : r'.nxdomain ↔ FallbackNx (requestOf q now config metrics) e.cache e.name := by
    have h := hfalls.nxdomain
    rw [hadds.name] at h
    exact h.trans (iff_of_eq (fallbackNx_of_onlyDrops hadds.drops))
  obtain ⟨found, hfound, hmem⟩ := hadds.answers
  obtain ⟨fallback, hfallback, htypes, hbare⟩ := hfalls.answers
  obtain rfl : found = [] :=
    List.eq_nil_iff_forall_not_mem.mpr fun rr hrr => hnone _ ((hmem rr).mp hrr)
  refine ⟨⟨[], fallback, ?_, hmem, ?_, fun hne => ⟨hno, hnone, ?_⟩⟩, ?_, ?_, ?_⟩
  · rw [← hfound]
    exact hfallback
  · rw [← hadds.name]
    exact htypes
  · rw [ne_eq, hthree, hbare hne]
    simp
  · rw [hfour, hnotimp]
    exact iff_of_false Bool.false_ne_true (hnone _)
  · rw [hthree, and_iff_right hnotimp, hnx, or_iff_right fun h => ?_, or_iff_right (hnone _),
      and_iff_right hno, and_iff_right hnone]
    rw [hnxans h] at hno
    cases hno
  · rw [hzero, ne_eq, ne_eq, hfour, hthree]
    cases r'.notimp <;> cases r'.nxdomain <;> decide

theorem responds_of_answerRequest (hkeyed : ∀ k r, peek cache.records k = some r → k = r.key)
    (hq : localQuestion query = some q)
    (h : answerRequest query cache now config metrics = .ok (cache', some resp)) :
    Responds (requestOf q now config metrics) (questionEnd q cache now config metrics) resp := by
  obtain ⟨q', r₁, r₂, hq', hdata, hfallback, -, -, rfl⟩ := answerRequest_eq_ok.mp h
  obtain rfl := Option.some.inj (hq.symm.trans hq')
  have hadds := adds_dataStage (fun _ => rfl) hkeyed hdata
  cases hans : r₁.ans with
  | true =>
    rw [fallbackStage_of_ans hans] at hfallback
    obtain rfl := Except.ok.inj hfallback
    exact responds_of_found hadds hans
  | false =>
    refine responds_of_falls hadds hans (falls_fallbackStage hans ?_ hfallback)
    rw [← Bool.not_eq_true, hadds.nxdomain]
    intro hnx
    have hsome : r₁.ans := hadds.ans.mpr (hnx.imp ans_questionEnd fun h => ⟨_, h⟩)
    rw [hans] at hsome
    cases hsome

/-- A query is left to the servers only if nothing is known of the name. -/
theorem nothing_of_answerRequest (hkeyed : ∀ k r, peek cache.records k = some r → k = r.key)
    (hq : localQuestion query = some q)
    (h : answerRequest query cache now config metrics = .ok (cache', none)) :
    (questionEnd q cache now config metrics).ans = false
      ∧ (∀ f, ¬Finds (requestOf q now config metrics) (questionEnd q cache now config metrics).cache
        (questionEnd q cache now config metrics).name f)
      ∧ ¬FallbackNx (requestOf q now config metrics) (questionEnd q cache now config metrics).cache
        (questionEnd q cache now config metrics).name := by
  obtain ⟨r₁, r₂, hdata, hfallback, -, hnone⟩ := (answerRequest_eq_ok_iff hq).mp h
  have hans₂ : r₂.ans = false := by
    rw [← Bool.not_eq_true]
    intro hans
    rw [if_pos hans] at hnone
    cases hnone
  have hans₁ : r₁.ans = false := by
    rw [← Bool.not_eq_true]
    intro hans
    rw [fallbackStage_of_ans hans] at hfallback
    rw [← Except.ok.inj hfallback, hans] at hans₂
    cases hans₂
  have hadds := adds_dataStage (fun _ => rfl) hkeyed hdata
  change Adds now (questionEnd q cache now config metrics) r₁
    (Finds (requestOf q now config metrics)
    (questionEnd q cache now config metrics).cache
      (questionEnd q cache now config metrics).name) at hadds
  have hnxans : (questionEnd q cache now config metrics).nxdomain → _ := ans_questionEnd
  generalize questionEnd q cache now config metrics = e at hadds hnxans ⊢
  obtain ⟨hend, hfinds⟩ := not_or.mp (hadds.ans.not.mp (Bool.not_eq_true _ ▸ hans₁))
  rw [Bool.not_eq_true] at hend
  rw [not_exists] at hfinds
  have hnx : r₁.nxdomain = false := by
    rw [← Bool.not_eq_true, hadds.nxdomain]
    rintro (h | h)
    · rw [hnxans h] at hend
      cases hend
    · exact hfinds _ h
  have hfalls := falls_fallbackStage hans₁ hnx hfallback
  refine ⟨hend, hfinds, fun hfall => ?_⟩
  have hcache :
      FallbackNx (requestOf q now config metrics) r₁.cache e.name = FallbackNx _ e.cache e.name :=
    fallbackNx_of_onlyDrops hadds.drops
  have hnx₂ : r₂.nxdomain := by
    rw [hfalls.nxdomain, hadds.name]
    exact hcache.mpr hfall
  rw [hfalls.ans hnx₂] at hans₂
  cases hans₂

omit [LawfulLru M CacheKey CacheRecord] in
theorem exists_familyAnswer {r : Reply M} {rec : CacheRecord}
    (h : (r.cache.lookupForward r.name fam.flag req.now).2 = some rec) :
    ∃ r', familyAnswer fam req r = .ok r' := by
  unfold familyAnswer
  dsimp only
  rw [h]
  dsimp only
  split_ifs
  · exact ⟨_, rfl⟩
  · split
    all_goals exact ⟨_, rfl⟩

omit [LawfulLru M CacheKey CacheRecord] in
/-- What is found for an IPv4 address is answered with NOERROR, unless the chain ends with NXDOMAIN.
-/
theorem Responds.rcode_eq_zero {e : Reply M} (h : Responds req e resp)
    (hqtype : req.qtype = 1) (hqclass : req.qclass = 1) (hnx : e.nxdomain = false) {f : Finding}
    (hf : Finds req e.cache e.name f) : resp.header.rcode = 0 := by
  rw [h.noerror]
  constructor
  · rw [ne_eq, h.nxdomain]
    rintro (hend | hname | ⟨-, hnone, -⟩)
    · rw [hnx] at hend
      cases hend
    · have hasks := (asks_eq_true hname.ptr_of_noName.1).2
      rw [hqtype] at hasks
      exact absurd hasks (by decide)
    · exact hnone f hf
  · rw [ne_eq, h.notimp]
    intro himpl
    exact absurd (hqclass.symm.trans himpl.chaos_of_notImplemented.1) (by decide)

/-- An address in the host records or the cache keeps the address stages from computing one. -/
theorem exists_dataStage (hqtype : req.qtype = 1) (r : Reply M)
    (h : (∃ f, HostFinds req (endReply req r).name f)
      ∨ ((endReply req r).cache.live ⟨toLowercase (endReply req r).name, fIpv4⟩ req.now).isSome
      ∨ ((endReply req r).cache.live ⟨toLowercase (endReply req r).name, fIpv4 ||| fNeg⟩
        req.now).isSome)
    (hans : req.qclass = 3 → r.ans = false) : ∃ r₁, dataStage req r = .ok r₁ := by
  have hrecord := adds_recordStages req r hans
  have hasks : req.asks 28 = false := by simp [Request.asks, hqtype]
  suffices haddress : ∃ r₁, addressAnswers req (recordStages req r) = .ok r₁ by
    obtain ⟨r₁, hr₁⟩ := haddress
    exact ⟨_, map_eq_ok.mpr ⟨r₁, hr₁, rfl⟩⟩
  generalize endReply req r = e at h hrecord
  generalize recordStages req r = s at hrecord
  unfold addressAnswers
  by_cases hnil : hostAnswers req s = []
  · rw [if_neg (not_not.mpr hnil)]
    have hhost : ¬∃ f, HostFinds req e.name f := by
      rintro ⟨f, hf⟩
      rw [← hrecord.name, hostFinds_iff, hnil] at hf
      simp at hf
    have hlookup := DnsCache.lookupForward_snd s.cache s.name fIpv4 req.now
    rw [hrecord.name, DnsCache.live_of_onlyDrops hrecord.drops,
      DnsCache.live_of_onlyDrops hrecord.drops,
      show Cache.typeFlags fIpv4 = fIpv4 from by decide] at hlookup
    have hsome : ∃ rec, (s.cache.lookupForward s.name fIpv4 req.now).2 = some rec := by
      rw [hrecord.name, hlookup, ← Option.isSome_iff_exists, Option.isSome_or, Bool.or_eq_true]
      exact h.resolve_left hhost
    obtain ⟨rec, hrec⟩ := hsome
    obtain ⟨r₁, hr₁⟩ : ∃ r₁, askedAnswer answer4 req s = .ok r₁ := by
      unfold askedAnswer
      split_ifs
      · exact exists_familyAnswer hrec
      · exact ⟨s, rfl⟩
    refine ⟨r₁, bind_eq_ok.mpr ⟨r₁, hr₁, ?_⟩⟩
    rw [askedAnswer, show req.asks answer6.rtype = false from hasks, if_neg Bool.false_ne_true]
  · exact ⟨_, if_pos hnil⟩

/-- A question for an IPv4 address, with an address or its absence in the host records or the cache,
is answered if anything is found. -/
theorem exists_responds (hkeyed : ∀ k r, peek cache.records k = some r → k = r.key)
    (hq : localQuestion query = some q) (hqtype : q.qtype = 1)
    (h : (∃ f,
      HostFinds (requestOf q now config metrics) (questionEnd q cache now config metrics).name f)
      ∨ ((questionEnd q cache now config metrics).cache.live
          ⟨toLowercase (questionEnd q cache now config metrics).name, fIpv4⟩ now).isSome
      ∨ ((questionEnd q cache now config metrics).cache.live
          ⟨toLowercase (questionEnd q cache now config metrics).name, fIpv4 ||| fNeg⟩ now).isSome)
    {f : Finding}
    (hf : Finds (requestOf q now config metrics) (questionEnd q cache now config metrics).cache
      (questionEnd q cache now config metrics).name f) :
    ∃ cache' resp, answerRequest query cache now config metrics = .ok (cache', some resp)
      ∧ Responds (requestOf q now config metrics) (questionEnd q cache now config metrics)
        resp := by
  obtain ⟨r₁, hdata⟩ := exists_dataStage hqtype { cache, name := toLowercase q.name } h fun _ => rfl
  have hans : r₁.ans := (adds_dataStage (fun _ => rfl) hkeyed hdata).ans.mpr (.inr ⟨f, hf⟩)
  have hanswer :
      answerRequest query cache now config metrics
        = .ok (r₁.cache, some (finishResponse query config r₁)) :=
    answerRequest_eq_ok.mpr ⟨q, r₁, r₁, hq, hdata, fallbackStage_of_ans hans, hans, rfl, rfl⟩
  exact ⟨_, _, hanswer, responds_of_answerRequest hkeyed hq hanswer⟩

/-- The same where the chain does not lead away from the name of the question. -/
theorem exists_responds_of_stays (hkeyed : ∀ k r, peek cache.records k = some r → k = r.key)
    (hq : localQuestion query = some ⟨n, 1, 1⟩)
    (hstays : (chainEnd (requestOf ⟨n, 1, 1⟩ now config metrics) cache 16 (toLowercase n)).2
      = toLowercase n)
    (h : (∃ a, HostRecordGives config n a) ∨ (cache.live ⟨toLowercase n, fIpv4⟩ now).isSome
      ∨ (cache.live ⟨toLowercase n, fIpv4 ||| fNeg⟩ now).isSome)
    (hf : Finds (requestOf ⟨n, 1, 1⟩ now config metrics) cache (toLowercase n) f) :
    ∃ cache' resp, answerRequest query cache now config metrics = .ok (cache', some resp)
      ∧ Responds (requestOf ⟨n, 1, 1⟩ now config metrics)
        (questionEnd ⟨n, 1, 1⟩ cache now config metrics) resp := by
  have hname : (questionEnd ⟨n, 1, 1⟩ cache now config metrics).name = toLowercase n :=
    (name_questionEnd cache now config metrics rfl).trans hstays
  have hdrops := onlyDrops_questionEnd ⟨n, 1, 1⟩ cache now config metrics
  apply exists_responds hkeyed hq rfl
  · rw [hname, toLowercase_toLowercase, DnsCache.live_of_onlyDrops hdrops,
      DnsCache.live_of_onlyDrops hdrops]
    refine h.imp_left fun ⟨a, ha⟩ => ?_
    exact ⟨_, (hostFinds_iff_of_a rfl rfl).mpr ⟨a, ha, rfl⟩⟩
  · rw [hname]
    exact (finds_of_onlyDrops_of_a rfl rfl hdrops).mpr hf

end Response

end DnsmasqRs.Rfc1035
