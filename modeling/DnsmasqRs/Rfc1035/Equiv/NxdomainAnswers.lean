import DnsmasqRs.Rfc1035.Equiv.LocalPrecedence

/-!
# NXDOMAIN in local answers

An NXDOMAIN says that the name at the end of the CNAME chain does not exist, for any type.  The
stages of `answer_request` do not keep to that.  The cached NXDOMAIN of a name does not stop the
later stages from adding the records they find (`NxBesideData`), and a name that has an address can
still be denied for a type that it has no record of, if it is in a `--local` domain (`NxForType`).
Apart from these, NXDOMAIN comes with CNAMEs only, and not for the types of a name with an address
(`nxdomain_consistent_iff`).
-/

namespace DnsmasqRs.Rfc1035

open Lru Utf8 Wire Cache Domain DomainMatch Fallible DnsProtocol Dnsmasq List

section Consistency

variable {M : Type} [Lru M CacheKey CacheRecord]

section

variable (q : DnsQuestion) (cache : DnsCache M) (now : Instant) (config : LocalConfig)
  (metrics : Metrics)

/-- At the end of the chain there is an NXDOMAIN, of the cache or a reverse lookup, and yet a
record. -/
def NxBesideData : Prop :=
  let req := requestOf q now config metrics
  let e := questionEnd q cache now config metrics
  (e.nxdomain ∨ Finds req e.cache e.name .noName) ∧ ∃ rr, Finds req e.cache e.name (.record rr)
    ∧ rr.rtype ≠ 5

/-- A reverse lookup finds NXDOMAIN, or nothing is found and the name is not to be forwarded. -/
def NxForType : Prop :=
  let req := requestOf q now config metrics
  let e := questionEnd q cache now config metrics
  Finds req e.cache e.name .noName ∨ e.ans = false ∧ (∀ f, ¬Finds req e.cache e.name f)
    ∧ FallbackNx req e.cache e.name

end

/-- The question for the address of a name is answered with NOERROR and an A record of that name. -/
def HasAddress (n : Str) (cache : DnsCache M) (now : Instant) (config : LocalConfig)
    (metrics : Metrics) : Prop :=
  ∃ query cache' resp, localQuestion query = some ⟨n, 1, 1⟩
    ∧ answerRequest query cache now config metrics = .ok (cache', some resp) ∧ resp.header.rcode = 0
    ∧ ∃ rr ∈ resp.answers, rr.name = toLowercase n ∧ rr.rtype = 1

variable [LawfulLru M CacheKey CacheRecord] {query resp : DnsPacket} {q : DnsQuestion}
  {cache cache' : DnsCache M} {now : Instant} {config : LocalConfig} {metrics : Metrics}

theorem only_cnames_iff (hvalid : cache.Valid) (hq : localQuestion query = some q)
    (h : answerRequest query cache now config metrics = .ok (cache', some resp)) :
    (resp.header.rcode = 3 → ∀ rr ∈ resp.answers, rr.rtype = 5)
      ↔ ¬NxBesideData q cache now config metrics := by
  have hresp := responds_of_answerRequest hvalid.keyed hq h
  have hcnames := mem_answers_questionEnd q cache now config metrics
  obtain ⟨found, fallback, hanswers, hfound, -, hfallback⟩ := hresp.answers
  constructor
  · rintro hall ⟨hnx, rr, hrr, htype⟩
    have hrcode : resp.header.rcode = 3 := hresp.nxdomain.mpr (hnx.imp_right .inl)
    refine htype (hall hrcode rr ?_)
    rw [hanswers]
    exact mem_append_left _ (mem_append_right _ ((hfound rr).mpr hrr))
  · intro hnot hrcode rr hrr
    rw [hanswers, mem_append, mem_append] at hrr
    rcases hrr with (hrr | hrr) | hrr
    · exact hcnames rr hrr
    · by_contra htype
      refine hnot ⟨?_, rr, (hfound rr).mp hrr, htype⟩
      rcases hresp.nxdomain.mp hrcode with hnx | hnx | ⟨-, hnone, -⟩
      · exact .inl hnx
      · exact .inr hnx
      · exact absurd ((hfound rr).mp hrr) (hnone _)
    · exact absurd hrcode (hfallback (ne_nil_of_mem hrr)).2.2

theorem nxdomain_of_hasAddress (hvalid : cache.Valid) (h : HasAddress n cache now config metrics) :
    (questionEnd ⟨n, t, 1⟩ cache now config metrics).nxdomain = false := by
  obtain ⟨query, cache', resp, hq, hans, hrcode, -⟩ := h
  have hresp := responds_of_answerRequest hvalid.keyed hq hans
  have hne : (questionEnd ⟨n, 1, 1⟩ cache now config metrics).nxdomain = false := by
    rw [← Bool.not_eq_true]
    intro hnx
    rw [hresp.nxdomain.mpr (.inl hnx)] at hrcode
    exact absurd hrcode (by decide)
  have haddress :
      endsNxdomain (requestOf ⟨n, 1, 1⟩ now config metrics) cache 16 (toLowercase n) = false := by
    simpa [nxdomain_questionEnd] using hne
  have hqtype : (requestOf ⟨n, 1, 1⟩ now config metrics).qtype ≠ 5 := by simp [requestOf]
  have htype :
      endsNxdomain (requestOf ⟨n, t, 1⟩ now config metrics) cache 16 (toLowercase n) = false :=
    endsNxdomain_of_qtype (requestOf ⟨n, 1, 1⟩ now config metrics)
      (requestOf ⟨n, t, 1⟩ now config metrics) rfl rfl hqtype haddress
  rw [nxdomain_questionEnd, htype, Bool.and_false]

/-- When NXDOMAIN comes with CNAMEs only, and when it does not come for a name with an address. -/
theorem nxdomain_consistent_iff (hvalid : cache.Valid) (now : Instant) (metrics : Metrics) :
    (∀ query config q cache' resp, localQuestion query = some q →
      answerRequest query cache now config metrics = .ok (cache', some resp) →
        ((resp.header.rcode = 3 → ∀ rr ∈ resp.answers, rr.rtype = 5)
          ↔ ¬NxBesideData q cache now config metrics))
    ∧ ∀ daemon n, HasAddress n cache now (daemonLocalData daemon) metrics →
      ∀ query t cache' resp, localQuestion query = some ⟨n, t, 1⟩ →
        answerRequest query cache now (daemonLocalData daemon) metrics = .ok (cache', some resp) →
          (resp.header.rcode ≠ 3
            ↔ ¬NxForType ⟨n, t, 1⟩ cache now (daemonLocalData daemon) metrics) := by
  refine ⟨fun query config q cache' resp hq h => only_cnames_iff hvalid hq h, ?_⟩
  intro daemon n haddr query t cache' resp hq h
  have hresp := responds_of_answerRequest hvalid.keyed hq h
  rw [ne_eq, hresp.nxdomain,
    or_iff_right (Bool.eq_false_iff.mp (nxdomain_of_hasAddress hvalid haddr))]
  rfl

end Consistency

/-! ### A host record in a local domain -/

/-- `host-record=h.lan,192.0.2.1` -/
def hostDaemon : Daemon where
  hostRecords := [⟨["h.lan".toList], some (.new 192 0 2 1), none⟩]

/-- The same with `local=/lan/`. -/
def localDaemon : Daemon where
  hostRecords := [⟨["h.lan".toList], some (.new 192 0 2 1), none⟩]
  servers := [
    { flags := .literalAddress, domain := "lan".toList, addr := .v4 Ipv4Addr.unspecified }]

/-- An upstream server has denied the name, when it was asked for an IPv6 address. -/
def deniedCache : DnsCache (ListLru CacheKey CacheRecord) :=
  emptyCache.insert
    { name := "h.lan".toList, flags := fNxdomain ||| fNeg ||| fForward, ttl := 60
      expires := fromSecs 60 }

/-- The address comes with NXDOMAIN. -/
theorem answerRequest_denied :
    ∃ cache' resp,
      answerRequest (hostQuery 1) deniedCache 0 (daemonLocalData hostDaemon) ⟨0, 0, 0, 0⟩
      = .ok (cache', some resp) ∧ resp.header.rcode = 3 ∧ ∃ rr ∈ resp.answers, rr.rtype ≠ 5 := by
  obtain ⟨cache', resp, hanswer, hp⟩ := exists_answer
    (answerRequest (hostQuery 1) deniedCache 0 (daemonLocalData hostDaemon) ⟨0, 0, 0, 0⟩)
    (fun resp => resp.header.rcode == 3 && resp.answers.any (·.rtype != 5)) (by decide +kernel)
  simp only [Bool.and_eq_true, beq_iff_eq, any_eq_true, bne_iff_ne] at hp
  exact ⟨cache', resp, hanswer, hp⟩

theorem hasAddress_local :
    HasAddress "h.lan".toList emptyCache 0 (daemonLocalData localDaemon) ⟨0, 0, 0, 0⟩ := by
  obtain ⟨cache', resp, hanswer, hp⟩ := exists_answer
    (answerRequest (hostQuery 1) emptyCache 0 (daemonLocalData localDaemon) ⟨0, 0, 0, 0⟩)
    (fun resp => resp.header.rcode == 0
      && resp.answers.any fun rr => rr.name == toLowercase "h.lan".toList && rr.rtype == 1)
        (by decide +kernel)
  simp only [Bool.and_eq_true, beq_iff_eq, any_eq_true] at hp
  exact ⟨hostQuery 1, cache', resp, rfl, hanswer, hp⟩

theorem answerRequest_local :
    ∃ cache' resp,
      answerRequest (hostQuery 15) emptyCache 0 (daemonLocalData localDaemon) ⟨0, 0, 0, 0⟩
      = .ok (cache', some resp) ∧ resp.header.rcode = 3 := by
  obtain ⟨cache', resp, hanswer, hp⟩ := exists_answer
    (answerRequest (hostQuery 15) emptyCache 0 (daemonLocalData localDaemon) ⟨0, 0, 0, 0⟩)
    (fun resp => resp.header.rcode == 3) (by decide +kernel)
  exact ⟨cache', resp, hanswer, eq_of_beq hp⟩

/-- A denied name is answered with its address, and a name with an address is denied. -/
theorem not_consistent_host :
    (∃ cache' resp,
      answerRequest (hostQuery 1) deniedCache 0 (daemonLocalData hostDaemon) ⟨0, 0, 0, 0⟩
        = .ok (cache', some resp) ∧ resp.header.rcode = 3 ∧ ∃ rr ∈ resp.answers, rr.rtype ≠ 5)
    ∧ HasAddress "h.lan".toList emptyCache 0 (daemonLocalData localDaemon) ⟨0, 0, 0, 0⟩
    ∧ ∃ cache' resp,
      answerRequest (hostQuery 15) emptyCache 0 (daemonLocalData localDaemon) ⟨0, 0, 0, 0⟩
        = .ok (cache', some resp) ∧ resp.header.rcode = 3 :=
  ⟨answerRequest_denied, hasAddress_local, answerRequest_local⟩

/-- The two conditions fail there. -/
theorem nxdomain_consistent_iff_host :
    NxBesideData ⟨"h.lan".toList, 1, 1⟩ deniedCache 0 (daemonLocalData hostDaemon) ⟨0, 0, 0, 0⟩
      ∧ NxForType ⟨"h.lan".toList, 15, 1⟩ emptyCache 0 (daemonLocalData localDaemon)
        ⟨0, 0, 0, 0⟩ := by
  obtain ⟨cache', resp, hanswer, hrcode, rr, hrr, htype⟩ := answerRequest_denied
  obtain ⟨cache'', resp', hanswer', hrcode'⟩ := answerRequest_local
  have hdenied : deniedCache.Valid := valid_emptyCache.insert _
  constructor
  · by_contra hnot
    have hall := ((nxdomain_consistent_iff hdenied 0 ⟨0, 0, 0, 0⟩).1 _ _ _ _ _ rfl hanswer).mpr hnot
    exact htype (hall hrcode rr hrr)
  · by_contra hnot
    have hne :=
      ((nxdomain_consistent_iff valid_emptyCache 0 ⟨0, 0, 0, 0⟩).2 _ _ hasAddress_local _ _ _ _ rfl
        hanswer').mpr hnot
    exact hne hrcode'

end DnsmasqRs.Rfc1035
