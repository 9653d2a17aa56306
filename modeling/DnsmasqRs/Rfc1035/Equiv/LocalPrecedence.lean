import DnsmasqRs.LocalData
import DnsmasqRs.Rfc1035.Equiv.Addresses
import DnsmasqRs.Rfc1035.Equiv.AnswerSpec
import DnsmasqRs.Rfc1035.Equiv.CacheHistory

/-!
# Local data and upstream data

A host record or a hosts file gives a name an address, and the upstream servers may say something
else about the name.  Their answers for the address itself do not replace a static record, but those
for other types are stored under keys of their own, and `answer_request` looks at these first: a
CNAME leads away from the name, an NXDOMAIN makes the whole reply one.  Among the local data, the
addresses of host records hide those of hosts files.  With none of this, the local address is
answered (`local_precedence_iff`).
-/

namespace DnsmasqRs.Rfc1035

open Lru Utf8 Wire Cache Domain DomainMatch Fallible DnsProtocol List Option

section Precedence

variable {M : Type} [Lru M CacheKey CacheRecord]

/-- A live forward record of a hosts file gives the name an IPv4 address. -/
def HostsFileGives (cache : DnsCache M) (now : Instant) (n : Str) (a : Ipv4Addr) : Prop :=
  ∃ k rec, peek cache.records k = some rec ∧ recordIsExpired rec now = false
    ∧ rec.flags &&& fHosts ≠ 0 ∧ rec.flags &&& fForward ≠ 0
    ∧ toLowercase rec.name = toLowercase n ∧ rec.addr = some (.addr4 a)

/-- Nothing stands before the local address: the CNAMEs do not lead away from the name, the cache
has no NXDOMAIN for it, and the address is one of those that the configuration gives, if it gives
any. -/
structure Unshadowed (req : Request) (cache : DnsCache M) (n : Str) (a : Ipv4Addr) : Prop where
  stays : (chainEnd req cache 16 (toLowercase n)).2 = toLowercase n
  exists_name : endsNxdomain req cache 16 (toLowercase n) = false
  address : HostRecordGives req.config n a ∨ (∀ b, ¬HostRecordGives req.config n b)
    ∨ ∃ t ∈ req.config.rrRecords, toLowercase t.name = toLowercase n ∧ t.rclass = 1
    ∧ t.txt = a.octets.toList

/-- The question is answered with NOERROR and an A record with the address. -/
def AnswersAddress (query : DnsPacket) (cache : DnsCache M) (now : Instant) (config : LocalConfig)
    (metrics : Metrics) (n : Str) (a : Ipv4Addr) : Prop :=
  ∃ cache' resp, answerRequest query cache now config metrics = .ok (cache', some resp)
    ∧ resp.header.rcode = 0 ∧ ∃ rr ∈ resp.answers, rr.name = toLowercase n ∧ rr.rtype = 1
    ∧ rr.rclass = 1
      ∧ rr.rdata = a.octets.toList

theorem not_answersAddress_of_rcode {cache : DnsCache M}
    (hok : (answerRequest query cache now config metrics).toOption = some (cache', answer))
    (hall : answer.all (·.header.rcode != 0)) :
    ¬AnswersAddress query cache now config metrics n a := by
  rintro ⟨cache'', resp, hanswer, hrcode, -⟩
  rw [toOption_eq_some, hanswer] at hok
  obtain ⟨rfl, rfl⟩ := Prod.mk.inj (Except.ok.inj hok)
  rw [all_some, hrcode] at hall
  exact absurd hall (by decide)

variable [LawfulLru M CacheKey CacheRecord] {c₀ cache : DnsCache M} {now : Instant} {n : Str}
  {a : Ipv4Addr}

theorem live_of_hostsFileGives (hfresh : Fresh c₀)
    (hrun : runEvents c₀ events = some cache) (h : HostsFileGives cache now n a) :
    ∃ rec, cache.live ⟨toLowercase n, fIpv4⟩ now = some rec ∧ rec.addr = some (.addr4 a) := by
  obtain ⟨k, rec, hpeek, hlive, hhosts, hforward, hname, haddr⟩ := h
  have hkey := (valid_of_runEvents hfresh.valid hrun).keyed k rec hpeek
  obtain ⟨event, -, hwrites⟩ := writes_of_runEvents hfresh hrun hpeek
  refine ⟨rec, ?_, haddr⟩
  have hflags : Cache.typeFlags rec.flags = fIpv4 := by
    cases event with
    | hosts f => exact hwrites.typeFlags_eq hforward haddr
    | reply r => exact absurd hwrites.not_hosts hhosts
  rw [CacheRecord.key, hname, hflags] at hkey
  rw [← hkey]
  exact DnsCache.live_eq_some.mpr ⟨hpeek, hlive⟩

variable {query : DnsPacket} {config : LocalConfig} {metrics : Metrics}

omit [LawfulLru M CacheKey CacheRecord] in
/-- At the name itself an address is found: that of the hosts file unless host records hide it. -/
theorem exists_finds_of_local (cache : DnsCache M) (now : Instant) (metrics : Metrics)
    (hlocal : HostRecordGives config n a ∨
      ∃ rec, cache.live ⟨toLowercase n, fIpv4⟩ now = some rec ∧ rec.addr = some (.addr4 a)) :
    ∃ rr, Finds (requestOf ⟨n, 1, 1⟩ now config metrics) cache (toLowercase n) (.record rr)
      ∧ (HostRecordGives config n a ∨ (∀ b, ¬HostRecordGives config n b) →
        rr.rtype = 1 ∧ rr.rclass = 1 ∧ rr.rdata = a.octets.toList) := by
  set req := requestOf ⟨n, 1, 1⟩ now config metrics
  have hfinds : ∀ f, Finds req cache (toLowercase n) f ↔ _ := fun f => finds_iff_of_a rfl rfl
  have hhost : ∀ f, HostFinds req (toLowercase n) f ↔ _ := fun f => hostFinds_iff_of_a rfl rfl
  by_cases hgives : HostRecordGives config n a
  · refine ⟨_, (hfinds _).mpr (.inr (.inl ((hhost _).mpr ⟨a, hgives, rfl⟩))), fun _ => ?_⟩
    exact ⟨rfl, rfl, rfl⟩
  · obtain ⟨rec, hrec, haddr⟩ := hlocal.resolve_left hgives
    by_cases hnone : ∀ b, ¬HostRecordGives config n b
    · have hno : ∀ f, ¬HostFinds req (toLowercase n) f := by
        intro f hf
        obtain ⟨b, hb, -⟩ := (hhost f).mp hf
        exact hnone b hb
      have hfamily : FamilyFinds answer4 req cache (toLowercase n)
          (.record (answerRr (toLowercase n) 1 (DnsCache.crecTtl rec now) a.octets.toList)) := by
        unfold FamilyFinds
        rw [toLowercase_toLowercase,
          show cache.live ⟨toLowercase n, answer4.flag⟩ req.now = some rec from hrec]
        exact ⟨a, by rw [haddr]; rfl, rfl⟩
      exact ⟨_, (hfinds _).mpr (.inr (.inr ⟨hno, hfamily⟩)), fun _ => ⟨rfl, rfl, rfl⟩⟩
    · rw [not_forall] at hnone
      obtain ⟨b, hb⟩ := hnone
      rw [not_not] at hb
      refine ⟨_, (hfinds _).mpr (.inr (.inl ((hhost _).mpr ⟨b, hb, rfl⟩))), ?_⟩
      rintro (h | h)
      · exact absurd h hgives
      · exact absurd hb (h b)

theorem octets_injective {a b : Ipv4Addr} (h : a.octets.toList = b.octets.toList) : a = b := by
  cases a
  cases b
  rw [Ipv4Addr.mk.injEq]
  exact Vector.toList_inj.mp h

section

variable (hkeyed : ∀ k r, peek cache.records k = some r → k = r.key)
include hkeyed

/-- Where the name has an address, whichever that is, an address that is answered is one that
nothing stands before. -/
theorem unshadowed_of_answers (hq : localQuestion query = some ⟨n, 1, 1⟩)
    (hlocal : HostRecordGives config n b ∨
      ∃ rec, cache.live ⟨toLowercase n, fIpv4⟩ now = some rec ∧ rec.addr = some (.addr4 b))
    (h : AnswersAddress query cache now config metrics n a) :
    Unshadowed (requestOf ⟨n, 1, 1⟩ now config metrics) cache n a := by
  obtain ⟨cache', resp, hanswer, hrcode, rr, hrr, hrrname, hrtype, -, hrdata⟩ := h
  have hresp := responds_of_answerRequest hkeyed hq hanswer
  have hcnames := mem_answers_questionEnd ⟨n, 1, 1⟩ cache now config metrics
  have hname : (questionEnd ⟨n, 1, 1⟩ cache now config metrics).name = _ :=
    name_questionEnd cache now config metrics rfl
  have hnx := nxdomain_questionEnd ⟨n, 1, 1⟩ cache now config metrics
  have hfinds : ∀ name f, Finds (requestOf ⟨n, 1, 1⟩ now config metrics) _ name f ↔ _ :=
    fun name f =>
      finds_of_onlyDrops_of_a rfl rfl (onlyDrops_questionEnd ⟨n, 1, 1⟩ cache now config metrics)
  generalize questionEnd ⟨n, 1, 1⟩ cache now config metrics = e at hresp hcnames hname hnx hfinds
  obtain ⟨found, fallback, hanswers, hfound, hfallback, hnone⟩ := hresp.answers
  have hnames : e.name = toLowercase n ∧ (rr ∈ found ∨ rr ∈ fallback) := by
    rw [hanswers, mem_append, mem_append] at hrr
    rcases hrr with (hmem | hmem) | hmem
    · rw [hcnames rr hmem] at hrtype
      exact absurd hrtype (by decide)
    · exact ⟨((hfound rr).mp hmem).name_eq.symm.trans hrrname, .inl hmem⟩
    · exact ⟨(hfallback rr hmem).1.symm.trans hrrname, .inr hmem⟩
  refine ⟨hname.symm.trans hnames.1, ?_, ?_⟩
  · rw [← Bool.not_eq_true]
    intro hend
    rw [hresp.nxdomain.mpr (.inl (hnx.trans (by rw [hend]; rfl)))] at hrcode
    exact absurd hrcode (by decide)
  · rcases hnames.2 with hmem | hmem
    · have hrecord := (hfound rr).mp hmem
      rw [hnames.1, finds_iff_of_a rfl rfl] at hrecord
      rcases hrecord with ⟨-, t, ht, htname, htype, heq⟩ | hhost | ⟨hno, -⟩
      · obtain rfl := Finding.record.inj heq
        exact .inr (.inr ⟨t, ht, htname, hrtype, hrdata⟩)
      · obtain ⟨ip, hip, heq⟩ := (hostFinds_iff_of_a rfl rfl).mp hhost
        obtain rfl := Finding.record.inj heq
        rw [← octets_injective hrdata]
        exact .inl hip
      · exact .inr (.inl fun b hb => hno _ ((hostFinds_iff_of_a rfl rfl).mpr ⟨b, hb, rfl⟩))
    · obtain ⟨rr', hrr', -⟩ := exists_finds_of_local cache now metrics hlocal
      rw [← hnames.1, ← hfinds] at hrr'
      exact absurd hrr' ((hnone (ne_nil_of_mem hmem)).2.1 _)

theorem answersAddress_of_finds (hq : localQuestion query = some ⟨n, 1, 1⟩)
    (hstays : (chainEnd (requestOf ⟨n, 1, 1⟩ now config metrics) cache 16 (toLowercase n)).2
      = toLowercase n)
    (hexists : endsNxdomain (requestOf ⟨n, 1, 1⟩ now config metrics) cache 16 (toLowercase n)
      = false)
    (hlive : (∃ b, HostRecordGives config n b) ∨ (cache.live ⟨toLowercase n, fIpv4⟩ now).isSome)
    (hf : Finds (requestOf ⟨n, 1, 1⟩ now config metrics) cache (toLowercase n) (.record rr))
    (hrr : rr.rtype = 1 ∧ rr.rclass = 1 ∧ rr.rdata = a.octets.toList) :
    AnswersAddress query cache now config metrics n a := by
  set st := questionEnd ⟨n, 1, 1⟩ cache now config metrics
  obtain ⟨cache', resp, hanswer, hresp⟩ :=
    exists_responds_of_stays hkeyed hq hstays (hlive.imp_right .inl) hf
  have hname : st.name = toLowercase n :=
    (name_questionEnd cache now config metrics rfl).trans hstays
  have hnx : st.nxdomain = false := (nxdomain_questionEnd ..).trans hexists
  have hfound : Finds (requestOf ⟨n, 1, 1⟩ now config metrics) st.cache st.name (.record rr) := by
    rw [hname]
    exact (finds_of_onlyDrops_of_a rfl rfl
      (onlyDrops_questionEnd ⟨n, 1, 1⟩ cache now config metrics)).mpr hf
  obtain ⟨found, fallback, hanswers, hmem, -⟩ := hresp.answers
  refine ⟨cache', resp, hanswer, hresp.rcode_eq_zero rfl rfl hnx hfound, rr, ?_, hf.name_eq, hrr⟩
  rw [hanswers]
  exact mem_append_left _ (mem_append_right _ ((hmem rr).mpr hfound))

/-- Of the addresses of a name in the cache or in the host records, the one looked up is answered
unless something stands before it. -/
theorem Unshadowed.answers (hq : localQuestion query = some ⟨n, 1, 1⟩)
    (hlocal : HostRecordGives config n b ∨
      ∃ rec, cache.live ⟨toLowercase n, fIpv4⟩ now = some rec ∧ rec.addr = some (.addr4 b))
    (h : Unshadowed (requestOf ⟨n, 1, 1⟩ now config metrics) cache n a) :
    AnswersAddress query cache now config metrics n a
      ∨ (∀ b, ¬HostRecordGives config n b) ∧ AnswersAddress query cache now config metrics n b := by
  have hlive : (∃ b, HostRecordGives config n b) ∨ (cache.live ⟨toLowercase n, fIpv4⟩ now).isSome :=
    hlocal.imp (fun h => ⟨b, h⟩) fun ⟨rec, hrec, _⟩ => isSome_of_eq_some hrec
  rcases h.address with hgives | hnone | ⟨t, ht, htname, htype, htxt⟩
  · obtain ⟨rr, hrr, hrecord⟩ := exists_finds_of_local cache now metrics (.inl hgives)
    exact .inl
      (answersAddress_of_finds hkeyed hq h.stays h.exists_name hlive hrr (hrecord (.inl hgives)))
  · obtain ⟨rr, hrr, hrecord⟩ := exists_finds_of_local cache now metrics hlocal
    exact .inr ⟨hnone, answersAddress_of_finds hkeyed hq h.stays h.exists_name hlive hrr
        (hrecord (.inr hnone))⟩
  · exact .inl (answersAddress_of_finds hkeyed hq h.stays h.exists_name hlive
      (.rr ⟨rfl, t, ht, htname, .inl htype, rfl⟩) ⟨htype, rfl, htxt⟩)

end

/-- The local address is answered unless something stands before it. -/
theorem local_precedence_iff {events : List CacheEvent} (hfresh : Fresh c₀)
    (hrun : runEvents c₀ events = some cache) (hq : localQuestion query = some ⟨n, 1, 1⟩)
    (hlocal : HostRecordGives config n a ∨ HostsFileGives cache now n a) :
    AnswersAddress query cache now config metrics n a ↔
      Unshadowed (requestOf ⟨n, 1, 1⟩ now config metrics) cache n a := by
  have hkeyed := (valid_of_runEvents hfresh.valid hrun).keyed
  have hlive := hlocal.imp_right (live_of_hostsFileGives hfresh hrun)
  refine ⟨unshadowed_of_answers hkeyed hq hlive, fun h => ?_⟩
  rcases h.answers hkeyed hq hlive with hanswer | ⟨-, hanswer⟩
  all_goals exact hanswer

end Precedence

/-! ### A hosts file and an upstream NXDOMAIN -/

/-- A query for a type of the name `h.lan`. -/
def hostQuery (qtype : UInt16) : DnsPacket where
  header := ⟨1, 0, 0, 1, 0, 0, 0⟩
  questions := [⟨"h.lan".toList, qtype, 1⟩]
  answers := []
  authority := []
  additional := []

/-- The hosts file has one line. -/
def hostFile : CacheEvent :=
  .hosts { text := "192.0.2.1 h.lan".toList, ttl := 0, uid := 1, now := 0 }

/-- The upstream server answers a question for the IPv6 address with NXDOMAIN. -/
def denial : CacheEvent := .reply
  { packet :=
      { header := ⟨0x1234, 0x81, 0x83, 1, 0, 0, 0⟩
        questions := [⟨"h.lan".toList, 28, 1⟩]
        answers := []
        authority := []
        additional := [] }
    now := 0
    config := { negTtl := 60 } }

/-- The address that the hosts file gives. -/
def hostAddr : Ipv4Addr := .new 192 0 2 1

theorem fresh_emptyCache : Fresh emptyCache := ⟨peek_emptyCache, valid_emptyCache.capacity⟩

/-- The key and the record that the line of the hosts file writes. -/
def hostRecord : CacheRecord where
  name := "h.lan".toList
  flags := fIpv4 ||| fForward ||| fHosts ||| fImmortal
  ttl := 0
  expires := fromSecs 3600
  addr := some (.addr4 hostAddr)
  uid := 1

theorem hostsFileGives_of_peek {cache : DnsCache (ListLru CacheKey CacheRecord)}
    (h : peek cache.records ⟨"h.lan".toList, fIpv4⟩ = some hostRecord) :
    HostsFileGives cache 0 "h.lan".toList hostAddr :=
  ⟨_, hostRecord, h, by decide, by decide, by decide, rfl, rfl⟩

/-- The NXDOMAIN takes the place of the address in the hosts file. -/
theorem not_answersAddress_denied :
    Fresh emptyCache ∧ ∃ cache, runEvents emptyCache [hostFile, denial] = some cache
      ∧ HostsFileGives cache 0 "h.lan".toList hostAddr
      ∧ localQuestion (hostQuery 1) = some ⟨"h.lan".toList, 1, 1⟩
      ∧ ¬AnswersAddress (hostQuery 1) cache 0 (Dnsmasq.daemonLocalData {})
        ⟨0, 0, 0, 0⟩ "h.lan".toList hostAddr := by
  have hrun : (runEvents emptyCache [hostFile, denial]).any (fun cache =>
      peek cache.records ⟨"h.lan".toList, fIpv4⟩ == some hostRecord
      && (answerRequest (hostQuery 1) cache 0 (Dnsmasq.daemonLocalData {})
        ⟨0, 0, 0, 0⟩).toOption.any fun r =>
        r.2.all (·.header.rcode != 0)) := by
    decide +kernel
  obtain ⟨cache, hcache, heval⟩ := (any_eq_true _ _).mp hrun
  rw [Bool.and_eq_true, beq_iff_eq, Option.any_eq_true] at heval
  obtain ⟨hpeek, ⟨cache', answer⟩, hok, hall⟩ := heval
  refine ⟨fresh_emptyCache, cache, hcache, hostsFileGives_of_peek hpeek, rfl, ?_⟩
  exact not_answersAddress_of_rcode hok hall

/-- The condition for the hosts file alone. -/
theorem local_precedence_iff_host : ∃ cache, runEvents emptyCache [hostFile] = some cache
      ∧ HostsFileGives cache 0 "h.lan".toList hostAddr
      ∧ (AnswersAddress (hostQuery 1) cache 0 (Dnsmasq.daemonLocalData {})
        ⟨0, 0, 0, 0⟩ "h.lan".toList hostAddr ↔
        Unshadowed (requestOf ⟨"h.lan".toList, 1, 1⟩ 0 (Dnsmasq.daemonLocalData {}) ⟨0, 0, 0, 0⟩)
          cache "h.lan".toList hostAddr) := by
  have hrun : (runEvents emptyCache [hostFile]).any (fun cache =>
      peek cache.records ⟨"h.lan".toList, fIpv4⟩ == some hostRecord) := by
    decide +kernel
  obtain ⟨cache, hcache, heval⟩ := (any_eq_true _ _).mp hrun
  have hgives := hostsFileGives_of_peek (eq_of_beq heval)
  exact ⟨cache, hcache, hgives, local_precedence_iff fresh_emptyCache hcache rfl (.inr hgives)⟩

end DnsmasqRs.Rfc1035
