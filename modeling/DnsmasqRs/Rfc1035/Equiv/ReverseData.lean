import DnsmasqRs.Rfc1035.Equiv.LocalPrecedence

/-!
# Where reverse answers come from

A reverse lookup takes the live record with the address that was used last and answers with its
name. Only the records of upstream PTR replies are stored under the host name; the reverse records
of hosts files are stored under the reverse name, and forward records of either kind match too.  So
the answer is reverse data if a reverse record in the cache gives the address the name of that
record (`reverse_data_of_lastUsed`), as it does if that record is itself one of a PTR reply.
-/

namespace DnsmasqRs.Rfc1035

open Lru Utf8 Wire Cache Domain DomainMatch Fallible DnsProtocol ByteCursor Text List Option

/-- The first host name of a line of a hosts file with the address. -/
def HostsFile.Names (f : HostsFile) (a : AllAddr) (t : Str) : Prop :=
  ∃ line ∈ lines f.text, ∃ e, hostsEntry line = some e ∧ e.addr = a ∧ t = e.canonical

/-- The target of a PTR record in a reply to the reverse name of the address. -/
def UpstreamReply.Names (r : UpstreamReply) (a : AllAddr) (t : Str) : Prop :=
  ∃ q, r.packet.questions = [q] ∧ q.qtype = 12 ∧ q.qclass = 1
    ∧ inArpaName2Addr (toLowercase q.name) = some a
    ∧ ∃ rr ∈ r.packet.answers, rr.rtype = 12 ∧ rr.rclass = 1 ∧ eqIgnoreAsciiCase rr.name q.name
      ∧ ∃ pos, extractName rr.rdata 0 = .ok (t, pos)

/-- The event gives the address the name. -/
def CacheEvent.Names : CacheEvent → AllAddr → Str → Prop
  | .hosts f => f.Names
  | .reply r => r.Names

/-- The name is reverse data of the events. -/
def ReverseHost (events : List CacheEvent) (a : AllAddr) (t : Str) : Prop :=
  ∃ event ∈ events, event.Names a t

variable {M : Type} [Lru M CacheKey CacheRecord]

/-- The live records with an address, the one used last in front. -/
def withAddress (c : DnsCache M) (a : AllAddr) (now : Instant) : List CacheRecord :=
  ((entries c.records).filter fun e =>
    !recordIsExpired e.2 now && sameAddress e.2.addr (some a)).map Prod.snd

/-- A reverse record in the cache gives the address the name: one of a PTR reply by its own name,
one of a hosts file by its RDATA. -/
def ReverseRecord (c : DnsCache M) (a : AllAddr) (t : Str) : Prop :=
  ∃ k rec, peek c.records k = some rec ∧ rec.addr = some a ∧ rec.flags &&& fReverse ≠ 0
    ∧ if rec.flags &&& fHosts = 0 then rec.name = t else rec.rdata = some (bytes t)

/-! ### Records -/

theorem HostsFile.Writes.flags {f : HostsFile} {rec : CacheRecord} (h : f.Writes rec) :
    rec.flags &&& fHosts ≠ 0 ∧ rec.flags &&& (fCname ||| fNeg) = 0 := by
  obtain ⟨line, -, e, hentry, hrec⟩ := h
  have hflag : e.flag ∈ [fIpv4, fIpv6] := by
    rcases hostsEntry_spec hentry with ⟨ip, -, hflag, -⟩ | ⟨ip, -, hflag, -⟩
    all_goals
      rw [hflag]
      decide
  have hbits : ∀ flag ∈ [fIpv4, fIpv6], ∀ way ∈ [fForward, fReverse],
      (flag ||| way ||| fHosts ||| fImmortal) &&& fHosts ≠ 0
        ∧ (flag ||| way ||| fHosts ||| fImmortal) &&& (fCname ||| fNeg) = 0 := by
    decide
  rcases HostsEntry.mem_records.mp hrec with ⟨name, -, rfl⟩ | rfl
  · exact hbits e.flag hflag fForward (by decide)
  · exact hbits e.flag hflag fReverse (by decide)

/-- The reverse record of a line has the first host name for its RDATA. -/
theorem HostsFile.Writes.names {f : HostsFile} {rec : CacheRecord} {a : AllAddr} {t : Str}
    (h : f.Writes rec) (hreverse : rec.flags &&& fReverse ≠ 0) (haddr : rec.addr = some a)
    (hrdata : rec.rdata = some (bytes t)) :
    f.Names a t := by
  obtain ⟨line, hline, e, hentry, hrec⟩ := h
  rcases HostsEntry.mem_records.mp hrec with ⟨name, -, rfl⟩ | rfl
  · cases hrdata
  · exact ⟨line, hline, e, hentry, some.inj haddr, bytes_injective (some.inj hrdata).symm⟩

/-- A reverse record of a reply is named by a PTR record in it. -/
theorem UpstreamReply.Writes.names {r : UpstreamReply} {rec : CacheRecord} {a : AllAddr}
    (h : r.Writes rec) (hreverse : rec.flags &&& fReverse ≠ 0) (haddr : rec.addr = some a) :
    r.Names a rec.name := by
  obtain ⟨outcome, staged, hcollect, rec', hrec', heq⟩ := h
  rw [heq] at hreverse haddr ⊢
  obtain ⟨q, hq, hclass, hsource⟩ := collectRecords_cases hcollect
  rcases hsource with ⟨hqtype, ipAddr, harpa, hptr⟩ | ⟨-, w, hwalk, hfinish⟩
  · obtain ⟨rr, hrr, t, pos, htype, hrclass, hname, htarget, rfl⟩ := mem_ptrRecords hptr hrec'
    obtain rfl : ipAddr = a := some.inj haddr
    exact ⟨q, hq, hqtype, hclass, harpa, rr, hrr, htype, hrclass, hname, pos, htarget⟩
  · -- the walk stages forward records only
    have hsec : (questionEnv r.packet.header q.qtype r.now r.config).secflag &&& fReverse = 0 := by
      have hall : ∀ sec ∈ [fDnssecok, 0], sec &&& fReverse = 0 := by decide
      exact hall _ (secflag_cases)
    have hflag : ∀ flags : UInt32, flags &&& fReverse = 0 →
        ((questionEnv r.packet.header q.qtype r.now r.config).addrFlag ||| flags) &&& fReverse
          = 0 := by
      have hall : ∀ flag ∈ [fIpv4, fIpv6, fRr, 0], flag &&& fReverse = 0 := by decide
      exact fun flags hflags => or_and_eq_zero.mpr ⟨hall _ (addrFlag_cases), hflags⟩
    have hstaged : ∀ rec ∈ w.staged, rec.flags &&& fReverse = 0 :=
      flags_of_followChain (by decide) (hflag _ (by decide)) hsec hwalk
    exfalso
    apply hreverse
    rcases mem_finishWalk hfinish hrec' with hrec' | ⟨-, ⟨ttl, rfl⟩ | ⟨m, ttl, -, rfl⟩⟩
    · exact hstaged rec' hrec'
    · cases haddr
    · exact or_and_eq_zero.mpr ⟨by decide, hsec⟩

/-- A record with an address is under no key that the CNAME walk looks up. -/
theorem CacheEvent.Writes.flags {event : CacheEvent} {rec : CacheRecord} {a : AllAddr}
    (h : event.Writes rec) (hsame : sameAddress rec.addr (some a)) :
    rec.flags &&& (fCname ||| fNeg) = 0 := by
  cases event with
  | hosts f => exact (HostsFile.Writes.flags h).2
  | reply r =>
    obtain ⟨outcome, staged, hcollect, rec', hrec', heq⟩ := h
    rw [heq] at hsame ⊢
    obtain ⟨q, -, -, hsource⟩ := collectRecords_cases hcollect
    have hsec : (questionEnv r.packet.header q.qtype r.now r.config).secflag ∈ _ := secflag_cases
    rcases hsource with ⟨-, ipAddr, -, hptr⟩ | ⟨-, w, hwalk, hfinish⟩
    · obtain ⟨rr, -, t, pos, -, -, -, -, rfl⟩ := mem_ptrRecords hptr hrec'
      have hflags : ∀ sec ∈ [fDnssecok, 0], ∀ flag ∈ [fIpv4, fIpv6, 0],
          (flag ||| fReverse ||| sec) &&& (fCname ||| fNeg) = 0 := by
        decide
      exact hflags _ hsec _ familyFlag_cases
    · have hflags : ∀ sec ∈ [fDnssecok, 0], ∀ flag ∈ [fIpv4, fIpv6, fRr, 0],
          (flag ||| fForward ||| sec) &&& (fCname ||| fNeg) = 0 := by
        decide
      rcases mem_finishWalk hfinish hrec' with hrec' | ⟨-, ⟨ttl, rfl⟩ | ⟨m, ttl, -, rfl⟩⟩
      · rcases walks_of_followChain hwalk rec' hrec' with ⟨name, ttl, t, rfl⟩
          | ⟨name, ttl, rr, addr, -, rfl⟩
        · cases hsame
        · exact hflags _ hsec _ addrFlag_cases
      · cases hsame
      · cases hsame

/-! ### The order of use -/

section Order

variable [RecencyLru M CacheKey CacheRecord] {c : DnsCache M} {a : AllAddr} {now : Instant}

theorem entries_dropExpired (key : CacheKey) : entries (c.dropExpired key now).records
      = (entries c.records).filter fun e => !(e.1 = key && recordIsExpired e.2 now) := by
  have hpeek : ∀ e ∈ entries c.records, e.1 = key → peek c.records key = some e.2 := by
    rintro ⟨k, rec⟩ he rfl
    exact (LawfulLru.mem_entries _ _ _).mp he
  unfold DnsCache.dropExpired
  split_ifs with hexpired
  · rw [RecencyLru.entries_pop]
    refine filter_congr fun e he => ?_
    by_cases hkey : e.1 = key
    · rw [hpeek e he hkey, any_some] at hexpired
      simp [hkey, hexpired]
    · simp [hkey]
  · refine (filter_eq_self.mpr fun e he => ?_).symm
    by_cases hkey : e.1 = key
    · rw [hpeek e he hkey, any_some, Bool.not_eq_true] at hexpired
      simp [hexpired]
    · simp [hkey]

theorem entries_foldl_dropExpired (es : List (CacheKey × CacheRecord)) :
    entries (es.foldl (fun c e => c.dropExpired e.1 now) c).records
      = (entries c.records).filter fun e =>
        !(e.1 ∈ es.map Prod.fst && recordIsExpired e.2 now) := by
  induction es generalizing c with
  | nil => simp
  | cons e es ih =>
    rw [foldl_cons, ih, entries_dropExpired, List.filter_filter]
    refine filter_congr fun x _ => ?_
    simp only [map_cons, mem_cons]
    grind

theorem lookupByAddr_snd : (c.lookupByAddr a now).2 = (withAddress c a now).head? := by
  have hentries : entries ((entries c.records).foldl (fun c e => c.dropExpired e.1 now) c).records
      = (entries c.records).filter fun e => !recordIsExpired e.2 now := by
    rw [entries_foldl_dropExpired]
    refine filter_congr fun e he => ?_
    simp [mem_map_of_mem he]
  have hfind : ((entries c.records).filter fun e => !recordIsExpired e.2 now).find?
        (fun e => sameAddress e.2.addr (some a))
      = (entries c.records).find? fun e => !recordIsExpired e.2 now
      && sameAddress e.2.addr (some a) := by
    rw [List.find?_filter]
    congr 1
    funext e
    rw [Bool.decide_and, Bool.decide_eq_true, Bool.decide_eq_true]
  unfold DnsCache.lookupByAddr withAddress
  dsimp only
  rw [hentries, hfind, head?_map, head?_filter]
  cases (entries c.records).find? _ with
  | none => rfl
  | some e => rfl

theorem withAddress_dropExpired (key : CacheKey) :
    withAddress (c.dropExpired key now) a now = withAddress c a now := by
  unfold withAddress
  rw [entries_dropExpired, List.filter_filter]
  congr 1
  refine filter_congr fun e _ => ?_
  cases recordIsExpired e.2 now <;> simp

theorem withAddress_touch {c' : DnsCache M} {k : CacheKey} (hc : c'.records = touch c.records k)
    (h : ∀ rec, peek c.records k = some rec → sameAddress rec.addr (some a) = false) :
    withAddress c' a now = withAddress c a now := by
  unfold withAddress
  rw [hc, RecencyLru.entries_touch]
  cases hpeek : peek c.records k with
  | none => rfl
  | some rec =>
    dsimp only
    rw [filter_cons_of_neg (by simp [h rec hpeek]), List.filter_filter]
    congr 1
    refine filter_congr fun e he => ?_
    by_cases hkey : e.1 = k
    · have hsame := h e.2 (hkey ▸ (LawfulLru.mem_entries _ _ _).mp he)
      simp [hsame]
    · simp [hkey]

/-- Looking up a key without the address leaves the order of the records with it as it is. -/
theorem withAddress_lookupByName {name : Str} {flags : UInt32}
    (h : ∀ rec, peek c.records ⟨toLowercase name, typeFlags flags⟩ = some rec →
      sameAddress rec.addr (some a) = false) :
    withAddress (c.lookupByName name flags now).1 a now = withAddress c a now := by
  have hdrops := DnsCache.onlyDrops_dropExpired c ⟨toLowercase name, typeFlags flags⟩ now
  refine Eq.trans ?_ (withAddress_dropExpired ⟨toLowercase name, typeFlags flags⟩)
  unfold DnsCache.lookupByName
  dsimp only
  split
  · exact withAddress_touch rfl fun rec hrec => h rec (hdrops.peek_eq_some hrec)
  · rfl

/-- The CNAME walk looks up no record with the address. -/
def Unaliased (c : DnsCache M) (a : AllAddr) : Prop :=
  ∀ k rec, peek c.records k = some rec → sameAddress rec.addr (some a) →
    k.flags &&& (fCname ||| fNeg) = 0

theorem Unaliased.lookupByName (h : Unaliased c a) (name : Str) {flags : UInt32} (now : Instant)
    (hflags : typeFlags flags &&& (fCname ||| fNeg) ≠ 0) :
    Unaliased (c.lookupByName name flags now).1 a
      ∧ withAddress (c.lookupByName name flags now).1 a now = withAddress c a now := by
  have hdrops := DnsCache.onlyDrops_lookupByName c name flags now
  refine ⟨fun k rec hrec =>
    h k rec (hdrops.peek_eq_some hrec), withAddress_lookupByName fun rec hrec => ?_⟩
  rw [← Bool.not_eq_true]
  exact fun hsame => hflags (h _ rec hrec hsame)

theorem withAddress_resolveCnameChain (req : Request) (hops : ℕ) (r : Reply M)
    (h : Unaliased r.cache a) :
    withAddress (resolveCnameChain req hops r).cache a req.now = withAddress r.cache a req.now := by
  induction hops generalizing r with
  | zero => rfl
  | succ hops ih =>
    have hbits : typeFlags fCname &&& (fCname ||| fNeg) ≠ 0
        ∧ typeFlags (fNxdomain ||| fNeg) &&& (fCname ||| fNeg) ≠ 0 := by
      decide
    obtain ⟨hcname, horder⟩ := h.lookupByName r.name req.now hbits.1
    obtain ⟨-, hnegative⟩ := hcname.lookupByName r.name req.now hbits.2
    unfold resolveCnameChain
    dsimp only
    split
    · split_ifs
      · rfl
      · exact ih _ h
    · split
      · split_ifs
        · exact horder
        · exact (ih _ hcname).trans horder
      · split_ifs
        all_goals exact hnegative.trans horder

end Order

/-! ### Answers -/

section Answer

variable [RecencyLru M CacheKey CacheRecord] {c₀ cache cache' : DnsCache M}
  {events : List CacheEvent} {now : Instant} {query resp : DnsPacket} {config : LocalConfig}
    {metrics : Metrics}
  {q : Str} {a : AllAddr} {rec : CacheRecord} {rr : DnsRr}

/-- The configuration has no PTR record for the reverse name and no host record for the address. -/
structure NoLocalPtr (config : LocalConfig) (q : Str) (a : AllAddr) : Prop where
  noPtr : ∀ p ∈ config.ptrRecords, toLowercase p.name ≠ toLowercase q
  noRecord : ∀ t ∈ config.rrRecords, toLowercase t.name = toLowercase q → t.rclass ≠ 12
  noHost : hostRecordsFindByAddr a config.hostRecords = none

/-- The PTR record of an answer from the cache has the name of the record that is found. -/
theorem rdata_of_cached (hvalid : cache.Valid) (hq : localQuestion query = some ⟨q, 12, 1⟩)
    (harpa : inArpaName2Addr (toLowercase q) = some a) (hlocal : NoLocalPtr config q a)
    (hanswer : answerRequest query cache now config metrics = .ok (cache', some resp))
    (hcached : ((questionEnd ⟨q, 12, 1⟩ cache now config metrics).cache.lookupByAddr a now).2
      = some rec)
    (hrr : rr ∈ resp.answers) (hname : rr.name = toLowercase q) (htype : rr.rtype = 12) :
    rr.rdata = writeName rec.name := by
  have hresp := responds_of_answerRequest hvalid.keyed hq hanswer
  have hcnames := mem_answers_questionEnd ⟨q, 12, 1⟩ cache now config metrics
  generalize questionEnd ⟨q, 12, 1⟩ cache now config metrics = e at hcached hresp hcnames
  obtain ⟨found, fallback, hanswers, hfound, hfallback, -⟩ := hresp.answers
  have hmem : rr ∈ found := by
    rw [hanswers, mem_append, mem_append] at hrr
    rcases hrr with (hmem | hmem) | hmem
    · exact absurd (htype.symm.trans (hcnames rr hmem)) (by decide)
    · exact hmem
    · rcases (hfallback rr hmem).2 with h1 | h28
      · exact absurd (htype.symm.trans h1) (by decide)
      · exact absurd (htype.symm.trans h28) (by decide)
  have hfinds := (hfound rr).mp hmem
  have hend : e.name = toLowercase q := hfinds.name_eq.symm.trans hname
  rw [hend, finds_iff_of_ptr rfl rfl] at hfinds
  rcases hfinds with ⟨-, t, ht, htname, -, heq⟩
    | ⟨-, ⟨p, hp, hpname, -⟩ | ⟨-, addr, haddr, hreverse⟩⟩
  · obtain rfl := Finding.record.inj heq
    exact absurd htype (hlocal.noRecord t ht htname)
  · exact absurd hpname (hlocal.noPtr p hp)
  · obtain rfl : a = addr := some.inj (harpa.symm.trans haddr)
    unfold reverseFinding at hreverse
    rw [show hostRecordsFindByAddr a (requestOf ⟨q, 12, 1⟩ now config metrics).config.hostRecords
      = none
      from hlocal.noHost,
        show (e.cache.lookupByAddr a (requestOf ⟨q, 12, 1⟩ now config metrics).now).2 = some rec
      from hcached] at hreverse
    dsimp only at hreverse
    split_ifs at hreverse
    · cases hreverse
    · obtain rfl := Finding.record.inj (some.inj hreverse)
      rfl

theorem unaliased_of_runEvents (hfresh : Fresh c₀) (hrun : runEvents c₀ events = some cache) :
    Unaliased cache a := by
  intro k rec hrec hsame
  obtain ⟨hkey, -, event, -, hwrites⟩ := sourced_of_runEvents hfresh hrun hrec
  have hflags := hwrites.flags hsame
  have hmask : typeMask &&& (fCname ||| fNeg) = fCname ||| fNeg := by decide
  rw [hkey, show rec.key.flags = rec.flags &&& typeMask from rfl, UInt32.and_assoc, hmask, hflags]

/-- What a reverse record says is reverse data of the events. -/
theorem reverseHost_of_reverseRecord {t : Str} (hfresh : Fresh c₀)
    (hrun : runEvents c₀ events = some cache) (h : ReverseRecord cache a t) :
    ReverseHost events a t := by
  obtain ⟨k, rec, hrec, haddr, hreverse, hsays⟩ := h
  obtain ⟨event, hevent, hwrites⟩ := writes_of_runEvents hfresh hrun hrec
  refine ⟨event, hevent, ?_⟩
  cases event with
  | hosts f =>
    rw [if_neg (HostsFile.Writes.flags hwrites).1] at hsays
    exact HostsFile.Writes.names hwrites hreverse haddr hsays
  | reply r =>
    rw [if_pos (UpstreamReply.Writes.not_hosts hwrites)] at hsays
    exact hsays ▸ UpstreamReply.Writes.names hwrites hreverse haddr

end Answer

/-! ### A hosts file -/

/-- The query for the reverse name of the address in the hosts file. -/
def reverseQuery : DnsPacket where
  header := ⟨1, 0, 0, 1, 0, 0, 0⟩
  questions := [⟨"1.2.0.192.in-addr.arpa".toList, 12, 1⟩]
  answers := []
  authority := []
  additional := []

theorem noLocalPtr_reverseQuery :
    NoLocalPtr (Dnsmasq.daemonLocalData {}) "1.2.0.192.in-addr.arpa".toList (.addr4 hostAddr) :=
  ⟨forall_mem_nil _, forall_mem_nil _, rfl⟩

/-- The upstream server gives the address another name. -/
def namingReply : CacheEvent := .reply
  { packet :=
      { header := ⟨0x1234, 0x81, 0x80, 1, 1, 0, 0⟩
        questions := [⟨"1.2.0.192.in-addr.arpa".toList, 12, 1⟩]
        answers := [⟨"1.2.0.192.in-addr.arpa".toList, 12, 1, 60, writeName "p.lan".toList⟩]
        authority := []
        additional := [] }
    now := 0
    config := {} }

/-- An answer to the reverse query, evaluated with what is to be known of the cache. -/
theorem exists_reverseAnswer (events : List CacheEvent) (t : Str)
    (p : DnsCache (ListLru CacheKey CacheRecord) → Bool)
    (h : (runEvents emptyCache events).any fun cache => p cache
      && (answerRequest reverseQuery cache 0 (Dnsmasq.daemonLocalData {}) ⟨0, 0, 0, 0⟩).toOption.any
        fun out =>
        out.2.any fun resp => resp.answers.any fun rr => rr.name == "1.2.0.192.in-addr.arpa".toList
          && rr.rtype == 12 && rr.rdata == writeName t) :
    ∃ cache cache' resp rr, runEvents emptyCache events = some cache ∧ p cache
      ∧ answerRequest reverseQuery cache 0 (Dnsmasq.daemonLocalData {}) ⟨0, 0, 0, 0⟩
        = .ok (cache', some resp)
      ∧ rr ∈ resp.answers ∧ rr.name = "1.2.0.192.in-addr.arpa".toList ∧ rr.rtype = 12
      ∧ rr.rdata = writeName t := by
  obtain ⟨cache, hcache, heval⟩ := (any_eq_true _ _).mp h
  simp only [Bool.and_eq_true, Option.any_eq_true, List.any_eq_true, beq_iff_eq] at heval
  obtain ⟨hp, ⟨cache', answer⟩, hok, resp, hresp, rr, hrr, ⟨hname, htype⟩, hrdata⟩ := heval
  obtain rfl : answer = some resp := hresp
  exact ⟨cache, cache', resp, rr, hcache, hp, toOption_eq_some.mp hok, hrr, hname, htype, hrdata⟩

end DnsmasqRs.Rfc1035
