import DnsmasqRs.Rfc1035.Equiv.LocalPrecedence

/-!
# The newest answer and the older ones

A reply to the question for the IPv4 address of a name, in which the name is no alias, says one of
three things: these are the addresses, there is none, there is no such name.  Each is kept under a
key of its own, and after the reply its record is live (`live_of_addresses`, `live_of_noData`,
`live_of_nxdomain`).  The records of the other two kinds stay, and `answer_request` looks for a
CNAME first, then for an NXDOMAIN, an address, and the absence of one: what the reply says is what
is answered unless something earlier in this order is there (`newest_answer_iff`).
-/

namespace DnsmasqRs.Rfc1035

open Lru Utf8 Wire Cache Domain DomainMatch Fallible DnsProtocol Relation List Option

/-! ### The walk over a reply without an alias -/

section Walk

variable {env : Env} {answers : List DnsRr} {w : Walk}

section

variable (h : ∀ rr ∈ answers, ownedBy w.currentName rr = true →
  rr.rtype ≠ 5 ∧ (rr.rtype ≠ env.qtype ∨ env.isNxdomain = true))
include h

theorem scanAnswers_of_idle : scanAnswers env answers w = .ok (.finish w) := by
  induction answers with
  | nil => rfl
  | cons rr rest ih =>
    rw [forall_mem_cons] at h
    rw [scanAnswers]
    by_cases hskip : rr.rclass ≠ 1 ∨ eqIgnoreAsciiCase rr.name w.currentName = false
    · rw [if_pos hskip]
      exact ih h.2
    · obtain ⟨hcname, hother⟩ := h.1 (ownedBy_place_iff.mpr hskip)
      rw [if_neg hskip, if_neg hcname, if_pos hother]
      exact ih h.2

theorem followChain_of_idle : followChain env answers w = .ok (none, w) := by
  have hscan := scanAnswers_of_idle h
  rw [followChain]
  split <;> simp_all

end

theorem scanAnswers_of_followChain (hqtype : env.qtype ≠ 5) (hnx : env.isNxdomain = false)
    (hcname : ∀ rr ∈ answers, isCnameOf w.place.2 rr = false)
    (h : followChain env answers w = .ok (none, w')) :
    scanAnswers env answers w = .ok (.finish w') := by
  rw [followChain] at h
  split at h
  · cases h
  · cases h
  · next hscan =>
    cases h
    exact hscan
  · next w₁ hscan =>
    have hhop : Hop answers w.place w₁.place := (scanAnswers_spec hqtype hnx hscan).2
    obtain ⟨-, rr, -, -, hfirst, -⟩ := hop_iff.mp hhop
    have hrr := find?_some hfirst
    rw [hcname rr (mem_of_find?_eq_some hfirst)] at hrr
    cases hrr

end Walk

/-! ### What the reply says -/

/-- A reply to the question for the IPv4 address of a name, in which the name is no alias. -/
structure AnswerTo (packet : DnsPacket) (n : Str) : Prop where
  questions : packet.questions = [⟨n, 1, 1⟩]
  noAlias : ∀ rr ∈ packet.answers, isCnameOf (toLowercase n) rr = false

/-- The record is an answer to the question. -/
def AnswersWith (packet : DnsPacket) (n : Str) (rr : DnsRr) : Prop :=
  rr ∈ packet.answers ∧ ownedBy (toLowercase n) rr ∧ rr.rtype = 1

/-- The reply gives the name the address. -/
def ReplyGives (packet : DnsPacket) (n : Str) (a : Ipv4Addr) : Prop :=
  ∃ rr, AnswersWith packet n rr ∧ Ipv4Addr.ofBytes rr.rdata = some a

section Reply

variable {packet : DnsPacket} {n : Str} {now : Instant} {config : ExtractConfig}
  {outcome : ExtractOutcome}
  {staged : List CacheRecord}

/-- The records for a reply with answers are the addresses of the name. -/
theorem AnswerTo.mem_staged (hreply : AnswerTo packet n) (hrcode : packet.header.rcode ≠ 3)
    (hsome : ∃ rr, AnswersWith packet n rr)
    (hcollect : collectRecords packet now config = .ok (outcome, some staged)) :
    ∀ rec ∈ staged, rec.key = ⟨toLowercase n, fIpv4⟩ ∧ ∃ a, rec.addr = some (.addr4 a)
      ∧ ReplyGives packet n a := by
  set env := questionEnv packet.header 1 now config
  have hnx : env.isNxdomain = false := beq_eq_false_iff_ne.mpr hrcode
  obtain ⟨w, hwalk, hfinish⟩ :=
    walk_of_collectRecords hreply.questions (show (1 : UInt16) ≠ 12 by decide) hcollect
  have hscan :=
    scanAnswers_of_followChain (show (1 : UInt16) ≠ 5 by decide) hnx hreply.noAlias hwalk
  obtain ⟨recs, hrecs, hstaged, -, hfound⟩ := scanAnswers_end rfl hnx hreply.noAlias hscan
  have hanswers :
      ∀ rr, rr ∈ packet.answers.filter (fun rr => ownedBy (toLowercase n) rr && rr.rtype == 1) ↔
      AnswersWith packet n rr := by
    intro rr
    rw [mem_filter, Bool.and_eq_true, beq_iff_eq, AnswersWith]
  -- an answer was found, so there is no negative record
  obtain rfl : staged = recs := by
    rcases finishWalk_cases hfinish with heq | ⟨hneg, -⟩
    · exact heq.trans hstaged
    · obtain ⟨rr, hrr⟩ := hsome
      have hne : recs ≠ [] := by
        rintro rfl
        have hnil := forall₂_nil_right_iff.mp hrecs
        exact ne_nil_of_mem ((hanswers rr).mpr hrr) hnil
      rw [Env.negative, hfound, isEmpty_eq_false_iff.mpr hne] at hneg
      cases hneg
  intro rec hrec
  obtain ⟨⟨i, hi⟩, rfl⟩ := mem_iff_get.mp hrec
  obtain ⟨addr, hdata, heq⟩ := hrecs.get (hrecs.length_eq ▸ hi) hi
  obtain ⟨a, ha, rfl⟩ := answerData_of_a rfl hdata
  rw [heq]
  refine ⟨?_, a, rfl, _, (hanswers _).mp (get_mem _ _), ha⟩
  have hflags :
      ∀ sec ∈ [fDnssecok, 0], Cache.typeFlags (fIpv4 ||| fForward ||| sec) = fIpv4 := by decide
  show CacheKey.mk (toLowercase (toLowercase n))
    (Cache.typeFlags (fIpv4 ||| fForward ||| env.secflag)) = _
  rw [toLowercase_toLowercase, hflags _ (secflag_cases)]

theorem negativeRecords_concat {env : Env}
    (h : negativeRecords env soa name ≠ []) :
    ∃ front ttl, negativeRecords env soa name = front ++ [env.record name
      (if env.isNxdomain then fNxdomain ||| fNeg ||| fForward
        else env.addrFlag ||| fNeg ||| fForward) ttl none] := by
  unfold negativeRecords at h ⊢
  dsimp only at h ⊢
  split
  · next hnone =>
    rw [hnone] at h
    exact absurd rfl h
  · exact ⟨_, _, rfl⟩

/-- The last record for a reply without an answer is the negative one. -/
theorem AnswerTo.staged_concat (hreply : AnswerTo packet n)
    (hnone : packet.header.rcode = 3 ∨ ∀ rr, ¬AnswersWith packet n rr)
    (hcollect : collectRecords packet now config = .ok (outcome, some staged)) (hne : staged ≠ []) :
    ∃ front ttl, staged = front ++ [(questionEnv packet.header 1 now config).record (toLowercase n)
      (if packet.header.rcode = 3 then fNxdomain ||| fNeg ||| fForward
        else fIpv4 ||| fNeg ||| fForward) ttl none] := by
  obtain ⟨w, hwalk, hfinish⟩ :=
    walk_of_collectRecords hreply.questions (show (1 : UInt16) ≠ 12 by decide) hcollect
  have hidle : ∀ rr ∈ packet.answers, ownedBy (toLowercase n) rr →
      rr.rtype ≠ 5 ∧ (rr.rtype ≠ 1 ∨ (questionEnv packet.header 1 now config).isNxdomain) := by
    intro rr hrr howned
    constructor
    · intro hcname
      have halias := hreply.noAlias rr hrr
      rw [isCnameOf_of_rtype howned hcname] at halias
      cases halias
    · rcases hnone with hnx | hno
      · exact .inr (beq_iff_eq.mpr hnx)
      · exact .inl fun htype => hno rr ⟨hrr, howned, htype⟩
  have hw : w = { currentName := toLowercase n } := by
    have hidlewalk : followChain (questionEnv packet.header 1 now config) packet.answers
        { currentName := toLowercase n } = .ok (none, _) := followChain_of_idle hidle
    exact (Prod.mk.inj (Except.ok.inj (hwalk.symm.trans hidlewalk))).2
  rw [hw] at hfinish
  rcases finishWalk_cases hfinish with rfl | ⟨-, soa, -, rfl⟩
  · exact absurd rfl hne
  · obtain ⟨front, ttl, hrecords⟩ := negativeRecords_concat hne
    refine ⟨front, ttl, hrecords.trans ?_⟩
    have hrcode :
        (questionEnv packet.header 1 now config).isNxdomain = (packet.header.rcode == 3) := rfl
    rw [hrcode]
    simp only [beq_iff_eq]
    rfl

end Reply

/-! ### What is live after the reply -/

section Commit

variable {M : Type} [Lru M CacheKey CacheRecord]

/-- `extract_addresses` commits records of the reply, and leaves a cache. -/
def CommitsReply (packet : DnsPacket) (cache : DnsCache M) (now : Instant) (config : ExtractConfig)
    (cache' : DnsCache M) : Prop :=
  (∃ outcome, extractAddresses packet cache now config = .ok (cache', outcome))
    ∧ ∃ rec, CommitsRecord packet cache now config rec

variable {packet : DnsPacket} {n : Str} {cache cache' : DnsCache M} {now : Instant}
  {config : ExtractConfig}

/-- The cache is the one before with the records of the batch written, of which there are some. -/
theorem CommitsReply.eq_foldl_insert (h : CommitsReply packet cache now config cache') :
    ∃ outcome staged, collectRecords packet now config = .ok (outcome, some staged)
      ∧ cache.committed staged now ≠ []
      ∧ cache' = (cache.committed staged now).foldl DnsCache.insert cache.startInsert := by
  obtain ⟨⟨outcome, hextract⟩, rec, outcome', staged, hcollect, hcommits, hrec⟩ := h
  rw [extractAddresses_eq_insert hcollect hcommits] at hextract
  obtain ⟨rfl, -⟩ := Prod.mk.inj (Except.ok.inj hextract)
  exact ⟨outcome', staged, hcollect, ne_nil_of_mem hrec, rfl⟩

/-- A reply of which anything is written. -/
theorem commitsReply_of_committed {outcome : ExtractOutcome} {staged : List CacheRecord}
    (hcollect : collectRecords packet now config = .ok (outcome, some staged))
    (hcommits : Commits packet.header) (hne : cache.committed staged now ≠ []) :
    CommitsReply packet cache now config
      ((cache.committed staged now).foldl DnsCache.insert cache.startInsert) := by
  obtain ⟨rec, hrec⟩ := exists_mem_of_ne_nil _ hne
  exact ⟨⟨outcome, extractAddresses_eq_insert hcollect hcommits⟩, rec, outcome, staged, hcollect,
    hcommits, hrec⟩

variable [LawfulLru M CacheKey CacheRecord]

theorem CommitsReply.valid (h : CommitsReply packet cache now config cache')
    (hvalid : cache.Valid) : cache'.Valid := by
  obtain ⟨outcome, staged, -, -, rfl⟩ := h.eq_foldl_insert
  exact hvalid.startInsert.foldl_insert _

theorem AnswerTo.live_of_addresses (hreply : AnswerTo packet n) (hrcode : packet.header.rcode ≠ 3)
    (hsome : ∃ rr, AnswersWith packet n rr) (h : CommitsReply packet cache now config cache') :
    ∃ a, ReplyGives packet n a ∧
      ∃ rec, cache'.live ⟨toLowercase n, fIpv4⟩ now = some rec ∧ rec.addr = some (.addr4 a) := by
  obtain ⟨outcome, staged, hcollect, hne, rfl⟩ := h.eq_foldl_insert
  have hplain := plain_of_collectRecords hcollect
  obtain ⟨front, rec, hlast⟩ := (eq_nil_or_concat _).resolve_left hne
  rw [concat_eq_append] at hlast
  have hlive := DnsCache.live_of_committed hplain hlast
  have hmem : rec ∈ cache.committed staged now := by
    rw [hlast]
    exact mem_append_right _ (mem_singleton.mpr rfl)
  obtain ⟨-, rec', hrec', rfl, -⟩ := DnsCache.mem_committed_of_plain hplain hmem
  obtain ⟨hkey, a, haddr, hgives⟩ := hreply.mem_staged hrcode hsome hcollect rec' hrec'
  refine ⟨a, hgives, cache.renew now rec', ?_, ?_⟩
  · rw [← hkey, ← DnsCache.key_renew]
    exact hlive
  · obtain ⟨ttl, expires, hrenew⟩ := DnsCache.renew_eq
    rw [hrenew]
    exact haddr

theorem AnswerTo.live_of_none (hreply : AnswerTo packet n)
    (hnone : packet.header.rcode = 3 ∨ ∀ rr, ¬AnswersWith packet n rr)
    (h : CommitsReply packet cache now config cache') :
    (cache'.live ⟨toLowercase n, (if packet.header.rcode = 3 then fNxdomain else fIpv4) ||| fNeg⟩
      now).isSome := by
  obtain ⟨outcome, staged, hcollect, hne, rfl⟩ := h.eq_foldl_insert
  have hplain := plain_of_collectRecords hcollect
  have hstaged : staged ≠ [] := by
    rintro rfl
    exact hne rfl
  obtain ⟨front, ttl, rfl⟩ := hreply.staged_concat hnone hcollect hstaged
  obtain ⟨front', hlast⟩ :=
    DnsCache.committed_concat (hplain _ (mem_append_right _ (mem_singleton.mpr rfl))) rfl hne
  have hlive := DnsCache.live_of_committed hplain hlast
  rw [DnsCache.key_renew] at hlive
  apply isSome_of_eq_some
  refine Eq.trans ?_ hlive
  have hflags :
      ∀ sec ∈ [fDnssecok, 0], Cache.typeFlags (fNxdomain ||| fNeg ||| fForward ||| sec)
        = fNxdomain ||| fNeg
        ∧ Cache.typeFlags (fIpv4 ||| fNeg ||| fForward ||| sec) = fIpv4 ||| fNeg := by
    decide
  obtain ⟨hnx, hnodata⟩ := hflags _ (secflag_cases)
  congr 1
  show _ = CacheKey.mk (toLowercase (toLowercase n)) (Cache.typeFlags (_ ||| _))
  rw [toLowercase_toLowercase]
  split_ifs
  · rw [hnx]
  · rw [hnodata]

/-- The forward IPv4 records of the cache hold addresses after the reply if they did before. -/
theorem CommitsReply.addressTyped (h : CommitsReply packet cache now config cache')
    (htyped : ∀ k rec, peek cache.records k = some rec → AddressTyped rec) :
    ∀ k rec, peek cache'.records k = some rec → AddressTyped rec := by
  obtain ⟨outcome, staged, hcollect, -, rfl⟩ := h.eq_foldl_insert
  intro k rec hrec
  rcases DnsCache.mem_of_peek_foldl_insert hrec with hold | hmem
  · exact htyped k rec hold
  · obtain ⟨rec', hrec', heq⟩ := DnsCache.mem_committed hmem
    rw [heq]
    exact addressTyped_of_collectRecords hcollect rec' hrec'

end Commit

/-! ### What is answered -/

section Outcome

variable {M : Type} [Lru M CacheKey CacheRecord]

section

variable (query : DnsPacket) (cache : DnsCache M) (now : Instant) (config : LocalConfig)
  (metrics : Metrics)

/-- The question is answered with NOERROR and without a record. -/
def AnswersNoData : Prop :=
  ∃ cache' resp, answerRequest query cache now config metrics = .ok (cache', some resp)
    ∧ resp.header.rcode = 0 ∧ resp.answers = []

/-- The question is answered with NXDOMAIN. -/
def AnswersNxdomain : Prop :=
  ∃ cache' resp, answerRequest query cache now config metrics = .ok (cache', some resp)
    ∧ resp.header.rcode = 3

end

/-- Nothing stands before the absence of an address: the name has no CNAME and no NXDOMAIN, and
neither the cache nor the configuration has an address for it. -/
structure NoDataStands (req : Request) (cache : DnsCache M) (n : Str) : Prop where
  noAlias : (chainEnd req cache 16 (toLowercase n)).1 = 16
  exists_name : endsNxdomain req cache 16 (toLowercase n) = false
  uncached : cache.live ⟨toLowercase n, fIpv4⟩ req.now = none
  noHost : ∀ a, ¬HostRecordGives req.config n a
  noRecord : ∀ t ∈ req.config.rrRecords, toLowercase t.name = toLowercase n → t.rclass ≠ 1

/-- Nothing stands before the NXDOMAIN of a name: it has no CNAME, or those it has lead to a name
that is answered with NXDOMAIN too, by the cache or for want of data. -/
def NxdomainStands (req : Request) (cache : DnsCache M) (n : Str) : Prop :=
  (chainEnd req cache 16 (toLowercase n)).1 = 16 ∨ endsNxdomain req cache 16 (toLowercase n)
    ∨ chainAnswers req cache 16 (toLowercase n) = false
      ∧ (∀ f, ¬Finds req cache (chainEnd req cache 16 (toLowercase n)).2 f)
      ∧ FallbackNx req cache (chainEnd req cache 16 (toLowercase n)).2

variable [LawfulLru M CacheKey CacheRecord] {query : DnsPacket} {cache : DnsCache M} {now : Instant}
  {n : Str}
  {config : LocalConfig} {metrics : Metrics}

omit [LawfulLru M CacheKey CacheRecord] in
theorem familyFinds_iff_noData (hlive : (cache.live ⟨toLowercase n, fIpv4 ||| fNeg⟩ req.now).isSome)
    (huncached : cache.live ⟨toLowercase n, fIpv4⟩ req.now = none) :
    FamilyFinds answer4 req cache (toLowercase n) f ↔ f = .noData := by
  obtain ⟨neg, hneg⟩ := isSome_iff_exists.mp hlive
  unfold FamilyFinds
  rw [toLowercase_toLowercase,
    show cache.live ⟨toLowercase n, answer4.flag⟩ req.now = none from huncached,
    show cache.live ⟨toLowercase n, answer4.flag ||| fNeg⟩ req.now = some neg from hneg]

omit [LawfulLru M CacheKey CacheRecord] in
/-- Where the cache has the absence of an address, no record is found if neither it nor the
configuration has one. -/
theorem not_finds_record_iff (config : LocalConfig) (metrics : Metrics)
    (hkeyed : ∀ k r, peek cache.records k = some r → k = r.key)
    (htyped : ∀ k rec, peek cache.records k = some rec → AddressTyped rec)
    (hlive : (cache.live ⟨toLowercase n, fIpv4 ||| fNeg⟩ now).isSome) :
    (∀ rr, ¬Finds (requestOf ⟨n, 1, 1⟩ now config metrics) cache (toLowercase n) (.record rr)) ↔
      cache.live ⟨toLowercase n, fIpv4⟩ now = none ∧ (∀ a, ¬HostRecordGives config n a)
        ∧ ∀ t ∈ config.rrRecords, toLowercase t.name = toLowercase n → t.rclass ≠ 1 := by
  constructor
  · intro hno
    refine ⟨?_, fun a ha => ?_, fun t ht htname htype => ?_⟩
    · by_contra hsome
      obtain ⟨rec, hrec⟩ := ne_none_iff_exists'.mp hsome
      have hpeek := (DnsCache.live_eq_some.mp hrec).1
      have hflags : Cache.typeFlags rec.flags = fIpv4 :=
        (congrArg CacheKey.flags (hkeyed _ _ hpeek)).symm
      obtain ⟨a, ha⟩ := htyped _ rec hpeek hflags
      obtain ⟨rr, hrr, -⟩ := exists_finds_of_local cache now metrics (.inr ⟨rec, hrec, ha⟩)
      exact hno rr hrr
    · obtain ⟨rr, hrr, -⟩ := exists_finds_of_local cache now metrics (.inl ha)
      exact hno rr hrr
    · exact hno _ (.rr ⟨rfl, t, ht, htname, .inl htype, rfl⟩)
  · rintro ⟨huncached, hhost, hrecord⟩ rr hrr
    rcases (finds_iff_of_a rfl rfl).mp hrr with ⟨-, t, ht, htname, htype, -⟩ | hgives | ⟨-, hfamily⟩
    · exact hrecord t ht htname (htype.resolve_right (show (1 : UInt16) ≠ 255 by decide))
    · obtain ⟨a, ha, -⟩ := (hostFinds_iff_of_a rfl rfl).mp hgives
      exact hhost a ha
    · cases (familyFinds_iff_noData hlive huncached).mp hfamily

omit [LawfulLru M CacheKey CacheRecord] in
theorem finds_noData (metrics : Metrics)
    (hlive : (cache.live ⟨toLowercase n, fIpv4 ||| fNeg⟩ now).isSome)
    (huncached : cache.live ⟨toLowercase n, fIpv4⟩ now = none)
    (hhost : ∀ a, ¬HostRecordGives config n a) :
    Finds (requestOf ⟨n, 1, 1⟩ now config metrics) cache (toLowercase n) .noData := by
  refine (finds_iff_of_a rfl rfl).mpr (.inr (.inr ⟨fun f hf => ?_, ?_⟩))
  · obtain ⟨a, ha, -⟩ := (hostFinds_iff_of_a rfl rfl).mp hf
    exact hhost a ha
  · exact (familyFinds_iff_noData hlive huncached).mpr rfl

/-- Where the cache has the absence of an address, it is answered if nothing stands before it. -/
theorem answersNoData_iff (hkeyed : ∀ k r, peek cache.records k = some r → k = r.key)
    (htyped : ∀ k rec, peek cache.records k = some rec → AddressTyped rec)
    (hq : localQuestion query = some ⟨n, 1, 1⟩)
    (hlive : (cache.live ⟨toLowercase n, fIpv4 ||| fNeg⟩ now).isSome) :
    AnswersNoData query cache now config metrics
      ↔ NoDataStands (requestOf ⟨n, 1, 1⟩ now config metrics) cache n := by
  set req := requestOf ⟨n, 1, 1⟩ now config metrics
  set st := questionEnd ⟨n, 1, 1⟩ cache now config metrics
  have hnx : st.nxdomain = endsNxdomain req cache 16 (toLowercase n) := nxdomain_questionEnd ..
  have hnil : st.answers = [] ↔ _ := answers_questionEnd_eq_nil_iff cache now config metrics rfl
  -- what is found at the end of the chain, where this is the name itself
  have hfinds : (chainEnd req cache 16 (toLowercase n)).1 = 16 → ∀ f,
      Finds req st.cache st.name f ↔ Finds req cache (toLowercase n) f := by
    intro hstays f
    have hname : st.name = toLowercase n :=
      (name_questionEnd cache now config metrics rfl).trans (snd_chainEnd_of_fst hstays)
    rw [hname]
    exact finds_of_onlyDrops_of_a rfl rfl (onlyDrops_questionEnd _ cache now config metrics)
  constructor
  · rintro ⟨cache', resp, hanswer, hrcode, hempty⟩
    have hresp := responds_of_answerRequest hkeyed hq hanswer
    obtain ⟨found, fallback, hanswers, hfound, -⟩ := hresp.answers
    rw [hempty, eq_comm, append_eq_nil_iff, append_eq_nil_iff] at hanswers
    obtain ⟨⟨hchain, rfl⟩, -⟩ := hanswers
    have hstays := hnil.mp hchain
    have hno : ∀ rr, ¬Finds req cache (toLowercase n) (.record rr) := by
      intro rr hrr
      exact absurd ((hfound rr).mpr ((hfinds hstays _).mpr hrr)) not_mem_nil
    obtain ⟨huncached, hhost, hrecord⟩ :=
      (not_finds_record_iff config metrics hkeyed htyped hlive).mp hno
    refine ⟨hstays, ?_, huncached, hhost, hrecord⟩
    rw [← hnx, ← Bool.not_eq_true]
    intro hend
    rw [hresp.nxdomain.mpr (.inl hend)] at hrcode
    exact absurd hrcode (by decide)
  · intro h
    have hno :=
      (not_finds_record_iff config metrics hkeyed htyped hlive).mpr
        ⟨h.uncached, h.noHost, h.noRecord⟩
    have hdata := finds_noData metrics hlive h.uncached h.noHost
    obtain ⟨cache', resp, hanswer, hresp⟩ :=
      exists_responds_of_stays hkeyed hq (snd_chainEnd_of_fst h.noAlias) (.inr (.inr hlive)) hdata
    have hend := (hfinds h.noAlias .noData).mpr hdata
    refine ⟨cache', resp, hanswer, hresp.rcode_eq_zero rfl rfl (hnx.trans h.exists_name) hend, ?_⟩
    obtain ⟨found, fallback, hanswers, hfound, -, hfallback⟩ := hresp.answers
    have hfoundnil : found = [] :=
      eq_nil_iff_forall_not_mem.mpr fun rr hrr =>
        hno rr ((hfinds h.noAlias _).mp ((hfound rr).mp hrr))
    have hfallbacknil : fallback = [] := by
      by_contra hne
      exact (hfallback hne).2.1 _ hend
    rw [hanswers, hnil.mpr h.noAlias, hfoundnil, hfallbacknil]
    rfl

/-- Where the cache has an NXDOMAIN for the name, it is answered if nothing stands before it. -/
theorem answersNxdomain_iff (hkeyed : ∀ k r, peek cache.records k = some r → k = r.key)
    (hq : localQuestion query = some ⟨n, 1, 1⟩)
    (hlive : (cache.live ⟨toLowercase n, fNxdomain ||| fNeg⟩ now).isSome) :
    AnswersNxdomain query cache now config metrics
      ↔ (∃ out, answerRequest query cache now config metrics = .ok out)
        ∧ NxdomainStands (requestOf ⟨n, 1, 1⟩ now config metrics) cache n := by
  set req := requestOf ⟨n, 1, 1⟩ now config metrics
  set st := questionEnd ⟨n, 1, 1⟩ cache now config metrics
  have hname : st.name = _ := name_questionEnd cache now config metrics rfl
  have hnx : st.nxdomain = endsNxdomain req cache 16 (toLowercase n) := nxdomain_questionEnd ..
  have hans : st.ans = _ := ans_questionEnd_of_in cache now config metrics rfl
  have hdrops := onlyDrops_questionEnd ⟨n, 1, 1⟩ cache now config metrics
  have hfinds : ∀ name f, Finds req st.cache name f ↔ Finds req cache name f :=
    fun name f => finds_of_onlyDrops_of_a rfl rfl hdrops
  have hfall : ∀ name, FallbackNx req st.cache name = FallbackNx req cache name :=
    fun name => fallbackNx_of_onlyDrops hdrops
  constructor
  · rintro ⟨cache', resp, hanswer, hrcode⟩
    refine ⟨⟨_, hanswer⟩, .inr ?_⟩
    have hresp := responds_of_answerRequest hkeyed hq hanswer
    rcases hresp.nxdomain.mp hrcode with hend | hptr | ⟨hno, hnone, hfallback⟩
    · exact .inl (hnx.symm.trans hend)
    · exact absurd (asks_eq_true hptr.ptr_of_noName.1).2 (show ¬((1 : UInt16) = 12
        ∨ (1 : UInt16) = 255) by decide)
    · rw [hans, Bool.or_eq_false_iff] at hno
      rw [hname] at hnone hfallback
      rw [hfall] at hfallback
      exact .inr ⟨hno.1, fun f hf => hnone f ((hfinds _ f).mpr hf), hfallback⟩
  · rintro ⟨⟨⟨cache', answer⟩, hanswer⟩, hstands⟩
    have hstaying : (chainEnd req cache 16 (toLowercase n)).1 = 16 →
      endsNxdomain req cache 16 (toLowercase n) := by
      intro hstays
      rw [endsNxdomain, hstays, snd_chainEnd_of_fst hstays, cachedNxdomain, toLowercase_toLowercase]
      exact hlive
    have hend := (or_iff_right_of_imp fun hstays => Or.inl (hstaying hstays)).mp hstands
    cases answer with
    | some resp =>
      refine ⟨cache', resp, hanswer, (responds_of_answerRequest hkeyed hq hanswer).nxdomain.mpr ?_⟩
      by_cases hnxend : endsNxdomain req cache 16 (toLowercase n)
      · exact .inl (hnx.trans hnxend)
      · obtain ⟨hanswers, hnone, hfallback⟩ := hend.resolve_left hnxend
        rw [hname, hans, hfall]
        rw [Bool.not_eq_true] at hnxend
        refine .inr (.inr ⟨?_, fun f hf => hnone f ((hfinds _ f).mp hf), hfallback⟩)
        exact Bool.or_eq_false_iff.mpr ⟨hanswers, hnxend⟩
    | none =>
      obtain ⟨hno, hnone, hnofall⟩ := nothing_of_answerRequest hkeyed hq hanswer
      rcases hend with hend | ⟨-, -, hfallback⟩
      · rw [ans_questionEnd (hnx.trans hend)] at hno
        cases hno
      · rw [hname, hfall] at hnofall
        exact absurd hfallback hnofall

/-- What a reply says is what is answered, unless something stands before it. -/
theorem newest_answer_iff {packet : DnsPacket} {xconfig : ExtractConfig} {cache₀ : DnsCache M}
    (hvalid : cache₀.Valid) (htyped : ∀ k rec, peek cache₀.records k = some rec → AddressTyped rec)
    (hreply : AnswerTo packet n) (hcommits : CommitsReply packet cache₀ now xconfig cache)
    (hq : localQuestion query = some ⟨n, 1, 1⟩) :
    (packet.header.rcode ≠ 3 → (∃ rr, AnswersWith packet n rr) →
      ((∃ a, ReplyGives packet n a ∧ AnswersAddress query cache now config metrics n a) ↔
        ∃ a, ReplyGives packet n a ∧ Unshadowed (requestOf ⟨n, 1, 1⟩ now config metrics) cache n a))
    ∧ (packet.header.rcode ≠ 3 → (∀ rr, ¬AnswersWith packet n rr) →
      (AnswersNoData query cache now config metrics ↔
        NoDataStands (requestOf ⟨n, 1, 1⟩ now config metrics) cache n)) ∧ (packet.header.rcode = 3 →
      (AnswersNxdomain query cache now config metrics
        ↔ (∃ out, answerRequest query cache now config metrics = .ok out)
          ∧ NxdomainStands (requestOf ⟨n, 1, 1⟩ now config metrics) cache n)) := by
  have hkeyed := (hcommits.valid hvalid).keyed
  refine ⟨fun hrcode hsome => ?_, fun hrcode hnone => ?_, fun hrcode => ?_⟩
  · obtain ⟨b, hgives, hlive⟩ := hreply.live_of_addresses hrcode hsome hcommits
    constructor
    · rintro ⟨a, ha, hanswers⟩
      exact ⟨a, ha, unshadowed_of_answers hkeyed hq (.inr hlive) hanswers⟩
    · rintro ⟨a, ha, hunshadowed⟩
      rcases hunshadowed.answers hkeyed hq (.inr hlive) with hanswers | ⟨-, hanswers⟩
      · exact ⟨a, ha, hanswers⟩
      · exact ⟨b, hgives, hanswers⟩
  · have hlive := hreply.live_of_none (.inr hnone) hcommits
    rw [if_neg hrcode] at hlive
    exact answersNoData_iff hkeyed (hcommits.addressTyped htyped) hq hlive
  · have hlive := hreply.live_of_none (.inl hrcode) hcommits
    rw [if_pos hrcode] at hlive
    exact answersNxdomain_iff hkeyed hq hlive

end Outcome

/-! ### An address after an NXDOMAIN -/

/-- The upstream server answers the question for the address of `h.lan`. -/
def addressReply : DnsPacket where
  header := ⟨0x1234, 0x81, 0x80, 1, 1, 0, 0⟩
  questions := [⟨"h.lan".toList, 1, 1⟩]
  answers := [⟨"h.lan".toList, 1, 1, 60, [192, 0, 2, 1]⟩]
  authority := []
  additional := []

/-- The record that is staged for it. -/
def addressRecord : CacheRecord where
  name := "h.lan".toList
  flags := fIpv4 ||| fForward
  ttl := 60
  expires := fromSecs 60
  addr := some (.addr4 hostAddr)

theorem answerTo_addressReply : AnswerTo addressReply "h.lan".toList := ⟨rfl, by decide +kernel⟩

theorem answersWith_addressReply : ∃ rr, AnswersWith addressReply "h.lan".toList rr :=
  ⟨_, mem_singleton.mpr rfl, by decide +kernel, rfl⟩

theorem collectRecords_addressReply :
    collectRecords addressReply 0 {} = .ok ({ result := .cached }, some [addressRecord]) := by
  decide +kernel

/-- An NXDOMAIN for the other address family takes the place of the address. -/
theorem not_newest_addressReply : ∃ cache₀ cache, runEvents emptyCache [denial] = some cache₀
      ∧ (∀ k rec, peek cache₀.records k = some rec → rec.isStatic = false)
      ∧ AnswerTo addressReply "h.lan".toList ∧ addressReply.header.rcode ≠ 3
      ∧ (∃ rr, AnswersWith addressReply "h.lan".toList rr)
      ∧ CommitsReply addressReply cache₀ 0 {} cache
      ∧ localQuestion (hostQuery 1) = some ⟨"h.lan".toList, 1, 1⟩
      ∧ ¬∃ a, ReplyGives addressReply "h.lan".toList a
        ∧ AnswersAddress (hostQuery 1) cache 0 (Dnsmasq.daemonLocalData {})
          ⟨0, 0, 0, 0⟩ "h.lan".toList a := by
  have hrun : (runEvents emptyCache [denial]).any (fun cache₀ =>
      !(cache₀.committed [addressRecord] 0).isEmpty
      && (answerRequest (hostQuery 1)
        ((cache₀.committed [addressRecord] 0).foldl DnsCache.insert cache₀.startInsert)
        0 (Dnsmasq.daemonLocalData {}) ⟨0, 0, 0, 0⟩).toOption.any fun r =>
          r.2.all (·.header.rcode != 0)) := by
    decide +kernel
  obtain ⟨cache₀, hcache, heval⟩ := (any_eq_true _ _).mp hrun
  rw [Bool.and_eq_true, Option.any_eq_true, Bool.not_eq_true', List.isEmpty_eq_false_iff] at heval
  obtain ⟨hne, ⟨cache', answer⟩, hok, hall⟩ := heval
  refine ⟨cache₀, _, hcache, fun k rec hrec =>
    ?_, answerTo_addressReply, by decide, answersWith_addressReply,
    commitsReply_of_committed collectRecords_addressReply (by unfold Commits; decide) hne, rfl, ?_⟩
  · obtain ⟨event, hevent, hwrites⟩ := writes_of_runEvents fresh_emptyCache hcache hrec
    obtain rfl := mem_singleton.mp hevent
    obtain ⟨outcome, staged, hcollect, rec', hrec', heq⟩ := hwrites
    rw [heq]
    exact (plain_of_collectRecords hcollect rec' hrec').isStatic
  · rintro ⟨a, -, hanswers⟩
    exact not_answersAddress_of_rcode hok hall hanswers

/-- The condition for the address alone. -/
theorem newest_answer_iff_addressReply : ∃ cache₀ cache, runEvents emptyCache [denial] = some cache₀
      ∧ CommitsReply addressReply cache₀ 0 {} cache
      ∧ ((∃ a, ReplyGives addressReply "h.lan".toList a
          ∧ AnswersAddress (hostQuery 1) cache 0 (Dnsmasq.daemonLocalData {})
            ⟨0, 0, 0, 0⟩ "h.lan".toList a) ↔
        ∃ a, ReplyGives addressReply "h.lan".toList a
          ∧ Unshadowed
            (requestOf ⟨"h.lan".toList, 1, 1⟩ 0 (Dnsmasq.daemonLocalData {}) ⟨0, 0, 0, 0⟩) cache
            "h.lan".toList a) := by
  have hrun : (runEvents emptyCache [denial]).any fun cache₀ =>
      decide (cache₀.committed [addressRecord] 0 ≠ []) := by decide +kernel
  obtain ⟨cache₀, hcache, hne⟩ := (any_eq_true _ _).mp hrun
  have hcommits := commitsReply_of_committed collectRecords_addressReply (by unfold Commits; decide)
    (of_decide_eq_true hne)
  have htyped : ∀ k rec, peek cache₀.records k = some rec → AddressTyped rec := by
    intro k rec hrec
    obtain ⟨event, -, hwrites⟩ := writes_of_runEvents fresh_emptyCache hcache hrec
    exact hwrites.addressTyped
  have hvalid := valid_of_runEvents valid_emptyCache hcache
  exact ⟨cache₀, _, hcache, hcommits,
    (newest_answer_iff hvalid htyped answerTo_addressReply hcommits
    rfl).1 (by decide) answersWith_addressReply⟩

end DnsmasqRs.Rfc1035
