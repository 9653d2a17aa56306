import DnsmasqRs.Rfc1035.Equiv.CnameChain

/-!
# What local answering finds for a name

`Finds` says what the stages of `answer_request` up to NAPTR find at the end of the CNAME chain: a
record, or that there is none of the type, or no such name, or that the question is not implemented.
The stages add just that to the reply (`adds_dataStage`).  It is a matter of the configuration and
the live records of the cache; only a reverse lookup also depends on the order of use.
-/

namespace DnsmasqRs.Rfc1035

open Lru Utf8 Wire Cache Domain DomainMatch Fallible
open DnsCache (Expired live_of_onlyDrops)

variable {M : Type} [Lru M CacheKey CacheRecord]

/-! ### What a stage finds -/

/-- What a stage finds for a name. -/
inductive Finding where
  | record (rr : DnsRr)
  /-- There is no record of the type. -/
  | noData
  /-- There is no such name. -/
  | noName
  | notImplemented

/-- The stage from `r` to `r'` adds what it finds, and drops only expired records from the cache. -/
structure Adds (now : Instant) (r r' : Reply M) (finds : Finding → Prop) : Prop where
  name : r'.name = r.name
  drops : OnlyDrops (Expired now) r.cache.records r'.cache.records
  answers : ∃ rrs, r'.answers = r.answers ++ rrs ∧ ∀ rr, rr ∈ rrs ↔ finds (.record rr)
  ans : r'.ans ↔ r.ans ∨ ∃ f, finds f
  nxdomain : r'.nxdomain ↔ r.nxdomain ∨ finds .noName
  notimp : r'.notimp ↔ r.notimp ∨ finds .notImplemented

section Adds

variable {now : Instant} {r r' : Reply M} {F G : Finding → Prop}

theorem Adds.nothing (hF : ∀ f, ¬F f) : Adds now r r F := by
  refine ⟨rfl, .refl _, ⟨[], (List.append_nil _).symm, fun rr => ?_⟩, ?_, ?_, ?_⟩
  · exact iff_of_false List.not_mem_nil (hF _)
  · exact (or_iff_left fun ⟨f, hf⟩ => hF f hf).symm
  all_goals exact (or_iff_left (hF _)).symm

theorem Adds.congr (h : Adds now r r' F) (hFG : ∀ f, F f ↔ G f) : Adds now r r' G := by
  obtain rfl : F = G := funext fun f => propext (hFG f)
  exact h

theorem Adds.trans (h : Adds now r r₁ F) (h' : Adds now r₁ r' G) :
    Adds now r r' fun f => F f ∨ G f := by
  obtain ⟨rrs, hrrs, hF⟩ := h.answers
  obtain ⟨rrs', hrrs', hG⟩ := h'.answers
  refine ⟨h'.name.trans h.name, h.drops.trans h'.drops, ⟨rrs ++ rrs', ?_, fun rr => ?_⟩, ?_, ?_, ?_⟩
  · rw [hrrs', hrrs, List.append_assoc]
  · rw [List.mem_append, hF, hG]
  · rw [h'.ans, h.ans, exists_or, or_assoc]
  · rw [h'.nxdomain, h.nxdomain, or_assoc]
  · rw [h'.notimp, h.notimp, or_assoc]

theorem Adds.local (hF : ∀ f, F f ↔ ∃ rr ∈ rrs, f = .record rr) :
    Adds now r (r.addLocal rrs) F := by
  have hrecord : ∀ rr, rr ∈ rrs ↔ F (.record rr) := by
    intro rr
    rw [hF]
    constructor
    · exact fun hrr => ⟨rr, hrr, rfl⟩
    · rintro ⟨rr', hrr', heq⟩
      rwa [Finding.record.inj heq]
  have hname : ¬F .noName := fun h => by
    obtain ⟨_, -, heq⟩ := (hF _).mp h
    cases heq
  have himpl : ¬F .notImplemented := fun h => by
    obtain ⟨_, -, heq⟩ := (hF _).mp h
    cases heq
  unfold Reply.addLocal
  split_ifs with hnil
  · refine .nothing (fun f hf => ?_)
    obtain ⟨rr, hrr, -⟩ := (hF f).mp hf
    rw [hnil] at hrr
    exact List.not_mem_nil hrr
  · refine ⟨rfl, .refl _, ⟨rrs, rfl, hrecord⟩, ?_, (or_iff_left hname).symm,
      (or_iff_left himpl).symm⟩
    obtain ⟨rr, hrr⟩ := List.exists_mem_of_ne_nil rrs hnil
    exact iff_of_true rfl (.inr ⟨_, (hrecord rr).mp hrr⟩)

theorem Adds.cached (hF : ∀ f, F f ↔ f = .record rr) {cache : DnsCache M}
    (hdrops : OnlyDrops (Expired now) r.cache.records cache.records) :
    Adds now r (Reply.addCached { r with cache } rr) F := by
  refine ⟨rfl, hdrops, ⟨[rr], rfl, fun rr' => ?_⟩, ?_, ?_, ?_⟩
  · rw [List.mem_singleton, hF, Finding.record.injEq]
  · exact iff_of_true rfl (.inr ⟨_, (hF _).mpr rfl⟩)
  all_goals exact (or_iff_left fun h => by cases (hF _).mp h).symm

theorem Adds.lookup {cache : DnsCache M}
    (hdrops : OnlyDrops (Expired now) r.cache.records cache.records)
    (h : Adds now { r with cache } r' F) : Adds now r r' F :=
  ⟨h.name, hdrops.trans h.drops, h.answers, h.ans, h.nxdomain, h.notimp⟩

end Adds

section

variable (req : Request) (name : Str) (f : Finding)

/-- An answer record for a name. -/
def answerRr (rtype : UInt16) (ttl : UInt32) (rdata : Bytes) : DnsRr :=
  { name, rtype, rclass := 1, ttl, rdata }

/-! ### Records of the configuration -/

/-- The record that a TXT entry of the configuration makes. -/
def txtRecord (t : TxtRecord) : Option DnsRr :=
  if t.stat ≠ 0 then
    (cacheMakeStat t.stat req.config.cachesize req.metrics).map fun text =>
      { name, rtype := 16, rclass := t.rclass, ttl := 0, rdata := text }
  else some { name, rtype := 16, rclass := t.rclass, ttl := req.config.localTtl, rdata := t.txt }

/-- A TXT entry that is asked for makes its record, or none if its statistic is unknown. -/
def TxtFinds : Prop :=
  (req.qtype = 16 ∨ req.qtype = 255) ∧ ∃ t ∈ req.config.txtRecords, t.rclass = req.qclass
    ∧ toLowercase t.name = name ∧ f = ((txtRecord req name t).elim .noData .record)

def ChaosFinds : Prop :=
  req.qclass = 3 ∧ (∀ f, ¬TxtFinds req name f)
    ∧ (hostnameIssubdomain "bind".toList name || hostnameIssubdomain "server".toList name)
    ∧ f = .notImplemented

def RrFinds : Prop :=
  req.qclass = 1 ∧ ∃ t ∈ req.config.rrRecords, toLowercase t.name = name
    ∧ (t.rclass = req.qtype ∨ req.qtype = 255)
    ∧ f = .record (answerRr name t.rclass req.config.localTtl t.txt)

def MxSrvFinds (srv : Bool) (rtype : UInt16) (rdata : MxSrvRecord → Bytes) (name : Str)
    (f : Finding) : Prop :=
  req.asks rtype ∧ ∃ m ∈ req.config.mxRecords, m.isSrv = srv ∧ toLowercase m.name = name
    ∧ f = .record (answerRr name rtype req.config.localTtl (rdata m))

def NaptrFinds : Prop :=
  req.asks 35 ∧ ∃ n ∈ req.config.naptrRecords, toLowercase n.name = name
    ∧ f = .record
      (answerRr name 35 req.config.localTtl (be16 n.order.toUInt16 ++ be16 n.pref.toUInt16
        ++ countedString n.flags ++ countedString n.services ++ countedString n.regexp
        ++ writeName n.replace))

end

section Local

variable (req : Request) (r : Reply M)

theorem adds_rrAnswers : Adds req.now r (rrAnswers req r) (RrFinds req r.name) := by
  unfold rrAnswers
  split_ifs with hclass
  · refine .local (fun f => ?_)
    simp [RrFinds, hclass, answerRr, Reply.record, and_assoc]
  · exact .nothing (fun f hf => hclass hf.1)

theorem adds_mxSrvAnswers (srv : Bool) (rtype : UInt16) (rdata : MxSrvRecord → Bytes) :
    Adds req.now r (mxSrvAnswers req srv rtype rdata r)
      (MxSrvFinds req srv rtype rdata r.name) := by
  unfold mxSrvAnswers
  split_ifs with hasks
  · refine .local (fun f => ?_)
    simp [MxSrvFinds, hasks, answerRr, Reply.record, and_assoc]
  · exact .nothing (fun f hf => hasks hf.1)

theorem adds_naptrAnswers : Adds req.now r (naptrAnswers req r) (NaptrFinds req r.name) := by
  unfold naptrAnswers
  split_ifs with hasks
  · refine .local (fun f => ?_)
    simp [NaptrFinds, hasks, answerRr, Reply.record, and_assoc]
  · exact .nothing (fun f hf => hasks hf.1)

/-- An entry without a record is an answer all the same. -/
theorem adds_txtAnswers : Adds req.now r (txtAnswers req r) (TxtFinds req r.name) := by
  unfold txtAnswers
  split_ifs with hasked
  · set found := req.config.txtRecords.filter fun t =>
      t.rclass == req.qclass && toLowercase t.name == r.name with hfound
    have hmem : ∀ f, TxtFinds req r.name f
      ↔ ∃ t ∈ found, f = (txtRecord req r.name t).elim .noData .record := by
      simp [TxtFinds, hasked, hfound, and_assoc]
    have hrecord : ∀ rr, TxtFinds req r.name (.record rr)
      ↔ rr ∈ found.filterMap (txtRecord req r.name) := by
      intro rr
      rw [hmem, List.mem_filterMap]
      refine exists_congr fun t => and_congr_right fun _ => ?_
      cases txtRecord req r.name t with
      | none => simp
      | some rr' => simp [eq_comm]
    have hadds : Adds req.now r (r.addLocal (found.filterMap (txtRecord req r.name)))
        fun f => ∃ rr ∈ found.filterMap (txtRecord req r.name), f = .record rr :=
      .local (fun f => Iff.rfl)
    have honly : ∀ f, TxtFinds req r.name f → f ≠ .noName ∧ f ≠ .notImplemented := by
      intro f hf
      obtain ⟨t, -, rfl⟩ := (hmem f).mp hf
      cases txtRecord req r.name t with
      | none | some => exact ⟨nofun, nofun⟩
    show Adds req.now r (if found = [] then r.addLocal (found.filterMap (txtRecord req r.name))
      else { r.addLocal (found.filterMap (txtRecord req r.name)) with ans := true }) _
    split_ifs with hnil
    · refine hadds.congr fun f => ?_
      rw [hmem, hnil]
      simp
    · obtain ⟨rrs, hrrs, hmemrrs⟩ := hadds.answers
      obtain ⟨t, ht⟩ := List.exists_mem_of_ne_nil found hnil
      refine ⟨hadds.name, hadds.drops, ⟨rrs, hrrs, fun rr => ?_⟩, ?_, ?_, ?_⟩
      · rw [hmemrrs, hrecord]
        simp
      · exact iff_of_true rfl (.inr ⟨_, (hmem _).mpr ⟨t, ht, rfl⟩⟩)
      · rw [or_iff_left fun h => (honly _ h).1 rfl]
        exact hadds.nxdomain.trans (or_iff_left (by simp))
      · rw [or_iff_left fun h => (honly _ h).2 rfl]
        exact hadds.notimp.trans (or_iff_left (by simp))
  · exact .nothing (fun f hf => hasked hf.1)

/-- The fallback is for questions that no TXT record answers. -/
theorem adds_answerChaosBindFallback
    (hans : req.qclass = 3 → (r.ans ↔ ∃ f, TxtFinds req r.name f)) :
    Adds req.now r (answerChaosBindFallback req r) (ChaosFinds req r.name) := by
  unfold answerChaosBindFallback
  split_ifs with hcond
  · obtain ⟨hclass, hnone, hsub⟩ := hcond
    have hno : ∀ f, ¬TxtFinds req r.name f := by
      intro f hf
      rw [(hans hclass).mpr ⟨f, hf⟩] at hnone
      cases hnone
    have hfinds : ∀ f, ChaosFinds req r.name f ↔ f = .notImplemented := fun f =>
      ⟨fun h => h.2.2.2, fun h => ⟨hclass, hno, hsub, h⟩⟩
    refine ⟨rfl, .refl _, ⟨[], (List.append_nil _).symm, fun rr => ?_⟩, ?_, ?_, ?_⟩
    · simp [hfinds]
    · exact iff_of_true rfl (.inr ⟨_, (hfinds _).mpr rfl⟩)
    · simp [hfinds]
    · exact iff_of_true rfl (.inr ((hfinds _).mpr rfl))
  · refine .nothing (fun f hf => hcond ⟨hf.1, ?_, hf.2.2.1⟩)
    rw [← Bool.not_eq_true, hans hf.1, not_exists]
    exact hf.2.1

end Local

/-! ### Reverse names -/

/-- What is found for the reverse name of an address. -/
def reverseFinding (req : Request) (cache : DnsCache M) (name : Str) (addr : AllAddr) :
    Option Finding :=
  let ptr (ttl : UInt32) (hostname : Str) :=
    Finding.record (answerRr name 12 ttl (writeName hostname))
  match hostRecordsFindByAddr addr req.config.hostRecords with
  | some hostname => some (ptr req.config.localTtl hostname)
  | none =>
    match (cache.lookupByAddr addr req.now).2 with
    | some rec =>
      some (if rec.flags &&& fNxdomain != 0 then .noName
        else ptr (DnsCache.crecTtl rec req.now) rec.name)
    | none => (revSynth addr req.config.synthDomains).map (ptr req.config.localTtl)

/-- A configured PTR record, or else what is found for the address. -/
def PtrFinds (req : Request) (cache : DnsCache M) (name : Str) (f : Finding) : Prop :=
  req.asks 12 ∧ ((∃ p ∈ req.config.ptrRecords, toLowercase p.name = name
        ∧ f = .record (answerRr name 12 req.config.localTtl (writeName p.ptr)))
      ∨ (∀ p ∈ req.config.ptrRecords, toLowercase p.name ≠ name)
        ∧ ∃ addr, inArpaName2Addr name = some addr ∧ reverseFinding req cache name addr = some f)

section Reverse

variable [LawfulLru M CacheKey CacheRecord]

theorem adds_reverseAnswers (req : Request) (r : Reply M) (addr : AllAddr) :
    Adds req.now r (reverseAnswers req r addr) fun f => reverseFinding req r.cache r.name addr
      = some f := by
  have hdrops := DnsCache.onlyDrops_lookupByAddr r.cache addr req.now
  unfold reverseAnswers reverseFinding
  dsimp only
  cases hostRecordsFindByAddr addr req.config.hostRecords with
  | some hostname =>
    refine .local (fun f => ?_)
    simp [answerRr, Reply.record, eq_comm]
  | none =>
    cases (r.cache.lookupByAddr addr req.now).2 with
    | some rec =>
      dsimp only
      split_ifs with hnx
      · refine ⟨rfl, hdrops, ⟨[], (List.append_nil _).symm, by simp⟩, ?_, ?_, by simp⟩
        · exact iff_of_true rfl (.inr ⟨_, rfl⟩)
        · exact iff_of_true rfl (.inr rfl)
      · refine .cached (fun f => ?_) hdrops
        rw [Option.some_inj, eq_comm]
        rfl
    | none =>
      cases revSynth addr req.config.synthDomains with
      | some hostname =>
        refine .lookup hdrops (.local (fun f => ?_))
        simp [answerRr, Reply.record, eq_comm]
      | none => exact .lookup hdrops (.nothing (fun f => nofun))

theorem adds_ptrAnswers (req : Request) (r : Reply M) :
    Adds req.now r (ptrAnswers req r) (PtrFinds req r.cache r.name) := by
  unfold ptrAnswers
  split_ifs with hasks
  · by_cases hown : ∃ p ∈ req.config.ptrRecords, toLowercase p.name = r.name
    · rw [if_pos (by simpa using hown)]
      refine .local (fun f => ?_)
      obtain ⟨p, hp, hpname⟩ := hown
      have hnot : ¬∀ p ∈ req.config.ptrRecords, toLowercase p.name ≠ r.name :=
        fun h => h p hp hpname
      simp [PtrFinds, hasks, hnot, answerRr, Reply.record, and_assoc]
    · rw [if_neg (by simpa using hown)]
      rw [not_exists] at hown
      have hfinds : ∀ f, PtrFinds req r.cache r.name f ↔ ∃ addr, inArpaName2Addr r.name = some addr
          ∧ reverseFinding req r.cache r.name addr = some f := by
        intro f
        constructor
        · rintro ⟨-, ⟨p, hp, hpname, -⟩ | ⟨-, h⟩⟩
          · exact absurd ⟨hp, hpname⟩ (hown p)
          · exact h
        · intro h
          exact ⟨hasks, .inr ⟨fun p hp hpname => hown p ⟨hp, hpname⟩, h⟩⟩
      cases haddr : inArpaName2Addr r.name with
      | none => exact .nothing (fun f hf => by simp [hfinds, haddr] at hf)
      | some addr =>
        refine (adds_reverseAnswers req r addr).congr fun f => ?_
        rw [hfinds, haddr]
        simp
  · exact .nothing (fun f hf => hasks hf.1)

end Reverse

/-! ### Addresses -/

/-- What is found for one family: a live record, a live negative one, or a synthetic address. -/
def FamilyFinds {A : Type} (fam : AnswerFamily A) (req : Request) (cache : DnsCache M) (name : Str)
    (f : Finding) : Prop :=
  match cache.live ⟨toLowercase name, fam.flag⟩ req.now,
    cache.live ⟨toLowercase name, fam.flag ||| fNeg⟩ req.now with
  | some rec, _ => ∃ ip, rec.addr.bind fam.ofAddr = some ip
      ∧ f = .record (answerRr name fam.rtype (DnsCache.crecTtl rec req.now) (fam.octets ip))
  | none, some _ => f = .noData
  | none, none => ∃ ip, synthesize fam.synth name req.config.synthDomains = .ok (some ip)
      ∧ f = .record (answerRr name fam.rtype req.config.localTtl (fam.octets ip))

/-- An address of a host record. -/
def HostFinds (req : Request) (name : Str) (f : Finding) : Prop :=
  ∃ hr ∈ req.config.hostRecords, (∃ n ∈ hr.names, toLowercase n = name)
    ∧ (req.asks 1 ∧ (∃ ip, hr.addr4 = some ip
        ∧ f = .record (answerRr name 1 req.config.localTtl ip.octets.toList))
      ∨ req.asks 28 ∧ ∃ ip, hr.addr6 = some ip
        ∧ f = .record (answerRr name 28 req.config.localTtl ip.octets.toList))

/-- The addresses of the host records or, if there are none, of the families asked for. -/
def AddressFinds (req : Request) (cache : DnsCache M) (name : Str) (f : Finding) : Prop :=
  HostFinds req name f
    ∨ (∀ f, ¬HostFinds req name f) ∧ (req.asks 1 ∧ FamilyFinds answer4 req cache name f
      ∨ req.asks 28 ∧ FamilyFinds answer6 req cache name f)

theorem familyFinds_of_onlyDrops {c c' : DnsCache M}
    (h : OnlyDrops (Expired req.now) c.records c'.records) :
    FamilyFinds fam req c' name = FamilyFinds fam req c name := by
  unfold FamilyFinds
  simp only [live_of_onlyDrops h]

theorem addressFinds_of_onlyDrops (req : Request) {c c' : DnsCache M}
    (h : OnlyDrops (Expired req.now) c.records c'.records) (name : Str) :
    AddressFinds req c' name = AddressFinds req c name := by
  unfold AddressFinds
  rw [familyFinds_of_onlyDrops h, familyFinds_of_onlyDrops h]

omit [Lru M CacheKey CacheRecord] in
theorem hostFinds_iff : HostFinds req r.name f ↔ ∃ rr ∈ hostAnswers req r, f = .record rr := by
  constructor
  · rintro ⟨hr, hhr, hname, ⟨hasks, ip, hip, rfl⟩ | ⟨hasks, ip, hip, rfl⟩⟩
    · refine ⟨_, List.mem_flatMap.mpr ⟨hr, ?_, List.mem_append_left _ ?_⟩, rfl⟩
      · simpa [hhr] using hname
      · simp [hasks, hip, answerRr, Reply.record]
    · refine ⟨_, List.mem_flatMap.mpr ⟨hr, ?_, List.mem_append_right _ ?_⟩, rfl⟩
      · simpa [hhr] using hname
      · simp [hasks, hip, answerRr, Reply.record]
  · rintro ⟨rr, hrr, rfl⟩
    obtain ⟨hr, hhr, hrr⟩ := List.mem_flatMap.mp hrr
    rw [List.mem_filter] at hhr
    refine ⟨hr, hhr.1, by simpa using hhr.2, ?_⟩
    rcases List.mem_append.mp hrr with hrr | hrr
    · split_ifs at hrr with hasks
      · obtain ⟨ip, hip, rfl⟩ := List.mem_map.mp hrr
        exact .inl ⟨hasks, ip, Option.mem_toList.mp hip, rfl⟩
      · exact absurd hrr List.not_mem_nil
    · split_ifs at hrr with hasks
      · obtain ⟨ip, hip, rfl⟩ := List.mem_map.mp hrr
        exact .inr ⟨hasks, ip, Option.mem_toList.mp hip, rfl⟩
      · exact absurd hrr List.not_mem_nil

/-- The bits of the records that a family is looked up under. -/
theorem family_bits : ∀ flag ∈ [fIpv4, fIpv6], Cache.typeFlags flag = flag ∧ flag &&& fNeg = 0
    ∧ (flag ||| fNeg) &&& fNeg ≠ 0 ∧ (flag ||| fNeg) &&& fNxdomain = 0 := by
  decide

section Families

variable [LawfulLru M CacheKey CacheRecord]

theorem adds_familyAnswer (hfam : fam.flag ∈ [fIpv4, fIpv6])
    {r r' : Reply M} (hkeyed : ∀ k r', peek r.cache.records k = some r' → k = r'.key)
    (h : familyAnswer fam req r = .ok r') :
    Adds req.now r r' (FamilyFinds fam req r.cache r.name) := by
  obtain ⟨htype, hpos, hneg, hnx⟩ := family_bits fam.flag hfam
  have hdrops := DnsCache.onlyDrops_lookupForward r.cache r.name fam.flag req.now
  have hlookup := DnsCache.lookupForward_snd r.cache r.name fam.flag req.now
  rw [htype] at hlookup
  unfold familyAnswer at h
  dsimp only at h
  rw [hlookup] at h
  unfold FamilyFinds
  cases hlive : r.cache.live ⟨toLowercase r.name, fam.flag⟩ req.now with
  | some rec =>
    have hbits : rec.flags &&& fNeg = 0 :=
      (DnsCache.and_eq_of_live hkeyed hlive (by decide)).trans hpos
    rw [hlive, Option.some_or] at h
    dsimp only at h ⊢
    rw [hbits] at h
    cases hip : rec.addr.bind fam.ofAddr with
    | some ip =>
      rw [hip] at h
      obtain rfl := Except.ok.inj h
      refine .cached (fun f => ?_) hdrops
      simp [answerRr, Reply.record]
    | none =>
      rw [hip] at h
      obtain rfl := Except.ok.inj h
      exact .lookup hdrops (.nothing (fun f => by simp))
  | none =>
    cases hlive' : r.cache.live ⟨toLowercase r.name, fam.flag ||| fNeg⟩ req.now with
    | some rec =>
      have hbits : rec.flags &&& fNeg ≠ 0 := by
        rw [DnsCache.and_eq_of_live hkeyed hlive' (by decide)]
        exact hneg
      have hname : rec.flags &&& fNxdomain = 0 :=
        (DnsCache.and_eq_of_live hkeyed hlive' (by decide)).trans hnx
      rw [hlive, hlive', Option.none_or] at h
      dsimp only at h ⊢
      rw [if_pos (bne_iff_ne.mpr hbits), hname] at h
      obtain rfl := Except.ok.inj h
      refine ⟨rfl, hdrops, ⟨[], (List.append_nil _).symm, by simp⟩, by simp, by simp, by simp⟩
    | none =>
      rw [hlive, hlive'] at h
      obtain ⟨ip, hip, rfl⟩ := map_eq_ok.mp h
      refine .lookup hdrops (.local (fun f => ?_))
      rw [hip]
      cases ip with
      | none => simp
      | some ip => simp [answerRr, Reply.record]

theorem adds_askedAnswer (hfam : fam.flag ∈ [fIpv4, fIpv6])
    {r r' : Reply M} (hkeyed : ∀ k r', peek r.cache.records k = some r' → k = r'.key)
    (h : askedAnswer fam req r = .ok r') :
    Adds req.now r r' fun f => req.asks fam.rtype ∧ FamilyFinds fam req r.cache r.name f := by
  unfold askedAnswer at h
  split_ifs at h with hasks
  · refine (adds_familyAnswer hfam hkeyed h).congr fun f => ?_
    rw [hasks, eq_self, true_and]
  · obtain rfl := Except.ok.inj h
    exact .nothing (fun f hf => hasks hf.1)

theorem adds_addressAnswers (req : Request) {r r' : Reply M}
    (hkeyed : ∀ k r', peek r.cache.records k = some r' → k = r'.key)
    (h : addressAnswers req r = .ok r') :
    Adds req.now r r' (AddressFinds req r.cache r.name) := by
  unfold addressAnswers at h
  by_cases hnil : hostAnswers req r = []
  · have hno : ∀ f, ¬HostFinds req r.name f := by
      intro f
      rw [hostFinds_iff, hnil]
      simp
    rw [if_neg (not_not.mpr hnil)] at h
    obtain ⟨r₁, h4, h6⟩ := bind_eq_ok.mp h
    have hadds4 := adds_askedAnswer (by decide) hkeyed h4
    have hadds6 := adds_askedAnswer (by decide) (DnsCache.keyed_of_onlyDrops hadds4.drops hkeyed) h6
    rw [familyFinds_of_onlyDrops hadds4.drops, hadds4.name] at hadds6
    refine (hadds4.trans hadds6).congr fun f => ?_
    rw [AddressFinds, or_iff_right (hno f), and_iff_right hno]
    rfl
  · rw [if_pos hnil] at h
    obtain rfl := Except.ok.inj h
    obtain ⟨rr, hrr⟩ := List.exists_mem_of_ne_nil _ hnil
    have hhost : ¬∀ f, ¬HostFinds req r.name f := fun hno =>
      hno (.record rr) ((hostFinds_iff).mpr ⟨rr, hrr, rfl⟩)
    refine .local (fun f => ?_)
    rw [AddressFinds, or_iff_left fun h => hhost h.1, hostFinds_iff]

end Families

/-! ### All stages that look at records -/

/-- What the stages up to NAPTR find for a name. -/
@[mk_iff]
inductive Finds (req : Request) (cache : DnsCache M) (name : Str) (f : Finding) : Prop
  | txt (h : TxtFinds req name f)
  | chaos (h : ChaosFinds req name f)
  | rr (h : RrFinds req name f)
  | ptr (h : PtrFinds req cache name f)
  | address (h : AddressFinds req cache name f)
  | mx (h : MxSrvFinds req false 15 (fun m => be16 m.priority.toUInt16 ++ writeName m.target)
      name f)
  | srv (h : MxSrvFinds req true 33 (fun m =>
      be16 m.priority.toUInt16 ++ be16 m.weight.toUInt16 ++ be16 m.srvPort ++ writeName m.target)
        name f)
  | naptr (h : NaptrFinds req name f)

/-- The reply at the end of the chain, which is followed in class IN. -/
def endReply (req : Request) (r : Reply M) : Reply M :=
  if req.qclass = 1 then resolveCnameChain req 16 r else r

/-- The stages up to NAPTR. -/
def dataStage (req : Request) (r : Reply M) : Except Fault (Reply M) :=
  (addressStage req r).map fun r => naptrAnswers req (srvAnswers req (mxAnswers req r))

theorem endReply_of_in {req : Request} (hclass : req.qclass = 1) (r : Reply M) :
    endReply req r = resolveCnameChain req 16 r := by
  rw [endReply, if_pos hclass]

section Cache

omit [Lru M CacheKey CacheRecord]

@[simp]
theorem cache_addLocal (r : Reply M) (rrs : List DnsRr) : (r.addLocal rrs).cache = r.cache := by
  unfold Reply.addLocal
  split_ifs <;> rfl

/-- The stages before the reverse lookup do not look at the cache. -/
theorem cache_rrAnswers (req : Request) (r : Reply M) :
    (rrAnswers req (answerChaosBindFallback req (txtAnswers req r))).cache = r.cache := by
  have htxt : (txtAnswers req r).cache = r.cache := by
    unfold txtAnswers
    split_ifs
    · dsimp only
      split_ifs <;> simp
    · rfl
  have hchaos : (answerChaosBindFallback req (txtAnswers req r)).cache = r.cache := by
    unfold answerChaosBindFallback
    split_ifs <;> exact htxt
  unfold rrAnswers
  split_ifs
  · rw [cache_addLocal, hchaos]
  · exact hchaos

end Cache

variable [LawfulLru M CacheKey CacheRecord]

theorem onlyDrops_endReply (req : Request) (r : Reply M) :
    OnlyDrops (Expired req.now) r.cache.records (endReply req r).cache.records := by
  unfold endReply
  split_ifs
  · exact (resolveCnameChain_spec req 16 r).drops
  · exact .refl _

theorem adds_recordStages (req : Request) (r : Reply M) (hans : req.qclass = 3 → r.ans = false) :
    Adds req.now (endReply req r) (recordStages req r) fun f =>
      ((TxtFinds req (endReply req r).name f ∨ ChaosFinds req (endReply req r).name f)
        ∨ RrFinds req (endReply req r).name f)
        ∨ PtrFinds req (endReply req r).cache (endReply req r).name f := by
  have hstart : req.qclass = 3 → (endReply req r).ans = false := by
    intro hclass
    rw [endReply, if_neg (by rw [hclass]; decide)]
    exact hans hclass
  unfold recordStages
  rw [show (if req.qclass = 1 then resolveCnameChain req 16 r else r) = endReply req r from rfl]
  generalize endReply req r = e at hstart
  have htxt := adds_txtAnswers req e
  have hchaos := adds_answerChaosBindFallback req (txtAnswers req e) fun hclass => by
    rw [htxt.ans, hstart hclass, htxt.name]
    simp
  have hrr := adds_rrAnswers req (answerChaosBindFallback req (txtAnswers req e))
  have hptr := adds_ptrAnswers req (rrAnswers req (answerChaosBindFallback req (txtAnswers req e)))
  rw [htxt.name] at hchaos
  rw [hchaos.name, htxt.name] at hrr
  rw [hrr.name, hchaos.name, htxt.name, cache_rrAnswers] at hptr
  exact ((htxt.trans hchaos).trans hrr).trans hptr

/-- The stages up to NAPTR add what there is to find at the end of the chain. -/
theorem adds_dataStage {req : Request} {r r' : Reply M} (hans : req.qclass = 3 → r.ans = false)
    (hkeyed : ∀ k r', peek r.cache.records k = some r' → k = r'.key)
    (h : dataStage req r = .ok r') :
    Adds req.now (endReply req r) r' (Finds req (endReply req r).cache (endReply req r).name) := by
  obtain ⟨r₁, haddr, rfl⟩ := map_eq_ok.mp h
  have hrecord := adds_recordStages req r hans
  have hdrops := (onlyDrops_endReply req r).trans hrecord.drops
  have haddress := adds_addressAnswers req (DnsCache.keyed_of_onlyDrops hdrops hkeyed) haddr
  have hmx :=
    adds_mxSrvAnswers req r₁ false 15 fun m => be16 m.priority.toUInt16 ++ writeName m.target
  have hsrv := adds_mxSrvAnswers req (mxAnswers req r₁) true 33 fun m =>
    be16 m.priority.toUInt16 ++ be16 m.weight.toUInt16 ++ be16 m.srvPort ++ writeName m.target
  have hnaptr := adds_naptrAnswers req (srvAnswers req (mxAnswers req r₁))
  have hname : r₁.name = (endReply req r).name := haddress.name.trans hrecord.name
  have hmxname : (mxAnswers req r₁).name = (endReply req r).name := hmx.name.trans hname
  have hsrvname : (srvAnswers req (mxAnswers req r₁)).name = (endReply req r).name :=
    hsrv.name.trans hmxname
  rw [addressFinds_of_onlyDrops req hrecord.drops, hrecord.name] at haddress
  rw [hname] at hmx
  rw [hmxname] at hsrv
  rw [hsrvname] at hnaptr
  refine ((((hrecord.trans haddress).trans hmx).trans hsrv).trans hnaptr).congr fun f => ?_
  rw [finds_iff]
  simp only [or_assoc]

/-! ### Kinds of findings -/

section Kinds

omit [LawfulLru M CacheKey CacheRecord]

variable {req : Request} {cache : DnsCache M} {name : Str} {f : Finding}

/-- It is a record for the name, or that there is none. -/
def Finding.IsData (name : Str) (f : Finding) : Prop :=
  f = .noData ∨ ∃ rr, f = .record rr ∧ rr.name = name

theorem TxtFinds.isData (h : TxtFinds req name f) : f.IsData name := by
  obtain ⟨-, t, -, -, -, rfl⟩ := h
  unfold txtRecord
  split_ifs with hstat
  · cases cacheMakeStat t.stat req.config.cachesize req.metrics with
    | none => exact .inl rfl
    | some text => exact .inr ⟨_, rfl, rfl⟩
  · exact .inr ⟨_, rfl, rfl⟩

theorem FamilyFinds.isData (h : FamilyFinds fam req cache name f) : f.IsData name := by
  unfold FamilyFinds at h
  split at h
  · obtain ⟨ip, -, rfl⟩ := h
    exact .inr ⟨_, rfl, rfl⟩
  · exact .inl h
  · obtain ⟨ip, -, rfl⟩ := h
    exact .inr ⟨_, rfl, rfl⟩

theorem AddressFinds.isData (h : AddressFinds req cache name f) : f.IsData name := by
  rcases h with ⟨hr, -, -, ⟨-, ip, -, rfl⟩ | ⟨-, ip, -, rfl⟩⟩ | ⟨-, ⟨-, h⟩ | ⟨-, h⟩⟩
  · exact .inr ⟨_, rfl, rfl⟩
  · exact .inr ⟨_, rfl, rfl⟩
  all_goals exact h.isData

/-- Everything found is data, but for the CHAOS fallback and reverse lookups. -/
theorem Finds.cases (h : Finds req cache name f) :
    f.IsData name ∨ f = .notImplemented ∧ ChaosFinds req name f
      ∨ f = .noName ∧ PtrFinds req cache name f := by
  cases h with
  | txt h | address h => exact .inl h.isData
  | chaos h => exact .inr (.inl ⟨h.2.2.2, h⟩)
  | rr h =>
    obtain ⟨-, t, -, -, -, rfl⟩ := h
    exact .inl (.inr ⟨_, rfl, rfl⟩)
  | ptr h =>
    obtain ⟨-, ⟨p, -, -, rfl⟩ | ⟨-, addr, -, hreverse⟩⟩ := id h
    · exact .inl (.inr ⟨_, rfl, rfl⟩)
    · unfold reverseFinding at hreverse
      split at hreverse
      · exact .inl (.inr ⟨_, (Option.some.inj hreverse).symm, rfl⟩)
      · split at hreverse
        · split_ifs at hreverse
          · exact .inr (.inr ⟨(Option.some.inj hreverse).symm, h⟩)
          · exact .inl (.inr ⟨_, (Option.some.inj hreverse).symm, rfl⟩)
        · obtain ⟨hostname, -, rfl⟩ := Option.map_eq_some_iff.mp hreverse
          exact .inl (.inr ⟨_, rfl, rfl⟩)
  | mx h | srv h =>
    obtain ⟨-, m, -, -, -, rfl⟩ := h
    exact .inl (.inr ⟨_, rfl, rfl⟩)
  | naptr h =>
    obtain ⟨-, n, -, -, rfl⟩ := h
    exact .inl (.inr ⟨_, rfl, rfl⟩)

theorem Finds.name_eq {rr : DnsRr} (h : Finds req cache name (.record rr)) : rr.name = name := by
  rcases h.cases with (hdata | ⟨rr', heq, hname⟩) | ⟨heq, -⟩ | ⟨heq, -⟩
  · cases hdata
  · rwa [Finding.record.inj heq]
  · cases heq
  · cases heq

theorem Finds.ptr_of_noName (h : Finds req cache name .noName) :
    PtrFinds req cache name .noName := by
  rcases h.cases with (hdata | ⟨rr, heq, -⟩) | ⟨heq, -⟩ | ⟨-, hptr⟩
  · cases hdata
  · cases heq
  · cases heq
  · exact hptr

theorem Finds.chaos_of_notImplemented (h : Finds req cache name .notImplemented) :
    ChaosFinds req name .notImplemented := by
  rcases h.cases with (hdata | ⟨rr, heq, -⟩) | ⟨-, hchaos⟩ | ⟨heq, -⟩
  · cases hdata
  · cases heq
  · exact hchaos
  · cases heq

theorem asks_eq_true {req : Request} (h : req.asks rtype) :
    req.qclass = 1 ∧ (req.qtype = rtype ∨ req.qtype = 255) := by
  simpa [Request.asks] using h

end Kinds

/-! ### Questions for an IPv4 address -/

/-- A host record gives the name an IPv4 address. -/
def HostRecordGives (config : LocalConfig) (n : Str) (a : Ipv4Addr) : Prop :=
  ∃ hr ∈ config.hostRecords, (∃ m ∈ hr.names, toLowercase m = toLowercase n) ∧ hr.addr4 = some a

section Address

omit [LawfulLru M CacheKey CacheRecord]

variable {req : Request} {cache : DnsCache M} {name : Str} {f : Finding}

/-- A question for one type, neither for texts nor for a stage of its own behind the addresses. -/
theorem finds_iff_of_asked (hqtype : req.qtype = t) (hqclass : req.qclass = 1)
    (ht : t ∉ ([16, 255, 15, 33, 35] : List UInt16)) :
    Finds req cache name f
      ↔ RrFinds req name f ∨ PtrFinds req cache name f ∨ AddressFinds req cache name f := by
  simp only [List.mem_cons, List.not_mem_nil, or_false, not_or] at ht
  obtain ⟨h16, h255, h15, h33, h35⟩ := ht
  have hno : ∀ rtype : UInt16, t ≠ rtype → ¬req.asks rtype := by
    intro rtype hne
    simp [Request.asks, hqtype, hne, h255]
  constructor
  · intro h
    cases h with
    | txt h => simp [TxtFinds, hqtype, h16, h255] at h
    | chaos h => exact absurd (hqclass.symm.trans h.1) (by decide)
    | rr h => exact .inl h
    | ptr h => exact .inr (.inl h)
    | address h => exact .inr (.inr h)
    | mx h => exact absurd h.1 (hno 15 h15)
    | srv h => exact absurd h.1 (hno 33 h33)
    | naptr h => exact absurd h.1 (hno 35 h35)
  · rintro (h | h | h)
    · exact .rr h
    · exact .ptr h
    · exact .address h

/-- A question for an IPv4 address looks at the records of arbitrary types and the addresses. -/
theorem finds_iff_of_a (hqtype : req.qtype = 1) (hqclass : req.qclass = 1) :
    Finds req cache name f ↔ RrFinds req name f ∨ HostFinds req name f
      ∨ (∀ f, ¬HostFinds req name f) ∧ FamilyFinds answer4 req cache name f := by
  have h1 : req.asks 1 := by simp [Request.asks, hqtype, hqclass]
  have hptr : ¬PtrFinds req cache name f := by simp [PtrFinds, Request.asks, hqtype]
  have h6 : ¬(req.asks 28 ∧ FamilyFinds answer6 req cache name f) := by simp [Request.asks, hqtype]
  rw [finds_iff_of_asked hqtype hqclass (by decide), or_iff_right hptr, AddressFinds,
    and_iff_right h1, or_iff_left h6]

/-- A question for a name of an address looks at the records of arbitrary types and the reverse
data. -/
theorem finds_iff_of_ptr (hqtype : req.qtype = 12) (hqclass : req.qclass = 1) :
    Finds req cache name f ↔ RrFinds req name f ∨ PtrFinds req cache name f := by
  have h1 : ¬req.asks 1 := by simp [Request.asks, hqtype]
  have h28 : ¬req.asks 28 := by simp [Request.asks, hqtype]
  have hno : ¬AddressFinds req cache name f := by
    rintro (⟨hr, -, -, h | h⟩ | ⟨-, h | h⟩)
    · exact h1 h.1
    · exact h28 h.1
    · exact h1 h.1
    · exact h28 h.1
  rw [finds_iff_of_asked hqtype hqclass (by decide), or_iff_left hno]

theorem finds_of_onlyDrops_of_a (hqtype : req.qtype = 1) (hqclass : req.qclass = 1)
    {c c' : DnsCache M} (h : OnlyDrops (Expired req.now) c.records c'.records) :
    Finds req c' name f ↔ Finds req c name f := by
  rw [finds_iff_of_a hqtype hqclass, finds_iff_of_a hqtype hqclass, familyFinds_of_onlyDrops h]

omit [Lru M CacheKey CacheRecord] in
theorem hostFinds_iff_of_a (hqtype : req.qtype = 1) (hqclass : req.qclass = 1) :
    HostFinds req (toLowercase n) f ↔ ∃ ip, HostRecordGives req.config n ip
      ∧ f = .record (answerRr (toLowercase n) 1 req.config.localTtl ip.octets.toList) := by
  have hasks : req.asks 28 = false := by simp [Request.asks, hqtype]
  have hasks1 : req.asks 1 := by simp [Request.asks, hqtype, hqclass]
  constructor
  · rintro ⟨hr, hhr, hname, ⟨-, ip, hip, rfl⟩ | ⟨h28, -⟩⟩
    · exact ⟨ip, ⟨hr, hhr, hname, hip⟩, rfl⟩
    · rw [hasks] at h28
      cases h28
  · rintro ⟨ip, ⟨hr, hhr, hname, hip⟩, rfl⟩
    exact ⟨hr, hhr, hname, .inl ⟨hasks1, ip, hip, rfl⟩⟩

end Address

end DnsmasqRs.Rfc1035
