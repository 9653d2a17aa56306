import DnsmasqRs.Cache
import DnsmasqRs.Domain
import DnsmasqRs.DomainMatch
import DnsmasqRs.Rfc1035.Address

/-!
# Answering from local data and the cache (`rfc1035.rs`)

`answer_request` builds the answer to a query in stages, each of which looks at one kind of local
data under the name at the end of the CNAME chain.  A stage takes the `Reply` built so far and adds
to it.  Nothing is answered, and the query is to be forwarded, if no stage sets `ans`.

Four stages slice the name by byte lengths and can fail with a `Fault`: the addresses of
`--synth-domain` names, the lookup of `--address` domains, the test for local names behind both, and
the suffix match against `--local` domains.  Query logging is not modelled.
-/

namespace DnsmasqRs.Rfc1035

open Wire Utf8 NetText DnsProtocol Cache Domain DomainMatch Fallible

/-! ### Local data (`types/dns_records.rs`) -/

/-- `MxSrvRecord`. -/
structure MxSrvRecord where
  name : Str
  target : Str
  isSrv : Bool
  srvPort : UInt16
  priority : UInt32
  weight : UInt32
  deriving DecidableEq

/-- `Naptr`. -/
structure Naptr where
  name : Str
  replace : Str
  regexp : Str
  services : Str
  flags : Str
  order : UInt32
  pref : UInt32
  deriving DecidableEq

/-- `TxtRecord`; `stat` is not zero for the statistics under `bind`. -/
structure TxtRecord where
  name : Str
  txt : Bytes
  rclass : UInt16
  stat : ℤ
  deriving DecidableEq

/-- `PtrRecord`. -/
structure PtrRecord where
  name : Str
  ptr : Str
  deriving DecidableEq

/-- `Cname`, with the fields `answer_request` reads. -/
structure Cname where
  aliasName : Str
  target : Str
  deriving DecidableEq

/-- `HostRecord`, with the fields `answer_request` reads. -/
structure HostRecord where
  names : List Str
  addr4 : Option Ipv4Addr
  addr6 : Option Ipv6Addr
  deriving DecidableEq

/-- `LocalConfig`.  Of the interface names only the names are read. -/
structure LocalConfig where
  localTtl : UInt32
  ednsPktsz : UInt16
  txtRecords : List TxtRecord
  rrRecords : List TxtRecord
  mxRecords : List MxSrvRecord
  ptrRecords : List PtrRecord
  hostRecords : List HostRecord
  cnames : List Cname
  naptrRecords : List Naptr
  intNames : List Str
  nodotsLocal : Bool
  synthDomains : List CondDomain
  addressServers : ServerArray
  addressServerList : List Server
  literalDomains : List Str
  cachesize : ℤ

/-- The counters of `metrics.rs` that the statistics show. -/
structure Metrics where
  dnsCacheInserted : ℕ
  dnsCacheLiveFreed : ℕ
  dnsQueriesForwarded : ℕ
  dnsLocalAnswered : ℕ
  deriving DecidableEq

/-- `cache_make_stat`. -/
def cacheMakeStat (stat cachesize : ℤ) (metrics : Metrics) : Option Bytes :=
  let text := match stat with
    | 1 => some (toString cachesize).toList
    | 2 => some (decimal metrics.dnsCacheInserted)
    | 3 => some (decimal metrics.dnsCacheLiveFreed)
    | 4 => some (decimal metrics.dnsQueriesForwarded)
    | 5 => some (decimal metrics.dnsLocalAnswered)
    | _ => none
  text.map fun text =>
    let text := bytes (text.take 255)
    UInt8.ofNat text.length :: text

/-! ### The reply -/

/-- What the stages have built so far. -/
structure Reply (M : Type) where
  cache : DnsCache M
  name : Str
  answers : List DnsRr := []
  ans : Bool := false
  nxdomain : Bool := false
  auth : Bool := false
  notimp : Bool := false
  truncated : Bool := false

namespace Reply

variable {M : Type}

/-- An answer record for the current name. -/
def record (r : Reply M) (rtype rclass : UInt16) (ttl : UInt32) (rdata : Bytes) : DnsRr :=
  { name := r.name, rtype, rclass, ttl, rdata }

/-- Add answers from the configuration, which are authoritative. -/
def addLocal (r : Reply M) (rrs : List DnsRr) : Reply M :=
  if rrs = [] then r else { r with answers := r.answers ++ rrs, ans := true, auth := true }

/-- Add an answer from the cache. -/
def addCached (r : Reply M) (rr : DnsRr) : Reply M :=
  { r with answers := r.answers ++ [rr], ans := true }

end Reply

/-- What the stages read: the question's type and class, the time and the configuration. -/
structure Request where
  qtype : UInt16
  qclass : UInt16
  now : Instant
  config : LocalConfig
  metrics : Metrics

/-- The question asks for a type, in class IN. -/
def Request.asks (req : Request) (rtype : UInt16) : Bool :=
  req.qclass == 1 && (req.qtype == rtype || req.qtype == 255)

/-! ### Names -/

/-- `hostname_issubdomain`. -/
def hostnameIssubdomain (sub domain : Str) : Bool :=
  toLowercase sub == toLowercase domain || ('.' :: toLowercase domain).isSuffixOf (toLowercase sub)

/-- The closure of `domain_matches_any_suffix`. -/
def matchesSuffix (name domain : Str) : Except Fault Bool :=
  if byteLen domain = 0 ∨ byteLen name < byteLen domain then .ok false
  else orSlice (suffixOnLabel name domain)

/-- `domain_matches_any_suffix`. -/
def domainMatchesAnySuffix (name : Str) (domains : List Str) : Except Fault Bool :=
  anyOf (matchesSuffix name) domains

section Stages

variable {M : Type} [Lru M CacheKey CacheRecord]

/-- The name is at or below a configured record, or a name in the cache. -/
def knownByRecords (name : Str) (config : LocalConfig) (cache : DnsCache M) (now : Instant) :
    Bool :=
  config.naptrRecords.any (hostnameIssubdomain name ·.name)
    || config.mxRecords.any (hostnameIssubdomain name ·.name)
    || config.txtRecords.any (hostnameIssubdomain name ·.name)
    || config.intNames.any (hostnameIssubdomain name ·)
    || config.ptrRecords.any (hostnameIssubdomain name ·.name)
    || cache.cacheFindNonTerminal name now

/-- `check_for_local_domain`. -/
def checkForLocalDomain (name : Str) (config : LocalConfig) (cache : DnsCache M) (now : Instant) :
    Except Fault Bool :=
  if knownByRecords name config cache now then .ok true
  else do
    let ipv4 ← synthesizeIpv4 name config.synthDomains
    if ipv4.isSome then return true
    else return (← synthesizeIpv6 name config.synthDomains).isSome

/-! ### CNAME chain, TXT and other records -/

/-- `resolve_cname_chain`, for a number of hops. -/
def resolveCnameChain (req : Request) : ℕ → Reply M → Reply M
  | 0, r => r
  | hops + 1, r =>
    match req.config.cnames.find? fun c => toLowercase c.aliasName == r.name with
    | some c =>
      let r' := { r with
        answers := r.answers ++ [r.record 5 1 req.config.localTtl (writeName c.target)]
        name := toLowercase c.target
        ans := true }
      if req.qtype = 5 then r' else resolveCnameChain req hops r'
    | none =>
      let (cache, cached) := r.cache.lookupByName r.name fCname req.now
      let r := { r with cache }
      let target := cached.bind fun rec =>
        match rec.addr with
        | some (.cname c) => c.targetName.map fun t => (t, DnsCache.crecTtl rec req.now)
        | _ => none
      match target with
      | some (target, ttl) =>
        let r' := { r with
          answers := r.answers ++ [r.record 5 1 ttl (writeName target)]
          name := toLowercase target }
        -- the CNAME itself may be what was asked for
        if req.qtype = 5 then { r' with ans := true } else resolveCnameChain req hops r'
      | none =>
        let (cache, negative) := r.cache.lookupByName r.name (fNxdomain ||| fNeg) req.now
        if negative.isSome then { r with cache, nxdomain := true, ans := true }
          else { r with cache }

variable (req : Request) (budget baseLen : ℕ) (r : Reply M)

/-- The TXT records of the question's class. -/
def txtAnswers : Reply M :=
  if req.qtype = 16 ∨ req.qtype = 255 then
    let found := req.config.txtRecords.filter fun t =>
      t.rclass == req.qclass && toLowercase t.name == r.name
    let rrs := found.filterMap fun t =>
      if t.stat ≠ 0 then
        -- a statistic must not be cached, and an unknown one is left out
        (cacheMakeStat t.stat req.config.cachesize req.metrics).map (r.record 16 t.rclass 0)
      else some (r.record 16 t.rclass req.config.localTtl t.txt)
    let r := r.addLocal rrs
    if found = [] then r else { r with ans := true }
  else r

/-- `answer_chaos_bind_fallback`.  The arguments stand the way the source has them. -/
def answerChaosBindFallback : Reply M :=
  if req.qclass = 3 ∧ r.ans = false
      ∧ (hostnameIssubdomain "bind".toList r.name
        || hostnameIssubdomain "server".toList r.name) then
    { r with notimp := true, ans := true }
  else r

/-- The records of arbitrary types; their class field holds the type. -/
def rrAnswers : Reply M :=
  if req.qclass = 1 then
    r.addLocal ((req.config.rrRecords.filter fun t =>
      toLowercase t.name == r.name && (t.rclass == req.qtype || req.qtype == 255)).map fun t =>
        r.record t.rclass 1 req.config.localTtl t.txt)
  else r

/-- `host_records_find_by_addr`. -/
def hostRecordsFindByAddr (addr : AllAddr) (hostRecords : List HostRecord) : Option Str :=
  (hostRecords.find? fun hr =>
    match addr with
    | .addr4 ip => hr.addr4 == some ip
    | .addr6 ip => hr.addr6 == some ip
    | _ => false).bind (·.names.head?)

/-- The name that `--synth-domain` gives to an address. -/
def revSynth (addr : AllAddr) (domains : List CondDomain) : Option Str :=
  match addr with
  | .addr4 ip => revSynthIpv4 ip domains
  | .addr6 ip => revSynthIpv6 ip domains
  | _ => none

/-- The PTR record of an address: from the host records, the cache or the synthetic names. -/
def reverseAnswers (addr : AllAddr) : Reply M :=
  let ptr (ttl : UInt32) (hostname : Str) := r.record 12 1 ttl (writeName hostname)
  match hostRecordsFindByAddr addr req.config.hostRecords with
  | some hostname => r.addLocal [ptr req.config.localTtl hostname]
  | none =>
    let (cache, cached) := r.cache.lookupByAddr addr req.now
    let r := { r with cache }
    match cached with
    | some rec =>
      if rec.flags &&& fNxdomain != 0 then { r with nxdomain := true, ans := true }
      else r.addCached (ptr (DnsCache.crecTtl rec req.now) rec.name)
    | none =>
      match revSynth addr req.config.synthDomains with
      | some hostname => r.addLocal [ptr req.config.localTtl hostname]
      | none => r

/-- The PTR records. -/
def ptrAnswers : Reply M :=
  if req.asks 12 then
    let rrs := (req.config.ptrRecords.filter (toLowercase ·.name == r.name)).map fun p =>
      r.record 12 1 req.config.localTtl (writeName p.ptr)
    if rrs ≠ [] then r.addLocal rrs
    else
      match inArpaName2Addr r.name with
      | some addr => reverseAnswers req r addr
      | none => r
  else r

/-! ### Addresses -/

/-- How the two address families are answered. -/
structure AnswerFamily (A : Type) where
  flag : UInt32
  rtype : UInt16
  ofAddr : AllAddr → Option A
  octets : A → Bytes
  synth : Family A

def answer4 : AnswerFamily Ipv4Addr where
  flag := fIpv4
  rtype := 1
  ofAddr
    | .addr4 ip => some ip
    | _ => none
  octets := fun ip => ip.octets.toList
  synth := family4

def answer6 : AnswerFamily Ipv6Addr where
  flag := fIpv6
  rtype := 28
  ofAddr
    | .addr6 ip => some ip
    | _ => none
  octets := fun ip => ip.octets.toList
  synth := family6

/-- The address of one family from the cache or, if it has nothing, from a synthetic name. -/
def familyAnswer {A : Type} (fam : AnswerFamily A) (req : Request) (r : Reply M) :
    Except Fault (Reply M) :=
  let (cache, cached) := r.cache.lookupForward r.name fam.flag req.now
  let r := { r with cache }
  match cached with
  | some rec =>
    if rec.flags &&& fNeg != 0 then
      .ok { r with ans := true, nxdomain := r.nxdomain || rec.flags &&& fNxdomain != 0 }
    else
      match rec.addr.bind fam.ofAddr with
      | some ip =>
          .ok (r.addCached (r.record fam.rtype 1 (DnsCache.crecTtl rec req.now) (fam.octets ip)))
      | none => .ok r
  | none =>
    (synthesize fam.synth r.name req.config.synthDomains).map fun ip =>
      r.addLocal (ip.toList.map fun ip => r.record fam.rtype 1 req.config.localTtl (fam.octets ip))

/-- The address of one family, if it is asked for. -/
def askedAnswer {A : Type} (fam : AnswerFamily A) (req : Request) (r : Reply M) :
    Except Fault (Reply M) :=
  if req.asks fam.rtype then familyAnswer fam req r else .ok r

/-- The addresses of the host records. -/
def hostAnswers : List DnsRr :=
  (req.config.hostRecords.filter (·.names.any (toLowercase · == r.name))).flatMap fun hr =>
    (if req.asks 1 then hr.addr4.toList.map fun ip =>
      r.record 1 1 req.config.localTtl ip.octets.toList else [])
    ++ if req.asks 28 then hr.addr6.toList.map fun ip =>
      r.record 28 1 req.config.localTtl ip.octets.toList else []

/-- The A and AAAA records. -/
def addressAnswers : Except Fault (Reply M) :=
  let rrs := hostAnswers req r
  if rrs ≠ [] then .ok (r.addLocal rrs)
  else do
    let r ← askedAnswer answer4 req r
    askedAnswer answer6 req r

/-! ### MX, SRV and NAPTR -/

/-- The MX or the SRV records. -/
def mxSrvAnswers (srv : Bool) (rtype : UInt16) (rdata : MxSrvRecord → Bytes) (r : Reply M) :
    Reply M :=
  if req.asks rtype then
    r.addLocal
      ((req.config.mxRecords.filter fun m => m.isSrv == srv && toLowercase m.name == r.name).map
      fun m => r.record rtype 1 req.config.localTtl (rdata m))
  else r

def mxAnswers : Reply M :=
  mxSrvAnswers req false 15 (fun m => be16 m.priority.toUInt16 ++ writeName m.target) r

def srvAnswers : Reply M :=
  mxSrvAnswers req true 33 (fun m =>
    be16 m.priority.toUInt16 ++ be16 m.weight.toUInt16 ++ be16 m.srvPort ++ writeName m.target) r

/-- A string with its length in front. -/
def countedString (s : Str) : Bytes := UInt8.ofNat (byteLen s) :: bytes s

/-- The NAPTR records. -/
def naptrAnswers : Reply M :=
  if req.asks 35 then
    r.addLocal ((req.config.naptrRecords.filter (toLowercase ·.name == r.name)).map fun n =>
      r.record 35 1 req.config.localTtl (be16 n.order.toUInt16 ++ be16 n.pref.toUInt16
        ++ countedString n.flags ++ countedString n.services ++ countedString n.regexp
        ++ writeName n.replace))
  else r

/-! ### Literal addresses (`domain_match.rs`) -/

/-- `is_local_answer`. -/
def isLocalAnswer (arr : ServerArray) (first : ℕ) (isLocallyKnown : Except Fault Bool) :
    Except Fault UInt32 :=
  match arr.entries[first]? with
  | none => .ok 0
  | some entry =>
    if !ServFlags.contains entry.flags .literalAddress then .ok 0
    else if ServFlags.contains entry.flags .addr4 then .ok fIpv4
    else if ServFlags.contains entry.flags .addr6 then .ok fIpv6
    else if ServFlags.contains entry.flags .allZeros then .ok (fIpv4 ||| fIpv6)
    else
      match arr.entries[backWhile (fun i => arr.sameGroup i (i + 1)) first]? with
      | none => .error .index
      | some rolled =>
        if ServFlags.intersects rolled.flags ServerArray.servLocalAddress then .ok fNoerr
        else isLocallyKnown.map fun known => if known then fNoerr else fNxdomain

/-- The records of one family that `make_local_answer` makes. -/
def literalRecords (arr : ServerArray) (servers : List Server) (first last : ℕ) (name : Str)
    (ttl : UInt32) (rtype : UInt16) (zero : Bytes) (octets : IpAddr → Option Bytes) : List DnsRr :=
  (List.range' first (last - first)).filterMap fun i =>
    arr.entries[i]?.bind fun entry =>
      let addr := if ServFlags.contains entry.flags .allZeros then some zero
        else servers[entry.index]?.bind fun s => octets s.addr
      addr.map fun rdata => { name, rtype, rclass := 1, ttl, rdata }

/-- `make_local_answer`. -/
def makeLocalAnswer (arr : ServerArray) (servers : List Server) (first last : ℕ) (flags : UInt32)
    (name : Str) (ttl : UInt32) : List DnsRr :=
  (if flags &&& fIpv4 != 0 then
    literalRecords arr servers first last name ttl 1 Ipv4Addr.unspecified.octets.toList fun
      | .v4 ip => some ip.octets.toList
      | .v6 _ => none
    else [])
  ++ if flags &&& fIpv6 != 0 then
    literalRecords arr servers first last name ttl 28 Ipv6Addr.unspecified.octets.toList fun
      | .v6 ip => some ip.octets.toList
      | .v4 _ => none
    else []

/-- The address families asked for. -/
def Request.gotname : UInt32 :=
  (if req.qtype == 1 || req.qtype == 255 then fIpv4 else 0)
    ||| if req.qtype == 28 || req.qtype == 255 then fIpv6 else 0

/-- `PACKETSZ`. -/
def packetsz : ℕ := 512

/-- The answer of `--address` and `--local` domains, if there is none yet.  `baseLen` is the length
of the response without it and `budget` how long it may get. -/
def literalAnswers : Except Fault (Reply M) :=
  if r.ans then .ok r
  else do
    let arr := req.config.addressServers
    match ← arr.lookup r.name req.gotname with
    | none => return r
    | some (first, last) =>
      let flags ← isLocalAnswer arr first (checkForLocalDomain r.name req.config r.cache req.now)
      if flags &&& fNxdomain != 0 then return { r with ans := true, nxdomain := true }
      else if flags &&& fNoerr != 0 then return { r with ans := true }
      else if flags &&& (fIpv4 ||| fIpv6) != 0 then
        let rrs :=
          makeLocalAnswer arr req.config.addressServerList first last (flags &&& req.gotname)
          r.name req.config.localTtl
        let r := { r with ans := true, auth := true }
        -- all of them or none
        if budget < baseLen + (rrs.flatMap writeRr).length then return { r with truncated := true }
        else return { r with answers := r.answers ++ rrs }
      else return r

/-- `--domain-needed` applies: an unanswered question for the address of a single-label name. -/
def needsDomain : Bool :=
  !r.ans && req.config.nodotsLocal && req.gotname != 0 && !r.name.contains '.' && r.name != []

/-- `--domain-needed`: a single-label name is not forwarded. -/
def nodotsAnswers : Except Fault (Reply M) :=
  if needsDomain req r then
    (checkForLocalDomain r.name req.config r.cache req.now).map fun known =>
      { r with ans := true, nxdomain := !known }
  else .ok r

/-- A name in a `--local` domain is not forwarded. -/
def literalDomainAnswers : Except Fault (Reply M) :=
  if r.ans then .ok r
  else
    (domainMatchesAnySuffix r.name req.config.literalDomains).map fun matched =>
      if matched then { r with ans := true, nxdomain := true } else r

/-! ### The whole answer -/

/-- The header of the response before it is finished. -/
def responseHeader (header : DnsHeader) : DnsHeader :=
  { header with
    hb3 := (header.hb3 &&& ~~~(hb3Aa ||| hb3Tc)) ||| hb3Qr
    hb4 := (header.hb4 &&& ~~~hb4Ad) ||| hb4Ra
    ancount := 0
    nscount := 0
    arcount := 0 }

/-- The response code and the `AA` bit. -/
def finishHeader (header : DnsHeader) : DnsHeader :=
  let authoritative := !r.notimp && !r.nxdomain && r.auth
  let header := header.setRcode (if r.notimp then 4 else if r.nxdomain then 3 else 0)
  let hb3 := (if authoritative then header.hb3 ||| hb3Aa else header.hb3 &&& ~~~hb3Aa) ||| hb3Qr
  { header with
    hb3 := if r.truncated then hb3 ||| hb3Tc else hb3
    hb4 := header.hb4 ||| hb4Ra }

/-- The OPT record of the response, if the query has one. -/
def responseOpt (query : DnsPacket) (ednsPktsz : UInt16) : Option DnsRr :=
  (query.additional.find? (·.rtype == 41)).map fun opt =>
    { name := [], rtype := 41, rclass := ednsPktsz, ttl := opt.ttl &&& 0x8000, rdata := [] }

/-- The response that a reply makes. -/
def finishResponse (query : DnsPacket) (config : LocalConfig) (r : Reply M) : DnsPacket :=
  let additional := (responseOpt query config.ednsPktsz).toList
  { header := finishHeader r { responseHeader query.header with
      ancount := UInt16.ofNat r.answers.length
      arcount := UInt16.ofNat additional.length }
    questions := query.questions
    answers := r.answers
    authority := []
    additional }

/-- The stages that look at the records of the name, up to the addresses. -/
def recordStages : Reply M :=
  ptrAnswers req <| rrAnswers req <| answerChaosBindFallback req <| txtAnswers req <|
    if req.qclass = 1 then resolveCnameChain req 16 r else r

/-- How long the response may get. -/
def responseBudget (query : DnsPacket) (config : LocalConfig) : ℕ :=
  if query.additional.any (·.rtype == 41) then config.ednsPktsz.toNat else packetsz

/-- The length of the response without its records. -/
def responseBaseLen (query : DnsPacket) : ℕ :=
  (DnsPacket.write ⟨responseHeader query.header, query.questions, [], [], []⟩).length

/-- The stages up to the addresses. -/
def addressStage : Except Fault (Reply M) :=
  addressAnswers req (recordStages req r)

/-- The stages up to the literal answers. -/
def literalStage : Except Fault (Reply M) := do
  let r ← addressStage req r
  literalAnswers req budget baseLen (naptrAnswers req (srvAnswers req (mxAnswers req r)))

/-- The stages up to `--domain-needed`. -/
def nodotsStage : Except Fault (Reply M) := do
  let r ← literalStage req budget baseLen r
  nodotsAnswers req r

/-- All stages of `answer_request`. -/
def answerStages : Except Fault (Reply M) := do
  let r ← nodotsStage req budget baseLen r
  literalDomainAnswers req r

/-- The question of a query that is answered locally at all. -/
def localQuestion (query : DnsPacket) : Option DnsQuestion :=
  match query.questions with
  | [q] =>
    if query.answers ≠ [] ∨ query.authority ≠ [] ∨ query.header.opcode ≠ 0
        ∨ (q.qclass ≠ 1 ∧ q.qclass ≠ 3) then none
    else some q
  | _ => none

/-- `answer_request`: the cache afterwards and the answer, or none to forward the query. -/
def answerRequest (query : DnsPacket) (cache : DnsCache M) (now : Instant) (config : LocalConfig)
    (metrics : Metrics) : Except Fault (DnsCache M × Option DnsPacket) :=
  match localQuestion query with
  | none => .ok (cache, none)
  | some q =>
    let req : Request := { qtype := q.qtype, qclass := q.qclass, now, config, metrics }
    (answerStages req (responseBudget query config) (responseBaseLen query)
      { cache, name := toLowercase q.name }).map fun r =>
      (r.cache, if r.ans then some (finishResponse query config r) else none)

end Stages

end DnsmasqRs.Rfc1035
