import DnsmasqRs.Cache
import DnsmasqRs.Rfc1035.Address

/-!
# Cache population (`rfc1035.rs`)

`extract_addresses` walks the answers of a reply along the CNAME chain from the question name,
checks the addresses against the rebind protection, and stages cache records for what it finds, or
negative ones.  The staged records are committed together at the end.

The walk is `followChain`: `scanAnswers` goes through the answer section for the current name, and
starts again from the top when it meets a CNAME.  A `Fault` is where the source would panic: a
string slice off a character boundary or an index outside the RDATA.
-/

namespace DnsmasqRs.Rfc1035

open Wire Utf8 ByteCursor DnsProtocol Cache

/-- `Ipsets`. -/
structure Ipsets where
  sets : List Str
  domain : Str
  deriving DecidableEq

/-- `ExtractConfig`. -/
structure ExtractConfig where
  maxTtl : UInt32 := 0
  negTtl : UInt32 := 0
  checkRebind : Bool := false
  localRebindOk : Bool := false
  noNegCache : Bool := false
  secure : Bool := false
  cacheRr : List UInt16 := []
  ipsets : List Ipsets := []
  nftsets : List Ipsets := []
  deriving DecidableEq

/-- `IpsetHit`. -/
structure IpsetHit where
  setName : Str
  addr : IpAddr
  deriving DecidableEq

/-- `ExtractResult`. -/
inductive ExtractResult where
  | cached
  | rebindBlocked
  | badPacket
  deriving DecidableEq

/-- `ExtractOutcome`. -/
structure ExtractOutcome where
  result : ExtractResult
  ipsetHits : List IpsetHit := []
  nftsetHits : List IpsetHit := []
  deriving DecidableEq

/-- The loop of `domain_find_sets`, with the length of the best match and that match. -/
def findSetsLoop (name : Str) : List Ipsets → ℕ → Option Ipsets → Except Fault (Option Ipsets)
  | [], _, result => .ok result
  | entry :: rest, matchlen, result =>
    let domainlen := byteLen entry.domain
    if byteLen name < domainlen then findSetsLoop name rest matchlen result
    else
      let matchstart := byteLen name - domainlen
      match sliceFrom name matchstart with
      | none => .error .slice
      | some suffix =>
        let boundaryOk := domainlen == 0 || byteLen name == domainlen
          || (bytes name)[matchstart - 1]? == some 0x2E
        if eqIgnoreAsciiCase suffix entry.domain && boundaryOk && decide (matchlen ≤ domainlen) then
          findSetsLoop name rest domainlen (some entry)
        else findSetsLoop name rest matchlen result

/-- `domain_find_sets`. -/
def domainFindSets (setlist : List Ipsets) (name : Str) : Except Fault (Option Ipsets) :=
  findSetsLoop name setlist 0 none

/-- `CNAME_CHAIN_LIMIT`. -/
def cnameChainLimit : ℕ := 10

/-- `clamp_ttl`. -/
def clampTtl (ttl maxTtl : UInt32) : UInt32 := if maxTtl ≠ 0 ∧ maxTtl < ttl then maxTtl else ttl

/-- `SoaMatch`. -/
structure SoaMatch where
  negTtl : UInt32
  owner : Str
  rrTtl : UInt32
  rdata : Bytes
  deriving DecidableEq

/-- What `find_soa` reads from the record it has chosen. -/
def readSoa (rr : DnsRr) (owner : Str) : Except Fault (Option SoaMatch) :=
  match extractName rr.rdata 0 with
  | .error _ => .ok none
  | .ok (mname, pos) =>
    match extractName rr.rdata pos with
    | .error _ => .ok none
    | .ok (rname, pos) =>
      if rr.rdata.length < pos + 20 then .ok none
      else
        match readU32Be rr.rdata (pos + 16), readSlice rr.rdata pos 20 with
        | some minimum, some fixed =>
          .ok (some {
            negTtl := if minimum < rr.ttl then minimum else rr.ttl
            owner
            rrTtl := rr.ttl
            rdata := writeName mname ++ writeName rname ++ fixed })
        | _, _ => .error .index

/-- `find_soa`. -/
def findSoa (name : Str) : List DnsRr → Except Fault (Option SoaMatch)
  | [] => .ok none
  | rr :: rest =>
    if rr.rtype ≠ 6 ∨ rr.rclass ≠ 1 then findSoa name rest
    else
      let owner := toLowercase rr.name
      if byteLen name < byteLen owner then findSoa name rest
      else
        match sliceFrom name (byteLen name - byteLen owner) with
        | none => .error .slice
        | some suffix =>
            if eqIgnoreAsciiCase suffix owner then readSoa rr owner else findSoa name rest

/-- `parse_txt_record`, from a position. -/
def parseTxtRecord (data : Bytes) (pos : ℕ) : Except Fault (Option (List Str)) :=
  if pos < data.length then
    match readU8 data pos with
    | none => .error .index
    | some len =>
      if data.length < pos + 1 + len.toNat then .ok none
      else
        match readSlice data (pos + 1) len.toNat with
        | none => .error .index
        | some counted =>
          let s := (counted.takeWhile fun b => 32 ≤ b && b ≤ 126).map fun b => Char.ofNat b.toNat
          (parseTxtRecord data (pos + 1 + len.toNat)).map (·.map (s :: ·))
  else .ok (some [])
  termination_by data.length - pos

/-! ### The walk -/

/-- What the walk reads: the question type and what follows from it. -/
structure Env where
  qtype : UInt16
  isNxdomain : Bool
  addrFlag : UInt32
  insert : Bool
  secflag : UInt32
  now : Instant
  config : ExtractConfig
  deriving DecidableEq

/-- The state of the walk.  `addrs` are the answers found so far, from which the set hits are made.
-/
structure Walk where
  currentName : Str
  cnameHops : ℕ := 0
  found : Bool := false
  staged : List CacheRecord := []
  addrs : List AllAddr := []
  deriving DecidableEq

/-- How a pass over the answers ends. -/
inductive Scan where
  /-- `extract_addresses` returns. -/
  | stop (result : ExtractResult) (w : Walk)
  /-- `continue 'cname_loop`. -/
  | restart (w : Walk)
  /-- `break 'cname_loop`, or the end of the section. -/
  | finish (w : Walk)
  deriving DecidableEq

/-- The address or data of an answer, or the result to stop with. -/
def answerData (env : Env) (rr : DnsRr) : Except Fault (Except ExtractResult AllAddr) :=
  if env.qtype = 1 then
    if rr.rdata.length < 4 then .ok (.error .badPacket)
    else
      match Ipv4Addr.ofBytes rr.rdata with
      | none => .error .index
      | some ip =>
        if env.config.checkRebind && privateNet ip (!env.config.localRebindOk) then
          .ok (.error .rebindBlocked)
        else .ok (.ok (.addr4 ip))
  else if env.qtype = 28 then
    if rr.rdata.length < 16 then .ok (.error .badPacket)
    else
      match Ipv6Addr.ofBytes rr.rdata with
      | none => .error .index
      | some ip =>
        if env.config.checkRebind && privateNet6 ip (!env.config.localRebindOk) then
          .ok (.error .rebindBlocked)
        else .ok (.ok (.addr6 ip))
  else if env.qtype = 16 then
    -- the strings are only logged
    (parseTxtRecord rr.rdata 0).map fun _ => .ok (.rrData rr.rtype rr.rdata)
  else .ok (.ok (.rrData rr.rtype rr.rdata))

/-- A record to cache, which expires `ttl` seconds from now. -/
def Env.record (env : Env) (name : Str) (flags ttl : UInt32) (addr : Option AllAddr) :
    CacheRecord :=
  { name, flags := flags ||| env.secflag, ttl, expires := env.now + fromSecs ttl.toNat, addr }

/-- Stage a record, if the question's type is cached at all. -/
def Env.stage (env : Env) (w : Walk) (rec : CacheRecord) : List CacheRecord :=
  if env.insert then w.staged ++ [rec] else w.staged

/-- The walk after a CNAME to `target`. -/
def Env.follow (env : Env) (w : Walk) (ttl : UInt32) (target : Str) : Walk :=
  { w with
    staged := env.stage w (env.record w.currentName (fCname ||| fForward) ttl
      (some (.cname { isNamePtr := true, targetName := some target, uid := 0 })))
    cnameHops := w.cnameHops + 1
    currentName := target }

/-- The walk after an answer for the current name. -/
def Env.answer (env : Env) (w : Walk) (ttl : UInt32) (addr : AllAddr) : Walk :=
  { w with
    addrs := w.addrs ++ [addr]
    staged := env.stage w (env.record w.currentName (env.addrFlag ||| fForward) ttl (some addr))
    found := true }

/-- One pass over the answers for the current name. -/
def scanAnswers (env : Env) : List DnsRr → Walk → Except Fault Scan
  | [], w => .ok (.finish w)
  | rr :: rest, w =>
    if rr.rclass ≠ 1 ∨ eqIgnoreAsciiCase rr.name w.currentName = false then scanAnswers env rest w
    else
      let ttl := clampTtl rr.ttl env.config.maxTtl
      if rr.rtype = 5 then
        if cnameChainLimit ≤ w.cnameHops then .ok (.finish w)
        else
          match extractName rr.rdata 0 with
          | .error _ => .ok (.stop .badPacket w)
          | .ok (t, _) =>
            let w := env.follow w ttl (toLowercase t)
            -- a query for the CNAME itself ends here
            if env.qtype = 5 then .ok (.finish { w with found := true }) else .ok (.restart w)
      else if rr.rtype ≠ env.qtype ∨ env.isNxdomain = true then scanAnswers env rest w
      else
        match answerData env rr with
        | .error fault => .error fault
        | .ok (.error result) => .ok (.stop result w)
        | .ok (.ok addr) => scanAnswers env rest (env.answer w ttl addr)

theorem cnameHops_of_restart (h : scanAnswers env answers w = .ok (.restart w')) :
    w.cnameHops < cnameChainLimit ∧ w'.cnameHops = w.cnameHops + 1 := by
  fun_induction scanAnswers env answers w with
  | case1 | case3 | case4 | case5 | case8 | case9 => cases h
  | case2 rr rest w hskip ih
  | case7 rr rest w hskip hcname hother ih
  | case10 rr rest w hskip ttl hcname hother addr hdata ih => exact ih h
  | case6 rr rest w hskip ttl hcname hlimit t pos ht w₁ hq =>
    obtain rfl : w₁ = w' := by simpa using h
    exact ⟨Nat.lt_of_not_le hlimit, rfl⟩

/-- The `'cname_loop`: its last state, with the result if `extract_addresses` returns from inside.
-/
def followChain (env : Env) (answers : List DnsRr) (w : Walk) :
    Except Fault (Option ExtractResult × Walk) :=
  match _h : scanAnswers env answers w with
  | .error fault => .error fault
  | .ok (.stop result w) => .ok (some result, w)
  | .ok (.finish w) => .ok (none, w)
  | .ok (.restart w) => followChain env answers w
  termination_by cnameChainLimit - w.cnameHops
  decreasing_by
    have := cnameHops_of_restart _h
    omega

/-! ### Committing -/

/-- The negative record for the name at the end of the chain, with the SOA that covers it. -/
def negativeRecords (env : Env) (soa : Option SoaMatch) (name : Str) : List CacheRecord :=
  let ttl := match soa with
    | some soa => some (clampTtl soa.negTtl env.config.maxTtl)
    | none => if 0 < env.config.negTtl then some env.config.negTtl else none
  match ttl with
  | none => []
  | some ttl =>
    let soaRecord := soa.map fun soa =>
      env.record soa.owner (fForward ||| fRr ||| fKeytag) (clampTtl soa.rrTtl env.config.maxTtl)
        (some (.rrBlock 6 soa.rdata))
    let negFlags := if env.isNxdomain then fNxdomain ||| fNeg ||| fForward
      else env.addrFlag ||| fNeg ||| fForward
    soaRecord.toList ++ [env.record name negFlags ttl none]

/-- The type bit of an address. -/
def familyFlag : AllAddr → UInt32
  | .addr4 _ => fIpv4
  | .addr6 _ => fIpv6
  | _ => 0

/-- The records `extract_ptr_answers` stages for a reverse name, or `none` for a bad packet. -/
def ptrRecords (env : Env) (qname : Str) (ipAddr : AllAddr) : List DnsRr → Option (List CacheRecord)
  | [] => some []
  | rr :: rest =>
    if rr.rtype ≠ 12 ∨ rr.rclass ≠ 1 ∨ eqIgnoreAsciiCase rr.name qname = false then
      ptrRecords env qname ipAddr rest
    else
      match extractName rr.rdata 0 with
      | .error _ => none
      | .ok (target, _) =>
        let record := env.record target (familyFlag ipAddr ||| fReverse)
          (clampTtl rr.ttl env.config.maxTtl) (some ipAddr)
        (ptrRecords env qname ipAddr rest).map (record :: ·)

/-- The hits for the addresses found in a matched set. -/
def setHits (set : Option Ipsets) (addrs : List AllAddr) : List IpsetHit :=
  addrs.flatMap fun addr =>
    match set, addr.asIp with
    | some set, some ip => set.sets.map fun setName => { setName, addr := ip }
    | _, _ => []

/-- The type bit of the records for a question, and whether they are cached. -/
def questionKind (qtype : UInt16) (config : ExtractConfig) : UInt32 × Bool :=
  if qtype = 1 then (fIpv4, true)
  else if qtype = 28 then (fIpv6, true)
  else if qtype ≠ 5 ∧ (qtype = 33 ∨ qtype = 12 ∨ qtype ∈ config.cacheRr ∨ 255 ∈ config.cacheRr) then
    (fRr, true)
  else (0, false)

/-- The environment of the walk for a question. -/
def questionEnv (header : DnsHeader) (qtype : UInt16) (now : Instant) (config : ExtractConfig) :
    Env where
  qtype := qtype
  isNxdomain := header.rcode == 3
  addrFlag := (questionKind qtype config).1
  insert := (questionKind qtype config).2
  secflag := if config.secure then fDnssecok else 0
  now := now
  config := config

/-- A reply's outcome, with the records to commit if it gets that far. -/
abbrev Extraction := ExtractOutcome × Option (List CacheRecord)

/-- `extract_ptr_answers`. -/
def extractPtrAnswers (env : Env) (qname : Str) (answers : List DnsRr) : Extraction :=
  match inArpaName2Addr (toLowercase qname) with
  | none => ({ result := .cached }, none)
  | some ipAddr =>
    match ptrRecords env qname ipAddr answers with
    | none => ({ result := .badPacket }, none)
    | some [] => ({ result := .cached }, none)
    | some staged => ({ result := .cached }, some staged)

/-- The SOA is looked for: there is no answer and negative answers are cached. -/
def Env.negative (env : Env) (w : Walk) : Bool :=
  !w.found && !env.config.noNegCache && (env.insert || env.isNxdomain)

/-- The part of `extract_addresses` behind the walk. -/
def finishWalk (env : Env) (authority : List DnsRr) (w : Walk) : Except Fault (List CacheRecord) :=
  if env.negative w then
    (findSoa w.currentName authority).map fun soa =>
      w.staged ++ negativeRecords env soa w.currentName
  else .ok w.staged

/-- `extract_addresses` for a question other than a PTR one, up to the commit. -/
def walkQuestion (env : Env) (packet : DnsPacket) (qname : Str) : Except Fault Extraction := do
  let ipset ← domainFindSets env.config.ipsets qname
  let nftset ← domainFindSets env.config.nftsets qname
  let (returned, w) ← followChain env packet.answers { currentName := qname }
  let hits (result : ExtractResult) : ExtractOutcome :=
    { result, ipsetHits := setHits ipset w.addrs, nftsetHits := setHits nftset w.addrs }
  match returned with
  | some result => return (hits result, none)
  | none => return (hits .cached, some (← finishWalk env packet.authority w))

/-- `extract_addresses` up to the commit: the cache has no part in it. -/
def collectRecords (packet : DnsPacket) (now : Instant) (config : ExtractConfig) :
    Except Fault Extraction :=
  match packet.questions with
  | [q] =>
    if q.qclass ≠ 1 then .ok ({ result := .cached }, none)
    else
      let env := questionEnv packet.header q.qtype now config
      if q.qtype = 12 then .ok (extractPtrAnswers env q.name packet.answers)
      else walkQuestion env packet (toLowercase q.name)
  | _ => .ok ({ result := .badPacket }, none)

variable {M : Type} [Lru M CacheKey CacheRecord]

/-- `commit_staged`. -/
def commitStaged (cache : DnsCache M) (staged : List CacheRecord) (header : DnsHeader)
    (now : Instant) : DnsCache M :=
  if header.hb4 &&& hb4Cd ≠ 0 ∨ header.hb4 &&& hb4Ra = 0 then cache
  else (staged.foldl (fun cache rec => (cache.stageInsert rec now).1) cache.startInsert).endInsert.1

/-- `extract_addresses`. -/
def extractAddresses (packet : DnsPacket) (cache : DnsCache M) (now : Instant)
    (config : ExtractConfig) : Except Fault (DnsCache M × ExtractOutcome) :=
  (collectRecords packet now config).map fun (outcome, staged) =>
    match staged with
    | none => (cache, outcome)
    | some staged => (commitStaged cache staged packet.header now, outcome)

end DnsmasqRs.Rfc1035
