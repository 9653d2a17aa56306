import DnsmasqRs.Lib.Fallible
import DnsmasqRs.HashQuestions
import DnsmasqRs.Rfc1035.Address
import DnsmasqRs.Forward.Table

/-!
# The forwarding engine (`ForwardEngine` in `forward.rs`)

The engine owns the table of in-flight queries, the socket pool and the configuration.  Its four
operations are `forwardQuery`, `acceptReply`, `expireQueries` and `refreshConfig`; `exec` runs one
of them on an `Event`, which carries the arguments of the call together with everything the
operating system decides during it: the time, the random draws, whether a `bind()` and a `send_to()`
succeed, and the packet `with_client_mac` makes of the query.

An operation is partial: `none` is a call that does not return, because a string slice panics or
because no random draw gives a free ID.  A call also reports the datagram it sent, if any.

Logging, metrics and the connection-tracking mark have no effect on the engine and are left out.
-/

namespace DnsmasqRs.Forward

open Wire Utf8 ByteCursor DnsProtocol Rfc1035 HashQuestions

/-! ### Reading a query -/

/-- The questions `find_pseudoheader` steps over. -/
def skipQuestions (pkt : Bytes) : ℕ → ℕ → Option ℕ
  | 0, pos => some pos
  | count + 1, pos =>
    match skipName pkt pos with
    | .error _ => none
    | .ok pos => skipQuestions pkt count (pos + 4)

/-- The closure `skip_rr` of `find_pseudoheader`: type, class and TTL of the record at `pos`, and
the position behind it. -/
def skipRr (pkt : Bytes) (pos : ℕ) : Option ((UInt16 × UInt16 × UInt32) × ℕ) :=
  match skipName pkt pos with
  | .error _ => none
  | .ok pos => do
    let rtype ← readU16Be pkt pos
    let rclass ← readU16Be pkt (pos + 2)
    let ttl ← readU32Be pkt (pos + 4)
    let rdlen ← readU16Be pkt (pos + 8)
    let next := pos + 10 + rdlen.toNat
    if pkt.length < next then none else some ((rtype, rclass, ttl), next)

/-- The answer and authority records `find_pseudoheader` steps over. -/
def skipRrs (pkt : Bytes) : ℕ → ℕ → Option ℕ
  | 0, pos => some pos
  | count + 1, pos => do
    let (_, pos) ← skipRr pkt pos
    skipRrs pkt count pos

/-- The additional records `find_pseudoheader` looks through; the last OPT record wins. -/
def findOpt (pkt : Bytes) : ℕ → ℕ → Option (UInt16 × UInt32) → Option (Option (UInt16 × UInt32))
  | 0, _, found => some found
  | count + 1, pos, found => do
    let ((rtype, rclass, ttl), pos) ← skipRr pkt pos
    findOpt pkt count pos (if rtype = 41 then some (rclass, ttl) else found)

/-- `find_pseudoheader`: class and TTL of the query's OPT record. -/
def findPseudoheader (pkt : Bytes) : Option (UInt16 × UInt32) := do
  let header ← DnsHeader.fromBytes pkt
  if header.arcount = 0 then none
  else
    let pos ← skipQuestions pkt header.qdcount.toNat 12
    let pos ← skipRrs pkt (header.ancount.toNat + header.nscount.toNat) pos
    (findOpt pkt header.arcount.toNat pos none).join

/-- `fwd_flags_from_query`. -/
def fwdFlagsFromQuery (pkt : Bytes) : UInt32 :=
  match DnsHeader.fromBytes pkt with
  | none => 0
  | some header =>
    let pseudo := findPseudoheader pkt
    let doBit := pseudo.any fun (_, ttl) => ttl &&& 0x8000 != 0
    (if pseudo.isSome then frecHasPheader else 0)
      ||| (if doBit || header.hb4 &&& hb4Ad != 0 then frecAdQuestion else 0)
      ||| (if doBit then frecDoQuestion else 0)
      ||| (if header.hb4 &&& hb4Cd != 0 then frecCheckingDisabled else 0)

/-- `query_name_lower`. -/
def queryNameLower (pkt : Bytes) : Str :=
  match parseQuestion pkt 12 with
  | .ok (q, _) => toLowercase q.name
  | .error _ => []

/-- `patch_id`. -/
def patchId (pkt : Bytes) (newId : UInt16) : Bytes :=
  match pkt with
  | _ :: _ :: rest => be16 newId ++ rest
  | _ => pkt

/-! ### Domains exempt from the rebind check -/

/-- The loop body of `domain_no_rebind`.  An empty entry stands for all single-label names. -/
def matchesNoRebind (domain rbd : Str) : Except Fault Bool :=
  if byteLen rbd = 0 then .ok !(domain.contains '.')
  else if byteLen domain < byteLen rbd then .ok false
  else orSlice (suffixOnLabel domain rbd)

/-- `domain_no_rebind`. -/
def domainNoRebind (domain : Str) (noRebind : List Str) : Except Fault Bool :=
  Fallible.anyOf (matchesNoRebind domain) noRebind

/-! ### Choosing a server -/

/-- `domain_matches_suffix`; `none` where the slice panics. -/
def domainMatchesSuffix (name domain : Str) : Option Bool :=
  if byteLen domain = 0 ∨ byteLen name < byteLen domain then some false
  else suffixOnLabel name domain

/-- `next_server`. -/
def nextServer (servers tried : List ℕ) (last : ℕ) : Option ℕ :=
  if servers = [] ∨ servers.length ≤ tried.length then none
  else
    let start := match servers.findIdx? (· == last) with
      | some p => (p + 1) % servers.length
      | none => 0
    ((List.range servers.length).filterMap fun i => servers[(start + i) % servers.length]?).find?
      fun idx => !tried.contains idx

/-- `ForwardConfig`, with the fields the engine reads. -/
structure ForwardConfig where
  upstreams : List SocketAddr := []
  serverDomains : List Str := []
  timeout : ℕ := fromSecs 10
  maxRetries : UInt8 := 2
  ignoreAddr : List BogusAddr := []
  ftabsize : ℕ := 150
  randportLimit : ℕ := 1
  loopServers : List Server := []
  deriving DecidableEq

/-- `ForwardEngine`. -/
structure ForwardEngine (D : Type) where
  config : ForwardConfig
  table : FrecTable D
  upstreamOrder : List ℕ
  rfdPool : RandFdPool
  loopServers : List Server
  deriving DecidableEq

namespace ForwardEngine

variable {H : Type}

/-- `ForwardEngine::new`; `maxFd` is the process's file-descriptor limit. -/
def new {D : Type} (config : ForwardConfig) (maxFd : ℕ) : ForwardEngine D where
  config := config
  table := FrecTable.new (max config.ftabsize 1)
  upstreamOrder := List.range config.upstreams.length
  rfdPool := RandFdPool.sizedForWithFdLimit (max config.ftabsize 1) config.randportLimit maxFd
  loopServers := config.loopServers

/-- `ForwardEngine::is_looping`. -/
def isLooping {D : Type} (e : ForwardEngine D) (idx : ℕ) : Bool :=
  e.loopServers[idx]?.any (·.flags.contains ServFlags.loop)

/-- The domain the server at `idx` is restricted to, empty where there is none. -/
def serverDomain {D : Type} (e : ForwardEngine D) (idx : ℕ) : Str :=
  e.config.serverDomains[idx]?.getD []

/-- The loop of `candidate_servers` over the domain-scoped servers, with the best length so far. -/
def bestMatches {D : Type} (e : ForwardEngine D) (qname : Str) :
    List ℕ → ℕ → List ℕ → Option (List ℕ)
  | [], _, candidates => some candidates
  | idx :: order, bestLen, candidates =>
    let domain := e.serverDomain idx
    if domain = [] then e.bestMatches qname order bestLen candidates
    else do
      if ← domainMatchesSuffix qname domain then
        let dlen := byteLen domain
        if candidates = [] ∨ bestLen < dlen then e.bestMatches qname order dlen [idx]
        else if dlen = bestLen then e.bestMatches qname order bestLen (candidates ++ [idx])
        else e.bestMatches qname order bestLen candidates
      else e.bestMatches qname order bestLen candidates

/-- `ForwardEngine::candidate_servers`; `none` where a slice panics. -/
def candidateServers {D : Type} (e : ForwardEngine D) (pkt : Bytes) : Option (List ℕ) :=
  if e.config.serverDomains.all (· = []) then some e.upstreamOrder
  else do
    let candidates ← e.bestMatches (queryNameLower pkt) e.upstreamOrder 0 []
    if candidates ≠ [] then return candidates
    else return e.upstreamOrder.filter fun idx => e.serverDomain idx = []

/-! ### Sending -/

/-- A datagram that went out: the record it was sent for, the address and the bytes. -/
structure Sent where
  idx : ℕ
  addr : SocketAddr
  pkt : Bytes
  deriving DecidableEq

/-- What `bind()` and `send_to()` do in a call. -/
structure Net where
  bind : Option ℕ
  sendOk : Bool
  deriving DecidableEq

variable {D : Type} [Inhabited D]

variable (e : ForwardEngine D) (idx : ℕ)

/-- `ForwardEngine::release_rfds`. -/
def releaseRfds : ForwardEngine D :=
  { e with
    table := { e.table with releasedRfds := [] }
    rfdPool :=
      if e.table.releasedRfds = [] then e.rfdPool else e.rfdPool.freeRfds e.table.releasedRfds }

/-- `ForwardEngine::send_upstream`; the datagram is reported where the send succeeded. -/
def sendUpstream (serverIdx : ℕ) (net : Net) : ForwardEngine D × Option Sent :=
  match e.config.upstreams[serverIdx]?, e.table.get idx with
  | some addr, some frec =>
    match frec.stash with
    | none => (e, none)
    | some stash =>
      let (rfdPool, rfds, sock) := e.rfdPool.allocate frec.rfds serverIdx net.bind
      let e := { e with rfdPool, table := e.table.modify idx fun f => { f with rfds } }
      match sock with
      | none => (e, none)
      | some _ =>
        (e, if net.sendOk then some { idx, addr, pkt := patchId stash frec.newId } else none)
  | _, _ => (e, none)

/-- Free a record and hand its sockets back. -/
def freeAndRelease : ForwardEngine D :=
  ({ e with table := e.table.freeFrec idx } : ForwardEngine D).releaseRfds

/-! ### Queries -/

/-- `listener as i32`. -/
def asI32 (listener : ℕ) : ℤ := Int.bmod listener (2 ^ 32)

/-- `ForwardOutcome`. -/
inductive ForwardOutcome where
  | forwarded (id : UInt16)
  | duplicate
  | refused
  | dropped
  deriving DecidableEq

/-- The retry at the end of `join_in_flight`: send the stashed query again. -/
def resend (sentto : Option ℕ) (net : Net) : ForwardEngine D × ForwardOutcome × Option Sent :=
  match sentto with
  | none => (e, .duplicate, none)
  | some serverIdx =>
    match e.sendUpstream idx serverIdx net with
    | (e, some sent) => (e, .forwarded (((e.table.get idx).map (·.newId)).getD 0), some sent)
    | (e, none) => (e, .duplicate, none)

/-- `ForwardEngine::join_in_flight`. -/
def joinInFlight (now : Instant) (origId : UInt16)
    (client : SocketAddr) (listener : ℕ) (net : Net) :
    ForwardEngine D × ForwardOutcome × Option Sent :=
  match e.table.get idx with
  | none => (e, .dropped, none)
  | some frec =>
    let knownSrc := frec.srcs.any fun s => s.origId == origId && s.source == some client
    let age := now - frec.sentAt
    if knownSrc then e.resend idx frec.sentto net
    else
      match e.table.addSrc idx { source := some client, origId, fd := asI32 listener } with
      | (table, false) =>
        let e := { e with table := table.emitQueryFull now }
        (if frecTimeout ≤ age then e.freeAndRelease idx else e, .refused, none)
      | (table, true) =>
        let e := { e with table }
        if age < fromSecs 2 then (e, .duplicate, none) else e.resend idx frec.sentto net

/-- The write to a fresh record in `forward_query`. -/
def fillFrec (f : Frec D) (serverIdx : ℕ) (newId : UInt16) (qhash : D) (fwdFlags : UInt32)
    (stash : Bytes) (frecSrc : FrecSrc) : Frec D :=
  { f with
    sentto := some serverIdx, newId, questionHash := qhash, flags := fwdFlags, stash := some stash,
    frecSrc, tried := f.tried.insert serverIdx }

/-- The arguments of `forward_query` and what is decided during the call. -/
structure Query where
  pkt : Bytes
  client : SocketAddr
  listener : ℕ
  dest : Option IpAddr
  now : Instant
  draws : List UInt16
  stash : Bytes
  net : Net
  deriving DecidableEq

/-- The end of `forward_query`: fill in the record at `idx` and send the query to `serverIdx`. -/
def sendNew (q : Query) (qhash : D) (origId : UInt16) (fwdFlags : UInt32)
    (serverIdx idx : ℕ) (newId : UInt16) : ForwardEngine D × ForwardOutcome × Option Sent :=
  let frecSrc : FrecSrc :=
    { source := some q.client, dest := q.dest, origId, fd := asI32 q.listener }
  let e := { e with
    table := e.table.modify idx fun f => fillFrec f serverIdx newId qhash fwdFlags q.stash frecSrc }
  match e.sendUpstream idx serverIdx q.net with
  | (e, none) => (e.freeAndRelease idx, .refused, none)
  | (e, some sent) => (e, .forwarded newId, some sent)

/-- `forward_query` for a question that is not in flight yet. -/
def forwardNew (q : Query) (qhash : D) (origId : UInt16) (fwdFlags : UInt32) :
    Option (ForwardEngine D × ForwardOutcome × Option Sent) :=
  if e.config.upstreams = [] then some (e, .refused, none)
  else do
    let candidates ← e.candidateServers q.pkt
    match nextServer (candidates.filter fun i => !e.isLooping i) [] (2 ^ 64 - 1) with
    | none => return (e, .dropped, none)
    | some serverIdx =>
      let (table, idx) := e.table.getNewFrec q.now serverIdx false
      let e := ({ e with table } : ForwardEngine D).releaseRfds
      match idx with
      | none => return (e, .refused, none)
      | some idx =>
        let newId ← e.table.getId q.draws
        return e.sendNew q qhash origId fwdFlags serverIdx idx newId

variable [DecidableEq H] [Inhabited H] (finish : Bytes → H)

/-- `ForwardEngine::forward_query`. -/
def forwardQuery (e : ForwardEngine (H × H)) (q : Query) :
    Option (ForwardEngine (H × H) × ForwardOutcome × Option Sent) :=
  match DnsHeader.fromBytes q.pkt with
  | none => some (e, .dropped, none)
  | some header =>
    match hashQuestions finish q.pkt with
    | none => some (e, .refused, none)
    | some qhash =>
      let fwdFlags := fwdFlagsFromQuery q.pkt
      match e.table.lookupFrecByQuestion q.now qhash fwdFlags with
      | some idx => some (e.joinInFlight idx q.now header.id q.client q.listener q.net)
      | none => e.forwardNew q qhash header.id fwdFlags

/-! ### Replies -/

/-- `ReplyTarget`. -/
structure ReplyTarget where
  client : SocketAddr
  listener : ℕ
  origId : UInt16
  dest : Option IpAddr
  deriving DecidableEq

/-- `ReplyAction`. -/
inductive ReplyAction where
  | deliver (targets : List ReplyTarget) (flags : UInt32)
  | retried
  | ignore
  deriving DecidableEq

/-- The arguments of `accept_reply` and what is decided during the call. -/
structure Reply where
  pkt : Bytes
  src : SocketAddr
  arrivedOn : ℕ
  now : Instant
  net : Net
  deriving DecidableEq

/-- `ForwardEngine::validate_reply`. -/
def validateReply (e : ForwardEngine (H × H)) (pkt : Bytes) (src : SocketAddr) (arrivedOn : ℕ)
    (now : Instant) : Option ℕ := do
  let header ← DnsHeader.fromBytes pkt
  if header.hb3 &&& hb3Qr = 0 then none
  else
    let idx ← e.table.lookupFrec now (some header.id) 0 0
    let frec ← e.table.get idx
    let hash ← hashQuestions finish pkt
    if hash ≠ frec.questionHash then none
    else if arrivedOn ∉ frec.rfds then none
    else
      let sentto ← frec.sentto
      if e.config.upstreams[sentto]? ≠ some src then none else some idx

/-- `ForwardEngine::next_untried_server`; the outer `none` is a panic. -/
def nextUntriedServer : Option (Option ℕ) :=
  match e.table.get idx with
  | none => some none
  | some frec =>
    if e.config.maxRetries ≤ frec.retries then some none
    else do
      let candidates ← match frec.stash with
        | some pkt => e.candidateServers pkt
        | none => some e.upstreamOrder
      return frec.sentto.bind (nextServer candidates frec.tried)

/-- `u8::saturating_add(1)`. -/
def saturatingSucc (n : UInt8) : UInt8 := if n = 255 then 255 else n + 1

/-- The clients waiting on a record. -/
def replyTargets (frec : Frec D) : List ReplyTarget :=
  frec.srcs.filterMap fun s =>
    s.source.map fun client =>
      { client, listener := s.fd.toNat, origId := s.origId, dest := s.dest }

/-- `accept_reply` where the query is completed. -/
def complete : ForwardEngine D × ReplyAction × Option Sent :=
  let action := match e.table.get idx with
    | some frec => ReplyAction.deliver (replyTargets frec) frec.flags
    | none => .deliver [] 0
  (e.freeAndRelease idx, action, none)

/-- The reply carries an address of `--ignore-address`. -/
def isIgnored (pkt : Bytes) (rcode : UInt8) : Bool :=
  rcode == 0 &&
    match DnsPacket.parse pkt with
    | .ok parsed => checkForIgnoredAddress parsed e.config.ignoreAddr
    | .error _ => false

/-- `ForwardEngine::accept_reply`. -/
def acceptReply (e : ForwardEngine (H × H)) (r : Reply) :
    Option (ForwardEngine (H × H) × ReplyAction × Option Sent) :=
  match e.validateReply finish r.pkt r.src r.arrivedOn r.now, DnsHeader.fromBytes r.pkt with
  | some idx, some header =>
    let rcode := header.rcode
    if e.isIgnored r.pkt rcode then some (e, .ignore, none)
    else if rcode = 2 ∨ rcode = 5 then do
      match ← e.nextUntriedServer idx with
      | none => return e.complete idx
      | some nextIdx =>
        let e := { e with
          table := e.table.modify idx fun f =>
            { f with
              retries := saturatingSucc f.retries, sentto := some nextIdx,
              tried := f.tried.insert nextIdx } }
        match e.sendUpstream idx nextIdx r.net with
        | (e, some sent) => return (e, .retried, some sent)
        | (e, none) => return e.complete idx
    else some (e.complete idx)
  | _, _ => some (e, .ignore, none)

/-! ### Expiry, reload and single steps -/

/-- `ForwardEngine::expire_queries`. -/
def expireQueries (now : Instant) : ForwardEngine D × ℕ :=
  let (table, n) := e.table.expireOld now e.config.timeout
  (({ e with table } : ForwardEngine D).releaseRfds, n)

/-- `ForwardEngine::refresh_config`. -/
def refreshConfig (config : ForwardConfig) : ForwardEngine D :=
  { e with
    config
    upstreamOrder := List.range config.upstreams.length
    loopServers := config.loopServers }

/-- A call of one of the engine's operations. -/
inductive Event where
  | forwardQuery (q : Query)
  | acceptReply (r : Reply)
  | expireQueries (now : Instant)
  | refreshConfig (config : ForwardConfig)
  deriving DecidableEq

/-- Run one operation: the engine afterwards and the datagram sent. -/
def exec (e : ForwardEngine (H × H)) : Event → Option (ForwardEngine (H × H) × Option Sent)
  | .forwardQuery q => (e.forwardQuery finish q).map fun (e, _, sent) => (e, sent)
  | .acceptReply r => (e.acceptReply finish r).map fun (e, _, sent) => (e, sent)
  | .expireQueries now => some ((e.expireQueries now).1, none)
  | .refreshConfig config => some (e.refreshConfig config, none)

/-- One step of the engine. -/
def step (e : ForwardEngine (H × H)) (ev : Event) : Option (ForwardEngine (H × H)) :=
  (e.exec finish ev).map Prod.fst

end ForwardEngine

end DnsmasqRs.Forward
