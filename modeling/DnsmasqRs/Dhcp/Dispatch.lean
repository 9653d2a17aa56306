import DnsmasqRs.Dhcp.Pool
import DnsmasqRs.Lib.Fallible

/-!
# Answering a DHCP packet (`dhcp.rs`, `rfc2131.rs`)

`dispatch_dhcp_with_meta` derives the client's tags, finds its host entry, and goes by the message
type: an offer for a DISCOVER, an ACK or NAK for a REQUEST, a lease removed for a RELEASE or
DECLINE, an address for a BOOTP request.  An ACK and a BOOTP reply are put on record in the lease
database.

The options of a reply are `decorate_reply`'s and are not modelled; they depend on nothing the
database does and nothing depends on them.
-/

namespace DnsmasqRs.Dhcp

open Wire Utf8

/-! ### The client's tags -/

/-- The loop of `rfc3004_user_classes`. -/
def userClassesLoop : ℕ → Bytes → Option (List Bytes)
  | fuel + 1, len :: rest =>
    if rest.length < len.toNat then none
    else (userClassesLoop fuel (rest.drop len.toNat)).map (rest.take len.toNat :: ·)
  | _, _ => some []

/-- `rfc3004_user_classes`. -/
def rfc3004UserClasses (raw : Bytes) : Option (List Bytes) := userClassesLoop raw.length raw

/-- A vendor rule applies. -/
def DhcpVendorRule.applies (rule : DhcpVendorRule) (vendor : Option Bytes) : Bool :=
  vendor.any fun data => rule.vendorClass.isEmpty || hasWindow rule.vendorClass data

/-- A user-class rule applies. -/
def DhcpUserClassRule.applies (rule : DhcpUserClassRule) (raw : Bytes) : Bool :=
  rule.userClass.isEmpty ||
    match rfc3004UserClasses raw with
    | some classes => classes.any (hasWindow rule.userClass)
    | none => hasWindow rule.userClass raw

/-- A MAC rule applies. -/
def DhcpMacRule.applies (rule : DhcpMacRule) (pkt : DhcpPacket) : Bool :=
  rule.fits pkt.hwaddr pkt.htype.toNat
    && memcmpMasked (rule.hwaddr.toList.take pkt.hwLen) pkt.hwaddr rule.wildcardMask ≠ 0

/-- The tag of a relay rule, if it applies. -/
def DhcpRelayIdRule.tag (rule : DhcpRelayIdRule) (agentInfo : Bytes) :
    Except Fault (List DhcpNetid) := do
  match ← findDhcpOption agentInfo rule.subopt 1 with
  | some value => return if value = rule.data then [rule.netid] else []
  | none => return []

/-- A `--dhcp-match` rule applies. -/
def DhcpOpt.applies (rule : DhcpOpt) (options : Bytes) : Bool :=
  0 ≤ rule.opt && rule.opt ≤ 255
    && (findOption options (UInt8.ofNat rule.opt.toNat)).any (matchBytes rule)

/-- The tag of a `--dhcp-name-match` rule, if it applies.  The name is cut by bytes, which panics
inside a character. -/
def DhcpMatchName.tag (rule : DhcpMatchName) (name : Str) : Except Fault (List DhcpNetid) := do
  let matched ←
    if byteLen name < byteLen rule.name then pure false
    else if byteLen name = byteLen rule.name then pure (hostnameIsequal name rule.name)
    else if rule.wildcard then do
      let (head, _) ← orSlice (splitAt name (byteLen rule.name))
      pure (hostnameIsequal head rule.name)
    else pure false
  return if matched then [rule.netid] else []

/-- `derived_tags`. -/
def derivedTags (pkt : DhcpPacket) (cfg : DhcpServerConfig) (hostname : Option Str) :
    Except Fault (List DhcpNetid) := do
  let vendor :=
    (cfg.vendorRules.filter (·.applies (findOption pkt.options optionVendorId))).map (·.netid)
  let userClass := match findOption pkt.options optionUserClass with
    | some raw => (cfg.userClassRules.filter (·.applies raw)).map (·.netid)
    | none => []
  let mac := (cfg.macRules.filter (·.applies pkt)).map (·.netid)
  let relay ← match findOption pkt.options optionAgentId with
    | some agentInfo => cfg.relayIdRules.mapM (·.tag agentInfo)
    | none => pure []
  let options := (cfg.matchRules.filter (·.applies pkt.options)).flatMap (·.netid)
  let names ← match hostname with
    | some name => cfg.nameMatchRules.mapM (·.tag name)
    | none => pure []
  return vendor ++ userClass ++ mac ++ relay.flatten ++ options ++ names.flatten

/-! ### Handlers (`rfc2131.rs`) -/

/-- `in_pool`. -/
def inPool (addr start finish : Ipv4Addr) : Bool :=
  toU32 start ≤ toU32 addr && toU32 addr ≤ toU32 finish

variable (pkt : DhcpPacket) (poolStart poolEnd : Ipv4Addr)

/-- `pick_offer_addr`. -/
def pickOfferAddr (existingLease : Option DhcpLease)
    (staticAddr scannedAddr : Option Ipv4Addr) : Option Ipv4Addr :=
  match staticAddr with
  | some addr => some addr
  | none =>
    match existingLease.filter fun lease => inPool lease.addr poolStart poolEnd with
    | some lease => some lease.addr
    | none => scannedAddr

/-- `handle_discover`. -/
def handleDiscover (existingLease : Option DhcpLease)
    (staticAddr scannedAddr : Option Ipv4Addr) : Option DhcpReply :=
  (pickOfferAddr poolStart poolEnd existingLease staticAddr scannedAddr).map fun yiaddr =>
    { msgType := .offer, yiaddr, giaddr := pkt.giaddr }

/-- `address_in_range`. -/
def addressInRange (requested poolStart poolEnd : Ipv4Addr) (staticAddr : Option Ipv4Addr)
    (reservedForOther : Bool) : Bool :=
  !reservedForOther &&
    match staticAddr with
    | some addr => requested = addr
    | none => inPool requested poolStart poolEnd

/-- `make_rapid_commit_ack`. -/
def makeRapidCommitAck (reply : DhcpReply) (poolStart poolEnd : Ipv4Addr)
    (staticAddr : Option Ipv4Addr) (reservedForOther : Bool) : Option DhcpReply :=
  if addressInRange reply.yiaddr poolStart poolEnd staticAddr reservedForOther then
    some { reply with msgType := .ack }
  else none

/-- The address a REQUEST is for: option 50, or `ciaddr`. -/
def requestedAddr : Option Ipv4Addr :=
  findRequestedIp pkt.options <|> (if pkt.ciaddr ≠ .unspecified then some pkt.ciaddr else none)

/-- `handle_request`. -/
def handleRequest (staticAddr : Option Ipv4Addr)
    (reservedForOther : Bool) : Option DhcpReply :=
  (requestedAddr pkt).map fun requested =>
    if addressInRange requested poolStart poolEnd staticAddr reservedForOther then
      { msgType := .ack, yiaddr := staticAddr.getD requested, giaddr := pkt.giaddr }
    else { msgType := .nak, yiaddr := .unspecified, giaddr := pkt.giaddr }

/-- `handle_bootp`. -/
def handleBootp (yiaddr : Ipv4Addr) : DhcpReply :=
  { msgType := .bootp, yiaddr, giaddr := pkt.giaddr }

/-- `handle_inform`. -/
def handleInform : Option DhcpReply :=
  if pkt.ciaddr = .unspecified then none
  else some { msgType := .ack, yiaddr := .unspecified, giaddr := pkt.giaddr }

/-- `handle_release`. -/
def handleRelease : Bool :=
  inPool pkt.ciaddr poolStart poolEnd

/-- `handle_decline`. -/
def handleDecline : Bool :=
  (findRequestedIp pkt.options).any (inPool · poolStart poolEnd)

/-! ### Dispatch -/

/-- What a dispatch meets besides the packet, the configuration and the database: the clock when the
pool is searched and when the lease is written, the results of earlier pings, and the network. -/
structure Surroundings where
  searchTime : SystemTime := 0
  commitTime : SystemTime := 0
  pingCache : PingCache := []
  probe : Ipv4Addr → Bool := fun _ => false

/-- What is known of the client once its packet has been looked at. -/
structure ClientInfo where
  clid : Option Bytes
  hostname : Option Str
  tags : List DhcpNetid
  /-- The host entry, with its position. -/
  config : Option (DhcpConfig × ℕ)

variable (cfg : DhcpServerConfig) (contexts : List DhcpContext) (db : LeaseDb) (env : Surroundings)
  (client : ClientInfo)

/-- `static_addr`. -/
def ClientInfo.staticAddr : Option Ipv4Addr :=
  (client.config.filter (·.1.flags.contains ConfigFlags.addr)).map (·.1.addr)

/-- The tags with those of the host entry. -/
def ClientInfo.allTags : List DhcpNetid :=
  client.tags ++ (client.config.map (·.1.netid)).getD []

/-- `reserved_for_other`. -/
def ClientInfo.reservedForOther (configs : List DhcpConfig) (addr : Ipv4Addr) : Bool :=
  (configFindByAddress configs addr).any fun i => client.config.map (·.2) ≠ some i

/-- `client_key`: the client ID unless it is empty, else the hardware address. -/
def DhcpPacket.clientKey : Bytes :=
  ((findOption pkt.options optionClientId).filter (· ≠ [])).getD pkt.hwaddr

/-- A host entry that only carries a filter disables the client. -/
def isDisabledByTag (configs : List DhcpConfig) (tags : List DhcpNetid) : Bool :=
  configs.any fun c =>
    c.flags.contains ConfigFlags.disable && !c.filter.isEmpty && matchNetidWild c.filter tags

/-- What `dispatch_dhcp_with_meta_view` finds out about the client, or `none` if it is ignored. -/
def identify : Except Fault (Option ClientInfo) := do
  let clid := findOption pkt.options optionClientId
  let hostname := (findOption pkt.options optionHostname).bind fromUtf8
  let tags ← derivedTags pkt cfg hostname
  if isDisabledByTag cfg.configs tags then return none
  if cfg.dhcpIgnore.any fun entry => contextFilterMatches entry tags false then return none
  let config := findConfig cfg.configs clid pkt.hwaddr pkt.htype.toNat hostname tags
  if config.any (·.1.flags.contains ConfigFlags.disable) then return none
  return some { clid, hostname, tags, config }

/-- `select_reply_delay`. -/
def selectReplyDelay (tags : List DhcpNetid) (cfg : DhcpServerConfig) : UInt32 :=
  let matching :=
    cfg.replyDelays.find? fun rule => !rule.filter.isEmpty && matchNetidWild rule.filter tags
  ((matching <|> cfg.replyDelays.find? (·.filter.isEmpty)).map (·.delaySecs)).getD 0

/-- `record_lease`. -/
def recordLease (addr : Ipv4Addr) (pkt : DhcpPacket) (clid : Option Bytes)
    (hostname : Option Str) (leaseTime : UInt32) (now : SystemTime) : LeaseDb :=
  let created := match db.findByAddr addr with
    | some _ => some db
    | none => db.allocateV4 addr
  match created with
  | none => db
  | some db =>
    ((db.setHwaddr addr pkt.hwaddr pkt.htype.toNat clid).setHostname addr hostname false).setExpires
      addr leaseTime now

/-- The search for a free address, as a packet starts it. -/
def allocateFor (tags : List DhcpNetid) : Option Ipv4Addr × PingCache :=
  addressAllocate {
    contexts := allocationContexts cfg contexts
    db
    configs := cfg.configs
    hash := sdbmHash pkt.hwaddr
    now := env.searchTime
    consecAddr := cfg.consecAddr
    noPing := cfg.noPing
    probe := env.probe } tags env.pingCache

/-- `bootp_file_tag`. -/
def bootpFileTag : Option DhcpNetid :=
  let file := pkt.file.toList.takeWhile (· ≠ 0)
  if file = [] then none else fromUtf8 file

/-- `bootp_dynamic_allowed`. -/
def bootpDynamicAllowed (rules : List (List DhcpNetid)) (tags : List DhcpNetid) : Bool :=
  rules.any (matchNetidWild · tags)

/-- The tags of a BOOTP client. -/
def bootpTags : List DhcpNetid :=
  client.allTags ++ (bootpFileTag pkt).toList ++ ["bootp".toList]

/-- The hardware address on the lease is that of the packet. -/
def DhcpLease.hasHwaddrOf (lease : DhcpLease) (pkt : DhcpPacket) : Bool :=
  lease.hwaddr = pkt.hwaddr && lease.hwaddrType = pkt.htype.toNat

/-- The address `dispatch_bootp` settles on, before it is checked against the ranges. -/
def bootpAddr : Option Ipv4Addr × PingCache :=
  let ranges := allocationContexts cfg contexts
  match client.staticAddr with
  | some addr =>
    if (db.findByAddr addr).any fun existing => !existing.hasHwaddrOf pkt then (none, env.pingCache)
    else (some addr, env.pingCache)
  | none =>
    match (db.findByClientId pkt.clientKey).filter fun l => addressAvailable ranges l.addr with
    | some existing => (some existing.addr, env.pingCache)
    | none => allocateFor pkt cfg contexts db env (bootpTags pkt client)

/-- The time a BOOTP lease lasts. -/
def bootpLeaseTime : UInt32 :=
  if client.staticAddr.isSome then
    ((client.config.filter (·.1.flags.contains ConfigFlags.time)).map (·.1.leaseTime)).getD
      0xFFFFFFFF
  else 0xFFFFFFFF

/-- The result of a dispatch: the reply, the database and the ping cache. -/
abbrev Outcome := Option DispatchedDhcpReply × LeaseDb × PingCache

/-- `dispatch_bootp`. -/
def dispatchBootp : Outcome :=
  if pkt.htype = 0 ∨ pkt.hlen = 0 ∨ isDisabledByTag cfg.configs (bootpTags pkt client) then
    (none, db, env.pingCache)
  else
    match bootpAddr pkt cfg contexts db env client with
    | (none, cache) => (none, db, cache)
    | (some yiaddr, cache) =>
      if (narrowContext (allocationContexts cfg contexts) yiaddr).isNone then (none, db, cache)
      else if client.staticAddr.isNone
        && !bootpDynamicAllowed cfg.bootpDynamic (bootpTags pkt client) then (none, db, cache)
      else
        (some { reply := handleBootp pkt yiaddr, delaySecs := 0 },
          recordLease db yiaddr pkt client.clid client.hostname
            (bootpLeaseTime client) env.commitTime,
          cache)

/-- `is_same_net_prefix`. -/
def isSameNetPrefix (a b : Ipv4Addr) (prefixLen : ℕ) : Bool :=
  (toU32 a).toNat / 2 ^ (32 - prefixLen) == (toU32 b).toNat / 2 ^ (32 - prefixLen)

/-- The source of a lease query may ask. -/
def leasequeryAllowed : Bool :=
  cfg.leasequeryEnabled && cfg.leasequerySource ≠ .unspecified
    && (cfg.leasequeryAddr.isEmpty || cfg.leasequeryAddr.any fun b =>
      !b.is6 && match b.addr with
        | .v4 a => isSameNetPrefix cfg.leasequerySource a (min b.pfx.toNat 32)
        | .v6 _ => false)

/-- `dispatch_leasequery`, which reads the database only. -/
def dispatchLeasequery : Option DispatchedDhcpReply :=
  if leasequeryAllowed cfg then
    let ranges := allocationContexts cfg contexts
    let queried :=
      if pkt.ciaddr ≠ .unspecified then
        db.findByAddr pkt.ciaddr else db.findByClientId pkt.clientKey
    let msgType : DhcpMsgType := match queried with
      | some l => if (narrowContext ranges l.addr).isSome then .leaseActive else .leaseUnknown
      | none =>
        if pkt.ciaddr ≠ .unspecified ∧ addressAvailable ranges pkt.ciaddr then .leaseUnassigned
        else .leaseUnknown
    some { reply := { msgType, yiaddr := .unspecified, giaddr := pkt.giaddr }, delaySecs := 0 }
  else none

/-- The offer for a DISCOVER, or the ACK if the client asked for a rapid commit. -/
def answerDiscover : Option DhcpReply × PingCache :=
  let (scannedAddr, cache) :=
    if client.staticAddr.isNone then allocateFor pkt cfg contexts db env client.allTags
    else (none, env.pingCache)
  -- the existing lease is not passed
  let offer := handleDiscover pkt cfg.poolStart cfg.poolEnd none client.staticAddr scannedAddr
  if cfg.rapidCommit && (findOption pkt.options optionRapidCommit).isSome then
    (offer.bind fun r => makeRapidCommitAck r cfg.poolStart cfg.poolEnd client.staticAddr
      (client.reservedForOther cfg.configs r.yiaddr), cache)
  else (offer, cache)

/-- The answer to a REQUEST. -/
def answerRequest : Option DhcpReply :=
  handleRequest pkt cfg.poolStart cfg.poolEnd client.staticAddr
    ((requestedAddr pkt).any (client.reservedForOther cfg.configs))

/-- The lease time of the range the reply is for. -/
def replyLeaseTime (reply : DhcpReply) : UInt32 :=
  let context :=
    if reply.yiaddr = .unspecified then contexts.head?
    else narrowContext contexts reply.yiaddr <|> contexts.head?
  (context.map (·.leaseTime)).getD 3600

/-- The end of `dispatch_dhcp_with_meta_view`: an ACK is put on record, and the delay is chosen. -/
def commitReply (msgType : DhcpMsgType) (reply : DhcpReply) : DispatchedDhcpReply × LeaseDb :=
  let db :=
    if reply.msgType = .ack ∧ reply.yiaddr ≠ .unspecified ∧ msgType ≠ .inform then
      recordLease db reply.yiaddr pkt client.clid client.hostname
        (replyLeaseTime contexts reply) env.commitTime
    else db
  let delayed := reply.msgType = .offer ∨ (msgType = .discover ∧ reply.msgType = .ack)
  ({ reply, delaySecs := if delayed then selectReplyDelay client.tags cfg else 0 }, db)

/-- The lease a RELEASE or DECLINE removes is that at this address. -/
def givenUpAddr (msgType : DhcpMsgType) : Option Ipv4Addr :=
  match msgType with
  | .release => if handleRelease pkt cfg.poolStart cfg.poolEnd then some pkt.ciaddr else none
  | .decline =>
      if handleDecline pkt cfg.poolStart cfg.poolEnd then findRequestedIp pkt.options else none
  | _ => none

/-- The messages that name a client, once it is known who sent them. -/
def dispatchMessage (msgType : DhcpMsgType) : Outcome :=
  let commit (reply : Option DhcpReply) (cache : PingCache) : Outcome :=
    match reply with
    | none => (none, db, cache)
    | some reply =>
      let (dispatched, db) := commitReply pkt cfg contexts db env client msgType reply
      (some dispatched, db, cache)
  match msgType with
  | .discover =>
    let (reply, cache) := answerDiscover pkt cfg contexts db env client
    commit reply cache
  | .request => commit (answerRequest pkt cfg client) env.pingCache
  | .inform => commit (handleInform pkt) env.pingCache
  | .release | .decline =>
    match givenUpAddr pkt cfg msgType with
    | some addr => (none, db.removeByAddr addr, env.pingCache)
    | none => (none, db, env.pingCache)
  | .leaseQuery => (dispatchLeasequery pkt cfg contexts db, db, env.pingCache)
  | _ => (none, db, env.pingCache)

/-- `dispatch_dhcp_with_meta_view`, with the ranges of the view. -/
def dispatchDhcpWithMetaView : Except Fault Outcome := do
  match ← identify pkt cfg with
  | none => return (none, db, env.pingCache)
  | some client =>
    match getMessageType pkt.options with
    | some msgType => return dispatchMessage pkt cfg contexts db env client msgType
    | none =>
      -- only a request without option 53 is BOOTP; an unknown message type is dropped
      if (findOption pkt.options optionMessageType).isSome then return (none, db, env.pingCache)
      else return dispatchBootp pkt cfg contexts db env client

/-- `dispatch_dhcp_with_meta`. -/
def dispatchDhcpWithMeta : Except Fault Outcome :=
  dispatchDhcpWithMetaView pkt cfg cfg.contexts db env

/-- `dispatch_dhcp_with_arrival`, with the configuration afterwards. -/
def dispatchDhcpWithArrival (arrival : Option ArrivalInterface) :
    Except Fault (Outcome × DhcpServerConfig) := do
  match arrival with
  | none => return (← dispatchDhcpWithMeta pkt cfg db env, cfg)
  | some iface =>
    let (contexts, linked) := linkContextsForInterface cfg.contexts iface
    let cfg := { cfg with contexts }
    let (reply, db, cache) ←
      dispatchDhcpWithMetaView pkt cfg (if linked = [] then cfg.contexts else linked) db env
    let db := match reply with
      | some d =>
        if d.reply.msgType = .ack ∧ d.reply.yiaddr ≠ .unspecified then
          db.setInterface d.reply.yiaddr iface.ifIndex
        else db
      | none => db
    return ((reply, db, cache), cfg)

end DnsmasqRs.Dhcp
