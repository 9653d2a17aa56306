import DnsmasqRs.Dhcp.Lease
import DnsmasqRs.Dhcp6.Pool
import DnsmasqRs.Lib.Fallible

/-!
# Answering a DHCPv6 packet (`dhcp6.rs`, `rfc3315.rs`)

`dispatch_dhcp6` goes by the message type.  A Solicit is answered with an address the client may
have, and with a rapid commit the address is bound to the client at once, as it is for a Request.
Renew and Rebind extend a lease; a Rebind may bind an address the server has no lease of the client
for.  One IA_NA and one address in it are looked at in each packet.

The packet's options and those of the reply are raw bytes.
-/

namespace DnsmasqRs.Dhcp6

open Wire Utf8 Dhcp

/-! ### Packets -/

/-- `Dhcp6MsgType`. -/
inductive Dhcp6MsgType where
  | solicit | advertise | request | confirm | renew | rebind | reply | release | decline
  | reconfigure | infoReq | relayForw | relayRepl
  deriving DecidableEq

def option6ClientId : UInt16 := 1
def option6ServerId : UInt16 := 2
def option6IaNa : UInt16 := 3
def option6IaTa : UInt16 := 4
def option6Iaaddr : UInt16 := 5
def option6Preference : UInt16 := 7
def option6StatusCode : UInt16 := 13
def option6RapidCommit : UInt16 := 14

def statusSuccess : UInt16 := 0
def statusUnspecFail : UInt16 := 1
def statusNoAddrsAvail : UInt16 := 2
def statusNoBinding : UInt16 := 3
def statusNotOnLink : UInt16 := 4

/-- `Dhcp6Packet`. -/
structure Dhcp6Packet where
  msgType : Dhcp6MsgType
  xid : UInt32
  options : Bytes
  deriving DecidableEq

/-- `Dhcp6Reply`. -/
structure Dhcp6Reply where
  msgType : Dhcp6MsgType
  xid : UInt32
  options : Bytes
  deriving DecidableEq

/-- The loop of `find_option6`.  Every round takes at least four bytes, so the number of bytes
bounds it. -/
def findOption6Loop (code : UInt16) : ℕ → Bytes → Option Bytes
  | fuel + 1, c₀ :: c₁ :: l₀ :: l₁ :: rest =>
    let optLen := (ofBe16 l₀ l₁).toNat
    if rest.length < optLen then none
    else if ofBe16 c₀ c₁ = code then some (rest.take optLen)
    else findOption6Loop code fuel (rest.drop optLen)
  | _, _ => none

/-- `find_option6`. -/
def findOption6 (options : Bytes) (code : UInt16) : Option Bytes :=
  findOption6Loop code options.length options

/-- `extract_client_id`. -/
def extractClientId (pkt : Dhcp6Packet) : Bytes := (findOption6 pkt.options option6ClientId).getD []

/-- `extract_ia`. -/
def extractIa (pkt : Dhcp6Packet) : Option (Bytes × UInt32) :=
  match findOption6 pkt.options option6IaNa with
  | some (a :: b :: c :: d :: rest) => some (a :: b :: c :: d :: rest, ofBe32 a b c d)
  | _ => none

/-- `ia_na_first_addr`. -/
def iaNaFirstAddr (iaData : Bytes) : Option Ipv6Addr :=
  if iaData.length ≤ 12 then none
  else (findOption6 (iaData.drop 12) option6Iaaddr).bind Ipv6Addr.ofBytes

/-! ### Options of a reply -/

/-- `build_option6`. -/
def buildOption6 (code : UInt16) (data : Bytes) : Bytes :=
  be16 code ++ be16 (UInt16.ofNat data.length) ++ data

/-- `iaaddr_suboption`. -/
def iaaddrSuboption (addr : Ipv6Addr) (preferred valid : UInt32) : Bytes :=
  buildOption6 option6Iaaddr (addr.octets.toList ++ be32 preferred ++ be32 valid)

/-- `status_option`. -/
def statusOption (code : UInt16) (message : String) : Bytes :=
  buildOption6 option6StatusCode (be16 code ++ bytes message.toList)

/-- `build_ia_na_option`. -/
def buildIaNaOption (iaid : UInt32) (t1 t2 : UInt32) (suboption : Bytes) : Bytes :=
  buildOption6 option6IaNa (be32 iaid ++ be32 t1 ++ be32 t2 ++ suboption)

/-- The options every reply starts with. -/
def replyHeader (clientId duid : Bytes) : Bytes :=
  buildOption6 option6ClientId clientId ++ buildOption6 option6ServerId duid

/-! ### Leases -/

/-- What the handlers read: the ranges, the host entries, the leases in the order the table is gone
through, and the time. -/
structure Dhcp6RequestContext where
  contexts : List DhcpContext6
  configs : List DhcpConfig6
  leaseDb : LeaseDb
  order : LeaseDb.Entries
  authoritative : Bool
  nowSecs : UInt64

variable (pkt : Dhcp6Packet) (duid : Bytes) (ctx : Dhcp6RequestContext)

/-- `addr_in_use`. -/
def addrInUse (addr : Ipv6Addr) : Bool :=
  (LeaseDb.findV6ByAddr ctx.order addr).isSome || configFindByAddress6 ctx.configs addr

/-- `check_address`. -/
def checkAddress (clid : Bytes) (iaid : UInt32) (addr : Ipv6Addr) : Bool :=
  match LeaseDb.findV6ByAddr ctx.order addr with
  | none => true
  | some l => l.clid = some clid && l.iaid = iaid

/-- The lifetimes of an address. -/
structure Times where
  preferred : UInt32 := 0
  valid : UInt32 := 0
  t1 : UInt32 := 0
  t2 : UInt32 := 0
  deriving DecidableEq

/-- `calculate_times`, with arithmetic that wraps around. -/
def calculateTimes (leaseTime : UInt32) : Times :=
  if leaseTime = 0xFFFFFFFF then ⟨0xFFFFFFFF, 0xFFFFFFFF, 0xFFFFFFFF, 0xFFFFFFFF⟩
  else ⟨leaseTime, leaseTime, leaseTime / 2, leaseTime * 4 / 5⟩

/-- `context_for_addr`. -/
def contextForAddr (contexts : List DhcpContext6) (addr : Ipv6Addr) : Option DhcpContext6 :=
  contexts.find? fun c => isSameNet6 c.start6 addr c.pfx

/-- `compute_times_for_addr`. -/
def computeTimesForAddr (contexts : List DhcpContext6) (addr : Ipv6Addr) : Times :=
  calculateTimes (((contextForAddr contexts addr).map (·.leaseTime)).getD 3600)

/-- The expiry of a lease; a time has a signed number of seconds. -/
def expiryOf (nowSecs : UInt64) (valid : UInt32) : Except Fault (Option SystemTime) :=
  if valid = 0xFFFFFFFF then .ok none
  else
    let secs := min (nowSecs.toNat + valid.toNat) (2 ^ 64 - 1)
    if 2 ^ 63 ≤ secs then .error .overflow else .ok (some (fromSecs secs))

/-- `persist_lease`.  If the table is full there is no lease, but the lifetimes are returned all the
same. -/
def persistLease (clid : Bytes) (iaid : UInt32) (addr : Ipv6Addr) :
    Except Fault (Times × LeaseDb) := do
  let times := computeTimesForAddr ctx.contexts addr
  let expires ← expiryOf ctx.nowSecs times.valid
  return (times,
    (ctx.leaseDb.bindV6 ctx.order addr clid iaid LeaseFlags.na expires).getD ctx.leaseDb)

/-- `select_address_for_ia`. -/
def selectAddressForIa (clientId : Bytes) (iaid : UInt32) (requested : Option Ipv6Addr) :
    Option Ipv6Addr :=
  requested.filter (fun r => address6Valid ctx.contexts r && address6Available ctx.contexts r
      && checkAddress ctx clientId iaid r)
    <|> ((LeaseDb.findV6ByClientIaid ctx.order clientId iaid).map (·.addr6)).filter
      (address6Available ctx.contexts ·)
    <|> address6Allocate ctx.contexts clientId iaid [] (addrInUse ctx)

/-! ### Handlers -/

/-- What a handler returns: the reply, if one is sent, and the leases. -/
abbrev Outcome6 := Option Dhcp6Reply × LeaseDb

/-- `no_ia_reply`. -/
def noIaReply (replyType : Dhcp6MsgType) (xid : UInt32) (duid clientId : Bytes) : Dhcp6Reply where
  msgType := replyType
  xid
  options := replyHeader clientId duid ++ statusOption statusNoAddrsAvail "no addresses available"

/-- `build_solicit_style_reply`. -/
def buildSolicitStyleReply (xid : UInt32) (duid clientId : Bytes) (iaid : UInt32)
    (ctx : Dhcp6RequestContext) (addr : Option Ipv6Addr) (persist : Bool) (replyType : Dhcp6MsgType)
    (includeRapidCommitOpt : Bool) :
    Except Fault Outcome6 := do
  let (times, db) ← match addr with
    | some a =>
      if persist then persistLease ctx clientId iaid a
      else pure (computeTimesForAddr ctx.contexts a, ctx.leaseDb)
    | none => pure ({}, ctx.leaseDb)
  let rapid := if includeRapidCommitOpt then buildOption6 option6RapidCommit [] else []
  let iaSub := match addr with
    | some a => iaaddrSuboption a times.preferred times.valid
    | none => statusOption statusNoAddrsAvail "address unavailable"
  let status := match addr with
    | some _ =>
      statusOption statusSuccess "success"
        ++ buildOption6 option6Preference [if ctx.authoritative then 255 else 0]
    | none => statusOption statusNoAddrsAvail "no addresses available"
  return (some {
    msgType := replyType, xid
    options := replyHeader clientId duid ++ rapid ++ buildIaNaOption iaid times.t1 times.t2 iaSub
      ++ status }, db)

/-- `dispatch_solicit`. -/
def dispatchSolicit : Except Fault Outcome6 :=
  let clientId := extractClientId pkt
  let rapidCommit := (findOption6 pkt.options option6RapidCommit).isSome
  let replyType := if rapidCommit then .reply else .advertise
  match extractIa pkt with
  | none => .ok (some (noIaReply replyType pkt.xid duid clientId), ctx.leaseDb)
  | some (iaData, iaid) =>
    let addr := selectAddressForIa ctx clientId iaid (iaNaFirstAddr iaData)
    buildSolicitStyleReply pkt.xid duid clientId iaid ctx addr rapidCommit replyType rapidCommit

/-- What a Request for an address gets: the error, or nothing if the address is the client's to
have. -/
def requestStatus (clientId : Bytes) (iaid : UInt32) (reqAddr : Ipv6Addr) :
    Option (UInt16 × String) :=
  let onLink := address6Valid ctx.contexts reqAddr
  let dynamic := address6Available ctx.contexts reqAddr
  if dynamic || onLink then
    if !dynamic && !configFindByAddress6 ctx.configs reqAddr then
      some (statusNoAddrsAvail, "address unavailable")
    else if !checkAddress ctx clientId iaid reqAddr then some (statusUnspecFail, "address in use")
    else none
  else some (statusNotOnLink, "not on link")

/-- `dispatch_request`. -/
def dispatchRequest : Except Fault Outcome6 :=
  let clientId := extractClientId pkt
  match extractIa pkt with
  | none => .ok (some (noIaReply .reply pkt.xid duid clientId), ctx.leaseDb)
  | some (iaData, iaid) =>
    match iaNaFirstAddr iaData with
    | none =>
      buildSolicitStyleReply pkt.xid duid clientId iaid ctx
        (selectAddressForIa ctx clientId iaid none) true
        .reply false
    | some reqAddr =>
      match requestStatus ctx clientId iaid reqAddr with
      | none => do
        let (times, db) ← persistLease ctx clientId iaid reqAddr
        return (some {
          msgType := .reply, xid := pkt.xid
          options := replyHeader clientId duid
            ++ buildIaNaOption iaid times.t1 times.t2
              (iaaddrSuboption reqAddr times.preferred times.valid)
            ++ statusOption statusSuccess "success" }, db)
      | some (code, message) =>
        .ok (some {
          msgType := .reply, xid := pkt.xid
          options :=
            replyHeader clientId duid ++ buildIaNaOption iaid 0 0 (statusOption code message)
            ++ statusOption statusNoAddrsAvail "no addresses available" }, ctx.leaseDb)

/-- The address belongs to a range, for Renew and Rebind. -/
def isPlausible (addr : Ipv6Addr) : Bool :=
  address6Available ctx.contexts addr || address6Valid ctx.contexts addr

/-- The reply of a Renew or Rebind that binds the address. -/
def extendLease (iaid : UInt32)
    (addr : Ipv6Addr) : Except Fault Outcome6 := do
  let (times, db) ← persistLease ctx (extractClientId pkt) iaid addr
  return (some {
    msgType := .reply, xid := pkt.xid
    options := replyHeader (extractClientId pkt) duid
      ++ buildIaNaOption iaid times.t1 times.t2 (iaaddrSuboption addr times.preferred times.valid)
      ++ statusOption statusSuccess "success" }, db)

/-- `dispatch_renew_rebind`. -/
def dispatchRenewRebind (isRebind : Bool) : Except Fault Outcome6 :=
  let clientId := extractClientId pkt
  match extractIa pkt with
  | none => .ok (none, ctx.leaseDb)
  | some (iaData, iaid) =>
    match iaNaFirstAddr iaData with
    | none => .ok (none, ctx.leaseDb)
    | some addr =>
      if (LeaseDb.findV6ByClidIaid ctx.order clientId iaid addr).isNone then
        if isRebind && ctx.authoritative && isPlausible ctx addr then
          extendLease pkt duid ctx iaid addr
        else
          .ok (some {
            msgType := .reply, xid := pkt.xid
            options := replyHeader clientId duid
              ++ buildIaNaOption iaid 0 0 (statusOption statusNoBinding "no binding found")
              ++ if isRebind then statusOption statusNoAddrsAvail "no addresses available"
                else [] }, ctx.leaseDb)
      else if !isPlausible ctx addr then
        -- the address is deprecated, and the lease is left as it is
        .ok (some {
          msgType := .reply, xid := pkt.xid
          options :=
            replyHeader clientId duid ++ buildIaNaOption iaid 0 0 (iaaddrSuboption addr 0 0)
            ++ statusOption statusSuccess "success" }, ctx.leaseDb)
      else extendLease pkt duid ctx iaid addr

/-- `dispatch_confirm`. -/
def dispatchConfirm (contexts : List DhcpContext6) : Option Dhcp6Reply := do
  let (iaData, _) ← extractIa pkt
  let addr ← iaNaFirstAddr iaData
  return {
    msgType := .reply, xid := pkt.xid
    options := replyHeader (extractClientId pkt) duid
      ++ if !address6Valid contexts addr then statusOption statusNotOnLink "confirm failed"
        else statusOption statusSuccess "all addresses still on link" }

/-- `dispatch_release_or_decline`. -/
def dispatchReleaseOrDecline (db : LeaseDb) (order : LeaseDb.Entries) (isDecline : Bool) :
    Outcome6 :=
  let clientId := extractClientId pkt
  let noBinding (iaid : UInt32) : Bytes :=
    buildIaNaOption iaid 0 0 (statusOption statusNoBinding "no binding found")
  let named := (extractIa pkt).bind fun (iaData, iaid) => (iaNaFirstAddr iaData).map (iaid, ·)
  let (ia, db) := match named with
    | some (iaid, addr) =>
      match db.removeV6ByClidIaidAddr order clientId iaid addr with
      | (true, db) => ([], db)
      | (false, db) => (noBinding iaid, db)
    | none => ([], db)
  (some {
    msgType := .reply, xid := pkt.xid
    options := replyHeader clientId duid ++ ia
      ++ statusOption statusSuccess (if isDecline then "success" else "release received") }, db)

/-- `dispatch_inforeq`. -/
def dispatchInforeq : Option Dhcp6Reply :=
  if (findOption6 pkt.options option6IaNa).isSome
    || (findOption6 pkt.options option6IaTa).isSome then none
  else
    some { msgType := .reply, xid := pkt.xid, options := replyHeader (extractClientId pkt) duid }

/-- `dispatch_dhcp6`. -/
def dispatchDhcp6 : Except Fault Outcome6 :=
  match pkt.msgType with
  | .solicit => dispatchSolicit pkt duid ctx
  | .request => dispatchRequest pkt duid ctx
  | .renew => dispatchRenewRebind pkt duid ctx false
  | .rebind => dispatchRenewRebind pkt duid ctx true
  | .confirm => .ok (dispatchConfirm pkt duid ctx.contexts, ctx.leaseDb)
  | .release => .ok (dispatchReleaseOrDecline pkt duid ctx.leaseDb ctx.order false)
  | .decline => .ok (dispatchReleaseOrDecline pkt duid ctx.leaseDb ctx.order true)
  | .infoReq => .ok (dispatchInforeq pkt duid, ctx.leaseDb)
  | _ => .ok (none, ctx.leaseDb)

end DnsmasqRs.Dhcp6
