import DnsmasqRs.Dhcp.Lease

/-!
# Address ranges (`dhcp.rs`)

The range an address belongs to, the ranges of the interface a packet came in on, and the search for
a free address.  The search starts at an address made from the hardware address, walks once around
each range the client's tags allow, and asks the network whether a candidate answers to a ping.
-/

namespace DnsmasqRs.Dhcp

open Wire Utf8

/-! ### Ranges -/

/-- The range hands out addresses. -/
def DhcpContext.isDynamic (ctx : DhcpContext) : Bool :=
  !ctx.flags.intersects (ContextFlags.static ||| ContextFlags.proxy)

/-- The address lies between the ends of the range. -/
def DhcpContext.covers (ctx : DhcpContext) (addr : Ipv4Addr) : Bool :=
  toU32 ctx.start ≤ toU32 addr && toU32 addr ≤ toU32 ctx.finish

/-- `address_available`. -/
def addressAvailable (contexts : List DhcpContext) (addr : Ipv4Addr) : Bool :=
  !contexts.any (addr = ·.router) && contexts.any fun ctx => ctx.isDynamic && ctx.covers addr

/-- The range is on the subnet of the address. -/
def DhcpContext.sameSubnet (ctx : DhcpContext) (addr : Ipv4Addr) : Bool :=
  ctx.netmask ≠ .unspecified && isSameNet addr ctx.start ctx.netmask

/-- `narrow_context`. -/
def narrowContext (contexts : List DhcpContext) (addr : Ipv4Addr) : Option DhcpContext :=
  let byPool := if addressAvailable contexts addr then
      contexts.find? fun ctx => ctx.isDynamic && ctx.covers addr
    else none
  byPool <|> (contexts.find? fun ctx => ctx.flags.contains ContextFlags.static
    && ctx.sameSubnet addr)
    <|> (contexts.find? fun ctx => !ctx.flags.contains ContextFlags.proxy && ctx.sameSubnet addr)

/-- `synthetic_pool_context`. -/
def syntheticPoolContext (start finish : Ipv4Addr) : DhcpContext :=
  { leaseTime := 3600, start, finish }

/-- `allocation_contexts`, for the ranges of the view. -/
def allocationContexts (cfg : DhcpServerConfig) (contexts : List DhcpContext) : List DhcpContext :=
  if contexts = [] then [syntheticPoolContext cfg.poolStart cfg.poolEnd] else contexts

/-! ### The arrival interface -/

/-- `ArrivalInterface`. -/
structure ArrivalInterface where
  localAddr : Ipv4Addr
  netmask : Ipv4Addr
  broadcast : Ipv4Addr
  ifIndex : ℤ
  deriving DecidableEq

/-- A range gets the netmask of the interface if it has none of its own and shares the subnet. -/
def guessNetmask (iface : ArrivalInterface) (ctx : DhcpContext) : DhcpContext :=
  if ctx.flags.contains ContextFlags.netmask = false
      ∧ (isSameNet iface.localAddr ctx.start iface.netmask
        ∨ isSameNet iface.localAddr ctx.finish iface.netmask) then
    { ctx with netmask := iface.netmask }
  else ctx

/-- The range is linked to the interface. -/
def isLinked (iface : ArrivalInterface) (ctx : DhcpContext) : Bool :=
  ctx.netmask ≠ .unspecified && isSameNet iface.localAddr ctx.start ctx.netmask
    && isSameNet iface.localAddr ctx.finish ctx.netmask

/-- What a range that is linked gets from the interface. -/
def linkContext (iface : ArrivalInterface) (ctx : DhcpContext) : DhcpContext :=
  let ctx := guessNetmask iface ctx
  if isLinked iface ctx then
    { ctx with
      router := iface.localAddr, localAddr := iface.localAddr
      broadcast :=
        if ctx.flags.contains ContextFlags.brdcast then ctx.broadcast
        else if isSameNet iface.broadcast ctx.start ctx.netmask then iface.broadcast
        else ofU32 (toU32 ctx.start ||| ~~~toU32 ctx.netmask) }
  else ctx

/-- `link_contexts_for_interface`: the ranges afterwards, and the linked ones among them. -/
def linkContextsForInterface (contexts : List DhcpContext) (iface : ArrivalInterface) :
    List DhcpContext × List DhcpContext :=
  (contexts.map (linkContext iface),
    (contexts.filter fun ctx => isLinked iface (guessNetmask iface ctx)).map (linkContext iface))

/-! ### Pings -/

/-- `PingResult`. -/
structure PingResult where
  addr : Ipv4Addr
  time : SystemTime
  hash : UInt32
  deriving DecidableEq

/-- `PingCache`. -/
abbrev PingCache := List PingResult

/-- A result is older than `PING_CACHE_TIME`. -/
def PingResult.isStale (now : SystemTime) (r : PingResult) : Bool := fromSecs 30 < now - r.time

/-- `PingCache::check`: the answer and the cache afterwards.  `AddressProbe::in_use` is an effect.
-/
def PingCache.check {m : Type → Type} [Monad m] (cache : PingCache) (now : SystemTime)
    (addr : Ipv4Addr) (hash : UInt32) (noPing loopback : Bool) (inUse : Ipv4Addr → m Bool) :
    m (Option UInt32 × PingCache) :=
  match cache.find? fun r => !r.isStale now && r.addr = addr with
  | some r => pure (some r.hash, cache)
  | none =>
    -- six results is six tenths of the pings of three seconds that fit into thirty
    if 6 ≤ cache.countP (!·.isStale now) || noPing || loopback then pure (some hash, cache)
    else do
      if ← inUse addr then pure (none, cache)
      else
        let record := { addr, time := now, hash }
        match cache.reverse.findIdx? (·.isStale now) with
        | some i => pure (some hash, cache.set (cache.length - 1 - i) record)
        | none => pure (some hash, cache ++ [record])

/-! ### The search for a free address -/

/-- `sdbm_hash`. -/
def sdbmHash (hwaddr : Bytes) : UInt32 :=
  let j := hwaddr.foldl (fun (j : UInt32) b => b.toUInt32 + (j <<< 6) + (j <<< 16) - j) 0
  if j = 0 then 1 else j

/-- `hash_to_addr`. -/
def hashToAddr (hash epoch : UInt32) (start finish : Ipv4Addr) : Ipv4Addr :=
  let range := toU32 finish - toU32 start + 1
  if range = 0 then start else ofU32 (toU32 start + (hash + epoch) % range)

/-- `is_allocatable_addr`. -/
def isAllocatableAddr (addr : Ipv4Addr) : Bool :=
  let first := addr.octets[0]!
  let last := addr.octets[3]!
  !(192 ≤ first && first ≤ 223 && (last = 0 || last = 255))

/-- `next_addr_wrapping`. -/
def nextAddrWrapping (addr start finish : Ipv4Addr) : Ipv4Addr :=
  let next := toU32 addr + 1
  if next = toU32 finish + 1 then start else ofU32 next

/-- What the search reads besides the range. -/
structure Search where
  contexts : List DhcpContext
  db : LeaseDb
  configs : List DhcpConfig
  hash : UInt32
  now : SystemTime
  consecAddr : Bool
  noPing : Bool
  probe : Ipv4Addr → Bool

/-- The address is not taken, as far as the tables say. -/
def Search.isFree (search : Search) (addr : Ipv4Addr) : Bool :=
  !search.contexts.any (addr = ·.router) && isAllocatableAddr addr
    && (search.db.findByAddr addr).isNone && (configFindByAddress search.configs addr).isNone

/-- The loop over one range.  It stops when it is back at the first address, after as many rounds as
the range has addresses. -/
def Search.scan (search : Search) (c : DhcpContext) (startAddr : Ipv4Addr) :
    ℕ → Ipv4Addr → PingCache → Option Ipv4Addr × PingCache
  | 0, _, cache => (none, cache)
  | fuel + 1, addr, cache =>
    let (answer, cache) :=
      if search.isFree addr then
        Id.run <| cache.check search.now addr search.hash search.noPing false search.probe
      else (none, cache)
    if answer.any fun r => !search.consecAddr || r = search.hash then (some addr, cache)
    else
      let next := nextAddrWrapping addr c.start c.finish
      if next = startAddr then (none, cache) else search.scan c startAddr fuel next cache

/-- The search in one range. -/
def Search.inContext (search : Search) (c : DhcpContext) (cache : PingCache) :
    Option Ipv4Addr × PingCache :=
  let startAddr :=
    if search.consecAddr then search.db.findMaxAddr c.start c.finish
    else hashToAddr search.hash c.addrEpoch c.start c.finish
  search.scan c startAddr ((toU32 c.finish - toU32 c.start).toNat + 1) startAddr cache

/-- The search in one range after the other. -/
def Search.inContexts (search : Search) : List DhcpContext → PingCache → Option Ipv4Addr × PingCache
  | [], cache => (none, cache)
  | c :: cs, cache =>
    match search.inContext c cache with
    | (some addr, cache) => (some addr, cache)
    | (none, cache) => search.inContexts cs cache

/-- The ranges one pass goes through: those whose filter names tags of the client, and in the second
pass also those without a filter. -/
def Search.candidates (search : Search) (netids : List DhcpNetid) (secondPass : Bool) :
    List DhcpContext :=
  search.contexts.filter fun c => c.isDynamic && contextFilterMatches c.filter netids secondPass

/-- `address_allocate`. -/
def addressAllocate (search : Search) (netids : List DhcpNetid) (cache : PingCache) :
    Option Ipv4Addr × PingCache :=
  search.inContexts (search.candidates netids false ++ search.candidates netids true) cache

end DnsmasqRs.Dhcp
