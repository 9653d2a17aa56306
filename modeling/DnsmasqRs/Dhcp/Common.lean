import DnsmasqRs.Dhcp.Types

/-!
# Options, tags and host entries (`dhcp_common.rs`)

Options are looked up in the raw bytes of a packet.  Tags are matched against filters with negations
and wildcards.  `find_config` picks the host entry of a client; callers compare entries by identity,
so it returns the position as well.
-/

namespace DnsmasqRs.Dhcp

open Wire Utf8

/-! ### Options -/

/-- The loop of `find_option`.  Every round takes at least one byte, so the number of bytes bounds
it. -/
def findOptionLoop (code : UInt8) : ℕ → Bytes → Option Bytes
  | fuel + 1, opt :: rest =>
    if opt = optionPad then findOptionLoop code fuel rest
    else if opt = optionEnd then none
    else
      match rest with
      | [] => none
      | len :: data =>
        if data.length < len.toNat then none
        else if opt = code then some (data.take len.toNat)
        else findOptionLoop code fuel (data.drop len.toNat)
  | _, _ => none

/-- `find_option`. -/
def findOption (options : Bytes) (code : UInt8) : Option Bytes :=
  findOptionLoop code options.length options

/-- `get_message_type`. -/
def getMessageType (options : Bytes) : Option DhcpMsgType := do
  let data ← findOption options optionMessageType
  DhcpMsgType.fromU8 (← data.head?)

/-- `find_requested_ip`. -/
def findRequestedIp (options : Bytes) : Option Ipv4Addr := do
  Ipv4Addr.ofBytes (← findOption options optionRequestedIp)

/-- The loop of `option_find1`, which returns the bytes from the option on. -/
def optionFindLoop (optType : UInt8) (minsize : ℕ) : ℕ → Bytes → Option Bytes
  | fuel + 1, code :: rest =>
    if code = optionEnd then (if optType = optionEnd then some (code :: rest) else none)
    else if code = optionPad then optionFindLoop optType minsize fuel rest
    else
      match rest with
      | [] => none
      | len :: data =>
        if data.length < len.toNat then none
        else if code = optType ∧ minsize ≤ len.toNat then some (code :: rest)
        else optionFindLoop optType minsize fuel (data.drop len.toNat)
  | _, _ => none

/-- `option_find1`. -/
def optionFind1 (buf : Bytes) (optType : UInt8) (minsize : ℕ) : Option Bytes :=
  optionFindLoop optType minsize buf.length buf

/-- `find_dhcp_option`, for the value.  An end marker is found as an option of its own, and the
bytes behind it are read as its length and value. -/
def findDhcpOption (buf : Bytes) (optType : UInt8) (minsize : ℕ) : Except Fault (Option Bytes) :=
  match optionFind1 buf optType minsize with
  | none => .ok none
  | some (_ :: len :: data) =>
    if data.length < len.toNat then .error .index else .ok (some (data.take len.toNat))
  | some _ => .error .index

/-! ### Tags -/

/-- The tag of a filter entry without its negation. -/
def effectiveTag (net : DhcpNetid) : DhcpNetid :=
  if net.head? = some '!' ∨ net.head? = some '#' then net.tail else net

/-- The entry starts with a negation. -/
def isNegated (net : DhcpNetid) : Bool := net.head? = some '!' ∨ net.head? = some '#'

/-- `match_netid_wild`. -/
def matchNetidWild (check pool : List DhcpNetid) : Bool :=
  check.all fun net =>
    let effective := effectiveTag net
    let found := pool.any fun p =>
      if effective.getLast? = some '*' then effective.dropLast.isPrefixOf p else p = effective
    if isNegated net then !found else found

/-- `match_netid`. -/
def matchNetid (tags list : List DhcpNetid) : Bool := tags.any fun t => list.any (· = t)

/-- `context_filter_matches`. -/
def contextFilterMatches (filter netids : List DhcpNetid) (tagnotneeded : Bool) : Bool :=
  if filter = [] then tagnotneeded
  else filter.all fun net =>
    if isNegated net then !netids.contains net.tail else netids.contains net

/-! ### Comparisons -/

/-- The loop of `memcmp_masked`, from the last pair of bytes. -/
def memcmpMaskedLoop : List (UInt8 × UInt8) → UInt32 → ℕ → ℕ
  | [], _, count => count
  | (a, b) :: rest, m, count =>
    if m &&& 1 = 0 then
      if a = b then memcmpMaskedLoop rest (m >>> 1) (count + 1) else 0
    else memcmpMaskedLoop rest (m >>> 1) count

/-- `memcmp_masked`. -/
def memcmpMasked (a b : Bytes) (mask : UInt32) : ℕ := memcmpMaskedLoop (a.zip b).reverse mask 1

/-- `hostname_isequal`. -/
def hostnameIsequal (a b : Str) : Bool := byteLen a = byteLen b && eqIgnoreAsciiCase a b

/-- Some window of the data is the pattern, which is not empty. -/
def hasWindow (pattern data : Bytes) : Bool :=
  (List.range (data.length + 1)).any fun i => (data.drop i).take pattern.length == pattern

/-- `match_bytes`. -/
def matchBytes (opt : DhcpOpt) (data : Bytes) : Bool :=
  match opt.val with
  | none => true
  | some val =>
    if val = [] then true
    else if data.length < val.length then false
    else if opt.flags.contains DhOptFlags.hex then memcmpMasked val data 0xFFFFFFFF ≠ 0
    else
      -- with `STRING` every position is tried, without it every multiple of the length
      let step := if opt.flags.contains DhOptFlags.string then 1 else val.length
      (List.range (data.length + 1)).any fun i =>
        i % step = 0 && (data.drop i).take val.length == val

/-! ### Host entries -/

/-- The hardware address of an entry is of the length and the type. -/
def HwaddrConfig.fits (conf : HwaddrConfig) (hwaddr : Bytes) (hwType : ℤ) : Bool :=
  conf.hwaddrLen = hwaddr.length && (conf.hwaddrType = hwType || conf.hwaddrType = 0)

/-- `config_has_mac`. -/
def configHasMac (config : DhcpConfig) (hwaddr : Bytes) (hwType : ℤ) : Bool :=
  config.hwaddrs.any fun conf =>
    conf.wildcardMask = 0 && conf.fits hwaddr hwType
      && conf.hwaddr.toList.take hwaddr.length == hwaddr

/-- The client ID of an entry is that of the client, or that without a leading zero byte. -/
def clidMatches (cfgClid clid : Bytes) : Bool :=
  cfgClid == clid || (clid.head? = some 0 && 1 < clid.length && cfgClid == clid.tail)

/-- The number of bytes each wildcard address of an entry has in common with that of the client. -/
def wildcardCounts (config : DhcpConfig) (hwaddr : Bytes) (hwType : ℤ) : List ℕ :=
  (config.hwaddrs.filter fun conf => conf.wildcardMask ≠ 0
    && conf.fits hwaddr hwType).map fun conf =>
    memcmpMasked (conf.hwaddr.toList.take hwaddr.length) hwaddr conf.wildcardMask

/-- The entry with the most bytes in common, the first among equals. -/
def bestWildcard (candidates : List (DhcpConfig × ℕ)) (hwaddr : Bytes) (hwType : ℤ) :
    Option (DhcpConfig × ℕ) :=
  let scored := candidates.flatMap fun c => (wildcardCounts c.1 hwaddr hwType).map (c, ·)
  (scored.foldl (fun best entry => if best.2 < entry.2 then (some entry.1, entry.2) else best)
    (none, 0)).1

/-- `find_config`, for a client with a hardware address. -/
def findConfig (configs : List DhcpConfig) (clid : Option Bytes) (hwaddr : Bytes) (hwType : ℤ)
    (hostname : Option Str) (tags : List DhcpNetid) : Option (DhcpConfig × ℕ) :=
  let candidates := configs.zipIdx.filter fun c =>
    c.1.filter.isEmpty || matchNetidWild c.1.filter tags
  let byClid := clid.bind fun clid => candidates.find? fun c =>
    c.1.flags.contains ConfigFlags.clid && c.1.clid.any (clidMatches · clid)
  let byMac := candidates.find? fun c => configHasMac c.1 hwaddr hwType
  let byHostname := hostname.bind fun hostname => candidates.find? fun c =>
    c.1.flags.contains ConfigFlags.name && c.1.hostname.any (eqIgnoreAsciiCase · hostname)
  byClid <|> byMac <|> byHostname <|> bestWildcard candidates hwaddr hwType

/-- `config_find_by_address`, for the position. -/
def configFindByAddress (configs : List DhcpConfig) (addr : Ipv4Addr) : Option ℕ :=
  configs.findIdx? fun c => c.flags.contains ConfigFlags.addr && c.addr = addr

end DnsmasqRs.Dhcp
