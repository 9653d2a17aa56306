import DnsmasqRs.Cache
import DnsmasqRs.Domain
import DnsmasqRs.Lib.Text

/-!
# Hosts files (`cache.rs`)

A line of a hosts file has an address and the names of the host.  Each name gets a forward record;
the reverse record is stored under the reverse name of the address and has the first name as its
data.  The identifier of a file's records is what `next_uid` gave, and its text what was read from
it.
-/

namespace DnsmasqRs.Cache

open Wire Utf8 NetText Domain Text

/-- `ipv4_ptr_name`. -/
def ipv4PtrName (addr : Ipv4Addr) : Str :=
  ['.'].intercalate (addr.octets.toList.reverse.map fun o => decimal o.toNat)
    ++ ".in-addr.arpa".toList

/-- `ipv6_ptr_name`. -/
def ipv6PtrName (addr : Ipv6Addr) : Str :=
  (addr.octets.toList.reverse.flatMap fun o =>
    [Nat.digitChar (o.toNat % 16), '.', Nat.digitChar (o.toNat / 16), '.']) ++ "ip6.arpa".toList

/-- `str::parse::<Ipv4Addr>`. -/
def parseIpv4Addr (s : Str) : Option Ipv4Addr :=
  (parseIpv4 s).bind fun octets => Ipv4Addr.ofBytes (octets.map UInt8.ofNat)

/-- `str::parse::<Ipv6Addr>`. -/
def parseIpv6Addr (s : Str) : Option Ipv6Addr :=
  (parseIpv6 s).bind fun groups => Ipv6Addr.ofBytes (groups.flatMap (toBe 2))

/-- What a line says: the address, with its flag and reverse name, and the names. -/
structure HostsEntry where
  addr : AllAddr
  flag : UInt32
  ptrName : Str
  canonical : Str
  aliases : List Str
  deriving DecidableEq

/-- The address of a line. -/
def parseHostsAddr (s : Str) : Option (AllAddr × UInt32 × Str) :=
  match parseIpv4Addr s with
  | some ip => some (.addr4 ip, fIpv4, ipv4PtrName ip)
  | none => (parseIpv6Addr s).map fun ip => (.addr6 ip, fIpv6, ipv6PtrName ip)

/-- The entry of a line, without its comment. -/
def hostsEntry (line : Str) : Option HostsEntry :=
  match splitWhitespace (line.takeWhile (· ≠ '#')) with
  | ip :: canonical :: aliases =>
    (parseHostsAddr ip).map fun (addr, flag, ptrName) =>
      { addr, flag, ptrName, canonical := asciiLower canonical, aliases := aliases.map asciiLower }
  | _ => none

/-- The records of an entry: the forward ones in the order of the names, and the reverse one. -/
def HostsEntry.records (e : HostsEntry) (ttl uid : UInt32) (now : Instant) : List CacheRecord :=
  let expires := now + fromSecs (ttl.toNat + 3600)
  (e.canonical :: e.aliases).map (fun name =>
      { name, flags := e.flag ||| fForward ||| fHosts ||| fImmortal, ttl, expires
        addr := some e.addr, uid })
    ++ [{ name := e.ptrName, flags := e.flag ||| fReverse ||| fHosts ||| fImmortal, ttl, expires,
          addr := some e.addr, rdata := some (bytes e.canonical), uid }]

variable {M : Type} [Lru M CacheKey CacheRecord]

/-- `parse_hosts_line`. -/
def parseHostsLine (line : Str) (ttl uid : UInt32) (now : Instant) (c : DnsCache M) :
    DnsCache M × ℕ :=
  match hostsEntry line with
  | none => (c, 0)
  | some e => ((e.records ttl uid now).foldl DnsCache.insert c, (e.records ttl uid now).length)

/-- `load_hosts_file`. -/
def loadHostsFile (text : Str) (ttl uid : UInt32) (now : Instant) (c : DnsCache M) :
    DnsCache M × ℕ :=
  (lines text).foldl (fun (c, n) line =>
    let (c, m) := parseHostsLine line ttl uid now c
    (c, n + m)) (c, 0)

example : hostsEntry "192.0.2.1 Host host.lan # comment".toList
    = some ⟨.addr4 ⟨#v[192, 0, 2, 1]⟩, fIpv4, "1.2.0.192.in-addr.arpa".toList, "host".toList,
      ["host.lan".toList]⟩ := by
  decide +kernel

end DnsmasqRs.Cache
