import DnsmasqRs.Dhcp.Common

/-!
# DHCPv6 address ranges (`dhcp6.rs`, `types/dhcp.rs`)

The ranges and host entries as DHCPv6 reads them, the tests whether an address belongs to one, and
the search for a free address.  Ranges differ in the lower half of the address only.
-/

namespace DnsmasqRs.Dhcp6

open Wire Utf8 Dhcp

/-! ### Configuration -/

/-- `ContextFlags::RA_STATELESS`. -/
def contextRaStateless : ContextFlags := 0x80
/-- `ContextFlags::DEPRECATE`. -/
def contextDeprecate : ContextFlags := 0x200
/-- `ContextFlags::USED`. -/
def contextUsed : ContextFlags := 0x8000
/-- `ConfigFlags::ADDR6`. -/
def configAddr6 : ConfigFlags := 0x1000

/-- `DhcpContext` with its IPv6 fields. -/
structure DhcpContext6 extends DhcpContext where
  start6 : Ipv6Addr
  end6 : Ipv6Addr
  local6 : Ipv6Addr := .unspecified
  pfx : ℤ
  deriving DecidableEq

/-- `DhcpConfig` with its IPv6 addresses. -/
structure DhcpConfig6 extends DhcpConfig where
  addr6 : List AllAddr := []
  deriving DecidableEq

/-! ### Addresses -/

/-- `addr6part`: the lower half of an address. -/
def addr6part (addr : Ipv6Addr) : UInt64 :=
  UInt64.ofNat ((addr.octets.toList.drop 8).foldl (fun n b => n * 256 + b.toNat) 0)

/-- `addr6_with_host`. -/
def addr6WithHost (base : Ipv6Addr) (host : UInt64) : Ipv6Addr :=
  ⟨.ofFn fun i => if i.val < 8 then base.octets[i]
    else UInt8.ofNat (host.toNat / 256 ^ (15 - i.val))⟩

/-- The loop of `is_same_net6`, over the octets of the two addresses. -/
def isSameNet6Loop : List (UInt8 × UInt8) → ℕ → Bool
  | [], _ => true
  | (a, b) :: rest, remaining =>
    if remaining = 0 then true
    else if 8 ≤ remaining then a = b && isSameNet6Loop rest (remaining - 8)
    else
      let mask : UInt8 := 0xFF <<< UInt8.ofNat (8 - remaining)
      a &&& mask = b &&& mask

/-- `is_same_net6`.  The length of the prefix is cast to `usize`. -/
def isSameNet6 (a b : Ipv6Addr) (prefixLen : ℤ) : Bool :=
  isSameNet6Loop (a.octets.toList.zip b.octets.toList) (prefixLen % 2 ^ 64).toNat

/-- `address6_available`. -/
def address6Available (contexts : List DhcpContext6) (addr : Ipv6Addr) : Bool :=
  contexts.any fun ctx =>
    !ctx.flags.intersects (ContextFlags.static ||| contextRaStateless)
      && isSameNet6 ctx.start6 addr ctx.pfx
      && addr6part ctx.start6 ≤ addr6part addr && addr6part addr ≤ addr6part ctx.end6

/-- `address6_valid`. -/
def address6Valid (contexts : List DhcpContext6) (addr : Ipv6Addr) : Bool :=
  contexts.any fun ctx => isSameNet6 ctx.start6 addr ctx.pfx

/-- `config_find_by_address6`. -/
def configFindByAddress6 (configs : List DhcpConfig6) (addr : Ipv6Addr) : Bool :=
  configs.any fun config =>
    config.flags.contains configAddr6 && config.addr6.any fun
      | .addr6 v6 => isSameNet6 v6 addr 128
      | _ => false

/-! ### The search for a free address -/

/-- `sdbm_hash64`. -/
def sdbmHash64 (clid : Bytes) (iaid : UInt32) : UInt64 :=
  clid.foldl (fun j b => b.toUInt64 + (j <<< 6) + (j <<< 16) - j) iaid.toUInt64

/-- `hash_to_addr6`. -/
def hashToAddr6 (hash : UInt64) (epoch : UInt32) (startLow endLow : UInt64) : UInt64 :=
  let range := endLow - startLow + 1
  let offset := hash + epoch.toUInt64
  if range = 0 then startLow + offset else startLow + offset % range

/-- The loop of `address6_allocate` over one range.  It stops when it is back at the first address,
after as many rounds as the range has addresses. -/
def scan6 (contexts : List DhcpContext6) (inUse : Ipv6Addr → Bool) (ctx : DhcpContext6)
    (startAddr : UInt64) :
    ℕ → UInt64 → Option Ipv6Addr
  | 0, _ => none
  | fuel + 1, addr =>
    let candidate := addr6WithHost ctx.start6 addr
    if !(contexts.any fun d => addr6part d.local6 = addr) && !inUse candidate then some candidate
    else
      let next := if addr = addr6part ctx.end6 then addr6part ctx.start6 else addr + 1
      if next = startAddr then none else scan6 contexts inUse ctx startAddr fuel next

/-- The search goes through the range. -/
def DhcpContext6.isSearched (ctx : DhcpContext6) (netids : List DhcpNetid) : Bool :=
  !ctx.flags.intersects
    (contextDeprecate ||| ContextFlags.static ||| contextRaStateless ||| contextUsed)
    && (ctx.filter.isEmpty || matchNetid ctx.filter netids)

/-- `address6_allocate`. -/
def address6Allocate (contexts : List DhcpContext6) (clid : Bytes) (iaid : UInt32)
    (netids : List DhcpNetid) (inUse : Ipv6Addr → Bool) : Option Ipv6Addr :=
  (contexts.filter (·.isSearched netids)).findSome? fun ctx =>
    let start := addr6part ctx.start6
    let finish := addr6part ctx.end6
    let startAddr := hashToAddr6 (sdbmHash64 clid iaid) ctx.addrEpoch start finish
    scan6 contexts inUse ctx startAddr ((finish - start).toNat + 1) startAddr

end DnsmasqRs.Dhcp6
