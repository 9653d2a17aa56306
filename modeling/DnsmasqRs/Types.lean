import DnsmasqRs.Lib.Utf8

/-!
# Shared types (`types/`)

IP and socket addresses, the payloads and `F_*` flags of records, upstream-server entries with their
`SERV_*` flags, and the address ranges of `--bogus-nxdomain` and `--ignore-address`.
-/

namespace DnsmasqRs

open Wire Utf8

/-! ### Addresses -/

/-- `Ipv4Addr`, as its octets. -/
structure Ipv4Addr where
  octets : Vector UInt8 4
  deriving DecidableEq

/-- `Ipv6Addr`, as its octets. -/
structure Ipv6Addr where
  octets : Vector UInt8 16
  deriving DecidableEq

/-- The address in the first four bytes, if there are that many. -/
def Ipv4Addr.ofBytes (b : Bytes) : Option Ipv4Addr :=
  if h : 4 ≤ b.length then some ⟨⟨(b.take 4).toArray, by simp; omega⟩⟩ else none

/-- The address in the first sixteen bytes, if there are that many. -/
def Ipv6Addr.ofBytes (b : Bytes) : Option Ipv6Addr :=
  if h : 16 ≤ b.length then some ⟨⟨(b.take 16).toArray, by simp; omega⟩⟩ else none

/-- `Ipv4Addr::new`. -/
def Ipv4Addr.new (a b c d : UInt8) : Ipv4Addr := ⟨#v[a, b, c, d]⟩

/-- `Ipv4Addr::UNSPECIFIED`. -/
def Ipv4Addr.unspecified : Ipv4Addr := ⟨Vector.replicate 4 0⟩

/-- `Ipv6Addr::UNSPECIFIED`. -/
def Ipv6Addr.unspecified : Ipv6Addr := ⟨Vector.replicate 16 0⟩

/-- `Ipv6Addr::LOCALHOST`. -/
def Ipv6Addr.localhost : Ipv6Addr := ⟨⟨#[0, 0, 0, 0, 0, 0, 0, 0, 0, 0, 0, 0, 0, 0, 0, 1], rfl⟩⟩

/-- `IpAddr`. -/
inductive IpAddr where
  | v4 (addr : Ipv4Addr)
  | v6 (addr : Ipv6Addr)
  deriving DecidableEq

/-- `SocketAddr`. -/
structure SocketAddr where
  ip : IpAddr
  port : UInt16
  deriving DecidableEq

/-- `BogusAddr`: a range of addresses, by prefix length. -/
structure BogusAddr where
  is6 : Bool
  pfx : Int
  addr : IpAddr
  deriving DecidableEq

/-! ### Time -/

/-- `Instant`, in nanoseconds since some fixed moment.  `Instant::duration_since` saturates, so it
is the subtraction of natural numbers. -/
abbrev Instant := ℕ

/-- `Duration::from_secs`. -/
def fromSecs (n : ℕ) : ℕ := n * 1000000000

/-! ### Record and query flags (`types/constants.rs`) -/

def fImmortal : UInt32 := 0x00000001
def fReverse : UInt32 := 0x00000004
def fForward : UInt32 := 0x00000008
def fDhcp : UInt32 := 0x00000010
def fNeg : UInt32 := 0x00000020
def fHosts : UInt32 := 0x00000040
def fIpv4 : UInt32 := 0x00000080
def fIpv6 : UInt32 := 0x00000100
def fNxdomain : UInt32 := 0x00000400
def fCname : UInt32 := 0x00000800
def fDnskey : UInt32 := 0x00001000
def fConfig : UInt32 := 0x00002000
def fDs : UInt32 := 0x00004000
def fDnssecok : UInt32 := 0x00008000
def fServer : UInt32 := 0x00040000
def fNoerr : UInt32 := 0x00100000
def fDnssec : UInt32 := 0x00400000
def fKeytag : UInt32 := 0x00800000
def fDomainsrv : UInt32 := 0x10000000
def fRr : UInt32 := 0x40000000

/-- `UID_NONE`. -/
def uidNone : UInt32 := 0

/-! ### Record payloads (`types/addr.rs`) -/

/-- `CnameAddr`. -/
structure CnameAddr where
  isNamePtr : Bool
  targetName : Option Str
  uid : UInt32
  deriving DecidableEq

/-- `AllAddr`. -/
inductive AllAddr where
  | addr4 (addr : Ipv4Addr)
  | addr6 (addr : Ipv6Addr)
  | cname (target : CnameAddr)
  | key (keydata : Bytes) (keylen flags keytag : UInt16) (algo : UInt8)
  | ds (keydata : Bytes) (keylen keytag : UInt16) (algo digest : UInt8)
  | log (keytag algo digest rcode : UInt16) (ede : ℤ)
  | rrBlock (rrtype : UInt16) (rrdata : Bytes)
  | rrData (rrtype : UInt16) (data : Bytes)
  deriving DecidableEq

/-- `AllAddr::as_ip`. -/
def AllAddr.asIp : AllAddr → Option IpAddr
  | .addr4 a => some (.v4 a)
  | .addr6 a => some (.v6 a)
  | _ => none

/-! ### Panics -/

/-- What makes the code panic. -/
inductive Fault where
  /-- A slice off a character boundary. -/
  | slice
  /-- An index out of range. -/
  | index
  /-- Arithmetic that wraps around. -/
  | overflow
  deriving DecidableEq

/-- A slice, which panics off a character boundary. -/
def orSlice {α : Type} : Option α → Except Fault α
  | none => .error .slice
  | some a => .ok a

/-! ### Upstream servers -/

/-- `ServFlags`. -/
abbrev ServFlags := UInt16

namespace ServFlags

def useResolv : ServFlags := 0x0001
def literalAddress : ServFlags := 0x0002
def allZeros : ServFlags := 0x0004
def addr4 : ServFlags := 0x0008
def addr6 : ServFlags := 0x0010
def forNodots : ServFlags := 0x0040
def wildcard : ServFlags := 0x0400
def loop : ServFlags := 0x2000

/-- `ServFlags::contains`. -/
def contains (flags f : ServFlags) : Bool := flags &&& f == f

/-- `ServFlags::intersects`. -/
def intersects (flags f : ServFlags) : Bool := flags &&& f != 0

end ServFlags

/-- `Server`, with the fields server selection, local answers and loop detection read. -/
structure Server where
  flags : ServFlags
  domain : Str
  /-- `addr.ip()`. -/
  addr : IpAddr
  uid : UInt32 := 0
  deriving DecidableEq

end DnsmasqRs
