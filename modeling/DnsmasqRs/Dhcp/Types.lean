import DnsmasqRs.Types

/-!
# DHCP types (`types/dhcp.rs`, `dhcp_protocol`, `dhcp.rs`)

Packets, leases, address ranges and host entries, with the fields that the choice of an address and
the lease database read.  What only goes into the options of a reply is left out.
-/

namespace DnsmasqRs.Dhcp

open Wire Utf8

/-! ### Addresses as numbers -/

/-- `u32::from(addr)`. -/
def toU32 (addr : Ipv4Addr) : UInt32 :=
  ofBe32 addr.octets[0] addr.octets[1] addr.octets[2] addr.octets[3]

/-- `Ipv4Addr::from(n)`. -/
def ofU32 (n : UInt32) : Ipv4Addr :=
  ⟨#v[UInt8.ofNat (n.toNat / 16777216), UInt8.ofNat (n.toNat / 65536 % 256),
    UInt8.ofNat (n.toNat / 256 % 256), UInt8.ofNat (n.toNat % 256)]⟩

/-- `is_same_net`. -/
def isSameNet (a b netmask : Ipv4Addr) : Bool :=
  toU32 a &&& toU32 netmask == toU32 b &&& toU32 netmask

/-! ### Packets -/

/-- `DHCP_CHADDR_MAX`. -/
def dhcpChaddrMax : ℕ := 16

def optionPad : UInt8 := 0
def optionHostname : UInt8 := 12
def optionRequestedIp : UInt8 := 50
def optionMessageType : UInt8 := 53
def optionVendorId : UInt8 := 60
def optionClientId : UInt8 := 61
def optionUserClass : UInt8 := 77
def optionRapidCommit : UInt8 := 80
def optionAgentId : UInt8 := 82
def optionEnd : UInt8 := 255

/-- `DhcpMsgType`. -/
inductive DhcpMsgType where
  | bootp | discover | offer | request | decline | ack | nak | release | inform | forceRenew
  | leaseQuery | leaseUnassigned | leaseUnknown | leaseActive
  deriving DecidableEq

/-- `DhcpMsgType::from_u8`. -/
def DhcpMsgType.fromU8 (v : UInt8) : Option DhcpMsgType :=
  match v.toNat with
  | 1 => some .discover
  | 2 => some .offer
  | 3 => some .request
  | 4 => some .decline
  | 5 => some .ack
  | 6 => some .nak
  | 7 => some .release
  | 8 => some .inform
  | 9 => some .forceRenew
  | 10 => some .leaseQuery
  | 11 => some .leaseUnassigned
  | 12 => some .leaseUnknown
  | 13 => some .leaseActive
  | _ => none

/-- `DhcpPacket`, with the fields that are read. -/
structure DhcpPacket where
  htype : UInt8
  hlen : UInt8
  ciaddr : Ipv4Addr
  giaddr : Ipv4Addr
  chaddr : Vector UInt8 16
  file : Vector UInt8 128
  options : Bytes
  deriving DecidableEq

/-- The length of the hardware address, `hw_len`. -/
def DhcpPacket.hwLen (pkt : DhcpPacket) : ℕ := min pkt.hlen.toNat dhcpChaddrMax

/-- The hardware address, `&pkt.chaddr[..hw_len]`. -/
def DhcpPacket.hwaddr (pkt : DhcpPacket) : Bytes := pkt.chaddr.toList.take pkt.hwLen

/-- `DhcpReply`, with the message type and the addresses.  `decorate_reply` fills in the options,
the boot file and the next server, and leaves these as they are. -/
structure DhcpReply where
  msgType : DhcpMsgType
  yiaddr : Ipv4Addr
  giaddr : Ipv4Addr
  deriving DecidableEq

/-- `DispatchedDhcpReply`. -/
structure DispatchedDhcpReply where
  reply : DhcpReply
  delaySecs : UInt32
  deriving DecidableEq

/-! ### Leases -/

/-- `SystemTime`, in nanoseconds since the epoch. -/
abbrev SystemTime := ℕ

/-- `LeaseFlags`. -/
abbrev LeaseFlags := UInt32

namespace LeaseFlags

def new : LeaseFlags := 0x001
def changed : LeaseFlags := 0x002
def auxChanged : LeaseFlags := 0x004
def authName : LeaseFlags := 0x008
def na : LeaseFlags := 0x020
def ta : LeaseFlags := 0x040
def haveHwaddr : LeaseFlags := 0x080
def expChanged : LeaseFlags := 0x100

/-- `LeaseFlags::intersects`. -/
def intersects (flags f : LeaseFlags) : Bool := flags &&& f != 0

/-- `LeaseFlags::contains`. -/
def contains (flags f : LeaseFlags) : Bool := flags &&& f == f

end LeaseFlags

/-- `DhcpLease`, with the fields that DHCP writes.  `hwaddr` is cut to its length. -/
structure DhcpLease where
  clid : Option Bytes := none
  hostname : Option Str := none
  oldHostname : Option Str := none
  flags : LeaseFlags := 0
  expires : Option SystemTime := none
  hwaddr : Bytes := []
  hwaddrType : ℤ := 0
  addr : Ipv4Addr := .unspecified
  lastInterface : ℤ := 0
  addr6 : Ipv6Addr := .unspecified
  iaid : UInt32 := 0
  deriving DecidableEq

/-! ### Configuration -/

/-- `DhcpNetid`: a tag. -/
abbrev DhcpNetid := Str

/-- `ConfigFlags`. -/
abbrev ConfigFlags := UInt32

namespace ConfigFlags

def disable : ConfigFlags := 0x001
def clid : ConfigFlags := 0x002
def time : ConfigFlags := 0x008
def name : ConfigFlags := 0x010
def addr : ConfigFlags := 0x020

/-- `ConfigFlags::contains`. -/
def contains (flags f : ConfigFlags) : Bool := flags &&& f == f

end ConfigFlags

/-- `ContextFlags`. -/
abbrev ContextFlags := UInt32

namespace ContextFlags

def static : ContextFlags := 0x001
def netmask : ContextFlags := 0x002
def brdcast : ContextFlags := 0x004
def proxy : ContextFlags := 0x008

/-- `ContextFlags::contains`. -/
def contains (flags f : ContextFlags) : Bool := flags &&& f == f

/-- `ContextFlags::intersects`. -/
def intersects (flags f : ContextFlags) : Bool := flags &&& f != 0

end ContextFlags

/-- `HwaddrConfig`. -/
structure HwaddrConfig where
  hwaddr : Vector UInt8 16
  hwaddrLen : ℤ
  hwaddrType : ℤ
  wildcardMask : UInt32
  deriving DecidableEq

/-- `DhcpConfig`: a host entry. -/
structure DhcpConfig where
  flags : ConfigFlags := 0
  clid : Option Bytes := none
  hostname : Option Str := none
  netid : List DhcpNetid := []
  filter : List DhcpNetid := []
  addr : Ipv4Addr := .unspecified
  leaseTime : UInt32 := 0
  hwaddrs : List HwaddrConfig := []
  deriving DecidableEq

/-- `DhcpContext`: an address range. -/
structure DhcpContext where
  leaseTime : UInt32
  addrEpoch : UInt32 := 0
  netmask : Ipv4Addr := .unspecified
  broadcast : Ipv4Addr := .unspecified
  localAddr : Ipv4Addr := .unspecified
  router : Ipv4Addr := .unspecified
  start : Ipv4Addr
  finish : Ipv4Addr
  flags : ContextFlags := 0
  filter : List DhcpNetid := []
  deriving DecidableEq

/-- `DhcpVendorRule`. -/
structure DhcpVendorRule where
  netid : DhcpNetid
  vendorClass : Bytes
  deriving DecidableEq

/-- `DhcpUserClassRule`. -/
structure DhcpUserClassRule where
  netid : DhcpNetid
  userClass : Bytes
  deriving DecidableEq

/-- `DhcpMacRule`. -/
structure DhcpMacRule extends HwaddrConfig where
  netid : DhcpNetid
  deriving DecidableEq

/-- `DhcpRelayIdRule`. -/
structure DhcpRelayIdRule where
  netid : DhcpNetid
  subopt : UInt8
  data : Bytes
  deriving DecidableEq

/-- `DhcpMatchName`. -/
structure DhcpMatchName where
  netid : DhcpNetid
  name : Str
  wildcard : Bool
  deriving DecidableEq

/-- `DhcpReplyDelay`. -/
structure DhcpReplyDelay where
  delaySecs : UInt32
  filter : List DhcpNetid
  deriving DecidableEq

/-- `DhOptFlags`. -/
abbrev DhOptFlags := UInt32

namespace DhOptFlags

def string : DhOptFlags := 0x002
def hex : DhOptFlags := 0x200

/-- `DhOptFlags::contains`. -/
def contains (flags f : DhOptFlags) : Bool := flags &&& f == f

end DhOptFlags

/-- `DhcpOpt`, as a rule of `--dhcp-match`. -/
structure DhcpOpt where
  opt : ℤ
  flags : DhOptFlags
  val : Option Bytes
  netid : List DhcpNetid
  deriving DecidableEq

/-- `DhcpServerConfig`, without what only the options of a reply, the relays and the scripts read.
-/
structure DhcpServerConfig where
  poolStart : Ipv4Addr
  poolEnd : Ipv4Addr
  configs : List DhcpConfig := []
  vendorRules : List DhcpVendorRule := []
  userClassRules : List DhcpUserClassRule := []
  macRules : List DhcpMacRule := []
  relayIdRules : List DhcpRelayIdRule := []
  replyDelays : List DhcpReplyDelay := []
  contexts : List DhcpContext := []
  matchRules : List DhcpOpt := []
  nameMatchRules : List DhcpMatchName := []
  noPing : Bool := false
  consecAddr : Bool := false
  dhcpIgnore : List (List DhcpNetid) := []
  bootpDynamic : List (List DhcpNetid) := []
  rapidCommit : Bool := false
  leasequeryAddr : List BogusAddr := []
  leasequeryEnabled : Bool := false
  leasequerySource : Ipv4Addr := .unspecified
  deriving DecidableEq

end DnsmasqRs.Dhcp
