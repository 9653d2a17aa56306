import DnsmasqRs.Types
import DnsmasqRs.Rfc1035.Name
import DnsmasqRs.DnsProtocol

/-!
# The OPT pseudo-record (`edns0.rs`)

`find_pseudoheader` walks over the sections with `skip_name` and reads the first OPT record of the
additional section; `calc_subnet_opt` makes the client-subnet option for a client.
-/

namespace DnsmasqRs.Edns0

open Wire ByteCursor DnsProtocol Rfc1035

/-- `EDNS0_OPTION_CLIENT_SUBNET`. -/
def edns0OptionClientSubnet : UInt16 := 8

/-- `Edns0Option`. -/
structure Edns0Option where
  code : UInt16
  data : Bytes
  deriving DecidableEq

/-- `Edns0Info`. -/
structure Edns0Info where
  offset : ℕ
  udpSize : UInt16
  extRcode : UInt8
  version : UInt8
  flags : UInt16
  options : List Edns0Option
  deriving DecidableEq

/-! ### Walking over records -/

/-- The ten bytes behind the owner name of a record.  The TTL is split as an OPT record has it. -/
structure RrFixed where
  rtype : UInt16
  rclass : UInt16
  extRcode : UInt8
  version : UInt8
  flags : UInt16
  rdlen : ℕ
  deriving DecidableEq

/-- The fixed part of a record at `pos`, or `none` if the packet ends before it does. -/
def rrFixed (pkt : Bytes) (pos : ℕ) : Option RrFixed :=
  match readSlice pkt pos 10 with
  | some [t0, t1, c0, c1, e, v, f0, f1, l0, l1] =>
    some {
      rtype := ofBe16 t0 t1
      rclass := ofBe16 c0 c1
      extRcode := e
      version := v
      flags := ofBe16 f0 f1
      rdlen := (ofBe16 l0 l1).toNat }
  | _ => none

/-- `skip_questions`. -/
def skipQuestions (pkt : Bytes) : ℕ → ℕ → Except DnsError ℕ
  | 0, offset => .ok offset
  | count + 1, offset => do
    let pos ← skipName pkt offset
    if pkt.length < pos + 4 then .error .packetTooShort else skipQuestions pkt count (pos + 4)

/-- `skip_rrs`. -/
def skipRrs (pkt : Bytes) : ℕ → ℕ → Except DnsError ℕ
  | 0, offset => .ok offset
  | count + 1, offset => do
    let pos ← skipName pkt offset
    match rrFixed pkt pos with
    | none => .error .packetTooShort
    | some f =>
      if pkt.length < pos + 10 + f.rdlen then .error .unexpectedEof
      else skipRrs pkt count (pos + 10 + f.rdlen)

/-- `parse_opt_options`, from a position. -/
def parseOptOptions (data : Bytes) (pos : ℕ) : Except DnsError (List Edns0Option) :=
  if pos < data.length then
    match readU16Be data pos, readU16Be data (pos + 2) with
    | some code, some len =>
      match readSlice data (pos + 4) len.toNat with
      | none => .error .unexpectedEof
      | some payload => do
        let rest ← parseOptOptions data (pos + 4 + len.toNat)
        return { code, data := payload } :: rest
    | _, _ => .error .unexpectedEof
  else .ok []
  termination_by data.length - pos

/-- `build_opt_rdata`. -/
def buildOptRdata (options : List Edns0Option) : Bytes :=
  options.flatMap fun opt => be16 opt.code ++ be16 (UInt16.ofNat opt.data.length) ++ opt.data

/-- The loop of `find_pseudoheader` over the additional section. -/
def findOpt (pkt : Bytes) : ℕ → ℕ → Option Edns0Info
  | 0, _ => none
  | count + 1, offset => do
    let pos ← (skipName pkt offset).toOption
    let f ← rrFixed pkt pos
    let data ← readSlice pkt (pos + 10) f.rdlen
    if f.rtype = 41 then
      let options ← (parseOptOptions data 0).toOption
      return {
        offset, udpSize := f.rclass, extRcode := f.extRcode, version := f.version
        flags := f.flags, options }
    else findOpt pkt count (pos + 10 + f.rdlen)

/-- `find_pseudoheader`. -/
def findPseudoheader (pkt : Bytes) : Option Edns0Info := do
  let hdr ← DnsHeader.fromBytes pkt
  let offset ← (skipQuestions pkt hdr.qdcount.toNat 12).toOption
  let offset ← (skipRrs pkt hdr.ancount.toNat offset).toOption
  let offset ← (skipRrs pkt hdr.nscount.toNat offset).toOption
  findOpt pkt hdr.arcount.toNat offset

/-! ### Writing the pseudo-record -/

/-- The OPT record `add_pseudoheader` appends. -/
def optRecord (udpSize flags : UInt16) (options : List Edns0Option) : Bytes :=
  let rdata := buildOptRdata options
  [0x00] ++ be16 41 ++ be16 udpSize ++ [0, 0] ++ be16 flags ++ be16 (UInt16.ofNat rdata.length)
    ++ rdata

/-! ### The client subnet -/

/-- `AddSubnetOpt`. -/
structure AddSubnetOpt where
  mask : UInt8
  constAddr : Option IpAddr
  deriving DecidableEq

/-- `SubnetOpt`, with `addr` cut to its significant bytes.  The scope is always zero. -/
structure SubnetOpt where
  family : UInt16
  sourceNetmask : UInt8
  addr : Bytes
  deriving DecidableEq

/-- The family and the address bytes of an address, padded to sixteen. -/
def familyOctets : IpAddr → UInt16 × Bytes
  | .v4 ip => (1, ip.octets.toList ++ List.replicate 12 0)
  | .v6 ip => (2, ip.octets.toList)

/-- The leading `mask` bits of an address, as whole bytes with the rest of the last one cleared. -/
def maskedOctets (full : Bytes) (mask : UInt8) : Bytes :=
  let len := min ((mask.toNat - 1) / 8 + 1) 16
  let addr := full.take len
  if mask &&& 7 ≠ 0 then addr.modify (len - 1) (· &&& (0xFF <<< (8 - (mask &&& 7)))) else addr

/-- `calc_subnet_opt`: the option and whether it is the same for every client. -/
def calcSubnetOpt (source : IpAddr) (addSubnet4 addSubnet6 : Option AddSubnetOpt) :
    SubnetOpt × Bool :=
  let sub := match source with
    | .v4 _ => addSubnet4
    | .v6 _ => addSubnet6
  match sub with
  | none => ({ family := (familyOctets source).1, sourceNetmask := 0, addr := [] }, true)
  | some sub =>
    let (family, full) := familyOctets (sub.constAddr.getD source)
    if sub.mask = 0 then ({ family, sourceNetmask := 0, addr := [] }, true)
    else
      ({ family, sourceNetmask := sub.mask, addr := maskedOctets full sub.mask },
        sub.constAddr.isSome)

end DnsmasqRs.Edns0
