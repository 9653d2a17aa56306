import DnsmasqRs.Lib.NetText
import DnsmasqRs.Lib.Unicode
import DnsmasqRs.Types
import DnsmasqRs.Rfc1035.Packet

/-!
# Addresses in answers (`rfc1035.rs`)

The private-address tests of the rebind protection, the address ranges of `--bogus-nxdomain` and
`--ignore-address`, and the addresses in reverse-lookup names.
-/

namespace DnsmasqRs.Rfc1035

open Wire Utf8 NetText

/-- `private_net`. -/
def privateNet (addr : Ipv4Addr) (banLocalhost : Bool) : Bool :=
  let o := addr.octets
  o[0]! == 10
    || (o[0]! == 172 && o[1]! &&& 0xF0 == 0x10)
    || (o[0]! == 192 && o[1]! == 168)
    || (o[0]! == 169 && o[1]! == 254)
    || (banLocalhost && o[0]! == 127)

/-- `private_net6`. -/
def privateNet6 (addr : Ipv6Addr) (banLocalhost : Bool) : Bool :=
  let b := addr.octets
  b[0] &&& 0xFE == 0xFC
    || (b[0] == 0xFE && b[1] &&& 0xC0 == 0x80)
    || (banLocalhost && addr == Ipv6Addr.localhost)

/-- `addr_in_bogus_range`: the first `prefix` bits agree, in the address family of the range. -/
def addrInBogusRange (addr : IpAddr) (ba : BogusAddr) : Bool :=
  match addr, ba.addr with
  | .v4 ip, .v4 baIp =>
    if ba.is6 then false
    else
      let pfx := (max 0 (min ba.pfx 32)).toNat
      let mask : UInt32 :=
        if pfx = 0 then 0
        else if 32 ≤ pfx then 0xFFFFFFFF
        else ~~~((1 <<< UInt32.ofNat (32 - pfx)) - 1)
      let a := ip.octets
      let b := baIp.octets
      ofBe32 a[0]! a[1]! a[2]! a[3]! &&& mask == ofBe32 b[0]! b[1]! b[2]! b[3]! &&& mask
  | .v6 ip, .v6 baIp =>
    if !ba.is6 then false
    else
      let pfx := (max 0 (min ba.pfx 128)).toNat
      let full := pfx / 8
      let rem := pfx % 8
      let ib := ip.octets.toList
      let bb := baIp.octets.toList
      if ib.take full ≠ bb.take full then false
      else if 0 < rem ∧ full < 16 then
        let mask : UInt8 := ~~~((1 <<< UInt8.ofNat (8 - rem)) - 1)
        ib.getD full 0 &&& mask == bb.getD full 0 &&& mask
      else true
  | _, _ => false

/-- `answer_address`. -/
def answerAddress (rr : DnsRr) : Option IpAddr :=
  if rr.rclass ≠ 1 then none
  else if rr.rtype = 1 then (Ipv4Addr.ofBytes rr.rdata).map .v4
  else if rr.rtype = 28 then (Ipv6Addr.ofBytes rr.rdata).map .v6
  else none

/-- `find_bad_address`. -/
def findBadAddress (packet : DnsPacket) (ranges : List BogusAddr) : Option (Str × UInt32) :=
  packet.answers.findSome? fun rr =>
    match answerAddress rr with
    | none => none
    | some addr => if ranges.any (addrInBogusRange addr) then some (rr.name, rr.ttl) else none

/-- `check_for_ignored_address`. -/
def checkForIgnoredAddress (packet : DnsPacket) (ignoreAddrs : List BogusAddr) : Bool :=
  (findBadAddress packet ignoreAddrs).isSome

/-! ### Reverse-lookup names -/

/-- `str::strip_suffix`. -/
def stripSuffix (s sfx : Str) : Option Str :=
  if sfx <:+ s then some (s.take (s.length - sfx.length)) else none

/-- The bytes of pairs of nibbles, the high one first. -/
def joinNibbles : List ℕ → Bytes
  | hi :: lo :: rest => UInt8.ofNat (hi * 16 + lo) :: joinNibbles rest
  | _ => []

/-- `in_arpa_name_2_addr`. -/
def inArpaName2Addr (name : Str) : Option AllAddr :=
  let lower := toLowercase name
  let lower := (stripSuffix lower ['.']).getD lower
  match stripSuffix lower ".in-addr.arpa".toList with
  | some rest =>
    let parts := splitLabels rest
    if parts.length ≠ 4 then none
    else do
      -- the octets stand in reverse order
      let octets ← parts.reverse.mapM (parseUint 10 256)
      return .addr4 (← Ipv4Addr.ofBytes (octets.map UInt8.ofNat))
  | none => do
    let rest ← stripSuffix lower ".ip6.arpa".toList
    let nibbles ← (splitLabels rest).mapM fun s =>
      if byteLen s = 1 then parseUint 16 256 s else none
    if nibbles.length ≠ 32 then none
    else return .addr6 (← Ipv6Addr.ofBytes (joinNibbles nibbles.reverse))

end DnsmasqRs.Rfc1035
