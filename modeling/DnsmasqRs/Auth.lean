import DnsmasqRs.Dhcp6.Pool
import DnsmasqRs.Lib.NetText

/-!
# Authoritative zones (`auth.rs`)

The subnets of a zone: which of them an address is in, and the name that the records of the
authority section have in the reply to a reverse lookup.
-/

namespace DnsmasqRs.Auth

open Wire Utf8 NetText Dhcp Dhcp6

/-- `ADDRLIST_IPV6`. -/
def addrlistIpv6 : UInt32 := 2

/-- `Addrlist`, but for the time of a decline. -/
structure Addrlist where
  addr : AllAddr
  flags : UInt32
  prefixlen : ℤ

/-- The test of `find_addrlist` on one entry. -/
def Addrlist.matches (entry : Addrlist) (addr : AllAddr) : Bool :=
  match entry.addr, addr with
  | .addr4 net, .addr4 a =>
    let len := (max 0 (min entry.prefixlen 32)).toNat
    let mask : UInt32 := if len = 0 then 0 else 0xFFFFFFFF <<< UInt32.ofNat (32 - len)
    entry.flags &&& addrlistIpv6 = 0 && toU32 a &&& mask = toU32 net &&& mask
  -- is_same_net6_inline has the text of is_same_net6
  | .addr6 net, .addr6 a => entry.flags &&& addrlistIpv6 ≠ 0 && isSameNet6 a net entry.prefixlen
  | _, _ => false

/-- `find_addrlist`. -/
def findAddrlist (list : List Addrlist) (addr : AllAddr) : Option ℕ :=
  list.findIdx? (·.matches addr)

def octetLabel (o : UInt8) : Str := decimal o.toNat ++ ['.']

def nibbleLabel (nib : UInt8) : Str := [Nat.digitChar nib.toNat, '.']

/-- The loop of `reverse_zone_name` over the nibbles of an address, from `i - 1` down.  An index
past the end is a panic. -/
def reverseNibbles (bytes : Bytes) : (i : ℕ) → Option (List UInt8)
  | 0 => some []
  | i + 1 => do
    let dig ← bytes[i / 8]?
    return (if i / 4 % 2 = 1 then dig &&& 0x0f else dig >>> 4)
      :: (← reverseNibbles bytes (i + 1 - 4))

/-- `reverse_zone_name`. -/
def reverseZoneName (subnet : Addrlist) : Option Str :=
  match subnet.addr with
  | .addr4 ip =>
    let o := ip.octets
    some ((if 24 ≤ subnet.prefixlen then octetLabel o[2]! else [])
      ++ (if 16 ≤ subnet.prefixlen then octetLabel o[1]! else []) ++ octetLabel o[0]!
        ++ "in-addr.arpa".toList)
  | .addr6 ip => do
    return (← reverseNibbles ip.octets.toList subnet.prefixlen.toNat).flatMap nibbleLabel
      ++ "ip6.arpa".toList
  | _ => some []

end DnsmasqRs.Auth
