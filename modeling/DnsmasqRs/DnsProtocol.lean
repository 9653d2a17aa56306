import DnsmasqRs.ByteCursor

/-!
# The DNS header (`dns_protocol/mod.rs`)

The twelve-byte message header with its flag bytes `hb3`/`hb4` and the four section counts, and
its two hand-written codecs.  `fromBytes_toBytes_append` is the round trip.
-/

namespace DnsmasqRs.DnsProtocol

open Wire ByteCursor List

def hb3Qr : UInt8 := 0x80
def hb3Opcode : UInt8 := 0x78
def hb3Aa : UInt8 := 0x04
def hb3Tc : UInt8 := 0x02

def hb4Ra : UInt8 := 0x80
def hb4Ad : UInt8 := 0x20
def hb4Cd : UInt8 := 0x10
def hb4Rcode : UInt8 := 0x0f

/-- `DnsHeader`: the on-wire packet header. -/
structure DnsHeader where
  id : UInt16
  hb3 : UInt8
  hb4 : UInt8
  qdcount : UInt16
  ancount : UInt16
  nscount : UInt16
  arcount : UInt16
  deriving DecidableEq

namespace DnsHeader

/-- `DnsHeader::opcode`. -/
def opcode (h : DnsHeader) : UInt8 := (h.hb3 &&& hb3Opcode) >>> 3

/-- `DnsHeader::rcode`. -/
def rcode (h : DnsHeader) : UInt8 := h.hb4 &&& hb4Rcode

/-- `DnsHeader::set_rcode`. -/
def setRcode (h : DnsHeader) (code : UInt8) : DnsHeader :=
  { h with hb4 := (h.hb4 &&& ~~~hb4Rcode) ||| code }

/-- `DnsHeader::from_bytes`. -/
def fromBytes : Bytes → Option DnsHeader
  | i0 :: i1 :: hb3 :: hb4 :: q0 :: q1 :: a0 :: a1 :: n0 :: n1 :: r0 :: r1 :: _ =>
    some {
      id := ofBe16 i0 i1
      hb3 := hb3
      hb4 := hb4
      qdcount := ofBe16 q0 q1
      ancount := ofBe16 a0 a1
      nscount := ofBe16 n0 n1
      arcount := ofBe16 r0 r1 }
  | _ => none

/-- `DnsHeader::to_bytes`. -/
def toBytes (h : DnsHeader) : Bytes :=
  be16 h.id ++ [h.hb3, h.hb4] ++ be16 h.qdcount ++ be16 h.ancount ++ be16 h.nscount
    ++ be16 h.arcount

@[simp] theorem length_toBytes (h : DnsHeader) : h.toBytes.length = 12 := rfl

theorem fromBytes_toBytes_append : fromBytes (h.toBytes ++ rest) = some h := by
  simp only [toBytes, be16, cons_append, nil_append, fromBytes, ofBe16_be16]

theorem le_length_of_fromBytes (hh : fromBytes pkt = some h) : 12 ≤ pkt.length := by
  unfold fromBytes at hh
  split at hh
  · simp only [length_cons]
    omega
  · cases hh

theorem exists_toBytes_append (hlen : 12 ≤ pkt.length) :
    ∃ (h : DnsHeader) (rest : Bytes), pkt = h.toBytes ++ rest := by
  cases hh : fromBytes pkt with
  | some h =>
    refine ⟨h, pkt.drop 12, ?_⟩
    unfold fromBytes at hh
    split at hh
    · obtain rfl := Option.some.inj hh
      simp only [toBytes, be16_ofBe16, cons_append, nil_append, drop_succ_cons, drop_zero]
    · cases hh
  | none =>
    rcases pkt with _ | ⟨i0, _ | ⟨i1, _ | ⟨hb3, _ | ⟨hb4, _ | ⟨q0, _ | ⟨q1, _ | ⟨a0, _ | ⟨a1, _ |
      ⟨n0, _ | ⟨n1, _ | ⟨r0, _ | ⟨r1, rest⟩⟩⟩⟩⟩⟩⟩⟩⟩⟩⟩⟩ <;> simp [fromBytes] at hlen hh

theorem readU16Be_qdcount (hh : fromBytes pkt = some h) : readU16Be pkt 4 = some h.qdcount := by
  unfold fromBytes at hh
  split at hh
  · obtain rfl := Option.some.inj hh
    rfl
  · cases hh

end DnsHeader

end DnsmasqRs.DnsProtocol
