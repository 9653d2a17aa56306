import DnsmasqRs.DnsProtocol
import DnsmasqRs.Rfc1035.Name

/-!
# Questions, resource records and packets (`rfc1035.rs`)

`parse_question`, `parse_rr` and `DnsPacket::parse` with their encoders.  A parser takes the whole
packet and an offset, and returns what it read with the offset after it.

`parse_rr` decompresses the names inside the RDATA of five record types (`decompressRdata`) and
keeps the raw bytes where that fails.
-/

namespace DnsmasqRs.Rfc1035

open Wire Utf8 ByteCursor DnsProtocol

/-- `Option::ok_or`. -/
def okOr {α : Type} (o : Option α) (e : DnsError) : Except DnsError α :=
  match o with
  | some a => .ok a
  | none => .error e

/-- `DnsQuestion`. -/
structure DnsQuestion where
  name : Str
  qtype : UInt16
  qclass : UInt16
  deriving DecidableEq

/-- `DnsRr`. -/
structure DnsRr where
  name : Str
  rtype : UInt16
  rclass : UInt16
  ttl : UInt32
  rdata : Bytes
  deriving DecidableEq

/-- `parse_question`. -/
def parseQuestion (pkt : Bytes) (offset : ℕ) : Except DnsError (DnsQuestion × ℕ) := do
  let (name, pos) ← extractName pkt offset
  let qtype ← okOr (readU16Be pkt pos) .packetTooShort
  let qclass ← okOr (readU16Be pkt (pos + 2)) .packetTooShort
  return ({ name, qtype, qclass }, pos + 4)

/-- `write_question`. -/
def writeQuestion (q : DnsQuestion) : Bytes :=
  writeName q.name ++ be16 q.qtype ++ be16 q.qclass

/-- The record types whose RDATA is a single domain name: NS, CNAME and PTR. -/
def isNameType (rtype : UInt16) : Bool := rtype == 2 || rtype == 5 || rtype == 12

/-- The RDATA of `parse_rr` with its names decompressed, or `none` where the type is not one of NS,
CNAME, PTR, MX and SOA or a name does not decode. -/
def rewriteRdata (pkt : Bytes) (rdataStart : ℕ) (rtype : UInt16) (rawRdata : Bytes) :
    Option Bytes :=
  if isNameType rtype then
    match extractName pkt rdataStart with
    | .ok (n, _) => some (writeName n)
    | .error _ => none
  else if rtype = 15 then
    -- MX: 2-byte preference then a domain name
    match rawRdata with
    | p0 :: p1 :: _ =>
      match extractName pkt (rdataStart + 2) with
      | .ok (n, _) => some (be16 (ofBe16 p0 p1) ++ writeName n)
      | .error _ => none
    | _ => none
  else if rtype = 6 then
    -- SOA: MNAME, RNAME and 5 × u32 fixed fields
    match extractName pkt rdataStart with
    | .ok (mname, pos) =>
      match extractName pkt pos with
      | .ok (rname, pos) =>
        if pos + 20 ≤ pkt.length then
          some (writeName mname ++ writeName rname ++ (pkt.drop pos).take 20)
        else none
      | .error _ => none
    | .error _ => none
  else none

/-- The RDATA `parse_rr` stores: the rewritten one, or else the raw bytes. -/
def decompressRdata (pkt : Bytes) (rdataStart : ℕ) (rtype : UInt16) (rawRdata : Bytes) : Bytes :=
  (rewriteRdata pkt rdataStart rtype rawRdata).getD rawRdata

/-- `parse_rr`. -/
def parseRr (pkt : Bytes) (offset : ℕ) : Except DnsError (DnsRr × ℕ) := do
  let (name, pos) ← extractName pkt offset
  let rtype ← okOr (readU16Be pkt pos) .packetTooShort
  let rclass ← okOr (readU16Be pkt (pos + 2)) .packetTooShort
  let ttl ← okOr (readU32Be pkt (pos + 4)) .packetTooShort
  let rdlen ← okOr (readU16Be pkt (pos + 8)) .packetTooShort
  let rawRdata ← okOr (readSlice pkt (pos + 10) rdlen.toNat) .unexpectedEof
  return ({ name, rtype, rclass, ttl, rdata := decompressRdata pkt (pos + 10) rtype rawRdata },
    pos + 10 + rdlen.toNat)

/-- `write_rr`. -/
def writeRr (rr : DnsRr) : Bytes :=
  writeName rr.name ++ be16 rr.rtype ++ be16 rr.rclass ++ be32 rr.ttl
    ++ be16 (UInt16.ofNat rr.rdata.length) ++ rr.rdata

/-- `DnsPacket`. -/
structure DnsPacket where
  header : DnsHeader
  questions : List DnsQuestion
  answers : List DnsRr
  authority : List DnsRr
  additional : List DnsRr
  deriving DecidableEq

/-- One section loop of `DnsPacket::parse`: `count` items, one after the other. -/
def parseMany {α : Type} (parseOne : ℕ → Except DnsError (α × ℕ)) :
    ℕ → ℕ → Except DnsError (List α × ℕ)
  | 0, offset => .ok ([], offset)
  | count + 1, offset => do
    let (x, offset) ← parseOne offset
    let (xs, offset) ← parseMany parseOne count offset
    return (x :: xs, offset)

namespace DnsPacket

/-- `DnsPacket::parse`. -/
def parse (pkt : Bytes) : Except DnsError DnsPacket := do
  let header ← okOr (DnsHeader.fromBytes pkt) .packetTooShort
  let (questions, offset) ← parseMany (parseQuestion pkt) header.qdcount.toNat 12
  let (answers, offset) ← parseMany (parseRr pkt) header.ancount.toNat offset
  let (authority, offset) ← parseMany (parseRr pkt) header.nscount.toNat offset
  let (additional, _) ← parseMany (parseRr pkt) header.arcount.toNat offset
  return { header, questions, answers, authority, additional }

/-- The header `write` sends: the stored one with the counts of the stored sections. -/
def writeHeader (p : DnsPacket) : DnsHeader :=
  { p.header with
    qdcount := UInt16.ofNat p.questions.length
    ancount := UInt16.ofNat p.answers.length
    nscount := UInt16.ofNat p.authority.length
    arcount := UInt16.ofNat p.additional.length }

/-- `DnsPacket::write`. -/
def write (p : DnsPacket) : Bytes :=
  p.writeHeader.toBytes ++ p.questions.flatMap writeQuestion ++ p.answers.flatMap writeRr
    ++ p.authority.flatMap writeRr ++ p.additional.flatMap writeRr

end DnsPacket

end DnsmasqRs.Rfc1035
