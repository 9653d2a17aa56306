import DnsmasqRs.Edns0

/-!
# Taking records out of a packet (`rrfilter.rs`)

`filter_with` goes over the packet four times: it marks the byte ranges of the records to elide,
checks that no name that stays points into one of them, rewrites the pointers that stay, and moves
the bytes down.  A packet with a name that would break is left as it is.

The names inside RDATA are found by record type (`rrfilterDesc`), for class IN only.
-/

namespace DnsmasqRs.Rrfilter

open Wire ByteCursor DnsProtocol Rfc1035 Edns0

/-- `Elided`: the byte ranges of the records that go, in ascending order. -/
abbrev Elided := List (ℕ × ℕ)

/-- The loop of `shift_offset`, with the bytes elided so far. -/
def shiftOffsetLoop (off : ℕ) : Elided → ℕ → Option ℕ
  | [], delta => some (off - delta)
  | (start, finish) :: rest, delta =>
    if off < start then some (off - delta)
    else if off < finish then none
    else shiftOffsetLoop off rest (delta + (finish - start))

/-- `shift_offset`: where an offset goes, or `none` inside a range. -/
def shiftOffset (elided : Elided) (off : ℕ) : Option ℕ := shiftOffsetLoop off elided 0

/-- The pointer bytes for an offset. -/
def pointerBytes (off : ℕ) : Bytes := [UInt8.ofNat (off / 256) ||| 0xC0, UInt8.ofNat (off % 256)]

/-- `check_name`: the packet, with the pointer rewritten if `fixup` is set, and the offset past the
name.  `none` is the result `false`. -/
def checkName (pkt : Bytes) (pos : ℕ) (elided : Elided) (fixup : Bool) : Option (Bytes × ℕ) :=
  match readU8 pkt pos with
  | none => none
  | some b =>
    if b &&& 0xC0 = 0xC0 then
      match readU8 pkt (pos + 1) with
      | none => none
      | some low =>
        match shiftOffset elided ((b &&& 0x3F).toNat * 256 + low.toNat) with
        | none => none
        | some shifted =>
          some (if fixup then splice pkt pos (pointerBytes shifted) else pkt, pos + 2)
    else if b &&& 0xC0 = 0x80 then none
    else if b &&& 0xC0 = 0x40 then
      -- a bit-string label
      match readU8 pkt (pos + 1) with
      | none => none
      | some count =>
        let size := if count = 0 then 32 else (count.toNat - 1) / 8 + 1
        if b &&& 0x3F ≠ 1 ∨ pkt.length < pos + 2 + size then none
        else checkName pkt (pos + 2 + size) elided fixup
    else
      let len := (b &&& 0x3F).toNat
      if pkt.length < pos + 1 + len then none
      else if len = 0 then some (pkt, pos + 1)
      else checkName pkt (pos + 1 + len) elided fixup
  termination_by pkt.length - pos

/-- A step through the RDATA of a record. -/
inductive DescStep where
  /-- A name starts here. -/
  | name
  /-- That many fixed bytes. -/
  | skip (n : ℕ)
  deriving DecidableEq

/-- `rrfilter_desc`. -/
def rrfilterDesc (rtype : UInt16) : List DescStep :=
  if rtype ∈ [2, 3, 4, 5, 7, 8, 9, 12, 30, 39] then [.name]
  else if rtype ∈ [6, 14, 17] then [.name, .name]
  else if rtype ∈ [15, 18, 21, 36] then [.skip 2, .name]
  else if rtype = 24 then [.skip 18, .name]
  else if rtype = 26 then [.skip 2, .name, .name]
  else if rtype = 33 then [.skip 6, .name]
  else []

/-- The loop of `check_rrs` over the names in the RDATA of a record. -/
def checkRdata (elided : Elided) (fixup : Bool) : List DescStep → Bytes → ℕ → Option Bytes
  | [], pkt, _ => some pkt
  | .skip n :: rest, pkt, pos =>
    if pkt.length < pos + n then none else checkRdata elided fixup rest pkt (pos + n)
  | .name :: rest, pkt, pos => do
    let (pkt, pos) ← checkName pkt pos elided fixup
    checkRdata elided fixup rest pkt pos

/-- The names of a record, if it stays: its owner at `start` and those in its RDATA at `rdata`. -/
def checkRecord (elided : Elided) (fixup : Bool) (pkt : Bytes) (start rdata : ℕ) (f : RrFixed) :
    Option Bytes :=
  if elided.any (·.1 == start) then some pkt
  else do
    let (pkt, _) ← checkName pkt start elided fixup
    if f.rclass = 1 then checkRdata elided fixup (rrfilterDesc f.rtype) pkt rdata else some pkt

/-- `check_rrs`. -/
def checkRrs (elided : Elided) (fixup : Bool) : ℕ → Bytes → ℕ → Option Bytes
  | 0, pkt, _ => some pkt
  | total + 1, pkt, pos => do
    let rdata ← (skipName pkt pos).toOption
    let f ← rrFixed pkt rdata
    let pkt ← checkRecord elided fixup pkt pos (rdata + 10) f
    if pkt.length < rdata + 10 + f.rdlen then none
    else checkRrs elided fixup total pkt (rdata + 10 + f.rdlen)

/-- The question names, each with its four fixed bytes. -/
def checkQuestions (elided : Elided) (fixup : Bool) : ℕ → Bytes → ℕ → Option (Bytes × ℕ)
  | 0, pkt, pos => some (pkt, pos)
  | count + 1, pkt, pos => do
    let (pkt, pos) ← checkName pkt pos elided fixup
    checkQuestions elided fixup count pkt (pos + 4)

/-- One pass over the names that stay: the checking one, or with `fixup` the rewriting one. -/
def checkPass (elided : Elided) (fixup : Bool) (hdr : DnsHeader) (total : ℕ) (pkt : Bytes) :
    Option Bytes := do
  let (pkt, pos) ← checkQuestions elided fixup hdr.qdcount.toNat pkt 12
  checkRrs elided fixup total pkt pos

/-- `Verdict`. -/
inductive Verdict where
  | keep
  | remove
  | stop
  deriving DecidableEq

/-- `Question`: what a verdict may depend on. -/
structure Question where
  qtype : UInt16
  qclass : UInt16
  deriving DecidableEq

/-- The records marked so far, with their numbers by section. -/
structure Marks where
  elided : Elided := []
  chopAn : UInt16 := 0
  chopNs : UInt16 := 0
  chopAr : UInt16 := 0
  deriving DecidableEq

/-- Mark the `i`th record. -/
def Marks.push (m : Marks) (an ns i : ℕ) (range : ℕ × ℕ) : Marks :=
  let m := { m with elided := m.elided ++ [range] }
  if i < an then { m with chopAn := m.chopAn + 1 }
  else if i < an + ns then { m with chopNs := m.chopNs + 1 }
  else { m with chopAr := m.chopAr + 1 }

/-- The first pass, over `count` records from the `i`th on. -/
def markRecords (pkt : Bytes) (an ns : ℕ) (decide : ℕ → UInt16 → UInt16 → Verdict) :
    ℕ → ℕ → ℕ → Marks → Except DnsError Marks
  | 0, _, _, m => .ok m
  | count + 1, i, start, m => do
    let pos ← skipName pkt start
    match rrFixed pkt pos with
    | none => .error .packetTooShort
    | some f =>
      let finish := pos + 10 + f.rdlen
      if pkt.length < finish then .error .unexpectedEof
      else
        match decide i f.rtype f.rclass with
        | .keep => markRecords pkt an ns decide count (i + 1) finish m
        | .stop => .ok m
        | .remove =>
          markRecords pkt an ns decide count (i + 1) finish (m.push an ns i (start, finish))

/-- The bytes from `cursor` on that stay. -/
def keepBytes (work : Bytes) : Elided → ℕ → Bytes
  | [], cursor => work.drop cursor
  | (start, finish) :: rest, cursor =>
    (work.take start).drop cursor ++ keepBytes work rest finish

/-- The section counts of a packet, overwritten. -/
def setCounts (pkt : Bytes) (an ns ar : UInt16) : Bytes :=
  splice (splice (splice pkt 6 (be16 an)) 8 (be16 ns)) 10 (be16 ar)

/-- The last three passes of `filter_with`. -/
def elide (pkt : Bytes) (hdr : DnsHeader) (total : ℕ) (m : Marks) : Bytes × ℕ :=
  if m.elided = [] then (pkt, 0)
  else
    match checkPass m.elided false hdr total pkt >>= checkPass m.elided true hdr total with
    | none => (pkt, 0)
    | some work =>
      (setCounts (keepBytes work m.elided 0) (hdr.ancount - m.chopAn) (hdr.nscount - m.chopNs)
        (hdr.arcount - m.chopAr), m.elided.length)

/-- The question of a packet, as `filter_with` reads it. -/
def readQuestion (pkt : Bytes) : Except DnsError Question := do
  let qpos ← skipName pkt 12
  match readU16Be pkt qpos, readU16Be pkt (qpos + 2) with
  | some qtype, some qclass => .ok { qtype, qclass }
  | _, _ => .error .packetTooShort

/-- `filter_with`: the packet without the records, and how many went. -/
def filterWith (pkt : Bytes) (decide : ℕ → UInt16 → UInt16 → Question → Verdict) :
    Except DnsError (Bytes × ℕ) :=
  match DnsHeader.fromBytes pkt with
  | none => .error .packetTooShort
  | some hdr =>
    if hdr.qdcount ≠ 1 then .ok (pkt, 0)
    else do
      let pos ← skipQuestions pkt hdr.qdcount.toNat 12
      let question ← readQuestion pkt
      let an := hdr.ancount.toNat
      let ns := hdr.nscount.toNat
      let total := an + ns + hdr.arcount.toNat
      let m ← markRecords pkt an ns (fun i rtype rclass => decide i rtype rclass question) total 0
        pos {}
      return elide pkt hdr total m

/-- `filter_rr_types`: records of the listed types go from the additional section. -/
def filterRrTypes (pkt : Bytes) (removeTypes : List UInt16) : Except DnsError Bytes :=
  match DnsHeader.fromBytes pkt with
  | none => .error .packetTooShort
  | some hdr =>
    if removeTypes = [] then .ok pkt
    else
      let additionalStart := hdr.ancount.toNat + hdr.nscount.toNat
      (filterWith pkt fun i rtype _ _ =>
        if i < additionalStart ∨ rtype ∉ removeTypes then .keep else .remove).map (·.1)

/-- `strip_dnssec_if_not_requested`. -/
def stripDnssecIfNotRequested (pkt : Bytes) : Except DnsError Bytes :=
  if (findPseudoheader pkt).any fun info => info.flags &&& 0x8000 ≠ 0 then .ok pkt
  else
    match DnsHeader.fromBytes pkt with
    | none => .error .packetTooShort
    | some hdr =>
      (filterWith pkt fun i rtype rclass q =>
        -- RRSIG, NSEC and NSEC3, but not the answer itself
        if rtype ∉ [46, 47, 50] then .keep
        else if i < hdr.ancount.toNat ∧ rtype = q.qtype ∧ rclass = q.qclass then .keep
        else .remove).map (·.1)

/-- `filter_configured_rr_types`. -/
def filterConfiguredRrTypes (pkt : Bytes) (filterRr : List UInt16) : Except DnsError (Bytes × ℕ) :=
  match DnsHeader.fromBytes pkt with
  | none => .error .packetTooShort
  | some hdr =>
    if filterRr = [] then .ok (pkt, 0)
    else
      filterWith pkt fun i rtype rclass q =>
        if q.qtype = 255 ∧ 255 ∈ filterRr then
          if rclass ≠ 1 ∨ rtype ∈ [1, 28, 15, 5] then .keep else .remove
        else if hdr.ancount.toNat ≤ i then .stop
        else if rclass = 1 ∧ rtype ∈ filterRr then .remove
        else .keep

end DnsmasqRs.Rrfilter
