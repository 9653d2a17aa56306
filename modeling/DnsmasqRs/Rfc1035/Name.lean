import DnsmasqRs.ByteCursor
import DnsmasqRs.Lib.Utf8

/-!
# The DNS name codec (`rfc1035.rs`)

`extractName` decodes a wire-format name at an offset, following compression pointers, and returns
the dot-joined name with the offset after it; `writeName` encodes a dot-separated name without
compression; `skipName` steps over a name without decoding it.

The decoder's loop has two bounds that make it end: at most 255 pointers are followed and the
labels of a name add up to at most 255 bytes.  They are its termination measure.
-/

namespace DnsmasqRs.Rfc1035

open Wire Utf8 ByteCursor

/-- `DnsError`. -/
inductive DnsError where
  | packetTooShort
  | invalidName (msg : String)
  | compressionLoop
  | nameTooLong
  | unexpectedEof
  deriving DecidableEq

/-- The two hex digits of the Rust format `02x`. -/
def hex02 (b : UInt8) : String :=
  String.ofList [Nat.digitChar (b.toNat / 16), Nat.digitChar (b.toNat % 16)]

/-- `labels.join(".")`. -/
def joinLabels (labels : List Str) : Str := ['.'].intercalate labels

/-- `name.split('.')`. -/
def splitLabels (name : Str) : List Str := name.splitOn '.'

/-- The loop of `extract_name`, at position `pos` of `pkt`: the labels read so far, the offset to
hand back once a pointer has been followed, the pointers followed and the wire length counted. -/
def extractNameLoop (pkt : Bytes) (pos : ℕ) (labels : List Str) (endOffset : Option ℕ)
    (hops wireLen : ℕ) : Except DnsError (Str × ℕ) :=
  match readU8 pkt pos with
  | none => .error .unexpectedEof
  | some b =>
    if b = 0 then
      -- Root label: only the first pointer followed sets the caller's new offset.
      .ok (joinLabels labels, endOffset.getD (pos + 1))
    else if b &&& 0xC0 = 0xC0 then
      match readU8 pkt (pos + 1) with
      | none => .error .packetTooShort
      | some lo =>
        if 255 < hops + 1 then .error .compressionLoop
        else if pkt.length ≤ (b &&& 0x3F).toNat * 256 + lo.toNat then
          .error (.invalidName "compression pointer out of bounds")
        else
          extractNameLoop pkt ((b &&& 0x3F).toNat * 256 + lo.toNat) labels
            (some (endOffset.getD (pos + 2))) (hops + 1) wireLen
    else if b &&& 0xC0 = 0x00 then
      match readSlice pkt (pos + 1) b.toNat with
      | none => .error .unexpectedEof
      | some labelBytes =>
        if 255 < wireLen + (b.toNat + 1) then .error .nameTooLong
        else
          match fromUtf8 labelBytes with
          | none => .error (.invalidName "non-UTF8 label bytes")
          | some label =>
            extractNameLoop pkt (pos + 1 + b.toNat) (labels ++ [label]) endOffset hops
              (wireLen + (b.toNat + 1))
    else .error (.invalidName ("unknown label type 0x" ++ hex02 b))
  termination_by (256 - hops) + (256 - wireLen)

/-- `extract_name`: the name at `offset` and the offset after it. -/
def extractName (pkt : Bytes) (offset : ℕ) : Except DnsError (Str × ℕ) :=
  extractNameLoop pkt offset [] none 0 1

/-- The loop of `extract_name` with the caller's offset as its state. -/
def extractNameMutLoop (pkt : Bytes) (pos : ℕ) (labels : List Str) (endOffset : Option ℕ)
    (hops wireLen : ℕ) : ExceptT DnsError (StateM ℕ) Str :=
  match readU8 pkt pos with
  | none => throw .unexpectedEof
  | some b =>
    if b = 0 then do
      set (endOffset.getD (pos + 1))
      return joinLabels labels
    else if b &&& 0xC0 = 0xC0 then
      match readU8 pkt (pos + 1) with
      | none => throw .packetTooShort
      | some lo =>
        if 255 < hops + 1 then throw .compressionLoop
        else if pkt.length ≤ (b &&& 0x3F).toNat * 256 + lo.toNat then
          throw (.invalidName "compression pointer out of bounds")
        else
          extractNameMutLoop pkt ((b &&& 0x3F).toNat * 256 + lo.toNat) labels
            (some (endOffset.getD (pos + 2))) (hops + 1) wireLen
    else if b &&& 0xC0 = 0x00 then
      match readSlice pkt (pos + 1) b.toNat with
      | none => throw .unexpectedEof
      | some labelBytes =>
        if 255 < wireLen + (b.toNat + 1) then throw .nameTooLong
        else
          match fromUtf8 labelBytes with
          | none => throw (.invalidName "non-UTF8 label bytes")
          | some label =>
            extractNameMutLoop pkt (pos + 1 + b.toNat) (labels ++ [label]) endOffset hops
              (wireLen + (b.toNat + 1))
    else throw (.invalidName ("unknown label type 0x" ++ hex02 b))
  termination_by (256 - hops) + (256 - wireLen)

/-- `extract_name` as the caller sees it: the result and the offset it leaves. -/
def extractNameMut (pkt : Bytes) (offset : ℕ) : Except DnsError Str × ℕ :=
  (extractNameMutLoop pkt offset [] none 0 1).run.run offset

/-- One label on the wire: its length byte (`as u8`) and its bytes. -/
def writeLabel (label : Str) : Bytes := UInt8.ofNat (byteLen label) :: bytes label

/-- `write_name`. -/
def writeName (name : Str) : Bytes :=
  -- The root-zone presentation form is normalised to the empty name first.
  if name = ['.'] ∨ name = [] then [0]
  else (splitLabels name).flatMap writeLabel ++ [0]

/-- `skip_name`: the offset past the name at `pos`, stopping at the first pointer. -/
def skipName (pkt : Bytes) (pos : ℕ) : Except DnsError ℕ :=
  match readU8 pkt pos with
  | none => .error .unexpectedEof
  | some b =>
    if b = 0 then .ok (pos + 1)
    else if b &&& 0xC0 = 0xC0 then
      match readU8 pkt (pos + 1) with
      | none => .error .packetTooShort
      | some _ => .ok (pos + 2)
    else if b &&& 0xC0 ≠ 0x00 then .error (.invalidName ("unknown label type 0x" ++ hex02 b))
    else if pos + 1 + b.toNat ≤ pkt.length then skipName pkt (pos + 1 + b.toNat)
    else .error .unexpectedEof
  termination_by pkt.length - pos

/-! ### Suffixes -/

/-- The name, with its suffix as long as `domain`, is `domain` or a name below it; `none` where the
slice panics. -/
def suffixOnLabel (name domain : Str) : Option Bool :=
  let start := byteLen name - byteLen domain
  (sliceFrom name start).map fun suffix =>
    eqIgnoreAsciiCase suffix domain
      && (byteLen name == byteLen domain || (bytes name)[start - 1]? == some 0x2E)

end DnsmasqRs.Rfc1035
