import DnsmasqRs.Lib.NetText
import DnsmasqRs.Lib.Text

/-!
# TFTP: packets and options (`tftp.rs`)

The packets the server builds, the requests it parses, and the option negotiation of RFC 2347, RFC
2348 and RFC 7440.  A request's strings are decoded with `String::from_utf8_lossy`.
-/

open Utf8 Wire NetText Text

namespace DnsmasqRs.Tftp

/-! ### Opcodes and error codes -/

/-- `TftpOpcode`. -/
inductive TftpOpcode where
  | rrq
  | wrq
  | data
  | ack
  | error
  | oack
  deriving DecidableEq

/-- `opcode as u16`. -/
def TftpOpcode.code : TftpOpcode → UInt16
  | .rrq => 1
  | .wrq => 2
  | .data => 3
  | .ack => 4
  | .error => 5
  | .oack => 6

/-- `TftpError`. -/
inductive TftpError where
  | notDefined
  | fileNotFound
  | accessViolation
  | diskFull
  | illegalOp
  | unknownTransferId
  | fileAlreadyExists
  deriving DecidableEq

/-- `code as u16`. -/
def TftpError.code : TftpError → UInt16
  | .notDefined => 0
  | .fileNotFound => 1
  | .accessViolation => 2
  | .diskFull => 3
  | .illegalOp => 4
  | .unknownTransferId => 5
  | .fileAlreadyExists => 6

/-! ### Building packets -/

/-- `build_data`. -/
def buildData (block : UInt16) (data : Bytes) : Bytes :=
  be16 TftpOpcode.data.code ++ be16 block ++ data

/-- `build_error`. -/
def buildError (code : TftpError) (msg : Str) : Bytes :=
  be16 TftpOpcode.error.code ++ be16 code.code ++ bytes msg ++ [0]

/-- `build_oack`. -/
def buildOack (options : List (Str × Str)) : Bytes :=
  be16 TftpOpcode.oack.code ++ options.flatMap fun o => bytes o.1 ++ [0] ++ bytes o.2 ++ [0]

/-- `tftp_sanitise`: only the characters from space to `~`. -/
def tftpSanitise (input : Str) : Str := input.filter fun c => ' ' ≤ c && c ≤ '~'

/-- `TFTP_MAX_MESSAGE`. -/
def tftpMaxMessage : ℕ := 500

/-- `tftp_err_packet`. -/
def tftpErrPacket (code : TftpError) (message : Str) : Bytes :=
  buildError code ((tftpSanitise message).take tftpMaxMessage)

/-- `tftp_err_oops`, with the text of the error. -/
def tftpErrOops (filename errText : Str) : Bytes :=
  tftpErrPacket .notDefined ("cannot read ".toList ++ tftpSanitise filename ++ ": ".toList
    ++ errText)

/-! ### Parsing requests -/

/-- A byte between two others. -/
def byteIn (lo hi b : UInt8) : Bool := lo ≤ b && b ≤ hi

/-- How many bytes at the front belong to one character, and whether they are one: the walk of
`Utf8Chunks`, which stops at the first byte that cannot follow. -/
def charWidth : Bytes → ℕ × Bool
  | [] => (0, false)
  | b :: rest =>
    let tail (lo hi : UInt8) (more : ℕ) : ℕ × Bool :=
      match rest with
      | c :: rest =>
        if byteIn lo hi c then
          let follow := rest.take more |>.takeWhile (byteIn 0x80 0xbf)
          (2 + follow.length, follow.length == more)
        else (1, false)
      | [] => (1, false)
    if b < 0x80 then (1, true)
    else if byteIn 0xc2 0xdf b then tail 0x80 0xbf 0
    else if b == 0xe0 then tail 0xa0 0xbf 1
    else if byteIn 0xe1 0xec b || byteIn 0xee 0xef b then tail 0x80 0xbf 1
    else if b == 0xed then tail 0x80 0x9f 1
    else if b == 0xf0 then tail 0x90 0xbf 2
    else if byteIn 0xf1 0xf3 b then tail 0x80 0xbf 2
    else if b == 0xf4 then tail 0x80 0x8f 2
    else (1, false)

/-- The number that the bytes of one character stand for. -/
def charValue : Bytes → ℕ
  | [a] => a.toNat
  | [a, b] => a.toNat % 32 * 64 + b.toNat % 64
  | [a, b, c] => (a.toNat % 16 * 64 + b.toNat % 64) * 64 + c.toNat % 64
  | [a, b, c, d] => ((a.toNat % 8 * 64 + b.toNat % 64) * 64 + c.toNat % 64) * 64 + d.toNat % 64
  | _ => 0xfffd

/-- `String::from_utf8_lossy`, for at most `fuel` characters: what is no character becomes U+FFFD.
-/
def fromUtf8LossyGo : ℕ → Bytes → Str
  | 0, _ => []
  | _ + 1, [] => []
  | fuel + 1, b :: rest =>
    let (width, valid) := charWidth (b :: rest)
    let c := if valid then Char.ofNat (charValue ((b :: rest).take width)) else Char.ofNat 0xfffd
    -- at least one byte belongs to it
    c :: fromUtf8LossyGo fuel (rest.drop (width - 1))

/-- `String::from_utf8_lossy`. -/
def fromUtf8Lossy (b : Bytes) : Str := fromUtf8LossyGo b.length b

/-- `read_cstring`: the text before the next null byte, and what follows it. -/
def readCstring (buf : Bytes) : Option (Str × Bytes) :=
  if (0 : UInt8) ∈ buf then
    some (fromUtf8Lossy (buf.takeWhile (· != 0)), (buf.dropWhile (· != 0)).tail)
  else none

/-- The options of a request: keys and values until the end. -/
def readOptions : ℕ → Bytes → Option (List (Str × Str))
  | 0, _ => none
  | _ + 1, [] => some []
  | fuel + 1, b :: buf => do
    let (key, buf) ← readCstring (b :: buf)
    let (val, buf) ← readCstring buf
    let options ← readOptions fuel buf
    return (key, val) :: options

/-- The first two bytes, as a number. -/
def opcodeOf : Bytes → UInt16
  | a :: b :: _ => ofBe16 a b
  | _ => 0

/-- `parse_rrq`: the file name, the mode and the options.  Its errors are all handled alike. -/
def parseRrq (pkt : Bytes) : Option (Str × Str × List (Str × Str)) :=
  if pkt.length < 4 then none
  else if opcodeOf pkt ≠ TftpOpcode.rrq.code ∧ opcodeOf pkt ≠ TftpOpcode.wrq.code then none
  else do
    let (filename, buf) ← readCstring (pkt.drop 2)
    let (mode, buf) ← readCstring buf
    let options ← readOptions (buf.length + 1) buf
    return (filename, mode, options)

/-! ### Options -/

/-- `TFTP_MAX_WINDOW`. -/
def tftpMaxWindow : UInt32 := 32

/-- `RequestOptions`. -/
structure RequestOptions where
  blocksize : ℕ := 512
  optBlocksize : Bool := false
  optTransize : Bool := false
  optTimeout : Bool := false
  optWindowsize : Bool := false
  timeout : UInt32 := 2
  windowsize : UInt32 := 1
  deriving DecidableEq

/-- `i64::MAX`. -/
def i64Max : ℕ := 9223372036854775807

/-- `atoi_like`: the leading decimal digits, after a sign. -/
def atoiLike (s : Str) : ℤ :=
  let s := s.dropWhile isWhitespace
  let neg := s.head? = some '-'
  let s := if neg ∨ s.head? = some '+' then s.tail else s
  let val :=
    (s.takeWhile Char.isDigit).foldl (fun val c =>
      min (min (val * 10) i64Max + (c.toNat - 48)) i64Max) 0
  if neg then -(val : ℤ) else val

/-- `atoi_as_c_uint`. -/
def atoiAsCUint (s : Str) : UInt32 := UInt32.ofInt (atoiLike s)

/-- The block size for a `blksize` option: at least one, and no more than the buffer and the MTU
allow. -/
def clampBlocksize (v overhead : UInt32) (mtu : Option Int) (packetBuffSz : ℕ) : UInt32 :=
  let v := if v < 1 then 1 else v
  let buffMax := UInt32.ofNat packetBuffSz - 4
  let v := if v > buffMax then buffMax else v
  match mtu with
  | some mtu =>
    if mtu ≠ 0 then
      let mtuMax := UInt32.ofInt mtu - overhead
      if v > mtuMax then mtuMax else v
    else v
  | none => v

/-- One option of a request. -/
def applyOption (netascii familyV4 : Bool) (mtu : Option Int) (noBlocksizeOption : Bool)
    (packetBuffSz : ℕ) (opts : RequestOptions) (option : Str × Str) : RequestOptions :=
  let key := asciiLower option.1
  let v := atoiAsCUint option.2
  if key = "blksize".toList ∧ !noBlocksizeOption then
    { opts with
      blocksize := (clampBlocksize v (if familyV4 then 32 else 52) mtu packetBuffSz).toNat
      optBlocksize := true }
  else if key = "tsize".toList ∧ !netascii then { opts with optTransize := true }
  else if key = "timeout".toList then
    { opts with timeout := if v > 255 then 255 else v, optTimeout := true }
  else if key = "windowsize".toList ∧ !netascii then
    let v := if v < 1 then 1 else v
    { opts with
      windowsize := if v > tftpMaxWindow then tftpMaxWindow else v, optWindowsize := true }
  else opts

/-- `parse_request_options`. -/
def parseRequestOptions (options : List (Str × Str)) (netascii familyV4 : Bool) (mtu : Option Int)
    (noBlocksizeOption : Bool) (packetBuffSz : ℕ) : RequestOptions :=
  options.foldl (applyOption netascii familyV4 mtu noBlocksizeOption packetBuffSz) {}

/-- `any_option_negotiated`. -/
def anyOptionNegotiated (opts : RequestOptions) : Bool :=
  opts.optBlocksize || opts.optTransize || opts.optTimeout || opts.optWindowsize

end DnsmasqRs.Tftp
