import DnsmasqRs.Tftp.Packet
import DnsmasqRs.Tftp.Path

/-!
# TFTP: one transfer (`tftp.rs`)

The state of a transfer, the block it sends next (`get_block`), what a packet of its client does
(`handle_tftp_packet`), and the two places that send blocks: `process_transfer_packet`, on an
acknowledgement, and the body of the loop in `sweep_transfers`, when the time for it has come.

A function that reads blocks takes the transfer and the file it has locked, and returns both.
Packets that are sent are returned with the number of the block they are for.  File offsets are
natural numbers: they do not come near to `2^64`.
-/

open Utf8 Wire NetText

namespace DnsmasqRs.Tftp

/-- `TftpTransfer`, without its socket. -/
structure TftpTransfer where
  peer : SocketAddr
  file : FileRef
  netascii : Bool
  blocksize : ℕ
  windowsize : UInt32
  optBlocksize : Bool
  optTransize : Bool
  optTimeout : Bool
  optWindowsize : Bool
  timeout : UInt32
  backoff : ℕ
  start : Option Instant
  retransmit : Instant
  block : UInt32
  lastack : UInt32
  ackprev : UInt16
  blockHi : UInt32
  offset : ℕ
  expansion : ℕ
  carrylf : Bool
  lastcarrylf : Bool
  prefetch : Option (ℕ × Bytes)
  deriving DecidableEq

/-- `TftpTransfer::new`. -/
def TftpTransfer.new (peer : SocketAddr) (file : FileRef) (now : Instant) : TftpTransfer where
  peer := peer
  file := file
  netascii := false
  blocksize := 512
  windowsize := 1
  optBlocksize := false
  optTransize := false
  optTimeout := false
  optWindowsize := false
  timeout := 2
  backoff := 1
  start := some now
  retransmit := now
  block := 1
  lastack := 0
  ackprev := 0
  blockHi := 0
  offset := 0
  expansion := 0
  carrylf := false
  lastcarrylf := false
  prefetch := none

/-! ### Reading blocks -/

/-- `buf.copy_within(i..size - 1, i + 1)` and `buf[i] = b'\r'`. -/
def insertCr (buf : Bytes) (i size : ℕ) : Bytes :=
  (buf.take (i + 1) ++ (buf.drop i).take (size - 1 - i) ++ buf.drop size).set i 13

/-- The loop of `netascii_expand`, for at most `fuel` rounds. -/
def netasciiExpandLoop (blocksize : ℕ) (lastcarrylf : Bool) :
    ℕ → ℕ → ℕ → Bytes → ℕ → Bool → Bytes × ℕ × Bool
  | 0, _, size, buf, expansion, carrylf => (buf.take size, expansion, carrylf)
  | fuel + 1, i, size, buf, expansion, carrylf =>
    if i < size then
      if buf[i]? = some 10 ∧ (i ≠ 0 ∨ !lastcarrylf) then
        let carrylf := if size ≠ blocksize then carrylf else if i = size - 1 then true else carrylf
        let size := if size ≠ blocksize then size + 1 else size
        netasciiExpandLoop blocksize lastcarrylf fuel (i + 2) size (insertCr buf i size)
          (expansion + 1) carrylf
      else netasciiExpandLoop blocksize lastcarrylf fuel (i + 1) size buf expansion carrylf
    else (buf.take size, expansion, carrylf)

/-- `netascii_expand`: the block, by how many bytes it grew, and whether a line feed is left for the
next one. -/
def netasciiExpand (raw : Bytes) (blocksize : ℕ) (lastcarrylf : Bool) : Bytes × ℕ × Bool :=
  let cap := max blocksize raw.length
  let buf := raw ++ List.replicate (cap - raw.length) 0
  netasciiExpandLoop blocksize lastcarrylf cap 0 raw.length buf 0 false

/-- `GetBlockResult`. -/
inductive GetBlockResult where
  | oack (pkt : Bytes)
  | data (pkt : Bytes)
  | done
  deriving DecidableEq

variable (t : TftpTransfer) (f : TftpFile)

/-- The options that block 0 acknowledges. -/
def oackOptions (size : ℕ) : List (Str × Str) :=
  (if t.optBlocksize then [("blksize".toList, decimal t.blocksize)] else []) ++
  (if t.optTransize then [("tsize".toList, decimal size)] else []) ++
  (if t.optTimeout then [("timeout".toList, decimal t.timeout.toNat)] else []) ++
  (if t.optWindowsize then [("windowsize".toList, decimal t.windowsize.toNat)] else [])

/-- The read of `get_block`: `want` bytes at the transfer's offset, with a seek if the file is not
there. -/
def readAt (offset want : ℕ) : Except IoError Bytes × TftpFile :=
  if want = 0 then (.ok [], f)
  else
    let os := if f.posn ≠ offset then f.file.seek offset else f.file
    match os.readExact want with
    | (.ok raw, os) => (.ok raw, { f with file := os, posn := offset + want })
    | (.error e, os) => (.error e, { f with file := os })

/-- The block that was read as it is sent, which for netascii is with its line ends expanded. -/
def encodeBlock (raw : Bytes) : Bytes × TftpTransfer :=
  if t.netascii then
    let (expanded, expansion, carrylf) := netasciiExpand raw t.blocksize t.lastcarrylf
    (expanded, { t with expansion, carrylf })
  else (raw, t)

/-- `get_block`. -/
def getBlock : Except IoError GetBlockResult × TftpTransfer × TftpFile :=
  if t.block = 0 then (.ok (.oack (buildOack (oackOptions t f.size))), t, f)
  else
    let t := if !t.netascii then { t with offset := (t.block.toNat - 1) * t.blocksize } else t
    if t.offset > f.size then (.ok .done, t, f)
    else
      match t.prefetch.filter fun saved => saved.1 == t.offset with
      | some (_, data) => (.ok (.data (buildData t.block.toUInt16 data)), t, f)
      | none =>
        let t := { t with prefetch := none }
        let want := min (f.size - t.offset) t.blocksize
        match readAt f t.offset want with
        | (.error e, f) => (.error e, t, f)
        | (.ok raw, f) =>
          let (data, t) := encodeBlock t raw
          (.ok (.data (buildData t.block.toUInt16 data)), { t with
            prefetch := some (t.offset, data) }, f)

/-! ### Packets from the client -/

/-- `TftpHandleResult`, without the text of an error, which is only logged. -/
inductive TftpHandleResult where
  | ackAdvance (lastack : UInt32)
  | ackIgnored
  | error (code : UInt16)
  | invalidPacket
  deriving DecidableEq

/-- The block that the last acknowledgement was for: `(block_hi << 16) + new`. -/
def TftpTransfer.ackedBlock : UInt32 := (t.blockHi <<< 16) + t.ackprev.toUInt32

/-- The high part of the block number for a new acknowledgement.  If the last one was in the top
quarter of a 64k block and this one is in the bottom quarter, it is taken to have wrapped; the
reverse step is for a stray old duplicate. -/
def widenAck (new : UInt16) : TftpTransfer :=
  let blockHi :=
    if new ≤ 0x4000 ∧ t.ackprev ≥ 0xc000 then t.blockHi + 1
    else if new ≥ 0xc000 ∧ t.ackprev ≤ 0x4000 ∧ t.blockHi ≠ 0 then t.blockHi - 1
    else t.blockHi
  { t with blockHi, ackprev := new }

/-- The acknowledgements of `handle_tftp_packet`.  Duplicates and those for blocks not yet sent are
ignored. -/
def handleAck (new : UInt16) (now : Instant) : TftpHandleResult × TftpTransfer :=
  let t := widenAck t new
  let block := t.ackedBlock
  if block ≥ t.lastack ∧ block ≤ t.block then
    let t := { t with retransmit := now, start := some now, backoff := 0, lastack := block + 1 }
    let t := if t.netascii ∧ block ≠ 0 then
      { t with offset := t.offset + (t.blocksize - t.expansion), lastcarrylf := t.carrylf } else t
    (.ackAdvance t.lastack, t)
  else (.ackIgnored, t)

/-- `handle_tftp_packet`. -/
def handleTftpPacket (packet : Bytes) (now : Instant) : TftpHandleResult × TftpTransfer :=
  match packet with
  | a :: b :: c :: d :: _ =>
    if ofBe16 a b = 4 then handleAck t (ofBe16 c d) now
    else if ofBe16 a b = 5 then (.error (ofBe16 c d), { t with start := none })
    else (.invalidPacket, t)
  | _ => (.invalidPacket, t)

/-! ### Sending -/

/-- A packet sent to the client of a transfer. -/
inductive Sent where
  /-- The packet for this block: its data, or for block 0 the OACK. -/
  | block (n : UInt32) (pkt : Bytes)
  /-- An error. -/
  | error (pkt : Bytes)
  deriving DecidableEq

/-- Where the end of a transfer is decided.  The source keeps a flag `endcon` that says that it is.
-/
inductive EndCause where
  /-- There is no block to send after those that were acknowledged. -/
  | finished
  /-- A block could not be read. -/
  | readFailed
  /-- The client sent an ERROR packet. -/
  | errorPacket
  /-- Nothing was acknowledged for too long. -/
  | inactive
  deriving DecidableEq

/-- What a transfer did: whether it is to end, and why, and what it sent. -/
structure Turn where
  endcon : Option EndCause
  error : Bool
  transfer : TftpTransfer
  file : TftpFile
  sent : List Sent
  deriving DecidableEq

/-- The packet comes before what was sent in this turn. -/
def Turn.afterSending (turn : Turn) (s : Sent) : Turn := { turn with sent := s :: turn.sent }

/-- The loop of `send_window`: at most `k` more blocks, of which the first one may be the first of
the window. -/
def sendBlocks : ℕ → Bool → TftpTransfer → TftpFile → Turn
  | 0, _, t, f => ⟨none, false, t, f, []⟩
  | k + 1, first, t, f =>
    match getBlock t f with
    | (.ok .done, t, f) => ⟨if first then some .finished else none, false, t, f, []⟩
    | (.ok (.oack pkt), t, f) | (.ok (.data pkt), t, f) =>
      (sendBlocks k false { t with block := t.block + 1 } f).afterSending (.block t.block pkt)
    | (.error e, t, f) => ⟨some .readFailed, true, t, f, [.error (tftpErrOops f.filename e.text)]⟩

/-- `send_window`. -/
def sendWindow : Turn :=
  sendBlocks (if t.block ≠ 0 then t.windowsize.toNat else 1) true t f

/-- The next deadline, which is counted from the last one. -/
def TftpTransfer.backOff : TftpTransfer :=
  { t with
    retransmit := t.retransmit + fromSecs t.timeout.toNat + fromSecs (2 ^ min (t.backoff / 2) 20)
    backoff := min (t.backoff + 1) 4294967295 }

/-- The next window from the last acknowledgement on, and the read-ahead after it. -/
def resend : Turn :=
  let turn := sendWindow { t.backOff with block := t.lastack } f
  if turn.endcon.isSome then turn
  else
    let (_, t, f) := getBlock turn.transfer turn.file
    { turn with transfer := t, file := f }

/-- `process_transfer_packet`: its answer is whether there is an `endcon`. -/
def processTransferPacket (data : Bytes) (now : Instant) : Turn :=
  match handleTftpPacket t data now with
  | (.ackAdvance _, t) => resend t f
  | (.ackIgnored, t) | (.invalidPacket, t) => ⟨none, false, t, f, []⟩
  | (.error _, t) => ⟨some .errorPacket, false, t, f, []⟩

/-- `TFTP_TRANSFER_TIME_SECS`. -/
def tftpTransferTimeSecs : ℕ := 120

/-- Nothing was acknowledged for too long. -/
def TftpTransfer.inactive (now : Instant) : Bool :=
  t.start.any fun start => now - start > fromSecs tftpTransferTimeSecs

/-- The body of the loop of `sweep_transfers`, with the flag for a timeout. -/
def sweepTransfer (now : Instant) (t : TftpTransfer) (f : TftpFile) : Turn × Bool :=
  if t.start.isNone then (⟨some .errorPacket, true, t, f, []⟩, false)
  else if t.inactive now then
    -- Don't complain when we're just awaiting the last ACK.
    match getBlock t f with
    | (.ok .done, t, f) => (⟨some .inactive, false, t, f, []⟩, false)
    | (_, t, f) => (⟨some .inactive, true, t, f, []⟩, true)
  else if now ≥ t.retransmit then (resend t f, false)
  else (⟨none, false, t, f, []⟩, false)

end DnsmasqRs.Tftp
