import DnsmasqRs.Tftp.Transfer
import Mathlib.Data.List.AList
import Mathlib.Logic.Function.Basic

/-!
# TFTP: the transfer table (`tftp.rs`)

`run_tftp_loop` takes one event after another: a datagram on a listener's socket, a datagram on the
socket of a transfer, or the tick of the retransmission sweep.  `loopStep` is one round of it.

The runtime holds the transfers by their ids, and the files that an `Arc<Mutex<TftpFile>>` stands
for by their references; a file that no transfer refers to any more is never looked at again.  What
the system answers when a datagram arrives (the time, the socket, the interface, the file system) is
part of the event.
-/

open Utf8 Wire

namespace DnsmasqRs.Tftp

/-- `TftpConfig`, without what only the sockets and the log need. -/
structure TftpConfig where
  pfx : Option Str := none
  secure : Bool := false
  noBlocksizeOption : Bool := false
  lowercase : Bool := false
  singlePort : Bool := false
  aprefIp : Bool := false
  aprefMac : Bool := false
  maxTransfers : Int := 0
  mtuOverride : Int := 0
  interfaces : List Str := []
  -- `packet_buff_sz(1232)`
  packetBuffSz : ℕ := 1232 + 1025 + 10

/-- `TFTP_MAX_CONNECTIONS_DEFAULT`. -/
def tftpMaxConnectionsDefault : Int := 50

/-- `effective_max`. -/
def effectiveMax (config : TftpConfig) : Int :=
  if config.maxTransfers > 0 then config.maxTransfers else tftpMaxConnectionsDefault

/-- `TftpRuntime`, with the files its transfers share. -/
structure TftpRuntime where
  transfers : AList fun _ : ℕ => TftpTransfer
  nextId : ℕ
  files : FileRef → TftpFile
  nextFile : FileRef

/-- `TftpRuntime::new`. -/
def TftpRuntime.new : TftpRuntime where
  transfers := ∅
  nextId := 1
  files := fun _ => default
  nextFile := 0

/-- What the loop does that can be seen. -/
inductive Output where
  /-- A transfer is in the table now. -/
  | started (id : ℕ) (t : TftpTransfer) (f : TftpFile)
  /-- A packet to the client of a transfer. -/
  | sent (id : ℕ) (s : Sent)
  /-- An error to somebody who has no transfer. -/
  | reply (peer : SocketAddr) (pkt : Bytes)
  /-- A transfer was removed, and `log_transfer_end` called for it. -/
  | ended (id : ℕ) (cause : EndCause) (timeout error : Bool)
  /-- A transfer was removed for a new request of its client. -/
  | replaced (id : ℕ)
  deriving DecidableEq

/-- A datagram on a listener's socket, and what the system answers meanwhile. -/
structure Arrival where
  src : SocketAddr
  /-- `peer.ip().to_string()`. -/
  srcText : Str
  /-- `resolve_request_interface`. -/
  iface : Option Str
  mtu : Option Int
  /-- Whether `bind_transfer_socket` got a socket. -/
  bound : Bool
  disk : Disk
  now : Instant

/-! ### New requests -/

/-- `iface_name_matches`. -/
def ifaceNameMatches (name pattern : Str) : Bool :=
  if pattern.getLast? = some '*' then decide (pattern.dropLast <+: name) else name == pattern

variable (config : TftpConfig) (rt : TftpRuntime) (id : ℕ)

/-- The interface of a request, if it is known, is one of those that are configured, if any are. -/
def interfaceAllowed (iface : Option Str) : Bool :=
  match iface with
  | some name => config.interfaces.isEmpty || config.interfaces.any (ifaceNameMatches name)
  | none => true

/-- The MTU of the interface, or the configured one where that is smaller or the only one. -/
def requestMtu (ifaceMtu : Option Int) : Option Int :=
  let mtu := ifaceMtu.getD 0
  let mtu :=
    if config.mtuOverride ≠ 0 ∧ (mtu = 0 ∨ config.mtuOverride < mtu) then
      config.mtuOverride else mtu
  if mtu ≠ 0 then some mtu else none

/-- The transfer of a request, before its first packet. -/
def newTransfer (peer : SocketAddr) (file : FileRef) (netascii : Bool) (opts : RequestOptions)
    (now : Instant) :
    TftpTransfer :=
  let block : UInt32 := if anyOptionNegotiated opts then 0 else 1
  { TftpTransfer.new peer file now with
    netascii
    blocksize := opts.blocksize
    optBlocksize := opts.optBlocksize
    optTransize := opts.optTransize
    optTimeout := opts.optTimeout
    optWindowsize := opts.optWindowsize
    timeout := opts.timeout
    windowsize := opts.windowsize
    block
    lastack := block
    retransmit := now + fromSecs (max opts.timeout.toNat 1) }

/-- The reference for the file of a request. -/
def TftpRuntime.hold : Opened → FileRef × TftpRuntime
  | .existing ref => (ref, rt)
  | .fresh f =>
      (rt.nextFile, { rt with
        files := Function.update rt.files rt.nextFile f, nextFile := rt.nextFile + 1 })

/-- The end of `handle_new_request`: the first packet, and the transfer in the table. -/
def startTransfer (a : Arrival) (netascii : Bool) (opts : RequestOptions) (opened : Opened) :
    TftpRuntime × List Output :=
  let (ref, rt) := rt.hold opened
  match getBlock (newTransfer a.src ref netascii opts a.now) (rt.files ref) with
  | (.ok .done, _, f) => ({ rt with files := Function.update rt.files ref f }, [])
  | (.ok (.oack pkt), t, f) | (.ok (.data pkt), t, f) =>
    ({ rt with
        transfers := rt.transfers.insert rt.nextId t
        nextId := rt.nextId + 1
        files := Function.update rt.files ref f },
      [.started rt.nextId t f, .sent rt.nextId (.block t.block pkt)])
  | (.error e, _, f) =>
    ({ rt with
      files := Function.update rt.files ref f }, [.reply a.src (tftpErrOops f.filename e.text)])

/-- `handle_new_request`. -/
def handleNewRequest (a : Arrival) (data : Bytes) : TftpRuntime × List Output :=
  if data.length < 2 then (rt, [])
  else if opcodeOf data ≠ TftpOpcode.wrq.code ∧ opcodeOf data ≠ TftpOpcode.rrq.code then (rt, [])
  else if !config.singlePort && !a.bound then (rt, [])
  else if opcodeOf data = TftpOpcode.wrq.code then
    (rt, [.reply a.src
      (tftpErrPacket .illegalOp ("unsupported write request from ".toList ++ a.srcText))])
  else
    match parseRrq data with
    | none => (rt, [])
    | some (filenameRaw, mode, options) =>
      let netascii := eqIgnoreAsciiCase mode "netascii".toList
      if filenameRaw = [] then
        (rt, [.reply a.src
          (tftpErrPacket .illegalOp ("empty filename in request from ".toList ++ a.srcText))])
      else if !netascii && !eqIgnoreAsciiCase mode "octet".toList then
        (rt, [.reply a.src
          (tftpErrPacket .illegalOp ("unsupported request from ".toList ++ a.srcText))])
      else if !interfaceAllowed config a.iface then (rt, [])
      else
        let opts :=
          parseRequestOptions options netascii (a.src.ip matches .v4 _) (requestMtu config a.mtu)
          config.noBlocksizeOption config.packetBuffSz
        let namebuff := buildTftpPath a.disk.dirExists filenameRaw
          { pfx := config.pfx
            lowercase := config.lowercase
            aprefIp := config.aprefIp
            aprefMac := config.aprefMac
            clientAddrStr := a.srcText
            clientMac := none }
        let shared := rt.transfers.entries.map fun e => (e.2.file, rt.files e.2.file)
        match openTftpFile a.disk namebuff config.pfx.isSome config.secure shared with
        | .error .notFound =>
          (rt, [.reply a.src (tftpErrPacket .fileNotFound
            ("file ".toList ++ namebuff ++ " not found for ".toList ++ a.srcText))])
        | .error .perm =>
          (rt, [.reply a.src (tftpErrPacket .accessViolation
            ("cannot access ".toList ++ namebuff ++ ": Permission denied".toList))])
        | .error (.oops e) => (rt, [.reply a.src (tftpErrOops namebuff e.text)])
        | .ok opened =>
          if (rt.transfers.entries.length : Int) ≥ effectiveMax config then (rt, [])
          else startTransfer rt a netascii opts opened

/-! ### Packets and sweeps -/

/-- The table after a turn of a transfer that stays in it. -/
def TftpRuntime.put (turn : Turn) : TftpRuntime :=
  { rt with
    transfers := rt.transfers.insert id turn.transfer
    files := Function.update rt.files turn.transfer.file turn.file }

/-- The table without the transfer. -/
def TftpRuntime.remove : TftpRuntime := { rt with transfers := rt.transfers.erase id }

/-- A packet of the transfer's client: `process_transfer_packet`, and the removal if it says that
the transfer is finished. -/
def packetTurn (t : TftpTransfer) (data : Bytes) (now : Instant) : TftpRuntime × List Output :=
  let turn := processTransferPacket t (rt.files t.file) data now
  match turn.endcon with
  | some cause =>
      ((rt.put id turn).remove id, turn.sent.map (.sent id) ++ [.ended id cause false true])
  | none => (rt.put id turn, turn.sent.map (.sent id))

/-- The transfer of this peer. -/
def TftpRuntime.matchPeer (peer : SocketAddr) : Option ℕ :=
  (rt.transfers.entries.find? fun e => e.2.peer = peer).map (·.1)

/-- `handle_listener_datagram`. -/
def handleListenerDatagram (a : Arrival) (data : Bytes) : TftpRuntime × List Output :=
  if config.singlePort ∧ 2 ≤ data.length then
    match rt.matchPeer a.src with
    | some id =>
      if opcodeOf data = TftpOpcode.rrq.code then
        let (rt, out) := handleNewRequest config (rt.remove id) a data
        (rt, .replaced id :: out)
      else
        match rt.transfers.lookup id with
        | some t => packetTurn rt id t data a.now
        | none => (rt, [])
    | none =>
      if (rt.transfers.entries.length : Int) ≥ effectiveMax config then (rt, [])
      else handleNewRequest config rt a data
  else handleNewRequest config rt a data

/-- A datagram on a transfer's own socket: `TftpEvent::Transfer` in `run_tftp_loop`. -/
def handleTransferDatagram (peer : SocketAddr) (peerText : Str) (data : Bytes)
    (now : Instant) : TftpRuntime × List Output :=
  match rt.transfers.lookup id with
  | none => (rt, [])
  | some t =>
    -- Wrong source address — RFC 1350 §4.
    if peer ≠ t.peer then
      (rt, [.reply peer (tftpErrPacket .unknownTransferId
        ("ignoring packet from ".toList ++ peerText ++ " (TID mismatch)".toList))])
    else packetTurn rt id t data now

/-- The first phase of `sweep_transfers`: the transfers in this order, and which of them end. -/
def sweepEach (now : Instant) :
    List ℕ → TftpRuntime → TftpRuntime × List Output × List (ℕ × EndCause × Bool × Bool)
  | [], rt => (rt, [], [])
  | id :: ids, rt =>
    match rt.transfers.lookup id with
    | none => sweepEach now ids rt
    | some t =>
      let (turn, timeout) := sweepTransfer now t (rt.files t.file)
      let (rt, out, ended) := sweepEach now ids (rt.put id turn)
      (rt, turn.sent.map (.sent id) ++ out,
        (turn.endcon.map fun cause => (id, cause, timeout, turn.error)).toList ++ ended)

/-- The second phase: those that ended are removed. -/
def removeEnded : List (ℕ × EndCause × Bool × Bool) → TftpRuntime → TftpRuntime × List Output
  | [], rt => (rt, [])
  | (id, cause, timeout, error) :: ended, rt =>
    match rt.transfers.lookup id with
    | none => removeEnded ended rt
    | some _ =>
      let (rt, out) := removeEnded ended (rt.remove id)
      (rt, .ended id cause timeout error :: out)

/-- `sweep_transfers`, which meets the transfers in this order. -/
def sweepTransfers (now : Instant) (order : List ℕ) : TftpRuntime × List Output :=
  let (rt, out, ended) := sweepEach now order rt
  let (rt, out') := removeEnded ended rt
  (rt, out ++ out')

/-! ### The loop -/

/-- What `run_tftp_loop` waits for. -/
inductive LoopEvent where
  /-- `TftpEvent::Listener`. -/
  | listener (a : Arrival) (data : Bytes)
  /-- `TftpEvent::Transfer`, with the text of the peer's address. -/
  | transfer (id : ℕ) (peer : SocketAddr) (peerText : Str) (data : Bytes) (now : Instant)
  /-- The tick, and the order in which the table has its transfers. -/
  | sweep (now : Instant) (order : List ℕ)

/-- One round of `run_tftp_loop`. -/
def loopStep : LoopEvent → TftpRuntime × List Output
  | .listener a data => handleListenerDatagram config rt a data
  | .transfer id peer peerText data now => handleTransferDatagram rt id peer peerText data now
  | .sweep now order => sweepTransfers rt now order

end DnsmasqRs.Tftp
