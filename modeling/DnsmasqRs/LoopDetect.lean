import DnsmasqRs.Forward.Engine

/-!
# Forwarding loops (`loop_detect.rs`)

A probe is a TXT query for `<uid>.test`, with the uid of the server it is sent to in eight
hexadecimal digits.  A probe that comes back as a query marks the server; `is_looping` then keeps it
out of the selection until the next round of probes.

`send_probes` sends the probes from sockets of its own; what it does to the engine is to clear the
marks.
-/

namespace DnsmasqRs.LoopDetect

open Wire Utf8 Forward

/-- `LOOP_TEST_DOMAIN`. -/
def loopTestDomain : Bytes := bytes "test".toList

/-- `LOOP_TEST_TYPE`. -/
def loopTestType : UInt16 := 16

/-- The value of a byte that is a hexadecimal digit. -/
def hexValue (b : UInt8) : Option ℕ :=
  if 48 ≤ b ∧ b ≤ 57 then some (b.toNat - 48)
  else if 65 ≤ b ∧ b ≤ 70 then some (b.toNat - 55)
  else if 97 ≤ b ∧ b ≤ 102 then some (b.toNat - 87)
  else none

/-- `u32::from_str_radix(hex, 16)`, for eight digits. -/
def parseUid (hex : Bytes) : Option UInt32 :=
  (hex.mapM hexValue).map fun digits => UInt32.ofNat (digits.foldl (fun n d => n * 16 + d) 0)

/-- The loop of `detect_loop` over the servers. -/
def markLoop (uid : UInt32) : List Server → Bool × List Server
  | [] => (false, [])
  | serv :: servers =>
    if serv.domain = [] ∧ serv.flags.contains ServFlags.loop = false ∧ serv.uid = uid then
      (true, { serv with flags := serv.flags ||| ServFlags.loop } :: servers)
    else
      let (found, servers) := markLoop uid servers
      (found, serv :: servers)

/-- `detect_loop`. -/
def detectLoop (query : Str) (qtype : UInt16) (servers : List Server) : Bool × List Server :=
  let b := bytes query
  if qtype ≠ loopTestType then (false, servers)
  else if b.length ≠ loopTestDomain.length + 9 ∨ b.drop 9 ≠ loopTestDomain then (false, servers)
  else
    match parseUid (b.take 8) with
    | none => (false, servers)
    | some uid => markLoop uid servers

/-- `loop_send_probes`, as far as the servers are concerned. -/
def loopSendProbes (servers : List Server) : List Server :=
  servers.map fun serv =>
    if serv.domain ≠ [] ∨ serv.flags.contains ServFlags.forNodots then serv
    else { serv with flags := serv.flags &&& ~~~ServFlags.loop }

/-- An operation of the engine, a query that may be a probe come back, or a round of probes. -/
inductive Event where
  | engine (ev : ForwardEngine.Event)
  | detectLoop (query : Str) (qtype : UInt16)
  | sendProbes
  deriving DecidableEq

variable {H : Type} [DecidableEq H] [Inhabited H] (finish : Bytes → H)

/-- One step of the engine with loop detection. -/
def step (e : ForwardEngine (H × H)) : Event → Option (ForwardEngine (H × H))
  | .engine ev => e.step finish ev
  | .detectLoop query qtype =>
    some { e with loopServers := (detectLoop query qtype e.loopServers).2 }
  | .sendProbes => some { e with loopServers := loopSendProbes e.loopServers }

end DnsmasqRs.LoopDetect
