import DnsmasqRs.Dhcp.Lease
import DnsmasqRs.Hosts

/-!
# The lease file (`lease.rs`)

The lease database is saved as a text with a line for each lease: when it expires, its address,
hardware address, hostname and client ID, with a blank between them.  At startup the text is read
again, and a line that cannot be read makes reading fail.
-/

namespace DnsmasqRs.Dhcp

open Wire Utf8 NetText Text

/-- Bytes in hexadecimal, with colons between them. -/
def hexColon (b : Bytes) : Str := [':'].intercalate (b.map hexByte)

/-- `parse_hex_colon`. -/
def parseHexColon (s : Str) : Option Bytes :=
  (s.splitOn ':').mapM fun h => (parseUint 16 256 h).map UInt8.ofNat

/-- An address as text. -/
def formatIpv4 (addr : Ipv4Addr) : Str := dotted (addr.octets.toList.map (·.toNat))

/-- `Duration::as_secs` of the time since the epoch. -/
def wholeSecs (t : SystemTime) : ℕ := t / fromSecs 1

namespace LeaseDb

/-- `LeaseDb::insert`. -/
def insert (db : LeaseDb) (lease : DhcpLease) : LeaseDb := db.insertRaw (leaseKey lease) lease

/-! ### Saving -/

/-- The client ID as it is saved. -/
def formatClid : Option Bytes → Str
  | some clid => if clid = [] then ['*'] else hexColon clid
  | none => ['*']

/-- The line of a lease. -/
def leaseLine (lease : DhcpLease) : Str :=
  decimal (lease.expires.elim 0 wholeSecs) ++ ' ' :: (formatIpv4 lease.addr ++ ' ' ::
    (hexColon lease.hwaddr ++ ' ' :: (lease.hostname.getD ['*'] ++ ' ' :: formatClid lease.clid)))

/-- `LeaseDb::serialize`, of the leases in some order. -/
def serialize (order : Entries) : Str := order.flatMap fun e => leaseLine e.2 ++ ['\n']

/-! ### Loading -/

/-- `LeaseError`, with the panic of a time that cannot be represented. -/
inductive LeaseError where
  | parseError (lineNo : ℕ) (message : Str)
  | overflow
  deriving DecidableEq

/-- The field, or the error of its line. -/
def orParseError {α : Type} (lineNo : ℕ) (message : String) : Option α → Except LeaseError α
  | some x => .ok x
  | none => .error (.parseError lineNo message.toList)

/-- The time of an expiry; a time has a signed number of seconds. -/
def expiryOfSecs (secs : ℕ) : Except LeaseError (Option SystemTime) :=
  if secs = 0 then .ok none
  else if 2 ^ 63 ≤ secs then .error .overflow
  else .ok (some (fromSecs secs))

/-- The client ID of a line. -/
def readClid (lineNo : ℕ) (clid : Str) : Except LeaseError (Option Bytes) :=
  if clid = ['*'] then .ok none
  else (orParseError lineNo "invalid client-id" (parseHexColon clid)).map some

/-- The lease of a line. -/
def readLease (lineNo : ℕ) (line : Str) : Except LeaseError DhcpLease :=
  match splitn 5 ' ' line with
  | [expires, ip, hw, hostname, clid] => do
    let expiresSecs ← orParseError lineNo "invalid expires" (parseUint 10 (2 ^ 64) expires)
    let ip ← orParseError lineNo "invalid IP address" (Cache.parseIpv4Addr ip)
    let hwBytes ← orParseError lineNo "invalid hwaddr" (parseHexColon hw)
    let clid ← readClid lineNo clid
    let expires ← expiryOfSecs expiresSecs
    return {
      clid, hostname := if hostname = ['*'] then none else some hostname, expires
      hwaddr := hwBytes.take dhcpChaddrMax, hwaddrType := 1, addr := ip }
  | parts => .error (.parseError lineNo ("expected 5 fields, got ".toList ++ decimal parts.length))

/-- One line of the file. -/
def loadLine (db : LeaseDb) (lineNo : ℕ) (line : Str) : Except LeaseError LeaseDb :=
  if trim line = [] then .ok db
  else (readLease lineNo (trim line)).map db.insert

/-- `LeaseDb::deserialize`. -/
def deserialize (text : Str) : Except LeaseError LeaseDb :=
  (lines text).zipIdx.foldlM (fun db line => loadLine db (line.2 + 1) line.1) LeaseDb.new

end LeaseDb

example : LeaseDb.serialize [⟨toKey [], { addr := ⟨#v[10, 0, 0, 1]⟩, hwaddr := [222, 173] }⟩]
    = "0 10.0.0.1 de:ad * *\n".toList := by decide +kernel

end DnsmasqRs.Dhcp
