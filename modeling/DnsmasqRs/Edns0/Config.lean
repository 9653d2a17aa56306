import DnsmasqRs.Edns0

/-!
# The options of an outgoing query (`edns0.rs`)

`add_edns0_config` adds the client's MAC address, a device ID made from it, a fixed client ID, the
Umbrella identification and the client subnet to the options a query came with.  The helpers share a
flag that says whether the answer may be cached; here each takes the flag and returns it.
-/

namespace DnsmasqRs.Edns0

open Wire Utf8

/-- `EDNS0_OPTION_MAC`. -/
def edns0OptionMac : UInt16 := 65001

/-- `EDNS0_OPTION_NOMDEVICEID`. -/
def edns0OptionNomdeviceid : UInt16 := 65073

/-- `EDNS0_OPTION_NOMCPEID`. -/
def edns0OptionNomcpeid : UInt16 := 65074

/-- `EDNS0_OPTION_UMBRELLA`. -/
def edns0OptionUmbrella : UInt16 := 20292

/-! ### The text of a MAC address -/

/-- `BASE64_CHARS`. -/
def base64Chars : List UInt8 :=
  bytes "ABCDEFGHIJKLMNOPQRSTUVWXYZabcdefghijklmnopqrstuvwxyz0123456789+/".toList

/-- `char64`. -/
def char64 (c : UInt8) : UInt8 := base64Chars.getD (c &&& 0x3F).toNat 0

/-- `encoder`. -/
def encoder (a b c : UInt8) : Bytes :=
  [char64 (a >>> 2), char64 ((a <<< 4) ||| (b >>> 4)), char64 ((b <<< 2) ||| (c >>> 6)), char64 c]

/-- `mac_to_base64`, for the six bytes it takes. -/
def macToBase64 : Bytes → Bytes
  | [a, b, c, d, e, f] => encoder a b c ++ encoder d e f
  | _ => []

/-- One digit of a byte printed with `{b:02x}`. -/
def hexDigit (n : UInt8) : UInt8 := if n < 10 then 48 + n else 87 + n

/-- `print_mac`. -/
def printMac : Bytes → Bytes
  | [] => bytes "<null>".toList
  | mac => (bytes ":".toList).intercalate
    (mac.map fun b : UInt8 => [hexDigit (b >>> 4), hexDigit (b &&& 0x0F)])

/-! ### Adding one option -/

/-- `UpsertMode`. -/
inductive UpsertMode where
  | addIfAbsent
  | replace
  | replaceOnly
  deriving DecidableEq

/-- The option that is pushed, if there is data for it. -/
def optionOf (code : UInt16) (data : Option Bytes) : List Edns0Option :=
  (data.map fun data => { code, data }).toList

variable (options : List Edns0Option) (source : IpAddr) (mac : Option Bytes)

/-- `upsert_option`. -/
def upsertOption (code : UInt16) (data : Option Bytes) :
    UpsertMode → List Edns0Option
  | .addIfAbsent =>
    if options.any (·.code == code) then options else options ++ optionOf code data
  | .replace => options.filter (·.code ≠ code) ++ optionOf code data
  | .replaceOnly => options.filter (·.code ≠ code)

/-- What `add_mac` and `add_dns_client` do with the data they found for a client. -/
def addIdentity (code : UInt16) (found : Option Bytes) (stripMac : Bool)
    (options : List Edns0Option) (cacheable : Bool) : List Edns0Option × Bool :=
  if found.isSome then
    (upsertOption options code found (if stripMac then .replace else .addIfAbsent), false)
  else if stripMac then (upsertOption options code none .replaceOnly, cacheable)
  else (options, cacheable)

/-- The MAC address `add_mac` sends. -/
def macData (addMac : Bool) : Option Bytes :=
  if addMac then mac.filter (· ≠ []) else none

/-- `add_mac`. -/
def addMac (options : List Edns0Option) (mac : Option Bytes) (addMac stripMac : Bool)
    (cacheable : Bool) : List Edns0Option × Bool :=
  addIdentity edns0OptionMac (macData mac addMac) stripMac options cacheable

/-- The device ID `add_dns_client` sends. -/
def deviceId (macB64 macHex : Bool) : Option Bytes :=
  let mac6 := if macB64 || macHex then mac.filter (·.length = 6) else none
  mac6.map fun m => if macHex then printMac m else macToBase64 m

/-- `add_dns_client`. -/
def addDnsClient (macB64 macHex stripMac : Bool) (cacheable : Bool) : List Edns0Option × Bool :=
  addIdentity edns0OptionNomdeviceid (deviceId mac macB64 macHex) stripMac options cacheable

/-- `SubnetOpt::to_wire`. -/
def SubnetOpt.toWire (opt : SubnetOpt) : Bytes :=
  be16 opt.family ++ [opt.sourceNetmask, 0] ++ opt.addr

/-- The client has put a subnet of its own on the query. -/
def hasOwnEcs : Bool :=
  options.any fun o => o.code == edns0OptionClientSubnet && o.data[2]?.any (· ≠ 0)

/-- `add_client_subnet`. -/
def addClientSubnet (clientSubnet stripEcs : Bool)
    (addSubnet4 addSubnet6 : Option AddSubnetOpt) (cacheable : Bool) : List Edns0Option × Bool :=
  if clientSubnet then
    let (opt, cache) := calcSubnetOpt source addSubnet4 addSubnet6
    (upsertOption options edns0OptionClientSubnet (some opt.toWire)
      (if stripEcs then .replace else .addIfAbsent), cache)
  else if stripEcs then (upsertOption options edns0OptionClientSubnet none .replaceOnly, cacheable)
  else (options, cacheable && !hasOwnEcs options)

/-! ### All of them -/

/-- `Edns0QueryConfig`. -/
structure Edns0QueryConfig where
  addMac : Bool := false
  stripMac : Bool := false
  macB64 : Bool := false
  macHex : Bool := false
  clientSubnet : Bool := false
  stripEcs : Bool := false
  addSubnet4 : Option AddSubnetOpt := none
  addSubnet6 : Option AddSubnetOpt := none
  dnsClientId : Option Str := none
  umbrella : Bool := false
  umbrellaDevid : Bool := false
  umbrellaOrg : UInt32 := 0
  umbrellaAsset : UInt32 := 0
  umbrellaDevice : Vector UInt8 8 := .replicate 8 0
  deriving DecidableEq

/-- The address field of the Umbrella identification. -/
def umbrellaAddress : IpAddr → Bytes
  | .v4 ip => be16 0x0010 ++ ip.octets.toList
  | .v6 ip => be16 0x0020 ++ ip.octets.toList

/-- The payload `add_umbrella_opt` builds. -/
def umbrellaPayload (cfg : Edns0QueryConfig) : Bytes :=
  bytes "ODNS".toList ++ [1, 0] ++ (if cfg.umbrellaOrg ≠ 0 then be16 0x0008 ++ be32 cfg.umbrellaOrg
    else []) ++ umbrellaAddress source
    ++ (if cfg.umbrellaDevid then be16 0x0040 ++ cfg.umbrellaDevice.toList else [])
    ++ (if cfg.umbrellaAsset ≠ 0 then be16 0x0004 ++ be32 cfg.umbrellaAsset else [])

/-- `add_umbrella_opt`.  It clears the flag whatever it was. -/
def addUmbrellaOpt (cfg : Edns0QueryConfig) : List Edns0Option × Bool :=
  (upsertOption options edns0OptionUmbrella (some (umbrellaPayload source cfg)) .replace, false)

/-- `add_edns0_config`. -/
def addEdns0Config (existing : List Edns0Option) (source : IpAddr) (mac : Option Bytes)
    (cfg : Edns0QueryConfig) : List Edns0Option × Bool :=
  let (options, cacheable) := addMac existing mac cfg.addMac cfg.stripMac true
  let (options, cacheable) := addDnsClient options mac cfg.macB64 cfg.macHex cfg.stripMac cacheable
  let options := match cfg.dnsClientId with
    | some id => upsertOption options edns0OptionNomcpeid (some (bytes id)) .replace
    | none => options
  let (options, cacheable) :=
    if cfg.umbrella then addUmbrellaOpt options source cfg else (options, cacheable)
  addClientSubnet options source cfg.clientSubnet cfg.stripEcs cfg.addSubnet4 cfg.addSubnet6
    cacheable

end DnsmasqRs.Edns0
