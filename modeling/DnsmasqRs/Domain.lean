import DnsmasqRs.Lib.Fallible
import DnsmasqRs.Lib.NetText
import DnsmasqRs.Types

/-!
# Synthetic names (`domain.rs`)

The names of `--synth-domain`: an optional prefix, an index or an address with dashes in it, and the
domain.  `synthesize_ipv4` and `synthesize_ipv6` read the address from such a name, `rev_synth_ipv4`
and `rev_synth_ipv6` make the name of an address.

The prefix is split off by its length in bytes, which is where a `Fault` can come from.
-/

namespace DnsmasqRs.Domain

open Wire Utf8 NetText Fallible

/-- `CondDomain`, with the fields that synthesis reads. -/
structure CondDomain where
  domain : Str
  pfx : Option Str
  start : Ipv4Addr
  finish : Ipv4Addr
  start6 : Ipv6Addr
  finish6 : Ipv6Addr
  is6 : Bool
  indexed : Bool
  deriving DecidableEq

/-! ### Addresses as numbers -/

/-- Bytes as a number, the most significant one first. -/
def ofBe (b : Bytes) : ℕ := b.foldl (fun n x => n * 256 + x.toNat) 0

/-- The last `k` bytes of a number, the most significant one first. -/
def toBe : ℕ → ℕ → Bytes
  | 0, _ => []
  | k + 1, n => toBe k (n / 256) ++ [UInt8.ofNat n]

/-- `u32::from`. -/
def ipv4Value (addr : Ipv4Addr) : ℕ := ofBe addr.octets.toList

/-- `Ipv4Addr::from`. -/
def ipv4OfValue (n : ℕ) : Option Ipv4Addr := Ipv4Addr.ofBytes (toBe 4 n)

/-- `ipv6_low64`. -/
def ipv6Low64 (addr : Ipv6Addr) : ℕ := ofBe (addr.octets.toList.drop 8)

/-- `ipv6_set_low64`. -/
def ipv6SetLow64 (base : Ipv6Addr) (low : ℕ) : Option Ipv6Addr :=
  Ipv6Addr.ofBytes (base.octets.toList.take 8 ++ toBe 8 low)

/-- `ipv4_in_range`. -/
def ipv4InRange (addr start finish : Ipv4Addr) : Bool :=
  ipv4Value start ≤ ipv4Value addr && ipv4Value addr ≤ ipv4Value finish

/-- `ipv6_in_range`. -/
def ipv6InRange (addr start finish : Ipv6Addr) : Bool :=
  ipv6Low64 start ≤ ipv6Low64 addr && ipv6Low64 addr ≤ ipv6Low64 finish

/-! ### From a name to an address -/

/-- `strip_prefix`. -/
def stripPrefix (name : Str) : Option Str → Except Fault (Option Str)
  | none => .ok (some name)
  | some p =>
    if byteLen name < byteLen p then .ok none
    else
      match splitAt name (byteLen p) with
      | none => .error .slice
      | some (head, tail) => .ok (if eqIgnoreAsciiCase head p then some tail else none)

/-- `str::split_once`. -/
def splitOnce (c : Char) (s : Str) : Option (Str × Str) :=
  if c ∈ s then some (s.takeWhile (· ≠ c), (s.dropWhile (· ≠ c)).tail) else none

/-- `str::replace`, for characters. -/
def replaceChar (c d : Char) (s : Str) : Str := s.map fun x => if x = c then d else x

/-- How the two address families are synthesized. -/
structure Family (A : Type) where
  /-- The conditional domains of the other family are passed over. -/
  skip : CondDomain → Bool
  /-- The bounds of the range, as numbers of the index's type. -/
  low : CondDomain → ℕ
  high : CondDomain → ℕ
  bound : ℕ
  ofIndex : CondDomain → ℕ → Option A
  /-- An address from its text, where the name has dashes. -/
  parse : Str → Option A
  inRange : A → CondDomain → Bool

/-- `try_synth_ipv4` and `try_synth_ipv6`. -/
def trySynth {A : Type} (fam : Family A) (name : Str) (c : CondDomain) :
    Except Fault (Option A) := do
  match ← stripPrefix name c.pfx with
  | none => return none
  | some tail =>
    match splitOnce '.' tail with
    | none => return none
    | some (label, rest) =>
      if !eqIgnoreAsciiCase rest c.domain then return none
      else if c.indexed then
        match parseUint 10 fam.bound label with
        | none => return none
        | some idx =>
          if fam.high c < fam.low c then .error .overflow
          else return if idx ≤ fam.high c - fam.low c then fam.ofIndex c (fam.low c + idx) else none
      else return (fam.parse label).filter (fam.inRange · c)

/-- `synthesize_ipv4` and `synthesize_ipv6`. -/
def synthesize {A : Type} (fam : Family A) (name : Str) (domains : List CondDomain) :
    Except Fault (Option A) :=
  findFirst (fun c => if fam.skip c then .ok none else trySynth fam name c) domains

/-- IPv4: the dashes stand for dots. -/
def family4 : Family Ipv4Addr where
  skip := (·.is6)
  low := fun c => ipv4Value c.start
  high := fun c => ipv4Value c.finish
  bound := 2 ^ 32
  ofIndex := fun _ n => ipv4OfValue n
  parse := fun s => (parseIpv4 (replaceChar '-' '.' s)).bind fun octets =>
    Ipv4Addr.ofBytes (octets.map UInt8.ofNat)
  inRange := fun addr c => ipv4InRange addr c.start c.finish

/-- IPv6: the dashes stand for colons, and an index counts in the last 64 bits. -/
def family6 : Family Ipv6Addr where
  skip := fun c => !c.is6
  low := fun c => ipv6Low64 c.start6
  high := fun c => ipv6Low64 c.finish6
  bound := 2 ^ 64
  ofIndex := fun c n => ipv6SetLow64 c.start6 n
  parse := fun s => (parseIpv6 (replaceChar '-' ':' s)).bind fun groups =>
    Ipv6Addr.ofBytes (groups.flatMap (toBe 2))
  inRange := fun addr c => ipv6InRange addr c.start6 c.finish6

/-- `synthesize_ipv4`. -/
def synthesizeIpv4 (name : Str) (domains : List CondDomain) : Except Fault (Option Ipv4Addr) :=
  synthesize family4 name domains

/-- `synthesize_ipv6`. -/
def synthesizeIpv6 (name : Str) (domains : List CondDomain) : Except Fault (Option Ipv6Addr) :=
  synthesize family6 name domains

/-! ### From an address to a name -/

/-- The name of `rev_synth_ipv4` and `rev_synth_ipv6` in a conditional domain. -/
def synthName (c : CondDomain) (label : Str) : Str := c.pfx.getD [] ++ label ++ '.' :: c.domain

/-- `rev_synth_ipv4`. -/
def revSynthIpv4 (addr : Ipv4Addr) (domains : List CondDomain) : Option Str :=
  (domains.find? fun c => !c.is6 && ipv4InRange addr c.start c.finish).map fun c =>
    if c.indexed then synthName c (decimal (ipv4Value addr - ipv4Value c.start))
    else synthName c (['-'].intercalate (addr.octets.toList.map fun o => decimal o.toNat))

/-- `rev_synth_ipv6`. -/
def revSynthIpv6 (addr : Ipv6Addr) (domains : List CondDomain) : Option Str :=
  (domains.find? fun c => c.is6 && ipv6InRange addr c.start6 c.finish6).map fun c =>
    if c.indexed then synthName c (decimal (ipv6Low64 addr - ipv6Low64 c.start6))
    else synthName c (['-'].intercalate ((addr.octets.toList.toChunks 2).map (·.flatMap hexByte)))

end DnsmasqRs.Domain
