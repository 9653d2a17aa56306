import Mathlib.Data.List.DropRight
import DnsmasqRs.Rfc1035.Packet
import DnsmasqRs.Lib.Unicode

/-!
# DNSSEC records

The parts of `dnssec.rs` that read names and the RDATA of DNSKEY, DS, RRSIG, NSEC and NSEC3 records,
and those of `crypto.rs` that say which algorithms are known.

Names are dotted strings.  A label is kept as it is on the wire, so a string can have a dot from
inside a label, and even at its end.  The hash functions and the check of a signature are parameters
(`Crypto`).
-/

namespace DnsmasqRs.Dnssec

open Wire Utf8 Rfc1035

/-! ### Cryptography -/

/-- `DnssecAlgorithm`. -/
inductive DnssecAlgorithm where
  | rsaSha1
  | rsaSha256
  | rsaSha512
  | ecdsaP256
  | ecdsaP384
  | ed25519
  | ed448
  deriving DecidableEq

/-- `DnssecAlgorithm::try_from`. -/
def DnssecAlgorithm.ofByte (v : UInt8) : Option DnssecAlgorithm :=
  match v.toNat with
  | 5 => some .rsaSha1
  | 8 => some .rsaSha256
  | 10 => some .rsaSha512
  | 13 => some .ecdsaP256
  | 14 => some .ecdsaP384
  | 15 => some .ed25519
  | 16 => some .ed448
  | _ => none

/-- The primitives: the hash functions, and whether a signature of the data checks out with a public
key as it is in a DNSKEY. -/
structure Crypto where
  sha1 : Bytes → Bytes
  sha256 : Bytes → Bytes
  sha384 : Bytes → Bytes
  checks : DnssecAlgorithm → (publicKey data signature : Bytes) → Bool

/-- `parse_dnskey`, and then `verify_sig` with what it returns.  There are no keys of Ed448. -/
def Crypto.verifySig (crypto : Crypto) (algorithm : DnssecAlgorithm)
    (publicKey data signature : Bytes) : Bool :=
  algorithm ≠ .ed448 && crypto.checks algorithm publicKey data signature

/-- `ds_digest_supported`. -/
def dsDigestSupported (digest : UInt8) : Bool := digest = 1 || digest = 2 || digest = 4

/-- `algo_supported`. -/
def algoSupported (algo : UInt8) : Bool :=
  algo = 5 || algo = 7 || algo = 8 || algo = 10 || algo = 13 || algo = 14 || algo = 15

/-- `nsec3_digest_name`, as far as there is one. -/
def nsec3DigestKnown (digest : UInt8) : Bool := digest = 1

/-! ### Names -/

/-- `DnssecError`, as far as it is used. -/
inductive DnssecError where
  | tooShort
  | invalidName
  deriving DecidableEq

/-- The loop of `parse_wire_name`, on the bytes from `pos` on. -/
def parseWireNameLoop : ℕ → Bytes → List Str → ℕ → Except DnssecError (Str × ℕ)
  | 0, _, _, _ => .error .tooShort
  | _ + 1, [], _, _ => .error .tooShort
  | fuel + 1, len :: rest, labels, pos =>
    if len = 0 then .ok (joinLabels labels, pos + 1)
    else if 63 < len.toNat then .error .invalidName
    else if rest.length < len.toNat then .error .tooShort
    else
      match fromUtf8 (rest.take len.toNat) with
      | none => .error .invalidName
      | some label =>
          parseWireNameLoop fuel (rest.drop len.toNat) (labels ++ [label]) (pos + 1 + len.toNat)

/-- `parse_wire_name`.  Every turn of the loop takes at least one byte. -/
def parseWireName (buf : Bytes) : Except DnssecError (Str × ℕ) :=
  parseWireNameLoop buf.length buf [] 0

/-- `name.trim_end_matches('.')`. -/
def trimEndDots (name : Str) : Str := name.rdropWhile (· == '.')

/-- `name_to_wire`.  The empty name is one empty label, and then the root label. -/
def nameToWire (name : Str) : Option Bytes :=
  let labels := splitLabels (trimEndDots name)
  if labels.any fun label => 63 < byteLen label then none
  else some (labels.flatMap writeLabel ++ [0])

/-- `count_labels`. -/
def countLabels (name : Str) : ℕ :=
  if name = [] then 0
  else
    let dots := name.count '.'
    if name.head? = some '.' then dots else dots + 1

/-- `norm_name`. -/
def normName (name : Str) : Str := asciiLower (trimEndDots name)

/-- The comparison of labels from the last to the first, once they are reversed. -/
def cmpLabels : List Str → List Str → Ordering
  | [], [] => .eq
  | [], _ :: _ => .lt
  | _ :: _, [] => .gt
  | a :: as, b :: bs =>
    match compare (bytes (asciiLower a)) (bytes (asciiLower b)) with
    | .eq => cmpLabels as bs
    | other => other

/-- `hostname_cmp`. -/
def hostnameCmp (a b : Str) : Ordering :=
  cmpLabels (splitLabels (trimEndDots a)).reverse (splitLabels (trimEndDots b)).reverse

/-- The wildcard a name was expanded from: `"*."` and what is left without its first `skip` labels.
-/
def wildcardOf (name : Str) (skip : ℕ) : Str :=
  ['*', '.'] ++ joinLabels ((splitLabels name).drop skip)

/-! ### RDATA -/

/-- The fixed part of an RRSIG's RDATA, and what follows it. -/
structure RrsigFields where
  typeCovered : UInt16
  algorithm : UInt8
  labels : UInt8
  origTtl : UInt32
  sigExpiry : UInt32
  sigInception : UInt32
  keyTag : UInt16
  rest : Bytes

/-- The RDATA has the 18 bytes of the fixed part. -/
def rrsigFields : Bytes → Option RrsigFields
  | t₀ :: t₁ :: algorithm :: labels :: o₀ :: o₁ :: o₂ :: o₃ :: e₀ :: e₁ :: e₂ :: e₃ :: i₀ :: i₁
      :: i₂ :: i₃ :: k₀ :: k₁ :: rest =>
    some { typeCovered := ofBe16 t₀ t₁, algorithm, labels, origTtl := ofBe32 o₀ o₁ o₂ o₃
           sigExpiry := ofBe32 e₀ e₁ e₂ e₃, sigInception := ofBe32 i₀ i₁ i₂ i₃
           keyTag := ofBe16 k₀ k₁, rest }
  | _ => none

/-- `DnskeyData`. -/
structure DnskeyData where
  flags : UInt16
  protocol : UInt8
  algorithm : UInt8
  publicKey : Bytes
  deriving DecidableEq

/-- `parse_dnskey_rdata`. -/
def parseDnskeyRdata : Bytes → Option DnskeyData
  | f₀ :: f₁ :: protocol :: algorithm :: publicKey =>
      some { flags := ofBe16 f₀ f₁, protocol, algorithm, publicKey }
  | _ => none

/-- The sum of `compute_key_tag`: every other byte is a high one. -/
def keyTagSum : Bytes → Bool → UInt32 → UInt32
  | [], _, ac => ac
  | b :: rest, high, ac =>
      keyTagSum rest (!high) (if high then ac + b.toUInt32 <<< 8 else ac + b.toUInt32)

/-- `compute_key_tag`. -/
def computeKeyTag (rdata : Bytes) : UInt16 :=
  let ac := keyTagSum rdata true 0
  (ac + (ac >>> 16 &&& 0xffff) &&& 0xffff).toUInt16

/-- `DsData`. -/
structure DsData where
  keyTag : UInt16
  algorithm : UInt8
  digestType : UInt8
  digest : Bytes
  deriving DecidableEq

/-- `parse_ds_rdata`. -/
def parseDsRdata : Bytes → Option DsData
  | k₀ :: k₁ :: algorithm :: digestType :: digest =>
      some { keyTag := ofBe16 k₀ k₁, algorithm, digestType, digest }
  | _ => none

/-- The digest of a DS record for the data. -/
def Crypto.dsDigest (crypto : Crypto) (digestType : UInt8) (data : Bytes) : Option Bytes :=
  if digestType = 1 then some (crypto.sha1 data)
  else if digestType = 2 then some (crypto.sha256 data)
  else if digestType = 4 then some (crypto.sha384 data)
  else none

/-- `ds_matches_dnskey`. -/
def dsMatchesDnskey (crypto : Crypto) (ds : DsData) (dnskeyRdata : Bytes) (ownerName : Str) :
    Bool :=
  match nameToWire ownerName with
  | none => false
  | some wire => crypto.dsDigest ds.digestType (wire ++ dnskeyRdata) = some ds.digest

/-- `parse_nsec_rdata`: the next name and the types. -/
def parseNsecRdata (rdata : Bytes) : Option (Str × Bytes) :=
  match parseWireName rdata with
  | .ok (next, len) => some (next, rdata.drop len)
  | .error _ => none

/-- `Nsec3RdataFields`. -/
structure Nsec3RdataFields where
  algo : UInt8
  flags : UInt8
  iterations : ℕ
  salt : Bytes
  nextHashed : Bytes
  bitmap : Bytes
  deriving DecidableEq

/-- `parse_nsec3_rdata`. -/
def parseNsec3Rdata : Bytes → Option Nsec3RdataFields
  | algo :: flags :: i₀ :: i₁ :: saltLen :: rest =>
    match rest.drop saltLen.toNat with
    | [] => none
    | hashLen :: rest' =>
      if rest'.length < hashLen.toNat then none
      else
        some { algo, flags, iterations := (ofBe16 i₀ i₁).toNat, salt := rest.take saltLen.toNat
               nextHashed := rest'.take hashLen.toNat, bitmap := rest'.drop hashLen.toNat }
  | _ => none

/-- The windows of `type_in_bitmap`. -/
def typeInWindows (window : UInt8) (offset : ℕ) (mask : UInt8) : ℕ → Bytes → Bool
  | fuel + 1, w :: len :: rest =>
    if rest.length < len.toNat then false
    else if w = window then
      if offset < len.toNat then (rest.getD offset 0) &&& mask ≠ 0 else false
    else typeInWindows window offset mask fuel (rest.drop len.toNat)
  | _, _ => false

/-- `type_in_bitmap`.  A window has at least two bytes. -/
def typeInBitmap (bitmap : Bytes) (rrType : UInt16) : Bool :=
  typeInWindows (UInt8.ofNat (rrType.toNat / 256)) (rrType.toNat % 256 / 8)
    (0x80 >>> UInt8.ofNat (rrType.toNat % 8)) bitmap.length bitmap

/-- The value of a symbol of `base32_decode`. -/
def base32Value (ch : Char) : Option ℕ :=
  if '0' ≤ ch ∧ ch ≤ '9' then some (ch.toNat - 48)
  else if 'a' ≤ ch ∧ ch ≤ 'v' then some (ch.toNat - 97 + 10)
  else if 'A' ≤ ch ∧ ch ≤ 'V' then some (ch.toNat - 65 + 10)
  else none

/-- The bits of a number, the highest of `n` first. -/
def bitsOf (n value : ℕ) : List Bool := (List.range n).reverse.map fun i => value.testBit i

/-- Bits as bytes, eight at a time; `none` if some are left. -/
def packBits : List Bool → Option Bytes
  | [] => some []
  | b₇ :: b₆ :: b₅ :: b₄ :: b₃ :: b₂ :: b₁ :: b₀ :: rest => do
    let byte := [b₇, b₆, b₅, b₄, b₃, b₂, b₁, b₀].foldl (fun n b => 2 * n + b.toNat) 0
    return UInt8.ofNat byte :: (← packBits rest)
  | _ => none

/-- `base32_decode`: the symbols before the first dot, five bits each. -/
def base32Decode (input : Str) : Option Bytes := do
  let values ← (input.takeWhile (· ≠ '.')).mapM base32Value
  packBits (values.flatMap (bitsOf 5))

/-- The hash of `hash_name` after some more rounds. -/
def iterateHash (hash : Bytes → Bytes) (salt : Bytes) : ℕ → Bytes → Bytes
  | 0, digest => digest
  | n + 1, digest => iterateHash hash salt n (hash (digest ++ salt))

/-- `hash_name`. -/
def hashName (name : Str) (salt : Bytes) (iterations : ℕ) (hash : Bytes → Bytes) : Option Bytes :=
  (nameToWire name).map fun wire => iterateHash hash salt iterations (hash (wire ++ salt))

end DnsmasqRs.Dnssec
