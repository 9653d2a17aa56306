import DnsmasqRs.Dnssec.Records

/-!
# Signed sets of records

`explore_rrset` picks the records of one name, class and type, and the signatures that cover them,
from all those of a reply.  `validate_rrset` rebuilds the bytes that were signed and checks them
with a key.

The names of a reply are compared in lower case, and this is the lower case of Unicode.
-/

namespace DnsmasqRs.Dnssec

open Wire Utf8 Rfc1035

/-! ### Sorting -/

/-- One pass of `sort_rrset`, from a record on: neighbours in the wrong order are swapped, and of
two with the same RDATA the later is removed. -/
def sortPass (rr : DnsRr) : List DnsRr → List DnsRr × Bool
  | [] => ([rr], false)
  | next :: rest =>
    match compare rr.rdata next.rdata with
    | .gt => (next :: (sortPass rr rest).1, true)
    | .eq => sortPass rr rest
    | .lt => (rr :: (sortPass next rest).1, (sortPass next rest).2)

/-- The passes of `sort_rrset`, until nothing is swapped. -/
def sortPasses : ℕ → List DnsRr → List DnsRr
  | _, [] => []
  | 0, rrset => rrset
  | fuel + 1, rr :: rest =>
    let (sorted, swapped) := sortPass rr rest
    if swapped then sortPasses fuel sorted else sorted

/-- `sort_rrset`.  There are at most as many passes as records. -/
def sortRrset (rrset : List DnsRr) : List DnsRr := sortPasses rrset.length rrset

/-! ### Records and signatures of a name -/

/-- The type of RRSIG records. -/
def tRrsig : UInt16 := 46

/-- The name is the signer's or below it, both in lower case. -/
def enclosesLower (signer name : Str) : Bool :=
  signer = [] || name = signer || ('.' :: signer).isSuffixOf name

/-- The record is a signature that `explore_rrset` takes for the type. -/
def isCovering (name : Str) (rrtype : UInt16) (rr : DnsRr) : Bool :=
  rr.rtype = tRrsig && (rrsigFields rr.rdata).any fun f =>
    f.typeCovered = rrtype &&
      match parseWireName f.rest with
      | .ok (signer, _) => enclosesLower (toLowercase signer) (toLowercase name)
      | .error _ => false

/-- The record has the name and class that `explore_rrset` looks for. -/
def isAt (name : Str) (rrclass : UInt16) (rr : DnsRr) : Bool :=
  toLowercase rr.name = toLowercase name && rr.rclass = rrclass

/-- `explore_rrset`: the records, and the signatures.  A record of the type itself is never a
signature. -/
def exploreRrset (records : List DnsRr) (name : Str) (rrclass rrtype : UInt16) :
    List DnsRr × List DnsRr :=
  let here := records.filter (isAt name rrclass)
  (here.filter (·.rtype = rrtype), here.filter fun rr => rr.rtype ≠ rrtype
    && isCovering name rrtype rr)

/-! ### Signatures -/

/-- `RrsetValidation`. -/
inductive RrsetValidation where
  | secure (ttl : UInt32) (keyTag : UInt16)
  | needKey (signer : Str) (keyTag : UInt16)
  | bogus
  | noSignatures
  deriving DecidableEq

/-- `rr_ttl`. -/
def rrTtl (rrset : List DnsRr) : UInt32 := rrset.foldl (fun ttl rr => min ttl rr.ttl) 0xffffffff

/-- The signer of an RRSIG as `validate_rrset` reads it: the root if there is no name. -/
def signerOf (f : RrsigFields) : Str :=
  match parseWireName f.rest with
  | .ok (signer, _) => signer
  | .error _ => []

/-- A record as it is signed. -/
def signedRr (wireOwner : Bytes) (rrtype rrclass : UInt16) (origTtl : UInt32) (rdata : Bytes) :
    Bytes :=
  wireOwner ++ be16 rrtype ++ be16 rrclass ++ be32 origTtl ++ be16 (UInt16.ofNat rdata.length)
    ++ rdata

/-- The owner as it is signed: the name, or the wildcard it was expanded from if the signature has
fewer labels. -/
def signedOwner (name : Str) (labels : ℕ) : Str :=
  if labels < countLabels name then wildcardOf name (countLabels name - labels) else name

/-- The bytes that `validate_rrset` takes to be signed, with the wire forms of the signer and of the
owner. -/
def signedData (rdata wireSigner wireOwner : Bytes) (rrtype rrclass : UInt16) (origTtl : UInt32)
    (sorted : List DnsRr) : Bytes :=
  rdata.take 18 ++ wireSigner ++ sorted.flatMap fun rr =>
    signedRr wireOwner rrtype rrclass origTtl rr.rdata

/-- One turn of the loop of `validate_rrset`, for a key: the result, if the signature checks out. -/
def trySignature (crypto : Crypto) (sorted : List DnsRr) (name : Str) (rrtype rrclass : UInt16)
    (now : UInt32) (key : Bytes) (rdata : Bytes) (f : RrsigFields) : Option RrsetValidation := do
  let algorithm ← DnssecAlgorithm.ofByte f.algorithm
  let wireSigner ← nameToWire (signerOf f)
  let wireOwner ← nameToWire (signedOwner name f.labels.toNat)
  -- the signature follows the signer's name, as long as that is when it is written again
  let sigStart := 18 + wireSigner.length
  if rdata.length ≤ sigStart then none
  else
    let dnskey ← parseDnskeyRdata key
    if crypto.verifySig algorithm dnskey.publicKey
        (signedData rdata wireSigner wireOwner rrtype rrclass f.origTtl sorted)
          (rdata.drop sigStart) then
      some (.secure (min (min (rrTtl sorted) f.origTtl) (f.sigExpiry - now)) f.keyTag)
    else none

/-- The signature is to be tried: the time is right, and it has no more labels than the name. -/
def isCurrent (name : Str) (now : UInt32) (f : RrsigFields) : Bool :=
  f.sigInception ≤ now && now ≤ f.sigExpiry && f.labels.toNat ≤ countLabels name

/-- The loop of `validate_rrset`, with the counter of `dec_counter`: an `i32`, which goes down from
a limit and stays at 0. -/
def validateLoop (crypto : Crypto) (sorted : List DnsRr) (name : Str) (rrtype rrclass : UInt16)
    (now : UInt32) (key : Option Bytes) : List DnsRr → ℤ → RrsetValidation × ℤ
  | [], counter => (.bogus, counter)
  | sig :: sigs, counter =>
    if counter = 0 then (.bogus, counter)
    else
      match rrsigFields sig.rdata with
      | none => validateLoop crypto sorted name rrtype rrclass now key sigs (counter - 1)
      | some f =>
        if isCurrent name now f then
          match key with
          | none => (.needKey (signerOf f) f.keyTag, counter - 1)
          | some key =>
            match trySignature crypto sorted name rrtype rrclass now key sig.rdata f with
            | some result => (result, counter - 1)
            | none =>
                validateLoop crypto sorted name rrtype rrclass now (some key) sigs (counter - 1)
        else validateLoop crypto sorted name rrtype rrclass now key sigs (counter - 1)

/-- `validate_rrset`, with what is left of the counter. -/
def validateRrset (crypto : Crypto) (rrset rrsigs : List DnsRr) (name : Str)
    (rrtype rrclass : UInt16) (now : UInt32) (key : Option Bytes) (counter : ℤ) :
    RrsetValidation × ℤ :=
  if rrsigs = [] then (.noSignatures, counter)
  else validateLoop crypto (sortRrset rrset) name rrtype rrclass now key rrsigs counter

end DnsmasqRs.Dnssec
