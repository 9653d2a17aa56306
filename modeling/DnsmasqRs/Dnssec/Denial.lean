import DnsmasqRs.Dnssec.Rrset
import DnsmasqRs.Rfc1035.Answer

/-!
# Denial of existence

`prove_non_existence` looks for a proof that a name has no records of a type: with NSEC records,
whose owner and next name are neighbours in the zone, or with NSEC3 records, which have hashes of
the names instead.  The verdicts are those of the source (`Proof`), with the bits of the failures,
and `nons` tells whether no NS record was seen.
-/

namespace DnsmasqRs.Dnssec

open Wire Utf8 Rfc1035

/-! ### Types and failures -/

def tNs : UInt16 := 2
def tCname : UInt16 := 5
def tSoa : UInt16 := 6
def tDname : UInt16 := 39
def tDs : UInt16 := 43
def tNsec : UInt16 := 47
def tDnskey : UInt16 := 48
def tNsec3 : UInt16 := 50
def tAny : UInt16 := 255

def failUpstream : UInt32 := 0x1
def failNozone : UInt32 := 0x10
def failNokey : UInt32 := 0x20
def failNodssup : UInt32 := 0x40
def failNsec3Iters : UInt32 := 0x80
def failNonsec : UInt32 := 0x100
def failIndet : UInt32 := 0x200
def failNosig : UInt32 := 0x400
def failBadpacket : UInt32 := 0x800
def failWork : UInt32 := 0x1000

/-- `Result<(), u32>`: the bits of the failure. -/
abbrev Proof := Except UInt32 Unit

/-! ### NSEC -/

/-- `ParsedNsec`. -/
structure ParsedNsec where
  owner : Str
  next : Str
  bitmap : Bytes
  sigLabels : ℕ
  deriving DecidableEq

/-- The owner that an NSEC is compared with: the wildcard it was expanded from, if there is one. -/
def ParsedNsec.signedOwner (nsec : ParsedNsec) : Str :=
  if nsec.sigLabels < countLabels nsec.owner then
    wildcardOf nsec.owner (countLabels nsec.owner - nsec.sigLabels)
  else nsec.owner

/-- There are types at the name that go before the one that is asked for: a CNAME, or an SOA for a
DS. -/
def blockedByType (bitmap : Bytes) (labels : ℕ) (qtype : UInt16) : Bool :=
  bitmap ≠ []
    && (typeInBitmap bitmap tCname || (labels ≠ 0 && qtype = tDs && typeInBitmap bitmap tSoa))

/-- What an NSEC at the name itself says. -/
def matchVerdict (nsec : ParsedNsec) (qtype : UInt16) : Proof × Bool :=
  if qtype = tNsec ∨ qtype = tRrsig then (.ok (), true)
  else
    let nons := !(nsec.bitmap ≠ [] && typeInBitmap nsec.bitmap tNs)
    if blockedByType nsec.bitmap (countLabels nsec.owner) qtype
      || typeInBitmap nsec.bitmap qtype then (.error failNonsec, nons)
    else (.ok (), nons)

/-- The NSEC covers the name that is not its own. -/
def coversName (nsec : ParsedNsec) (name : Str) : Bool :=
  match hostnameCmp nsec.signedOwner name with
  | .eq => false
  | .lt => hostnameCmp nsec.next name ≠ .lt || hostnameCmp nsec.signedOwner nsec.next ≠ .lt
  | .gt => hostnameCmp nsec.signedOwner nsec.next ≠ .lt && hostnameCmp nsec.next name ≠ .lt

/-- A DNAME at the NSEC's owner can make an answer for the name. -/
def dnameAbove (nsec : ParsedNsec) (name : Str) : Bool :=
  typeInBitmap nsec.bitmap tDname && hostnameIssubdomain name nsec.signedOwner

/-- `prove_non_existence_nsec`. -/
def proveNonExistenceNsec (name : Str) (qtype : UInt16) : List ParsedNsec → Proof × Bool
  | [] => (.error failNonsec, true)
  | nsec :: nsecs =>
    if dnameAbove nsec name then (.error failNonsec, true)
    else if hostnameCmp nsec.signedOwner name = .eq then matchVerdict nsec qtype
    else if coversName nsec name then (.ok (), true)
    else proveNonExistenceNsec name qtype nsecs

/-! ### NSEC3 -/

/-- `ParsedNsec3`. -/
structure ParsedNsec3 where
  ownerHash : Bytes
  nextHashed : Bytes
  flags : UInt8
  bitmap : Bytes
  deriving DecidableEq

/-- `ParsedNsec3Raw`. -/
structure ParsedNsec3Raw extends ParsedNsec3 where
  algo : UInt8
  iterations : ℕ
  salt : Bytes
  deriving DecidableEq

/-- The NSEC3 covers the hash that is not its owner's. -/
def coversHash (n : ParsedNsec3) (digest : Bytes) : Bool :=
  match compare n.ownerHash digest with
  | .eq => false
  | .lt => compare n.nextHashed digest ≠ .lt || compare n.ownerHash n.nextHashed ≠ .lt
  | .gt => compare n.ownerHash n.nextHashed ≠ .lt && compare n.nextHashed digest ≠ .lt

/-- `check_nsec3_coverage`, with the new value of `nons`. -/
def checkNsec3Coverage (digest : Bytes) (qtype : UInt16) (labels : ℕ) :
    List ParsedNsec3 → Bool → Bool × Bool
  | [], nons => (false, nons)
  | n :: ns, nons =>
    if n.ownerHash.length ≠ digest.length ∨ n.nextHashed.length ≠ digest.length then
      checkNsec3Coverage digest qtype labels ns nons
    else if n.ownerHash = digest then
      let nons := if n.bitmap ≠ [] && typeInBitmap n.bitmap tNs then false else nons
      (!(blockedByType n.bitmap labels qtype || typeInBitmap n.bitmap qtype), nons)
    else if coversHash n digest then (true, if n.flags &&& 1 ≠ 0 then false else nons)
    else checkNsec3Coverage digest qtype labels ns nons

/-- What `prove_non_existence_nsec3` returns: the verdict, `nons` and the counter. -/
abbrev ProofResult := Proof × Bool × ℤ

/-- The walk of `prove_non_existence_nsec3` from the name up: the name one label below the closest
encloser, if there is one.  The name that is tried gets shorter. -/
def closestEncloser (hash : Str → Option Bytes) (pruned : List ParsedNsec3) (wildOffset : ℕ) :
    ℕ → (candidate : Str) → (nextClosest : Option Str) → (stripped : ℕ) → ℤ →
      Except UInt32 (Option Str) × ℤ
  | 0, _, _, _, counter => (.error failNonsec, counter)
  | fuel + 1, candidate, nextClosest, stripped, counter =>
    if wildOffset ≠ 0 ∧ stripped = wildOffset then (.error failNonsec, counter)
    else if counter = 0 then (.error failWork, counter)
    else
      match hash candidate with
      | none => (.error failNonsec, counter - 1)
      | some digest =>
        if pruned.any (·.ownerHash = digest) then (.ok nextClosest, counter - 1)
        else
          match Domain.splitOnce '.' candidate with
          | some (_, rest) =>
              closestEncloser hash pruned wildOffset fuel rest (some candidate) (stripped + 1)
                (counter - 1)
          | none => (.error failNonsec, counter - 1)

/-- The name is covered, once its hash is paid for. -/
def coveredAt (hash : Str → Option Bytes) (pruned : List ParsedNsec3) (qtype : UInt16) (name : Str)
    (counter : ℤ) :
    Proof × ℤ :=
  if counter = 0 then (.error failWork, counter)
  else
    match hash name with
    | none => (.error failNonsec, counter - 1)
    | some digest =>
      if (checkNsec3Coverage digest qtype 1 pruned false).1 then (.ok (), counter - 1)
      else (.error failNonsec, counter - 1)

/-- The end of `prove_non_existence_nsec3`: the name below the closest encloser is covered, and so
is the wildcard at the closest encloser. -/
def checkEncloser (hash : Str → Option Bytes) (pruned : List ParsedNsec3) (qtype : UInt16)
    (wildOffset : ℕ) (nextClosest : Str) (counter : ℤ) : Proof × ℤ :=
  match coveredAt hash pruned qtype nextClosest counter with
  | (.error fail, counter) => (.error fail, counter)
  | (.ok (), counter) =>
    if wildOffset = 0 then
      match Domain.splitOnce '.' nextClosest with
      | none => (.error failNonsec, counter)
      | some (_, rest) =>
        if rest = [] then (.error failNonsec, counter)
        else coveredAt hash pruned qtype (['*', '.'] ++ rest) counter
    else (.ok (), counter)

/-- The records that `prove_non_existence_nsec3` uses: those with the parameters of the first one.
-/
def pruneNsec3 (raw : List ParsedNsec3Raw) (chosen : ParsedNsec3Raw) : List ParsedNsec3 :=
  (raw.filter fun r => r.algo = chosen.algo && (r.flags = 0 || r.flags = 1)
    && r.iterations = chosen.iterations && r.salt = chosen.salt).map (·.toParsedNsec3)

/-- `prove_non_existence_nsec3`. -/
def proveNonExistenceNsec3 (crypto : Crypto) (raw : List ParsedNsec3Raw) (name : Str)
    (qtype : UInt16) (wildOffset : ℕ) (counter : ℤ) (itersLimit : ℕ) : ProofResult :=
  match raw.find? fun r => nsec3DigestKnown r.algo with
  | none => (.error failNonsec, true, counter)
  | some chosen =>
    if itersLimit < chosen.iterations then (.error failNsec3Iters, true, counter)
    else
      let pruned := pruneNsec3 raw chosen
      let hash (n : Str) := hashName n chosen.salt chosen.iterations crypto.sha1
      if counter = 0 then (.error failWork, true, counter)
      else
        match hash name with
        | none => (.error failNonsec, true, counter - 1)
        | some digest =>
          match checkNsec3Coverage digest qtype (countLabels name) pruned true with
          | (true, nons) => (.ok (), nons, counter - 1)
          | (false, nons) =>
            match closestEncloser hash pruned wildOffset (name.length + 1) (normName name) none 0
              (counter - 1) with
            | (.error fail, counter) => (.error fail, nons, counter)
            | (.ok none, counter) => (.error failNonsec, nons, counter)
            | (.ok (some nextClosest), counter) =>
              let (proof, counter) := checkEncloser hash pruned qtype wildOffset nextClosest counter
              (proof, nons, counter)

/-! ### Both -/

/-- The labels field of the signatures that cover an NSEC; they have to agree. -/
def sigLabels (sigs : List DnsRr) : Option ℕ → Except UInt32 (Option ℕ) :=
  match sigs with
  | [] => fun labels => .ok labels
  | sig :: sigs => fun labels =>
    match rrsigFields sig.rdata with
    | none => .error failBadpacket
    | some f =>
      if f.typeCovered ≠ tNsec then sigLabels sigs labels
      else
        match labels with
        | none => sigLabels sigs (some f.labels.toNat)
        | some l => if l ≠ f.labels.toNat then .error failNonsec else sigLabels sigs (some l)

/-- The signatures at the owner of an NSEC. -/
def sigsAt (authority : List DnsRr) (qclass : UInt16) (name : Str) : List DnsRr :=
  authority.filter fun s => s.rtype = tRrsig && s.rclass = qclass && eqIgnoreAsciiCase s.name name

/-- An NSEC of the authority section, with the labels of its signatures. -/
def readNsec (authority : List DnsRr) (qclass : UInt16) (rr : DnsRr) : Except UInt32 ParsedNsec :=
  match parseNsecRdata rr.rdata with
  | none => .error failBadpacket
  | some (next, bitmap) =>
    match sigLabels (sigsAt authority qclass rr.name) none with
    | .error fail => .error fail
    | .ok none => .error failNonsec
    | .ok (some labels) => .ok { owner := rr.name, next, bitmap, sigLabels := labels }

/-- An NSEC3 of the authority section. -/
def readNsec3 (rr : DnsRr) : Except UInt32 ParsedNsec3Raw :=
  match base32Decode rr.name with
  | none => .error failBadpacket
  | some ownerHash =>
    match parseNsec3Rdata rr.rdata with
    | none => .error failBadpacket
    | some f =>
      .ok { algo := f.algo, flags := f.flags, iterations := f.iterations, salt := f.salt, ownerHash,
            nextHashed := f.nextHashed, bitmap := f.bitmap }

/-- `prove_non_existence`, with the value `nons` had before. -/
def proveNonExistence (crypto : Crypto) (authority : List DnsRr) (name : Str)
    (qtype qclass : UInt16) (wildOffset : ℕ) (nons : Bool) (counter : ℤ) (itersLimit : ℕ) :
    ProofResult :=
  let nsecRrs := authority.filter fun r => r.rtype = tNsec && r.rclass = qclass
  let nsec3Rrs := authority.filter fun r => r.rtype = tNsec3 && r.rclass = qclass
  if nsecRrs ≠ [] ∧ nsec3Rrs ≠ [] then (.error failNonsec, nons, counter)
  else if nsecRrs ≠ [] then
    match nsecRrs.mapM (readNsec authority qclass) with
    | .error fail => (.error fail, nons, counter)
    | .ok parsed =>
      let (proof, nons) := proveNonExistenceNsec name qtype parsed
      (proof, nons, counter)
  else if nsec3Rrs ≠ [] then
    match nsec3Rrs.mapM readNsec3 with
    | .error fail => (.error fail, nons, counter)
    | .ok raw => proveNonExistenceNsec3 crypto raw name qtype wildOffset counter itersLimit
  else (.error failNonsec, nons, counter)

end DnsmasqRs.Dnssec
