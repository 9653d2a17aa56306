import Mathlib.Data.List.AList
import DnsmasqRs.Dnssec.Denial

/-!
# The chain of trust

`DnssecCache` has the DS records and keys that are known, `zone_status` looks up whether a name is
in a signed zone, `dnssec_validate_reply` validates a reply, and `dnssec_validate_ds` and
`dnssec_validate_by_ds` put what the replies to queries for DS and DNSKEY records say into the
cache.
-/

namespace DnsmasqRs.Dnssec

open Wire Utf8 Rfc1035

/-! ### Status -/

/-- `StatCode`. -/
inductive StatCode where
  | secure
  | insecure
  | bogus
  | needKey (name : Str) (rclass : UInt16)
  | needDs (name : Str) (rclass : UInt16)
  | abandoned
  deriving DecidableEq

/-- `ValidateStatus`. -/
structure ValidateStatus where
  code : StatCode
  fail : UInt32 := 0
  deriving DecidableEq

namespace ValidateStatus

def secure : ValidateStatus := { code := .secure }
def insecure : ValidateStatus := { code := .insecure }
def bogus (fail : UInt32) : ValidateStatus := { code := .bogus, fail }
def needKey (name : Str) (rclass : UInt16) : ValidateStatus := { code := .needKey name rclass }
def needDs (name : Str) (rclass : UInt16) : ValidateStatus := { code := .needDs name rclass }
def abandoned : ValidateStatus := { code := .abandoned }

end ValidateStatus

/-! ### The cache -/

/-- `DsState`. -/
inductive DsState where
  | positive (entries : List (DsData × UInt16))
  | negInsecure
  | negNotZoneCut
  deriving DecidableEq

/-- `DnssecCache`, by normalised names. -/
structure DnssecCache where
  ds : AList (fun _ : Str => DsState) := ∅
  dnskey : AList (fun _ : Str => List (Bytes × UInt16)) := ∅

namespace DnssecCache

variable (cache : DnssecCache) (name : Str)

/-- `find_ds`. -/
def findDs : Option DsState := cache.ds.lookup (normName name)

/-- `insert_trust_anchor`. -/
def insertTrustAnchor (ds : DsData) (rclass : UInt16) : DnssecCache :=
  let entries := match cache.findDs name with
    | some (.positive entries) => entries ++ [(ds, rclass)]
    | _ => [(ds, rclass)]
  { cache with ds := cache.ds.insert (normName name) (.positive entries) }

/-- `insert_ds_positive`, `insert_ds_neg_insecure` and `insert_ds_neg_not_zone_cut`. -/
def insertDs (state : DsState) : DnssecCache :=
  { cache with ds := cache.ds.insert (normName name) state }

/-- The keys for a name, of all classes. -/
def keysAt : List (Bytes × UInt16) := (cache.dnskey.lookup (normName name)).getD []

/-- `insert_dnskey`. -/
def insertDnskey (rdata : Bytes) (rclass : UInt16) : DnssecCache :=
  { cache with
    dnskey := cache.dnskey.insert (normName name) (cache.keysAt name ++ [(rdata, rclass)]) }

/-- `find_dnskeys`. -/
def findDnskeys (rclass : UInt16) : List Bytes :=
  ((cache.keysAt name).filter fun k => k.2 = rclass).map (·.1)

end DnssecCache

/-- `dns_suffixes`: from the root to the whole name. -/
def dnsSuffixes (name : Str) : List Str :=
  let name := normName name
  if name = [] then [[]]
  else [] :: (List.range (splitLabels name).length).reverse.map fun i =>
    joinLabels ((splitLabels name).drop i)

/-- `ds_entry_supported`. -/
def dsEntrySupported (ds : DsData) : Bool :=
  dsDigestSupported ds.digestType && algoSupported ds.algorithm

/-- Some DS record is for the class and can be used. -/
def usable (entries : List (DsData × UInt16)) (rclass : UInt16) : Bool :=
  entries.any fun e => e.2 = rclass && dsEntrySupported e.1

/-- The second phase of `zone_status`: down from the trust anchor. -/
def walkDown (cache : DnssecCache) (rclass : UInt16) : List Str → ValidateStatus
  | [] => .secure
  | suffix :: suffixes =>
    match cache.findDs suffix with
    | none => .needDs suffix rclass
    | some .negInsecure => .insecure
    | some .negNotZoneCut => walkDown cache rclass suffixes
    | some (.positive entries) =>
        if usable entries rclass then walkDown cache rclass suffixes else .insecure

/-- The first phase of `zone_status`: the suffixes from the longest one with an entry on, or all of
them. -/
def fromAnchor (cache : DnssecCache) (suffixes : List Str) : List Str :=
  match suffixes.reverse.findIdx? fun suffix => (cache.findDs suffix).isSome with
  | some i => suffixes.drop (suffixes.length - 1 - i)
  | none => suffixes

/-- `zone_status`. -/
def zoneStatus (name : Str) (rclass : UInt16) (cache : DnssecCache) : ValidateStatus :=
  walkDown cache rclass (fromAnchor cache (dnsSuffixes name))

/-! ### Keys -/

/-- The key of a DNSKEY record that can be tried against the DS records: protocol 3, and a zone key.
-/
def zoneKey (rr : DnsRr) : Option DnskeyData :=
  (parseDnskeyRdata rr.rdata).filter fun key => key.protocol = 3 && key.flags &&& 0x0100 ≠ 0

/-- The DS records of the class that `dnssec_validate_by_ds` tries for a key. -/
def dsCandidates (entries : List (DsData × UInt16)) (rclass : UInt16) (key : DnskeyData)
    (rdata : Bytes) : List DsData :=
  ((entries.filter fun e => e.2 = rclass && dsDigestSupported e.1.digestType).map (·.1)).filter
    fun ds => ds.algorithm = key.algorithm && ds.keyTag = computeKeyTag rdata

/-- How the loops of `dnssec_validate_by_ds` end. -/
inductive KeySearch where
  | found
  | abandoned
  | notFound
  deriving DecidableEq

/-- The DS records for one key: the key has to match one, and the set has to check out with it. -/
def tryDs (crypto : Crypto) (rrset rrsigs : List DnsRr) (name : Str) (rclass : UInt16)
    (now : UInt32) (rdata : Bytes) : List DsData → ℤ → KeySearch × ℤ
  | [], counter => (.notFound, counter)
  | ds :: rest, counter =>
    if counter = 0 then (.abandoned, counter)
    else if dsMatchesDnskey crypto ds rdata name then
      match validateRrset crypto rrset rrsigs name tDnskey rclass now (some rdata)
        (counter - 1) with
      | (.secure _ _, counter) => (.found, counter)
      | (_, counter) => tryDs crypto rrset rrsigs name rclass now rdata rest counter
    else tryDs crypto rrset rrsigs name rclass now rdata rest (counter - 1)

/-- The keys of the set, one after the other. -/
def tryKeys (crypto : Crypto) (entries : List (DsData × UInt16)) (rrset rrsigs : List DnsRr)
    (name : Str) (rclass : UInt16) (now : UInt32) : List DnsRr → ℤ → KeySearch × ℤ
  | [], counter => (.notFound, counter)
  | rr :: rest, counter =>
    match zoneKey rr with
    | none => tryKeys crypto entries rrset rrsigs name rclass now rest counter
    | some key =>
      match tryDs crypto rrset rrsigs name rclass now rr.rdata
        (dsCandidates entries rclass key rr.rdata) counter with
      | (.notFound, counter) => tryKeys crypto entries rrset rrsigs name rclass now rest counter
      | other => other

/-- The bits for a set of keys that was not found good. -/
def keyFailure (entries : List (DsData × UInt16)) (rrset : List DnsRr) (rclass : UInt16) : UInt32 :=
  let zoneKeys := rrset.any fun rr => (zoneKey rr).isSome
  let digests := entries.any fun e => e.2 = rclass && dsDigestSupported e.1.digestType
  (if zoneKeys then 0 else failNozone) ||| (if zoneKeys && digests then 0 else failNodssup)
    ||| failNokey

/-- The keys that are cached once the set has been found good. -/
def cacheKeys (cache : DnssecCache) (name : Str) (rclass : UInt16) (rrset : List DnsRr) :
    DnssecCache :=
  rrset.foldl (fun cache rr =>
    if (parseDnskeyRdata rr.rdata).any (·.protocol = 3) then cache.insertDnskey name rr.rdata rclass
    else cache) cache

/-- `dnssec_validate_by_ds`. -/
def dnssecValidateByDs (crypto : Crypto) (records : List DnsRr) (name : Str) (rclass : UInt16)
    (now : UInt32) (cache : DnssecCache) (counter : ℤ) : ValidateStatus × DnssecCache × ℤ :=
  let (rrset, rrsigs) := exploreRrset records name rclass tDnskey
  if rrset = [] then (.bogus failNokey, cache, counter)
  else if rrsigs = [] then (.bogus failNosig, cache, counter)
  else
    match cache.findDs name with
    | none => (.needDs (normName name) rclass, cache, counter)
    | some state =>
      let entries := match state with
        | .positive entries => entries
        | _ => []
      match tryKeys crypto entries rrset rrsigs name rclass now rrset counter with
      | (.found, counter) => (.secure, cacheKeys cache name rclass rrset, counter)
      | (.abandoned, counter) => (.abandoned, cache, counter)
      | (.notFound, counter) => (.bogus (keyFailure entries rrset rclass), cache, counter)

/-! ### Replies -/

/-- The record is one of the type at the (normalised) name. -/
def isRecord (name : Str) (rtype rclass : UInt16) (rr : DnsRr) : Bool :=
  normName rr.name = name && rr.rtype = rtype && rr.rclass = rclass

/-- The CNAME chase of `dnssec_validate_reply`: the last name, and whether it has an answer.  No
name is taken twice, so there are no more turns than records. -/
def chaseCname (answer : List DnsRr) (qtype qclass : UInt16) : ℕ → List Str → Str → Str × Bool
  | 0, _, target => (target, false)
  | fuel + 1, visited, target =>
    if target ∈ visited then (target, false)
    else if answer.any (isRecord target qtype qclass) then (target, true)
    else
      match answer.find? (isRecord target tCname qclass) with
      | none => (target, false)
      | some rr =>
        match parseWireName rr.rdata with
        | .ok (next, _) => chaseCname answer qtype qclass fuel (target :: visited) (normName next)
        | .error _ => (target, false)

/-- The name that needs an answer or a proof, and whether it has an answer. -/
def findTarget (answer : List DnsRr) (qname : Str) (qtype qclass : UInt16) : Str × Bool :=
  if qtype ≠ tCname ∧ qtype ≠ tAny then
    chaseCname answer qtype qclass (answer.length + 2) [] (normName qname)
  else
    (normName qname, answer.any fun r =>
      normName r.name = normName qname && r.rclass = qclass && (qtype = tAny || r.rtype = qtype))

/-- The signer that all the signatures name, or the failure. -/
def commonSigner : List DnsRr → Option Str → Except UInt32 (Option Str)
  | [], signer => .ok signer
  | sig :: sigs, signer =>
    match rrsigFields sig.rdata with
    | none => .error failBadpacket
    | some f =>
      match parseWireName f.rest with
      | .error _ => .error failBadpacket
      | .ok (s, _) =>
        match signer with
        | none => commonSigner sigs (some s)
        | some existing =>
          if eqIgnoreAsciiCase existing s then commonSigner sigs (some existing)
          else .error failNosig

/-- The keys of a zone, until the set checks out with one. -/
def tryZoneKeys (crypto : Crypto) (rrset rrsigs : List DnsRr) (name : Str) (rtype rclass : UInt16)
    (now : UInt32) :
    List Bytes → ℤ → Bool × ℤ
  | [], counter => (false, counter)
  | key :: keys, counter =>
    match validateRrset crypto rrset rrsigs name rtype rclass now (some key) counter with
    | (.secure _ _, counter) => (true, counter)
    | (_, counter) => tryZoneKeys crypto rrset rrsigs name rtype rclass now keys counter

/-- What the section loop of `dnssec_validate_reply` makes of one set: it goes on, with the flag, or
returns. -/
inductive SetVerdict where
  | secure
  | insecure
  | ignored
  | stop (status : ValidateStatus)
  deriving DecidableEq

/-- What does not change during the loop. -/
structure ReplyEnv where
  crypto : Crypto
  cache : DnssecCache
  answer : List DnsRr
  authority : List DnsRr
  now : UInt32
  checkUnsigned : Bool
  dsMode : Bool

/-- The sections together. -/
def ReplyEnv.combined (env : ReplyEnv) : List DnsRr := env.answer ++ env.authority

/-- A set with its signatures, once it has to be validated. -/
def validateSet (env : ReplyEnv) (rr : DnsRr) (rrset rrsigs : List DnsRr) (counter : ℤ) :
    SetVerdict × ℤ :=
  match commonSigner rrsigs none with
  | .error fail => (.stop (.bogus fail), counter)
  | .ok signer =>
    let zoneName := signer.getD rr.name
    let zs := zoneStatus zoneName rr.rclass env.cache
    match zs.code with
    | .insecure => (.insecure, counter)
    | .secure =>
      let keys := env.cache.findDnskeys zoneName rr.rclass
      if keys = [] then (.stop (.needKey zoneName rr.rclass), counter)
      else
        match tryZoneKeys env.crypto rrset rrsigs rr.name rr.rtype rr.rclass env.now keys
          counter with
        | (true, counter) => (.secure, counter)
        | (false, counter) => (.stop (.bogus failNokey), counter)
    | _ => (.stop zs, counter)

/-- One set of the reply. -/
def checkSet (env : ReplyEnv) (rr : DnsRr) (counter : ℤ) : SetVerdict × ℤ :=
  let inAnswer := env.answer.any (isRecord (normName rr.name) rr.rtype rr.rclass)
  let (rrset, rrsigs) := exploreRrset env.combined rr.name rr.rclass rr.rtype
  if rrsigs = [] then
    if rr.rtype = tNsec ∨ rr.rtype = tNsec3 then (.stop (.bogus failNosig), counter)
    else if env.dsMode ∧ !inAnswer then (.ignored, counter)
    else if !env.checkUnsigned || !inAnswer then (.insecure, counter)
    else validateSet env rr rrset rrsigs counter
  else validateSet env rr rrset rrsigs counter

/-- What makes two records ones of the same set. -/
def setKey (rr : DnsRr) : Str × UInt16 × UInt16 := (normName rr.name, rr.rtype, rr.rclass)

/-- The loop of `dnssec_validate_reply` over the records: the status it returns, or the flag. -/
def checkSets (env : ReplyEnv) :
    List DnsRr → List (Str × UInt16 × UInt16) → (flag : ValidateStatus) → ℤ →
    Except ValidateStatus ValidateStatus × ℤ
  | [], _, flag, counter => (.ok flag, counter)
  | rr :: rrs, seen, flag, counter =>
    if rr.rtype = tRrsig then checkSets env rrs seen flag counter
    else if setKey rr ∈ seen then checkSets env rrs seen flag counter
    else
      match checkSet env rr counter with
      | (.secure, counter) | (.ignored, counter) =>
          checkSets env rrs (setKey rr :: seen) flag counter
      | (.insecure, counter) => checkSets env rrs (setKey rr :: seen) .insecure counter
      | (.stop status, counter) => (.error status, counter)

/-- A question, and what the header of the reply says. -/
structure ReplyQuery where
  qname : Str
  qtype : UInt16
  qclass : UInt16
  rcode : UInt8
  itersLimit : ℕ

/-- The end of `dnssec_validate_reply` for a missing answer. -/
def missingAnswer (env : ReplyEnv) (q : ReplyQuery) (target : Str) (flag : ValidateStatus)
    (nons : Bool) (counter : ℤ) : ValidateStatus × Bool × ℤ :=
  match proveNonExistence env.crypto env.authority target q.qtype q.qclass 0 nons counter
    q.itersLimit with
  | (.ok (), nons, counter) => (flag, nons, counter)
  | (.error fail, nons, counter) =>
    let zs := zoneStatus target q.qclass env.cache
    if fail &&& (failNonsec ||| failNsec3Iters) ≠ 0 ∧ zs.code ≠ .secure then (zs, nons, counter)
    else (.bogus fail, nons, counter)

/-- `dnssec_validate_reply`, with `nons` and the counter.  Without a place for `nons` it is `true`,
and not returned. -/
def dnssecValidateReply (env : ReplyEnv) (q : ReplyQuery) (nons : Bool) (counter : ℤ) :
    ValidateStatus × Bool × ℤ :=
  if q.rcode = 2 then (.bogus failUpstream, nons, counter)
  else if q.rcode ≠ 3 ∧ q.rcode ≠ 0 then (.insecure, nons, counter)
  else if q.qtype = tRrsig then (.insecure, nons, counter)
  else
    let (target, answered) := findTarget env.answer q.qname q.qtype q.qclass
    match checkSets env env.combined [] .secure counter with
    | (.error status, counter) => (status, nons, counter)
    | (.ok flag, counter) =>
        if answered then (flag, nons, counter) else missingAnswer env q target flag nons counter

/-! ### DS records -/

/-- The DS records of an answer that can be used. -/
def supportedDs (answer : List DnsRr) (rclass : UInt16) : List (DsData × UInt16) :=
  (answer.filter fun r => r.rtype = tDs && r.rclass = rclass).filterMap fun rr =>
    ((parseDsRdata rr.rdata).filter dsEntrySupported).map (·, rclass)

/-- A reply to a query for DS records. -/
structure DsReply where
  answer : List DnsRr
  authority : List DnsRr
  name : Str
  rclass : UInt16
  rcode : UInt8
  now : UInt32
  itersLimit : ℕ

/-- The reply has no DS record. -/
def DsReply.negative (r : DsReply) : Bool :=
  !r.answer.any fun rr => rr.rtype = tDs && rr.rclass = r.rclass

def DsReply.env (r : DsReply) (crypto : Crypto) (cache : DnssecCache) : ReplyEnv where
  crypto
  cache
  answer := r.answer
  authority := r.authority
  now := r.now
  checkUnsigned := false
  dsMode := true

def DsReply.query (r : DsReply) : ReplyQuery where
  qname := r.name
  qtype := tDs
  qclass := r.rclass
  rcode := r.rcode
  itersLimit := r.itersLimit

/-- What `dnssec_validate_ds` does once a reply is not to be rejected. -/
def storeDs (r : DsReply) (cache : DnssecCache) (nons : Bool) : DnssecCache :=
  let entries := supportedDs r.answer r.rclass
  if r.rcode ≠ 2 ∧ !r.negative ∧ entries ≠ [] then cache.insertDs r.name (.positive entries)
  else if r.rcode = 2 ∨ nons then cache.insertDs r.name .negNotZoneCut
  else cache.insertDs r.name .negInsecure

/-- The status of the reply is one that `dnssec_validate_ds` returns, or nothing if it goes on. -/
def rejectDs (r : DsReply) (status : ValidateStatus) : Option ValidateStatus :=
  match status.code with
  | .insecure => if r.negative then none else some (.bogus failIndet)
  | .secure => none
  | .needKey needed _ => if normName needed = normName r.name then some (.bogus 0) else some status
  | _ => some status

/-- `dnssec_validate_ds`. -/
def dnssecValidateDs (crypto : Crypto) (r : DsReply) (cache : DnssecCache) (counter : ℤ) :
    ValidateStatus × DnssecCache × ℤ :=
  if r.rcode = 2 then (.secure, storeDs r cache false, counter)
  else
    match dnssecValidateReply (r.env crypto cache) r.query false counter with
    | (status, nons, counter) =>
      match rejectDs r status with
      | some status => (status, cache, counter)
      | none => (.secure, storeDs r cache nons, counter)

end DnsmasqRs.Dnssec
