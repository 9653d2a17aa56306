import DnsmasqRs.Lib.Lru
import DnsmasqRs.Lib.Unicode
import DnsmasqRs.Types

/-!
# The DNS cache (`cache.rs`)

A bounded map from lower-cased names with type bits to records.  The map is the `lru` crate's, taken
as any `Lru`.  Inserting a reply's records is a transaction: they are validated and collected one by
one, and all of them are committed at the end, or none if one was refused.
-/

namespace DnsmasqRs.Cache

open Wire Utf8

/-- `TYPE_MASK`. -/
def typeMask : UInt32 :=
  fIpv4 ||| fIpv6 ||| fCname ||| fNeg ||| fNxdomain ||| fReverse ||| fDnskey ||| fDs ||| fRr
    ||| fDnssec

/-- `type_flags`. -/
def typeFlags (flags : UInt32) : UInt32 := flags &&& typeMask

/-- `CacheKey`. -/
structure CacheKey where
  name : Str
  flags : UInt32
  deriving DecidableEq

/-- `CacheRecord`. -/
structure CacheRecord where
  name : Str
  flags : UInt32
  ttl : UInt32
  expires : Instant
  addr : Option AllAddr := none
  rdata : Option Bytes := none
  uid : UInt32 := uidNone
  deriving DecidableEq

/-- The key that a record is stored under. -/
def CacheRecord.key (rec : CacheRecord) : CacheKey := ⟨toLowercase rec.name, typeFlags rec.flags⟩

/-- The record comes from the configuration, a hosts file or DHCP. -/
def CacheRecord.isStatic (rec : CacheRecord) : Bool :=
  rec.flags &&& (fHosts ||| fDhcp ||| fConfig) != 0

/-- `record_is_expired`. -/
def recordIsExpired (rec : CacheRecord) (now : Instant) : Bool :=
  rec.flags &&& fImmortal == 0 && rec.expires ≤ now

/-- `DnsCache`. -/
structure DnsCache (M : Type) where
  maxSize : ℕ
  records : M
  minCacheTtl : UInt32
  maxCacheTtl : UInt32
  inserts : ℕ
  evictions : ℕ
  hits : ℕ
  misses : ℕ
  newChain : List CacheRecord
  insertError : Bool

/-- `InsertOutcome`. -/
inductive InsertOutcome where
  | inserted
  | zeroTtlDropped
  | blockedSameAddr
  | blockedConflict
  | cachingDisabled
  deriving DecidableEq

/-- `PreparedInsert`. -/
inductive PreparedInsert where
  | new (rec : CacheRecord)
  | sameAddr (rec : CacheRecord)
  deriving DecidableEq

/-- `DNSSEC_MIN_TTL`. -/
def dnssecMinTtl : UInt32 := 60

/-- An address record holds the address that is there already. -/
def sameAddress : Option AllAddr → Option AllAddr → Bool
  | some (.addr4 a), some (.addr4 b) => a == b
  | some (.addr6 a), some (.addr6 b) => a == b
  | _, _ => false

namespace DnsCache

variable {M : Type}

/-- The TTL of a record from a reply, between the configured bounds. -/
def boundTtl (c : DnsCache M) (rec : CacheRecord) : UInt32 :=
  if rec.flags &&& (fDnskey ||| fDs) != 0 then
    (if rec.ttl < dnssecMinTtl then dnssecMinTtl else rec.ttl)
  else
    let ttl := if c.maxCacheTtl != 0 && c.maxCacheTtl < rec.ttl then c.maxCacheTtl else rec.ttl
    if c.minCacheTtl != 0 && ttl < c.minCacheTtl then c.minCacheTtl else ttl

variable [Lru M CacheKey CacheRecord]

variable (c : DnsCache M) (name : Str) (rec : CacheRecord) (now : Instant)

/-- `DnsCache::insert`. -/
def insert : DnsCache M :=
  if c.maxSize = 0 then c
  else
    { c with
      records := Lru.put c.records rec.key rec
      inserts := c.inserts + 1
      evictions := if (Lru.entries c.records).length = c.maxSize then c.evictions + 1
        else c.evictions }

/-- The conflict detection of `prepare_insert`, and the size test behind it. -/
def checkConflict : Except InsertOutcome PreparedInsert :=
  match Lru.peek c.records rec.key with
  | some existing =>
    if existing.isStatic && !rec.isStatic then
      if sameAddress existing.addr rec.addr then .ok (.sameAddr rec) else .error .blockedConflict
    else if c.maxSize = 0 then .error .cachingDisabled
    else .ok (.new rec)
  | none => if c.maxSize = 0 then .error .cachingDisabled else .ok (.new rec)

/-- `DnsCache::prepare_insert`. -/
def prepareInsert : Except InsertOutcome PreparedInsert :=
  if rec.isStatic then c.checkConflict rec
  else
    let ttl := c.boundTtl rec
    if ttl = 0 ∧ rec.flags &&& fImmortal = 0 then .error .zeroTtlDropped
    else c.checkConflict { rec with ttl, expires := now + fromSecs ttl.toNat }

/-- `DnsCache::really_insert`. -/
def reallyInsert : DnsCache M × InsertOutcome :=
  match c.prepareInsert rec now with
  | .ok (.new r) => (c.insert r, .inserted)
  | .ok (.sameAddr _) => (c, .blockedSameAddr)
  | .error outcome => (c, outcome)

/-- `DnsCache::start_insert`. -/
def startInsert : DnsCache M := { c with newChain := [], insertError := false }

/-- `DnsCache::stage_insert`. -/
def stageInsert : DnsCache M × Option InsertOutcome :=
  if c.insertError then (c, none)
  else
    match c.prepareInsert rec now with
    | .ok (.new r) => ({ c with newChain := c.newChain ++ [r] }, some .inserted)
    | .ok (.sameAddr _) => (c, some .blockedSameAddr)
    | .error outcome => ({ c with insertError := true }, some outcome)

/-- `DnsCache::is_outdated_cname_pointer`. -/
def isOutdatedCnamePointer : Bool :=
  rec.flags &&& fCname != 0 &&
    match rec.addr with
    | some (.cname target) =>
      !target.isNamePtr &&
        match target.targetName with
        | none => true
        | some name =>
          !(Lru.entries c.records).any fun (k, r) =>
            k.name == toLowercase name && r.flags &&& (fDnskey ||| fDs) == 0 && r.uid == target.uid
    | _ => false

/-- The loop of `end_insert` over the staged records. -/
def commit (staged : List CacheRecord) : DnsCache M × ℕ :=
  staged.foldl (fun (c, n) rec => if c.isOutdatedCnamePointer rec then (c, n)
    else (c.insert rec, n + 1)) (c, 0)

/-- `DnsCache::end_insert`. -/
def endInsert : DnsCache M × ℕ :=
  if c.insertError then ({ c with newChain := [], insertError := false }, 0)
  else ({ c with newChain := [] } : DnsCache M).commit c.newChain

/-! ### Lookups -/

/-- Drop the record of a key if it has expired. -/
def dropExpired (key : CacheKey) (now : Instant) : DnsCache M :=
  if (Lru.peek c.records key).any (recordIsExpired · now) then
    { c with records := Lru.pop c.records key }
  else c

/-- `DnsCache::lookup_by_name`. -/
def lookupByName (flags : UInt32) (now : Instant) : DnsCache M × Option CacheRecord :=
  let key : CacheKey := ⟨toLowercase name, typeFlags flags⟩
  let c := c.dropExpired key now
  match Lru.peek c.records key with
  | some rec => ({ c with records := Lru.touch c.records key, hits := c.hits + 1 }, some rec)
  | none => ({ c with misses := c.misses + 1 }, none)

/-- `DnsCache::lookup_forward`: the record, or the negative one of the same type. -/
def lookupForward (flags : UInt32) (now : Instant) : DnsCache M × Option CacheRecord :=
  let positive : CacheKey := ⟨toLowercase name, typeFlags flags⟩
  let negative : CacheKey := ⟨toLowercase name, typeFlags flags ||| fNeg⟩
  let hit (c : DnsCache M) (key : CacheKey) (rec : CacheRecord) :=
    ({ c with records := Lru.touch c.records key, hits := c.hits + 1 }, some rec)
  let c := c.dropExpired positive now
  match Lru.peek c.records positive with
  | some rec => hit c positive rec
  | none =>
    let c := c.dropExpired negative now
    match Lru.peek c.records negative with
    | some rec => hit c negative rec
    | none => ({ c with misses := c.misses + 1 }, none)

/-- `DnsCache::lookup_by_addr`: all expired records are dropped first. -/
def lookupByAddr (addr : AllAddr) (now : Instant) : DnsCache M × Option CacheRecord :=
  let c := (Lru.entries c.records).foldl (fun c e => c.dropExpired e.1 now) c
  match (Lru.entries c.records).find? fun e => sameAddress e.2.addr (some addr) with
  | some (key, rec) => ({ c with records := Lru.touch c.records key, hits := c.hits + 1 }, some rec)
  | none => ({ c with misses := c.misses + 1 }, none)

/-- `DnsCache::lookup_negative`. -/
def lookupNegative (nxdomain : Bool) (now : Instant) : DnsCache M × Option CacheRecord :=
  c.lookupByName name (if nxdomain then fNeg ||| fNxdomain else fNeg) now

/-- The keys of the records with a property, in the order of use. -/
def keysWhere (p : CacheRecord → Bool) : List CacheKey :=
  ((Lru.entries c.records).filter fun e => p e.2).map Prod.fst

/-- Drop the records of the keys; the functions that count evictions do so for each. -/
def dropKeys (keys : List CacheKey) (counted : Bool) : DnsCache M :=
  { c with
    records := keys.foldl Lru.pop c.records
    evictions := if counted then c.evictions + keys.length else c.evictions }

/-- Count a lookup of several records as one hit or one miss. -/
def countLookup (found : List CacheRecord) : DnsCache M :=
  if found.isEmpty then { c with misses := c.misses + 1 } else { c with hits := c.hits + 1 }

/-- The record is a forward record of `name` with one of the type bits. -/
def answersName (bits : UInt32) (rec : CacheRecord) : Bool :=
  toLowercase rec.name == toLowercase name && rec.flags &&& fForward != 0 && rec.flags &&& bits != 0

/-- `DnsCache::lookup_all_by_name`. -/
def lookupAllByName (protMask : UInt32) (now : Instant) : DnsCache M × List CacheRecord :=
  let c := c.dropKeys (c.keysWhere (recordIsExpired · now)) true
  let found := ((Lru.entries c.records).map Prod.snd).filter (answersName name (typeFlags protMask))
  (c.countLookup found, found)

/-- `DnsCache::lookup_prot`. -/
def lookupProt (protMask : UInt32) (now : Instant) : DnsCache M × Option CacheRecord :=
  let (c, found) := c.lookupAllByName name protMask now
  (c, found.head?)

/-- `DnsCache::lookup_all_by_addr`. -/
def lookupAllByAddr (addr : AllAddr) (protMask : UInt32) (now : Instant) :
    DnsCache M × List CacheRecord :=
  let c :=
    c.dropKeys (c.keysWhere fun rec => rec.flags &&& fReverse != 0 && recordIsExpired rec now) true
  let found := ((Lru.entries c.records).map Prod.snd).filter fun rec =>
    rec.flags &&& fReverse != 0 && rec.flags &&& typeFlags protMask != 0
      && sameAddress rec.addr (some addr)
  (c.countLookup found, found)

/-! ### Removing records -/

/-- `DnsCache::evict_expired`. -/
def evictExpired : DnsCache M × UInt32 :=
  let keys := c.keysWhere (recordIsExpired · now)
  (c.dropKeys keys true, UInt32.ofNat keys.length)

/-- `DnsCache::expire_old`. -/
def expireOld : DnsCache M :=
  c.dropKeys (c.keysWhere (recordIsExpired · now)) false

/-- `DnsCache::remove_by_uid`. -/
def removeByUid (uid : UInt32) : DnsCache M × UInt32 :=
  if uid = uidNone then (c, 0)
  else
    let keys := c.keysWhere fun rec => rec.uid == uid && rec.isStatic
    (c.dropKeys keys false, UInt32.ofNat keys.length)

/-! ### What is read off a record -/

/-- `DnsCache::crec_ttl`. -/
def crecTtl : UInt32 :=
  if rec.flags &&& fImmortal != 0 then rec.ttl
  else UInt32.ofNat (min ((rec.expires - now) / fromSecs 1) (2 ^ 32 - 1))

/-- `cache_find_non_terminal`. -/
def cacheFindNonTerminal : Bool :=
  (Lru.entries c.records).any fun (_, rec) =>
    !recordIsExpired rec now && rec.flags &&& fForward != 0 && rec.flags &&& fNxdomain == 0
      && eqIgnoreAsciiCase rec.name name

end DnsCache

end DnsmasqRs.Cache
