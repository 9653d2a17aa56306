import DnsmasqRs.Equiv.CacheEntries

/-!
# How long a static record stays

A run of cache operations keeps a record from a hosts file, DHCP or the configuration exactly as
long as no record is written that takes its place (`static_permanent_iff`).  A record takes its
place if it has the same key, which the conflict test keeps out of transactions but not out of
`insert`, or if it is a new one in a full cache where the static record is the least recently used
(`Displaces`).  Expiry and the lookups do nothing to it.
-/

namespace DnsmasqRs.Cache

open Lru Utf8 List Option

/-! ### Operations -/

/-- An operation of the cache. -/
inductive CacheOp where
  | insert (rec : CacheRecord)
  | reallyInsert (rec : CacheRecord) (now : Instant)
  | startInsert
  | stageInsert (rec : CacheRecord) (now : Instant)
  | endInsert
  | lookupByName (name : Str) (flags : UInt32) (now : Instant)
  | lookupForward (name : Str) (flags : UInt32) (now : Instant)
  | lookupByAddr (addr : AllAddr) (now : Instant)
  | lookupNegative (name : Str) (nxdomain : Bool) (now : Instant)
  | lookupAllByName (name : Str) (protMask : UInt32) (now : Instant)
  | lookupProt (name : Str) (protMask : UInt32) (now : Instant)
  | lookupAllByAddr (addr : AllAddr) (protMask : UInt32) (now : Instant)
  | evictExpired (now : Instant)
  | expireOld (now : Instant)
  | removeByUid (uid : UInt32)

namespace CacheOp

/-- The record that an operation is given to write or to stage. -/
def given : CacheOp → Option CacheRecord
  | insert rec => some rec
  | reallyInsert rec _ => some rec
  | stageInsert rec _ => some rec
  | _ => none

/-- The records that an operation may drop. -/
def Drops : CacheOp → CacheRecord → Prop
  | removeByUid uid, rec => rec.uid = uid ∧ rec.isStatic
  | _, rec => ∃ now, recordIsExpired rec now

/-- The operation neither brings a static record of the key nor removes the records of the source.
-/
structure Quiet (op : CacheOp) (key : CacheKey) (uid : UInt32) : Prop where
  given : ∀ rec, op.given = some rec → rec.key = key → rec.isStatic = false
  uid : op ≠ removeByUid uid

end CacheOp

namespace DnsCache

variable {M : Type} [Lru M CacheKey CacheRecord]

/-- The cache after an operation. -/
def apply (c : DnsCache M) : CacheOp → DnsCache M
  | .insert rec => c.insert rec
  | .reallyInsert rec now => (c.reallyInsert rec now).1
  | .startInsert => c.startInsert
  | .stageInsert rec now => (c.stageInsert rec now).1
  | .endInsert => c.endInsert.1
  | .lookupByName name flags now => (c.lookupByName name flags now).1
  | .lookupForward name flags now => (c.lookupForward name flags now).1
  | .lookupByAddr addr now => (c.lookupByAddr addr now).1
  | .lookupNegative name nxdomain now => (c.lookupNegative name nxdomain now).1
  | .lookupAllByName name protMask now => (c.lookupAllByName name protMask now).1
  | .lookupProt name protMask now => (c.lookupProt name protMask now).1
  | .lookupAllByAddr addr protMask now => (c.lookupAllByAddr addr protMask now).1
  | .evictExpired now => (c.evictExpired now).1
  | .expireOld now => c.expireOld now
  | .removeByUid uid => (c.removeByUid uid).1

/-- The cache after a run of operations. -/
def run (c : DnsCache M) (ops : List CacheOp) : DnsCache M := ops.foldl apply c

/-- The records of a batch that `end_insert` does not leave out. -/
def kept (c : DnsCache M) : List CacheRecord → List CacheRecord
  | [] => []
  | rec :: recs =>
      if c.isOutdatedCnamePointer rec then c.kept recs else rec :: (c.insert rec).kept recs

/-- The records that an operation writes. -/
def writes (c : DnsCache M) : CacheOp → List CacheRecord
  | .insert rec => [rec]
  | .reallyInsert rec now =>
    match c.prepareInsert rec now with
    | .ok (.new r) => [r]
    | _ => []
  | .endInsert =>
      if c.insertError then [] else ({ c with newChain := [] } : DnsCache M).kept c.newChain
  | _ => []

/-- Writing the record takes the place of the one under the key. -/
def Displaces (c : DnsCache M) (key : CacheKey) (rec : CacheRecord) : Prop :=
  c.maxSize ≠ 0 ∧ (rec.key = key ∨ peek c.records rec.key = none ∧ Full c.records
      ∧ (entries c.records).getLast?.map Prod.fst = some key)

/-- No record that is written takes the place of the one under the key. -/
def SparedBy (key : CacheKey) : DnsCache M → List CacheRecord → Prop
  | _, [] => True
  | c, rec :: recs => ¬c.Displaces key rec ∧ SparedBy key (c.insert rec) recs

/-- No operation of a run writes a record that takes the place of the one under the key. -/
def SparedAlong (key : CacheKey) : DnsCache M → List CacheOp → Prop
  | _, [] => True
  | c, op :: ops => SparedBy key c (c.writes op) ∧ SparedAlong key (c.apply op) ops

/-! ### What an operation does -/

theorem foldl_commitStep_eq_kept (c : DnsCache M) (recs : List CacheRecord) :
    recs.foldl commitStep c = (c.kept recs).foldl insert c := by
  induction recs generalizing c with
  | nil => rfl
  | cons rec recs ih =>
    rw [foldl_cons, commitStep, kept]
    split_ifs
    · exact ih c
    · exact ih (c.insert rec)

variable {recs : List CacheRecord}

theorem mem_of_mem_kept {c : DnsCache M} {rec : CacheRecord} (h : rec ∈ c.kept recs) :
    rec ∈ recs := by
  induction recs generalizing c with
  | nil => cases h
  | cons r recs ih =>
    rw [kept] at h
    split_ifs at h
    · exact mem_cons_of_mem _ (ih h)
    · rcases mem_cons.mp h with rfl | hrest
      · exact mem_cons_self
      · exact mem_cons_of_mem _ (ih hrest)

/-- Only the records and the size of a cache matter to what is written. -/
theorem records_foldl_insert_congr {c c' : DnsCache M} (hrecords : c.records = c'.records)
    (hsize : c.maxSize = c'.maxSize) :
    (recs.foldl insert c).records = (recs.foldl insert c').records := by
  induction recs generalizing c c' with
  | nil => exact hrecords
  | cons rec recs ih =>
    have hinsert : (c.insert rec).records = (c'.insert rec).records := by
      by_cases hzero : c'.maxSize = 0
      · rw [insert, insert, if_pos (hsize.trans hzero), if_pos hzero, hrecords]
      · rw [records_insert fun h => hzero (hsize.symm.trans h), records_insert hzero, hrecords]
    exact ih hinsert (by rw [maxSize_insert, maxSize_insert, hsize])

theorem mem_writes {c : DnsCache M} {op : CacheOp} (h : r ∈ c.writes op) : r ∈ c.newChain ∨
      ∃ rec, op.given = some rec ∧ r = { rec with ttl := r.ttl, expires := r.expires } := by
  cases op with
  | insert rec => exact .inr ⟨rec, rfl, by rw [mem_singleton.mp h]⟩
  | reallyInsert rec now =>
    unfold writes at h
    dsimp only at h
    split at h
    · next r' hprepare =>
      rw [mem_singleton.mp h]
      exact .inr ⟨rec, rfl, eq_of_prepareInsert hprepare⟩
    · cases h
  | endInsert =>
    unfold writes at h
    split_ifs at h
    · cases h
    · exact .inl (mem_of_mem_kept h)
  | _ => cases h

section

variable (c : DnsCache M) (name : Str) (flags : UInt32) (now : Instant)

theorem newChain_insert (rec : CacheRecord) : (c.insert rec).newChain = c.newChain := by
  unfold insert
  split_ifs <;> rfl

theorem newChain_foldl_insert (recs : List CacheRecord) :
    (recs.foldl insert c).newChain = c.newChain := by
  induction recs generalizing c with
  | nil => rfl
  | cons rec recs ih => rw [foldl_cons, ih, newChain_insert]

theorem newChain_dropExpired (key : CacheKey) (now : Instant) :
    (c.dropExpired key now).newChain = c.newChain := by
  unfold dropExpired
  split_ifs <;> rfl

theorem newChain_foldl_dropExpired (es : List (CacheKey × CacheRecord)) (now : Instant) :
    (es.foldl (fun c e => c.dropExpired e.1 now) c).newChain = c.newChain := by
  induction es generalizing c with
  | nil => rfl
  | cons e es ih => rw [foldl_cons, ih, newChain_dropExpired]

theorem newChain_lookupByName :
    (c.lookupByName name flags now).1.newChain = c.newChain := by
  unfold lookupByName
  dsimp only
  split <;> exact newChain_dropExpired c _ now

theorem newChain_lookupForward :
    (c.lookupForward name flags now).1.newChain = c.newChain := by
  unfold lookupForward
  dsimp only
  split
  · exact newChain_dropExpired c _ now
  · split <;> exact (newChain_dropExpired _ _ now).trans (newChain_dropExpired c _ now)

theorem newChain_lookupByAddr (addr : AllAddr) (now : Instant) :
    (c.lookupByAddr addr now).1.newChain = c.newChain := by
  unfold lookupByAddr
  dsimp only
  split <;> exact newChain_foldl_dropExpired c _ now

end

omit [Lru M CacheKey CacheRecord] in
theorem newChain_countLookup (c : DnsCache M) (found : List CacheRecord) :
    (c.countLookup found).newChain = c.newChain := by
  unfold countLookup
  split_ifs <;> rfl

theorem mem_newChain_apply {c : DnsCache M} {op : CacheOp} (h : r ∈ (c.apply op).newChain) :
    r ∈ c.newChain
      ∨ ∃ rec, op.given = some rec ∧ r = { rec with ttl := r.ttl, expires := r.expires } := by
  have hsame : (c.apply op).newChain = c.newChain → r ∈ c.newChain := fun heq => heq ▸ h
  cases op with
  | insert rec => exact .inl (hsame (newChain_insert c rec))
  | reallyInsert rec now =>
    refine .inl (hsame ?_)
    show (c.reallyInsert rec now).1.newChain = c.newChain
    unfold reallyInsert
    split
    · exact newChain_insert c _
    · rfl
    · rfl
  | startInsert => cases h
  | stageInsert rec now =>
    rcases stageInsert_cases c rec now with ⟨ttl, expires, -, -, heq⟩ | ⟨e, heq⟩
    · rw [show c.apply (.stageInsert rec now) = _ from heq, mem_append, mem_singleton] at h
      rcases h with hold | rfl
      · exact .inl hold
      · exact .inr ⟨rec, rfl, rfl⟩
    · exact .inl (hsame (by rw [show c.apply (.stageInsert rec now) = _ from heq]))
  | endInsert =>
    have hempty : (c.apply .endInsert).newChain = [] := by
      show c.endInsert.1.newChain = []
      unfold endInsert
      split_ifs
      · rfl
      · rw [fst_commit, foldl_commitStep_eq_kept, newChain_foldl_insert]
    rw [hempty] at h
    cases h
  | lookupByName name flags now => exact .inl (hsame (newChain_lookupByName c name flags now))
  | lookupForward name flags now => exact .inl (hsame (newChain_lookupForward c name flags now))
  | lookupByAddr addr now => exact .inl (hsame (newChain_lookupByAddr c addr now))
  | lookupNegative name nxdomain now => exact .inl (hsame (newChain_lookupByName c name _ now))
  | lookupAllByName name protMask now | lookupProt name protMask now
  | lookupAllByAddr addr protMask now => exact .inl (hsame (newChain_countLookup _ _))
  | evictExpired now | expireOld now => exact .inl h
  | removeByUid uid =>
    refine .inl (hsame ?_)
    show (c.removeByUid uid).1.newChain = c.newChain
    unfold removeByUid
    split_ifs <;> rfl

section Lawful

variable [LawfulLru M CacheKey CacheRecord]

/-- An operation writes its records, or drops some. -/
theorem apply_cases (c : DnsCache M) (op : CacheOp) :
    (c.apply op).records = ((c.writes op).foldl insert c).records ∨
      c.writes op = [] ∧ OnlyDrops op.Drops c.records (c.apply op).records := by
  cases op with
  | insert | startInsert => exact .inl rfl
  | reallyInsert rec now =>
    left
    show (c.reallyInsert rec now).1.records = _
    unfold reallyInsert writes
    dsimp only
    cases hprepare : c.prepareInsert rec now with
    | error outcome => rfl
    | ok prepared =>
      cases prepared with
      | new | sameAddr => rfl
  | stageInsert rec now =>
    left
    show (c.stageInsert rec now).1.records = c.records
    rcases stageInsert_cases c rec now with ⟨ttl, expires, -, -, heq⟩ | ⟨e, heq⟩
    all_goals rw [heq]
  | endInsert =>
    left
    show c.endInsert.1.records = _
    unfold endInsert writes
    split_ifs
    · rfl
    · rw [fst_commit, foldl_commitStep_eq_kept]
      have hrecords : ({ c with newChain := [] } : DnsCache M).records = c.records := rfl
      exact records_foldl_insert_congr hrecords rfl
  | lookupByName name flags now =>
    exact .inr ⟨rfl, (onlyDrops_lookupByName c name flags now).mono fun _ h => ⟨now, h⟩⟩
  | lookupForward name flags now =>
    exact .inr ⟨rfl, (onlyDrops_lookupForward c name flags now).mono fun _ h => ⟨now, h⟩⟩
  | lookupByAddr addr now =>
    exact .inr ⟨rfl, (onlyDrops_lookupByAddr c addr now).mono fun _ h => ⟨now, h⟩⟩
  | lookupNegative name nxdomain now =>
    exact .inr ⟨rfl, (onlyDrops_lookupByName c name _ now).mono fun _ h => ⟨now, h⟩⟩
  | lookupAllByName name protMask now | lookupProt name protMask now =>
    exact .inr ⟨rfl, (onlyDrops_lookupAllByName).mono fun _ h => ⟨now, h⟩⟩
  | lookupAllByAddr addr protMask now =>
    exact .inr ⟨rfl, (onlyDrops_lookupAllByAddr).mono fun _ h => ⟨now, h⟩⟩
  | evictExpired now | expireOld now =>
    exact .inr ⟨rfl, onlyDrops_dropKeys (fun _ h => ⟨now, h⟩)⟩
  | removeByUid uid =>
    refine .inr ⟨rfl, ?_⟩
    show OnlyDrops _ c.records (c.removeByUid uid).1.records
    unfold removeByUid
    split_ifs
    · exact .refl _
    · refine onlyDrops_dropKeys (fun rec h => ?_)
      rw [Bool.and_eq_true, beq_iff_eq] at h
      exact h

end Lawful

/-! ### What a run keeps -/

/-- The batch and the run bring no static record under the key, and the run does not remove the
source. -/
structure Undisturbed (c : DnsCache M) (ops : List CacheOp) (key : CacheKey) (uid : UInt32) :
    Prop where
  batch : ∀ r ∈ c.newChain, r.key = key → r.isStatic = false
  quiet : ∀ op ∈ ops, op.Quiet key uid

section Undisturbed

variable {c : DnsCache M} {key : CacheKey} {rec : CacheRecord} {op : CacheOp} {ops : List CacheOp}
  {uid : UInt32}

omit [Lru M CacheKey CacheRecord] in
theorem Undisturbed.not_static (h : Undisturbed c (op :: ops) key uid) {r r' : CacheRecord}
    (hgiven : op.given = some r') (heq : r = { r' with ttl := r.ttl, expires := r.expires })
    (hkey : r.key = key) : r.isStatic = false := by
  rw [heq] at hkey ⊢
  exact (h.quiet op mem_cons_self).given r' hgiven hkey

theorem Undisturbed.tail (h : Undisturbed c (op :: ops) key uid) :
    Undisturbed (c.apply op) ops key uid := by
  refine ⟨fun r hr hkey => ?_, fun op' hop' => h.quiet op' (mem_cons_of_mem _ hop')⟩
  rcases mem_newChain_apply hr with hold | ⟨r', hgiven, heq⟩
  · exact h.batch r hold hkey
  · exact h.not_static hgiven heq hkey

/-- What is written under the key is not the static record. -/
theorem Undisturbed.ne_of_writes (h : Undisturbed c (op :: ops) key uid) (hstatic : rec.isStatic) :
    ∀ r ∈ c.writes op, r.key = key → r ≠ rec := by
  rintro r hr hkey rfl
  have hnot : r.isStatic = false := by
    rcases mem_writes hr with hold | ⟨r', hgiven, heq⟩
    · exact h.batch r hold hkey
    · exact h.not_static hgiven heq hkey
  rw [hstatic] at hnot
  cases hnot

end Undisturbed

variable [RecencyLru M CacheKey CacheRecord] {c : DnsCache M} {key : CacheKey} {rec : CacheRecord}

/-- Writing a record keeps another one exactly if it does not take its place. -/
theorem peek_insert_iff (hpeek : peek c.records key = some rec)
    (hne : r.key = key → r ≠ rec) : peek (c.insert r).records key = some rec
      ↔ ¬c.Displaces key r := by
  by_cases hsize : c.maxSize = 0
  · rw [insert, if_pos hsize]
    exact iff_of_true hpeek fun h => h.1 hsize
  · rw [records_insert hsize]
    by_cases hkey : r.key = key
    · rw [← hkey, LawfulLru.peek_put_self]
      exact iff_of_false (fun h => hne hkey (some.inj h)) (not_not.mpr ⟨hsize, .inl rfl⟩)
    · rw [peek_put_iff (Ne.symm hkey) hpeek, Displaces, and_iff_right hsize, or_iff_right hkey]
      -- the key tells which entry is the last one
      have hlast : (entries c.records).getLast? = some (key, rec) ↔
          (entries c.records).getLast?.map Prod.fst = some key := by
        constructor
        · intro h
          rw [h]
          rfl
        · intro h
          obtain ⟨⟨k, v⟩, hget, rfl⟩ := map_eq_some_iff.mp h
          have hmem := (LawfulLru.mem_entries c.records k v).mp (mem_of_getLast? hget)
          rw [hpeek] at hmem
          rw [hget, some.inj hmem]
      rw [hlast]

theorem ne_of_foldl_insert (hother : ∀ r ∈ recs, r.key = key → r ≠ rec)
    (hlost : peek c.records key ≠ some rec) :
    peek (recs.foldl insert c).records key ≠ some rec := by
  induction recs generalizing c with
  | nil => exact hlost
  | cons r recs ih =>
    rw [forall_mem_cons] at hother
    refine ih hother.2 ?_
    by_cases hsize : c.maxSize = 0
    · rw [insert, if_pos hsize]
      exact hlost
    · rw [records_insert hsize]
      by_cases hkey : key = r.key
      · rw [hkey, LawfulLru.peek_put_self]
        exact fun h => hother.1 hkey.symm (some.inj h)
      · rcases LawfulLru.peek_put_of_ne c.records r.key r key hkey with heq | ⟨hnone, -⟩
        · rwa [heq]
        · rw [hnone]
          rintro ⟨⟩

/-- Writing records keeps another one exactly if none of them takes its place. -/
theorem peek_foldl_insert_iff (hother : ∀ r ∈ recs, r.key = key → r ≠ rec)
    (hpeek : peek c.records key = some rec) :
    peek (recs.foldl insert c).records key = some rec ↔ SparedBy key c recs := by
  induction recs generalizing c with
  | nil => exact iff_of_true hpeek trivial
  | cons r recs ih =>
    rw [forall_mem_cons] at hother
    rw [foldl_cons, SparedBy, ← peek_insert_iff hpeek hother.1]
    by_cases hkept : peek (c.insert r).records key = some rec
    · rw [and_iff_right hkept]
      exact ih hother.2 hkept
    · exact iff_of_false (ne_of_foldl_insert hother.2 hkept) fun h => hkept h.1

theorem ne_of_run {ops : List CacheOp} {uid : UInt32} (h : Undisturbed c ops key uid)
    (hstatic : rec.isStatic) (hlost : peek c.records key ≠ some rec) :
    peek (c.run ops).records key ≠ some rec := by
  induction ops generalizing c with
  | nil => exact hlost
  | cons op ops ih =>
    refine ih h.tail ?_
    rcases apply_cases c op with heq | ⟨-, hdrops⟩
    · rw [heq]
      exact ne_of_foldl_insert (h.ne_of_writes hstatic) hlost
    · exact fun hback => hlost (hdrops.peek_eq_some hback)

/-- One operation keeps a static record exactly if none of the records that it writes takes its
place. -/
theorem peek_apply_iff {op : CacheOp} {ops : List CacheOp}
    (h : Undisturbed c (op :: ops) key rec.uid) (hstatic : rec.isStatic)
    (himmortal : rec.flags &&& fImmortal ≠ 0) (hpeek : peek c.records key = some rec) :
    peek (c.apply op).records key = some rec ↔ SparedBy key c (c.writes op) := by
  rcases apply_cases c op with heq | ⟨hwrites, hdrops⟩
  · rw [heq]
    exact peek_foldl_insert_iff (h.ne_of_writes hstatic) hpeek
  · have hstays : ¬op.Drops rec := by
      have halive : ¬∃ now, recordIsExpired rec now := by
        rintro ⟨now, hexpired⟩
        rw [recordIsExpired, Bool.and_eq_true, beq_iff_eq] at hexpired
        exact himmortal hexpired.1
      cases op with
      | removeByUid uid =>
        rintro ⟨huid, -⟩
        exact (h.quiet _ mem_cons_self).uid (by rw [huid])
      | _ => exact halive
    rw [hwrites]
    exact iff_of_true (hdrops.keep hpeek hstays) trivial

/-- **How long a static record stays**: a run that brings no static record under its key and does
not remove its source keeps it exactly if no record written on the way takes its place. -/
theorem static_permanent_iff {ops : List CacheOp} (hstatic : rec.isStatic = true)
    (himmortal : rec.flags &&& fImmortal ≠ 0) (hpeek : peek c.records key = some rec)
    (h : Undisturbed c ops key rec.uid) : peek (c.run ops).records key = some rec
      ↔ SparedAlong key c ops := by
  induction ops generalizing c with
  | nil => exact iff_of_true hpeek trivial
  | cons op ops ih =>
    rw [SparedAlong, ← peek_apply_iff h hstatic himmortal hpeek]
    by_cases hkept : peek (c.apply op).records key = some rec
    · rw [and_iff_right hkept]
      exact ih hkept h.tail
    · have hlost : peek ((c.apply op).run ops).records key ≠ some rec :=
        ne_of_run h.tail hstatic hkept
      exact iff_of_false hlost fun hs => hkept hs.1

end DnsCache

/-- A name from a hosts file. -/
def hostsRecord : CacheRecord where
  name := ['a']
  flags := fIpv4 ||| fForward ||| fHosts ||| fImmortal
  ttl := 0
  expires := fromSecs 3600
  addr := some (.addr4 ⟨#v[192, 0, 2, 1]⟩)
  uid := 1

/-- Another name from a reply. -/
def otherRecord : CacheRecord where
  name := ['b']
  flags := fIpv4 ||| fForward
  ttl := 60
  expires := fromSecs 60
  addr := some (.addr4 ⟨#v[192, 0, 2, 2]⟩)

/-- A cache for one record, which holds the name from the hosts file. -/
def fullCache : DnsCache (ListLru CacheKey CacheRecord) where
  maxSize := 1
  records := ⟨1, [(⟨['a'], fIpv4⟩, hostsRecord)], by decide, nodup_singleton _, by decide⟩
  minCacheTtl := 0
  maxCacheTtl := 0
  inserts := 1
  evictions := 0
  hits := 0
  misses := 0
  newChain := []
  insertError := false

theorem undisturbed_fullCache :
    fullCache.Undisturbed [.reallyInsert otherRecord 0] ⟨['a'], fIpv4⟩ hostsRecord.uid where
  batch := nofun
  quiet op hop := by
    rw [mem_singleton.mp hop]
    refine ⟨fun rec hgiven _ => ?_, nofun⟩
    cases hgiven
    decide

/-- One answer from upstream is enough to lose the name. -/
theorem lost_fullCache :
    peek fullCache.records ⟨['a'], fIpv4⟩ = some hostsRecord ∧ hostsRecord.isStatic = true ∧
      hostsRecord.flags &&& fImmortal ≠ 0 ∧
      fullCache.Undisturbed [.reallyInsert otherRecord 0] ⟨['a'], fIpv4⟩ hostsRecord.uid ∧
      peek (fullCache.run [.reallyInsert otherRecord 0]).records ⟨['a'], fIpv4⟩ = none :=
  ⟨by decide, by decide, by decide, undisturbed_fullCache, by decide +kernel⟩

/-- The condition for that run. -/
theorem static_permanent_iff_fullCache :
    peek (fullCache.run [.reallyInsert otherRecord 0]).records ⟨['a'], fIpv4⟩ = some hostsRecord ↔
      DnsCache.SparedAlong ⟨['a'], fIpv4⟩ fullCache [.reallyInsert otherRecord 0] :=
  DnsCache.static_permanent_iff (by decide) (by decide) (by decide) undisturbed_fullCache

end DnsmasqRs.Cache
