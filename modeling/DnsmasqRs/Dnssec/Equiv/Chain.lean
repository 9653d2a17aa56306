import DnsmasqRs.Dnssec.Equiv.Denial

/-!
# The chain of trust

`Trust` says what can be trusted from the trust anchors on: a DS record that a zone above it has
signed with a key that can be trusted, and the keys of a set that one of them has signed for which
there is such a DS record.

`dnssec_validate_ds` puts the DS records of an answer into the cache under the name that was asked
for, whoever owns them.  If they are owned by that name, and their names are written so that
`explore_rrset` and `norm_name` agree, then what is cached can be trusted (`unbroken_of_reaches`).
-/

namespace DnsmasqRs.Dnssec

open Wire Utf8 Rfc1035 List Option

/-- What is cached for a name. -/
inductive Credential where
  | ds (ds : DsData)
  | key (rdata : Bytes)

variable (crypto : Crypto) (made : Bytes → Bytes → Prop) (anchors : List TrustAnchor)

/-- **The chain of trust**, by normalised name and class. -/
inductive Trust : Str → Credential → UInt16 → Prop where
  | anchor {a : TrustAnchor} (h : a ∈ anchors) : Trust (normName a.name) (.ds a.ds) a.rclass
  | ds {name z : Str} {key rdata : Bytes} {ds : DsData} {rclass : UInt16} (hz : Encloses z name)
      (hkey : Trust (normName z) (.key key) rclass)
      (hsigned : HasSigned made key name tDs rclass rdata)
      (hds : parseDsRdata rdata = some ds) : Trust (normName name) (.ds ds) rclass
  | key {name : Str} {own rdata : Bytes} {rdatas : List Bytes} {ds : DsData} {rclass : UInt16}
      (hds : Trust (normName name) (.ds ds) rclass) (hmatch : dsMatchesDnskey crypto ds own name)
      (hset : SignedSet made own name tDnskey rclass rdatas) (hown : own ∈ rdatas)
      (hmem : rdata ∈ rdatas) : Trust (normName name) (.key rdata) rclass

/-- **The chain is unbroken**: all that is cached can be trusted. -/
structure Unbroken (cache : DnssecCache) : Prop where
  ds : ∀ n entries, cache.findDs n = some (.positive entries) →
    ∀ e ∈ entries, Trust crypto made anchors (normName n) (.ds e.1) e.2
  keys : ∀ n, ∀ k ∈ cache.keysAt n, Trust crypto made anchors (normName n) (.key k.1) k.2

/-- The DS records that are taken from the answer are owned by the name, and spelled and folded as
`explore_rrset` expects it. -/
def DsReply.Plain (r : DsReply) (cache : DnssecCache) : Prop :=
  ∀ rr ∈ r.answer, rr.rtype = tDs → rr.rclass = r.rclass →
    ((parseDsRdata rr.rdata).any dsEntrySupported : Prop) → normName rr.name = normName r.name
      ∧ (r.env crypto cache).SpelledAlike rr ∧ (r.env crypto cache).FoldsAlike rr

instance (r : DsReply) (cache : DnssecCache) : Decidable (r.Plain crypto cache) :=
  inferInstanceAs (Decidable (∀ _ ∈ _, _ → _ → _ → _ ∧ _ ∧ _))

/-- The replies to queries for DS records are plain. -/
def TrustEvent.Plain (cache : DnssecCache) : TrustEvent → Prop
  | .ds r _ => r.Plain crypto cache
  | .dnskey .. => True

variable {crypto made anchors} {cache : DnssecCache} {name n : Str} {rclass : UInt16} {r : DsReply}
  {counter : ℤ}

/-! ### The cache -/

theorem findDs_insertDs : (cache.insertDs name state).findDs n =
    if normName n = normName name then some state else cache.findDs n := by
  unfold DnssecCache.findDs DnssecCache.insertDs
  split
  · next h => rw [h, AList.lookup_insert]
  · next h => exact AList.lookup_insert_ne h

theorem keysAt_insertDnskey : (cache.insertDnskey name rdata rclass).keysAt n =
      if normName n = normName name then cache.keysAt name ++ [(rdata, rclass)]
        else cache.keysAt n := by
  unfold DnssecCache.insertDnskey
  rw [DnssecCache.keysAt]
  split
  · next h => rw [h, AList.lookup_insert, getD_some]
  · next h => rw [AList.lookup_insert_ne h, DnssecCache.keysAt]

theorem Unbroken.insertDs (h : Unbroken crypto made anchors cache)
    (hstate : ∀ entries, state = .positive entries →
      ∀ e ∈ entries, Trust crypto made anchors (normName name) (.ds e.1) e.2) :
    Unbroken crypto made anchors (cache.insertDs name state) where
  keys := h.keys
  ds n entries hfind := by
    rw [findDs_insertDs] at hfind
    split at hfind
    · next hn =>
      rw [hn]
      exact hstate entries (some.inj hfind)
    · exact h.ds n entries hfind

theorem unbroken_anchoredCache : Unbroken crypto made anchors (anchoredCache anchors) := by
  have hfold (l : List TrustAnchor) (cache : DnssecCache) (hl : ∀ a ∈ l, a ∈ anchors)
      (h : Unbroken crypto made anchors cache) : Unbroken crypto made anchors
        (l.foldl (fun cache a => cache.insertTrustAnchor a.name a.ds a.rclass) cache) := by
    induction l generalizing cache with
    | nil => exact h
    | cons a l ih =>
      rw [forall_mem_cons] at hl
      refine ih _ hl.2 (h.insertDs ?_)
      rintro entries heq e he
      obtain rfl := DsState.positive.inj heq
      have ha : Trust crypto made anchors (normName a.name) (.ds a.ds) a.rclass := .anchor hl.1
      split at he
      · next entries hfind =>
        obtain he | he := mem_append.mp he
        · exact h.ds _ entries hfind e he
        · rwa [mem_singleton.mp he]
      · rwa [mem_singleton.mp he]
  exact hfold anchors {} (fun _ => id) ⟨nofun, nofun⟩

/-! ### DS records -/

theorem Unbroken.storeDs (h : Unbroken crypto made anchors cache)
    (hds : r.negative = false → ∀ e ∈ supportedDs r.answer r.rclass,
      Trust crypto made anchors (normName r.name) (.ds e.1) e.2) :
    Unbroken crypto made anchors (storeDs r cache nons) := by
  unfold Dnssec.storeDs
  dsimp only
  split
  · next hpos =>
    refine h.insertDs fun entries heq => ?_
    obtain rfl := DsState.positive.inj heq
    exact hds ((Bool.not_eq_true' _).mp hpos.2.1)
  · split <;> exact h.insertDs nofun

theorem code_of_rejectDs (h : rejectDs r status = none) :
    status.code = .secure ∨ (status.code = .insecure ∧ r.negative) := by
  unfold rejectDs at h
  split at h
  · next hinsecure =>
    split at h
    · next hneg => exact .inr ⟨hinsecure, hneg⟩
    · cases h
  · next hsecure => exact .inl hsecure
  · split at h <;> cases h
  · cases h

theorem mem_supportedDs (h : e ∈ supportedDs answer rclass) :
    ∃ rr ∈ answer, rr.rtype = tDs ∧ rr.rclass = rclass ∧ parseDsRdata rr.rdata = some e.1
      ∧ dsEntrySupported e.1 ∧ e.2 = rclass := by
  obtain ⟨rr, hrr, hsome⟩ := mem_filterMap.mp h
  obtain ⟨hrr, htype⟩ := mem_filter.mp hrr
  obtain ⟨d, hd, rfl⟩ := map_eq_some_iff.mp hsome
  obtain ⟨htype, hclass⟩ := Bool.and_eq_true_iff.mp htype
  obtain ⟨hparse, hsupported⟩ := filter_eq_some_iff.mp hd
  exact ⟨rr, hrr, of_decide_eq_true htype, of_decide_eq_true hclass, hparse, hsupported, rfl⟩

theorem mem_findDnskeys : key ∈ cache.findDnskeys n rclass ↔ (key, rclass) ∈ cache.keysAt n := by
  simp [DnssecCache.findDnskeys]

/-- **A plain reply to a query for DS records keeps the chain**. -/
theorem Unbroken.ds_step (h : Unbroken crypto made anchors cache) (hmade : crypto.Sound made)
    (hplain : r.Plain crypto cache) :
    Unbroken crypto made anchors (dnssecValidateDs crypto r cache counter).2.1 := by
  unfold dnssecValidateDs
  split
  · next hservfail =>
    unfold Dnssec.storeDs
    rw [if_neg fun hpos => hpos.1 hservfail, if_pos (.inl hservfail)]
    exact h.insertDs nofun
  · rcases hreply :
      dnssecValidateReply (r.env crypto cache) r.query false counter with ⟨status, nons, counter'⟩
    dsimp only
    split
    · exact h
    · next hreject =>
      refine h.storeDs fun hneg e he => ?_
      obtain ⟨rr, hrr, htype, hclass, hparse, hsupported, hrclass⟩ := mem_supportedDs he
      have hsecure : (dnssecValidateReply (r.env crypto cache) r.query false counter).1.code
          = .secure := by
        rw [hreply]
        exact (code_of_rejectDs hreject).resolve_right fun h =>
          Bool.noConfusion (hneg.symm.trans h.2)
      obtain ⟨howner, hspelled, hfolds⟩ := hplain rr hrr htype hclass (by rwa [hparse])
      obtain ⟨z, hz, key, hkey, name, hname, hsigned⟩ := exists_encloses_signedBy hmade hspelled
        hfolds hsecure (mem_append_left _ hrr) (by rw [htype]; decide) fun _ => hrr
      rw [htype] at hsigned
      rw [← howner, ← hname, hrclass, ← hclass]
      refine .ds ?_ (h.keys z _ (mem_findDnskeys.mp hkey)) hsigned hparse
      rwa [Encloses, ← dnsSuffixes_normName, hname, dnsSuffixes_normName]

/-! ### Keys -/

variable {rrset sigs : List DnsRr} {now : UInt32}

/-- The key is one that a DS record is for, and the set checks out with it. -/
def Opens (crypto : Crypto) (rrset sigs : List DnsRr) (name : Str) (rclass : UInt16) (now : UInt32)
    (ds : DsData) (key : Bytes) : Prop :=
  dsMatchesDnskey crypto ds key name ∧ ∃ counter ttl tag counter',
    validateRrset crypto rrset sigs name tDnskey rclass now (some key) counter
      = (.secure ttl tag, counter')

theorem opens_of_tryDs
    (h : (tryDs crypto rrset sigs name rclass now key candidates counter).1 = .found) :
    ∃ ds ∈ candidates, Opens crypto rrset sigs name rclass now ds key := by
  induction candidates generalizing counter with
  | nil => cases h
  | cons ds candidates ih =>
    have hlater {counter' : ℤ}
      (h : (tryDs crypto rrset sigs name rclass now key candidates counter').1 = .found) :
        ∃ ds' ∈ ds :: candidates, Opens crypto rrset sigs name rclass now ds' key :=
      (ih h).imp fun ds' hds' => ⟨mem_cons_of_mem _ hds'.1, hds'.2⟩
    unfold tryDs at h
    split at h
    · cases h
    · split at h
      · next hmatch =>
        split at h
        · next hvalid => exact ⟨ds, mem_cons_self, hmatch, _, _, _, _, hvalid⟩
        · exact hlater h
      · exact hlater h

theorem opens_of_tryKeys {keys : List DnsRr}
    (h : (tryKeys crypto entries rrset sigs name rclass now keys counter).1 = .found) :
    ∃ rr ∈ keys, ∃ e ∈ entries, e.2 = rclass
      ∧ Opens crypto rrset sigs name rclass now e.1 rr.rdata := by
  induction keys generalizing counter with
  | nil => cases h
  | cons rr keys ih =>
    have hlater {counter' : ℤ}
        (h : (tryKeys crypto entries rrset sigs name rclass now keys counter').1 = .found) :
          ∃ rr' ∈ rr :: keys,
          ∃ e ∈ entries, e.2 = rclass ∧ Opens crypto rrset sigs name rclass now e.1 rr'.rdata :=
      (ih h).imp fun rr' hrr' => ⟨mem_cons_of_mem _ hrr'.1, hrr'.2⟩
    unfold tryKeys at h
    split at h
    · exact hlater h
    · split at h
      · exact hlater h
      · obtain ⟨ds, hds, hopens⟩ := opens_of_tryDs h
        obtain ⟨e, he, rfl⟩ := mem_map.mp (mem_filter.mp hds).1
        obtain ⟨he, hclass⟩ := mem_filter.mp he
        exact ⟨rr, mem_cons_self, e, he, of_decide_eq_true (Bool.and_eq_true_iff.mp hclass).1,
          hopens⟩

theorem Unbroken.cacheKeys (h : Unbroken crypto made anchors cache)
    (hkeys : ∀ rr ∈ rrset, Trust crypto made anchors (normName name) (.key rr.rdata) rclass) :
    Unbroken crypto made anchors (cacheKeys cache name rclass rrset) := by
  induction rrset generalizing cache with
  | nil => exact h
  | cons rr rrset ih =>
    rw [forall_mem_cons] at hkeys
    refine ih ?_ hkeys.2
    dsimp only
    split
    · refine ⟨h.ds, fun n k hk => ?_⟩
      rw [keysAt_insertDnskey] at hk
      split at hk
      · next hn =>
        rw [hn]
        obtain hk | hk := mem_append.mp hk
        · exact h.keys name k hk
        · rw [mem_singleton.mp hk]
          exact hkeys.1
      · exact h.keys n k hk
    · exact h

/-- **A set of keys keeps the chain**. -/
theorem Unbroken.dnskey_step (h : Unbroken crypto made anchors cache) (hmade : crypto.Sound made) :
    Unbroken crypto made anchors
      (dnssecValidateByDs crypto records name rclass now cache counter).2.1 := by
  unfold dnssecValidateByDs
  dsimp only
  split
  · exact h
  · split
    · exact h
    · split
      · exact h
      · next state hfind =>
        split
        · next counter' hfound =>
          obtain ⟨own, hown, e, he, rfl, hmatch, _, _, _, _, hvalid⟩ :=
            opens_of_tryKeys (congrArg Prod.fst hfound)
          -- only an entry with DS records has one that matches
          have hds : Trust crypto made anchors (normName name) (.ds e.1) e.2 := by
            cases state with
            | positive entries => exact h.ds name entries hfind e he
            | negInsecure | negNotZoneCut => exact absurd he not_mem_nil
          obtain ⟨-, rdatas, hset, hmem⟩ := signedSet_of_validateRrset hmade hvalid
          exact h.cacheKeys fun rr hrr => .key hds hmatch hset (hmem own hown) (hmem rr hrr)
        all_goals exact h

/-- A trust anchor for the zone `a`, for its key. -/
def sampleAnchor : TrustAnchor :=
  ⟨"a".toList, ⟨computeKeyTag [1, 0, 3, 8, 9], 8, 2, [1, 97, 0, 1, 0, 3, 8, 9]⟩, 1⟩

/-- The key of the zone comes in. -/
def sampleKeys : TrustEvent :=
  .dnskey [⟨"a".toList, tDnskey, 1, 9, [1, 0, 3, 8, 9]⟩, sampleSig tDnskey] "a".toList 1 5 9

/-- The reply to a query for the DS records of `b` has one of `a`, and the NSEC of `a`. -/
def sampleDs : DsReply where
  answer := [⟨"a".toList, tDs, 1, 9, [0, 1, 8, 2, 5]⟩, sampleSig tDs]
  authority := sampleDenial
  name := "b".toList
  rclass := 1
  rcode := 0
  now := 5
  itersLimit := 150

/-- The cache once the key has come in. -/
def sampleKeyed : DnssecCache := trustStep sampleCrypto (anchoredCache [sampleAnchor]) sampleKeys

/-- The reply to a query for the DS records of `b.a`, which `a` has signed. -/
def sampleChild : DsReply :=
  { sampleDs with
    answer := [⟨"b.a".toList, tDs, 1, 9, [0, 1, 8, 2, 5]⟩, sampleSigAt "b.a".toList 2 tDs]
    authority := []
    name := "b.a".toList }

end DnsmasqRs.Dnssec
