import DnsmasqRs.Equiv.StaticRecords

/-!
# What a cache serves

However its operations follow one another, a cache that was empty at first finds only records that
one of them was given, but for their lifetimes, each under the name and the type it is asked for,
and none that has expired (`served_of_run`).
-/

namespace DnsmasqRs.Cache.DnsCache

open Lru Utf8 List Option

variable {M : Type} [Lru M CacheKey CacheRecord] [LawfulLru M CacheKey CacheRecord] {c : DnsCache M}
  {P : CacheRecord → Prop}

/-- The records are under their own keys, and they and the staged ones have the property. -/
structure Holds (P : CacheRecord → Prop) (c : DnsCache M) : Prop where
  stored : ∀ k r, peek c.records k = some r → k = r.key ∧ P r
  staged : ∀ r ∈ c.newChain, P r

theorem Holds.foldl_insert {recs : List CacheRecord}
    (h : ∀ k r, peek c.records k = some r → k = r.key ∧ P r) (hrecs : ∀ r ∈ recs, P r) :
    ∀ k r, peek (recs.foldl insert c).records k = some r → k = r.key ∧ P r := by
  induction recs generalizing c with
  | nil => exact h
  | cons rec recs ih =>
    rw [forall_mem_cons] at hrecs
    refine ih (fun k r hpeek => ?_) hrecs.2
    by_cases hkey : k = rec.key
    · have hpeek : peek ([rec].foldl insert c).records k = some r := hpeek
      rcases mem_of_peek_foldl_insert hpeek with hold | hmem
      · exact h k r hold
      · rw [mem_singleton.mp hmem]
        exact ⟨hkey, hrecs.1⟩
    · rcases (onlySets_insert (c := c) (p := (· = rec.key)) rfl).keep k hkey with heq | ⟨hnone, -⟩
      · exact h k r (heq ▸ hpeek)
      · cases hnone.symm.trans hpeek

/-- An operation keeps a property that does not depend on the lifetime, if it is given a record with
it. -/
theorem Holds.apply {op : CacheOp} (h : Holds P c)
    (hop : ∀ r, op.given = some r → ∀ ttl expires, P { r with ttl, expires }) :
    Holds P (c.apply op) where
  stored := by
    rcases apply_cases c op with heq | ⟨-, hdrops⟩
    · rw [heq]
      refine foldl_insert h.stored fun r hr => ?_
      rcases mem_writes hr with hold | ⟨rec, hgiven, hlife⟩
      · exact h.staged r hold
      · rw [hlife]
        exact hop rec hgiven _ _
    · exact fun k r hpeek => h.stored k r (hdrops.peek_eq_some hpeek)
  staged r hr := by
    rcases mem_newChain_apply hr with hold | ⟨rec, hgiven, hlife⟩
    · exact h.staged r hold
    · rw [hlife]
      exact hop rec hgiven _ _

/-- **The run rule** for such properties. -/
theorem Holds.run {ops : List CacheOp} (h : Holds P c)
    (hops : ∀ op ∈ ops, ∀ r, op.given = some r → ∀ ttl expires, P { r with ttl, expires }) :
    Holds P (c.run ops) :=
  foldlRecOn ops DnsCache.apply h fun _ hc op hop => hc.apply (hops op hop)

/-- An operation of the run was given the record, but for its lifetime. -/
def GivenIn (ops : List CacheOp) (rec : CacheRecord) : Prop :=
  ∃ op ∈ ops, ∃ r, op.given = some r ∧ rec = { r with ttl := rec.ttl, expires := rec.expires }

variable {ops : List CacheOp}

theorem holds_run (hempty : ∀ k, peek c.records k = none) (hchain : c.newChain = []) :
    Holds (GivenIn ops) (c.run ops) := by
  refine Holds.run ⟨fun k r hpeek => ?_, fun r hr => ?_⟩ fun op hop r hgiven _ _ =>
    ⟨op, hop, r, hgiven, rfl⟩
  · cases (hempty k).symm.trans hpeek
  · rw [hchain] at hr
    cases hr

/-- **The cache serves what it was given**: the record that a lookup by name finds after a run is
for the name and the type, has not expired, and was given to one of the operations. -/
theorem served_of_run (hempty : ∀ k, peek c.records k = none) (hchain : c.newChain = [])
    {name : Str} {flags : UInt32} {now : Instant} {rec : CacheRecord}
    (h : ((c.run ops).lookupForward name flags now).2 = some rec) :
    toLowercase rec.name = toLowercase name
      ∧ (typeFlags rec.flags = typeFlags flags ∨ typeFlags rec.flags = typeFlags flags ||| fNeg)
      ∧ recordIsExpired rec now = false ∧ GivenIn ops rec := by
  have hstored := (holds_run hempty hchain : Holds (GivenIn ops) (c.run ops)).stored
  rw [lookupForward_snd] at h
  rcases or_eq_some_iff.mp h with hlive | ⟨-, hlive⟩
  all_goals
    obtain ⟨hpeek, hlife⟩ := live_eq_some.mp hlive
    obtain ⟨hkey, hgiven⟩ := hstored _ _ hpeek
    obtain ⟨hname, hflags⟩ := CacheKey.mk.inj hkey
  · exact ⟨hname.symm, .inl hflags.symm, hlife, hgiven⟩
  · exact ⟨hname.symm, .inr hflags.symm, hlife, hgiven⟩

/-- `fullCache` without its record. -/
def clearedCache : DnsCache (ListLru CacheKey CacheRecord) :=
  fullCache.apply (.removeByUid hostsRecord.uid)

/-- A name from a hosts file is served. -/
theorem served_of_run_insert :
    ((clearedCache.run [.insert hostsRecord]).lookupForward ['A'] fIpv4 0).2 = some hostsRecord
      ∧ GivenIn [.insert hostsRecord] hostsRecord := by
  have hfound :
      ((clearedCache.run [.insert hostsRecord]).lookupForward ['A'] fIpv4 0).2
        = some hostsRecord := by
    decide +kernel
  exact ⟨hfound, (served_of_run (fun _ => rfl) rfl hfound).2.2.2⟩

end DnsmasqRs.Cache.DnsCache
