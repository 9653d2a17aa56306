import DnsmasqRs.Dnssec.Equiv.Names
import DnsmasqRs.Lib.Run

/-!
# The status of a zone

`zone_status` starts from the longest suffix of the name with an entry of any kind.  Below that one
there are no entries, so the verdict is `Secure` only if the longest suffix is the name itself, and
then nothing but its own entry is looked at (`zoneStatus_eq_secure_iff`): a usable DS record, or the
mark that it is no zone cut.  In the second case the entries of the suffixes above are not looked at
at all, so the status is anchored exactly if they happen to be good (`anchored_iff`).

`TrustEvent` has the calls that change the cache, and `Trusted` is what they lead to from trust
anchors.
-/

namespace DnsmasqRs.Dnssec

open Wire Utf8 Rfc1035 List

variable {crypto : Crypto} {cache : DnssecCache} {name s : Str} {rclass : UInt16}

/-! ### The walk -/

theorem isSome_findDs_of_walkDown (h : walkDown cache rclass suffixes = .secure)
    (hs : s ∈ suffixes) : (cache.findDs s).isSome := by
  induction suffixes with
  | nil => exact absurd hs not_mem_nil
  | cons suffix suffixes ih =>
    unfold walkDown at h
    cases hfind : cache.findDs suffix with
    | none =>
      rw [hfind] at h
      cases h
    | some state =>
      rw [hfind] at h
      -- the walk goes on below this suffix, or it has ended with another verdict
      have hrest : walkDown cache rclass suffixes = .secure := by
        cases state with
        | negInsecure => cases h
        | negNotZoneCut => exact h
        | positive entries =>
          dsimp only at h
          split at h
          · exact h
          · cases h
      obtain rfl | hs := mem_cons.mp hs
      · rw [hfind]
        rfl
      · exact ih hrest hs

/-- The walk starts with the name itself, if that has an entry. -/
theorem fromAnchor_concat (h : (cache.findDs s).isSome) :
    fromAnchor cache (shorter ++ [s]) = [s] := by
  unfold fromAnchor
  rw [reverse_append, reverse_singleton, singleton_append, findIdx?_cons, if_pos h]
  dsimp only
  rw [length_append, length_singleton, Nat.add_sub_cancel, Nat.sub_zero, drop_left]

theorem mem_fromAnchor_concat : s ∈ fromAnchor cache (shorter ++ [s]) := by
  unfold fromAnchor
  split
  · rw [length_append, length_singleton, Nat.add_sub_cancel,
      drop_append_of_le_length (Nat.sub_le _ _)]
    exact mem_append_right _ mem_cons_self
  · exact mem_append_right _ mem_cons_self

/-- **What `zone_status` finds secure**: a name with a usable DS record, or one that is marked as no
zone cut. -/
theorem zoneStatus_eq_secure_iff : zoneStatus name rclass cache = .secure ↔
    (∃ entries, cache.findDs name = some (.positive entries) ∧ usable entries rclass)
      ∨ cache.findDs name = some .negNotZoneCut := by
  obtain ⟨shorter, hsuffixes⟩ := exists_dnsSuffixes
  unfold zoneStatus
  rw [hsuffixes]
  cases hfind : cache.findDs name with
  | none =>
    have hnone :
        (cache.findDs (normName name)).isSome = false := by rw [findDs_normName, hfind]; rfl
    constructor
    · intro h
      cases hnone.symm.trans (isSome_findDs_of_walkDown h (mem_fromAnchor_concat))
    · rintro (⟨entries, h, -⟩ | h) <;> cases h
  | some state =>
    have hsome : (cache.findDs (normName name)).isSome := by rw [findDs_normName, hfind]; rfl
    rw [fromAnchor_concat hsome, walkDown, findDs_normName, hfind]
    cases state with
    | negInsecure =>
      constructor
      · intro h
        cases h
      · rintro (⟨entries, h, -⟩ | h) <;> cases h
    | negNotZoneCut => exact ⟨fun _ => .inr rfl, fun _ => rfl⟩
    | positive entries =>
      dsimp only
      constructor
      · intro h
        split at h
        · next husable => exact .inl ⟨entries, rfl, husable⟩
        · cases h
      · rintro (⟨entries', h, husable⟩ | h)
        · obtain rfl := DsState.positive.inj (Option.some.inj h)
          rw [if_pos husable]
          rfl
        · cases h

/-! ### Runs -/

/-- A call that can change the cache. -/
inductive TrustEvent where
  | ds (r : DsReply) (counter : ℤ)
  | dnskey (records : List DnsRr) (name : Str) (rclass : UInt16) (now : UInt32) (counter : ℤ)

/-- The cache after the call. -/
def trustStep (crypto : Crypto) (cache : DnssecCache) : TrustEvent → DnssecCache
  | .ds r counter => (dnssecValidateDs crypto r cache counter).2.1
  | .dnskey records name rclass now counter =>
      (dnssecValidateByDs crypto records name rclass now cache counter).2.1

/-- A trust anchor, from the configuration. -/
structure TrustAnchor where
  name : Str
  ds : DsData
  rclass : UInt16

/-- The cache with the trust anchors only. -/
def anchoredCache (anchors : List TrustAnchor) : DnssecCache :=
  anchors.foldl (fun cache a => cache.insertTrustAnchor a.name a.ds a.rclass) {}

/-- The caches that calls lead to from trust anchors. -/
def Trusted (crypto : Crypto) (cache : DnssecCache) : Prop :=
  ∃ anchors, Run.Reaches (fun cache ev => some (trustStep crypto cache ev)) (fun _ _ => True)
    (anchoredCache anchors) cache

/-! ### Anchors -/

/-- The name is an anchor for the suffixes below it: it has a usable DS record of the class. -/
def IsAnchor (cache : DnssecCache) (rclass : UInt16) (z : Str) : Prop :=
  ∃ entries, cache.findDs z = some (.positive entries) ∧ usable entries rclass

/-- **The status is anchored**: a suffix of the name is an anchor, and no longer one is marked as
insecure. -/
def Anchored (cache : DnssecCache) (name : Str) (rclass : UInt16) : Prop :=
  ∃ z ∈ dnsSuffixes name, IsAnchor cache rclass z
    ∧ ∀ s ∈ dnsSuffixes name, z.length < s.length → cache.findDs s ≠ some .negInsecure

theorem length_le_of_mem_dnsSuffixes (h : s ∈ dnsSuffixes name) :
    s.length ≤ (normName name).length := by
  unfold dnsSuffixes at h
  dsimp only at h
  split at h
  · rw [mem_singleton.mp h]
    exact Nat.zero_le _
  · obtain rfl | h := mem_cons.mp h
    · exact Nat.zero_le _
    · obtain ⟨i, -, rfl⟩ := mem_map.mp h
      have hjoin (ls : List Str) :
          ∀ i, (joinLabels (ls.drop i)).length ≤ (joinLabels ls).length := by
        induction ls with
        | nil => simp
        | cons l ls ih =>
          intro i
          cases i with
          | zero => exact le_rfl
          | succ i =>
            refine (ih i).trans ?_
            rcases eq_or_ne ls [] with rfl | hne
            · exact Nat.zero_le _
            · rw [joinLabels_cons hne, length_append, length_cons]
              omega
      have hle := hjoin (splitLabels (normName name)) i
      rwa [joinLabels_splitLabels] at hle

/-- The name is marked as no zone cut, but no suffix of it is an anchor without something insecure
below. -/
def BareMark (cache : DnssecCache) (name : Str) (rclass : UInt16) : Prop :=
  cache.findDs name = some .negNotZoneCut ∧ ∀ z ∈ dnsSuffixes name, IsAnchor cache rclass z →
    ∃ s ∈ dnsSuffixes name, z.length < s.length ∧ cache.findDs s = some .negInsecure

/-- **A secure status is anchored** exactly if the name does not have a bare mark. -/
theorem anchored_iff (cache : DnssecCache) (name : Str) (rclass : UInt16) :
    (zoneStatus name rclass cache = .secure → Anchored cache name rclass)
      ↔ ¬ BareMark cache name rclass := by
  constructor
  · rintro h ⟨hmark, hbare⟩
    obtain ⟨z, hz, hanchor, hbelow⟩ := h (zoneStatus_eq_secure_iff.mpr (.inr hmark))
    obtain ⟨s, hs, hlt, hinsecure⟩ := hbare z hz hanchor
    exact hbelow s hs hlt hinsecure
  · intro h hsecure
    obtain ⟨entries, hfind, husable⟩ | hmark := zoneStatus_eq_secure_iff.mp hsecure
    · -- the name is its own anchor
      refine ⟨normName name, normName_mem_dnsSuffixes, ⟨entries, ?_, husable⟩, ?_⟩
      · rw [findDs_normName, hfind]
      · intro s hs hlt
        exact absurd (length_le_of_mem_dnsSuffixes hs) hlt.not_ge
    · by_contra hnot
      refine h ⟨hmark, ?_⟩
      intro z hz hanchor
      by_contra hbelow
      refine hnot ⟨z, hz, hanchor, ?_⟩
      intro s hs hlt hinsecure
      exact hbelow ⟨s, hs, hlt, hinsecure⟩

/-- Primitives to run examples with: a hash is the data itself, and a signature the key and the
data. -/
def plainCrypto : Crypto where
  sha1 := id
  sha256 := id
  sha384 := id
  checks _ publicKey data signature := signature = publicKey ++ data

/-- A trust anchor for `com`. -/
def comAnchor : TrustAnchor where
  name := "com".toList
  ds := { keyTag := 1, algorithm := 8, digestType := 2, digest := [] }
  rclass := 1

/-- The query for the DS records of `org` fails at the server. -/
def orgServfail : DsReply where
  answer := []
  authority := []
  name := "org".toList
  rclass := 1
  rcode := 2
  now := 0
  itersLimit := 150

/-- After that, `org` is secure, with a trust anchor for `com` only. -/
theorem not_anchored_org : ∃ cache, Trusted plainCrypto cache
    ∧ zoneStatus "org".toList 1 cache = .secure ∧ ¬ Anchored cache "org".toList 1 := by
  refine ⟨trustStep plainCrypto (anchoredCache [comAnchor]) (.ds orgServfail 0),
    ⟨[comAnchor], .tail .refl trivial rfl⟩, ?_, ?_⟩
  · show zoneStatus "org".toList 1 (storeDs orgServfail (anchoredCache [comAnchor]) false) = .secure
    decide +kernel
  · rintro ⟨z, hz, ⟨entries, hfind, -⟩, -⟩
    have hno :
        ∀ z ∈ dnsSuffixes "org".toList,
          ((storeDs orgServfail (anchoredCache [comAnchor]) false).findDs z).all
          fun state => state = .negNotZoneCut := by decide +kernel
    have hz := hno z hz
    rw [show (storeDs orgServfail (anchoredCache [comAnchor]) false).findDs z
      = some (.positive entries) from hfind, Option.all_some] at hz
    cases of_decide_eq_true hz

end DnsmasqRs.Dnssec
