import DnsmasqRs.Rfc1035.Equiv.Staged

/-!
# Negative records

For a reply other than NXDOMAIN the negative record stands for the name the walk ends at, if nothing
was found on the way.  The walk ends at a name that owns neither a CNAME nor an answer, unless it
ends at the hop limit (`OverLimit`): then the name owns the CNAME that was not followed, and its
negative record is wrong (`negative_sound_iff`).
-/

namespace DnsmasqRs.Rfc1035

open Wire Utf8 ByteCursor DnsProtocol Cache Fallible Relation List

/-! ### Where the walk ends -/

section Walk

variable {env : Env} {answers : List DnsRr} {w w' : Walk}

theorem examined_eq_nil_of_scanAnswers (hqtype : env.qtype ≠ 5) (hnx : env.isNxdomain = false)
    (h : scanAnswers env answers w = .ok (.finish w')) (hfound : w'.found = false) :
    examined answers env.qtype w.place.2 = [] ∧ w'.place = w.place := by
  obtain ⟨hw, -⟩ := (scanAnswers_finish h).resolve_left fun htake => hqtype htake.1
  rw [Env.seen, hnx] at hw
  have hnone := hw.found
  rw [hfound, eq_comm, Bool.or_eq_false_iff, Bool.not_eq_false', List.isEmpty_iff] at hnone
  exact ⟨hnone.2, hw.place⟩

/-- A walk that finds nothing ends where no CNAME is to be followed, and examines nothing there. -/
theorem followChain_end (hqtype : env.qtype ≠ 5) (hnx : env.isNxdomain = false)
    (h : followChain env answers w = .ok (none, w')) (hfound : w'.found = false) :
    ReflTransGen (Hop answers) w.place w'.place ∧ (∀ p, ¬Hop answers w'.place p) ∧
      ¬StopsAt env.qtype (Refused env) answers w'.place
        ∧ examined answers env.qtype w'.place.2 = [] := by
  obtain ⟨w₁, -, hreach, hends, hgoes, hscan⟩ := followChain_last hqtype hnx h
  obtain ⟨hnone, hplace⟩ := examined_eq_nil_of_scanAnswers hqtype hnx hscan hfound
  rw [hplace]
  exact ⟨hreach, hends, hgoes, hnone⟩

end Walk

/-! ### What is committed -/

section Commit

variable {M : Type} [Lru M CacheKey CacheRecord] {packet : DnsPacket} {cache : DnsCache M}
  {now : Instant} {config : ExtractConfig} {rec : CacheRecord}

/-- `extract_addresses` writes the record to the cache. -/
def CommitsRecord (packet : DnsPacket) (cache : DnsCache M) (now : Instant) (config : ExtractConfig)
    (rec : CacheRecord) : Prop :=
  ∃ outcome staged, collectRecords packet now config = .ok (outcome, some staged) ∧
    Commits packet.header ∧ rec ∈ cache.committed staged now

/-- The cache after `extract_addresses` is the one before with those records written. -/
theorem extractAddresses_eq_insert
    (hcollect : collectRecords packet now config = .ok (outcome, some staged))
    (hcommits : Commits packet.header) : extractAddresses packet cache now config
      = .ok ((cache.committed staged now).foldl DnsCache.insert cache.startInsert, outcome) := by
  rw [← DnsCache.transact_eq_foldl_insert (namePtr_of_collectRecords hcollect),
    ← commitStaged_eq cache staged hcommits now, extractAddresses, hcollect]
  rfl

/-- A negative record says nothing false about the answers of the reply. -/
def NegativeSound (packet : DnsPacket) (cache : DnsCache M) (now : Instant)
    (config : ExtractConfig) : Prop :=
  ∀ rec, CommitsRecord packet cache now config rec → rec.flags &&& fNeg ≠ 0 →
    ∀ rr ∈ packet.answers, ownedBy rec.name rr →
      rr.rtype ≠ 5 ∧ ∀ q ∈ packet.questions, rr.rtype ≠ q.qtype

/-- The CNAME chain of the question is longer than the walk follows it. -/
def OverLimit (packet : DnsPacket) : Prop :=
  ∃ q n, packet.questions = [q]
    ∧ ReflTransGen (Hop packet.answers) (0, toLowercase q.name) (cnameChainLimit, n) ∧
    ∃ rr ∈ packet.answers, isCnameOf n rr

/-- A negative record is for the name at the end of a walk that found nothing. -/
theorem end_of_commitsRecord_neg (hrcode : packet.header.rcode ≠ 3)
    (h : CommitsRecord packet cache now config rec) (hneg : rec.flags &&& fNeg ≠ 0) :
    ∃ q hops, packet.questions = [q] ∧
      ReflTransGen (Hop packet.answers) (0, toLowercase q.name) (hops, rec.name) ∧
      (∀ p, ¬Hop packet.answers (hops, rec.name) p) ∧
      ¬StopsAt q.qtype (Refused (questionEnv packet.header q.qtype now config)) packet.answers
        (hops, rec.name) ∧
      examined packet.answers q.qtype rec.name = [] := by
  obtain ⟨outcome, staged, hcollect, -, hrec⟩ := h
  obtain ⟨rec', hrec', heq⟩ := DnsCache.mem_committed hrec
  rw [heq] at hneg ⊢
  obtain ⟨q, hq, -, hsource⟩ := collectRecords_cases hcollect
  have hsec : (questionEnv packet.header q.qtype now config).secflag &&& fNeg = 0 := by
    have hall : ∀ a ∈ [fDnssecok, 0], a &&& fNeg = 0 := by decide
    exact hall _ (secflag_cases)
  rcases hsource with ⟨-, ipAddr, -, hptr⟩ | ⟨-, w, hwalk, hfinish⟩
  · obtain ⟨rr, -, t, pos, -, -, -, -, rfl⟩ := mem_ptrRecords hptr hrec'
    have hall : ∀ a ∈ [fIpv4, fIpv6, 0], (a ||| fReverse) &&& fNeg = 0 := by decide
    exact absurd (or_and_eq_zero.mpr ⟨hall _ (familyFlag_cases), hsec⟩) hneg
  · have haddr : ∀ a ∈ [fIpv4, fIpv6, fRr, 0], (a ||| fForward) &&& fNeg = 0 := by decide
    -- the walk stages nothing negative
    have hstaged : ∀ rec ∈ w.staged, rec.flags &&& fNeg = 0 :=
      flags_of_followChain (by decide) (haddr _ (addrFlag_cases)) hsec hwalk
    rcases mem_finishWalk hfinish hrec' with hrec' | ⟨hnegative, ⟨ttl, rfl⟩ | ⟨m, ttl, -, rfl⟩⟩
    · exact absurd (hstaged rec' hrec') hneg
    · have hnx : (questionEnv packet.header q.qtype now config).isNxdomain = false :=
        beq_eq_false_iff_ne.mpr hrcode
      simp only [Env.negative, hnx, Bool.or_false, Bool.and_eq_true, Bool.not_eq_true'] at hnegative
      obtain ⟨⟨hfound, -⟩, hinsert⟩ := hnegative
      have hqtype : q.qtype ≠ 5 := by
        intro h5
        rw [h5] at hinsert
        cases hinsert
      obtain ⟨hreach, hrest⟩ := followChain_end hqtype hnx hwalk hfound
      exact ⟨q, w.cnameHops, hq, hreach, hrest⟩
    · exact absurd (or_and_eq_zero.mpr ⟨by decide, hsec⟩) hneg

theorem le_limit_of_hops {answers : List DnsRr}
    (h : ReflTransGen (Hop answers) p p') (hp : p.1 ≤ cnameChainLimit) :
    p'.1 ≤ cnameChainLimit := by
  induction h with
  | refl => exact hp
  | tail _ hlast ih =>
    obtain ⟨hlimit, rr, t, pos, -, -, rfl⟩ := hop_iff.mp hlast
    exact hlimit

/-- A reply other than NXDOMAIN commits a negative record exactly for a name with nothing in the
reply unless its chain is over the limit. -/
theorem negative_sound_iff (packet : DnsPacket) (cache : DnsCache M) (now : Instant)
    (config : ExtractConfig) (hrcode : packet.header.rcode ≠ 3) :
    NegativeSound packet cache now config ↔
      ((∃ rec, CommitsRecord packet cache now config rec ∧ rec.flags &&& fNeg ≠ 0) →
        ¬OverLimit packet) := by
  constructor
  · rintro hsound ⟨rec, hrec, hneg⟩ ⟨q, n, hq, hreach, rr, hmem, hcname⟩
    obtain ⟨q', hops, hq', hreach', hends, -, -⟩ := end_of_commitsRecord_neg hrcode hrec hneg
    obtain rfl : q = q' := by
      rw [hq'] at hq
      cases hq
      rfl
    have hlimit : ∀ p, ¬Hop packet.answers (cnameChainLimit, n) p :=
      fun p hp => absurd (hop_iff.mp hp).1 (Nat.lt_irrefl _)
    have hsame : (hops, rec.name) = (cnameChainLimit, n) :=
      hops_end_unique hreach' hreach hends hlimit
    cases hsame
    rw [isCnameOf, Bool.and_eq_true, beq_iff_eq] at hcname
    exact (hsound rec hrec hneg rr hmem hcname.1).1 hcname.2
  · intro hcond rec hrec hneg rr hmem howned
    obtain ⟨q, hops, hq, hreach, hends, hgoes, hexamined⟩ :=
      end_of_commitsRecord_neg hrcode hrec hneg
    have hnone : packet.answers.find? (isCnameOf rec.name) = none := by
      cases hfind : packet.answers.find? (isCnameOf rec.name) with
      | none => rfl
      | some first =>
        have hshort : hops < cnameChainLimit := by
          refine Nat.lt_of_le_of_ne (le_limit_of_hops hreach (Nat.zero_le _)) ?_
          rintro rfl
          exact hcond ⟨rec, hrec, hneg⟩
            ⟨q, rec.name, hq, hreach, first, mem_of_find?_eq_some hfind, find?_some hfind⟩
        -- the CNAME would be followed, or make the walk return
        cases htarget : extractName first.rdata 0 with
        | error e => exact absurd (Or.inr ⟨hshort, first, e, hfind, htarget⟩) hgoes
        | ok target => exact absurd (Hop.follow hshort hfind htarget) (hends _)
    rw [find?_eq_none] at hnone
    have hall : packet.answers.takeWhile (fun rr => !isCnameOf rec.name rr) = packet.answers := by
      rw [takeWhile_eq_self_iff]
      intro x hx
      rw [Bool.not_eq_true', ← Bool.not_eq_true]
      exact hnone x hx
    constructor
    · intro htype
      exact hnone rr hmem (isCnameOf_of_rtype howned htype)
    · intro q' hq' htype
      rw [hq, mem_singleton] at hq'
      rw [examined, hall, filter_eq_nil_iff] at hexamined
      apply hexamined rr hmem
      rw [howned, htype, hq', beq_self_eq_true]
      rfl

end Commit

/-- A CNAME that points to itself, as the answer to an address question. -/
def loopReply : DnsPacket where
  header := ⟨0x1234, 0x81, 0x80, 1, 1, 0, 0⟩
  questions := [{ name := ['a'], qtype := 1, qclass := 1 }]
  answers := [{ name := ['a'], rtype := 5, rclass := 1, ttl := 60, rdata := [1, 0x61, 0] }]
  authority := []
  additional := []

/-- The same reply without the CNAME. -/
def emptyReply : DnsPacket := { loopReply with header.ancount := 0, answers := [] }

theorem commits_negative {packet : DnsPacket} (hcommits : Commits packet.header)
    (h : (collectRecords packet 0 { negTtl := 60 }).toOption.any fun r => r.2.any fun staged =>
      (emptyCache.committed staged 0).any fun rec => rec.flags &&& fNeg != 0 && rec.name == ['a']) :
    ∃ rec, CommitsRecord packet emptyCache 0 { negTtl := 60 } rec ∧ rec.flags &&& fNeg ≠ 0
      ∧ rec.name = ['a'] := by
  rw [Option.any_eq_true] at h
  obtain ⟨⟨outcome, staged⟩, hcollect, hany⟩ := h
  rw [Option.any_eq_true] at hany
  obtain ⟨staged, rfl, hany⟩ := hany
  obtain ⟨rec, hrec, hflags⟩ := any_eq_true.mp hany
  rw [Bool.and_eq_true, bne_iff_ne, beq_iff_eq] at hflags
  exact ⟨rec, ⟨outcome, staged, toOption_eq_some.mp hcollect, hcommits, hrec⟩, hflags⟩

/-- The walk goes round ten times, and the name is then cached as one without an address. -/
theorem not_negativeSound_loopReply :
    DnsPacket.parse loopReply.write = .ok loopReply ∧ loopReply.header.rcode ≠ 3 ∧
      ¬NegativeSound loopReply emptyCache 0 { negTtl := 60 } := by
  refine ⟨by decide +kernel, by decide, fun hsound => ?_⟩
  obtain ⟨rec, hrec, hneg, hname⟩ :=
    @commits_negative loopReply (by unfold Commits; decide) (by decide +kernel)
  refine (hsound rec hrec hneg _ mem_cons_self ?_).1 rfl
  rw [hname]
  decide

theorem negative_sound_iff_emptyReply :
    (∃ rec, CommitsRecord emptyReply emptyCache 0 { negTtl := 60 } rec ∧ rec.flags &&& fNeg ≠ 0)
      ∧ (NegativeSound emptyReply emptyCache 0 { negTtl := 60 } ↔
        ((∃ rec, CommitsRecord emptyReply emptyCache 0 { negTtl := 60 } rec
          ∧ rec.flags &&& fNeg ≠ 0) → ¬OverLimit emptyReply)) := by
  obtain ⟨rec, hrec, hneg, -⟩ :=
    @commits_negative emptyReply (by unfold Commits; decide) (by decide +kernel)
  exact ⟨⟨rec, hrec, hneg⟩, negative_sound_iff emptyReply emptyCache 0 _ (by decide)⟩

end DnsmasqRs.Rfc1035
