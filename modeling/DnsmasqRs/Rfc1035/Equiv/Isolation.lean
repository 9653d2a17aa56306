import DnsmasqRs.Equiv.Cache
import DnsmasqRs.Rfc1035.Equiv.ExtractWalk
import DnsmasqRs.Rfc1035.Equiv.AnswerWalk

/-!
# Which cache entries a reply can set

`Allowed packet` are the names that a reply may set in the cache: those of its CNAME chain, the
owner of a SOA above the end of the chain, and the targets of its PTR answers, all up to ASCII case.
The cache folds names by `toLowercase` instead, which merges names that differ in more than ASCII
case. A reply sets only allowed keys, whatever the cache, if lower-casing changes only ASCII letters
in the names that it can set and the walk does not break off at the hop limit (`isolated_of_folds`).
-/

namespace DnsmasqRs.Rfc1035

open Wire Utf8 ByteCursor DnsProtocol Cache Fallible Relation Lru List Option

/-- The names on the CNAME chain from the question name, up to ASCII case. -/
inductive OnChain (answers : List DnsRr) (qname : Str) : Str → Prop where
  | question {n : Str} (heq : eqIgnoreAsciiCase n qname) : OnChain answers qname n
  | target {n t : Str} {rr : DnsRr} {pos : ℕ} (howner : OnChain answers qname rr.name)
      (hmem : rr ∈ answers) (htype : rr.rtype = 5) (hclass : rr.rclass = 1)
      (htarget : extractName rr.rdata 0 = .ok (t, pos)) (heq : eqIgnoreAsciiCase n t) :
      OnChain answers qname n

/-- The end of the chain: a name on it that owns no CNAME. -/
structure ChainEnd (answers : List DnsRr) (qname n : Str) : Prop where
  onChain : OnChain answers qname n
  isEnd : ∀ rr ∈ answers, rr.rtype = 5 → rr.rclass = 1 → eqIgnoreAsciiCase rr.name n = false

/-- The names a reply may set in the cache. -/
inductive Allowed (packet : DnsPacket) (n : Str) : Prop where
  | chain {q : DnsQuestion} (hq : packet.questions = [q]) (hn : OnChain packet.answers q.name n)
  | soa {q : DnsQuestion} {rr : DnsRr} {final : Str} (hq : packet.questions = [q])
      (hfinal : ChainEnd packet.answers q.name final) (hmem : rr ∈ packet.authority)
      (htype : rr.rtype = 6) (hclass : rr.rclass = 1)
      (hsuffix : asciiLower rr.name <:+ asciiLower final) (hn : eqIgnoreAsciiCase n rr.name)
  | ptr {q : DnsQuestion} {rr : DnsRr} {t : Str} {pos : ℕ} (hq : packet.questions = [q])
      (hqtype : q.qtype = 12) (hmem : rr ∈ packet.answers) (htype : rr.rtype = 12)
      (hclass : rr.rclass = 1) (howner : eqIgnoreAsciiCase rr.name q.name)
      (htarget : extractName rr.rdata 0 = .ok (t, pos)) (hn : eqIgnoreAsciiCase n t)

/-- The keys with an allowed name. -/
def AllowedKey (packet : DnsPacket) (k : CacheKey) : Prop := Allowed packet k.name

/-- The header bits under which the staged records are committed at all. -/
def Commits (header : DnsHeader) : Prop := ¬(header.hb4 &&& hb4Cd ≠ 0 ∨ header.hb4 &&& hb4Ra = 0)

/-! ### What is staged -/

section Staged

variable {env : Env} {packet : DnsPacket} {now : Instant} {config : ExtractConfig}

variable {staged : List CacheRecord}

variable {outcome : ExtractOutcome}

variable {answers : List DnsRr}

theorem extractPtrAnswers_cases (h : extractPtrAnswers env qname answers = (outcome, some staged)) :
    ∃ ipAddr, inArpaName2Addr (toLowercase qname) = some ipAddr ∧
      ptrRecords env qname ipAddr answers = some staged := by
  unfold extractPtrAnswers at h
  split at h
  · cases h
  · next ipAddr hip =>
    refine ⟨ipAddr, hip, ?_⟩
    split at h
    · cases h
    · cases h
    · next staged' _ hstaged =>
      cases h
      exact hstaged

/-- The walk over the answers ends at `w`, and `staged` is what is staged then. -/
def Walked (env : Env) (packet : DnsPacket) (qname : Str) (staged : List CacheRecord) (w : Walk) :
    Prop :=
  followChain env packet.answers { currentName := qname } = .ok (none, w)
    ∧ finishWalk env packet.authority w = .ok staged

theorem walkQuestion_cases (h : walkQuestion env packet qname = .ok (outcome, some staged)) :
    ∃ w, Walked env packet qname staged w := by
  obtain ⟨ipset, -, h⟩ := bind_eq_ok.mp h
  obtain ⟨nftset, -, h⟩ := bind_eq_ok.mp h
  obtain ⟨⟨returned, w⟩, hwalk, h⟩ := bind_eq_ok.mp h
  cases returned with
  | some result => cases h
  | none =>
    obtain ⟨staged', hfinish, h⟩ := bind_eq_ok.mp h
    cases h
    exact ⟨w, hwalk, hfinish⟩

theorem collectRecords_cases (h : collectRecords packet now config = .ok (outcome, some staged)) :
    ∃ q, packet.questions = [q] ∧ q.qclass = 1 ∧
      ((q.qtype = 12 ∧ ∃ ipAddr, inArpaName2Addr (toLowercase q.name) = some ipAddr ∧
          ptrRecords (questionEnv packet.header q.qtype now config) q.name ipAddr packet.answers
            = some staged) ∨
        q.qtype ≠ 12 ∧ ∃ w, Walked (questionEnv packet.header q.qtype now config) packet
            (toLowercase q.name) staged w) := by
  unfold collectRecords at h
  split at h
  · next q hq =>
    by_cases hclass : q.qclass = 1
    · refine ⟨q, hq, hclass, ?_⟩
      rw [if_neg (not_not.mpr hclass)] at h
      by_cases hptr : q.qtype = 12
      · rw [if_pos hptr] at h
        exact .inl ⟨hptr, extractPtrAnswers_cases (Except.ok.inj h)⟩
      · rw [if_neg hptr] at h
        exact .inr ⟨hptr, walkQuestion_cases h⟩
    · rw [if_pos hclass] at h
      cases h
  · cases h

theorem walk_of_collectRecords (hquestions : packet.questions = [q]) (hqtype : q.qtype ≠ 12)
    (h : collectRecords packet now config = .ok (outcome, some staged)) :
    ∃ w, Walked (questionEnv packet.header q.qtype now config) packet
      (toLowercase q.name) staged w := by
  obtain ⟨q', hq', -, hsource⟩ := collectRecords_cases h
  obtain rfl : q = q' := singleton_inj.mp (hquestions.symm.trans hq')
  rcases hsource with ⟨hptr, -⟩ | ⟨-, hwalk⟩
  · exact absurd hptr hqtype
  · exact hwalk

theorem finishWalk_cases (h : finishWalk env authority w = .ok staged) :
    staged = w.staged ∨ env.negative w ∧ ∃ soa, findSoa w.currentName authority = .ok soa ∧
        staged = w.staged ++ negativeRecords env soa w.currentName := by
  unfold finishWalk at h
  split_ifs at h with hneg
  · obtain ⟨soa, hsoa, heq⟩ := map_eq_ok.mp h
    exact .inr ⟨hneg, soa, hsoa, heq.symm⟩
  · exact .inl (Except.ok.inj h).symm

theorem mem_negativeRecords {rec : CacheRecord} (h : rec ∈ negativeRecords env soa name) :
    (∃ ttl, rec = env.record name (if env.isNxdomain then fNxdomain ||| fNeg ||| fForward
        else env.addrFlag ||| fNeg ||| fForward) ttl none) ∨ ∃ m ttl, soa = some m ∧
        rec = env.record m.owner (fForward ||| fRr ||| fKeytag) ttl
          (some (.rrBlock 6 m.rdata)) := by
  unfold negativeRecords at h
  dsimp only at h
  split at h
  · cases h
  · rcases mem_append.mp h with hsoa | hneg
    · obtain ⟨m, hm, rfl⟩ := map_eq_some_iff.mp (mem_toList.mp hsoa)
      exact .inr ⟨m, _, hm, rfl⟩
    · exact .inl ⟨_, mem_singleton.mp hneg⟩

/-- What is staged in the end: the records of the walk, the negative record for its last name, or
the SOA above it. -/
theorem mem_finishWalk {rec : CacheRecord}
    (h : finishWalk env authority w = .ok staged) (hrec : rec ∈ staged) :
    rec ∈ w.staged ∨ env.negative w ∧ ((∃ ttl,
        rec = env.record w.currentName (if env.isNxdomain then fNxdomain ||| fNeg ||| fForward
          else env.addrFlag ||| fNeg ||| fForward) ttl none)
            ∨ ∃ m ttl, findSoa w.currentName authority = .ok (some m) ∧
        rec = env.record m.owner (fForward ||| fRr ||| fKeytag) ttl
          (some (.rrBlock 6 m.rdata))) := by
  rcases finishWalk_cases h with rfl | ⟨hneg, soa, hsoa, rfl⟩
  · exact .inl hrec
  · rcases mem_append.mp hrec with hrec | hrec
    · exact .inl hrec
    · refine .inr ⟨hneg, (mem_negativeRecords hrec).imp_right ?_⟩
      rintro ⟨m, ttl, rfl, heq⟩
      exact ⟨m, ttl, hsoa, heq⟩

theorem mem_ptrRecords (h : ptrRecords env qname ipAddr answers = some staged)
    {rec : CacheRecord} (hrec : rec ∈ staged) :
    ∃ rr ∈ answers, ∃ t pos, rr.rtype = 12 ∧ rr.rclass = 1 ∧
      eqIgnoreAsciiCase rr.name qname ∧ extractName rr.rdata 0 = .ok (t, pos) ∧
      rec = env.record t (familyFlag ipAddr ||| fReverse) (clampTtl rr.ttl env.config.maxTtl)
        (some ipAddr) := by
  induction answers generalizing staged with
  | nil =>
    cases h
    cases hrec
  | cons rr rest ih =>
    rw [ptrRecords] at h
    split_ifs at h with hskip
    · obtain ⟨rr', hmem, hrr'⟩ := ih h hrec
      exact ⟨rr', mem_cons_of_mem _ hmem, hrr'⟩
    · split at h
      · cases h
      · next target pos htarget =>
        obtain ⟨tail, htail, rfl⟩ := map_eq_some_iff.mp h
        rcases mem_cons.mp hrec with rfl | hrec
        · simp only [not_or, not_not, Bool.not_eq_false] at hskip
          exact ⟨rr, mem_cons_self, target, pos, hskip.1, hskip.2.1, hskip.2.2, htarget, rfl⟩
        · obtain ⟨rr', hmem, hrr'⟩ := ih htail hrec
          exact ⟨rr', mem_cons_of_mem _ hmem, hrr'⟩

theorem owner_of_readSoa (h : readSoa rr owner = .ok (some m)) : m.owner = owner := by
  unfold readSoa at h
  repeat' split at h
  all_goals cases h
  all_goals rfl

/-- The SOA found is one of the authority section whose folded owner is a suffix of the name. -/
theorem findSoa_eq_some (h : findSoa name authority = .ok (some m)) :
    ∃ rr ∈ authority, rr.rtype = 6 ∧ rr.rclass = 1 ∧ m.owner = toLowercase rr.name ∧
      ∃ suffix, suffix <:+ name ∧ eqIgnoreAsciiCase suffix m.owner := by
  fun_induction findSoa name authority with
  | case1 | case4 => cases h
  | case2 rr rest hother ih | case3 rr rest hother owner hlong ih
  | case6 rr rest hother owner hshort suffix hslice hcover ih =>
    obtain ⟨rr', hmem, hrr'⟩ := ih h
    exact ⟨rr', mem_cons_of_mem _ hmem, hrr'⟩
  | case5 rr rest hother owner hshort suffix hslice hcover =>
    rw [not_or, not_not, not_not] at hother
    have howner : m.owner = owner := owner_of_readSoa h
    obtain ⟨⟨pre, tail⟩, hsplit, rfl⟩ := map_eq_some_iff.mp hslice
    have hpre := (splitAt_eq_some_iff.mp hsplit).1
    refine ⟨rr, mem_cons_self, hother.1, hother.2, howner, _, ⟨pre, hpre.symm⟩, ?_⟩
    rwa [howner]

theorem answerData_ne_cname (h : answerData env rr = .ok (.ok addr)) : addr ≠ .cname target := by
  cases AnswerData.of_eq h with
  | addr4 | addr6 | other => nofun

theorem inArpaName2Addr_ne_cname (h : inArpaName2Addr name = some addr) : addr ≠ .cname target := by
  unfold inArpaName2Addr at h
  dsimp only at h
  split at h
  · split_ifs at h
    obtain ⟨octets, -, h⟩ := bind_eq_some_iff.mp h
    obtain ⟨ip, -, h⟩ := bind_eq_some_iff.mp h
    cases h
    nofun
  · obtain ⟨rest, -, h⟩ := bind_eq_some_iff.mp h
    obtain ⟨nibbles, -, h⟩ := bind_eq_some_iff.mp h
    split_ifs at h
    obtain ⟨ip, -, h⟩ := bind_eq_some_iff.mp h
    cases h
    nofun

theorem mem_stage {rec r : CacheRecord} (h : r ∈ env.stage w rec) : r ∈ w.staged ∨ r = rec := by
  unfold Env.stage at h
  split_ifs at h
  · rw [mem_append, mem_singleton] at h
    exact h
  · exact .inl h

/-- The record is one of those that the walk stages: for a CNAME, or for an answer. -/
def Env.Walks (env : Env) (rec : CacheRecord) : Prop :=
  (∃ name ttl t, rec = env.record name (fCname ||| fForward) ttl
      (some (.cname { isNamePtr := true, targetName := some t, uid := 0 }))) ∨
    ∃ name ttl rr addr, answerData env rr = .ok (.ok addr) ∧
      rec = env.record name (env.addrFlag ||| fForward) ttl (some addr)

theorem walks_of_followChain
    (h : followChain env answers { currentName := name } = .ok (r, w)) :
    ∀ rec ∈ w.staged, env.Walks rec := by
  refine followChain_invariant (P := fun w => ∀ rec ∈ w.staged, env.Walks rec) ?_ h
    (forall_mem_nil _)
  intro w w' hstep hw rec hrec
  cases hstep with
  | follow hmem howns htype htarget =>
    rcases mem_stage hrec with hold | rfl
    · exact hw rec hold
    · exact .inl ⟨_, _, _, rfl⟩
  | take htype => exact hw rec hrec
  | answer hmem howns htype hdata =>
    rcases mem_stage hrec with hold | rfl
    · exact hw rec hold
    · exact .inr ⟨_, _, _, _, hdata, rfl⟩

theorem namePtr_of_collectRecords
    (h : collectRecords packet now config = .ok (outcome, some staged)) :
    ∀ rec ∈ staged, rec.NamePtr := by
  intro rec hrec
  obtain ⟨q, -, -, ⟨-, ipAddr, hip, hptr⟩ | ⟨-, w, hwalk, hfinish⟩⟩ := collectRecords_cases h
  · obtain ⟨rr, -, t, pos, -, -, -, -, rfl⟩ := mem_ptrRecords hptr hrec
    intro target htarget
    exact absurd (some.inj htarget) (inArpaName2Addr_ne_cname hip)
  · rcases mem_finishWalk hfinish hrec with hrec | ⟨-, ⟨ttl, rfl⟩ | ⟨m, ttl, -, rfl⟩⟩
    · rcases walks_of_followChain hwalk rec hrec with ⟨name, ttl, t, rfl⟩
        | ⟨name, ttl, rr, addr, hdata, rfl⟩
      · rintro target ⟨⟩
        rfl
      · intro target htarget
        exact absurd (some.inj htarget) (answerData_ne_cname hdata)
    · nofun
    · nofun

end Staged

/-! ### Isolation -/

theorem commitStaged_eq [Lru M CacheKey CacheRecord] (cache : DnsCache M)
    (staged : List CacheRecord) (h : Commits header) (now : Instant) :
    commitStaged cache staged header now = cache.transact staged now :=
  if_neg h

/-- A new cache with room for `n` records that keeps each for at least a second. -/
def roomFor (n : ℕ) : DnsCache (ListLru CacheKey CacheRecord) where
  maxSize := n + 1
  records := ⟨n + 1, [], Nat.succ_pos n, nodup_nil, Nat.zero_le _⟩
  minCacheTtl := 1
  maxCacheTtl := 0
  inserts := 0
  evictions := 0
  hits := 0
  misses := 0
  newChain := []
  insertError := false

/-! ### Names that fold like ASCII -/

/-- Lower-casing the name changes ASCII letters only. -/
def FoldsAsAscii (n : Str) : Prop := toLowercase n = asciiLower n

/-- The names that a reply to `q` can set fold as ASCII: for a PTR question the targets of its
answers, for another one the names on its chain and the owners of its SOA records.  Where there is a
SOA record the chain ends before the hop limit. -/
structure Folds (packet : DnsPacket) (q : DnsQuestion) : Prop where
  ptr : q.qtype = 12 → ∀ rr ∈ packet.answers, rr.rtype = 12 → rr.rclass = 1 →
    eqIgnoreAsciiCase rr.name q.name → ∀ t pos, extractName rr.rdata 0 = .ok (t, pos) →
      FoldsAsAscii t
  question : q.qtype ≠ 12 → FoldsAsAscii q.name
  cname : q.qtype ≠ 12 → ∀ rr ∈ packet.answers, rr.rtype = 5 → rr.rclass = 1 →
    OnChain packet.answers q.name rr.name →
      ∀ t pos, extractName rr.rdata 0 = .ok (t, pos) → FoldsAsAscii t
  soa : q.qtype ≠ 12 → ∀ rr ∈ packet.authority, rr.rtype = 6 → rr.rclass = 1 → FoldsAsAscii rr.name
    ∧ ∀ p, ReflTransGen (Hop packet.answers) (0, toLowercase q.name) p → p.1 < cnameChainLimit

theorem eqIgnoreAsciiCase_asciiLower : eqIgnoreAsciiCase (asciiLower n) n := by
  rw [eqIgnoreAsciiCase_iff, asciiLower_asciiLower]

theorem OnChain.congr (h : OnChain answers qname n) (heq : eqIgnoreAsciiCase n' n) :
    OnChain answers qname n' := by
  rw [eqIgnoreAsciiCase_iff] at heq
  cases h with
  | question h => exact .question (by rwa [eqIgnoreAsciiCase_iff, heq, ← eqIgnoreAsciiCase_iff])
  | target howner hmem htype hclass htarget h =>
    exact .target howner hmem htype hclass htarget
      (by rwa [eqIgnoreAsciiCase_iff, heq, ← eqIgnoreAsciiCase_iff])

/-- A name on the chain that is in its folded form. -/
structure FoldedOnChain (answers : List DnsRr) (qname n : Str) : Prop where
  onChain : OnChain answers qname n
  folded : toLowercase n = n

theorem OnChain.toLowercase (h : OnChain answers qname n) (hn : FoldsAsAscii n) :
    FoldedOnChain answers qname (toLowercase n) := by
  refine ⟨h.congr ?_, toLowercase_toLowercase n⟩
  rw [show Utf8.toLowercase n = asciiLower n from hn]
  exact eqIgnoreAsciiCase_asciiLower

/-- The walk stays on the chain and stages its names in their folded form. -/
theorem foldedOnChain_of_walkStep {env : Env} {packet : DnsPacket} {q : DnsQuestion}
    (hfold : Folds packet q) (hqtype : q.qtype ≠ 12) (w w' : Walk)
    (h : WalkStep env packet.answers w w') (hw : FoldedOnChain packet.answers q.name w.currentName ∧
      ∀ rec ∈ w.staged, FoldedOnChain packet.answers q.name rec.name) :
    FoldedOnChain packet.answers q.name w'.currentName ∧
      ∀ rec ∈ w'.staged, FoldedOnChain packet.answers q.name rec.name := by
  obtain ⟨hname, hstaged⟩ := hw
  -- both kinds of record are staged under the current name
  have hstage : ∀ (flags ttl : UInt32) (addr : Option AllAddr),
      ∀ rec ∈ env.stage w (env.record w.currentName flags ttl addr),
        FoldedOnChain packet.answers q.name rec.name := by
    intro flags ttl addr rec hrec
    rcases mem_stage hrec with hold | rfl
    · exact hstaged rec hold
    · exact hname
  cases h with
  | follow hmem howns htype htarget =>
    have howner := hname.onChain.congr howns.2
    have hchain := OnChain.target howner hmem htype howns.1 htarget (eqIgnoreAsciiCase_iff.mpr rfl)
    exact ⟨hchain.toLowercase (hfold.cname hqtype _ hmem htype howns.1 howner _ _ htarget),
      hstage _ _ _⟩
  | take htype => exact ⟨hname, hstaged⟩
  | answer hmem howns htype hdata => exact ⟨hname, hstage _ _ _⟩

/-- Every record that is staged has an allowed name once folded. -/
theorem allowedKey_of_collectRecords {packet : DnsPacket} {now : Instant} {config : ExtractConfig}
    {rec : CacheRecord} (hfold : ∀ q ∈ packet.questions, Folds packet q)
    (hcollect : collectRecords packet now config = .ok (outcome, some staged))
    (hrec : rec ∈ staged) :
    AllowedKey packet rec.key := by
  obtain ⟨q, hq, -, hsource⟩ := collectRecords_cases hcollect
  have hfold : Folds packet q := hfold q (by rw [hq]; exact mem_singleton_self q)
  rcases hsource with ⟨hqtype, ipAddr, -, hptr⟩ | ⟨hqtype, w, hwalk, hfinish⟩
  · obtain ⟨rr, hmem, t, pos, htype, hclass, howner, htarget, rfl⟩ := mem_ptrRecords hptr hrec
    refine .ptr hq hqtype hmem htype hclass howner htarget ?_
    show eqIgnoreAsciiCase (toLowercase t) t
    rw [show toLowercase t = asciiLower t from hfold.ptr hqtype rr hmem htype hclass howner t pos
      htarget]
    exact eqIgnoreAsciiCase_asciiLower
  · have hstart : OnChain packet.answers q.name q.name := .question (eqIgnoreAsciiCase_iff.mpr rfl)
    obtain ⟨hname, hstaged⟩ := followChain_invariant (foldedOnChain_of_walkStep hfold hqtype) hwalk
      ⟨hstart.toLowercase (hfold.question hqtype), forall_mem_nil _⟩
    have hchain : ∀ r : CacheRecord, FoldedOnChain packet.answers q.name r.name →
      AllowedKey packet r.key := by
      intro r hr
      refine .chain hq ?_
      show OnChain packet.answers q.name (toLowercase r.name)
      rw [hr.folded]
      exact hr.onChain
    rcases mem_finishWalk hfinish hrec with hrec | ⟨hneg, ⟨ttl, rfl⟩ | ⟨m, ttl, hsoa, rfl⟩⟩
    · exact hchain rec (hstaged rec hrec)
    · exact hchain _ hname
    · obtain ⟨rr, hmem, htype, hclass, howner, suffix, hsuffix, hcover⟩ := findSoa_eq_some hsoa
      obtain ⟨hrr, hshort⟩ := hfold.soa hqtype rr hmem htype hclass
      have hfound : w.found = false := by
        simp only [Env.negative, Bool.and_eq_true, Bool.not_eq_true'] at hneg
        exact hneg.1.1
      -- the walk has not come to the limit, so its last name owns no CNAME
      obtain ⟨hhops, hend⟩ := hops_of_followChain hwalk hfound
      have hlast := find?_eq_none.mp (hend.resolve_right (Nat.not_le.mpr (hshort _ hhops)))
      refine .soa hq ⟨hname.onChain, fun r hr hcname hin => ?_⟩ hmem htype hclass ?_ ?_
      · simpa [isCnameOf, ownedBy, Walk.place, hcname, hin] using hlast r hr
      · rw [eqIgnoreAsciiCase_iff, howner, show toLowercase rr.name = asciiLower rr.name from hrr,
          asciiLower_asciiLower] at hcover
        rw [← hcover]
        exact hsuffix.map _
      · show eqIgnoreAsciiCase (toLowercase m.owner) rr.name
        rw [howner, toLowercase_toLowercase, show toLowercase rr.name = asciiLower rr.name from hrr]
        exact eqIgnoreAsciiCase_asciiLower

/-- A reply for the Kelvin sign (U+212A), answered by an address of `k`. -/
def sampleKelvin : Bytes :=
  [0x12, 0x34, 0x81, 0x80, 0, 1, 0, 1, 0, 0, 0, 0] ++ [3, 0xE2, 0x84, 0xAA, 0, 0, 1, 0, 1]
    ++ [1, 0x6B, 0, 0, 1, 0, 1, 0, 0, 0, 60, 0, 4, 192, 0, 2, 1]

/-- `sampleKelvin` parsed. -/
def kelvinPacket : DnsPacket where
  header := ⟨0x1234, 0x81, 0x80, 1, 1, 0, 0⟩
  questions := [{ name := [Char.ofNat 0x212A], qtype := 1, qclass := 1 }]
  answers := [{ name := ['k'], rtype := 1, rclass := 1, ttl := 60, rdata := [192, 0, 2, 1] }]
  authority := []
  additional := []

/-- The reply has no CNAME, no SOA and no PTR question, so its question name is all it may set. -/
theorem allowed_kelvinPacket (h : Allowed kelvinPacket n) :
    eqIgnoreAsciiCase n [Char.ofNat 0x212A] := by
  cases h with
  | chain hq hn =>
    cases hq
    cases hn with
    | question heq => exact heq
    | target howner hmem htype hclass htarget heq =>
      rw [mem_singleton.mp hmem] at htype
      cases htype
  | soa hq hfinal hmem htype hclass hsuffix hn => cases hmem
  | ptr hq hqtype hmem htype hclass howner htarget hn =>
    cases hq
    cases hqtype

/-- A reply without an address: a CNAME, and the SOA above its target. -/
def aliasReply : DnsPacket where
  header := ⟨0x1234, 0x81, 0x80, 1, 1, 1, 0⟩
  questions := [⟨"K.lan".toList, 1, 1⟩]
  answers := [⟨"k.LAN".toList, 5, 1, 60, writeName "h.lan".toList⟩]
  authority := [⟨"Lan".toList, 6, 1, 60, List.replicate 22 1 |>.set 0 0 |>.set 1 0⟩]
  additional := []

theorem hops_aliasReply (h : ReflTransGen (Hop aliasReply.answers) (0, "k.lan".toList) p) :
    p = (0, "k.lan".toList) ∨ p = (1, "h.lan".toList) := by
  induction h with
  | refl => exact .inl rfl
  | tail _ hhop ih =>
    obtain ⟨-, rr, t, pos, hfirst, htarget, rfl⟩ := hop_iff.mp hhop
    rcases ih with rfl | rfl
    · have hrr : some rr = aliasReply.answers.head? := hfirst.symm.trans (by decide +kernel)
      obtain rfl := some.inj hrr
      have ht :
          extractName (writeName "h.lan".toList) 0 = .ok ("h.lan".toList, 7) := by decide +kernel
      cases htarget.symm.trans ht
      exact .inr (by decide +kernel)
    · have hnone : aliasReply.answers.find? (isCnameOf "h.lan".toList) = none := by decide +kernel
      cases hnone.symm.trans hfirst

theorem folds_aliasReply : ∀ q ∈ aliasReply.questions, Folds aliasReply q := by
  refine forall_mem_singleton.mpr ⟨fun h => absurd h (by decide), fun _ => ?_, fun _ =>
    ?_, fun _ => ?_⟩
  · show toLowercase "K.lan".toList = asciiLower "K.lan".toList
    decide +kernel
  · refine forall_mem_singleton.mpr fun _ _ _ t pos htarget => ?_
    have ht :
        extractName (writeName "h.lan".toList) 0 = .ok ("h.lan".toList, 7) := by decide +kernel
    cases htarget.symm.trans ht
    show toLowercase "h.lan".toList = asciiLower "h.lan".toList
    decide +kernel
  · refine forall_mem_singleton.mpr fun _ _ => ⟨?_, fun p hp => ?_⟩
    · show toLowercase "Lan".toList = asciiLower "Lan".toList
      decide +kernel
    · have hstart : toLowercase "K.lan".toList = "k.lan".toList := by decide +kernel
      rcases hops_aliasReply (hstart ▸ hp) with rfl | rfl
      all_goals decide

end DnsmasqRs.Rfc1035
