import DnsmasqRs.Equiv.CacheEntries
import DnsmasqRs.Rfc1035.Equiv.Negative

/-!
# What becomes of the addresses of a reply

A reply to an address question whose chain ends at a name with addresses (`AddressReply`) has one
record staged for each of them, all under one key, so that only the last is left in the cache.  The
lookup of all addresses of the name then finds that one and what other keys hold for the name.  It
finds the addresses of the reply exactly if the others are all there from before
(`lookupAllByName_perm_iff`), which for a reply with one address means that nothing else is there.
-/

namespace DnsmasqRs.Rfc1035

open Wire Utf8 ByteCursor DnsProtocol Cache Fallible Relation Lru List

/-! ### The chain of a reply -/

/-- The name that the first CNAME of a name points to. -/
inductive Target (answers : List DnsRr) : Str → Str → Prop where
  | follow {pos : ℕ} {n t : Str} {rr : DnsRr} (hfirst : answers.find? (isCnameOf n) = some rr)
      (htarget : extractName rr.rdata 0 = .ok (t, pos)) : Target answers n (toLowercase t)

/-- The type bit of an address question. -/
def addressFlag (qtype : UInt16) : UInt32 := if qtype = 1 then fIpv4 else fIpv6

/-- The chain of the reply to an address question ends at `n`, which has the given addresses. -/
structure AddressReply (packet : DnsPacket) (q : DnsQuestion) (n : Str) (addrs : List IpAddr) :
    Prop where
  questions : packet.questions = [q]
  qtype : q.qtype = 1 ∨ q.qtype = 28
  chain : ReflTransGen (Target packet.answers) (toLowercase q.name) n
  last : ∀ rr ∈ packet.answers, isCnameOf n rr = false
  addresses :
    (packet.answers.filter fun rr => ownedBy n rr && rr.rtype == q.qtype).map answerAddress
      = addrs.map some
  nodup : addrs.Nodup
  ttl : ∀ rr ∈ packet.answers, ownedBy n rr → rr.rtype = q.qtype → rr.ttl ≠ 0

section Chain

variable {answers : List DnsRr} {p p' : ℕ × Str} {a n m : Str}

theorem target_unique (h : Target answers a n) (h' : Target answers a m) : n = m := by
  obtain ⟨hfirst, htarget⟩ := h
  obtain ⟨hfirst', htarget'⟩ := h'
  obtain rfl := Option.some.inj (hfirst.symm.trans hfirst')
  rw [htarget] at htarget'
  cases htarget'
  rfl

theorem target_of_hop (h : Hop answers p p') : Target answers p.2 p'.2 := by
  obtain ⟨-, rr, t, pos, hfirst, htarget, rfl⟩ := hop_iff.mp h
  exact .follow hfirst htarget

theorem targets_of_hops (h : ReflTransGen (Hop answers) p p') :
    ReflTransGen (Target answers) p.2 p'.2 := by
  induction h with
  | refl => exact .refl
  | tail _ hlast ih => exact ih.tail (target_of_hop hlast)

theorem not_target_of_last (hlast : ∀ rr ∈ answers, isCnameOf n rr = false) :
    ¬Target answers n m := by
  rintro ⟨hfirst, -⟩
  have hcname := find?_some hfirst
  rw [hlast _ (mem_of_find?_eq_some hfirst)] at hcname
  cases hcname

/-- The walk ends at the end of the chain, or at the hop limit before it. -/
theorem eq_or_limit_of_hops (hchain : ReflTransGen (Target answers) a n)
    (hlast : ∀ rr ∈ answers, isCnameOf n rr = false)
    (hreach : ReflTransGen (Hop answers) (0, a) p) (hends : ∀ p', ¬Hop answers p p') :
    p.2 = n ∨ p.1 = cnameChainLimit ∧ ∃ rr ∈ answers, isCnameOf p.2 rr := by
  have hunique : Relator.RightUnique (Target answers) := fun _ _ _ => target_unique
  rcases ReflTransGen.total_of_right_unique hunique (targets_of_hops hreach) hchain with h | h
  · rcases ReflTransGen.cases_head h with heq | ⟨m, ⟨hfirst, htarget⟩, -⟩
    · exact .inl heq
    · right
      refine ⟨?_, _, mem_of_find?_eq_some hfirst, find?_some hfirst⟩
      by_contra hne
      have hlt := Nat.lt_of_le_of_ne (le_limit_of_hops hreach (Nat.zero_le _)) hne
      exact hends _ (.follow hlt hfirst htarget)
  · rcases ReflTransGen.cases_head h with heq | ⟨m, htarget, -⟩
    · exact .inl heq.symm
    · exact absurd htarget (not_target_of_last hlast)

theorem toLowercase_of_chain (h : ReflTransGen (Target answers) (toLowercase a) n) :
    toLowercase n = n := by
  rcases ReflTransGen.cases_tail h with heq | ⟨m, -, ⟨hfirst, htarget⟩⟩
  · rw [heq, toLowercase_toLowercase]
  · exact toLowercase_toLowercase _

end Chain

/-! ### Records that the walk stages for other names -/

section Staged

variable {env : Env} {answers : List DnsRr} {w w' : Walk} {n : Str}

/-- Records are staged for a name without a CNAME only if the walk stays there. -/
theorem currentName_of_walkStep (hlast : ∀ rr ∈ answers, isCnameOf n rr = false) (w w' : Walk)
    (h : WalkStep env answers w w') (hw : toLowercase w.currentName = w.currentName ∧
      ∀ rec ∈ w.staged, toLowercase rec.name = n → w.currentName = n) :
        toLowercase w'.currentName = w'.currentName ∧
      ∀ rec ∈ w'.staged, toLowercase rec.name = n → w'.currentName = n := by
  obtain ⟨hlower, hstaged⟩ := hw
  cases h with
  | @follow rr t pos hmem howns htype htarget =>
    have hleaves : w.currentName ≠ n := by
      rintro rfl
      have hcname : isCnameOf w.currentName rr :=
        isCnameOf_of_rtype (ownedBy_place_iff.mpr (Walk.owns_iff.mp howns)) htype
      rw [hlast rr hmem] at hcname
      cases hcname
    refine ⟨toLowercase_toLowercase t, fun rec hrec hname => ?_⟩
    rcases mem_stage hrec with hold | rfl
    · exact absurd (hstaged rec hold hname) hleaves
    · exact absurd (hlower.symm.trans hname) hleaves
  | take htype => exact ⟨hlower, hstaged⟩
  | answer hmem howns htype hdata =>
    refine ⟨hlower, fun rec hrec hname => ?_⟩
    rcases mem_stage hrec with hold | rfl
    · exact hstaged rec hold hname
    · exact hlower.symm.trans hname

variable {f : UInt32}

theorem flags_of_scanAnswers_nxdomain (hnx : env.isNxdomain)
    (hcname : (fCname ||| fForward) &&& f = 0) (hsec : env.secflag &&& f = 0)
    (h : scanAnswers env answers w = .ok s) (hw : ∀ rec ∈ w.staged, rec.flags &&& f = 0) :
    ∀ rec ∈ s.walk.staged, rec.flags &&& f = 0 := by
  -- a CNAME followed stages one record more
  have hfollow : ∀ (w : Walk) (ttl : UInt32) (t : Str), (∀ rec ∈ w.staged, rec.flags &&& f = 0) →
      ∀ rec ∈ (env.follow w ttl t).staged, rec.flags &&& f = 0 := by
    intro w ttl t hw rec hrec
    rcases mem_stage hrec with hold | rfl
    · exact hw rec hold
    · exact or_and_eq_zero.mpr ⟨hcname, hsec⟩
  rcases scanAnswers_cases h with ⟨rr, hrr, -⟩ | ⟨w₁, hanswered, hend⟩
  · rw [Env.seen, if_pos hnx] at hrr
    cases hrr
  · rw [Env.seen, if_pos hnx] at hanswered
    obtain ⟨recs, hrecs, hstaged⟩ := hanswered.staged
    cases hrecs
    rw [ite_self, append_nil] at hstaged
    rw [← hstaged] at hw
    generalize answers.find? (isCnameOf w.place.2) = o at hend
    cases hend with
    | none | limit | bad => exact hw
    | take | restart => exact hfollow _ _ _ hw

theorem flags_of_followChain_nxdomain (hnx : env.isNxdomain)
    (hcname : (fCname ||| fForward) &&& f = 0) (hsec : env.secflag &&& f = 0)
    (h : followChain env answers w = .ok (r, w')) (hw : ∀ rec ∈ w.staged, rec.flags &&& f = 0) :
    ∀ rec ∈ w'.staged, rec.flags &&& f = 0 := by
  fun_induction followChain env answers w with
  | case1 w fault hscan => cases h
  | case2 w result w₁ hscan | case3 w w₁ hscan =>
    cases h
    exact flags_of_scanAnswers_nxdomain hnx hcname hsec hscan hw
  | case4 w w₁ hscan ih => exact ih h (flags_of_scanAnswers_nxdomain hnx hcname hsec hscan hw)

end Staged

/-! ### What is staged for the end of the chain -/

section Reply

variable {packet : DnsPacket} {q : DnsQuestion} {n : Str} {addrs : List IpAddr} {now : Instant}
  {config : ExtractConfig} {outcome : ExtractOutcome} {staged : List CacheRecord}

section

variable (hreply : AddressReply packet q n addrs)
include hreply

theorem AddressReply.of_qtype {p : UInt16 → Prop} (h1 : p 1) (h28 : p 28) : p q.qtype := by
  rcases hreply.qtype with hqtype | hqtype
  all_goals rwa [hqtype]

theorem AddressReply.walk
    (hcollect : collectRecords packet now config = .ok (outcome, some staged)) :
    ∃ w, Walked (questionEnv packet.header q.qtype now config) packet
      (toLowercase q.name) staged w := by
  have hqtype : q.qtype ≠ 12 := hreply.of_qtype (p := (· ≠ 12)) (by decide) (by decide)
  exact walk_of_collectRecords hreply.questions hqtype hcollect

theorem AddressReply.qtype_ne_cname :
    q.qtype ≠ 5 := hreply.of_qtype (p := (· ≠ 5)) (by decide) (by decide)

/-- The walk ends at the end of the chain exactly if the chain is not over the limit. -/
theorem AddressReply.last_iff {p : ℕ × Str}
    (hreach : ReflTransGen (Hop packet.answers) (0, toLowercase q.name) p)
    (hends : ∀ p', ¬Hop packet.answers p p') : p.2 = n ↔ ¬OverLimit packet := by
  constructor
  · rintro heq ⟨q', m, hq', hlimit, rr, hmem, hcname⟩
    rw [hreply.questions] at hq'
    cases hq'
    have hstop : ∀ p', ¬Hop packet.answers (cnameChainLimit, m) p' :=
      fun p' hp => absurd (hop_iff.mp hp).1 (Nat.lt_irrefl _)
    rw [hops_end_unique hreach hlimit hends hstop] at heq
    rw [show m = n from heq, hreply.last rr hmem] at hcname
    cases hcname
  · intro hlimit
    rcases eq_or_limit_of_hops hreply.chain hreply.last hreach hends with heq
      | ⟨hhops, rr, hmem, hcname⟩
    · exact heq
    · refine absurd ⟨q, p.2, hreply.questions, ?_, rr, hmem, hcname⟩ hlimit
      rw [← hhops]
      exact hreach

theorem AddressReply.currentName_ne_of_overLimit {w : Walk}
    (hnx : (questionEnv packet.header q.qtype now config).isNxdomain = false)
    (hwalk : followChain (questionEnv packet.header q.qtype now config) packet.answers
      { currentName := toLowercase q.name } = .ok (none, w)) (hlimit : OverLimit packet) :
    w.currentName ≠ n := by
  obtain ⟨w₁, -, hreach, hends, -, hscan⟩ := followChain_last hreply.qtype_ne_cname hnx hwalk
  obtain ⟨hw, -⟩ :=
    (scanAnswers_finish hscan).resolve_left fun htake => hreply.qtype_ne_cname htake.1
  rw [show w.currentName = w₁.currentName from congrArg Prod.snd hw.place]
  exact fun heq => (hreply.last_iff hreach hends).mp heq hlimit

theorem AddressReply.questionKind_eq : questionKind q.qtype config = (addressFlag q.qtype, true) :=
  hreply.of_qtype (p := fun qtype => questionKind qtype config = (addressFlag qtype, true)) rfl rfl

theorem AddressReply.flag_mem : addressFlag q.qtype ∈ [fIpv4, fIpv6] :=
  hreply.of_qtype (p := fun qtype => addressFlag qtype ∈ [fIpv4, fIpv6]) (by decide) (by decide)

/-- In an NXDOMAIN reply, or behind the hop limit, the addresses are not staged. -/
theorem AddressReply.not_staged
    (hcollect : collectRecords packet now config = .ok (outcome, some staged))
    (hout : packet.header.rcode = 3 ∨ OverLimit packet) :
    ∀ rec ∈ staged, toLowercase rec.name = n → rec.flags &&& addressFlag q.qtype = 0 := by
  set env := questionEnv packet.header q.qtype now config
  intro rec hrec hname
  obtain ⟨w, hwalk, hfinish⟩ := hreply.walk hcollect
  have hsec : env.secflag &&& addressFlag q.qtype = 0 := by
    have hall : ∀ a ∈ [fDnssecok, 0], ∀ b ∈ [fIpv4, fIpv6], a &&& b = 0 := by decide
    exact hall _ (secflag_cases) _ hreply.flag_mem
  have hall : ∀ b ∈ [fIpv4, fIpv6], (fForward ||| fRr ||| fKeytag) &&& b = 0
    ∧ (fCname ||| fForward) &&& b = 0 ∧ (fNxdomain ||| fNeg ||| fForward) &&& b = 0 := by
    decide
  obtain ⟨hsoa, hcname, hneg⟩ := hall _ hreply.flag_mem
  by_cases hnx : packet.header.rcode = 3
  · have hisnx : env.isNxdomain := beq_iff_eq.mpr hnx
    have hstaged := flags_of_followChain_nxdomain hisnx hcname hsec hwalk (forall_mem_nil _)
    rcases mem_finishWalk hfinish hrec with hrec | ⟨-, ⟨ttl, rfl⟩ | ⟨m, ttl, -, rfl⟩⟩
    · exact hstaged rec hrec
    · rw [hisnx]
      exact or_and_eq_zero.mpr ⟨hneg, hsec⟩
    · exact or_and_eq_zero.mpr ⟨hsoa, hsec⟩
  · have hlimit := hout.resolve_left hnx
    have hisnx : env.isNxdomain = false := beq_eq_false_iff_ne.mpr hnx
    have helsewhere : w.currentName ≠ n := hreply.currentName_ne_of_overLimit hisnx hwalk hlimit
    obtain ⟨hlower, hstaged⟩ := followChain_invariant (currentName_of_walkStep hreply.last) hwalk
      ⟨toLowercase_toLowercase q.name, forall_mem_nil _⟩
    rcases mem_finishWalk hfinish hrec with hrec | ⟨-, ⟨ttl, rfl⟩ | ⟨m, ttl, -, rfl⟩⟩
    · exact absurd (hstaged rec hrec hname) helsewhere
    · exact absurd (hlower.symm.trans hname) helsewhere
    · exact or_and_eq_zero.mpr ⟨hsoa, hsec⟩

end

theorem asIp_of_answerData {env : Env}
    (hqtype : env.qtype = 1 ∨ env.qtype = 28) (hclass : rr.rclass = 1)
    (htype : rr.rtype = env.qtype) (h : answerData env rr = .ok (.ok addr)) :
    addr.asIp = answerAddress rr := by
  unfold answerAddress
  rw [if_neg (not_not.mpr hclass), htype]
  cases AnswerData.of_eq h with
  | addr4 h4 hip =>
    rw [if_pos h4, hip]
    rfl
  | addr6 h6 hip =>
    rw [if_neg (by rw [h6]; decide), if_pos h6, hip]
    rfl
  | other h4 h6 => exact absurd hqtype (not_or.mpr ⟨h4, h6⟩)

variable {flag : UInt32}

/-- The bits of a key tell whether a record answers for an address family. -/
theorem and_eq_typeFlags_and (h : flag ∈ [fIpv4, fIpv6]) :
    flags &&& flag = typeFlags flags &&& flag := by
  have hmask : ∀ b ∈ [fIpv4, fIpv6], typeMask &&& b = b := by decide
  rw [typeFlags, UInt32.and_assoc, hmask flag h]

/-- The last of the values read off a list, and what the element it is read off is related to. -/
theorem exists_last_of_forall₂ {f : α → Option γ}
    (h : List.Forall₂ R l r) (hmap : l.map f = c.map some) (hne : c ≠ []) :
    ∃ rs y cs z x, r = rs ++ [y] ∧ c = cs ++ [z] ∧ x ∈ l ∧ R x y ∧ f x = some z := by
  obtain ⟨cs, z, rfl⟩ := (eq_nil_or_concat c).resolve_left hne
  rw [concat_eq_append, map_append] at hmap
  obtain ⟨front, back, rfl, -, hback⟩ := map_eq_append_iff.mp hmap
  obtain ⟨x, rfl, hx⟩ := map_eq_singleton_iff.mp hback
  obtain ⟨y, rest, hxy, hrest, hdrop⟩ :=
    forall₂_cons_right_iff.mp (forall₂_drop_append _ _ _ h.flip)
  obtain rfl := forall₂_nil_right_iff.mp hrest
  refine ⟨r.take front.length, y, cs, z, x, ?_, concat_eq_append, ?_, hxy, hx⟩
  · rw [← hdrop, take_append_drop]
  · exact mem_append_right _ (mem_singleton.mpr rfl)

theorem flags_of_stages {flag sec : UInt32} (hflag : flag ∈ [fIpv4, fIpv6])
    (hsec : sec ∈ [fDnssecok, 0]) :
    (flag ||| fForward ||| sec) &&& flag ≠ 0 ∧ (flag ||| fForward ||| sec) &&& fForward ≠ 0
      ∧ typeFlags (flag ||| fForward ||| sec) = flag
      ∧ (fCname ||| fForward ||| sec) &&& flag = 0 := by
  have hall : ∀ a ∈ [fIpv4, fIpv6], ∀ b ∈ [fDnssecok, 0], (a ||| fForward ||| b) &&& a ≠ 0
      ∧ (a ||| fForward ||| b) &&& fForward ≠ 0 ∧ typeFlags (a ||| fForward ||| b) = a
      ∧ (fCname ||| fForward ||| b) &&& a = 0 := by
    decide
  exact hall flag hflag sec hsec

/-- Otherwise the last record staged holds the last address, and records for the name have one key.
-/
theorem AddressReply.staged_eq (hreply : AddressReply packet q n addrs) (hne : addrs ≠ [])
    (hcollect : collectRecords packet now config = .ok (outcome, some staged))
    (hrcode : packet.header.rcode ≠ 3) (hlimit : ¬OverLimit packet) :
    (∃ front last as ip, staged = front ++ [last] ∧ addrs = as ++ [ip] ∧ last.name = n ∧
        last.addr.bind AllAddr.asIp = some ip ∧ last.flags &&& addressFlag q.qtype ≠ 0
          ∧ last.flags &&& fForward ≠ 0) ∧
      ∀ rec ∈ staged, rec.flags &&& addressFlag q.qtype ≠ 0 →
        typeFlags rec.flags = addressFlag q.qtype := by
  set env := questionEnv packet.header q.qtype now config
  obtain ⟨w, hwalk, hfinish⟩ := hreply.walk hcollect
  have hnx : env.isNxdomain = false := beq_eq_false_iff_ne.mpr hrcode
  have hinsert : env.insert := congrArg Prod.snd hreply.questionKind_eq
  have haddr : env.addrFlag = addressFlag q.qtype := congrArg Prod.fst hreply.questionKind_eq
  obtain ⟨hanswers, hforward, htype, hcname⟩ :=
    flags_of_stages hreply.flag_mem (secflag_cases : env.secflag ∈ [fDnssecok, 0])
  obtain ⟨w₁, -, hreach, hends, -, hscan⟩ := followChain_last hreply.qtype_ne_cname hnx hwalk
  have hplace : w₁.place.2 = n := (hreply.last_iff hreach hends).mpr hlimit
  obtain ⟨recs, hrecs, hstaged, -, hfound⟩ :=
    scanAnswers_end hinsert hnx (by rw [hplace]; exact hreply.last) hscan
  rw [hplace, show w₁.currentName = n from hplace] at hrecs
  obtain ⟨rs, last, as, ip, rr, rfl, rfl, hmem, ⟨addr, hdata, hlast⟩, hip⟩ :=
    exists_last_of_forall₂ hrecs hreply.addresses hne
  -- an answer was found, so there is no negative record
  have hwstaged : staged = w.staged := by
    rcases finishWalk_cases hfinish with heq | ⟨hneg, -⟩
    · exact heq
    · simp [Env.negative, hfound] at hneg
  constructor
  · rw [mem_filter, Bool.and_eq_true, beq_iff_eq] at hmem
    have hclass : rr.rclass = 1 := by
      have howned := hmem.2.1
      rw [ownedBy, Bool.and_eq_true, beq_iff_eq] at howned
      exact howned.1
    refine ⟨w₁.staged ++ rs, last, as, ip, ?_, rfl, ?_, ?_, ?_, ?_⟩
    · rw [hwstaged, hstaged, append_assoc]
    · rw [hlast]
      rfl
    · rw [hlast]
      show addr.asIp = some ip
      rw [asIp_of_answerData hreply.qtype hclass hmem.2.2 hdata, hip]
    · rw [hlast]
      show (_ ||| fForward ||| _) &&& _ ≠ 0
      rw [haddr]
      exact hanswers
    · rw [hlast]
      show (_ ||| fForward ||| _) &&& fForward ≠ 0
      rw [haddr]
      exact hforward
  · rw [hwstaged]
    intro rec hrec hflag
    rcases walks_of_followChain hwalk rec hrec with ⟨name, ttl, t, rfl⟩
      | ⟨name, ttl, rr, addr, -, rfl⟩
    · exact absurd hcname hflag
    · rw [haddr]
      exact htype

end Reply

/-! ### What the lookup finds -/

section Lookup

variable {M : Type} [Lru M CacheKey CacheRecord]

/-- The addresses among records. -/
def addressesOf (recs : List CacheRecord) : List IpAddr :=
  recs.filterMap fun rec => rec.addr.bind AllAddr.asIp

/-- The addresses do not get to the cache: the reply is NXDOMAIN, its chain is over the limit, or
one of its records has no lifetime. -/
def Dropped (packet : DnsPacket) (cache : DnsCache M) (staged : List CacheRecord) : Prop :=
  packet.header.rcode = 3 ∨ OverLimit packet ∨ ∃ rec ∈ staged, rec.ttl = 0 ∧ cache.minCacheTtl = 0

/-- No static record has the name of one of the records. -/
def NoStatic (cache : DnsCache M) (staged : List CacheRecord) : Prop :=
  ∀ rec ∈ staged, ∀ k r, peek cache.records k = some r → k.name = toLowercase rec.name →
    r.isStatic = false

theorem NoStatic.free {cache : DnsCache M} {staged : List CacheRecord} (h : NoStatic cache staged) :
    ∀ rec ∈ staged, ∀ r, peek cache.records rec.key = some r → r.isStatic = false :=
  fun rec hrec r hpeek => h rec hrec rec.key r hpeek rfl

variable [RecencyLru M CacheKey CacheRecord] {packet : DnsPacket} {q : DnsQuestion} {n name : Str}
  {addrs : List IpAddr} {cache : DnsCache M} {now : Instant} {config : ExtractConfig}
  {outcome : ExtractOutcome} {staged : List CacheRecord}

omit [RecencyLru M CacheKey CacheRecord] in
/-- A record that answers has the name and a type bit, and so has every record of its key. -/
theorem DnsCache.answersName_of_key {r r' : CacheRecord} (hflag : flag ∈ [fIpv4, fIpv6])
    (hkey : r'.key = r.key) (h : DnsCache.answersName name flag r') :
    toLowercase r.name = toLowercase name ∧ r.flags &&& flag ≠ 0 := by
  have hname : toLowercase r'.name = toLowercase r.name := congrArg CacheKey.name hkey
  have hbits : typeFlags r'.flags = typeFlags r.flags := congrArg CacheKey.flags hkey
  rw [DnsCache.answersName, Bool.and_eq_true, Bool.and_eq_true, beq_iff_eq] at h
  rw [← hname, and_eq_typeFlags_and hflag, ← hbits, ← and_eq_typeFlags_and hflag]
  exact ⟨h.1.1, bne_iff_ne.mp h.2⟩

/-- Records of another name or of other types do not change what a lookup by name finds. -/
theorem answering_foldl_insert (hvalid : cache.Valid) {recs : List CacheRecord}
    (hflag : flag ∈ [fIpv4, fIpv6]) (hroom : cache.RoomFor recs.length)
    (hother : ∀ r ∈ recs, toLowercase r.name = toLowercase name → r.flags &&& flag = 0) :
    (recs.foldl DnsCache.insert cache).answering name flag now = cache.answering name flag now := by
  unfold DnsCache.answering
  rw [← DnsCache.map_snd_filter, ← DnsCache.map_snd_filter,
    DnsCache.filter_entries_foldl_insert hvalid hroom]
  intro r hr r' hkey
  rw [← Bool.not_eq_true, Bool.and_eq_true]
  rintro ⟨-, hanswers⟩
  obtain ⟨hname, hbits⟩ := DnsCache.answersName_of_key hflag hkey hanswers
  exact hbits (hother r hr hname)

/-- The same for a key that is left out: records may then be written under it. -/
theorem answeringExcept_foldl_insert (hvalid : cache.Valid) {recs : List CacheRecord}
    (hflag : flag ∈ [fIpv4, fIpv6]) (hroom : cache.RoomFor recs.length)
    (hother : ∀ r ∈ recs, r.flags &&& flag ≠ 0 → typeFlags r.flags = flag) :
    (recs.foldl DnsCache.insert cache).answeringExcept ⟨toLowercase name, flag⟩ name flag now
      = cache.answeringExcept ⟨toLowercase name, flag⟩ name flag now := by
  unfold DnsCache.answeringExcept
  rw [← DnsCache.map_snd_filter, ← DnsCache.map_snd_filter, filter_filter, filter_filter,
    DnsCache.filter_entries_foldl_insert hvalid hroom]
  intro r hr r' hkey
  rw [← Bool.not_eq_true, Bool.and_eq_true, Bool.and_eq_true, decide_eq_true_eq]
  rintro ⟨⟨-, hanswers⟩, hne⟩
  obtain ⟨hname, hbits⟩ := DnsCache.answersName_of_key hflag hkey hanswers
  exact hne (by rw [CacheRecord.key, hname, hother r hr hbits])

theorem answering_insert (hvalid : cache.Valid)
    (hroom : cache.RoomFor (k + 1)) (hkey : last.key = ⟨toLowercase name, flag⟩)
    (hlive : recordIsExpired last now = false) (hanswers : DnsCache.answersName name flag last) :
    (cache.insert last).answering name flag now
      = last :: cache.answeringExcept ⟨toLowercase name, flag⟩ name flag now := by
  unfold DnsCache.answering DnsCache.answeringExcept
  rw [DnsCache.entries_insert_of_room hvalid hroom, map_cons,
    filter_cons_of_pos (by simp [hlive, hanswers]), hkey]

omit [RecencyLru M CacheKey CacheRecord] in
/-- A record that is staged has a cache to go to. -/
theorem maxSize_ne_zero_of_roomFor {rec : CacheRecord} (hroom : cache.RoomFor staged.length)
    (hrec : rec ∈ staged) : cache.maxSize ≠ 0 := by
  have hpos := length_pos_of_mem hrec
  unfold DnsCache.RoomFor at hroom
  omega

section

variable (hreply : AddressReply packet q n addrs)
  (hcollect : collectRecords packet now config = .ok (outcome, some staged)) (hvalid : cache.Valid)
  (hstatic : NoStatic cache staged) (hroom : cache.RoomFor staged.length)
    (hname : toLowercase name = n)
include hreply hcollect hvalid hstatic hroom hname

/-- Where the reply's addresses do not get to the cache, the name has the ones from before. -/
theorem AddressReply.answering_of_dropped (hdropped : Dropped packet cache staged) :
    ((cache.committed staged now).foldl DnsCache.insert cache.startInsert).answering name
      (addressFlag q.qtype) now = cache.answering name (addressFlag q.qtype) now := by
  have hmisses : ∀ r ∈ cache.committed staged now,
      toLowercase r.name = toLowercase name → r.flags &&& addressFlag q.qtype = 0 := by
    intro r hr hsame
    obtain ⟨rec, hrec, heq⟩ := DnsCache.mem_committed hr
    have hnot (hout : packet.header.rcode = 3 ∨ OverLimit packet) :
        r.flags &&& addressFlag q.qtype = 0 := by
      rw [heq] at hsame ⊢
      exact hreply.not_staged hcollect hout rec hrec (hsame.trans hname)
    rcases hdropped with hrcode | hlimit | hzero
    · exact hnot (.inl hrcode)
    · exact hnot (.inr hlimit)
    · have hsize := maxSize_ne_zero_of_roomFor hroom hrec
      rw [(DnsCache.committed_of_plain (plain_of_collectRecords hcollect) hsize hstatic.free).1
        hzero] at hr
      cases hr
  have hroom' : cache.startInsert.RoomFor (cache.committed staged now).length :=
    Nat.le_trans (Nat.add_le_add_left (DnsCache.length_committed_le) _) hroom
  rw [answering_foldl_insert hvalid.startInsert hreply.flag_mem hroom' hmisses]
  rfl

/-- Where they do, it has the last of them and the ones from before under other keys. -/
theorem AddressReply.addressesOf_of_not_dropped (hne : addrs ≠ [])
    (hdropped : ¬Dropped packet cache staged) : ∃ as ip, addrs = as ++ [ip] ∧ addressesOf
        (((cache.committed staged now).foldl DnsCache.insert cache.startInsert).answering name
        (addressFlag q.qtype) now) =
      ip :: addressesOf
        (cache.answeringExcept ⟨n, addressFlag q.qtype⟩ name (addressFlag q.qtype) now) := by
  simp only [Dropped, not_or] at hdropped
  obtain ⟨hrcode, hlimit, hlife⟩ := hdropped
  obtain ⟨⟨front, last, as, ip, rfl, rfl, hlastname, hlastaddr, hlastflag, hlastforward⟩, hbits⟩ :=
    hreply.staged_eq hne hcollect hrcode hlimit
  refine ⟨as, ip, rfl, ?_⟩
  have hplain := plain_of_collectRecords hcollect
  have hlast : last ∈ front ++ [last] := mem_append_right _ (mem_singleton.mpr rfl)
  have hsize := maxSize_ne_zero_of_roomFor hroom hlast
  rw [(DnsCache.committed_of_plain hplain hsize hstatic.free).2 hlife, map_append,
    foldl_append, map_singleton, foldl_cons, foldl_nil]
  rw [length_append] at hroom
  have hroom' : cache.startInsert.RoomFor ((front.map (cache.renew now)).length + 1) := by
    rw [length_map]
    exact hroom
  have hfront : ∀ r ∈ front.map (cache.renew now), r.flags &&& addressFlag q.qtype ≠ 0 →
      typeFlags r.flags = addressFlag q.qtype := by
    intro r hr
    obtain ⟨rec, hrec, rfl⟩ := mem_map.mp hr
    obtain ⟨ttl, expires, heq⟩ := cache.renew_eq
    rw [heq]
    exact hbits rec (mem_append_left _ hrec)
  -- the last record is alive and answers for the name
  have hlive : recordIsExpired (cache.renew now last) now = false :=
    DnsCache.recordIsExpired_renew (hplain last hlast) (fun h => hlife ⟨last, hlast, h⟩)
  obtain ⟨ttl, expires, heq⟩ := cache.renew_eq
  have hlower : toLowercase last.name = toLowercase name := by
    rw [hlastname, hname, toLowercase_of_chain hreply.chain]
  have hkey : (cache.renew now last).key = ⟨toLowercase name, addressFlag q.qtype⟩ := by
    rw [DnsCache.key_renew, CacheRecord.key, hlower, hbits last hlast hlastflag]
  have hanswers : DnsCache.answersName name (addressFlag q.qtype) (cache.renew now last) := by
    rw [heq]
    simp [DnsCache.answersName, hlower, hlastflag, hlastforward]
  have haddr : (cache.renew now last).addr.bind AllAddr.asIp = some ip := by
    rw [heq]
    exact hlastaddr
  rw [answering_insert (hvalid.startInsert.foldl_insert _)
      (DnsCache.RoomFor.foldl_insert hvalid.startInsert (front.map (cache.renew now)) hroom')
      hkey hlive hanswers,
    answeringExcept_foldl_insert hvalid.startInsert hreply.flag_mem
      (Nat.le_of_succ_le hroom') hfront,
    hname]
  exact filterMap_cons_some haddr

end

/-- The addresses of a reply are found by the lookup of all addresses of the name exactly if they
are there from before where the reply's do not get to the cache, and if all but the last are there
from before, under other keys, where they do. -/
theorem lookupAllByName_perm_iff (hreply : AddressReply packet q n addrs) (hne : addrs ≠ [])
    (hcommits : Commits packet.header)
    (hcollect : collectRecords packet now config = .ok (outcome, some staged))
    (hvalid : cache.Valid) (hstatic : NoStatic cache staged) (hroom : cache.RoomFor staged.length)
    (hname : toLowercase name = n) :
    ∃ cache', extractAddresses packet cache now config = .ok (cache', outcome) ∧
      ((addressesOf (cache'.lookupAllByName name (addressFlag q.qtype) now).2).Perm addrs ↔
        (Dropped packet cache staged →
          (addressesOf (cache.answering name (addressFlag q.qtype) now)).Perm addrs) ∧
        (¬Dropped packet cache staged →
          (addressesOf
            (cache.answeringExcept ⟨n, addressFlag q.qtype⟩ name (addressFlag q.qtype) now)).Perm
            addrs.dropLast)) := by
  refine ⟨_, extractAddresses_eq_insert hcollect hcommits, ?_⟩
  have htypeflag : typeFlags (addressFlag q.qtype) = addressFlag q.qtype := by
    have hall : ∀ a ∈ [fIpv4, fIpv6], typeFlags a = a := by decide
    exact hall _ hreply.flag_mem
  rw [DnsCache.lookupAllByName_snd, htypeflag]
  by_cases hdropped : Dropped packet cache staged
  · rw [and_iff_left fun hnot => absurd hdropped hnot, forall_prop_of_true hdropped,
      hreply.answering_of_dropped hcollect hvalid hstatic hroom hname hdropped]
  · rw [and_iff_right fun h => absurd h hdropped, forall_prop_of_true hdropped]
    obtain ⟨as, ip, rfl, hadds⟩ :=
      hreply.addressesOf_of_not_dropped hcollect hvalid hstatic hroom hname hne hdropped
    rw [hadds, dropLast_concat]
    exact ((perm_append_singleton ip as).congr_right _).trans (perm_cons ip)

end Lookup

/-- A name with two addresses. -/
def twoAddressReply : DnsPacket where
  header := ⟨0x1234, 0x81, 0x80, 1, 2, 0, 0⟩
  questions := [{ name := ['a'], qtype := 1, qclass := 1 }]
  answers := [{ name := ['a'], rtype := 1, rclass := 1, ttl := 60, rdata := [192, 0, 2, 1] },
    { name := ['a'], rtype := 1, rclass := 1, ttl := 60, rdata := [192, 0, 2, 2] }]
  authority := []
  additional := []

theorem addressReply_twoAddressReply :
    AddressReply twoAddressReply { name := ['a'], qtype := 1, qclass := 1 } ['a']
      [.v4 ⟨#v[192, 0, 2, 1]⟩, .v4 ⟨#v[192, 0, 2, 2]⟩] where
  questions := rfl
  qtype := .inl rfl
  chain := by
    have hlower : toLowercase ['a'] = ['a'] := by decide
    show ReflTransGen _ (toLowercase ['a']) ['a']
    rw [hlower]
  last := by decide
  addresses := by decide +kernel
  nodup := by decide
  ttl := by decide

theorem peek_emptyCache (k : CacheKey) : peek emptyCache.records k = none := rfl

theorem valid_emptyCache : emptyCache.Valid where
  keyed k r h := by
    cases h
  capacity := rfl

theorem noStatic_emptyCache : NoStatic emptyCache staged := by
  intro rec _ k r h
  cases h

/-- The records of the reply. -/
def twoAddressRecords : List CacheRecord :=
  [{ name := ['a'], flags := fIpv4 ||| fForward, ttl := 60, expires := fromSecs 60,
      addr := some (.addr4 (.new 192 0 2 1)) },
    { name := ['a'], flags := fIpv4 ||| fForward, ttl := 60, expires := fromSecs 60,
      addr := some (.addr4 (.new 192 0 2 2)) }]

theorem collectRecords_twoAddressReply :
    collectRecords twoAddressReply 0 {} = .ok ({ result := .cached }, some twoAddressRecords) := by
  decide +kernel

/-- Only the second address is found. -/
theorem not_perm_twoAddressReply :
    DnsPacket.parse twoAddressReply.write = .ok twoAddressReply ∧ Commits twoAddressReply.header ∧
      emptyCache.RoomFor 2 ∧
      ∃ cache' outcome, extractAddresses twoAddressReply emptyCache 0 {} = .ok (cache', outcome) ∧
        ¬(addressesOf (cache'.lookupAllByName ['a'] fIpv4 0).2).Perm
          [.v4 ⟨#v[192, 0, 2, 1]⟩, .v4 ⟨#v[192, 0, 2, 2]⟩] := by
  refine ⟨by decide +kernel, by unfold Commits; decide, by unfold DnsCache.RoomFor; decide, ?_⟩
  have hfound : (extractAddresses twoAddressReply emptyCache 0 {}).map (fun r =>
      (r.2, addressesOf (r.1.lookupAllByName ['a'] fIpv4 0).2))
        = .ok ({ result := .cached }, [.v4 ⟨#v[192, 0, 2, 2]⟩]) := by
    decide +kernel
  obtain ⟨⟨cache', outcome⟩, hextract, heq⟩ := map_eq_ok.mp hfound
  refine ⟨cache', outcome, hextract, fun hperm => ?_⟩
  have hone : addressesOf (cache'.lookupAllByName ['a'] fIpv4 0).2 = [.v4 ⟨#v[192, 0, 2, 2]⟩] :=
    congrArg Prod.snd heq
  rw [hone] at hperm
  exact absurd hperm.length_eq (by decide)

/-- The condition for the two addresses. -/
theorem lookupAllByName_perm_iff_two :
    ∃ cache', extractAddresses twoAddressReply emptyCache 0 {} = .ok (cache', { result := .cached })
      ∧ ((addressesOf (cache'.lookupAllByName ['A'] (addressFlag 1) 0).2).Perm
          [.v4 ⟨#v[192, 0, 2, 1]⟩, .v4 ⟨#v[192, 0, 2, 2]⟩] ↔
        (Dropped twoAddressReply emptyCache twoAddressRecords →
          (addressesOf (emptyCache.answering ['A'] (addressFlag 1) 0)).Perm
            [.v4 ⟨#v[192, 0, 2, 1]⟩, .v4 ⟨#v[192, 0, 2, 2]⟩]) ∧
        (¬Dropped twoAddressReply emptyCache twoAddressRecords →
          (addressesOf
            (emptyCache.answeringExcept ⟨['a'], addressFlag 1⟩ ['A'] (addressFlag 1) 0)).Perm
            [IpAddr.v4 ⟨#v[192, 0, 2, 1]⟩, .v4 ⟨#v[192, 0, 2, 2]⟩].dropLast)) := by
  have hcommits : Commits twoAddressReply.header := by
    unfold Commits
    decide
  have hroom : emptyCache.RoomFor twoAddressRecords.length := by
    show 0 + 2 ≤ 150
    decide
  have hname : toLowercase ['A'] = ['a'] := by decide
  obtain ⟨cache', hextract, hiff⟩ := lookupAllByName_perm_iff addressReply_twoAddressReply
    (cons_ne_nil _ _) hcommits collectRecords_twoAddressReply valid_emptyCache
    (noStatic_emptyCache) hroom hname
  exact ⟨cache', hextract, hiff⟩

end DnsmasqRs.Rfc1035
