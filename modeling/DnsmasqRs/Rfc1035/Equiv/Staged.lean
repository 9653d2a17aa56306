import DnsmasqRs.Rfc1035.Equiv.Isolation
import Mathlib.Data.List.TakeWhile

/-!
# What a reply stages

The records of a reply have only the bits of `replyBits`, so none of them is static or immortal
(`plain_of_collectRecords`).  The walk ends with a pass over the answers for the last name of the
chain (`followChain_last`), and there is one such name (`hops_end_unique`).  That pass stages one
record for each answer that the last name owns (`scanAnswers_end`).
-/

namespace DnsmasqRs.Rfc1035

open Wire Utf8 ByteCursor DnsProtocol Cache Fallible Relation List

/-! ### Flags -/

section Flags

variable {env : Env} {packet : DnsPacket} {now : Instant} {config : ExtractConfig} {f : UInt32}

theorem flags_of_followChain {answers : List DnsRr} (hcname : (fCname ||| fForward) &&& f = 0)
    (haddr : (env.addrFlag ||| fForward) &&& f = 0) (hsec : env.secflag &&& f = 0)
    {w : Walk} (h : followChain env answers { currentName := name } = .ok (r, w)) :
    ∀ rec ∈ w.staged, rec.flags &&& f = 0 := by
  intro rec hrec
  rcases walks_of_followChain h rec hrec with ⟨name, ttl, t, rfl⟩ | ⟨name, ttl, rr, addr, -, rfl⟩
  · exact or_and_eq_zero.mpr ⟨hcname, hsec⟩
  · exact or_and_eq_zero.mpr ⟨haddr, hsec⟩

theorem and_eq_zero_of_subset (h : a &&& b = a) (hb : b &&& f = 0) : a &&& f = 0 := by
  rw [← h, UInt32.and_assoc, hb, UInt32.and_zero]

theorem addrFlag_cases :
    (questionEnv header qtype now config).addrFlag ∈ [fIpv4, fIpv6, fRr, 0] := by
  show (questionKind qtype config).1 ∈ [fIpv4, fIpv6, fRr, 0]
  unfold questionKind
  split_ifs <;> decide

theorem secflag_cases : (questionEnv header qtype now config).secflag ∈ [fDnssecok, 0] := by
  show (if config.secure then fDnssecok else 0) ∈ [fDnssecok, 0]
  split_ifs <;> decide

theorem familyFlag_cases : familyFlag addr ∈ [fIpv4, fIpv6, 0] := by
  unfold familyFlag
  split <;> decide

/-- All bits that the records of a reply can have. -/
def replyBits : UInt32 :=
  fIpv4 ||| fIpv6 ||| fRr ||| fCname ||| fNeg ||| fNxdomain ||| fForward ||| fReverse ||| fKeytag
    ||| fDnssecok

theorem flags_of_collectRecords (hf : replyBits &&& f = 0)
    (h : collectRecords packet now config = .ok (outcome, some staged)) :
    ∀ rec ∈ staged, rec.flags &&& f = 0 := by
  intro rec hrec
  obtain ⟨q, -, -, hsource⟩ := collectRecords_cases h
  have hsec : (questionEnv packet.header q.qtype now config).secflag &&& f = 0 := by
    have hsubset : ∀ a ∈ [fDnssecok, 0], a &&& replyBits = a := by decide
    exact and_eq_zero_of_subset (hsubset _ (secflag_cases)) hf
  have haddr : ∀ flags : UInt32, flags ∈ [fForward, fNeg ||| fForward] →
      ((questionEnv packet.header q.qtype now config).addrFlag ||| flags) &&& f = 0 := by
    have hsubset : ∀ a ∈ [fIpv4, fIpv6, fRr, 0], ∀ flags ∈ [fForward, fNeg ||| fForward],
        (a ||| flags) &&& replyBits = a ||| flags := by
      decide
    exact fun flags hflags => and_eq_zero_of_subset (hsubset _ (addrFlag_cases) _ hflags) hf
  rcases hsource with ⟨-, ipAddr, -, hptr⟩ | ⟨-, w, hwalk, hfinish⟩
  · obtain ⟨rr, -, t, pos, -, -, -, -, rfl⟩ := mem_ptrRecords hptr hrec
    have hsubset :
        ∀ a ∈ [fIpv4, fIpv6, 0], (a ||| fReverse) &&& replyBits = a ||| fReverse := by decide
    exact or_and_eq_zero.mpr ⟨and_eq_zero_of_subset (hsubset _ (familyFlag_cases)) hf, hsec⟩
  · have hstaged : ∀ rec ∈ w.staged, rec.flags &&& f = 0 :=
      flags_of_followChain (and_eq_zero_of_subset (by decide) hf) (haddr _ (by decide)) hsec hwalk
    rcases mem_finishWalk hfinish hrec with hrec | ⟨-, ⟨ttl, rfl⟩ | ⟨m, ttl, -, rfl⟩⟩
    · exact hstaged rec hrec
    · refine or_and_eq_zero.mpr ⟨?_, hsec⟩
      split_ifs
      · exact and_eq_zero_of_subset (by decide) hf
      · rw [UInt32.or_assoc]
        exact haddr _ (by decide)
    · exact or_and_eq_zero.mpr ⟨and_eq_zero_of_subset (by decide) hf, hsec⟩

theorem plain_of_collectRecords
    (h : collectRecords packet now config = .ok (outcome, some staged)) :
    ∀ rec ∈ staged, rec.Plain := by
  intro rec hrec
  refine ⟨?_, flags_of_collectRecords (by decide) h rec hrec,
    flags_of_collectRecords (by decide) h rec hrec⟩
  unfold CacheRecord.isStatic
  rw [flags_of_collectRecords (by decide) h rec hrec, bne_self_eq_false]

end Flags

/-! ### The end of the walk -/

section Walk

variable {env : Env} {answers : List DnsRr} {w w' : Walk}

/-- The walk ends with a pass for a name from which there is no way on. -/
theorem followChain_last (hqtype : env.qtype ≠ 5) (hnx : env.isNxdomain = false)
    (h : followChain env answers w = .ok (none, w')) :
    ∃ w₁, ReflTransGen (WalkStep env answers) w w₁ ∧
      ReflTransGen (Hop answers) w.place w₁.place ∧ (∀ p, ¬Hop answers w₁.place p) ∧
      ¬StopsAt env.qtype (Refused env) answers w₁.place
        ∧ scanAnswers env answers w₁ = .ok (.finish w') := by
  fun_induction followChain env answers w with
  | case1 | case2 => cases h
  | case3 w w₁ hscan =>
    cases h
    obtain ⟨hgoes, hends⟩ : ¬StopsAt env.qtype (Refused env) answers w.place
      ∧ ∀ p', ¬Hop answers w.place p' :=
      scanAnswers_spec hqtype hnx hscan
    exact ⟨w, .refl, .refl, hends, hgoes, hscan⟩
  | case4 w w₁ hscan ih =>
    obtain ⟨-, hhop⟩ : ¬StopsAt env.qtype (Refused env) answers w.place
      ∧ Hop answers w.place w₁.place :=
      scanAnswers_spec hqtype hnx hscan
    obtain ⟨w₂, hsteps, hreach, hrest⟩ := ih h
    exact ⟨w₂, (scanAnswers_steps hscan fun _ => id).trans hsteps, .head hhop hreach, hrest⟩

theorem hops_end_unique (ha : ReflTransGen (Hop answers) p a)
    (hb : ReflTransGen (Hop answers) p b) (haend : ∀ p, ¬Hop answers a p)
    (hbend : ∀ p, ¬Hop answers b p) : a = b := by
  have hunique : Relator.RightUnique (Hop answers) := fun _ _ _ => hop_unique
  rcases ReflTransGen.total_of_right_unique hunique ha hb with h | h
  · rcases ReflTransGen.cases_head h with heq | ⟨p, hp, -⟩
    · exact heq
    · exact absurd hp (haend p)
  · rcases ReflTransGen.cases_head h with heq | ⟨p, hp, -⟩
    · exact heq.symm
    · exact absurd hp (hbend p)

/-- A pass for a name without a CNAME stages a record for each answer of the name. -/
theorem scanAnswers_end (hinsert : env.insert) (hnx : env.isNxdomain = false)
    (hcname : ∀ rr ∈ answers, isCnameOf w.place.2 rr = false)
    (h : scanAnswers env answers w = .ok (.finish w')) :
    ∃ recs, List.Forall₂ (env.Stages w.currentName)
        (answers.filter fun rr => ownedBy w.place.2 rr && rr.rtype == env.qtype) recs ∧
      w'.staged = w.staged ++ recs ∧ w'.place = w.place
        ∧ w'.found = (w.found || !recs.isEmpty) := by
  have hseen :
      env.seen answers w.place.2 = answers.filter fun rr => ownedBy w.place.2 rr
        && rr.rtype == env.qtype := by
    rw [Env.seen, hnx, if_neg Bool.false_ne_true, examined, takeWhile_eq_self_iff.mpr]
    intro rr hrr
    rw [hcname rr hrr, Bool.not_false]
  have hnone : answers.find? (isCnameOf w.place.2) = none := by simpa using hcname
  rcases scanAnswers_cases h with ⟨_, _, _, _, _, heq⟩ | ⟨w₁, hw, hend⟩
  · cases heq
  · rw [hnone] at hend
    rw [hseen] at hw
    cases hend
    obtain ⟨recs, hrecs, hstaged⟩ := hw.staged
    rw [hinsert] at hstaged
    refine ⟨recs, hrecs, hstaged, hw.place, ?_⟩
    rw [hw.found]
    generalize answers.filter _ = rrs at hrecs
    cases hrecs <;> rfl

end Walk

end DnsmasqRs.Rfc1035
