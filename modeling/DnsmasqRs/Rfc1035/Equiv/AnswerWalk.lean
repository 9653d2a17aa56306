import DnsmasqRs.Rfc1035.Equiv.ExtractSafe
import Mathlib.Data.List.Forall2
import Mathlib.Logic.Relation

/-!
# Which records the walk over a reply sees

The walk of `extract_addresses` looks at the records of one name at a time.  Of a name it sees the
records in front of the first CNAME that the name owns (`examined`), and it goes on with the target
of that CNAME (`Hop`), ten times at most.  A pass returns early exactly if a record it sees is
refused or the CNAME it follows is malformed (`StopsAt`, `scanAnswers_spec`).

This is a description of the walk without its state: nothing of what was found or staged matters to
it.
-/

namespace DnsmasqRs.Rfc1035

open Wire Utf8 ByteCursor DnsProtocol Cache Fallible Relation List

/-- The record is of class IN and `name` owns it. -/
def ownedBy (name : Str) (rr : DnsRr) : Bool := rr.rclass == 1 && eqIgnoreAsciiCase rr.name name

/-- The record is a CNAME of `name`. -/
def isCnameOf (name : Str) (rr : DnsRr) : Bool := ownedBy name rr && rr.rtype == 5

/-- The records of the question's type that the walk looks at for `name`. -/
def examined (answers : List DnsRr) (qtype : UInt16) (name : Str) : List DnsRr :=
  (answers.takeWhile fun rr => !isCnameOf name rr).filter fun rr => ownedBy name rr
    && rr.rtype == qtype

/-- The record makes `extract_addresses` return. -/
def Refused (env : Env) (rr : DnsRr) : Prop := ∃ result, answerData env rr = .ok (.error result)

/-- A CNAME followed, with the number of hops so far. -/
inductive Hop (answers : List DnsRr) : ℕ × Str → ℕ × Str → Prop where
  | follow {k pos : ℕ} {n t : Str} {rr : DnsRr} (hlimit : k < cnameChainLimit)
      (hfirst : answers.find? (isCnameOf n) = some rr)
        (htarget : extractName rr.rdata 0 = .ok (t, pos)) :
      Hop answers (k, n) (k + 1, toLowercase t)

/-- The walk returns at a name: it examines a bad record, or the CNAME to follow has no name in it.
-/
def StopsAt (qtype : UInt16) (bad : DnsRr → Prop) (answers : List DnsRr) (p : ℕ × Str) : Prop :=
  (∃ rr ∈ examined answers qtype p.2, bad rr) ∨ (p.1 < cnameChainLimit ∧
      ∃ rr e, answers.find? (isCnameOf p.2) = some rr ∧ extractName rr.rdata 0 = .error e)

section examined

variable {answers : List DnsRr} {qtype : UInt16} {name : Str} {rr : DnsRr}

theorem examined_cons_of_not_owned (h : ownedBy name rr = false) :
    examined (rr :: answers) qtype name = examined answers qtype name := by
  have hcname : isCnameOf name rr = false := by rw [isCnameOf, h, Bool.false_and]
  simp only [examined, takeWhile_cons, hcname, Bool.not_false, if_true, filter_cons, h,
    Bool.false_and, Bool.false_eq_true, if_false]

theorem examined_cons_of_cname (h : isCnameOf name rr) :
    examined (rr :: answers) qtype name = [] := by
  simp only [examined, takeWhile_cons, h, Bool.not_true, Bool.false_eq_true, if_false, filter_nil]

theorem examined_cons_of_owned (h : ownedBy name rr) (htype : rr.rtype ≠ 5) :
    examined (rr :: answers) qtype name
      = if rr.rtype = qtype then rr :: examined answers qtype name
        else examined answers qtype name := by
  have hcname : isCnameOf name rr = false := by
    rw [isCnameOf, h, Bool.true_and, beq_eq_false_iff_ne]
    exact htype
  simp only [examined, takeWhile_cons, hcname, Bool.not_false, if_true, filter_cons, h,
    Bool.true_and, beq_iff_eq]

theorem find_cname_cons_of_not (h : isCnameOf name rr = false) :
    (rr :: answers).find? (isCnameOf name) = answers.find? (isCnameOf name) := by
  rw [find?_cons, h]

theorem find_cname_cons_of_cname (h : isCnameOf name rr) :
    (rr :: answers).find? (isCnameOf name) = some rr := by
  rw [find?_cons, h]

end examined

/-- Where the walk is: the hops so far and the current name. -/
def Walk.place (w : Walk) : ℕ × Str := (w.cnameHops, w.currentName)

/-- What a pass over the answers from a place says about the records. -/
def ScanSpec (env : Env) (answers : List DnsRr) (p : ℕ × Str) : Scan → Prop
  | .stop _ _ => StopsAt env.qtype (Refused env) answers p
  | .restart w => ¬StopsAt env.qtype (Refused env) answers p ∧ Hop answers p w.place
  | .finish _ => ¬StopsAt env.qtype (Refused env) answers p ∧ ∀ p', ¬Hop answers p p'

variable {env : Env} {answers : List DnsRr} {rr : DnsRr} {w : Walk} {p p' : ℕ × Str}

theorem hop_iff :
    Hop answers p p' ↔ p.1 < cnameChainLimit ∧ ∃ rr t pos, answers.find? (isCnameOf p.2) = some rr ∧
      extractName rr.rdata 0 = .ok (t, pos) ∧ p' = (p.1 + 1, toLowercase t) := by
  constructor
  · rintro ⟨hlimit, hfirst, htarget⟩
    exact ⟨hlimit, _, _, _, hfirst, htarget, rfl⟩
  · rintro ⟨hlimit, rr, t, pos, hfirst, htarget, rfl⟩
    exact .follow hlimit hfirst htarget

theorem hop_unique (h : Hop answers p p') (h' : Hop answers p q) : p' = q := by
  obtain ⟨-, rr, t, pos, hfirst, htarget, rfl⟩ := hop_iff.mp h
  obtain ⟨-, rr', t', pos', hfirst', htarget', rfl⟩ := hop_iff.mp h'
  obtain rfl := Option.some.inj (hfirst.symm.trans hfirst')
  rw [htarget] at htarget'
  cases htarget'
  rfl

theorem ownedBy_place_iff :
    ownedBy w.place.2 rr ↔ ¬(rr.rclass ≠ 1 ∨ eqIgnoreAsciiCase rr.name w.currentName = false) := by
  rw [ownedBy, Bool.and_eq_true, beq_iff_eq, not_or, not_not, Bool.not_eq_false]
  rfl

theorem isCnameOf_of_rtype {name : Str} (h : ownedBy name rr) (htype : rr.rtype = 5) :
    isCnameOf name rr := by
  rw [isCnameOf, h, htype]
  rfl

theorem isCnameOf_eq_false_of_rtype {name : Str} (h : rr.rtype ≠ 5) :
    isCnameOf name rr = false := by
  rw [isCnameOf, beq_eq_false_iff_ne.mpr h, Bool.and_false]

/-! ### One pass -/

/-- The answers a pass looks at. -/
def Env.seen (env : Env) (answers : List DnsRr) (name : Str) : List DnsRr :=
  if env.isNxdomain then [] else examined answers env.qtype name

/-- The record that is staged for an answer. -/
def Env.Stages (env : Env) (name : Str) (rr : DnsRr) (rec : CacheRecord) : Prop :=
  ∃ addr, answerData env rr = .ok (.ok addr) ∧
    rec = env.record name (env.addrFlag ||| fForward) (clampTtl rr.ttl env.config.maxTtl)
      (some addr)

/-- The walk after the answers that a pass looks at. -/
structure Answered (env : Env) (rrs : List DnsRr) (w w' : Walk) : Prop where
  place : w'.place = w.place
  found : w'.found = (w.found || !rrs.isEmpty)
  kept : ∀ rr ∈ rrs, ¬Refused env rr
  staged : ∃ recs, List.Forall₂ (env.Stages w.currentName) rrs recs
    ∧ w'.staged = w.staged ++ if env.insert then recs else []

/-- The end of a pass, at the first CNAME of the current name if there is one. -/
inductive EndsAt (env : Env) (w : Walk) : Option DnsRr → Scan → Prop where
  | none : EndsAt env w none (.finish w)
  | limit {rr : DnsRr} (hlimit : cnameChainLimit ≤ w.cnameHops) : EndsAt env w (some rr) (.finish w)
  | bad {rr : DnsRr} {e : DnsError} (hlimit : w.cnameHops < cnameChainLimit)
      (he : extractName rr.rdata 0 = .error e) :
      EndsAt env w (some rr) (.stop .badPacket w)
  | take {rr : DnsRr} {ttl : UInt32} {t : Str} (hq : env.qtype = 5) :
      EndsAt env w (some rr) (.finish { env.follow w ttl t with found := true })
  | restart {rr : DnsRr} {ttl : UInt32} {t : Str} {pos : ℕ} (hlimit : w.cnameHops < cnameChainLimit)
      (ht : extractName rr.rdata 0 = .ok (t, pos)) :
        EndsAt env w (some rr) (.restart (env.follow w ttl (toLowercase t)))

theorem Answered.nil : Answered env [] w w :=
  ⟨rfl, (Bool.or_false _).symm, forall_mem_nil _, [], .nil, by simp⟩

theorem Answered.cons (hdata : answerData env rr = .ok (.ok addr))
    (h : Answered env rrs (env.answer w (clampTtl rr.ttl env.config.maxTtl) addr) w') :
    Answered env (rr :: rrs) w w' := by
  obtain ⟨recs, hrecs, hstaged⟩ := h.staged
  refine ⟨h.place, by simp [h.found, Env.answer], forall_mem_cons.mpr ⟨?_, h.kept⟩, _,
    .cons ⟨addr, hdata, rfl⟩ hrecs, ?_⟩
  · rintro ⟨result, hresult⟩
    rw [hdata] at hresult
    cases hresult
  · rw [hstaged]
    simp only [Env.answer, Env.stage]
    split <;> simp

/-- **What a pass does**: it stops at an answer it looks at, or takes them all and ends at the first
CNAME. -/
theorem scanAnswers_cases (h : scanAnswers env answers w = .ok s) :
    (∃ rr ∈ env.seen answers w.place.2, ∃ result w', answerData env rr = .ok (.error result)
      ∧ s = .stop result w') ∨
      ∃ w', Answered env (env.seen answers w.place.2) w w'
        ∧ EndsAt env w' (answers.find? (isCnameOf w.place.2)) s := by
  -- a pass that starts with a CNAME of the name looks at nothing
  have hfirst {w : Walk} {rest : List DnsRr} {rr : DnsRr} (hcname : isCnameOf w.place.2 rr)
      (hend : EndsAt env w (some rr) s) : ∃ w', Answered env (env.seen (rr :: rest) w.place.2) w w'
        ∧ EndsAt env w' ((rr :: rest).find? (isCnameOf w.place.2)) s := by
    rw [Env.seen, examined_cons_of_cname hcname, ite_self, find_cname_cons_of_cname hcname]
    exact ⟨w, .nil, hend⟩
  fun_induction scanAnswers env answers w with
  | case1 w =>
    cases h
    rw [Env.seen]
    exact .inr ⟨w, by split <;> exact .nil, .none⟩
  | case2 rr rest w hskip ih =>
    have howned : ownedBy w.place.2 rr = false := by
      rw [← Bool.not_eq_true, ownedBy_place_iff, not_not]
      exact hskip
    have hcname : isCnameOf w.place.2 rr = false := by rw [isCnameOf, howned, Bool.false_and]
    rw [Env.seen, examined_cons_of_not_owned howned, find_cname_cons_of_not hcname]
    exact ih h
  | case3 rr rest w hskip hcname hlimit =>
    cases h
    exact .inr (hfirst (isCnameOf_of_rtype (ownedBy_place_iff.mpr hskip) hcname) (.limit hlimit))
  | case4 rr rest w hskip hcname hlimit e he =>
    cases h
    exact .inr (hfirst (isCnameOf_of_rtype (ownedBy_place_iff.mpr hskip) hcname)
        (.bad (Nat.lt_of_not_le hlimit) he))
  | case5 rr rest w hskip ttl hcname hlimit t pos ht w₁ hq =>
    cases h
    exact .inr (hfirst (isCnameOf_of_rtype (ownedBy_place_iff.mpr hskip) hcname) (.take hq))
  | case6 rr rest w hskip ttl hcname hlimit t pos ht w₁ hq =>
    cases h
    exact .inr (hfirst (isCnameOf_of_rtype (ownedBy_place_iff.mpr hskip) hcname)
        (.restart (Nat.lt_of_not_le hlimit) ht))
  | case7 rr rest w hskip hcname hother ih =>
    have hseen : env.seen (rr :: rest) w.place.2 = env.seen rest w.place.2 := by
      rw [Env.seen, Env.seen, examined_cons_of_owned (ownedBy_place_iff.mpr hskip) hcname]
      rcases hother with htype | hnx
      · rw [if_neg htype]
      · rw [if_pos hnx, if_pos hnx]
    rw [find_cname_cons_of_not (isCnameOf_eq_false_of_rtype hcname), hseen]
    exact ih h
  | case8 rr rest w hskip hcname hother fault hdata => cases h
  | case9 rr rest w hskip hcname hother result hdata =>
    cases h
    obtain ⟨htype, hnx⟩ := not_or.mp hother
    rw [Env.seen, if_neg hnx, examined_cons_of_owned (ownedBy_place_iff.mpr hskip) hcname,
      if_pos (not_not.mp htype)]
    exact .inl ⟨rr, mem_cons_self, result, w, hdata, rfl⟩
  | case10 rr rest w hskip ttl hcname hother addr hdata ih =>
    obtain ⟨htype, hnx⟩ := not_or.mp hother
    rw [Env.seen, if_neg hnx] at ih ⊢
    rw [find_cname_cons_of_not (isCnameOf_eq_false_of_rtype hcname),
      examined_cons_of_owned (ownedBy_place_iff.mpr hskip) hcname, if_pos (not_not.mp htype)]
    rcases ih h with ⟨x, hx, hstop⟩ | ⟨w', hw, hend⟩
    · exact .inl ⟨x, mem_cons_of_mem _ hx, hstop⟩
    · exact .inr ⟨w', hw.cons hdata, hend⟩

theorem scanAnswers_spec (hqtype : env.qtype ≠ 5) (hnx : env.isNxdomain = false)
    (h : scanAnswers env answers w = .ok s) : ScanSpec env answers w.place s := by
  have hpass := scanAnswers_cases h
  rw [Env.seen, hnx] at hpass
  rcases hpass with ⟨rr, hrr, result, w', hdata, rfl⟩ | ⟨w', hw, hend⟩
  · exact .inl ⟨rr, hrr, result, hdata⟩
  · have hstops : StopsAt env.qtype (Refused env) answers w.place ↔ _ :=
      or_iff_right fun ⟨rr, hrr, hbad⟩ => hw.kept rr hrr hbad
    rw [← hw.place] at hstops hend ⊢
    generalize hfind : answers.find? (isCnameOf w'.place.2) = o at hend hstops
    cases hend with
    | none =>
      refine ⟨fun hs => ?_, fun p' hp => ?_⟩
      · obtain ⟨-, rr, e, hnone, -⟩ := hstops.mp hs
        cases hnone
      · obtain ⟨-, rr, t, pos, hsome, -⟩ := hop_iff.mp hp
        cases hfind.symm.trans hsome
    | limit hlimit =>
      refine ⟨fun hs => ?_, fun p' hp => ?_⟩
      · exact absurd (hstops.mp hs).1 (Nat.not_lt.mpr hlimit)
      · exact absurd (hop_iff.mp hp).1 (Nat.not_lt.mpr hlimit)
    | bad hlimit he => exact hstops.mpr ⟨hlimit, _, _, rfl, he⟩
    | take hq => exact absurd hq hqtype
    | restart hlimit ht =>
      refine ⟨fun hs => ?_, hop_iff.mpr ⟨hlimit, _, _, _, hfind, ht, rfl⟩⟩
      obtain ⟨-, rr, e, hrr, he⟩ := hstops.mp hs
      cases hrr
      rw [ht] at he
      cases he

/-- A pass that ends has found a CNAME of the question's type, or has taken its answers and followed
no CNAME. -/
theorem scanAnswers_finish (h : scanAnswers env answers w = .ok (.finish w')) :
    env.qtype = 5 ∧ w'.found ∨ Answered env (env.seen answers w.place.2) w w' ∧
      (answers.find? (isCnameOf w.place.2) = none ∨ cnameChainLimit ≤ w.cnameHops) := by
  rcases scanAnswers_cases h with ⟨_, _, _, _, _, heq⟩ | ⟨w₁, hw, hend⟩
  · cases heq
  · generalize answers.find? (isCnameOf w.place.2) = o at hend
    cases hend with
    | none => exact .inr ⟨hw, .inl rfl⟩
    | limit hlimit => exact .inr ⟨hw, .inr (hlimit.trans_eq (congrArg Prod.fst hw.place))⟩
    | take hq => exact .inl ⟨hq, rfl⟩

/-- A walk that finds no answer follows CNAMEs to a name that owns none, or to the limit. -/
theorem hops_of_followChain (h : followChain env answers w = .ok (none, w'))
    (hfound : w'.found = false) :
    ReflTransGen (Hop answers) w.place w'.place ∧
      (answers.find? (isCnameOf w'.place.2) = none ∨ cnameChainLimit ≤ w'.place.1) := by
  fun_induction followChain env answers w with
  | case1 | case2 => cases h
  | case3 w w₁ hscan =>
    cases h
    rcases scanAnswers_finish hscan with ⟨-, hfound'⟩ | ⟨hw, hend⟩
    · cases hfound.symm.trans hfound'
    · rw [hw.place]
      exact ⟨.refl, hend⟩
  | case4 w w₁ hscan ih =>
    obtain ⟨hrest, hend⟩ := ih h
    refine ⟨.head ?_ hrest, hend⟩
    rcases scanAnswers_cases hscan with ⟨_, _, _, _, _, heq⟩ | ⟨w₂, hw, hends⟩
    · cases heq
    · rw [← hw.place] at hends ⊢
      generalize hfirst : answers.find? (isCnameOf w₂.place.2) = o at hends
      cases hends with
      | restart hlimit ht => exact .follow hlimit hfirst ht

end DnsmasqRs.Rfc1035
