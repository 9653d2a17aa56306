import DnsmasqRs.Rfc1035.Extract
import Mathlib.Logic.Relation

/-!
# The steps of the walk over the answers

`WalkStep` says what the walk of `extract_addresses` can do to its state: follow a CNAME that the
current name owns, take that CNAME as the answer, or take an answer that the current name owns.
`followChain` only ever takes such steps (`followChain_steps`), so what every step keeps holds of
its last state.
-/

namespace DnsmasqRs.Rfc1035

open Wire Utf8 ByteCursor DnsProtocol Cache Relation List

/-- The record is of class IN and the current name owns it. -/
def Walk.Owns (w : Walk) (rr : DnsRr) : Prop :=
  rr.rclass = 1 ∧ eqIgnoreAsciiCase rr.name w.currentName

theorem Walk.owns_iff {w : Walk} :
    w.Owns rr ↔ ¬(rr.rclass ≠ 1 ∨ eqIgnoreAsciiCase rr.name w.currentName = false) := by
  rw [Walk.Owns, not_or, not_not, Bool.not_eq_false]

/-- What the walk can do. -/
inductive WalkStep (env : Env) (answers : List DnsRr) (w : Walk) : Walk → Prop where
  | follow {rr : DnsRr} {t : Str} {pos : ℕ} (hmem : rr ∈ answers) (howns : w.Owns rr)
      (htype : rr.rtype = 5) (htarget : extractName rr.rdata 0 = .ok (t, pos)) :
      WalkStep env answers w (env.follow w (clampTtl rr.ttl env.config.maxTtl) (toLowercase t))
  | take (htype : env.qtype = 5) : WalkStep env answers w { w with found := true }
  | answer {rr : DnsRr} {addr : AllAddr} (hmem : rr ∈ answers) (howns : w.Owns rr)
      (htype : rr.rtype = env.qtype) (hdata : answerData env rr = .ok (.ok addr)) :
      WalkStep env answers w (env.answer w (clampTtl rr.ttl env.config.maxTtl) addr)

/-- The state a pass leaves. -/
def Scan.walk : Scan → Walk
  | .stop _ w => w
  | .restart w => w
  | .finish w => w

variable {env : Env} {answers : List DnsRr} {w w' : Walk}

theorem scanAnswers_steps (h : scanAnswers env rest w = .ok s)
    (hsub : ∀ rr ∈ rest, rr ∈ answers) : ReflTransGen (WalkStep env answers) w s.walk := by
  fun_induction scanAnswers env rest w with
  | case1 | case9 =>
    cases h
    exact .refl
  | case2 rr rest w hskip ih | case7 rr rest w hskip hcname hother ih =>
    exact ih h (forall_mem_cons.mp hsub).2
  | case3 rr rest w hskip hcname hlimit | case4 rr rest w hskip hcname hlimit e he =>
    cases h
    exact .refl
  | case5 rr rest w hskip ttl hcname hlimit t pos ht w₁ hq =>
    cases h
    have hfollow : WalkStep env answers w w₁ :=
      .follow (hsub rr mem_cons_self) (Walk.owns_iff.mpr hskip) hcname ht
    exact .tail (.single hfollow) (.take hq)
  | case6 rr rest w hskip ttl hcname hlimit t pos ht w₁ hq =>
    cases h
    exact .single (.follow (hsub rr mem_cons_self) (Walk.owns_iff.mpr hskip) hcname ht)
  | case8 rr rest w hskip hcname hother fault hdata => cases h
  | case10 rr rest w hskip ttl hcname hother addr hdata ih =>
    rw [not_or, not_not] at hother
    exact .head (.answer (hsub rr mem_cons_self) (Walk.owns_iff.mpr hskip) hother.1 hdata)
      (ih h (forall_mem_cons.mp hsub).2)

theorem followChain_steps (h : followChain env answers w = .ok (r, w')) :
    ReflTransGen (WalkStep env answers) w w' := by
  fun_induction followChain env answers w with
  | case1 w fault hscan => cases h
  | case2 w result w₁ hscan | case3 w w₁ hscan =>
    cases h
    exact scanAnswers_steps hscan fun _ => id
  | case4 w w₁ hscan ih => exact (scanAnswers_steps hscan fun _ => id).trans (ih h)

theorem followChain_invariant {P : Walk → Prop} {r : Option ExtractResult}
    (hstep : ∀ w w', WalkStep env answers w w' → P w → P w')
    (h : followChain env answers w = .ok (r, w')) (hw : P w) : P w' := by
  have hsteps := followChain_steps h
  clear h
  induction hsteps with
  | refl => exact hw
  | tail _ hlast ih => exact hstep _ _ hlast ih

end DnsmasqRs.Rfc1035
