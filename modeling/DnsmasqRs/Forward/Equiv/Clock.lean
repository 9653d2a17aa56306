import DnsmasqRs.Forward.Equiv.Engine

/-!
# The engine and its clock

How old a query is depends on when one asks.  `Clocked` is the engine with the time of its last
operation; `Instant::now` never goes back, so a step takes place at that time or later.

`Settled.step_cases` says what a step does to the queries in flight, as far as their age and their
question are concerned: it leaves them alone or ends them, or it adds a single new one, in a slot
that was free or held an old query (`NewQuery`).
-/

namespace DnsmasqRs.Forward.ForwardEngine

open Wire DnsProtocol HashQuestions FrecTable Option

variable {H : Type} [DecidableEq H] [Inhabited H] {finish : Bytes → H}
  {e e' : ForwardEngine (H × H)}

/-- A query for a question that is not in flight is sent, from the record at `k`. -/
def SendsNew (finish : Bytes → H) (e : ForwardEngine (H × H)) (q : Query) (k : ℕ) : Prop :=
  joinIndex finish e q = none ∧ ∃ e' out d, e.forwardQuery finish q = some (e', out, some d)
    ∧ d.idx = k

/-- A new query `q` has been sent from the record at `k`. -/
structure NewQuery (finish : Bytes → H) (e : ForwardEngine (H × H)) (q : Query)
    (e' : ForwardEngine (H × H)) (k : ℕ) : Prop where
  sends : SendsNew finish e q k
  record : ∃ f, e'.table.get k = some f ∧ Fresh finish e q k f
  others : ∀ i, i ≠ k → e'.table.get i = e.table.get i
  evicts : ∀ f, e.table.get k = some f → f.sentto ≠ none → frecTimeout ≤ q.now - f.sentAt

/-- What is in flight afterwards was in flight before, and is the same query. -/
def Ages (e e' : ForwardEngine (H × H)) : Prop :=
  ∀ i f, e'.table.get i = some f → f.sentto ≠ none →
    ∃ f₀, e.table.get i = some f₀ ∧ f₀.sentto ≠ none ∧ SameQuery f f₀

omit [DecidableEq H] [Inhabited H] in
theorem OpOk.ages {joined : List FrecSrc} {sent : Option Sent} {k : ℕ}
    (h : OpOk (fun _ _ => False) joined e e' sent k) : Ages e e' := by
  intro i f hf hflight
  by_cases hi : i = k
  · subst hi
    rcases (h.target f hf hflight).origin with ⟨f₀, hf₀, hflight₀, hsame, -⟩ | ⟨-, hfalse, -⟩
    · exact ⟨f₀, hf₀, hflight₀, hsame⟩
    · exact hfalse.elim
  · exact ⟨f, h.others i f hi hf hflight, hflight, rfl, rfl, rfl, rfl⟩

omit [DecidableEq H] in
theorem Fresh.evicts (h : Settled e) (hfresh : Fresh finish e q k f) :
    ∀ f, e.table.get k = some f → f.sentto ≠ none → frecTimeout ≤ q.now - f.sentAt := by
  obtain ⟨header, qhash, -, -, serverIdx, -, hclaim, -⟩ := hfresh
  obtain ⟨-, -, -, hslot⟩ := h.table.getNewFrec q.now serverIdx false
  exact (hslot k hclaim).1.evicts

theorem Settled.forwardQuery_cases (h : Settled e)
    (hrun : e.forwardQuery finish q = some (e', out, sent)) :
    (Ages e e' ∧ ∀ k, ¬ SendsNew finish e q k) ∨ ∃ k, NewQuery finish e q e' k := by
  have hnone : sent = none → ∀ k, ¬ SendsNew finish e q k := by
    rintro rfl k ⟨-, e₁, out₁, d, hrun₁, -⟩
    rw [hrun] at hrun₁
    cases hrun₁
  rcases ForwardEngine.forwardQuery_cases hrun with ⟨rfl, -, rfl⟩
    | ⟨header, hheader, ⟨idx, hidx, hjoin⟩ | ⟨qhash, hidx, hhash, hnew⟩⟩
  · have hop : OpOk (fun _ _ => False) [] e' e' none 0 := .refl h
    exact Or.inl ⟨hop.ages, hnone rfl⟩
  · obtain ⟨f, hf, hflight⟩ := inFlight_of_joinIndex hidx
    have hop :=
      Settled.joinInFlight (fun _ _ => False) h hf hflight q.now header.id q.client q.listener q.net
    rw [hjoin] at hop
    refine Or.inl ⟨hop.ages, ?_⟩
    rintro k ⟨hidx', -⟩
    rw [hidx] at hidx'
    cases hidx'
  · obtain ⟨k, hop, hend⟩ := h.forwardNew_fresh hheader hhash hnew
    rcases hend with ⟨rfl, -⟩ | ⟨hsent, -, ⟨f, hf, hfresh⟩, hothers⟩
    · refine Or.inl ⟨?_, hnone rfl⟩
      -- nothing was sent, so nothing is new
      have hop' : OpOk (fun _ _ => False) [] e e' none k := by
        refine ⟨hop.settled, hop.config, hop.size, hop.others, hop.sent_idx, ?_⟩
        intro f hf hflight
        have ht := hop.target f hf hflight
        exact ⟨ht.rfds, ht.sentto, ht.origin.imp_right fun hnew => absurd rfl hnew.1⟩
      exact hop'.ages
    · obtain ⟨d, rfl⟩ := ne_none_iff_exists'.mp hsent
      exact Or.inr ⟨k, ⟨hidx, e', out, d, hrun, hop.sent_idx d rfl⟩, ⟨f, hf, hfresh⟩, hothers,
        hfresh.evicts h⟩

/-- **What a step does to the queries in flight.** -/
theorem Settled.step_cases (h : Settled e) (hstep : e.step finish ev = some e') :
    (Ages e e' ∧ ∀ q k, ev = .forwardQuery q → ¬ SendsNew finish e q k)
      ∨ ∃ q k, ev = .forwardQuery q ∧ NewQuery finish e q e' k := by
  obtain ⟨⟨e₁, sent⟩, hexec, rfl⟩ := map_eq_some_iff.mp hstep
  cases ev with
  | forwardQuery q =>
    obtain ⟨⟨e₂, out, sent₂⟩, hrun, heq⟩ := map_eq_some_iff.mp hexec
    obtain ⟨rfl, rfl⟩ := Prod.mk.inj heq
    rcases h.forwardQuery_cases hrun with ⟨hages, hno⟩ | ⟨k, hnew⟩
    · refine Or.inl ⟨hages, ?_⟩
      intro q' k heq'
      obtain rfl := Event.forwardQuery.inj heq'
      exact hno k
    · exact Or.inr ⟨q, k, rfl, hnew⟩
  | acceptReply r =>
    obtain ⟨⟨e₂, action, sent₂⟩, hrun, heq⟩ := map_eq_some_iff.mp hexec
    obtain ⟨rfl, rfl⟩ := Prod.mk.inj heq
    obtain ⟨k, hop⟩ := (h.acceptReply hrun).op
    exact Or.inl ⟨(hop _).ages, fun _ _ heq' => nomatch heq'⟩
  | expireQueries now =>
    obtain ⟨rfl, rfl⟩ := Prod.mk.inj (some.inj hexec)
    exact Or.inl ⟨(h.expireQueries now).ages, fun _ _ heq' => nomatch heq'⟩
  | refreshConfig config =>
    obtain ⟨rfl, rfl⟩ := Prod.mk.inj (some.inj hexec)
    refine Or.inl ⟨?_, fun _ _ heq' => nomatch heq'⟩
    intro i f hf hflight
    exact ⟨f, hf, hflight, rfl, rfl, rfl, rfl⟩

theorem Settled.step_size (h : Settled e) (hstep : e.step finish ev = some e') :
    e'.table.maxPerGroup = e.table.maxPerGroup := by
  obtain ⟨⟨e₁, sent⟩, hexec, rfl⟩ := map_eq_some_iff.mp hstep
  rcases h.exec hexec with ⟨config, -, rfl, -⟩ | ⟨k, joined, hop⟩
  · rfl
  · exact hop.size

/-! ### The clock -/

/-- When an operation takes place; a reload does not look at the clock. -/
def Event.time : Event → Option Instant
  | .forwardQuery q => some q.now
  | .acceptReply r => some r.now
  | .expireQueries now => some now
  | .refreshConfig _ => none

/-- The engine and the time of its last operation. -/
structure Clocked (H : Type) where
  engine : ForwardEngine (H × H)
  clock : Instant

/-- One step, at the time of the last one or later. -/
def Clocked.step (finish : Bytes → H) (s : Clocked H) (ev : Event) : Option (Clocked H) :=
  if s.clock ≤ ev.time.getD s.clock then
    (s.engine.step finish ev).map fun engine => { engine, clock := ev.time.getD s.clock }
  else none

theorem Clocked.step_eq_some {s s' : Clocked H} {ev : Event} (h : s.step finish ev = some s') :
    s.clock ≤ s'.clock ∧ s'.clock = ev.time.getD s.clock
      ∧ s.engine.step finish ev = some s'.engine := by
  unfold Clocked.step at h
  split_ifs at h with hclock
  obtain ⟨e', hstep, rfl⟩ := map_eq_some_iff.mp h
  exact ⟨hclock, rfl, hstep⟩

/-- A query for `b`, sent under ID 8. -/
def sampleOther : Query :=
  { sampleQuery with
    pkt := [0, 8, 1, 0, 0, 1, 0, 0, 0, 0, 0, 0, 1, 98, 0, 0, 1, 0, 1]
    draws := [8] }

end DnsmasqRs.Forward.ForwardEngine
