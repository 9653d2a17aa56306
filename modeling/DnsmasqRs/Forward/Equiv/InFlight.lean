import DnsmasqRs.Forward.Equiv.Engine

/-!
# The identity of a query in flight

A reply is matched with its query by the ID the query was sent under and by the digest of its
question.  In every state a run of the engine can reach, the queries in flight have different IDs,
none of them 0, and the budget for clients that join counts those that did (`InFlightOk`).  A step
changes neither the ID nor the digest of a query that stays in flight (`KeepsIdentity`): where a
record has another ID afterwards, `get_new_frec` has freed it in between for a new query.
-/

namespace DnsmasqRs.Forward.ForwardEngine

open Wire HashQuestions FrecTable Run Option

variable {D : Type}

/-- **The queries in flight are told apart**, and the clients that joined them are counted and
within the budget. -/
structure InFlightOk (e : ForwardEngine D) : Prop where
  distinct : ∀ i j f g, e.table.get i = some f → e.table.get j = some g → f.sentto ≠ none →
    g.sentto ≠ none → f.newId = g.newId → i = j
  ne_zero : ∀ i f, e.table.get i = some f → f.sentto ≠ none → f.newId ≠ 0
  count : e.table.frecSrcCount = (e.table.frecs.map (·.extraSrcs.length)).sum
  bound : e.table.frecSrcCount ≤ e.table.maxPerGroup

variable [Inhabited D]

/-- In the course of the step `get_new_frec` has freed the record at `i` for the new query `f`. -/
def Evicted (e : ForwardEngine D) (ev : Event) (i : ℕ) (f : Frec D) : Prop :=
  ∃ q serverIdx, ev = .forwardQuery q ∧ f.sentto = some serverIdx
    ∧ (e.table.getNewFrec q.now serverIdx false).2 = some i
    ∧ ∃ g, (e.table.getNewFrec q.now serverIdx false).1.get i = some g ∧ g.sentto = none

/-- A query that stays in flight keeps its ID and the digest of its question. -/
def KeepsIdentity (e : ForwardEngine D) (ev : Event) (e' : ForwardEngine D) : Prop :=
  ∀ i f f', e.table.get i = some f → f.sentto ≠ none → e'.table.get i = some f' → f'.sentto ≠ none →
    (f'.newId = f.newId ∧ f'.questionHash = f.questionHash) ∨ Evicted e ev i f'

/-- The invariant. -/
structure Identified (e : ForwardEngine D) : Prop extends Settled e where
  ids : DistinctIds e
  ne_zero : ∀ i f, e.table.get i = some f → f.sentto ≠ none → f.newId ≠ 0

omit [Inhabited D] in
theorem identified_new (config : ForwardConfig) (maxFd : ℕ) :
    Identified (ForwardEngine.new config maxFd : ForwardEngine D) where
  toSettled := settled_new config maxFd
  ids _ _ _ _ hf := absurd hf get_new_ne
  ne_zero _ _ hf := absurd hf get_new_ne

omit [Inhabited D] in
theorem Identified.inFlightOk {e : ForwardEngine D} (h : Identified e) : InFlightOk e where
  distinct := h.ids
  ne_zero := h.ne_zero
  count := by
    rw [h.table.count, joined, List.length_flatMap]
  bound := h.table.bound

variable {H : Type} [DecidableEq H] [Inhabited H] {finish : Bytes → H}
  {e e' : ForwardEngine (H × H)}

/-- **One step** keeps the invariant and the identity of the queries in flight. -/
theorem Identified.step (h : Identified e) (hstep : e.step finish ev = some e') :
    Identified e' ∧ KeepsIdentity e ev e' := by
  obtain ⟨⟨e₁, sent⟩, hexec, rfl⟩ := map_eq_some_iff.mp hstep
  rcases h.exec hexec with ⟨config, -, rfl, -⟩ | ⟨k, joined, hop⟩
  · refine ⟨⟨h.refreshConfig config, h.ids, h.ne_zero⟩, ?_⟩
    intro i f f' hf _ hf' _
    obtain rfl := some.inj (hf.symm.trans hf')
    exact Or.inl ⟨rfl, rfl⟩
  · refine ⟨⟨hop.settled, hop.distinctIds h.ids, ?_⟩, ?_⟩
    · intro i f hf hflight
      by_cases hi : i = k
      · subst hi
        rcases (hop.target f hf hflight).origin with ⟨f₀, hf₀, hflight₀, hsame, -⟩
          | ⟨-, ⟨q, -, header, qhash, -, -, serverIdx, -, -, hnew⟩, -⟩
        · rw [hsame.newId]
          exact h.ne_zero i f₀ hf₀ hflight₀
        · exact hnew.newId
      · exact h.ne_zero i f (hop.others i f hi hf hflight) hflight
    · intro i f f' hf _ hf' hflight'
      by_cases hi : i = k
      · subst hi
        rcases (hop.target f' hf' hflight').origin with ⟨f₀, hf₀, -, hsame, -⟩
          | ⟨-, ⟨q, hev, header, qhash, -, -, serverIdx, -, hclaim, hnew⟩, -⟩
        · obtain rfl := some.inj (hf.symm.trans hf₀)
          exact Or.inl ⟨hsame.newId, hsame.questionHash⟩
        · -- the slot was claimed for a new query, so its old record is out of flight by then
          obtain ⟨-, -, -, hslot⟩ := h.table.getNewFrec q.now serverIdx false
          obtain ⟨g, hg, hidle⟩ := (hslot i hclaim).1.slot
          exact Or.inr ⟨q, serverIdx, hev, hnew.sentto, hclaim, g, hg, hidle⟩
      · have hf₀ := hop.others i f' hi hf' hflight'
        obtain rfl := some.inj (hf.symm.trans hf₀)
        exact Or.inl ⟨rfl, rfl⟩

/-- **In every reachable state the queries in flight are told apart**, and no step from it changes
what identifies one of them. -/
theorem inFlightOk_of_reaches (finish : Bytes → H) (config : ForwardConfig) (maxFd : ℕ)
    (h : Reaches (step finish) (fun _ _ => True) (ForwardEngine.new config maxFd) e) :
    InFlightOk e ∧ ∀ ev e', e.step finish ev = some e' → KeepsIdentity e ev e' := by
  have hids : Identified e :=
    h.invariant (identified_new config maxFd) fun _ _ _ hs _ hstep => (hs.step hstep).1
  exact ⟨hids.inFlightOk, fun ev e' hstep => (hids.step hstep).2⟩

/-- A query is in flight under ID 7, and the state is as described. -/
theorem inFlightOk_sampleQuery :
    ∃ e, (ForwardEngine.new { upstreams := [sampleAddr 1] } 64).step id (.forwardQuery sampleQuery)
        = some e
      ∧ (∃ f ∈ e.table.frecs, f.sentto = some 0 ∧ f.newId = 7) ∧ InFlightOk e := by
  have hsome : (((ForwardEngine.new { upstreams := [sampleAddr 1] } 64).step id
      (.forwardQuery sampleQuery)).any fun e =>
        decide (∃ f ∈ e.table.frecs, f.sentto = some 0 ∧ f.newId = 7)) := by decide +kernel
  obtain ⟨e, hstep, hflight⟩ := (any_eq_true _ _).mp hsome
  refine ⟨e, hstep, of_decide_eq_true hflight, ?_⟩
  exact (inFlightOk_of_reaches id { upstreams := [sampleAddr 1] } 64 (.tail .refl trivial hstep)).1

end DnsmasqRs.Forward.ForwardEngine
