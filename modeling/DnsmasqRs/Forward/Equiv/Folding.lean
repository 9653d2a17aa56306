import DnsmasqRs.Forward.Equiv.Clock

/-!
# Duplicate questions

A question that is in flight already is not to be sent again: `lookup_frec_by_question` should find
a live query for it whenever there is one (`FoldsAll`).  The lookup gives up at the first record
that matches if that one has aged out, and `get_new_frec` may have reused a slot behind such a
record.

The lookup is complete along every run in which each new query is written to a slot before those of
the queries in flight with the same question and flags (`FindsFirst`); the first step that breaks
this hides the new query.
-/

namespace DnsmasqRs.Forward.ForwardEngine

open Wire HashQuestions FrecTable Run Option

variable {H : Type}

/-- The record at `i` holds a live query for the question and the flags. -/
def LiveMatch (e : ForwardEngine (H × H)) (now : Instant) (qhash : H × H) (fwdFlags : UInt32)
    (i : ℕ) : Prop :=
  ∃ f, e.table.get i = some f ∧ Matches f qhash fwdFlags ∧ now - f.sentAt < frecHardTimeout

/-- What holds along a run that meets the condition: of two queries in flight for the same question,
the one in the lower slot is the younger. -/
structure Folded (s : Clocked H) : Prop where
  settled : Settled s.engine
  past : ∀ i f, s.engine.table.get i = some f → f.sentto ≠ none → f.sentAt ≤ s.clock
  younger : ∀ i j f g, i < j → s.engine.table.get i = some f → s.engine.table.get j = some g →
    f.sentto ≠ none → Matches g f.questionHash f.flags → g.sentAt ≤ f.sentAt

theorem folded_new (config : ForwardConfig) (maxFd : ℕ) (start : Instant) :
    Folded (⟨ForwardEngine.new config maxFd, start⟩ : Clocked H) where
  settled := settled_new config maxFd
  past _ _ hf := absurd hf get_new_ne
  younger _ _ _ _ _ hf := absurd hf get_new_ne

variable {s s' : Clocked H}

theorem Folded.ages (h : Folded s) (hclock : s.clock ≤ s'.clock) (hsettled : Settled s'.engine)
    (hages : Ages s.engine s'.engine) : Folded s' where
  settled := hsettled
  past i f hf hflight := by
    obtain ⟨f₀, hf₀, hflight₀, hsame⟩ := hages i f hf hflight
    rw [hsame.sentAt]
    exact (h.past i f₀ hf₀ hflight₀).trans hclock
  younger i j f g hij hf hg hflight hmatch := by
    obtain ⟨f₀, hf₀, hflight₀, hsame⟩ := hages i f hf hflight
    obtain ⟨g₀, hg₀, hflight₀', hsame'⟩ := hages j g hg hmatch.1
    rw [hsame.sentAt, hsame'.sentAt]
    refine h.younger i j f₀ g₀ hij hf₀ hg₀ hflight₀ ⟨hflight₀', ?_, ?_⟩
    · rw [← hsame'.questionHash, ← hsame.questionHash]
      exact hmatch.2.1
    · rw [← hsame'.flags, ← hsame.flags]
      exact hmatch.2.2

variable [DecidableEq H]

/-- **Folding is complete**: from now on, if a live query for a question and flags is in flight, the
lookup returns the index of one. -/
def FoldsAll (s : Clocked H) : Prop :=
  ∀ now, s.clock ≤ now → ∀ qhash fwdFlags, (∃ i, LiveMatch s.engine now qhash fwdFlags i) →
    ∃ i, s.engine.table.lookupFrecByQuestion now qhash fwdFlags = some i
      ∧ LiveMatch s.engine now qhash fwdFlags i

/-- The first query in flight for a question is found if any of them is live. -/
theorem Folded.foldsAll (h : Folded s) : FoldsAll s := by
  classical
  rintro now - qhash fwdFlags ⟨j, g, hg, hmatch, hlive⟩
  -- the first match
  have hex : ∃ i f, s.engine.table.get i = some f ∧ Matches f qhash fwdFlags := ⟨j, g, hg, hmatch⟩
  obtain ⟨f, hf, hmatch'⟩ := Nat.find_spec hex
  have hle : Nat.find hex ≤ j := Nat.find_min' hex ⟨g, hg, hmatch⟩
  have hlive' : now - f.sentAt < frecHardTimeout := by
    rcases Nat.lt_or_eq_of_le hle with hlt | heq
    · have hyounger := h.younger _ j f g hlt hf hg hmatch'.1
        ⟨hmatch.1, hmatch.2.1.trans hmatch'.2.1.symm, hmatch.2.2.trans hmatch'.2.2.symm⟩
      exact Nat.lt_of_le_of_lt (Nat.sub_le_sub_left hyounger now) hlive
    · rw [heq] at hf
      rwa [some.inj (hf.symm.trans hg)]
  refine ⟨Nat.find hex, ?_, f, hf, hmatch', hlive'⟩
  refine lookupFrecByQuestion_eq_some.mpr ⟨f, hf, hmatch', hlive', ?_⟩
  intro i f' hi hf' hmatch''
  exact Nat.find_min hex hi ⟨f', hf', hmatch''⟩

variable [Inhabited H] {finish : Bytes → H}

/-- The condition on a step: a new query is written before all queries in flight with the same
question and flags. -/
def FindsFirst (finish : Bytes → H) (s : Clocked H) : Event → Prop
  | .forwardQuery q => ∀ k qhash, SendsNew finish s.engine q k →
    hashQuestions finish q.pkt = some qhash →
    ∀ i f, i < k → s.engine.table.get i = some f → ¬ Matches f qhash (fwdFlagsFromQuery q.pkt)
  | _ => True

/-- The fresh record matches its own question and flags, and is as young as can be. -/
theorem NewQuery.matches (h : NewQuery finish e q e' k)
    (hhash : hashQuestions finish q.pkt = some qhash) :
    ∃ f, e'.table.get k = some f ∧ Matches f qhash (fwdFlagsFromQuery q.pkt)
      ∧ f.sentAt = q.now := by
  obtain ⟨f, hf, header, qhash', -, hhash', serverIdx, -, -, hnew⟩ := h.record
  obtain rfl := some.inj (hhash.symm.trans hhash')
  refine ⟨f, hf, ⟨?_, hnew.questionHash, ?_⟩, hnew.sentAt⟩
  · rw [hnew.sentto]
    simp
  · rw [hnew.flags]

theorem Folded.newQuery (h : Folded s) (hclock : s.clock ≤ q.now)
    (htime : s'.clock = q.now) (hsettled : Settled s'.engine)
    (hnew : NewQuery finish s.engine q s'.engine k)
    (hfirst : FindsFirst finish s (.forwardQuery q)) : Folded s' := by
  obtain ⟨f₀, hf₀, header, qhash, -, hhash, serverIdx, -, -, hrecord⟩ := hnew.record
  refine ⟨hsettled, ?_, ?_⟩
  · intro i f hf hflight
    rw [htime]
    by_cases hi : i = k
    · subst hi
      rw [some.inj (hf.symm.trans hf₀), hrecord.sentAt]
    · rw [hnew.others i hi] at hf
      exact (h.past i f hf hflight).trans hclock
  · intro i j f g hij hf hg hflight hmatch
    by_cases hi : i = k
    · -- the new query is the youngest of all
      have hj : j ≠ k := by omega
      subst hi
      rw [hnew.others j hj] at hg
      rw [some.inj (hf.symm.trans hf₀), hrecord.sentAt]
      exact (h.past j g hg hmatch.1).trans hclock
    · rw [hnew.others i hi] at hf
      by_cases hj : j = k
      · -- a match before the new query is what the condition rules out
        subst hj
        obtain rfl := some.inj (hg.symm.trans hf₀)
        refine absurd ⟨hflight, ?_, ?_⟩ (hfirst j qhash hnew.sends hhash i f hij hf)
        · rw [← hmatch.2.1, hrecord.questionHash]
        · rw [← hmatch.2.2, hrecord.flags]
      · rw [hnew.others j hj] at hg
        exact h.younger i j f g hij hf hg hflight hmatch

/-- A new query behind an older match is not found. -/
theorem Folded.not_foldsAll (h : Folded s) (hclock : s.clock ≤ q.now)
    (htime : s'.clock = q.now) (hnew : NewQuery finish s.engine q s'.engine k)
    (hhash : hashQuestions finish q.pkt = some qhash) (hik : i < k)
    (hf : s.engine.table.get i = some f) (hmatch : Matches f qhash (fwdFlagsFromQuery q.pkt)) :
    ¬ FoldsAll s' := by
  intro hfolds
  obtain ⟨g, hg, hgmatch, hat⟩ := hnew.matches hhash
  have hlive : q.now - g.sentAt < frecHardTimeout := by
    rw [hat, Nat.sub_self]
    decide
  obtain ⟨m, hlookup, -⟩ :=
    hfolds q.now htime.le qhash (fwdFlagsFromQuery q.pkt) ⟨k, g, hg, hgmatch, hlive⟩
  obtain ⟨f', hf', hmatch', hlive', hfirst⟩ := lookupFrecByQuestion_eq_some.mp hlookup
  -- the lookup stops at `i` at the latest, so before the new query
  have hmi : m ≤ i := by
    by_contra hlt
    refine hfirst i f (Nat.lt_of_not_le hlt) ?_ hmatch
    rw [hnew.others i (by omega)]
    exact hf
  have hmk : m ≠ k := by omega
  rw [hnew.others m hmk] at hf'
  -- but then it would have been found before
  obtain ⟨j, hj, -⟩ :=
    h.foldsAll q.now hclock qhash (fwdFlagsFromQuery q.pkt) ⟨m, f', hf', hmatch', hlive'⟩
  have hjoin := hnew.sends.1
  unfold joinIndex at hjoin
  rw [hhash, bind_some, hj] at hjoin
  cases hjoin

/-- **One step**: folding stays complete iff the step meets the condition. -/
theorem foldsAll_step_iff (h : Folded s) (hstep : s.step finish ev = some s') :
    (FindsFirst finish s ev → Folded s') ∧ (FoldsAll s' ↔ FindsFirst finish s ev) := by
  obtain ⟨hclock, htime, hengine⟩ := Clocked.step_eq_some hstep
  have hsettled := h.settled.step hengine
  rcases h.settled.step_cases hengine with ⟨hages, hno⟩ | ⟨q, k, rfl, hnew⟩
  · have hfolded := h.ages hclock hsettled hages
    refine ⟨fun _ => hfolded, iff_of_true hfolded.foldsAll ?_⟩
    cases ev with
    | forwardQuery q => exact fun k _ hsends => absurd hsends (hno q k rfl)
    | _ => trivial
  · have htime' : s'.clock = q.now := htime
    rw [htime'] at hclock
    refine ⟨h.newQuery hclock htime' hsettled hnew, ?_, ?_⟩
    · intro hfolds k' qhash hsends hhash i f hik hf hmatch
      obtain ⟨-, e₁, out₁, d₁, hrun₁, rfl⟩ := hsends
      obtain ⟨-, e₂, out₂, d₂, hrun₂, hd₂⟩ := hnew.sends
      obtain ⟨-, -, hd⟩ : e₁ = e₂ ∧ out₁ = out₂ ∧ d₁ = d₂ := by
        simpa using hrun₁.symm.trans hrun₂
      rw [hd, hd₂] at hik
      exact h.not_foldsAll hclock htime' hnew hhash hik hf hmatch hfolds
    · intro hfirst
      exact (h.newQuery hclock htime' hsettled hnew hfirst).foldsAll

/-- **Folding**: along every run each of whose steps meets the condition, the lookup finds a live
query for every question that has one; and from such a state a step leaves it so iff it meets the
condition. -/
theorem foldsAll_of_reaches (finish : Bytes → H) (config : ForwardConfig) (maxFd : ℕ)
    (start : Instant)
    (h : Reaches (Clocked.step finish) (FindsFirst finish)
      ⟨ForwardEngine.new config maxFd, start⟩ s) :
    FoldsAll s ∧ ∀ ev s', s.step finish ev = some s' → (FoldsAll s' ↔ FindsFirst finish s ev) := by
  have hfolded : Folded s := h.invariant (folded_new config maxFd start)
    fun _ _ _ hs hok hstep => (foldsAll_step_iff hs hstep).1 hok
  exact ⟨hfolded.foldsAll, fun ev s' hstep => (foldsAll_step_iff hfolded hstep).2⟩

/-- An engine with one upstream. -/
def sampleClock : Clocked Bytes := ⟨ForwardEngine.new { upstreams := [sampleAddr 1] } 64, 0⟩

/-- A query for `a` is in flight and is found. -/
theorem foldsAll_sampleQuery : ∃ s, sampleClock.step id (.forwardQuery sampleQuery) = some s
      ∧ (∃ f ∈ s.engine.table.frecs, f.sentto = some 0) ∧ FoldsAll s := by
  have hsome : ((sampleClock.step id (.forwardQuery sampleQuery)).any fun s =>
      decide (∃ f ∈ s.engine.table.frecs, f.sentto = some 0)) := by decide +kernel
  obtain ⟨s, hstep, hflight⟩ := (any_eq_true _ _).mp hsome
  refine ⟨s, hstep, of_decide_eq_true hflight, ?_⟩
  have hok : FindsFirst id sampleClock (.forwardQuery sampleQuery) := by
    intro k qhash _ _ i f _ hf
    cases hf
  exact (foldsAll_of_reaches id { upstreams := [sampleAddr 1] } 64 0 (.tail .refl hok hstep)).1

/-- The query for `a` again, after forty seconds. -/
def sampleLater : Query := { sampleQuery with now := fromSecs 40, draws := [9] }

/-- Queries for `a` and `b` have aged out in slots 0 and 1.  The next query for `a` reuses slot 1,
and another one right after it does not find it, because the lookup stops at slot 0. -/
theorem not_foldsAll_reuse :
    ∃ s, Reaches (Clocked.step id) (fun _ _ => True) sampleClock s ∧ s.clock = fromSecs 40
      ∧ (∃ qhash, hashQuestions id sampleQuery.pkt = some qhash
        ∧ LiveMatch s.engine (fromSecs 40) qhash (fwdFlagsFromQuery sampleQuery.pkt) 1
        ∧ s.engine.table.lookupFrecByQuestion (fromSecs 40) qhash
          (fwdFlagsFromQuery sampleQuery.pkt) = none)
      ∧ ¬ FoldsAll s := by
  obtain ⟨s, hreach, hsome⟩ := exists_reaches (s := sampleClock) (Clocked.step id)
    [.forwardQuery sampleQuery, .forwardQuery sampleOther, .forwardQuery sampleLater]
    (fun s => (hashQuestions id sampleQuery.pkt).any fun qhash =>
      (s.engine.table.get 1).any fun f =>
        s.clock = fromSecs 40 ∧ f.sentto.isSome ∧ f.questionHash = qhash
          ∧ f.flags &&& dedupMask = fwdFlagsFromQuery sampleQuery.pkt &&& dedupMask
          ∧ fromSecs 40 - f.sentAt < frecHardTimeout
          ∧ s.engine.table.lookupFrecByQuestion (fromSecs 40) qhash
            (fwdFlagsFromQuery sampleQuery.pkt) = none)
    .refl (by decide +kernel)
  obtain ⟨qhash, hhash, hsome⟩ := (any_eq_true _ _).mp hsome
  obtain ⟨f, hf, hs⟩ := (any_eq_true _ _).mp hsome
  obtain ⟨hclock, hflight, hq, hflags, hlive, hlookup⟩ := of_decide_eq_true hs
  have hmatch : LiveMatch s.engine (fromSecs 40) qhash (fwdFlagsFromQuery sampleQuery.pkt) 1 :=
    ⟨f, hf, ⟨isSome_iff_ne_none.mp hflight, hq, hflags⟩, hlive⟩
  refine ⟨s, hreach, hclock, ⟨qhash, hhash, hmatch, hlookup⟩, ?_⟩
  intro hfolds
  obtain ⟨i, hi, -⟩ := hfolds (fromSecs 40) hclock.le qhash _ ⟨1, hmatch⟩
  rw [hlookup] at hi
  cases hi

end DnsmasqRs.Forward.ForwardEngine
