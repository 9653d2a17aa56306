import DnsmasqRs.Forward.Equiv.Clock
import DnsmasqRs.Lib.Slots

/-!
# Admission control

`get_new_frec` is to keep the number of young queries in flight within `max_per_group`.  It counts
those whose last server is the one the new query is for (`youngTo`), and it counts when a query is
admitted; a query that fails over to another server afterwards is still in flight but no longer
counted.

The bound holds along every run in which the count for the chosen server stands for the count over
all servers: where it is below `max_per_group`, so is the other (`Admits`).  The admission test does
the rest (`admitted_of_sendsNew`), and a new query sent outside the condition breaks the bound.
-/

namespace DnsmasqRs.Forward.ForwardEngine

open Wire HashQuestions FrecTable Run Option

/-- The number of queries in flight younger than `FREC_TIMEOUT_SECS` at the given time. -/
def young {D : Type} (e : ForwardEngine D) (now : Instant) : ℕ :=
  e.table.frecs.countP fun f => f.sentto.isSome && decide (now - f.sentAt < frecTimeout)

variable {H : Type} {e e' : ForwardEngine (H × H)} {now : Instant}

/-- Queries only get older, and a step that adds none leaves no more of them. -/
theorem Ages.young_le (h : Ages e e') (hle : now ≤ now') : e'.young now' ≤ e.young now := by
  apply Slots.countP_le_countP
  intro i f hf hyoung
  rw [Bool.and_eq_true, isSome_iff_ne_none, decide_eq_true_eq] at hyoung
  obtain ⟨f₀, hf₀, hflight₀, hsame⟩ := h i f hf hyoung.1
  refine ⟨f₀, hf₀, ?_⟩
  rw [Bool.and_eq_true, isSome_iff_ne_none, decide_eq_true_eq, ← hsame.sentAt]
  exact ⟨hflight₀, Nat.lt_of_le_of_lt (Nat.sub_le_sub_right hle f.sentAt) hyoung.2⟩

variable [DecidableEq H] [Inhabited H] {finish : Bytes → H}

/-- A new query is one more: what it may have evicted was not young. -/
theorem NewQuery.young_eq (h : NewQuery finish e q e' k) : e'.young q.now = e.young q.now + 1 := by
  obtain ⟨f, hf, header, qhash, -, -, serverIdx, -, -, hnew⟩ := h.record
  refine Slots.countP_eq_add_one h.others hf ?_ ?_
  · rw [hnew.sentto, hnew.sentAt, Nat.sub_self]
    rfl
  · intro f₀ hf₀
    rw [Bool.and_eq_false_iff, decide_eq_false_iff_not]
    by_cases hflight : f₀.sentto = none
    · left
      rw [hflight]
      rfl
    · right
      exact Nat.not_lt.mpr (h.evicts f₀ hf₀ hflight)

/-- Those of them last sent to the given server: what `get_new_frec` counts. -/
def youngTo {D : Type} (e : ForwardEngine D) (now : Instant) (serverIdx : ℕ) : ℕ :=
  e.table.frecs.countP (CountsFor now serverIdx)

/-- The server `forward_query` chooses for a query that joins none in flight. -/
def chosen {D : Type} (e : ForwardEngine D) (q : Query) : Option ℕ :=
  (e.candidateServers q.pkt).bind fun candidates =>
    nextServer (candidates.filter fun i => !e.isLooping i) [] (2 ^ 64 - 1)

/-- The condition on a step: if a query that joins none in flight finds fewer than `max_per_group`
young ones for the server chosen, there are fewer than that over all servers. -/
def Admits (finish : Bytes → H) (s : Clocked H) : Event → Prop
  | .forwardQuery q => joinIndex finish s.engine q = none →
    ∀ serverIdx, s.engine.chosen q = some serverIdx →
      s.engine.youngTo q.now serverIdx < s.engine.table.maxPerGroup →
      s.engine.young q.now < s.engine.table.maxPerGroup
  | _ => True

/-- The young queries in flight are within the bound. -/
def WithinGroup (s : Clocked H) : Prop := s.engine.young s.clock ≤ s.engine.table.maxPerGroup

/-- **What the admission test says** of a new query that is sent. -/
theorem admitted_of_sendsNew (h : SendsNew finish e q k) :
    ∃ serverIdx, e.chosen q = some serverIdx
      ∧ e.youngTo q.now serverIdx < e.table.maxPerGroup := by
  obtain ⟨hjoin, e₁, out, d, hrun, -⟩ := h
  rcases ForwardEngine.forwardQuery_cases hrun with ⟨-, -, hnone⟩
    | ⟨header, -, ⟨idx, hidx, -⟩ | ⟨qhash, -, -, hnew⟩⟩
  · cases hnone
  · rw [hjoin] at hidx
    cases hidx
  · unfold ForwardEngine.forwardNew at hnew
    split_ifs at hnew with hup
    · cases hnew
    · obtain ⟨candidates, hcandidates, hnew⟩ := bind_eq_some_iff.mp hnew
      split at hnew
      · cases hnew
      · next serverIdx hserver =>
        refine ⟨serverIdx, ?_, ?_⟩
        · unfold chosen
          rw [hcandidates]
          exact hserver
        · cases hslot : (e.table.getNewFrec q.now serverIdx false).2 with
          | none =>
            dsimp only at hnew
            rw [hslot] at hnew
            cases hnew
          | some slot => exact countP_lt_of_getNewFrec hslot

variable {s s' : Clocked H}

/-- **One step**: the bound survives a step that meets the condition, and one that sends a new query
outside it breaks the bound. -/
theorem withinGroup_step (hsettled : Settled s.engine) (h : WithinGroup s)
    (hstep : s.step finish ev = some s') :
    (Admits finish s ev → WithinGroup s')
      ∧ ∀ q k, ev = .forwardQuery q → SendsNew finish s.engine q k →
        WithinGroup s' → Admits finish s ev := by
  obtain ⟨hclock, htime, hengine⟩ := Clocked.step_eq_some hstep
  have hsize := hsettled.step_size hengine
  unfold WithinGroup at h ⊢
  rw [hsize]
  rcases hsettled.step_cases hengine with ⟨hages, hno⟩ | ⟨q, k, rfl, hnew⟩
  · exact ⟨fun _ => (hages.young_le hclock).trans h, fun q k hev hsends =>
      absurd hsends (hno q k hev)⟩
  · rw [show s'.clock = q.now from htime, hnew.young_eq]
    constructor
    · intro hadmits
      obtain ⟨serverIdx, hserver, hroom⟩ := admitted_of_sendsNew hnew.sends
      exact hadmits hnew.sends.1 serverIdx hserver hroom
    · rintro q' - hev - hle
      obtain rfl := Event.forwardQuery.inj hev
      exact fun _ _ _ _ => hle

/-- **Admission control**: along every run each of whose steps meets the condition, the number of
young queries in flight is at most `max_per_group`, that is `ftabsize` but at least one; and from
such a state a new query that is sent keeps the bound iff it meets the condition. -/
theorem withinGroup_of_reaches (finish : Bytes → H) (config : ForwardConfig) (maxFd : ℕ)
    (start : Instant) (h : Reaches (Clocked.step finish) (Admits finish)
      ⟨ForwardEngine.new config maxFd, start⟩ s) :
    s.engine.table.maxPerGroup = max config.ftabsize 1 ∧ WithinGroup s
      ∧ ∀ q k s', s.step finish (.forwardQuery q) = some s' → SendsNew finish s.engine q k →
        (WithinGroup s' ↔ Admits finish s (.forwardQuery q)) := by
  have hinv : Settled s.engine ∧ s.engine.table.maxPerGroup = max config.ftabsize 1
      ∧ WithinGroup s := by
    refine h.invariant (I := fun s => Settled s.engine
      ∧ s.engine.table.maxPerGroup = max config.ftabsize 1 ∧ WithinGroup s)
      ⟨settled_new config maxFd, rfl, Nat.zero_le _⟩ ?_
    rintro s₁ ev s₂ ⟨hsettled, hsize, hbound⟩ hok hstep
    obtain ⟨-, -, hengine⟩ := Clocked.step_eq_some hstep
    exact ⟨hsettled.step hengine, (hsettled.step_size hengine).trans hsize,
      (withinGroup_step hsettled hbound hstep).1 hok⟩
  obtain ⟨hsettled, hsize, hbound⟩ := hinv
  refine ⟨hsize, hbound, ?_⟩
  intro q k s' hstep hsends
  obtain ⟨hkeeps, hbreaks⟩ := withinGroup_step hsettled hbound hstep
  exact ⟨hbreaks q k rfl hsends, hkeeps⟩

/-- An engine for two upstreams and one query at a time. -/
def sampleGroup : Clocked Bytes :=
  ⟨ForwardEngine.new { upstreams := [sampleAddr 1, sampleAddr 2], ftabsize := 1 } 64, 0⟩

/-- One query is sent, as many as are allowed. -/
theorem withinGroup_sampleQuery : ∃ s, sampleGroup.step id (.forwardQuery sampleQuery) = some s
    ∧ s.engine.young 0 = 1 ∧ WithinGroup s := by
  have hsome : ((sampleGroup.step id (.forwardQuery sampleQuery)).any fun s =>
      decide (s.engine.young 0 = 1)) := by decide +kernel
  obtain ⟨s, hstep, hyoung⟩ := (any_eq_true _ _).mp hsome
  refine ⟨s, hstep, of_decide_eq_true hyoung, ?_⟩
  have hok : Admits id sampleGroup (.forwardQuery sampleQuery) :=
    fun _ _ _ _ => by decide +kernel
  exact (withinGroup_of_reaches id { upstreams := [sampleAddr 1, sampleAddr 2], ftabsize := 1 } 64 0
    (.tail .refl hok hstep)).2.1

/-- The first upstream answers `sampleQuery` with SERVFAIL; the query goes to the second. -/
def sampleServfail : Reply where
  pkt := [0, 7, 0x81, 0x82, 0, 1, 0, 0, 0, 0, 0, 0, 1, 97, 0, 0, 1, 0, 1]
  src := sampleAddr 1
  arrivedOn := 0
  now := 0
  net := { bind := some 1001, sendOk := true }

/-- After the failover the first query is not counted any more, and a second one is admitted. -/
theorem not_withinGroup_failover :
    ∃ s, Reaches (Clocked.step id) (fun _ _ => True) sampleGroup s ∧ s.clock = 0
      ∧ s.engine.young 0 = 2 ∧ s.engine.table.maxPerGroup = 1 ∧ ¬ WithinGroup s := by
  obtain ⟨s, hreach, hs⟩ := exists_reaches (s := sampleGroup) (Clocked.step id)
    [.forwardQuery sampleQuery, .acceptReply sampleServfail, .forwardQuery sampleOther]
    (fun s => s.clock = 0 ∧ s.engine.young 0 = 2
      ∧ s.engine.table.maxPerGroup = 1) .refl (by decide +kernel)
  obtain ⟨hclock, hyoung, hsize⟩ := of_decide_eq_true hs
  refine ⟨s, hreach, hclock, hyoung, hsize, ?_⟩
  unfold WithinGroup
  rw [hclock, hyoung, hsize]
  decide

end DnsmasqRs.Forward.ForwardEngine
