import DnsmasqRs.Forward.Equiv.FanOut
import DnsmasqRs.Forward.Equiv.InFlight

/-!
# The end of a query

A reply that is delivered ends its query.  From then on replies under the same ID are ignored, until
the ID is drawn for a new query (`ignored_after_deliver`).
-/

namespace DnsmasqRs.Forward

open Wire DnsProtocol HashQuestions FrecTable Run List Option

variable {D : Type} [Inhabited D]

/-! ### Freed records -/

namespace FrecTable

variable {t : FrecTable D} {idx i : ℕ}

theorem get_of_freeOne (hg : t.get idx = some g) (hf : (t.freeOne idx g).get i = some f)
    (hflight : f.sentto ≠ none) :
    i ≠ idx ∧ t.get i = some f := by
  rw [get_freeOne hg] at hf
  split_ifs at hf with hi
  · rw [← some.inj hf] at hflight
    exact absurd rfl hflight
  · exact ⟨hi, hf⟩

/-- What is in flight after `free_frec` was so before, and is not the query that was freed, whatever
that one blocked on. -/
theorem get_of_freeFrec (hf : (t.freeFrec idx).get i = some f) (hflight : f.sentto ≠ none) :
    i ≠ idx ∧ t.get i = some f := by
  fun_induction freeFrec t idx with
  | case1 t idx hnone =>
    refine ⟨?_, hf⟩
    rintro rfl
    cases hnone.symm.trans hf
  | case5 t idx g hg bq _ b _ _ ih => exact get_of_freeOne hg (ih hf).2 hflight
  | _ => exact get_of_freeOne ‹_› hf hflight

/-- No query is in flight under the ID. -/
def Unused (qid : UInt16) (t : FrecTable D) : Prop :=
  ∀ i f, t.get i = some f → f.sentto ≠ none → f.newId ≠ qid

end FrecTable

namespace ForwardEngine

/-! ### Late replies -/

variable {e e' : ForwardEngine D} {qid : UInt16}

omit [Inhabited D] in
/-- What is in flight after an operation was so before under its ID, or is new. -/
theorem OpOk.inFlight_or_fresh (hop : OpOk fresh srcs e e' sent k) (hf : e'.table.get i = some f)
    (hflight : f.sentto ≠ none) :
    (∃ f₀, e.table.get i = some f₀ ∧ f₀.sentto ≠ none ∧ f₀.newId = f.newId) ∨ fresh i f := by
  by_cases hi : i = k
  · subst hi
    rcases (hop.target f hf hflight).origin with ⟨f₀, hf₀, hflight₀, hsame, -⟩ | ⟨-, hfresh, -⟩
    · exact .inl ⟨f₀, hf₀, hflight₀, hsame.newId.symm⟩
    · exact .inr hfresh
  · exact .inl ⟨f, hop.others i f hi hf hflight, hflight, rfl⟩

variable {H : Type} [DecidableEq H] [Inhabited H] {finish : Bytes → H}
  {e e' : ForwardEngine (H × H)}

/-- **One step**: an ID that is not in use comes into use only where it is drawn. -/
theorem Settled.unused_step (hs : Settled e) (h : Unused qid e.table)
    (hid : ∀ q, ev = .forwardQuery q → qid ∉ q.draws) (hstep : e.step finish ev = some e') :
    Unused qid e'.table := by
  obtain ⟨⟨e₁, sent⟩, hexec, rfl⟩ := map_eq_some_iff.mp hstep
  rcases hs.exec hexec with ⟨config, -, rfl, -⟩ | ⟨k, joined, hop⟩
  · exact h
  · intro i f hf hflight
    rcases hop.inFlight_or_fresh hf hflight with ⟨f₀, hf₀, hflight₀, hsame⟩
      | ⟨q, hev, header, qhash, -, -, serverIdx, -, -, hnew⟩
    · exact hsame ▸ h i f₀ hf₀ hflight₀
    · rintro rfl
      exact hid q hev hnew.drawn

theorem complete_of_deliver
    (hrun : e.acceptReply finish r = some (e', .deliver targets flags, sent)) :
    ∃ idx e₁, e.validateReply finish r.pkt r.src r.arrivedOn r.now = some idx
      ∧ e' = freeAndRelease e₁ idx := by
  unfold ForwardEngine.acceptReply at hrun
  split at hrun
  · next idx header hvalid _ =>
    dsimp only at hrun
    split_ifs at hrun
    · cases hrun
    · obtain ⟨next, -, hrun⟩ := bind_eq_some_iff.mp hrun
      split at hrun
      · exact ⟨idx, e, hvalid, (Prod.mk.inj (some.inj hrun)).1.symm⟩
      · split at hrun
        · cases hrun
        · exact ⟨idx, _, hvalid, (Prod.mk.inj (some.inj hrun)).1.symm⟩
    · exact ⟨idx, e, hvalid, (Prod.mk.inj (some.inj hrun)).1.symm⟩
  · cases hrun

/-- **A reply that is delivered ends the only query under its ID.** -/
theorem Identified.unused_of_deliver (h : Identified e)
    (hrun : e.acceptReply finish r = some (e', .deliver targets flags, sent)) :
    ∃ header, DnsHeader.fromBytes r.pkt = some header ∧ Unused header.id e'.table := by
  obtain ⟨idx, e₁, hvalid, rfl⟩ := complete_of_deliver hrun
  obtain ⟨header, -, -, hheader, -, hlookup, -⟩ := validateReply_eq_some.mp hvalid
  obtain ⟨f, hf, hflight, hid, -⟩ := lookupFrec_eq_some.mp hlookup
  refine ⟨header, hheader, ?_⟩
  intro i g hg hgflight hgid
  obtain ⟨k, hop⟩ := (h.acceptReply hrun).op
  obtain ⟨g₀, hg₀, hg₀flight, hg₀id⟩ :=
    ((hop fun _ _ => False).inFlight_or_fresh hg hgflight).resolve_right id
  have hi : i = idx := h.ids i idx g₀ f hg₀ hf hg₀flight hflight (hg₀id.trans (hgid.trans hid.symm))
  exact (get_of_freeFrec hg hgflight).1 hi

theorem acceptReply_of_unused (hheader : DnsHeader.fromBytes r.pkt = some header)
    (h : Unused header.id e.table) : e.acceptReply finish r = some (e, .ignore, none) := by
  have hnone : e.validateReply finish r.pkt r.src r.arrivedOn r.now = none := by
    rw [eq_none_iff_forall_ne_some]
    intro idx hvalid
    obtain ⟨header', -, -, hheader', -, hlookup, -⟩ := validateReply_eq_some.mp hvalid
    obtain ⟨f, hf, hflight, hid, -⟩ := lookupFrec_eq_some.mp hlookup
    obtain rfl := some.inj (hheader.symm.trans hheader')
    exact h idx f hf hflight hid
  unfold ForwardEngine.acceptReply
  rw [hnone]

/-- **A query is answered once**: after a reply has been delivered, replies under its ID are ignored
and change nothing, until the ID is drawn for a new query. -/
theorem ignored_after_deliver (finish : Bytes → H) (config : ForwardConfig) (maxFd : ℕ)
    (h : Reaches (step finish) (fun _ _ => True) (ForwardEngine.new config maxFd) e)
    (hrun : e.acceptReply finish r = some (e', .deliver targets flags, sent))
    (hheader : DnsHeader.fromBytes r.pkt = some header)
    (hlater : Reaches (step finish) (fun _ ev => ∀ q, ev = .forwardQuery q →
      header.id ∉ q.draws) e' e'')
    (hlate : DnsHeader.fromBytes late.pkt = some lateHeader) (hid : lateHeader.id = header.id) :
    e''.acceptReply finish late = some (e'', .ignore, none) := by
  have hident : Identified e :=
    h.invariant (identified_new config maxFd) fun _ _ _ hs _ hstep => (hs.step hstep).1
  obtain ⟨header₁, hheader₁, hunused⟩ := hident.unused_of_deliver hrun
  obtain rfl := some.inj (hheader.symm.trans hheader₁)
  obtain ⟨k, hop⟩ := (hident.acceptReply hrun).op
  have hinv : Settled e'' ∧ Unused header.id e''.table := by
    refine hlater.invariant (I := fun s => Settled s ∧ Unused header.id s.table)
      ⟨(hop fun _ _ => False).settled, hunused⟩ ?_
    intro s ev s' hs hdraws hstep
    exact ⟨hs.1.step hstep, hs.1.unused_step hs.2 hdraws hstep⟩
  refine acceptReply_of_unused hlate ?_
  rw [hid]
  exact hinv.2

/-- The answer comes twice. -/
theorem ignored_after_deliver_sampleAnswer : ∃ e e' targets flags,
      Reaches (step id) (fun _ _ => True) (ForwardEngine.new { upstreams := [sampleAddr 1] } 64) e
        ∧ e.acceptReply id sampleAnswer = some (e', .deliver targets flags, none)
        ∧ e'.acceptReply id sampleAnswer = some (e', .ignore, none) := by
  obtain ⟨e, hreach, hsome⟩ :=
    exists_reaches (s := ForwardEngine.new { upstreams := [sampleAddr 1] } 64) (step id)
    [.forwardQuery sampleQuery]
    (fun e => (e.acceptReply id sampleAnswer).any fun (_, action, sent) =>
      action = .deliver [⟨sampleAddr 99, 0, 7, none⟩] 0 ∧ sent = none) .refl (by decide +kernel)
  obtain ⟨⟨e', action, sent⟩, hrun, hs⟩ := (any_eq_true _ _).mp hsome
  obtain ⟨rfl, rfl⟩ := of_decide_eq_true hs
  exact ⟨e, e', _, _, hreach, hrun,
    ignored_after_deliver id { upstreams := [sampleAddr 1] } 64 hreach hrun rfl .refl rfl rfl⟩

end ForwardEngine

end DnsmasqRs.Forward
