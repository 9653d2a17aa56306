import DnsmasqRs.Equiv.HashQuestions
import DnsmasqRs.Forward.Equiv.Engine

/-!
# Replies and configuration reloads

A reply should be accepted exactly if it comes from the address its query was last sent to.  The
record does not keep that address: it keeps the index of the server in the configuration, and
`refresh_config` replaces the list of servers under it.

`Traced` is the engine with the log of the datagrams it sent, newest first, so that the address a
query was last sent to can be spoken of (`lastSentTo`).  `RepliesTracked` is the property, and
`KeepsUpstreams` the condition on a step: a reload leaves the address at the index of every query in
flight alone.  A run of such steps has the property in every state, and a reload that breaks the
condition loses it there and then (`repliesTracked_of_reaches`).
-/

namespace DnsmasqRs.Forward.ForwardEngine

open Wire DnsProtocol HashQuestions FrecTable RandFdPool Run List Option

variable {H : Type}

/-- The engine with the datagrams it has sent, newest first. -/
structure Traced (H : Type) where
  engine : ForwardEngine (H × H)
  log : List Sent

/-- The address the query at `idx` was last sent to. -/
def lastSentTo (log : List Sent) (idx : ℕ) : Option SocketAddr :=
  (log.find? (·.idx == idx)).map (·.addr)

theorem lastSentTo_cons_self {s : Sent} (h : s.idx = idx) :
    lastSentTo (s :: log) idx = some s.addr := by
  unfold lastSentTo
  rw [find?_cons_of_pos (by simpa using h)]
  rfl

theorem lastSentTo_of_ne
    (h : ∀ s, sent = some s → s.idx ≠ idx) :
    lastSentTo (sent.toList ++ log) idx = lastSentTo log idx := by
  cases sent with
  | none => rfl
  | some s =>
    unfold lastSentTo
    rw [toList_some, singleton_append, find?_cons_of_neg]
    simpa using h s rfl

/-- The condition on a step: a reload leaves the addresses of the servers that queries in flight
were sent to where they are. -/
def KeepsUpstreams (s : Traced H) : Event → Prop
  | .refreshConfig config => ∀ f ∈ s.engine.table.frecs, ∀ i, f.sentto = some i →
    config.upstreams[i]? = s.engine.config.upstreams[i]?
  | _ => True

/-! ### The invariant -/

/-- What holds of a traced engine as long as reloads keep the upstreams. -/
structure Tracked (finish : Bytes → H) (s : Traced H) : Prop where
  settled : Settled s.engine
  /-- The server index of a query in flight still names the address it was last sent to. -/
  sent : ∀ i f serverIdx, s.engine.table.get i = some f → f.sentto = some serverIdx →
    ∃ addr, lastSentTo s.log i = some addr ∧ s.engine.config.upstreams[serverIdx]? = some addr
  rfds : ∀ i f, s.engine.table.get i = some f → f.sentto ≠ none → f.rfds ≠ []
  asked : ∀ i f, s.engine.table.get i = some f → f.sentto ≠ none →
    ∃ pkt, hashQuestions finish pkt = some f.questionHash
  ids : ∀ i j f g, s.engine.table.get i = some f → s.engine.table.get j = some g →
    f.sentto ≠ none → g.sentto ≠ none → f.newId = g.newId → i = j

variable {finish : Bytes → H} {s s' : Traced H}

theorem tracked_new (finish : Bytes → H) (config : ForwardConfig) (maxFd : ℕ) :
    Tracked finish ⟨ForwardEngine.new config maxFd, []⟩ := by
  have hnone : ∀ i, (ForwardEngine.new config maxFd : ForwardEngine (H × H)).table.get i = none :=
    fun i => rfl
  constructor
  · exact settled_new config maxFd
  · intro i f _ hf
    cases hf
  · intro i f hf
    cases hf
  · intro i f hf
    cases hf
  · intro i _ f _ hf
    cases hf

/-- An operation other than a reload keeps the invariant. -/
theorem Tracked.op (h : Tracked finish s) {sent : Option Sent} {k : ℕ} {joined : List FrecSrc}
    (hop : OpOk (fun _ f => ∃ pkt, hashQuestions finish pkt = some f.questionHash) joined s.engine
      e' sent k) :
    Tracked finish ⟨e', sent.toList ++ s.log⟩ := by
  have hothers : ∀ i f, i ≠ k → e'.table.get i = some f → f.sentto ≠ none →
      s.engine.table.get i = some f ∧ lastSentTo (sent.toList ++ s.log) i = lastSentTo s.log i := by
    intro i f hi hf hflight
    refine ⟨hop.others i f hi hf hflight, lastSentTo_of_ne ?_⟩
    intro s hs
    rw [hop.sent_idx s hs]
    exact Ne.symm hi
  constructor
  · exact hop.settled
  · intro i f serverIdx hf hto
    have hflight : f.sentto ≠ none := by rw [hto]; simp
    rw [show (⟨e', sent.toList ++ s.log⟩ : Traced H).engine.config
      = s.engine.config from hop.config]
    by_cases hi : i = k
    · subst hi
      have ht := hop.target f hf hflight
      cases hsent : sent with
      | some s₀ =>
        obtain ⟨j, hj, haddr⟩ := ht.sentto s₀ hsent
        obtain rfl := some.inj (hj.symm.trans hto)
        exact ⟨s₀.addr, lastSentTo_cons_self (hop.sent_idx s₀ hsent), haddr⟩
      | none =>
        rcases ht.origin with ⟨f₀, hf₀, -, -, -, hsame⟩ | ⟨hne, -⟩
        · rw [hsame hsent] at hto
          exact h.sent i f₀ serverIdx hf₀ hto
        · exact absurd hsent hne
    · obtain ⟨hf₀, hlast⟩ := hothers i f hi hf hflight
      rw [hlast]
      exact h.sent i f serverIdx hf₀ hto
  · intro i f hf hflight
    by_cases hi : i = k
    · subst hi
      exact (hop.target f hf hflight).rfds (h.rfds i)
    · exact h.rfds i f (hothers i f hi hf hflight).1 hflight
  · intro i f hf hflight
    by_cases hi : i = k
    · subst hi
      rcases (hop.target f hf hflight).origin with ⟨f₀, hf₀, hflight₀, hsame, -⟩ | ⟨-, hasked, -⟩
      · rw [hsame.questionHash]
        exact h.asked i f₀ hf₀ hflight₀
      · exact hasked
    · exact h.asked i f (hothers i f hi hf hflight).1 hflight
  · exact hop.distinctIds h.ids

theorem Tracked.refreshConfig (h : Tracked finish s) {config : ForwardConfig}
    (hkeep : KeepsUpstreams s (.refreshConfig config)) :
    Tracked finish ⟨s.engine.refreshConfig config, s.log⟩ where
  settled := h.settled.refreshConfig config
  sent i f serverIdx hf hto := by
    obtain ⟨addr, hlast, haddr⟩ := h.sent i f serverIdx hf hto
    refine ⟨addr, hlast, ?_⟩
    show config.upstreams[serverIdx]? = some addr
    rw [hkeep f (mem_of_getElem? hf) serverIdx hto]
    exact haddr
  rfds := h.rfds
  asked := h.asked
  ids := h.ids

/-! ### The property -/

variable [DecidableEq H]

/-- **Replies are matched with the address last sent to**: no other address is accepted, and from
that address every response with the query's ID and question on one of its sockets is, as long as
the query is in flight and young enough. -/
structure RepliesTracked (finish : Bytes → H) (s : Traced H) : Prop where
  only : ∀ pkt src arrivedOn now idx,
    s.engine.validateReply finish pkt src arrivedOn now = some idx → lastSentTo s.log idx = some src
  all : ∀ pkt header src arrivedOn now idx f, s.engine.table.get idx = some f → f.sentto ≠ none →
    now - f.sentAt < frecHardTimeout → DnsHeader.fromBytes pkt = some header →
    header.hb3 &&& hb3Qr ≠ 0 → header.id = f.newId →
    hashQuestions finish pkt = some f.questionHash → arrivedOn ∈ f.rfds →
    lastSentTo s.log idx = some src →
    s.engine.validateReply finish pkt src arrivedOn now = some idx

theorem Tracked.repliesTracked (h : Tracked finish s) : RepliesTracked finish s where
  only pkt src arrivedOn now idx hvalid := by
    obtain ⟨-, f, serverIdx, -, -, -, hf, -, -, hto, haddr⟩ := validateReply_eq_some.mp hvalid
    obtain ⟨addr, hlast, haddr'⟩ := h.sent idx f serverIdx hf hto
    rw [hlast, ← haddr', haddr]
  all pkt header src arrivedOn now idx f hf hflight hage hheader hqr hid hhash hrfds hlast := by
    obtain ⟨serverIdx, hto⟩ := ne_none_iff_exists'.mp hflight
    obtain ⟨addr, hlast', haddr⟩ := h.sent idx f serverIdx hf hto
    rw [hlast] at hlast'
    obtain rfl := some.inj hlast'
    refine validateReply_eq_some.mpr ⟨header, f, serverIdx, hheader, hqr, ?_, hf, hhash, hrfds, hto,
      haddr⟩
    refine lookupFrec_eq_some.mpr ⟨f, hf, hflight, hid.symm, hage, ?_⟩
    intro i g hi hg hflight' hid'
    exact absurd (h.ids i idx g f hg hf hflight' hflight (hid'.trans hid)) (Nat.ne_of_lt hi)

/-- After a reload that leaves replies tracked, the upstreams of the queries in flight are the old
ones. -/
theorem Tracked.keepsUpstreams (h : Tracked finish s) {config : ForwardConfig}
    (hprop : RepliesTracked finish ⟨s.engine.refreshConfig config, s.log⟩) :
    KeepsUpstreams s (.refreshConfig config) := by
  intro f hmem serverIdx hto
  obtain ⟨i, hf⟩ := mem_iff_getElem?.mp hmem
  have hflight : f.sentto ≠ none := by rw [hto]; simp
  obtain ⟨addr, hlast, haddr⟩ := h.sent i f serverIdx hf hto
  obtain ⟨slot, hslot⟩ := exists_mem_of_ne_nil _ (h.rfds i f hf hflight)
  -- a genuine reply to this query, from the address it was sent to
  obtain ⟨pkt, hhash⟩ := h.asked i f hf hflight
  obtain ⟨reply, header, hheader, hqr, hid, hhash'⟩ := exists_reply hhash f.newId
  have hvalid := hprop.all reply header addr slot f.sentAt i f hf hflight
    (by rw [Nat.sub_self]; decide) hheader hqr hid hhash' hslot hlast
  obtain ⟨-, f', serverIdx', -, -, -, hf', -, -, hto', haddr'⟩ := validateReply_eq_some.mp hvalid
  obtain rfl := some.inj (hf.symm.trans hf')
  obtain rfl := some.inj (hto.symm.trans hto')
  rw [haddr]
  exact haddr'

/-! ### Runs -/

variable [Inhabited H]

/-- One step of the traced engine. -/
def Traced.step (finish : Bytes → H) (s : Traced H) (ev : Event) : Option (Traced H) :=
  (s.engine.exec finish ev).map fun (engine, sent) => { engine, log := sent.toList ++ s.log }

theorem Tracked.step (h : Tracked finish s) (hkeep : KeepsUpstreams s ev)
    (hstep : s.step finish ev = some s') : Tracked finish s' := by
  obtain ⟨⟨e', sent⟩, hexec, rfl⟩ := map_eq_some_iff.mp hstep
  rcases h.settled.exec hexec with ⟨config, rfl, rfl, rfl⟩ | ⟨k, joined, hop⟩
  · exact h.refreshConfig hkeep
  · apply h.op (hop.mono _)
    rintro k f ⟨q, -, header, qhash, -, hhash, serverIdx, -, -, hnew⟩
    exact ⟨q.pkt, hnew.questionHash ▸ hhash⟩

/-- **Reloads and replies**: in every state of a run whose reloads keep the upstreams of the queries
in flight, replies are matched with the address last sent to; and a reload from such a state leaves
them so iff it keeps the upstreams. -/
theorem repliesTracked_of_reaches (finish : Bytes → H) (config : ForwardConfig) (maxFd : ℕ)
    (h : Reaches (Traced.step finish) KeepsUpstreams ⟨ForwardEngine.new config maxFd, []⟩ s) :
    RepliesTracked finish s
      ∧ ∀ config' s', s.step finish (.refreshConfig config') = some s' →
        (RepliesTracked finish s' ↔ KeepsUpstreams s (.refreshConfig config')) := by
  have htracked : Tracked finish s :=
    h.invariant (tracked_new finish config maxFd) fun _ _ _ hs hok hstep => hs.step hok hstep
  refine ⟨htracked.repliesTracked, ?_⟩
  intro config' s' hstep
  obtain rfl := some.inj hstep
  constructor
  · exact htracked.keepsUpstreams
  · intro hkeep
    exact (htracked.refreshConfig hkeep).repliesTracked

/-- The engine with one upstream, before any query. -/
def sampleStart : Traced Bytes := ⟨ForwardEngine.new { upstreams := [sampleAddr 1] } 64, []⟩

/-- A second upstream is configured. -/
def sampleReload : Event := .refreshConfig { upstreams := [sampleAddr 1, sampleAddr 2] }

/-- A query is in flight when it is, and replies to it are still tracked. -/
theorem repliesTracked_sampleQuery :
    ∃ s s', sampleStart.step id (.forwardQuery sampleQuery) = some s
      ∧ s.step id sampleReload = some s' ∧ (∃ f ∈ s'.engine.table.frecs, f.sentto = some 0)
      ∧ RepliesTracked id s' := by
  have hsome : ((sampleStart.step id (.forwardQuery sampleQuery)).any fun s =>
      (s.step id sampleReload).any fun s' =>
        decide ((∃ f ∈ s'.engine.table.frecs, f.sentto = some 0) ∧
          ∀ f ∈ s.engine.table.frecs, ∀ i ∈ f.sentto,
            [sampleAddr 1, sampleAddr 2][i]? = s.engine.config.upstreams[i]?)) := by decide +kernel
  obtain ⟨s, hstep, hsome⟩ := (any_eq_true _ _).mp hsome
  obtain ⟨s', hstep', hs⟩ := (any_eq_true _ _).mp hsome
  obtain ⟨hflight, hkeep⟩ := of_decide_eq_true hs
  have hquery : KeepsUpstreams sampleStart (.forwardQuery sampleQuery) := trivial
  have hreload : KeepsUpstreams s sampleReload := hkeep
  have hspec := repliesTracked_of_reaches id { upstreams := [sampleAddr 1] } 64
    (.tail (.tail .refl hquery hstep) hreload hstep')
  exact ⟨s, s', hstep, hstep', hflight, hspec.1⟩

/-- A reload with another upstream while the query is in flight: the reply of the server that was
asked is refused, and one of the new server, which was not asked, is accepted. -/
theorem not_repliesTracked_reload : ∃ s, Reaches (Traced.step id) (fun _ _ => True) sampleStart s
      ∧ lastSentTo s.log 0 = some (sampleAddr 1)
      ∧ s.engine.validateReply id sampleReply (sampleAddr 1) 0 0 = none
      ∧ s.engine.validateReply id sampleReply (sampleAddr 2) 0 0 = some 0
      ∧ ¬ RepliesTracked id s := by
  obtain ⟨s, hreach, hs⟩ := exists_reaches (s := sampleStart) (Traced.step id)
    [.forwardQuery sampleQuery, .refreshConfig { upstreams := [sampleAddr 2] }]
    (fun s => lastSentTo s.log 0 = some (sampleAddr 1)
      ∧ s.engine.validateReply id sampleReply (sampleAddr 1) 0 0 = none
      ∧ s.engine.validateReply id sampleReply (sampleAddr 2) 0 0 = some 0) .refl (by decide +kernel)
  obtain ⟨hlast, hrefused, haccepted⟩ := of_decide_eq_true hs
  refine ⟨s, hreach, hlast, hrefused, haccepted, ?_⟩
  intro hprop
  have hlast' := hprop.only _ _ _ _ _ haccepted
  rw [hlast] at hlast'
  exact absurd hlast' (by decide)

end DnsmasqRs.Forward.ForwardEngine
