import DnsmasqRs.LoopDetect
import DnsmasqRs.Forward.Equiv.Engine

/-!
# Sending to servers that loop

A server whose probe came back is marked, and no query should be sent to it while it is.  Three
places choose where a datagram goes: `forward_query` for a new query, the retry in `join_in_flight`,
which sends to the server of the first attempt, and the failover in `accept_reply`, which takes the
next server not tried yet.  Only the first one looks at the marks.

`sentServer_iff` says for every datagram sent in a run to which server it went, and that the server
is unmarked iff the step meets `AvoidsLoops`: the server of the attempt to be repeated, or the next
one to be tried, is unmarked.
-/

namespace DnsmasqRs.Forward.ForwardEngine

open Wire HashQuestions FrecTable Run Option

variable {H : Type} [DecidableEq H] [Inhabited H] {finish : Bytes → H}
  {e e' : ForwardEngine (H × H)}

/-- The server the query in the record at `idx` was last sent to. -/
def sentServer {D : Type} (e : ForwardEngine D) (idx : ℕ) : Option ℕ :=
  (e.table.get idx).bind (·.sentto)

/-- The condition on an operation: the server of a query that is joined, and the next one for a
query that failed, are not marked. -/
def AvoidsLoops (finish : Bytes → H) (e : ForwardEngine (H × H)) : Event → Prop
  | .forwardQuery q => ∀ idx serverIdx, joinIndex finish e q = some idx →
    e.sentServer idx = some serverIdx → e.isLooping serverIdx = false
  | .acceptReply r => ∀ idx serverIdx,
    e.validateReply finish r.pkt r.src r.arrivedOn r.now = some idx →
    e.nextUntriedServer idx = some (some serverIdx) → e.isLooping serverIdx = false
  | _ => True

section Retry

variable {D : Type} {e e' : ForwardEngine D} {idx : ℕ} {f : Frec D} {d : Sent}

theorem Settled.resend_server (h : Settled e) (hf : e.table.get idx = some f)
    (hrun : e.resend idx f.sentto net = (e', out, some d)) :
    d.idx = idx ∧ e'.sentServer idx = f.sentto := by
  unfold ForwardEngine.resend at hrun
  cases hto : f.sentto with
  | none =>
    rw [hto] at hrun
    cases hrun
  | some serverIdx =>
    rw [hto] at hrun
    dsimp only at hrun
    have hsend := h.sendUpstream hf (by rw [hto]; simp) serverIdx net
    generalize e.sendUpstream idx serverIdx net = result at hrun hsend
    obtain ⟨e₁, sent⟩ := result
    cases sent with
    | none => cases hrun
    | some d₁ =>
      obtain ⟨rfl, -, rfl⟩ : e₁ = e' ∧ _ ∧ d₁ = d := by simpa using hrun
      obtain ⟨rfds, htarget, -⟩ := hsend.target
      refine ⟨(hsend.sent d₁ rfl).1, ?_⟩
      unfold sentServer
      rw [htarget]
      exact hto

/-- A client that joins may have the query sent again, to the same server. -/
theorem Settled.joinInFlight_server [Inhabited D] (h : Settled e) (hf : e.table.get idx = some f)
    (hflight : f.sentto ≠ none)
    (hrun : e.joinInFlight idx now origId client listener net = (e', out, some d)) :
    d.idx = idx ∧ e'.sentServer idx = f.sentto := by
  rw [joinInFlight_eq hf] at hrun
  by_cases hknown : isKnown f origId client
  · rw [if_pos hknown] at hrun
    exact h.resend_server hf hrun
  · rw [if_neg hknown] at hrun
    by_cases hfull : e.table.maxPerGroup ≤ e.table.frecSrcCount
    · rw [if_pos hfull] at hrun
      cases hrun
    · rw [if_neg hfull] at hrun
      split at hrun
      · cases hrun
      · -- the client is added first
        have hadd := Settled.addClient (fun _ _ => False) h hf hflight (Nat.lt_of_not_le hfull)
          (joinSrc origId client listener)
        exact hadd.settled.resend_server
          (f := { f with extraSrcs := f.extraSrcs ++ [joinSrc origId client listener] })
          (get_addClient hf _) hrun

end Retry

variable {d : Sent}

/-- **Where a datagram goes**: to an unmarked server iff the operation meets the condition. -/
theorem Settled.sentServer_of_exec (h : Settled e) (hexec : e.exec finish ev = some (e', some d)) :
    ∃ serverIdx, e'.sentServer d.idx = some serverIdx ∧ (e.isLooping serverIdx = false
      ↔ AvoidsLoops finish e ev) := by
  cases ev with
  | forwardQuery q =>
    obtain ⟨⟨e₁, out, sent⟩, hrun, heq⟩ := map_eq_some_iff.mp hexec
    obtain ⟨rfl, rfl⟩ := Prod.mk.inj heq
    rcases ForwardEngine.forwardQuery_cases hrun with ⟨-, -, hnone⟩
      | ⟨header, hheader, ⟨idx, hidx, hjoin⟩
      | ⟨qhash, hidx, hhash, hnew⟩⟩
    · cases hnone
    · obtain ⟨f, hf, hflight⟩ := inFlight_of_joinIndex hidx
      obtain ⟨serverIdx, hto⟩ := ne_none_iff_exists'.mp hflight
      obtain ⟨hd, hserver⟩ := h.joinInFlight_server hf hflight hjoin
      subst hd
      have hbefore : e.sentServer d.idx = some serverIdx := by
        unfold sentServer
        rw [hf]
        exact hto
      refine ⟨serverIdx, hserver.trans hto, ?_⟩
      constructor
      · intro hclear idx' serverIdx' hidx' hserver'
        obtain rfl := some.inj (hidx.symm.trans hidx')
        obtain rfl := some.inj (hbefore.symm.trans hserver')
        exact hclear
      · intro havoids
        exact havoids d.idx serverIdx hidx hbefore
    · -- a new query: the selection has looked at the marks
      obtain ⟨k, hop, hend⟩ := h.forwardNew_fresh hheader hhash hnew
      rcases hend with ⟨hnone, -⟩
        | ⟨-, -, ⟨f, hf, header', qhash', -, -, serverIdx, hclear, -, hrecord⟩, -⟩
      · cases hnone
      · obtain rfl := hop.sent_idx d rfl
        refine ⟨serverIdx, ?_, iff_of_true hclear ?_⟩
        · unfold sentServer
          rw [hf]
          exact hrecord.sentto
        · intro idx' _ hidx'
          rw [hidx] at hidx'
          cases hidx'
  | acceptReply r =>
    obtain ⟨⟨e₁, action, sent⟩, hrun, heq⟩ := map_eq_some_iff.mp hexec
    obtain ⟨rfl, rfl⟩ := Prod.mk.inj heq
    obtain ⟨hvalid, serverIdx, f, hnext, hf, hto⟩ := (h.acceptReply hrun).retries d rfl
    refine ⟨serverIdx, ?_, ?_, ?_⟩
    · rw [sentServer, hf]
      exact hto
    · intro hclear idx' serverIdx' hvalid' hnext'
      obtain rfl := some.inj (hvalid.symm.trans hvalid')
      obtain rfl := some.inj (some.inj (hnext.symm.trans hnext'))
      exact hclear
    · intro havoids
      exact havoids d.idx serverIdx hvalid hnext
  | expireQueries | refreshConfig => cases hexec

theorem Settled.loopStep (h : Settled e) (hstep : LoopDetect.step finish e ev = some e') :
    Settled e' := by
  cases ev with
  | engine ev => exact h.step hstep
  | detectLoop | sendProbes =>
    obtain rfl := some.inj hstep
    exact ⟨⟨h.table, h.pool⟩, h.released⟩

/-- **Loop detection**: along every run of the engine with servers being marked and cleared, a
datagram goes to a server that is unmarked at that moment iff its operation meets the condition. -/
theorem sentServer_iff (finish : Bytes → H) (config : ForwardConfig) (maxFd : ℕ)
    (h : Reaches (LoopDetect.step finish) (fun _ _ => True) (ForwardEngine.new config maxFd) e)
    {ev : Event} (hexec : e.exec finish ev = some (e', some d)) :
    ∃ serverIdx, e'.sentServer d.idx = some serverIdx
      ∧ e.config.upstreams[serverIdx]? = some d.addr ∧ (e.isLooping serverIdx = false
        ↔ AvoidsLoops finish e ev) := by
  have hsettled : Settled e :=
    h.invariant (settled_new config maxFd) fun _ _ _ hs _ hstep => hs.loopStep hstep
  obtain ⟨serverIdx, hserver, hiff⟩ := hsettled.sentServer_of_exec hexec
  refine ⟨serverIdx, hserver, ?_, hiff⟩
  -- the address is that of the server on record
  obtain ⟨f, hf, hto⟩ := bind_eq_some_iff.mp hserver
  rcases hsettled.exec hexec with ⟨-, -, -, hnone⟩ | ⟨k, joined, hop⟩
  · cases hnone
  · obtain rfl := hop.sent_idx d rfl
    obtain ⟨serverIdx', hto', haddr⟩ := (hop.target f hf (by rw [hto]; simp)).sentto d rfl
    obtain rfl := some.inj (hto.symm.trans hto')
    exact haddr

/-- An engine with one upstream, whose probes carry the uid 1. -/
def sampleLoopConfig : ForwardConfig where
  upstreams := [sampleAddr 1]
  loopServers := [{ flags := 0, domain := [], addr := (sampleAddr 1).ip, uid := 1 }]

/-- A new query is sent to the one server, which is unmarked. -/
theorem sentServer_iff_sampleQuery :
    ∃ e' d serverIdx, (ForwardEngine.new sampleLoopConfig 64).exec id (.forwardQuery sampleQuery)
      = some (e', some d)
      ∧ e'.sentServer d.idx = some serverIdx
      ∧ (ForwardEngine.new sampleLoopConfig 64 : ForwardEngine (Bytes × Bytes)).isLooping serverIdx
        = false := by
  have hsome : (((ForwardEngine.new sampleLoopConfig 64).exec id (.forwardQuery sampleQuery)).any
      fun (_, sent) => sent.isSome) := by decide +kernel
  obtain ⟨⟨e', sent⟩, hexec, hsent⟩ := (any_eq_true _ _).mp hsome
  obtain ⟨d, rfl⟩ := isSome_iff_exists.mp hsent
  obtain ⟨serverIdx, hserver, -, hiff⟩ := sentServer_iff id sampleLoopConfig 64 .refl hexec
  refine ⟨e', d, serverIdx, hexec, hserver, hiff.mpr ?_⟩
  intro idx _ hidx
  have hnone : joinIndex id (ForwardEngine.new sampleLoopConfig 64) sampleQuery = none := by
    decide +kernel
  rw [hnone] at hidx
  cases hidx

/-- A query is sent, the server's probe comes back, and the client asks again: the query goes to the
marked server. -/
theorem not_clear_retry :
    ∃ e e' d,
      Reaches (LoopDetect.step id) (fun _ _ => True) (ForwardEngine.new sampleLoopConfig 64) e
      ∧ e.exec id (.forwardQuery sampleQuery) = some (e', some d)
      ∧ e'.sentServer d.idx = some 0 ∧ d.addr = sampleAddr 1 ∧ e.isLooping 0 = true := by
  obtain ⟨e, hreach, hsome⟩ := exists_reaches (LoopDetect.step id)
    [.engine (.forwardQuery sampleQuery), .detectLoop "00000001.test".toList 16]
    (fun e => (e.exec id (.forwardQuery sampleQuery)).any fun (e', sent) =>
      sent.any fun d => e'.sentServer d.idx = some 0 ∧ d.addr = sampleAddr 1 ∧ e.isLooping 0)
    (s := ForwardEngine.new sampleLoopConfig 64) .refl (by decide +kernel)
  obtain ⟨⟨e', sent⟩, hexec, hsome⟩ := (any_eq_true _ _).mp hsome
  obtain ⟨d, rfl, hd⟩ := (any_eq_true _ _).mp hsome
  obtain ⟨hserver, haddr, hloop⟩ := of_decide_eq_true hd
  exact ⟨e, e', d, hreach, hexec, hserver, haddr, hloop⟩

end DnsmasqRs.Forward.ForwardEngine
