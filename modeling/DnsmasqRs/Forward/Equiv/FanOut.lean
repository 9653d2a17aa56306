import DnsmasqRs.Forward.Equiv.Engine
import DnsmasqRs.Lib.FirstBy

/-!
# The clients a reply is delivered to

Several clients may wait on one query: the one whose call allocated the record and those whose calls
joined it.  `Logged` is the engine with, for each slot, the calls that were taken for the query in
it, so that one can say who should get the reply (`FanOut`): each client once, in the context of its
first call.

The record keeps the clients in the order of their first calls (`Recorded`), but not all of the
context: `join_in_flight` drops the address the query was sent to, and the listener is stored as an
`i32`.  The reply goes out as it should iff nothing of that matters (`KeepsContext`).
-/

namespace DnsmasqRs.Forward.ForwardEngine

open Wire DnsProtocol HashQuestions FrecTable FirstBy Run List Option

/-! ### Calls -/

/-- A call of `forward_query`, as far as the reply to it is concerned. -/
structure Call where
  client : SocketAddr
  origId : UInt16
  listener : ℕ
  dest : Option IpAddr
  deriving DecidableEq

/-- The client's address and the ID of its query. -/
def Call.key (c : Call) : SocketAddr × UInt16 := (c.client, c.origId)

@[inherit_doc Call.key]
def ReplyTarget.key (t : ReplyTarget) : SocketAddr × UInt16 := (t.client, t.origId)

/-- Where the reply to a call should go. -/
def Call.target (c : Call) : ReplyTarget :=
  { client := c.client, listener := c.listener, origId := c.origId, dest := c.dest }

/-- The call with the arguments of `q`. -/
def Query.call (q : Query) (origId : UInt16) : Call :=
  { client := q.client, origId, listener := q.listener, dest := q.dest }

/-- **The fan-out is exact**: for each client one target, with the context of its first call, and no
others. -/
structure FanOut (calls : List Call) (targets : List ReplyTarget) : Prop where
  each : ∀ c ∈ calls, ∃ first, calls.find? (fun d => d.key = c.key) = some first
    ∧ targets.filter (fun t => t.key = c.key) = [first.target]
  only : ∀ t ∈ targets, ∃ c ∈ calls, c.key = t.key

/-- The context of the first calls survives: their listeners are within `i32`, and those that joined
had no address they were sent to. -/
def KeepsContext (calls : List Call) : Prop :=
  (∀ c ∈ firsts Call.key calls, c.listener < 2 ^ 31)
    ∧ ∀ c ∈ (firsts Call.key calls).tail, c.dest = none

/-! ### What is delivered -/

/-- The client of a call as a record keeps it. -/
def Call.src (c : Call) (dest : Option IpAddr) : FrecSrc :=
  { source := some c.client, dest, origId := c.origId, fd := asI32 c.listener }

/-- The clients of a record, given the first calls: the first came with the record, the others
joined. -/
def recorded : List Call → List FrecSrc
  | [] => []
  | c :: cs => c.src c.dest :: cs.map (·.src none)

theorem map_recorded (cs : List Call) :
    (recorded cs).map (fun s => (s.source, s.origId)) = cs.map fun c =>
    (some c.client, c.origId) := by
  cases cs with
  | nil => rfl
  | cons c cs =>
    simp only [recorded, List.map_cons, List.map_map]
    rfl

theorem recorded_concat (hne : cs ≠ []) (c : Call) :
    recorded (cs ++ [c]) = recorded cs ++ [c.src none] := by
  cases cs with
  | nil => exact absurd rfl hne
  | cons d cs => simp [recorded]

/-- The target a client gets. -/
def Call.delivered (c : Call) (dest : Option IpAddr) : ReplyTarget :=
  { client := c.client, listener := (asI32 c.listener).toNat, origId := c.origId, dest }

/-- The targets a record gives. -/
def delivered : List Call → List ReplyTarget
  | [] => []
  | c :: cs => c.delivered c.dest :: cs.map (·.delivered none)

theorem replyTargets_eq (h : f.srcs = recorded cs) : replyTargets f = delivered cs := by
  unfold replyTargets
  rw [h]
  cases cs with
  | nil => rfl
  | cons c cs =>
    simp only [recorded, delivered, filterMap_cons, Call.src, Call.delivered, map_some,
      filterMap_map, Function.comp_def, filterMap_eq_map']

theorem map_key_delivered (cs : List Call) :
    (delivered cs).map ReplyTarget.key = cs.map Call.key := by
  cases cs with
  | nil => rfl
  | cons c cs =>
    simp only [delivered, List.map_cons, List.map_map]
    rfl

theorem toNat_asI32_eq_iff : (asI32 n).toNat = n ↔ n < 2 ^ 31 := by
  unfold asI32
  rw [Int.bmod_def]
  constructor
  · intro h
    split_ifs at h <;> omega
  · intro h
    omega

theorem delivered_eq_target_iff (c : Call) (dest : Option IpAddr) :
    c.delivered dest = c.target ↔ c.listener < 2 ^ 31 ∧ c.dest = dest := by
  unfold Call.delivered Call.target
  rw [ReplyTarget.mk.injEq, toNat_asI32_eq_iff]
  constructor
  · rintro ⟨-, hl, -, hd⟩
    exact ⟨hl, hd.symm⟩
  · rintro ⟨hl, hd⟩
    exact ⟨rfl, hl, rfl, hd.symm⟩

/-- The targets are the right ones iff the context survives. -/
theorem delivered_eq_map_iff (cs : List Call) : delivered cs = cs.map Call.target
      ↔ (∀ c ∈ cs, c.listener < 2 ^ 31) ∧ ∀ c ∈ cs.tail, c.dest = none := by
  cases cs with
  | nil => simp [delivered]
  | cons c cs =>
    simp only [delivered, map_cons, List.cons.injEq, delivered_eq_target_iff, map_inj_left,
      forall_mem_cons, tail_cons, and_true]
    constructor
    · rintro ⟨hc, hcs⟩
      exact ⟨⟨hc, fun d hd => (hcs d hd).1⟩, fun d hd => (hcs d hd).2⟩
    · rintro ⟨⟨hc, hcs⟩, hdest⟩
      exact ⟨hc, fun d hd => ⟨hcs d hd, hdest d hd⟩⟩

/-- **What a record delivers is exact iff the context survives.** -/
theorem fanOut_delivered_iff (calls : List Call) :
    FanOut calls (delivered (firsts Call.key calls)) ↔ KeepsContext calls := by
  have hkeys := map_key_delivered (firsts Call.key calls)
  have htarget : ∀ c : Call, c.target.key = c.key := fun _ => rfl
  have heach := forall_filter_eq_iff htarget hkeys
  unfold KeepsContext
  rw [← delivered_eq_map_iff, ← heach]
  constructor
  · exact fun h => h.each
  · intro h
    refine ⟨h, ?_⟩
    intro t ht
    have hmem : t.key ∈ (firsts Call.key calls).map Call.key := by
      rw [← hkeys]
      exact mem_map_of_mem ht
    rw [mem_map_firsts] at hmem
    exact mem_map.mp hmem

/-! ### Runs -/

variable {H : Type}

/-- The engine with the calls taken for the query in each slot, oldest first. -/
structure Logged (H : Type) where
  engine : ForwardEngine (H × H)
  calls : ℕ → List Call

/-- Each query in flight keeps the clients of its first calls. -/
structure Recorded (s : Logged H) : Prop where
  settled : Settled s.engine
  srcs : ∀ i f, s.engine.table.get i = some f → f.sentto ≠ none →
    s.calls i ≠ [] ∧ f.srcs = recorded (firsts Call.key (s.calls i))

theorem recorded_new (config : ForwardConfig) (maxFd : ℕ) :
    Recorded (⟨ForwardEngine.new config maxFd, fun _ => []⟩ : Logged H) where
  settled := settled_new config maxFd
  srcs _ _ hf := absurd hf get_new_ne

theorem isKnown_iff (h : f.srcs = recorded (firsts Call.key calls)) (c : Call) :
    isKnown f c.origId c.client ↔ c.key ∈ (firsts Call.key calls).map Call.key := by
  have hmap := map_recorded (firsts Call.key calls)
  have hmem : isKnown f c.origId c.client
    ↔ (some c.client, c.origId) ∈ f.srcs.map fun s => (s.source, s.origId) := by
    unfold isKnown
    simp only [List.any_eq_true, Bool.and_eq_true, beq_iff_eq, List.mem_map, Prod.mk.injEq]
    exact exists_congr fun s => and_congr_right fun _ => and_comm
  rw [hmem, h, hmap]
  simp [Call.key, List.mem_map]

theorem firsts_ne_nil (h : calls ≠ []) : firsts Call.key calls ≠ [] := by
  intro hnil
  obtain ⟨c, hc⟩ := exists_mem_of_ne_nil calls h
  have hmem := (mem_map_firsts Call.key).mpr (mem_map_of_mem hc)
  rw [hnil] at hmem
  cases hmem

variable {s : Logged H} {e' : ForwardEngine (H × H)} {sent : Option Sent} {k : ℕ}

/-- An operation that neither adds a client nor sends a new query. -/
theorem Recorded.op (h : Recorded s) (hop : OpOk (fun _ _ => False) [] s.engine e' sent k) :
    Recorded ⟨e', s.calls⟩ where
  settled := hop.settled
  srcs i f hf hflight := by
    by_cases hi : i = k
    · subst hi
      rcases (hop.target f hf hflight).origin with ⟨f₀, hf₀, hflight₀, -, hsrcs, -⟩ | ⟨-, hfalse, -⟩
      · rw [hsrcs, append_nil]
        exact h.srcs i f₀ hf₀ hflight₀
      · exact hfalse.elim
    · exact h.srcs i f (hop.others i f hi hf hflight) hflight

/-- What the record at `k` holds after an operation is what the calls logged for it say. -/
theorem Recorded.update {joined : List FrecSrc} (h : Recorded s)
    (hop : OpOk fresh joined s.engine e' sent k) {calls : List Call}
    (hk : ∀ f, e'.table.get k = some f → f.sentto ≠ none →
      calls ≠ [] ∧ f.srcs = recorded (firsts Call.key calls)) :
    Recorded ⟨e', Function.update s.calls k calls⟩ where
  settled := hop.settled
  srcs i f hf hflight := by
    dsimp only
    by_cases hi : i = k
    · subst hi
      rw [Function.update_self]
      exact hk f hf hflight
    · rw [Function.update_of_ne hi]
      exact h.srcs i f (hop.others i f hi hf hflight) hflight

theorem accepted_resend (e : ForwardEngine (H × H)) (idx : ℕ) (sentto : Option ℕ) (net : Net) :
    (e.resend idx sentto net).2.1.accepted := by
  unfold ForwardEngine.resend
  cases sentto with
  | none => rfl
  | some serverIdx =>
    dsimp only
    split <;> rfl

variable [Inhabited H]

/-- A call that joins is taken iff the client is known or the budget allows one more. -/
theorem accepted_joinInFlight {e : ForwardEngine (H × H)} {idx : ℕ} {f : Frec (H × H)}
    (hf : e.table.get idx = some f) (now : Instant) (origId : UInt16) (client : SocketAddr)
    (listener : ℕ) (net : Net) :
    (e.joinInFlight idx now origId client listener net).2.1.accepted
      ↔ isKnown f origId client ∨ ¬ e.table.maxPerGroup ≤ e.table.frecSrcCount := by
  rw [joinInFlight_eq hf]
  by_cases hknown : isKnown f origId client
  · simp [hknown, accepted_resend]
  · rw [if_neg hknown]
    by_cases hfull : e.table.maxPerGroup ≤ e.table.frecSrcCount
    · simp [hknown, hfull, ForwardOutcome.accepted]
    · rw [if_neg hfull]
      split
      · simp [hfull, ForwardOutcome.accepted]
      · simp [hfull, accepted_resend]

variable [DecidableEq H] (finish : Bytes → H)

/-- The call of `q`; a packet without a header is never taken. -/
def callOf (q : Query) : Call := q.call (((DnsHeader.fromBytes q.pkt).map (·.id)).getD 0)

/-- The log after a call that was taken: it joined a query, or a new one was sent. -/
def Logged.record (s : Logged H) (q : Query) (sent : Option Sent) : ℕ → List Call :=
  match joinIndex finish s.engine q, sent with
  | some idx, _ => Function.update s.calls idx (s.calls idx ++ [callOf q])
  | none, some sent => Function.update s.calls sent.idx [callOf q]
  | none, none => s.calls

/-- One step of the logged engine. -/
def Logged.step (s : Logged H) : Event → Option (Logged H)
  | .forwardQuery q => (s.engine.forwardQuery finish q).map fun (engine, out, sent) =>
    { engine, calls := if out.accepted then s.record finish q sent else s.calls }
  | ev => (s.engine.step finish ev).map fun engine => { engine, calls := s.calls }

variable {finish}

theorem Recorded.join (h : Recorded s) {idx : ℕ} {header : DnsHeader}
    (hidx : joinIndex finish s.engine q = some idx) {out : ForwardOutcome}
    (hheader : DnsHeader.fromBytes q.pkt = some header)
    (hjoin : s.engine.joinInFlight idx q.now header.id q.client q.listener q.net
      = (e', out, sent)) :
    Recorded ⟨e', if out.accepted then s.record finish q sent else s.calls⟩ := by
  obtain ⟨f₀, hf₀, hflight₀⟩ := inFlight_of_joinIndex hidx
  obtain ⟨hne, hsrcs⟩ := h.srcs idx f₀ hf₀ hflight₀
  have hcall : callOf q = q.call header.id := by
    unfold callOf
    rw [hheader]
    rfl
  have hknown := isKnown_iff hsrcs (callOf q)
  rw [hcall] at hknown
  have hop :=
    Settled.joinInFlight (fun _ _ => False) h.settled hf₀ hflight₀ q.now header.id q.client
      q.listener q.net
  have haccepted := accepted_joinInFlight hf₀ q.now header.id q.client q.listener q.net
  rw [hjoin] at hop haccepted
  have hrecord :
      s.record finish q sent = Function.update s.calls idx (s.calls idx ++ [q.call header.id]) := by
    unfold Logged.record
    rw [hidx, hcall]
  by_cases hout : out.accepted
  · rw [if_pos hout, hrecord]
    refine h.update hop ?_
    intro f hf hflight
    refine ⟨by simp, ?_⟩
    rcases (hop.target f hf hflight).origin with ⟨f₁, hf₁, -, -, hjoined, -⟩ | ⟨-, hfalse, -⟩
    · obtain rfl := some.inj (hf₀.symm.trans hf₁)
      rw [hjoined, hsrcs, firsts_concat]
      by_cases hk : isKnown f₀ header.id q.client
      · rw [if_pos (Or.inl hk), if_pos (hknown.mp hk), append_nil]
      · -- the client is new, and there was room for it
        have hroom := (haccepted.mp hout).resolve_left hk
        rw [if_neg (not_or.mpr ⟨hk, hroom⟩), if_neg (fun hmem => hk (hknown.mpr hmem)),
          recorded_concat (firsts_ne_nil hne)]
        rfl
    · exact hfalse.elim
  · rw [if_neg hout]
    rw [haccepted, not_or, not_not] at hout
    rw [if_pos (Or.inr hout.2)] at hop
    exact h.op hop

omit [DecidableEq H] in
theorem srcs_of_fresh (h : Fresh finish e q k f) :
    f.srcs = recorded (firsts Call.key [callOf q]) := by
  obtain ⟨header, qhash, hheader, -, serverIdx, -, -, hnew⟩ := h
  rw [hnew.srcs]
  unfold callOf
  rw [hheader]
  rfl

/-- A call for a question that is not in flight. -/
theorem Recorded.new (h : Recorded s) (hidx : joinIndex finish s.engine q = none)
    (hheader : DnsHeader.fromBytes q.pkt = some header)
    (hhash : hashQuestions finish q.pkt = some qhash)
    (hrun : s.engine.forwardNew q qhash header.id (fwdFlagsFromQuery q.pkt)
      = some (e', out, sent)) :
    Recorded ⟨e', if out.accepted then s.record finish q sent else s.calls⟩ := by
  obtain ⟨k, hop, hnew⟩ := h.settled.forwardNew_fresh hheader hhash hrun
  rcases hnew with ⟨rfl, hout⟩ | ⟨hsent, hout, ⟨f₀, hf₀, hfresh⟩, -⟩
  · rw [if_neg (by rw [hout]; simp)]
    -- nothing was sent, so there is no new record
    refine ⟨hop.settled, ?_⟩
    intro i f hf hflight
    by_cases hi : i = k
    · subst hi
      rcases (hop.target f hf hflight).origin with ⟨f₀, hf₀, hflight₀, -, hsrcs, -⟩ | ⟨hsent, -⟩
      · rw [hsrcs, append_nil]
        exact h.srcs i f₀ hf₀ hflight₀
      · exact absurd rfl hsent
    · exact h.srcs i f (hop.others i f hi hf hflight) hflight
  · obtain ⟨d, rfl⟩ := ne_none_iff_exists'.mp hsent
    have hrecord : s.record finish q (some d) = Function.update s.calls k [callOf q] := by
      unfold Logged.record
      rw [hidx]
      show Function.update s.calls d.idx [callOf q] = _
      rw [hop.sent_idx d rfl]
    rw [if_pos hout, hrecord]
    refine h.update hop ?_
    intro f hf _
    obtain rfl := some.inj (hf₀.symm.trans hf)
    exact ⟨by simp, srcs_of_fresh hfresh⟩

/-- **One step** keeps the clients on record. -/
theorem Recorded.step (h : Recorded s) (hstep : s.step finish ev = some s') : Recorded s' := by
  cases ev with
  | forwardQuery q =>
    obtain ⟨⟨e', out, sent⟩, hrun, rfl⟩ := map_eq_some_iff.mp hstep
    rcases forwardQuery_cases hrun with ⟨rfl, hout, -⟩ | ⟨header, hheader, ⟨idx, hidx, hjoin⟩
      | ⟨qhash, hidx, hhash, hnew⟩⟩
    · dsimp only
      rw [if_neg (by rw [hout]; simp)]
      exact h
    · exact h.join hidx hheader hjoin
    · exact h.new hidx hheader hhash hnew
  | acceptReply r =>
    obtain ⟨e', hrun, rfl⟩ := map_eq_some_iff.mp hstep
    obtain ⟨⟨e₁, sent⟩, hexec, rfl⟩ := map_eq_some_iff.mp hrun
    obtain ⟨⟨e₂, action, sent₂⟩, hreply, heq⟩ := map_eq_some_iff.mp hexec
    obtain ⟨rfl, rfl⟩ := Prod.mk.inj heq
    obtain ⟨k, hop⟩ := (h.settled.acceptReply hreply).op
    exact h.op (hop _)
  | expireQueries now =>
    obtain rfl := some.inj hstep
    exact h.op (h.settled.expireQueries now)
  | refreshConfig config =>
    obtain rfl := some.inj hstep
    exact ⟨h.settled.refreshConfig config, h.srcs⟩

/-- **Fan-out**: in every state a run can reach, a reply that is delivered goes to exactly the
clients whose calls were taken for its query, each in the context of its first call, iff the
listeners of the first calls are within `i32` and those that joined had no address they were sent
to. -/
theorem fanOut_iff (finish : Bytes → H) (config : ForwardConfig) (maxFd : ℕ)
    (h : Reaches (Logged.step finish) (fun _ _ => True) ⟨ForwardEngine.new config maxFd, fun _ =>
      []⟩ s)
    {r : Reply} {targets : List ReplyTarget} {flags : UInt32}
    (hreply : s.engine.acceptReply finish r = some (e', .deliver targets flags, sent)) :
    ∃ idx, s.engine.validateReply finish r.pkt r.src r.arrivedOn r.now = some idx
      ∧ (FanOut (s.calls idx) targets ↔ KeepsContext (s.calls idx)) := by
  have hrecorded : Recorded s :=
    h.invariant (recorded_new config maxFd) fun _ _ _ hs _ hstep => hs.step hstep
  obtain ⟨idx, f, hvalid, hf, rfl⟩ :=
    (hrecorded.settled.acceptReply hreply).delivers targets flags rfl
  obtain ⟨f', hf', hflight⟩ := inFlight_of_validateReply hvalid
  obtain rfl := some.inj (hf.symm.trans hf')
  refine ⟨idx, hvalid, ?_⟩
  rw [replyTargets_eq (hrecorded.srcs idx f hf hflight).2]
  exact fanOut_delivered_iff (s.calls idx)

/-- The logged engine with one upstream, before any query. -/
def sampleLog : Logged Bytes := ⟨ForwardEngine.new { upstreams := [sampleAddr 1] } 64, fun _ => []⟩

/-- The same question from another client. -/
def sampleSecond : Query := { sampleQuery with client := sampleAddr 98 }

/-- The same question from another client, which sent it to an address of its own. -/
def sampleJoin : Query := { sampleSecond with dest := some (sampleAddr 2).ip }

/-- The upstream's answer. -/
def sampleAnswer : Reply where
  pkt := sampleReply
  src := sampleAddr 1
  arrivedOn := 0
  now := 0
  net := { bind := none, sendOk := true }

/-- Two clients wait, and the reply goes to both as it should. -/
theorem fanOut_iff_sampleQuery : ∃ s e' targets flags sent,
    Reaches (Logged.step id) (fun _ _ => True) sampleLog s
      ∧ s.engine.acceptReply id sampleAnswer = some (e', .deliver targets flags, sent)
      ∧ s.calls 0 = [callOf sampleQuery, callOf sampleSecond] ∧ FanOut (s.calls 0) targets := by
  obtain ⟨s, hreach, hsome⟩ := exists_reaches (s := sampleLog) (Logged.step id)
    [.forwardQuery sampleQuery, .forwardQuery sampleSecond]
    (fun s => (s.engine.acceptReply id sampleAnswer).any fun (_, action, _) =>
      action = .deliver [(callOf sampleQuery).target, (callOf sampleSecond).target] 0
        ∧ s.calls 0 = [callOf sampleQuery, callOf sampleSecond]
        ∧ s.engine.validateReply id sampleAnswer.pkt sampleAnswer.src 0 0 = some 0) .refl
    (by decide +kernel)
  obtain ⟨⟨e', action, sent⟩, hreply, hs⟩ := (any_eq_true _ _).mp hsome
  obtain ⟨rfl, hcalls, hvalid⟩ := of_decide_eq_true hs
  obtain ⟨idx, hidx, hiff⟩ := fanOut_iff id { upstreams := [sampleAddr 1] } 64 hreach hreply
  obtain rfl := some.inj (hvalid.symm.trans hidx)
  refine ⟨s, e', _, _, sent, hreach, hreply, hcalls, hiff.mpr ?_⟩
  rw [hcalls]
  unfold KeepsContext
  decide

/-- A second client joins: its reply lacks the address the client sent its query to. -/
theorem not_fanOut_join :
    ∃ s e' targets flags sent, Reaches (Logged.step id) (fun _ _ => True) sampleLog s
      ∧ s.engine.acceptReply id sampleAnswer = some (e', .deliver targets flags, sent)
      ∧ s.engine.validateReply id sampleAnswer.pkt sampleAnswer.src sampleAnswer.arrivedOn
        sampleAnswer.now = some 0
      ∧ s.calls 0 = [callOf sampleQuery, callOf sampleJoin] ∧ ¬ FanOut (s.calls 0) targets := by
  obtain ⟨s, hreach, hsome⟩ := exists_reaches (s := sampleLog) (Logged.step id)
    [.forwardQuery sampleQuery, .forwardQuery sampleJoin]
    (fun s => (s.engine.acceptReply id sampleAnswer).any fun (_, action, _) =>
      action
        = .deliver [(callOf sampleQuery).target, { (callOf sampleJoin).target with dest := none }] 0
        ∧ s.calls 0 = [callOf sampleQuery, callOf sampleJoin]
        ∧ s.engine.validateReply id sampleAnswer.pkt sampleAnswer.src 0 0 = some 0) .refl
          (by decide +kernel)
  obtain ⟨⟨e', action, sent⟩, hreply, hs⟩ := (any_eq_true _ _).mp hsome
  obtain ⟨rfl, hcalls, hvalid⟩ := of_decide_eq_true hs
  refine ⟨s, e', _, _, sent, hreach, hreply, hvalid, hcalls, ?_⟩
  rw [hcalls]
  intro hfan
  obtain ⟨first, hfirst, htarget⟩ := hfan.each (callOf sampleJoin) (by simp)
  obtain rfl := some.inj hfirst
  exact absurd htarget (by decide +kernel)

end DnsmasqRs.Forward.ForwardEngine
