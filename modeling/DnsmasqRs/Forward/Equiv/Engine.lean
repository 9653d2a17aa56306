import DnsmasqRs.Forward.Engine
import DnsmasqRs.Forward.Equiv.Pool
import DnsmasqRs.Forward.Equiv.Table
import DnsmasqRs.Lib.Run

/-!
# The engine's sockets are counted

In every state a run of the engine can reach, a pool slot is open exactly while some query in flight
holds it, with the number of those queries as its reference count
(`socketsCounted_of_reaches`).

The invariant behind it is `Consistent`: the records are in order and the pool is balanced with all
slots the table holds, those parked in `releasedRfds` included.  Every piece of an operation keeps
it (freeing and evicting only move slots around, `releaseRfds` gives the parked ones back,
`sendUpstream` takes one for a query in flight), and every operation ends with nothing parked.
-/

namespace DnsmasqRs.Forward.ForwardEngine

open Wire DnsProtocol HashQuestions FrecTable RandFdPool Run List Option

variable {D : Type} {e : ForwardEngine D} {idx : ℕ}

/-! ### Consistency -/

/-- The records are in order and the pool counts what the table holds. -/
structure Consistent (e : ForwardEngine D) : Prop where
  table : TableOk e.table
  pool : PoolOk e.rfdPool e.table.held

/-- Consistent, with nothing left to release. -/
structure Settled (e : ForwardEngine D) : Prop extends Consistent e where
  released : e.table.releasedRfds = []

theorem Consistent.withTable (h : Consistent e) (hok : TableOk t)
    (hperm : e.table.held.Perm t.held) : Consistent { e with table := t } :=
  ⟨hok, h.pool.perm hperm⟩

variable {g : Frec D → Frec D}

theorem Consistent.modify (h : Consistent e)
    (hrfds : ∀ f, (g f).rfds = f.rfds) (hsrcs : ∀ f, (g f).extraSrcs = f.extraSrcs)
    (hok : ∀ f, e.table.get idx = some f → FrecOk (g f)) :
    Consistent { e with table := e.table.modify idx g } :=
  h.withTable (h.table.modify hok hsrcs) (held_modify_of_eq hrfds).symm

theorem Consistent.releaseRfds (h : Consistent e) : Settled e.releaseRfds := by
  refine ⟨⟨⟨h.table.records, h.table.count, h.table.bound⟩, ?_⟩, rfl⟩
  unfold ForwardEngine.releaseRfds
  have hpool := h.pool
  unfold held at hpool ⊢
  rw [append_nil]
  split_ifs with hnil
  · rwa [hnil, append_nil] at hpool
  · exact (hpool.perm perm_append_comm).freeRfds

theorem Settled.refreshConfig (h : Settled e) (config : ForwardConfig) :
    Settled (e.refreshConfig config) :=
  ⟨⟨h.table, h.pool⟩, h.released⟩

theorem settled_new (config : ForwardConfig) (maxFd : ℕ) :
    Settled (ForwardEngine.new config maxFd : ForwardEngine D) :=
  ⟨⟨⟨by simp [ForwardEngine.new, FrecTable.new], rfl, Nat.zero_le _⟩, poolOk_new _ _⟩, rfl⟩

theorem get_new_ne : (ForwardEngine.new cfg maxFd : ForwardEngine D).table.get i ≠ some f := by
  simp [ForwardEngine.new, FrecTable.new, FrecTable.get]

/-! ### Sending -/

/-- What `send_upstream` does to the record `f` at `idx`: it gives it a list of slots, and reports
the address it used if the datagram went out. -/
structure SendOk (e : ForwardEngine D) (idx : ℕ) (f : Frec D) (serverIdx : ℕ)
    (result : ForwardEngine D × Option Sent) : Prop where
  settled : Settled result.1
  config : result.1.config = e.config
  size : result.1.table.maxPerGroup = e.table.maxPerGroup
  others : ∀ i, i ≠ idx → result.1.table.get i = e.table.get i
  target : ∃ rfds, result.1.table.get idx = some { f with rfds }
    ∧ (f.rfds ≠ [] ∨ result.2 ≠ none → rfds ≠ [])
  sent : ∀ s, result.2 = some s → s.idx = idx ∧ e.config.upstreams[serverIdx]? = some s.addr

variable {f : Frec D}

theorem SendOk.unchanged (h : Settled e) (hf : e.table.get idx = some f) (serverIdx : ℕ) :
    SendOk e idx f serverIdx (e, none) where
  settled := h
  config := rfl
  size := rfl
  others _ _ := rfl
  target := ⟨f.rfds, hf, fun hor => hor.resolve_right fun hne => hne rfl⟩
  sent _ hs := nomatch hs

/-- **`send_upstream` keeps the engine consistent** for a query in flight, whether or not it gets a
socket and the datagram goes out. -/
theorem Settled.sendUpstream (h : Settled e) (hf : e.table.get idx = some f)
    (hflight : f.sentto ≠ none) (serverIdx : ℕ) (net : Net) :
    SendOk e idx f serverIdx (e.sendUpstream idx serverIdx net) := by
  unfold ForwardEngine.sendUpstream
  rw [hf]
  cases haddr : e.config.upstreams[serverIdx]? with
  | none => exact SendOk.unchanged h hf serverIdx
  | some addr =>
    cases hstash : f.stash with
    | none =>
      simp only [hstash]
      exact SendOk.unchanged h hf serverIdx
    | some stash =>
      simp only [hstash]
      -- `allocate` sees the record's slots and, as the others, what the table holds without them
      have hfok := h.table.get hf
      have hwithout := held_modify (fun f => { f with rfds := [] }) hf
      have halloc := (h.pool.perm hwithout.symm).allocate serverIdx net.bind
      generalize e.rfdPool.allocate f.rfds serverIdx net.bind = result at halloc ⊢
      obtain ⟨pool, rfds, sock⟩ := result
      have hsettled : Settled { e with
          rfdPool := pool, table := e.table.modify idx fun f => { f with rfds } } := by
        refine ⟨⟨h.table.modify ?_ fun _ => rfl, halloc.pool.perm (held_modify_rfds hf rfds)⟩,
          h.released⟩
        intro f' hf'
        rw [← some.inj (hf.symm.trans hf')]
        exact ⟨halloc.nodup hfok.nodup, fun hs => absurd hs hflight, hfok.unjoined, hfok.blocking⟩
      have hothers : ∀ i, i ≠ idx →
          (e.table.modify idx fun f => { f with rfds }).get i = e.table.get i := by
        intro i hi
        rw [get_modify, if_neg hi]
      have htarget := get_modify_self (fun f => { f with rfds }) hf
      cases sock with
      | none =>
        refine ⟨hsettled, rfl, rfl, hothers, ⟨rfds, htarget, ?_⟩, fun s hs => nomatch hs⟩
        intro hor
        exact halloc.ne_nil (Or.inr (hor.resolve_right fun hne => hne rfl))
      | some sock =>
        refine ⟨hsettled, rfl, rfl, hothers,
          ⟨rfds, htarget, fun _ => halloc.ne_nil (Or.inl (by simp))⟩, ?_⟩
        intro s hs
        split_ifs at hs
        rw [← some.inj hs]
        exact ⟨rfl, haddr⟩

/-! ### What an operation does to the queries in flight -/

/-- What stays the same while a query is in flight. -/
structure SameQuery (f f₀ : Frec D) : Prop where
  newId : f.newId = f₀.newId
  questionHash : f.questionHash = f₀.questionHash
  flags : f.flags = f₀.flags
  sentAt : f.sentAt = f₀.sentAt

/-- The query `f` found in flight at `k` after an operation on `e` that led to `e'` and sent `sent`:
it was in flight before and the clients `joined` have been added to it, or it was sent for the first
time under an ID of its own.  `fresh` is what a new query's record can be. -/
structure TargetOk (fresh : ℕ → Frec D → Prop) (joined : List FrecSrc) (e e' : ForwardEngine D)
    (sent : Option Sent) (k : ℕ) (f : Frec D) : Prop where
  rfds : (∀ f₀, e.table.get k = some f₀ → f₀.sentto ≠ none → f₀.rfds ≠ []) → f.rfds ≠ []
  sentto : ∀ s, sent = some s →
    ∃ serverIdx, f.sentto = some serverIdx ∧ e.config.upstreams[serverIdx]? = some s.addr
  origin : (∃ f₀, e.table.get k = some f₀ ∧ f₀.sentto ≠ none ∧ SameQuery f f₀
        ∧ f.srcs = f₀.srcs ++ joined ∧ (sent = none → f.sentto = f₀.sentto))
      ∨ (sent ≠ none ∧ fresh k f ∧ ∀ i f', i ≠ k → e'.table.get i = some f' → f'.sentto ≠ none →
        f'.newId ≠ f.newId)

/-- **What an operation other than a reload does**: the engine ends up settled under the same
configuration, and every query then in flight was in flight before and is unchanged, except for the
one at `k`, which is the one a datagram was sent for if there was one. -/
structure OpOk (fresh : ℕ → Frec D → Prop) (joined : List FrecSrc) (e e' : ForwardEngine D)
    (sent : Option Sent) (k : ℕ) : Prop where
  settled : Settled e'
  config : e'.config = e.config
  size : e'.table.maxPerGroup = e.table.maxPerGroup
  others : ∀ i f, i ≠ k → e'.table.get i = some f → f.sentto ≠ none → e.table.get i = some f
  sent_idx : ∀ s, sent = some s → s.idx = k
  target : ∀ f, e'.table.get k = some f → f.sentto ≠ none → TargetOk fresh joined e e' sent k f

variable {fresh : ℕ → Frec D → Prop} {joined : List FrecSrc} {e' : ForwardEngine D}

theorem OpOk.of_retires (hs : Settled e') (hc : e'.config = e.config)
    (hsize : e'.table.maxPerGroup = e.table.maxPerGroup) (hr : Retires e.table e'.table) :
    OpOk fresh [] e e' none idx where
  settled := hs
  config := hc
  size := hsize
  others i f _ := hr i f
  sent_idx _ h := nomatch h
  target f hf hflight :=
    { rfds := fun h => h f (hr idx f hf hflight) hflight
      sentto := fun _ h => nomatch h
      origin := Or.inl ⟨f, hr idx f hf hflight, hflight, ⟨rfl, rfl, rfl, rfl⟩, (append_nil _).symm,
          fun _ => rfl⟩ }

theorem OpOk.refl (h : Settled e) : OpOk fresh [] e e none idx :=
  OpOk.of_retires h rfl rfl (Retires.refl e.table)

variable {sent : Option Sent}

theorem OpOk.mono (h : OpOk fresh joined e e' sent idx) (himp : ∀ k f, fresh k f → fresh' k f) :
    OpOk fresh' joined e e' sent idx where
  settled := h.settled
  config := h.config
  size := h.size
  others := h.others
  sent_idx := h.sent_idx
  target f hf hflight := by
    have ht := h.target f hf hflight
    refine ⟨ht.rfds, ht.sentto, ht.origin.imp_right ?_⟩
    rintro ⟨hsent, hfresh, hids⟩
    exact ⟨hsent, himp idx f hfresh, hids⟩

/-- The queries in flight have different IDs. -/
def DistinctIds (e : ForwardEngine D) : Prop :=
  ∀ i j f g, e.table.get i = some f → e.table.get j = some g → f.sentto ≠ none → g.sentto ≠ none →
    f.newId = g.newId → i = j

/-- An operation keeps the IDs apart: the one at `k` is the old one, or differs from all others. -/
theorem OpOk.distinctIds (h : OpOk fresh joined e e' sent k) (hids : DistinctIds e) :
    DistinctIds e' := by
  have hk : ∀ j f g, j ≠ k → e'.table.get k = some f → e'.table.get j = some g →
      f.sentto ≠ none → g.sentto ≠ none → f.newId ≠ g.newId := by
    intro j f g hj hf hg hflight hflight' hid
    have hg₀ := h.others j g hj hg hflight'
    rcases (h.target f hf hflight).origin with ⟨f₀, hf₀, hflight₀, hsame, -⟩ | ⟨-, -, hother⟩
    · exact hj (hids k j f₀ g hf₀ hg₀ hflight₀ hflight' (hsame.newId.symm.trans hid)).symm
    · exact hother j g hj hg hflight' hid.symm
  intro i j f g hf hg hflight hflight' hid
  by_cases hi : i = k
  · by_contra hij
    subst hi
    exact hk j f g (Ne.symm hij) hf hg hflight hflight' hid
  · by_cases hj : j = k
    · subst hj
      exact absurd hid.symm (hk i g f hi hg hf hflight' hflight)
    · exact hids i j f g (h.others i f hi hf hflight) (h.others j g hj hg hflight') hflight
        hflight' hid

/-- A datagram sent for the record of an operation that has sent none yet. -/
theorem OpOk.send (h : OpOk fresh joined e e' none idx) (hf : e'.table.get idx = some f)
    (hs : f.sentto = some serverIdx)
    (hr : SendOk e' idx f serverIdx result) : OpOk fresh joined e result.1 result.2 idx where
  settled := hr.settled
  config := hr.config.trans h.config
  size := hr.size.trans h.size
  others i g hi hg := by
    rw [hr.others i hi] at hg
    exact h.others i g hi hg
  sent_idx s hsent := (hr.sent s hsent).1
  target g hg _ := by
    obtain ⟨rfds, htarget, hne⟩ := hr.target
    rw [htarget] at hg
    obtain rfl := some.inj hg
    have ht := h.target f hf (by rw [hs]; simp)
    refine ⟨fun hall => hne (Or.inl (ht.rfds hall)), ?_, ?_⟩
    · intro s hsent
      refine ⟨serverIdx, hs, ?_⟩
      rw [← h.config]
      exact (hr.sent s hsent).2
    · rcases ht.origin with ⟨f₀, hf₀, hflight, hsame, hsrcs, hto⟩ | ⟨hsent, -⟩
      · exact Or.inl
          ⟨f₀, hf₀, hflight, ⟨hsame.newId, hsame.questionHash, hsame.flags, hsame.sentAt⟩,
          hsrcs, fun _ => hto rfl⟩
      · exact absurd rfl hsent

/-- A write that leaves alone what identifies a query, and the slots, but may add clients. -/
theorem OpOk.of_modify (h : Settled e)
    (hg : ∀ f, (g f).rfds = f.rfds ∧ (g f).sentto = f.sentto ∧ SameQuery (g f) f
      ∧ (g f).srcs = f.srcs ++ joined) (hok : TableOk t)
        (ht : t.frecs = (e.table.modify idx g).frecs)
    (hrel : t.releasedRfds = e.table.releasedRfds) (hsize : t.maxPerGroup = e.table.maxPerGroup) :
    OpOk fresh joined e { e with table := t } none idx := by
  have hget : ∀ i, t.get i = (e.table.modify idx g).get i := by
    intro i
    unfold FrecTable.get
    rw [ht]
  have hheld : (e.table.held).Perm t.held := by
    have hperm : ((e.table.modify idx g).held).Perm e.table.held :=
      held_modify_of_eq fun f => (hg f).1
    unfold held at hperm ⊢
    rw [ht, hrel]
    exact hperm.symm
  refine ⟨⟨h.withTable hok hheld, hrel.trans h.released⟩, rfl, hsize, ?_, fun _ hs =>
    (nomatch hs), ?_⟩
  · intro i f hi hf _
    rwa [hget, get_modify, if_neg hi] at hf
  · intro f hf hflight
    rw [hget, get_modify, if_pos rfl] at hf
    obtain ⟨f₀, hf₀, rfl⟩ := map_eq_some_iff.mp hf
    obtain ⟨hrfds, hs, hsame, hsrcs⟩ := hg f₀
    rw [hs] at hflight
    refine ⟨fun hall => by rw [hrfds]; exact hall f₀ hf₀ hflight, fun _ hs => (nomatch hs),
      Or.inl ⟨f₀, hf₀, hflight, hsame, hsrcs, fun _ => hs⟩⟩

theorem OpOk.resend (h : OpOk fresh joined e e' none idx) (hf : e'.table.get idx = some f)
    (net : Net) :
    OpOk fresh joined e (e'.resend idx f.sentto net).1 (e'.resend idx f.sentto net).2.2 idx := by
  unfold ForwardEngine.resend
  cases hs : f.sentto with
  | none => exact h
  | some serverIdx =>
    have hsend := h.send hf hs (h.settled.sendUpstream hf (by rw [hs]; simp) serverIdx net)
    dsimp only
    generalize e'.sendUpstream idx serverIdx net = result at hsend
    obtain ⟨e₂, sent⟩ := result
    cases sent with
    | none | some => exact hsend

/-- The engine with one more client on the record at `idx`. -/
def addClient (e : ForwardEngine D) (idx : ℕ) (src : FrecSrc) : ForwardEngine D :=
  { e with
    table := { e.table.modify idx fun f => { f with extraSrcs := f.extraSrcs ++ [src] } with
      frecSrcCount := e.table.frecSrcCount + 1 } }

theorem get_addClient (hf : e.table.get idx = some f) (src : FrecSrc) :
    (e.addClient idx src).table.get idx = some { f with extraSrcs := f.extraSrcs ++ [src] } :=
  get_modify_self _ hf

theorem Settled.addClient (fresh : ℕ → Frec D → Prop) (h : Settled e)
    (hf : e.table.get idx = some f) (hflight : f.sentto ≠ none)
    (hroom : e.table.frecSrcCount < e.table.maxPerGroup) (src : FrecSrc) :
    OpOk fresh [src] e (e.addClient idx src) none idx :=
  OpOk.of_modify (g := fun f => { f with extraSrcs := f.extraSrcs ++ [src] }) h
    (fun _ => ⟨rfl, rfl, ⟨rfl, rfl, rfl, rfl⟩, rfl⟩) (h.table.addSrc hf hflight hroom _) rfl rfl rfl

variable [Inhabited D]

theorem Consistent.freeAndRelease (h : Consistent e) (idx : ℕ) :
    Settled (e.freeAndRelease idx) := by
  obtain ⟨hok, -, hperm, -⟩ := h.table.freeFrec idx
  exact (h.withTable hok hperm).releaseRfds

variable {e₁ : ForwardEngine D}

/-- An operation whose record is freed in the end. -/
theorem OpOk.freeAndRelease (h : Consistent e₁) (hc : e₁.config = e.config)
    (hsize : e₁.table.maxPerGroup = e.table.maxPerGroup)
    (hothers : ∀ i f, i ≠ idx → e₁.table.get i = some f → f.sentto ≠ none →
      e.table.get i = some f) :
    OpOk fresh joined e (e₁.freeAndRelease idx) none idx := by
  obtain ⟨-, hret, -, hfree, -⟩ := h.table.freeFrec idx
  exact
    { settled := h.freeAndRelease idx
      config := hc
      size := (freeFrec_maxPerGroup _ idx).trans hsize
      others := fun i f hi hf hflight => hothers i f hi (hret i f hf hflight) hflight
      sent_idx := fun _ h => nomatch h
      target := fun f hf hflight => absurd (hfree f hf) hflight }

/-! ### `join_in_flight` -/

/-- The client is waiting on the record already, under the same ID. -/
def isKnown (f : Frec D) (origId : UInt16) (client : SocketAddr) : Bool :=
  f.srcs.any fun s => s.origId == origId && s.source == some client

/-- The client as `join_in_flight` adds it to a record: without the address its query was sent to.
-/
def joinSrc (origId : UInt16) (client : SocketAddr) (listener : ℕ) : FrecSrc :=
  { source := some client, origId, fd := asI32 listener }

theorem joinInFlight_eq (hf : e.table.get idx = some f) (now : Instant) (origId : UInt16)
    (client : SocketAddr) (listener : ℕ) (net : Net) :
    e.joinInFlight idx now origId client listener net =
      if isKnown f origId client then e.resend idx f.sentto net
      else if e.table.maxPerGroup ≤ e.table.frecSrcCount then
        let full := { e with table := e.table.emitQueryFull now }
        (if frecTimeout ≤ now - f.sentAt then full.freeAndRelease idx else full, .refused, none)
      else
        let added := e.addClient idx (joinSrc origId client listener)
        if now - f.sentAt < fromSecs 2 then (added, .duplicate, none)
        else added.resend idx f.sentto net := by
  unfold ForwardEngine.joinInFlight FrecTable.addSrc
  rw [hf]
  show (if isKnown f origId client then _ else _) = _
  split_ifs <;> rfl

/-- **What `join_in_flight` does**: a client that is not known yet is added if the budget allows it.
-/
theorem Settled.joinInFlight (fresh : ℕ → Frec D → Prop) (h : Settled e)
    (hf : e.table.get idx = some f) (hflight : f.sentto ≠ none) (now : Instant) (origId : UInt16)
    (client : SocketAddr) (listener : ℕ) (net : Net) : OpOk fresh
      (if isKnown f origId client ∨ e.table.maxPerGroup ≤ e.table.frecSrcCount then []
        else [joinSrc origId client listener]) e
          (e.joinInFlight idx now origId client listener net).1
      (e.joinInFlight idx now origId client listener net).2.2 idx := by
  rw [joinInFlight_eq hf]
  by_cases hknown : isKnown f origId client
  · rw [if_pos (Or.inl hknown), if_pos hknown]
    exact (OpOk.refl h).resend hf net
  · rw [if_neg hknown]
    by_cases hfull : e.table.maxPerGroup ≤ e.table.frecSrcCount
    · rw [if_pos (Or.inr hfull), if_pos hfull]
      have hemit : OpOk fresh [] e { e with table := e.table.emitQueryFull now } none idx :=
        OpOk.of_modify (g := id) h (fun f => ⟨rfl, rfl, ⟨rfl, rfl, rfl, rfl⟩, (append_nil _).symm⟩)
          (h.table.emitQueryFull now)
          (by rw [emitQueryFull_frecs, modify_eq_self (g := id) (fun _ _ => rfl)])
          (emitQueryFull_releasedRfds now) (emitQueryFull_maxPerGroup now)
      split
      · exact OpOk.freeAndRelease hemit.settled.toConsistent rfl hemit.size hemit.others
      · exact hemit
    · rw [if_neg (not_or.mpr ⟨hknown, hfull⟩), if_neg hfull]
      have hadd :=
        Settled.addClient fresh h hf hflight (Nat.lt_of_not_le hfull)
          (joinSrc origId client listener)
      split
      · exact hadd
      · exact hadd.resend (get_addClient hf _) net

/-! ### `forward_query` -/

/-- The query was taken: the client is to get an answer. -/
def ForwardOutcome.accepted : ForwardOutcome → Bool
  | .forwarded _ | .duplicate => true
  | .refused | .dropped => false

/-- The client as `forward_query` writes it to a new record. -/
def newSrc (q : Query) (origId : UInt16) : FrecSrc :=
  { source := some q.client, dest := q.dest, origId, fd := asI32 q.listener }

/-- The record of a new query, sent to the server at `serverIdx`. -/
structure NewRecord (q : Query) (qhash : D) (origId : UInt16) (fwdFlags : UInt32) (serverIdx : ℕ)
    (f : Frec D) : Prop where
  sentto : f.sentto = some serverIdx
  newId : f.newId ≠ 0
  drawn : f.newId ∈ q.draws
  questionHash : f.questionHash = qhash
  flags : f.flags = fwdFlags
  sentAt : f.sentAt = q.now
  srcs : f.srcs = [newSrc q origId]

/-- How a new query ends: nothing was sent and it was not taken, or it was sent from a fresh record
and the others are as they were. -/
def NewOk (fresh : ℕ → Frec D → Prop) (e e' : ForwardEngine D) (out : ForwardOutcome)
    (sent : Option Sent) (k : ℕ) : Prop :=
  (sent = none ∧ out.accepted = false)
    ∨ (sent ≠ none ∧ out.accepted ∧ (∃ f, e'.table.get k = some f ∧ fresh k f)
      ∧ ∀ i, i ≠ k → e'.table.get i = e.table.get i)

variable {q : Query}

/-- A new query is sent from a free record, or the record is free again. -/
theorem OpOk.sendNew (h : Settled e₁) (hc : e₁.config = e.config)
    (hsize : e₁.table.maxPerGroup = e.table.maxPerGroup)
    (hret : Retires e.table e₁.table) (hsame : ∀ i, i ≠ idx → e₁.table.get i = e.table.get i)
    (hf : e₁.table.get idx = some f) (hidle : f.sentto = none) (hat : f.sentAt = q.now)
    (hne : newId ≠ 0) (hdrawn : newId ∈ q.draws)
    (hid : ∀ i f, e₁.table.get i = some f → f.sentto ≠ none → f.newId ≠ newId) (qhash : D)
    (origId : UInt16) (fwdFlags : UInt32) (serverIdx : ℕ)
    (hfresh : ∀ f', NewRecord q qhash origId fwdFlags serverIdx f' → fresh idx f') :
    let r := e₁.sendNew q qhash origId fwdFlags serverIdx idx newId
    OpOk fresh [] e r.1 r.2.2 idx ∧ NewOk fresh e r.1 r.2.1 r.2.2 idx := by
  unfold ForwardEngine.sendNew
  dsimp only
  generalize hsrc : ({ source := some q.client, dest := q.dest, origId, fd := asI32 q.listener } :
    FrecSrc) = src
  generalize hg : (fun f : Frec D => fillFrec f serverIdx newId qhash fwdFlags q.stash src) = g
  have h₂ : Settled { e₁ with table := e₁.table.modify idx g } := by
    subst hg
    refine ⟨h.modify (fun _ => rfl) (fun _ => rfl) ?_, h.released⟩
    intro f hf
    have hfok := h.table.get hf
    exact ⟨hfok.nodup, fun hs => (nomatch hs), fun hs => (nomatch hs), hfok.blocking⟩
  have hsend :=
    h₂.sendUpstream (get_modify_self g hf) (by subst hg; simp [fillFrec]) serverIdx q.net
  generalize ForwardEngine.sendUpstream _ idx serverIdx q.net = result at hsend
  obtain ⟨e₃, sent⟩ := result
  have hget : ∀ i, i ≠ idx → e₃.table.get i = e₁.table.get i := by
    intro i hi
    rw [hsend.others i hi, get_modify, if_neg hi]
  have hothers : ∀ i f, i ≠ idx → e₃.table.get i = some f → e₁.table.get i = some f := by
    intro i f hi hf
    rwa [hget i hi] at hf
  have hothers' : ∀ i f, i ≠ idx → e₃.table.get i = some f → f.sentto ≠ none →
    e.table.get i = some f :=
    fun i f hi hf hflight => hret i f (hothers i f hi hf) hflight
  cases sent with
  | none =>
    exact ⟨OpOk.freeAndRelease hsend.settled.toConsistent (hsend.config.trans hc)
      (hsend.size.trans hsize) hothers', Or.inl ⟨rfl, rfl⟩⟩
  | some s =>
    obtain ⟨rfds, htarget, hrfds⟩ := hsend.target
    have hnew : ∀ f', e₃.table.get idx = some f' → fresh idx f' := by
      intro f' hf'
      rw [htarget] at hf'
      obtain rfl := some.inj hf'
      subst hg
      refine hfresh _ ⟨rfl, hne, hdrawn, rfl, rfl, hat, ?_⟩
      -- nobody has joined a free record
      show src :: f.extraSrcs = _
      rw [(h.table.get hf).unjoined hidle, ← hsrc]
      rfl
    refine ⟨⟨hsend.settled, hsend.config.trans hc, hsend.size.trans hsize, hothers',
      fun s' hs' => (hsend.sent s' hs').1, ?_⟩,
      Or.inr ⟨by simp, rfl, ⟨_, htarget, hnew _ htarget⟩, fun i hi =>
        (hget i hi).trans (hsame i hi)⟩⟩
    intro f' hf' _
    have hf₃ := hnew f' hf'
    rw [htarget] at hf'
    obtain rfl := some.inj hf'
    subst hg
    refine ⟨fun _ => hrfds (Or.inr (by simp)), ?_, Or.inr ⟨by simp, hf₃, ?_⟩⟩
    · intro s' hs'
      refine ⟨serverIdx, rfl, ?_⟩
      rw [← hc]
      exact (hsend.sent s' hs').2
    · intro i f' hi hf' hflight
      exact hid i f' (hothers i f' hi hf') hflight

/-- The record `forward_query` takes for a new query: that of a server not known to loop, in the
slot `get_new_frec` found for it. -/
def Claimed (e : ForwardEngine D) (q : Query) (qhash : D) (origId : UInt16) (fwdFlags : UInt32)
    (k : ℕ) (f : Frec D) : Prop :=
  ∃ serverIdx, e.isLooping serverIdx = false ∧ (e.table.getNewFrec q.now serverIdx false).2 = some k
    ∧ NewRecord q qhash origId fwdFlags serverIdx f

omit [Inhabited D] in
theorem mem_of_nextServer (h : nextServer servers tried last = some i) : i ∈ servers := by
  unfold nextServer at h
  split_ifs at h
  obtain ⟨j, -, hj⟩ := mem_filterMap.mp (mem_of_find?_eq_some h)
  exact mem_of_getElem? hj

variable {out : ForwardOutcome}

/-- **What `forward_query` does with a new query.** -/
theorem Settled.forwardNew (h : Settled e)
    (hrun : e.forwardNew q qhash origId fwdFlags = some (e', out, sent)) :
    ∃ k, OpOk (Claimed e q qhash origId fwdFlags) [] e e' sent k
      ∧ NewOk (Claimed e q qhash origId fwdFlags) e e' out sent k := by
  unfold ForwardEngine.forwardNew at hrun
  split_ifs at hrun with hup
  · cases hrun
    exact ⟨0, OpOk.refl h, Or.inl ⟨rfl, rfl⟩⟩
  · obtain ⟨candidates, -, hrun⟩ := bind_eq_some_iff.mp hrun
    split at hrun
    · cases hrun
      exact ⟨0, OpOk.refl h, Or.inl ⟨rfl, rfl⟩⟩
    · next serverIdx hserver =>
      have hloop : e.isLooping serverIdx = false := by
        have hmem := mem_of_nextServer hserver
        rw [mem_filter] at hmem
        simpa using hmem.2
      -- the slot is claimed, and what was evicted for it is released
      obtain ⟨hok, hret, hperm, hslot⟩ := h.table.getNewFrec q.now serverIdx false
      have h₁ := (h.withTable hok hperm).releaseRfds
      have hsize := getNewFrec_maxPerGroup e.table q.now serverIdx false
      have hclaim : ∀ k f, (e.table.getNewFrec q.now serverIdx false).2 = some k →
          NewRecord q qhash origId fwdFlags serverIdx f → Claimed e q qhash origId fwdFlags k f :=
        fun k f hk hnew => ⟨serverIdx, hloop, hk, hnew⟩
      generalize e.table.getNewFrec q.now serverIdx false
        = claimed at hret hslot h₁ hrun hclaim hsize
      obtain ⟨t, idx⟩ := claimed
      dsimp only at hret hslot h₁ hrun hclaim hsize
      have hret₁ : Retires e.table ({ e with table := t } : ForwardEngine D).releaseRfds.table :=
        hret
      generalize he₁ : ({ e with table := t } : ForwardEngine D).releaseRfds = e₁ at h₁ hrun hret₁
      have hc₁ : e₁.config = e.config := by
        rw [← he₁]
        rfl
      have hsize₁ : e₁.table.maxPerGroup = e.table.maxPerGroup := by
        rw [← he₁]
        exact hsize
      cases idx with
      | none =>
        cases hrun
        exact ⟨0, OpOk.of_retires h₁ hc₁ hsize₁ hret₁, Or.inl ⟨rfl, rfl⟩⟩
      | some idx =>
        obtain ⟨hclaimOk, hat⟩ := hslot idx rfl
        obtain ⟨f₀, hf₀, hidle⟩ := hclaimOk.slot
        obtain ⟨newId, hid, hrun⟩ := bind_eq_some_iff.mp hrun
        have hsend := OpOk.sendNew (f := f₀) h₁ hc₁ hsize₁ hret₁
          (fun i hi => by rw [← he₁]; exact hclaimOk.others i hi) (by rw [← he₁]; exact hf₀) hidle
          (hat f₀ hf₀)
          (ne_zero_of_getId hid) (mem_of_find?_eq_some hid) (fun i f hf hs =>
            newId_ne_of_getId hid hf hs) qhash origId fwdFlags
          serverIdx fun f' hnew => hclaim idx f' rfl hnew
        rw [some.inj hrun] at hsend
        exact ⟨idx, hsend⟩

/-! ### `accept_reply` -/

theorem OpOk.complete (h : Settled e₁) (hc : e₁.config = e.config)
    (hsize : e₁.table.maxPerGroup = e.table.maxPerGroup)
    (hothers : ∀ i f, i ≠ idx → e₁.table.get i = some f → f.sentto ≠ none →
      e.table.get i = some f) :
    OpOk fresh joined e (e₁.complete idx).1 (e₁.complete idx).2.2 idx :=
  OpOk.freeAndRelease h.toConsistent hc hsize hothers

/-- A failed query is sent to another server, or completed. -/
theorem Settled.retry (fresh : ℕ → Frec D → Prop) (h : Settled e) (hf : e.table.get idx = some f)
    (hflight : f.sentto ≠ none) (nextIdx : ℕ) (net : Net)
    (hg : ∀ f, (g f).rfds = f.rfds ∧ (g f).sentto = some nextIdx ∧ SameQuery (g f) f
      ∧ (g f).frecSrc = f.frecSrc ∧ (g f).extraSrcs = f.extraSrcs
      ∧ (g f).blockingQuery = f.blockingQuery) :
    let r :=
      ({ e with table := e.table.modify idx g } : ForwardEngine D).sendUpstream idx nextIdx net
    (r.2 ≠ none → OpOk fresh [] e r.1 r.2 idx)
      ∧ OpOk fresh [] e (r.1.complete idx).1 (r.1.complete idx).2.2 idx
      ∧ ∃ f', r.1.table.get idx = some f' ∧ f'.srcs = f.srcs ∧ f'.sentto = some nextIdx := by
  obtain ⟨hrfds, hto, hsame, hsrc, hextra, hblock⟩ := hg f
  have hsrcs : (g f).srcs = f.srcs := by
    unfold Frec.srcs
    rw [hsrc, hextra]
  have h₁ : Settled { e with table := e.table.modify idx g } := by
    refine ⟨h.modify (fun f => (hg f).1) (fun f => (hg f).2.2.2.2.1) ?_, h.released⟩
    intro f' hf'
    obtain ⟨hrfds', hto', -, -, -, hblock'⟩ := hg f'
    have hfok := h.table.get hf'
    have hne : (g f').sentto ≠ none := by rw [hto']; simp
    exact ⟨hrfds' ▸ hfok.nodup, fun hs => absurd hs hne, fun hs =>
      absurd hs hne, hblock'.trans hfok.blocking⟩
  have hsend := h₁.sendUpstream (get_modify_self g hf) (by rw [hto]; simp) nextIdx net
  generalize ForwardEngine.sendUpstream _ idx nextIdx net = r at hsend
  have hothers : ∀ i f, i ≠ idx → r.1.table.get i = some f → f.sentto ≠ none →
    e.table.get i = some f := by
    intro i f' hi hf' _
    rw [hsend.others i hi] at hf'
    rwa [get_modify, if_neg hi] at hf'
  obtain ⟨rfds, htarget, hne⟩ := hsend.target
  refine ⟨?_, OpOk.complete hsend.settled hsend.config hsend.size hothers, _, htarget, hsrcs, hto⟩
  intro hsent
  refine ⟨hsend.settled, hsend.config, hsend.size, hothers, fun s hs => (hsend.sent s hs).1, ?_⟩
  intro f' hf' _
  rw [htarget] at hf'
  obtain rfl := some.inj hf'
  refine ⟨fun _ => hne (Or.inr hsent), fun s hs => ⟨nextIdx, hto, (hsend.sent s hs).2⟩,
    Or.inl ⟨f, hf, hflight, ⟨hsame.newId, hsame.questionHash, hsame.flags, hsame.sentAt⟩, ?_,
      fun hnone => absurd hnone hsent⟩⟩
  rw [append_nil]
  exact hsrcs

/-! ### `expire_queries` -/

theorem Settled.expireQueries (h : Settled e) (now : Instant) :
    OpOk fresh [] e (e.expireQueries now).1 none 0 := by
  obtain ⟨hok, hret, hperm⟩ := h.table.foldl_freeFrec (e.table.stale now e.config.timeout)
  exact OpOk.of_retires (h.withTable hok hperm).releaseRfds rfl
    (foldl_freeFrec_maxPerGroup _ _) hret

/-! ### Validated replies -/

variable {H : Type} [DecidableEq H] {finish : Bytes → H}

/-- **The checks of `validate_reply`**, one by one. -/
theorem validateReply_eq_some {e : ForwardEngine (H × H)} :
    e.validateReply finish pkt src arrivedOn now = some idx ↔
      ∃ header f serverIdx, DnsHeader.fromBytes pkt = some header ∧ header.hb3 &&& hb3Qr ≠ 0
        ∧ e.table.lookupFrec now (some header.id) 0 0 = some idx ∧ e.table.get idx = some f
        ∧ hashQuestions finish pkt = some f.questionHash ∧ arrivedOn ∈ f.rfds
        ∧ f.sentto = some serverIdx ∧ e.config.upstreams[serverIdx]? = some src := by
  unfold ForwardEngine.validateReply
  constructor
  · intro h
    obtain ⟨header, hheader, h⟩ := bind_eq_some_iff.mp h
    split_ifs at h with hqr
    obtain ⟨i, hi, h⟩ := bind_eq_some_iff.mp h
    obtain ⟨f, hf, h⟩ := bind_eq_some_iff.mp h
    obtain ⟨hash, hhash, h⟩ := bind_eq_some_iff.mp h
    split_ifs at h with hne hrfds
    obtain ⟨serverIdx, hto, h⟩ := bind_eq_some_iff.mp h
    split_ifs at h with haddr
    obtain rfl := some.inj h
    rw [not_not] at hne haddr
    exact ⟨header, f, serverIdx, hheader, hqr, hi, hf, hne ▸ hhash, hrfds, hto, haddr⟩
  · rintro ⟨header, f, serverIdx, hheader, hqr, hi, hf, hhash, hrfds, hto, haddr⟩
    simp only [hheader, bind_eq_bind, bind_some, hqr, ↓reduceIte, hi, hf, hhash,
      ne_eq, not_true_eq_false, hrfds, hto, haddr]

theorem inFlight_of_validateReply {e : ForwardEngine (H × H)}
    (h : e.validateReply finish pkt src arrivedOn now = some idx) :
    ∃ f, e.table.get idx = some f ∧ f.sentto ≠ none := by
  obtain ⟨-, f, serverIdx, -, -, -, hf, -, -, hto, -⟩ := validateReply_eq_some.mp h
  exact ⟨f, hf, by rw [hto]; simp⟩

variable [Inhabited H] {e e' : ForwardEngine (H × H)} {fresh : ℕ → Frec (H × H) → Prop}

/-- What `accept_reply` does: it completes a query, sends it to the next server that was not tried
or does nothing; and what it delivers goes to the clients of the query it validated the reply for.
-/
structure ReplyOk (finish : Bytes → H) (e e' : ForwardEngine (H × H)) (r : Reply)
    (action : ReplyAction) (sent : Option Sent) : Prop where
  op : ∃ k, ∀ fresh, OpOk fresh [] e e' sent k
  delivers : ∀ targets flags, action = .deliver targets flags →
    ∃ idx f, e.validateReply finish r.pkt r.src r.arrivedOn r.now = some idx
      ∧ e.table.get idx = some f
      ∧ targets = replyTargets f
  retries : ∀ d, sent = some d → e.validateReply finish r.pkt r.src r.arrivedOn r.now = some d.idx
    ∧ ∃ serverIdx f, e.nextUntriedServer d.idx = some (some serverIdx) ∧ e'.table.get d.idx = some f
      ∧ f.sentto = some serverIdx

/-- A query is completed for the clients it has. -/
theorem ReplyOk.complete {e₁ : ForwardEngine (H × H)} {f f₁ : Frec (H × H)}
    (hvalid : e.validateReply finish r.pkt r.src r.arrivedOn r.now = some idx)
    (hf : e.table.get idx = some f) (hf₁ : e₁.table.get idx = some f₁) (hsrcs : f₁.srcs = f.srcs)
    (hop : ∀ fresh, OpOk fresh [] e (e₁.complete idx).1 (e₁.complete idx).2.2 idx) :
    ReplyOk finish e (e₁.complete idx).1 r (e₁.complete idx).2.1 (e₁.complete idx).2.2 := by
  refine ⟨⟨idx, hop⟩, fun targets flags hdeliver => ⟨idx, f, hvalid, hf, ?_⟩, nofun⟩
  unfold ForwardEngine.complete at hdeliver
  rw [hf₁] at hdeliver
  obtain ⟨rfl, -⟩ := ReplyAction.deliver.inj hdeliver
  unfold replyTargets
  rw [hsrcs]

theorem Settled.acceptReply (h : Settled e)
    (hrun : e.acceptReply finish r = some (e', action, sent)) :
    ReplyOk finish e e' r action sent := by
  unfold ForwardEngine.acceptReply at hrun
  split at hrun
  · next idx header hvalid _ =>
    obtain ⟨f, hf, hflight⟩ := inFlight_of_validateReply hvalid
    have hdone : ReplyOk finish e (e.complete idx).1 r (e.complete idx).2.1 (e.complete idx).2.2 :=
      .complete hvalid hf hf rfl fun _ => OpOk.complete h rfl rfl fun _ _ _ hf _ => hf
    dsimp only at hrun
    split_ifs at hrun with hignored hfailed
    · cases hrun
      exact ⟨⟨0, fun _ => OpOk.refl h⟩, nofun, nofun⟩
    · obtain ⟨next, hnext, hrun⟩ := bind_eq_some_iff.mp hrun
      cases next with
      | none =>
        rw [some.inj hrun] at hdone
        exact hdone
      | some nextIdx =>
        dsimp only at hrun
        have hretry := fun fresh => Settled.retry fresh h hf hflight nextIdx r.net
          (g := fun f => { f with
            retries := saturatingSucc f.retries, sentto := some nextIdx,
            tried := f.tried.insert nextIdx })
          fun f => ⟨rfl, rfl, ⟨rfl, rfl, rfl, rfl⟩, rfl, rfl, rfl⟩
        generalize ForwardEngine.sendUpstream _ idx nextIdx r.net = result at hrun hretry
        obtain ⟨e₂, sent₂⟩ := result
        obtain ⟨-, -, f₂, hf₂, hsrcs, hto⟩ := hretry fun _ _ => False
        cases sent₂ with
        | none =>
          have hcompleted :
              ReplyOk finish e (e₂.complete idx).1 r (e₂.complete idx).2.1 (e₂.complete idx).2.2 :=
            .complete hvalid hf hf₂ hsrcs fun fresh => (hretry fresh).2.1
          rw [some.inj hrun] at hcompleted
          exact hcompleted
        | some s =>
          cases hrun
          have hop := fun fresh => (hretry fresh).1 (some_ne_none s)
          obtain rfl := (hop fun _ _ => False).sent_idx s rfl
          refine ⟨⟨s.idx, hop⟩, nofun, ?_⟩
          rintro d ⟨⟩
          exact ⟨hvalid, nextIdx, f₂, hnext, hf₂, hto⟩
    · rw [some.inj hrun] at hdone
      exact hdone
  · cases hrun
    exact ⟨⟨0, fun _ => OpOk.refl h⟩, nofun, nofun⟩

/-! ### Single steps and runs -/

/-- The query in flight that a client's query joins. -/
def joinIndex (finish : Bytes → H) (e : ForwardEngine (H × H)) (q : Query) : Option ℕ :=
  (hashQuestions finish q.pkt).bind fun qhash =>
    e.table.lookupFrecByQuestion q.now qhash (fwdFlagsFromQuery q.pkt)

/-- The record of a new query, for the question and the client of `q`. -/
def Fresh (finish : Bytes → H) (e : ForwardEngine (H × H)) (q : Query) (k : ℕ) (f : Frec (H × H)) :
    Prop :=
  ∃ header qhash, DnsHeader.fromBytes q.pkt = some header ∧ hashQuestions finish q.pkt = some qhash
    ∧ Claimed e q qhash header.id (fwdFlagsFromQuery q.pkt) k f

/-- **What `forward_query` does**: nothing, or the query joins one in flight, or it is a new one. -/
theorem forwardQuery_cases (hrun : e.forwardQuery finish q = some (e', out, sent)) :
    (e' = e ∧ out.accepted = false ∧ sent = none)
      ∨ ∃ header, DnsHeader.fromBytes q.pkt = some header
        ∧ ((∃ idx, joinIndex finish e q = some idx
            ∧ e.joinInFlight idx q.now header.id q.client q.listener q.net = (e', out, sent))
          ∨ ∃ qhash, joinIndex finish e q = none ∧ hashQuestions finish q.pkt = some qhash
            ∧ e.forwardNew q qhash header.id (fwdFlagsFromQuery q.pkt) = some (e', out, sent)) := by
  unfold ForwardEngine.forwardQuery at hrun
  unfold joinIndex
  split at hrun
  · cases hrun
    exact Or.inl ⟨rfl, rfl, rfl⟩
  · next header hheader =>
    split at hrun
    · cases hrun
      exact Or.inl ⟨rfl, rfl, rfl⟩
    · next qhash hhash =>
      refine Or.inr ⟨header, hheader, ?_⟩
      rw [hhash]
      dsimp only at hrun
      split at hrun
      · next idx hidx => exact Or.inl ⟨idx, hidx, some.inj hrun⟩
      · next hnone => exact Or.inr ⟨qhash, hnone, rfl, hrun⟩

omit [Inhabited H] in
theorem inFlight_of_joinIndex {idx : ℕ} (h : joinIndex finish e q = some idx) :
    ∃ f, e.table.get idx = some f ∧ f.sentto ≠ none := by
  obtain ⟨qhash, -, hlookup⟩ := bind_eq_some_iff.mp h
  obtain ⟨f, hf, hmatch, -⟩ := lookupFrecByQuestion_eq_some.mp hlookup
  exact ⟨f, hf, hmatch.1⟩

omit [DecidableEq H] in
/-- What a new query does, with its fresh record. -/
theorem Settled.forwardNew_fresh (h : Settled e)
    (hheader : DnsHeader.fromBytes q.pkt = some header)
    (hhash : hashQuestions finish q.pkt = some qhash)
    (hrun : e.forwardNew q qhash header.id (fwdFlagsFromQuery q.pkt) = some (e', out, sent)) :
    ∃ k, OpOk (Fresh finish e q) [] e e' sent k ∧ NewOk (Fresh finish e q) e e' out sent k := by
  have hfresh : ∀ k f, Claimed e q qhash header.id (fwdFlagsFromQuery q.pkt) k f →
      Fresh finish e q k f := fun k f hclaim => ⟨header, qhash, hheader, hhash, hclaim⟩
  obtain ⟨k, hop, hnew⟩ := h.forwardNew hrun
  refine ⟨k, hop.mono hfresh, hnew.imp_right ?_⟩
  rintro ⟨hsent, hout, ⟨f, hf, hrecord⟩, hothers⟩
  exact ⟨hsent, hout, ⟨f, hf, hfresh k f hrecord⟩, hothers⟩

theorem Settled.forwardQuery (h : Settled e)
    (hrun : e.forwardQuery finish q = some (e', out, sent)) :
    ∃ k joined, OpOk (Fresh finish e q) joined e e' sent k := by
  rcases forwardQuery_cases hrun with ⟨rfl, -, rfl⟩ | ⟨header, hheader, ⟨idx, hidx, hjoin⟩
    | ⟨qhash, -, hhash, hnew⟩⟩
  · exact ⟨0, [], OpOk.refl h⟩
  · obtain ⟨f, hf, hflight⟩ := inFlight_of_joinIndex hidx
    have hop :=
      Settled.joinInFlight (Fresh finish e q) h hf hflight q.now header.id q.client q.listener q.net
    rw [hjoin] at hop
    exact ⟨idx, _, hop⟩
  · obtain ⟨k, hop, -⟩ := h.forwardNew_fresh hheader hhash hnew
    exact ⟨k, [], hop⟩

/-- **One step**: a reload, or an operation as described by `OpOk`, with a new record only for a new
query. -/
theorem Settled.exec (h : Settled e) (hrun : e.exec finish ev = some (e', sent)) :
    (∃ config, ev = .refreshConfig config ∧ e' = e.refreshConfig config ∧ sent = none)
      ∨ ∃ k joined, OpOk (fun k f => ∃ q, ev = .forwardQuery q
        ∧ Fresh finish e q k f) joined e e' sent k := by
  cases ev with
  | forwardQuery q =>
    obtain ⟨⟨e₁, out, sent₁⟩, hq, heq⟩ := map_eq_some_iff.mp hrun
    obtain ⟨rfl, rfl⟩ := Prod.mk.inj heq
    obtain ⟨k, joined, hop⟩ := h.forwardQuery hq
    exact Or.inr ⟨k, joined, hop.mono fun _ _ hfresh => ⟨q, rfl, hfresh⟩⟩
  | acceptReply r =>
    obtain ⟨⟨e₁, action, sent₁⟩, hr, heq⟩ := map_eq_some_iff.mp hrun
    obtain ⟨rfl, rfl⟩ := Prod.mk.inj heq
    obtain ⟨k, hop⟩ := (h.acceptReply hr).op
    exact Or.inr ⟨k, [], hop _⟩
  | expireQueries now =>
    obtain ⟨rfl, rfl⟩ := Prod.mk.inj (some.inj hrun)
    exact Or.inr ⟨0, [], h.expireQueries now⟩
  | refreshConfig config =>
    obtain ⟨rfl, rfl⟩ := Prod.mk.inj (some.inj hrun)
    exact Or.inl ⟨config, rfl, rfl, rfl⟩

theorem Settled.step (h : Settled e) (hstep : e.step finish ev = some e') : Settled e' := by
  obtain ⟨⟨e₁, sent⟩, hexec, rfl⟩ := map_eq_some_iff.mp hstep
  rcases h.exec hexec with ⟨config, -, rfl, -⟩ | ⟨k, joined, hop⟩
  · exact h.refreshConfig config
  · exact hop.settled

/-! ### Sockets and their holders -/

/-- The number of queries in flight that hold a slot. -/
def holders (e : ForwardEngine D) (i : ℕ) : ℕ :=
  e.table.frecs.countP fun f => f.sentto.isSome && f.rfds.contains i

/-- **The sockets are counted**: an open slot has the number of queries in flight that hold it for
its reference count, and at least one; no record lists a slot twice or an empty one; a temporary
slot has one holder; nothing waits to be released; and so a slot is open exactly while some query in
flight holds it. -/
structure SocketsCounted (e : ForwardEngine D) : Prop where
  refcount : ∀ i r, e.rfdPool.slot i = some r → r.refcount = e.holders i ∧ 1 ≤ r.refcount
  nodup : ∀ f ∈ e.table.frecs, f.rfds.Nodup
  open_of_mem : ∀ f ∈ e.table.frecs, ∀ i ∈ f.rfds, e.rfdPool.slot i ≠ none
  temporary : ∀ i r, e.rfdPool.slot i = some r → r.temporary → e.holders i = 1
  released : e.table.releasedRfds = []
  open_iff : ∀ i, e.rfdPool.slot i ≠ none ↔ ∃ f ∈ e.table.frecs, f.sentto ≠ none ∧ i ∈ f.rfds

omit [Inhabited D] in
/-- In a list of records in order, a slot occurs once for each query in flight that holds it. -/
theorem count_flatMap_rfds {fs : List (Frec D)} (h : ∀ f ∈ fs, FrecOk f) :
    (fs.flatMap (·.rfds)).count i = fs.countP fun f => f.sentto.isSome && f.rfds.contains i := by
  induction fs with
  | nil => rfl
  | cons f fs ih =>
    have hf := h f (by simp)
    rw [flatMap_cons, count_append, ih fun g hg => h g (by simp [hg]), countP_cons]
    have hone : f.rfds.count i = if f.sentto.isSome && f.rfds.contains i then 1 else 0 := by
      by_cases hmem : i ∈ f.rfds
      · have hs : f.sentto.isSome := by
          rw [isSome_iff_ne_none]
          intro hnone
          rw [hf.idle hnone] at hmem
          cases hmem
        rw [count_eq_one_of_mem hf.nodup hmem, if_pos (by simp [hs, hmem])]
      · rw [count_eq_zero.mpr hmem, if_neg (by simp [hmem])]
    rw [hone, Nat.add_comm]

omit [Inhabited D] in
theorem Settled.socketsCounted {e : ForwardEngine D} (h : Settled e) : SocketsCounted e := by
  have hheld : e.table.held = e.table.frecs.flatMap (·.rfds) := by
    rw [held, h.released, append_nil]
  have hcount : ∀ i, e.table.held.count i = e.holders i := by
    intro i
    rw [hheld]
    exact count_flatMap_rfds h.table.records
  have hrefs : ∀ i r, e.rfdPool.slot i = some r → e.rfdPool.refs i = some r.refcount := by
    intro i r hr
    rw [refs, hr]
    rfl
  have hopen : ∀ i, e.rfdPool.slot i ≠ none ↔ i ∈ e.table.held := by
    intro i
    rw [← h.pool.balanced.ne_none_iff, refs]
    simp
  refine ⟨?_, fun f hf => (h.table.records f hf).nodup, ?_, ?_, h.released, ?_⟩
  · intro i r hr
    obtain ⟨heq, hpos⟩ := h.pool.balanced.eq_count (hrefs i r hr)
    exact ⟨heq.trans (hcount i), hpos⟩
  · intro f hf i hi
    rw [hopen, hheld]
    exact mem_flatMap.mpr ⟨f, hf, hi⟩
  · intro i r hr htemp
    obtain ⟨heq, -⟩ := h.pool.balanced.eq_count (hrefs i r hr)
    rw [← hcount, ← heq]
    exact h.pool.temporary i r hr htemp
  · intro i
    rw [hopen, hheld, mem_flatMap]
    constructor
    · rintro ⟨f, hf, hi⟩
      refine ⟨f, hf, ?_, hi⟩
      intro hnone
      rw [(h.table.records f hf).idle hnone] at hi
      cases hi
    · rintro ⟨f, hf, -, hi⟩
      exact ⟨f, hf, hi⟩

/-- **Every reachable state of the engine has its sockets counted**, whatever the steps were and
whichever binds and sends failed. -/
theorem socketsCounted_of_reaches (finish : Bytes → H) (config : ForwardConfig) (maxFd : ℕ)
    (h : Reaches (step finish) (fun _ _ => True) (ForwardEngine.new config maxFd) e) :
    SocketsCounted e :=
  (h.invariant (settled_new config maxFd) fun _ _ _ hs _ hstep => hs.step hstep).socketsCounted

/-- The answer to `sampleQuery`. -/
def sampleReply : Bytes := [0, 7, 0x81, 0x80, 0, 1, 0, 0, 0, 0, 0, 0, 1, 97, 0, 0, 1, 0, 1]

/-- An IPv4 socket address `10.0.0.n:53`. -/
def sampleAddr (n : UInt8) : SocketAddr := ⟨.v4 (.new 10 0 0 n), 53⟩

/-- A query for `a`, type A, class IN, that gets a socket and goes out under ID 7. -/
def sampleQuery : Query where
  pkt := [0, 7, 1, 0, 0, 1, 0, 0, 0, 0, 0, 0, 1, 97, 0, 0, 1, 0, 1]
  client := sampleAddr 99
  listener := 0
  dest := none
  now := 0
  draws := [7]
  stash := [0, 7, 1, 0, 0, 1, 0, 0, 0, 0, 0, 0, 1, 97, 0, 0, 1, 0, 1]
  net := { bind := some 1000, sendOk := true }

/-- After the query has been sent, its socket is open with one reference. -/
theorem socketsCounted_sampleQuery :
    ∃ e, (ForwardEngine.new { upstreams := [sampleAddr 1] } 64).step id (.forwardQuery sampleQuery)
        = some e
      ∧ e.rfdPool.slot 0 = some ⟨1000, 1, some 0, false⟩ ∧ SocketsCounted e := by
  have hsome : (((ForwardEngine.new { upstreams := [sampleAddr 1] } 64).step id
      (.forwardQuery sampleQuery)).any fun e =>
        e.rfdPool.slot 0 = some ⟨1000, 1, some 0, false⟩) := by decide +kernel
  obtain ⟨e, hstep, hslot⟩ := (any_eq_true _ _).mp hsome
  refine ⟨e, hstep, by simpa using hslot, ?_⟩
  exact socketsCounted_of_reaches id { upstreams := [sampleAddr 1] } 64
    (.tail .refl trivial hstep)

end DnsmasqRs.Forward.ForwardEngine
