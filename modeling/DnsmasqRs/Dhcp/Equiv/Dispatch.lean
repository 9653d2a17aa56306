import DnsmasqRs.Dhcp.Equiv.Lease
import DnsmasqRs.Lib.Run

/-!
# What a dispatch does to the leases

A dispatch leaves the database as it is, removes the lease a RELEASE or DECLINE names, or puts the
address it grants on record (`Effect`).  An address is granted because the packet or the tables name
it (`namedAddr`), or because the search found it, and then it has no lease (`allocateFor_free`).

Every database that dispatches lead to from an empty one is `Ok`.
-/

namespace DnsmasqRs.Dhcp

open Wire Utf8 Fallible Option

/-! ### The search -/

theorem scan_isFree {search : Search} {c : DhcpContext} {first addr a : Ipv4Addr} {fuel : ℕ}
    {cache cache' : PingCache} (h : search.scan c first fuel addr cache = (some a, cache')) :
    search.isFree a := by
  induction fuel generalizing addr cache with
  | zero => cases h
  | succ fuel ih =>
    unfold Search.scan at h
    by_cases hfree : search.isFree addr
    · rw [if_pos hfree] at h
      dsimp only at h
      split at h
      · obtain rfl := some.inj (Prod.ext_iff.mp h).1
        exact hfree
      · split at h
        · cases h
        · exact ih h
    · -- an address that is taken is passed over
      rw [if_neg hfree] at h
      dsimp only [any_none] at h
      rw [if_neg Bool.false_ne_true] at h
      split at h
      · cases h
      · exact ih h

theorem inContexts_isFree {search : Search} {cs : List DhcpContext} {a : Ipv4Addr}
    {cache cache' : PingCache} (h : search.inContexts cs cache = (some a, cache')) :
    search.isFree a := by
  induction cs generalizing cache with
  | nil => cases h
  | cons c cs ih =>
    unfold Search.inContexts at h
    split at h
    · next hc =>
      obtain rfl := some.inj (Prod.ext_iff.mp h).1
      exact scan_isFree hc
    · exact ih h

variable {pkt : DhcpPacket} {cfg : DhcpServerConfig} {contexts : List DhcpContext}
  {db db' : LeaseDb}
  {env : Surroundings} {client : ClientInfo} {a : Ipv4Addr} {cache : PingCache}

/-- **An address that was searched for** has no lease and no host entry. -/
theorem allocateFor_free {tags : List DhcpNetid}
    (h : allocateFor pkt cfg contexts db env tags = (some a, cache)) :
    db.findByAddr a = none ∧ configFindByAddress cfg.configs a = none := by
  have hfree := inContexts_isFree h
  unfold Search.isFree at hfree
  simp only [Bool.and_eq_true, isNone_iff_eq_none] at hfree
  exact ⟨hfree.1.2, hfree.2⟩

/-! ### Grants -/

section

variable (pkt : DhcpPacket) (cfg : DhcpServerConfig) (contexts : List DhcpContext) (db : LeaseDb)
  (client : ClientInfo) (a : Ipv4Addr)

/-- The address a reply assigns: that of a BOOTP reply, or of an ACK unless it answers an INFORM. -/
def grantedAddr (reply : Option DispatchedDhcpReply) : Option Ipv4Addr :=
  reply.bind fun d =>
    if d.reply.msgType = .bootp
        ∨ (d.reply.msgType = .ack ∧ getMessageType pkt.options ≠ some .inform) then
      some d.reply.yiaddr
    else none

/-- The address a client gets without a search: the one it asks for in a REQUEST, the one of its
host entry, or, by BOOTP, the one of the lease under its key. -/
def namedAddr : Option Ipv4Addr :=
  match getMessageType pkt.options with
  | some .request => requestedAddr pkt
  | some _ => client.staticAddr
  | none =>
    client.staticAddr <|> ((db.findByClientId pkt.clientKey).filter fun l =>
        addressAvailable (allocationContexts cfg contexts) l.addr).map (·.addr)

/-- The address is named, or it is not and has no lease. -/
def NamedOrFree : Prop :=
  namedAddr pkt cfg contexts db client = some a
    ∨ namedAddr pkt cfg contexts db client = none ∧ db.findByAddr a = none

/-- A grant is put on record, unless it is an ACK for 0.0.0.0. -/
def recordsGrant : Prop :=
  a ≠ .unspecified ∨ getMessageType pkt.options = none

end

instance : Decidable (recordsGrant pkt a) := inferInstanceAs (Decidable (_ ∨ _))

/-- **What a dispatch can do**. -/
inductive Effect (pkt : DhcpPacket) (cfg : DhcpServerConfig) (contexts : List DhcpContext)
    (db : LeaseDb) (env : Surroundings) : Outcome → Prop where
  | idle {reply : Option DispatchedDhcpReply} {cache : PingCache}
      (h : grantedAddr pkt reply = none) :
      Effect pkt cfg contexts db env (reply, db, cache)
  | giveUp {client : ClientInfo} {msgType : DhcpMsgType} {a : Ipv4Addr}
      (hclient : identify pkt cfg = .ok (some client))
        (hmsg : getMessageType pkt.options = some msgType)
      (h : givenUpAddr pkt cfg msgType = some a) :
      Effect pkt cfg contexts db env (none, db.removeByAddr a, env.pingCache)
  | grant {client : ClientInfo} {a : Ipv4Addr} {d : DispatchedDhcpReply} {cache : PingCache}
      {db' : LeaseDb} (secs : UInt32) (hclient : identify pkt cfg = .ok (some client))
      (hgrant : grantedAddr pkt (some d) = some a)
      (haddr : NamedOrFree pkt cfg contexts db client a)
      (hdb : db' = if recordsGrant pkt a then
          recordLease db a pkt client.clid client.hostname secs env.commitTime
        else db) :
      Effect pkt cfg contexts db env (some d, db', cache)

theorem bootpAddr_namedOrFree (hmsg : getMessageType pkt.options = none)
    (h : bootpAddr pkt cfg contexts db env client = (some a, cache)) :
    NamedOrFree pkt cfg contexts db client a := by
  unfold bootpAddr at h
  unfold NamedOrFree namedAddr
  rw [hmsg]
  cases hstatic : client.staticAddr with
  | some addr =>
    rw [hstatic] at h
    dsimp only at h
    split at h
    · cases h
    · exact .inl (Prod.ext_iff.mp h).1
  | none =>
    rw [hstatic] at h
    dsimp only at h
    split at h
    · next existing hl =>
      left
      rw [hl]
      exact (Prod.ext_iff.mp h).1
    · next hl =>
      right
      rw [hl]
      exact ⟨rfl, (allocateFor_free h).1⟩

theorem effect_dispatchBootp (hclient : identify pkt cfg = .ok (some client))
    (hmsg : getMessageType pkt.options = none) :
    Effect pkt cfg contexts db env (dispatchBootp pkt cfg contexts db env client) := by
  unfold dispatchBootp
  split
  · exact .idle rfl
  · split
    · exact .idle rfl
    · next a cache haddr =>
      split
      · exact .idle rfl
      · split
        · exact .idle rfl
        · exact .grant (bootpLeaseTime client) hclient rfl (bootpAddr_namedOrFree hmsg haddr)
            (if_pos (.inr hmsg)).symm

variable {reply : DhcpReply}

/-- **What a DISCOVER is answered with**: an offer or an ACK for the reserved address or, without
one, for the address that was searched for. -/
theorem answerDiscover_spec (h : (answerDiscover pkt cfg contexts db env client).1 = some reply) :
    (client.staticAddr = some reply.yiaddr ∨ client.staticAddr = none
        ∧ (allocateFor pkt cfg contexts db env client.allTags).1 = some reply.yiaddr)
      ∧ (reply.msgType = .offer ∨ reply.msgType = .ack) := by
  have hoffer (offer : DhcpReply)
    (h : handleDiscover pkt cfg.poolStart cfg.poolEnd none client.staticAddr
      (if client.staticAddr.isNone then allocateFor pkt cfg contexts db env client.allTags
        else (none, env.pingCache)).1 = some offer) :
      (client.staticAddr = some offer.yiaddr ∨ client.staticAddr = none
          ∧ (allocateFor pkt cfg contexts db env client.allTags).1 = some offer.yiaddr)
        ∧ offer.msgType = .offer := by
    -- there is no existing lease to pick
    obtain ⟨addr, haddr, rfl⟩ := map_eq_some_iff.mp h
    refine ⟨?_, rfl⟩
    cases hstatic : client.staticAddr with
    | some b =>
      rw [hstatic] at haddr
      exact .inl haddr
    | none =>
      rw [hstatic, isNone_none] at haddr
      exact .inr ⟨rfl, haddr⟩
  unfold answerDiscover at h
  dsimp only at h
  split at h
  · obtain ⟨offer, hsome, hack⟩ := bind_eq_some_iff.mp h
    unfold makeRapidCommitAck at hack
    split at hack
    · obtain rfl := some.inj hack
      exact ⟨(hoffer offer hsome).1, .inr rfl⟩
    · cases hack
  · exact ⟨(hoffer reply h).1, .inl (hoffer reply h).2⟩

theorem answerDiscover_namedOrFree (hmsg : getMessageType pkt.options = some .discover)
    (h : answerDiscover pkt cfg contexts db env client = (some reply, cache)) :
    NamedOrFree pkt cfg contexts db client reply.yiaddr := by
  unfold NamedOrFree namedAddr
  rw [hmsg]
  obtain ⟨hstatic | ⟨hstatic, hscan⟩, -⟩ := answerDiscover_spec (Prod.ext_iff.mp h).1
  · exact .inl hstatic
  · exact .inr ⟨hstatic, (allocateFor_free (Prod.ext hscan rfl)).1⟩

theorem answerDiscover_ne_bootp
    (h : answerDiscover pkt cfg contexts db env client = (some reply, cache)) :
    reply.msgType ≠ .bootp := by
  obtain ⟨-, hoffer | hack⟩ := answerDiscover_spec (Prod.ext_iff.mp h).1
  · rw [hoffer]
    nofun
  · rw [hack]
    nofun

/-- An ACK to a REQUEST is for the address that was asked for. -/
theorem requestedAddr_of_ack (h : answerRequest pkt cfg client = some reply)
    (hack : reply.msgType = .ack) : requestedAddr pkt = some reply.yiaddr := by
  obtain ⟨requested, hreq, rfl⟩ := map_eq_some_iff.mp h
  split at hack
  · next hrange =>
    rw [if_pos hrange, hreq]
    unfold addressInRange at hrange
    cases hstatic : client.staticAddr with
    | none => rfl
    | some addr =>
      rw [hstatic] at hrange
      simp only [Bool.and_eq_true, decide_eq_true_eq] at hrange
      exact congrArg some hrange.2
  · cases hack

/-- The end of a dispatch: an ACK is put on record. -/
theorem effect_commitReply
    (hclient : identify pkt cfg = .ok (some client))
    (hmsg : getMessageType pkt.options = some msgType) (hbootp : reply.msgType ≠ .bootp)
    (haddr : reply.msgType = .ack → msgType ≠ .inform →
      NamedOrFree pkt cfg contexts db client reply.yiaddr) : Effect pkt cfg contexts db env
      (some (commitReply pkt cfg contexts db env client msgType reply).1,
        (commitReply pkt cfg contexts db env client msgType reply).2, cache) := by
  set committed := commitReply pkt cfg contexts db env client msgType reply with hcommitted
  have hreply : committed.1.reply = reply := rfl
  by_cases hack : reply.msgType = .ack ∧ msgType ≠ .inform
  · have hgrant : grantedAddr pkt (some committed.1) = some reply.yiaddr := by
      unfold grantedAddr
      exact if_pos (.inr ⟨hack.1, by rw [hmsg]; exact fun h => hack.2 (some.inj h)⟩)
    refine .grant (replyLeaseTime contexts reply) hclient hgrant (haddr hack.1 hack.2) ?_
    rw [hcommitted]
    refine if_congr ?_ rfl rfl
    unfold recordsGrant
    rw [hmsg]
    simp [hack.1, hack.2]
  · have hgrant : grantedAddr pkt (some committed.1) = none := by
      unfold grantedAddr
      refine if_neg ?_
      rintro (h | ⟨h, hne⟩)
      · exact hbootp h
      · exact hack ⟨h, fun h => hne (by rw [hmsg, h])⟩
    have hdb : committed.2 = db := if_neg fun h => hack ⟨h.1, h.2.2⟩
    rw [hdb]
    exact .idle hgrant

theorem grantedAddr_leasequery :
    grantedAddr pkt (dispatchLeasequery pkt cfg contexts db) = none := by
  unfold dispatchLeasequery grantedAddr
  split
  · refine if_neg ?_
    split
    all_goals split <;> simp
  · rfl

theorem effect_dispatchMessage (hclient : identify pkt cfg = .ok (some client))
    (hmsg : getMessageType pkt.options = some msgType) :
    Effect pkt cfg contexts db env (dispatchMessage pkt cfg contexts db env client msgType) := by
  unfold dispatchMessage
  cases msgType with
  | discover =>
    cases hreply : answerDiscover pkt cfg contexts db env client with
    | mk reply cache =>
      cases reply with
      | none => exact .idle rfl
      | some reply =>
        refine effect_commitReply hclient hmsg ?_ fun _ _ => answerDiscover_namedOrFree hmsg hreply
        exact answerDiscover_ne_bootp hreply
  | request =>
    cases hreply : answerRequest pkt cfg client with
    | none => exact .idle rfl
    | some reply =>
      refine effect_commitReply hclient hmsg ?_ fun hack _ => .inl ?_
      · obtain ⟨requested, -, rfl⟩ := map_eq_some_iff.mp hreply
        split <;> exact nofun
      · unfold namedAddr
        rw [hmsg]
        exact requestedAddr_of_ack hreply hack
  | inform =>
    cases hreply : handleInform pkt with
    | none => exact .idle rfl
    | some reply =>
      refine effect_commitReply hclient hmsg ?_ fun _ hne => absurd rfl hne
      unfold handleInform at hreply
      split at hreply
      · cases hreply
      · obtain rfl := some.inj hreply
        exact nofun
  | release | decline =>
    dsimp only
    split
    · next a ha => exact .giveUp hclient hmsg ha
    · exact .idle rfl
  | leaseQuery =>
    exact .idle grantedAddr_leasequery
  | _ => exact .idle rfl

/-- **The effect of `dispatch_dhcp_with_meta_view`**. -/
theorem effect_of_dispatch (h : dispatchDhcpWithMetaView pkt cfg contexts db env = .ok outcome) :
    Effect pkt cfg contexts db env outcome := by
  obtain ⟨found, hfound, h⟩ := bind_eq_ok.mp h
  cases found with
  | none =>
    obtain rfl := Except.ok.inj h
    exact .idle rfl
  | some client =>
    cases hmsg : getMessageType pkt.options with
    | some msgType =>
      rw [hmsg] at h
      obtain rfl := Except.ok.inj h
      exact effect_dispatchMessage hfound hmsg
    | none =>
      rw [hmsg] at h
      dsimp only at h
      split at h
      · obtain rfl := Except.ok.inj h
        exact .idle rfl
      · obtain rfl := Except.ok.inj h
        exact effect_dispatchBootp hfound hmsg

theorem clid_of_identify (h : identify pkt cfg = .ok (some client)) :
    client.clid = findOption pkt.options optionClientId := by
  unfold identify at h
  dsimp only at h
  obtain ⟨tags, -, h⟩ := bind_eq_ok.mp h
  split at h
  · cases h
  · split at h
    · cases h
    · split at h
      · cases h
      · obtain rfl := some.inj (Except.ok.inj h)
        rfl

/-! ### Runs -/

/-- A packet that is dispatched. -/
structure Event where
  pkt : DhcpPacket
  cfg : DhcpServerConfig
  env : Surroundings

/-- The database after `dispatch_dhcp_with_meta`, or `none` if it panics. -/
def step (db : LeaseDb) (ev : Event) : Option LeaseDb :=
  (dispatchDhcpWithMeta ev.pkt ev.cfg db ev.env).toOption.map (·.2.1)

/-- The databases that dispatches lead to from an empty one. -/
def Reachable (db : LeaseDb) : Prop :=
  ∃ maxLeases, Run.Reaches step (fun _ _ => True) { maxLeases } db

/-- Whatever a dispatch does, the table stays in step with its index. -/
theorem Effect.ok (h : Effect pkt cfg contexts db env outcome) (hdb : Ok db.store) :
    Ok outcome.2.1.store := by
  cases h with
  | idle => exact hdb
  | giveUp => exact hdb.removeByAddr _
  | grant secs _ _ _ hrec =>
    rw [hrec]
    split
    · exact (hdb.recordLease pkt _ _ secs env.commitTime _).ok
    · exact hdb

theorem reachable_of_run {events : List Event} (h : events.foldlM step LeaseDb.new = some db) :
    Reachable db := by
  have hrun (events : List Event) (db₀ : LeaseDb) (h₀ : Reachable db₀)
      (h : events.foldlM step db₀ = some db) : Reachable db := by
    induction events generalizing db₀ with
    | nil =>
      obtain rfl := some.inj h
      exact h₀
    | cons ev events ih =>
      obtain ⟨db₁, hstep, h⟩ := bind_eq_some_iff.mp h
      obtain ⟨n, hreach⟩ := h₀
      exact ih db₁ ⟨n, hreach.tail trivial hstep⟩ h
  exact hrun events .new ⟨1000, .refl⟩ h

theorem Reachable.ok (h : Reachable db) : Ok db.store := by
  obtain ⟨n, hrun⟩ := h
  refine hrun.invariant (I := fun db => Ok db.store) ok_empty ?_
  intro db ev db' hdb _ hstep
  obtain ⟨outcome, hout, rfl⟩ := map_eq_some_iff.mp hstep
  exact (effect_of_dispatch (toOption_eq_some.mp hout)).ok hdb

end DnsmasqRs.Dhcp
