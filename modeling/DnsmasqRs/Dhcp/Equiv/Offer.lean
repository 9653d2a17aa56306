import DnsmasqRs.Dhcp.Equiv.Grant

/-!
# Offers and what becomes of them

An offer is chosen from all the ranges of the interface, but the REQUEST that accepts it is judged
by the first range of the configuration (`acked_iff`).  An offer for a client that has a lease is
for another address, since the search passes over addresses with a lease (`offersHeld_iff`).
-/

namespace DnsmasqRs.Dhcp

open Wire Utf8 Fallible Option

/-! ### The dispatch on an interface -/

/-- The configuration and the ranges a packet from an interface is answered by. -/
def arrivalView (cfg : DhcpServerConfig) (arrival : Option ArrivalInterface) :
    DhcpServerConfig × List DhcpContext :=
  match arrival with
  | none => (cfg, cfg.contexts)
  | some iface =>
    let (contexts, linked) := linkContextsForInterface cfg.contexts iface
    ({ cfg with contexts }, if linked = [] then contexts else linked)

variable {pkt : DhcpPacket} {cfg cfg' : DhcpServerConfig} {contexts : List DhcpContext}
  {db db' : LeaseDb}
  {env : Surroundings} {client : ClientInfo} {a : Ipv4Addr} {cache : PingCache}
  {arrival : Option ArrivalInterface}

theorem arrivalView_fst : ∃ contexts, (arrivalView cfg arrival).1 = { cfg with contexts } := by
  cases arrival with
  | none => exact ⟨cfg.contexts, rfl⟩
  | some iface => exact ⟨_, rfl⟩

/-- `dispatch_dhcp_with_arrival` returns what `dispatch_dhcp_with_meta_view` does on its view; only
the interface of the lease may be noted. -/
theorem dispatchDhcpWithArrival_eq_ok :
    (∃ db', dispatchDhcpWithArrival pkt cfg db env arrival = .ok ((reply, db', cache), cfg')) ↔
      (∃ db',
        dispatchDhcpWithMetaView pkt (arrivalView cfg arrival).1 (arrivalView cfg arrival).2 db env
          =
        .ok (reply, db', cache)) ∧ cfg' = (arrivalView cfg arrival).1 := by
  cases arrival with
  | none =>
    constructor
    · rintro ⟨db', h⟩
      obtain ⟨outcome, hout, h⟩ := bind_eq_ok.mp h
      cases h
      exact ⟨⟨db', hout⟩, rfl⟩
    · rintro ⟨⟨db', hout⟩, rfl⟩
      exact ⟨db', bind_eq_ok.mpr ⟨_, hout, rfl⟩⟩
  | some iface =>
    constructor
    · rintro ⟨db', h⟩
      obtain ⟨⟨reply', db'', cache'⟩, hout, h⟩ := bind_eq_ok.mp h
      cases h
      exact ⟨⟨db'', hout⟩, rfl⟩
    · rintro ⟨⟨db', hout⟩, rfl⟩
      exact ⟨_, bind_eq_ok.mpr ⟨_, hout, rfl⟩⟩

theorem configs_arrivalView (cfg : DhcpServerConfig) (arrival : Option ArrivalInterface) :
    (arrivalView cfg arrival).1.configs = cfg.configs := by
  obtain ⟨contexts, heq⟩ := arrivalView_fst
  rw [heq]

theorem identify_arrivalView : identify pkt (arrivalView cfg arrival).1 = identify pkt cfg := by
  obtain ⟨contexts, heq⟩ := arrivalView_fst
  rw [heq]
  rfl

/-! ### The offer -/

theorem reply_of_discover (hmsg : getMessageType pkt.options = some .discover)
    (h : dispatchDhcpWithMetaView pkt cfg contexts db env = .ok outcome) :
    ∃ found, identify pkt cfg = .ok found
      ∧ outcome.1.map (·.reply) = found.bind fun client =>
        (answerDiscover pkt cfg contexts db env client).1 := by
  obtain ⟨found, hfound, h⟩ := bind_eq_ok.mp h
  refine ⟨found, hfound, ?_⟩
  cases found with
  | none =>
    obtain rfl := Except.ok.inj h
    rfl
  | some client =>
    rw [hmsg] at h
    obtain rfl := Except.ok.inj h
    unfold dispatchMessage
    rw [bind_some]
    dsimp only
    cases (answerDiscover pkt cfg contexts db env client).1 <;> rfl

/-- A DISCOVER is answered with the reserved address, or with one that has no host entry. -/
theorem static_or_unreserved_of_answerDiscover
    (h : (answerDiscover pkt cfg contexts db env client).1 = some reply) :
    client.staticAddr = some reply.yiaddr
      ∨ client.staticAddr = none ∧ configFindByAddress cfg.configs reply.yiaddr = none := by
  obtain ⟨hstatic | ⟨hstatic, hscan⟩, -⟩ := answerDiscover_spec h
  · exact .inl hstatic
  · exact .inr ⟨hstatic, (allocateFor_free (Prod.ext hscan rfl)).2⟩

/-! ### The request -/

/-- The address is acknowledged by the rules for a REQUEST. -/
def ClientInfo.mayHave (client : ClientInfo) (cfg : DhcpServerConfig) (a : Ipv4Addr) : Bool :=
  addressInRange a cfg.poolStart cfg.poolEnd client.staticAddr
    (client.reservedForOther cfg.configs a)

theorem mayHave_arrivalView (client : ClientInfo) (cfg : DhcpServerConfig)
    (arrival : Option ArrivalInterface) (a : Ipv4Addr) :
    client.mayHave (arrivalView cfg arrival).1 a = client.mayHave cfg a := by
  obtain ⟨contexts, heq⟩ := arrivalView_fst
  rw [heq]
  rfl

/-- The packet is answered with an ACK for the address. -/
def Acked (result : Except Fault (Outcome × DhcpServerConfig)) (a : Ipv4Addr) : Prop :=
  ∃ d db cache cfg, result = .ok ((some d, db, cache), cfg) ∧ d.reply.msgType = .ack
    ∧ d.reply.yiaddr = a

theorem answerRequest_eq (haddr : findRequestedIp pkt.options = some a) :
    answerRequest pkt cfg client =
      some (if client.mayHave cfg a then { msgType := .ack, yiaddr := a, giaddr := pkt.giaddr }
        else { msgType := .nak, yiaddr := .unspecified, giaddr := pkt.giaddr }) := by
  have hreq : requestedAddr pkt = some a := by
    unfold requestedAddr
    rw [haddr]
    rfl
  have hsame (hmay : client.mayHave cfg a) : client.staticAddr.getD a = a := by
    unfold ClientInfo.mayHave addressInRange at hmay
    cases hstatic : client.staticAddr with
    | none => rfl
    | some b =>
      rw [hstatic] at hmay
      simp only [Bool.and_eq_true, decide_eq_true_eq] at hmay
      exact hmay.2.symm
  unfold answerRequest handleRequest
  rw [hreq]
  show some (if client.mayHave cfg a then _ else _) = _
  split
  · next hmay => rw [hsame hmay]
  · rfl

theorem dispatch_request (hmsg : getMessageType pkt.options = some .request)
    (haddr : findRequestedIp pkt.options = some a)
    (hclient : identify pkt cfg = .ok (some client)) :
    ∃ d db', dispatchDhcpWithMetaView pkt cfg contexts db env = .ok (some d, db', env.pingCache)
      ∧ d.reply
        = if client.mayHave cfg a then { msgType := .ack, yiaddr := a, giaddr := pkt.giaddr }
        else { msgType := .nak, yiaddr := .unspecified, giaddr := pkt.giaddr } := by
  have hview : dispatchDhcpWithMetaView pkt cfg contexts db env =
      .ok (dispatchMessage pkt cfg contexts db env client .request) := by
    unfold dispatchDhcpWithMetaView
    rw [hclient]
    dsimp only [bind, Except.bind]
    rw [hmsg]
    rfl
  rw [hview]
  unfold dispatchMessage
  rw [answerRequest_eq haddr]
  exact ⟨_, _, rfl, rfl⟩

/-- **A REQUEST is answered with an ACK** exactly if the client is not ignored and may have the
address. -/
theorem acked_iff_mayHave (hmsg : getMessageType pkt.options = some .request)
    (haddr : findRequestedIp pkt.options = some a) :
    Acked (dispatchDhcpWithArrival pkt cfg db env arrival) a ↔
      ∃ client, identify pkt cfg = .ok (some client) ∧ client.mayHave cfg a := by
  constructor
  · rintro ⟨d, db', cache, cfg', h, hack, -⟩
    obtain ⟨⟨db'', hview⟩, -⟩ := dispatchDhcpWithArrival_eq_ok.mp ⟨db', h⟩
    obtain ⟨found, hfound, hrest⟩ := bind_eq_ok.mp hview
    cases found with
    | none => cases hrest
    | some client =>
      obtain ⟨d', db₁, hview', hreply⟩ := dispatch_request hmsg haddr hfound
      cases hview.symm.trans hview'
      refine ⟨client, (identify_arrivalView).symm.trans hfound, ?_⟩
      rw [mayHave_arrivalView] at hreply
      by_contra hnot
      rw [hreply, if_neg hnot] at hack
      cases hack
  · rintro ⟨client, hclient, hcan⟩
    obtain ⟨d, db', hview, hreply⟩ :=
      dispatch_request hmsg haddr ((identify_arrivalView).trans hclient)
    obtain ⟨db'', h⟩ := dispatchDhcpWithArrival_eq_ok.mpr ⟨⟨db', hview⟩, rfl⟩
    rw [mayHave_arrivalView, if_pos hcan] at hreply
    exact ⟨d, db'', _, _, h, by rw [hreply], by rw [hreply]⟩

/-! ### An offer that is taken up -/

/-- The configuration is as `daemon_dhcp_runtime` builds it: the pool is the first range. -/
structure RuntimeConfig (cfg : DhcpServerConfig) (first : DhcpContext) : Prop where
  head : cfg.contexts.head? = some first
  poolStart : cfg.poolStart = first.start
  poolEnd : cfg.poolEnd = first.finish

/-- The packets come from one client, with the same options but for the message type and the
requested address. -/
structure SameClient (disc req : DhcpPacket) : Prop where
  htype : req.htype = disc.htype
  hlen : req.hlen = disc.hlen
  chaddr : req.chaddr = disc.chaddr
  option : ∀ code, code ≠ optionMessageType → code ≠ optionRequestedIp →
    findOption req.options code = findOption disc.options code

/-- The tags a packet gets. -/
def packetTags (pkt : DhcpPacket) (cfg : DhcpServerConfig) : Except Fault (List DhcpNetid) :=
  derivedTags pkt cfg ((findOption pkt.options optionHostname).bind fromUtf8)

section SameClient

variable {disc req : DhcpPacket}

theorem SameClient.hwaddr (h : SameClient disc req) : req.hwaddr = disc.hwaddr := by
  unfold DhcpPacket.hwaddr DhcpPacket.hwLen
  rw [h.chaddr, h.hlen]

/-- With the same tags the two packets are taken for the same client. -/
theorem SameClient.identify_eq (h : SameClient disc req)
    (htags : packetTags req cfg = packetTags disc cfg) :
    identify req cfg = identify disc cfg := by
  unfold packetTags at htags
  unfold identify
  dsimp only
  rw [htags, h.option optionClientId (by decide) (by decide),
    h.option optionHostname (by decide) (by decide), h.hwaddr, h.htype]

end SameClient

/-- The offer can be taken up.  If the two packets get the same tags, a reserved address must not
have an earlier host entry of another client, and any other address must lie in the first range;
else it is for the tags of the REQUEST to decide. -/
structure Accepts (cfg : DhcpServerConfig) (first : DhcpContext) (disc req : DhcpPacket)
    (a : Ipv4Addr) :
    Prop where
  sameTags : packetTags req cfg = packetTags disc cfg →
    ∀ client, identify disc cfg = .ok (some client) →
    if client.staticAddr.isSome then client.reservedForOther cfg.configs a = false
    else first.covers a
  otherTags : packetTags req cfg ≠ packetTags disc cfg →
    ∃ client, identify req cfg = .ok (some client) ∧ client.mayHave cfg a

/-- **An offer can be taken up** exactly if it is for a reserved address or one of the first range.
-/
theorem acked_iff {first : DhcpContext} {disc req : DhcpPacket} {d : DispatchedDhcpReply}
    {env' : Surroundings} (hcfg : RuntimeConfig cfg first)
    (hdisc : getMessageType disc.options = some .discover)
    (hoffer : dispatchDhcpWithArrival disc cfg db env arrival = .ok ((some d, db', cache), cfg'))
    (hsame : SameClient disc req) (hreq : getMessageType req.options = some .request)
    (haddr : findRequestedIp req.options = some d.reply.yiaddr) :
    Acked (dispatchDhcpWithArrival req cfg' db' env' arrival) d.reply.yiaddr ↔
      Accepts cfg first disc req d.reply.yiaddr := by
  obtain ⟨⟨db'', hview⟩, rfl⟩ := dispatchDhcpWithArrival_eq_ok.mp ⟨db', hoffer⟩
  obtain ⟨found, hclient, hreply⟩ := reply_of_discover hdisc hview
  obtain ⟨client, rfl, hanswer⟩ := bind_eq_some_iff.mp hreply.symm
  rw [identify_arrivalView] at hclient
  -- on the address that was offered, what a REQUEST is judged by comes down to the two rules
  have hmay : client.mayHave cfg d.reply.yiaddr ↔
      if client.staticAddr.isSome then client.reservedForOther cfg.configs d.reply.yiaddr = false
      else first.covers d.reply.yiaddr := by
    unfold ClientInfo.mayHave addressInRange
    obtain hstatic | ⟨hstatic, hnone⟩ := static_or_unreserved_of_answerDiscover hanswer
    · simp [hstatic]
    · have hfree : client.reservedForOther cfg.configs d.reply.yiaddr = false := by
        unfold ClientInfo.reservedForOther
        rw [configs_arrivalView] at hnone
        rw [hnone, any_none]
      rw [hstatic, hfree, hcfg.poolStart, hcfg.poolEnd]
      rfl
  rw [acked_iff_mayHave hreq haddr]
  simp only [identify_arrivalView, mayHave_arrivalView]
  constructor
  · rintro ⟨client', hclient', hcan⟩
    refine ⟨?_, fun _ => ⟨client', hclient', hcan⟩⟩
    intro htags client'' hclient''
    rw [hsame.identify_eq htags, hclient] at hclient'
    rw [hclient] at hclient''
    cases hclient'
    cases hclient''
    exact hmay.mp hcan
  · intro haccepts
    by_cases htags : packetTags req cfg = packetTags disc cfg
    · exact ⟨client, (hsame.identify_eq htags).trans hclient,
        hmay.mpr (haccepts.sameTags htags client hclient)⟩
    · exact haccepts.otherTags htags

/-- Two networks with a range each, and the interface of the second. -/
def twoRanges : DhcpServerConfig where
  poolStart := sampleAddr 10
  poolEnd := sampleAddr 20
  contexts := [
    { leaseTime := 3600, start := sampleAddr 10, finish := sampleAddr 20 },
    { leaseTime := 3600, start := ⟨#v[10, 0, 0, 10]⟩, finish := ⟨#v[10, 0, 0, 20]⟩ }]

def secondInterface : ArrivalInterface where
  localAddr := ⟨#v[10, 0, 0, 1]⟩
  netmask := ⟨#v[255, 255, 255, 0]⟩
  broadcast := ⟨#v[10, 0, 0, 255]⟩
  ifIndex := 3

/-- A DISCOVER without a client ID, and the REQUEST for what it is offered on the second network. -/
def sampleDiscover (hw : UInt8) : DhcpPacket := samplePacket hw [53, 1, 1, 255]

def acceptingRequest : DhcpPacket := samplePacket 1 [53, 1, 3, 50, 4, 10, 0, 0, 15, 255]

theorem sameClient_acceptingRequest : SameClient (sampleDiscover 1) acceptingRequest where
  htype := rfl
  hlen := rfl
  chaddr := rfl
  option := by
    intro code hmsg hip
    have h53 : (53 : UInt8) ≠ code := hmsg.symm
    have h50 : (50 : UInt8) ≠ code := hip.symm
    simp [sampleDiscover, acceptingRequest, samplePacket, findOption, findOptionLoop, optionPad,
      optionEnd, h53, h50]

/-- What the client is offered on the second network, and what becomes of it. -/
theorem exists_offer : ∃ d db cache cfg,
    dispatchDhcpWithArrival (sampleDiscover 1) twoRanges .new {} (some secondInterface)
      = .ok ((some d, db, cache), cfg)
    ∧ d.reply.msgType = .offer ∧ findRequestedIp acceptingRequest.options = some d.reply.yiaddr
    ∧ ((dispatchDhcpWithArrival acceptingRequest cfg db {} (some secondInterface)).toOption.any
      fun r =>
      r.1.1.any (·.reply.msgType = .nak)) := by
  have hrun : ((dispatchDhcpWithArrival (sampleDiscover 1) twoRanges .new {}
      (some secondInterface)).toOption.any fun r => r.1.1.any fun d =>
        d.reply.msgType = .offer && (findRequestedIp acceptingRequest.options = some d.reply.yiaddr
          && (dispatchDhcpWithArrival acceptingRequest r.2 r.1.2.1 {}
            (some secondInterface)).toOption.any fun r => r.1.1.any (·.reply.msgType = .nak))) := by
    decide +kernel
  obtain ⟨⟨⟨reply, db, cache⟩, cfg⟩, hdisp, hany⟩ := (any_eq_true _ _).mp hrun
  obtain ⟨d, rfl, hfacts⟩ := (any_eq_true _ _).mp hany
  rw [Bool.and_eq_true, Bool.and_eq_true, decide_eq_true_eq, decide_eq_true_eq] at hfacts
  exact ⟨d, db, cache, cfg, toOption_eq_some.mp hdisp, hfacts⟩

theorem acked_iff_twoRanges : ∃ d db cache cfg,
    dispatchDhcpWithArrival (sampleDiscover 1) twoRanges .new {} (some secondInterface)
      = .ok ((some d, db, cache), cfg)
    ∧ ∃ first, RuntimeConfig twoRanges first
    ∧ (Acked (dispatchDhcpWithArrival acceptingRequest cfg db {} (some secondInterface))
      d.reply.yiaddr
      ↔ Accepts twoRanges first (sampleDiscover 1) acceptingRequest d.reply.yiaddr) := by
  obtain ⟨d, db, cache, cfg, hdisp, -, haddr, -⟩ := exists_offer
  have hcfg : RuntimeConfig twoRanges _ := ⟨rfl, rfl, rfl⟩
  exact ⟨d, db, cache, cfg, hdisp, _, hcfg,
    acked_iff hcfg (by decide) hdisp sameClient_acceptingRequest (by decide) haddr⟩

/-- The client is offered an address of the second network, and its REQUEST is refused. -/
theorem not_acked_twoRanges : ∃ d db cache cfg first, RuntimeConfig twoRanges first
    ∧ dispatchDhcpWithArrival (sampleDiscover 1) twoRanges .new {} (some secondInterface) =
      .ok ((some d, db, cache), cfg) ∧ d.reply.msgType = .offer
        ∧ SameClient (sampleDiscover 1) acceptingRequest
    ∧ findRequestedIp acceptingRequest.options = some d.reply.yiaddr
    ∧ ¬ Acked (dispatchDhcpWithArrival acceptingRequest cfg db {} (some secondInterface))
      d.reply.yiaddr := by
  obtain ⟨d, db, cache, cfg, hdisp, htype, haddr, hrefused⟩ := exists_offer
  have hcfg : RuntimeConfig twoRanges _ := ⟨rfl, rfl, rfl⟩
  refine ⟨d, db, cache, cfg, _, hcfg, hdisp, htype, sameClient_acceptingRequest, haddr, ?_⟩
  rintro ⟨d', db', cache', cfg', hok, hack, -⟩
  rw [hok] at hrefused
  cases hack.symm.trans (of_decide_eq_true hrefused)

/-! ### The address a client has -/

/-- A DISCOVER without a reservation is answered unless no address is free, or a rapid commit is
asked for and the address is not in the pool. -/
theorem answerDiscover_eq_none_iff (hstatic : client.staticAddr = none) :
    (answerDiscover pkt cfg contexts db env client).1 = none ↔
      ∀ b, (allocateFor pkt cfg contexts db env client.allTags).1 = some b →
        (cfg.rapidCommit && (findOption pkt.options optionRapidCommit).isSome)
          ∧ inPool b cfg.poolStart cfg.poolEnd = false := by
  unfold answerDiscover
  dsimp only
  rw [hstatic, isNone_none, if_pos rfl]
  cases hscan : (allocateFor pkt cfg contexts db env client.allTags).1 with
  | none =>
    refine iff_of_true ?_ nofun
    split <;> rfl
  | some b =>
    have hreserved : client.reservedForOther cfg.configs b = false := by
      unfold ClientInfo.reservedForOther
      rw [(allocateFor_free (Prod.ext hscan rfl)).2, any_none]
    have hoffer : handleDiscover pkt cfg.poolStart cfg.poolEnd none none (some b) =
        some { msgType := .offer, yiaddr := b, giaddr := pkt.giaddr } := rfl
    simp only [some.injEq, forall_eq']
    split
    · next hrapid =>
      rw [hoffer]
      simp [makeRapidCommitAck, addressInRange, hreserved, hrapid]
    · next hrapid =>
      exact iff_of_false nofun fun h => hrapid h.1

/-- No address but those with a lease could be offered. -/
def NoneToOffer (pkt : DhcpPacket) (cfg : DhcpServerConfig) (db : LeaseDb) (env : Surroundings) :
    Prop :=
  ∀ client b, identify pkt cfg = .ok (some client) →
    (allocateFor pkt cfg cfg.contexts db env client.allTags).1 = some b →
    (cfg.rapidCommit && (findOption pkt.options optionRapidCommit).isSome)
      ∧ inPool b cfg.poolStart cfg.poolEnd = false

/-- **A client is offered the address it has** only if it is offered none: the search passes over
every address with a lease. -/
theorem offersHeld_iff {outcome : Outcome} (hheld : (db.findByAddr a).isSome = true)
    (hmsg : getMessageType pkt.options = some .discover)
    (hstatic : ∀ client, identify pkt cfg = .ok (some client) → client.staticAddr = none)
    (h : dispatchDhcpWithMeta pkt cfg db env = .ok outcome) :
    (∀ d, outcome.1 = some d → d.reply.yiaddr = a) ↔ NoneToOffer pkt cfg db env := by
  obtain ⟨found, hfound, hreply⟩ := reply_of_discover hmsg h
  cases found with
  | none =>
    have hnone : outcome.1 = none := map_eq_none_iff.mp hreply
    refine iff_of_true ?_ ?_
    · rw [hnone]
      nofun
    · intro client b hclient
      cases hfound.symm.trans hclient
  | some client =>
    rw [bind_some] at hreply
    have hstatic' := hstatic client hfound
    have hother (d : DispatchedDhcpReply) (hd : outcome.1 = some d) : d.reply.yiaddr ≠ a := by
      intro heq
      rw [hd] at hreply
      obtain hnamed | ⟨-, hfree⟩ := answerDiscover_namedOrFree hmsg (Prod.ext hreply.symm rfl)
      · unfold namedAddr at hnamed
        rw [hmsg] at hnamed
        cases hstatic'.symm.trans hnamed
      · rw [heq] at hfree
        rw [hfree] at hheld
        cases hheld
    calc (∀ d, outcome.1 = some d → d.reply.yiaddr = a)
      _ ↔ outcome.1 = none := by
        constructor
        · intro hall
          apply eq_none_iff_forall_ne_some.mpr
          intro d hd
          exact hother d hd (hall d hd)
        · intro hnone d hd
          cases hnone.symm.trans hd
      _ ↔ (answerDiscover pkt cfg cfg.contexts db env client).1 = none := by
        rw [← hreply, map_eq_none_iff]
      _ ↔ _ := answerDiscover_eq_none_iff hstatic'
      _ ↔ _ := by
        constructor
        · intro hall client' b hclient'
          obtain rfl := some.inj (Except.ok.inj (hfound.symm.trans hclient'))
          exact hall b
        · intro hall b
          exact hall client b hfound

/-- Its host entries reserve nothing. -/
theorem staticAddr_sampleDiscover (client : ClientInfo)
    (h : identify (sampleDiscover 1) sampleConfig = .ok (some client)) :
    client.staticAddr = none := by
  have heval : ((identify (sampleDiscover 1) sampleConfig).toOption.any fun found =>
      found.any fun client => client.staticAddr = none) := by decide +kernel
  rw [h] at heval
  exact of_decide_eq_true heval

theorem offersHeld_iff_sampleDiscover :
    ∃ db outcome, Reachable db ∧ (db.findByAddr (sampleAddr 10)).isSome = true
    ∧ dispatchDhcpWithMeta (sampleDiscover 1) sampleConfig db {} = .ok outcome
    ∧ ((∀ d, outcome.1 = some d → d.reply.yiaddr = sampleAddr 10)
      ↔ NoneToOffer (sampleDiscover 1) sampleConfig db {}) := by
  have hrun : ((afterRequests [(1, 10)]).any fun db =>
      (dispatchDhcpWithMeta (sampleDiscover 1) sampleConfig db {}).toOption.any fun _ =>
        (db.findByAddr (sampleAddr 10)).isSome) := by decide +kernel
  obtain ⟨db, outcome, hreach, hdisp, hheld⟩ := exists_dispatch hrun
  exact ⟨db, outcome, hreach, hheld, hdisp,
    offersHeld_iff hheld (by decide) staticAddr_sampleDiscover hdisp⟩

/-- A client that has an address asks again and is offered another one. -/
theorem not_offersHeld_discover : ∃ db outcome, Reachable db
    ∧ dispatchDhcpWithMeta (sampleDiscover 1) sampleConfig db {} = .ok outcome
    ∧ (∃ l, db.findByAddr (sampleAddr 10) = some l ∧ l.client = (sampleDiscover 1).client
      ∧ l.unexpired 0 = true)
    ∧ ¬ ∀ d, outcome.1 = some d → d.reply.yiaddr = sampleAddr 10 := by
  have hrun : ((afterRequests [(1, 10)]).any fun db =>
      (dispatchDhcpWithMeta (sampleDiscover 1) sampleConfig db {}).toOption.any fun out =>
        ((db.findByAddr (sampleAddr 10)).any fun l =>
          l.client = (sampleDiscover 1).client && l.unexpired 0)
          && out.1.any fun d => d.reply.yiaddr ≠ sampleAddr 10) := by decide +kernel
  obtain ⟨db, outcome, hreach, hdisp, hfacts⟩ := exists_dispatch hrun
  rw [Bool.and_eq_true] at hfacts
  obtain ⟨l, hl, hown⟩ := (any_eq_true _ _).mp hfacts.1
  obtain ⟨d, hd, hne⟩ := (any_eq_true _ _).mp hfacts.2
  rw [Bool.and_eq_true, decide_eq_true_eq] at hown
  refine ⟨db, outcome, hreach, hdisp, ⟨l, hl, hown⟩, ?_⟩
  intro hall
  exact of_decide_eq_true hne (hall d hd)

end DnsmasqRs.Dhcp
