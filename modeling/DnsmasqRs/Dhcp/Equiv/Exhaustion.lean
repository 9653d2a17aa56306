import DnsmasqRs.Dhcp.Equiv.Offer
import DnsmasqRs.Dhcp.Equiv.Scripts
import DnsmasqRs.Dhcp.Equiv.Search

/-!
# When the pool is exhausted

Nothing in the loop drops a lease that has expired: `prune` is not called, and the search passes
over every address with a lease.  So a DISCOVER can go unanswered although an address of the ranges
has only an expired lease, or, with a rapid commit, although one has no lease at all but is not in
the first range (`exhausted_iff`).
-/

namespace DnsmasqRs.Dhcp

open Wire Utf8 Fallible List Option

variable {pkt : DhcpPacket} {cfg cfg' : DhcpServerConfig} {contexts : List DhcpContext}
  {db : LeaseDb}
  {env : Surroundings} {client : ClientInfo} {a : Ipv4Addr} {outcome : Outcome}
  {arrival : Option ArrivalInterface}

/-! ### The loop -/

/-- How the scripts are run. -/
structure ScriptRun where
  order : LeaseDb.Entries
  command : Option Str
  leasefileRo : Bool
  scriptOnRenewal : Bool

/-- The database after `run_lease_scripts`. -/
def ScriptRun.run (scripts : ScriptRun) (db : LeaseDb) : LeaseDb :=
  (db.runLeaseScripts scripts.order scripts.command scripts.leasefileRo scripts.scriptOnRenewal).2

/-- What `run_dhcp_loop` does with the leases: it dispatches a packet, writes the lease file (or
fails to) and runs the scripts, or it takes over a configuration that was read again. -/
inductive LoopEvent where
  | packet (pkt : DhcpPacket) (cfg : DhcpServerConfig) (env : Surroundings)
      (arrival : Option ArrivalInterface) (written : Bool) (scripts : ScriptRun)
  | reload (order : LeaseDb.Entries) (configs : List DhcpConfig) (rerun : Option ScriptRun)

/-- One turn of `run_dhcp_loop`, or `none` if it panics. -/
def loopStep (db : LeaseDb) : LoopEvent → Option LeaseDb
  | .packet pkt cfg env arrival written scripts =>
    (dispatchDhcpWithArrival pkt cfg db env arrival).toOption.map fun ((_, db, _), _) =>
      scripts.run { db with fileDirty := db.fileDirty && !written }
  | .reload order configs rerun =>
    let db := db.updateFromConfigs order configs
    some (match rerun with
      | some scripts => scripts.run db.rerunScripts
      | none => db)

/-- The databases the loop can have, from an empty one on. -/
def LoopReachable (db : LeaseDb) : Prop :=
  ∃ maxLeases, Run.Reaches loopStep (fun _ _ => True) { maxLeases } db

theorem ScriptRun.ok_run (scripts : ScriptRun) (h : Ok db.store) : Ok (scripts.run db).store :=
  (renamed_mapValues (reported_kept _ _)).ok h

theorem ok_rerunScripts (h : Ok db.store) : Ok db.rerunScripts.store :=
  (renamed_mapValues (f := DhcpLease.rerun) fun _ => ⟨rfl, rfl, rfl, rfl, rfl⟩).ok h

theorem ok_setInterface (h : Ok db.store) : Ok (db.setInterface a interface).store :=
  h.modify a fun _ => ⟨rfl, rfl⟩

theorem ok_dispatchDhcpWithArrival (h : Ok db.store)
    (hdisp : dispatchDhcpWithArrival pkt cfg db env arrival = .ok (outcome, cfg')) :
    Ok outcome.2.1.store := by
  cases arrival with
  | none =>
    obtain ⟨outcome', hout, heq⟩ := bind_eq_ok.mp hdisp
    cases heq
    exact (effect_of_dispatch hout).ok h
  | some iface =>
    obtain ⟨⟨reply, db₁, cache⟩, hout, heq⟩ := bind_eq_ok.mp hdisp
    cases heq
    have hok : Ok db₁.store := (effect_of_dispatch hout).ok h
    split
    · split
      · exact ok_setInterface hok
      · exact hok
    · exact hok

theorem ok_loopStep (h : Ok db.store) (hstep : loopStep db ev = some db') : Ok db'.store := by
  cases ev with
  | packet pkt cfg env arrival written scripts =>
    obtain ⟨⟨⟨reply, db₁, cache⟩, cfg₁⟩, hout, rfl⟩ := map_eq_some_iff.mp hstep
    apply scripts.ok_run
    exact ok_dispatchDhcpWithArrival h (toOption_eq_some.mp hout)
  | reload order configs rerun =>
    obtain rfl := some.inj hstep
    have hok := ok_updateFromConfigs h order configs
    cases rerun with
    | none => exact hok
    | some scripts => exact scripts.ok_run (ok_rerunScripts hok)

theorem LoopReachable.ok (h : LoopReachable db) : Ok db.store := by
  obtain ⟨maxLeases, hrun⟩ := h
  apply hrun.invariant (I := fun db => Ok db.store) ok_empty
  intro db ev db' hdb _ hstep
  exact ok_loopStep hdb hstep

/-! ### A DISCOVER that is not answered -/

/-- The search a packet starts. -/
def searchFor (pkt : DhcpPacket) (cfg : DhcpServerConfig) (contexts : List DhcpContext)
    (db : LeaseDb) (env : Surroundings) : Search where
  contexts := allocationContexts cfg contexts
  db
  configs := cfg.configs
  hash := sdbmHash pkt.hwaddr
  now := env.searchTime
  consecAddr := cfg.consecAddr
  noPing := cfg.noPing
  probe := env.probe

/-- The address is not to be given to anyone, leases apart. -/
def Search.isWithheld (search : Search) (a : Ipv4Addr) : Bool :=
  search.contexts.any (a = ·.router) || !isAllocatableAddr a
    || (configFindByAddress search.configs a).isSome

/-- A lease for the address has not expired. -/
def LeasedAt (db : LeaseDb) (now : SystemTime) (a : Ipv4Addr) : Prop :=
  ∃ k l, db.store.get k = some l ∧ leaseAddr l = some a ∧ l.expiredBefore now = false

/-- **The pool is exhausted**: every address the client may get is withheld or has a lease that has
not expired. -/
def Search.Exhausted (search : Search) (netids : List DhcpNetid) : Prop :=
  ∀ a, search.Serves netids a → search.isWithheld a ∨ LeasedAt search.db search.now a

/-- The first free address, if there is one, can be committed to; and if there is none, no address
is kept from the client by a lease that has expired. -/
structure Search.OnlyExhausted (search : Search) (netids : List DhcpNetid) (rapid : Bool)
    (cfg : DhcpServerConfig) : Prop where
  inPool : ∀ b, (search.addresses netids).find? search.isFree = some b → rapid →
    inPool b cfg.poolStart cfg.poolEnd
  unexpired : (∀ a, search.Serves netids a → search.isFree a = false) →
    ∀ a l, search.Serves netids a → search.isWithheld a = false → search.db.findByAddr a = some l →
      l.expiredBefore search.now = false

theorem isFree_eq (search : Search) (a : Ipv4Addr) :
    search.isFree a = (!search.isWithheld a && (search.db.findByAddr a).isNone) := by
  unfold Search.isFree Search.isWithheld
  cases search.contexts.any (a = ·.router) <;> cases isAllocatableAddr a <;>
    cases search.db.findByAddr a <;> cases configFindByAddress search.configs a <;> rfl

theorem leasedAt_iff (h : Ok db.store) (now : SystemTime) (a : Ipv4Addr) :
    LeasedAt db now a ↔ ∃ l, db.findByAddr a = some l ∧ l.expiredBefore now = false := by
  constructor
  · rintro ⟨k, l, hget, haddr, hexp⟩
    exact ⟨l, Indexed.find_eq_some.mpr ⟨k, h.coherent.complete k l a hget haddr, hget⟩, hexp⟩
  · rintro ⟨l, hl, hexp⟩
    obtain ⟨k, -, hget⟩ := Indexed.find_eq_some.mp hl
    exact ⟨k, l, hget, leaseAddr_eq_some_iff.mpr (h.addr_of_find hl), hexp⟩

/-- There is no reply exactly if there is no free address, or one that a rapid commit is refused
for. -/
theorem no_reply_iff (hmsg : getMessageType pkt.options = some .discover)
    (hclient : identify pkt cfg = .ok (some client)) (hstatic : client.staticAddr = none)
    (hping : cfg.noPing) (hconsec : cfg.consecAddr = false)
    (hdisp : dispatchDhcpWithMetaView pkt cfg contexts db env = .ok outcome) : outcome.1 = none ↔
      ∀ b, ((searchFor pkt cfg contexts db env).addresses client.allTags).find?
          (searchFor pkt cfg contexts db env).isFree = some b →
        (cfg.rapidCommit && (findOption pkt.options optionRapidCommit).isSome)
          ∧ inPool b cfg.poolStart cfg.poolEnd = false := by
  obtain ⟨found, hfound, hreply⟩ := reply_of_discover hmsg hdisp
  obtain rfl := Except.ok.inj (hclient.symm.trans hfound)
  have hsearch : (allocateFor pkt cfg contexts db env client.allTags).1 =
      ((searchFor pkt cfg contexts db env).addresses client.allTags).find?
        (searchFor pkt cfg contexts db env).isFree := by
    apply Search.addressAllocate_eq_find?
    · exact hping
    · exact hconsec
  rw [← map_eq_none_iff (f := DispatchedDhcpReply.reply), hreply, bind_some,
    answerDiscover_eq_none_iff hstatic, hsearch]

/-- **A DISCOVER goes unanswered only if the pool is exhausted** exactly if no address is kept from
the client by an expired lease, and the first free address is not refused for a rapid commit. -/
theorem exhausted_iff (hreach : LoopReachable db)
    (hmsg : getMessageType pkt.options = some .discover)
    (hclient : identify pkt cfg = .ok (some client)) (hstatic : client.staticAddr = none)
    (hping : cfg.noPing = true) (hconsec : cfg.consecAddr = false)
    (hdisp : dispatchDhcpWithArrival pkt cfg db env arrival = .ok (outcome, cfg')) :
    let search := searchFor pkt cfg (arrivalView cfg arrival).2 db env
    (outcome.1 = none → search.Exhausted client.allTags) ↔ search.OnlyExhausted client.allTags
        (cfg.rapidCommit && (findOption pkt.options optionRapidCommit).isSome) cfg := by
  intro search
  have hok : Ok search.db.store := hreach.ok
  have hnone : outcome.1 = none
    ↔ ∀ b, (search.addresses client.allTags).find? search.isFree = some b →
        (cfg.rapidCommit && (findOption pkt.options optionRapidCommit).isSome)
          ∧ inPool b cfg.poolStart cfg.poolEnd = false := by
    obtain ⟨reply, db', cache⟩ := outcome
    obtain ⟨⟨db'', hview⟩, -⟩ := dispatchDhcpWithArrival_eq_ok.mp ⟨db', hdisp⟩
    -- of the configuration of the view only the ranges differ, which are passed beside it
    obtain ⟨contexts, heq⟩ := arrivalView_fst
    have hiff := no_reply_iff hmsg ((identify_arrivalView).trans hclient) hstatic
      (by rw [heq, hping]) (by rw [heq, hconsec]) hview
    rw [heq] at hiff
    exact hiff
  -- no address the client may get is free exactly if the search finds none
  have hfind : (search.addresses client.allTags).find? search.isFree = none ↔
      ∀ a, search.Serves client.allTags a → search.isFree a = false := by
    rw [find?_eq_none]
    simp only [Search.mem_addresses, Bool.not_eq_true]
  constructor
  · intro hexhausted
    refine ⟨?_, ?_⟩
    · intro b hb hrapid
      by_contra hout
      have hbad := hexhausted (hnone.mpr fun b' hb' => by
        obtain rfl := some.inj (hb.symm.trans hb')
        exact ⟨hrapid, Bool.eq_false_iff.mpr hout⟩)
      have hfree := find?_some hb
      rw [isFree_eq, Bool.and_eq_true, Bool.not_eq_true', isNone_iff_eq_none] at hfree
      obtain hwith | hleased := hbad b ((Search.mem_addresses).mp (mem_of_find?_eq_some hb))
      · cases hfree.1.symm.trans hwith
      · obtain ⟨l, hl, -⟩ := (leasedAt_iff hok _ _).mp hleased
        cases hfree.2.symm.trans hl
    · intro hall a l ha hwith hl
      have hbad := hexhausted (hnone.mpr fun b hb => by cases (hfind.mpr hall).symm.trans hb)
      obtain hwith' | hleased := hbad a ha
      · cases hwith.symm.trans hwith'
      · obtain ⟨l', hl', hexp⟩ := (leasedAt_iff hok _ _).mp hleased
        obtain rfl := some.inj (hl.symm.trans hl')
        exact hexp
  · intro honly hreply a ha
    have hall : ∀ a, search.Serves client.allTags a → search.isFree a = false := by
      apply hfind.mp
      apply eq_none_iff_forall_ne_some.mpr
      intro b hb
      obtain ⟨hrapid, hout⟩ := hnone.mp hreply b hb
      cases (honly.inPool b hb hrapid).symm.trans hout
    by_cases hwith : search.isWithheld a
    · exact .inl hwith
    · right
      have hnot := hall a ha
      rw [isFree_eq, Bool.eq_false_iff.mpr hwith, Bool.not_false] at hnot
      obtain ⟨l, hl⟩ := isSome_iff_exists.mp (isNone_eq_false_iff.mp hnot)
      exact (leasedAt_iff hok _ _).mpr
        ⟨l, hl, honly.unexpired hall a l ha (Bool.eq_false_iff.mpr hwith) hl⟩

/-- A range of one address, and no pings. -/
def oneAddress : DhcpServerConfig where
  poolStart := sampleAddr 10
  poolEnd := sampleAddr 10
  contexts := [{ leaseTime := 3600, start := sampleAddr 10, finish := sampleAddr 10 }]
  noPing := true

/-- The loop answers a REQUEST for the address. -/
def requestTurn : LoopEvent :=
  .packet (sampleRequest 1 10) oneAddress {} none true
    { order := [], command := none, leasefileRo := false, scriptOnRenewal := false }

/-- The surroundings of a packet that comes in after the lease has expired. -/
def afterExpiry : Surroundings where
  searchTime := fromSecs 4000

/-- After the lease has expired, another client gets no answer to its DISCOVER. -/
theorem exists_unanswered : ∃ db client outcome, LoopReachable db
    ∧ identify (sampleDiscover 2) oneAddress = .ok (some client) ∧ client.staticAddr = none
    ∧ client.allTags = []
    ∧ dispatchDhcpWithArrival (sampleDiscover 2) oneAddress db afterExpiry none
      = .ok (outcome, oneAddress)
    ∧ outcome.1 = none ∧ ∃ l, db.findByAddr (sampleAddr 10) = some l
    ∧ l.expiredBefore (fromSecs 4000) := by
  have hidentify :
      ((identify (sampleDiscover 2) oneAddress).toOption.any fun found => found.any fun client =>
      client.staticAddr = none && client.allTags = []) := by decide +kernel
  have hrun : ((loopStep { maxLeases := 1000 } requestTurn).any fun db =>
      (dispatchDhcpWithArrival (sampleDiscover 2) oneAddress db afterExpiry none).toOption.any
        fun r =>
        r.2 = oneAddress && (r.1.1 = none
          && (db.findByAddr (sampleAddr 10)).any fun l => l.expiredBefore (fromSecs 4000))) := by
    decide +kernel
  obtain ⟨found, hfound, hany⟩ := (any_eq_true _ _).mp hidentify
  obtain ⟨client, rfl, hclient⟩ := (any_eq_true _ _).mp hany
  obtain ⟨db, hstep, hrun⟩ := (any_eq_true _ _).mp hrun
  obtain ⟨⟨outcome, cfg⟩, hdisp, hfacts⟩ := (any_eq_true _ _).mp hrun
  simp only [Bool.and_eq_true, decide_eq_true_eq] at hclient hfacts
  obtain ⟨rfl, hnone, hexp⟩ := hfacts
  obtain ⟨l, hl, hexp⟩ := (any_eq_true _ _).mp hexp
  exact ⟨db, client, outcome, ⟨1000, .tail .refl trivial hstep⟩, toOption_eq_some.mp hfound,
    hclient.1, hclient.2, toOption_eq_some.mp hdisp, hnone, l, hl, hexp⟩

theorem exhausted_iff_oneAddress : ∃ db client outcome, LoopReachable db
    ∧ dispatchDhcpWithArrival (sampleDiscover 2) oneAddress db afterExpiry none
      = .ok (outcome, oneAddress)
    ∧ ((outcome.1 = none →
      (searchFor (sampleDiscover 2) oneAddress oneAddress.contexts db afterExpiry).Exhausted
          (ClientInfo.allTags client))
      ↔ (searchFor (sampleDiscover 2) oneAddress oneAddress.contexts db afterExpiry).OnlyExhausted
        client.allTags false oneAddress) := by
  obtain ⟨db, client, outcome, hreach, hclient, hstatic, -, hdisp, -⟩ := exists_unanswered
  exact ⟨db, client, outcome, hreach, hdisp,
    exhausted_iff hreach (by decide) hclient hstatic rfl rfl hdisp⟩

/-- The only address has an expired lease, and the DISCOVER of another client goes unanswered. -/
theorem not_exhausted_expired : ∃ db client outcome, LoopReachable db
    ∧ identify (sampleDiscover 2) oneAddress = .ok (some client) ∧ client.staticAddr = none
    ∧ dispatchDhcpWithArrival (sampleDiscover 2) oneAddress db afterExpiry none
      = .ok (outcome, oneAddress)
    ∧ ¬ (outcome.1 = none →
      (searchFor (sampleDiscover 2) oneAddress oneAddress.contexts db afterExpiry).Exhausted
        client.allTags) := by
  obtain ⟨db, client, outcome, hreach, hclient, hstatic, htags, hdisp, hnone, l, hl, hexp⟩ :=
    exists_unanswered
  refine ⟨db, client, outcome, hreach, hclient, hstatic, hdisp, ?_⟩
  intro hall
  have hserves : (searchFor (sampleDiscover 2) oneAddress oneAddress.contexts db afterExpiry).Serves
      client.allTags (sampleAddr 10) := by
    rw [htags]
    exact ⟨_, mem_singleton_self _, by decide, by decide, 0, by decide, by decide⟩
  obtain hwith | hleased := hall hnone _ hserves
  · exact Bool.false_ne_true hwith
  · obtain ⟨l', hl', hexp'⟩ := (leasedAt_iff hreach.ok _ _).mp hleased
    obtain rfl := some.inj (hl.symm.trans hl')
    cases hexp.symm.trans hexp'

end DnsmasqRs.Dhcp
