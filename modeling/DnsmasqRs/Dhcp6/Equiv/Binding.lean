import DnsmasqRs.Dhcp6.Equiv.Ownership

/-!
# What binding an IPv6 address does to the lease table

Leases are filed under the first 16 bytes of the client ID (`Filed`).  So a client has room for one
lease, whatever its IAIDs, and clients whose IDs begin alike share it: the other leases are kept
exactly if none of them is in the place of the new one (`keepsLeases_iff`).

If the table is full, an address without a lease gets none, but the reply is the same.  So what is
granted is on record exactly if there is a lease for the address already, or room for one
(`grantsOnRecord_iff`).
-/

namespace DnsmasqRs.Dhcp6

open Wire Utf8 Dhcp Fallible List Option

variable {s : Leases} {db db' : LeaseDb} {order : LeaseDb.Entries} {a addr : Ipv6Addr}
  {clid duid : Bytes}
  {iaid : UInt32} {k : Key} {l : DhcpLease} {expires : Option SystemTime} {pkt : Dhcp6Packet}
  {ctx : Dhcp6RequestContext} {outcome : Outcome6}

/-! ### The table -/

/-- How a lease is filed: it is one of DHCPv6, under the first 16 bytes of its client ID. -/
structure Filed (k : Key) (l : DhcpLease) : Prop where
  isV6 : l.isV6
  clid : ∃ c, l.clid = some c ∧ k = toKey c
  hwaddr : l.hwaddr = []

/-- All leases are filed so, and there is at most one for an address. -/
structure Table6 (s : Leases) : Prop where
  unique : Unique6 s
  filed : ∀ k l, s.get k = some l → Filed k l

theorem table6_empty : Table6 .empty where
  unique := unique6_empty
  filed k l hl := by cases hl

theorem Table6.eraseKey (h : Table6 s) (k : Key) : Table6 (s.eraseKey k) where
  unique := h.unique.eraseKey k
  filed k' l hl := h.filed k' l (get_of_get_eraseKey hl)

/-- There is a lease for the address, or room for one. -/
def Recordable (db : LeaseDb) (a : Ipv6Addr) : Prop :=
  (∃ k l, db.store.get k = some l ∧ l.isV6For a) ∨ db.store.size < db.maxLeases

/-- **What the table has after `bind_v6`**: the new lease in the client's place, and elsewhere what
it had, but for an old lease for the address. -/
structure Bound (db : LeaseDb) (addr : Ipv6Addr) (clid : Bytes) (iaid : UInt32)
    (expires : Option SystemTime) (db' : LeaseDb) : Prop where
  new : ∃ l, db'.store.get (toKey clid) = some l ∧ l.isBoundTo clid iaid addr ∧ l.expires = expires
    ∧ l.hwaddr = []
  others : ∀ k l, k ≠ toKey clid →
    (db'.store.get k = some l ↔ db.store.get k = some l ∧ l.isV6For addr = false)

/-- Without a hardware address, the key is the one of the client ID, also if that is empty. -/
theorem leaseKey_eq (hclid : l.clid = some clid) (hhw : l.hwaddr = []) :
    leaseKey l = toKey clid := by
  unfold leaseKey
  rw [hclid, hhw]
  dsimp only
  split
  · next hempty => rw [hempty]
  · rfl

/-- A lease for the address is put into a table that has none. -/
theorem bound_insertRaw (db : LeaseDb) (hnew : new.isBoundTo clid iaid addr)
    (hhw : new.hwaddr = []) (hothers : ∀ k l, db.store.get k = some l → l.isV6For addr = false) :
    Bound db addr clid iaid new.expires (db.insertRaw (leaseKey new) new) := by
  have hclid : new.clid = some clid := of_decide_eq_true (Bool.and_eq_true_iff.mp hnew).2
  have hget (k : Key) : (db.insertRaw (leaseKey new) new).store.get k =
      if k = toKey clid then some new else db.store.get k := by
    rw [leaseKey_eq hclid hhw]
    exact Indexed.get_insertRaw
  constructor
  · exact ⟨new, (hget _).trans (if_pos rfl), hnew, rfl, hhw⟩
  · intro k l hk
    rw [hget, if_neg hk]
    exact ⟨fun hl => ⟨hl, hothers k l hl⟩, And.left⟩

theorem isBoundTo_with (hfor : l.isV6For addr) (clid : Bytes) (iaid : UInt32)
    (expires : Option SystemTime) :
    DhcpLease.isBoundTo clid iaid addr { l with clid := some clid, iaid, expires } := by
  rw [DhcpLease.isBoundTo, Bool.and_eq_true, Bool.and_eq_true]
  exact ⟨⟨hfor, decide_eq_true rfl⟩, decide_eq_true rfl⟩

/-- **`bind_v6` binds exactly if there is a lease for the address or room for one**. -/
theorem bindV6_spec (h : Table6 db.store) (horder : db.Iterates order) (addr : Ipv6Addr)
    (clid : Bytes) (iaid : UInt32) (expires : Option SystemTime) :
    match db.bindV6 order addr clid iaid LeaseFlags.na expires with
    | none => ¬ Recordable db addr
    | some db' => Recordable db addr ∧ Bound db addr clid iaid expires db' := by
  unfold LeaseDb.bindV6 LeaseDb.takeV6
  cases he : order.find? fun e => e.2.isV6For addr with
  | none =>
    have hnone (k : Key) (l : DhcpLease) (hl : db.store.get k = some l) : l.isV6For addr = false :=
      not_isV6For_of_find? horder he hl
    by_cases hfull : db.maxLeases ≤ db.store.size
    · rw [if_pos hfull]
      rintro (⟨k, l, hl, ha⟩ | hroom)
      · cases (hnone k l hl).symm.trans ha
      · omega
    · rw [if_neg hfull]
      refine ⟨.inr (by omega), ?_⟩
      have hflags :
          LeaseFlags.intersects (LeaseFlags.new ||| LeaseFlags.na) (LeaseFlags.ta ||| LeaseFlags.na)
            =
        true := by decide
      have hfor :
          DhcpLease.isV6For addr { flags := LeaseFlags.new ||| LeaseFlags.na, addr6 := addr } :=
        Bool.and_eq_true_iff.mpr ⟨hflags, decide_eq_true rfl⟩
      have hbound := bound_insertRaw db (isBoundTo_with hfor clid iaid expires) rfl hnone
      exact ⟨hbound.new, hbound.others⟩
  | some e =>
    obtain ⟨hget, hfor⟩ := horder.get_of_find? he
    refine ⟨.inl ⟨e.1, e.2, hget, hfor⟩, ?_⟩
    -- without the old lease there is none for the address
    have herase (k : Key) (l : DhcpLease) :
        (db.store.eraseKey e.1).get k = some l
          ↔ db.store.get k = some l ∧ l.isV6For addr = false := by
      rw [Indexed.get_eraseKey]
      constructor
      · intro hl
        split at hl
        · cases hl
        · next hne =>
          refine ⟨hl, Bool.eq_false_iff.mpr fun ha => hne ?_⟩
          exact (find?_isV6For h.unique horder he hl ha).1
      · rintro ⟨hl, ha⟩
        rw [if_neg]
        · exact hl
        · rintro rfl
          obtain rfl := some.inj (hl.symm.trans hget)
          cases ha.symm.trans hfor
    have hbound := bound_insertRaw { db with store := db.store.eraseKey e.1 }
      (isBoundTo_with hfor clid iaid expires) (h.filed _ _ hget).hwaddr fun k l hl =>
        ((herase k l).mp hl).2
    refine ⟨hbound.new, ?_⟩
    intro k l hk
    exact (hbound.others k l hk).trans ((and_congr_left' (herase k l)).trans and_self_right)

theorem Bound.table6 (h : Table6 db.store) (hbound : Bound db addr clid iaid expires db')
    (hunique : Unique6 db'.store) : Table6 db'.store where
  unique := hunique
  filed k l hl := by
    by_cases hk : k = toKey clid
    · subst hk
      obtain ⟨new, hget, hto, -, hhw⟩ := hbound.new
      obtain rfl := some.inj (hl.symm.trans hget)
      exact ⟨isV6_of_isV6For (isV6For_of_isBoundTo hto),
        ⟨clid, of_decide_eq_true (Bool.and_eq_true_iff.mp hto).2, rfl⟩, hhw⟩
    · exact h.filed k l ((hbound.others k l hk).mp hl).1

/-- The lease is found in the table, whatever the order it is gone through. -/
def OnRecord6 (db : LeaseDb) (clid : Bytes) (iaid : UInt32) (a : Ipv6Addr)
    (expires : Option SystemTime) : Prop :=
  ∀ order, db.Iterates order →
    ∃ l, LeaseDb.findV6ByClidIaid order clid iaid a = some l ∧ l.expires = expires

/-- There is one lease for an address, so it is the one that is found. -/
theorem onRecord6_iff (h : Unique6 db.store) : OnRecord6 db clid iaid a expires ↔
    ∃ k l, db.store.get k = some l ∧ l.isBoundTo clid iaid a ∧ l.expires = expires := by
  constructor
  · intro hrec
    obtain ⟨l, hfind, hexp⟩ := hrec db.store.entries.entries (List.Perm.refl _)
    obtain ⟨e, he, rfl⟩ := map_eq_some_iff.mp hfind
    obtain ⟨hget, hto⟩ :=
      LeaseDb.Iterates.get_of_find? (p := DhcpLease.isBoundTo clid iaid a) (List.Perm.refl _) he
    exact ⟨e.1, e.2, hget, hto, hexp⟩
  · rintro ⟨k, l, hl, hto, hexp⟩ order horder
    unfold LeaseDb.findV6ByClidIaid
    cases he : order.find? fun e => e.2.isBoundTo clid iaid a with
    | none => exact absurd hto (find?_eq_none.mp he ⟨k, l⟩ (horder.mem_iff_get.mpr hl))
    | some e =>
      obtain ⟨hget, hto'⟩ := horder.get_of_find? he
      obtain rfl := h k e.1 l e.2 a hl hget (isV6For_of_isBoundTo hto) (isV6For_of_isBoundTo hto')
      obtain rfl := some.inj (hl.symm.trans hget)
      exact ⟨e.2, rfl, hexp⟩

/-! ### Runs -/

variable {contexts : List DhcpContext6} {configs : List DhcpConfig6} {st : State6} {ev : Event6}

theorem persistLease_spec (h : Table6 ctx.leaseDb.store) (horder : ctx.leaseDb.Iterates ctx.order)
    (hdb : persistLease ctx clid iaid a = .ok (times, db)) :
    times = computeTimesForAddr ctx.contexts a
      ∧ ∃ expires, expiryOf ctx.nowSecs times.valid = .ok expires
      ∧ (Recordable ctx.leaseDb a ∧ Bound ctx.leaseDb a clid iaid expires db
        ∨ ¬ Recordable ctx.leaseDb a ∧ db = ctx.leaseDb) := by
  obtain ⟨expires, hexp, hpair⟩ := bind_eq_ok.mp hdb
  obtain ⟨rfl, rfl⟩ := Prod.mk.inj (Except.ok.inj hpair)
  refine ⟨rfl, expires, hexp, ?_⟩
  have hspec := bindV6_spec h horder a clid iaid expires
  cases hbind : ctx.leaseDb.bindV6 ctx.order a clid iaid LeaseFlags.na expires with
  | none =>
    rw [hbind] at hspec
    exact .inr ⟨hspec, rfl⟩
  | some db' =>
    rw [hbind] at hspec
    exact .inl hspec

theorem Effect6.table6 (h : Effect6 pkt duid ctx outcome) (hdb : Table6 ctx.leaseDb.store)
    (horder : ctx.leaseDb.Iterates ctx.order) : Table6 outcome.2.store := by
  have hunique := h.unique6 hdb.unique horder
  cases h with
  | idle => exact hdb
  | release iaid addr =>
    unfold LeaseDb.removeV6ByClidIaidAddr
    split
    · exact hdb.eraseKey _
    · exact hdb
  | bind _ _ hpersist =>
    obtain ⟨-, expires, -, ⟨-, hbound⟩ | ⟨-, rfl⟩⟩ := persistLease_spec hdb horder hpersist
    · exact hbound.table6 hdb hunique
    · exact hdb

theorem Reachable6.table6 (h : Reachable6 contexts configs st) : Table6 st.db.store := by
  obtain ⟨maxLeases, hrun⟩ := h
  apply hrun.invariant (I := fun st => Table6 st.db.store) table6_empty
  intro st ev st' hst hev hstep
  obtain ⟨outcome, hout, rfl⟩ := map_eq_some_iff.mp hstep
  exact (effect6_of_dispatch (toOption_eq_some.mp hout)).table6 hst hev.order

/-! ### The other leases -/

/-- **The leases for other addresses are kept**: each is found for its client, IAID and address with
the same expiry, and is the only one for its address. -/
def KeepsLeases (db : LeaseDb) (bound : Option Ipv6Addr) (db' : LeaseDb) : Prop :=
  ∀ k l, db.store.get k = some l → l.isV6 → bound ≠ some l.addr6 →
    ∃ clid, l.clid = some clid ∧ OnRecord6 db' clid l.iaid l.addr6 l.expires
      ∧ ∃! k', ∃ l', db'.store.get k' = some l' ∧ l'.isV6For l.addr6

/-- The address is bound, and a lease for another address is in the client's place. -/
def Evicts (pkt : Dhcp6Packet) (ctx : Dhcp6RequestContext) : Prop :=
  ∃ iaid a, toBind pkt ctx = some (iaid, a) ∧ Recordable ctx.leaseDb a
    ∧ ∃ k l c, ctx.leaseDb.store.get k = some l
    ∧ l.isV6 ∧ l.addr6 ≠ a ∧ l.clid = some c ∧ toKey c = toKey (extractClientId pkt)

theorem isV6For_self (h : l.isV6) : l.isV6For l.addr6 :=
  Bool.and_eq_true_iff.mpr ⟨h, decide_eq_true rfl⟩

theorem keepsLeases_of_get (h : Table6 db.store) (h' : Unique6 db'.store)
    (hget : ∀ k l, db.store.get k = some l → bound ≠ some l.addr6 → db'.store.get k = some l) :
    KeepsLeases db bound db' := by
  intro k l hl hv6 hother
  obtain ⟨c, hc, -⟩ := (h.filed k l hl).clid
  have hl' := hget k l hl hother
  have hfor := isV6For_self hv6
  have hto : l.isBoundTo c l.iaid l.addr6 := by
    rw [DhcpLease.isBoundTo, Bool.and_eq_true, Bool.and_eq_true]
    exact ⟨⟨hfor, decide_eq_true rfl⟩, decide_eq_true hc⟩
  refine ⟨c, hc, (onRecord6_iff h').mpr ⟨k, l, hl', hto, rfl⟩, k, ⟨l, hl', hfor⟩, ?_⟩
  rintro k' ⟨l', hl'', hfor'⟩
  exact h' k' k l' l _ hl'' hl' hfor' hfor

/-- **Binding an address keeps the leases for all others** exactly if none of them is in the place
of the client's. -/
theorem keepsLeases_iff (hreach : Reachable6 contexts configs st) (hev : ev.Admissible st)
    (hmsg : ev.pkt.msgType = .solicit ∨ ev.pkt.msgType = .request ∨ ev.pkt.msgType = .renew
      ∨ ev.pkt.msgType = .rebind)
    (h : dispatchDhcp6 ev.pkt ev.duid (ev.context contexts configs st) = .ok outcome) :
    KeepsLeases st.db ((toBind ev.pkt (ev.context contexts configs st)).map (·.2)) outcome.2 ↔
      ¬ Evicts ev.pkt (ev.context contexts configs st) := by
  have htable : Table6 (ev.context contexts configs st).leaseDb.store := hreach.table6
  have hunique' := (effect6_of_dispatch h).unique6 htable.unique hev.order
  have hcan : canBind ev.pkt.msgType := by
    obtain h | h | h | h := hmsg <;> rw [h] <;> rfl
  cases binding_of_dispatch h with
  | idle hbind _ hdb =>
    -- nothing is bound
    have hnot : ¬ Evicts ev.pkt (ev.context contexts configs st) := by
      rintro ⟨iaid, a, hbind', -⟩
      cases hbind.symm.trans hbind'
    rw [hdb hcan]
    exact iff_of_true (keepsLeases_of_get htable htable.unique fun _ _ hl _ => hl) hnot
  | @bind iaid a times reply db hbind hpersist =>
    rw [hbind]
    obtain ⟨-, expires, -, ⟨hrec, hbound⟩ | ⟨hfull, rfl⟩⟩ :=
      persistLease_spec htable hev.order hpersist
    · constructor
      · rintro hkeeps ⟨iaid', a', hbind', -, k, l, c, hl, hv6, hne, hc, hkey⟩
        obtain ⟨rfl, rfl⟩ := Prod.mk.inj (some.inj (hbind.symm.trans hbind'))
        obtain ⟨c', hc', hrec', -⟩ := hkeeps k l hl hv6 fun h => hne (some.inj h).symm
        obtain ⟨k', l', hl', hto, -⟩ := (onRecord6_iff hunique').mp hrec'
        have hfor' := isV6For_of_isBoundTo hto
        obtain ⟨c'', hc'', rfl⟩ := (htable.filed k l hl).clid
        obtain rfl := some.inj (hc.symm.trans hc'')
        -- the place of the lease is taken, so it would be in another
        by_cases hk' : k' = toKey (extractClientId ev.pkt)
        · subst hk'
          obtain ⟨new, hnew, hnewto, -⟩ := hbound.new
          obtain rfl := some.inj (hl'.symm.trans hnew)
          have h₁ := of_decide_eq_true (Bool.and_eq_true_iff.mp hfor').2
          have h₂ := of_decide_eq_true (Bool.and_eq_true_iff.mp (isV6For_of_isBoundTo hnewto)).2
          exact hne (h₁.symm.trans h₂)
        · obtain ⟨hold, -⟩ := (hbound.others k' l' hk').mp hl'
          exact hk' ((htable.unique k' _ l' l _ hold hl hfor' (isV6For_self hv6)).trans hkey)
      · intro hnot
        apply keepsLeases_of_get htable hunique'
        intro k l hl hother
        have hne : l.addr6 ≠ a := fun h => hother (congrArg some h.symm)
        obtain ⟨c, hc, rfl⟩ := (htable.filed k l hl).clid
        refine (hbound.others _ l ?_).mpr ⟨hl, ?_⟩
        · intro hkey
          exact hnot ⟨iaid, a, hbind, hrec, _, l, c, hl, (htable.filed _ l hl).isV6, hne, hc, hkey⟩
        · rw [DhcpLease.isV6For, decide_eq_false hne, Bool.and_false]
    · -- the table is full
      have hnot : ¬ Evicts ev.pkt (ev.context contexts configs st) := by
        rintro ⟨iaid', a', hbind', hrec, -⟩
        obtain ⟨rfl, rfl⟩ := Prod.mk.inj (some.inj (hbind.symm.trans hbind'))
        exact hfull hrec
      exact iff_of_true (keepsLeases_of_get htable htable.unique fun _ _ hl _ => hl) hnot

/-- A client asks for an address in one of its IAs. -/
def requestEvent6 (st : State6) (client iaid host : UInt8) : Event6 :=
  { sampleEvent6 st .request client host with
    pkt := { samplePacket6 .request client host with
      options := [0, 1, 0, 1, client] ++ [0, 3, 0, 40, 0, 0, 0, iaid, 0, 0, 0, 0, 0, 0, 0, 0]
        ++ [0, 5, 0, 24] ++ (sampleAddr6 host).octets.toList ++ [0, 0, 0, 0, 0, 0, 0, 0] } }

theorem admissible_requestEvent6 (hclock : st.clock ≤ 1000) (client iaid host : UInt8) :
    (requestEvent6 st client iaid host).Admissible st :=
  ⟨List.Perm.refl _, hclock⟩

/-- The leases after two Requests: the first one is answered, and then the second one. -/
theorem exists_requests (maxLeases : ℕ) (client iaid host client' iaid' host' : UInt8)
    (p : State6 → Outcome6 → Bool)
    (hrun : ((step6 [sampleContext6] [] { db := { maxLeases } }
        (requestEvent6 { db := { maxLeases } } client iaid host)).any fun st => st.clock ≤ 1000
      && ((dispatchDhcp6 (requestEvent6 st client' iaid' host').pkt
        (requestEvent6 st client' iaid' host').duid
        ((requestEvent6 st client' iaid' host').context [sampleContext6] [] st)).toOption.any
          (p st)))) :
    ∃ st outcome, Reachable6 [sampleContext6] [] st
      ∧ (requestEvent6 st client' iaid' host').Admissible st
      ∧ dispatchDhcp6 (requestEvent6 st client' iaid' host').pkt
        (requestEvent6 st client' iaid' host').duid
        ((requestEvent6 st client' iaid' host').context [sampleContext6] [] st) = .ok outcome
      ∧ p st outcome := by
  obtain ⟨st, hstep, hfacts⟩ := (any_eq_true _ _).mp hrun
  rw [Bool.and_eq_true, decide_eq_true_eq] at hfacts
  obtain ⟨outcome, hout, hp⟩ := (any_eq_true _ _).mp hfacts.2
  have hfirst :
      (requestEvent6 { db := { maxLeases } } client iaid host).Admissible { db := { maxLeases } } :=
    admissible_requestEvent6 (by decide : (0 : UInt64) ≤ 1000) client iaid host
  exact ⟨st, outcome, ⟨maxLeases, .tail .refl hfirst hstep⟩,
    admissible_requestEvent6 hfacts.1 _ _ _, toOption_eq_some.mp hout, hp⟩

/-- The second client's Request leaves the lease of the first. -/
theorem keepsLeases_iff_request : ∃ st outcome,
    dispatchDhcp6 (requestEvent6 st 2 2 17).pkt (requestEvent6 st 2 2 17).duid
      ((requestEvent6 st 2 2 17).context [sampleContext6] [] st) = .ok outcome
    ∧ (KeepsLeases st.db ((toBind (requestEvent6 st 2 2 17).pkt
        ((requestEvent6 st 2 2 17).context [sampleContext6] [] st)).map (·.2)) outcome.2
      ↔ ¬ Evicts (requestEvent6 st 2 2 17).pkt
        ((requestEvent6 st 2 2 17).context [sampleContext6] [] st)) := by
  obtain ⟨st, outcome, hreach, hev, hdisp, -⟩ :=
    exists_requests 1000 1 1 16 2 2 17 (fun _ _ => true) (by decide +kernel)
  exact ⟨st, outcome, hdisp, keepsLeases_iff hreach hev (.inr (.inl rfl)) hdisp⟩

/-- A client with a lease for one IA asks for an address for a second one, and the first lease is
gone. -/
theorem not_keepsLeases_request : ∃ st outcome, Reachable6 [sampleContext6] [] st
    ∧ (requestEvent6 st 1 2 17).Admissible st
    ∧ dispatchDhcp6 (requestEvent6 st 1 2 17).pkt (requestEvent6 st 1 2 17).duid
      ((requestEvent6 st 1 2 17).context [sampleContext6] [] st) = .ok outcome
    ∧ ¬ KeepsLeases st.db ((toBind (requestEvent6 st 1 2 17).pkt
        ((requestEvent6 st 1 2 17).context [sampleContext6] [] st)).map (·.2)) outcome.2 := by
  obtain ⟨st, outcome, hreach, hev, hdisp, hp⟩ :=
    exists_requests 1000 1 1 16 1 2 17 (fun st outcome =>
        (toBind (requestEvent6 st 1 2 17).pkt
          ((requestEvent6 st 1 2 17).context [sampleContext6] [] st)).map (·.2)
          = some (sampleAddr6 17)
        && (st.db.store.entries.entries.any fun e => e.2.isV6For (sampleAddr6 16))
        && outcome.2.store.entries.entries.all fun e => !e.2.isV6For (sampleAddr6 16))
          (by decide +kernel)
  rw [Bool.and_eq_true, Bool.and_eq_true, decide_eq_true_eq] at hp
  obtain ⟨⟨hbind, hbefore⟩, hafter⟩ := hp
  refine ⟨st, outcome, hreach, hev, hdisp, ?_⟩
  intro hkeeps
  obtain ⟨e, he, hfor⟩ := any_eq_true.mp hbefore
  obtain ⟨hv6, haddr⟩ := Bool.and_eq_true_iff.mp hfor
  have haddr := of_decide_eq_true haddr
  obtain ⟨c, -, -, k', ⟨l', hl', hfor'⟩, -⟩ := hkeeps e.1 e.2 (AList.mem_lookup_iff.mpr he) hv6 (by
    rw [hbind, haddr]
    decide)
  have hno := all_eq_true.mp hafter ⟨k', l'⟩ (AList.mem_lookup_iff.mp hl')
  rw [haddr] at hfor'
  rw [hfor'] at hno
  cases hno

/-! ### What is granted -/

/-- When a lease with the lifetime runs out. -/
def expiresAt (nowSecs : UInt64) (valid : UInt32) : Option SystemTime :=
  if valid = 0xFFFFFFFF then none else some (fromSecs (nowSecs.toNat + valid.toNat))

theorem expiryOf_eq (h : expiryOf nowSecs valid = .ok expires) :
    expires = expiresAt nowSecs valid := by
  unfold expiryOf at h
  unfold expiresAt
  split at h
  · next hinf =>
    rw [if_pos hinf]
    exact (Except.ok.inj h).symm
  · next hfin =>
    rw [if_neg hfin]
    dsimp only at h
    split at h
    · cases h
    · obtain rfl := Except.ok.inj h
      -- the sum did not saturate
      have hsum :
          min (nowSecs.toNat + valid.toNat) (2 ^ 64 - 1) = nowSecs.toNat + valid.toNat := by omega
      rw [hsum]

/-- **Whatever is granted is on record** for the client and IAID, until its lifetime is over. -/
def GrantsOnRecord (pkt : Dhcp6Packet) (duid : Bytes) (nowSecs : UInt64) (outcome : Outcome6) :
    Prop :=
  ∀ iaid a valid, Grants pkt duid outcome.1 iaid a valid →
    OnRecord6 outcome.2 (extractClientId pkt) iaid a (expiresAt nowSecs valid)

/-- **Every grant is on record** exactly if there is a lease for the address already, or room for
one. -/
theorem grantsOnRecord_iff (hreach : Reachable6 contexts configs st) (hev : ev.Admissible st)
    (h : dispatchDhcp6 ev.pkt ev.duid (ev.context contexts configs st) = .ok outcome) :
    GrantsOnRecord ev.pkt ev.duid ev.nowSecs outcome ↔
      ∀ iaid a, toBind ev.pkt (ev.context contexts configs st) = some (iaid, a) →
        (computeTimesForAddr contexts a).valid ≠ 0 → Recordable st.db a := by
  have htable : Table6 (ev.context contexts configs st).leaseDb.store := hreach.table6
  have hunique' := (effect6_of_dispatch h).unique6 htable.unique hev.order
  cases binding_of_dispatch h with
  | idle hbind hreply =>
    refine iff_of_true ?_ ?_
    · intro iaid a valid hgrants
      exact absurd hgrants.assigns (hreply a)
    · intro iaid a hbind'
      cases hbind.symm.trans hbind'
  | @bind iaid a times reply db hbind hpersist hreply =>
    obtain ⟨htimes, expires, hexp, hdb⟩ := persistLease_spec htable hev.order hpersist
    constructor
    · rintro hgrants iaid' a' hbind' hvalid
      obtain ⟨rfl, rfl⟩ := Prod.mk.inj (some.inj (hbind.symm.trans hbind'))
      have hrec :=
        hgrants iaid a times.valid (hreply.grants_iff.mpr ⟨rfl, rfl, rfl, htimes ▸ hvalid⟩)
      obtain ⟨k, l, hl, hto, -⟩ := (onRecord6_iff hunique').mp hrec
      obtain ⟨hrec, -⟩ | ⟨-, rfl⟩ := hdb
      · exact hrec
      · -- the table was full, and the lease that is found was in it before
        exact .inl ⟨k, l, hl, isV6For_of_isBoundTo hto⟩
    · intro hroom iaid' a' valid hgrants
      obtain ⟨rfl, rfl, rfl, hvalid⟩ := hreply.grants_iff.mp hgrants
      have hrec := hroom iaid' a' hbind (htimes ▸ hvalid)
      obtain ⟨-, hbound⟩ | ⟨hfull, -⟩ := hdb
      · obtain ⟨new, hnew, hto, hnewexp, -⟩ := hbound.new
        exact (onRecord6_iff hunique').mpr ⟨_, new, hnew, hto, hnewexp.trans (expiryOf_eq hexp)⟩
      · exact absurd hrec hfull

/-- A client's Request is granted while there is room. -/
theorem grantsOnRecord_iff_request : ∃ st outcome,
    dispatchDhcp6 (requestEvent6 st 2 2 17).pkt (requestEvent6 st 2 2 17).duid
      ((requestEvent6 st 2 2 17).context [sampleContext6] [] st) = .ok outcome
    ∧ (GrantsOnRecord (requestEvent6 st 2 2 17).pkt (requestEvent6 st 2 2 17).duid 1000 outcome ↔
      ∀ iaid a, toBind (requestEvent6 st 2 2 17).pkt
          ((requestEvent6 st 2 2 17).context [sampleContext6] [] st) = some (iaid, a) →
        (computeTimesForAddr [sampleContext6] a).valid ≠ 0 → Recordable st.db a) := by
  obtain ⟨st, outcome, hreach, hev, hdisp, -⟩ :=
    exists_requests 2 1 1 16 2 2 17 (fun _ _ => true) (by decide +kernel)
  exact ⟨st, outcome, hdisp, grantsOnRecord_iff hreach hev hdisp⟩

/-- The table has room for one lease, the first client has it, and the second is granted an address
as well. -/
theorem not_grantsOnRecord_request : ∃ st outcome, Reachable6 [sampleContext6] [] st
    ∧ (requestEvent6 st 2 2 17).Admissible st
    ∧ dispatchDhcp6 (requestEvent6 st 2 2 17).pkt (requestEvent6 st 2 2 17).duid
      ((requestEvent6 st 2 2 17).context [sampleContext6] [] st) = .ok outcome
    ∧ ¬ GrantsOnRecord (requestEvent6 st 2 2 17).pkt
      (requestEvent6 st 2 2 17).duid 1000 outcome := by
  obtain ⟨st, outcome, hreach, hev, hdisp, hp⟩ := exists_requests 1 1 1 16 2 2 17 (fun st outcome =>
        toBind (requestEvent6 st 2 2 17).pkt
          ((requestEvent6 st 2 2 17).context [sampleContext6] [] st)
          = some (2, sampleAddr6 17)
        && outcome.2.store.entries.entries.all fun e => !e.2.isV6For (sampleAddr6 17))
          (by decide +kernel)
  rw [Bool.and_eq_true, decide_eq_true_eq] at hp
  obtain ⟨hbind, hafter⟩ := hp
  have hvalid :
      (computeTimesForAddr [sampleContext6] (sampleAddr6 17)).valid ≠ 0 := by decide +kernel
  refine ⟨st, outcome, hreach, hev, hdisp, ?_⟩
  intro hgrants
  cases binding_of_dispatch hdisp with
  | idle hno => cases hno.symm.trans hbind
  | bind hbind' hpersist hreply =>
    obtain ⟨rfl, rfl⟩ := Prod.mk.inj (some.inj (hbind'.symm.trans hbind))
    obtain ⟨rfl, -⟩ := persistLease_spec hreach.table6 hev.order hpersist
    have hrec := hgrants _ _ _ (hreply.grants_iff.mpr ⟨rfl, rfl, rfl, hvalid⟩)
    obtain ⟨l, hfind, -⟩ := hrec _ (List.Perm.refl _)
    obtain ⟨e, he, rfl⟩ := map_eq_some_iff.mp hfind
    have hno := all_eq_true.mp hafter e (mem_of_find?_eq_some he)
    have hto := find?_some he
    rw [isV6For_of_isBoundTo hto] at hno
    cases hno

end DnsmasqRs.Dhcp6
