import DnsmasqRs.Dhcp.Equiv.Dispatch

/-!
# What a grant means for the leases

Four questions about the leases before and after a dispatch, each answered exactly.

An address that the packet names is granted without a look at its lease, so another client may hold
it (`exclusive_iff`).  A new lease takes the place of the one under the placeholder key, which is
that of the last client without a client ID (`undisturbed_iff`); so the lease of such a client is
not found under its hardware address (`onRecord_iff`).  A RELEASE or DECLINE removes the lease at
the address it names, whoever holds it (`removesOwn_iff`).
-/

namespace DnsmasqRs.Dhcp

open Wire Utf8 Fallible Option

/-! ### Clients -/

/-- Who a client is. -/
inductive ClientId where
  | clid (id : Bytes)
  | hwaddr (addr : Bytes)
  deriving DecidableEq

/-- A client is known by its client ID unless that is empty, else by its hardware address. -/
def clientId (clid : Option Bytes) (hwaddr : Bytes) : ClientId :=
  match clid.filter (· ≠ []) with
  | some id => .clid id
  | none => .hwaddr hwaddr

/-- The client that sent a packet. -/
def DhcpPacket.client (pkt : DhcpPacket) : ClientId :=
  clientId (findOption pkt.options optionClientId) pkt.hwaddr

/-- The client that holds a lease. -/
def DhcpLease.client (lease : DhcpLease) : ClientId := clientId lease.clid lease.hwaddr

/-- The lease has not expired, as `prune` tells. -/
def DhcpLease.unexpired (lease : DhcpLease) (now : SystemTime) : Bool := lease.expires.all (now ≤ ·)

variable {pkt : DhcpPacket} {cfg : DhcpServerConfig} {db : LeaseDb} {env : Surroundings}
  {outcome : Outcome} {a : Ipv4Addr} {now : SystemTime}

theorem grant_of_dispatch (h : dispatchDhcpWithMeta pkt cfg db env = .ok outcome)
    (hgrant : grantedAddr pkt outcome.1 = some a) :
    ∃ client secs, identify pkt cfg = .ok (some client)
      ∧ NamedOrFree pkt cfg cfg.contexts db client a ∧ outcome.2.1 = if recordsGrant pkt a then
          recordLease db a pkt client.clid client.hostname secs env.commitTime else db := by
  cases effect_of_dispatch h with
  | idle hnone => cases hnone.symm.trans hgrant
  | giveUp => cases hgrant
  | grant secs hclient hgrant' haddr hdb =>
    obtain rfl := some.inj (hgrant'.symm.trans hgrant)
    exact ⟨_, secs, hclient, haddr, hdb⟩

/-- A client on a network with one range, for the examples below. -/
def sampleAddr (host : UInt8) : Ipv4Addr := ⟨#v[192, 168, 1, host]⟩

def sampleConfig : DhcpServerConfig where
  poolStart := sampleAddr 10
  poolEnd := sampleAddr 20
  contexts := [{ leaseTime := 3600, start := sampleAddr 10, finish := sampleAddr 20 }]

def samplePacket (hw : UInt8) (options : Bytes) : DhcpPacket where
  htype := 1
  hlen := 6
  ciaddr := .unspecified
  giaddr := .unspecified
  chaddr := #v[2, 0, 0, 0, 0, hw, 0, 0, 0, 0, 0, 0, 0, 0, 0, 0]
  file := .replicate 128 0
  options

/-- A REQUEST for an address, without a client ID. -/
def sampleRequest (hw host : UInt8) : DhcpPacket :=
  samplePacket hw [53, 1, 3, 50, 4, 192, 168, 1, host, 255]

/-- The database after REQUESTs. -/
def afterRequests (requests : List (UInt8 × UInt8)) : Option LeaseDb :=
  (requests.map fun r => (⟨sampleRequest r.1 r.2, sampleConfig, {}⟩ : Event)).foldlM step
    LeaseDb.new

/-- A dispatch that is evaluated on a database that was. -/
theorem exists_dispatch {pkt : DhcpPacket} {p : LeaseDb → Outcome → Bool}
    (h : ((afterRequests requests).any fun db =>
      (dispatchDhcpWithMeta pkt sampleConfig db {}).toOption.any (p db))) :
    ∃ db outcome, Reachable db ∧ dispatchDhcpWithMeta pkt sampleConfig db {} = .ok outcome
      ∧ p db outcome := by
  obtain ⟨db, hdb, hany⟩ := (any_eq_true _ _).mp h
  obtain ⟨outcome, hout, hp⟩ := (any_eq_true _ _).mp hany
  exact ⟨db, outcome, reachable_of_run hdb, toOption_eq_some.mp hout, hp⟩

/-- An address is granted while another client has a lease. -/
theorem exists_grant : ∃ db outcome, Reachable db ∧ (db.findByAddr (sampleAddr 11)).isSome
    ∧ dispatchDhcpWithMeta (sampleRequest 1 10) sampleConfig db {} = .ok outcome
    ∧ grantedAddr (sampleRequest 1 10) outcome.1 = some (sampleAddr 10) := by
  have hrun : ((afterRequests [(2, 11)]).any fun db =>
      (dispatchDhcpWithMeta (sampleRequest 1 10) sampleConfig db {}).toOption.any fun out =>
        (db.findByAddr (sampleAddr 11)).isSome
          ∧ grantedAddr (sampleRequest 1 10) out.1 = some (sampleAddr 10)) := by decide +kernel
  obtain ⟨db, outcome, hreach, hdisp, hgrant⟩ := exists_dispatch hrun
  obtain ⟨hother, hgrant⟩ := of_decide_eq_true hgrant
  exact ⟨db, outcome, hreach, hother, hdisp, hgrant⟩

/-! ### No address for two clients -/

/-- No other client holds an unexpired lease for the address. -/
def Exclusive (db : LeaseDb) (pkt : DhcpPacket) (a : Ipv4Addr) (now : SystemTime) : Prop :=
  ∀ k l, db.store.get k = some l → leaseAddr l = some a → l.unexpired now → l.client = pkt.client

/-- The address that is granted without a search, if any, has no unexpired lease of another client.
-/
def NamedFree (db : LeaseDb) (cfg : DhcpServerConfig) (pkt : DhcpPacket) (now : SystemTime) :
    Prop :=
  ∀ client b l, identify pkt cfg = .ok (some client) →
    namedAddr pkt cfg cfg.contexts db client = some b → db.findByAddr b = some l →
    l.unexpired now → l.client = pkt.client

theorem exclusive_iff_findByAddr (h : Ok db.store) : Exclusive db pkt a now ↔
    ∀ l, db.findByAddr a = some l → l.unexpired now → l.client = pkt.client := by
  constructor
  · intro hex l hl hlive
    obtain ⟨k, hk, hattr⟩ := h.coherent.find_eq_some_iff.mp hl
    exact hex k l hk hattr hlive
  · intro hex k l hk hattr hlive
    exact hex l (h.coherent.find_eq_some_iff.mpr ⟨k, hk, hattr⟩) hlive

/-- **An address is not given to two clients** exactly if the address the packet names is not held
by another one.  An address that was searched for never is. -/
theorem exclusive_iff (hreach : Reachable db)
    (h : dispatchDhcpWithMeta pkt cfg db env = .ok outcome)
    (hgrant : grantedAddr pkt outcome.1 = some a) (now : SystemTime) :
    Exclusive db pkt a now ↔ NamedFree db cfg pkt now := by
  obtain ⟨client, -, hclient, haddr, -⟩ := grant_of_dispatch h hgrant
  rw [exclusive_iff_findByAddr hreach.ok]
  constructor
  · intro hex client' b l hclient' hnamed hl
    obtain rfl := some.inj (Except.ok.inj (hclient.symm.trans hclient'))
    obtain hnamed' | ⟨hnone, -⟩ := haddr
    · obtain rfl := some.inj (hnamed.symm.trans hnamed')
      exact hex l hl
    · cases hnone.symm.trans hnamed
  · intro hfree l hl
    obtain hnamed | ⟨-, hnone⟩ := haddr
    · exact hfree client a l hclient hnamed hl
    · cases hnone.symm.trans hl

theorem exclusive_iff_sampleRequest : ∃ db outcome, Reachable db
    ∧ (db.findByAddr (sampleAddr 11)).isSome
    ∧ dispatchDhcpWithMeta (sampleRequest 1 10) sampleConfig db {} = .ok outcome
    ∧ grantedAddr (sampleRequest 1 10) outcome.1 = some (sampleAddr 10)
    ∧ (Exclusive db (sampleRequest 1 10) (sampleAddr 10) 0
      ↔ NamedFree db sampleConfig (sampleRequest 1 10) 0) := by
  obtain ⟨db, outcome, hreach, hother, hdisp, hgrant⟩ := exists_grant
  exact ⟨db, outcome, hreach, hother, hdisp, hgrant, exclusive_iff hreach hdisp hgrant 0⟩

/-- One client has the address, another one asks for it and gets it. -/
theorem not_exclusive_request : ∃ db outcome, Reachable db
    ∧ dispatchDhcpWithMeta (sampleRequest 2 10) sampleConfig db {} = .ok outcome
    ∧ grantedAddr (sampleRequest 2 10) outcome.1 = some (sampleAddr 10)
    ∧ ¬ Exclusive db (sampleRequest 2 10) (sampleAddr 10) 0 := by
  have hrun : ((afterRequests [(1, 10)]).any fun db =>
      (dispatchDhcpWithMeta (sampleRequest 2 10) sampleConfig db {}).toOption.any fun out =>
        grantedAddr (sampleRequest 2 10) out.1 = some (sampleAddr 10)
          && (db.findByAddr (sampleAddr 10)).any fun l =>
            l.unexpired 0 && l.client ≠ (sampleRequest 2 10).client) := by decide +kernel
  obtain ⟨db, outcome, hreach, hdisp, hfacts⟩ := exists_dispatch hrun
  rw [Bool.and_eq_true, decide_eq_true_eq] at hfacts
  obtain ⟨l, hl, hother⟩ := (any_eq_true _ _).mp hfacts.2
  rw [Bool.and_eq_true, decide_eq_true_eq] at hother
  refine ⟨db, outcome, hreach, hdisp, hfacts.1, ?_⟩
  rw [exclusive_iff_findByAddr hreach.ok]
  intro hex
  exact hother.2 (hex l hl hother.1)

/-! ### Other leases -/

/-- Every lease of another client, for another address, is still there. -/
def Undisturbed (db db' : LeaseDb) (pkt : DhcpPacket) (a : Ipv4Addr) : Prop :=
  ∀ k l b, db.store.get k = some l → leaseAddr l = some b → b ≠ a → l.client ≠ pkt.client →
    ∃ l', db'.findByAddr b = some l' ∧ Kept l l'

/-- No lease of another client is under a key the grant writes to: that of all zeros, if a lease is
created, and that of the client ID, if it is not yet that of the lease. -/
def KeysFree (db : LeaseDb) (pkt : DhcpPacket) (a : Ipv4Addr) : Prop :=
  recordsGrant pkt a → ∀ k l b, db.store.get k = some l → leaseAddr l = some b → b ≠ a →
    l.client ≠ pkt.client → ¬ Displaced pkt (findOption pkt.options optionClientId) db a b

/-- **A grant does not disturb other clients** exactly if the keys it writes to are free. -/
theorem undisturbed_iff (hreach : Reachable db)
    (h : dispatchDhcpWithMeta pkt cfg db env = .ok outcome)
    (hgrant : grantedAddr pkt outcome.1 = some a) : Undisturbed db outcome.2.1 pkt a
      ↔ KeysFree db pkt a := by
  obtain ⟨client, secs, hclient, -, hdb⟩ := grant_of_dispatch h hgrant
  have hfind (k : Key) (l : DhcpLease) (b : Ipv4Addr) (hl : db.store.get k = some l)
      (hb : leaseAddr l = some b) : db.store.find b = some l :=
    hreach.ok.coherent.find_eq_some_iff.mpr ⟨k, hl, hb⟩
  rw [hdb]
  unfold Undisturbed KeysFree
  by_cases hrec : recordsGrant pkt a
  · have hspec := hreach.ok.recordLease pkt client.clid client.hostname secs env.commitTime a
    rw [if_pos hrec, ← clid_of_identify hclient]
    constructor
    · intro hkept _ k l b hl hb hba hother hdisplaced
      obtain ⟨l', hl', -⟩ := hkept k l b hl hb hba hother
      cases (hspec.displaced b hba hdisplaced).symm.trans hl'
    · intro hfree k l b hl hb hba hother
      exact (hspec.kept b hba (hfree hrec k l b hl hb hba hother)).exists_some (hfind k l b hl hb)
  · rw [if_neg hrec]
    constructor
    · intro _ hrec'
      exact absurd hrec' hrec
    · intro _ k l b hl hb _ _
      exact ⟨l, hfind k l b hl hb, .refl l⟩

theorem undisturbed_iff_sampleRequest : ∃ db outcome, Reachable db
    ∧ (db.findByAddr (sampleAddr 11)).isSome
    ∧ dispatchDhcpWithMeta (sampleRequest 1 10) sampleConfig db {} = .ok outcome
    ∧ grantedAddr (sampleRequest 1 10) outcome.1 = some (sampleAddr 10)
    ∧ (Undisturbed db outcome.2.1 (sampleRequest 1 10) (sampleAddr 10)
      ↔ KeysFree db (sampleRequest 1 10) (sampleAddr 10)) := by
  obtain ⟨db, outcome, hreach, hother, hdisp, hgrant⟩ := exists_grant
  exact ⟨db, outcome, hreach, hother, hdisp, hgrant, undisturbed_iff hreach hdisp hgrant⟩

/-- Two clients without a client ID: the lease of the first is lost when the second gets one. -/
theorem not_undisturbed_request : ∃ db outcome, Reachable db
    ∧ dispatchDhcpWithMeta (sampleRequest 2 11) sampleConfig db {} = .ok outcome
    ∧ grantedAddr (sampleRequest 2 11) outcome.1 = some (sampleAddr 11)
    ∧ ¬ Undisturbed db outcome.2.1 (sampleRequest 2 11) (sampleAddr 11) := by
  have hrun : ((afterRequests [(1, 10)]).any fun db =>
      (dispatchDhcpWithMeta (sampleRequest 2 11) sampleConfig db {}).toOption.any fun out =>
        grantedAddr (sampleRequest 2 11) out.1 = some (sampleAddr 11)
          && out.2.1.findByAddr (sampleAddr 10) = none
          && (db.findByAddr (sampleAddr 10)).any (·.client ≠ (sampleRequest 2 11).client)) := by
    decide +kernel
  obtain ⟨db, outcome, hreach, hdisp, hfacts⟩ := exists_dispatch hrun
  rw [Bool.and_eq_true, Bool.and_eq_true, decide_eq_true_eq, decide_eq_true_eq] at hfacts
  obtain ⟨⟨hgrant, hlost⟩, hheld⟩ := hfacts
  obtain ⟨l, hl, hother⟩ := (any_eq_true _ _).mp hheld
  obtain ⟨k, hk, hattr⟩ := hreach.ok.coherent.find_eq_some_iff.mp hl
  refine ⟨db, outcome, hreach, hdisp, hgrant, ?_⟩
  intro hkept
  obtain ⟨l', hl', -⟩ := hkept k l (sampleAddr 10) hk hattr (by decide) (of_decide_eq_true hother)
  cases hlost.symm.trans hl'

/-! ### Grants on record -/

/-- The lease of the client is found by the address and by the key of the client. -/
def OnRecord (db : LeaseDb) (pkt : DhcpPacket) (a : Ipv4Addr) : Prop :=
  ∃ l, db.findByAddr a = some l ∧ db.findByClientId pkt.clientKey = some l ∧ l.addr = a
    ∧ l.hwaddr = pkt.hwaddr ∧ l.hwaddrType = pkt.htype.toNat
    ∧ ∀ c, findOption pkt.options optionClientId = some c → l.clid = some c

/-- The lease can be written, and comes to be under the key of the client. -/
def UnderOwnKey (db : LeaseDb) (pkt : DhcpPacket) (a : Ipv4Addr) : Prop :=
  ∃ k l, recordBasis db a = some (k, l)
    ∧ settledKey pkt.hwaddr (findOption pkt.options optionClientId) k l = toKey pkt.clientKey

theorem recordBasis_unspecified (h : Ok db.store) : recordBasis db .unspecified = none := by
  unfold recordBasis
  rw [h.coherent.find_eq_none_iff.mp h.find_unspecified]
  exact if_pos (.inl rfl)

/-- **A grant is on record** exactly if the lease comes to be under the key of the client. -/
theorem onRecord_iff (hreach : Reachable db) (h : dispatchDhcpWithMeta pkt cfg db env = .ok outcome)
    (hgrant : grantedAddr pkt outcome.1 = some a) : OnRecord outcome.2.1 pkt a
      ↔ UnderOwnKey db pkt a := by
  obtain ⟨client, secs, hclient, -, hdb⟩ := grant_of_dispatch h hgrant
  rw [hdb]
  unfold UnderOwnKey
  by_cases hrec : recordsGrant pkt a
  · have hspec := hreach.ok.recordLease pkt client.clid client.hostname secs env.commitTime a
    rw [if_pos hrec, ← clid_of_identify hclient]
    constructor
    · rintro ⟨l', hfind, hget, haddr, -⟩
      cases hbasis : recordBasis db a with
      | none => cases (hspec.unrecorded hbasis).symm.trans hfind
      | some basis =>
        refine ⟨basis.1, basis.2, rfl, ?_⟩
        -- a lease with the address is under the key the index has
        have hattr : leaseAddr l' = some a := hspec.ok.coherent.attr_of_find hfind
        have hkey := hspec.ok.coherent.complete _ l' a hget hattr
        exact some.inj ((hspec.key basis.1 basis.2 hbasis).symm.trans hkey)
    · rintro ⟨k, l, hbasis, hkey⟩
      obtain ⟨l', hfind, hholder⟩ := hspec.recorded k l hbasis
      obtain ⟨hhw, htype, hclid, -⟩ := settledLease_spec pkt.hwaddr pkt.htype.toNat client.clid l
      refine ⟨l', hfind, ?_, (hspec.ok.addr_of_find hfind).1, hholder.hwaddr.trans hhw,
        hholder.hwaddrType.trans htype, ?_⟩
      · obtain ⟨k', hk', hl'⟩ := Indexed.find_eq_some.mp hfind
        obtain rfl := some.inj ((hspec.key k l hbasis).symm.trans hk')
        rw [hkey] at hl'
        exact hl'
      · intro c hc
        rw [hholder.clid, hclid, clid_of_identify hclient, hc]
        rfl
  · obtain ⟨hunset, -⟩ := not_or.mp hrec
    obtain rfl := not_ne_iff.mp hunset
    rw [if_neg hrec, recordBasis_unspecified hreach.ok]
    refine iff_of_false ?_ ?_
    · rintro ⟨l, hfind, -⟩
      cases hreach.ok.find_unspecified.symm.trans hfind
    · rintro ⟨k, l, hnone, -⟩
      cases hnone

theorem onRecord_iff_sampleRequest : ∃ db outcome, Reachable db
    ∧ (db.findByAddr (sampleAddr 11)).isSome
    ∧ dispatchDhcpWithMeta (sampleRequest 1 10) sampleConfig db {} = .ok outcome
    ∧ grantedAddr (sampleRequest 1 10) outcome.1 = some (sampleAddr 10)
    ∧ (OnRecord outcome.2.1 (sampleRequest 1 10) (sampleAddr 10)
      ↔ UnderOwnKey db (sampleRequest 1 10) (sampleAddr 10)) := by
  obtain ⟨db, outcome, hreach, hother, hdisp, hgrant⟩ := exists_grant
  exact ⟨db, outcome, hreach, hother, hdisp, hgrant, onRecord_iff hreach hdisp hgrant⟩

/-- The lease of a client without a client ID is not found under its hardware address. -/
theorem not_onRecord_request : ∃ db outcome, Reachable db
    ∧ dispatchDhcpWithMeta (sampleRequest 1 10) sampleConfig db {} = .ok outcome
    ∧ grantedAddr (sampleRequest 1 10) outcome.1 = some (sampleAddr 10)
    ∧ ¬ OnRecord outcome.2.1 (sampleRequest 1 10) (sampleAddr 10) := by
  have hrun : ((afterRequests []).any fun db =>
      (dispatchDhcpWithMeta (sampleRequest 1 10) sampleConfig db {}).toOption.any fun out =>
        grantedAddr (sampleRequest 1 10) out.1 = some (sampleAddr 10)
          && out.2.1.findByClientId (sampleRequest 1 10).clientKey = none) := by decide +kernel
  obtain ⟨db, outcome, hreach, hdisp, hfacts⟩ := exists_dispatch hrun
  rw [Bool.and_eq_true, decide_eq_true_eq, decide_eq_true_eq] at hfacts
  refine ⟨db, outcome, hreach, hdisp, hfacts.1, ?_⟩
  rintro ⟨l, -, hget, -⟩
  cases hfacts.2.symm.trans hget

/-! ### Giving up an address -/

/-- The lease is that of the sender: it has the client ID of the packet or, if there is none, the
hardware address. -/
def DhcpLease.belongsTo (lease : DhcpLease) (pkt : DhcpPacket) : Bool :=
  match (findOption pkt.options optionClientId).filter (· ≠ []) with
  | some c => lease.clid = some c
  | none => lease.hasHwaddrOf pkt

/-- Every lease that is no longer in the table was the sender's. -/
def RemovesOwn (db db' : LeaseDb) (pkt : DhcpPacket) : Prop :=
  ∀ k l, db.store.get k = some l → db'.store.get k = none → l.belongsTo pkt

/-- The lease at the address that is given up, if any, is the sender's. -/
def NamesOwn (db : LeaseDb) (cfg : DhcpServerConfig) (pkt : DhcpPacket) (msgType : DhcpMsgType) :
    Prop :=
  ∀ client b l, identify pkt cfg = .ok (some client) → givenUpAddr pkt cfg msgType = some b →
    db.findByAddr b = some l → l.belongsTo pkt

theorem dispatch_giveUp (hmsg : getMessageType pkt.options = some msgType)
    (htype : msgType = .release ∨ msgType = .decline)
    (h : dispatchDhcpWithMeta pkt cfg db env = .ok outcome) :
    ∃ found, identify pkt cfg = .ok found
      ∧ outcome.2.1 = match found.bind fun _ => givenUpAddr pkt cfg msgType with
        | some b => db.removeByAddr b
        | none => db := by
  obtain ⟨found, hfound, h⟩ := bind_eq_ok.mp h
  refine ⟨found, hfound, ?_⟩
  cases found with
  | none =>
    obtain rfl := Except.ok.inj h
    rfl
  | some client =>
    rw [hmsg] at h
    obtain rfl := Except.ok.inj h
    rw [bind_some]
    obtain rfl | rfl := htype
    · show (match givenUpAddr pkt cfg .release with | some a => _ | none => _ : Outcome).2.1 = _
      split <;> rfl
    · show (match givenUpAddr pkt cfg .decline with | some a => _ | none => _ : Outcome).2.1 = _
      split <;> rfl

/-- **A client only gives up its own address** exactly if it names an address it holds. -/
theorem removesOwn_iff {msgType : DhcpMsgType} (hreach : Reachable db)
    (hmsg : getMessageType pkt.options = some msgType)
    (htype : msgType = .release ∨ msgType = .decline)
    (h : dispatchDhcpWithMeta pkt cfg db env = .ok outcome) :
    RemovesOwn db outcome.2.1 pkt ↔ NamesOwn db cfg pkt msgType := by
  obtain ⟨found, hfound, hdb⟩ := dispatch_giveUp hmsg htype h
  rw [hdb]
  cases hb : found.bind fun _ => givenUpAddr pkt cfg msgType with
  | none =>
    refine iff_of_true ?_ ?_
    · intro k l hl hnone
      cases hnone.symm.trans hl
    · intro client b l hclient hgiven
      obtain rfl := Except.ok.inj (hfound.symm.trans hclient)
      cases hb.symm.trans hgiven
  | some b =>
    obtain ⟨client, rfl, hgiven⟩ := bind_eq_some_iff.mp hb
    constructor
    · intro hown client' b' l _ hgiven' hl
      obtain rfl := some.inj (hgiven.symm.trans hgiven')
      obtain ⟨k, hk, hget⟩ := Indexed.find_eq_some.mp hl
      exact hown k l hget (by rw [get_removeByAddr hreach.ok, if_pos hk])
    · intro hown k l hget hnone
      rw [get_removeByAddr hreach.ok] at hnone
      split at hnone
      · next hk => exact hown client b l hfound hgiven (Indexed.find_eq_some.mpr ⟨k, hk, hget⟩)
      · cases hnone.symm.trans hget

/-- A RELEASE of an address. -/
def sampleRelease (hw host : UInt8) : DhcpPacket :=
  { samplePacket hw [53, 1, 7, 255] with ciaddr := sampleAddr host }

theorem removesOwn_iff_sampleRelease : ∃ db outcome, Reachable db
    ∧ dispatchDhcpWithMeta (sampleRelease 1 10) sampleConfig db {} = .ok outcome
    ∧ (RemovesOwn db outcome.2.1 (sampleRelease 1 10)
      ↔ NamesOwn db sampleConfig (sampleRelease 1 10) .release) := by
  have hrun : ((afterRequests [(1, 10)]).any fun db =>
      (dispatchDhcpWithMeta (sampleRelease 1 10) sampleConfig db {}).toOption.any fun _ =>
        true) := by
    decide +kernel
  obtain ⟨db, outcome, hreach, hdisp, -⟩ := exists_dispatch hrun
  exact ⟨db, outcome, hreach, hdisp, removesOwn_iff hreach (by decide) (.inl rfl) hdisp⟩

/-- A RELEASE with the address of another client removes its lease. -/
theorem not_removesOwn_release : ∃ db outcome, Reachable db
    ∧ dispatchDhcpWithMeta (sampleRelease 2 10) sampleConfig db {} = .ok outcome
    ∧ ¬ RemovesOwn db outcome.2.1 (sampleRelease 2 10) := by
  have hrun : ((afterRequests [(1, 10)]).any fun db =>
      (dispatchDhcpWithMeta (sampleRelease 2 10) sampleConfig db {}).toOption.any fun out =>
        out.2.1.store.get placeholder = none
          && (db.store.get placeholder).any fun l => !l.belongsTo (sampleRelease 2 10)) := by
    decide +kernel
  obtain ⟨db, outcome, hreach, hdisp, hfacts⟩ := exists_dispatch hrun
  rw [Bool.and_eq_true, decide_eq_true_eq] at hfacts
  obtain ⟨l, hl, hother⟩ := (any_eq_true _ _).mp hfacts.2
  refine ⟨db, outcome, hreach, hdisp, ?_⟩
  intro hown
  rw [hown placeholder l hl hfacts.1] at hother
  cases hother

end DnsmasqRs.Dhcp
