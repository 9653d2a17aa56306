import DnsmasqRs.Dhcp.Equiv.Lease
import DnsmasqRs.Lib.Run

/-!
# The lease table and its index stay in step

The lease database is one table for DHCPv4 and DHCPv6.  Leases of DHCPv6 have no IPv4 address, so
they are not in the index, and `bind_v6` and `remove_v6_by_clid_iaid_addr` take them out of the
table without looking at it.  That is sound because no lease is both (`V6Unindexed`), which every
operation keeps: none of those of DHCPv4 sets the flags of a DHCPv6 lease (`Carried`).

`LeaseOp` has the operations of the database, `inStep_of_reaches` says that after any run of them
the index leads from every address to the one lease that has it.
-/

namespace DnsmasqRs.Dhcp

open Wire Utf8 List Option

variable {s : Leases} {db : LeaseDb} {a : Ipv4Addr} {k : Key} {l : DhcpLease}
  {order : LeaseDb.Entries}

/-! ### Going through the table -/

theorem LeaseDb.Iterates.mem_iff_get (h : db.Iterates order) :
    e ∈ order ↔ db.store.get e.1 = some e.2 := by
  rw [List.Perm.mem_iff h]
  exact AList.mem_lookup_iff.symm

theorem LeaseDb.Iterates.nodup (h : db.Iterates order) : (order.map Sigma.fst).Nodup :=
  (List.Perm.map Sigma.fst h).nodup_iff.mpr db.store.entries.nodupKeys

/-! ### What the operations carry over -/

theorem length_hwaddr_le (pkt : DhcpPacket) : pkt.hwaddr.length ≤ dhcpChaddrMax :=
  (length_take_le _ _).trans (min_le_right _ _)

/-- A property of leases that the operations of DHCPv4 keep. -/
structure Carried (p : DhcpLease → Prop) : Prop where
  fresh : ∀ a, p (LeaseDb.freshLease a)
  withHwaddr : ∀ hwaddr hwType l, hwaddr.length ≤ dhcpChaddrMax → p l →
    p (LeaseDb.withHwaddr hwaddr hwType l)
  withClid : ∀ clid l, p l → p (LeaseDb.withClid clid l)
  dropHostname : ∀ l, p l → p (LeaseDb.dropHostname l)
  withHostname : ∀ name auth l, p l → p (LeaseDb.withHostname name auth l)
  withExpires : ∀ expires l, p l → p { l with
    expires, flags := l.flags ||| LeaseFlags.auxChanged ||| LeaseFlags.expChanged }

namespace Carried

variable {p : DhcpLease → Prop} (hp : Carried p)
include hp

theorem setHwaddr (h : db.store.All p) (a : Ipv4Addr) (hlen : hwaddr.length ≤ dhcpChaddrMax)
    (hwType : ℤ) (clid : Option Bytes) : (db.setHwaddr a hwaddr hwType clid).store.All p := by
  have hmod := h.modify a fun l hl => hp.withHwaddr hwaddr hwType l hlen hl
  unfold LeaseDb.setHwaddr
  split
  · exact h
  · next key _ =>
    split
    · exact h
    · next lease hget =>
      split
      · exact h
      · cases clid with
        | none => exact hmod
        | some c =>
          dsimp only
          split
          · exact hmod
          · apply (hmod.eraseKey key).insertRaw
            exact hp.withClid c _ (hp.withHwaddr hwaddr hwType lease hlen (h key lease hget))

theorem setHostname (h : db.store.All p) (a : Ipv4Addr) (name : Option Str) (auth : Bool) :
    (db.setHostname a name auth).store.All p := by
  have hdrop (addrs : List Ipv4Addr) :
      (addrs.foldl (fun store dup => store.modify dup LeaseDb.dropHostname) db.store).All p :=
    foldlRecOn addrs _ h fun _ hs dup _ => hs.modify dup hp.dropHostname
  unfold LeaseDb.setHostname
  dsimp only
  split
  · exact hdrop _
  · exact (hdrop _).modify a (hp.withHostname name auth)

theorem setExpires (h : db.store.All p) (a : Ipv4Addr) (secs : UInt32) (now : SystemTime) :
    (db.setExpires a secs now).store.All p := by
  unfold LeaseDb.setExpires
  split
  · exact h
  · split
    · exact h
    · exact h.modify a fun l hl => hp.withExpires _ l hl

theorem recordLease (h : db.store.All p) (a : Ipv4Addr) (pkt : DhcpPacket) (clid : Option Bytes)
    (hostname : Option Str) (leaseTime : UInt32) (now : SystemTime) :
    (recordLease db a pkt clid hostname leaseTime now).store.All p := by
  have hwrite (db : LeaseDb) (h : db.store.All p) :
      (writeLease pkt clid hostname leaseTime now db a).store.All p :=
    hp.setExpires
      (hp.setHostname (hp.setHwaddr h a (length_hwaddr_le pkt) pkt.htype.toNat clid) a hostname
      false) a leaseTime now
  rw [recordLease_eq]
  split
  · exact hwrite db h
  · split
    · exact h
    · exact hwrite (allocated db a) (h.insertRaw placeholder (hp.fresh a))

theorem updateFromConfigs (h : db.store.All p) (order : LeaseDb.Entries)
    (configs : List DhcpConfig) :
    (db.updateFromConfigs order configs).store.All p :=
  foldlRecOn (motive := fun db : LeaseDb => db.store.All p) _ _ h
    fun _ hdb r _ => hp.setHostname hdb r.1 (some r.2) true

end Carried

/-! ### Leases of DHCPv6 -/

/-- A lease of DHCPv6 has no IPv4 address. -/
def V6Unindexed (l : DhcpLease) : Prop := l.isV6 → l.addr = .unspecified

/-- The flags that DHCPv4 sets or clears leave those of DHCPv6 alone. -/
theorem isV6_eq_of_flags {l l' : DhcpLease}
    (h : l'.flags &&& (LeaseFlags.ta ||| LeaseFlags.na)
      = l.flags &&& (LeaseFlags.ta ||| LeaseFlags.na)) :
    l'.isV6 = l.isV6 := by
  unfold DhcpLease.isV6 LeaseFlags.intersects
  rw [h]

section Flags

variable {bits : LeaseFlags} (hchanged : LeaseFlags.changed &&& bits = 0)
include hchanged

theorem flags_withHwaddr (hhave : LeaseFlags.haveHwaddr &&& bits = 0) :
    (LeaseDb.withHwaddr hwaddr hwType l).flags &&& bits = l.flags &&& bits := by
  unfold LeaseDb.withHwaddr
  dsimp only
  split
  · rw [or_and_of_disjoint hchanged, or_and_of_disjoint hhave]
  · exact or_and_of_disjoint hhave

theorem flags_withHostname (hauth : LeaseFlags.authName &&& bits = 0)
    (hrest : ~~~LeaseFlags.authName &&& bits = bits) :
    (LeaseDb.withHostname name auth l).flags &&& bits = l.flags &&& bits := by
  have hkept (flags : LeaseFlags) : (if auth then flags ||| LeaseFlags.authName
      else flags &&& ~~~LeaseFlags.authName) &&& bits = flags &&& bits := by
    split
    · exact or_and_of_disjoint hauth
    · rw [UInt32.and_assoc, hrest]
  unfold LeaseDb.withHostname
  rw [hkept]
  split
  · exact or_and_of_disjoint hchanged
  · rfl

end Flags

theorem carried_v6Unindexed : Carried V6Unindexed where
  fresh a h := by
    have hv6 :
        LeaseFlags.intersects LeaseFlags.new (LeaseFlags.ta ||| LeaseFlags.na) = false := by decide
    exact nomatch hv6.symm.trans h
  withHwaddr hwaddr hwType l _ h := by
    intro hv6
    rw [isV6_eq_of_flags (flags_withHwaddr (by decide) (by decide))] at hv6
    exact (withHwaddr_spec hwaddr hwType l).2.2.2.trans (h hv6)
  withClid clid l h := by
    intro hv6
    refine h (Eq.trans (isV6_eq_of_flags ?_).symm hv6)
    exact or_and_of_disjoint (by decide)
  dropHostname l h := by
    intro hv6
    refine h (Eq.trans (isV6_eq_of_flags ?_).symm hv6)
    exact or_and_of_disjoint (by decide)
  withHostname name auth l h := by
    intro hv6
    rw [isV6_eq_of_flags (flags_withHostname (by decide) (by decide) (by decide))] at hv6
    exact (kept_withHostname name auth l).addr.trans (h hv6)
  withExpires expires l h := by
    intro hv6
    refine h (Eq.trans (isV6_eq_of_flags ?_).symm hv6)
    show (l.flags ||| LeaseFlags.auxChanged ||| LeaseFlags.expChanged) &&& _ = _
    rw [or_and_of_disjoint (by decide), or_and_of_disjoint (by decide)]

/-! ### The operations -/

/-- **The invariant of the table** of both protocols. -/
structure LeasesOk (s : Leases) : Prop where
  ok : Ok s
  v6 : s.All V6Unindexed

theorem leasesOk_empty : LeasesOk .empty := ⟨ok_empty, Indexed.all_empty⟩

/-- The operations of the lease database. -/
inductive LeaseOp where
  | recordLease (a : Ipv4Addr) (pkt : DhcpPacket) (clid : Option Bytes) (hostname : Option Str)
      (leaseTime : UInt32) (now : SystemTime)
  | setHwaddr (a : Ipv4Addr) (hwaddr : Bytes) (hwType : ℤ) (clid : Option Bytes)
  | setHostname (a : Ipv4Addr) (name : Option Str) (auth : Bool)
  | setExpires (a : Ipv4Addr) (secs : UInt32) (now : SystemTime)
  | updateFromConfigs (order : LeaseDb.Entries) (configs : List DhcpConfig)
  | removeByAddr (a : Ipv4Addr)
  | prune (order : LeaseDb.Entries) (nowSecs : ℕ)
  | bindV6 (order : LeaseDb.Entries) (addr : Ipv6Addr) (clid : Bytes) (iaid : UInt32)
      (leaseType : LeaseFlags) (expires : Option SystemTime)
  | removeV6ByClidIaidAddr (order : LeaseDb.Entries) (clid : Bytes) (iaid : UInt32)
      (addr : Ipv6Addr)

/-- The entries an operation goes through. -/
def LeaseOp.iterated : LeaseOp → Option LeaseDb.Entries
  | .updateFromConfigs order _ | .prune order _ | .bindV6 order .. | .removeV6ByClidIaidAddr order
      .. =>
    some order
  | _ => none

/-- What an operation does.  `set_hwaddr` cuts the hardware address to sixteen bytes. -/
def LeaseOp.run (db : LeaseDb) : LeaseOp → LeaseDb
  | .recordLease a pkt clid hostname leaseTime now =>
      Dhcp.recordLease db a pkt clid hostname leaseTime now
  | .setHwaddr a hwaddr hwType clid => db.setHwaddr a (hwaddr.take dhcpChaddrMax) hwType clid
  | .setHostname a name auth => db.setHostname a name auth
  | .setExpires a secs now => db.setExpires a secs now
  | .updateFromConfigs order configs => db.updateFromConfigs order configs
  | .removeByAddr a => db.removeByAddr a
  | .prune order nowSecs => db.prune order nowSecs
  | .bindV6 order addr clid iaid leaseType expires =>
    (db.bindV6 order addr clid iaid leaseType expires).getD db
  | .removeV6ByClidIaidAddr order clid iaid addr =>
      (db.removeV6ByClidIaidAddr order clid iaid addr).2

/-- An operation goes through the entries of the table. -/
def LeaseOp.Admissible (db : LeaseDb) (op : LeaseOp) : Prop :=
  ∀ order, op.iterated = some order → db.Iterates order

theorem ok_setHwaddr (h : Ok db.store) : Ok (db.setHwaddr a hwaddr hwType clid).store := by
  cases hk : db.store.keyOf a with
  | none =>
    unfold LeaseDb.setHwaddr
    rw [hk]
    exact h
  | some k =>
    obtain ⟨l, hl, -⟩ := h.coherent.sound a k hk
    exact (h.setHwaddr hwaddr hwType clid hk hl).1

theorem ok_updateFromConfigs (h : Ok db.store) (order : LeaseDb.Entries)
    (configs : List DhcpConfig) :
    Ok (db.updateFromConfigs order configs).store :=
  foldlRecOn (motive := fun db : LeaseDb => Ok db.store) _ _ h
    fun db hdb r _ => (renamed_setHostname db r.1 (some r.2) true).ok hdb

theorem Ok.of_get (h : Ok s) (hcoh : s'.Coherent leaseAddr)
    (hget : ∀ k l, s'.get k = some l → s.get k = some l) : Ok s' :=
  ⟨hcoh, fun k l hl => h.keyed k l (hget k l hl)⟩

theorem get_of_get_eraseKey (hl : (s.eraseKey k).get k' = some l) : s.get k' = some l := by
  rw [Indexed.get_eraseKey] at hl
  split at hl
  · cases hl
  · exact hl

theorem LeasesOk.removeByAddr (h : LeasesOk db.store) (a : Ipv4Addr) :
    LeasesOk (db.removeByAddr a).store where
  ok := h.ok.removeByAddr a
  v6 k l hl := by
    rw [get_removeByAddr h.ok] at hl
    split at hl
    · cases hl
    · exact h.v6 k l hl

theorem LeasesOk.prune (h : LeasesOk db.store) (horder : db.Iterates order) (nowSecs : ℕ) :
    LeasesOk (db.prune order nowSecs).store where
  ok := by
    apply h.ok.of_get
    · apply h.ok.coherent.removeAll
      · intro e he
        exact horder.mem_iff_get.mp (mem_of_mem_filter he)
      · exact horder.nodup.sublist (filter_sublist.map Sigma.fst)
    · intro k l hl
      rw [LeaseDb.prune, Indexed.get_removeAll] at hl
      split at hl
      · cases hl
      · exact hl
  v6 := h.v6.removeAll _

/-- A lease of DHCPv6 is not in the index, so that it can be taken out of the table alone. -/
theorem LeasesOk.eraseKey (h : LeasesOk s) (hl : s.get k = some l) (hv6 : l.isV6) :
    LeasesOk (s.eraseKey k) where
  ok := by
    apply h.ok.of_get
    · have hbut := h.ok.coherent.but_eraseKey hl
      rw [leaseAddr, if_pos (h.v6 k l hl hv6)] at hbut
      exact hbut.coherent
    · exact fun _ _ hl' => get_of_get_eraseKey hl'
  v6 := h.v6.eraseKey k

theorem LeaseDb.Iterates.get_of_find? {p : DhcpLease → Bool}
    (horder : db.Iterates order) (he : order.find? (fun e => p e.2) = some e) :
    db.store.get e.1 = some e.2 ∧ p e.2 :=
  ⟨horder.mem_iff_get.mp (mem_of_find?_eq_some he),
    find?_some (p := fun e : Σ _ : Key, DhcpLease => p e.2) he⟩

variable {addr : Ipv6Addr}

theorem isV6_of_isV6For (h : l.isV6For addr) : l.isV6 :=
  (Bool.and_eq_true_iff.mp h).1

theorem isV6For_of_isBoundTo (h : l.isBoundTo clid iaid addr) : l.isV6For addr :=
  (Bool.and_eq_true_iff.mp (Bool.and_eq_true_iff.mp h).1).1

/-- `bind_v6` starts from a lease that is not in the table and has no IPv4 address. -/
theorem LeasesOk.takeV6 (h : LeasesOk db.store)
    (horder : db.Iterates order) (htake : db.takeV6 order addr leaseType = some (l, db')) :
    LeasesOk db'.store ∧ l.addr = .unspecified := by
  unfold LeaseDb.takeV6 at htake
  split at htake
  · next e he =>
    obtain ⟨hget, hfor⟩ := horder.get_of_find? he
    have hv6 := isV6_of_isV6For hfor
    obtain ⟨rfl, rfl⟩ := Prod.mk.inj (some.inj htake)
    exact ⟨h.eraseKey hget hv6, h.v6 e.1 e.2 hget hv6⟩
  · split at htake
    · cases htake
    · obtain ⟨rfl, rfl⟩ := Prod.mk.inj (some.inj htake)
      exact ⟨h, rfl⟩

theorem LeasesOk.bindV6 (h : LeasesOk db.store) (horder : db.Iterates order)
    (hbind : db.bindV6 order addr clid iaid leaseType expires = some db') : LeasesOk db'.store := by
  obtain ⟨⟨lease, db₁⟩, htake, rfl⟩ := map_eq_some_iff.mp hbind
  obtain ⟨h₁, haddr⟩ := h.takeV6 horder htake
  -- the lease is put in without an index entry, and the one under its key loses its own
  have hattr : leaseAddr { lease with clid := some clid, iaid, expires } = none := if_pos haddr
  have hbut :
      db₁.store.CoherentBut leaseAddr (leaseAddr { lease with
        clid := some clid, iaid, expires }) := by
    rw [hattr]
    exact h₁.ok.coherent.but_of_find (by rintro _ ⟨⟩)
  refine ⟨⟨hbut.insertRaw _, ?_⟩, h₁.v6.insertRaw _ fun _ => haddr⟩
  intro k' l' hl'
  replace hl' := (Indexed.get_insertRaw).symm.trans hl'
  split at hl'
  · next hk =>
    obtain rfl := some.inj hl'
    refine ⟨by rintro ⟨⟩, ?_⟩
    intro c hc hne
    obtain rfl := some.inj hc
    rw [hk]
    exact if_neg hne
  · exact h₁.ok.keyed k' l' hl'

theorem LeasesOk.removeV6 (h : LeasesOk db.store) (horder : db.Iterates order) (clid : Bytes)
    (iaid : UInt32) (addr : Ipv6Addr) :
    LeasesOk (db.removeV6ByClidIaidAddr order clid iaid addr).2.store := by
  unfold LeaseDb.removeV6ByClidIaidAddr
  split
  · next e he =>
    obtain ⟨hget, hbound⟩ := horder.get_of_find? he
    exact h.eraseKey hget (isV6_of_isV6For (isV6For_of_isBoundTo hbound))
  · exact h

/-- **Every operation keeps the invariant**. -/
theorem LeasesOk.run (h : LeasesOk db.store) (op : LeaseOp) (hop : op.Admissible db) :
    LeasesOk (op.run db).store := by
  cases op with
  | recordLease a pkt clid hostname leaseTime now =>
    exact ⟨(h.ok.recordLease pkt clid hostname leaseTime now a).ok,
      carried_v6Unindexed.recordLease h.v6 a pkt clid hostname leaseTime now⟩
  | setHwaddr a hwaddr hwType clid =>
    exact ⟨ok_setHwaddr h.ok, carried_v6Unindexed.setHwaddr h.v6 a (length_take_le _ _) hwType clid⟩
  | setHostname a name auth =>
    exact ⟨(renamed_setHostname db a name auth).ok h.ok,
      carried_v6Unindexed.setHostname h.v6 a name auth⟩
  | setExpires a secs now =>
    exact ⟨(h.ok.setExpires a secs now).1, carried_v6Unindexed.setExpires h.v6 a secs now⟩
  | updateFromConfigs order configs =>
    exact ⟨ok_updateFromConfigs h.ok order configs,
      carried_v6Unindexed.updateFromConfigs h.v6 order configs⟩
  | removeByAddr a => exact h.removeByAddr a
  | prune order nowSecs => exact h.prune (hop order rfl) nowSecs
  | bindV6 order addr clid iaid leaseType expires =>
    show LeasesOk ((db.bindV6 order addr clid iaid leaseType expires).getD db).store
    cases hbind : db.bindV6 order addr clid iaid leaseType expires with
    | none => exact h
    | some db' => exact h.bindV6 (hop order rfl) hbind
  | removeV6ByClidIaidAddr order clid iaid addr => exact h.removeV6 (hop order rfl) clid iaid addr

/-! ### The table and the index -/

/-- **The table and the index are in step**. -/
structure InStep (s : Leases) : Prop where
  sound : ∀ a k, s.keyOf a = some k → a ≠ .unspecified ∧ ∃ l, s.get k = some l ∧ l.addr = a
  complete : ∀ k l, s.get k = some l → l.addr ≠ .unspecified → s.keyOf l.addr = some k
  distinct : ∀ k k' l l', s.get k = some l → s.get k' = some l' → l.addr ≠ .unspecified →
    l.addr = l'.addr → k = k'

theorem Ok.inStep (h : Ok s) : InStep s where
  sound a k hk := by
    obtain ⟨l, hl, hattr⟩ := h.coherent.sound a k hk
    obtain ⟨haddr, hne⟩ := leaseAddr_eq_some_iff.mp hattr
    exact ⟨hne, l, hl, haddr⟩
  complete k l hl hne := h.coherent.complete k l l.addr hl (if_neg hne)
  distinct k k' l l' hl hl' hne heq := by
    have hk := h.coherent.complete k l l.addr hl (if_neg hne)
    have hk' := h.coherent.complete k' l' l'.addr hl' (if_neg (heq ▸ hne))
    rw [heq, hk'] at hk
    exact (some.inj hk).symm

/-- **The lease table and its address index stay in step** along every run from the empty database.
-/
theorem inStep_of_reaches (maxLeases : ℕ) (db : LeaseDb)
    (h : Run.Reaches (fun db op => some (LeaseOp.run db op)) LeaseOp.Admissible
      { maxLeases } db) : InStep db.store := by
  have hok : LeasesOk db.store := by
    apply Run.Reaches.invariant (I := fun db : LeaseDb => LeasesOk db.store) leasesOk_empty _ h
    intro db op db' hdb hop hstep
    obtain rfl := some.inj hstep
    exact hdb.run op hop
  exact hok.ok.inStep

/-- After leases were recorded for two clients. -/
theorem inStep_of_recordLease :
    let pkt : DhcpPacket :=
      { htype := 1, hlen := 6, ciaddr := .unspecified, giaddr := .unspecified,
        chaddr := .replicate 16 0, file := .replicate 128 0, options := [] }
    let db := LeaseOp.run { maxLeases := 2 } (.recordLease (.new 10 0 0 1) pkt (some [1]) none 60 0)
    let db' := LeaseOp.run db (.recordLease (.new 10 0 0 2) pkt (some [2]) none 60 0)
    (db'.findByAddr (.new 10 0 0 1)).isSome ∧ (db'.findByAddr (.new 10 0 0 2)).isSome
      ∧ InStep db'.store := by
  intro pkt db db'
  have hop :
      ∀ (a : Ipv4Addr) clid db, (LeaseOp.recordLease a pkt clid none 60 0).Admissible db := by
    rintro a clid db order ⟨⟩
  refine ⟨by decide +kernel, by decide +kernel, ?_⟩
  exact inStep_of_reaches 2 _ (.tail (.tail .refl (hop _ _ _) rfl) (hop _ _ _) rfl)

end DnsmasqRs.Dhcp
