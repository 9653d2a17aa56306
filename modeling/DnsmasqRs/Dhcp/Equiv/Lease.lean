import DnsmasqRs.Dhcp.Dispatch

/-!
# What the operations on leases do

The lease table and its address index stay in step, and a lease with a client ID is under the key of
the ID (`Ok`).  A lease without one stays under the key it was created with, which is the same for
all: there is room for one of them.

`record_lease` is taken apart into `allocate_v4`, `set_hwaddr`, `set_hostname` and `set_expires`;
for each there is a lemma that says what `find_by_addr` returns afterwards.
-/

namespace DnsmasqRs.Dhcp

open Wire Utf8 Option

/-- The table of the leases. -/
abbrev Leases := Indexed Key Ipv4Addr DhcpLease

/-- The key a lease is created under. -/
def placeholder : Key := toKey []

/-- A lease is under the placeholder as long as no client ID is set, and then under the key of the
ID. -/
structure Keyed (k : Key) (l : DhcpLease) : Prop where
  unset : l.clid = none → k = placeholder
  set : ∀ c, l.clid = some c → c ≠ [] → k = toKey c

/-- **The invariant of the lease table**. -/
structure Ok (s : Leases) : Prop where
  coherent : s.Coherent leaseAddr
  keyed : ∀ k l, s.get k = some l → Keyed k l

theorem ok_empty : Ok .empty :=
  ⟨Indexed.coherent_empty, fun _ _ h => nomatch h⟩

variable {s s' : Leases} {db : LeaseDb} {a b : Ipv4Addr} {k : Key} {l l' : DhcpLease}

theorem leaseAddr_eq_some_iff : leaseAddr l = some a ↔ l.addr = a ∧ a ≠ .unspecified := by
  unfold leaseAddr
  split
  · next h => simp [h, eq_comm]
  · next h =>
    rw [some.injEq]
    exact ⟨fun ha => ⟨ha, ha ▸ h⟩, fun ha => ha.1⟩

theorem Ok.find_unspecified (h : Ok s) : s.find .unspecified = none := by
  apply h.coherent.find_eq_none
  intro l hl
  exact (leaseAddr_eq_some_iff.mp hl).2 rfl

theorem Ok.addr_of_find (h : Ok s) (hl : s.find a = some l) : l.addr = a ∧ a ≠ .unspecified :=
  leaseAddr_eq_some_iff.mp (h.coherent.attr_of_find hl)

/-! ### Changes that only concern the hostname -/

/-- The lease is the same but for its hostname, flags and interface. -/
structure Kept (l l' : DhcpLease) : Prop where
  clid : l'.clid = l.clid
  expires : l'.expires = l.expires
  hwaddr : l'.hwaddr = l.hwaddr
  hwaddrType : l'.hwaddrType = l.hwaddrType
  addr : l'.addr = l.addr

theorem Kept.refl (l : DhcpLease) : Kept l l := ⟨rfl, rfl, rfl, rfl, rfl⟩

theorem Kept.trans (h : Kept l l') (h' : Kept l' l'') : Kept l l'' :=
  ⟨h'.clid.trans h.clid, h'.expires.trans h.expires, h'.hwaddr.trans h.hwaddr,
    h'.hwaddrType.trans h.hwaddrType, h'.addr.trans h.addr⟩

theorem Kept.leaseAddr_eq (h : Kept l l') : leaseAddr l' = leaseAddr l := by
  unfold leaseAddr
  rw [h.addr]

/-- One lease or none is the same but for its hostname, flags and interface. -/
def KeptIfAny (x y : Option DhcpLease) : Prop :=
  ∃ f : DhcpLease → DhcpLease, (∀ l, Kept l (f l)) ∧ y = x.map f

theorem KeptIfAny.refl (x : Option DhcpLease) : KeptIfAny x x := ⟨id, .refl, by simp⟩

theorem KeptIfAny.trans (h : KeptIfAny x y) (h' : KeptIfAny y z) : KeptIfAny x z := by
  obtain ⟨f, hf, rfl⟩ := h
  obtain ⟨g, hg, rfl⟩ := h'
  exact ⟨g ∘ f, fun l => (hf l).trans (hg (f l)), by rw [map_map]⟩

/-- The table has the same leases under the same keys, but for hostnames. -/
structure Renamed (s s' : Leases) : Prop where
  keyOf : ∀ i, s'.keyOf i = s.keyOf i
  get : ∀ k, KeptIfAny (s.get k) (s'.get k)

theorem Renamed.refl (s : Leases) : Renamed s s := ⟨fun _ => rfl, fun _ => .refl _⟩

theorem Renamed.trans (h : Renamed s s') (h' : Renamed s' s'') : Renamed s s'' :=
  ⟨fun i => (h'.keyOf i).trans (h.keyOf i), fun k => (h.get k).trans (h'.get k)⟩

variable {f : DhcpLease → DhcpLease}

theorem renamed_modify (s : Leases) (a : Ipv4Addr) (hf : ∀ l, Kept l (f l)) :
    Renamed s (s.modify a f) where
  keyOf i := Indexed.keyOf_modify s a f i
  get k := by
    rw [Indexed.get_modify]
    split
    · exact ⟨f, hf, rfl⟩
    · exact .refl _

theorem renamed_mapValues (hf : ∀ l, Kept l (f l)) : Renamed s (s.mapValues f) where
  keyOf _ := rfl
  get _ := ⟨f, hf, s.get_mapValues⟩

theorem Renamed.find (h : Renamed s s') (i : Ipv4Addr) : KeptIfAny (s.find i) (s'.find i) := by
  unfold Indexed.find
  rw [h.keyOf]
  cases s.keyOf i with
  | none => exact .refl _
  | some k => exact h.get k

theorem Renamed.exists_get (h : Renamed s s') (hl' : s'.get k = some l') :
    ∃ l, s.get k = some l ∧ Kept l l' := by
  obtain ⟨f, hf, heq⟩ := h.get k
  rw [hl'] at heq
  obtain ⟨l, hl, rfl⟩ := map_eq_some_iff.mp heq.symm
  exact ⟨l, hl, hf l⟩

theorem Keyed.kept (h : Keyed k l) (hkept : Kept l l') : Keyed k l' :=
  ⟨fun hnone => h.unset (hkept.clid ▸ hnone), fun c hc => h.set c (hkept.clid ▸ hc)⟩

theorem Renamed.ok (h : Renamed s s') (hs : Ok s) : Ok s' where
  coherent := by
    constructor
    · intro k l' i hl' hattr
      obtain ⟨l, hl, hkept⟩ := h.exists_get hl'
      rw [h.keyOf]
      exact hs.coherent.complete k l i hl (hkept.leaseAddr_eq.symm.trans hattr)
    · intro i k hk
      rw [h.keyOf] at hk
      obtain ⟨l, hl, hattr⟩ := hs.coherent.sound i k hk
      obtain ⟨f, hf, heq⟩ := h.get k
      refine ⟨f l, by rw [heq, hl]; rfl, (hf l).leaseAddr_eq.trans hattr⟩
  keyed k l' hl' := by
    obtain ⟨l, hl, hkept⟩ := h.exists_get hl'
    exact (hs.keyed k l hl).kept hkept

theorem kept_dropHostname (l : DhcpLease) : Kept l (LeaseDb.dropHostname l) :=
    ⟨rfl, rfl, rfl, rfl, rfl⟩

theorem kept_withHostname (name : Option Str) (auth : Bool) (l : DhcpLease) :
    Kept l (LeaseDb.withHostname name auth l) := by
  unfold LeaseDb.withHostname
  split <;> exact ⟨rfl, rfl, rfl, rfl, rfl⟩

theorem renamed_foldl (addrs : List Ipv4Addr) (s : Leases) :
    Renamed s (addrs.foldl (fun store dup => store.modify dup LeaseDb.dropHostname) s) := by
  induction addrs generalizing s with
  | nil => exact .refl s
  | cons addr addrs ih => exact (renamed_modify s addr kept_dropHostname).trans (ih _)

theorem renamed_setHostname (db : LeaseDb) (a : Ipv4Addr) (name : Option Str) (auth : Bool) :
    Renamed db.store (db.setHostname a name auth).store := by
  unfold LeaseDb.setHostname
  dsimp only
  split
  · exact renamed_foldl _ _
  · exact (renamed_foldl _ _).trans (renamed_modify _ a (kept_withHostname name auth))

/-! ### Changes to one lease -/

theorem Ok.modify (h : Ok s) (a : Ipv4Addr)
    (hf : ∀ l, (f l).clid = l.clid ∧ (f l).addr = l.addr) : Ok (s.modify a f) where
  coherent := by
    apply h.coherent.modify
    intro l
    unfold leaseAddr
    rw [(hf l).2]
  keyed k l' hl' := by
    rw [Indexed.get_modify] at hl'
    split at hl'
    · obtain ⟨l, hl, rfl⟩ := map_eq_some_iff.mp hl'
      have hkeyed := h.keyed k l hl
      exact ⟨fun hnone => hkeyed.unset ((hf l).1 ▸ hnone), fun c hc => hkeyed.set c ((hf l).1 ▸ hc)⟩
    · exact h.keyed k l' hl'

/-- The lease is that of the same client for the same address. -/
structure SameHolder (l l' : DhcpLease) : Prop where
  clid : l'.clid = l.clid
  hwaddr : l'.hwaddr = l.hwaddr
  hwaddrType : l'.hwaddrType = l.hwaddrType
  addr : l'.addr = l.addr

theorem SameHolder.refl (l : DhcpLease) : SameHolder l l := ⟨rfl, rfl, rfl, rfl⟩

theorem setExpires_store :
    ∃ f : DhcpLease → DhcpLease, (∀ l, SameHolder l (f l))
      ∧ ((db.setExpires a secs now).store = db.store
        ∨ (db.setExpires a secs now).store = db.store.modify a f) := by
  refine ⟨fun lease =>
    { lease with
      expires := LeaseDb.expiryAt now secs
      flags := lease.flags ||| LeaseFlags.auxChanged ||| LeaseFlags.expChanged },
    fun _ => ⟨rfl, rfl, rfl, rfl⟩, ?_⟩
  unfold LeaseDb.setExpires
  split
  · exact .inl rfl
  · split
    · exact .inl rfl
    · exact .inr rfl

/-- **What `set_expires` does**. -/
theorem Ok.setExpires (h : Ok db.store) (a : Ipv4Addr) (secs : UInt32) (now : SystemTime) :
    Ok (db.setExpires a secs now).store
      ∧ (∀ i, (db.setExpires a secs now).store.keyOf i = db.store.keyOf i)
      ∧ (∀ i, i ≠ a → (db.setExpires a secs now).store.find i = db.store.find i)
      ∧ ∀ l, db.store.find a = some l →
        ∃ l', (db.setExpires a secs now).store.find a = some l' ∧ SameHolder l l' := by
  obtain ⟨f, hf, heq | heq⟩ := setExpires_store
  · rw [heq]
    exact ⟨h, fun _ => rfl, fun _ _ => rfl, fun l hl => ⟨l, hl, .refl l⟩⟩
  · rw [heq]
    refine ⟨h.modify a fun l => ⟨(hf l).clid, (hf l).addr⟩, Indexed.keyOf_modify _ a f, ?_, ?_⟩
    · intro i hi
      rw [h.coherent.find_modify, if_neg hi]
    · intro l hl
      rw [h.coherent.find_modify, if_pos rfl, hl]
      exact ⟨f l, rfl, hf l⟩

/-! ### `set_hwaddr` -/

/-- The client ID is set to another one, so that the lease moves to another key. -/
def rekeys (l : DhcpLease) (clid : Option Bytes) : Bool := clid.any fun c => l.clid ≠ some c

/-- The lease after `set_hwaddr`. -/
def settledLease (hwaddr : Bytes) (hwType : ℤ) (clid : Option Bytes) (l : DhcpLease) : DhcpLease :=
  match clid with
  | none => LeaseDb.withHwaddr hwaddr hwType l
  | some c =>
    if l.clid = some c then LeaseDb.withHwaddr hwaddr hwType l
    else LeaseDb.withClid c (LeaseDb.withHwaddr hwaddr hwType l)

/-- The key it is under. -/
def settledKey (hwaddr : Bytes) (clid : Option Bytes) (k : Key) (l : DhcpLease) : Key :=
  match clid with
  | none => k
  | some c => if l.clid = some c then k else if c = [] then toKey hwaddr else toKey c

section SetHwaddr

variable (hwaddr : Bytes) (hwType : ℤ) (clid : Option Bytes)

theorem withHwaddr_spec (l : DhcpLease) : (LeaseDb.withHwaddr hwaddr hwType l).hwaddr = hwaddr
      ∧ (LeaseDb.withHwaddr hwaddr hwType l).hwaddrType = hwType
      ∧ (LeaseDb.withHwaddr hwaddr hwType l).clid = l.clid
      ∧ (LeaseDb.withHwaddr hwaddr hwType l).addr = l.addr := by
  unfold LeaseDb.withHwaddr
  dsimp only
  split
  · exact ⟨rfl, rfl, rfl, rfl⟩
  · next h =>
    rw [not_or, not_ne_iff, not_ne_iff] at h
    exact ⟨h.1, h.2, rfl, rfl⟩

theorem settledLease_spec (l : DhcpLease) : (settledLease hwaddr hwType clid l).hwaddr = hwaddr
      ∧ (settledLease hwaddr hwType clid l).hwaddrType = hwType
      ∧ (settledLease hwaddr hwType clid l).clid = (clid <|> l.clid)
      ∧ (settledLease hwaddr hwType clid l).addr = l.addr := by
  obtain ⟨hhw, htype, hclid, haddr⟩ := withHwaddr_spec hwaddr hwType l
  unfold settledLease
  cases clid with
  | none => exact ⟨hhw, htype, hclid, haddr⟩
  | some c =>
    dsimp only
    split
    · next hc => exact ⟨hhw, htype, hclid.trans hc, haddr⟩
    · exact ⟨hhw, htype, rfl, haddr⟩

theorem setHwaddr_store (h : Ok db.store) (hk : db.store.keyOf a = some k)
    (hl : db.store.get k = some l) :
    (db.setHwaddr a hwaddr hwType clid).store = if rekeys l clid then
        ((db.store.modify a (LeaseDb.withHwaddr hwaddr hwType)).eraseKey k).insertRaw leaseAddr
          (settledKey hwaddr clid k l) (settledLease hwaddr hwType clid l)
      else db.store.modify a (LeaseDb.withHwaddr hwaddr hwType) := by
  have haddr : l.addr = a := (h.addr_of_find (Indexed.find_eq_some.mpr ⟨k, hk, hl⟩)).1
  unfold LeaseDb.setHwaddr
  rw [hk]
  dsimp only
  rw [hl]
  dsimp only
  rw [if_neg (not_ne_iff.mpr haddr)]
  cases clid with
  | none => rfl
  | some c =>
    unfold rekeys settledKey settledLease
    by_cases hc : l.clid = some c
    · simp [hc]
    · have hkey : leaseKey (LeaseDb.withClid c (LeaseDb.withHwaddr hwaddr hwType l)) =
          if c = [] then toKey hwaddr else toKey c := by
        show (if c = [] then toKey (LeaseDb.withHwaddr hwaddr hwType l).hwaddr else toKey c) = _
        rw [(withHwaddr_spec hwaddr hwType l).1]
      simp only [hc, hkey, any_some, ne_eq, not_false_eq_true, decide_true, if_true, if_false]

/-- The client ID that was set is the one the key is made of. -/
theorem keyed_settledLease (hre : rekeys l clid) :
    Keyed (settledKey hwaddr clid k l) (settledLease hwaddr hwType clid l) := by
  cases clid with
  | none => cases hre
  | some c =>
    have hc : l.clid ≠ some c := by simpa [rekeys] using hre
    have hclid := (settledLease_spec hwaddr hwType (some c) l).2.2.1
    refine ⟨fun hnone => ?_, fun c' hc' hne => ?_⟩
    · rw [hclid] at hnone
      cases hnone
    · rw [hclid] at hc'
      obtain rfl := some.inj hc'
      rw [settledKey, if_neg hc, if_neg hne]

/-- A client ID that is set already changes neither the key nor the lease any more. -/
theorem settled_of_not_rekeys (hre : ¬ rekeys l clid) : settledKey hwaddr clid k l = k
      ∧ settledLease hwaddr hwType clid l = LeaseDb.withHwaddr hwaddr hwType l := by
  cases clid with
  | none => exact ⟨rfl, rfl⟩
  | some c =>
    have hc : l.clid = some c := by simpa [rekeys] using hre
    exact ⟨if_pos hc, if_pos hc⟩

/-- **What `set_hwaddr` does**: the lease at the address is the client's, and the lease under the
key it moves to is lost. -/
theorem Ok.setHwaddr (h : Ok db.store) (hk : db.store.keyOf a = some k)
    (hl : db.store.get k = some l) :
    Ok (db.setHwaddr a hwaddr hwType clid).store
      ∧ (db.setHwaddr a hwaddr hwType clid).store.keyOf a = some (settledKey hwaddr clid k l)
      ∧ (db.setHwaddr a hwaddr hwType clid).store.find a = some (settledLease hwaddr hwType clid l)
      ∧ ∀ b, b ≠ a → (db.setHwaddr a hwaddr hwType clid).store.find b =
        if rekeys l clid ∧ db.store.keyOf b = some (settledKey hwaddr clid k l) then
          none else db.store.find b := by
  set st := db.store.modify a (LeaseDb.withHwaddr hwaddr hwType) with hst
  have hfind : db.store.find a = some l := Indexed.find_eq_some.mpr ⟨k, hk, hl⟩
  have hmod : Ok st := h.modify a fun l => (withHwaddr_spec hwaddr hwType l).2.2
  have hmodfind (b : Ipv4Addr) (hb : b ≠ a) : st.find b = db.store.find b := by
    rw [h.coherent.find_modify, if_neg hb]
  rw [setHwaddr_store hwaddr hwType clid h hk hl]
  by_cases hre : rekeys l clid
  · rw [if_pos hre]
    have hk₁ : st.keyOf a = some k := by
      rw [Indexed.keyOf_modify, hk]
    have hl₁ : st.get k = some (LeaseDb.withHwaddr hwaddr hwType l) := by
      rw [Indexed.get_modify, if_pos hk, hl, map_some]
    have hattr : leaseAddr (settledLease hwaddr hwType clid l) = some a := by
      obtain ⟨haddr, hne⟩ := h.addr_of_find hfind
      exact leaseAddr_eq_some_iff.mpr
        ⟨(settledLease_spec hwaddr hwType clid l).2.2.2.trans haddr, hne⟩
    have hbut :
        (st.eraseKey k).CoherentBut leaseAddr (leaseAddr (settledLease hwaddr hwType clid l)) := by
      have hbut := hmod.coherent.but_eraseKey hl₁
      obtain ⟨v, hv, hva⟩ := hmod.coherent.sound a k hk₁
      obtain rfl := some.inj (hl₁.symm.trans hv)
      rw [hva] at hbut
      rw [hattr]
      exact hbut
    refine ⟨⟨hbut.insertRaw _, ?_⟩, ?_, ?_, ?_⟩
    · intro k' l' hl'
      rw [Indexed.get_insertRaw] at hl'
      split at hl'
      · next hkk =>
        obtain rfl := some.inj hl'
        rw [hkk]
        exact keyed_settledLease hwaddr hwType clid hre
      · rw [Indexed.get_eraseKey] at hl'
        split at hl'
        · cases hl'
        · exact hmod.keyed k' l' hl'
    · rw [Indexed.keyOf_insertRaw hbut, if_pos hattr]
    · rw [Indexed.find_insertRaw hbut, if_pos hattr]
    · intro b hb
      rw [Indexed.find_insertRaw hbut, if_neg (by rw [hattr]; exact fun h => hb (some.inj h).symm),
        hmod.coherent.find_eraseKey hk₁ hb, hmodfind b hb]
      have hkeyOf : (st.eraseKey k).keyOf b = db.store.keyOf b := Indexed.keyOf_modify _ _ _ _
      rw [hkeyOf]
      simp only [hre, true_and]
  · rw [if_neg hre]
    obtain ⟨hkey, hlease⟩ := settled_of_not_rekeys hwaddr hwType clid (k := k) hre
    refine ⟨hmod, ?_, ?_, ?_⟩
    · rw [Indexed.keyOf_modify, hk, hkey]
    · rw [h.coherent.find_modify, if_pos rfl, hfind, hlease, map_some]
    · intro b hb
      rw [hmodfind b hb, if_neg fun hboth => hre hboth.1]

end SetHwaddr

/-! ### `record_lease` -/

theorem Kept.sameHolder (h : Kept l l') :
    SameHolder l l' := ⟨h.clid, h.hwaddr, h.hwaddrType, h.addr⟩

theorem SameHolder.trans (h : SameHolder l l') (h' : SameHolder l' l'') : SameHolder l l'' :=
  ⟨h'.clid.trans h.clid, h'.hwaddr.trans h.hwaddr, h'.hwaddrType.trans h.hwaddrType,
    h'.addr.trans h.addr⟩

theorem KeptIfAny.exists_some (h : KeptIfAny x y) (hx : x = some l) :
    ∃ l', y = some l' ∧ Kept l l' := by
  obtain ⟨f, hf, rfl⟩ := h
  rw [hx]
  exact ⟨f l, rfl, hf l⟩

section Record

variable (pkt : DhcpPacket) (clid : Option Bytes) (hostname : Option Str) (leaseTime : UInt32)
  (now : SystemTime)

/-- The three steps of `record_lease` on a lease that exists. -/
def writeLease (db : LeaseDb) (a : Ipv4Addr) : LeaseDb :=
  ((db.setHwaddr a pkt.hwaddr pkt.htype.toNat clid).setHostname a hostname false).setExpires a
    leaseTime now

theorem Ok.writeLease (h : Ok db.store) (hk : db.store.keyOf a = some k)
    (hl : db.store.get k = some l) :
    Ok (writeLease pkt clid hostname leaseTime now db a).store
      ∧ (writeLease pkt clid hostname leaseTime now db a).store.keyOf a
        = some (settledKey pkt.hwaddr clid k l)
      ∧ (∃ l', (writeLease pkt clid hostname leaseTime now db a).store.find a = some l'
        ∧ SameHolder (settledLease pkt.hwaddr pkt.htype.toNat clid l) l') ∧ ∀ b, b ≠ a → KeptIfAny
        (if rekeys l clid ∧ db.store.keyOf b = some (settledKey pkt.hwaddr clid k l) then none
          else db.store.find b)
        ((writeLease pkt clid hostname leaseTime now db a).store.find b) := by
  obtain ⟨hok₁, hkey₁, hself₁, hother₁⟩ := h.setHwaddr pkt.hwaddr pkt.htype.toNat clid hk hl
  have hren := renamed_setHostname (db.setHwaddr a pkt.hwaddr pkt.htype.toNat clid) a hostname false
  obtain ⟨hok₃, hkey₃, hother₃, hself₃⟩ := (hren.ok hok₁).setExpires a leaseTime now
  refine ⟨hok₃, ?_, ?_, ?_⟩
  · rw [Dhcp.writeLease, hkey₃, hren.keyOf, hkey₁]
  · obtain ⟨l₂, hl₂, hkept⟩ := (hren.find a).exists_some hself₁
    obtain ⟨l₃, hl₃, hsame⟩ := hself₃ l₂ hl₂
    exact ⟨l₃, hl₃, hkept.sameHolder.trans hsame⟩
  · intro b hb
    rw [Dhcp.writeLease, hother₃ b hb, ← hother₁ b hb]
    exact hren.find b

/-- On an address that is not in the index they only take the hostname from other leases. -/
theorem renamed_writeLease (hk : db.store.keyOf a = none) :
    Renamed db.store (writeLease pkt clid hostname leaseTime now db a).store := by
  have hhw : db.setHwaddr a pkt.hwaddr pkt.htype.toNat clid = db := by
    unfold LeaseDb.setHwaddr
    rw [hk]
  have hren := renamed_setHostname db a hostname false
  have hnone : (db.setHostname a hostname false).findByAddr a = none := by
    show Indexed.find _ a = none
    rw [Indexed.find, hren.keyOf, hk, bind_none]
  have hexp :
      (db.setHostname a hostname false).setExpires a leaseTime now
        = db.setHostname a hostname false := by
    unfold LeaseDb.setExpires
    rw [hnone]
  rw [writeLease, hhw, hexp]
  exact hren

/-- The database after `allocate_v4`. -/
def allocated (db : LeaseDb) (a : Ipv4Addr) : LeaseDb :=
  { db.insertRaw placeholder (LeaseDb.freshLease a) with fileDirty := true, dnsDirty := true }

/-- `record_lease` by cases: the address has a lease, or gets one if there is room. -/
theorem recordLease_eq (db : LeaseDb) (a : Ipv4Addr) :
    recordLease db a pkt clid hostname leaseTime now =
      if (db.store.find a).isSome then writeLease pkt clid hostname leaseTime now db a
      else if db.maxLeases ≤ db.store.size then db
      else writeLease pkt clid hostname leaseTime now (allocated db a) a := by
  unfold recordLease LeaseDb.findByAddr LeaseDb.allocateV4
  cases db.store.find a with
  | some l => rfl
  | none =>
    dsimp only [isSome_none]
    rw [if_neg Bool.false_ne_true]
    split_ifs <;> rfl

/-- **What `allocate_v4` does**: the lease under the placeholder is lost. -/
theorem Ok.allocated (h : Ok db.store) (hnone : db.store.find a = none) : Ok (allocated db a).store
      ∧ (allocated db a).store.keyOf a = (if a = .unspecified then none else some placeholder)
      ∧ (allocated db a).store.get placeholder = some (LeaseDb.freshLease a) ∧ ∀ b, b ≠ a →
        (allocated db a).store.keyOf b = (if db.store.keyOf b = some placeholder then none
          else db.store.keyOf b)
        ∧ (allocated db a).store.find b = if db.store.keyOf b = some placeholder then none
          else db.store.find b := by
  have hattr (b : Ipv4Addr) : leaseAddr (LeaseDb.freshLease a) = some b
    ↔ a = b ∧ b ≠ .unspecified :=
    leaseAddr_eq_some_iff
  have hbut : db.store.CoherentBut leaseAddr (leaseAddr (LeaseDb.freshLease a)) := by
    apply h.coherent.but_of_find
    intro b hb
    rw [← ((hattr b).mp hb).1, hnone]
  refine ⟨⟨hbut.insertRaw placeholder, ?_⟩, ?_, ?_, ?_⟩
  · intro k' l' hl'
    have hget :
        (db.store.insertRaw leaseAddr placeholder (LeaseDb.freshLease a)).get k' = some l' := hl'
    rw [Indexed.get_insertRaw] at hget
    split at hget
    · next hkk =>
      obtain rfl := some.inj hget
      exact ⟨fun _ => hkk, by rintro _ ⟨⟩⟩
    · exact h.keyed k' l' hget
  · refine (Indexed.keyOf_insertRaw hbut).trans ?_
    by_cases ha : a = .unspecified
    · rw [if_pos ha, if_neg fun hb => ((hattr a).mp hb).2 ha, h.coherent.find_eq_none_iff.mp hnone]
      rfl
    · rw [if_neg ha, if_pos ((hattr a).mpr ⟨rfl, ha⟩)]
  · exact (Indexed.get_insertRaw).trans (if_pos rfl)
  · intro b hb
    have hne : leaseAddr (LeaseDb.freshLease a) ≠ some b := fun h => hb ((hattr b).mp h).1.symm
    exact ⟨(Indexed.keyOf_insertRaw hbut).trans (if_neg hne),
      (Indexed.find_insertRaw hbut).trans (if_neg hne)⟩

/-- The key and the lease `record_lease` starts from, if it puts the address on record. -/
def recordBasis (db : LeaseDb) (a : Ipv4Addr) : Option (Key × DhcpLease) :=
  match db.store.keyOf a with
  | some k => (db.store.get k).map (k, ·)
  | none =>
    if a = .unspecified ∨ db.maxLeases ≤ db.store.size then none
    else some (placeholder, LeaseDb.freshLease a)

/-- A new lease is created for the address. -/
def createsLease (db : LeaseDb) (a : Ipv4Addr) : Prop :=
  db.store.find a = none ∧ db.store.size < db.maxLeases

/-- The lease at `b` is overwritten when `a` is put on record. -/
def Displaced (db : LeaseDb) (a b : Ipv4Addr) : Prop :=
  (createsLease db a ∧ db.store.keyOf b = some placeholder)
    ∨ ∃ k l, recordBasis db a = some (k, l) ∧ rekeys l clid
      ∧ db.store.keyOf b = some (settledKey pkt.hwaddr clid k l)

/-- What putting `a` on record does to the leases. -/
structure RecordOk (db db' : LeaseDb) (a : Ipv4Addr) : Prop where
  ok : Ok db'.store
  unrecorded : recordBasis db a = none → db'.store.find a = none
  key : ∀ k l, recordBasis db a = some (k, l) →
    db'.store.keyOf a = some (settledKey pkt.hwaddr clid k l)
  recorded : ∀ k l, recordBasis db a = some (k, l) → ∃ l', db'.store.find a = some l'
    ∧ SameHolder (settledLease pkt.hwaddr pkt.htype.toNat clid l) l'
  displaced : ∀ b, b ≠ a → Displaced pkt clid db a b → db'.store.find b = none
  kept : ∀ b, b ≠ a → ¬ Displaced pkt clid db a b → KeptIfAny (db.store.find b) (db'.store.find b)

section Basis

variable {db' : LeaseDb}

theorem recordBasis_of_get (hk : db.store.keyOf a = some k) (hl : db.store.get k = some l) :
    recordBasis db a = some (k, l) := by
  unfold recordBasis
  rw [hk]
  dsimp only
  rw [hl, map_some]

theorem recordBasis_of_keyOf_eq_none (hk : db.store.keyOf a = none) :
    recordBasis db a = if a = .unspecified ∨ db.maxLeases ≤ db.store.size then none
      else some (placeholder, LeaseDb.freshLease a) := by
  unfold recordBasis
  rw [hk]

variable {pkt clid}

theorem RecordOk.of_some (hbasis : recordBasis db a = some (k, l)) (hok : Ok db'.store)
    (hkey : db'.store.keyOf a = some (settledKey pkt.hwaddr clid k l))
    (hself : ∃ l', db'.store.find a = some l'
      ∧ SameHolder (settledLease pkt.hwaddr pkt.htype.toNat clid l) l')
    (hdisplaced : ∀ b, b ≠ a → Displaced pkt clid db a b → db'.store.find b = none)
    (hkept : ∀ b, b ≠ a → ¬ Displaced pkt clid db a b →
      KeptIfAny (db.store.find b) (db'.store.find b)) : RecordOk pkt clid db db' a where
  ok := hok
  unrecorded hnone := nomatch hbasis.symm.trans hnone
  key k' l' heq := by
    cases hbasis.symm.trans heq
    exact hkey
  recorded k' l' heq := by
    cases hbasis.symm.trans heq
    exact hself
  displaced := hdisplaced
  kept := hkept

theorem RecordOk.of_none (hbasis : recordBasis db a = none) (hok : Ok db'.store)
    (hfind : db'.store.find a = none)
    (hdisplaced : ∀ b, b ≠ a → createsLease db a → db.store.keyOf b = some placeholder →
      db'.store.find b = none) (hkept : ∀ b, b ≠ a → ¬ Displaced pkt clid db a b →
      KeptIfAny (db.store.find b) (db'.store.find b)) : RecordOk pkt clid db db' a where
  ok := hok
  unrecorded _ := hfind
  key k l heq := nomatch hbasis.symm.trans heq
  recorded k l heq := nomatch hbasis.symm.trans heq
  displaced := by
    rintro b hb (⟨hcreates, hplace⟩ | ⟨k, l, heq, -⟩)
    · exact hdisplaced b hb hcreates hplace
    · cases hbasis.symm.trans heq
  kept := hkept

/-- Where the address has a lease, only the key it moves to displaces one. -/
theorem displaced_iff_of_get (hk : db.store.keyOf a = some k) (hl : db.store.get k = some l) :
    Displaced pkt clid db a b
      ↔ rekeys l clid ∧ db.store.keyOf b = some (settledKey pkt.hwaddr clid k l) := by
  have hfind : db.store.find a = some l := Indexed.find_eq_some.mpr ⟨k, hk, hl⟩
  unfold Displaced createsLease
  rw [hfind, recordBasis_of_get hk hl]
  constructor
  · rintro (⟨⟨hnone, -⟩, -⟩ | ⟨k', l', heq, hd⟩)
    · cases hnone
    · cases heq
      exact hd
  · intro hd
    exact .inr ⟨k, l, rfl, hd⟩

end Basis

/-- A lease that exists is written over. -/
theorem Ok.recordOk_writeLease (h : Ok db.store) (hk : db.store.keyOf a = some k)
    (hl : db.store.get k = some l) :
    RecordOk pkt clid db (Dhcp.writeLease pkt clid hostname leaseTime now db a) a := by
  obtain ⟨hok, hkey, hself, hother⟩ := h.writeLease pkt clid hostname leaseTime now hk hl
  apply RecordOk.of_some (recordBasis_of_get hk hl) hok hkey hself
  · intro b hb hd
    have hrel := hother b hb
    rw [if_pos ((displaced_iff_of_get hk hl).mp hd)] at hrel
    obtain ⟨f, -, heq⟩ := hrel
    exact heq
  · intro b hb hd
    have hrel := hother b hb
    rwa [if_neg fun hboth => hd ((displaced_iff_of_get hk hl).mpr hboth)] at hrel

/-- In a full table nothing is written. -/
theorem Ok.recordOk_self (h : Ok db.store) (hfind : db.store.find a = none)
    (hfull : db.maxLeases ≤ db.store.size) : RecordOk pkt clid db db a := by
  have hbasis : recordBasis db a = none := by
    rw [recordBasis_of_keyOf_eq_none (h.coherent.find_eq_none_iff.mp hfind), if_pos (.inr hfull)]
  apply RecordOk.of_none hbasis h hfind
  · intro b _ hcreates
    exact absurd hfull (Nat.not_le.mpr hcreates.2)
  · exact fun _ _ _ => .refl _

/-- A new lease for the unspecified address cannot be found, and keeps the address only. -/
theorem Ok.recordOk_unspecified (h : Ok db.store) (hcreates : createsLease db a)
    (ha : a = .unspecified) :
    RecordOk pkt clid db (Dhcp.writeLease pkt clid hostname leaseTime now (Dhcp.allocated db a) a)
      a := by
  obtain ⟨hok, hkey, -, hother⟩ := h.allocated hcreates.1
  rw [if_pos ha] at hkey
  have hren := renamed_writeLease pkt clid hostname leaseTime now hkey
  have hbasis : recordBasis db a = none := by
    rw [recordBasis_of_keyOf_eq_none (h.coherent.find_eq_none_iff.mp hcreates.1), if_pos (.inl ha)]
  apply RecordOk.of_none hbasis (hren.ok hok)
  · have hunset := (hren.ok hok).find_unspecified
    rwa [← ha] at hunset
  · intro b hb _ hplace
    obtain ⟨f, -, heq⟩ := hren.find b
    rw [heq, (hother b hb).2, if_pos hplace]
    rfl
  · intro b hb hd
    have hrel := hren.find b
    rwa [(hother b hb).2, if_neg fun hplace => hd (.inl ⟨hcreates, hplace⟩)] at hrel

/-- A new lease displaces the one under the placeholder, and then the one under the key it moves to.
-/
theorem Ok.recordOk_allocated (h : Ok db.store) (hcreates : createsLease db a)
    (ha : a ≠ .unspecified) :
    RecordOk pkt clid db (Dhcp.writeLease pkt clid hostname leaseTime now (Dhcp.allocated db a) a)
      a := by
  obtain ⟨hok, hkey, hget, hother⟩ := h.allocated hcreates.1
  rw [if_neg ha] at hkey
  obtain ⟨hok', hkey', hself, hother'⟩ := hok.writeLease pkt clid hostname leaseTime now hkey hget
  have hbasis : recordBasis db a = some (placeholder, LeaseDb.freshLease a) := by
    rw [recordBasis_of_keyOf_eq_none (h.coherent.find_eq_none_iff.mp hcreates.1),
      if_neg (not_or.mpr ⟨ha, Nat.not_le.mpr hcreates.2⟩)]
  apply RecordOk.of_some hbasis hok' hkey' hself
  · intro b hb hd
    obtain ⟨f, -, heq⟩ := hother' b hb
    rw [heq, (hother b hb).1, (hother b hb).2]
    by_cases hplace : db.store.keyOf b = some placeholder
    · rw [if_pos hplace, if_neg (by simp), if_pos hplace]
      rfl
    · rcases hd with ⟨-, hplace'⟩ | ⟨k, l, heq', hre, hkey''⟩
      · exact absurd hplace' hplace
      · cases hbasis.symm.trans heq'
        rw [if_neg hplace, if_pos ⟨hre, hkey''⟩]
        rfl
  · intro b hb hd
    have hplace : db.store.keyOf b ≠ some placeholder := fun hplace => hd (.inl ⟨hcreates, hplace⟩)
    have hrel := hother' b hb
    rwa [(hother b hb).1, (hother b hb).2, if_neg hplace, if_neg hplace,
      if_neg fun hboth => hd (.inr ⟨_, _, hbasis, hboth⟩)] at hrel

/-- **What `record_lease` does**. -/
theorem Ok.recordLease (h : Ok db.store) (a : Ipv4Addr) :
    RecordOk pkt clid db (recordLease db a pkt clid hostname leaseTime now) a := by
  rw [recordLease_eq]
  cases hfind : db.store.find a with
  | some l =>
    obtain ⟨k, hk, hl⟩ := Indexed.find_eq_some.mp hfind
    exact h.recordOk_writeLease pkt clid hostname leaseTime now hk hl
  | none =>
    by_cases hfull : db.maxLeases ≤ db.store.size
    · rw [if_pos hfull]
      exact h.recordOk_self pkt clid hfind hfull
    · rw [if_neg hfull]
      have hcreates : createsLease db a := ⟨hfind, Nat.lt_of_not_le hfull⟩
      by_cases ha : a = .unspecified
      · exact h.recordOk_unspecified pkt clid hostname leaseTime now hcreates ha
      · exact h.recordOk_allocated pkt clid hostname leaseTime now hcreates ha

end Record

/-! ### `remove_by_addr` -/

theorem removeByAddr_store (h : Ok db.store) (hk : db.store.keyOf a = some k) :
    (db.removeByAddr a).store = (db.store.eraseKey k).unindex (some a) := by
  obtain ⟨l, hl, hattr⟩ := h.coherent.sound a k hk
  unfold LeaseDb.removeByAddr
  rw [hk]
  dsimp only
  rw [hl]
  rw [if_neg (leaseAddr_eq_some_iff.mp hattr).2]

theorem removeByAddr_of_none (hk : db.store.keyOf a = none) : db.removeByAddr a = db := by
  unfold LeaseDb.removeByAddr
  rw [hk]

/-- **What `remove_by_addr` does**: the lease at the address is gone, and no other one. -/
theorem get_removeByAddr (h : Ok db.store) :
    (db.removeByAddr a).store.get k = if db.store.keyOf a = some k then none
      else db.store.get k := by
  cases hk : db.store.keyOf a with
  | none => rw [removeByAddr_of_none hk, if_neg nofun]
  | some k' =>
    rw [removeByAddr_store h hk, Indexed.get_remove]
    exact if_congr (by rw [some.injEq, eq_comm]) rfl rfl

theorem Ok.removeByAddr (h : Ok db.store) (a : Ipv4Addr) : Ok (db.removeByAddr a).store := by
  cases hk : db.store.keyOf a with
  | none => rwa [removeByAddr_of_none hk]
  | some k =>
    refine ⟨by rw [removeByAddr_store h hk]; exact h.coherent.remove hk, ?_⟩
    intro k' l' hl'
    rw [get_removeByAddr h] at hl'
    split at hl'
    · cases hl'
    · exact h.keyed k' l' hl'

end DnsmasqRs.Dhcp
