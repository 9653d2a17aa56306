import DnsmasqRs.Dhcp.Common
import DnsmasqRs.Lib.Indexed
import Mathlib.Data.List.TakeDrop

/-!
# The lease database (`lease.rs`)

Leases are kept under a key of sixteen bytes made from the client ID or the hardware address, and
are indexed by their address.  A lease is created without either, so it starts under the key of all
zeros; `set_hwaddr` moves it when a client ID is set.  The leases of DHCPv6 are in the same table,
under the key of their client ID, and have no IPv4 address.
-/

namespace DnsmasqRs.Dhcp

open Wire Utf8

/-- A key of the lease table. -/
abbrev Key := Vector UInt8 16

/-- `to_key`: padded with zeros or cut to sixteen bytes. -/
def toKey (id : Bytes) : Key :=
  ⟨(id.takeD 16 0).toArray, List.size_toArray.trans (List.takeD_length _ _ _)⟩

/-- `lease_key`. -/
def leaseKey (lease : DhcpLease) : Key :=
  match lease.clid with
  | some clid => if clid = [] then toKey lease.hwaddr else toKey clid
  | none => toKey lease.hwaddr

/-- The address a lease is indexed by. -/
def leaseAddr (lease : DhcpLease) : Option Ipv4Addr :=
  if lease.addr = .unspecified then none else some lease.addr

namespace DhcpLease

/-- The lease is one of DHCPv6. -/
def isV6 (lease : DhcpLease) : Bool :=
  LeaseFlags.intersects lease.flags (LeaseFlags.ta ||| LeaseFlags.na)

/-- It is the one for the address. -/
def isV6For (addr : Ipv6Addr) (lease : DhcpLease) : Bool := lease.isV6 && lease.addr6 = addr

/-- It is the client's for the address. -/
def isBoundTo (clid : Bytes) (iaid : UInt32) (addr : Ipv6Addr) (lease : DhcpLease) : Bool :=
  lease.isV6For addr && lease.iaid = iaid && lease.clid = some clid

/-- The lease expired before `now`. -/
def expiredBefore (now : SystemTime) (lease : DhcpLease) : Bool := lease.expires.any (· < now)

end DhcpLease

/-- `LeaseDb`. -/
structure LeaseDb where
  store : Indexed Key Ipv4Addr DhcpLease := .empty
  maxLeases : ℕ := 1000
  fileDirty : Bool := false
  dnsDirty : Bool := false
  oldLeases : List DhcpLease := []

namespace LeaseDb

/-- `LeaseDb::new`. -/
def new : LeaseDb := {}

variable (db : LeaseDb) (addr : Ipv4Addr)

/-- `LeaseDb::insert_raw`. -/
def insertRaw (key : Key) (lease : DhcpLease) : LeaseDb :=
  { db with store := db.store.insertRaw leaseAddr key lease }

/-- `LeaseDb::find_by_addr`. -/
def findByAddr : Option DhcpLease := db.store.find addr

/-- `LeaseDb::find_by_client_id`. -/
def findByClientId (clientId : Bytes) : Option DhcpLease := db.store.get (toKey clientId)

/-- The lease as `allocate_v4` creates it. -/
def freshLease : DhcpLease := { flags := LeaseFlags.new, addr }

/-- `LeaseDb::allocate_v4`. -/
def allocateV4 : Option LeaseDb :=
  if db.maxLeases ≤ db.store.size then none
  else
    some { db.insertRaw (leaseKey (freshLease addr)) (freshLease addr) with
      fileDirty := true, dnsDirty := true }

/-- The expiry `set_expires` computes. -/
def expiryAt (now : SystemTime) (durationSecs : UInt32) : Option SystemTime :=
  if durationSecs = 0xFFFFFFFF then none else some (now + fromSecs durationSecs.toNat)

/-- `LeaseDb::set_expires`, with the clock read at `now`. -/
def setExpires (durationSecs : UInt32) (now : SystemTime) : LeaseDb :=
  match db.findByAddr addr with
  | none => db
  | some lease =>
    if lease.expires = expiryAt now durationSecs then db
    else
      { db with
        store := db.store.modify addr fun lease =>
          { lease with
            expires := expiryAt now durationSecs
            flags := lease.flags ||| LeaseFlags.auxChanged ||| LeaseFlags.expChanged }
        fileDirty := true }

/-- What `set_hwaddr` does to the lease before it looks at the client ID. -/
def withHwaddr (hwaddr : Bytes) (hwType : ℤ) (lease : DhcpLease) : DhcpLease :=
  let lease := { lease with flags := lease.flags ||| LeaseFlags.haveHwaddr }
  if lease.hwaddr ≠ hwaddr ∨ lease.hwaddrType ≠ hwType then
    { lease with hwaddr, hwaddrType := hwType, flags := lease.flags ||| LeaseFlags.changed }
  else lease

/-- What it does to the lease when the client ID is another one. -/
def withClid (clid : Bytes) (lease : DhcpLease) : DhcpLease :=
  { lease with clid := some clid, flags := lease.flags ||| LeaseFlags.auxChanged }

/-- `LeaseDb::set_hwaddr`, for a hardware address of at most sixteen bytes.  The result, whether
SLAAC addresses are to be looked at again, is not used by DHCPv4. -/
def setHwaddr (hwaddr : Bytes) (hwType : ℤ) (clid : Option Bytes) : LeaseDb :=
  match db.store.keyOf addr with
  | none => db
  | some key =>
    match db.store.get key with
    | none => db
    | some lease =>
      if lease.addr ≠ addr then db
      else
        let hwChanged := decide (lease.hwaddr ≠ hwaddr ∨ lease.hwaddrType ≠ hwType)
        let db := { db with
          store := db.store.modify addr (withHwaddr hwaddr hwType)
          fileDirty := db.fileDirty || hwChanged }
        match clid with
        | none => db
        | some clid =>
          if lease.clid = some clid then db
          else
            let lease := withClid clid (withHwaddr hwaddr hwType lease)
            { db with
              store := (db.store.eraseKey key).insertRaw leaseAddr (leaseKey lease) lease
              fileDirty := true }

/-- The addresses of the other leases with the hostname. -/
def duplicates (name : Str) : List Ipv4Addr :=
  (db.store.values.filter fun l => l.addr ≠ addr && l.hostname.any (hostnameIsequal · name)).map
    (·.addr)

/-- A lease that loses its hostname. -/
def dropHostname (lease : DhcpLease) : DhcpLease :=
  { lease with
    oldHostname := lease.hostname, hostname := none, flags := lease.flags ||| LeaseFlags.changed }

/-- The hostname is another one. -/
def nameChanged (old new : Option Str) : Bool :=
  match old, new with
  | some old, some new => !hostnameIsequal old new
  | none, none => false
  | _, _ => true

/-- What `set_hostname` does to the lease at the address. -/
def withHostname (name : Option Str) (auth : Bool) (lease : DhcpLease) : DhcpLease :=
  let lease :=
    if nameChanged lease.hostname name then
      { lease with
        oldHostname := lease.hostname, hostname := name
        flags := lease.flags ||| LeaseFlags.changed }
    else lease
  { lease with
    flags := if auth then lease.flags ||| LeaseFlags.authName
      else lease.flags &&& ~~~LeaseFlags.authName }

/-- `LeaseDb::set_hostname`. -/
def setHostname (name : Option Str) (auth : Bool) : LeaseDb :=
  let dups := match name with
    | some name => db.duplicates addr name
    | none => []
  let db :=
    { db with store := dups.foldl (fun store dup => store.modify dup dropHostname) db.store }
  match db.findByAddr addr with
  | none => db
  | some lease =>
    let changed := nameChanged lease.hostname name
    { db with
      store := db.store.modify addr (withHostname name auth)
      fileDirty := db.fileDirty || changed
      dnsDirty := db.dnsDirty || changed }

/-- `LeaseDb::set_interface`. -/
def setInterface (interface : ℤ) : LeaseDb :=
  { db with store := db.store.modify addr fun lease => { lease with lastInterface := interface } }

/-- `LeaseDb::find_max_addr`. -/
def findMaxAddr (start finish : Ipv4Addr) : Ipv4Addr :=
  let inRange := (db.store.values.map fun l => toU32 l.addr).filter fun a =>
    toU32 start ≤ a && a ≤ toU32 finish
  match inRange.max? with
  | some a => ofU32 a
  | none => start

/-- `LeaseDb::remove_by_addr`, without the lease it returns. -/
def removeByAddr : LeaseDb :=
  match db.store.keyOf addr with
  | none => db
  | some key =>
    let dirty := { db with fileDirty := true, dnsDirty := true }
    match db.store.get key with
    | none => dirty
    | some removed =>
      { dirty with
        store := (db.store.eraseKey key).unindex (if addr = .unspecified then none else some addr)
        oldLeases := db.oldLeases ++ [removed] }

/-! ### All leases

A `HashMap` goes through its entries in no particular order.  Where the order can matter it is an
argument: any list of the entries. -/

/-- The leases with their keys, in some order. -/
abbrev Entries := List (Σ _ : Key, DhcpLease)

variable (order : Entries) (clid : Bytes) (iaid : UInt32)

/-- The entries are those of the table. -/
def Iterates : Prop := order.Perm db.store.entries.entries

/-- `LeaseDb::prune`, without the leases it returns. -/
def prune (nowSecs : ℕ) : LeaseDb :=
  let pruned := order.filter fun e => e.2.expiredBefore (fromSecs nowSecs)
  { db with
    store := db.store.removeAll leaseAddr pruned
    oldLeases := db.oldLeases ++ pruned.map (·.2) }

/-- The hostname a lease gets from its host entry, with the address of the lease. -/
def renameOf (configs : List DhcpConfig) (lease : DhcpLease) : Option (Ipv4Addr × Str) :=
  if lease.isV6 then none
  else
    (findConfig configs lease.clid lease.hwaddr lease.hwaddrType none []).bind fun (config, _) =>
      if config.flags.contains ConfigFlags.name = false
          ∨ (config.flags.contains ConfigFlags.addr ∧ config.addr ≠ lease.addr) then none
      else config.hostname.map (lease.addr, ·)

/-- `LeaseDb::update_from_configs`. -/
def updateFromConfigs (configs : List DhcpConfig) : LeaseDb :=
  (order.filterMap fun e => renameOf configs e.2).foldl
    (fun db (addr, hostname) => db.setHostname addr (some hostname) true) db

/-! ### DHCPv6 -/

/-- `LeaseDb::find_v6_by_clid_iaid`, going through the leases in the order. -/
def findV6ByClidIaid (addr : Ipv6Addr) : Option DhcpLease :=
  (order.find? fun e => e.2.isBoundTo clid iaid addr).map (·.2)

/-- `LeaseDb::find_v6_by_client_iaid`. -/
def findV6ByClientIaid : Option DhcpLease :=
  (order.find? fun e => e.2.isV6 && e.2.iaid = iaid && e.2.clid = some clid).map (·.2)

/-- `LeaseDb::find_v6_by_addr`. -/
def findV6ByAddr (addr : Ipv6Addr) : Option DhcpLease :=
  (order.find? fun e => e.2.isV6For addr).map (·.2)

/-- The lease `bind_v6` starts from, with the table without it. -/
def takeV6 (addr : Ipv6Addr) (leaseType : LeaseFlags) : Option (DhcpLease × LeaseDb) :=
  match order.find? fun e => e.2.isV6For addr with
  | some e => some (e.2, { db with store := db.store.eraseKey e.1 })
  | none =>
    if db.maxLeases ≤ db.store.size then none
    else some ({ flags := LeaseFlags.new ||| leaseType, addr6 := addr }, db)

/-- `LeaseDb::bind_v6`. -/
def bindV6 (addr : Ipv6Addr) (clid : Bytes) (iaid : UInt32)
    (leaseType : LeaseFlags) (expires : Option SystemTime) : Option LeaseDb :=
  (db.takeV6 order addr leaseType).map fun (lease, db) =>
    let lease := { lease with clid := some clid, iaid, expires }
    { db.insertRaw (leaseKey lease) lease with fileDirty := true, dnsDirty := true }

/-- `LeaseDb::remove_v6_by_clid_iaid_addr`, with whether a lease was found. -/
def removeV6ByClidIaidAddr (addr : Ipv6Addr) : Bool × LeaseDb :=
  match order.find? fun e => e.2.isBoundTo clid iaid addr with
  | some e => (true, { db with store := db.store.eraseKey e.1, fileDirty := true })
  | none => (false, db)

end LeaseDb

end DnsmasqRs.Dhcp
