import DnsmasqRs.Dhcp.Scripts
import DnsmasqRs.Dhcp.Equiv.Grant
import DnsmasqRs.Dhcp.Equiv.LeaseTable

/-!
# What the script is told

The script is told of a lease when it is new and when it is removed by a RELEASE or DECLINE.  It is
not told when a lease is lost because another one is put under its key.  So the calls for an address
alternate, and the last of them says whether it has a lease, exactly as long as no grant overwrites
a lease (`notified_iff`).

What matters of a lease here is its address and whether it is new (`mark`), which nothing that DHCP
writes to a lease changes (`Untouched`).  `record_lease` then only moves the mark of one lease: it
takes it from the key the lease was under, or has a new one, and puts it under the key of the client
(`view_recordLease`).
-/

namespace DnsmasqRs.Dhcp

open Wire Utf8 Fallible List Option

variable {W : Type} {f : DhcpLease → W} {s : Leases} {db : LeaseDb} {a b : Ipv4Addr} {k k' : Key}
  {l : DhcpLease}

/-! ### What is not written -/

/-- What is read of leases is not changed by the operations of DHCPv4. -/
structure Untouched (f : DhcpLease → W) : Prop where
  withHwaddr : ∀ hwaddr hwType l, f (LeaseDb.withHwaddr hwaddr hwType l) = f l
  withClid : ∀ clid l, f (LeaseDb.withClid clid l) = f l
  dropHostname : ∀ l, f (LeaseDb.dropHostname l) = f l
  withHostname : ∀ name auth l, f (LeaseDb.withHostname name auth l) = f l
  withExpires : ∀ expires l, f { l with
    expires, flags := l.flags ||| LeaseFlags.auxChanged ||| LeaseFlags.expChanged } = f l

/-- What is read of the leases, by key. -/
def view (f : DhcpLease → W) (s : Leases) (k : Key) : Option W := (s.get k).map f

theorem view_modify (hg : ∀ l, f (g l) = f l) : view f (s.modify a g) k = view f s k := by
  unfold view
  rw [Indexed.get_modify]
  split
  · rw [Option.map_map]
    exact congrArg (Option.map · _) (funext hg)
  · rfl

theorem view_insertRaw :
    view f (s.insertRaw leaseAddr k l) k' = if k' = k then some (f l) else view f s k' := by
  unfold view
  rw [Indexed.get_insertRaw]
  split <;> rfl

theorem view_eraseKey : view f (s.eraseKey k) k' = if k' = k then none else view f s k' := by
  unfold view
  rw [Indexed.get_eraseKey]
  split <;> rfl

section Views

variable (hf : Untouched f)
include hf

theorem view_setHostname : view f (db.setHostname a name auth).store k = view f db.store k := by
  have hdrop (addrs : List Ipv4Addr) (s : Leases) :
      view f (addrs.foldl (fun store dup => store.modify dup LeaseDb.dropHostname) s) k
        = view f s k := by
    induction addrs generalizing s with
    | nil => rfl
    | cons dup addrs ih => exact (ih _).trans (view_modify hf.dropHostname)
  unfold LeaseDb.setHostname
  dsimp only
  split
  · exact hdrop _ _
  · exact (view_modify (hf.withHostname name auth)).trans (hdrop _ _)

theorem view_setExpires : view f (db.setExpires a secs now).store k = view f db.store k := by
  unfold LeaseDb.setExpires
  split
  · rfl
  · split
    · rfl
    · exact view_modify (hf.withExpires _)

theorem untouched_settledLease : f (settledLease hwaddr hwType clid l) = f l := by
  unfold settledLease
  split
  · exact hf.withHwaddr hwaddr hwType l
  · split
    · exact hf.withHwaddr hwaddr hwType l
    · exact (hf.withClid _ _).trans (hf.withHwaddr hwaddr hwType l)

/-- `set_hwaddr` moves the lease to the key of the client. -/
theorem view_setHwaddr (h : Ok db.store) (hk : db.store.keyOf a = some k)
    (hl : db.store.get k = some l) :
    view f (db.setHwaddr a hwaddr hwType clid).store k' = if k'
      = settledKey hwaddr clid k l then some (f l)
      else if k' = k then none else view f db.store k' := by
  rw [setHwaddr_store hwaddr hwType clid h hk hl]
  by_cases hre : rekeys l clid
  · rw [if_pos hre, view_insertRaw, view_eraseKey, view_modify (hf.withHwaddr hwaddr hwType),
      untouched_settledLease hf]
  · obtain ⟨hkey, -⟩ := settled_of_not_rekeys hwaddr hwType clid (k := k) hre
    rw [if_neg hre, view_modify (hf.withHwaddr hwaddr hwType), hkey]
    by_cases hkk : k' = k
    · rw [if_pos hkk, hkk, view, hl, map_some]
    · rw [if_neg hkk, if_neg hkk]

variable (pkt : DhcpPacket) (clid : Option Bytes) (hostname : Option Str) (leaseTime : UInt32)
  (now : SystemTime)

theorem view_writeLease (h : Ok db.store) (hk : db.store.keyOf a = some k)
    (hl : db.store.get k = some l) :
    view f (writeLease pkt clid hostname leaseTime now db a).store k' =
      if k' = settledKey pkt.hwaddr clid k l then some (f l)
      else if k' = k then none else view f db.store k' := by
  rw [writeLease, view_setExpires hf, view_setHostname hf, view_setHwaddr hf h hk hl]

theorem view_writeLease_of_none (hk : db.store.keyOf a = none) :
    view f (writeLease pkt clid hostname leaseTime now db a).store k' = view f db.store k' := by
  have hhw : db.setHwaddr a pkt.hwaddr pkt.htype.toNat clid = db := by
    unfold LeaseDb.setHwaddr
    rw [hk]
  rw [writeLease, view_setExpires hf, view_setHostname hf, hhw]

end Views

/-! ### Where a lease is put -/

/-- Where `record_lease` puts the lease for an address: the key the lease is under at first, the key
it is under in the end, and whether it is a new one. -/
structure Placement where
  start : Key
  finish : Key
  lease : DhcpLease
  isNew : Bool

/-- The placement of an address, unless it has no lease and the table is full. -/
def placement (pkt : DhcpPacket) (clid : Option Bytes) (db : LeaseDb) (a : Ipv4Addr) :
    Option Placement :=
  match db.store.keyOf a with
  | some k => (db.store.get k).map fun l => ⟨k, settledKey pkt.hwaddr clid k l, l, false⟩
  | none =>
    if db.maxLeases ≤ db.store.size then none
    else
      let lease := LeaseDb.freshLease a
      -- a lease for 0.0.0.0 is not indexed, so `set_hwaddr` does not find it
      let finish :=
        if a = .unspecified then placeholder else settledKey pkt.hwaddr clid placeholder lease
      some ⟨placeholder, finish, lease, true⟩

/-- What is read of the leases after the placement. -/
def Placement.move (p : Placement) (f : DhcpLease → W) (v : Key → Option W) (k : Key) : Option W :=
  if k = p.finish then some (f p.lease) else if k = p.start then none else v k

/-- **What `record_lease` does to the table**. -/
theorem view_recordLease (hf : Untouched f) (h : Ok db.store) (pkt : DhcpPacket)
    (clid : Option Bytes) (hostname : Option Str) (leaseTime : UInt32) (now : SystemTime)
    (a : Ipv4Addr) (k : Key) :
    view f (recordLease db a pkt clid hostname leaseTime now).store k =
      match placement pkt clid db a with
      | none => view f db.store k
      | some p => p.move f (view f db.store) k := by
  rw [recordLease_eq]
  cases hfind : db.store.find a with
  | some l =>
    obtain ⟨k₀, hk₀, hl⟩ := Indexed.find_eq_some.mp hfind
    have hplace :
        placement pkt clid db a = some ⟨k₀, settledKey pkt.hwaddr clid k₀ l, l, false⟩ := by
      unfold placement
      rw [hk₀]
      dsimp only
      rw [hl, map_some]
    rw [hplace, isSome_some, if_pos rfl,
      view_writeLease hf pkt clid hostname leaseTime now h hk₀ hl]
    rfl
  | none =>
    have hkey := h.coherent.find_eq_none_iff.mp hfind
    unfold placement
    rw [isSome_none, if_neg Bool.false_ne_true, hkey]
    by_cases hfull : db.maxLeases ≤ db.store.size
    · rw [if_pos hfull, if_pos hfull]
    · rw [if_neg hfull, if_neg hfull]
      dsimp only
      obtain ⟨hok, hkey', hget, -⟩ := h.allocated hfind
      have halloc (k : Key) : view f (allocated db a).store k =
          if k = placeholder then some (f (LeaseDb.freshLease a)) else view f db.store k :=
        view_insertRaw
      unfold Placement.move
      by_cases ha : a = .unspecified
      · rw [if_pos ha] at hkey' ⊢
        rw [view_writeLease_of_none hf pkt clid hostname leaseTime now hkey', halloc]
        dsimp only
        split <;> rfl
      · rw [if_neg ha] at hkey' ⊢
        rw [view_writeLease hf pkt clid hostname leaseTime now hok hkey' hget, halloc]
        dsimp only
        by_cases hk : k = placeholder
        · rw [if_pos hk, if_pos hk]
        · rw [if_neg hk, if_neg hk, if_neg hk]

/-! ### Addresses and new leases -/

/-- The address of a lease, and whether the script has not heard of it. -/
def mark (l : DhcpLease) : Ipv4Addr × Bool := (l.addr, LeaseFlags.contains l.flags LeaseFlags.new)

theorem contains_eq_of_flags (h : flags' &&& LeaseFlags.new = flags &&& LeaseFlags.new) :
    LeaseFlags.contains flags' LeaseFlags.new = LeaseFlags.contains flags LeaseFlags.new := by
  unfold LeaseFlags.contains
  rw [h]

theorem untouched_mark : Untouched mark where
  withHwaddr hwaddr hwType l := Prod.ext (withHwaddr_spec hwaddr hwType l).2.2.2
    (contains_eq_of_flags (flags_withHwaddr (by decide) (by decide)))
  withClid clid l := Prod.ext rfl (contains_eq_of_flags (or_and_of_disjoint (by decide)))
  dropHostname l := Prod.ext rfl (contains_eq_of_flags (or_and_of_disjoint (by decide)))
  withHostname name auth l := Prod.ext (kept_withHostname name auth l).addr
    (contains_eq_of_flags (flags_withHostname (by decide) (by decide) (by decide)))
  withExpires expires l := by
    refine Prod.ext rfl (contains_eq_of_flags ?_)
    show (l.flags ||| LeaseFlags.auxChanged ||| LeaseFlags.expChanged) &&& _ = _
    rw [or_and_of_disjoint (by decide), or_and_of_disjoint (by decide)]

theorem reportable_of_new (h : LeaseFlags.contains l.flags LeaseFlags.new) :
    l.reportable leasefileRo scriptOnRenewal := by
  have hne : l.flags &&& (LeaseFlags.new ||| LeaseFlags.changed) ≠ 0 := by
    intro hzero
    have hand : l.flags &&& LeaseFlags.new = 0 := by
      have hmask :
          LeaseFlags.new = (LeaseFlags.new ||| LeaseFlags.changed) &&& LeaseFlags.new := by decide
      rw [hmask, ← UInt32.and_assoc, hzero, UInt32.zero_and]
    unfold LeaseFlags.contains at h
    rw [hand] at h
    cases h
  have hint : LeaseFlags.intersects l.flags (LeaseFlags.new ||| LeaseFlags.changed) :=
    bne_iff_ne.mpr hne
  rw [DhcpLease.reportable, hint, Bool.true_or, Bool.true_or]

theorem mark_reported : mark (l.reported leasefileRo scriptOnRenewal) = (l.addr, false) := by
  unfold DhcpLease.reported
  dsimp only
  split
  · refine Prod.ext rfl ?_
    show LeaseFlags.contains (l.flags &&& ~~~_) LeaseFlags.new = false
    unfold LeaseFlags.contains
    rw [UInt32.and_assoc]
    have hmask :
        ~~~(LeaseFlags.new ||| LeaseFlags.changed ||| LeaseFlags.auxChanged
          ||| LeaseFlags.expChanged)
        &&& LeaseFlags.new = 0 := by decide
    rw [hmask, UInt32.and_zero]
    rfl
  · next hnot =>
    refine Prod.ext rfl ?_
    exact Bool.eq_false_iff.mpr fun hnew => hnot (reportable_of_new hnew)

/-! ### What the script is told of an address -/

/-- The calls of the script that say that an address has a lease or has none. -/
def reports (a : Ipv4Addr) (log : List ScriptEvent) : List ScriptAction :=
  (log.filter fun e => e.lease.addr = a && e.action ≠ .old).map (·.action)

theorem reports_append (a : Ipv4Addr) (log log' : List ScriptEvent) :
    reports a (log ++ log') = reports a log ++ reports a log' := by
  unfold reports
  rw [filter_append, map_append]

theorem reports_flatMap (a : Ipv4Addr) (xs : List α) (g : α → List ScriptEvent) :
    reports a (xs.flatMap g) = xs.flatMap fun x => reports a (g x) := by
  induction xs with
  | nil => rfl
  | cons x xs ih => rw [flatMap_cons, flatMap_cons, reports_append, ih]

theorem reports_lostHostname (a : Ipv4Addr) (l : DhcpLease) : reports a (lostHostname l) = [] := by
  unfold lostHostname reports
  cases l.oldHostname <;> simp [buildScriptEvent]

theorem reports_removedEvents (a : Ipv4Addr) (l : DhcpLease) :
    reports a (removedEvents l) = if l.addr = a then [.del] else [] := by
  rw [removedEvents, reports_append, reports_lostHostname]
  by_cases ha : l.addr = a <;> simp [reports, buildScriptEvent, DhcpLease.takeOldHostname, ha]

theorem reports_changedEvents (a : Ipv4Addr) (leasefileRo scriptOnRenewal : Bool) (l : DhcpLease) :
    reports a (changedEvents leasefileRo scriptOnRenewal l) = if mark l = (a, true) then [.add]
      else [] := by
  unfold changedEvents mark
  by_cases hnew : LeaseFlags.contains l.flags LeaseFlags.new
  · rw [if_pos (reportable_of_new hnew), hnew]
    by_cases ha : l.addr = a <;> simp [reports, buildScriptEvent, DhcpLease.takeOldHostname, ha]
  · have hno : reports a [buildScriptEvent l.takeOldHostname .old none] = [] := by
      simp [reports, buildScriptEvent]
    simp only [hnew, Bool.false_eq_true, if_false, Prod.mk.injEq, and_false]
    split
    · exact hno
    · rfl

/-- **What the script is told of an address**: that removed leases are gone, and that new ones are
there. -/
theorem reports_runLeaseScripts (a : Ipv4Addr) (db : LeaseDb) (order : LeaseDb.Entries)
    (command : Str) (leasefileRo scriptOnRenewal : Bool) :
    reports a (db.runLeaseScripts order (some command) leasefileRo scriptOnRenewal).1 =
      (db.oldLeases.filter (·.addr = a)).map (fun _ => .del)
        ++ (order.filter (mark ·.2 = (a, true))).map fun _ => .add := by
  have hflat {α : Type} (xs : List α) (p : α → Prop) [DecidablePred p] (x : ScriptAction) :
      xs.flatMap (fun e => if p e then [x] else []) = (xs.filter (p ·)).map fun _ => x := by
    induction xs with
    | nil => rfl
    | cons e xs ih =>
      rw [flatMap_cons, ih]
      by_cases he : p e <;> simp [he]
  show reports a (_ ++ _ ++ _) = _
  rw [reports_append, reports_append, reports_flatMap, reports_flatMap, reports_flatMap]
  simp only [reports_lostHostname, reports_removedEvents, reports_changedEvents, hflat]
  simp

/-! ### Alternation -/

/-- `add` and `del` in turn, starting with `add`. -/
def Alternates (r : List ScriptAction) : Prop :=
  ∀ i x, r[i]? = some x → x = if i % 2 = 0 then .add else .del

/-- The calls for an address alternate, and the last one says whether it has a lease. -/
structure Balanced (r : List ScriptAction) (held : Prop) : Prop where
  alternates : Alternates r
  last : r.getLast? = some .add ↔ held

theorem alternates_append_singleton {r : List ScriptAction} :
    Alternates (r ++ [x]) ↔ Alternates r ∧ x = if r.length % 2 = 0 then .add else .del := by
  constructor
  · intro h
    refine ⟨fun i y hy => h i y ?_, h r.length x ?_⟩
    · rw [List.getElem?_append_left (List.getElem?_eq_some_iff.mp hy).1, hy]
    · simp
  · rintro ⟨h, hx⟩ i y hy
    rw [getElem?_append] at hy
    split at hy
    · exact h i y hy
    · have hi : i = r.length := by
        have := (List.getElem?_eq_some_iff.mp hy).1
        simp only [length_singleton] at this
        omega
      subst hi
      simp only [Nat.sub_self, getElem?_cons_zero, some.injEq] at hy
      rw [← hy, hx]

theorem Alternates.last_iff {r : List ScriptAction} (h : Alternates r) :
    r.getLast? = some .add ↔ r.length % 2 = 1 := by
  rcases eq_nil_or_concat' r with rfl | ⟨r, x, rfl⟩
  · simp
  · have hx := (alternates_append_singleton.mp h).2
    rw [getLast?_concat, length_append, some.injEq, hx]
    split <;> simp <;> omega

section Balance

variable {r : List ScriptAction} {held held' : Prop}

theorem balanced_iff : Balanced r held ↔ Alternates r ∧ (r.length % 2 = 1 ↔ held) := by
  constructor
  · intro h
    exact ⟨h.alternates, h.alternates.last_iff.symm.trans h.last⟩
  · rintro ⟨halt, hlast⟩
    exact ⟨halt, halt.last_iff.trans hlast⟩

theorem Balanced.add (h : Balanced r held) : Balanced (r ++ [.add]) held' ↔ ¬ held ∧ held' := by
  obtain ⟨halt, hlen⟩ := balanced_iff.mp h
  rw [balanced_iff, alternates_append_singleton, length_append, ← hlen]
  rcases Nat.mod_two_eq_zero_or_one r.length with heven | hodd
  · have hnext : (r.length + 1) % 2 = 1 := by omega
    simp [heven, hnext, halt]
  · simp [hodd]

theorem Balanced.del (h : Balanced r held) : Balanced (r ++ [.del]) held' ↔ held ∧ ¬ held' := by
  obtain ⟨halt, hlen⟩ := balanced_iff.mp h
  rw [balanced_iff, alternates_append_singleton, length_append, ← hlen]
  rcases Nat.mod_two_eq_zero_or_one r.length with heven | hodd
  · simp [heven]
  · have hnext : (r.length + 1) % 2 = 0 := by omega
    simp [hodd, hnext, halt]

theorem Balanced.nil (h : Balanced r held) : Balanced (r ++ []) held' ↔ (held ↔ held') := by
  rw [append_nil]
  exact ⟨fun h' => h.last.symm.trans h'.last, fun heq => ⟨h.alternates, h.last.trans heq⟩⟩

end Balance

/-! ### Runs with scripts -/

/-- The database, and what the script was told so far. -/
structure ScriptState where
  db : LeaseDb
  log : List ScriptEvent := []

/-- A packet that is dispatched, and how the scripts are then run. -/
structure ScriptedEvent extends Event where
  order : LeaseDb.Entries
  command : Str
  leasefileRo : Bool
  scriptOnRenewal : Bool

/-- `run_lease_scripts` for an event, on the database the dispatch has left. -/
def runScripts (log : List ScriptEvent) (ev : ScriptedEvent) (db : LeaseDb) : ScriptState :=
  let (events, db) :=
    db.runLeaseScripts ev.order (some ev.command) ev.leasefileRo ev.scriptOnRenewal
  { db, log := log ++ events }

/-- One turn: a dispatch and the scripts, or `none` if the dispatch panics. -/
def scriptStep (st : ScriptState) (ev : ScriptedEvent) : Option ScriptState :=
  (step st.db ev.toEvent).map (runScripts st.log ev)

/-- The scripts go through the leases of the table. -/
def ScriptedEvent.Admissible (st : ScriptState) (ev : ScriptedEvent) : Prop :=
  ∀ db, step st.db ev.toEvent = some db → db.Iterates ev.order

/-- The table has a lease for the address. -/
def Held (db : LeaseDb) (a : Ipv4Addr) : Prop := ∃ k l, db.store.get k = some l ∧ l.addr = a

/-- **The script was told of every lease**: for every address the calls alternate, and the last one
says whether there is a lease. -/
def Notified (st : ScriptState) : Prop := ∀ a, Balanced (reports a st.log) (Held st.db a)

/-- No lease is under a key the placement writes to, but for the lease itself. -/
def Placement.Free (p : Placement) (db : LeaseDb) : Prop :=
  (p.isNew → db.store.get p.start = none) ∧ (p.finish ≠ p.start → db.store.get p.finish = none)

/-- The grant, if there is one, overwrites no lease. -/
def Preserves (st : ScriptState) (ev : ScriptedEvent) : Prop :=
  ∀ outcome a p, dispatchDhcpWithMeta ev.pkt ev.cfg st.db ev.env = .ok outcome →
    grantedAddr ev.pkt outcome.1 = some a → recordsGrant ev.pkt a →
    placement ev.pkt (findOption ev.pkt.options optionClientId) st.db a = some p → p.Free st.db

/-- A lease for 0.0.0.0 is under the key it was created with. -/
def Placed (db : LeaseDb) : Prop :=
  ∀ k new, view mark db.store k = some (.unspecified, new) → k = placeholder

/-- What the state is between two turns, as long as no lease was overwritten. -/
structure Settled (st : ScriptState) : Prop where
  ok : Ok st.db.store
  placed : Placed st.db
  quiet : ∀ k a new, view mark st.db.store k = some (a, new) → new = false
  drained : st.db.oldLeases = []
  notified : Notified st

/-! ### Marks in the table -/

theorem held_iff_view : Held db a ↔ ∃ k new, view mark db.store k = some (a, new) := by
  constructor
  · rintro ⟨k, l, hl, rfl⟩
    exact ⟨k, (mark l).2, by rw [view, hl]; rfl⟩
  · rintro ⟨k, new, hview⟩
    obtain ⟨l, hl, hmark⟩ := map_eq_some_iff.mp hview
    exact ⟨k, l, hl, congrArg Prod.fst hmark⟩

theorem Placed.unique (hplaced : Placed db) (h : Ok db.store)
    (hk : view mark db.store k = some (a, n)) (hk' : view mark db.store k' = some (a, n')) :
    k = k' := by
  by_cases ha : a = .unspecified
  · subst ha
    rw [hplaced k n hk, hplaced k' n' hk']
  · obtain ⟨l, hl, hmark⟩ := map_eq_some_iff.mp hk
    obtain ⟨l', hl', hmark'⟩ := map_eq_some_iff.mp hk'
    have haddr : l.addr = a := congrArg Prod.fst hmark
    have haddr' : l'.addr = a := congrArg Prod.fst hmark'
    have hfirst := h.coherent.complete k l a hl (leaseAddr_eq_some_iff.mpr ⟨haddr, ha⟩)
    have hsecond := h.coherent.complete k' l' a hl' (leaseAddr_eq_some_iff.mpr ⟨haddr', ha⟩)
    exact some.inj (hfirst.symm.trans hsecond)

theorem reported_kept (leasefileRo scriptOnRenewal : Bool) (l : DhcpLease) :
    Kept l (l.reported leasefileRo scriptOnRenewal) := by
  unfold DhcpLease.reported
  dsimp only
  split <;> exact ⟨rfl, rfl, rfl, rfl, rfl⟩

section AfterScripts

variable (log : List ScriptEvent) (ev : ScriptedEvent)

theorem get_runScripts : (runScripts log ev db).db.store.get k =
      (db.store.get k).map (·.reported ev.leasefileRo ev.scriptOnRenewal) :=
  Indexed.get_mapValues

theorem ok_runScripts (h : Ok db.store) : Ok (runScripts log ev db).db.store :=
  (renamed_mapValues (reported_kept _ _)).ok h

theorem held_runScripts : Held (runScripts log ev db).db a ↔ Held db a := by
  unfold Held
  simp only [get_runScripts, map_eq_some_iff]
  constructor
  · rintro ⟨k, -, ⟨l, hl, rfl⟩, haddr⟩
    exact ⟨k, l, hl, (reported_kept _ _ l).addr.symm.trans haddr⟩
  · rintro ⟨k, l, hl, haddr⟩
    exact ⟨k, _, ⟨l, hl, rfl⟩, (reported_kept _ _ l).addr.trans haddr⟩

theorem view_runScripts :
    view mark (runScripts log ev db).db.store k = (view mark db.store k).map fun m =>
      (m.1, false) := by
  unfold view
  rw [get_runScripts, Option.map_map, Option.map_map]
  exact congrArg (Option.map · _) (funext fun l => mark_reported)

/-- After the scripts the state is settled again if the script was told of everything. -/
theorem settled_runScripts (h : Ok db.store) (hplaced : Placed db)
    (hnotified : Notified (runScripts log ev db)) : Settled (runScripts log ev db) where
  ok := ok_runScripts log ev h
  placed k new hview := by
    rw [view_runScripts] at hview
    obtain ⟨⟨a, n⟩, hview, heq⟩ := map_eq_some_iff.mp hview
    obtain ⟨rfl, -⟩ := Prod.mk.inj heq
    exact hplaced k n hview
  quiet k a new hview := by
    rw [view_runScripts] at hview
    obtain ⟨m, -, heq⟩ := map_eq_some_iff.mp hview
    exact (Prod.mk.inj heq).2.symm
  drained := rfl
  notified := hnotified

end AfterScripts

section Turn

variable {st : ScriptState} {ev : ScriptedEvent} {order : LeaseDb.Entries}

theorem filter_mark_eq_nil (horder : db.Iterates order)
    (h : ∀ k, view mark db.store k ≠ some (a, true)) :
    order.filter (mark ·.2 = (a, true)) = [] := by
  rw [filter_eq_nil_iff]
  intro e he hmark
  apply h e.1
  rw [view, horder.mem_iff_get.mp he, map_some, of_decide_eq_true hmark]

theorem filter_mark_eq_singleton (horder : db.Iterates order)
    (hk : view mark db.store k = some (a, true))
    (huniq : ∀ k', view mark db.store k' = some (a, true) → k' = k) :
    ∃ e, order.filter (mark ·.2 = (a, true)) = [e] := by
  obtain ⟨l, hl, hmark⟩ := map_eq_some_iff.mp hk
  refine ⟨⟨k, l⟩, perm_singleton.mp ?_⟩
  have hnodup : (order.filter (mark ·.2 = (a, true))).Nodup :=
    (List.Nodup.of_map _ horder.nodup).filter _
  rw [perm_ext_iff_of_nodup hnodup (nodup_singleton _)]
  rintro ⟨k', l'⟩
  rw [mem_filter, mem_singleton, horder.mem_iff_get, decide_eq_true_eq]
  constructor
  · rintro ⟨hl', hmark'⟩
    have hview : view mark db.store k' = some (a, true) := by rw [view, hl', map_some, hmark']
    obtain rfl := huniq k' hview
    obtain rfl := some.inj (hl.symm.trans hl')
    rfl
  · intro heq
    cases heq
    exact ⟨hl, hmark⟩

/-- What the script is told of an address in one turn. -/
theorem reports_runScripts :
    reports a (runScripts log ev db).log = reports a log
      ++ ((db.oldLeases.filter (·.addr = a)).map (fun _ => .del)
        ++ (ev.order.filter (mark ·.2 = (a, true))).map fun _ => .add) := by
  show reports a
    (log ++ (db.runLeaseScripts ev.order (some ev.command) ev.leasefileRo ev.scriptOnRenewal).1) = _
  rw [reports_append, reports_runLeaseScripts]

theorem view_removeByAddr (h : Ok db.store) : view f (db.removeByAddr a).store k =
      if db.store.keyOf a = some k then none else view f db.store k := by
  unfold view
  rw [get_removeByAddr h]
  split <;> rfl

/-- **Nothing has happened**: the script is told nothing. -/
theorem notified_of_same (hst : Settled st)
    (hview : ∀ k, view mark db.store k = view mark st.db.store k) (hold : db.oldLeases = [])
    (horder : db.Iterates ev.order) : Notified (runScripts st.log ev db) := by
  intro b
  have hadds : ev.order.filter (mark ·.2 = (b, true)) = [] := by
    apply filter_mark_eq_nil horder
    intro k hk
    rw [hview] at hk
    exact Bool.noConfusion (hst.quiet k b true hk)
  have hheld : Held st.db b ↔ Held (runScripts st.log ev db).db b := by
    rw [held_runScripts, held_iff_view, held_iff_view]
    simp only [hview]
  rw [reports_runScripts, hold, hadds]
  exact (hst.notified b).nil.mpr hheld

/-- **A lease was removed**: the script is told that it is gone. -/
theorem notified_of_removed (hst : Settled st) (horder : (st.db.removeByAddr a).Iterates ev.order) :
    Notified (runScripts st.log ev (st.db.removeByAddr a)) := by
  cases hk : st.db.store.keyOf a with
  | none =>
    rw [removeByAddr_of_none hk] at horder ⊢
    exact notified_of_same hst (fun _ => rfl) hst.drained horder
  | some k =>
    obtain ⟨l, hl, hattr⟩ := hst.ok.coherent.sound a k hk
    have haddr : l.addr = a := (leaseAddr_eq_some_iff.mp hattr).1
    have hviewk : view mark st.db.store k = some (a, (mark l).2) := by
      rw [view, hl, ← haddr]
      rfl
    have hold : (st.db.removeByAddr a).oldLeases = [l] := by
      unfold LeaseDb.removeByAddr
      rw [hk]
      dsimp only
      rw [hl, hst.drained]
      rfl
    have hview (k' : Key) : view mark (st.db.removeByAddr a).store k' =
        if k' = k then none else view mark st.db.store k' := by
      rw [view_removeByAddr hst.ok, hk]
      exact if_congr (by rw [some.injEq, eq_comm]) rfl rfl
    intro b
    have hadds : ev.order.filter (mark ·.2 = (b, true)) = [] := by
      apply filter_mark_eq_nil horder
      intro k' hk'
      rw [hview] at hk'
      split at hk'
      · cases hk'
      · exact Bool.noConfusion (hst.quiet k' b true hk')
    rw [reports_runScripts, hold, hadds]
    have hheld : Held (runScripts st.log ev (st.db.removeByAddr a)).db b
      ↔ Held st.db b ∧ b ≠ a := by
      rw [held_runScripts, held_iff_view, held_iff_view]
      constructor
      · rintro ⟨k', new, hk'⟩
        rw [hview] at hk'
        split at hk'
        · cases hk'
        · next hne =>
          refine ⟨⟨k', new, hk'⟩, ?_⟩
          rintro rfl
          exact hne (hst.placed.unique hst.ok hk' hviewk)
      · rintro ⟨⟨k', new, hk'⟩, hne⟩
        refine ⟨k', new, ?_⟩
        rw [hview, if_neg, hk']
        rintro rfl
        rw [hviewk] at hk'
        exact hne (Prod.mk.inj (some.inj hk')).1.symm
    by_cases hb : l.addr = b
    · have hdels : [l].filter (·.addr = b) = [l] := by simp [hb]
      rw [hdels]
      refine (hst.notified b).del.mpr ⟨⟨k, l, hl, hb⟩, ?_⟩
      · rw [hheld, ← haddr, hb]
        exact fun h => h.2 rfl
    · have hdels : [l].filter (·.addr = b) = [] := by simp [hb]
      rw [hdels]
      refine (hst.notified b).nil.mpr ?_
      rw [hheld]
      exact ⟨fun h => ⟨h, fun heq => hb (haddr.trans heq.symm)⟩, fun h => h.1⟩

/-! ### A lease is put on record -/

/-- What is known of a placement. -/
structure PlacementSpec (db : LeaseDb) (a : Ipv4Addr) (p : Placement) : Prop where
  mark : mark p.lease = (a, p.isNew)
  existing : p.isNew = false → view Dhcp.mark db.store p.start = some (a, false)
  fresh : p.isNew → p.start = placeholder ∧ (a ≠ .unspecified → ¬ Held db a)
  finish : a = .unspecified → p.finish = placeholder

theorem placement_spec (hst : Settled st) {pkt : DhcpPacket} {clid : Option Bytes} {p : Placement}
    (h : placement pkt clid st.db a = some p) : PlacementSpec st.db a p := by
  unfold placement at h
  split at h
  · next k hk =>
    obtain ⟨l, hl, rfl⟩ := map_eq_some_iff.mp h
    obtain ⟨haddr, hne⟩ := hst.ok.addr_of_find (Indexed.find_eq_some.mpr ⟨k, hk, hl⟩)
    have hview : view mark st.db.store k = some (a, (mark l).2) := by
      rw [view, hl, ← haddr]
      rfl
    have hquiet := hst.quiet k a _ hview
    rw [hquiet] at hview
    refine ⟨Prod.ext haddr hquiet, fun _ => hview, nofun, fun ha => absurd ha hne⟩
  · next hk =>
    split at h
    · cases h
    · obtain rfl := some.inj h
      have hnew : LeaseFlags.contains LeaseFlags.new LeaseFlags.new := by decide
      refine ⟨Prod.ext rfl hnew, nofun, fun _ => ⟨rfl, ?_⟩, fun ha => if_pos ha⟩
      rintro hne ⟨k, l, hl, haddr⟩
      have hkey := hst.ok.coherent.complete k l a hl (leaseAddr_eq_some_iff.mpr ⟨haddr, hne⟩)
      cases hk.symm.trans hkey

section Placing

variable {p : Placement} (hst : Settled st) (hp : PlacementSpec st.db a p)
  (hview : ∀ k, view mark db.store k = p.move mark (view mark st.db.store) k)
include hst hp hview

omit hst in
theorem view_finish : view mark db.store p.finish = some (a, p.isNew) := by
  rw [hview, Placement.move, if_pos rfl, hp.mark]

omit hst in
theorem view_of_move (hk : view mark db.store k = some (b, new)) :
    (k = p.finish ∧ b = a ∧ new = p.isNew)
      ∨ (k ≠ p.finish ∧ k ≠ p.start ∧ view mark st.db.store k = some (b, new)) := by
  rw [hview, Placement.move] at hk
  split at hk
  · next hfin =>
    rw [hp.mark] at hk
    obtain ⟨rfl, rfl⟩ := Prod.mk.inj (some.inj hk)
    exact .inl ⟨hfin, rfl, rfl⟩
  · next hfin =>
    split at hk
    · cases hk
    · next hstart => exact .inr ⟨hfin, hstart, hk⟩

theorem new_of_move (hk : view mark db.store k = some (b, true)) :
    k = p.finish ∧ b = a ∧ p.isNew := by
  rcases view_of_move hp hview hk with ⟨hfin, hb, hnew⟩ | ⟨-, -, hold⟩
  · exact ⟨hfin, hb, hnew.symm⟩
  · exact Bool.noConfusion (hst.quiet k b true hold)

theorem placed_of_move : Placed db := by
  intro k new hk
  rcases view_of_move hp hview hk with ⟨rfl, ha, -⟩ | ⟨-, -, hold⟩
  · exact hp.finish ha.symm
  · exact hst.placed k new hold

/-- The script is told of the lease if it is new. -/
theorem adds_of_move (horder : db.Iterates ev.order) :
    (ev.order.filter (mark ·.2 = (b, true))).map (fun _ => ScriptAction.add) =
      if b = a ∧ p.isNew then [.add] else [] := by
  split
  · next hnew =>
    obtain ⟨rfl, hnew⟩ := hnew
    have hfin := view_finish hp hview
    rw [hnew] at hfin
    obtain ⟨e, he⟩ :=
      filter_mark_eq_singleton horder hfin fun k hk => (new_of_move hst hp hview hk).1
    rw [he]
    rfl
  · next hnot =>
    rw [filter_mark_eq_nil horder]
    · rfl
    · intro k hk
      exact hnot (new_of_move hst hp hview hk).2

omit hst in
/-- Where nothing is overwritten, the leases are those from before and the new one. -/
theorem held_of_free (hfree : p.Free st.db) : Held db b ↔ Held st.db b ∨ (b = a ∧ p.isNew) := by
  have hfin : Held db a := held_iff_view.mpr ⟨p.finish, _, view_finish hp hview⟩
  constructor
  · intro hheld
    obtain ⟨k, new, hk⟩ := held_iff_view.mp hheld
    rcases view_of_move hp hview hk with ⟨-, rfl, -⟩ | ⟨-, -, hold⟩
    · cases hnew : p.isNew with
      | true => exact .inr ⟨rfl, rfl⟩
      | false => exact .inl (held_iff_view.mpr ⟨p.start, false, hp.existing hnew⟩)
    · exact .inl (held_iff_view.mpr ⟨k, new, hold⟩)
  · rintro (hheld | ⟨rfl, -⟩)
    · obtain ⟨k, new, hk⟩ := held_iff_view.mp hheld
      -- a lease that is no longer under its key is the one that was moved
      by_cases hstart : k = p.start
      · cases hnew : p.isNew with
        | true =>
          rw [hstart, view, hfree.1 hnew] at hk
          cases hk
        | false =>
          rw [hstart, hp.existing hnew] at hk
          obtain ⟨rfl, -⟩ := Prod.mk.inj (some.inj hk)
          exact hfin
      · by_cases hfinish : k = p.finish
        · rw [view, hfinish, hfree.2 (hfinish ▸ hstart)] at hk
          cases hk
        · refine held_iff_view.mpr ⟨k, new, ?_⟩
          rw [hview, Placement.move, if_neg hfinish, if_neg hstart, hk]
    · exact hfin

/-- **A lease was put on record**: the script is told all exactly if nothing was overwritten. -/
theorem notified_of_move_iff (hold : db.oldLeases = []) (horder : db.Iterates ev.order) :
    Notified (runScripts st.log ev db) ↔ p.Free st.db := by
  have hreports (b : Ipv4Addr) : reports b (runScripts st.log ev db).log =
      reports b st.log ++ if b = a ∧ p.isNew then [.add] else [] := by
    rw [reports_runScripts, hold, adds_of_move hst hp hview horder]
    rfl
  constructor
  · intro hnot
    -- the lease that is lost
    have hlost (k : Key) (hk : k = p.start ∨ k = p.finish)
        (hne : p.isNew ∨ p.finish ≠ p.start ∧ k = p.finish) : st.db.store.get k = none := by
      cases hget : st.db.store.get k with
      | none => rfl
      | some l =>
        exfalso
        have hviewk : view mark st.db.store k = some (l.addr, (mark l).2) := by
          rw [view, hget]
          rfl
        have hheld : Held st.db l.addr := ⟨k, l, hget, rfl⟩
        have hbal := hnot l.addr
        rw [hreports, held_runScripts] at hbal
        by_cases hnew : l.addr = a ∧ p.isNew
        · rw [if_pos hnew] at hbal
          exact ((hst.notified _).add.mp hbal).1 hheld
        · rw [if_neg hnew] at hbal
          obtain ⟨k', new, hk'⟩ := held_iff_view.mp (((hst.notified _).nil.mp hbal).mp hheld)
          rcases view_of_move hp hview hk' with ⟨-, haddr, -⟩ | ⟨hfin, hstart, hold'⟩
          · -- the address is that of the grant, so its lease is under the key it starts from
            have hexist : p.isNew = false := Bool.eq_false_iff.mpr fun h => hnew ⟨haddr, h⟩
            obtain ⟨hneq, hkfin⟩ := hne.resolve_left (by rw [hexist]; exact Bool.false_ne_true)
            have hstart := hp.existing hexist
            rw [haddr] at hviewk
            exact hneq (hkfin.symm.trans (hst.placed.unique hst.ok hviewk hstart))
          · have heq := hst.placed.unique hst.ok hold' hviewk
            rcases hk with rfl | rfl
            · exact hstart heq
            · exact hfin heq
    exact ⟨fun hnew => hlost p.start (.inl rfl) (.inl hnew), fun hne =>
      hlost p.finish (.inr rfl) (.inr ⟨hne, rfl⟩)⟩
  · intro hfree b
    rw [hreports, held_runScripts]
    split
    · next hnew =>
      obtain ⟨rfl, hnew⟩ := hnew
      refine (hst.notified b).add.mpr ⟨?_, (held_of_free hp hview hfree).mpr (.inr ⟨rfl, hnew⟩)⟩
      intro hheld
      by_cases hb : b = .unspecified
      · -- the key a lease for 0.0.0.0 is under is free
        obtain ⟨k, new, hk⟩ := held_iff_view.mp hheld
        subst hb
        rw [hst.placed k new hk, ← (hp.fresh hnew).1, view, hfree.1 hnew] at hk
        cases hk
      · exact (hp.fresh hnew).2 hb hheld
    · next hnot =>
      refine (hst.notified b).nil.mpr ?_
      rw [held_of_free hp hview hfree]
      exact ⟨.inl, fun h => h.resolve_right hnot⟩

end Placing

/-! ### Turns -/

theorem oldLeases_recordLease (db : LeaseDb) (a : Ipv4Addr) (pkt : DhcpPacket) (clid : Option Bytes)
    (hostname : Option Str) (leaseTime : UInt32) (now : SystemTime) :
    (recordLease db a pkt clid hostname leaseTime now).oldLeases = db.oldLeases := by
  have hhw (db : LeaseDb) (hwaddr : Bytes) (hwType : ℤ) :
      (db.setHwaddr a hwaddr hwType clid).oldLeases = db.oldLeases := by
    unfold LeaseDb.setHwaddr
    split
    · rfl
    · split
      · rfl
      · split
        · rfl
        · split
          · rfl
          · split <;> rfl
  have hname (db : LeaseDb) : (db.setHostname a hostname false).oldLeases = db.oldLeases := by
    unfold LeaseDb.setHostname
    dsimp only
    split <;> rfl
  have hexp (db : LeaseDb) : (db.setExpires a leaseTime now).oldLeases = db.oldLeases := by
    unfold LeaseDb.setExpires
    split
    · rfl
    · split <;> rfl
  rw [recordLease_eq]
  split
  · rw [writeLease, hexp, hname, hhw]
  · split
    · rfl
    · rw [writeLease, hexp, hname, hhw]
      rfl

/-- **What a dispatch does in a turn**: nothing the script has to hear of, a removal, or a
placement. -/
theorem turn_cases (hst : Settled st)
    (h : dispatchDhcpWithMeta ev.pkt ev.cfg st.db ev.env = .ok outcome) :
    ((∀ k, view mark outcome.2.1.store k = view mark st.db.store k) ∧ outcome.2.1.oldLeases = []
      ∧ Preserves st ev)
      ∨ (∃ a, outcome.2.1 = st.db.removeByAddr a ∧ Preserves st ev)
      ∨ ∃ a p, PlacementSpec st.db a p ∧ outcome.2.1.oldLeases = []
        ∧ (∀ k, view mark outcome.2.1.store k = p.move mark (view mark st.db.store) k)
        ∧ (Preserves st ev ↔ p.Free st.db) := by
  have hgrant (outcome' : Outcome)
    (h' : dispatchDhcpWithMeta ev.pkt ev.cfg st.db ev.env = .ok outcome') :
      outcome' = outcome := Except.ok.inj (h'.symm.trans h)
  -- without a grant nothing can be overwritten
  have hpres (hnone : grantedAddr ev.pkt outcome.1 = none) : Preserves st ev := by
    intro outcome' a p h' hgranted
    rw [hgrant outcome' h', hnone] at hgranted
    cases hgranted
  cases effect_of_dispatch h with
  | idle hnone => exact .inl ⟨fun _ => rfl, hst.drained, hpres hnone⟩
  | giveUp _ _ _ => exact .inr (.inl ⟨_, rfl, hpres rfl⟩)
  | @grant client a d cache db' secs hclient hgranted haddr hdb =>
    have hpres' (hno : recordsGrant ev.pkt a →
        placement ev.pkt (findOption ev.pkt.options optionClientId) st.db a = none) :
          Preserves st ev := by
      intro outcome' b p h' hgranted' hrec hplace
      rw [hgrant outcome' h', hgranted] at hgranted'
      obtain rfl := some.inj hgranted'
      cases (hno hrec).symm.trans hplace
    by_cases hrec : recordsGrant ev.pkt a
    · rw [if_pos hrec, clid_of_identify hclient] at hdb
      have hold : db'.oldLeases = [] := by rw [hdb, oldLeases_recordLease, hst.drained]
      have hview (k : Key) := view_recordLease untouched_mark hst.ok ev.pkt
        (findOption ev.pkt.options optionClientId) client.hostname secs ev.env.commitTime a k
      rw [← hdb] at hview
      cases hplace : placement ev.pkt (findOption ev.pkt.options optionClientId) st.db a with
      | none =>
        rw [hplace] at hview
        exact .inl ⟨hview, hold, hpres' fun _ => hplace⟩
      | some p =>
        rw [hplace] at hview
        refine .inr (.inr ⟨a, p, placement_spec hst hplace, hold, hview, ?_, ?_⟩)
        · intro hp
          exact hp _ a p h hgranted hrec hplace
        · intro hfree outcome' b p' h' hgranted' _ hplace'
          rw [hgrant outcome' h', hgranted] at hgranted'
          obtain rfl := some.inj hgranted'
          obtain rfl := some.inj (hplace.symm.trans hplace')
          exact hfree
    · rw [if_neg hrec] at hdb
      subst hdb
      exact .inl ⟨fun _ => rfl, hst.drained, hpres' fun h => absurd h hrec⟩

/-- **One turn**: the script is told all exactly if the grant overwrites nothing, and then the state
is settled. -/
theorem notified_turn {db : LeaseDb} (hst : Settled st) (hadm : ev.Admissible st)
    (hstep : step st.db ev.toEvent = some db) :
    (Notified (runScripts st.log ev db) ↔ Preserves st ev)
      ∧ (Preserves st ev → Settled (runScripts st.log ev db)) := by
  have horder := hadm db hstep
  obtain ⟨outcome, hout, rfl⟩ := map_eq_some_iff.mp hstep
  have hdisp := toOption_eq_some.mp hout
  have hok : Ok outcome.2.1.store := (effect_of_dispatch hdisp).ok hst.ok
  have hplacedView (db : LeaseDb)
      (hview : ∀ k m, view mark db.store k = some m → view mark st.db.store k = some m) :
        Placed db :=
    fun k new hk => hst.placed k new (hview k _ hk)
  rcases turn_cases hst hdisp with ⟨hview, hold, hpres⟩ | ⟨a, hdb, hpres⟩
    | ⟨a, p, hp, hold, hview, hpres⟩
  · have hnot := notified_of_same hst hview hold horder
    refine ⟨iff_of_true hnot hpres, fun _ => settled_runScripts _ _ hok (hplacedView _ ?_) hnot⟩
    intro k m hk
    rwa [hview] at hk
  · rw [hdb] at horder hok ⊢
    have hnot := notified_of_removed hst horder
    refine ⟨iff_of_true hnot hpres, fun _ => settled_runScripts _ _ hok (hplacedView _ ?_) hnot⟩
    intro k m hk
    rw [view_removeByAddr hst.ok] at hk
    split at hk
    · cases hk
    · exact hk
  · have hiff := notified_of_move_iff hst hp hview hold horder
    refine ⟨hiff.trans hpres.symm, fun h => ?_⟩
    exact settled_runScripts _ _ hok (placed_of_move hst hp hview) (hiff.mpr (hpres.mp h))

end Turn

theorem settled_start : Settled { db := { maxLeases } } where
  ok := ok_empty
  placed _ _ h := nomatch h
  quiet _ _ _ h := nomatch h
  drained := rfl
  notified a := by
    have hnone : ¬ Held { maxLeases } a := fun ⟨_, _, h, _⟩ => nomatch h
    exact ⟨(fun _ _ h => nomatch h), iff_of_false nofun hnone⟩

/-- **The script is told of every lease all along a run** exactly if no grant of it overwrites a
lease. -/
theorem notified_iff (maxLeases : ℕ) (events : List ScriptedEvent)
    (hadm : Run.EachStep scriptStep (fun st ev => ev.Admissible st)
      { db := { maxLeases } } events) :
    Run.Always scriptStep Notified { db := { maxLeases } } events
      ↔ Run.EachStep scriptStep Preserves { db := { maxLeases } } events := by
  apply Run.always_iff (I := Settled) (fun _ h => h.notified) _ _ (settled_start) hadm
  · intro st ev hst hok
    constructor
    · intro hpres st' hstep
      obtain ⟨db, hdb, rfl⟩ := map_eq_some_iff.mp hstep
      exact (notified_turn hst hok hdb).1.mpr hpres
    · intro hnot
      cases hdb : step st.db ev.toEvent with
      | none =>
        -- the dispatch panics, and there is no grant
        intro outcome a p hout
        rw [step, hout] at hdb
        cases hdb
      | some db => exact (notified_turn hst hok hdb).1.mp (hnot _ (by rw [scriptStep, hdb]; rfl))
  · intro st ev st' hst hok hpres hstep
    obtain ⟨db, hdb, rfl⟩ := map_eq_some_iff.mp hstep
    exact (notified_turn hst hok hdb).2 hpres

/-- A dispatch, after which the scripts go through the leases as they are in the table. -/
def Event.scripted (ev : Event) (st : ScriptState) : ScriptedEvent where
  toEvent := ev
  order := ((step st.db ev).getD st.db).store.entries.entries
  command := []
  leasefileRo := false
  scriptOnRenewal := false

theorem admissible_scripted (ev : Event) (st : ScriptState) : (ev.scripted st).Admissible st := by
  intro db hdb
  have hstep : (step st.db ev).getD st.db = db := congrArg (Option.getD · st.db) hdb
  exact List.Perm.of_eq (congrArg (·.store.entries.entries) hstep)

def requestEvent (hw host : UInt8) : Event := ⟨sampleRequest hw host, sampleConfig, {}⟩

abbrev noLeases : ScriptState := { db := { maxLeases := 1000 } }

/-- The REQUESTs of two clients without a client ID. -/
def twoRequests (st : ScriptState) : List ScriptedEvent :=
  [(requestEvent 1 10).scripted noLeases, (requestEvent 2 11).scripted st]

theorem admissible_twoRequests
    (h : scriptStep noLeases ((requestEvent 1 10).scripted noLeases) = some st) :
    Run.EachStep scriptStep (fun st ev => ev.Admissible st) noLeases (twoRequests st) := by
  refine ⟨admissible_scripted _ _, fun st' hst' => ?_⟩
  obtain rfl := some.inj (h.symm.trans hst')
  exact ⟨admissible_scripted _ _, fun _ _ => trivial⟩

theorem notified_iff_requestEvent :
    ∃ st, scriptStep noLeases ((requestEvent 1 10).scripted noLeases) = some st
      ∧ (Run.Always scriptStep Notified noLeases (twoRequests st)
        ↔ Run.EachStep scriptStep Preserves noLeases (twoRequests st)) := by
  have hrun : (scriptStep noLeases ((requestEvent 1 10).scripted noLeases)).isSome := by
    decide +kernel
  obtain ⟨st, hst⟩ := isSome_iff_exists.mp hrun
  exact ⟨st, hst, notified_iff 1000 _ (admissible_twoRequests hst)⟩

/-- Two clients without a client ID: the lease of the first is overwritten, and the script is not
told. -/
theorem not_notified_request : ∃ events : List ScriptedEvent,
    Run.EachStep scriptStep (fun st ev => ev.Admissible st) { db := { maxLeases := 1000 } } events
      ∧ ¬ Run.Always scriptStep Notified { db := { maxLeases := 1000 } } events := by
  have hrun : ((scriptStep noLeases ((requestEvent 1 10).scripted noLeases)).any fun st =>
        (scriptStep st ((requestEvent 2 11).scripted st)).any fun st' =>
          (reports (sampleAddr 10) st'.log).getLast? = some .add
            && st'.db.store.values.all (·.addr ≠ sampleAddr 10)) := by decide +kernel
  obtain ⟨st, hst, hrun⟩ := (any_eq_true _ _).mp hrun
  obtain ⟨st', hst', hfacts⟩ := (any_eq_true _ _).mp hrun
  rw [Bool.and_eq_true, decide_eq_true_eq, List.all_eq_true] at hfacts
  refine ⟨twoRequests st, admissible_twoRequests hst, ?_⟩
  rintro ⟨-, hrest⟩
  have hnot : Notified st' := (hrest st hst).2 st' hst'
  obtain ⟨k, l, hl, haddr⟩ := (hnot (sampleAddr 10)).last.mp hfacts.1
  have hmem : l ∈ st'.db.store.values := mem_map.mpr ⟨⟨k, l⟩, AList.mem_lookup_iff.mp hl, rfl⟩
  exact of_decide_eq_true (hfacts.2 l hmem) haddr

end DnsmasqRs.Dhcp
