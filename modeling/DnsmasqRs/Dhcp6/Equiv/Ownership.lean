import DnsmasqRs.Dhcp6.Equiv.Outcome

/-!
# Whose an IPv6 address is

There is at most one lease for an IPv6 address (`Unique6`).  An address is bound to a client because
it was checked against that lease, because it is the client's by its lease, because the search found
that it has none, or because an authoritative server believes a Rebind (`Grantable`).  Only in the
last case can another client have it (`keepsOthers_iff`).
-/

namespace DnsmasqRs.Dhcp6

open Wire Utf8 Dhcp Fallible Option

/-! ### Leases -/

variable {s : Leases} {db : LeaseDb} {order : LeaseDb.Entries} {a addr : Ipv6Addr} {clid : Bytes}
  {iaid : UInt32}
  {k k' : Key} {l l' : DhcpLease}

/-- **There is at most one lease for an IPv6 address**. -/
def Unique6 (s : Leases) : Prop :=
  ∀ k k' l l' a, s.get k = some l → s.get k' = some l' → l.isV6For a → l'.isV6For a → k = k'

theorem unique6_empty : Unique6 .empty := by
  intro k k' l l' a hl
  cases hl

theorem Unique6.eraseKey (h : Unique6 s) (k : Key) : Unique6 (s.eraseKey k) :=
  fun k₁ k₂ l₁ l₂ a h₁ h₂ => h k₁ k₂ l₁ l₂ a (get_of_get_eraseKey h₁) (get_of_get_eraseKey h₂)

/-- A lease is put in that no other is for the address of. -/
theorem Unique6.insertRaw (h : Unique6 s) (k : Key)
    (hother : ∀ k' l' a, s.get k' = some l' → l'.isV6For a → l.isV6For a → False) :
    Unique6 (s.insertRaw leaseAddr k l) := by
  intro k₁ k₂ l₁ l₂ a h₁ h₂ ha₁ ha₂
  rw [Indexed.get_insertRaw] at h₁ h₂
  split at h₁
  · next hk₁ =>
    obtain rfl := some.inj h₁
    split at h₂
    · next hk₂ => exact hk₁.trans hk₂.symm
    · exact (hother k₂ l₂ a h₂ ha₂ ha₁).elim
  · split at h₂
    · obtain rfl := some.inj h₂
      exact (hother k₁ l₁ a h₁ ha₁ ha₂).elim
    · exact h k₁ k₂ l₁ l₂ a h₁ h₂ ha₁ ha₂

theorem find?_isV6For (h : Unique6 db.store) (horder : db.Iterates order)
    (he : order.find? (fun e => e.2.isV6For a) = some e) (hl : db.store.get k = some l)
    (ha : l.isV6For a) : k = e.1 ∧ l = e.2 := by
  obtain ⟨hget, hfor⟩ := horder.get_of_find? he
  obtain rfl := h k e.1 l e.2 a hl hget ha hfor
  exact ⟨rfl, some.inj (hl.symm.trans hget)⟩

theorem not_isV6For_of_find? (horder : db.Iterates order)
    (he : order.find? (fun e => e.2.isV6For a) = none) (hl : db.store.get k = some l) :
    l.isV6For a = false :=
  Bool.eq_false_iff.mpr (List.find?_eq_none.mp he ⟨k, l⟩ (horder.mem_iff_get.mpr hl))

theorem Unique6.bindV6 (h : Unique6 db.store) (horder : db.Iterates order) (addr : Ipv6Addr)
    (clid : Bytes) (iaid : UInt32) (leaseType : LeaseFlags) (expires : Option SystemTime) :
    Unique6 ((db.bindV6 order addr clid iaid leaseType expires).getD db).store := by
  unfold LeaseDb.bindV6 LeaseDb.takeV6
  cases he : order.find? fun e => e.2.isV6For addr with
  | none =>
    dsimp only
    split
    · exact h
    · apply h.insertRaw
      intro k' l' b hl' hb hnew
      obtain rfl : addr = b := of_decide_eq_true (Bool.and_eq_true_iff.mp hnew).2
      cases (not_isV6For_of_find? horder he hl').symm.trans hb
  | some e =>
    apply (h.eraseKey e.1).insertRaw
    intro k' l' b hl' hb hnew
    obtain ⟨-, hfor⟩ := horder.get_of_find? he
    have hb' : e.2.addr6 = b := of_decide_eq_true (Bool.and_eq_true_iff.mp hnew).2
    obtain rfl : e.2.addr6 = addr := of_decide_eq_true (Bool.and_eq_true_iff.mp hfor).2
    rw [Indexed.get_eraseKey] at hl'
    split at hl'
    · cases hl'
    · next hne => exact hne (find?_isV6For h horder he hl' (hb' ▸ hb)).1

theorem Unique6.removeV6 (h : Unique6 db.store) (order : LeaseDb.Entries) (clid : Bytes)
    (iaid : UInt32) (addr : Ipv6Addr) :
    Unique6 (db.removeV6ByClidIaidAddr order clid iaid addr).2.store := by
  unfold LeaseDb.removeV6ByClidIaidAddr
  split
  · exact h.eraseKey _
  · exact h

/-- A lease for the address that has not expired belongs to another client or IAID. -/
def HeldByOther (db : LeaseDb) (clid : Bytes) (iaid : UInt32) (a : Ipv6Addr) (nowSecs : UInt64) :
    Prop :=
  ∃ k l, db.store.get k = some l ∧ l.isV6For a
    ∧ (∀ e, l.expires = some e → fromSecs nowSecs.toNat < e)
    ∧ ¬ (l.clid = some clid ∧ l.iaid = iaid)

/-! ### Why an address is granted -/

variable {pkt : Dhcp6Packet} {duid : Bytes} {ctx : Dhcp6RequestContext} {reply : Dhcp6Reply}
  {outcome : Outcome6}

/-- The address is the client's to have, as far as the leases say, or the server has to believe it.
-/
inductive Grantable (pkt : Dhcp6Packet) (ctx : Dhcp6RequestContext) (iaid : UInt32) (a : Ipv6Addr) :
    Prop where
  | checked (h : checkAddress ctx (extractClientId pkt) iaid a)
  | held {l : DhcpLease} (h : LeaseDb.findV6ByClientIaid ctx.order (extractClientId pkt) iaid
      = some l) (ha : l.addr6 = a)
  | bound (h : (LeaseDb.findV6ByClidIaid ctx.order (extractClientId pkt) iaid a).isSome)
  | believed (hmsg : pkt.msgType = .rebind) (hauth : ctx.authoritative) {iaData : Bytes}
      (hia : extractIa pkt = some (iaData, iaid)) (haddr : iaNaFirstAddr iaData = some a)
      (hrange : isPlausible ctx a)

theorem not_inUse_of_address6Allocate {contexts : List DhcpContext6}
    (h : address6Allocate contexts clid iaid netids inUse = some a) : inUse a = false := by
  obtain ⟨c, -, hscan⟩ := List.exists_of_findSome?_eq_some h
  have hloop (fuel : ℕ) (first host : UInt64)
    (h : scan6 contexts inUse c first fuel host = some a) :
      inUse a = false := by
    induction fuel generalizing host with
    | zero => cases h
    | succ fuel ih =>
      unfold scan6 at h
      extract_lets candidate next at h
      split at h
      · next hfree =>
        obtain rfl := some.inj h
        exact (Bool.not_eq_true' _).mp (Bool.and_eq_true_iff.mp hfree).2
      · split at h
        · cases h
        · exact ih _ h
  exact hloop _ _ _ hscan

theorem grantable_of_select
    (h : selectAddressForIa ctx (extractClientId pkt) iaid requested = some a) :
    Grantable pkt ctx iaid a := by
  obtain hreq | ⟨-, h⟩ := (orElse_eq_some _ _ _).mp h
  · obtain ⟨-, hcheck⟩ := filter_eq_some_iff.mp hreq
    exact .checked (Bool.and_eq_true_iff.mp hcheck).2
  · obtain hheld | ⟨-, hfree⟩ := (orElse_eq_some _ _ _).mp h
    · obtain ⟨hmap, -⟩ := filter_eq_some_iff.mp hheld
      obtain ⟨l, hl, ha⟩ := map_eq_some_iff.mp hmap
      exact .held hl ha
    · -- an address without a lease passes the check as well
      have hnone := (Bool.or_eq_false_iff.mp (not_inUse_of_address6Allocate hfree)).1
      apply Grantable.checked
      unfold checkAddress
      rw [isSome_eq_false_iff.mp hnone |> isNone_iff_eq_none.mp]

theorem not_heldByOther (h : Unique6 db.store) (hl : db.store.get k = some l) (ha : l.isV6For a)
    (hown : l.clid = some clid ∧ l.iaid = iaid) : ¬ HeldByOther db clid iaid a nowSecs := by
  rintro ⟨k', l', hl', ha', -, hnot⟩
  obtain rfl := h k' k l' l a hl' hl ha' ha
  obtain rfl := some.inj (hl'.symm.trans hl)
  exact hnot hown

/-- **A grant that is not believed** is of an address that no other client has. -/
theorem believed_of_heldByOther (h : Unique6 ctx.leaseDb.store)
    (horder : ctx.leaseDb.Iterates ctx.order) (hgrant : Grantable pkt ctx iaid a)
    (hother : HeldByOther ctx.leaseDb (extractClientId pkt) iaid a ctx.nowSecs) :
    pkt.msgType = .rebind ∧ ctx.authoritative ∧ ∃ iaData, extractIa pkt = some (iaData, iaid)
      ∧ iaNaFirstAddr iaData = some a ∧ isPlausible ctx a := by
  cases hgrant with
  | checked hcheck =>
    unfold checkAddress LeaseDb.findV6ByAddr at hcheck
    cases he : ctx.order.find? fun e => e.2.isV6For a with
    | none =>
      obtain ⟨k, l, hl, ha, -⟩ := hother
      cases (not_isV6For_of_find? horder he hl).symm.trans ha
    | some e =>
      rw [he] at hcheck
      obtain ⟨hget, ha⟩ := horder.get_of_find? he
      have hown := (Bool.and_eq_true_iff.mp hcheck).imp of_decide_eq_true of_decide_eq_true
      exact (not_heldByOther h hget ha hown hother).elim
  | held hfind ha' =>
    obtain ⟨e, he, rfl⟩ := map_eq_some_iff.mp hfind
    obtain ⟨hget, hown⟩ := LeaseDb.Iterates.get_of_find?
      (p := fun l => l.isV6 && l.iaid = iaid && l.clid = some (extractClientId pkt)) horder he
    simp only [Bool.and_eq_true, decide_eq_true_eq] at hown
    have ha : e.2.isV6For a := Bool.and_eq_true_iff.mpr ⟨hown.1.1, decide_eq_true ha'⟩
    exact (not_heldByOther h hget ha ⟨hown.2, hown.1.2⟩ hother).elim
  | bound hbound =>
    obtain ⟨l, hl⟩ := isSome_iff_exists.mp hbound
    obtain ⟨e, he, rfl⟩ := map_eq_some_iff.mp hl
    obtain ⟨hget, hown⟩ := LeaseDb.Iterates.get_of_find?
      (p := fun l => l.isBoundTo (extractClientId pkt) iaid a) horder he
    have ha := isV6For_of_isBoundTo hown
    unfold DhcpLease.isBoundTo at hown
    simp only [Bool.and_eq_true, decide_eq_true_eq] at hown
    exact (not_heldByOther h hget ha ⟨hown.2, hown.1.2⟩ hother).elim
  | believed hmsg hauth hia haddr hrange => exact ⟨hmsg, hauth, _, hia, haddr, hrange⟩

/-! ### What a dispatch does -/

/-- **What a dispatch can do**: leave the leases as they are, remove the client's lease, or bind an
address. -/
inductive Effect6 (pkt : Dhcp6Packet) (duid : Bytes) (ctx : Dhcp6RequestContext) :
    Outcome6 → Prop where
  | idle {reply : Option Dhcp6Reply} (h : ∀ a, ¬ Assigns pkt duid reply a) :
      Effect6 pkt duid ctx (reply, ctx.leaseDb)
  | release {reply : Option Dhcp6Reply} (iaid : UInt32) (addr : Ipv6Addr)
      (h : ∀ a, ¬ Assigns pkt duid reply a) :
      Effect6 pkt duid ctx
        (reply, (ctx.leaseDb.removeV6ByClidIaidAddr ctx.order (extractClientId pkt) iaid addr).2)
  | bind {iaData : Bytes} {iaid : UInt32} {addr : Ipv6Addr} {reply : Dhcp6Reply} {times : Times}
      {db : LeaseDb}
      (hia : extractIa pkt = some (iaData, iaid)) (hgrant : Grantable pkt ctx iaid addr)
      (hdb : persistLease ctx (extractClientId pkt) iaid addr = .ok (times, db))
      (hreply : ∀ a, Assigns pkt duid (some reply) a → a = addr ∧ times.valid ≠ 0) :
      Effect6 pkt duid ctx (some reply, db)

theorem checked_of_requestStatus (h : requestStatus ctx clid iaid a = none) :
    checkAddress ctx clid iaid a := by
  unfold requestStatus at h
  dsimp only at h
  split at h
  · split at h
    · cases h
    · split at h
      · cases h
      · next hcheck => simpa using hcheck
  · cases h

theorem snd_dispatchReleaseOrDecline : (dispatchReleaseOrDecline pkt duid db order isDecline).2 = db
      ∨ ∃ iaid addr, (dispatchReleaseOrDecline pkt duid db order isDecline).2 =
        (db.removeV6ByClidIaidAddr order (extractClientId pkt) iaid addr).2 := by
  unfold dispatchReleaseOrDecline
  extract_lets clientId _ named
  generalize named = named
  cases named with
  | none => exact .inl rfl
  | some who =>
    refine .inr ⟨who.1, who.2, ?_⟩
    show _ = (db.removeV6ByClidIaidAddr order clientId who.1 who.2).2
    dsimp only
    generalize db.removeV6ByClidIaidAddr order clientId who.1 who.2 = removed
    obtain ⟨found, db'⟩ := removed
    cases found <;> rfl

theorem effect6_dispatchReleaseOrDecline :
    Effect6 pkt duid ctx (dispatchReleaseOrDecline pkt duid ctx.leaseDb ctx.order isDecline) := by
  have hno (a : Ipv6Addr) :
      ¬ Assigns pkt duid (dispatchReleaseOrDecline pkt duid ctx.leaseDb ctx.order isDecline).1 a :=
    not_assigns_dispatchReleaseOrDecline
  rw [← Prod.mk.eta (p := dispatchReleaseOrDecline pkt duid ctx.leaseDb ctx.order isDecline)]
  obtain h | ⟨iaid, addr, h⟩ := snd_dispatchReleaseOrDecline
  · rw [h]
    exact .idle hno
  · rw [h]
    exact .release iaid addr hno

/-- The address that a packet leads the server to bind can be granted. -/
theorem grantable_of_toBind (h : toBind pkt ctx = some (iaid, a)) :
    ∃ iaData, extractIa pkt = some (iaData, iaid) ∧ Grantable pkt ctx iaid a := by
  obtain ⟨⟨iaData, i⟩, hia, h⟩ := bind_eq_some_iff.mp h
  obtain ⟨b, hfor, hpair⟩ := map_eq_some_iff.mp h
  obtain ⟨rfl, rfl⟩ := Prod.mk.inj hpair
  refine ⟨iaData, hia, ?_⟩
  have hextend {isRebind : Bool} (hmsg : isRebind → pkt.msgType = .rebind)
      (h : (iaNaFirstAddr iaData).filter (toExtend ctx (extractClientId pkt) i isRebind) = some b) :
      Grantable pkt ctx i b := by
    obtain ⟨haddr, hext⟩ := filter_eq_some_iff.mp h
    simp only [toExtend, Bool.and_eq_true, Bool.or_eq_true] at hext
    obtain ⟨hrange, hbound | ⟨hrebind, hauth⟩⟩ := hext
    · exact .bound hbound
    · exact .believed (hmsg hrebind) hauth hia haddr hrange
  unfold toBindFor at hfor
  cases hmsg : pkt.msgType with
  | solicit =>
    simp only [hmsg, ite_none_right_eq_some] at hfor
    exact grantable_of_select hfor.2
  | request =>
    simp only [hmsg] at hfor
    cases haddr : iaNaFirstAddr iaData with
    | none =>
      rw [haddr] at hfor
      exact grantable_of_select hfor
    | some reqAddr =>
      simp only [haddr, ite_none_right_eq_some, isNone_iff_eq_none] at hfor
      obtain ⟨hstatus, hreq⟩ := hfor
      obtain rfl := some.inj hreq
      exact .checked (checked_of_requestStatus hstatus)
  | renew =>
    rw [hmsg] at hfor
    refine hextend ?_ hfor
    nofun
  | rebind =>
    rw [hmsg] at hfor
    exact hextend (fun _ => hmsg) hfor
  | _ =>
    rw [hmsg] at hfor
    cases hfor

/-- **The effect of `dispatch_dhcp6`**. -/
theorem effect6_of_dispatch (h : dispatchDhcp6 pkt duid ctx = .ok outcome) :
    Effect6 pkt duid ctx outcome := by
  cases binding_of_dispatch h with
  | bind hbind hdb hreply =>
    obtain ⟨iaData, hia, hgrant⟩ := grantable_of_toBind hbind
    exact .bind hia hgrant hdb fun a => hreply.assigns_iff.mp
  | idle hbind hreply hdb =>
    have hidle (hsame : outcome.2 = ctx.leaseDb) : Effect6 pkt duid ctx outcome := by
      obtain ⟨reply, db⟩ := outcome
      obtain rfl : db = ctx.leaseDb := hsame
      exact .idle hreply
    unfold dispatchDhcp6 at h
    cases hmsg : pkt.msgType with
    | solicit | request | renew | rebind => exact hidle (hdb (congrArg canBind hmsg))
    | release | decline =>
      rw [hmsg] at h
      obtain rfl := Except.ok.inj h
      exact effect6_dispatchReleaseOrDecline
    | _ =>
      rw [hmsg] at h
      obtain rfl := Except.ok.inj h
      exact hidle rfl

/-! ### Runs -/

/-- The leases, and the time of the last packet. -/
structure State6 where
  db : LeaseDb
  clock : UInt64 := 0

/-- A packet, with the order the leases are gone through and the time. -/
structure Event6 where
  pkt : Dhcp6Packet
  duid : Bytes
  order : LeaseDb.Entries
  authoritative : Bool
  nowSecs : UInt64

section Runs

variable (contexts : List DhcpContext6) (configs : List DhcpConfig6)

/-- What the handlers read when the packet comes in. -/
def Event6.context (ev : Event6) (st : State6) : Dhcp6RequestContext where
  contexts
  configs
  leaseDb := st.db
  order := ev.order
  authoritative := ev.authoritative
  nowSecs := ev.nowSecs

/-- One `dispatch_dhcp6`, or `none` if it panics. -/
def step6 (st : State6) (ev : Event6) : Option State6 :=
  (dispatchDhcp6 ev.pkt ev.duid (ev.context contexts configs st)).toOption.map fun r =>
    { db := r.2, clock := ev.nowSecs }

/-- The leases of the table are gone through, and time does not go back. -/
structure Event6.Admissible (st : State6) (ev : Event6) : Prop where
  order : st.db.Iterates ev.order
  clock : st.clock ≤ ev.nowSecs

/-- The states that packets lead to from an empty table. -/
def Reachable6 (st : State6) : Prop :=
  ∃ maxLeases,
    Run.Reaches (step6 contexts configs) (fun st ev => ev.Admissible st) { db := { maxLeases } } st

end Runs

variable {contexts : List DhcpContext6} {configs : List DhcpConfig6} {st : State6} {ev : Event6}

theorem Effect6.unique6 (h : Effect6 pkt duid ctx outcome) (hdb : Unique6 ctx.leaseDb.store)
    (horder : ctx.leaseDb.Iterates ctx.order) : Unique6 outcome.2.store := by
  cases h with
  | idle => exact hdb
  | release iaid addr => exact hdb.removeV6 _ _ _ _
  | bind _ _ hpersist =>
    obtain ⟨expires, -, h⟩ := bind_eq_ok.mp hpersist
    obtain ⟨-, rfl⟩ := Prod.mk.inj (Except.ok.inj h)
    exact hdb.bindV6 horder _ _ _ _ _

theorem Reachable6.unique6 (h : Reachable6 contexts configs st) : Unique6 st.db.store := by
  obtain ⟨maxLeases, hrun⟩ := h
  apply hrun.invariant (I := fun st => Unique6 st.db.store) unique6_empty
  intro st ev st' hst hev hstep
  obtain ⟨outcome, hout, rfl⟩ := map_eq_some_iff.mp hstep
  exact (effect6_of_dispatch (toOption_eq_some.mp hout)).unique6 hst hev.order

/-- An authoritative server gets a Rebind for an address of its ranges, whose lifetime is not zero,
that another client has. -/
def TakesOver (pkt : Dhcp6Packet) (ctx : Dhcp6RequestContext) : Prop :=
  pkt.msgType = .rebind ∧ ctx.authoritative ∧ ∃ iaData iaid a, extractIa pkt = some (iaData, iaid)
    ∧ iaNaFirstAddr iaData = some a ∧ isPlausible ctx a
    ∧ (computeTimesForAddr ctx.contexts a).valid ≠ 0
    ∧ HeldByOther ctx.leaseDb (extractClientId pkt) iaid a ctx.nowSecs

/-- **No address is assigned that another client has**. -/
def KeepsOthers (pkt : Dhcp6Packet) (duid : Bytes) (ctx : Dhcp6RequestContext)
    (reply : Option Dhcp6Reply) : Prop :=
  ∀ a, Assigns pkt duid reply a → ∀ iaData iaid, extractIa pkt = some (iaData, iaid) →
    ¬ HeldByOther ctx.leaseDb (extractClientId pkt) iaid a ctx.nowSecs

theorem assigns_of_takesOver (htakes : TakesOver pkt ctx)
    (h : dispatchDhcp6 pkt duid ctx = .ok outcome) :
    ∃ iaData iaid a, extractIa pkt = some (iaData, iaid) ∧ Assigns pkt duid outcome.1 a
      ∧ HeldByOther ctx.leaseDb (extractClientId pkt) iaid a ctx.nowSecs := by
  obtain ⟨hmsg, hauth, iaData, iaid, a, hia, haddr, hrange, hvalid, hother⟩ := htakes
  refine ⟨iaData, iaid, a, hia, ?_, hother⟩
  have hbind : toBind pkt ctx = some (iaid, a) := by
    simp [toBind, toBindFor, toExtend, hia, hmsg, haddr, hrange, hauth]
  cases binding_of_dispatch h with
  | idle hno => cases hno.symm.trans hbind
  | bind hbind' hpersist hreply =>
    obtain ⟨rfl, rfl⟩ := Prod.mk.inj (some.inj (hbind'.symm.trans hbind))
    obtain ⟨expires, -, hpair⟩ := bind_eq_ok.mp hpersist
    obtain ⟨rfl, -⟩ := Prod.mk.inj (Except.ok.inj hpair)
    exact hreply.assigns_iff.mpr ⟨rfl, hvalid⟩

/-- **No address is assigned that another client has** exactly if an authoritative server gets no
Rebind for one. -/
theorem keepsOthers_iff (hreach : Reachable6 contexts configs st) (hev : ev.Admissible st)
    (h : dispatchDhcp6 ev.pkt ev.duid (ev.context contexts configs st) = .ok outcome) :
    KeepsOthers ev.pkt ev.duid (ev.context contexts configs st) outcome.1 ↔
      ¬ TakesOver ev.pkt (ev.context contexts configs st) := by
  have hdb : Unique6 (ev.context contexts configs st).leaseDb.store := hreach.unique6
  constructor
  · intro hkeeps htakes
    obtain ⟨iaData, iaid, a, hia, hassigns, hother⟩ := assigns_of_takesOver htakes h
    exact hkeeps a hassigns iaData iaid hia hother
  · intro hnot a hassigns iaData iaid hia hother
    cases effect6_of_dispatch h with
    | idle hidle | release _ _ hidle => exact hidle a hassigns
    | bind hia' hgrant hpersist hreply =>
      obtain ⟨rfl, hvalid⟩ := hreply a hassigns
      obtain ⟨rfl, rfl⟩ := Prod.mk.inj (some.inj (hia.symm.trans hia'))
      obtain ⟨hmsg, hauth, iaData', hia'', haddr, hrange⟩ :=
        believed_of_heldByOther hdb hev.order hgrant hother
      obtain ⟨expires, -, hpair⟩ := bind_eq_ok.mp hpersist
      obtain ⟨rfl, -⟩ := Prod.mk.inj (Except.ok.inj hpair)
      exact hnot ⟨hmsg, hauth, iaData', iaid, a, hia'', haddr, hrange, hvalid, hother⟩

/-! ### A Rebind for the address of another client -/

def sampleAddr6 (host : UInt8) : Ipv6Addr :=
  ⟨#v[0x20, 1, 0x0d, 0xb8, 0, 0, 0, 0, 0, 0, 0, 0, 0, 0, 0, host]⟩

def sampleContext6 : DhcpContext6 where
  leaseTime := 3600
  start := .unspecified
  finish := .unspecified
  start6 := sampleAddr6 16
  end6 := sampleAddr6 31
  pfx := 64

/-- A client asks for an address, with its number as client ID and IAID. -/
def samplePacket6 (msgType : Dhcp6MsgType) (client host : UInt8) : Dhcp6Packet where
  msgType
  xid := 1
  options := [0, 1, 0, 1, client] ++ [0, 3, 0, 40, 0, 0, 0, client, 0, 0, 0, 0, 0, 0, 0, 0]
    ++ [0, 5, 0, 24] ++ (sampleAddr6 host).octets.toList ++ [0, 0, 0, 0, 0, 0, 0, 0]

/-- The client's message comes in at an authoritative server. -/
def sampleEvent6 (st : State6) (msgType : Dhcp6MsgType) (client host : UInt8) : Event6 where
  pkt := samplePacket6 msgType client host
  duid := [0, 3]
  order := st.db.store.entries.entries
  authoritative := true
  nowSecs := 1000

theorem admissible_sampleEvent6 (hclock : st.clock ≤ 1000) :
    (sampleEvent6 st msgType client host).Admissible st :=
  ⟨List.Perm.refl _, hclock⟩

/-- The second client sends a Rebind for the address of the first. -/
def rebindEvent6 (st : State6) : Event6 := sampleEvent6 st .rebind 2 16

/-- The first client has got the address, and the Rebind of the second one is answered. -/
theorem exists_takeover :
    ∃ st outcome, Reachable6 [sampleContext6] [] st ∧ (rebindEvent6 st).Admissible st
    ∧ dispatchDhcp6 (rebindEvent6 st).pkt (rebindEvent6 st).duid
      ((rebindEvent6 st).context [sampleContext6] [] st) =
      .ok outcome
        ∧ TakesOver (rebindEvent6 st).pkt ((rebindEvent6 st).context [sampleContext6] [] st) := by
  have hrun :
      ((step6 [sampleContext6] [] { db := {} } (sampleEvent6 { db := {} } .request 1 16)).any
        fun st =>
      st.clock ≤ 1000 && ((dispatchDhcp6 (rebindEvent6 st).pkt (rebindEvent6 st).duid
          ((rebindEvent6 st).context [sampleContext6] [] st)).toOption.any fun _ =>
        st.db.store.entries.entries.any fun e => e.2.isV6For (sampleAddr6 16)
          && (e.2.expires.all fun e => fromSecs 1000 < e) && e.2.iaid ≠ 2)) := by decide +kernel
  have hnamed : ((extractIa (samplePacket6 .rebind 2 16)).any fun ia =>
      ia.2 = 2 && iaNaFirstAddr ia.1 = some (sampleAddr6 16)) := by decide +kernel
  have havailable : address6Available [sampleContext6] (sampleAddr6 16) := by decide +kernel
  have hvalid :
      (computeTimesForAddr [sampleContext6] (sampleAddr6 16)).valid ≠ 0 := by decide +kernel
  obtain ⟨st, hstep, hfacts⟩ := (any_eq_true _ _).mp hrun
  rw [Bool.and_eq_true, decide_eq_true_eq] at hfacts
  obtain ⟨hclock, hfacts⟩ := hfacts
  obtain ⟨outcome, hout, hheld⟩ := (any_eq_true _ _).mp hfacts
  obtain ⟨e, he, hheld⟩ := List.any_eq_true.mp hheld
  obtain ⟨⟨iaData, iaid⟩, hia, hnamed⟩ := (any_eq_true _ _).mp hnamed
  simp only [Bool.and_eq_true, decide_eq_true_eq] at hheld hnamed
  obtain ⟨⟨hfor, hexp⟩, hiaid⟩ := hheld
  obtain ⟨rfl, haddr⟩ := hnamed
  have hother :
      HeldByOther st.db (extractClientId (samplePacket6 .rebind 2 16)) 2 (sampleAddr6 16) 1000 := by
    refine ⟨e.1, e.2, AList.mem_lookup_iff.mpr he, hfor, ?_, fun hown => hiaid hown.2⟩
    intro t ht
    rw [ht] at hexp
    exact of_decide_eq_true hexp
  exact ⟨st, outcome, ⟨1000, .tail .refl (admissible_sampleEvent6 (by decide)) hstep⟩,
    admissible_sampleEvent6 hclock, toOption_eq_some.mp hout, rfl, rfl, iaData, 2, sampleAddr6 16,
      hia, haddr,
    Bool.or_eq_true_iff.mpr (.inl havailable), hvalid, hother⟩

theorem keepsOthers_iff_rebind : ∃ st outcome,
    dispatchDhcp6 (rebindEvent6 st).pkt (rebindEvent6 st).duid
      ((rebindEvent6 st).context [sampleContext6] [] st) =
      .ok outcome ∧ (KeepsOthers (rebindEvent6 st).pkt (rebindEvent6 st).duid
        ((rebindEvent6 st).context [sampleContext6] [] st) outcome.1
      ↔ ¬ TakesOver (rebindEvent6 st).pkt ((rebindEvent6 st).context [sampleContext6] [] st)) := by
  obtain ⟨st, outcome, hreach, hev, hdisp, -⟩ := exists_takeover
  exact ⟨st, outcome, hdisp, keepsOthers_iff hreach hev hdisp⟩

/-- The second client is assigned the address while the lease of the first has not expired. -/
theorem not_keepsOthers_rebind :
    ∃ st outcome, Reachable6 [sampleContext6] [] st ∧ (rebindEvent6 st).Admissible st
    ∧ dispatchDhcp6 (rebindEvent6 st).pkt (rebindEvent6 st).duid
        ((rebindEvent6 st).context [sampleContext6] [] st) = .ok outcome
    ∧ ¬ KeepsOthers (rebindEvent6 st).pkt (rebindEvent6 st).duid
        ((rebindEvent6 st).context [sampleContext6] [] st) outcome.1 := by
  obtain ⟨st, outcome, hreach, hev, hdisp, htakes⟩ := exists_takeover
  refine ⟨st, outcome, hreach, hev, hdisp, ?_⟩
  intro hkeeps
  obtain ⟨iaData, iaid, a, hia, hassigns, hother⟩ := assigns_of_takesOver htakes hdisp
  exact hkeeps a hassigns iaData iaid hia hother

end DnsmasqRs.Dhcp6
