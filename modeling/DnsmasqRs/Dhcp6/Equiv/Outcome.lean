import DnsmasqRs.Dhcp.Equiv.LeaseTable
import DnsmasqRs.Dhcp6.Dispatch

/-!
# What a DHCPv6 packet leads the server to do

`readIaaddr` is what a client reads from a reply: the first address of the first IA_NA.  `toBind` is
the address a packet leads the server to bind, and `binding_of_dispatch` says that every handler
binds this address, puts it into its reply and does nothing else to the table.
-/

namespace DnsmasqRs.Dhcp6

open Wire Utf8 Dhcp Fallible List Option

/-! ### Reading options -/

section Options

variable {code c : UInt16} {d rest : Bytes}

theorem findOption6Loop_eq (h : b.length ≤ fuel) :
    findOption6Loop code fuel b = findOption6 b code := by
  have hsame (m n : ℕ) (b : Bytes) (hm : b.length ≤ m) (hn : b.length ≤ n) :
      findOption6Loop code m b = findOption6Loop code n b := by
    induction m generalizing n b with
    | zero =>
      obtain rfl := eq_nil_of_length_eq_zero (Nat.le_zero.mp hm)
      cases n <;> rfl
    | succ m ih =>
      match b, n with
      | [], n | [_], n | [_, _], n | [_, _, _], n => cases n <;> rfl
      | _ :: _ :: _ :: _ :: _, 0 => cases hn
      | c₀ :: c₁ :: l₀ :: l₁ :: rest, n + 1 =>
        unfold findOption6Loop
        dsimp only
        rw [ih n]
        · simp only [length_cons, length_drop] at hm ⊢
          omega
        · simp only [length_cons, length_drop] at hn ⊢
          omega
  exact hsame fuel b.length b h le_rfl

theorem findOption6_cons : findOption6 (c₀ :: c₁ :: l₀ :: l₁ :: b) code =
      if b.length < (ofBe16 l₀ l₁).toNat then none else if ofBe16 c₀ c₁ = code then
        some (b.take (ofBe16 l₀ l₁).toNat)
      else findOption6 (b.drop (ofBe16 l₀ l₁).toNat) code := by
  have hlen : (b.drop (ofBe16 l₀ l₁).toNat).length ≤ b.length + 3 := by
    rw [length_drop]
    omega
  rw [← findOption6Loop_eq hlen]
  rfl

/-- **An option that was written is found** by its code, and passed over for any other. -/
theorem findOption6_buildOption6 (h : d.length < 65536) :
    findOption6 (buildOption6 c d ++ rest) code = if c = code then some d
      else findOption6 rest code := by
  have hbytes :
      buildOption6 c d ++ rest = UInt8.ofNat (c.toNat / 256) :: UInt8.ofNat (c.toNat % 256)
        :: UInt8.ofNat ((UInt16.ofNat d.length).toNat / 256)
          :: UInt8.ofNat ((UInt16.ofNat d.length).toNat % 256)
        :: (d ++ rest) := by
    simp [buildOption6, be16]
  have hlen : ¬ (d ++ rest).length < d.length := by
    rw [length_append]
    omega
  rw [hbytes, findOption6_cons, ofBe16_be16, ofBe16_be16, toNat_ofNat_of_lt h, if_neg hlen,
    take_left, drop_left]

theorem findOption6_alone (h : d.length < 65536) :
    findOption6 (buildOption6 c d) code = if c = code then some d else none := by
  rw [← append_nil (buildOption6 c d), findOption6_buildOption6 h]
  rfl

/-- The address and the valid lifetime a client reads from options. -/
def readIaaddr (options : Bytes) : Option (Ipv6Addr × UInt32) := do
  let iaData ← findOption6 options option6IaNa
  let iaaddr ← findOption6 (iaData.drop 12) option6Iaaddr
  let addr ← Ipv6Addr.ofBytes iaaddr
  match iaaddr.drop 20 with
  | a :: b :: c :: d :: _ => some (addr, ofBe32 a b c d)
  | _ => none

theorem readIaaddr_nil : readIaaddr [] = none := rfl

theorem readIaaddr_buildOption6 (hne : c ≠ option6IaNa) (h : d.length < 65536) :
    readIaaddr (buildOption6 c d ++ rest) = readIaaddr rest := by
  unfold readIaaddr
  rw [findOption6_buildOption6 h, if_neg hne]

variable {message : String}

theorem readIaaddr_statusOption (h : (bytes message.toList).length < 65534) :
    readIaaddr (statusOption code message ++ rest) = readIaaddr rest := by
  apply readIaaddr_buildOption6
  · decide
  · rw [length_append, length_be16]
    omega

theorem readIaaddr_statusOption_alone (h : (bytes message.toList).length < 65534) :
    readIaaddr (statusOption code message) = none := by
  rw [← append_nil (statusOption _ _), readIaaddr_statusOption h, readIaaddr_nil]

theorem ofBytes_octets : Ipv6Addr.ofBytes (a.octets.toList ++ rest) = some a := by
  have hlen : 16 ≤ (a.octets.toList ++ rest).length := by simp
  unfold Ipv6Addr.ofBytes
  simp [Vector.toList]

theorem readIaaddr_buildIaNaOption (h : sub.length < 65000) :
    readIaaddr (buildIaNaOption iaid t1 t2 sub ++ rest) =
      (findOption6 sub option6Iaaddr).bind fun iaaddr => (Ipv6Addr.ofBytes iaaddr).bind fun addr =>
        match iaaddr.drop 20 with
        | a :: b :: c :: d :: _ => some (addr, ofBe32 a b c d)
        | _ => none := by
  have hlen : (be32 iaid ++ be32 t1 ++ be32 t2 ++ sub).length < 65536 := by
    simp only [length_append, length_be32]
    omega
  have hdrop : (be32 iaid ++ be32 t1 ++ be32 t2 ++ sub).drop 12 = sub := by
    apply drop_left'
    simp
  unfold readIaaddr buildIaNaOption
  rw [findOption6_buildOption6 hlen]
  show (findOption6 (List.drop 12 _) option6Iaaddr).bind _ = _
  rfl

/-- **The address in an IA_NA that was written is read back** with its lifetime. -/
theorem readIaaddr_iaaddr (iaid t1 t2 : UInt32) (a : Ipv6Addr) (preferred valid : UInt32)
    (rest : Bytes) :
    readIaaddr (buildIaNaOption iaid t1 t2 (iaaddrSuboption a preferred valid) ++ rest)
      = some (a, valid) := by
  have hlen : (a.octets.toList ++ be32 preferred ++ be32 valid).length < 65536 := by simp
  have hsub :
      (iaaddrSuboption a preferred valid).length < 65000 := by simp [iaaddrSuboption, buildOption6]
  have hvalid : (a.octets.toList ++ (be32 preferred ++ be32 valid)).drop 20 = be32 valid := by
    rw [← append_assoc]
    apply drop_left'
    simp
  rw [readIaaddr_buildIaNaOption hsub, iaaddrSuboption, findOption6_alone hlen, if_pos rfl,
    bind_some, append_assoc, ofBytes_octets, bind_some, hvalid]
  exact congrArg (fun v => some (a, v)) (ofBe32_be32)

theorem readIaaddr_status (h : (bytes message.toList).length < 64000) (iaid t1 t2 : UInt32)
    (rest : Bytes) :
    readIaaddr (buildIaNaOption iaid t1 t2 (statusOption code message) ++ rest) = none := by
  have hlen : (be16 code ++ bytes message.toList).length < 64100 := by
    rw [length_append, length_be16]
    omega
  have hsub : (statusOption code message).length < 65000 := by
    simp only [statusOption, buildOption6, length_append, length_be16] at hlen ⊢
    omega
  rw [readIaaddr_buildIaNaOption hsub, statusOption, findOption6_alone (by omega)]
  rfl

end Options

variable {db : LeaseDb} {a addr : Ipv6Addr} {clid duid : Bytes} {iaid : UInt32}
  {pkt : Dhcp6Packet} {ctx : Dhcp6RequestContext} {reply : Dhcp6Reply} {outcome : Outcome6}

/-! ### What a reply assigns -/

/-- **The reply assigns the address**: it is a Reply, and behind the two IDs it has an IA_NA with
the address and a valid lifetime that is not zero. -/
def Assigns (pkt : Dhcp6Packet) (duid : Bytes) (reply : Option Dhcp6Reply) (a : Ipv6Addr) : Prop :=
  ∃ r rest valid, reply = some r ∧ r.msgType = .reply
    ∧ r.options = replyHeader (extractClientId pkt) duid ++ rest
    ∧ readIaaddr rest = some (a, valid) ∧ valid ≠ 0

theorem assigns_iff {rest : Bytes}
    (hopt : reply.options = replyHeader (extractClientId pkt) duid ++ rest) :
    Assigns pkt duid (some reply) a ↔
      reply.msgType = .reply ∧ ∃ valid, readIaaddr rest = some (a, valid) ∧ valid ≠ 0 := by
  constructor
  · rintro ⟨r, rest', valid, hr, hmsg, hopt', hread, hvalid⟩
    obtain rfl := some.inj hr
    obtain rfl := append_cancel_left (hopt'.symm.trans hopt)
    exact ⟨hmsg, valid, hread, hvalid⟩
  · rintro ⟨hmsg, valid, hread, hvalid⟩
    exact ⟨reply, rest, valid, rfl, hmsg, hopt, hread, hvalid⟩

theorem not_assigns {rest : Bytes}
    (hopt : reply.options = replyHeader (extractClientId pkt) duid ++ rest)
    (hread : readIaaddr rest = none) : ¬ Assigns pkt duid (some reply) a := by
  rw [assigns_iff hopt, hread]
  rintro ⟨-, valid, h, -⟩
  cases h

theorem not_assigns_none : ¬ Assigns pkt duid none a := by
  rintro ⟨r, _, _, hr, -⟩
  cases hr

theorem length_requestStatus (h : requestStatus ctx clid iaid a = some st) :
    (bytes st.2.toList).length < 64000 := by
  unfold requestStatus at h
  dsimp only at h
  split at h
  · split at h
    · obtain rfl := some.inj h
      decide
    · split at h
      · obtain rfl := some.inj h
        decide
      · cases h
  · obtain rfl := some.inj h
    decide

theorem not_assigns_status {code : UInt16} (hlen : (bytes message.toList).length < 64000)
    (hopt : reply.options = replyHeader (extractClientId pkt) duid
      ++ buildIaNaOption iaid 0 0 (statusOption code message) ++ status) :
        ¬ Assigns pkt duid (some reply) a := by
  rw [append_assoc] at hopt
  exact not_assigns hopt (readIaaddr_status hlen _ _ _ _)

theorem not_assigns_dispatchReleaseOrDecline :
    ¬ Assigns pkt duid (dispatchReleaseOrDecline pkt duid db order isDecline).1 a := by
  have hsuccess :
      readIaaddr (statusOption statusSuccess (if isDecline then "success" else "release received"))
        =
      none := by
    cases isDecline <;> decide
  unfold dispatchReleaseOrDecline
  extract_lets clientId _ named
  generalize named = named
  cases named with
  | none => exact not_assigns (append_assoc _ _ _) hsuccess
  | some who =>
    dsimp only
    generalize db.removeV6ByClidIaidAddr order clientId who.1 who.2 = removed
    obtain ⟨found, db'⟩ := removed
    cases found with
    | true => exact not_assigns (append_assoc _ _ _) hsuccess
    | false => exact not_assigns_status (by decide) rfl

theorem not_assigns_dispatchConfirm : ¬ Assigns pkt duid (dispatchConfirm pkt duid contexts) a := by
  rintro ⟨r, rest, valid, hr, -, hopt, hread, -⟩
  obtain ⟨ia, -, hr⟩ := bind_eq_some_iff.mp hr
  obtain ⟨addr, -, hr⟩ := bind_eq_some_iff.mp hr
  obtain rfl := some.inj hr
  obtain rfl := append_cancel_left hopt
  split at hread
  all_goals cases (readIaaddr_statusOption_alone (by decide)).symm.trans hread

theorem not_assigns_dispatchInforeq : ¬ Assigns pkt duid (dispatchInforeq pkt duid) a := by
  unfold dispatchInforeq
  split
  · exact not_assigns_none
  · exact not_assigns (append_nil _).symm readIaaddr_nil

/-! ### The address that is bound -/

/-- What a Renew or Rebind binds: an address of the ranges that the client has, or that an
authoritative server believes it had. -/
def toExtend (ctx : Dhcp6RequestContext) (clid : Bytes) (iaid : UInt32) (isRebind : Bool)
    (addr : Ipv6Addr) : Bool :=
  isPlausible ctx addr
    && ((LeaseDb.findV6ByClidIaid ctx.order clid iaid addr).isSome
      || (isRebind && ctx.authoritative))

/-- The address that is bound for an IA_NA. -/
def toBindFor (pkt : Dhcp6Packet) (ctx : Dhcp6RequestContext) (iaData : Bytes) (iaid : UInt32) :
    Option Ipv6Addr :=
  match pkt.msgType with
  | .solicit =>
    if (findOption6 pkt.options option6RapidCommit).isSome then
      selectAddressForIa ctx (extractClientId pkt) iaid (iaNaFirstAddr iaData)
    else none
  | .request =>
    match iaNaFirstAddr iaData with
    | none => selectAddressForIa ctx (extractClientId pkt) iaid none
    | some reqAddr =>
        if (requestStatus ctx (extractClientId pkt) iaid reqAddr).isNone then some reqAddr else none
  | .renew => (iaNaFirstAddr iaData).filter (toExtend ctx (extractClientId pkt) iaid false)
  | .rebind => (iaNaFirstAddr iaData).filter (toExtend ctx (extractClientId pkt) iaid true)
  | _ => none

/-- The IAID and the address that the packet leads the server to bind. -/
def toBind (pkt : Dhcp6Packet) (ctx : Dhcp6RequestContext) : Option (UInt32 × Ipv6Addr) :=
  (extractIa pkt).bind fun ia => (toBindFor pkt ctx ia.1 ia.2).map (ia.2, ·)

theorem toBind_eq (hia : extractIa pkt = some (iaData, iaid)) :
    toBind pkt ctx = (toBindFor pkt ctx iaData iaid).map (iaid, ·) := by
  rw [toBind, hia, bind_some]

/-- The IAID a client reads from options. -/
def readIaid (options : Bytes) : Option UInt32 :=
  (findOption6 options option6IaNa).bind fun
    | a :: b :: c :: d :: _ => some (ofBe32 a b c d)
    | _ => none

/-- **The reply grants the address**: it is a Reply, and behind the two IDs it has an IA_NA with the
IAID, and in it the address with a valid lifetime that is not zero. -/
def Grants (pkt : Dhcp6Packet) (duid : Bytes) (reply : Option Dhcp6Reply) (iaid : UInt32)
    (a : Ipv6Addr) (valid : UInt32) : Prop :=
  ∃ r rest, reply = some r ∧ r.msgType = .reply
    ∧ r.options = replyHeader (extractClientId pkt) duid ++ rest
    ∧ readIaid rest = some iaid ∧ readIaaddr rest = some (a, valid) ∧ valid ≠ 0

theorem Grants.assigns {reply : Option Dhcp6Reply} (h : Grants pkt duid reply iaid a valid) :
    Assigns pkt duid reply a := by
  obtain ⟨r, rest, hr, hmsg, hopt, -, hread, hvalid⟩ := h
  exact ⟨r, rest, valid, hr, hmsg, hopt, hread, hvalid⟩

/-- A Reply with the address in an IA_NA, which the Rapid Commit option may precede. -/
structure GrantReply (pkt : Dhcp6Packet) (duid : Bytes) (iaid : UInt32) (a : Ipv6Addr)
    (times : Times) (reply : Dhcp6Reply) : Prop where
  msgType : reply.msgType = .reply
  options : ∃ (rapid : Bool) (status : Bytes), reply.options
    = replyHeader (extractClientId pkt) duid
    ++ (if rapid then buildOption6 option6RapidCommit [] else [])
    ++ buildIaNaOption iaid times.t1 times.t2 (iaaddrSuboption a times.preferred times.valid)
    ++ status

theorem readIaid_buildIaNaOption (iaid t1 t2 : UInt32) (h : sub.length < 65000) (rest : Bytes) :
    readIaid (buildIaNaOption iaid t1 t2 sub ++ rest) = some iaid := by
  have hlen : (be32 iaid ++ be32 t1 ++ be32 t2 ++ sub).length < 65536 := by
    simp only [length_append, length_be32]
    omega
  unfold readIaid buildIaNaOption
  rw [findOption6_buildOption6 hlen]
  exact congrArg some (ofBe32_be32)

theorem findOption6_rapid (rapid : Bool) (b : Bytes) :
    findOption6 ((if rapid then buildOption6 option6RapidCommit [] else []) ++ b) option6IaNa =
      findOption6 b option6IaNa := by
  cases rapid with
  | false => rfl
  | true => exact (findOption6_buildOption6 (by decide)).trans (if_neg (by decide))

theorem GrantReply.exists_read (h : GrantReply pkt duid iaid addr times reply) :
    ∃ rest, reply.options = replyHeader (extractClientId pkt) duid ++ rest
      ∧ readIaid rest = some iaid
      ∧ readIaaddr rest = some (addr, times.valid) := by
  obtain ⟨rapid, status, hopt⟩ := h.options
  rw [append_assoc, append_assoc] at hopt
  have hsub : (iaaddrSuboption addr times.preferred times.valid).length < 65000 := by
    simp [iaaddrSuboption, buildOption6]
  refine ⟨_, hopt, ?_, ?_⟩
  · unfold readIaid
    rw [findOption6_rapid]
    exact readIaid_buildIaNaOption iaid times.t1 times.t2 hsub status
  · unfold readIaaddr
    rw [findOption6_rapid]
    exact readIaaddr_iaaddr iaid times.t1 times.t2 addr times.preferred times.valid status

theorem GrantReply.assigns_iff (h : GrantReply pkt duid iaid addr times reply) :
    Assigns pkt duid (some reply) a ↔ a = addr ∧ times.valid ≠ 0 := by
  obtain ⟨rest, hopt, -, haddr⟩ := h.exists_read
  rw [Dhcp6.assigns_iff hopt, haddr]
  constructor
  · rintro ⟨-, valid, hread, hvalid⟩
    obtain ⟨rfl, rfl⟩ := Prod.mk.inj (some.inj hread)
    exact ⟨rfl, hvalid⟩
  · rintro ⟨rfl, hvalid⟩
    exact ⟨h.msgType, times.valid, rfl, hvalid⟩

theorem GrantReply.grants_iff (h : GrantReply pkt duid iaid addr times reply) :
    Grants pkt duid (some reply) i a valid
      ↔ i = iaid ∧ a = addr ∧ valid = times.valid ∧ valid ≠ 0 := by
  obtain ⟨rest, hopt, hiaid, haddr⟩ := h.exists_read
  constructor
  · rintro ⟨r, rest', hr, -, hopt', hi, ha, hvalid⟩
    obtain rfl := some.inj hr
    obtain rfl := append_cancel_left (hopt'.symm.trans hopt)
    obtain ⟨rfl, rfl⟩ := Prod.mk.inj (some.inj (ha.symm.trans haddr))
    exact ⟨some.inj (hi.symm.trans hiaid), rfl, rfl, hvalid⟩
  · rintro ⟨rfl, rfl, rfl, hvalid⟩
    exact ⟨reply, rest, rfl, h.msgType, hopt, hiaid, haddr, hvalid⟩

/-- The messages that can bind an address. -/
def canBind : Dhcp6MsgType → Bool
  | .solicit | .request | .renew | .rebind => true
  | _ => false

/-- **What a dispatch does, exactly**: it binds the address of `toBind` and replies with it, or it
assigns nothing and leaves the table as it is, unless the message gives an address back. -/
inductive Binding (pkt : Dhcp6Packet) (duid : Bytes) (ctx : Dhcp6RequestContext) :
    Outcome6 → Prop where
  | idle {outcome : Outcome6} (hbind : toBind pkt ctx = none)
      (hreply : ∀ a, ¬ Assigns pkt duid outcome.1 a)
      (hdb : canBind pkt.msgType → outcome.2 = ctx.leaseDb) : Binding pkt duid ctx outcome
  | bind {iaid : UInt32} {a : Ipv6Addr} {times : Times} {reply : Dhcp6Reply} {db : LeaseDb}
      (hbind : toBind pkt ctx = some (iaid, a))
      (hdb : persistLease ctx (extractClientId pkt) iaid a = .ok (times, db))
      (hreply : GrantReply pkt duid iaid a times reply) : Binding pkt duid ctx (some reply, db)

/-- A reply of the shape a Solicit gets, for the address that is to be bound. -/
theorem binding_buildSolicitStyleReply {addr : Option Ipv6Addr}
    (hia : extractIa pkt = some (iaData, iaid)) (hbind : toBindFor pkt ctx iaData iaid = addr)
    (h : buildSolicitStyleReply pkt.xid duid (extractClientId pkt) iaid ctx addr true .reply rapid
      = .ok outcome) :
    Binding pkt duid ctx outcome := by
  cases addr with
  | none =>
    have hno : toBind pkt ctx = none := by rw [toBind_eq hia, hbind, map_none]
    obtain rfl := Except.ok.inj h
    refine .idle hno ?_ fun _ => rfl
    intro a
    apply not_assigns
    · rw [append_assoc, append_assoc]
    · unfold readIaaddr
      rw [findOption6_rapid rapid]
      exact readIaaddr_status (by decide) _ _ _ _
  | some b =>
    obtain ⟨⟨times, db⟩, hdb, h⟩ := bind_eq_ok.mp h
    obtain rfl := Except.ok.inj h
    refine .bind ?_ hdb ⟨rfl, rapid, _, rfl⟩
    rw [toBind_eq hia, hbind, map_some]

theorem toBind_eq_none (hia : extractIa pkt = none) : toBind pkt ctx = none := by
  rw [toBind, hia, bind_none]

theorem binding_noIaReply (hia : extractIa pkt = none)
    (h : (.ok (some (noIaReply type pkt.xid duid (extractClientId pkt)), ctx.leaseDb) : Except Fault
      _) = .ok outcome) :
    Binding pkt duid ctx outcome := by
  obtain rfl := Except.ok.inj h
  refine .idle (toBind_eq_none hia) ?_ fun _ => rfl
  exact fun a => not_assigns rfl (readIaaddr_statusOption_alone (by decide))

theorem binding_dispatchSolicit (hmsg : pkt.msgType = .solicit)
    (h : dispatchSolicit pkt duid ctx = .ok outcome) :
    Binding pkt duid ctx outcome := by
  unfold dispatchSolicit at h
  extract_lets clientId rapidCommit replyType at h
  cases hia : extractIa pkt with
  | none =>
    rw [hia] at h
    exact binding_noIaReply hia h
  | some ia =>
    rw [hia] at h
    obtain ⟨iaData, iaid⟩ := ia
    have hbind : toBindFor pkt ctx iaData iaid =
        if rapidCommit then selectAddressForIa ctx clientId iaid (iaNaFirstAddr iaData)
          else none := by
      unfold toBindFor
      rw [hmsg]
    by_cases hrapid : rapidCommit
    · rw [if_pos hrapid] at hbind
      have htype : replyType = .reply := if_pos hrapid
      rw [hrapid, htype] at h
      exact binding_buildSolicitStyleReply hia hbind h
    · -- an Advertise binds nothing
      rw [if_neg hrapid] at hbind
      have htype : replyType = .advertise := if_neg hrapid
      dsimp only at h
      rw [Bool.eq_false_iff.mpr hrapid, htype] at h
      have hno : toBind pkt ctx = none := by rw [toBind_eq hia, hbind, map_none]
      generalize selectAddressForIa ctx clientId iaid (iaNaFirstAddr iaData) = chosen at h
      cases chosen <;>
      · obtain rfl := Except.ok.inj h
        refine .idle hno ?_ fun _ => rfl
        rintro a ⟨r, rest, valid, hr, hreply, -⟩
        obtain rfl := some.inj hr
        cases hreply

/-- The reply that binds the address of the packet. -/
theorem binding_extendLease (hia : extractIa pkt = some (iaData, iaid))
    (hbind : toBindFor pkt ctx iaData iaid = some addr)
    (h : extendLease pkt duid ctx iaid addr = .ok outcome) :
    Binding pkt duid ctx outcome := by
  obtain ⟨⟨times, db⟩, hdb, h⟩ := bind_eq_ok.mp h
  obtain rfl := Except.ok.inj h
  refine .bind ?_ hdb ⟨rfl, false, statusOption statusSuccess "success", ?_⟩
  · rw [toBind_eq hia, hbind, map_some]
  · rw [if_neg Bool.false_ne_true, append_nil]

theorem binding_dispatchRequest (hmsg : pkt.msgType = .request)
    (h : dispatchRequest pkt duid ctx = .ok outcome) :
    Binding pkt duid ctx outcome := by
  unfold dispatchRequest at h
  cases hia : extractIa pkt with
  | none =>
    rw [hia] at h
    exact binding_noIaReply hia h
  | some ia =>
    rw [hia] at h
    obtain ⟨iaData, iaid⟩ := ia
    dsimp only at h
    have hbind : toBindFor pkt ctx iaData iaid = match iaNaFirstAddr iaData with
        | none => selectAddressForIa ctx (extractClientId pkt) iaid none
        | some reqAddr =>
          if (requestStatus ctx (extractClientId pkt) iaid reqAddr).isNone then
            some reqAddr else none := by
      unfold toBindFor
      rw [hmsg]
    cases haddr : iaNaFirstAddr iaData with
    | none =>
      rw [haddr] at h hbind
      exact binding_buildSolicitStyleReply hia hbind h
    | some reqAddr =>
      rw [haddr] at h hbind
      dsimp only at h hbind
      cases hstatus : requestStatus ctx (extractClientId pkt) iaid reqAddr with
      | none =>
        rw [hstatus] at h hbind
        exact binding_extendLease hia hbind h
      | some st =>
        rw [hstatus] at h hbind
        obtain rfl := Except.ok.inj h
        refine .idle ?_ ?_ fun _ => rfl
        · rw [toBind_eq hia, hbind]
          rfl
        · exact fun a => not_assigns_status (length_requestStatus hstatus) rfl

theorem binding_dispatchRenewRebind (hmsg : ∀ iaData iaid, toBindFor pkt ctx iaData iaid =
      (iaNaFirstAddr iaData).filter (toExtend ctx (extractClientId pkt) iaid isRebind))
    (h : dispatchRenewRebind pkt duid ctx isRebind = .ok outcome) :
    Binding pkt duid ctx outcome := by
  unfold dispatchRenewRebind at h
  cases hia : extractIa pkt with
  | none =>
    rw [hia] at h
    obtain rfl := Except.ok.inj h
    exact .idle (toBind_eq_none hia) (fun _ => not_assigns_none) fun _ => rfl
  | some ia =>
    rw [hia] at h
    obtain ⟨iaData, iaid⟩ := ia
    dsimp only at h
    have hbind := hmsg iaData iaid
    cases haddr : iaNaFirstAddr iaData with
    | none =>
      rw [haddr] at h hbind
      obtain rfl := Except.ok.inj h
      refine .idle ?_ (fun _ => not_assigns_none) fun _ => rfl
      rw [toBind_eq hia, hbind]
      rfl
    | some addr =>
      rw [haddr, filter_some] at hbind
      rw [haddr] at h
      dsimp only at h
      have hno (hnot : toExtend ctx (extractClientId pkt) iaid isRebind addr = false) :
          toBind pkt ctx = none := by
        rw [toBind_eq hia, hbind, hnot]
        rfl
      have hyes (hext : toExtend ctx (extractClientId pkt) iaid isRebind addr) :
          toBindFor pkt ctx iaData iaid = some addr := by
        rw [hbind, hext]
        rfl
      unfold toExtend at hno hyes
      split at h
      · next hnone =>
        rw [isNone_iff_eq_none.mp hnone] at hno hyes
        split at h
        · next hbelieve =>
          rw [Bool.and_eq_true_iff] at hbelieve
          refine binding_extendLease hia (hyes ?_) h
          rw [hbelieve.1, hbelieve.2]
          rfl
        · next hnot =>
          obtain rfl := Except.ok.inj h
          refine .idle (hno ?_) (fun _ => not_assigns_status (by decide) rfl) fun _ => rfl
          rw [Bool.and_comm]
          exact Bool.eq_false_iff.mpr hnot
      · next hsome =>
        split at h
        · next hnot =>
          -- a lifetime of zero assigns nothing
          obtain rfl := Except.ok.inj h
          refine .idle (hno ?_) ?_ fun _ => rfl
          · rw [(Bool.not_eq_true' _).mp hnot]
            rfl
          · intro a ha
            obtain ⟨-, valid, hread, hvalid⟩ := (assigns_iff (append_assoc _ _ _)).mp ha
            rw [readIaaddr_iaaddr] at hread
            exact hvalid (Prod.mk.inj (some.inj hread)).2.symm
        · next hrange =>
          rw [Bool.not_eq_true, isNone_eq_false_iff] at hsome
          rw [Bool.not_eq_true, Bool.not_eq_false'] at hrange
          refine binding_extendLease hia (hyes ?_) h
          rw [hrange, hsome]
          rfl

/-- **What `dispatch_dhcp6` does**, for every message. -/
theorem binding_of_dispatch (h : dispatchDhcp6 pkt duid ctx = .ok outcome) :
    Binding pkt duid ctx outcome := by
  -- the other messages bind nothing
  have hother (hmsg : canBind pkt.msgType = false) : toBind pkt ctx = none := by
    unfold toBind toBindFor
    rw [bind_eq_none_iff]
    intro ia _
    revert hmsg
    cases pkt.msgType <;> first | exact fun _ => rfl | exact fun hmsg => absurd hmsg (by decide)
  have hidle (hmsg : canBind pkt.msgType = false) (hreply : ∀ a, ¬ Assigns pkt duid outcome.1 a) :
      Binding pkt duid ctx outcome := by
    refine .idle (hother hmsg) hreply ?_
    intro hcan
    cases hmsg.symm.trans hcan
  unfold dispatchDhcp6 at h
  cases hmsg : pkt.msgType with
  | solicit =>
    rw [hmsg] at h
    exact binding_dispatchSolicit hmsg h
  | request =>
    rw [hmsg] at h
    exact binding_dispatchRequest hmsg h
  | renew | rebind =>
    rw [hmsg] at h
    refine binding_dispatchRenewRebind ?_ h
    intro iaData iaid
    unfold toBindFor
    rw [hmsg]
  | confirm =>
    rw [hmsg] at h hidle
    obtain rfl := Except.ok.inj h
    exact hidle rfl fun a => not_assigns_dispatchConfirm
  | release | decline =>
    rw [hmsg] at h hidle
    obtain rfl := Except.ok.inj h
    exact hidle rfl fun a => not_assigns_dispatchReleaseOrDecline
  | infoReq =>
    rw [hmsg] at h hidle
    obtain rfl := Except.ok.inj h
    exact hidle rfl fun a => not_assigns_dispatchInforeq
  | _ =>
    rw [hmsg] at h hidle
    obtain rfl := Except.ok.inj h
    exact hidle rfl fun a => not_assigns_none

end DnsmasqRs.Dhcp6
