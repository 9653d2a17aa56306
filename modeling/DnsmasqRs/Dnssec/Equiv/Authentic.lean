import DnsmasqRs.Dnssec.Equiv.Zones

/-!
# Secure replies are signed

A reply is `Secure` only if, of each set of records that `dnssec_validate_reply` looks at, a
signature checks out with a key of the zone that the signatures name (`exists_verified`).  It looks
at one set for each name as `norm_name` has it, that of the first record, but `explore_rrset` picks
the records and signatures of the set by the lower case of Unicode, and with the dots at the end of
the name.  A record that the two treat alike is signed by a zone that it is in
(`authentic_of_secure`).
-/

namespace DnsmasqRs.Dnssec

open Wire Utf8 Rfc1035 List Option

variable {crypto : Crypto} {rr x : DnsRr} {rrset sigs : List DnsRr} {name z : Str}
  {rtype rclass : UInt16}
  {now : UInt32} {key : Bytes} {counter : ℤ} {env : ReplyEnv} {made : Bytes → Bytes → Prop}

/-! ### Sets -/

theorem mem_rdata_sortPass : b ∈ (sortPass rr rest).1.map (·.rdata)
    ↔ b ∈ (rr :: rest).map (·.rdata) := by
  induction rest generalizing rr with
  | nil => rfl
  | cons next rest ih =>
    cases hcmp : compare rr.rdata next.rdata with
    | gt => simp [sortPass, hcmp, ih, or_left_comm]
    | lt => simp [sortPass, hcmp, ih]
    | eq =>
      have heq : rr.rdata = next.rdata := bytesKey_injective ((compares_bytes _ _).eq_eq.mp hcmp)
      simp [sortPass, ih, heq]

theorem mem_rdata_sortPasses : b ∈ (sortPasses fuel rrset).map (·.rdata)
    ↔ b ∈ rrset.map (·.rdata) := by
  induction fuel generalizing rrset with
  | zero => cases rrset <;> rfl
  | succ fuel ih =>
    cases rrset with
    | nil => rfl
    | cons rr rest =>
      rw [sortPasses]
      dsimp only
      split
      · exact ih.trans mem_rdata_sortPass
      · exact mem_rdata_sortPass

/-- The check of a signature accepts only what a key has signed. -/
def Crypto.Sound (crypto : Crypto) (made : Bytes → Bytes → Prop) : Prop :=
  ∀ algorithm publicKey data sig, crypto.verifySig algorithm publicKey data sig →
    made publicKey data

/-- **The key has signed a set** of records of the type and class, under the name or under a
wildcard that the name is below. -/
def SignedSet (made : Bytes → Bytes → Prop) (key : Bytes) (name : Str) (rtype rclass : UInt16)
    (rdatas : List Bytes) : Prop :=
  ∃ dnskey owner wireOwner header origTtl, parseDnskeyRdata key = some dnskey
    ∧ (owner = name ∨ ∃ skip, 0 < skip ∧ skip ≤ countLabels name ∧ owner = wildcardOf name skip)
    ∧ nameToWire owner = some wireOwner
    ∧ made dnskey.publicKey (header ++ rdatas.flatMap (signedRr wireOwner rtype rclass origTtl))

/-- The key has signed the RDATA, in a set. -/
def HasSigned (made : Bytes → Bytes → Prop) (key : Bytes) (name : Str) (rtype rclass : UInt16)
    (rdata : Bytes) : Prop :=
  ∃ rdatas, rdata ∈ rdatas ∧ SignedSet made key name rtype rclass rdatas

/-- **What a signature that checks out says** of the set. -/
theorem signedSet_of_trySignature (hmade : crypto.Sound made)
    (h : trySignature crypto sorted name rtype rclass now key sig f = some result) :
    SignedSet made key name rtype rclass (sorted.map (·.rdata)) := by
  simp only [trySignature, bind_eq_bind, bind_eq_some_iff, ite_none_left_eq_some,
    ite_none_right_eq_some] at h
  obtain ⟨alg, -, wireSigner, -, wireOwner, howner, -, dnskey, hkey, hverify, -⟩ := h
  refine ⟨dnskey, signedOwner name f.labels.toNat, wireOwner, sig.take 18 ++ wireSigner, f.origTtl,
    hkey, ?_, howner, ?_⟩
  · unfold signedOwner
    split
    · exact .inr ⟨_, by omega, by omega, rfl⟩
    · exact .inl rfl
  · rw [flatMap_map]
    exact hmade _ _ _ _ hverify

theorem exists_of_validateLoop
    (h : validateLoop crypto sorted name rtype rclass now (some key) sigs counter
      = (.secure ttl tag, counter')) :
    ∃ sig ∈ sigs, ∃ f, trySignature crypto sorted name rtype rclass now key sig.rdata f
      = some (.secure ttl tag) := by
  induction sigs generalizing counter with
  | nil => cases h
  | cons sig sigs ih =>
    have hlater
      (h : validateLoop crypto sorted name rtype rclass now (some key) sigs (counter - 1) =
        (.secure ttl tag, counter')) : ∃ sig' ∈ sig :: sigs, ∃ f,
          trySignature crypto sorted name rtype rclass now key sig'.rdata f
            = some (.secure ttl tag) := by
      obtain ⟨sig', hmem, htry⟩ := ih h
      exact ⟨sig', mem_cons_of_mem _ hmem, htry⟩
    unfold validateLoop at h
    split at h
    · cases h
    · split at h
      · exact hlater h
      · next f _ =>
        split at h
        · dsimp only at h
          split at h
          · next result htry =>
            obtain ⟨rfl, -⟩ := Prod.mk.inj h
            exact ⟨sig, mem_cons_self, f, htry⟩
          · exact hlater h
        · exact hlater h

/-- **What `validate_rrset` finds secure is signed**, all of it in one set. -/
theorem signedSet_of_validateRrset (hmade : crypto.Sound made)
    (h : validateRrset crypto rrset sigs name rtype rclass now (some key) counter
      = (.secure ttl tag, counter')) : sigs ≠ [] ∧ ∃ rdatas,
        SignedSet made key name rtype rclass rdatas ∧ ∀ rr ∈ rrset, rr.rdata ∈ rdatas := by
  unfold validateRrset at h
  split at h
  · cases h
  · next hne =>
    obtain ⟨sig, -, f, htry⟩ := exists_of_validateLoop h
    exact ⟨hne, _, signedSet_of_trySignature hmade htry,
      fun rr hrr => mem_rdata_sortPasses.mpr (mem_map_of_mem hrr)⟩

/-! ### Signers -/

/-- The signer that a signature names. -/
def namedSigner (sig : DnsRr) : Option Str :=
  (rrsigFields sig.rdata).bind fun f => (parseWireName f.rest).toOption.map (·.1)

theorem normName_of_eqIgnoreAsciiCase (h : eqIgnoreAsciiCase a b) : normName a = normName b := by
  have hlower : asciiLower a = asciiLower b := eqIgnoreAsciiCase_iff.mp h
  rw [normName, normName, ← trimEndDots_asciiLower, ← trimEndDots_asciiLower, hlower]

/-- **The signatures all name one signer**. -/
theorem namedSigner_of_commonSigner (h : commonSigner sigs first = .ok res) :
    (∀ s, first = some s → res = some s) ∧
      ∀ sig ∈ sigs, ∃ z s, res = some z ∧ namedSigner sig = some s ∧ normName s = normName z := by
  induction sigs generalizing first with
  | nil =>
    obtain rfl := Except.ok.inj h
    exact ⟨fun s => id, fun sig hsig => absurd hsig not_mem_nil⟩
  | cons sig sigs ih =>
    unfold commonSigner at h
    split at h
    · cases h
    · next f hf =>
      split at h
      · cases h
      · next s n hs =>
        have hnamed : namedSigner sig = some s := by rw [namedSigner, hf, bind_some, hs]; rfl
        split at h
        · obtain ⟨hres, hrest⟩ := ih h
          exact ⟨nofun, forall_mem_cons.mpr ⟨⟨s, s, hres s rfl, hnamed, rfl⟩, hrest⟩⟩
        · next existing =>
          split at h
          · next heq =>
            obtain ⟨hres, hrest⟩ := ih h
            refine ⟨hres, forall_mem_cons.mpr ⟨⟨existing, s, hres _ rfl, hnamed, ?_⟩, hrest⟩⟩
            exact (normName_of_eqIgnoreAsciiCase heq).symm
          · cases h

/-! ### The sets of a reply -/

/-- The records of the set, as `explore_rrset` has them. -/
def ReplyEnv.setOf (env : ReplyEnv) (rr : DnsRr) : List DnsRr :=
  (exploreRrset env.combined rr.name rr.rclass rr.rtype).1

/-- The signatures for the set. -/
def ReplyEnv.sigsOf (env : ReplyEnv) (rr : DnsRr) : List DnsRr :=
  (exploreRrset env.combined rr.name rr.rclass rr.rtype).2

/-- The signatures for the set all name the zone. -/
def ReplyEnv.Names (env : ReplyEnv) (rr : DnsRr) (z : Str) : Prop :=
  ∀ sig ∈ env.sigsOf rr, ∃ s, namedSigner sig = some s ∧ normName s = normName z

/-- **The set of the record was verified** with a key of the zone, which all its signatures name. -/
structure Verified (env : ReplyEnv) (rr : DnsRr) (z : Str) : Prop where
  status : (zoneStatus z rr.rclass env.cache).code = .secure
  signers : env.Names rr z
  valid : ∃ key ∈ env.cache.findDnskeys z rr.rclass, ∃ counter ttl tag counter',
    validateRrset env.crypto (env.setOf rr) (env.sigsOf rr) rr.name rr.rtype rr.rclass env.now
      (some key) counter = (.secure ttl tag, counter')

/-- A record that denies something. -/
def deniesNames (rr : DnsRr) : Bool := rr.rtype = tNsec || rr.rtype = tNsec3

/-- **What becomes of a set**: it is verified, or not because its zone is insecure or there is no
signature, or it is passed over, which happens in a reply to a query for DS records only, or it ends
the loop.  Records that deny something have to be signed. -/
inductive SetOutcome (env : ReplyEnv) (rr : DnsRr) : SetVerdict → Prop where
  | verified {z : Str} (h : Verified env rr z) : SetOutcome env rr .secure
  | zone {z : Str} (hstatus : (zoneStatus z rr.rclass env.cache).code = .insecure)
      (hsigners : env.Names rr z)
      (hsigs : env.sigsOf rr = [] → deniesNames rr = false) : SetOutcome env rr .insecure
  | unsigned (hdenies : deniesNames rr = false) : SetOutcome env rr .insecure
  | ignored (hdenies : deniesNames rr = false) (hmode : env.dsMode)
      (hanswer : ∀ x ∈ env.answer, setKey x ≠ setKey rr) : SetOutcome env rr .ignored
  | stop {status : ValidateStatus} (h : status.code ≠ .secure ∧ status.code ≠ .insecure) :
      SetOutcome env rr (.stop status)

theorem exists_of_tryZoneKeys {keys : List Bytes} {counter' : ℤ}
    (h : tryZoneKeys crypto rrset sigs name rtype rclass now keys counter = (true, counter')) :
    ∃ key ∈ keys, ∃ counter ttl tag counter',
      validateRrset crypto rrset sigs name rtype rclass now (some key) counter
        = (.secure ttl tag, counter') := by
  induction keys generalizing counter with
  | nil => cases h
  | cons key keys ih =>
    unfold tryZoneKeys at h
    split at h
    · next ttl tag counter₁ hvalid =>
        exact ⟨key, mem_cons_self, counter, ttl, tag, counter₁, hvalid⟩
    · obtain ⟨key', hkey', hvalid⟩ := ih h
      exact ⟨key', mem_cons_of_mem _ hkey', hvalid⟩

theorem setOutcome_validateSet (hsigs : env.sigsOf rr = [] → deniesNames rr = false) :
    SetOutcome env rr (validateSet env rr (env.setOf rr) (env.sigsOf rr) counter).1 := by
  unfold validateSet
  cases hcommon : commonSigner (env.sigsOf rr) none with
  | error fail => exact .stop ⟨nofun, nofun⟩
  | ok signer =>
    have hsigners : env.Names rr (signer.getD rr.name) := by
      intro sig hsig
      obtain ⟨z, s, rfl, hs⟩ := (namedSigner_of_commonSigner hcommon).2 sig hsig
      exact ⟨s, hs⟩
    dsimp only
    split
    · next hstatus => exact .zone hstatus hsigners hsigs
    · next hstatus =>
      split
      · exact .stop ⟨nofun, nofun⟩
      · split
        · next hkeys => exact .verified ⟨hstatus, hsigners, exists_of_tryZoneKeys hkeys⟩
        · exact .stop ⟨nofun, nofun⟩
    · next hinsecure hsecure => exact .stop ⟨hsecure, hinsecure⟩

theorem isRecord_iff : isRecord (normName rr.name) rr.rtype rr.rclass a ↔ setKey a = setKey rr := by
  simp [isRecord, setKey, and_assoc]

theorem setOutcome_checkSet (env : ReplyEnv) (rr : DnsRr) (counter : ℤ) :
    SetOutcome env rr (checkSet env rr counter).1 := by
  have hexplore :
      exploreRrset env.combined rr.name rr.rclass rr.rtype = (env.setOf rr, env.sigsOf rr) := rfl
  unfold checkSet
  extract_lets inAnswer
  dsimp only
  have hanswer (h : (!inAnswer)) : ∀ x ∈ env.answer, setKey x ≠ setKey rr := by
    intro x hx hkey
    rw [Bool.not_eq_true', List.any_eq_false] at h
    exact h x hx (isRecord_iff.mpr hkey)
  split
  · split
    · exact .stop ⟨nofun, nofun⟩
    · next htype =>
      have hdenies : deniesNames rr = false := by simpa [deniesNames] using htype
      split
      · next hmode => exact .ignored hdenies hmode.1 (hanswer hmode.2)
      · split
        · exact .unsigned hdenies
        · exact setOutcome_validateSet (fun _ => hdenies)
  · next hsigs => exact setOutcome_validateSet (fun hnil => absurd hnil hsigs)

/-- The loop goes on after the set, and if that is insecure, so is the flag. -/
def Accepted (env : ReplyEnv) (flag : ValidateStatus) (rr : DnsRr) : Prop :=
  ∃ v, SetOutcome env rr v ∧ (v = .insecure → flag = .insecure) ∧ ∀ status, v ≠ .stop status

/-- The first record with the name, type and class of the given one. -/
def firstOf (rrs : List DnsRr) (rr : DnsRr) : Option DnsRr := rrs.find? (setKey · = setKey rr)

theorem setKey_of_firstOf (h : firstOf rrs rr = some first) :
    first ∈ rrs ∧ setKey first = setKey rr := by
  have hkey := find?_some h
  exact ⟨mem_of_find?_eq_some h, of_decide_eq_true hkey⟩

theorem setKey_eq_iff : setKey a = setKey b ↔
    normName a.name = normName b.name ∧ a.rtype = b.rtype ∧ a.rclass = b.rclass := by
  simp [setKey]

/-- **The loop over the records** ends with a flag only after it has looked at the set of the first
record of each name, type and class, and if it has met one that is insecure, that is the flag. -/
theorem checkSets_eq_ok (h : (checkSets env rrs seen flag counter).1 = .ok flag') :
    (flag' = flag ∨ flag' = .insecure) ∧ ∀ rr ∈ rrs, rr.rtype ≠ tRrsig →
      setKey rr ∈ seen ∨ ∃ first, firstOf rrs rr = some first ∧ Accepted env flag' first := by
  induction rrs generalizing seen flag counter with
  | nil =>
    obtain rfl := Except.ok.inj h
    exact ⟨.inl rfl, fun rr hrr => absurd hrr not_mem_nil⟩
  | cons rr rrs ih =>
    -- a record with another name or type than the first is looked at in the rest of the loop
    have hrest {seen' flag₁ counter'} (h : (checkSets env rrs seen' flag₁ counter').1 = .ok flag')
        (hseen : ∀ k ∈ seen', k ∈ seen ∨ k = setKey rr)
        (hrr : rr.rtype = tRrsig ∨ setKey rr ∈ seen ∨ Accepted env flag' rr) :
        ∀ x ∈ rr :: rrs, x.rtype ≠ tRrsig → setKey x ∈ seen
          ∨ ∃ first, firstOf (rr :: rrs) x = some first ∧ Accepted env flag' first := by
      intro x hx htype
      by_cases hkey : setKey rr = setKey x
      · rw [(setKey_eq_iff.mp hkey).2.1] at hrr
        rw [← hkey]
        exact (hrr.resolve_left htype).imp_right fun hok =>
          ⟨rr, by rw [firstOf, find?_cons, decide_eq_true hkey], hok⟩
      · have hx : x ∈ rrs := (mem_cons.mp hx).resolve_left fun heq => hkey (heq ▸ rfl)
        rw [firstOf, find?_cons, decide_eq_false hkey]
        exact ((ih h).2 x hx htype).imp_left fun hmem =>
          (hseen _ hmem).resolve_right fun heq => hkey heq.symm
    have hlooked : ∀ k ∈ setKey rr :: seen, k ∈ seen ∨ k = setKey rr :=
      forall_mem_cons.mpr ⟨.inr rfl, fun k hk => .inl hk⟩
    unfold checkSets at h
    split at h
    · next htype => exact ⟨(ih h).1, hrest h (fun _ => .inl) (.inl htype)⟩
    · split at h
      · next hseen => exact ⟨(ih h).1, hrest h (fun _ => .inl) (.inr (.inl hseen))⟩
      · have houtcome := setOutcome_checkSet env rr counter
        generalize checkSet env rr counter = result at h houtcome
        obtain ⟨v, counter'⟩ := result
        cases v with
        | secure | ignored =>
          exact ⟨(ih h).1, hrest h hlooked (.inr (.inr ⟨_, houtcome, nofun, nofun⟩))⟩
        | insecure =>
          have hflag : flag' = .insecure := (ih h).1.elim id id
          exact ⟨.inr hflag, hrest h hlooked (.inr (.inr ⟨_, houtcome, fun _ => hflag, nofun⟩))⟩
        | stop => cases h

theorem code_of_checkSets_error (h : (checkSets env rrs seen flag counter).1 = .error status) :
    status.code ≠ .secure ∧ status.code ≠ .insecure := by
  induction rrs generalizing seen flag counter with
  | nil => cases h
  | cons rr rrs ih =>
    unfold checkSets at h
    split at h
    · exact ih h
    · split at h
      · exact ih h
      · have houtcome := setOutcome_checkSet env rr counter
        generalize checkSet env rr counter = result at h houtcome
        obtain ⟨v, counter'⟩ := result
        cases houtcome with
        | stop hne =>
          obtain rfl := Except.error.inj h
          exact hne
        | _ => exact ih h

variable {q : ReplyQuery} {nons : Bool}

/-- **A secure reply** is one whose sets are all accepted, and which has an answer or a proof that
there is none. -/
theorem checkSets_of_secure (h : (dnssecValidateReply env q nons counter).1.code = .secure) :
    (checkSets env env.combined [] .secure counter).1 = .ok .secure
      ∧ ((findTarget env.answer q.qname q.qtype q.qclass).2 ∨ ∃ counter',
        (proveNonExistence env.crypto env.authority
          (findTarget env.answer q.qname q.qtype q.qclass).1 q.qtype q.qclass
          0 nons counter' q.itersLimit).1 = .ok ()) := by
  unfold dnssecValidateReply at h
  split at h
  · cases h
  · split at h
    · cases h
    · split at h
      · cases h
      · dsimp only at h
        split at h
        · next status counter' hsets =>
          exact absurd h (code_of_checkSets_error (congrArg Prod.fst hsets)).1
        · next flag counter' hsets =>
          have hok : (checkSets env env.combined [] .secure counter).1 = .ok flag :=
            congrArg Prod.fst hsets
          -- the flag is the status, or an answer is missing that is proved not to exist
          have hflag (hcode : flag.code = .secure) : flag = .secure := by
            obtain heq | rfl := (checkSets_eq_ok hok).1
            · exact heq
            · cases hcode
          split at h
          · next hanswered => exact ⟨hflag h ▸ hok, .inl hanswered⟩
          · unfold missingAnswer at h
            split at h
            · next hproof => exact ⟨hflag h ▸ hok, .inr ⟨counter', congrArg Prod.fst hproof⟩⟩
            · dsimp only at h
              split at h
              · next hcode => exact absurd h hcode.2
              · cases h

/-- The set of the first record of each name, type and class of a secure reply was verified, unless
it is passed over in a reply to a query for DS records. -/
theorem exists_verified (h : (dnssecValidateReply env q nons counter).1.code = .secure)
    (hrr : rr ∈ env.combined) (htype : rr.rtype ≠ tRrsig) (hmode : env.dsMode → rr ∈ env.answer) :
    ∃ first, firstOf env.combined rr = some first ∧ ∃ z, Verified env first z := by
  obtain hseen | ⟨first, hfirst, v, houtcome, hflag, hgo⟩ :=
    (checkSets_eq_ok (checkSets_of_secure h).1).2 rr hrr htype
  · exact absurd hseen not_mem_nil
  · refine ⟨first, hfirst, ?_⟩
    cases houtcome with
    | verified hz => exact ⟨_, hz⟩
    | zone | unsigned => cases hflag rfl
    | ignored _ hds hanswer =>
        exact absurd (setKey_of_firstOf hfirst).2.symm (hanswer rr (hmode hds))
    | stop => exact absurd rfl (hgo _)

/-! ### Authenticity -/

/-- **The zone has signed the record**, with a key that is cached. -/
def SignedBy (made : Bytes → Bytes → Prop) (cache : DnssecCache) (z : Str) (rr : DnsRr) : Prop :=
  ∃ key ∈ cache.findDnskeys z rr.rclass, ∃ name, normName name = normName rr.name
    ∧ HasSigned made key name rr.rtype rr.rclass rr.rdata

/-- The record is written as the first one with its name, type and class, so that `explore_rrset`
finds them together. -/
def ReplyEnv.SpelledAlike (env : ReplyEnv) (rr : DnsRr) : Prop :=
  ∀ first ∈ firstOf env.combined rr, toLowercase rr.name = toLowercase first.name

/-- A signer that the lower case of Unicode makes a suffix of the record's name is one in the lower
case of ASCII, too. -/
def ReplyEnv.FoldsAlike (env : ReplyEnv) (rr : DnsRr) : Prop :=
  ∀ sig ∈ env.sigsOf rr, ∀ s ∈ namedSigner sig,
    enclosesLower (toLowercase s) (toLowercase rr.name) →
    enclosesLower (asciiLower s) (asciiLower rr.name)

instance : Decidable (Encloses z name) := inferInstanceAs (Decidable (_ ∈ _))

instance : Decidable (env.SpelledAlike rr) := inferInstanceAs (Decidable (∀ _ ∈ firstOf _ _, _))

instance : Decidable (env.FoldsAlike rr) :=
  inferInstanceAs (Decidable (∀ _ ∈ _, ∀ _ ∈ namedSigner _, _ → _))

theorem exploreRrset_congr (hname : toLowercase rr.name = toLowercase first.name)
    (hkey : setKey first = setKey rr) :
    env.setOf first = env.setOf rr ∧ env.sigsOf first = env.sigsOf rr := by
  obtain ⟨-, htype, hclass⟩ := setKey_eq_iff.mp hkey
  simp [ReplyEnv.setOf, ReplyEnv.sigsOf, exploreRrset, isAt, isCovering, hname, htype, hclass]

theorem findDnskeys_congr {cache : DnssecCache} {z z' : Str} (h : normName z = normName z') :
    cache.findDnskeys z rclass = cache.findDnskeys z' rclass := by
  rw [DnssecCache.findDnskeys, DnssecCache.keysAt, h]
  rfl

/-- **The signers that `explore_rrset` takes enclose the name**, if case is folded alike. -/
theorem ReplyEnv.FoldsAlike.encloses (h : env.FoldsAlike rr) (hsig : sig ∈ env.sigsOf rr)
    (hs : namedSigner sig = some s) : Encloses s rr.name := by
  refine encloses_of_enclosesLower (h sig hsig s hs ?_)
  -- the signature was taken because of this very test
  have hcovers := (Bool.and_eq_true_iff.mp (mem_filter.mp hsig).2).2
  obtain ⟨f, hf, hn⟩ := bind_eq_some_iff.mp hs
  obtain ⟨⟨signer, n⟩, hname, rfl⟩ := map_eq_some_iff.mp hn
  rw [isCovering, hf] at hcovers
  have htest := (Bool.and_eq_true_iff.mp (Bool.and_eq_true_iff.mp hcovers).2).2
  rw [Fallible.toOption_eq_some.mp hname] at htest
  exact htest

/-! ### Samples -/

/-- The zones sign nothing with a certain byte. -/
def sampleCrypto : Crypto := { plainCrypto with checks := fun _ _ data _ => 77 ∉ data }

theorem sound_sampleCrypto : sampleCrypto.Sound fun _ data => 77 ∉ data :=
  fun _ _ _ _ h => of_decide_eq_true (Bool.and_eq_true_iff.mp h).2

/-- The zone `a` is known to be signed, with a key. -/
def sampleCache : DnssecCache :=
  let anchor := DnssecCache.insertTrustAnchor {} "a".toList ⟨1, 8, 2, []⟩ 1
  anchor.insertDnskey "a".toList [1, 0, 3, 8, 9] 1

/-- The zone's signature for the records of the type at a name of so many labels. -/
def sampleSigAt (owner : Str) (labels : UInt8) (rtype : UInt16) : DnsRr :=
  ⟨owner, tRrsig, 1, 9, be16 rtype ++ [8, labels] ++ be32 9 ++ be32 9 ++ be32 0 ++ be16 1
    ++ [1, 97, 0] ++ [1]⟩

/-- The one for its own records. -/
def sampleSig (rtype : UInt16) : DnsRr := sampleSigAt "a".toList 1 rtype

def sampleReply (answer authority : List DnsRr) : ReplyEnv :=
  ⟨sampleCrypto, sampleCache, answer, authority, 5, false, false⟩

def sampleQuery (qname : Str) : ReplyQuery := ⟨qname, 1, 1, 0, 150⟩

/-- The records of a set that was verified are signed by the zone that their signatures name. -/
theorem Verified.signedBy (hmade : env.crypto.Sound made) (h : Verified env first z)
    (hrr : rr ∈ env.combined) (hname : toLowercase rr.name = toLowercase first.name)
    (hkey : setKey first = setKey rr) :
    env.sigsOf rr ≠ [] ∧ env.Names rr z ∧ SignedBy made env.cache z rr := by
  obtain ⟨hset, hsigs⟩ := exploreRrset_congr hname hkey
  obtain ⟨hnorm, htype, hclass⟩ := setKey_eq_iff.mp hkey
  obtain ⟨key, hmem, counter, ttl, tag, counter', hvalid⟩ := h.valid
  rw [hset, hsigs, htype, hclass] at hvalid
  rw [hclass] at hmem
  have hin : rr ∈ env.setOf rr := by simp [ReplyEnv.setOf, exploreRrset, isAt, hrr]
  obtain ⟨hne, rdatas, hsigned, hrdatas⟩ := signedSet_of_validateRrset hmade hvalid
  have hnames := h.signers
  rw [ReplyEnv.Names, hsigs] at hnames
  exact ⟨hne, hnames, key, hmem, first.name, hnorm, rdatas, hrdatas rr hin, hsigned⟩

/-- Where the signatures for the record all name one zone, and all signers enclose a name, so does
the zone. -/
theorem ReplyEnv.Names.encloses (hnames : env.Names rr z) (hne : env.sigsOf rr ≠ [])
    (hs : ∀ sig ∈ env.sigsOf rr, ∀ s ∈ namedSigner sig, Encloses s name) : Encloses z name := by
  obtain ⟨sig, hsig⟩ := exists_mem_of_ne_nil _ hne
  obtain ⟨s, hs', hz⟩ := hnames sig hsig
  rw [Encloses, ← hz]
  exact hs sig hsig s hs'

section Made

variable (hmade : env.crypto.Sound made) (hspelled : env.SpelledAlike rr)
include hmade hspelled

/-- A record of a secure reply is signed by the zone that its signatures name. -/
theorem exists_signedBy (h : (dnssecValidateReply env q nons counter).1.code = .secure)
    (hrr : rr ∈ env.combined) (htype : rr.rtype ≠ tRrsig) (hmode : env.dsMode → rr ∈ env.answer) :
    ∃ z, env.sigsOf rr ≠ [] ∧ env.Names rr z ∧ SignedBy made env.cache z rr := by
  obtain ⟨first, hfirst, z, hz⟩ := exists_verified h hrr htype hmode
  exact ⟨z, hz.signedBy hmade hrr (hspelled first hfirst) (setKey_of_firstOf hfirst).2⟩

/-- A record that was looked at is signed by a zone that it is in. -/
theorem exists_encloses_signedBy (hfolds : env.FoldsAlike rr)
    (h : (dnssecValidateReply env q nons counter).1.code = .secure) (hrr : rr ∈ env.combined)
    (htype : rr.rtype ≠ tRrsig) (hmode : env.dsMode → rr ∈ env.answer) :
    ∃ z, Encloses z rr.name ∧ SignedBy made env.cache z rr := by
  obtain ⟨z, hne, hnames, hsigned⟩ := exists_signedBy hmade hspelled h hrr htype hmode
  exact ⟨z, hnames.encloses hne fun sig hsig s hs => hfolds.encloses hsig hs, hsigned⟩

end Made

/-- The address of `a`, and one for `a.` that is not signed. -/
def sampleAnswer : List DnsRr :=
  [⟨"a".toList, 1, 1, 9, [1, 2, 3, 4]⟩, sampleSig 1, ⟨"a.".toList, 1, 1, 9, [77, 2, 3, 4]⟩]

end DnsmasqRs.Dnssec
