import DnsmasqRs.Dnssec.Equiv.Chain

/-!
# Marking a zone as insecure

`dnssec_validate_ds` marks a name as insecure if it has no DS records that can be used, but is a
delegation, or hidden by opt-out.  A reply with a response code other than NOERROR, SERVFAIL and
NXDOMAIN is insecure without any proof, a CNAME moves the proof to another name, and the NSEC and
NSEC3 records of any zone are believed.  But for these three, the mark is justified
(`justified_of_marks`).
-/

namespace DnsmasqRs.Dnssec

open Wire Utf8 Rfc1035 List Option

variable {crypto : Crypto} {made : Bytes → Bytes → Prop} {cache : DnssecCache} {r : DsReply}
  {counter : ℤ} {name : Str} {rr : DnsRr}

/-- The conditions: the response code is NOERROR, NXDOMAIN or SERVFAIL, which leads to no mark; the
name has no CNAME in place of DS records; the records that show a delegation or opt-out are signed
by zones that enclose the name, and spelled so that they are looked at; and the signers of its DS
records are folded alike. -/
structure DsReply.Guarded (r : DsReply) (crypto : Crypto) (cache : DnssecCache) : Prop where
  rcode : r.rcode = 0 ∨ r.rcode = 2 ∨ r.rcode = 3
  cname : r.answer.any (isRecord (normName r.name) tCname r.rclass) →
    r.answer.any (isRecord (normName r.name) tDs r.rclass)
  shows : ∀ rr ∈ r.authority, rr.rclass = r.rclass →
    Shows crypto r.authority r.rclass (normName r.name) tDs rr →
      (r.env crypto cache).SpelledAlike rr
      ∧ ∀ sig ∈ (r.env crypto cache).sigsOf rr, ∀ s ∈ namedSigner sig, Encloses s r.name
  folds : ∀ rr ∈ r.answer, isRecord (normName r.name) tDs r.rclass rr →
    (r.env crypto cache).FoldsAlike rr

/-- The call marks the name as insecure. -/
def Marks (crypto : Crypto) (r : DsReply) (cache : DnssecCache) (counter : ℤ) : Prop :=
  (dnssecValidateDs crypto r cache counter).1.code = .secure
    ∧ (dnssecValidateDs crypto r cache counter).2.1.findDs r.name = some .negInsecure

/-- **The mark is justified**: by a record that shows a delegation or opt-out, or by DS records of
the name where none can be used, signed by a zone that encloses the name; or because such a zone is
insecure. -/
def Justified (made : Bytes → Bytes → Prop) (crypto : Crypto) (r : DsReply) (cache : DnssecCache) :
    Prop :=
  (∃ rr ∈ r.authority, rr.rclass = r.rclass
      ∧ Shows crypto r.authority r.rclass (normName r.name) tDs rr
      ∧ ∃ z, Encloses z r.name ∧ SignedBy made cache z rr)
    ∨ (supportedDs r.answer r.rclass = [] ∧ ∃ rr ∈ r.answer,
      isRecord (normName r.name) tDs r.rclass rr ∧ ∃ z, Encloses z r.name
        ∧ SignedBy made cache z rr)
    ∨ ∃ z, Encloses z r.name ∧ (zoneStatus z r.rclass cache).code = .insecure

theorem zoneStatus_congr (h : normName a = normName b) :
    zoneStatus a rclass cache = zoneStatus b rclass cache := by
  rw [zoneStatus, ← dnsSuffixes_normName, h, dnsSuffixes_normName]
  rfl

/-- Where the name has DS records or no CNAME, it is itself what needs an answer. -/
theorem findTarget_ds (h : answer.any (isRecord (normName name) tCname qclass) →
      answer.any (isRecord (normName name) tDs qclass)) :
    findTarget answer name tDs qclass
      = (normName name, answer.any (isRecord (normName name) tDs qclass)) := by
  unfold findTarget
  rw [chaseCname, if_neg not_mem_nil]
  cases hds : answer.any (isRecord (normName name) tDs qclass) with
  | true => rfl
  | false =>
    have hnone : answer.find? (isRecord (normName name) tCname qclass) = none := by
      rw [hds] at h
      simpa using h
    rw [hnone]
    rfl

/-- A record that shows a delegation or opt-out is signed by a zone that encloses the name, or such
a zone is insecure. -/
theorem DsReply.Guarded.signedBy (hguard : r.Guarded crypto cache) (hmade : crypto.Sound made)
    (h : (checkSets (r.env crypto cache) (r.env crypto cache).combined [] .secure counter).1
      = .ok flag) (hrr : rr ∈ r.authority) (hclass : rr.rclass = r.rclass)
        (hdenies : deniesNames rr)
    (hshows : Shows crypto r.authority r.rclass (normName r.name) tDs rr) :
    (∃ z, Encloses z r.name ∧ SignedBy made cache z rr)
      ∨ ∃ z, Encloses z r.name ∧ (zoneStatus z r.rclass cache).code = .insecure := by
  have hmem : rr ∈ (r.env crypto cache).combined := mem_append_right _ hrr
  have htype : rr.rtype ≠ tRrsig := by
    intro htype
    rw [deniesNames, htype] at hdenies
    cases hdenies
  obtain ⟨hspelled, hsigners⟩ := hguard.shows rr hrr hclass hshows
  obtain hseen | ⟨first, hfirst, v, houtcome, -, hgo⟩ := (checkSets_eq_ok h).2 rr hmem htype
  · exact absurd hseen not_mem_nil
  have hname := hspelled first hfirst
  have hkey := (setKey_of_firstOf hfirst).2
  have hfirst : deniesNames first := by
    rw [deniesNames, (setKey_eq_iff.mp hkey).2.1, ← deniesNames, hdenies]
  have hsigs : (r.env crypto cache).sigsOf first = (r.env crypto cache).sigsOf rr :=
    (exploreRrset_congr hname hkey).2
  cases houtcome with
  | verified hz =>
    obtain ⟨hne, hnames, hsigned⟩ := hz.signedBy hmade hmem hname hkey
    exact .inl ⟨_, hnames.encloses hne hsigners, hsigned⟩
  | zone hstatus hnames hne =>
    rw [ReplyEnv.Names, hsigs] at hnames
    rw [hsigs] at hne
    rw [(setKey_eq_iff.mp hkey).2.2, hclass] at hstatus
    have hne : (r.env crypto cache).sigsOf rr ≠ [] :=
      fun hnil => Bool.noConfusion (hfirst.symm.trans (hne hnil))
    exact .inr ⟨_, ReplyEnv.Names.encloses hnames hne hsigners, hstatus⟩
  | unsigned hno | ignored hno => cases hno.symm.trans hfirst
  | stop => exact absurd rfl (hgo _)

/-- The first DS record of the name in a secure reply is signed by a zone that encloses the name. -/
theorem DsReply.Guarded.exists_ds (hguard : r.Guarded crypto cache) (hmade : crypto.Sound made)
    (h : (dnssecValidateReply (r.env crypto cache) r.query false counter).1.code = .secure)
    (hrr : rr ∈ r.answer) (hrecord : isRecord (normName r.name) tDs r.rclass rr) :
    ∃ first ∈ r.answer, isRecord (normName r.name) tDs r.rclass first
      ∧ ∃ z, Encloses z r.name ∧ SignedBy made cache z first := by
  obtain ⟨⟨hname, htype⟩, hclass⟩ :
      (normName rr.name = normName r.name ∧ rr.rtype = tDs) ∧ rr.rclass = r.rclass := by
    simpa [isRecord] using hrecord
  obtain ⟨first, hfirst, z, hz⟩ := exists_verified h (mem_append_left _ hrr) (by rw [htype]; decide)
    fun _ => hrr
  have hkey := (setKey_of_firstOf hfirst).2
  -- the answer section comes first
  have hmem : first ∈ r.answer := by
    have hsome : ((r.env crypto cache).answer.find? (setKey · = setKey rr)).isSome :=
      find?_isSome.mpr ⟨rr, hrr, decide_eq_true rfl⟩
    rw [firstOf, ReplyEnv.combined, find?_append, or_of_isSome hsome] at hfirst
    exact mem_of_find?_eq_some hfirst
  obtain ⟨hname', htype', hclass'⟩ := setKey_eq_iff.mp hkey
  have hrecord' : isRecord (normName r.name) tDs r.rclass first := by
    simp [isRecord, hname', htype', hclass', hname, htype, hclass]
  obtain ⟨hne, hnames, hsigned⟩ := hz.signedBy hmade (mem_append_left _ hmem) rfl rfl
  have hencloses := hnames.encloses hne fun sig hsig s hs =>
    (hguard.folds first hmem hrecord').encloses hsig hs
  rw [Encloses, ← dnsSuffixes_normName, hname', hname, dnsSuffixes_normName] at hencloses
  exact ⟨first, hmem, hrecord', z, hencloses, hsigned⟩

theorem code_ne_secure_of_rejectDs (h : rejectDs r status = some st) : st.code ≠ .secure := by
  unfold rejectDs at h
  split at h
  · split at h
    · cases h
    · obtain rfl := some.inj h
      nofun
  · cases h
  · next hneed =>
    split at h
    · obtain rfl := some.inj h
      nofun
    · obtain rfl := some.inj h
      rw [hneed]
      nofun
  · next hsecure _ =>
    obtain rfl := some.inj h
    exact hsecure

/-- What a mark says of the reply. -/
theorem Marks.exists_reply (h : Marks crypto r cache counter) : r.rcode ≠ 2 ∧ ∃ status counter',
    dnssecValidateReply (r.env crypto cache) r.query false counter = (status, false, counter')
      ∧ rejectDs r status = none ∧ (r.negative ∨ supportedDs r.answer r.rclass = []) := by
  have hstored {nons : Bool} (hfind : (storeDs r cache nons).findDs r.name = some .negInsecure) :
      r.rcode ≠ 2 ∧ nons = false ∧ (r.negative ∨ supportedDs r.answer r.rclass = []) := by
    unfold storeDs at hfind
    dsimp only at hfind
    split at hfind
    · rw [findDs_insertDs, if_pos rfl] at hfind
      cases hfind
    · next hneg =>
      split at hfind
      · rw [findDs_insertDs, if_pos rfl] at hfind
        cases hfind
      · next hnons =>
        rw [not_or, Bool.not_eq_true] at hnons
        exact ⟨hnons.1, hnons.2, by simpa [hnons.1, or_iff_not_imp_left] using hneg⟩
  unfold Marks dnssecValidateDs at h
  split at h
  · next hservfail => exact absurd hservfail (hstored h.2).1
  · rcases hreply : dnssecValidateReply (r.env crypto cache) r.query false counter
      with ⟨status, nons, counter'⟩
    rw [hreply] at h
    dsimp only at h
    split at h
    · next st hreject => exact absurd h.1 (code_ne_secure_of_rejectDs hreject)
    · next hreject =>
      obtain ⟨hrcode, rfl, hunusable⟩ := hstored h.2
      exact ⟨hrcode, status, counter', rfl, hreject, hunusable⟩

/-- The server refuses the query for the DS records of a name below `a`. -/
def sampleRefused : DsReply where
  answer := []
  authority := []
  name := "b.a".toList
  rclass := 1
  rcode := 5
  now := 5
  itersLimit := 150

/-- The NSEC of a delegation below `a`, without DS records. -/
def sampleDelegation : DsReply :=
  { sampleRefused with
    rcode := 0
    authority := [⟨"b.a".toList, tNsec, 1, 9, [1, 97, 0, 0, 1, 0x20]⟩,
      sampleSigAt "b.a".toList 2 tNsec] }

end DnsmasqRs.Dnssec
