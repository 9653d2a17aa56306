import DnsmasqRs.Rrfilter.Equiv.Meaning

/-!
# The filters keep the meaning of a packet (`rrfilter.rs`)

Each of the three filters selects records by section, type and class (`ofTypes`, `dnssecRecords`,
`configuredTypes`).  On a packet that parses with one question and whose pointers lead to labels of
names that are walked, a filter either returns the packet as it is or the packet without the
selected records (`keepsMeaning_of_wellCompressed`).

The twenty bytes behind the two names of a start of authority have to stand inside its RDATA
(`SoasWithin`). `parse_rr` reads them even if they stand behind it, in the next record; taking that
record out changes what it reads (`not_keepsMeaning_shortSoa`).
-/

namespace DnsmasqRs.Rrfilter

open Wire ByteCursor DnsProtocol Rfc1035 Rfc1035.DnsPacket Edns0 Fallible Elide List Option

variable {pkt out : Bytes} {p d : DnsPacket} {sel : Selection} {sec : Section} {q : DnsQuestion}
  {qname : NameRef} {answers authority additional : List Span}

/-! ### One filter -/

/-- The selected records of a section. -/
def selectedRrs (sel : Selection) (sec : Section) (rrs : List DnsRr) : List DnsRr :=
  rrs.filter fun rr => sel sec rr.rtype rr.rclass

/-- The number of selected records of a packet. -/
def removedCount (sel : Selection) (d : DnsPacket) : ℕ :=
  (selectedRrs sel .answer d.answers).length + (selectedRrs sel .authority d.authority).length
    + (selectedRrs sel .additional d.additional).length

/-- The bytes are those of the packet without the selected records. -/
structure Without (sel : Selection) (d : DnsPacket) (out : Bytes) : Prop where
  decompress : decompress out = .ok (remove sel d)
  parse : ∃ p, DnsPacket.parse out = .ok p ∧ ShowsPacket p (remove sel d)

theorem elide_cases : elide pkt hdr total m = (pkt, 0) ∨ ∃ checked work, m.elided ≠ []
      ∧ checkPass m.elided false hdr total pkt = some checked
      ∧ checkPass m.elided true hdr total checked = some work
      ∧ elide pkt hdr total m = (setCounts (keepBytes work m.elided 0) (hdr.ancount - m.chopAn)
        (hdr.nscount - m.chopNs) (hdr.arcount - m.chopAr), m.elided.length) := by
  unfold elide
  by_cases hnone : m.elided = []
  · rw [if_pos hnone]
    exact .inl rfl
  · rw [if_neg hnone]
    cases hpass : checkPass m.elided false hdr total pkt >>= checkPass m.elided true hdr total with
    | none => exact .inl rfl
    | some work =>
      obtain ⟨checked, hcheck, hfix⟩ := bind_eq_some_iff.mp hpass
      exact .inr ⟨checked, work, hnone, hcheck, hfix, rfl⟩

section

variable (h : Layout pkt d q qname answers authority additional)
include h

theorem length_goneRanges :
    (goneRanges (markSections sel answers authority additional)).length = removedCount sel d := by
  rw [goneRanges_markSections, length_append, length_append, length_map, length_map,
    length_map, length_filter_gone h.readAnswers, length_filter_gone h.readAuthority,
    length_filter_gone h.readAdditional]
  rfl

/-- The last passes over a packet whose selected records are marked. -/
theorem elide_spec (hwell : WellCompressed pkt) (hsoa : SoasWithin pkt)
    (helided : m.elided = goneRanges (markSections sel answers authority additional))
    (hchopAn : m.chopAn = UInt16.ofNat (answers.filter (sel.gone .answer)).length)
    (hchopNs : m.chopNs = UInt16.ofNat (authority.filter (sel.gone .authority)).length)
    (hchopAr : m.chopAr = UInt16.ofNat (additional.filter (sel.gone .additional)).length)
    {removed : ℕ} (hr : elide pkt d.header
      (d.header.ancount.toNat + d.header.nscount.toNat + d.header.arcount.toNat) m
        = (out, removed)) :
    out = pkt ∧ removed = 0 ∨ Without sel d out ∧ removed = removedCount sel d ∧ 0 < removed := by
  set marked := markSections sel answers authority additional with hmarked
  obtain hsame | ⟨checked, work, hne, hcheck, hfix, hout⟩ := elide_cases
  · exact .inl (Prod.mk.inj (hr.symm.trans hsame))
  obtain ⟨rfl, rfl⟩ := Prod.mk.inj (hr.symm.trans hout)
  have hall : marked.map (·.1) = recordSpans pkt := map_fst_markSections.trans h.recordSpans_eq.symm
  have htotal :
      d.header.ancount.toNat + d.header.nscount.toNat + d.header.arcount.toNat = marked.length := by
    rw [h.length_sections, ← h.recordSpans_eq, ← hall, length_map]
  obtain ⟨e, htiles⟩ := h.tilesAll
  have hinside : ∀ s, (s, false) ∈ marked → s.NamesInside pkt := by
    intro s hs
    have hmem : s ∈ recordSpans pkt := hall ▸ mem_map_of_mem hs
    exact hwell.namesInside hmem (htiles.bounds (h.recordSpans_eq ▸ hmem)).1
  have htiles' : Tiles pkt (qname.stop + 4) (marked.map (·.1)) e := by
    rw [map_fst_markSections]
    exact htiles
  have hany : ∀ r ∈ marked, (goneRanges marked).any (·.1 == r.1.start) = r.2 :=
    fun r hr => any_start_eq htiles' hr
  rw [helided, htotal] at hcheck hfix
  -- the checking pass leaves the packet as it is
  obtain ⟨hchecked, -⟩ := checkPass_names h.one h.asked htiles' hany hinside hcheck
  obtain rfl := eq_of_foldlM_check hchecked
  obtain ⟨hpass, hwalked⟩ := checkPass_names h.one h.asked htiles' hany hinside hfix
  have hfiltering : Filtering checked work d q qname answers authority additional marked :=
    ⟨h, hwell, hsoa, hall, helided ▸ hne, hpass, hwalked⟩
  have hleft := decompress_of_filtering hfiltering rfl
  refine .inr ⟨?_, ?_, length_pos_iff.mpr hne⟩
  · rw [helided, hchopAn, hchopNs, hchopAr]
    exact ⟨hleft, parse_of_decompress hleft⟩
  · rw [helided, length_goneRanges h]

variable (hwell : WellCompressed pkt) (hsoa : SoasWithin pkt)
  {verdict : ℕ → UInt16 → UInt16 → Question → Verdict}
  (hsel : Selects d.header.ancount.toNat d.header.nscount.toNat
    (fun i rtype rclass => verdict i rtype rclass { qtype := q.qtype, qclass := q.qclass }) sel)
include hwell hsoa hsel

/-- **`filter_with`** returns the packet as it is, or without the records its verdict removes. -/
theorem filterWith_spec : ∃ out removed, filterWith pkt verdict = .ok (out, removed)
      ∧ (out = pkt ∧ removed = 0 ∨ Without sel d out ∧ removed = removedCount sel d
        ∧ 0 < removed) := by
  obtain ⟨m, hm, helided, hchopAn, hchopNs, hchopAr⟩ := h.markRecords hsel
  obtain ⟨out, removed, hr⟩ : ∃ out removed, elide pkt d.header
      (d.header.ancount.toNat + d.header.nscount.toNat + d.header.arcount.toNat) m
        = (out, removed) :=
    ⟨_, _, rfl⟩
  have hfilter : filterWith pkt verdict = .ok (out, removed) := by
    unfold filterWith
    rw [h.header]
    dsimp only
    rw [if_neg (not_not.mpr h.one)]
    exact bind_eq_ok.mpr ⟨_, h.skipQuestions, bind_eq_ok.mpr ⟨_, h.readQuestion,
      bind_eq_ok.mpr ⟨m, hm, congrArg Except.ok hr⟩⟩⟩
  exact ⟨out, removed, hfilter, elide_spec h hwell hsoa helided hchopAn hchopNs hchopAr hr⟩

/-- A filter that does not report how many records went. -/
theorem map_filterWith_spec :
    ∃ out, (filterWith pkt verdict).map (·.1) = .ok out ∧ (out = pkt ∨ Without sel d out) := by
  obtain ⟨out, removed, hfilter, hcases⟩ := filterWith_spec h hwell hsoa hsel
  refine ⟨out, by rw [hfilter]; rfl, ?_⟩
  obtain ⟨hsame, -⟩ | ⟨hwithout, -⟩ := hcases
  · exact .inl hsame
  · exact .inr hwithout

end

/-! ### The three filters -/

/-- What `filter_rr_types` selects: records of the listed types in the additional section. -/
def ofTypes (types : List UInt16) : Selection :=
  fun sec rtype _ => decide (sec = .additional ∧ rtype ∈ types)

/-- What `strip_dnssec_if_not_requested` selects: RRSIG, NSEC and NSEC3, but not in answer to a
question for them. -/
def dnssecRecords (q : DnsQuestion) : Selection :=
  fun sec rtype rclass =>
    decide (rtype ∈ [46, 47, 50] ∧ ¬ (sec = .answer ∧ rtype = q.qtype ∧ rclass = q.qclass))

/-- What `filter_configured_rr_types` selects: in answer to ANY, if that is listed, all but
addresses, mail exchanges and aliases; otherwise answers of the listed types. -/
def configuredTypes (types : List UInt16) (q : DnsQuestion) : Selection :=
  fun sec rtype rclass =>
    decide (if q.qtype = 255 ∧ 255 ∈ types then rclass = 1 ∧ rtype ∉ [1, 28, 15, 5]
      else sec = .answer ∧ rclass = 1 ∧ rtype ∈ types)

variable {an ns i : ℕ} {types : List UInt16}

theorem sectionOf_eq_answer : sectionOf an ns i = .answer ↔ i < an := by
  unfold sectionOf
  split_ifs <;> simp <;> omega

theorem sectionOf_eq_additional : sectionOf an ns i = .additional ↔ an + ns ≤ i := by
  unfold sectionOf
  split_ifs <;> simp <;> omega

theorem selects_ofTypes :
    Selects an ns (fun i rtype _ => if i < an + ns
      ∨ rtype ∉ types then .keep else .remove) (ofTypes types) where
  remove i rtype rclass h := by
    obtain ⟨hsec, htype⟩ := of_decide_eq_true h
    have := sectionOf_eq_additional.mp hsec
    rw [if_neg]
    rintro (hlt | hnot)
    · omega
    · exact hnot htype
  other i rtype rclass h := by
    left
    rw [if_pos]
    by_contra hnot
    rw [not_or, not_not, not_lt] at hnot
    exact of_decide_eq_false h ⟨sectionOf_eq_additional.mpr hnot.1, hnot.2⟩

theorem selects_dnssecRecords :
    Selects an ns (fun i rtype rclass => if rtype ∉ [46, 47, 50] then .keep
      else if i < an ∧ rtype = q.qtype ∧ rclass = q.qclass then
        .keep else .remove) (dnssecRecords q) where
  remove i rtype rclass h := by
    obtain ⟨htype, hasked⟩ := of_decide_eq_true h
    rw [sectionOf_eq_answer] at hasked
    rw [if_neg (not_not.mpr htype), if_neg hasked]
  other i rtype rclass h := by
    left
    by_cases htype : rtype ∉ [46, 47, 50]
    · rw [if_pos htype]
    · have hasked : i < an ∧ rtype = q.qtype ∧ rclass = q.qclass := by
        by_contra hnot
        exact of_decide_eq_false h ⟨not_not.mp htype, by rwa [sectionOf_eq_answer]⟩
      rw [if_neg htype, if_pos hasked]

theorem selects_configuredTypes :
    Selects an ns (fun i rtype rclass =>
      if q.qtype = 255 ∧ 255 ∈ types then
        if rclass ≠ 1 ∨ rtype ∈ [1, 28, 15, 5] then .keep else .remove
      else if an ≤ i then .stop
      else if rclass = 1 ∧ rtype ∈ types then .remove else .keep) (configuredTypes types q) where
  remove i rtype rclass h := by
    have hsel := of_decide_eq_true h
    by_cases hany : q.qtype = 255 ∧ 255 ∈ types
    · rw [if_pos hany] at hsel ⊢
      rw [if_neg]
      rintro (hclass | htype)
      · exact hclass hsel.1
      · exact hsel.2 htype
    · rw [if_neg hany, sectionOf_eq_answer] at hsel
      rw [if_neg hany, if_neg (not_le.mpr hsel.1), if_pos hsel.2]
  other i rtype rclass h := by
    have hsel := of_decide_eq_false h
    by_cases hany : q.qtype = 255 ∧ 255 ∈ types
    · rw [if_pos hany] at hsel ⊢
      left
      rw [if_pos]
      by_contra hnot
      rw [not_or, not_ne_iff] at hnot
      exact hsel hnot
    · rw [if_neg hany, sectionOf_eq_answer] at hsel
      rw [if_neg hany]
      by_cases hle : an ≤ i
      · -- behind the answers nothing is selected, and the pass stops
        rw [if_pos hle]
        refine .inr ⟨rfl, fun j hj rtype rclass => decide_eq_false ?_⟩
        rw [if_neg hany, sectionOf_eq_answer]
        exact fun hlt => absurd hlt.1 (by omega)
      · rw [if_neg hle, if_neg fun hlisted => hsel ⟨not_le.mp hle, hlisted⟩]
        exact .inl rfl

/-- Each filter returns the packet as it is or without the records it selects. -/
structure KeepsMeaning (pkt : Bytes) (d : DnsPacket) (q : DnsQuestion) : Prop where
  filterRrTypes : ∀ types, ∃ out, filterRrTypes pkt types = .ok out
    ∧ (out = pkt ∨ Without (ofTypes types) d out)
  stripDnssec : ∃ out, stripDnssecIfNotRequested pkt = .ok out
    ∧ (out = pkt ∨ Without (dnssecRecords q) d out)
  filterConfigured : ∀ types, ∃ out removed, filterConfiguredRrTypes pkt types = .ok (out, removed)
    ∧ (out = pkt ∧ removed = 0
      ∨ Without (configuredTypes types q) d out ∧ removed = removedCount (configuredTypes types q) d
        ∧ 0 < removed)

/-- **The filters keep the meaning of a packet** that parses with one question, whose pointers lead
to labels of names that are walked and whose starts of authority take no bytes from behind their
RDATA. -/
theorem keepsMeaning_of_wellCompressed (hparse : DnsPacket.parse pkt = .ok p)
    (hone : p.header.qdcount = 1) (hwell : WellCompressed pkt) (hsoa : SoasWithin pkt) :
    ∃ d q, decompress pkt = .ok d ∧ ShowsPacket p d ∧ p.questions = [q] ∧ KeepsMeaning pkt d q := by
  obtain ⟨d, q, qname, answers, authority, additional, hdec, h⟩ := exists_layout hparse hone
  obtain ⟨p', hparse', hshows⟩ := parse_of_decompress hdec
  obtain rfl := Except.ok.inj (hparse.symm.trans hparse')
  refine ⟨d, q, hdec, hshows, hshows.questions ▸ h.questions, ?_, ?_, ?_⟩
  · intro types
    unfold filterRrTypes
    rw [h.header]
    dsimp only
    split
    · exact ⟨pkt, rfl, .inl rfl⟩
    · exact map_filterWith_spec h hwell hsoa selects_ofTypes
  · unfold stripDnssecIfNotRequested
    split
    · exact ⟨pkt, rfl, .inl rfl⟩
    · rw [h.header]
      exact map_filterWith_spec h hwell hsoa selects_dnssecRecords
  · intro types
    unfold filterConfiguredRrTypes
    rw [h.header]
    dsimp only
    split
    · exact ⟨pkt, 0, rfl, .inl ⟨rfl, rfl⟩⟩
    · exact filterWith_spec h hwell hsoa selects_configuredTypes

/-! ### Two packets -/

/-- Pointers to the start of a name that is walked. -/
theorem targets_of_starts
    (h : ∀ n ∈ walkedNames pkt, n.target.all (fun t => (walkedNames pkt).any (·.start == t))) :
    ∀ n ∈ walkedNames pkt, ∀ t, n.target = some t →
      ∃ m ∈ walkedNames pkt, Visits pkt m.start t := by
  intro n hn t ht
  have hall := h n hn
  rw [ht, Option.all_some, List.any_eq_true] at hall
  obtain ⟨m, hm, hstart⟩ := hall
  obtain rfl := beq_iff_eq.mp hstart
  exact ⟨m, hm, .refl⟩

/-- A reply with three answers: a text record, a name server, and a second one whose name in the
RDATA points to that of the first. -/
def pointerReply : Bytes :=
  [0, 1, 0x81, 0x80, 0, 1, 0, 3, 0, 0, 0, 0] ++ [0, 0, 2, 0, 1]
    ++ [0, 0, 16, 0, 1, 0, 0, 0, 0, 0, 1, 0] ++ [0xC0, 12, 0, 2, 0, 1, 0, 0, 0, 0, 0, 1, 0]
    ++ [0, 0, 2, 0, 1, 0, 0, 0, 0, 0, 2, 0xC0, 41]

theorem wellCompressed_pointerReply : WellCompressed pointerReply where
  classIn := by decide +kernel
  inside := by decide +kernel
  targets := targets_of_starts (by decide +kernel)

theorem keepsMeaning_pointerReply :
    ∃ p d q, DnsPacket.parse pointerReply = .ok p ∧ p.header.qdcount = 1
      ∧ WellCompressed pointerReply
      ∧ SoasWithin pointerReply ∧ decompress pointerReply = .ok d ∧ KeepsMeaning pointerReply d q
      ∧ (filterConfiguredRrTypes pointerReply [16]).map (·.2) = .ok 1 := by
  have hparse :
      (DnsPacket.parse pointerReply).toOption.any (fun p => decide (p.header.qdcount = 1)) := by
    decide +kernel
  obtain ⟨p, hp, hone⟩ := (any_eq_true _ _).mp hparse
  have hp := toOption_eq_some.mp hp
  have hone := of_decide_eq_true hone
  have hsoa : SoasWithin pointerReply := by
    intro s hs hsix
    have hnone : ∀ s ∈ recordSpans pointerReply, s.fixed.rtype ≠ 6 := by decide +kernel
    exact absurd hsix (hnone s hs)
  obtain ⟨d, q, hdec, -, -, hmeaning⟩ :=
    keepsMeaning_of_wellCompressed hp hone wellCompressed_pointerReply hsoa
  exact ⟨p, d, q, hp, hone, wellCompressed_pointerReply, hsoa, hdec, hmeaning, by decide +kernel⟩

/-- A reply with a start of authority whose RDATA is its two names only, and a text record behind
it. -/
def shortSoa : Bytes :=
  [0, 1, 0x81, 0x80, 0, 1, 0, 0, 0, 1, 0, 1] ++ [0, 0, 6, 0, 1]
    ++ [0, 0, 6, 0, 1, 0, 0, 0, 0, 0, 2, 0, 0]
    ++ [0, 0, 16, 0, 1, 0, 0, 0, 0, 0, 9, 8, 1, 2, 3, 4, 5, 6, 7, 8]

/-- What `DnsPacket::parse` reads. -/
def shortSoaPacket : DnsPacket where
  header :=
    { id := 1, hb3 := 0x81, hb4 := 0x80, qdcount := 1, ancount := 0, nscount := 1, arcount := 1 }
  questions := [{ name := [], qtype := 6, qclass := 1 }]
  answers := []
  authority := [{
    name := [], rtype := 6, rclass := 1, ttl := 0
    rdata := [0, 0] ++ [0, 0, 16, 0, 1, 0, 0, 0, 0, 0, 9, 8, 1, 2, 3, 4, 5, 6, 7, 8] }]
  additional :=
    [{ name := [], rtype := 16, rclass := 1, ttl := 0, rdata := [8, 1, 2, 3, 4, 5, 6, 7, 8] }]

theorem wellCompressed_shortSoa : WellCompressed shortSoa where
  classIn := by decide +kernel
  inside := by decide +kernel
  targets := targets_of_starts (by decide +kernel)

/-- **A start of authority that is too short** takes its last twenty bytes from the record behind
it, because `parse_rr` compares them with the end of the packet, and loses them with that record. -/
theorem not_keepsMeaning_shortSoa :
    ∃ p d q, DnsPacket.parse shortSoa = .ok p ∧ p.header.qdcount = 1 ∧ WellCompressed shortSoa
      ∧ decompress shortSoa = .ok d ∧ p.questions = [q] ∧ ¬ KeepsMeaning shortSoa d q := by
  have hparse : DnsPacket.parse shortSoa = .ok shortSoaPacket := by decide +kernel
  have hdec : decompress shortSoa = .ok shortSoaPacket := by decide +kernel
  refine ⟨_, _, _, hparse, rfl, wellCompressed_shortSoa, hdec, rfl, fun h => ?_⟩
  obtain ⟨out, hout, hcases⟩ := h.filterRrTypes [16]
  have hfilter : filterRrTypes shortSoa [16] = .ok ([0, 1, 0x81, 0x80, 0, 1, 0, 0, 0, 1, 0, 0]
      ++ [0, 0, 6, 0, 1] ++ [0, 0, 6, 0, 1, 0, 0, 0, 0, 0, 2, 0, 0]) := by decide +kernel
  obtain rfl := Except.ok.inj (hout.symm.trans hfilter)
  obtain hsame | hwithout := hcases
  · exact absurd hsame (by decide +kernel)
  · exact absurd hwithout.decompress (by decide +kernel)

end DnsmasqRs.Rrfilter
