import DnsmasqRs.Rrfilter.Equiv.Decompress

/-!
# What is left of a packet (`rrfilter.rs`)

`decompress` is `DnsPacket::parse` with the RDATA of every record decompressed
(`parse_of_decompress`), and `remove` takes the selected records out of a packet and sets its
section counts.

Let a packet parse with one question (`Layout`), let its pointers lead to labels of names that are
walked (`WellCompressed`), and let the passes of `filter_with` succeed on it (`Filtering`).  Then
every record that is not selected stays as it is, wherever it comes to be, and so the bytes that are
left decompress to the packet without the selected records (`decompress_of_filtering`).
-/

namespace DnsmasqRs.Rrfilter

open Wire ByteCursor DnsProtocol Rfc1035 Rfc1035.DnsPacket Edns0 Fallible Elide List Option

/-! ### Packets without compression -/

/-- The packet `DnsPacket::parse` reads, with the RDATA of its records decompressed. -/
def decompress (pkt : Bytes) : Except DnsError DnsPacket := parseWith (decompressedRr pkt) pkt

variable {pkt work : Bytes} {p d : DnsPacket} {s : Span}
  {pos e count : ℕ} {spans : List Span} {fulls : List DnsRr} {sel : Selection} {sec : Section}

/-- A packet and its decompressed form. -/
structure ShowsPacket (p d : DnsPacket) : Prop where
  header : d.header = p.header
  questions : d.questions = p.questions
  answers : List.Forall₂ Shows p.answers d.answers
  authority : List.Forall₂ Shows p.authority d.authority
  additional : List.Forall₂ Shows p.additional d.additional

theorem parseMany_of_decompressedRr
    (h : parseMany (decompressedRr pkt) count pos = .ok (fulls, e)) :
    ∃ rrs, parseMany (parseRr pkt) count pos = .ok (rrs, e) ∧ List.Forall₂ Shows rrs fulls := by
  induction count generalizing pos fulls with
  | zero =>
    obtain ⟨rfl, rfl⟩ := Prod.mk.inj (Except.ok.inj h)
    exact ⟨[], rfl, .nil⟩
  | succ count ih =>
    obtain ⟨full, e₁, rest, hone, hmany, rfl⟩ := parseMany_succ_eq_ok.mp h
    obtain ⟨rrs, hrrs, hshows⟩ := ih hmany
    obtain ⟨rr, -, -, hrr, -, -⟩ := decompressedRr_eq_ok.mp hone
    obtain ⟨full', hone', hshow⟩ := decompressedRr_of_parseRr hrr
    obtain ⟨rfl, -⟩ := Prod.mk.inj (Except.ok.inj (hone.symm.trans hone'))
    exact ⟨rr :: rrs, parseMany_succ_eq_ok.mpr ⟨rr, e₁, rrs, hrr, hrrs, rfl⟩, .cons hshow hshows⟩

/-- A packet that can be decompressed parses. -/
theorem parse_of_decompress (h : decompress pkt = .ok d) :
    ∃ p, DnsPacket.parse pkt = .ok p ∧ ShowsPacket p d := by
  obtain ⟨hheader, e₁, e₂, e₃, e₄, hqs, han, hns, har⟩ := parseWith_eq_ok.mp h
  obtain ⟨answers, han', hanshow⟩ := parseMany_of_decompressedRr han
  obtain ⟨authority, hns', hnsshow⟩ := parseMany_of_decompressedRr hns
  obtain ⟨additional, har', harshow⟩ := parseMany_of_decompressedRr har
  refine ⟨⟨d.header, d.questions, answers, authority, additional⟩, ?_, rfl, rfl, hanshow, hnsshow,
    harshow⟩
  exact parseWith_eq_ok.mpr ⟨hheader, e₁, e₂, e₃, e₄, hqs, han', hns', har'⟩

/-- The record a span is read as. -/
def ReadsAs (pkt : Bytes) (s : Span) (full : DnsRr) : Prop :=
  decompressedRr pkt s.start = .ok (full, s.stop) ∧ s.fixed.rtype = full.rtype
    ∧ s.fixed.rclass = full.rclass

/-- **A section that parses is tiled** by its records. -/
theorem tiles_of_parseMany (h : parseMany (parseRr pkt) count pos = .ok (rrs, e)) :
    ∃ spans fulls, Tiles pkt pos spans e ∧ spans.length = count
      ∧ List.Forall₂ (ReadsAs pkt) spans fulls
      ∧ parseMany (decompressedRr pkt) count pos = .ok (fulls, e) := by
  induction count generalizing pos rrs with
  | zero =>
    obtain ⟨-, rfl⟩ := Prod.mk.inj (Except.ok.inj h)
    exact ⟨[], [], rfl, rfl, .nil, rfl⟩
  | succ count ih =>
    obtain ⟨rr, e₁, rest, hone, hmany, rfl⟩ := parseMany_succ_eq_ok.mp h
    obtain ⟨s, hspan, rfl, htype, hclass⟩ := spanAt_of_parseRr hone
    obtain ⟨spans, fulls, htiles, rfl, hreads, hfulls⟩ := ih hmany
    obtain ⟨full, hfull, hshow⟩ := decompressedRr_of_parseRr hone
    have hstart := (bounds_of_spanAt hspan).1
    refine ⟨s :: spans, full :: fulls, ⟨hspan, htiles⟩, rfl, .cons ⟨?_, ?_, ?_⟩ hreads,
      parseMany_succ_eq_ok.mpr ⟨full, s.stop, fulls, hfull, hfulls, rfl⟩⟩
    · rw [hstart]
      exact hfull
    · rw [htype, hshow.rtype]
    · rw [hclass, hshow.rclass]

/-! ### Removing records -/

/-- The records of a section that are not selected. -/
def keepRrs (sel : Selection) (sec : Section) (rrs : List DnsRr) : List DnsRr :=
  rrs.filter fun rr => !sel sec rr.rtype rr.rclass

/-- The packet without the selected records, and with the section counts to match. -/
def remove (sel : Selection) (p : DnsPacket) : DnsPacket where
  header := { p.header with
    ancount := UInt16.ofNat (keepRrs sel .answer p.answers).length
    nscount := UInt16.ofNat (keepRrs sel .authority p.authority).length
    arcount := UInt16.ofNat (keepRrs sel .additional p.additional).length }
  questions := p.questions
  answers := keepRrs sel .answer p.answers
  authority := keepRrs sel .authority p.authority
  additional := keepRrs sel .additional p.additional

theorem ReadsAs.gone_eq (h : ReadsAs pkt s full) :
    sel.gone sec s = sel sec full.rtype full.rclass := by
  rw [Selection.gone, h.2.1, h.2.2]

theorem length_filter_gone (h : List.Forall₂ (ReadsAs pkt) spans fulls) :
    (spans.filter (sel.gone sec)).length
      = (fulls.filter fun rr => sel sec rr.rtype rr.rclass).length := by
  induction h with
  | nil => rfl
  | cons hread _ ih =>
    rw [filter_cons, filter_cons, hread.gone_eq]
    split
    · exact congrArg (· + 1) ih
    · exact ih

theorem length_keepRrs (sel : Selection) (sec : Section)
    (h : List.Forall₂ (ReadsAs pkt) spans fulls) :
    (keepRrs sel sec fulls).length + (spans.filter (sel.gone sec)).length = spans.length := by
  rw [length_filter_gone h, h.length_eq, Nat.add_comm]
  exact (length_eq_length_filter_add _).symm

/-- **One section after the elision**: the records that stay, one after the other. -/
theorem parseMany_keepRrs (hranges : Ascending 12 elided) (htiles : Tiles pkt pos spans e)
    (hreads : List.Forall₂ (ReadsAs pkt) spans fulls)
    (hgone : ∀ s ∈ spans, sel.gone sec s → s.range ∈ elided)
    (hkept : ∀ s ∈ spans, sel.gone sec s = false →
      ∀ full, decompressedRr pkt s.start = .ok (full, s.stop) →
        decompressedRr new (shift elided s.start) = .ok (full, shift elided s.stop)) :
    parseMany (decompressedRr new) (keepRrs sel sec fulls).length (shift elided pos) =
      .ok (keepRrs sel sec fulls, shift elided e) := by
  induction hreads generalizing pos with
  | nil =>
    obtain rfl := htiles
    rfl
  | @cons s full spans fulls hread hrest ih =>
    obtain ⟨hspan, htiles⟩ := htiles
    have hstart := (bounds_of_spanAt hspan).1
    have hselected : sel.gone sec s = sel sec full.rtype full.rclass := hread.gone_eq
    have htail :=
      ih htiles (fun s hs => hgone s (mem_cons_of_mem _ hs)) fun s hs =>
        hkept s (mem_cons_of_mem _ hs)
    unfold keepRrs at htail ⊢
    rw [filter_cons]
    cases hsel : sel sec full.rtype full.rclass with
    | true =>
      -- the record goes, and both its ends come to the same place
      have hends : shift elided s.stop = shift elided s.start :=
        hranges.shift_finish (hgone s mem_cons_self (hselected.trans hsel))
      rw [hends, hstart] at htail
      exact htail
    | false =>
      have hone := hkept s mem_cons_self (hselected.trans hsel) full hread.1
      rw [hstart] at hone
      exact parseMany_succ_eq_ok.mpr ⟨full, _, _, hone, htail, rfl⟩

/-! ### The names of a packet -/

/-- The names of a packet that are walked: the question's and those of the records. -/
def walkedNames (pkt : Bytes) : List NameRef :=
  (nameAt pkt 12).toList ++ (recordSpans pkt).flatMap (Span.names pkt)

/-- The records with names in their RDATA are of class IN, these names end inside it, and every
pointer leads to a label of a name that is walked. -/
structure WellCompressed (pkt : Bytes) : Prop where
  classIn : ∀ s ∈ recordSpans pkt, rrfilterDesc s.fixed.rtype ≠ [] → s.fixed.rclass = 1
  inside : ∀ s ∈ recordSpans pkt, ∀ n ∈ s.rdataNames pkt, n.stop ≤ s.stop
  targets : ∀ n ∈ walkedNames pkt, ∀ t, n.target = some t →
    ∃ m ∈ walkedNames pkt, Visits pkt m.start t

/-- No start of authority takes bytes from behind its RDATA. -/
def SoasWithin (pkt : Bytes) : Prop :=
  ∀ s ∈ recordSpans pkt, s.fixed.rtype = 6 → SoaWithin pkt s.rdata s.stop

theorem WellCompressed.namesInside (h : WellCompressed pkt) (hs : s ∈ recordSpans pkt)
    (hspan : spanAt pkt pos = some s) : s.NamesInside pkt := by
  intro n hn
  obtain ⟨-, -, hrdata, -⟩ := bounds_of_spanAt hspan
  obtain ⟨owner, howner, -, hstop⟩ := nameAt_of_spanAt hspan
  rw [Span.names, howner, toList_some] at hn
  rcases mem_cons.mp hn with rfl | hn
  · unfold Span.rdata at hrdata
    omega
  · split at hn
    · exact h.inside s hs n hn
    · cases hn

/-- A packet with one question and its records, decompressed. -/
structure Layout (pkt : Bytes) (d : DnsPacket) (q : DnsQuestion) (qname : NameRef)
    (answers authority additional : List Span) : Prop where
  header : DnsHeader.fromBytes pkt = some d.header
  one : d.header.qdcount = 1
  questions : d.questions = [q]
  asked : nameAt pkt 12 = some qname
  question : parseQuestion pkt 12 = .ok (q, qname.stop + 4)
  tiles : ∃ e₁ e₂ e₃, Tiles pkt (qname.stop + 4) answers e₁ ∧ Tiles pkt e₁ authority e₂
    ∧ Tiles pkt e₂ additional e₃
  counts : answers.length = d.header.ancount.toNat ∧ authority.length = d.header.nscount.toNat
    ∧ additional.length = d.header.arcount.toNat
  readAnswers : List.Forall₂ (ReadsAs pkt) answers d.answers
  readAuthority : List.Forall₂ (ReadsAs pkt) authority d.authority
  readAdditional : List.Forall₂ (ReadsAs pkt) additional d.additional

/-- **A packet that parses has a layout**. -/
theorem exists_layout (hparse : DnsPacket.parse pkt = .ok p) (hone : p.header.qdcount = 1) :
    ∃ d q qname answers authority additional, decompress pkt = .ok d
      ∧ Layout pkt d q qname answers authority additional := by
  obtain ⟨hheader, e₁, e₂, e₃, e₄, hqs, han, hns, har⟩ := parse_eq_ok.mp hparse
  obtain ⟨an, anfull, hantiles, hancount, hanreads, handec⟩ := tiles_of_parseMany han
  obtain ⟨ns, nsfull, hnstiles, hnscount, hnsreads, hnsdec⟩ := tiles_of_parseMany hns
  obtain ⟨ar, arfull, hartiles, harcount, harreads, hardec⟩ := tiles_of_parseMany har
  have hqs' := hqs
  rw [hone] at hqs'
  obtain ⟨q, e, rest, hquestion, hnil, hquestions⟩ := parseMany_succ_eq_ok.mp hqs'
  obtain ⟨rfl, rfl⟩ := Prod.mk.inj (Except.ok.inj hnil)
  obtain ⟨pos, hname, -, -, rfl⟩ := parseQuestion_eq_ok.mp hquestion
  obtain ⟨qname, hqname, rfl⟩ := nameAt_of_extractName hname
  refine ⟨⟨p.header, p.questions, anfull, nsfull, arfull⟩, q, qname, an, ns, ar, ?_, ?_⟩
  · exact parseWith_eq_ok.mpr ⟨hheader, _, e₂, e₃, e₄, hqs, handec, hnsdec, hardec⟩
  · exact ⟨hheader, hone, hquestions, hqname, hquestion, ⟨e₂, e₃, e₄, hantiles, hnstiles, hartiles⟩,
      ⟨hancount, hnscount, harcount⟩, hanreads, hnsreads, harreads⟩

/-- The records of the three sections, with whether they go. -/
def markSections (sel : Selection) (answers authority additional : List Span) : Marked :=
  answers.map (fun s => (s, sel.gone .answer s))
    ++ authority.map (fun s => (s, sel.gone .authority s))
    ++ additional.map fun s => (s, sel.gone .additional s)

variable {answers authority additional : List Span} {q : DnsQuestion} {qname : NameRef}
  {marked : Marked}

theorem map_fst_markSections :
    (markSections sel answers authority additional).map (·.1) = answers ++ authority
      ++ additional := by
  simp [markSections, Function.comp_def]

theorem goneRanges_markSections : goneRanges (markSections sel answers authority additional) =
      (answers.filter (sel.gone .answer)).map Span.range
        ++ (authority.filter (sel.gone .authority)).map Span.range
        ++ (additional.filter (sel.gone .additional)).map Span.range := by
  simp [goneRanges, markSections, List.filter_map, Function.comp_def]

theorem mem_markSections : (s, gone) ∈ markSections sel answers authority additional ↔
    (s ∈ answers ∧ sel.gone .answer s = gone) ∨ (s ∈ authority ∧ sel.gone .authority s = gone)
      ∨ (s ∈ additional ∧ sel.gone .additional s = gone) := by
  simp [markSections]

namespace Layout

section

variable (h : Layout pkt d q qname answers authority additional)
include h

theorem tilesAll : ∃ e, Tiles pkt (qname.stop + 4) (answers ++ authority ++ additional) e := by
  obtain ⟨e₁, e₂, e₃, han, hns, har⟩ := h.tiles
  exact ⟨e₃, (han.append hns).append har⟩

theorem skipName :
    Rfc1035.skipName pkt 12 = .ok qname.stop ∧ readU16Be pkt qname.stop = some q.qtype
      ∧ readU16Be pkt (qname.stop + 2) = some q.qclass ∧ qname.stop + 4 ≤ pkt.length := by
  obtain ⟨pos, hname, htype, hclass, hend⟩ := parseQuestion_eq_ok.mp h.question
  obtain rfl : qname.stop = pos := by omega
  refine ⟨skipName_of_extractName hname, htype, hclass, ?_⟩
  unfold readU16Be at hclass
  split at hclass
  · next a b hslice =>
    have := (readSlice_eq_some hslice).1
    omega
  · cases hclass

theorem skipQuestions :
    Edns0.skipQuestions pkt d.header.qdcount.toNat 12 = .ok (qname.stop + 4) := by
  obtain ⟨hskip, -, -, hlen⟩ := h.skipName
  rw [h.one]
  show Edns0.skipQuestions pkt 1 12 = _
  refine bind_eq_ok.mpr ⟨_, hskip, ?_⟩
  exact if_neg (not_lt.mpr hlen)

theorem readQuestion :
    Rrfilter.readQuestion pkt = .ok { qtype := q.qtype, qclass := q.qclass } := by
  obtain ⟨hskip, htype, hclass, -⟩ := h.skipName
  refine bind_eq_ok.mpr ⟨_, hskip, ?_⟩
  rw [htype, hclass]

theorem length_sections : d.header.ancount.toNat + d.header.nscount.toNat + d.header.arcount.toNat =
    (answers ++ authority ++ additional).length := by
  obtain ⟨han, hns, har⟩ := h.counts
  rw [length_append, length_append, han, hns, har]

theorem recordSpans_eq : recordSpans pkt = answers ++ authority ++ additional := by
  obtain ⟨e, htiles⟩ := h.tilesAll
  unfold recordSpans
  rw [h.header]
  dsimp only
  rw [h.skipQuestions]
  show spansFrom pkt _ _ = _
  rw [h.length_sections, htiles.spansFrom_eq]

theorem markRecords {decide : ℕ → UInt16 → UInt16 → Verdict}
    (hsel : Selects d.header.ancount.toNat d.header.nscount.toNat decide sel) :
    ∃ m, Rrfilter.markRecords pkt d.header.ancount.toNat d.header.nscount.toNat decide
        (d.header.ancount.toNat + d.header.nscount.toNat + d.header.arcount.toNat) 0
        (qname.stop + 4) {} = .ok m
      ∧ m.elided = goneRanges (markSections sel answers authority additional)
      ∧ m.chopAn = UInt16.ofNat (answers.filter (sel.gone .answer)).length
      ∧ m.chopNs = UInt16.ofNat (authority.filter (sel.gone .authority)).length
      ∧ m.chopAr = UInt16.ofNat (additional.filter (sel.gone .additional)).length := by
  obtain ⟨e, htiles⟩ := h.tilesAll
  obtain ⟨han, hns, -⟩ := h.counts
  refine ⟨_, by rw [h.length_sections, markRecords_eq hsel htiles, marksOf_sections han hns], ?_,
    ?_, ?_, ?_⟩
  · rw [goneRanges_markSections]
    rfl
  all_goals simp [Marks.add]

theorem qname_bounds : qname.start = 12 ∧ 12 < qname.stop := by
  obtain ⟨hstart, hlt, -⟩ := bounds_of_nameAt h.asked
  exact ⟨hstart, hlt⟩

end

end Layout

/-! ### The elision -/

/-- The packet is filtered: its records are marked, some go, and the pass over the names has made
`work`. -/
structure Filtering (pkt work : Bytes) (d : DnsPacket) (q : DnsQuestion) (qname : NameRef)
    (answers authority additional : List Span) (marked : Marked) : Prop where
  layout : Layout pkt d q qname answers authority additional
  well : WellCompressed pkt
  soa : SoasWithin pkt
  all : marked.map (·.1) = recordSpans pkt
  gone : goneRanges marked ≠ []
  pass : (qname :: keptNames pkt marked).foldlM (fixName (goneRanges marked) true) pkt = some work
  walked : ∀ s, (s, false) ∈ marked → s.Walked pkt

namespace Filtering

variable (h : Filtering pkt work d q qname answers authority additional marked)
include h

theorem tiles : ∃ e, Tiles pkt (qname.stop + 4) (marked.map (·.1)) e := by
  rw [h.all, h.layout.recordSpans_eq]
  exact h.layout.tilesAll

theorem mem_recordSpans {gone : Bool} (hs : (s, gone) ∈ marked) :
    s ∈ recordSpans pkt ∧ spanAt pkt s.start = some s ∧ qname.stop + 4 ≤ s.start := by
  obtain ⟨e, htiles⟩ := h.tiles
  have hmem : s ∈ marked.map (·.1) := mem_map_of_mem hs
  obtain ⟨hspan, hle, -⟩ := htiles.bounds hmem
  exact ⟨h.all ▸ hmem, hspan, hle⟩

theorem namesInside {gone : Bool} (hs : (s, gone) ∈ marked) : s.NamesInside pkt := by
  obtain ⟨hmem, hspan, -⟩ := h.mem_recordSpans hs
  exact h.well.namesInside hmem hspan

theorem self {n : NameRef} (hn : n ∈ qname :: keptNames pkt marked) :
    nameAt pkt n.start = some n := by
  rcases mem_cons.mp hn with rfl | hn
  · rw [h.layout.qname_bounds.1]
    exact h.layout.asked
  · obtain ⟨s, hs, hn⟩ := mem_keptNames.mp hn
    exact (mem_names (h.mem_recordSpans hs).2.1 hn).1

theorem ascending : Ascending 12 ((qname :: keptNames pkt marked).map NameRef.range) := by
  obtain ⟨e, htiles⟩ := h.tiles
  obtain ⟨hstart, hlt⟩ := h.layout.qname_bounds
  have hkept := ascending_keptNames htiles fun s hs => h.namesInside hs
  refine ⟨le_of_eq hstart.symm, ?_, hkept.mono (Nat.le_add_right _ _)⟩
  show qname.start < qname.stop
  omega

theorem ranges : Ascending (qname.stop + 4) (goneRanges marked) := by
  obtain ⟨e, htiles⟩ := h.tiles
  exact ascending_goneRanges htiles

theorem rangesBehind : Ascending 12 (goneRanges marked) := by
  have := h.layout.qname_bounds
  exact h.ranges.mono (by omega)

theorem clear_question : Clear (goneRanges marked) 12 (qname.stop + 4) :=
  fun _ hr => .inr (h.ranges.bounds hr).1

theorem clear {n : NameRef} (hn : n ∈ qname :: keptNames pkt marked) :
    Clear (goneRanges marked) n.start n.stop := by
  obtain ⟨e, htiles⟩ := h.tiles
  rcases mem_cons.mp hn with rfl | hn
  · exact h.clear_question.mono (le_of_eq h.layout.qname_bounds.1.symm) (Nat.le_add_right _ _)
  · obtain ⟨s, hs, hn⟩ := mem_keptNames.mp hn
    exact (clear_of_kept htiles hs).mono (mem_names (h.mem_recordSpans hs).2.1 hn).2
      (h.namesInside hs n hn)

theorem rewritten : Rewritten (goneRanges marked) (qname :: keptNames pkt marked) pkt work :=
  rewritten_of_foldlM h.ascending (fun _ hn => h.self hn) rfl h.pass

theorem getElem?_keepBytes (hout : ¬ Within (goneRanges marked) x) :
    (keepBytes work (goneRanges marked) 0)[shift (goneRanges marked) x]? = work[x]? := by
  obtain ⟨e, htiles⟩ := h.tiles
  have hlen : ∀ r ∈ goneRanges marked, r.2 ≤ work.length := by
    rw [h.rewritten.length]
    exact stop_le_of_goneRanges htiles
  have hkeep := (h.ranges.mono (Nat.zero_le _)).getElem?_keep hlen (Nat.zero_le x) hout
  rw [keepBytes_eq]
  exact hkeep

theorem le_length_keepBytes : 12 ≤ (keepBytes work (goneRanges marked) 0).length := by
  have hlen := h.layout.skipName.2.2.2
  have hlt := h.layout.qname_bounds.2
  refine Rrfilter.le_length_keepBytes (by rw [h.rewritten.length]; omega) h.gone fun r hr => ?_
  have := (h.ranges.bounds hr).1
  omega

/-- A label that is pointed to stands in a name that stays, if its record does. -/
theorem target (hn : n ∈ qname :: keptNames pkt marked) {t : ℕ} (ht : n.target = some t)
    (hout : ¬ Within (goneRanges marked) t) :
    ∃ m ∈ qname :: keptNames pkt marked, Visits pkt m.start t := by
  have hwalked : ∀ m, m ∈ walkedNames pkt ↔ m = qname ∨ ∃ r ∈ marked, m ∈ r.1.names pkt := by
    intro m
    rw [walkedNames, h.layout.asked, ← h.all, mem_append, toList_some, mem_singleton]
    simp
  have hn' : n ∈ walkedNames pkt := by
    rw [hwalked]
    rcases mem_cons.mp hn with hn | hn
    · exact .inl hn
    · obtain ⟨s, hs, hn⟩ := mem_keptNames.mp hn
      exact .inr ⟨_, hs, hn⟩
  obtain ⟨m, hm, hvisits⟩ := h.well.targets n hn' t ht
  refine ⟨m, ?_, hvisits⟩
  obtain rfl | ⟨⟨s, gone⟩, hs, hm⟩ := (hwalked m).mp hm
  · exact mem_cons_self
  · cases gone with
    | false => exact mem_cons_of_mem _ (mem_keptNames.mpr ⟨s, hs, hm⟩)
    | true =>
      -- the record of this name goes, and the label with it
      obtain ⟨hself, hstart⟩ := mem_names (h.mem_recordSpans hs).2.1 hm
      have hwalk := (nameAt_eq_some.mp hself).2
      rw [← hvisits.walkName_eq] at hwalk
      have hlt := (bounds_of_walkName hwalk).1
      have hle := hvisits.le
      have hinside := h.namesInside hs m hm
      exact absurd
        ⟨s.range, mem_goneRanges.mpr ⟨s, hs, rfl⟩, hstart.trans hle, hlt.trans_le hinside⟩ hout

/-- **What is left** is an elision. -/
theorem elision (an ns ar : UInt16) :
    Elision pkt work (setCounts (keepBytes work (goneRanges marked) 0) an ns ar) (goneRanges marked)
      (qname :: keptNames pkt marked) where
  ranges := h.rangesBehind
  self _ hn := h.self hn
  ascending := h.ascending
  clear _ hn := h.clear hn
  rewritten := h.rewritten
  moved x hx hout := by
    rw [getElem?_setCounts h.le_length_keepBytes (.inr (h.rangesBehind.le_shift hx)),
      h.getElem?_keepBytes hout]
  length := by
    obtain ⟨e, htiles⟩ := h.tiles
    have hlen := h.rewritten.length
    have hkeep := (h.ranges.mono (Nat.zero_le _)).length_keep (l := work)
      (hlen ▸ stop_le_of_goneRanges htiles) (Nat.zero_le _)
    rw [Nat.sub_zero, hlen] at hkeep
    rw [length_setCounts h.le_length_keepBytes, keepBytes_eq, hkeep]
  targets _ hn _ ht hout := h.target hn ht hout

/-- A marked record that does not go stays. -/
theorem stays (hs : (s, false) ∈ marked) :
    Stays pkt (goneRanges marked) (qname :: keptNames pkt marked) s := by
  obtain ⟨e, htiles⟩ := h.tiles
  obtain ⟨hmem, hspan, hle⟩ := h.mem_recordSpans hs
  have hqname := h.layout.qname_bounds
  refine ⟨hspan, by omega, clear_of_kept htiles hs, ?_, ?_, h.namesInside hs, h.walked s hs,
    h.well.classIn s hmem, h.soa s hmem⟩
  · exact fun n hn => mem_cons_of_mem _ (mem_keptNames.mpr ⟨s, hs, hn⟩)
  · intro n hn
    rcases mem_cons.mp hn with rfl | hn
    · omega
    · obtain ⟨s', hs', hn⟩ := mem_keptNames.mp hn
      have hstart := (mem_names (h.mem_recordSpans hs').2.1 hn).2
      have hstop := h.namesInside hs' n hn
      obtain ⟨rfl, -⟩ | hlt | hlt := separate htiles hs hs'
      · exact .inl hn
      · omega
      · omega

theorem parseQuestion (an ns ar : UInt16) :
    Rfc1035.parseQuestion (setCounts (keepBytes work (goneRanges marked) 0) an ns ar) 12
      = .ok (q, qname.stop + 4) := by
  have he := h.elision an ns ar
  obtain ⟨p, hname, htype, hclass, hend⟩ := parseQuestion_eq_ok.mp h.layout.question
  obtain rfl : qname.stop = p := by omega
  have hqname := h.layout.qname_bounds
  -- nothing goes up to the end of the question
  have hshift : ∀ x ≤ qname.stop + 4, shift (goneRanges marked) x = x :=
    fun x hx => h.ranges.shift_of_le hx
  have hbyte : ∀ x, qname.stop ≤ x → x < qname.stop + 4 →
      (setCounts (keepBytes work (goneRanges marked) 0) an ns ar)[x]? = pkt[x]? := by
    intro x hx hx'
    have hmoved := he.byte (show 12 ≤ x by omega) (h.clear_question.not_within (by omega) hx') ?_
    · rwa [hshift x (by omega)] at hmoved
    · intro n hn htarget
      rcases mem_cons.mp hn with rfl | hn
      · exact .inr hx
      · obtain ⟨t, ht⟩ := ne_none_iff_exists'.mp htarget
        obtain ⟨s, hs, hn⟩ := mem_keptNames.mp hn
        obtain ⟨-, hspan, hle⟩ := h.mem_recordSpans hs
        obtain ⟨hself, hstart⟩ := mem_names hspan hn
        have hsite := site_bounds hself ht
        exact .inl (by omega)
  have hnew := he.relocation.extractName ⟨qname, mem_cons_self, .refl⟩
  rw [hqname.1, hshift 12 (by omega), hname] at hnew
  refine parseQuestion_eq_ok.mpr ⟨qname.stop, ?_, ?_, ?_, rfl⟩
  · rw [hnew]
    show Except.ok (q.name, shift (goneRanges marked) qname.stop) = _
    rw [hshift _ (by omega)]
  · exact readU16Be_of_same htype fun k hk => hbyte _ (by omega) (by omega)
  · exact readU16Be_of_same hclass fun k hk => hbyte _ (by omega) (by omega)

theorem fromBytes (an ns ar : UInt16) :
    DnsHeader.fromBytes (setCounts (keepBytes work (goneRanges marked) 0) an ns ar) =
      some { d.header with ancount := an, nscount := ns, arcount := ar } := by
  refine fromBytes_setCounts (fromBytes_of_same h.layout.header fun x hx => ?_)
  have hqname := h.layout.qname_bounds
  have hout : ¬ Within (goneRanges marked) x := by
    rintro ⟨r, hr, hin⟩
    have := (h.ranges.bounds hr).1
    omega
  have hkeep := h.getElem?_keepBytes hout
  rw [h.ranges.shift_of_le (by omega)] at hkeep
  rw [hkeep]
  refine h.rewritten.same x fun n hn htarget => ?_
  obtain ⟨t, ht⟩ := ne_none_iff_exists'.mp htarget
  have hsite := site_bounds (h.self hn) ht
  have hstart : 12 ≤ n.start := (h.ascending.bounds (mem_map_of_mem hn)).1
  omega

theorem parseMany (an ns ar : UInt16) (htiles : Tiles pkt pos spans e)
    (hreads : List.Forall₂ (ReadsAs pkt) spans fulls)
    (hmarked : ∀ s ∈ spans, (s, sel.gone sec s) ∈ marked)
    (hcount : count = (keepRrs sel sec fulls).length) :
    Rfc1035.parseMany (decompressedRr (setCounts (keepBytes work (goneRanges marked) 0) an ns ar))
      count (shift (goneRanges marked) pos)
          = .ok (keepRrs sel sec fulls, shift (goneRanges marked) e) := by
  have he := h.elision an ns ar
  subst hcount
  refine parseMany_keepRrs he.ranges htiles hreads (fun s hs hgone =>
    ?_) fun s hs hgone full hfull => ?_
  · have hmem := hmarked s hs
    rw [hgone] at hmem
    exact mem_goneRanges.mpr ⟨s, hmem, rfl⟩
  · have hmem := hmarked s hs
    rw [hgone] at hmem
    exact (h.stays hmem).decompressedRr he hfull

end Filtering

theorem sub_eq_ofNat (h : kept + gone = total.toNat) :
    total - UInt16.ofNat gone = UInt16.ofNat kept := by
  have htotal : total = UInt16.ofNat (kept + gone) := by
    rw [h, UInt16.ofNat_toNat]
  rw [htotal, UInt16.ofNat_add, UInt16.add_sub_cancel]

theorem toNat_of_sum {total : UInt16} {kept gone : ℕ} (h : kept + gone = total.toNat) :
    (UInt16.ofNat kept).toNat = kept := by
  have := total.toNat_lt
  exact toNat_ofNat_of_lt (by omega)

/-- **What is left decompresses** to the packet without the selected records. -/
theorem decompress_of_filtering
    (h : Filtering pkt work d q qname answers authority additional marked)
    (hmarked : marked = markSections sel answers authority additional) :
    decompress (setCounts (keepBytes work (goneRanges marked) 0)
        (d.header.ancount - UInt16.ofNat (answers.filter (sel.gone .answer)).length)
        (d.header.nscount - UInt16.ofNat (authority.filter (sel.gone .authority)).length)
        (d.header.arcount - UInt16.ofNat (additional.filter (sel.gone .additional)).length))
          = .ok (remove sel d) := by
  obtain ⟨e₁, e₂, e₃, han, hns, har⟩ := h.layout.tiles
  obtain ⟨hancount, hnscount, harcount⟩ := h.layout.counts
  have hankeep := length_keepRrs sel .answer h.layout.readAnswers
  have hnskeep := length_keepRrs sel .authority h.layout.readAuthority
  have harkeep := length_keepRrs sel .additional h.layout.readAdditional
  rw [hancount] at hankeep
  rw [hnscount] at hnskeep
  rw [harcount] at harkeep
  rw [sub_eq_ofNat hankeep, sub_eq_ofNat hnskeep, sub_eq_ofNat harkeep]
  refine parseWith_eq_ok.mpr ⟨h.fromBytes _ _ _, qname.stop + 4, shift (goneRanges marked) e₁,
    shift (goneRanges marked) e₂, shift (goneRanges marked) e₃, ?_, ?_, ?_, ?_⟩
  · show Rfc1035.parseMany _ d.header.qdcount.toNat 12 = .ok (d.questions, _)
    rw [h.layout.one, h.layout.questions]
    exact parseMany_succ_eq_ok.mpr ⟨q, _, [], h.parseQuestion _ _ _, rfl, rfl⟩
  · have hanswers := fun an ns ar => h.parseMany an ns ar han h.layout.readAnswers
      (fun s hs => hmarked ▸ mem_markSections.mpr (.inl ⟨hs, rfl⟩)) (toNat_of_sum hankeep)
    rw [h.ranges.shift_of_le le_rfl] at hanswers
    exact hanswers _ _ _
  · exact h.parseMany _ _ _ hns h.layout.readAuthority
      (fun s hs => hmarked ▸ mem_markSections.mpr (.inr (.inl ⟨hs, rfl⟩))) (toNat_of_sum hnskeep)
  · exact h.parseMany _ _ _ har h.layout.readAdditional
      (fun s hs => hmarked ▸ mem_markSections.mpr (.inr (.inr ⟨hs, rfl⟩))) (toNat_of_sum harkeep)

end DnsmasqRs.Rrfilter
