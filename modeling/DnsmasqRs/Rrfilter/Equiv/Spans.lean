import DnsmasqRs.Lib.Elide
import DnsmasqRs.Rfc1035.Equiv.RoundTrip
import DnsmasqRs.Rrfilter

/-!
# The records of a packet and the ones that go (`rrfilter.rs`)

A packet that parses is tiled by its records (`Tiles`): each begins where the one before it ends.
The first pass of `filter_with` goes over them and marks those its verdict removes
(`markRecords_eq`).  What a verdict removes depends on the section, the type and the class of a
record only, so the marks of a packet are those of its three sections (`marksOf_sections`).

The ranges of the records that go are in ascending order (`ascending_goneRanges`), and a record that
stays is clear of all of them (`clear_of_kept`).
-/

namespace DnsmasqRs.Rrfilter

open Wire ByteCursor DnsProtocol Rfc1035 Edns0 Fallible Elide List Option

theorem lt_of_skipName (h : skipName pkt pos = .ok p) : pos < p := by
  fun_induction skipName pkt pos with
  | case1 | case3 | case5 | case7 => cases h
  | case2 | case4 =>
    cases h
    omega
  | case6 pos b hread hzero hptr htype hle ih =>
    have := ih h
    omega

theorem le_length_keepBytes (hlen : n ≤ work.length) (hne : elided ≠ [])
    (hstart : ∀ r ∈ elided, n ≤ r.1) : n ≤ (keepBytes work elided 0).length := by
  obtain ⟨⟨start, finish⟩, rest, rfl⟩ := exists_cons_of_ne_nil hne
  have hle : n ≤ start := hstart _ mem_cons_self
  simp only [keepBytes, drop_zero, length_append, length_take]
  omega

/-! ### Records on the wire -/

/-- A record on the wire: where it starts, where its owner name ends, and the ten bytes behind that.
-/
structure Span where
  start : ℕ
  nameEnd : ℕ
  fixed : RrFixed
  deriving DecidableEq

namespace Span

/-- Where the RDATA starts. -/
def rdata (s : Span) : ℕ := s.nameEnd + 10

/-- Where the RDATA and the record end. -/
def stop (s : Span) : ℕ := s.nameEnd + 10 + s.fixed.rdlen

def range (s : Span) : ℕ × ℕ := (s.start, s.stop)

end Span

/-- The record at `pos`. -/
def spanAt (pkt : Bytes) (pos : ℕ) : Option Span := do
  let nameEnd ← (skipName pkt pos).toOption
  let fixed ← rrFixed pkt nameEnd
  if pkt.length < nameEnd + 10 + fixed.rdlen then none else some { start := pos, nameEnd, fixed }

variable {pkt : Bytes} {pos e : ℕ} {s : Span} {spans : List Span}

theorem spanAt_eq_some : spanAt pkt pos = some s ↔
    s.start = pos ∧ skipName pkt pos = .ok s.nameEnd ∧ rrFixed pkt s.nameEnd = some s.fixed
      ∧ s.stop ≤ pkt.length := by
  constructor
  · intro h
    obtain ⟨nameEnd, hname, h⟩ := bind_eq_some_iff.mp h
    obtain ⟨fixed, hfixed, h⟩ := bind_eq_some_iff.mp h
    split at h
    · cases h
    · next hlen =>
      obtain rfl := some.inj h
      exact ⟨rfl, toOption_eq_some.mp hname, hfixed, not_lt.mp hlen⟩
  · rintro ⟨rfl, hname, hfixed, hlen⟩
    refine bind_eq_some_iff.mpr
      ⟨_, toOption_eq_some.mpr hname, bind_eq_some_iff.mpr ⟨_, hfixed, ?_⟩⟩
    exact if_neg (not_lt.mpr hlen)

theorem bounds_of_spanAt (h : spanAt pkt pos = some s) :
    s.start = pos ∧ pos < s.nameEnd ∧ s.rdata ≤ s.stop ∧ s.stop ≤ pkt.length := by
  obtain ⟨hstart, hname, -, hlen⟩ := spanAt_eq_some.mp h
  exact ⟨hstart, lt_of_skipName hname, Nat.le_add_right _ _, hlen⟩

/-- The records one after the other from `pos` on, up to `e`. -/
def Tiles (pkt : Bytes) : ℕ → List Span → ℕ → Prop
  | pos, [], e => pos = e
  | pos, s :: rest, e => spanAt pkt pos = some s ∧ Tiles pkt s.stop rest e

theorem Tiles.append (h : Tiles pkt pos spans e) (h' : Tiles pkt e rest e') :
    Tiles pkt pos (spans ++ rest) e' := by
  induction spans generalizing pos with
  | nil =>
    obtain rfl := h
    exact h'
  | cons s spans ih => exact ⟨h.1, ih h.2⟩

theorem Tiles.le (h : Tiles pkt pos spans e) : pos ≤ e := by
  induction spans generalizing pos with
  | nil => exact le_of_eq h
  | cons s spans ih =>
    have hbounds := bounds_of_spanAt h.1
    have := ih h.2
    unfold Span.rdata at hbounds
    omega

theorem Tiles.bounds (h : Tiles pkt pos spans e) (hs : s ∈ spans) :
    spanAt pkt s.start = some s ∧ pos ≤ s.start ∧ s.stop ≤ e := by
  induction spans generalizing pos with
  | nil => cases hs
  | cons head spans ih =>
    obtain ⟨hhead, hrest⟩ := h
    have hbounds := bounds_of_spanAt hhead
    rcases mem_cons.mp hs with rfl | hs
    · have := Tiles.le hrest
      rw [hbounds.1]
      exact ⟨hhead, le_rfl, this⟩
    · obtain ⟨hspan, hstart, hstop⟩ := ih hrest hs
      unfold Span.rdata at hbounds
      exact ⟨hspan, by omega, hstop⟩

theorem Tiles.start_lt_stop (h : Tiles pkt pos spans e) (hs : s ∈ spans) :
    s.start < s.nameEnd ∧ s.rdata ≤ s.stop ∧ s.stop ≤ pkt.length := by
  obtain ⟨-, hname, hrdata, hlen⟩ := bounds_of_spanAt (h.bounds hs).1
  exact ⟨hname, hrdata, hlen⟩

/-- The records from `pos` on, as far as they can be read. -/
def spansFrom (pkt : Bytes) : ℕ → ℕ → List Span
  | 0, _ => []
  | count + 1, pos =>
    match spanAt pkt pos with
    | none => []
    | some s => s :: spansFrom pkt count s.stop

theorem Tiles.spansFrom_eq (h : Tiles pkt pos spans e) :
    spansFrom pkt spans.length pos = spans := by
  induction spans generalizing pos with
  | nil => rfl
  | cons s spans ih =>
    rw [length_cons, spansFrom, h.1]
    show s :: _ = _
    rw [ih h.2]

/-- The records of a packet. -/
def recordSpans (pkt : Bytes) : List Span :=
  match DnsHeader.fromBytes pkt with
  | none => []
  | some hdr =>
    match skipQuestions pkt hdr.qdcount.toNat 12 with
    | .error _ => []
    | .ok pos => spansFrom pkt (hdr.ancount.toNat + hdr.nscount.toNat + hdr.arcount.toNat) pos

/-! ### The records that parse -/

/-- The fixed part of a record, read in one piece and field by field. -/
theorem exists_rrFixed (hlen : pos + 10 ≤ pkt.length) :
    ∃ f rdlen, rrFixed pkt pos = some f ∧ readU16Be pkt pos = some f.rtype
      ∧ readU16Be pkt (pos + 2) = some f.rclass ∧ readU16Be pkt (pos + 8) = some rdlen
      ∧ f.rdlen = rdlen.toNat
      ∧ ∃ ttl, readU32Be pkt (pos + 4) = some ttl
      ∧ be32 ttl = f.extRcode :: f.version :: be16 f.flags := by
  have hslice : readSlice pkt pos 10 = some ((pkt.drop pos).take 10) := if_pos hlen
  have htake : ((pkt.drop pos).take 10).length = 10 := (readSlice_eq_some hslice).2.2
  have hdrop : pkt.drop pos = (pkt.drop pos).take 10 ++ pkt.drop (pos + 10) := by
    rw [← drop_drop, take_append_drop]
  generalize (pkt.drop pos).take 10 = bytes at hslice htake hdrop
  obtain ⟨t0, t1, c0, c1, e, v, f0, f1, l0, l1, rfl⟩ :
      ∃ t0 t1 c0 c1 e v f0 f1 l0 l1, bytes = [t0, t1, c0, c1, e, v, f0, f1, l0, l1] := by
    rcases bytes with _
      | ⟨t0, _ | ⟨t1, _ | ⟨c0, _ | ⟨c1, _ | ⟨e, _ | ⟨v, _ | ⟨f0, _ | ⟨f1, _ | ⟨l0, _ |
      ⟨l1, _ | _⟩⟩⟩⟩⟩⟩⟩⟩⟩⟩ <;> simp at htake
    exact ⟨t0, t1, c0, c1, e, v, f0, f1, l0, l1, rfl⟩
  have hpair :
      ∀ (front : Bytes) {back : Bytes} {a b : UInt8}, pkt.drop pos = front ++ ([a, b] ++ back) →
      readU16Be pkt (pos + front.length) = some (ofBe16 a b) := by
    intro front back a b h
    apply readU16Be_of_drop
    rw [be16_ofBe16]
    exact drop_of_drop_append h
  refine ⟨_, ofBe16 l0 l1, by rw [rrFixed, hslice], ?_, ?_, ?_, rfl, ofBe32 e v f0 f1, ?_, ?_⟩
  · exact hpair [] hdrop
  · exact hpair [t0, t1] hdrop
  · exact hpair [t0, t1, c0, c1, e, v, f0, f1] hdrop
  · apply readU32Be_of_drop
    rw [be32_ofBe32]
    exact drop_of_drop_append (show _ = [t0, t1, c0, c1] ++ ([e, v, f0, f1] ++ _) from hdrop)
  · rw [be32_ofBe32, be16_ofBe16]

/-- What `parse_rr` reads is a record for the passes of `filter_with`. -/
theorem spanAt_of_parseRr (h : parseRr pkt pos = .ok (rr, e)) :
    ∃ s, spanAt pkt pos = some s ∧ s.stop = e ∧ s.fixed.rtype = rr.rtype
      ∧ s.fixed.rclass = rr.rclass := by
  obtain ⟨p, rdlen, raw, hname, htype, hclass, -, hrdlen, hraw, -, rfl⟩ := parseRr_eq_ok.mp h
  have hlen := (readSlice_eq_some hraw).1
  obtain ⟨f, rdlen', hfixed, htype', hclass', hrdlen', heq, -⟩ :=
    exists_rrFixed (show p + 10 ≤ pkt.length by omega)
  rw [htype, some.injEq] at htype'
  rw [hclass, some.injEq] at hclass'
  rw [hrdlen, some.injEq] at hrdlen'
  have hskip : skipName pkt pos = .ok p := skipName_of_extractName hname
  refine ⟨⟨pos, p, f⟩, spanAt_eq_some.mpr ⟨rfl, hskip, hfixed, ?_⟩, ?_, htype'.symm, hclass'.symm⟩
  · show p + 10 + f.rdlen ≤ _
    rw [heq, ← hrdlen']
    exact hlen
  · show p + 10 + f.rdlen = _
    rw [heq, ← hrdlen']

/-! ### The first pass -/

/-- The sections of a packet that hold records. -/
inductive Section where
  | answer
  | authority
  | additional
  deriving DecidableEq

/-- The section of the `i`th record. -/
def sectionOf (an ns i : ℕ) : Section :=
  if i < an then .answer else if i < an + ns then .authority else .additional

/-- Which records go, by section, type and class. -/
abbrev Selection := Section → UInt16 → UInt16 → Bool

/-- The span is that of a record that goes. -/
def Selection.gone (sel : Selection) (sec : Section) (s : Span) : Bool :=
  sel sec s.fixed.rtype s.fixed.rclass

/-- Mark ranges of one section. -/
def Marks.add (m : Marks) (ranges : Elided) : Section → Marks
  | .answer =>
    { m with elided := m.elided ++ ranges, chopAn := m.chopAn + UInt16.ofNat ranges.length }
  | .authority =>
    { m with elided := m.elided ++ ranges, chopNs := m.chopNs + UInt16.ofNat ranges.length }
  | .additional =>
    { m with elided := m.elided ++ ranges, chopAr := m.chopAr + UInt16.ofNat ranges.length }

variable {m : Marks} {an ns i : ℕ} {sel : Selection} {verdict : ℕ → UInt16 → UInt16 → Verdict}
  {sec : Section}

theorem Marks.push_eq_add : m.push an ns i r = m.add [r] (sectionOf an ns i) := by
  unfold Marks.push sectionOf
  split_ifs <;> rfl

theorem Marks.add_nil : m.add [] sec = m := by
  cases sec <;> simp [Marks.add]

theorem Marks.add_add : (m.add a sec).add b sec = m.add (a ++ b) sec := by
  cases sec <;> simp [Marks.add, UInt16.ofNat_add, UInt16.add_assoc]

/-- The marks of the records from the `i`th on. -/
def marksOf (an ns : ℕ) (sel : Selection) : ℕ → List Span → Marks → Marks
  | _, [], m => m
  | i, s :: rest, m =>
    marksOf an ns sel (i + 1) rest (if sel.gone (sectionOf an ns i) s then m.push an ns i s.range
      else m)

/-- The verdict removes what the selection says.  It stops only where nothing more is to be removed.
-/
structure Selects (an ns : ℕ) (verdict : ℕ → UInt16 → UInt16 → Verdict) (sel : Selection) :
    Prop where
  remove : ∀ i rtype rclass, sel (sectionOf an ns i) rtype rclass → verdict i rtype rclass = .remove
  other : ∀ i rtype rclass, sel (sectionOf an ns i) rtype rclass = false →
    verdict i rtype rclass = .keep
      ∨ (verdict i rtype rclass = .stop ∧ ∀ j, i ≤ j →
        ∀ rtype rclass, sel (sectionOf an ns j) rtype rclass = false)

theorem marksOf_of_quiet
    (h : ∀ j, i ≤ j → ∀ rtype rclass, sel (sectionOf an ns j) rtype rclass = false) :
    marksOf an ns sel i spans m = m := by
  induction spans generalizing i with
  | nil => rfl
  | cons s spans ih =>
    rw [marksOf, Selection.gone, h i le_rfl]
    exact ih fun j hj => h j (by omega)

/-- **The first pass** marks the records of the selection. -/
theorem markRecords_eq (hsel : Selects an ns verdict sel) (h : Tiles pkt pos spans e) :
    markRecords pkt an ns verdict spans.length i pos m = .ok (marksOf an ns sel i spans m) := by
  induction spans generalizing pos i m with
  | nil => rfl
  | cons s spans ih =>
    obtain ⟨hspan, hrest⟩ := h
    obtain ⟨hstart, hskip, hfixed, hlen⟩ := spanAt_eq_some.mp hspan
    rw [length_cons, markRecords, marksOf, hskip]
    dsimp only [bind, Except.bind]
    rw [hfixed]
    show (if pkt.length < s.stop then _ else _) = _
    rw [if_neg (not_lt.mpr hlen)]
    cases hgone : sel.gone (sectionOf an ns i) s with
    | true =>
      rw [hsel.remove i _ _ hgone, if_pos rfl]
      show markRecords pkt an ns verdict spans.length (i + 1) s.stop (m.push an ns i (pos, s.stop))
        = _
      rw [ih hrest, Span.range, hstart]
    | false =>
      rw [if_neg Bool.false_ne_true]
      obtain hkeep | ⟨hstop, hquiet⟩ := hsel.other i _ _ hgone
      · rw [hkeep]
        exact ih hrest
      · rw [hstop, marksOf_of_quiet fun j hj => hquiet j (by omega)]

theorem marksOf_append : marksOf an ns sel i (spans ++ rest) m =
      marksOf an ns sel (i + spans.length) rest (marksOf an ns sel i spans m) := by
  induction spans generalizing i m with
  | nil => rfl
  | cons s spans ih =>
    rw [cons_append, marksOf, ih, length_cons]
    congr 1
    omega

theorem marksOf_section (h : ∀ k < spans.length, sectionOf an ns (i + k) = sec) :
    marksOf an ns sel i spans m = m.add ((spans.filter (sel.gone sec)).map Span.range) sec := by
  induction spans generalizing i m with
  | nil => exact Marks.add_nil.symm
  | cons s spans ih =>
    have hhead : sectionOf an ns i = sec := h 0 (by simp)
    have hrest : ∀ k < spans.length, sectionOf an ns (i + 1 + k) = sec := by
      intro k hk
      rw [add_assoc, add_comm 1 k]
      exact h (k + 1) (by simpa using hk)
    rw [marksOf, hhead, ih hrest, filter_cons]
    split_ifs
    · rw [Marks.push_eq_add, hhead, Marks.add_add]
      rfl
    · rfl

/-- **The marks of a packet**, section by section. -/
theorem marksOf_sections (han : answers.length = an)
    (hns : authority.length = ns) : marksOf an ns sel 0 (answers ++ authority ++ additional) {} =
      ((({} : Marks).add ((answers.filter (sel.gone .answer)).map Span.range) .answer).add
        ((authority.filter (sel.gone .authority)).map Span.range) .authority).add
        ((additional.filter (sel.gone .additional)).map Span.range) .additional := by
  have hanswer : ∀ k < answers.length, sectionOf an ns (0 + k) = .answer := by
    intro k hk
    rw [sectionOf, if_pos (by omega)]
  have hauthority :
      ∀ k < authority.length, sectionOf an ns (0 + answers.length + k) = .authority := by
    intro k hk
    rw [sectionOf, if_neg (by omega), if_pos (by omega)]
  have hadditional : ∀ k < additional.length,
      sectionOf an ns (0 + (answers ++ authority).length + k) = .additional := by
    intro k hk
    rw [length_append, sectionOf, if_neg (by omega), if_neg (by omega)]
  rw [marksOf_append, marksOf_append, marksOf_section hanswer, marksOf_section hauthority,
    marksOf_section hadditional]

/-! ### The ranges that go -/

/-- Records, with whether they go. -/
abbrev Marked := List (Span × Bool)

/-- The ranges of the records that go. -/
def goneRanges (marked : Marked) : Elided := (marked.filter (·.2)).map (·.1.range)

variable {marked : Marked} {gone : Bool}

theorem separate (h : Tiles pkt pos (marked.map (·.1)) e) (hs : (s, gone) ∈ marked)
    (hs' : (s', gone') ∈ marked) :
    (s = s' ∧ gone = gone') ∨ s.stop ≤ s'.start ∨ s'.stop ≤ s.start := by
  induction marked generalizing pos with
  | nil => cases hs
  | cons head rest ih =>
    obtain ⟨-, hrest⟩ := h
    have hbehind : ∀ {x : Span × Bool}, x ∈ rest → head.1.stop ≤ x.1.start :=
      fun hx => (Tiles.bounds hrest (mem_map_of_mem hx)).2.1
    rcases mem_cons.mp hs with rfl | hs <;> rcases mem_cons.mp hs' with heq | hs'
    · obtain ⟨rfl, rfl⟩ := Prod.mk.inj heq
      exact .inl ⟨rfl, rfl⟩
    · exact .inr (.inl (hbehind hs'))
    · rw [← heq] at hbehind
      exact .inr (.inr (hbehind hs))
    · exact ih hrest hs hs'

theorem mem_goneRanges : r ∈ goneRanges marked ↔ ∃ s, (s, true) ∈ marked ∧ s.range = r := by
  unfold goneRanges
  rw [List.mem_map]
  constructor
  · rintro ⟨⟨s, gone⟩, hs, rfl⟩
    obtain ⟨hmem, hgone⟩ := mem_filter.mp hs
    obtain rfl : gone := hgone
    exact ⟨s, hmem, rfl⟩
  · rintro ⟨s, hs, rfl⟩
    exact ⟨(s, true), mem_filter.mpr ⟨hs, rfl⟩, rfl⟩

section

variable (h : Tiles pkt pos (marked.map (·.1)) e)
include h

/-- The second pass knows a record that goes by its start. -/
theorem any_start_eq (hs : (s, gone) ∈ marked) :
    (goneRanges marked).any (·.1 == s.start) = gone := by
  have hiff : (goneRanges marked).any (·.1 == s.start) ↔ gone := by
    rw [List.any_eq_true]
    constructor
    · rintro ⟨r, hr, hstart⟩
      obtain ⟨s', hs', rfl⟩ := mem_goneRanges.mp hr
      have hstart' : s'.start = s.start := beq_iff_eq.mp hstart
      have hbounds := h.start_lt_stop (mem_map_of_mem hs)
      have hbounds' := h.start_lt_stop (mem_map_of_mem hs')
      dsimp only [Span.rdata] at hbounds hbounds'
      obtain ⟨-, hgone⟩ | hlt | hlt := separate h hs hs'
      · exact hgone
      · omega
      · omega
    · rintro rfl
      exact ⟨s.range, mem_goneRanges.mpr ⟨s, hs, rfl⟩, beq_self_eq_true _⟩
  exact Bool.eq_iff_iff.mpr hiff

/-- **A record that stays** is clear of all that go. -/
theorem clear_of_kept (hs : (s, false) ∈ marked) : Clear (goneRanges marked) s.start s.stop := by
  intro r hr
  obtain ⟨s', hs', rfl⟩ := mem_goneRanges.mp hr
  obtain ⟨-, hgone⟩ | hlt | hlt := separate h hs hs'
  · cases hgone
  · exact .inr hlt
  · exact .inl hlt

theorem ascending_goneRanges : Ascending pos (goneRanges marked) := by
  induction marked generalizing pos with
  | nil => trivial
  | cons head rest ih =>
    have hspan : spanAt pkt pos = some head.1 := h.1
    have hrest : Ascending head.1.stop (goneRanges rest) := ih h.2
    obtain ⟨hstart, hname, hrdata, -⟩ := bounds_of_spanAt hspan
    have hlt : head.1.start < head.1.stop := by
      unfold Span.rdata at hrdata
      omega
    unfold goneRanges
    rw [filter_cons]
    split_ifs
    · exact ⟨le_of_eq hstart.symm, hlt, hrest⟩
    · exact hrest.mono (by omega)

theorem stop_le_of_goneRanges : ∀ r ∈ goneRanges marked, r.2 ≤ pkt.length := by
  intro r hr
  obtain ⟨s, hs, rfl⟩ := mem_goneRanges.mp hr
  exact (h.start_lt_stop (mem_map_of_mem hs)).2.2

end

end DnsmasqRs.Rrfilter
