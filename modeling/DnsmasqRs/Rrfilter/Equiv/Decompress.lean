import DnsmasqRs.Rrfilter.Equiv.Relocate

/-!
# Records without compression (`rrfilter.rs`, `rfc1035.rs`)

`parse_rr` decompresses the names in the RDATA of five types and leaves the RDATA of all others as
it is, pointers included.  `decompressedRr` is the record with all names in its RDATA written out:
those `parse_rr` rewrites as it rewrites them, and the others label by label (`expandRdata`).

A record that stays is the same record after the elision (`Stays.decompressedRr`).
-/

namespace DnsmasqRs.Rrfilter

open Wire ByteCursor DnsProtocol Rfc1035 Edns0 Fallible Elide List Option

/-! ### Decompression -/

/-- A name written out; nothing if it has too many pointers. -/
def expandName (pkt : Bytes) (pos : ℕ) : Bytes :=
  match rawLabels pkt 0 pos with
  | none => []
  | some labels => labels.flatten ++ [0]

/-- The RDATA from `pos` up to `stop` with the names in it written out.  From a name on that cannot
be walked, the bytes are left as they are. -/
def expandRdata (pkt : Bytes) : List DescStep → ℕ → ℕ → Bytes
  | [], pos, stop => slice pkt pos stop
  | .skip n :: rest, pos, stop => slice pkt pos (pos + n) ++ expandRdata pkt rest (pos + n) stop
  | .name :: rest, pos, stop =>
    match nameAt pkt pos with
    | none => slice pkt pos stop
    | some n => expandName pkt pos ++ expandRdata pkt rest n.stop stop

/-- The RDATA of a record of type `rtype`, decompressed. -/
def fullRdata (pkt : Bytes) (rtype : UInt16) (rdata stop : ℕ) : Bytes :=
  (rewriteRdata pkt rdata rtype (slice pkt rdata stop)).getD
    (expandRdata pkt (rrfilterDesc rtype) rdata stop)

/-- The record `parse_rr` reads, with its RDATA decompressed. -/
def decompressedRr (pkt : Bytes) (offset : ℕ) : Except DnsError (DnsRr × ℕ) := do
  let (rr, stop) ← parseRr pkt offset
  let (_, nameEnd) ← extractName pkt offset
  return ({ rr with rdata := fullRdata pkt rr.rtype (nameEnd + 10) stop }, stop)

variable {pkt new work : Bytes} {elided : Elided} {names : List NameRef} {s : Span} {rr : DnsRr}
  {pos stop x y : ℕ} {desc : List DescStep} {rtype : UInt16}

/-- Decompression changes nothing but the RDATA, and there only what `parse_rr` has left compressed.
-/
structure Shows (rr full : DnsRr) : Prop where
  name : full.name = rr.name
  rtype : full.rtype = rr.rtype
  rclass : full.rclass = rr.rclass
  ttl : full.ttl = rr.ttl
  rdata : rrfilterDesc rr.rtype = [] → full.rdata = rr.rdata

theorem slice_eq_take {lo n : ℕ} : slice pkt lo (lo + n) = (pkt.drop lo).take n := by
  rw [slice, drop_take, Nat.add_sub_cancel_left]

/-- Where `parse_rr` decompresses or there is no name, the RDATA is the one it stores. -/
theorem fullRdata_eq_decompressRdata
    (h : rrfilterDesc rtype = [] ∨ (rewriteRdata pkt pos rtype (slice pkt pos stop)).isSome) :
    fullRdata pkt rtype pos stop = decompressRdata pkt pos rtype (slice pkt pos stop) := by
  rw [fullRdata, decompressRdata]
  obtain hdesc | hsome := h
  · rw [hdesc]
    rfl
  · obtain ⟨rdata, hrdata⟩ := isSome_iff_exists.mp hsome
    rw [hrdata]
    rfl

theorem decompressedRr_of_parseRr (h : parseRr pkt pos = .ok (rr, e)) :
    ∃ full, decompressedRr pkt pos = .ok (full, e) ∧ Shows rr full := by
  obtain ⟨p, rdlen, raw, hname, -, -, -, -, hraw, hrdata, rfl⟩ := parseRr_eq_ok.mp h
  refine ⟨_, bind_eq_ok.mpr ⟨_, h, bind_eq_ok.mpr ⟨_, hname, rfl⟩⟩, rfl, rfl, rfl, rfl, fun hdesc =>
    ?_⟩
  rw [hrdata, (readSlice_eq_some hraw).2.1, ← slice_eq_take]
  exact fullRdata_eq_decompressRdata (.inl hdesc)

theorem decompressedRr_eq_ok : decompressedRr pkt pos = .ok (full, e)
    ↔ ∃ rr name p, parseRr pkt pos = .ok (rr, e)
      ∧ extractName pkt pos = .ok (name, p)
      ∧ full = { rr with rdata := fullRdata pkt rr.rtype (p + 10) e } := by
  constructor
  · intro h
    obtain ⟨⟨rr, e'⟩, hrr, h⟩ := bind_eq_ok.mp h
    obtain ⟨⟨name, p⟩, hname, h⟩ := bind_eq_ok.mp h
    obtain ⟨rfl, rfl⟩ := Prod.mk.inj (Except.ok.inj h)
    exact ⟨rr, name, p, hrr, hname, rfl⟩
  · rintro ⟨rr, name, p, hrr, hname, rfl⟩
    exact bind_eq_ok.mpr ⟨_, hrr, bind_eq_ok.mpr ⟨_, hname, rfl⟩⟩

/-! ### RDATA that was moved -/

theorem nameAt_of_extractName (h : extractName pkt pos = .ok (name, p)) :
    ∃ n, nameAt pkt pos = some n ∧ n.stop = p := by
  obtain ⟨t, hwalk⟩ := walkName_of_skipName (skipName_of_extractName h)
  exact ⟨⟨pos, p, t⟩, nameAt_eq_some.mpr ⟨rfl, hwalk⟩, rfl⟩

theorem slice_cons (hb : pkt[lo]? = some b) (h : lo < hi) :
    slice pkt lo hi = b :: slice pkt (lo + 1) hi := by
  obtain ⟨hlt, rfl⟩ := List.getElem?_eq_some_iff.mp hb
  have hlen : lo < (pkt.take hi).length := by
    rw [length_take]
    omega
  rw [slice, slice, drop_eq_getElem_cons hlen, getElem_take]

/-- All names in the RDATA can be walked, and they and the bytes between them end before `stop`. -/
def Fits (pkt : Bytes) (stop : ℕ) : List DescStep → ℕ → Prop
  | [], pos => pos ≤ stop
  | .skip n :: rest, pos => Fits pkt stop rest (pos + n)
  | .name :: rest, pos => ∃ n, nameAt pkt pos = some n ∧ Fits pkt stop rest n.stop

theorem Fits.le (h : Fits pkt stop desc pos) : pos ≤ stop := by
  induction desc generalizing pos with
  | nil => exact h
  | cons step rest ih =>
    cases step with
    | skip n =>
      have := ih h
      omega
    | name =>
      obtain ⟨n, hn, hrest⟩ := h
      have := ih hrest
      have := bounds_of_nameAt hn
      omega

/-- Names that are walked and stand inside the RDATA fit, if the description ends with one. -/
theorem fits_of_allWalk (hlast : ∀ k, desc.getLast? ≠ some (.skip k)) (hwalk : AllWalk pkt desc pos)
    (hpos : desc = [] → pos ≤ stop) (hinside : ∀ n ∈ rdataNames pkt desc pos, n.stop ≤ stop) :
    Fits pkt stop desc pos := by
  induction desc generalizing pos with
  | nil => exact hpos rfl
  | cons step rest ih =>
    have hrest : ∀ k, rest.getLast? ≠ some (.skip k) := by
      intro k hk
      apply hlast k
      rw [getLast?_cons, hk]
      rfl
    cases step with
    | skip n =>
      refine ih hrest hwalk ?_ hinside
      rintro rfl
      exact absurd rfl (hlast n)
    | name =>
      obtain ⟨n, hn, hwalk⟩ := hwalk
      rw [rdataNames, hn, forall_mem_cons] at hinside
      exact ⟨n, hn, ih hrest hwalk (fun _ => hinside.1) hinside.2⟩

theorem getLast?_rrfilterDesc (rtype : UInt16) (k : ℕ) :
    (rrfilterDesc rtype).getLast? ≠ some (.skip k) := by
  unfold rrfilterDesc
  split_ifs <;> simp

/-- A start of authority at `pos` does not take bytes from behind its RDATA: the twenty bytes behind
its two names end before `stop`, or the packet does not hold them. -/
def SoaWithin (pkt : Bytes) (pos stop : ℕ) : Prop :=
  ∀ mname rname p q, extractName pkt pos = .ok (mname, p) → extractName pkt p = .ok (rname, q) →
    q + 20 ≤ pkt.length → q + 20 ≤ stop

/-- The names at `V` are relocated, and the RDATA from `pos` up to `stop` moves with them.  Its
bytes that are not part of a name stay the same. -/
structure Moves (pkt new : Bytes) (move : ℕ → ℕ) (V : ℕ → Prop) (stop : ℕ) (desc : List DescStep)
    (pos : ℕ) :
    Prop where
  names : Relocation pkt new move V
  length : stop ≤ pkt.length
  tail : ∀ x ≤ pkt.length, new.length ≤ move x + (pkt.length - x)
  shift : ∀ x y, pos ≤ x → x ≤ y → y ≤ stop → move y = move x + (y - x)
  byte : ∀ x, pos ≤ x → x < stop → (∀ n ∈ rdataNames pkt desc pos, x < n.start ∨ n.stop ≤ x) →
    new[move x]? = pkt[x]?
  visited : ∀ n ∈ rdataNames pkt desc pos, V n.start
  fits : Fits pkt stop desc pos

namespace Moves

variable {move : ℕ → ℕ} {V : ℕ → Prop} {n : NameRef} {k : ℕ}

theorem skip (h : Moves pkt new move V stop (.skip k :: desc) pos) :
    Moves pkt new move V stop desc (pos + k) where
  names := h.names
  length := h.length
  tail := h.tail
  shift x y hx := h.shift x y (by omega)
  byte x hx := h.byte x (by omega)
  visited := h.visited
  fits := h.fits

theorem name (h : Moves pkt new move V stop (.name :: desc) pos) :
    ∃ n, nameAt pkt pos = some n ∧ V pos ∧ Moves pkt new move V stop desc n.stop := by
  obtain ⟨n, hn, hfits⟩ := h.fits
  obtain ⟨hstart, hlt, -⟩ := bounds_of_nameAt hn
  have hvisited := h.visited
  have hbyte := h.byte
  rw [rdataNames, hn] at hvisited hbyte
  refine ⟨n, hn, ?_, h.names, h.length, h.tail, fun x y hx => h.shift x y (by omega),
    fun x hx hx' hout => ?_, ?_, hfits⟩
  · rw [← hstart]
    exact hvisited n mem_cons_self
  · refine hbyte x (by omega) hx' fun m hm => ?_
    rcases mem_cons.mp hm with rfl | hm
    · exact .inr hx
    · exact hout m hm
  · exact fun m hm => hvisited m (mem_cons_of_mem _ hm)

theorem front (h : Moves pkt new move V stop (.skip k :: desc) pos) (hx : pos ≤ x)
    (hx' : x < pos + k) :
    new[move pos + (x - pos)]? = pkt[x]? := by
  have hle := h.skip.fits.le
  rw [← h.shift pos x le_rfl hx (by omega)]
  refine h.byte x hx (by omega) fun n (hn : n ∈ rdataNames pkt desc (pos + k)) => .inl ?_
  have := (mem_rdataNames hn).2
  omega

theorem back (h : Moves pkt new move V stop [] pos) (hx : x < stop - pos) :
    new[move pos + x]? = pkt[pos + x]? := by
  have hmove := h.shift pos (pos + x) le_rfl (by omega) (by omega)
  rw [Nat.add_sub_cancel_left] at hmove
  rw [← hmove]
  exact h.byte (pos + x) (by omega) (by omega) fun n hn => nomatch hn

/-- **Moved RDATA expands as before**. -/
theorem expandRdata (h : Moves pkt new move V stop desc pos) :
    Rrfilter.expandRdata new desc (move pos) (move stop)
      = Rrfilter.expandRdata pkt desc pos stop := by
  induction desc generalizing pos with
  | nil =>
    have hle := h.fits.le
    exact slice_of_same (h.shift pos stop le_rfl hle le_rfl) hle fun x hx => h.back hx
  | cons step rest ih =>
    cases step with
    | skip k =>
      have hle := h.skip.fits.le
      have hmove := h.shift pos (pos + k) le_rfl (by omega) hle
      rw [Nat.add_sub_cancel_left] at hmove
      rw [Rrfilter.expandRdata, ← hmove, ih h.skip]
      congr 1
      refine slice_of_same (by omega) (by omega) fun x hx => ?_
      have hfront := h.front (show pos ≤ pos + x by omega) (by omega)
      rwa [Nat.add_sub_cancel_left] at hfront
    | name =>
      obtain ⟨n, hn, hV, hrest⟩ := h.name
      have hwalk := h.names.walkName hV
      rw [(nameAt_eq_some.mp hn).2] at hwalk
      have hnew : nameAt new (move pos) = some ⟨move pos, move n.stop, n.target.map move⟩ :=
        nameAt_eq_some.mpr ⟨rfl, hwalk⟩
      rw [Rrfilter.expandRdata, Rrfilter.expandRdata, hn, hnew]
      show expandName new (move pos) ++ _ = expandName pkt pos ++ _
      rw [ih hrest, expandName, expandName, h.names.rawLabels 0 hV]

theorem extractName (h : Moves pkt new move V stop (.name :: desc) pos) :
    Rfc1035.extractName new (move pos) = (Rfc1035.extractName pkt pos).map fun r =>
      (r.1, move r.2) := by
  obtain ⟨-, -, hV, -⟩ := h.name
  exact h.names.extractName hV

theorem after (h : Moves pkt new move V stop (.name :: desc) pos) {name : Utf8.Str} {p : ℕ}
    (hname : Rfc1035.extractName pkt pos = .ok (name, p)) : Moves pkt new move V stop desc p := by
  obtain ⟨n, hn, -, hrest⟩ := h.name
  obtain ⟨n', hn', rfl⟩ := nameAt_of_extractName hname
  obtain rfl := some.inj (hn.symm.trans hn')
  exact hrest

theorem rewriteRdata_mx (h : Moves pkt new move V stop [.skip 2, .name] pos) :
    Rfc1035.rewriteRdata new (move pos) 15 (slice new (move pos) (move stop)) =
      Rfc1035.rewriteRdata pkt pos 15 (slice pkt pos stop) := by
  obtain ⟨n, hn, -⟩ := h.skip.name
  have hlen := (bounds_of_nameAt hn).2
  have hle := h.skip.fits.le
  have hmove := h.shift pos (pos + 2) le_rfl (by omega) hle
  have hstop := h.shift (pos + 2) stop (by omega) hle le_rfl
  have h0 := h.front (le_refl pos) (by omega)
  have h1 := h.front (Nat.le_add_right pos 1) (by omega)
  rw [Nat.add_sub_cancel_left] at hmove h1
  rw [Nat.sub_self, Nat.add_zero] at h0
  -- both bytes of the preference are there, in either packet
  obtain ⟨p0, hp0⟩ : ∃ b, pkt[pos]? = some b := ⟨_, getElem?_eq_getElem (by omega)⟩
  obtain ⟨p1, hp1⟩ : ∃ b, pkt[pos + 1]? = some b := ⟨_, getElem?_eq_getElem (by omega)⟩
  rw [slice_cons hp0 (by omega), slice_cons hp1 (by omega), slice_cons (h0.trans hp0) (by omega),
    slice_cons (h1.trans hp1) (by omega)]
  unfold Rfc1035.rewriteRdata
  rw [if_neg (by decide), if_pos rfl, if_neg (by decide), if_pos rfl, ← hmove, h.skip.extractName]
  cases Rfc1035.extractName pkt (pos + 2) <;> rfl

theorem rewriteRdata_soa (h : Moves pkt new move V stop [.name, .name] pos)
    (hsoa : SoaWithin pkt pos stop) {raw raw' : Bytes} :
    Rfc1035.rewriteRdata new (move pos) 6 raw' = Rfc1035.rewriteRdata pkt pos 6 raw := by
  unfold Rfc1035.rewriteRdata
  rw [if_neg (by decide), if_neg (by decide), if_pos rfl, if_neg (by decide), if_neg (by decide),
    if_pos rfl, h.extractName]
  cases hm : Rfc1035.extractName pkt pos with
  | error e => rfl
  | ok r =>
    obtain ⟨mname, p⟩ := r
    have h₂ := h.after hm
    dsimp only [Except.map]
    rw [h₂.extractName]
    cases hr : Rfc1035.extractName pkt p with
    | error e => rfl
    | ok r =>
      obtain ⟨rname, q⟩ := r
      have h₃ := h₂.after hr
      have hlen := h.length
      have hle := h₃.fits.le
      show (if move q + 20 ≤ new.length then some (_ ++ _ ++ (new.drop (move q)).take 20)
        else none) =
        if q + 20 ≤ pkt.length then some (_ ++ _ ++ (pkt.drop q).take 20) else none
      by_cases hfits : q + 20 ≤ pkt.length
      · have hinside := hsoa mname rname p q hm hr hfits
        have hslice : readSlice pkt q 20 = some ((pkt.drop q).take 20) := if_pos hfits
        have hslice' := readSlice_of_same_of_pos (by omega) hslice fun k hk => h₃.back (by omega)
        obtain ⟨hfits', hbytes, -⟩ := readSlice_eq_some hslice'
        rw [if_pos hfits', if_pos hfits, hbytes]
      · -- no bytes come in behind the name
        have htail := h.tail q (by omega)
        rw [if_neg (by omega), if_neg hfits]

/-- **`parse_rr` rewrites moved RDATA as before**, if it does not read past it. -/
theorem rewriteRdata (h : Moves pkt new move V stop (rrfilterDesc rtype) pos)
    (hsoa : rtype = 6 → SoaWithin pkt pos stop) :
    Rfc1035.rewriteRdata new (move pos) rtype (slice new (move pos) (move stop)) =
      Rfc1035.rewriteRdata pkt pos rtype (slice pkt pos stop) := by
  by_cases hname : isNameType rtype
  · have hdesc : rrfilterDesc rtype = [.name] := by
      simp only [isNameType, Bool.or_eq_true, beq_iff_eq] at hname
      rcases hname with (rfl | rfl) | rfl <;> rfl
    rw [hdesc] at h
    unfold Rfc1035.rewriteRdata
    rw [if_pos hname, if_pos hname, h.extractName]
    cases Rfc1035.extractName pkt pos <;> rfl
  by_cases hmx : rtype = 15
  · subst hmx
    exact h.rewriteRdata_mx
  by_cases hsix : rtype = 6
  · subst hsix
    exact h.rewriteRdata_soa (hsoa rfl)
  · unfold Rfc1035.rewriteRdata
    rw [if_neg hname, if_neg hname, if_neg hmx, if_neg hmx, if_neg hsix, if_neg hsix]

theorem fullRdata (h : Moves pkt new move V stop (rrfilterDesc rtype) pos)
    (hsoa : rtype = 6 → SoaWithin pkt pos stop) :
    Rrfilter.fullRdata new rtype (move pos) (move stop)
      = Rrfilter.fullRdata pkt rtype pos stop := by
  rw [Rrfilter.fullRdata, Rrfilter.fullRdata, h.rewriteRdata hsoa, h.expandRdata]

end Moves

/-! ### Records that stay -/

/-- A record that stays: it is clear of the ranges that go, its names are among those that stay, and
no other name that stays stands in it. -/
structure Stays (pkt : Bytes) (elided : Elided) (names : List NameRef) (s : Span) : Prop where
  span : spanAt pkt s.start = some s
  le : 12 ≤ s.start
  clear : Clear elided s.start s.stop
  mine : ∀ n ∈ s.names pkt, n ∈ names
  other : ∀ n ∈ names, n ∈ s.names pkt ∨ n.stop ≤ s.start ∨ s.stop ≤ n.start
  inside : s.NamesInside pkt
  walked : s.Walked pkt
  classIn : rrfilterDesc s.fixed.rtype ≠ [] → s.fixed.rclass = 1
  soa : s.fixed.rtype = 6 → SoaWithin pkt s.rdata s.stop

namespace Stays

variable {n : NameRef}

section

variable (h : Stays pkt elided names s)
include h

theorem bounds : s.start < s.nameEnd ∧ s.nameEnd + 10 ≤ s.stop ∧ s.stop ≤ pkt.length := by
  obtain ⟨-, hname, hrdata, hlen⟩ := bounds_of_spanAt h.span
  exact ⟨hname, hrdata, hlen⟩

theorem shift_add (he : Elision pkt work new elided names) (hx : s.start ≤ x)
    (hxy : x ≤ y) (hy : y ≤ s.stop) : shift elided y = shift elided x + (y - x) :=
  he.ranges.shift_of_clear h.clear hx hxy hy

theorem byte (he : Elision pkt work new elided names) (hx : s.start ≤ x)
    (hx' : x < s.stop) (hout : ∀ n ∈ s.names pkt, x < n.start ∨ n.stop ≤ x) :
    new[shift elided x]? = pkt[x]? := by
  have hle := h.le
  refine he.byte (by omega) (h.clear.not_within hx hx') fun n hn htarget => ?_
  obtain ⟨t, ht⟩ := ne_none_iff_exists'.mp htarget
  have hsite := site_bounds (he.self n hn) ht
  obtain hmine | hlt | hlt := h.other n hn
  · have := hout n hmine
    omega
  · omega
  · omega

theorem mem_names_of_rdataNames (hn : n ∈ s.rdataNames pkt) : n ∈ s.names pkt := by
  have hdesc : rrfilterDesc s.fixed.rtype ≠ [] := by
    intro hnone
    rw [Span.rdataNames, hnone] at hn
    cases hn
  rw [Span.names, if_pos (h.classIn hdesc)]
  exact mem_append_right _ hn

/-- A name of the record is its owner name, or stands in its RDATA. -/
theorem name_cases (hn : n ∈ s.names pkt) : n.stop = s.nameEnd ∨ n ∈ s.rdataNames pkt := by
  obtain ⟨owner, howner, -, hstop⟩ := nameAt_of_spanAt h.span
  rw [Span.names, howner, toList_some] at hn
  rcases mem_cons.mp hn with rfl | hn
  · exact .inl hstop
  · split at hn
    · exact .inr hn
    · cases hn

theorem byte_fixed (he : Elision pkt work new elided names) {k : ℕ}
    (hk : k < 10) : new[shift elided s.nameEnd + k]? = pkt[s.nameEnd + k]? := by
  have hbounds := h.bounds
  have hmove := h.shift_add he hbounds.1.le (Nat.le_add_right s.nameEnd k) (by omega)
  rw [Nat.add_sub_cancel_left] at hmove
  rw [← hmove]
  refine h.byte he (by omega) (by omega) fun n hn => ?_
  obtain hstop | hrdata := h.name_cases hn
  · omega
  · have hstart : s.nameEnd + 10 ≤ n.start := (mem_rdataNames hrdata).2
    omega

theorem moves (he : Elision pkt work new elided names) :
    Moves pkt new (shift elided) (fun p => ∃ n ∈ names, Visits pkt n.start p) s.stop
      (rrfilterDesc s.fixed.rtype) s.rdata where
  names := he.relocation
  length := h.bounds.2.2
  tail x hx := by
    rw [he.length]
    exact shift_le_add hx
  shift x y hx hxy hy := by
    have hbounds := h.bounds
    unfold Span.rdata at hx
    exact h.shift_add he (by omega) hxy hy
  byte x hx hx' hout := by
    have hbounds := h.bounds
    unfold Span.rdata at hx
    refine h.byte he (by omega) hx' fun n hn => ?_
    obtain hstop | hrdata := h.name_cases hn
    · omega
    · exact hout n hrdata
  visited n hn := ⟨n, h.mine n (h.mem_names_of_rdataNames hn), .refl⟩
  fits := by
    have hinside : ∀ n ∈ s.rdataNames pkt, n.stop ≤ s.stop :=
      fun n hn => h.inside n (h.mem_names_of_rdataNames hn)
    by_cases hdesc : rrfilterDesc s.fixed.rtype = []
    · rw [hdesc]
      exact h.bounds.2.1
    · exact fits_of_allWalk (getLast?_rrfilterDesc _) (h.walked (h.classIn hdesc))
        (fun hnone => absurd hnone hdesc) hinside

theorem shift_stop_le (he : Elision pkt work new elided names) :
    shift elided s.stop ≤ new.length := by
  have hbounds := h.bounds
  have hle := h.le
  have hlast : new[shift elided (s.stop - 1)]? = work[s.stop - 1]? :=
    he.moved _ (by omega) (h.clear.not_within (by omega) (by omega))
  rw [getElem?_eq_getElem
    (show s.stop - 1 < work.length by rw [he.rewritten.length]; omega)] at hlast
  have hlt := (List.getElem?_eq_some_iff.mp hlast).1
  have hmove := h.shift_add he (show s.start ≤ s.stop - 1 by omega) (Nat.sub_le _ _) le_rfl
  omega

/-- **A record that stays is the same record**, at its new place. -/
theorem decompressedRr (he : Elision pkt work new elided names)
    (hread : Rrfilter.decompressedRr pkt s.start = .ok (full, s.stop)) :
    Rrfilter.decompressedRr new (shift elided s.start) = .ok (full, shift elided s.stop) := by
  obtain ⟨rr, name, p, hrr, hname, rfl⟩ := decompressedRr_eq_ok.mp hread
  obtain ⟨p', rdlen, raw, hname', htype, hclass, httl, hrdlen, hraw, -, hstop⟩ :=
    parseRr_eq_ok.mp hrr
  obtain ⟨rfl, rfl⟩ := Prod.mk.inj (Except.ok.inj (hname.symm.trans hname'))
  -- both readings of the record agree about the end of its owner name and about its type
  obtain ⟨s', hspan', -, htype', -⟩ := spanAt_of_parseRr hrr
  obtain rfl := some.inj (h.span.symm.trans hspan')
  have hend : s.nameEnd = p := by
    have hskip := (spanAt_eq_some.mp h.span).2.1
    rw [skipName_of_extractName hname] at hskip
    exact (Except.ok.inj hskip).symm
  subst hend
  have hbounds := h.bounds
  obtain ⟨owner, howner, hstart, -⟩ := nameAt_of_spanAt h.span
  have hV : ∃ n ∈ names, Visits pkt n.start s.start := by
    refine ⟨owner, h.mine owner ?_, hstart ▸ .refl⟩
    rw [Span.names, howner]
    exact mem_append_left _ (mem_singleton_self _)
  have hnewname :
      extractName new (shift elided s.start) = .ok (rr.name, shift elided s.nameEnd) := by
    rw [he.relocation.extractName hV, hname]
    rfl
  have hfixed : ∀ {j k : ℕ}, j + k < 10 →
      new[shift elided s.nameEnd + j + k]? = pkt[s.nameEnd + j + k]? := by
    intro j k hk
    rw [add_assoc, add_assoc]
    exact h.byte_fixed he hk
  have hmove : shift elided s.stop = shift elided s.nameEnd + 10 + rdlen.toNat := by
    rw [h.shift_add he hbounds.1.le (by omega) le_rfl]
    omega
  have hrdata : shift elided (s.nameEnd + 10) = shift elided s.nameEnd + 10 := by
    rw [h.shift_add he hbounds.1.le (Nat.le_add_right _ _) hbounds.2.1, Nat.add_sub_cancel_left]
  have hle := h.shift_stop_le he
  have hnewraw : readSlice new (shift elided s.nameEnd + 10) rdlen.toNat = some _ :=
    if_pos (by omega)
  have hnew : parseRr new (shift elided s.start) = .ok
      ({ rr with rdata := decompressRdata new (shift elided s.nameEnd + 10) rr.rtype _ },
        shift elided s.stop) :=
    parseRr_eq_ok.mpr ⟨_, rdlen, _, hnewname, readU16Be_of_same htype fun k hk =>
      hfixed (j := 0) (by omega), readU16Be_of_same hclass fun k hk => hfixed (by omega),
      readU32Be_of_same httl fun k hk => hfixed (by omega),
      readU16Be_of_same hrdlen fun k hk => hfixed (by omega), hnewraw, rfl, hmove⟩
  have hfull := (h.moves he).fullRdata h.soa
  refine decompressedRr_eq_ok.mpr ⟨_, _, _, hnew, hnewname, ?_⟩
  rw [Span.rdata, hrdata, htype'] at hfull
  rw [hfull]

end

end Stays

end DnsmasqRs.Rrfilter
