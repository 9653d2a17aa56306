import DnsmasqRs.Rfc1035.Packet
import DnsmasqRs.Rfc1035.Equiv.NameWalk

/-!
# Writing a packet and parsing it again

`DnsPacket.parse` undoes `DnsPacket.write` on well-formed packets (`parse_write`).  A packet that
came out of `parse` need not be well-formed, and `parse_write_of_parse_iff` says exactly when such a
packet survives: its question and owner names have no empty label, and every record's RDATA is
either in the form `writeName` produces or not rewritten at the place where `write` puts it.

The RDATA rewriting reads the whole packet from an offset, so the statements carry the offset each
item is written at (`AtOffsets`).
-/

namespace DnsmasqRs.Rfc1035

open Wire Utf8 ByteCursor DnsProtocol Fallible List Option

/-! ### Items at their offsets -/

/-- `P` holds of every item of the list at the offset it is written at. -/
def AtOffsets {α : Type} (P : ℕ → α → Prop) (emit : α → Bytes) : ℕ → List α → Prop
  | _, [] => True
  | pos, x :: xs => P pos x ∧ AtOffsets P emit (pos + (emit x).length) xs

theorem AtOffsets.of_forall {α : Type} {P : ℕ → α → Prop} {emit : α → Bytes} {xs : List α}
    (h : ∀ x ∈ xs, ∀ pos, P pos x) (pos : ℕ) : AtOffsets P emit pos xs := by
  induction xs generalizing pos with
  | nil => exact trivial
  | cons x xs ih => exact ⟨h x (by simp) pos, ih (fun y hy => h y (by simp [hy])) _⟩

theorem atOffsets_const {α : Type} {P : α → Prop} {emit : α → Bytes} {xs : List α} {pos : ℕ} :
    AtOffsets (fun _ => P) emit pos xs ↔ ∀ x ∈ xs, P x := by
  induction xs generalizing pos with
  | nil => simp [AtOffsets]
  | cons x xs ih => simp [AtOffsets, ih]

theorem okOr_eq_ok {α : Type} {o : Option α} {e : DnsError} {a : α} :
    okOr o e = .ok a ↔ o = some a := by
  cases o <;> simp [okOr]

section Section

variable {α : Type} {parseOne : ℕ → Except DnsError (α × ℕ)}

theorem parseMany_succ_eq_ok {count pos e : ℕ} {ys : List α} :
    parseMany parseOne (count + 1) pos = .ok (ys, e) ↔
      ∃ x e₁ xs, parseOne pos = .ok (x, e₁) ∧ parseMany parseOne count e₁ = .ok (xs, e)
        ∧ ys = x :: xs := by
  show (parseOne pos >>= fun y => parseMany parseOne count y.2 >>= fun ys =>
    Except.ok (y.1 :: ys.1, ys.2)) = Except.ok (ys, e) ↔ _
  rw [bind_eq_ok]
  constructor
  · rintro ⟨⟨x, e₁⟩, hx, h⟩
    obtain ⟨⟨xs, e₂⟩, hxs, h⟩ := bind_eq_ok.mp h
    obtain ⟨rfl, rfl⟩ := Prod.mk.inj (Except.ok.inj h)
    exact ⟨x, e₁, xs, hx, hxs, rfl⟩
  · rintro ⟨x, e₁, xs, hx, hxs, rfl⟩
    exact ⟨(x, e₁), hx, bind_eq_ok.mpr ⟨(xs, e), hxs, rfl⟩⟩

/-- **A section**: the items are read back, each at its own offset, iff each of them is. -/
theorem parseMany_eq_iff {emit : α → Bytes} {P : ℕ → α → Prop} {pkt rest : Bytes} {xs : List α}
    (hone : ∀ x ∈ xs, ∀ pos rest, pkt.drop pos = emit x ++ rest →
      ∀ e, parseOne pos = .ok (x, e) ↔ P pos x ∧ e = pos + (emit x).length)
    {pos : ℕ} (hdrop : pkt.drop pos = xs.flatMap emit ++ rest) :
    ∀ e, parseMany parseOne xs.length pos = .ok (xs, e)
      ↔ AtOffsets P emit pos xs ∧ e = pos + (xs.flatMap emit).length := by
  induction xs generalizing pos with
  | nil =>
    intro e
    show Except.ok ([], pos) = Except.ok ([], e) ↔ True ∧ e = pos + 0
    simp [eq_comm]
  | cons x xs ih =>
    intro e
    rw [flatMap_cons, append_assoc] at hdrop
    have hx := hone x (by simp) pos _ hdrop
    have hxs := ih (fun y hy => hone y (by simp [hy])) (drop_of_drop_append hdrop)
    rw [flatMap_cons, length_append, ← Nat.add_assoc, length_cons, parseMany_succ_eq_ok]
    constructor
    · rintro ⟨y, e₁, ys, hy, hys, heq⟩
      obtain ⟨rfl, rfl⟩ := List.cons.inj heq
      obtain ⟨hP, rfl⟩ := (hx e₁).mp hy
      obtain ⟨hAll, rfl⟩ := (hxs e).mp hys
      exact ⟨⟨hP, hAll⟩, rfl⟩
    · rintro ⟨⟨hP, hAll⟩, rfl⟩
      exact ⟨x, _, xs, (hx _).mpr ⟨hP, rfl⟩, (hxs _).mpr ⟨hAll, rfl⟩, rfl⟩

/-- What holds of every item the parser can return holds of all items of a section, and there are
as many as asked for. -/
theorem parseMany_forall {P : α → Prop} (hone : ∀ pos x e, parseOne pos = .ok (x, e) → P x)
    {count pos e : ℕ} {xs : List α} (h : parseMany parseOne count pos = .ok (xs, e)) :
    xs.length = count ∧ ∀ x ∈ xs, P x := by
  induction count generalizing pos xs with
  | zero =>
    obtain ⟨rfl, -⟩ := Prod.mk.inj (Except.ok.inj h)
    simp
  | succ count ih =>
    obtain ⟨y, e₁, ys, hy, hys, rfl⟩ := parseMany_succ_eq_ok.mp h
    obtain ⟨hlen, hall⟩ := ih hys
    refine ⟨by rw [length_cons, hlen], ?_⟩
    intro x hx
    rcases mem_cons.mp hx with rfl | hx
    · exact hone _ _ _ hy
    · exact hall x hx

end Section

/-! ### Questions -/

variable {pkt rest : Bytes} {pos : ℕ}

theorem parseQuestion_eq_ok {q : DnsQuestion} {e : ℕ} : parseQuestion pkt pos = .ok (q, e) ↔
      ∃ p, extractName pkt pos = .ok (q.name, p) ∧ readU16Be pkt p = some q.qtype
        ∧ readU16Be pkt (p + 2) = some q.qclass ∧ e = p + 4 := by
  constructor
  · intro h
    obtain ⟨⟨name, p⟩, hname, h⟩ := bind_eq_ok.mp h
    obtain ⟨qtype, htype, h⟩ := bind_eq_ok.mp h
    obtain ⟨qclass, hclass, h⟩ := bind_eq_ok.mp h
    obtain ⟨rfl, rfl⟩ := Prod.mk.inj (Except.ok.inj h)
    exact ⟨p, hname, okOr_eq_ok.mp htype, okOr_eq_ok.mp hclass, rfl⟩
  · rintro ⟨p, hname, htype, hclass, rfl⟩
    exact bind_eq_ok.mpr ⟨_, hname, bind_eq_ok.mpr ⟨_, okOr_eq_ok.mpr htype,
      bind_eq_ok.mpr ⟨_, okOr_eq_ok.mpr hclass, rfl⟩⟩⟩

/-- A written question is read back iff its name has no empty label. -/
theorem parseQuestion_eq_iff {q : DnsQuestion} (hfits : FitsWire q.name)
    (hdrop : pkt.drop pos = writeQuestion q ++ rest) (e : ℕ) : parseQuestion pkt pos = .ok (q, e)
      ↔ GoodLabels q.name ∧ e = pos + (writeQuestion q).length := by
  unfold writeQuestion at hdrop
  simp only [append_assoc] at hdrop
  have htype := drop_of_drop_append hdrop
  have hclass := drop_of_drop_append htype
  have hname := extractName_writeName_iff hfits hdrop
  have hlen : (writeQuestion q).length = (writeName q.name).length + 4 := by
    simp [writeQuestion]
  rw [parseQuestion_eq_ok, hlen]
  constructor
  · rintro ⟨p, hp, -, -, rfl⟩
    have hgood := hname.mp ⟨p, hp⟩
    refine ⟨hgood, ?_⟩
    rw [extractName_writeName hgood hfits hdrop] at hp
    obtain ⟨-, rfl⟩ := Prod.mk.inj (Except.ok.inj hp)
    rfl
  · rintro ⟨hgood, rfl⟩
    exact ⟨_, extractName_writeName hgood hfits hdrop, readU16Be_of_drop htype,
      readU16Be_of_drop hclass, rfl⟩

/-! ### RDATA -/

/-- A name the wire format can carry and the codec gives back. -/
def WireName (name : Str) : Prop := GoodLabels name ∧ FitsWire name

instance (name : Str) : Decidable (WireName name) :=
  inferInstanceAs (Decidable (GoodLabels name ∧ FitsWire name))

/-- The RDATA of NS, CNAME, PTR, MX and SOA records in the uncompressed form `writeName`
produces; other types have no form of their own. -/
def CanonicalRdata (rtype : UInt16) (rdata : Bytes) : Prop :=
  if isNameType rtype then ∃ n, WireName n ∧ rdata = writeName n
  else if rtype = 15 then ∃ pref n, WireName n ∧ rdata = be16 pref ++ writeName n
  else if rtype = 6 then
    ∃ mname rname fixed, WireName mname ∧ WireName rname ∧ fixed.length = 20
      ∧ rdata = writeName mname ++ writeName rname ++ fixed
  else True

/-- The decoder reads a name there and the encoder would write the same bytes: then the name is one
the codec gives back, and the decoder stops right behind it. -/
theorem wireName_of_extractName {n : Str} {e : ℕ} (h : extractName pkt pos = .ok (n, e))
    (hdrop : pkt.drop pos = writeName n ++ rest) : WireName n ∧ e = pos + (writeName n).length := by
  have hfits := extractName_fits h
  have hgood := (extractName_writeName_iff hfits hdrop).mp ⟨e, h⟩
  refine ⟨⟨hgood, hfits⟩, ?_⟩
  rw [extractName_writeName hgood hfits hdrop] at h
  exact (Prod.mk.inj (Except.ok.inj h)).2.symm

variable {rtype : UInt16}

/-- Canonical RDATA is rewritten to itself, wherever it stands. -/
theorem decompressRdata_of_canonical {rdata : Bytes}
    (h : CanonicalRdata rtype rdata) (hdrop : pkt.drop pos = rdata ++ rest) :
    decompressRdata pkt pos rtype rdata = rdata := by
  unfold CanonicalRdata at h
  unfold decompressRdata rewriteRdata
  split at h
  · next hname =>
    obtain ⟨n, ⟨hgood, hfits⟩, rfl⟩ := h
    simp [hname, extractName_writeName hgood hfits hdrop]
  · next hname =>
    split at h
    · next hmx =>
      obtain ⟨pref, n, ⟨hgood, hfits⟩, rfl⟩ := h
      rw [append_assoc] at hdrop
      have hn : pkt.drop (pos + 2) = writeName n ++ rest := drop_of_drop_append hdrop
      rw [if_neg hname, if_pos hmx]
      simp only [be16, cons_append, extractName_writeName hgood hfits hn, ofBe16_be16]
      rfl
    · next hmx =>
      split at h
      · next hsoa =>
        obtain ⟨mname, rname, fixed, ⟨hmgood, hmfits⟩, ⟨hrgood, hrfits⟩, hfixed, rfl⟩ := h
        simp only [append_assoc] at hdrop
        have hr := drop_of_drop_append hdrop
        have hf := drop_of_drop_append hr
        have hle := le_length_of_drop_append hf (by rw [← length_pos_iff]; omega)
        rw [hfixed] at hle
        have htake : (fixed ++ rest).take 20 = fixed := by rw [← hfixed, take_left]
        rw [if_neg hname, if_neg hmx, if_pos hsoa]
        simp [extractName_writeName hmgood hmfits hdrop, extractName_writeName hrgood hrfits hr, hf,
          htake, hle]
      · next hsoa => simp [hname, hmx, hsoa]

/-- RDATA that is rewritten to itself is canonical. -/
theorem canonical_of_rewriteRdata {rdata : Bytes}
    (h : rewriteRdata pkt pos rtype rdata = some rdata) (hdrop : pkt.drop pos = rdata ++ rest) :
    CanonicalRdata rtype rdata := by
  unfold rewriteRdata at h
  unfold CanonicalRdata
  split at h
  · next hname =>
    split at h
    · next n e hn =>
      obtain rfl := some.inj h
      rw [if_pos hname]
      exact ⟨n, (wireName_of_extractName hn hdrop).1, rfl⟩
    · cases h
  · next hname =>
    rw [if_neg hname]
    split at h
    · next hmx =>
      rw [if_pos hmx]
      split at h
      · next p0 p1 tail =>
        split at h
        · next n e hn =>
          rw [be16_ofBe16] at h
          obtain rfl : writeName n = tail := by simpa using h
          refine ⟨ofBe16 p0 p1, n, ?_, by rw [be16_ofBe16]; rfl⟩
          have hdrop' : pkt.drop (pos + 2) = writeName n ++ rest :=
            drop_succ_of_drop (drop_succ_of_drop hdrop)
          exact (wireName_of_extractName hn hdrop').1
        · cases h
      · cases h
    · next hmx =>
      rw [if_neg hmx]
      split at h
      · next hsoa =>
        rw [if_pos hsoa]
        split at h
        · next mname p hm =>
          split at h
          · next rname p' hr =>
            split at h
            · obtain rfl := some.inj h
              simp only [append_assoc] at hdrop
              obtain ⟨hmname, rfl⟩ := wireName_of_extractName hm hdrop
              have hrname := wireName_of_extractName hr (drop_of_drop_append hdrop)
              refine ⟨mname, rname, _, hmname, hrname.1, ?_, rfl⟩
              rw [length_take, length_drop]
              omega
            · cases h
          · cases h
        · cases h
      · next hsoa =>
        rw [if_neg hsoa]
        exact trivial

/-- **RDATA, exactly**: it is kept iff it is canonical or not rewritten at all. -/
theorem decompressRdata_eq_iff {rdata : Bytes} (hdrop : pkt.drop pos = rdata ++ rest) :
    decompressRdata pkt pos rtype rdata = rdata
      ↔ CanonicalRdata rtype rdata ∨ rewriteRdata pkt pos rtype rdata = none := by
  constructor
  · intro h
    unfold decompressRdata at h
    cases hrw : rewriteRdata pkt pos rtype rdata with
    | none => exact Or.inr rfl
    | some r =>
      rw [hrw] at h
      obtain rfl : r = rdata := h
      exact Or.inl (canonical_of_rewriteRdata hrw hdrop)
  · rintro (h | h)
    · exact decompressRdata_of_canonical h hdrop
    · rw [decompressRdata, h]
      rfl

/-! ### Records -/

theorem parseRr_eq_ok {rr : DnsRr} {e : ℕ} : parseRr pkt pos = .ok (rr, e) ↔
      ∃ p rdlen raw, extractName pkt pos = .ok (rr.name, p) ∧ readU16Be pkt p = some rr.rtype
        ∧ readU16Be pkt (p + 2) = some rr.rclass ∧ readU32Be pkt (p + 4) = some rr.ttl
        ∧ readU16Be pkt (p + 8) = some rdlen ∧ readSlice pkt (p + 10) rdlen.toNat = some raw
        ∧ rr.rdata = decompressRdata pkt (p + 10) rr.rtype raw ∧ e = p + 10 + rdlen.toNat := by
  constructor
  · intro h
    obtain ⟨⟨name, p⟩, hname, h⟩ := bind_eq_ok.mp h
    obtain ⟨rtype, htype, h⟩ := bind_eq_ok.mp h
    obtain ⟨rclass, hclass, h⟩ := bind_eq_ok.mp h
    obtain ⟨ttl, httl, h⟩ := bind_eq_ok.mp h
    obtain ⟨rdlen, hrdlen, h⟩ := bind_eq_ok.mp h
    obtain ⟨raw, hraw, h⟩ := bind_eq_ok.mp h
    obtain ⟨rfl, rfl⟩ := Prod.mk.inj (Except.ok.inj h)
    exact ⟨p, rdlen, raw, hname, okOr_eq_ok.mp htype, okOr_eq_ok.mp hclass, okOr_eq_ok.mp httl,
      okOr_eq_ok.mp hrdlen, okOr_eq_ok.mp hraw, rfl, rfl⟩
  · rintro ⟨p, rdlen, raw, hname, htype, hclass, httl, hrdlen, hraw, hrdata, rfl⟩
    refine bind_eq_ok.mpr ⟨_, hname, bind_eq_ok.mpr ⟨_, okOr_eq_ok.mpr htype,
      bind_eq_ok.mpr ⟨_, okOr_eq_ok.mpr hclass, bind_eq_ok.mpr ⟨_, okOr_eq_ok.mpr httl,
        bind_eq_ok.mpr ⟨_, okOr_eq_ok.mpr hrdlen, bind_eq_ok.mpr ⟨_, okOr_eq_ok.mpr hraw, ?_⟩⟩⟩⟩⟩⟩
    show Except.ok (_, _) = Except.ok (rr, _)
    rw [← hrdata]

/-- What makes a record written at `pos` of `pkt` come back: an owner name without empty labels,
and RDATA that is canonical or not rewritten at its offset. -/
def RrStable (pkt : Bytes) (pos : ℕ) (rr : DnsRr) : Prop :=
  GoodLabels rr.name ∧ (CanonicalRdata rr.rtype rr.rdata ∨
      rewriteRdata pkt (pos + (writeName rr.name).length + 10) rr.rtype rr.rdata = none)

/-- **A record, exactly**: a written record is read back iff it is stable where it stands. -/
theorem parseRr_eq_iff {rr : DnsRr} (hfits : FitsWire rr.name) (hlen : rr.rdata.length < 65536)
    (hdrop : pkt.drop pos = writeRr rr ++ rest) (e : ℕ) :
    parseRr pkt pos = .ok (rr, e) ↔ RrStable pkt pos rr ∧ e = pos + (writeRr rr).length := by
  unfold writeRr at hdrop
  simp only [append_assoc] at hdrop
  have htype := drop_of_drop_append hdrop
  have hclass : pkt.drop (pos + (writeName rr.name).length + 2) = _ := drop_of_drop_append htype
  have httl : pkt.drop (pos + (writeName rr.name).length + 4) = _ := drop_of_drop_append hclass
  have hrdlen : pkt.drop (pos + (writeName rr.name).length + 8) = _ := drop_of_drop_append httl
  have hrdata : pkt.drop (pos + (writeName rr.name).length + 10) = _ := drop_of_drop_append hrdlen
  have hpos : pos + (writeName rr.name).length + 8 + 2 ≤ pkt.length :=
    le_length_of_drop_append hrdlen (by simp [be16])
  -- the RDLENGTH field is the length of the data, which does not wrap
  have hval : (UInt16.ofNat rr.rdata.length).toNat = rr.rdata.length := toNat_ofNat_of_lt hlen
  have hslice : readSlice pkt (pos + (writeName rr.name).length + 10) rr.rdata.length
      = some rr.rdata := readSlice_of_drop hrdata (by omega)
  have hsize : (writeRr rr).length = (writeName rr.name).length + 10 + rr.rdata.length := by
    simp only [writeRr, length_append, length_be16, length_be32]
  rw [parseRr_eq_ok, RrStable, ← decompressRdata_eq_iff hrdata]
  constructor
  · rintro ⟨p, rdlen, raw, hname, -, -, -, hrdlen', hraw, hdec, rfl⟩
    have hgood := (extractName_writeName_iff hfits hdrop).mp ⟨p, hname⟩
    rw [extractName_writeName hgood hfits hdrop] at hname
    obtain ⟨-, rfl⟩ := Prod.mk.inj (Except.ok.inj hname)
    rw [readU16Be_of_drop hrdlen] at hrdlen'
    obtain rfl := some.inj hrdlen'
    rw [hval] at hraw ⊢
    rw [hslice] at hraw
    obtain rfl := some.inj hraw
    exact ⟨⟨hgood, hdec.symm⟩, by omega⟩
  · rintro ⟨⟨hgood, hdec⟩, rfl⟩
    refine ⟨_, _, _, extractName_writeName hgood hfits hdrop, readU16Be_of_drop htype,
      readU16Be_of_drop hclass, readU32Be_of_drop httl, readU16Be_of_drop hrdlen, ?_, hdec.symm, ?_⟩
    · rw [hval]
      exact hslice
    · omega

theorem length_rewriteRdata {raw r : Bytes} (h : rewriteRdata pkt pos rtype raw = some r) :
    r.length ≤ 530 := by
  have hname : ∀ {p n e}, extractName pkt p = .ok (n, e) → (writeName n).length ≤ 255 := by
    intro p n e hn
    have := (extractName_fits hn).2
    have := length_writeName_le n
    omega
  unfold rewriteRdata at h
  split at h
  · split at h
    · next n e hn =>
      rw [← some.inj h]
      have := hname hn
      omega
    · cases h
  · split at h
    · split at h
      · split at h
        · next n e hn =>
          rw [← some.inj h, length_append, length_be16]
          have := hname hn
          omega
        · cases h
      · cases h
    · split at h
      · split at h
        · next mname p hm =>
          split at h
          · next rname p' hr =>
            split at h
            · rw [← some.inj h, length_append, length_append, length_take]
              have := hname hm
              have := hname hr
              omega
            · cases h
          · cases h
        · cases h
      · cases h

theorem parseRr_bounds {rr : DnsRr} {e : ℕ} (h : parseRr pkt pos = .ok (rr, e)) :
    FitsWire rr.name ∧ rr.rdata.length < 65536 := by
  obtain ⟨p, rdlen, raw, hname, -, -, -, -, hraw, hrdata, -⟩ := parseRr_eq_ok.mp h
  refine ⟨extractName_fits hname, ?_⟩
  rw [hrdata, decompressRdata]
  cases hrw : rewriteRdata pkt (p + 10) rr.rtype raw with
  | none =>
    show raw.length < 65536
    rw [(readSlice_eq_some hraw).2.2]
    exact rdlen.toNat_lt
  | some r =>
    show r.length < 65536
    have := length_rewriteRdata hrw
    omega

/-! ### The RDLENGTH bytes -/

section Window

/-- Where the names and fixed fields end that `parse_rr` reads in place of an RDATA that it
rewrites. -/
def rdataEnd (pkt : Bytes) (rdataStart : ℕ) (rtype : UInt16) (rawRdata : Bytes) : Option ℕ :=
  if isNameType rtype then (extractName pkt rdataStart).toOption.map (·.2)
  else if rtype = 15 then
    if rawRdata.length < 2 then none else (extractName pkt (rdataStart + 2)).toOption.map (·.2)
  else if rtype = 6 then do
    let (_, pos) ← (extractName pkt rdataStart).toOption
    let (_, pos) ← (extractName pkt pos).toOption
    if pos + 20 ≤ pkt.length then some (pos + 20) else none
  else none

/-- A name as it stands in a packet: labels, and behind them the root or a compression pointer.  The
top two bits of a byte tell a pointer from the length of a label. -/
inductive InPlace : Bytes → Prop where
  | root : InPlace [0]
  | pointer {high low : UInt8} (htype : high &&& 0xC0 = 0xC0) : InPlace [high, low]
  | label {len : UInt8} {label rest : Bytes} (hpos : len ≠ 0) (htype : len &&& 0xC0 = 0)
      (hlen : label.length = len.toNat) (h : InPlace rest) : InPlace (len :: (label ++ rest))

/-- The RDATA is what the type prescribes and no more: a name for NS, CNAME and PTR, a preference
and a name for MX, two names and 20 bytes of fixed fields for SOA. -/
def WellShaped (rtype : UInt16) (raw : Bytes) : Prop :=
  if isNameType rtype then InPlace raw
  else if rtype = 15 then InPlace (raw.drop 2)
  else ∃ mname rname fixed, raw = mname ++ (rname ++ fixed) ∧ InPlace mname ∧ InPlace rname
    ∧ fixed.length = 20

variable {raw : Bytes} {start fin e : ℕ} {rr : DnsRr}

theorem isSome_rewriteRdata :
    (rewriteRdata pkt start rtype raw).isSome = (rdataEnd pkt start rtype raw).isSome := by
  unfold rewriteRdata rdataEnd
  split
  · cases extractName pkt start <;> rfl
  · split
    · match raw with
      | [] | [_] => rfl
      | _ :: _ :: rest =>
        cases extractName pkt (start + 2) <;> rfl
    · split
      · cases extractName pkt start with
        | error => rfl
        | ok r =>
          dsimp only [Except.toOption, bind_eq_bind, bind_some]
          cases extractName pkt r.2 with
          | error => rfl
          | ok r =>
            dsimp only [bind_some]
            split <;> rfl
      · rfl

theorem drop_of_readU8 (h : readU8 pkt pos = some b) : pkt.drop pos = b :: pkt.drop (pos + 1) := by
  obtain ⟨hlt, rfl⟩ := List.getElem?_eq_some_iff.mp h
  exact drop_eq_getElem_cons hlt

/-- **What `skip_name` steps over** is a name in place. -/
theorem skipName_eq_ok : skipName pkt pos = .ok e ↔
    ∃ name rest, InPlace name ∧ pkt.drop pos = name ++ rest ∧ e = pos + name.length := by
  constructor
  · intro h
    fun_induction skipName pkt pos with
    | case1 | case3 | case5 | case7 => cases h
    | case2 pos hb =>
      cases h
      exact ⟨[0], _, .root, (drop_of_readU8 hb), rfl⟩
    | case4 pos b hb hb0 hptr low hlow =>
      cases h
      refine ⟨[b, low], pkt.drop (pos + 2), .pointer hptr, ?_, rfl⟩
      rw [drop_of_readU8 hb, drop_of_readU8 hlow]
      rfl
    | case6 pos b hb hb0 hptr htype hle ih =>
      obtain ⟨name, rest, hname, hdrop, rfl⟩ := ih h
      have hlen : ((pkt.drop (pos + 1)).take b.toNat).length = b.toNat := by
        rw [length_take, length_drop]
        omega
      refine ⟨b :: ((pkt.drop (pos + 1)).take b.toNat ++ name), rest, ?_, ?_, ?_⟩
      · exact .label hb0 (not_ne_iff.mp htype) hlen hname
      · rw [drop_of_readU8 hb, cons_append, append_assoc, ← hdrop,
          ← drop_drop (i := b.toNat), take_append_drop]
      · rw [length_cons, length_append, hlen]
        omega
  · rintro ⟨name, rest, hname, hdrop, rfl⟩
    induction hname generalizing pos with
    | root =>
      rw [skipName, readU8_of_drop hdrop]
      rfl
    | @pointer high low htype =>
      have hlow : pkt.drop (pos + 1) = low :: rest := by
        rw [← drop_drop, hdrop]
        rfl
      rw [skipName, readU8_of_drop hdrop]
      simp only [ne_zero_of_pointer htype, htype, readU8_of_drop hlow, ↓reduceIte]
      rfl
    | @label len label more hpos htype hlen h ih =>
      have hnext : pkt.drop (pos + 1 + len.toNat) = more ++ rest := by
        rw [← drop_drop, ← drop_drop, hdrop, ← hlen]
        simp
      have hle : pos + 1 + len.toNat ≤ pkt.length := by
        have hcount := congrArg length hdrop
        simp only [length_drop, length_cons, length_append, hlen] at hcount
        omega
      rw [skipName, readU8_of_drop hdrop]
      simp only [hpos, htype, hle, ↓reduceIte, ne_eq, not_true_eq_false]
      rw [if_neg (by decide), ih hnext]
      simp only [length_cons, length_append, hlen]
      congr 1
      omega

/-- A name takes up the bytes of the packet up to `fin` exactly if these are a name in place. -/
theorem skipName_eq_ok_iff_inPlace (hle : pos ≤ fin) (hfin : fin ≤ pkt.length) :
    skipName pkt pos = .ok fin ↔ InPlace (slice pkt pos fin) := by
  rw [skipName_eq_ok, slice, drop_take]
  constructor
  · rintro ⟨name, rest, hname, hdrop, rfl⟩
    rw [hdrop, Nat.add_sub_cancel_left, take_left]
    exact hname
  · intro h
    refine ⟨_, _, h, (take_append_drop _ _).symm, ?_⟩
    rw [length_take, length_drop]
    omega

theorem skipName_of_toOption (h : (extractName pkt pos).toOption.map (·.2) = some e) :
    skipName pkt pos = .ok e := by
  obtain ⟨⟨name, e'⟩, hname, rfl⟩ := map_eq_some_iff.mp h
  exact skipName_of_extractName (toOption_eq_some.mp hname)

/-- The names and fixed fields of a SOA record take up the bytes up to `fin` exactly if these have
the shape. -/
theorem skipName_skipName_iff {p q : ℕ} (hle : start ≤ fin) (hfin : fin ≤ pkt.length)
    (hm : skipName pkt start = .ok p) (hr : skipName pkt p = .ok q) :
    q + 20 = fin ↔ ∃ mname rname fixed, slice pkt start fin = mname ++ (rname ++ fixed)
      ∧ InPlace mname ∧ InPlace rname ∧ fixed.length = 20 := by
  constructor
  · rintro rfl
    obtain ⟨mname, rest, hmname, hdrop, rfl⟩ := skipName_eq_ok.mp hm
    obtain ⟨rname, rest', hrname, hdrop', rfl⟩ := skipName_eq_ok.mp hr
    have hrest : rest = rname ++ rest' := by
      rw [← hdrop', ← drop_drop, hdrop, drop_left]
    have hlen : rest'.length = pkt.length - (start + mname.length + rname.length) := by
      have := congrArg length hdrop'
      rw [length_drop, length_append] at this
      omega
    refine ⟨mname, rname, rest'.take 20, ?_, hmname, hrname, ?_⟩
    · rw [slice, drop_take, hdrop, hrest,
        show start + mname.length + rname.length + 20 - start
          = mname.length + (rname.length + 20) by
          omega,
        take_length_add_append, take_length_add_append]
    · rw [length_take, hlen]
      omega
  · rintro ⟨mname, rname, fixed, hraw, hmname, hrname, hfixed⟩
    have hlen := congrArg length hraw
    rw [slice, drop_take] at hraw
    rw [slice, length_drop, length_take, length_append, length_append, hfixed] at hlen
    have hdrop : pkt.drop start = mname ++ (rname ++ (fixed ++ pkt.drop fin)) := by
      have hsplit := take_append_drop (fin - start) (pkt.drop start)
      rw [hraw, drop_drop, Nat.add_sub_cancel' hle] at hsplit
      rw [← hsplit, append_assoc, append_assoc]
    obtain rfl := Except.ok.inj (hm.symm.trans (skipName_eq_ok.mpr ⟨mname, _, hmname, hdrop, rfl⟩))
    have hdrop' : pkt.drop (start + mname.length) = rname ++ (fixed ++ pkt.drop fin) := by
      rw [← drop_drop, hdrop, drop_left]
    obtain rfl := Except.ok.inj (hr.symm.trans (skipName_eq_ok.mpr ⟨rname, _, hrname, hdrop', rfl⟩))
    omega

/-- **The bytes that are read are the RDATA of the record** exactly if the RDATA is what its type
prescribes: RDLENGTH, which says where it ends, is not looked at. -/
theorem rdataEnd_eq_iff {p : ℕ} {rdata : Bytes} (h : parseRr pkt pos = .ok (rr, fin))
    (hskip : skipName pkt pos = .ok p)
    (hrewrites : rewriteRdata pkt (p + 10) rr.rtype (slice pkt (p + 10) fin) = some rdata) :
    rr.rdata = rdata ∧ (rdataEnd pkt (p + 10) rr.rtype (slice pkt (p + 10) fin) = some fin
      ↔ WellShaped rr.rtype (slice pkt (p + 10) fin)) := by
  obtain ⟨p', rdlen, raw, hname, -, -, -, -, hraw, hrdata, rfl⟩ := parseRr_eq_ok.mp h
  obtain rfl := Except.ok.inj (hskip.symm.trans (skipName_of_extractName hname))
  have hfin := (readSlice_eq_some hraw).1
  have hslice : slice pkt (p + 10) (p + 10 + rdlen.toNat) = raw := by
    rw [(readSlice_eq_some hraw).2.1, slice, drop_take, Nat.add_sub_cancel_left]
  rw [hslice] at hrewrites
  refine ⟨by rw [hrdata, decompressRdata, hrewrites]; rfl, ?_⟩
  have hsome : (rdataEnd pkt (p + 10) rr.rtype raw).isSome := by
    rw [← isSome_rewriteRdata, hrewrites]
    rfl
  obtain ⟨e, he⟩ := isSome_iff_exists.mp hsome
  rw [hslice, he, some.injEq]
  unfold rdataEnd at he
  unfold WellShaped
  split at he
  · next hn =>
    have hone := skipName_of_toOption he
    rw [if_pos hn, ← hslice, ← skipName_eq_ok_iff_inPlace (by omega) hfin, hone, Except.ok.injEq]
  · next hn =>
    rw [if_neg hn]
    split at he
    · next hmx =>
      split at he
      · cases he
      · next hlen =>
        have hone := skipName_of_toOption he
        have hdrop : raw.drop 2 = slice pkt (p + 10 + 2) (p + 10 + rdlen.toNat) := by
          rw [← hslice, slice, slice, drop_drop]
        have htwo : raw.length = rdlen.toNat := (readSlice_eq_some hraw).2.2
        rw [if_pos hmx, hdrop, ← skipName_eq_ok_iff_inPlace (by omega) hfin, hone, Except.ok.injEq]
    · next hmx =>
      rw [if_neg hmx]
      split at he
      · obtain ⟨⟨mname, q₁⟩, hm, he⟩ := bind_eq_some_iff.mp he
        obtain ⟨⟨rname, q₂⟩, hr, he⟩ := bind_eq_some_iff.mp he
        dsimp only at he
        split at he
        · obtain rfl := some.inj he
          rw [← hslice]
          exact skipName_skipName_iff (by omega) hfin
            (skipName_of_extractName (toOption_eq_some.mp hm))
            (skipName_of_extractName (toOption_eq_some.mp hr))
        · cases he
      · cases he

/-- A CNAME record for the root, with an RDATA of `rdlen` bytes. -/
def rootCname (rdlen : UInt8) : Bytes := [0, 0, 5, 0, 1, 0, 0, 0, 0, 0, rdlen, 0]

/-- Without RDATA, the byte behind the record is read in its place. -/
theorem rdataEnd_rootCname : parseRr (rootCname 0) 0 = .ok (⟨[], 5, 1, 0, [0]⟩, 11)
    ∧ rewriteRdata (rootCname 0) 11 5 [] = some [0] ∧ rdataEnd (rootCname 0) 11 5 [] = some 12 := by
  decide +kernel

/-- With the one byte of the root as RDATA, that byte is what is read. -/
theorem rdataEnd_eq_iff_rootCname :
    rdataEnd (rootCname 1) 11 5 (slice (rootCname 1) 11 12) = some 12 := by
  have hparse : parseRr (rootCname 1) 0 = .ok (⟨[], 5, 1, 0, [0]⟩, 12) := by decide +kernel
  have hrewrites : rewriteRdata (rootCname 1) 11 5 (slice (rootCname 1) 11 12) = some [0] := by
    decide +kernel
  exact (rdataEnd_eq_iff hparse (show skipName _ 0 = .ok 1 by decide +kernel) hrewrites).2.mpr
    (show InPlace [0] from .root)

end Window

/-! ### Packets -/

namespace DnsPacket

/-- A packet whose fields all fit the wire: names within the limits, counts and RDATA lengths
below 2¹⁶.  This is what `parse` returns (`parse_encodable`) and `write` can express. -/
structure Encodable (p : DnsPacket) : Prop where
  questions_fit : ∀ q ∈ p.questions, FitsWire q.name
  records_fit : ∀ rr ∈ p.answers ++ p.authority ++ p.additional, FitsWire rr.name
    ∧ rr.rdata.length < 65536
  questions_len : p.questions.length < 65536
  answers_len : p.answers.length < 65536
  authority_len : p.authority.length < 65536
  additional_len : p.additional.length < 65536

/-- The offsets at which `write` puts the answers, the authority and the additional section. -/
def answersAt (p : DnsPacket) : ℕ := 12 + (p.questions.flatMap writeQuestion).length

@[inherit_doc answersAt]
def authorityAt (p : DnsPacket) : ℕ := p.answersAt + (p.answers.flatMap writeRr).length

@[inherit_doc answersAt]
def additionalAt (p : DnsPacket) : ℕ := p.authorityAt + (p.authority.flatMap writeRr).length

/-- What survives being written and parsed again: question names without empty labels and records
that are stable at the offsets `write` puts them at. -/
structure Lossless (p : DnsPacket) : Prop where
  questions : ∀ q ∈ p.questions, GoodLabels q.name
  answers : AtOffsets (RrStable p.write) writeRr p.answersAt p.answers
  authority : AtOffsets (RrStable p.write) writeRr p.authorityAt p.authority
  additional : AtOffsets (RrStable p.write) writeRr p.additionalAt p.additional

/-- The four sections of two packets agree. -/
def SameSections (p p₂ : DnsPacket) : Prop :=
  p₂.questions = p.questions ∧ p₂.answers = p.answers ∧ p₂.authority = p.authority
    ∧ p₂.additional = p.additional

/-- `DnsPacket::parse`, with the reader of records as a parameter. -/
def parseWith (readRr : ℕ → Except DnsError (DnsRr × ℕ)) (pkt : Bytes) :
    Except DnsError DnsPacket := do
  let header ← okOr (DnsHeader.fromBytes pkt) .packetTooShort
  let (questions, offset) ← parseMany (parseQuestion pkt) header.qdcount.toNat 12
  let (answers, offset) ← parseMany readRr header.ancount.toNat offset
  let (authority, offset) ← parseMany readRr header.nscount.toNat offset
  let (additional, _) ← parseMany readRr header.arcount.toNat offset
  return { header, questions, answers, authority, additional }

variable {p : DnsPacket}

theorem parseWith_eq_ok {readRr : ℕ → Except DnsError (DnsRr × ℕ)} : parseWith readRr pkt = .ok p ↔
      DnsHeader.fromBytes pkt = some p.header ∧ ∃ e₁ e₂ e₃ e₄,
        parseMany (parseQuestion pkt) p.header.qdcount.toNat 12 = .ok (p.questions, e₁)
        ∧ parseMany readRr p.header.ancount.toNat e₁ = .ok (p.answers, e₂)
        ∧ parseMany readRr p.header.nscount.toNat e₂ = .ok (p.authority, e₃)
        ∧ parseMany readRr p.header.arcount.toNat e₃ = .ok (p.additional, e₄) := by
  constructor
  · intro h
    obtain ⟨header, hheader, h⟩ := bind_eq_ok.mp h
    obtain ⟨⟨qs, e₁⟩, hqs, h⟩ := bind_eq_ok.mp h
    obtain ⟨⟨an, e₂⟩, han, h⟩ := bind_eq_ok.mp h
    obtain ⟨⟨ns, e₃⟩, hns, h⟩ := bind_eq_ok.mp h
    obtain ⟨⟨ar, e₄⟩, har, h⟩ := bind_eq_ok.mp h
    obtain rfl := Except.ok.inj h
    exact ⟨okOr_eq_ok.mp hheader, e₁, e₂, e₃, e₄, hqs, han, hns, har⟩
  · rintro ⟨hheader, e₁, e₂, e₃, e₄, hqs, han, hns, har⟩
    exact bind_eq_ok.mpr ⟨_, okOr_eq_ok.mpr hheader, bind_eq_ok.mpr ⟨_, hqs,
      bind_eq_ok.mpr ⟨_, han, bind_eq_ok.mpr ⟨_, hns, bind_eq_ok.mpr ⟨_, har, rfl⟩⟩⟩⟩⟩

theorem parse_eq_ok : parse pkt = .ok p ↔ DnsHeader.fromBytes pkt = some p.header ∧ ∃ e₁ e₂ e₃ e₄,
        parseMany (parseQuestion pkt) p.header.qdcount.toNat 12 = .ok (p.questions, e₁)
        ∧ parseMany (parseRr pkt) p.header.ancount.toNat e₁ = .ok (p.answers, e₂)
        ∧ parseMany (parseRr pkt) p.header.nscount.toNat e₂ = .ok (p.authority, e₃)
        ∧ parseMany (parseRr pkt) p.header.arcount.toNat e₃ = .ok (p.additional, e₄) :=
  parseWith_eq_ok

theorem parse_encodable (h : parse pkt = .ok p) : p.Encodable := by
  obtain ⟨-, e₁, e₂, e₃, e₄, hqs, han, hns, har⟩ := parse_eq_ok.mp h
  have hq := parseMany_forall (P := fun q => FitsWire q.name) (fun pos q e hone => by
    obtain ⟨_, hname, -⟩ := parseQuestion_eq_ok.mp hone
    exact extractName_fits hname) hqs
  have hrr : ∀ {n pos e xs}, parseMany (parseRr pkt) n pos = .ok (xs, e) →
      xs.length = n ∧ ∀ rr ∈ xs, FitsWire rr.name ∧ rr.rdata.length < 65536 :=
    fun h => parseMany_forall (fun _ _ _ => parseRr_bounds) h
  constructor
  · exact hq.2
  · intro rr hmem
    rcases mem_append.mp hmem with hmem | hmem
    · rcases mem_append.mp hmem with hmem | hmem
      · exact (hrr han).2 rr hmem
      · exact (hrr hns).2 rr hmem
    · exact (hrr har).2 rr hmem
  · rw [hq.1]; exact p.header.qdcount.toNat_lt
  · rw [(hrr han).1]; exact p.header.ancount.toNat_lt
  · rw [(hrr hns).1]; exact p.header.nscount.toNat_lt
  · rw [(hrr har).1]; exact p.header.arcount.toNat_lt

theorem drop_write (p : DnsPacket) :
    p.write.drop 12 = p.questions.flatMap writeQuestion ++ (p.answers.flatMap writeRr
      ++ (p.authority.flatMap writeRr ++ p.additional.flatMap writeRr)) := by
  have h : p.write.drop 0 = p.writeHeader.toBytes ++ (p.questions.flatMap writeQuestion
      ++ (p.answers.flatMap writeRr
        ++ (p.authority.flatMap writeRr ++ p.additional.flatMap writeRr))) := by
    simp [write]
  have hdrop := drop_of_drop_append h
  rwa [DnsHeader.length_toBytes, Nat.zero_add] at hdrop

theorem fromBytes_write (p : DnsPacket) : DnsHeader.fromBytes p.write = some p.writeHeader := by
  unfold write
  exact DnsHeader.fromBytes_toBytes_append

/-- A section of records written at `pos` of `pkt` is read back iff its records are stable. -/
theorem parseMany_parseRr_iff {rrs : List DnsRr}
    (hfit : ∀ rr ∈ rrs, FitsWire rr.name ∧ rr.rdata.length < 65536)
    (hdrop : pkt.drop pos = rrs.flatMap writeRr ++ rest) (e : ℕ) :
    parseMany (parseRr pkt) rrs.length pos = .ok (rrs, e)
      ↔ AtOffsets (RrStable pkt) writeRr pos rrs ∧ e = pos + (rrs.flatMap writeRr).length :=
  parseMany_eq_iff (fun rr hrr _ _ h => parseRr_eq_iff (hfit rr hrr).1 (hfit rr hrr).2 h) hdrop e

theorem Encodable.counts (h : p.Encodable) : p.writeHeader.qdcount.toNat = p.questions.length
      ∧ p.writeHeader.ancount.toNat = p.answers.length
      ∧ p.writeHeader.nscount.toNat = p.authority.length
      ∧ p.writeHeader.arcount.toNat = p.additional.length :=
  ⟨toNat_ofNat_of_lt h.questions_len, toNat_ofNat_of_lt h.answers_len,
    toNat_ofNat_of_lt h.authority_len, toNat_ofNat_of_lt h.additional_len⟩

/-- **Packets, exactly**: what is written is parsed to a packet with the same sections iff it is
lossless, and that packet then differs in the counts of its header at most. -/
theorem Encodable.parse_write_eq_iff (h : p.Encodable) (p₂ : DnsPacket) :
    parse p.write = .ok p₂ ∧ SameSections p p₂
      ↔ p₂ = { p with header := p.writeHeader } ∧ p.Lossless := by
  obtain ⟨hqd, han, hns, har⟩ := h.counts
  have hdropQ := drop_write p
  have hdropA : p.write.drop p.answersAt = _ := drop_of_drop_append hdropQ
  have hdropN : p.write.drop p.authorityAt = _ := drop_of_drop_append hdropA
  have hdropR : p.write.drop p.additionalAt = p.additional.flatMap writeRr ++ [] := by
    rw [append_nil]
    exact drop_of_drop_append hdropN
  have hQ := parseMany_eq_iff (P := fun _ q => GoodLabels q.name)
    (fun q hq _ _ hd => parseQuestion_eq_iff (h.questions_fit q hq) hd) hdropQ
  have hA := parseMany_parseRr_iff (fun rr hrr => h.records_fit rr (by simp [hrr])) hdropA
  have hN := parseMany_parseRr_iff (fun rr hrr => h.records_fit rr (by simp [hrr])) hdropN
  have hR := parseMany_parseRr_iff (fun rr hrr => h.records_fit rr (by simp [hrr])) hdropR
  rw [atOffsets_const] at hQ
  constructor
  · rintro ⟨hparse, hqs, hans, haut, hadd⟩
    obtain ⟨hheader, e₁, e₂, e₃, e₄, h₁, h₂, h₃, h₄⟩ := parse_eq_ok.mp hparse
    rw [fromBytes_write] at hheader
    obtain hheader := some.inj hheader
    rw [← hheader, hqd, hqs] at h₁
    rw [← hheader, han, hans] at h₂
    rw [← hheader, hns, haut] at h₃
    rw [← hheader, har, hadd] at h₄
    -- each section starts where the one before it ended
    obtain ⟨hgood, rfl⟩ := (hQ e₁).mp h₁
    obtain ⟨hansOk, rfl⟩ := (hA e₂).mp h₂
    obtain ⟨hautOk, rfl⟩ := (hN e₃).mp h₃
    obtain ⟨haddOk, -⟩ := (hR e₄).mp h₄
    refine ⟨?_, hgood, hansOk, hautOk, haddOk⟩
    cases p₂
    simp_all
  · rintro ⟨rfl, hlossless⟩
    refine ⟨parse_eq_ok.mpr ⟨fromBytes_write p, p.answersAt, p.authorityAt, p.additionalAt,
      p.additionalAt + (p.additional.flatMap writeRr).length, ?_, ?_, ?_, ?_⟩, rfl, rfl, rfl, rfl⟩
    · show parseMany _ p.writeHeader.qdcount.toNat 12 = _
      rw [hqd]
      exact (hQ _).mpr ⟨hlossless.questions, rfl⟩
    · show parseMany _ p.writeHeader.ancount.toNat _ = _
      rw [han]
      exact (hA _).mpr ⟨hlossless.answers, rfl⟩
    · show parseMany _ p.writeHeader.nscount.toNat _ = _
      rw [hns]
      exact (hN _).mpr ⟨hlossless.authority, rfl⟩
    · show parseMany _ p.writeHeader.arcount.toNat _ = _
      rw [har]
      exact (hR _).mpr ⟨hlossless.additional, rfl⟩

/-! ### Well-formed packets -/

/-- A well-formed packet: every name is empty or made of non-empty labels of at most 63 bytes and
within 255 bytes on the wire, the counts and RDATA lengths fit in 16 bits, and the RDATA with names
in it is uncompressed. -/
structure WellFormed (p : DnsPacket) : Prop where
  questions : ∀ q ∈ p.questions, WireName q.name
  records : ∀ rr ∈ p.answers ++ p.authority ++ p.additional,
    WireName rr.name ∧ rr.rdata.length < 65536 ∧ CanonicalRdata rr.rtype rr.rdata
  questions_len : p.questions.length < 65536
  answers_len : p.answers.length < 65536
  authority_len : p.authority.length < 65536
  additional_len : p.additional.length < 65536

theorem WellFormed.encodable (h : p.WellFormed) : p.Encodable where
  questions_fit q hq := (h.questions q hq).2
  records_fit rr hrr := ⟨(h.records rr hrr).1.2, (h.records rr hrr).2.1⟩
  questions_len := h.questions_len
  answers_len := h.answers_len
  authority_len := h.authority_len
  additional_len := h.additional_len

theorem WellFormed.lossless (h : p.WellFormed) : p.Lossless := by
  have hstable :
      ∀ rr ∈ p.answers ++ p.authority ++ p.additional, ∀ pos, RrStable p.write pos rr := by
    intro rr hrr pos
    exact ⟨(h.records rr hrr).1.1, Or.inl (h.records rr hrr).2.2⟩
  constructor
  · intro q hq
    exact (h.questions q hq).1
  all_goals exact AtOffsets.of_forall (fun rr hrr => hstable rr (by simp [hrr])) _

/-- **The round trip of well-formed packets**: parsing what was written gives the packet back, with
the section lengths for the counts in its header. -/
theorem parse_write {p : DnsPacket} (h : p.WellFormed) :
    parse p.write = .ok { p with header := p.writeHeader }
      ∧ p.writeHeader.qdcount.toNat = p.questions.length
      ∧ p.writeHeader.ancount.toNat = p.answers.length
      ∧ p.writeHeader.nscount.toNat = p.authority.length
      ∧ p.writeHeader.arcount.toNat = p.additional.length :=
  ⟨((h.encodable.parse_write_eq_iff _).mpr ⟨rfl, h.lossless⟩).1, h.encodable.counts⟩

/-- The answer to a query for `w.ex`: an alias for `ex`, its address, and the zone's SOA record. -/
def aliasReply : DnsPacket where
  header := { id := 7, hb3 := 0x81, hb4 := 0x80, qdcount := 0, ancount := 0, nscount := 0,
              arcount := 0 }
  questions := [⟨['w', '.', 'e', 'x'], 1, 1⟩]
  answers :=
    [⟨['w', '.', 'e', 'x'], 5, 1, 60, [2, 101, 120, 0]⟩, ⟨['e', 'x'], 1, 1, 60, [1, 2, 3, 4]⟩]
  authority := [⟨['e', 'x'], 6, 1, 60, [0, 1, 97, 0] ++ List.replicate 20 0⟩]
  additional := []

theorem aliasReply_wellFormed : aliasReply.WellFormed where
  questions := by decide
  records := by
    intro rr hrr
    have hmem : rr = ⟨['w', '.', 'e', 'x'], 5, 1, 60, [2, 101, 120, 0]⟩
      ∨ rr = ⟨['e', 'x'], 1, 1, 60, [1, 2, 3, 4]⟩
        ∨ rr = ⟨['e', 'x'], 6, 1, 60, [0, 1, 97, 0] ++ List.replicate 20 0⟩ := by
      simpa [aliasReply] using hrr
    rcases hmem with rfl | rfl | rfl
    · exact ⟨by decide, by decide, ['e', 'x'], by decide, rfl⟩
    · exact ⟨by decide, by decide, trivial⟩
    · exact ⟨by decide, by decide, [], ['a'], List.replicate 20 0, by decide, by decide, rfl, rfl⟩
  questions_len := by decide
  answers_len := by decide
  authority_len := by decide
  additional_len := by decide

theorem parse_write_aliasReply : aliasReply.WellFormed
      ∧ parse aliasReply.write = .ok { aliasReply with header := aliasReply.writeHeader } :=
  ⟨aliasReply_wellFormed, (parse_write aliasReply_wellFormed).1⟩

/-! ### Packets that came from the wire -/

/-- **The round trip of parsed packets, exactly**: a packet that `parse` returned is written and
parsed again with the same sections iff it is lossless. -/
theorem parse_write_of_parse_iff {p : DnsPacket} (h : parse pkt = .ok p) :
    (∃ p₂, parse p.write = .ok p₂ ∧ SameSections p p₂) ↔ p.Lossless := by
  have hiff := (parse_encodable h).parse_write_eq_iff
  constructor
  · rintro ⟨p₂, hp₂⟩
    exact ((hiff p₂).mp hp₂).2
  · intro hlossless
    exact ⟨_, (hiff _).mpr ⟨rfl, hlossless⟩⟩

/-- A query for the single label `a.`, type A, class IN: the label's second byte is a dot. -/
def dottedQuery : Bytes :=
  [0, 7, 1, 0, 0, 1, 0, 0, 0, 0, 0, 0, 2, 97, 46, 0, 0, 1, 0, 1]

/-- What `dottedQuery` is parsed to. -/
def dottedQueryParsed : DnsPacket where
  header := { id := 7, hb3 := 1, hb4 := 0, qdcount := 1, ancount := 0, nscount := 0, arcount := 0 }
  questions := [⟨['a', '.'], 1, 1⟩]
  answers := []
  authority := []
  additional := []

/-- `dottedQuery` is parsed, but written again it asks for `a` with type 0 and class 256: the empty
label behind the dot ends the name one byte early. -/
theorem not_sameSections_dottedQuery :
    parse dottedQuery = .ok dottedQueryParsed ∧ parse dottedQueryParsed.write
          = .ok { dottedQueryParsed with questions := [⟨['a'], 0, 256⟩] }
      ∧ ¬ ∃ p₂, parse dottedQueryParsed.write = .ok p₂ ∧ SameSections dottedQueryParsed p₂ := by
  have hparse : parse dottedQuery = .ok dottedQueryParsed := by decide +kernel
  have hagain : parse dottedQueryParsed.write
      = .ok { dottedQueryParsed with questions := [⟨['a'], 0, 256⟩] } := by decide +kernel
  refine ⟨hparse, hagain, ?_⟩
  rintro ⟨p₂, hp₂, hsame⟩
  rw [hagain] at hp₂
  obtain rfl := Except.ok.inj hp₂
  exact absurd hsame.1 (by decide)

/-- A query for the label `a`, type A, class IN, survives. -/
theorem sameSections_plainQuery :
    parse [0, 7, 1, 0, 0, 1, 0, 0, 0, 0, 0, 0, 1, 97, 0, 0, 1, 0, 1]
        = .ok { dottedQueryParsed with questions := [⟨['a'], 1, 1⟩] }
      ∧ ∃ p₂, parse (write { dottedQueryParsed with questions := [⟨['a'], 1, 1⟩] }) = .ok p₂
        ∧ SameSections { dottedQueryParsed with questions := [⟨['a'], 1, 1⟩] } p₂ := by
  have hparse : parse [0, 7, 1, 0, 0, 1, 0, 0, 0, 0, 0, 0, 1, 97, 0, 0, 1, 0, 1]
      = .ok { dottedQueryParsed with questions := [⟨['a'], 1, 1⟩] } := by decide +kernel
  exact ⟨hparse, (parse_write_of_parse_iff hparse).mpr ⟨by decide, trivial, trivial, trivial⟩⟩

end DnsPacket

end DnsmasqRs.Rfc1035
