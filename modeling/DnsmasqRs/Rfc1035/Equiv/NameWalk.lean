import DnsmasqRs.Lib.Fallible
import DnsmasqRs.Rfc1035.Equiv.Name

/-!
# Names that are moved

A name on the wire is walked label by label until its root label or a pointer (`nameStep`,
`walkName`). When a packet is taken apart and put together again, the names in it move and their
pointers are rewritten.  `Relocation` says what has to hold for every position the decoder gets to;
then names decode as before (`Relocation.extractName`, `Relocation.rawLabels`), and what follows a
name is where it is expected.
-/

namespace DnsmasqRs.Rfc1035

open Wire Utf8 ByteCursor Fallible List Option

/-! ### Steps -/

/-- What stands at a position of a name. -/
inductive NameStep where
  /-- No name can go on here. -/
  | bad
  | root
  | pointer (target : ℕ)
  | label (next : ℕ)
  deriving DecidableEq

/-- The number of bytes in a bit-string label. -/
def bitStringSize (count : UInt8) : ℕ := if count = 0 then 32 else (count.toNat - 1) / 8 + 1

/-- One step of `check_name`. -/
def nameStep (pkt : Bytes) (pos : ℕ) : NameStep :=
  match readU8 pkt pos with
  | none => .bad
  | some b =>
    if b &&& 0xC0 = 0xC0 then
      match readU8 pkt (pos + 1) with
      | none => .bad
      | some low => .pointer ((b &&& 0x3F).toNat * 256 + low.toNat)
    else if b &&& 0xC0 = 0x80 then .bad
    else if b &&& 0xC0 = 0x40 then
      match readU8 pkt (pos + 1) with
      | none => .bad
      | some count =>
        if b &&& 0x3F ≠ 1 ∨ pkt.length < pos + 2 + bitStringSize count then .bad
        else .label (pos + 2 + bitStringSize count)
    else
      let len := (b &&& 0x3F).toNat
      if pkt.length < pos + 1 + len then .bad
      else if len = 0 then .root
      else .label (pos + 1 + len)

variable {pkt : Bytes} {pos next : ℕ}

theorem labelType_spec (b : UInt8) :
    (b &&& 0xC0 = 0xC0 ∨ b &&& 0xC0 = 0x80 ∨ b &&& 0xC0 = 0x40 ∨ b &&& 0xC0 = 0)
      ∧ (b &&& 0xC0 = 0 → (b &&& 0x3F).toNat = b.toNat) ∧ ((b &&& 0x3F).toNat = 0 → b &&& 0xC0 = 0 →
        b = 0) := by
  revert b
  apply forall_byte
  decide +kernel

theorem lt_length_of_nameStep (h : nameStep pkt pos ≠ .bad) : pos < pkt.length := by
  unfold nameStep at h
  split at h
  · exact absurd rfl h
  · next b hb => exact (List.getElem?_eq_some_iff.mp hb).1

theorem nameStep_eq_root : nameStep pkt pos = .root ↔ readU8 pkt pos = some 0 := by
  constructor
  · intro h
    unfold nameStep at h
    split at h
    · cases h
    · next b hb =>
      obtain ⟨htype, -, hzero⟩ := labelType_spec b
      split_ifs at h with hptr hres hbit
      · split at h <;> cases h
      · split at h
        · cases h
        · split at h <;> cases h
      · dsimp only at h
        split_ifs at h with hlen hnull
        rw [hb, hzero hnull (by tauto)]
  · intro h
    have hlt := (List.getElem?_eq_some_iff.mp h).1
    unfold nameStep
    rw [h]
    simp
    omega

variable {t : ℕ}

theorem nameStep_eq_pointer : nameStep pkt pos = .pointer t ↔
    ∃ b low, readU8 pkt pos = some b ∧ b &&& 0xC0 = 0xC0 ∧ readU8 pkt (pos + 1) = some low
      ∧ t = (b &&& 0x3F).toNat * 256 + low.toNat := by
  constructor
  · intro h
    unfold nameStep at h
    split at h
    · cases h
    · next b hb =>
      split_ifs at h with hptr hres hbit
      · split at h
        · cases h
        · next low hlow => exact ⟨b, low, hb, hptr, hlow, (NameStep.pointer.inj h).symm⟩
      · split at h
        · cases h
        · split at h <;> cases h
      · dsimp only at h
        split_ifs at h
  · rintro ⟨b, low, hb, hptr, hlow, rfl⟩
    unfold nameStep
    rw [hb]
    simp only [hptr, ↓reduceIte, hlow]

theorem nameStep_eq_label :
    nameStep pkt pos = .label next ↔ next ≤ pkt.length ∧ ∃ b, readU8 pkt pos = some b
      ∧ ((b ≠ 0 ∧ b &&& 0xC0 = 0 ∧ next = pos + 1 + b.toNat) ∨ (b &&& 0xC0 = 0x40 ∧ b &&& 0x3F = 1
          ∧ ∃ count, readU8 pkt (pos + 1) = some count
            ∧ next = pos + 2 + bitStringSize count)) := by
  constructor
  · intro h
    unfold nameStep at h
    split at h
    · cases h
    · next b hb =>
      obtain ⟨htype, hsize, -⟩ := labelType_spec b
      split_ifs at h with hptr hres hbit
      · split at h <;> cases h
      · split at h
        · cases h
        · next count hcount =>
          split_ifs at h with hbad
          obtain rfl := NameStep.label.inj h
          rw [not_or, not_ne_iff, not_lt] at hbad
          exact ⟨hbad.2, b, hb, .inr ⟨hbit, hbad.1, count, hcount, rfl⟩⟩
      · dsimp only at h
        split_ifs at h with hlen hnull
        obtain rfl := NameStep.label.inj h
        have hplain : b &&& 0xC0 = 0 := by tauto
        rw [hsize hplain] at hlen hnull ⊢
        refine ⟨by omega, b, hb, .inl ⟨?_, hplain, rfl⟩⟩
        rintro rfl
        exact hnull rfl
  · rintro ⟨hle, b, hb, ⟨hne, hplain, rfl⟩ | ⟨hbit, hone, count, hcount, rfl⟩⟩
    · have hlen : b.toNat ≠ 0 := fun h => hne (UInt8.toNat_inj.mp h)
      unfold nameStep
      rw [hb]
      simp only [hplain, (labelType_spec b).2.1 hplain]
      rw [if_neg (by decide), if_neg (by decide), if_neg (by decide), if_neg (by omega),
        if_neg hlen]
    · unfold nameStep
      rw [hb]
      simp only [hbit, hcount, hone]
      rw [if_neg (by decide), if_neg (by decide), if_pos trivial, if_neg (by simpa using hle)]

theorem bounds_of_label (h : nameStep pkt pos = .label next) : pos < next ∧ next ≤ pkt.length := by
  obtain ⟨hle, b, -, ⟨-, -, rfl⟩ | ⟨-, -, count, -, rfl⟩⟩ := nameStep_eq_label.mp h <;> omega

theorem bounds_of_pointer (h : nameStep pkt pos = .pointer t) : pos + 2 ≤ pkt.length := by
  obtain ⟨b, low, -, -, hlow, -⟩ := nameStep_eq_pointer.mp h
  exact (List.getElem?_eq_some_iff.mp hlow).1

theorem bounds_of_target (h : nameStep pkt pos = .pointer t) : t < 16384 := by
  obtain ⟨b, low, -, -, -, rfl⟩ := nameStep_eq_pointer.mp h
  have hhigh : (b &&& 0x3F).toNat ≤ 63 := Nat.and_le_right
  have hlow := low.toNat_lt
  omega

variable {b : UInt8}

theorem ne_zero_of_pointer (h : b &&& 0xC0 = 0xC0) : b ≠ 0 := by
  rintro rfl
  exact absurd h (by decide)

theorem nameStep_eq_bad_of_pointer (hb : readU8 pkt pos = some b) (hptr : b &&& 0xC0 = 0xC0)
    (hlow : readU8 pkt (pos + 1) = none) : nameStep pkt pos = .bad := by
  unfold nameStep
  rw [hb]
  simp only [hptr, ↓reduceIte, hlow]

theorem exists_label (hwalks : nameStep pkt pos ≠ .bad) (hb : readU8 pkt pos = some b)
    (hb0 : b ≠ 0) (hptr : b &&& 0xC0 ≠ 0xC0) : ∃ next, nameStep pkt pos = .label next := by
  cases hstep : nameStep pkt pos with
  | bad => exact absurd hstep hwalks
  | root =>
    rw [nameStep_eq_root, hb, some.injEq] at hstep
    exact absurd hstep hb0
  | pointer t =>
    obtain ⟨b', -, hb', hptr', -⟩ := nameStep_eq_pointer.mp hstep
    rw [hb, some.injEq] at hb'
    exact absurd (hb' ▸ hptr') hptr
  | label next => exact ⟨next, rfl⟩

theorem eq_of_plain (hb : readU8 pkt pos = some b) (hplain : b &&& 0xC0 = 0)
    (hstep : nameStep pkt pos = .label next) : next = pos + 1 + b.toNat := by
  obtain ⟨-, b', hb', ⟨-, -, hnext⟩ | ⟨hbit, -⟩⟩ := nameStep_eq_label.mp hstep
  · rw [hb, some.injEq] at hb'
    rw [hnext, hb']
  · rw [hb, some.injEq] at hb'
    rw [← hb', hplain] at hbit
    exact absurd hbit (by decide)

/-! ### Walks -/

/-- A name walked to its end: the offset behind it, and where it points to if it ends in a pointer.
-/
def walkName (pkt : Bytes) (pos : ℕ) : Option (ℕ × Option ℕ) :=
  match h : nameStep pkt pos with
  | .bad => none
  | .root => some (pos + 1, none)
  | .pointer t => some (pos + 2, some t)
  | .label next => walkName pkt next
  termination_by pkt.length - pos
  decreasing_by
    have := bounds_of_label h
    omega

theorem walkName_of_label (h : nameStep pkt pos = .label next) :
    walkName pkt pos = walkName pkt next := by
  rw [walkName]
  split <;> simp_all

theorem walkName_of_root (h : nameStep pkt pos = .root) :
    walkName pkt pos = some (pos + 1, none) := by
  rw [walkName]
  split <;> simp_all

theorem walkName_of_pointer (h : nameStep pkt pos = .pointer t) :
    walkName pkt pos = some (pos + 2, some t) := by
  rw [walkName]
  split <;> simp_all

/-- The positions of the labels of the name at `start`. -/
inductive Visits (pkt : Bytes) (start : ℕ) : ℕ → Prop where
  | refl : Visits pkt start start
  | label {pos next : ℕ} (h : Visits pkt start pos) (hstep : nameStep pkt pos = .label next) :
      Visits pkt start next

variable {start fin : ℕ} {target : Option ℕ}

theorem Visits.walkName_eq (h : Visits pkt start pos) : walkName pkt pos = walkName pkt start := by
  induction h with
  | refl => rfl
  | label _ hstep ih => rw [← walkName_of_label hstep, ih]

theorem Visits.le (h : Visits pkt start pos) : start ≤ pos := by
  induction h with
  | refl => exact le_rfl
  | label _ hstep ih => exact ih.trans (bounds_of_label hstep).1.le

/-- A name ends behind each of its labels, inside the packet. -/
theorem bounds_of_walkName (h : walkName pkt pos = some (fin, target)) :
    pos < fin ∧ fin ≤ pkt.length := by
  fun_induction walkName pkt pos with
  | case1 pos hstep => cases h
  | case2 pos hstep =>
    cases h
    have hne : nameStep pkt pos ≠ .bad := by
      rw [hstep]
      nofun
    have := lt_length_of_nameStep hne
    omega
  | case3 pos t hstep =>
    cases h
    have := bounds_of_pointer hstep
    omega
  | case4 pos next hstep ih =>
    have := ih h
    have := bounds_of_label hstep
    omega

theorem le_of_walkName (h : walkName pkt pos = some (fin, some t)) : pos + 2 ≤ fin := by
  fun_induction walkName pkt pos with
  | case1 | case2 => cases h
  | case3 pos t hstep =>
    cases h
    exact le_rfl
  | case4 pos next hstep ih =>
    have := ih h
    have := bounds_of_label hstep
    omega

theorem walkName_of_skipName (h : skipName pkt pos = .ok fin) :
    ∃ target, walkName pkt pos = some (fin, target) := by
  fun_induction skipName pkt pos with
  | case2 pos hb =>
    cases h
    exact ⟨none, walkName_of_root (nameStep_eq_root.mpr hb)⟩
  | case4 pos b hb hb0 hptr low hlow =>
    cases h
    exact ⟨_, walkName_of_pointer (nameStep_eq_pointer.mpr ⟨b, low, hb, hptr, hlow, rfl⟩)⟩
  | case6 pos b hb hb0 hptr htype hle ih =>
    rw [walkName_of_label
      (nameStep_eq_label.mpr ⟨hle, b, hb, .inl ⟨hb0, not_ne_iff.mp htype, rfl⟩⟩)]
    exact ih h
  | case1 | case3 | case5 | case7 => exact nomatch h

theorem skipName_of_extractNameLoop {labels : List Str} {e : Option ℕ} {hops w : ℕ} {name : Str}
    (h : extractNameLoop pkt pos labels e hops w = .ok (name, fin)) :
    (∀ x, e = some x → fin = x) ∧ (e = none → skipName pkt pos = .ok fin) := by
  fun_induction extractNameLoop pkt pos labels e hops w with
  | case2 pos labels e hops w hb =>
    cases h
    refine ⟨fun x hx => by rw [hx]; rfl, fun hnone => ?_⟩
    rw [hnone, skipName, hb]
    rfl
  | case6 pos labels e hops w b hb hb0 hptr lo hlo hhops hbound ih =>
    obtain rfl := (ih h).1 _ rfl
    refine ⟨fun x hx => by rw [hx]; rfl, fun hnone => ?_⟩
    rw [hnone, skipName, hb]
    simp only [hb0, hptr, hlo, ↓reduceIte]
    rfl
  | case10 pos labels e hops w b hb hb0 hptr htype labelBytes hslice hw label hutf ih =>
    have hle : pos + 1 + b.toNat ≤ pkt.length := (readSlice_eq_some hslice).1
    refine ⟨(ih h).1, fun hnone => ?_⟩
    rw [skipName, hb]
    simp only [hb0, htype, hle, ↓reduceIte, ne_eq, not_true_eq_false]
    exact (ih h).2 hnone
  | case1 | case3 | case4 | case5 | case7 | case8 | case9 | case11 => exact nomatch h

theorem skipName_of_extractName {name : Str} (h : extractName pkt pos = .ok (name, fin)) :
    skipName pkt pos = .ok fin :=
  (skipName_of_extractNameLoop h).2 rfl

/-- The bytes from `lo` up to `hi`. -/
def slice (pkt : Bytes) (lo hi : ℕ) : Bytes := (pkt.take hi).drop lo

/-- The labels of a name as they stand on the wire, through its pointers.  As in `extract_name`, at
most 255 pointers are followed. -/
def rawLabels (pkt : Bytes) (hops pos : ℕ) : Option (List Bytes) :=
  match h : nameStep pkt pos with
  | .bad => none
  | .root => some []
  | .pointer t => if 255 < hops + 1 then none else rawLabels pkt (hops + 1) t
  | .label next => (rawLabels pkt hops next).map (slice pkt pos next :: ·)
  -- a pointer may lead back to the front of the packet
  termination_by (256 - hops) * (pkt.length + 1) + (pkt.length - pos)
  decreasing_by
    · have hhops : 256 - hops = 256 - (hops + 1) + 1 := by omega
      rw [hhops, Nat.succ_mul]
      omega
    · have := bounds_of_label h
      omega

variable {hops : ℕ}

theorem rawLabels_of_root (h : nameStep pkt pos = .root) : rawLabels pkt hops pos = some [] := by
  rw [rawLabels]
  split <;> simp_all

theorem rawLabels_of_pointer (h : nameStep pkt pos = .pointer t) :
    rawLabels pkt hops pos = if 255 < hops + 1 then none else rawLabels pkt (hops + 1) t := by
  rw [rawLabels]
  split <;> simp_all

theorem rawLabels_of_label (h : nameStep pkt pos = .label next) :
    rawLabels pkt hops pos = (rawLabels pkt hops next).map (slice pkt pos next :: ·) := by
  rw [rawLabels]
  split <;> simp_all

/-! ### What the decoder returns -/

section Decoder

variable {labels : List Str} {e : Option ℕ} {w : ℕ} {name : Str}

theorem run_extractNameMutLoop :
    (extractNameMutLoop pkt pos labels e hops w).run.run offset =
      match extractNameLoop pkt pos labels e hops w with
      | .ok (name, fin) => (.ok name, fin)
      | .error err => (.error err, offset) := by
  fun_induction extractNameLoop pkt pos labels e hops w with
  | case6 pos labels e hops w b hb hb0 hptr lo hlo hhops hbound ih =>
    rw [extractNameMutLoop, hb]
    simp only [hb0, hptr, hlo, hhops, hbound, ↓reduceIte]
    exact ih
  | case10 pos labels e hops w b hb hb0 hptr htype labelBytes hslice hw label hutf ih =>
    rw [extractNameMutLoop, hb]
    simp only [hb0, htype, hslice, hw, hutf, ↓reduceIte]
    exact ih
  | _ =>
    rw [extractNameMutLoop]
    simp only [*, ↓reduceIte]
    rfl

theorem slice_eq_writeLabel (hb : readU8 pkt pos = some b)
    (hslice : readSlice pkt (pos + 1) b.toNat = some labelBytes)
    (hutf : fromUtf8 labelBytes = some label) :
    slice pkt pos (pos + 1 + b.toNat) = writeLabel label := by
  obtain ⟨-, hbytes, hlen⟩ := readSlice_eq_some hslice
  have hlabel := fromUtf8_eq_some_iff.mp hutf
  have hdrop : pkt.drop pos = b :: pkt.drop (pos + 1) := by
    obtain ⟨hlt, hget⟩ := List.getElem?_eq_some_iff.mp hb
    rw [drop_eq_getElem_cons hlt, hget]
  rw [slice, drop_take, hdrop, show pos + 1 + b.toNat - pos = b.toNat + 1 by omega, take_succ_cons,
    ← hbytes, hlabel, writeLabel, ← length_bytes, ← hlabel, hlen, UInt8.ofNat_toNat]

/-- The labels that the decoder has read are those on the wire. -/
theorem labelsRead_of_extractNameLoop (hread : LabelsRead labels w)
    (h : extractNameLoop pkt pos labels e hops w = .ok (name, fin)) :
    ∃ rest w', name = joinLabels (labels ++ rest) ∧ LabelsRead (labels ++ rest) w'
      ∧ rawLabels pkt hops pos = some (rest.map writeLabel) := by
  fun_induction extractNameLoop pkt pos labels e hops w with
  | case2 pos labels e hops w hb =>
    obtain ⟨rfl, -⟩ := Prod.mk.inj (Except.ok.inj h)
    rw [rawLabels_of_root (nameStep_eq_root.mpr hb)]
    exact ⟨[], w, by rw [append_nil], by rwa [append_nil], rfl⟩
  | case6 pos labels e hops w b hb hb0 hptr lo hlo hhops hbound ih =>
    rw [rawLabels_of_pointer (nameStep_eq_pointer.mpr ⟨b, lo, hb, hptr, hlo, rfl⟩), if_neg hhops]
    exact ih hread h
  | case10 pos labels e hops w b hb hb0 hptr htype labelBytes hslice hw label hutf ih =>
    have hlen : byteLen label = b.toNat := by
      rw [← length_bytes, ← fromUtf8_eq_some_iff.mp hutf]
      exact (readSlice_eq_some hslice).2.2
    have h63 := toNat_le_of_type_zero htype
    have hsnoc : LabelsRead (labels ++ [label]) (w + (b.toNat + 1)) := by
      rw [← hlen] at hw h63 ⊢
      exact hread.snoc h63 (by omega)
    obtain ⟨rest, w', hname, hrest, hraw⟩ := ih hsnoc h
    have hle := (readSlice_eq_some hslice).1
    rw [rawLabels_of_label (nameStep_eq_label.mpr ⟨hle, b, hb, .inl ⟨hb0, htype, rfl⟩⟩), hraw,
      slice_eq_writeLabel hb hslice hutf]
    refine ⟨label :: rest, w', ?_, ?_, rfl⟩
    · rwa [append_assoc] at hname
    · rwa [append_assoc] at hrest
  | case1 | case3 | case4 | case5 | case7 | case8 | case9 | case11 => exact nomatch h

theorem extractName_fits (h : extractName pkt pos = .ok (name, fin)) : FitsWire name := by
  obtain ⟨rest, w, rfl, hread, -⟩ := labelsRead_of_extractNameLoop LabelsRead.nil h
  exact hread.fits

/-- **The decoder is safe**: a name it returns has labels of at most 63 bytes that stand in the
packet, 255 bytes with their lengths and the root, and the offset moves forward inside the packet,
to where `skip_name` goes. If it fails the offset stays. -/
theorem extractNameMut_spec (pkt : Bytes) (offset : ℕ) :
    match extractNameMut pkt offset with
    | (.error _, after) => after = offset
    | (.ok name, after) =>
      offset < after ∧ after ≤ pkt.length ∧ skipName pkt offset = .ok after
        ∧ ∃ labels, rawLabels pkt 0 offset = some (labels.map writeLabel) ∧ name = joinLabels labels
          ∧ (∀ l ∈ labels, byteLen l ≤ 63) ∧ (labels.flatMap writeLabel).length + 1 ≤ 255 := by
  rw [extractNameMut, run_extractNameMutLoop]
  split
  · next hmatch =>
    split at hmatch
    · cases hmatch
    · exact (Prod.mk.inj hmatch).2.symm
  · next name after hmatch =>
    split at hmatch
    · next name' fin hloop =>
      obtain ⟨hname, rfl⟩ := Prod.mk.inj hmatch
      obtain rfl := Except.ok.inj hname
      have hskip : skipName pkt offset = .ok fin := skipName_of_extractName hloop
      obtain ⟨target, hwalk⟩ := walkName_of_skipName hskip
      obtain ⟨hlt, hle⟩ := bounds_of_walkName hwalk
      obtain ⟨labels, w, hname, hread, hraw⟩ := labelsRead_of_extractNameLoop LabelsRead.nil hloop
      refine ⟨hlt, hle, hskip, labels, hraw, hname, hread.len_le, ?_⟩
      have hw := hread.wireLen_eq
      have hle := hread.wireLen_le
      rw [length_flatMap_writeLabel]
      rw [nil_append] at hw
      omega
    · cases hmatch

end Decoder

/-! ### Reading moved bytes -/

section Moved

variable {old new : Bytes} {p p' n : ℕ}

theorem readSlice_of_same (h : readSlice old p n = some s) (hstart : p' ≤ new.length)
    (hsame : ∀ k < n, new[p' + k]? = old[p + k]?) : readSlice new p' n = some s := by
  obtain ⟨hle, rfl, -⟩ := readSlice_eq_some h
  have hle' : p' + n ≤ new.length := by
    by_contra hlt
    have hlast := hsame (new.length - p') (by omega)
    rw [getElem?_eq_none (by omega), eq_comm, getElem?_eq_none_iff] at hlast
    omega
  rw [readSlice, if_pos hle', some.injEq]
  apply ext_getElem?
  intro k
  rw [getElem?_take, getElem?_take]
  split
  · next hk => rw [getElem?_drop, getElem?_drop, hsame k hk]
  · rfl

theorem readSlice_of_same_of_pos (hn : 0 < n) (h : readSlice old p n = some s)
    (hsame : ∀ k < n, new[p' + k]? = old[p + k]?) : readSlice new p' n = some s := by
  apply readSlice_of_same h _ hsame
  have hin := (readSlice_eq_some h).1
  have hfirst := hsame 0 hn
  rw [Nat.add_zero, Nat.add_zero, getElem?_eq_getElem (show p < old.length by omega)] at hfirst
  exact (List.getElem?_eq_some_iff.mp hfirst).1.le

theorem slice_of_same (hlen : hi' = p' + (hi - p)) (hle : p ≤ hi)
    (hsame : ∀ k < hi - p, new[p' + k]? = old[p + k]?) : slice new p' hi' = slice old p hi := by
  apply ext_getElem?
  intro k
  rw [slice, slice, getElem?_drop, getElem?_drop, getElem?_take, getElem?_take]
  by_cases hk : p + k < hi
  · rw [if_pos (by omega), if_pos hk, hsame k (by omega)]
  · rw [if_neg (by omega), if_neg hk]

theorem readU16Be_of_same (h : readU16Be old p = some x)
    (hsame : ∀ k < 2, new[p' + k]? = old[p + k]?) : readU16Be new p' = some x := by
  unfold readU16Be at h ⊢
  split at h
  · next a b hslice =>
    rw [readSlice_of_same_of_pos (by omega) hslice hsame]
    exact h
  · cases h

theorem readU32Be_of_same (h : readU32Be old p = some x)
    (hsame : ∀ k < 4, new[p' + k]? = old[p + k]?) : readU32Be new p' = some x := by
  unfold readU32Be at h ⊢
  split at h
  · next a b c d hslice =>
    rw [readSlice_of_same_of_pos (by omega) hslice hsame]
    exact h
  · cases h

end Moved

/-! ### Relocation -/

/-- The names that go through the positions `V` are moved by `move`: labels keep their bytes, and a
pointer points to where its target went. -/
structure Relocation (old new : Bytes) (move : ℕ → ℕ) (V : ℕ → Prop) : Prop where
  walks : ∀ p, V p → nameStep old p ≠ .bad
  root : ∀ p, V p → nameStep old p = .root → new[move p]? = old[p]? ∧ move (p + 1) = move p + 1
  pointer : ∀ p t, V p → nameStep old p = .pointer t →
    V t ∧ nameStep new (move p) = .pointer (move t) ∧ move (p + 2) = move p + 2
  label : ∀ p next, V p → nameStep old p = .label next →
    V next ∧ move next = move p + (next - p) ∧ ∀ k, p + k < next → new[move p + k]? = old[p + k]?

namespace Relocation

variable {old new : Bytes} {move : ℕ → ℕ} {V : ℕ → Prop} {p t : ℕ}

section

variable (h : Relocation old new move V)
include h

theorem step_root (hp : V p) (hstep : nameStep old p = .root) : nameStep new (move p) = .root := by
  rw [nameStep_eq_root] at hstep ⊢
  exact ((h.root p hp (nameStep_eq_root.mpr hstep)).1).trans hstep

theorem step_label (hp : V p) (hstep : nameStep old p = .label next) :
    nameStep new (move p) = .label (move next) := by
  obtain ⟨-, hmove, hsame⟩ := h.label p next hp hstep
  obtain ⟨hlt, hle⟩ := bounds_of_label hstep
  have hlast : new[move p + (next - p - 1)]? = old[next - 1]? := by
    rw [hsame _ (by omega)]
    congr 1
    omega
  rw [getElem?_eq_getElem (show next - 1 < old.length by omega)] at hlast
  have hle' := (List.getElem?_eq_some_iff.mp hlast).1
  obtain ⟨-, b, hb, hkind⟩ := nameStep_eq_label.mp hstep
  have hb' : readU8 new (move p) = some b := (hsame 0 (by omega)).trans hb
  refine nameStep_eq_label.mpr ⟨by omega, b, hb', ?_⟩
  obtain ⟨hne, hplain, rfl⟩ | ⟨hbit, hone, count, hcount, rfl⟩ := hkind
  · exact .inl ⟨hne, hplain, by omega⟩
  · exact .inr ⟨hbit, hone, count, (hsame 1 (by omega)).trans hcount, by omega⟩

/-- **A name is walked as before**. -/
theorem walkName (hp : V p) :
    Rfc1035.walkName new (move p) = (Rfc1035.walkName old p).map fun w =>
      (move w.1, w.2.map move) := by
  fun_induction Rfc1035.walkName old p with
  | case1 p hstep => exact absurd hstep (h.walks p hp)
  | case2 p hstep =>
    rw [walkName_of_root (h.step_root hp hstep), ← (h.root p hp hstep).2]
    rfl
  | case3 p t hstep =>
    obtain ⟨-, hstep', hend⟩ := h.pointer p t hp hstep
    rw [walkName_of_pointer hstep', ← hend]
    rfl
  | case4 p next hstep ih =>
    rw [walkName_of_label (h.step_label hp hstep)]
    exact ih (h.label p next hp hstep).1

theorem slice_label (hp : V p) (hstep : nameStep old p = .label next) :
    slice new (move p) (move next) = slice old p next := by
  obtain ⟨-, hmove, hsame⟩ := h.label p next hp hstep
  exact slice_of_same hmove (bounds_of_label hstep).1.le fun k hk => hsame k (by omega)

/-- **A name has the same labels as before**. -/
theorem rawLabels (hops : ℕ) (hp : V p) :
    Rfc1035.rawLabels new hops (move p) = Rfc1035.rawLabels old hops p := by
  fun_induction Rfc1035.rawLabels old hops p with
  | case1 hops p hstep => exact absurd hstep (h.walks p hp)
  | case2 hops p hstep => rw [rawLabels_of_root (h.step_root hp hstep)]
  | case3 hops p t hstep hmany =>
      rw [rawLabels_of_pointer (h.pointer p t hp hstep).2.1, if_pos hmany]
  | case4 hops p t hstep hmany ih =>
    obtain ⟨ht, hstep', -⟩ := h.pointer p t hp hstep
    rw [rawLabels_of_pointer hstep', if_neg hmany, ih ht]
  | case5 hops p next hstep ih =>
    rw [rawLabels_of_label (h.step_label hp hstep), h.slice_label hp hstep,
      ih (h.label p next hp hstep).1]

theorem lt_length (hp : V p) : move p < new.length := by
  apply lt_length_of_nameStep
  cases hstep : nameStep old p with
  | bad => exact absurd hstep (h.walks p hp)
  | root =>
    rw [h.step_root hp hstep]
    nofun
  | pointer t =>
    rw [(h.pointer p t hp hstep).2.1]
    nofun
  | label next =>
    rw [h.step_label hp hstep]
    nofun

theorem plain (hp : V p) (hb : readU8 old p = some b)
    (hb0 : b ≠ 0) (hplain : b &&& 0xC0 = 0) (hs : readSlice old (p + 1) b.toNat = some s) :
    readU8 new (move p) = some b ∧ readSlice new (move p + 1) b.toNat = some s
      ∧ V (p + 1 + b.toNat) ∧ move (p + 1 + b.toNat) = move p + 1 + b.toNat := by
  have hstep : nameStep old p = .label (p + 1 + b.toNat) :=
    nameStep_eq_label.mpr ⟨(readSlice_eq_some hs).1, b, hb, .inl ⟨hb0, hplain, rfl⟩⟩
  obtain ⟨hnext, hmove, hsame⟩ := h.label p _ hp hstep
  refine ⟨(hsame 0 (by omega)).trans hb, ?_, hnext, by omega⟩
  apply readSlice_of_same hs (h.lt_length hp)
  intro k hk
  show new[move p + 1 + k]? = old[p + 1 + k]?
  rw [Nat.add_assoc, Nat.add_assoc]
  exact hsame (1 + k) (by omega)

/-- **A name decodes as before**, and the offset behind it has moved with it. -/
theorem extractNameLoop (labels : List Str) (e : Option ℕ) (hops w : ℕ) (hp : V p) :
    Rfc1035.extractNameLoop new (move p) labels (e.map move) hops w =
      (Rfc1035.extractNameLoop old p labels e hops w).map fun r => (r.1, move r.2) := by
  fun_induction Rfc1035.extractNameLoop old p labels e hops w with
  | case1 p labels e hops w hb =>
    have hlt := lt_length_of_nameStep (h.walks p hp)
    rw [readU8, getElem?_eq_none_iff] at hb
    omega
  | case2 p labels e hops w hb =>
    obtain ⟨hsame, hend⟩ := h.root p hp (nameStep_eq_root.mpr hb)
    have hb' : readU8 new (move p) = some 0 := hsame.trans hb
    rw [Rfc1035.extractNameLoop, hb', ← hend]
    cases e <;> rfl
  | case3 p labels e hops w b hb hb0 hptr hlo =>
    exact absurd (nameStep_eq_bad_of_pointer hb hptr hlo) (h.walks p hp)
  | case4 p labels e hops w b hb hb0 hptr lo hlo hhops =>
    have hstep := nameStep_eq_pointer.mpr ⟨b, lo, hb, hptr, hlo, rfl⟩
    obtain ⟨b', lo', hb', hptr', hlo', -⟩ := nameStep_eq_pointer.mp (h.pointer p _ hp hstep).2.1
    rw [Rfc1035.extractNameLoop, hb']
    simp only [ne_zero_of_pointer hptr', hptr', ↓reduceIte, hlo', if_pos hhops]
    rfl
  | case5 p labels e hops w b hb hb0 hptr lo hlo hhops hbound =>
    have hstep := nameStep_eq_pointer.mpr ⟨b, lo, hb, hptr, hlo, rfl⟩
    have hlt := lt_length_of_nameStep (h.walks _ (h.pointer p _ hp hstep).1)
    omega
  | case6 p labels e hops w b hb hb0 hptr lo hlo hhops hbound ih =>
    have hstep := nameStep_eq_pointer.mpr ⟨b, lo, hb, hptr, hlo, rfl⟩
    obtain ⟨ht, hstep', hend⟩ := h.pointer p _ hp hstep
    obtain ⟨b', lo', hb', hptr', hlo', htarget⟩ := nameStep_eq_pointer.mp hstep'
    have hlt := h.lt_length ht
    rw [Rfc1035.extractNameLoop, hb']
    simp only [ne_zero_of_pointer hptr', hptr', ↓reduceIte, hlo', if_neg hhops, ← htarget]
    rw [if_neg (by omega), ← ih ht, ← hend]
    cases e <;> rfl
  | case7 p labels e hops w b hb hb0 hptr htype hslice =>
    obtain ⟨next, hstep⟩ := exists_label (h.walks p hp) hb hb0 hptr
    have hle := (bounds_of_label hstep).2
    rw [eq_of_plain hb htype hstep] at hle
    rw [readSlice, if_pos hle] at hslice
    cases hslice
  | case8 p labels e hops w b hb hb0 hptr htype labelBytes hslice hw =>
    obtain ⟨hb', hslice', -⟩ := h.plain hp hb hb0 htype hslice
    rw [Rfc1035.extractNameLoop, hb']
    simp only [hb0, htype, hslice', ↓reduceIte, if_pos hw]
    rfl
  | case9 p labels e hops w b hb hb0 hptr htype labelBytes hslice hw hutf =>
    obtain ⟨hb', hslice', -⟩ := h.plain hp hb hb0 htype hslice
    rw [Rfc1035.extractNameLoop, hb']
    simp only [hb0, htype, hslice', ↓reduceIte, if_neg hw, hutf]
    rfl
  | case10 p labels e hops w b hb hb0 hptr htype labelBytes hslice hw label hutf ih =>
    obtain ⟨hb', hslice', hnext, hmove⟩ := h.plain hp hb hb0 htype hslice
    rw [Rfc1035.extractNameLoop, hb']
    simp only [hb0, htype, hslice', ↓reduceIte, if_neg hw, hutf]
    rw [if_neg (by decide), ← ih hnext, hmove]
  | case11 p labels e hops w b hb hb0 hptr htype =>
    -- A bit string: `check_name` walks it, the decoder refuses it here as there.
    obtain ⟨next, hstep⟩ := exists_label (h.walks p hp) hb hb0 hptr
    have hlt := (bounds_of_label hstep).1
    have hb' : readU8 new (move p) = some b := ((h.label p next hp hstep).2.2 0 (by omega)).trans hb
    rw [Rfc1035.extractNameLoop, hb']
    simp only [hb0, hptr, htype, ↓reduceIte]
    rfl

theorem extractName (hp : V p) :
    Rfc1035.extractName new (move p) = (Rfc1035.extractName old p).map fun r => (r.1, move r.2) :=
  h.extractNameLoop [] none 0 1 hp

end

end Relocation

end DnsmasqRs.Rfc1035
