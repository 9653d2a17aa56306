import Mathlib.Algebra.Order.BigOperators.Group.List
import DnsmasqRs.Rfc1035.Name

/-!
# Correctness of the name codec

`extractName_writeName`: a name without empty labels, encoded by `writeName` anywhere in a packet,
is what `extractName` reads there, and the offset it returns is the one after the encoding.

Names come out of `extractName` as labels joined by dots and go back into `writeName` split at the
dots.  A label that contains a dot is only cut in another place.  But one that begins or ends with a
dot, or has two in a row, leaves an *empty* label between the dots, and on the wire that is the root
label, which ends the name early: `extractName_writeName_ne` says that such a name never comes back.
`extractName_writeName_iff` puts the two together, for every name `extractName` can return
(`extractName_fits`).
-/

namespace DnsmasqRs.Rfc1035

open Wire Utf8 ByteCursor List

/-! ### Labels and dots -/

/-- A name without empty labels: the root name, or a name with no leading, trailing or doubled
dot. -/
def GoodLabels (name : Str) : Prop := name = [] ∨ ∀ l ∈ splitLabels name, l ≠ []

instance (name : Str) : Decidable (GoodLabels name) :=
  inferInstanceAs (Decidable (name = [] ∨ ∀ l ∈ splitLabels name, l ≠ []))

/-- A name within the limits of the wire format: labels of at most 63 bytes, at most 255 bytes in
all (two more than the dotted form). -/
def FitsWire (name : Str) : Prop :=
  (∀ l ∈ splitLabels name, byteLen l ≤ 63) ∧ byteLen name ≤ 253

instance (name : Str) : Decidable (FitsWire name) :=
  inferInstanceAs (Decidable ((∀ l ∈ splitLabels name, byteLen l ≤ 63) ∧ byteLen name ≤ 253))

theorem joinLabels_splitLabels (name : Str) : joinLabels (splitLabels name) = name :=
  intercalate_splitOn '.'

theorem splitLabels_ne_nil (name : Str) : splitLabels name ≠ [] := splitOn_ne_nil '.' name

@[simp] theorem joinLabels_nil : joinLabels [] = [] := rfl

@[simp] theorem joinLabels_singleton : joinLabels [l] = l := intercalate_singleton

variable {ls : List Str}

theorem joinLabels_cons (h : ls ≠ []) : joinLabels (l :: ls) = l ++ '.' :: joinLabels ls := by
  rw [joinLabels, intercalate_cons_of_ne_nil h]
  simp [joinLabels]

theorem splitLabels_joinLabels (h : ls ≠ []) :
    splitLabels (joinLabels ls) = ls.flatMap splitLabels := by
  induction ls with
  | nil => exact absurd rfl h
  | cons l ls ih =>
    rcases eq_or_ne ls [] with rfl | hne
    · simp
    · rw [joinLabels_cons hne, splitLabels, splitOn_append_cons_self, flatMap_cons, ← ih hne]
      rfl

theorem byteLen_joinLabels (h : ls ≠ []) :
    byteLen (joinLabels ls) + 1 = (ls.map fun l => byteLen l + 1).sum := by
  induction ls with
  | nil => exact absurd rfl h
  | cons l ls ih =>
    rcases eq_or_ne ls [] with rfl | hne
    · simp
    · have hdot : Char.utf8Size '.' = 1 := rfl
      rw [joinLabels_cons hne, byteLen_append, byteLen_cons, map_cons, sum_cons, ← ih hne]
      omega

theorem byteLen_le_of_mem_splitLabels (h : piece ∈ splitLabels l) : byteLen piece ≤ byteLen l := by
  have hsum := byteLen_joinLabels (splitLabels_ne_nil l)
  rw [joinLabels_splitLabels] at hsum
  have hmem : byteLen piece + 1 ∈ (splitLabels l).map fun l => byteLen l + 1 := mem_map_of_mem h
  have hle := le_sum_of_mem hmem
  omega

/-! ### Encoded labels -/

@[simp] theorem writeLabel_nil : writeLabel [] = [0] := rfl

@[simp] theorem length_writeLabel (l : Str) : (writeLabel l).length = byteLen l + 1 := by
  rw [writeLabel, length_cons, length_bytes]

theorem length_flatMap_writeLabel :
    (ls.flatMap writeLabel).length = (ls.map fun l => byteLen l + 1).sum := by
  simp

theorem writeName_nil : writeName [] = [0] := rfl

theorem writeName_root : writeName ['.'] = [0] := rfl

variable {name : Str}

theorem writeName_of_ne (h : name ≠ []) (hdot : name ≠ ['.']) :
    writeName name = (splitLabels name).flatMap writeLabel ++ [0] := by
  rw [writeName, if_neg (by simp [h, hdot])]

theorem length_writeName (h : name ≠ []) (hdot : name ≠ ['.']) :
    (writeName name).length = byteLen name + 2 := by
  have hsum := byteLen_joinLabels (splitLabels_ne_nil name)
  rw [joinLabels_splitLabels] at hsum
  rw [writeName_of_ne h hdot, length_append, length_flatMap_writeLabel, ← hsum]
  rfl

theorem length_writeName_le (name : Str) : (writeName name).length ≤ byteLen name + 2 := by
  rcases eq_or_ne name [] with rfl | h
  · simp [writeName_nil]
  · rcases eq_or_ne name ['.'] with rfl | hdot
    · simp [writeName_root]
    · exact (length_writeName h hdot).le

/-! ### Reading encoded labels -/

/-- The length byte of a label of at most 63 bytes is neither the root label nor a pointer nor a
reserved label type. -/
theorem lengthByte_spec (h0 : n ≠ 0) (h : n ≤ 63) :
    UInt8.ofNat n ≠ 0 ∧ UInt8.ofNat n &&& 0xC0 = 0x00 ∧ (UInt8.ofNat n).toNat = n := by
  have hall : ∀ k : Fin 64, (k : ℕ) ≠ 0 → UInt8.ofNat k ≠ 0 ∧ UInt8.ofNat k &&& 0xC0 = 0x00
      ∧ (UInt8.ofNat k).toNat = k := by decide
  exact hall ⟨n, by omega⟩ h0

variable {pkt rest : Bytes} {pos : ℕ}

theorem extractNameLoop_of_root (hb : readU8 pkt pos = some 0) :
    extractNameLoop pkt pos labels e hops w = .ok (joinLabels labels, e.getD (pos + 1)) := by
  rw [extractNameLoop]
  simp only [hb, ↓reduceIte]

theorem extractNameLoop_of_pointer (hb : readU8 pkt pos = some b)
    (hptr : b &&& 0xC0 = 0xC0) (hlo : readU8 pkt (pos + 1) = some lo) (hhops : hops + 1 ≤ 255)
    (hbound : (b &&& 0x3F).toNat * 256 + lo.toNat < pkt.length) :
    extractNameLoop pkt pos labels e hops w
      = extractNameLoop pkt ((b &&& 0x3F).toNat * 256 + lo.toNat) labels (some (e.getD (pos + 2)))
        (hops + 1) w := by
  have hb0 : b ≠ 0 := by
    rintro rfl
    exact absurd hptr (by decide)
  rw [extractNameLoop]
  simp only [hb, hb0, ↓reduceIte, hptr, hlo]
  rw [if_neg (by omega), if_neg (by omega)]

theorem extractNameLoop_of_label (hb : readU8 pkt pos = some b) (hb0 : b ≠ 0)
    (htype : b &&& 0xC0 = 0x00) (hslice : readSlice pkt (pos + 1) b.toNat = some labelBytes)
    (hutf : fromUtf8 labelBytes = some l) (labels : List Str) (e : Option ℕ) (hops : ℕ)
    (hw : w + (b.toNat + 1) ≤ 255) : extractNameLoop pkt pos labels e hops w
      = extractNameLoop pkt (pos + 1 + b.toNat) (labels ++ [l]) e hops (w + (b.toNat + 1)) := by
  rw [extractNameLoop]
  simp only [hb, hb0, ↓reduceIte, htype, hslice, hutf]
  rw [if_neg (by decide), if_neg (by omega)]

theorem extractNameLoop_writeLabel (hne : l ≠ []) (hlen : byteLen l ≤ 63)
    (hdrop : pkt.drop pos = writeLabel l ++ rest) (labels : List Str) (e : Option ℕ) (hops w : ℕ)
    (hw : w + (byteLen l + 1) ≤ 255) : extractNameLoop pkt pos labels e hops w
      = extractNameLoop pkt (pos + 1 + byteLen l) (labels ++ [l]) e hops (w + (byteLen l + 1)) := by
  have hl0 : byteLen l ≠ 0 := fun h => hne (byteLen_eq_zero.mp h)
  obtain ⟨hb0, hbtype, hbval⟩ := lengthByte_spec hl0 hlen
  have hread : readU8 pkt pos = some (UInt8.ofNat (byteLen l)) := readU8_of_drop hdrop
  have hnext : pkt.drop (pos + 1) = bytes l ++ rest := drop_succ_of_drop hdrop
  have hle := le_length_of_drop_append hdrop (by simp [writeLabel])
  rw [length_writeLabel] at hle
  have hslice : readSlice pkt (pos + 1) (UInt8.ofNat (byteLen l)).toNat = some (bytes l) := by
    rw [hbval]
    exact readSlice_of_drop hnext (by omega)
  have hstep :=
    extractNameLoop_of_label hread hb0 hbtype hslice (fromUtf8_bytes l) labels e hops
      (by rwa [hbval])
  rwa [hbval] at hstep

theorem extractNameLoop_labels (hne : ∀ l ∈ ls, l ≠ [])
    (hlen : ∀ l ∈ ls, byteLen l ≤ 63) (labels : List Str) (e : Option ℕ) (hops w : ℕ)
    (hdrop : pkt.drop pos = ls.flatMap writeLabel ++ 0 :: rest)
    (hw : w + (ls.map fun l => byteLen l + 1).sum ≤ 255) :
    extractNameLoop pkt pos labels e hops w
      = .ok (joinLabels (labels ++ ls), e.getD (pos + (ls.flatMap writeLabel).length + 1)) := by
  induction ls generalizing pos labels w with
  | nil =>
    rw [append_nil]
    exact extractNameLoop_of_root (readU8_of_drop hdrop)
  | cons l ls ih =>
    rw [flatMap_cons, append_assoc] at hdrop
    rw [map_cons, sum_cons] at hw
    have hnext := drop_of_drop_append hdrop
    rw [length_writeLabel] at hnext
    rw [extractNameLoop_writeLabel (hne l (by simp)) (hlen l (by simp)) hdrop labels e hops w
      (by omega),
      ih (fun x hx => hne x (by simp [hx])) (fun x hx => hlen x (by simp [hx])) (labels ++ [l])
        (w + (byteLen l + 1)) (by rw [← hnext]; congr 1; omega) (by omega)]
    simp only [append_assoc, singleton_append, flatMap_cons, length_append, length_writeLabel]
    congr 3
    omega

theorem extractName_root (hdrop : pkt.drop pos = 0 :: rest) :
    extractName pkt pos = .ok ([], pos + 1) :=
  extractNameLoop_of_root (readU8_of_drop hdrop)

/-- **The codec on good names**: what `writeName` encodes, `extractName` reads back, wherever in
the packet it stands. -/
theorem extractName_writeName (hgood : GoodLabels name) (hfits : FitsWire name)
    (hdrop : pkt.drop pos = writeName name ++ rest) :
    extractName pkt pos = .ok (name, pos + (writeName name).length) := by
  rcases hgood with rfl | hgood
  · exact extractName_root hdrop
  · have hne : name ≠ [] := by
      rintro rfl
      exact hgood [] (by simp [splitLabels]) rfl
    have hdot : name ≠ ['.'] := by
      rintro rfl
      exact hgood [] (by decide) rfl
    have hsum := byteLen_joinLabels (splitLabels_ne_nil name)
    rw [joinLabels_splitLabels] at hsum
    rw [writeName_of_ne hne hdot, append_assoc] at hdrop
    rw [extractName,
      extractNameLoop_labels hgood hfits.1 [] none 0 1 hdrop (by have := hfits.2; omega),
      nil_append, joinLabels_splitLabels, writeName_of_ne hne hdot]
    simp [Nat.add_assoc]

/-! ### Names with an empty label -/

/-- A list of labels with an empty one joins to something longer than what stands before it. -/
theorem joinLabels_ne_of_nil_mem (h : joinLabels (front ++ [] :: back) ≠ []) :
    joinLabels front ≠ joinLabels (front ++ [] :: back) := by
  rcases eq_or_ne front [] with rfl | hfront
  · exact fun he => h he.symm
  · intro he
    have hlen : byteLen (joinLabels front) + 1 = byteLen (joinLabels (front ++ [] :: back)) + 1 :=
      congrArg (fun s => byteLen s + 1) he
    rw [byteLen_joinLabels hfront, byteLen_joinLabels (by simp), map_append, sum_append, map_cons,
      sum_cons] at hlen
    omega

/-- **The codec on names with an empty label**: the decoder stops at it, and what it returns is
another name. -/
theorem extractName_writeName_ne (hbad : ¬ GoodLabels name) (hfits : FitsWire name)
    (hdrop : pkt.drop pos = writeName name ++ rest) :
    ∃ other e, extractName pkt pos = .ok (other, e) ∧ other ≠ name := by
  unfold GoodLabels at hbad
  push Not at hbad
  obtain ⟨hne, l, hmem, rfl⟩ := hbad
  rcases eq_or_ne name ['.'] with rfl | hdot
  · exact ⟨[], pos + 1, extractName_root hdrop, hne.symm⟩
  · -- Cut the labels at the first empty one; its length byte is the root label.
    obtain ⟨front, back, hsplit, hfront⟩ := eq_append_cons_of_mem hmem
    have hsum := byteLen_joinLabels (splitLabels_ne_nil name)
    rw [joinLabels_splitLabels, hsplit, map_append, sum_append] at hsum
    rw [writeName_of_ne hne hdot, hsplit, flatMap_append, flatMap_cons, writeLabel_nil,
      append_assoc, append_assoc, singleton_append] at hdrop
    have hread := extractNameLoop_labels (fun x hx he => hfront (he ▸ hx))
      (fun x hx => hfits.1 x (by rw [hsplit]; simp [hx])) [] none 0 1 hdrop
      (by have := hfits.2; omega)
    refine ⟨joinLabels front, _, hread, ?_⟩
    rw [← joinLabels_splitLabels name, hsplit] at hne ⊢
    exact joinLabels_ne_of_nil_mem hne

/-- **The codec, exactly**: an encoded name reads back as itself iff it has no empty label. -/
theorem extractName_writeName_iff (hfits : FitsWire name)
    (hdrop : pkt.drop pos = writeName name ++ rest) :
    (∃ e, extractName pkt pos = .ok (name, e)) ↔ GoodLabels name := by
  constructor
  · rintro ⟨e, he⟩
    by_contra hbad
    obtain ⟨other, e', he', hne⟩ := extractName_writeName_ne hbad hfits hdrop
    rw [he] at he'
    exact hne (Prod.mk.inj (Except.ok.inj he')).1.symm
  · intro hgood
    exact ⟨_, extractName_writeName hgood hfits hdrop⟩

/-! ### What the decoder returns -/

/-- What the decoder's loop keeps: the labels read so far are of at most 63 bytes, and with
their length bytes and the final root label they are the wire length counted. -/
structure LabelsRead (labels : List Str) (wireLen : ℕ) : Prop where
  len_le : ∀ l ∈ labels, byteLen l ≤ 63
  wireLen_eq : wireLen = 1 + (labels.map fun l => byteLen l + 1).sum
  wireLen_le : wireLen ≤ 255

theorem LabelsRead.nil : LabelsRead [] 1 := ⟨by simp, by simp, by decide⟩

theorem LabelsRead.snoc (h : LabelsRead labels w)
    (hlen : byteLen l ≤ 63) (hw : w + (byteLen l + 1) ≤ 255) :
    LabelsRead (labels ++ [l]) (w + (byteLen l + 1)) where
  len_le := by
    intro x hx
    rcases mem_append.mp hx with hx | hx
    · exact h.len_le x hx
    · rw [mem_singleton.mp hx]
      exact hlen
  wireLen_eq := by
    have hw := h.wireLen_eq
    rw [map_append, sum_append, map_singleton, sum_singleton]
    omega
  wireLen_le := hw

theorem toNat_le_of_type_zero {b : UInt8} (h : b &&& 0xC0 = 0x00) : b.toNat ≤ 63 := by
  revert b
  apply forall_byte
  decide +kernel

theorem LabelsRead.fits (h : LabelsRead labels w) : FitsWire (joinLabels labels) := by
  rcases eq_or_ne labels [] with rfl | hne
  · exact ⟨by simp [splitLabels], by simp⟩
  · constructor
    · intro piece hpiece
      rw [splitLabels_joinLabels hne, mem_flatMap] at hpiece
      obtain ⟨l, hl, hpiece⟩ := hpiece
      exact (byteLen_le_of_mem_splitLabels hpiece).trans (h.len_le l hl)
    · have hsum := byteLen_joinLabels hne
      have hw := h.wireLen_eq
      have hle := h.wireLen_le
      omega

end DnsmasqRs.Rfc1035
