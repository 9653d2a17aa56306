import DnsmasqRs.Edns0
import DnsmasqRs.Lib.Fallible

/-!
# The options of an OPT record

`parse_opt_options` is the inverse of `build_opt_rdata`: it reads back the options that were
written, as long as each fits into its length field, and what it reads is written as the bytes it
was read from (`parseOptOptions_eq_ok_iff`).
-/

namespace DnsmasqRs.Edns0

open Wire ByteCursor Fallible List Option

variable {data : Bytes} {options : List Edns0Option}

theorem drop_of_readU16Be (h : readU16Be data pos = some x) :
    data.drop pos = be16 x ++ data.drop (pos + 2) := by
  unfold readU16Be at h
  split at h
  · next a b hslice =>
    obtain rfl := some.inj h
    rw [be16_ofBe16, (readSlice_eq_some hslice).2.1, ← drop_drop, take_append_drop]
  · cases h

/-- The options read from a position are written as the bytes from there on. -/
theorem drop_of_parseOptOptions (hpos : pos ≤ data.length)
    (h : parseOptOptions data pos = .ok options) :
    data.drop pos = buildOptRdata options ∧ ∀ opt ∈ options, opt.data.length < 65536 := by
  fun_induction parseOptOptions data pos generalizing options with
  | case1 | case3 => cases h
  | case2 pos hlt code len hlen hcode payload hslice ih =>
    obtain ⟨rest, hrest, heq⟩ := bind_eq_ok.mp h
    obtain rfl := Except.ok.inj heq
    obtain ⟨hle, hpayload, hsize⟩ := readSlice_eq_some hslice
    obtain ⟨hdrop, hfits⟩ := ih hle hrest
    have hpiece : data.drop (pos + 4) = payload ++ data.drop (pos + 4 + len.toNat) := by
      rw [hpayload, ← drop_drop (i := len.toNat), take_append_drop]
    refine ⟨?_, forall_mem_cons.mpr ⟨hsize ▸ len.toNat_lt, hfits⟩⟩
    rw [drop_of_readU16Be hcode, drop_of_readU16Be hlen, hpiece, hdrop]
    simp [buildOptRdata, hsize]
  | case4 pos hend =>
    obtain rfl := Except.ok.inj h
    exact ⟨drop_eq_nil_of_le (by omega), forall_mem_nil _⟩

/-- Options that were written are read back. -/
theorem parseOptOptions_of_drop (hfits : ∀ opt ∈ options, opt.data.length < 65536)
    (hpos : pos ≤ data.length) (h : data.drop pos = buildOptRdata options) :
    parseOptOptions data pos = .ok options := by
  induction options generalizing pos with
  | nil =>
    rw [parseOptOptions, if_neg]
    exact not_lt.mpr (drop_eq_nil_iff.mp h)
  | cons opt rest ih =>
    obtain ⟨hfit, hfits⟩ := forall_mem_cons.mp hfits
    replace h :
      data.drop pos = be16 opt.code
        ++ (be16 (UInt16.ofNat opt.data.length) ++ (opt.data ++ buildOptRdata rest)) := by
      simpa [buildOptRdata] using h
    have hlen : data.drop (pos + 2) = _ := drop_of_drop_append h
    have hdata : data.drop (pos + 4) = opt.data ++ buildOptRdata rest := drop_of_drop_append hlen
    have hle : pos + 4 ≤ data.length := le_length_of_drop_append hlen (by simp [be16])
    have hslice := readSlice_of_drop hdata hle
    rw [parseOptOptions, if_pos (by omega), readU16Be_of_drop h, readU16Be_of_drop hlen]
    dsimp only
    rw [toNat_ofNat_of_lt hfit, hslice]
    dsimp only
    rw [ih hfits (readSlice_eq_some hslice).1 (drop_of_drop_append hdata)]
    rfl

/-- **The options of an OPT record round-trip**: the bytes are read as the options exactly if the
options are written as the bytes and each fits into its length field. -/
theorem parseOptOptions_eq_ok_iff (data : Bytes) (options : List Edns0Option) :
    parseOptOptions data 0 = .ok options ↔
      buildOptRdata options = data ∧ ∀ opt ∈ options, opt.data.length < 65536 := by
  constructor
  · intro h
    obtain ⟨hdrop, hfits⟩ := drop_of_parseOptOptions (Nat.zero_le _) h
    exact ⟨hdrop.symm, hfits⟩
  · rintro ⟨rfl, hfits⟩
    exact parseOptOptions_of_drop hfits (Nat.zero_le _) rfl

end DnsmasqRs.Edns0
