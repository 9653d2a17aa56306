import DnsmasqRs.Dhcp.Options

/-!
# The options of a reply

Whatever is configured, T2 stays between 1 and the lease time, and T1 is put below it where it is
not.  The random part is at most an eighth of T1, so it is taken off both in full
(`renewalTimers_ordered`).  The options of a BOOTP reply are cut between two of them
(`capVendorArea_longest`).
-/

namespace DnsmasqRs.Dhcp

open Wire List

variable {leaseTime timer fuzz : UInt32}

theorem toNat_saturatingSub (a b : UInt32) : (saturatingSub a b).toNat = a.toNat - b.toNat := by
  unfold saturatingSub
  split
  · next hle => exact UInt32.toNat_sub_of_le _ _ hle
  · next hlt =>
    rw [UInt32.le_iff_toNat_le] at hlt
    exact (Nat.sub_eq_zero_of_le (by omega)).symm

theorem halveFuzz_le (limit fuzz : UInt32) : halveFuzz limit fuzz ≤ limit := by
  fun_induction halveFuzz limit fuzz with
  | case1 fuzz _ ih => exact ih
  | case2 fuzz h => exact UInt32.not_lt.mp h

/-- An override leaves the timer as it is, or puts it between 3 and the lease time. -/
theorem overrideTimer_cases : overrideTimer leaseTime code timer o = timer ∨
      2 < overrideTimer leaseTime code timer o
        ∧ overrideTimer leaseTime code timer o < leaseTime := by
  unfold overrideTimer
  split
  · split
    · next h => exact .inr h.2
    · exact .inl rfl
  · exact .inl rfl

/-- The configured options keep a timer between 1 and the lease time. -/
theorem foldl_overrideTimer (code : UInt8) (opts : List DhcpOpt) (hpos : 0 < timer.toNat)
    (hle : timer.toNat ≤ leaseTime.toNat) :
    0 < (opts.foldl (overrideTimer leaseTime code) timer).toNat
      ∧ (opts.foldl (overrideTimer leaseTime code) timer).toNat ≤ leaseTime.toNat := by
  induction opts generalizing timer with
  | nil => exact ⟨hpos, hle⟩
  | cons o opts ih =>
    rw [foldl_cons]
    obtain heq | ⟨hlo, hhi⟩ := overrideTimer_cases
    · rw [heq]
      exact ih hpos hle
    · rw [UInt32.lt_iff_toNat_lt] at hlo hhi
      exact ih (Nat.zero_lt_of_lt hlo) hhi.le

/-- **The timers are in order**: `do_options` writes T1 and T2 with T1 < T2 ≤ the lease time. -/
theorem renewalTimers_ordered (hlo : 2 ≤ leaseTime.toNat) (hhi : leaseTime.toNat ≤ 2 ^ 32 - 2)
    (configOpts : List DhcpOpt) (fuzz : UInt16) :
    ∃ t1 t2, renewalTimers leaseTime configOpts fuzz = some (t1, t2) ∧ t1 < t2
      ∧ t2 ≤ leaseTime := by
  have hends : leaseTime ≠ 0xFFFFFFFF := by
    rintro rfl
    exact absurd hhi (by decide)
  have hdefault : (UInt32.ofNat (leaseTime.toNat * 7 / 8)).toNat = leaseTime.toNat * 7 / 8 :=
    UInt32.toNat_ofNat_of_lt' (show _ < 2 ^ 32 by omega)
  unfold renewalTimers
  rw [if_neg hends]
  extract_lets t1 t2 t1' fuzz'
  obtain ⟨hpos, hle⟩ : 0 < t2.toNat ∧ t2.toNat ≤ leaseTime.toNat :=
    foldl_overrideTimer optionT2 configOpts (by omega) (by omega)
  have hbelow : t1'.toNat < t2.toNat := by
    show (if t2 ≤ t1 then saturatingSub t2 1 else t1).toNat < t2.toNat
    split
    · rw [toNat_saturatingSub]
      exact Nat.sub_lt hpos Nat.one_pos
    · next h => exact UInt32.lt_iff_toNat_lt.mp (UInt32.not_le.mp h)
  have hfuzz : fuzz'.toNat ≤ t1'.toNat / 8 := UInt32.le_iff_toNat_le.mp (halveFuzz_le _ _)
  refine ⟨_, _, rfl, ?_, ?_⟩
  · rw [UInt32.lt_iff_toNat_lt, toNat_saturatingSub, toNat_saturatingSub]
    omega
  · rw [UInt32.le_iff_toNat_le, toNat_saturatingSub]
    omega

/-- The shortest lease. -/
theorem renewalTimers_ordered_two :
    ∃ t1 t2, renewalTimers 2 [] 0 = some (t1, t2) ∧ t1 < t2 ∧ t2 ≤ 2 :=
  renewalTimers_ordered (by decide) (by decide) [] 0

/-! ### The vendor area -/

/-- An option that is complete. -/
structure OptionItem where
  code : UInt8
  data : Bytes
  code_ne : code ≠ optionPad ∧ code ≠ optionEnd
  data_len : data.length < 256

def encodeItems (items : List OptionItem) : Bytes :=
  items.flatMap fun o => o.code :: UInt8.ofNat o.data.length :: o.data

/-- **The loop keeps the items up to the first that does not fit.** -/
theorem capVendorLoop_items (hi : i ≤ budget) (hfuel : (encodeItems items).length < fuel) :
    ∃ kept, kept <+: items
      ∧ capVendorLoop budget fuel (encodeItems items ++ optionEnd :: rest) i i
        = i + (encodeItems kept).length
      ∧ i + (encodeItems kept).length ≤ budget
      ∧ ∀ k, k <+: items → i + (encodeItems k).length ≤ budget → k <+: kept := by
  induction items generalizing i fuel with
  | nil =>
    obtain ⟨fuel, rfl⟩ := Nat.exists_eq_add_of_lt hfuel
    exact ⟨[], nil_prefix, rfl, hi, fun k hk _ => hk⟩
  | cons o items ih =>
    cases fuel with
    | zero => exact absurd hfuel (Nat.not_lt_zero _)
    | succ fuel =>
      have hlen : (UInt8.ofNat o.data.length).toNat = o.data.length :=
        UInt8.toNat_ofNat_of_lt' o.data_len
      have hsize (k) :
          (encodeItems (o :: k)).length = 2 + o.data.length + (encodeItems k).length := by
        simp [encodeItems]; omega
      have henc : encodeItems (o :: items) ++ optionEnd :: rest
          = o.code :: UInt8.ofNat o.data.length
            :: (o.data ++ (encodeItems items ++ optionEnd :: rest)) := by
        simp [encodeItems]
      rw [henc, capVendorLoop, if_neg o.code_ne.2, if_neg o.code_ne.1]
      dsimp only
      rw [hlen, length_append, drop_left]
      rw [hsize] at hfuel
      split
      · next hover =>
        refine ⟨[], nil_prefix, rfl, hi, fun k hk hfits => ?_⟩
        rcases prefix_cons_iff.mp hk with rfl | ⟨k, rfl, -⟩
        · exact nil_prefix
        · rw [hsize] at hfits
          omega
      · next hfit =>
        have hstop : i + 2 + o.data.length ≤ budget := by omega
        have hleft : (encodeItems items).length < fuel := by omega
        obtain ⟨kept, hkept, hloop, hle, hlongest⟩ := ih hstop hleft
        refine ⟨o :: kept, cons_prefix_cons.mpr ⟨rfl, hkept⟩, by rw [hloop, hsize]; omega,
          by rw [hsize]; omega, ?_⟩
        intro k hk hfits
        rcases prefix_cons_iff.mp hk with rfl | ⟨k, rfl, hrest⟩
        · exact nil_prefix
        · rw [hsize] at hfits
          exact cons_prefix_cons.mpr ⟨rfl, hlongest k hrest (by omega)⟩

/-- **`cap_vendor_area` keeps the longest run of options that fits**, and ends it. -/
theorem capVendorArea_longest (items : List OptionItem) (rest : Bytes) (hmax : 1 ≤ maxLen) :
    ∃ kept, kept <+: items
      ∧ capVendorArea (encodeItems items ++ optionEnd :: rest) maxLen = encodeItems kept
      ++ [optionEnd]
      ∧ (encodeItems kept ++ [optionEnd]).length ≤ maxLen
      ∧ ∀ k, k <+: items → (encodeItems k ++ [optionEnd]).length ≤ maxLen → k <+: kept := by
  obtain ⟨kept, hkept, hloop, hfits, hlongest⟩ :=
    @capVendorLoop_items 0 (maxLen - 1) items (encodeItems items ++ optionEnd :: rest).length rest
      (Nat.zero_le _) (by simp)
  refine ⟨kept, hkept, ?_, ?_, fun k hk hfit => hlongest k hk ?_⟩
  · obtain ⟨dropped, rfl⟩ := hkept
    rw [capVendorArea, hloop, Nat.zero_add]
    simp only [encodeItems, flatMap_append, append_assoc, take_left]
  · rw [length_append, length_singleton]
    omega
  · rw [length_append, length_singleton] at hfit
    omega

theorem capVendorArea_longest_one :
    ∃ kept, kept <+: [⟨1, [7, 7], by decide, by decide⟩] ∧ capVendorArea [1, 2, 7, 7, 255] 4
    = encodeItems kept ++ [255] :=
  (capVendorArea_longest [⟨1, [7, 7], by decide, by decide⟩] [] (by decide : 1 ≤ 4)).imp fun _ h =>
    ⟨h.1, h.2.1⟩

end DnsmasqRs.Dhcp
