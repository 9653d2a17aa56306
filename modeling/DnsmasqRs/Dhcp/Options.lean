import DnsmasqRs.Dhcp.Types

/-!
# The options of a reply (`rfc2131.rs`)

The renewal timers that `do_options` writes: half and seven eighths of the lease time, or what is
configured for them, less a random part; and `cap_vendor_area`, which cuts the options of a BOOTP
reply.
-/

namespace DnsmasqRs.Dhcp

open Wire

def optionT1 : UInt8 := 58
def optionT2 : UInt8 := 59

/-- `u32::saturating_sub`. -/
def saturatingSub (a b : UInt32) : UInt32 := if b ≤ a then a - b else 0

/-- A timer after one of the configured options, which counts if it is for this timer, and for a
time before the end of the lease. -/
def overrideTimer (leaseTime : UInt32) (code : UInt8) (timer : UInt32) (o : DhcpOpt) : UInt32 :=
  match o.val with
  | some (a :: b :: c :: d :: _) =>
    if o.opt = code.toNat ∧ 2 < ofBe32 a b c d ∧ ofBe32 a b c d < leaseTime then
      ofBe32 a b c d else timer
  | _ => timer

/-- `while fuzz > limit { fuzz /= 2 }`. -/
def halveFuzz (limit fuzz : UInt32) : UInt32 :=
  if limit < fuzz then halveFuzz limit (fuzz / 2) else fuzz
termination_by fuzz.toNat
decreasing_by
  rename_i h
  rw [UInt32.lt_iff_toNat_lt] at h
  rw [UInt32.toNat_div]
  exact Nat.div_lt_self (Nat.zero_lt_of_lt h) (by decide)

/-- T1 and T2 as `do_options` writes them; a lease without end has none. -/
def renewalTimers (leaseTime : UInt32) (configOpts : List DhcpOpt) (fuzz : UInt16) :
    Option (UInt32 × UInt32) :=
  if leaseTime = 0xFFFFFFFF then none
  else
    let t1 := configOpts.foldl (overrideTimer leaseTime optionT1) (leaseTime / 2)
    let t2 :=
      configOpts.foldl (overrideTimer leaseTime optionT2) (UInt32.ofNat (leaseTime.toNat * 7 / 8))
    let t1 := if t2 ≤ t1 then saturatingSub t2 1 else t1
    let fuzz := halveFuzz (t1 / 8) fuzz.toUInt32
    some (saturatingSub t1 fuzz, saturatingSub t2 fuzz)

/-- The loop of `cap_vendor_area`, over the bytes from `i` on, with the end of the last option that
fits. -/
def capVendorLoop (budget : ℕ) : ℕ → Bytes → (i fit : ℕ) → ℕ
  | fuel + 1, code :: rest, i, fit =>
    if code = optionEnd then fit
    else if code = optionPad then
      if budget < i + 1 then fit else capVendorLoop budget fuel rest (i + 1) (i + 1)
    else
      match rest with
      | [] => fit
      | len :: data =>
        let stop := i + 2 + len.toNat
        if data.length < len.toNat ∨ budget < stop then fit
        else capVendorLoop budget fuel (data.drop len.toNat) stop stop
  | _, _, _, fit => fit

/-- `cap_vendor_area`. -/
def capVendorArea (options : Bytes) (maxLen : ℕ) : Bytes :=
  options.take (capVendorLoop (maxLen - 1) options.length options 0 0) ++ [optionEnd]

end DnsmasqRs.Dhcp
