import DnsmasqRs.Auth
import DnsmasqRs.Dhcp.Equiv.Search
import DnsmasqRs.Rfc1035.Address

/-!
# Reverse zones

An address is in a subnet by its bits, and the name of the reverse zone has whole octets or nibbles.
If the prefix ends with such a label, the zone has the names of all addresses of the subnet
(`contains_of_findAddrlist`).  Otherwise its first label is that of only some of them.
-/

namespace DnsmasqRs.Auth

open Wire Utf8 NetText Dhcp Dhcp6 List

/-- The nibbles of an address, in order. -/
def nibbles (octets : Bytes) : List UInt8 := octets.flatMap fun b : UInt8 => [b >>> 4, b &&& 0x0f]

/-- The name of an address in the reverse tree, which `in_arpa_name_2_addr` reads back. -/
def arpaName : AllAddr → Str
  | .addr4 a =>
    let o := a.octets
    octetLabel o[3]! ++ octetLabel o[2]! ++ octetLabel o[1]! ++ octetLabel o[0]!
      ++ "in-addr.arpa".toList
  | .addr6 a => (nibbles a.octets.toList).reverse.flatMap nibbleLabel ++ "ip6.arpa".toList
  | _ => []

example :
    let a := AllAddr.addr4 (.new 10 1 2 3); Rfc1035.inArpaName2Addr (arpaName a) = some a := by
  decide +kernel

/-- The name is that of the zone or of a subdomain. -/
def Contains (zone name : Str) : Prop := name = zone ∨ '.' :: zone <:+ name

theorem contains_of_suffix (h : zs <:+ ls) :
    Contains (zs.flatMap nibbleLabel ++ base) (ls.flatMap nibbleLabel ++ base) := by
  obtain ⟨front, rfl⟩ := h
  rcases eq_nil_or_concat front with rfl | ⟨init, x, rfl⟩
  · exact .inl rfl
  · exact .inr ⟨init.flatMap nibbleLabel ++ [Nat.digitChar x.toNat], by simp [nibbleLabel]⟩

theorem getElem?_nibbles (octets : Bytes) (k : ℕ) : (nibbles octets)[k]?
    = octets[k / 2]?.map fun b : UInt8 => if k % 2 = 1 then b &&& 0x0f else b >>> 4 := by
  induction octets generalizing k with
  | nil => rfl
  | cons b octets ih =>
    obtain _ | _ | k := k
    · rfl
    · rfl
    · have hdiv : (k + 1 + 1) / 2 = k / 2 + 1 := by omega
      have hmod : (k + 1 + 1) % 2 = k % 2 := by omega
      rw [hdiv, hmod]
      exact ih k

/-- The loop takes the nibbles that the prefix has a bit of. -/
theorem reverseNibbles_eq (h : n ≤ 8 * octets.length) :
    reverseNibbles octets n = some ((nibbles octets).take ((n + 3) / 4)).reverse := by
  fun_induction reverseNibbles octets n with
  | case1 => rfl
  | case2 i ih =>
    have hget : i / 8 < octets.length := by omega
    have hnib := getElem?_nibbles octets (i / 4)
    rw [Nat.div_div_eq_div_mul, getElem?_eq_getElem hget] at hnib
    have hcount : (i + 1 + 3) / 4 = i / 4 + 1 := by omega
    have hrest : (i + 1 - 4 + 3) / 4 = i / 4 := by omega
    rw [getElem?_eq_getElem hget, ih (by omega), hcount, hrest, take_add_one, hnib]
    simp

/-- What a mask leaves of a word is what a shift leaves. -/
theorem ushiftRight_eq_of_mask {k m : ℕ} {x y : BitVec w}
    (h : x &&& (BitVec.allOnes w <<< k) = y &&& (BitVec.allOnes w <<< k)) (hk : k ≤ m) :
    x >>> m = y >>> m := by
  ext i _
  have hbit := congrArg (·.getLsbD (m + i)) h
  have hge : ¬ m + i < k := by omega
  by_cases hw : m + i < w
  · simpa [hw, hge] using hbit
  · simp [BitVec.getLsbD_of_ge _ _ (Nat.not_lt.mp hw)]

theorem take_nibbles (hlen : as.length = bs.length) (h : isSameNet6Loop (as.zip bs) p)
    (hp : 4 ∣ p) :
    (nibbles as).take (p / 4) = (nibbles bs).take (p / 4) := by
  induction as generalizing bs p with
  | nil => rw [eq_nil_of_length_eq_zero hlen.symm]
  | cons a as ih =>
    obtain _ | ⟨b, bs⟩ := bs
    · cases hlen
    · rw [zip_cons_cons, isSameNet6Loop] at h
      split_ifs at h with h0 h8
      · rw [h0]
        rfl
      · obtain ⟨rfl, hrest⟩ : a = b ∧ _ := by simpa using h
        have hdiv : p / 4 = (p - 8) / 4 + 2 := by omega
        rw [hdiv]
        show a >>> 4 :: (a &&& 15) :: (nibbles as).take _ = a >>> 4 :: (a &&& 15)
          :: (nibbles bs).take _
        rw [ih (Nat.succ.inj hlen) hrest (by omega)]
      · -- the mask is that of the first nibble
        obtain rfl : p = 4 := by omega
        have hnib :=
          @ushiftRight_eq_of_mask 8 4 4 _ _ (congrArg UInt8.toBitVec (of_decide_eq_true h)) le_rfl
        exact congrArg (fun nib => [nib]) (UInt8.toBitVec_inj.mp hnib)

/-- The first octets of two addresses that agree in them. -/
theorem octets_eq_of_mask {a net : Ipv4Addr} (hk : k < 32)
    (h : toU32 a &&& (0xFFFFFFFF <<< UInt32.ofNat k)
      = toU32 net &&& (0xFFFFFFFF <<< UInt32.ofNat k)) :
    (k ≤ 24 → a.octets[0]! = net.octets[0]!) ∧ (k ≤ 16 → a.octets[1]! = net.octets[1]!)
      ∧ (k ≤ 8 → a.octets[2]! = net.octets[2]!) := by
  have hmasks : ∀ k : Fin 32,
    (0xFFFFFFFF <<< UInt32.ofNat k : UInt32).toBitVec = BitVec.allOnes 32 <<< k.val := by
    decide
  have hbits := congrArg UInt32.toBitVec h
  rw [UInt32.toBitVec_and, UInt32.toBitVec_and, hmasks ⟨k, hk⟩] at hbits
  have hdiv {m} (hm : k ≤ m) : (toU32 a).toNat / 2 ^ m = (toU32 net).toNat / 2 ^ m := by
    simpa [Nat.shiftRight_eq_div_pow] using congrArg BitVec.toNat (ushiftRight_eq_of_mask hbits hm)
  rw [← ofU32_toU32 (a := a), ← ofU32_toU32 (a := net)]
  refine ⟨fun hm => congrArg UInt8.ofNat ?_, fun hm => congrArg UInt8.ofNat ?_, fun hm =>
    congrArg UInt8.ofNat ?_⟩
  · exact hdiv hm
  all_goals exact congrArg (· % 256) (hdiv hm)

/-- The prefix ends with a nibble, or with the first octet of an IPv4 address or behind it. -/
def Addrlist.Aligned (entry : Addrlist) : Prop :=
  match entry.addr with
  | .addr4 _ => 8 ≤ entry.prefixlen ∧ entry.prefixlen ≤ 32
  | _ => 1 ≤ entry.prefixlen ∧ entry.prefixlen ≤ 128 ∧ 4 ∣ entry.prefixlen

theorem contains_of_matches {entry : Addrlist} (halign : entry.Aligned) (h : entry.matches a) :
    ∃ zone, reverseZoneName entry = some zone ∧ Contains zone (arpaName a) := by
  obtain ⟨addr, flags, len⟩ := entry
  cases addr <;> cases a <;> try cases h
  case addr4.addr4 net a =>
    obtain ⟨h8, h32⟩ : 8 ≤ len ∧ len ≤ 32 := halign
    obtain ⟨n, rfl⟩ := Int.eq_ofNat_of_zero_le (Int.le_trans (by decide) h8)
    have hlen : (max 0 (min (n : ℤ) 32)).toNat = n := by omega
    simp only [Addrlist.matches, hlen, Bool.and_eq_true, decide_eq_true_eq,
      if_neg (show n ≠ 0 by omega)] at h
    obtain ⟨h0, h1, h2⟩ := octets_eq_of_mask (by omega) h.2
    refine ⟨_, rfl, .inr ?_⟩
    dsimp only [arpaName]
    rw [← h0 (by omega)]
    split_ifs with h24 h16 h16
    · rw [← h1 (by omega), ← h2 (by omega)]
      exact ⟨decimal a.octets[3]!.toNat, by simp [octetLabel]⟩
    · omega
    · rw [← h1 (by omega)]
      exact ⟨octetLabel a.octets[3]! ++ decimal a.octets[2]!.toNat, by simp [octetLabel]⟩
    · exact ⟨octetLabel a.octets[3]! ++ octetLabel a.octets[2]! ++ decimal a.octets[1]!.toNat,
        by simp [octetLabel]⟩
  case addr6.addr6 net a =>
    obtain ⟨h1, h128, h4⟩ : 1 ≤ len ∧ len ≤ 128 ∧ 4 ∣ len := halign
    obtain ⟨n, rfl⟩ := Int.eq_ofNat_of_zero_le (Int.le_trans (by decide) h1)
    have hsame := (Bool.and_eq_true_iff.mp h).2
    have hlen : ((n : ℤ) % 2 ^ 64).toNat = n := by omega
    have hnib : (n + 3) / 4 = n / 4 := by omega
    rw [isSameNet6, hlen] at hsame
    have hzone := @reverseNibbles_eq n net.octets.toList (by simp; omega)
    rw [hnib, ← take_nibbles (by simp) hsame (by omega)] at hzone
    refine ⟨_, by simp only [reverseZoneName, Int.toNat_natCast, hzone]; rfl, ?_⟩
    exact contains_of_suffix (reverse_suffix.mpr ( take_prefix _ _))

/-- **The reverse zone of a subnet has the names of its addresses**, if the prefix is aligned. -/
theorem contains_of_findAddrlist {list : List Addrlist} {a : AllAddr} {i : ℕ} {entry : Addrlist}
    (hfind : findAddrlist list a = some i) (hentry : list[i]? = some entry)
    (halign : entry.Aligned) :
    ∃ zone, reverseZoneName entry = some zone ∧ Contains zone (arpaName a) := by
  obtain ⟨_, hmatch, -⟩ := findIdx?_eq_some_iff_getElem.mp hfind
  obtain ⟨_, rfl⟩ := List.getElem?_eq_some_iff.mp hentry
  exact contains_of_matches halign hmatch

def sampleSubnet (len : ℤ) : Addrlist := ⟨.addr4 (.new 10 0 0 0), 0, len⟩

theorem contains_of_findAddrlist_eight :
    findAddrlist [sampleSubnet 8] (.addr4 (.new 10 1 2 3)) = some 0
    ∧ ∃ zone, reverseZoneName (sampleSubnet 8) = some zone
    ∧ Contains zone (arpaName (.addr4 (.new 10 1 2 3))) := by
  have hfind : findAddrlist [sampleSubnet 8] (.addr4 (.new 10 1 2 3)) = some 0 := by decide
  exact ⟨hfind, contains_of_findAddrlist hfind rfl ⟨by decide, by decide⟩⟩

/-- 11.1.2.3 is in 10.0.0.0/7, and not in `10.in-addr.arpa`. -/
theorem not_contains_seven : findAddrlist [sampleSubnet 7] (.addr4 (.new 11 1 2 3)) = some 0
    ∧ ∀ zone, reverseZoneName (sampleSubnet 7) = some zone →
      ¬Contains zone (arpaName (.addr4 (.new 11 1 2 3))) := by
  refine ⟨by decide, fun zone hzone => ?_⟩
  obtain rfl := Option.some.inj hzone
  unfold Contains
  decide +kernel

/-- The same for 2001:db8:8000:: and the subnet 2001:db8:abcd::/33. -/
example :
    let addr (x y : UInt8) :
      AllAddr := .addr6 ⟨#v[32, 1, 13, 184, x, y, 0, 0, 0, 0, 0, 0, 0, 0, 0, 0]⟩
    findAddrlist [⟨addr 0xab 0xcd, 2, 33⟩] (addr 0x80 0) = some 0
      ∧ ∀ zone ∈ reverseZoneName ⟨addr 0xab 0xcd, 2, 33⟩,
        ¬Contains zone (arpaName (addr 0x80 0)) := by
  unfold Contains
  decide +kernel

end DnsmasqRs.Auth
