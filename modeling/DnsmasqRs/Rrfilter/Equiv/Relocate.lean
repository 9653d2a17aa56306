import DnsmasqRs.Rrfilter.Equiv.Passes

/-!
# The packet that is left (`rrfilter.rs`)

Taking records out moves what is behind them down by their length (`shiftOffset_eq_some`,
`keepBytes_eq`).  Together with the pointers the last pass but one has rewritten, that is a
relocation of the names that stay (`Elision.relocation`): a target is either the start of a label of
such a name, and then it moves with it, or it lies in a record that goes, and then the pass has
failed.
-/

namespace DnsmasqRs.Rrfilter

open Wire ByteCursor DnsProtocol Rfc1035 Edns0 Fallible Elide List Option

variable {elided : Elided} {lo x y : ℕ}

/-! ### Offsets -/

theorem shiftOffsetLoop_eq_some (h : Ascending lo elided) :
    shiftOffsetLoop x elided delta = some y
      ↔ ¬ Within elided x ∧ y = x - (delta + removed elided x) := by
  induction elided generalizing lo delta with
  | nil =>
    have hout : ¬ Within [] x := by
      rintro ⟨r, ⟨⟩, -⟩
    show some (x - delta) = some y ↔ _ ∧ y = x - (delta + 0)
    rw [some.injEq, eq_comm, add_zero, and_iff_right hout]
  | cons r rest ih =>
    obtain ⟨start, finish⟩ := r
    obtain ⟨-, hne, hrest⟩ := h
    rw [shiftOffsetLoop, removed]
    by_cases hbefore : x < start
    · have hout : ¬ Within ((start, finish) :: rest) x := by
        rintro ⟨r, hr, hin⟩
        rcases mem_cons.mp hr with rfl | hr
        · omega
        · have := hrest.bounds hr
          omega
      rw [if_pos hbefore, if_neg (by omega), some.injEq, eq_comm, add_zero, and_iff_right hout]
    · rw [if_neg hbefore]
      by_cases hin : x < finish
      · rw [if_pos hin]
        exact iff_of_false (by rintro ⟨⟩) fun hout =>
          hout.1 ⟨_, mem_cons_self, not_lt.mp hbefore, hin⟩
      · have hwithin : Within ((start, finish) :: rest) x ↔ Within rest x := by
          constructor
          · rintro ⟨r, hr, hrx⟩
            rcases mem_cons.mp hr with rfl | hr
            · exact absurd hrx.2 hin
            · exact ⟨r, hr, hrx⟩
          · rintro ⟨r, hr, hrx⟩
            exact ⟨r, mem_cons_of_mem _ hr, hrx⟩
        rw [if_neg hin, if_pos (not_lt.mp hin), ih hrest, hwithin, add_assoc]

/-- **`shift_offset`**: an offset outside the ranges, and where it moves to. -/
theorem shiftOffset_eq_some (h : Ascending lo elided) :
    shiftOffset elided x = some y ↔ ¬ Within elided x ∧ y = shift elided x := by
  rw [shiftOffset, shiftOffsetLoop_eq_some h, zero_add]
  rfl

theorem keepBytes_eq {work : Bytes} : keepBytes work elided cursor = keep work elided cursor := by
  induction elided generalizing cursor with
  | nil => rfl
  | cons r rest ih => rw [keepBytes, keep, ih]

theorem nameStep_of_pointerBytes {new : Bytes} {p t : ℕ} (ht : t < 16384)
    (hsite : ∀ k < 2, new[p + k]? = (pointerBytes t)[k]?) : nameStep new p = .pointer t := by
  have hhigh : t / 256 < 64 := by omega
  have hbits : ∀ high < 64, (UInt8.ofNat high ||| 0xC0) &&& 0xC0 = 0xC0
      ∧ ((UInt8.ofNat high ||| 0xC0) &&& 0x3F).toNat = high := by decide
  obtain ⟨hmark, hvalue⟩ := hbits _ hhigh
  refine nameStep_eq_pointer.mpr ⟨_, _, hsite 0 (by omega), hmark, hsite 1 (by omega), ?_⟩
  rw [UInt8.toNat_ofNat']
  omega

/-! ### The counts -/

variable {pkt work new : Bytes}

theorem getElem?_setCounts (hlen : 12 ≤ pkt.length) (hx : x < 6 ∨ 12 ≤ x) :
    (setCounts pkt an ns ar)[x]? = pkt[x]? := by
  have h₁ : 6 + (be16 an).length ≤ pkt.length := by
    rw [length_be16]
    omega
  have h₂ : 8 + (be16 ns).length ≤ (splice pkt 6 (be16 an)).length := by
    rw [length_splice h₁, length_be16]
    omega
  have h₃ : 10 + (be16 ar).length ≤ (splice (splice pkt 6 (be16 an)) 8 (be16 ns)).length := by
    rw [length_splice h₂, length_splice h₁, length_be16]
    omega
  rw [setCounts, getElem?_splice h₃, getElem?_splice h₂, getElem?_splice h₁, length_be16,
    length_be16, length_be16, if_neg (by omega), if_neg (by omega), if_neg (by omega)]

theorem length_setCounts (hlen : 12 ≤ pkt.length) :
    (setCounts pkt an ns ar).length = pkt.length := by
  have h₁ : (splice pkt 6 (be16 an)).length = pkt.length := length_splice (show 6 + 2 ≤ _ by omega)
  have h₂ : (splice (splice pkt 6 (be16 an)) 8 (be16 ns)).length = pkt.length :=
    (length_splice (show 8 + 2 ≤ _ by omega)).trans h₁
  exact (length_splice (show 10 + 2 ≤ _ by omega)).trans h₂

theorem fromBytes_setCounts (h : DnsHeader.fromBytes pkt = some hdr) :
    DnsHeader.fromBytes (setCounts pkt an ns ar) = some { hdr with
      ancount := an, nscount := ns, arcount := ar } := by
  unfold DnsHeader.fromBytes at h
  split at h
  · obtain rfl := some.inj h
    simp [setCounts, splice, be16, DnsHeader.fromBytes, ofBe16_be16]
  · cases h

theorem fromBytes_of_same (h : DnsHeader.fromBytes pkt = some hdr)
    (hsame : ∀ x < 12, new[x]? = pkt[x]?) : DnsHeader.fromBytes new = some hdr := by
  obtain ⟨hdr', rest, rfl⟩ := DnsHeader.exists_toBytes_append (DnsHeader.le_length_of_fromBytes h)
  rw [DnsHeader.fromBytes_toBytes_append] at h
  have hnew : new = hdr'.toBytes ++ new.drop 12 := by
    apply ext_getElem?
    intro x
    by_cases hx : x < 12
    · rw [hsame x hx, getElem?_append_left hx, getElem?_append_left hx]
    · rw [getElem?_append_right (by rw [DnsHeader.length_toBytes]; omega), getElem?_drop,
        DnsHeader.length_toBytes]
      congr 1
      omega
  rw [hnew, DnsHeader.fromBytes_toBytes_append, h]

/-! ### Names that stay -/

variable {names : List NameRef} {n m : NameRef} {p : ℕ}

/-- The records of the ranges `elided` are taken out of `pkt`, with its `names` that stay rewritten
first. -/
structure Elision (pkt work new : Bytes) (elided : Elided) (names : List NameRef) : Prop where
  ranges : Ascending 12 elided
  self : ∀ n ∈ names, nameAt pkt n.start = some n
  ascending : Ascending 12 (names.map NameRef.range)
  clear : ∀ n ∈ names, Clear elided n.start n.stop
  rewritten : Rewritten elided names pkt work
  moved : ∀ x, 12 ≤ x → ¬ Within elided x → new[shift elided x]? = work[x]?
  length : new.length = shift elided pkt.length
  targets : ∀ n ∈ names, ∀ t, n.target = some t → ¬ Within elided t →
    ∃ m ∈ names, Visits pkt m.start t

namespace Elision

section

variable (h : Elision pkt work new elided names)
include h

theorem separate (hn : n ∈ names) (hm : m ∈ names) :
    n = m ∨ n.stop ≤ m.start ∨ m.stop ≤ n.start := by
  obtain heq | hlt := h.ascending.separate (mem_map_of_mem hn) (mem_map_of_mem hm)
  · have hstart : n.start = m.start := (Prod.mk.inj heq).1
    have hself := h.self n hn
    rw [hstart, h.self m hm] at hself
    exact .inl (some.inj hself).symm
  · exact .inr hlt

theorem le_start (hn : n ∈ names) : 12 ≤ n.start :=
  (h.ascending.bounds (mem_map_of_mem hn)).1

/-- A byte that is not part of a pointer, where it moved to. -/
theorem byte (hx : 12 ≤ x) (hout : ¬ Within elided x)
    (hsite : ∀ m ∈ names, m.target ≠ none → x + 2 < m.stop ∨ m.stop ≤ x) :
    new[shift elided x]? = pkt[x]? := by
  rw [h.moved x hx hout, h.rewritten.same x hsite]

theorem byte_label (hn : n ∈ names) (hx : n.start ≤ x)
    (hx' : x < n.stop) (hsite : n.target ≠ none → x + 2 < n.stop) :
    new[shift elided x]? = pkt[x]? := by
  have hstart := h.le_start hn
  refine h.byte (by omega) ((h.clear n hn).not_within hx hx') fun m hm htarget => ?_
  obtain rfl | hlt | hlt := h.separate hn hm
  · exact .inl (hsite htarget)
  · obtain ⟨t, ht⟩ := ne_none_iff_exists'.mp htarget
    have := site_bounds (h.self m hm) ht
    omega
  · omega

theorem shift_name (hn : n ∈ names) (hx : n.start ≤ x) (hxy : x ≤ y)
    (hy : y ≤ n.stop) : shift elided y = shift elided x + (y - x) :=
  h.ranges.shift_of_clear (h.clear n hn) hx hxy hy

theorem walkName_of_visits (hn : n ∈ names)
    (hp : Visits pkt n.start p) : n.start ≤ p ∧ walkName pkt p = some (n.stop, n.target) := by
  rw [hp.walkName_eq]
  exact ⟨hp.le, (nameAt_eq_some.mp (h.self n hn)).2⟩

/-- **What is left is a relocation** of the names that stay. -/
theorem relocation :
    Relocation pkt new (shift elided) fun p => ∃ n ∈ names, Visits pkt n.start p where
  walks := by
    rintro p ⟨n, hn, hp⟩ hbad
    have hwalk := (h.walkName_of_visits hn hp).2
    rw [walkName] at hwalk
    split at hwalk <;> simp_all
  root := by
    rintro p ⟨n, hn, hp⟩ hstep
    obtain ⟨hle, hwalk⟩ := h.walkName_of_visits hn hp
    rw [walkName_of_root hstep] at hwalk
    obtain ⟨hstop, htarget⟩ := Prod.mk.inj (some.inj hwalk)
    constructor
    · exact h.byte_label hn hle (by omega) fun hne => absurd htarget.symm hne
    · rw [h.shift_name hn hle (Nat.le_succ p) (by omega)]
      omega
  pointer := by
    rintro p t ⟨n, hn, hp⟩ hstep
    obtain ⟨hle, hwalk⟩ := h.walkName_of_visits hn hp
    rw [walkName_of_pointer hstep] at hwalk
    obtain ⟨hstop, htarget⟩ := Prod.mk.inj (some.inj hwalk)
    obtain ⟨moved, hmoved, hsite⟩ := h.rewritten.site n hn t htarget.symm
    obtain ⟨hout, rfl⟩ := (shiftOffset_eq_some h.ranges).mp hmoved
    have hstart := h.le_start hn
    have hpos : n.stop - 2 = p := by omega
    refine ⟨h.targets n hn t htarget.symm hout, ?_, ?_⟩
    · have hsmall : shift elided t < 16384 := by
        have := bounds_of_target hstep
        have : shift elided t ≤ t := Nat.sub_le _ _
        omega
      refine nameStep_of_pointerBytes hsmall fun k hk => ?_
      rw [← hsite k hk, hpos,
        ← h.moved (p + k) (by omega) ((h.clear n hn).not_within (by omega) (by omega)),
        h.shift_name hn hle (Nat.le_add_right p k) (by omega), Nat.add_sub_cancel_left]
    · rw [h.shift_name hn hle (Nat.le_add_right p 2) (by omega), Nat.add_sub_cancel_left]
  label := by
    rintro p next ⟨n, hn, hp⟩ hstep
    obtain ⟨hle, hwalk⟩ := h.walkName_of_visits hn hp
    rw [walkName_of_label hstep] at hwalk
    have hlt := (bounds_of_label hstep).1
    have hnext := (bounds_of_walkName hwalk).1
    refine ⟨⟨n, hn, hp.label hstep⟩, h.shift_name hn hle hlt.le (by omega), fun k hk => ?_⟩
    have hsite : n.target ≠ none → p + k + 2 < n.stop := by
      intro htarget
      obtain ⟨t, ht⟩ := ne_none_iff_exists'.mp htarget
      have := le_of_walkName (ht ▸ hwalk)
      omega
    rw [← h.byte_label hn (by omega) (by omega) hsite,
      h.shift_name hn hle (Nat.le_add_right p k) (by omega), Nat.add_sub_cancel_left]

end

end Elision

end DnsmasqRs.Rrfilter
