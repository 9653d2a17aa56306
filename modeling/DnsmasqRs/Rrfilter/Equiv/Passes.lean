import DnsmasqRs.Rrfilter.Equiv.Spans

/-!
# The passes over the names (`rrfilter.rs`)

`check_rrs` goes over the owner names of the records that stay and over the names in their RDATA
(`keptNames`).  What it does at each is `fixName`, and a pass is that for one name after the other
(`checkPass_names`): a pass changes bytes behind its back only, so each name is still the one of the
packet it began with.

After the rewriting pass, the bytes outside the pointers are the same and each pointer holds its
shifted target (`rewritten_of_foldlM`).
-/

namespace DnsmasqRs.Rrfilter

open Wire ByteCursor DnsProtocol Rfc1035 Edns0 Fallible Elide List Option

/-! ### Names -/

/-- A name that is walked: where it starts and ends, and its target if it ends in a pointer. -/
structure NameRef where
  start : ℕ
  stop : ℕ
  target : Option ℕ
  deriving DecidableEq

def NameRef.range (n : NameRef) : ℕ × ℕ := (n.start, n.stop)

/-- The name at `pos`. -/
def nameAt (pkt : Bytes) (pos : ℕ) : Option NameRef :=
  (walkName pkt pos).map fun w => { start := pos, stop := w.1, target := w.2 }

/-- The names in RDATA at `pos`, up to one that cannot be walked. -/
def rdataNames (pkt : Bytes) : List DescStep → ℕ → List NameRef
  | [], _ => []
  | .skip n :: rest, pos => rdataNames pkt rest (pos + n)
  | .name :: rest, pos =>
    match nameAt pkt pos with
    | none => []
    | some n => n :: rdataNames pkt rest n.stop

/-- The names in the RDATA of a record, by its type. -/
def Span.rdataNames (pkt : Bytes) (s : Span) : List NameRef :=
  Rrfilter.rdataNames pkt (rrfilterDesc s.fixed.rtype) s.rdata

/-- The names of a record that are walked. -/
def Span.names (pkt : Bytes) (s : Span) : List NameRef :=
  (nameAt pkt s.start).toList ++ if s.fixed.rclass = 1 then s.rdataNames pkt else []

/-- The names of the records that stay. -/
def keptNames (pkt : Bytes) (marked : Marked) : List NameRef :=
  marked.flatMap fun r => if r.2 then [] else r.1.names pkt

variable {pkt cur cur' : Bytes} {pos e : ℕ} {n : NameRef} {s : Span} {desc : List DescStep}
  {elided : Elided} {fixup : Bool} {marked : Marked} {names : List NameRef}

theorem nameAt_eq_some :
    nameAt pkt pos = some n ↔ n.start = pos ∧ walkName pkt pos = some (n.stop, n.target) := by
  rw [nameAt, map_eq_some_iff]
  constructor
  · rintro ⟨w, hw, rfl⟩
    exact ⟨rfl, hw⟩
  · rintro ⟨rfl, hw⟩
    exact ⟨_, hw, rfl⟩

theorem bounds_of_nameAt (h : nameAt pkt pos = some n) :
    n.start = pos ∧ pos < n.stop ∧ n.stop ≤ pkt.length := by
  obtain ⟨hstart, hwalk⟩ := nameAt_eq_some.mp h
  exact ⟨hstart, bounds_of_walkName hwalk⟩

theorem nameAt_of_spanAt (h : spanAt pkt pos = some s) :
    ∃ n, nameAt pkt s.start = some n ∧ n.start = s.start ∧ n.stop = s.nameEnd := by
  obtain ⟨rfl, hskip, -⟩ := spanAt_eq_some.mp h
  obtain ⟨target, hwalk⟩ := walkName_of_skipName hskip
  exact ⟨⟨s.start, s.nameEnd, target⟩, nameAt_eq_some.mpr ⟨rfl, hwalk⟩, rfl, rfl⟩

theorem mem_rdataNames (h : n ∈ rdataNames pkt desc pos) :
    nameAt pkt n.start = some n ∧ pos ≤ n.start := by
  fun_induction rdataNames pkt desc pos with
  | case1 | case3 => cases h
  | case2 pos k rest ih =>
    obtain ⟨hname, hle⟩ := ih h
    exact ⟨hname, by omega⟩
  | case4 pos rest m hname ih =>
    obtain ⟨hstart, hlt, -⟩ := bounds_of_nameAt hname
    rcases mem_cons.mp h with rfl | h
    · rw [hstart]
      exact ⟨hname, le_rfl⟩
    · obtain ⟨hname', hle⟩ := ih h
      exact ⟨hname', by omega⟩

theorem ascending_rdataNames : Ascending pos ((rdataNames pkt desc pos).map NameRef.range) := by
  fun_induction rdataNames pkt desc pos with
  | case1 | case3 => trivial
  | case2 pos k rest ih => exact ih.mono (by omega)
  | case4 pos rest m hname ih =>
    obtain ⟨hstart, hlt, -⟩ := bounds_of_nameAt hname
    refine ⟨le_of_eq hstart.symm, ?_, ih⟩
    show m.start < m.stop
    omega

/-- The names of a record stand inside it. -/
def Span.NamesInside (pkt : Bytes) (s : Span) : Prop := ∀ n ∈ s.names pkt, n.stop ≤ s.stop

theorem mem_names (h : spanAt pkt pos = some s) (hn : n ∈ s.names pkt) :
    nameAt pkt n.start = some n ∧ s.start ≤ n.start := by
  rcases mem_append.mp hn with hn | hn
  · have hname := mem_toList.mp hn
    rw [(bounds_of_nameAt hname).1]
    exact ⟨hname, le_rfl⟩
  · split at hn
    · obtain ⟨hname, hle⟩ := mem_rdataNames hn
      obtain ⟨hstart, hlt, -⟩ := bounds_of_spanAt h
      unfold Span.rdata at hle
      exact ⟨hname, by omega⟩
    · cases hn

theorem ascending_names (h : spanAt pkt pos = some s) :
    Ascending s.start ((s.names pkt).map NameRef.range) := by
  obtain ⟨owner, howner, hstart, hstop⟩ := nameAt_of_spanAt h
  have hlt := bounds_of_nameAt howner
  have hrdata :
      Ascending s.nameEnd
        ((if s.fixed.rclass = 1 then s.rdataNames pkt else []).map NameRef.range) := by
    split
    · exact ascending_rdataNames.mono (Nat.le_add_right _ _)
    · trivial
  rw [Span.names, howner]
  refine ⟨le_of_eq hstart.symm, ?_, ?_⟩
  · show owner.start < owner.stop
    omega
  · show Ascending owner.stop _
    rw [hstop]
    exact hrdata

theorem mem_keptNames : n ∈ keptNames pkt marked ↔ ∃ s, (s, false) ∈ marked ∧ n ∈ s.names pkt := by
  unfold keptNames
  rw [mem_flatMap]
  constructor
  · rintro ⟨⟨s, gone⟩, hs, hn⟩
    cases gone with
    | true => cases hn
    | false => exact ⟨s, hs, hn⟩
  · rintro ⟨s, hs, hn⟩
    exact ⟨(s, false), hs, hn⟩

theorem ascending_keptNames (h : Tiles pkt pos (marked.map (·.1)) e)
    (hinside : ∀ s, (s, false) ∈ marked → s.NamesInside pkt) :
    Ascending pos ((keptNames pkt marked).map NameRef.range) := by
  induction marked generalizing pos with
  | nil => trivial
  | cons head rest ih =>
    have hspan : spanAt pkt pos = some head.1 := h.1
    have hrest : Ascending head.1.stop ((keptNames pkt rest).map NameRef.range) :=
      ih h.2 fun s hs => hinside s (mem_cons_of_mem _ hs)
    obtain ⟨hstart, hlt, hrdata, -⟩ := bounds_of_spanAt hspan
    unfold Span.rdata at hrdata
    unfold keptNames
    rw [flatMap_cons, map_append]
    split
    · exact hrest.mono (by omega)
    · next hkept =>
      rw [Bool.not_eq_true] at hkept
      have hhead : head.1.NamesInside pkt := hinside head.1 (by rw [← hkept]; exact mem_cons_self)
      have hnames := ascending_names hspan
      rw [hstart] at hnames
      refine hnames.append (by omega) ?_ hrest
      intro r hr
      obtain ⟨n, hn, rfl⟩ := mem_map.mp hr
      exact hhead n hn

/-! ### Behind the pass -/

/-- The packet is as it was from `pos` on. -/
structure SameFrom (pos : ℕ) (cur pkt : Bytes) : Prop where
  length : cur.length = pkt.length
  bytes : ∀ x, pos ≤ x → cur[x]? = pkt[x]?

namespace SameFrom

theorem refl : SameFrom pos pkt pkt := ⟨rfl, fun _ _ => rfl⟩

theorem mono (h : SameFrom pos cur pkt) (hle : pos ≤ pos') : SameFrom pos' cur pkt :=
  ⟨h.length, fun x hx => h.bytes x (by omega)⟩

theorem trans (h' : SameFrom pos cur' cur) (h : SameFrom pos cur pkt) : SameFrom pos cur' pkt :=
  ⟨h'.length.trans h.length, fun x hx => (h'.bytes x hx).trans (h.bytes x hx)⟩

theorem readU8 (h : SameFrom pos cur pkt) (hx : pos ≤ x) :
    ByteCursor.readU8 cur x = ByteCursor.readU8 pkt x :=
  h.bytes x hx

theorem nameStep (h : SameFrom pos cur pkt) :
    Rfc1035.nameStep cur pos = Rfc1035.nameStep pkt pos := by
  unfold Rfc1035.nameStep
  rw [h.readU8 le_rfl, h.readU8 (Nat.le_add_right pos 1), h.length]

theorem nameAt (h : SameFrom pos cur pkt) : Rrfilter.nameAt cur pos = Rrfilter.nameAt pkt pos := by
  suffices hwalk : walkName cur pos = walkName pkt pos by
    rw [Rrfilter.nameAt, Rrfilter.nameAt, hwalk]
  fun_induction walkName pkt pos with
  | case1 pos hstep =>
    rw [walkName]
    split <;> simp_all [h.nameStep]
  | case2 pos hstep => exact walkName_of_root (h.nameStep.trans hstep)
  | case3 pos t hstep => exact walkName_of_pointer (h.nameStep.trans hstep)
  | case4 pos next hstep ih =>
    rw [walkName_of_label (h.nameStep.trans hstep)]
    exact ih (h.mono (bounds_of_label hstep).1.le)

theorem skipName (h : SameFrom pos cur pkt) :
    Rfc1035.skipName cur pos = Rfc1035.skipName pkt pos := by
  fun_induction Rfc1035.skipName pkt pos with
  | case1 pos hb =>
    rw [Rfc1035.skipName, h.readU8 le_rfl, hb]
  | case2 pos hb =>
    rw [Rfc1035.skipName, h.readU8 le_rfl, hb]
    rfl
  | case3 pos b hb hb0 hptr hlow | case4 pos b hb hb0 hptr low hlow =>
    rw [Rfc1035.skipName, h.readU8 le_rfl, hb, h.readU8 (Nat.le_add_right pos 1), hlow]
    simp only [hb0, hptr, ↓reduceIte]
  | case5 pos b hb hb0 hptr htype =>
    rw [Rfc1035.skipName, h.readU8 le_rfl, hb]
    simp only [hb0, hptr, htype, ↓reduceIte, not_false_eq_true, ne_eq]
  | case6 pos b hb hb0 hptr htype hle ih =>
    rw [Rfc1035.skipName, h.readU8 le_rfl, hb, h.length]
    simp only [hb0, hptr, htype, hle, ↓reduceIte]
    exact ih (h.mono (by omega))
  | case7 pos b hb hb0 hptr htype hle =>
    rw [Rfc1035.skipName, h.readU8 le_rfl, hb, h.length]
    simp only [hb0, hptr, htype, hle, ↓reduceIte]

theorem rrFixed (h : SameFrom pos cur pkt) : Edns0.rrFixed cur pos = Edns0.rrFixed pkt pos := by
  have hdrop : cur.drop pos = pkt.drop pos := by
    apply ext_getElem?
    intro k
    rw [getElem?_drop, getElem?_drop, h.bytes _ (Nat.le_add_right _ _)]
  unfold Edns0.rrFixed readSlice
  rw [hdrop, h.length]

end SameFrom

/-! ### One name -/

/-- What a pass does at a name. -/
def fixName (elided : Elided) (fixup : Bool) (cur : Bytes) (n : NameRef) : Option Bytes :=
  match n.target with
  | none => some cur
  | some t =>
    (shiftOffset elided t).map fun moved =>
      if fixup then splice cur (n.stop - 2) (pointerBytes moved) else cur

theorem checkName_step : checkName pkt pos elided fixup =
    match nameStep pkt pos with
    | .bad => none
    | .root => some (pkt, pos + 1)
    | .pointer t =>
      (shiftOffset elided t).map fun moved =>
        (if fixup then splice pkt pos (pointerBytes moved) else pkt, pos + 2)
    | .label next => checkName pkt next elided fixup := by
  rw [checkName]
  unfold nameStep
  cases readU8 pkt pos with
  | none => rfl
  | some b =>
    dsimp only
    by_cases hptr : b &&& 0xC0 = 0xC0
    · rw [if_pos hptr, if_pos hptr]
      cases readU8 pkt (pos + 1) with
      | none => rfl
      | some low =>
        dsimp only
        cases shiftOffset elided ((b &&& 0x3F).toNat * 256 + low.toNat) <;> rfl
    · rw [if_neg hptr, if_neg hptr]
      by_cases hreserved : b &&& 0xC0 = 0x80
      · rw [if_pos hreserved, if_pos hreserved]
      · rw [if_neg hreserved, if_neg hreserved]
        by_cases hbit : b &&& 0xC0 = 0x40
        · rw [if_pos hbit, if_pos hbit]
          cases readU8 pkt (pos + 1) with
          | none => rfl
          | some count =>
            show (if b &&& 0x3F ≠ 1 ∨ pkt.length < pos + 2 + bitStringSize count then none
              else checkName pkt (pos + 2 + bitStringSize count) elided fixup) = _
            dsimp only
            by_cases hbad : b &&& 0x3F ≠ 1 ∨ pkt.length < pos + 2 + bitStringSize count
            · rw [if_pos hbad, if_pos hbad]
            · rw [if_neg hbad, if_neg hbad]
        · rw [if_neg hbit, if_neg hbit]
          by_cases hlong : pkt.length < pos + 1 + (b &&& 0x3F).toNat
          · rw [if_pos hlong, if_pos hlong]
          · rw [if_neg hlong, if_neg hlong]
            by_cases hroot : (b &&& 0x3F).toNat = 0
            · rw [if_pos hroot, if_pos hroot]
            · rw [if_neg hroot, if_neg hroot]

theorem checkName_eq : checkName pkt pos elided fixup =
    (nameAt pkt pos).bind fun n => (fixName elided fixup pkt n).map fun cur => (cur, n.stop) := by
  unfold nameAt
  fun_induction walkName pkt pos with
  | case1 pos hstep | case2 pos hstep =>
    rw [checkName_step, hstep]
    rfl
  | case3 pos t hstep =>
    rw [checkName_step, hstep]
    show (shiftOffset elided t).map _ = ((shiftOffset elided t).map _).map _
    rw [Option.map_map]
    rfl
  | case4 pos next hstep ih =>
    rw [checkName_step, hstep]
    show checkName pkt next elided fixup = _
    rw [ih]
    cases walkName pkt next <;> rfl

/-- `check_name` at a name the pass has not come to yet. -/
theorem SameFrom.checkName_eq_some (hsame : SameFrom pos cur pkt)
    (h : checkName cur pos elided fixup = some r) :
    ∃ n, Rrfilter.nameAt pkt pos = some n ∧ Rrfilter.nameAt pkt n.start = some n
      ∧ fixName elided fixup cur n = some r.1 ∧ n.stop = r.2 := by
  rw [checkName_eq, hsame.nameAt] at h
  obtain ⟨n, hn, h⟩ := bind_eq_some_iff.mp h
  obtain ⟨cur', hfix, rfl⟩ := map_eq_some_iff.mp h
  refine ⟨n, hn, ?_, hfix, rfl⟩
  rw [(bounds_of_nameAt hn).1]
  exact hn

theorem fixName_eq_some : fixName elided fixup cur n = some cur' ↔
    (n.target = none ∧ cur' = cur)
      ∨ ∃ t moved, n.target = some t ∧ shiftOffset elided t = some moved
      ∧ cur' = if fixup then splice cur (n.stop - 2) (pointerBytes moved) else cur := by
  unfold fixName
  cases n.target with
  | none | some => simp [eq_comm]

theorem site_bounds (hn : nameAt pkt n.start = some n) (ht : n.target = some t) :
    n.start + 2 ≤ n.stop ∧ n.stop ≤ pkt.length := by
  have hwalk := (nameAt_eq_some.mp hn).2
  rw [ht] at hwalk
  exact ⟨le_of_walkName hwalk, (bounds_of_walkName hwalk).2⟩

theorem getElem?_splice_site (hn : nameAt pkt n.start = some n) (ht : n.target = some t)
    (hlen : cur.length = pkt.length) : (splice cur (n.stop - 2) (pointerBytes moved))[x]? =
      if n.stop ≤ x + 2 ∧ x < n.stop then (pointerBytes moved)[x - (n.stop - 2)]? else cur[x]? := by
  have hsite := site_bounds hn ht
  rw [getElem?_splice (show n.stop - 2 + 2 ≤ cur.length by omega)]
  show (if n.stop - 2 ≤ x ∧ x < n.stop - 2 + 2 then _ else _) = _
  have hiff : (n.stop - 2 ≤ x ∧ x < n.stop - 2 + 2) ↔ (n.stop ≤ x + 2 ∧ x < n.stop) := by omega
  simp only [hiff]

theorem sameFrom_fixName (hn : nameAt pkt n.start = some n) (hlen : cur.length = pkt.length)
    (h : fixName elided fixup cur n = some cur') : SameFrom n.stop cur' cur := by
  obtain ⟨-, rfl⟩ | ⟨t, moved, ht, -, rfl⟩ := fixName_eq_some.mp h
  · exact .refl
  · split
    · have hsite := site_bounds hn ht
      refine ⟨length_splice (show n.stop - 2 + 2 ≤ cur.length by omega), fun x hx => ?_⟩
      rw [getElem?_splice_site hn ht hlen, if_neg (by omega)]
    · exact .refl

/-! ### A record -/

/-- All the names in the RDATA can be walked. -/
def AllWalk (pkt : Bytes) : List DescStep → ℕ → Prop
  | [], _ => True
  | .skip n :: rest, pos => AllWalk pkt rest (pos + n)
  | .name :: rest, pos => ∃ n, nameAt pkt pos = some n ∧ AllWalk pkt rest n.stop

theorem checkRdata_names (hsame : SameFrom pos cur pkt)
    (h : checkRdata elided fixup desc cur pos = some cur') :
    (rdataNames pkt desc pos).foldlM (fixName elided fixup) cur = some cur'
      ∧ AllWalk pkt desc pos := by
  induction desc generalizing cur pos with
  | nil => exact ⟨h, trivial⟩
  | cons step rest ih =>
    cases step with
    | skip k =>
      unfold checkRdata at h
      split at h
      · cases h
      · exact ih (hsame.mono (by omega)) h
    | name =>
      obtain ⟨⟨cur₁, pos₁⟩, hname, hrest⟩ := bind_eq_some_iff.mp h
      obtain ⟨n, hn, hself, hfix, rfl⟩ := hsame.checkName_eq_some hname
      have hbehind := sameFrom_fixName hself hsame.length hfix
      obtain ⟨hfold, hwalk⟩ := ih (hbehind.trans (hsame.mono (bounds_of_nameAt hn).2.1.le)) hrest
      refine ⟨?_, n, hn, hwalk⟩
      rw [rdataNames, hn]
      show (n :: _).foldlM _ cur = _
      rw [foldlM_cons, hfix]
      exact hfold

/-- The names of a record the pass has gone over. -/
def Span.Walked (pkt : Bytes) (s : Span) : Prop :=
  s.fixed.rclass = 1 → AllWalk pkt (rrfilterDesc s.fixed.rtype) s.rdata

theorem checkRecord_names (hspan : spanAt pkt pos = some s) (hsame : SameFrom pos cur pkt)
    (hkept : elided.any (·.1 == s.start) = false)
    (h : checkRecord elided fixup cur s.start s.rdata s.fixed = some cur') :
    (s.names pkt).foldlM (fixName elided fixup) cur = some cur' ∧ s.Walked pkt := by
  obtain ⟨hstart, -⟩ := bounds_of_spanAt hspan
  obtain ⟨owner, howner, -, hstop⟩ := nameAt_of_spanAt hspan
  unfold checkRecord at h
  rw [hkept] at h
  obtain ⟨⟨cur₁, pos₁⟩, hname, hrest⟩ := bind_eq_some_iff.mp h
  rw [← hstart] at hsame
  obtain ⟨n, hn, hself, hfix, -⟩ := hsame.checkName_eq_some hname
  obtain rfl : owner = n := some.inj (howner.symm.trans hn)
  have hbehind : SameFrom s.nameEnd cur₁ pkt := by
    rw [← hstop]
    have hlt := (bounds_of_nameAt howner).2.1
    exact (sameFrom_fixName hself hsame.length hfix).trans (hsame.mono hlt.le)
  rw [Span.names, howner, toList_some, singleton_append, foldlM_cons, hfix]
  show (if s.fixed.rclass = 1 then s.rdataNames pkt else []).foldlM (fixName elided fixup) cur₁ = _
    ∧ _
  dsimp only at hrest
  split at hrest
  · next hclass =>
    obtain ⟨hfold, hwalk⟩ := checkRdata_names (hbehind.mono (Nat.le_add_right _ _)) hrest
    rw [if_pos hclass]
    exact ⟨hfold, fun _ => hwalk⟩
  · next hclass =>
    rw [if_neg hclass]
    exact ⟨hrest, fun h => absurd h hclass⟩

/-- A pass over names that end before `e` leaves the packet behind it. -/
theorem sameFrom_foldlM (hnames : ∀ n ∈ names, nameAt pkt n.start = some n ∧ n.stop ≤ e)
    (hlen : cur.length = pkt.length) (h : names.foldlM (fixName elided fixup) cur = some cur') :
    SameFrom e cur' cur := by
  induction names generalizing cur with
  | nil =>
    obtain rfl := some.inj h
    exact .refl
  | cons n names ih =>
    obtain ⟨hn, hrest⟩ := forall_mem_cons.mp hnames
    obtain ⟨cur₁, hfix, hfold⟩ := bind_eq_some_iff.mp h
    have hfirst := sameFrom_fixName hn.1 hlen hfix
    exact (ih hrest (hfirst.length.trans hlen) hfold).trans (hfirst.mono hn.2)

/-! ### The whole packet -/

theorem checkRrs_names (htiles : Tiles pkt pos (marked.map (·.1)) e)
    (hany : ∀ r ∈ marked, elided.any (·.1 == r.1.start) = r.2)
    (hinside : ∀ s, (s, false) ∈ marked → s.NamesInside pkt) (hsame : SameFrom pos cur pkt)
    (h : checkRrs elided fixup marked.length cur pos = some cur') :
    (keptNames pkt marked).foldlM (fixName elided fixup) cur = some cur'
      ∧ ∀ s, (s, false) ∈ marked → s.Walked pkt := by
  induction marked generalizing cur pos with
  | nil => exact ⟨h, fun s hs => nomatch hs⟩
  | cons head rest ih =>
    obtain ⟨s, gone⟩ := head
    have hspan : spanAt pkt pos = some s := htiles.1
    have hrest : Tiles pkt s.stop (rest.map (·.1)) e := htiles.2
    obtain ⟨hstart, hskip, hfixed, -⟩ := spanAt_eq_some.mp hspan
    obtain ⟨-, hlt, hrdata, -⟩ := bounds_of_spanAt hspan
    obtain ⟨hhead, htail⟩ := forall_mem_cons.mp hany
    obtain ⟨rdata, hname, hafter⟩ := bind_eq_some_iff.mp h
    obtain ⟨f, hf, hchecked⟩ := bind_eq_some_iff.mp hafter
    obtain ⟨cur₁, hrecord, hlast⟩ := bind_eq_some_iff.mp hchecked
    rw [toOption_eq_some, hsame.skipName, hskip] at hname
    obtain rfl := Except.ok.inj hname
    rw [(hsame.mono hlt.le).rrFixed, hfixed] at hf
    obtain rfl := some.inj hf
    split at hlast
    · cases hlast
    · have hstop : pos ≤ s.stop := by
        unfold Span.rdata at hrdata
        omega
      cases gone with
      | true =>
        have hcur : cur = cur₁ := by
          rw [checkRecord, ← hstart, if_pos hhead] at hrecord
          exact some.inj hrecord
        rw [← hcur] at hlast
        obtain ⟨hfold, hwalked⟩ := ih hrest htail (fun s hs => hinside s (mem_cons_of_mem _ hs))
          (hsame.mono hstop) hlast
        refine ⟨hfold, fun s hs => ?_⟩
        rcases mem_cons.mp hs with heq | hs
        · cases heq
        · exact hwalked s hs
      | false =>
        rw [← hstart] at hrecord
        obtain ⟨hnames, hwalk⟩ := checkRecord_names hspan hsame hhead hrecord
        have hmine := hinside s mem_cons_self
        have hbehind : SameFrom s.stop cur₁ cur := by
          exact sameFrom_foldlM (fun n hn => ⟨(mem_names hspan hn).1, hmine n hn⟩) hsame.length
            hnames
        obtain ⟨hfold, hwalked⟩ := ih hrest htail (fun s hs => hinside s (mem_cons_of_mem _ hs))
          (hbehind.trans (hsame.mono hstop)) hlast
        refine ⟨?_, fun s hs => ?_⟩
        · show (s.names pkt ++ keptNames pkt rest).foldlM (fixName elided fixup) cur = _
          rw [foldlM_append, hnames]
          exact hfold
        · rcases mem_cons.mp hs with heq | hs
          · obtain ⟨rfl, -⟩ := Prod.mk.inj heq
            exact hwalk
          · exact hwalked s hs

/-- **A pass** is one name after the other: the question's and those of the records that stay. -/
theorem checkPass_names (hone : hdr.qdcount = 1)
    (hq : nameAt pkt 12 = some q) (htiles : Tiles pkt (q.stop + 4) (marked.map (·.1)) e)
    (hany : ∀ r ∈ marked, elided.any (·.1 == r.1.start) = r.2)
    (hinside : ∀ s, (s, false) ∈ marked → s.NamesInside pkt)
    (h : checkPass elided fixup hdr marked.length pkt = some work) :
    (q :: keptNames pkt marked).foldlM (fixName elided fixup) pkt = some work
      ∧ ∀ s, (s, false) ∈ marked → s.Walked pkt := by
  obtain ⟨⟨cur, pos⟩, hquestion, hrrs⟩ := bind_eq_some_iff.mp h
  rw [hone] at hquestion
  obtain ⟨⟨cur₁, pos₁⟩, hname, hend⟩ := bind_eq_some_iff.mp hquestion
  obtain ⟨rfl, rfl⟩ := Prod.mk.inj (some.inj hend)
  obtain ⟨n, hn, hself, hfix, hstop⟩ := SameFrom.refl.checkName_eq_some hname
  obtain rfl : q = n := some.inj (hq.symm.trans hn)
  have hbehind : SameFrom (q.stop + 4) cur₁ pkt := (sameFrom_fixName hself rfl hfix).mono (by omega)
  dsimp only at hstop hrrs
  rw [← hstop] at hrrs
  obtain ⟨hfold, hwalked⟩ := checkRrs_names htiles hany hinside hbehind hrrs
  refine ⟨?_, hwalked⟩
  rw [foldlM_cons, hfix]
  exact hfold

theorem eq_of_foldlM_check (h : names.foldlM (fixName elided false) cur = some cur') :
    cur' = cur := by
  induction names generalizing cur with
  | nil => exact (some.inj h).symm
  | cons n names ih =>
    obtain ⟨cur₁, hfix, hfold⟩ := bind_eq_some_iff.mp h
    obtain ⟨-, rfl⟩ | ⟨t, moved, -, -, rfl⟩ := fixName_eq_some.mp hfix
    all_goals exact ih hfold

/-! ### The rewritten packet -/

/-- The pointers of the names are rewritten, and nothing else is. -/
structure Rewritten (elided : Elided) (names : List NameRef) (pkt work : Bytes) : Prop where
  length : work.length = pkt.length
  same : ∀ x, (∀ n ∈ names, n.target ≠ none → x + 2 < n.stop ∨ n.stop ≤ x) → work[x]? = pkt[x]?
  site : ∀ n ∈ names, ∀ t, n.target = some t →
    ∃ moved, shiftOffset elided t = some moved
      ∧ ∀ k < 2, work[n.stop - 2 + k]? = (pointerBytes moved)[k]?

/-- **The rewriting pass**. -/
theorem rewritten_of_foldlM (hasc : Ascending lo (names.map NameRef.range))
    (hnames : ∀ n ∈ names, nameAt pkt n.start = some n) (hlen : cur.length = pkt.length)
    (h : names.foldlM (fixName elided true) cur = some work) : Rewritten elided names cur work := by
  induction names generalizing cur lo with
  | nil =>
    obtain rfl := some.inj h
    exact ⟨rfl, fun _ _ => rfl, fun n hn => nomatch hn⟩
  | cons n names ih =>
    obtain ⟨hn, hrest⟩ := forall_mem_cons.mp hnames
    obtain ⟨-, hlt, hbehind⟩ : lo ≤ n.start ∧ n.start < n.stop ∧ Ascending n.stop _ := hasc
    obtain ⟨cur₁, hfix, hfold⟩ := bind_eq_some_iff.mp h
    have hsame := sameFrom_fixName hn hlen hfix
    have htail := ih hbehind hrest (hsame.length.trans hlen) hfold
    -- the sites of the later names are all behind this one
    have hlater : ∀ x < n.stop, work[x]? = cur₁[x]? := by
      intro x hx
      refine htail.same x fun m hm hm' => ?_
      have hm₁ : n.stop ≤ m.start := (hbehind.bounds (mem_map_of_mem hm)).1
      obtain ⟨t, ht⟩ := ne_none_iff_exists'.mp hm'
      have hm₂ := site_bounds (hrest m hm) ht
      omega
    refine ⟨htail.length.trans hsame.length, ?_, ?_⟩
    · intro x hx
      obtain ⟨hhead, hothers⟩ := forall_mem_cons.mp hx
      rw [htail.same x hothers]
      obtain ⟨-, rfl⟩ | ⟨t, moved, ht, -, rfl⟩ := fixName_eq_some.mp hfix
      · rfl
      · have := hhead (by rw [ht]; nofun)
        rw [if_pos rfl, getElem?_splice_site hn ht hlen, if_neg (by omega)]
    · intro m hm t ht
      rcases mem_cons.mp hm with rfl | hm
      · obtain ⟨hnone, -⟩ | ⟨t', moved, ht', hmoved, rfl⟩ := fixName_eq_some.mp hfix
        · rw [hnone] at ht
          cases ht
        · obtain rfl := some.inj (ht'.symm.trans ht)
          have hsite := site_bounds hn ht
          refine ⟨moved, hmoved, fun k hk => ?_⟩
          rw [hlater _ (by omega), if_pos rfl, getElem?_splice_site hn ht hlen, if_pos (by omega),
            Nat.add_sub_cancel_left]
      · exact htail.site m hm t ht

/-! ### After the checking pass -/

variable {checked : Bytes} {spans : List Span}

theorem fixName_check (h : fixName elided false cur n = some cur') :
    cur' = cur ∧ ∀ work, ∃ work', fixName elided true work n = some work' := by
  obtain ⟨ht, rfl⟩ | ⟨t, moved, ht, hmoved, rfl⟩ := fixName_eq_some.mp h
  · exact ⟨rfl, fun work => ⟨work, fixName_eq_some.mpr (.inl ⟨ht, rfl⟩)⟩⟩
  · exact ⟨rfl, fun work => ⟨_, fixName_eq_some.mpr (.inr ⟨t, moved, ht, hmoved, rfl⟩)⟩⟩

theorem SameFrom.checkName_fixup (hsame : SameFrom pos cur pkt)
    (h : checkName pkt pos elided false = some (checked, p)) :
    checked = pkt ∧ ∃ cur', checkName cur pos elided true = some (cur', p)
      ∧ SameFrom p cur' pkt := by
  obtain ⟨n, hn, hself, hfix, rfl⟩ := SameFrom.refl.checkName_eq_some h
  obtain ⟨hchecked, hfixes⟩ := fixName_check hfix
  obtain ⟨cur', hcur'⟩ := hfixes cur
  refine ⟨hchecked, cur', ?_, ?_⟩
  · rw [checkName_eq, hsame.nameAt, hn, bind_some, hcur']
    rfl
  · exact (sameFrom_fixName hself hsame.length hcur').trans
      (hsame.mono (bounds_of_nameAt hn).2.1.le)

theorem SameFrom.checkRdata_fixup (hsame : SameFrom pos cur pkt)
    (h : checkRdata elided false desc pkt pos = some checked) :
    checked = pkt ∧ ∃ cur', checkRdata elided true desc cur pos = some cur' := by
  induction desc generalizing cur pos with
  | nil => exact ⟨(some.inj h).symm, cur, rfl⟩
  | cons step rest ih =>
    cases step with
    | skip k =>
      unfold checkRdata at h ⊢
      rw [hsame.length]
      split at h
      · cases h
      · next hlen =>
        rw [if_neg hlen]
        exact ih (hsame.mono (by omega)) h
    | name =>
      obtain ⟨⟨checked₁, p⟩, hname, hrest⟩ := bind_eq_some_iff.mp h
      obtain ⟨rfl, cur₁, hcur₁, hbehind⟩ := hsame.checkName_fixup hname
      obtain ⟨hchecked, cur', hcur'⟩ := ih hbehind hrest
      exact ⟨hchecked, cur', bind_eq_some_iff.mpr ⟨_, hcur₁, hcur'⟩⟩

theorem SameFrom.checkRecord_fixup (hsame : SameFrom s.start cur pkt)
    (hskip : Rfc1035.skipName pkt s.start = .ok s.nameEnd)
    (h : checkRecord elided false pkt s.start s.rdata s.fixed = some checked) :
    checked = pkt ∧ ∃ cur', checkRecord elided true cur s.start s.rdata s.fixed = some cur' := by
  unfold checkRecord at h ⊢
  split at h
  · next hgone => exact ⟨(some.inj h).symm, cur, if_pos hgone⟩
  · next hkept =>
    obtain ⟨⟨checked₁, p⟩, hname, hrest⟩ := bind_eq_some_iff.mp h
    obtain ⟨target, hwalk⟩ := walkName_of_skipName hskip
    obtain ⟨n, hn, -, -, hstop⟩ := SameFrom.refl.checkName_eq_some hname
    obtain rfl : s.nameEnd = p := by
      rw [(nameAt_eq_some.mp hn).2] at hwalk
      exact (Prod.mk.inj (some.inj hwalk)).1.symm.trans hstop
    obtain ⟨rfl, cur₁, hcur₁, hbehind⟩ := hsame.checkName_fixup hname
    rw [if_neg hkept]
    dsimp only at hrest
    split at hrest
    · next hclass =>
      obtain ⟨hchecked, cur', hcur'⟩ := (hbehind.mono (Nat.le_add_right _ _)).checkRdata_fixup hrest
      exact ⟨hchecked, cur', bind_eq_some_iff.mpr ⟨_, hcur₁, (if_pos hclass).trans hcur'⟩⟩
    · next hclass =>
      exact ⟨(some.inj hrest).symm, cur₁, bind_eq_some_iff.mpr ⟨_, hcur₁, if_neg hclass⟩⟩

/-- One record of the checking pass. -/
theorem checkRrs_check (h : checkRrs elided false (total + 1) pkt pos = some checked) :
    ∃ s, spanAt pkt pos = some s ∧ checkRecord elided false pkt s.start s.rdata s.fixed = some pkt
      ∧ checkRrs elided false total pkt s.stop = some checked := by
  obtain ⟨rdata, hname, hafter⟩ := bind_eq_some_iff.mp h
  obtain ⟨f, hf, hchecked⟩ := bind_eq_some_iff.mp hafter
  obtain ⟨checked₁, hrecord, hlast⟩ := bind_eq_some_iff.mp hchecked
  split at hlast
  · cases hlast
  · next hlen =>
    have hskip := toOption_eq_some.mp hname
    obtain ⟨rfl, -⟩ := SameFrom.refl.checkRecord_fixup (s := ⟨pos, rdata, f⟩) hskip hrecord
    exact ⟨⟨pos, rdata, f⟩, spanAt_eq_some.mpr ⟨rfl, hskip, hf, not_lt.mp hlen⟩, hrecord, hlast⟩

/-- The records of a packet that has been checked, and which of them go. -/
def markStarts (elided : Elided) (spans : List Span) : Marked :=
  spans.map fun s => (s, elided.any (·.1 == s.start))

theorem map_fst_markStarts : (markStarts elided spans).map (·.1) = spans := by
  rw [markStarts, List.map_map]
  exact map_id' _

theorem tiles_of_checkRrs (h : checkRrs elided false total pkt pos = some checked) :
    checked = pkt ∧ (spansFrom pkt total pos).length = total
      ∧ ∃ e, Tiles pkt pos (spansFrom pkt total pos) e := by
  induction total generalizing pos with
  | zero => exact ⟨(some.inj h).symm, rfl, pos, rfl⟩
  | succ total ih =>
    obtain ⟨s, hspan, -, hrest⟩ := checkRrs_check h
    obtain ⟨hchecked, hlength, e, htiles⟩ := ih hrest
    rw [spansFrom, hspan]
    exact ⟨hchecked, congrArg (· + 1) hlength, e, hspan, htiles⟩

/-- The names that a pass goes over: the question's, and those of the records that stay. -/
def passNames (pkt : Bytes) (elided : Elided) (total : ℕ) : List NameRef :=
  match nameAt pkt 12 with
  | none => []
  | some q => q :: keptNames pkt (markStarts elided (spansFrom pkt total (q.stop + 4)))

/-- The names of the records that stay end inside them. -/
def NamesWithin (pkt : Bytes) (elided : Elided) (total : ℕ) : Prop :=
  ∀ q ∈ nameAt pkt 12, ∀ s ∈ spansFrom pkt total (q.stop + 4), elided.any (·.1 == s.start) = false →
    s.NamesInside pkt

theorem checkRrs_fixup (hsame : SameFrom pos cur pkt)
    (hinside : ∀ s ∈ spansFrom pkt total pos, elided.any (·.1 == s.start) = false →
      s.NamesInside pkt)
    (h : checkRrs elided false total pkt pos = some checked) :
    ∃ work, checkRrs elided true total cur pos = some work := by
  induction total generalizing cur pos with
  | zero => exact ⟨cur, rfl⟩
  | succ total ih =>
    obtain ⟨s, hspan, hrecord, hchecked⟩ := checkRrs_check h
    obtain ⟨rfl, hskip, hfixed, hlen⟩ := spanAt_eq_some.mp hspan
    obtain ⟨-, cur₁, hcur₁⟩ := hsame.checkRecord_fixup hskip hrecord
    obtain ⟨-, hlt, hrdata, -⟩ := bounds_of_spanAt hspan
    rw [spansFrom, hspan] at hinside
    obtain ⟨hmine, hrest⟩ := forall_mem_cons.mp hinside
    -- what is rewritten in the record stands inside it
    have hbehind : SameFrom s.stop cur₁ cur := by
      cases hkept : elided.any (·.1 == s.start) with
      | true =>
        rw [checkRecord, if_pos hkept] at hcur₁
        rw [some.inj hcur₁]
        exact .refl
      | false =>
        obtain ⟨hnames, -⟩ := checkRecord_names hspan hsame hkept hcur₁
        exact sameFrom_foldlM (fun n hn => ⟨(mem_names hspan hn).1, hmine hkept n hn⟩) hsame.length
          hnames
    have hsame₁ : SameFrom s.stop cur₁ pkt := by
      refine hbehind.trans (hsame.mono ?_)
      unfold Span.rdata at hrdata
      omega
    obtain ⟨work, hwork⟩ := ih hsame₁ hrest hchecked
    refine ⟨work, bind_eq_some_iff.mpr ⟨s.nameEnd, ?_, bind_eq_some_iff.mpr ⟨s.fixed, ?_,
      bind_eq_some_iff.mpr ⟨cur₁, hcur₁, ?_⟩⟩⟩⟩
    · rw [hsame.skipName, hskip]
      rfl
    · rw [(hsame.mono hlt.le).rrFixed]
      exact hfixed
    · rw [hsame₁.length]
      exact (if_neg (not_lt.mpr hlen)).trans hwork

/-- **The rewriting pass goes over the same names**, and each pointer is rewritten once. -/
structure FixesOnce (elided : Elided) (names : List NameRef) (pkt work : Bytes) : Prop where
  pass : names.foldlM (fixName elided true) pkt = some work
  apart : Ascending 12 (names.map NameRef.range)
  rewritten : Rewritten elided names pkt work

/-- **A packet that has been checked can be rewritten**, if the names of its records are inside
them. -/
theorem fixesOnce_of_checkPass {hdr : DnsHeader} {total : ℕ} (hone : hdr.qdcount = 1)
    (hwithin : NamesWithin pkt elided total)
    (h : checkPass elided false hdr total pkt = some checked) :
    checked = pkt ∧ ∃ work, checkPass elided true hdr total checked = some work
      ∧ FixesOnce elided (passNames pkt elided total) pkt work := by
  obtain ⟨⟨cur, pos⟩, hquestion, hrrs⟩ := bind_eq_some_iff.mp h
  rw [hone] at hquestion
  obtain ⟨⟨cur₁, stop⟩, hname, hend⟩ := bind_eq_some_iff.mp hquestion
  obtain ⟨rfl, rfl⟩ := Prod.mk.inj (some.inj hend)
  obtain ⟨q, hq, hself, -, rfl⟩ := SameFrom.refl.checkName_eq_some hname
  obtain ⟨rfl, cur, hcur, hbehind⟩ := SameFrom.refl.checkName_fixup hname
  obtain ⟨hchecked, hlength, e, htiles⟩ := tiles_of_checkRrs hrrs
  set marked := markStarts elided (spansFrom cur₁ total (q.stop + 4)) with hdef
  have hmarked : marked.length = total := by
    rw [hdef, markStarts, length_map, hlength]
  have hpass : ∃ work, checkPass elided true hdr total cur₁ = some work := by
    obtain ⟨work, hwork⟩ := checkRrs_fixup (hbehind.mono (Nat.le_add_right _ 4)) (hwithin q hq) hrrs
    refine ⟨work, bind_eq_some_iff.mpr ⟨(cur, q.stop + 4), ?_, hwork⟩⟩
    rw [hone]
    exact bind_eq_some_iff.mpr ⟨_, hcur, rfl⟩
  have hinside : ∀ s, (s, false) ∈ marked → s.NamesInside cur₁ := by
    intro s hs
    obtain ⟨s', hs', heq⟩ := mem_map.mp hs
    obtain ⟨rfl, hkept⟩ := Prod.mk.inj heq
    exact hwithin q hq s' hs' hkept
  obtain ⟨work, hwork⟩ := hpass
  refine ⟨hchecked, work, hchecked ▸ hwork, ?_⟩
  have htiles' : Tiles cur₁ (q.stop + 4) (marked.map (·.1)) e := by
    rw [map_fst_markStarts]
    exact htiles
  have hany : ∀ r ∈ marked, elided.any (·.1 == r.1.start) = r.2 := by
    intro r hr
    obtain ⟨s, -, rfl⟩ := mem_map.mp hr
    rfl
  rw [← hmarked] at hwork
  obtain ⟨hfold, -⟩ := checkPass_names hone hq htiles' hany hinside hwork
  have hapart : Ascending 12 ((passNames cur₁ elided total).map NameRef.range) := by
    obtain ⟨hstart, hlt, -⟩ := bounds_of_nameAt hq
    rw [passNames, hq]
    exact ⟨hstart.ge, hstart ▸ hlt,
      (ascending_keptNames htiles' hinside).mono (Nat.le_add_right _ 4)⟩
  have hnames : passNames cur₁ elided total = q :: keptNames cur₁ marked := by
    rw [passNames, hq]
  rw [← hnames] at hfold
  have hwalks : ∀ n ∈ passNames cur₁ elided total, nameAt cur₁ n.start = some n := by
    rw [hnames]
    refine forall_mem_cons.mpr ⟨hself, fun n hn => ?_⟩
    obtain ⟨s, hs, hn⟩ := mem_keptNames.mp hn
    exact (mem_names (htiles'.bounds (mem_map_of_mem hs)).1 hn).1
  exact ⟨hfold, hapart, rewritten_of_foldlM hapart hwalks rfl hfold⟩

instance : Decidable (s.NamesInside pkt) := inferInstanceAs (Decidable (∀ n ∈ s.names pkt, _))

instance {total : ℕ} : Decidable (NamesWithin pkt elided total) :=
  inferInstanceAs (Decidable (∀ q ∈ nameAt pkt 12, ∀ s ∈ spansFrom pkt total (q.stop + 4), _ → _))

/-- The header of a reply with three additional records. -/
def threeHeader : DnsHeader := ⟨1, 0x81, 0x80, 1, 0, 0, 3⟩

/-- A TXT record, an NS record with some RDATA, and an address record whose owner is a pointer to
that of the NS record. -/
def threeReply (rdata : Bytes) : Bytes :=
  threeHeader.toBytes ++ [0, 0, 1, 0, 1] ++ [0, 0, 16, 0, 1, 0, 0, 0, 0, 0, 0]
    ++ ([0, 0, 2, 0, 1, 0, 0, 0, 0, 0, UInt8.ofNat rdata.length] ++ rdata)
    ++ [0xC0, 28, 0, 1, 0, 1, 0, 0, 0, 0, 0, 4, 1, 2, 3, 4]

/-- Without RDATA, the pointer is the name of the NS record too. It is rewritten there, and leads
into the TXT record when the rewriting pass meets it again. -/
theorem not_fixes_threeReply : DnsHeader.fromBytes (threeReply []) = some threeHeader
    ∧ checkPass [(17, 28)] false threeHeader 3 (threeReply []) = some (threeReply [])
    ∧ checkPass [(17, 28)] true threeHeader 3 (threeReply []) = none := by
  decide +kernel

theorem fixesOnce_of_checkPass_threeReply : ∃ work,
    checkPass [(17, 28)] true threeHeader 3 (threeReply [0xC0, 28]) = some work
      ∧ FixesOnce
        [(17, 28)] (passNames (threeReply [0xC0, 28]) [(17, 28)] 3) (threeReply [0xC0, 28]) work :=
  (fixesOnce_of_checkPass rfl (by decide +kernel) (by decide +kernel)).2

end DnsmasqRs.Rrfilter
