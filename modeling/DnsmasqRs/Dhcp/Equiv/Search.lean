import DnsmasqRs.Dhcp.Pool

/-!
# The search for a free address

The search walks once around each range, starting somewhere in the middle.  A range is a ring of
`span` places, and the walk from place `n` passes the places `n, n + 1, …` modulo `span` (`walk`).
Without pings the search returns the first address it takes of these walks, one after the other
(`inContexts_eq_find?`), so it is sound and complete (`addressAllocate_sound_complete`).  Without
`--dhcp-sequential-ip` this is the first free address of the ranges the client may get addresses
from (`addressAllocate_eq_find?`, `mem_addresses`).
-/

namespace DnsmasqRs.Dhcp

open Wire Utf8 List

/-! ### Addresses as numbers -/

theorem toU32_ofU32 (n : UInt32) : toU32 (ofU32 n) = n := ofBe32_be32

theorem ofU32_toU32 : ofU32 (toU32 a) = a := by
  obtain ⟨octets⟩ := a
  have hbytes := be32_ofBe32 octets[0] octets[1] octets[2] octets[3]
  simp only [be32, cons.injEq, and_true] at hbytes
  obtain ⟨h0, h1, h2, h3⟩ := hbytes
  unfold ofU32 toU32
  rw [Ipv4Addr.mk.injEq]
  rw [h0, h1, h2, h3]
  ext i hi
  obtain rfl | rfl | rfl | rfl : i = 0 ∨ i = 1 ∨ i = 2 ∨ i = 3 := by omega
  all_goals rfl

/-! ### The ring of a range -/

namespace DhcpContext

variable (c : DhcpContext)

/-- The number of addresses from the start of the range to its end. -/
def span : ℕ := (toU32 c.finish - toU32 c.start).toNat + 1

/-- The address at a place of the range. -/
def place (n : ℕ) : Ipv4Addr := ofU32 (toU32 c.start + UInt32.ofNat n)

/-- The addresses of the range from place `n` on, once around. -/
def walk (n : ℕ) : List Ipv4Addr := (List.range c.span).map fun i => c.place ((n + i) % c.span)

theorem span_pos : 0 < c.span := Nat.succ_pos _

theorem span_le : c.span ≤ 2 ^ 32 := (toU32 c.finish - toU32 c.start).toNat_lt

theorem place_injOn (hm : m < c.span) (hn : n < c.span) (h : c.place m = c.place n) : m = n := by
  have hspan := c.span_le
  have heq : toU32 c.start + UInt32.ofNat m = toU32 c.start + UInt32.ofNat n := by
    rw [← toU32_ofU32 (_ + UInt32.ofNat m), ← toU32_ofU32 (_ + UInt32.ofNat n)]
    exact congrArg toU32 h
  have hnat := congrArg UInt32.toNat ((UInt32.add_right_inj _).mp heq)
  rw [UInt32.toNat_ofNat', UInt32.toNat_ofNat'] at hnat
  omega

/-- The next address is that at the next place, and the last one is followed by the first. -/
theorem nextAddrWrapping_place (hn : n < c.span) :
    nextAddrWrapping (c.place n) c.start c.finish = c.place ((n + 1) % c.span) := by
  have hspan := c.span_le
  unfold nextAddrWrapping place
  rw [toU32_ofU32]
  have hlast : toU32 c.start + UInt32.ofNat n + 1 = toU32 c.finish + 1 ↔ n + 1 = c.span := by
    have hsub : toU32 c.start + UInt32.ofNat n + 1 = toU32 c.finish + 1 ↔
        UInt32.ofNat n = toU32 c.finish - toU32 c.start := by grind
    rw [hsub, ← UInt32.toNat_inj, UInt32.toNat_ofNat', span]
    omega
  by_cases h : n + 1 = c.span
  · rw [if_pos (hlast.mpr h), h, Nat.mod_self, show UInt32.ofNat 0 = 0 from rfl, UInt32.add_zero,
      ofU32_toU32]
  · rw [if_neg (mt hlast.mp h), Nat.mod_eq_of_lt (by omega), UInt32.ofNat_add, ← UInt32.add_assoc]
    rfl

theorem nextAddrWrapping_add : nextAddrWrapping (c.place ((n + i) % c.span)) c.start c.finish =
    c.place ((n + (i + 1)) % c.span) := by
  rw [c.nextAddrWrapping_place (Nat.mod_lt _ c.span_pos), Nat.mod_add_mod, Nat.add_assoc]

theorem iterate_nextAddrWrapping (hn : n < c.span) :
    (nextAddrWrapping · c.start c.finish)^[i] (c.place n) = c.place ((n + i) % c.span) := by
  induction i with
  | zero => rw [Nat.add_zero, Nat.mod_eq_of_lt hn, Function.iterate_zero_apply]
  | succ i ih => rw [Function.iterate_succ_apply', ih, c.nextAddrWrapping_add]

/-- The address is at one of the places of the range. -/
def spans (a : Ipv4Addr) : Prop := ∃ n < c.span, c.place n = a

/-- If the range does not end before it starts, these are the addresses from its start to its end.
-/
theorem spans_iff_covers (hle : toU32 c.start ≤ toU32 c.finish) (a : Ipv4Addr) :
    c.spans a ↔ c.covers a := by
  have hspan : c.span = (toU32 c.finish).toNat - (toU32 c.start).toNat + 1 := by
    rw [span, UInt32.toNat_sub_of_le _ _ hle]
  have hlt := (toU32 c.finish).toNat_lt
  unfold covers
  rw [Bool.and_eq_true, decide_eq_true_eq, decide_eq_true_eq]
  rw [UInt32.le_iff_toNat_le] at hle
  constructor
  · rintro ⟨n, hn, rfl⟩
    have hnat : (toU32 c.start + UInt32.ofNat n).toNat = (toU32 c.start).toNat + n := by
      rw [UInt32.toNat_add, UInt32.toNat_ofNat', Nat.add_mod_mod, Nat.mod_eq_of_lt (by omega)]
    unfold place
    rw [toU32_ofU32, UInt32.le_iff_toNat_le, UInt32.le_iff_toNat_le]
    omega
  · rintro ⟨hstart, hfinish⟩
    refine ⟨(toU32 a - toU32 c.start).toNat, ?_, ?_⟩
    · rw [UInt32.toNat_sub_of_le _ _ hstart]
      rw [UInt32.le_iff_toNat_le] at hstart hfinish
      omega
    · unfold place
      rw [UInt32.ofNat_toNat, UInt32.add_comm, UInt32.sub_add_cancel, ofU32_toU32]

/-- **The walk passes the addresses of the range**, wherever it starts. -/
theorem mem_walk (hn : n < c.span) (a : Ipv4Addr) : a ∈ c.walk n ↔ c.spans a := by
  have hpos := c.span_pos
  unfold walk
  rw [mem_map]
  constructor
  · rintro ⟨i, -, rfl⟩
    exact ⟨_, Nat.mod_lt _ hpos, rfl⟩
  · rintro ⟨m, hm, rfl⟩
    refine ⟨(m + (c.span - n)) % c.span, mem_range.mpr (Nat.mod_lt _ hpos), ?_⟩
    rw [Nat.add_mod_mod, show n + (m + (c.span - n)) = m + c.span by omega, Nat.add_mod_right,
      Nat.mod_eq_of_lt hm]

/-- The place the search starts from. -/
def startPlace (hash : UInt32) : ℕ :=
  let range := toU32 c.finish - toU32 c.start + 1
  if range = 0 then 0 else ((hash + c.addrEpoch) % range).toNat

theorem hashToAddr_eq (hash : UInt32) :
    hashToAddr hash c.addrEpoch c.start c.finish = c.place (c.startPlace hash) := by
  unfold hashToAddr place startPlace
  dsimp only
  split
  · rw [show UInt32.ofNat 0 = 0 from rfl, UInt32.add_zero, ofU32_toU32]
  · rw [UInt32.ofNat_toNat]

theorem startPlace_lt (hash : UInt32) : c.startPlace hash < c.span := by
  unfold startPlace
  dsimp only
  split
  · exact c.span_pos
  · next hne =>
    rw [UInt32.toNat_mod]
    refine (Nat.mod_lt _ ?_).trans_le ?_
    · exact Nat.pos_of_ne_zero fun h0 => hne (UInt32.toNat_inj.mp h0)
    · exact Nat.mod_le _ _

end DhcpContext

/-! ### The search -/

namespace Search

variable {search : Search}

/-- The address the walk around a range starts from. -/
def seed (search : Search) (c : DhcpContext) : Ipv4Addr :=
  if search.consecAddr then search.db.findMaxAddr c.start c.finish
  else hashToAddr search.hash c.addrEpoch c.start c.finish

/-- The seed is an address of the range. -/
theorem spans_seed {s : Search} {c : DhcpContext} (hle : toU32 c.start ≤ toU32 c.finish) :
    c.spans (s.seed c) := by
  unfold seed
  split
  · apply (c.spans_iff_covers hle _).mpr
    unfold LeaseDb.findMaxAddr
    dsimp only
    generalize hrange : List.filter _ _ = inRange
    cases hmax : inRange.max? with
    | some a =>
      have : Std.MaxEqOr UInt32 := ⟨fun a b => (ite_eq_or_eq (a ≤ b) b a).symm⟩
      have ha := max?_mem hmax
      rw [← hrange, mem_filter] at ha
      rw [DhcpContext.covers, toU32_ofU32]
      exact ha.2
    | none =>
      rw [DhcpContext.covers, decide_eq_true hle, decide_eq_true (UInt32.le_refl _)]
      rfl
  · exact ⟨_, c.startPlace_lt _, (c.hashToAddr_eq _).symm⟩

/-- The search takes the address. -/
def accepts (search : Search) (cache : PingCache) (addr : Ipv4Addr) : Bool :=
  search.isFree addr &&
    (Id.run <| cache.check search.now addr search.hash search.noPing false search.probe).1.any
      fun r => !search.consecAddr || r = search.hash

/-- The addresses the search looks at, in order. -/
def addresses (search : Search) (netids : List DhcpNetid) : List Ipv4Addr :=
  (search.candidates netids false ++ search.candidates netids true).flatMap fun c =>
    c.walk (c.startPlace search.hash)

variable (hping : search.noPing = true)
include hping

/-- Without pings every address that the tables do not know is free. -/
theorem check_noPing (cache : PingCache) (addr : Ipv4Addr) :
    ∃ r, (Id.run <| cache.check search.now addr search.hash search.noPing false search.probe)
      = (some r, cache) := by
  unfold PingCache.check
  split
  · exact ⟨_, rfl⟩
  · rw [hping, Bool.or_true, Bool.true_or]
    exact ⟨_, rfl⟩

theorem accepts_eq_isFree (hconsec : search.consecAddr = false) (cache : PingCache) :
    search.accepts cache = search.isFree := by
  funext addr
  obtain ⟨r, hr⟩ := check_noPing hping cache addr
  unfold accepts
  rw [hr, hconsec]
  exact Bool.and_true _

theorem scan_succ :
    search.scan c startAddr (fuel + 1) addr cache =
      if search.accepts cache addr then (some addr, cache)
      else
        let next := nextAddrWrapping addr c.start c.finish
        if next = startAddr then (none, cache) else search.scan c startAddr fuel next cache := by
  obtain ⟨r, hr⟩ := check_noPing hping cache addr
  rw [scan, accepts, hr]
  cases search.isFree addr <;> rfl

/-- **The loop over a range** stops at the first address of what is left of the walk that it takes.
-/
theorem scan_eq_find? (c : DhcpContext) (hn : n < c.span) (fuel i : ℕ) (hi : i + fuel = c.span)
    (cache : PingCache) : search.scan c (c.place n) fuel (c.place ((n + i) % c.span)) cache =
      (((List.range' i fuel).map fun j => c.place ((n + j) % c.span)).find? (search.accepts cache),
        cache) := by
  have hpos := c.span_pos
  induction fuel generalizing i with
  | zero => rfl
  | succ fuel ih =>
    rw [List.range'_succ, map_cons, find?_cons, scan_succ hping, c.nextAddrWrapping_add]
    cases search.accepts cache (c.place ((n + i) % c.span)) with
    | true => rfl
    | false =>
      rw [if_neg Bool.false_ne_true]
      -- the walk is back at its start when no round is left
      by_cases hlast : fuel = 0
      · subst hlast
        rw [if_pos]
        · rfl
        · rw [hi, Nat.add_mod_right, Nat.mod_eq_of_lt hn]
      · rw [if_neg, ih (i + 1) (by omega)]
        intro heq
        have hmod := c.place_injOn (Nat.mod_lt _ hpos) hn heq
        have hdiv := Nat.div_add_mod (n + (i + 1)) c.span
        -- the walk would have gone around by less than one round
        have hround : c.span * ((n + (i + 1)) / c.span) = i + 1 := by omega
        exact absurd (Nat.le_of_dvd (Nat.succ_pos i) ⟨_, hround.symm⟩) (by omega)

theorem inContext_eq_find? {c : DhcpContext} (hn : n < c.span) (hseed : c.place n = search.seed c)
    (cache : PingCache) :
    search.inContext c cache = ((c.walk n).find? (search.accepts cache), cache) := by
  have hscan := scan_eq_find? hping c hn c.span 0 (Nat.zero_add _) cache
  rw [Nat.add_zero, Nat.mod_eq_of_lt hn, ← range_eq_range', hseed] at hscan
  exact hscan

/-- **The search returns the first address it takes** of the walks from the seeds. -/
theorem inContexts_eq_find? {start : DhcpContext → ℕ}
    (hstart : ∀ c ∈ cs, start c < c.span ∧ c.place (start c) = search.seed c) (cache : PingCache) :
    (search.inContexts cs cache).1
      = (cs.flatMap fun c => c.walk (start c)).find? (search.accepts cache) := by
  induction cs with
  | nil => rfl
  | cons c cs ih =>
    obtain ⟨⟨hlt, hseed⟩, hrest⟩ := forall_mem_cons.mp hstart
    unfold inContexts
    rw [inContext_eq_find? hping hlt hseed, flatMap_cons, find?_append]
    cases (c.walk (start c)).find? (search.accepts cache) with
    | none => exact ih hrest
    | some a => rfl

/-- Without `--dhcp-sequential-ip` it is the first free address. -/
theorem addressAllocate_eq_find? (hconsec : search.consecAddr = false) :
    (addressAllocate search netids cache).1 = (search.addresses netids).find? search.isFree := by
  rw [← accepts_eq_isFree hping hconsec cache]
  refine inContexts_eq_find? hping (fun c _ => ⟨c.startPlace_lt search.hash, ?_⟩) cache
  rw [seed, hconsec, if_neg Bool.false_ne_true, c.hashToAddr_eq]

omit hping

/-- The address is one of a range the client may get addresses from. -/
def Serves (search : Search) (netids : List DhcpNetid) (a : Ipv4Addr) : Prop :=
  ∃ c ∈ search.contexts, c.isDynamic ∧ contextFilterMatches c.filter netids true ∧ c.spans a

theorem mem_candidates_of_false {c : DhcpContext}
    (h : c ∈ search.candidates netids false) : c ∈ search.candidates netids true := by
  unfold candidates at h ⊢
  rw [mem_filter, Bool.and_eq_true] at h ⊢
  obtain ⟨hc, hdyn, hfilter⟩ := h
  refine ⟨hc, hdyn, ?_⟩
  unfold contextFilterMatches at hfilter ⊢
  split
  · rfl
  · next hne =>
    rw [if_neg hne] at hfilter
    exact hfilter

/-- **The search looks at every address of the ranges** the client may get addresses from, and at no
other. -/
theorem mem_addresses : a ∈ search.addresses netids ↔ search.Serves netids a := by
  unfold addresses Serves
  rw [mem_flatMap]
  refine exists_congr fun c => ?_
  rw [mem_append, or_iff_right_of_imp mem_candidates_of_false, c.mem_walk (c.startPlace_lt _),
    candidates, mem_filter, Bool.and_eq_true, and_assoc, and_assoc]

/-- **The search is sound and complete** without pings.  The walk around a range is back at its seed
after `span` steps.  An address it returns is a free one of a range the client may get addresses
from, and of a range without a filter only if it takes none of those with one.  It returns none only
if none is free. -/
theorem addressAllocate_sound_complete (hping : search.noPing = true)
    (hle : ∀ c ∈ search.contexts, toU32 c.start ≤ toU32 c.finish) (netids : List DhcpNetid)
    (cache : PingCache) :
    (∀ c ∈ search.contexts, (nextAddrWrapping · c.start c.finish)^[c.span] (search.seed c)
      = search.seed c)
      ∧ (∀ a, (addressAllocate search netids cache).1 = some a → search.isFree a = true
        ∧ ∃ c ∈ search.candidates netids true, c.covers a = true ∧ (c.filter = [] →
          ∀ c' ∈ search.candidates netids false, ∀ b, c'.covers b = true →
            search.accepts cache b = false))
      ∧ (search.consecAddr = false → (addressAllocate search netids cache).1 = none →
        ∀ c ∈ search.candidates netids true, ∀ a, c.covers a = true → search.isFree a = false) := by
  have hseed (c : DhcpContext) (hc : c ∈ search.contexts) := spans_seed (s := search) (hle c hc)
  choose! start hstart using hseed
  let walks (pass : Bool) := (search.candidates netids pass).flatMap fun c => c.walk (start c)
  have hcontext {pass : Bool} {c : DhcpContext} (hc : c ∈ search.candidates netids pass) :=
    (mem_filter.mp hc).1
  have hmem (pass : Bool) (a : Ipv4Addr) : a ∈ walks pass
    ↔ ∃ c ∈ search.candidates netids pass, c.covers a := by
    refine mem_flatMap.trans (exists_congr fun c => and_congr_right fun hc => ?_)
    rw [c.mem_walk (hstart c (hcontext hc)).1, c.spans_iff_covers (hle c (hcontext hc))]
  have hfind : (addressAllocate search netids cache).1 =
      ((walks false).find? (search.accepts cache)).or
        ((walks true).find? (search.accepts cache)) := by
    rw [← find?_append, ← flatMap_append]
    exact inContexts_eq_find? hping (fun c hc =>
      hstart c ((mem_append.mp hc).elim hcontext hcontext)) cache
  refine ⟨fun c hc => ?_, fun a ha => ?_, fun hconsec hnone c hc a ha => ?_⟩
  · obtain ⟨hlt, hplace⟩ := hstart c hc
    rw [← hplace, c.iterate_nextAddrWrapping hlt, Nat.add_mod_right, Nat.mod_eq_of_lt hlt]
  · rw [ha, eq_comm, Option.or_eq_some_iff] at hfind
    have hfound {pass : Bool} (h : (walks pass).find? (search.accepts cache) = some a) :
        search.isFree a
        ∧ ∃ c ∈ search.candidates netids pass, c.covers a := by
      have haccepts : search.accepts cache a := find?_some h
      exact ⟨(Bool.and_eq_true_iff.mp haccepts).1, (hmem pass a).mp (mem_of_find?_eq_some h)⟩
    obtain hfirst | ⟨hnone, hsecond⟩ := hfind
    · obtain ⟨hfree, c, hc, hcovers⟩ := hfound hfirst
      refine ⟨hfree, c, mem_candidates_of_false hc, hcovers, fun hnil => ?_⟩
      -- the first pass has no ranges without a filter
      have hfilter := (Bool.and_eq_true_iff.mp (mem_filter.mp hc).2).2
      rw [hnil] at hfilter
      cases hfilter
    · obtain ⟨hfree, c, hc, hcovers⟩ := hfound hsecond
      refine ⟨hfree, c, hc, hcovers, fun _ c' hc' b hb => ?_⟩
      exact Bool.eq_false_iff.mpr (find?_eq_none.mp hnone b ((hmem _ b).mpr ⟨c', hc', hb⟩))
  · rw [hnone, eq_comm, Option.or_eq_none_iff, accepts_eq_isFree hping hconsec] at hfind
    exact Bool.eq_false_iff.mpr (find?_eq_none.mp hfind.2 a ((hmem _ a).mpr ⟨c, hc, ha⟩))

theorem addressAllocate_lastAddresses :
    let c := syntheticPoolContext ⟨#v[255, 255, 255, 254]⟩ ⟨#v[255, 255, 255, 255]⟩
    let search : Search := ⟨[c], {}, [], 1, 0, false, true, fun _ => true⟩
    search.isFree ⟨#v[255, 255, 255, 255]⟩ = true :=
  ((addressAllocate_sound_complete rfl (by decide +kernel) [] []).2.1 _ (by decide +kernel)).1

end Search

end DnsmasqRs.Dhcp
