import DnsmasqRs.Lib.Fallible
import DnsmasqRs.Rfc1035.Extract

/-!
# Where cache population slices strings

`extract_addresses` indexes the RDATA only where it is long enough (`AnswerData` says what it takes
from a record), so that the walk over the answers never fails (`followChain_isOk`).  What is left
are two string slices by byte lengths: the suffix of the question name that is as long as the domain
of an `--ipset` or `--nftset` entry, and the suffix of the name at the end of the chain that is as
long as the owner of a SOA.  `Sliceable` says that these fall on character boundaries, and that is
exactly when the function does not panic (`extractAddresses_isOk_iff`).
-/

namespace DnsmasqRs.Rfc1035

open Wire Utf8 ByteCursor DnsProtocol Cache Fallible List

/-! ### The RDATA -/

theorem parseTxtRecord_isOk : (parseTxtRecord data pos).isOk := by
  fun_induction parseTxtRecord data pos with
  | case1 pos hlt hnone =>
    rw [readU8, getElem?_eq_none_iff] at hnone
    omega
  | case2 | case5 => rfl
  | case3 pos hlt len hlen hlong hnone =>
    rw [readSlice, if_pos (by omega)] at hnone
    cases hnone
  | case4 pos hlt len hlen hlong counted hcounted s ih =>
    cases h : parseTxtRecord data (pos + 1 + len.toNat) with
    | error fault => rw [h] at ih; cases ih
    | ok r => rfl

theorem ofBytes4_eq_some_iff : (∃ ip, Ipv4Addr.ofBytes b = some ip) ↔ 4 ≤ b.length := by
  simp [Ipv4Addr.ofBytes]

theorem ofBytes16_eq_some_iff : (∃ ip, Ipv6Addr.ofBytes b = some ip) ↔ 16 ≤ b.length := by
  simp [Ipv6Addr.ofBytes]

/-- What an answer gives: an address, if it is long enough and not private where that is checked, or
the RDATA as it is. -/
inductive AnswerData (env : Env) (rr : DnsRr) : Except ExtractResult AllAddr → Prop where
  | short (hlen : env.qtype = 1 ∧ rr.rdata.length < 4 ∨ env.qtype = 28 ∧ rr.rdata.length < 16) :
      AnswerData env rr (.error .badPacket)
  | private4 {ip : Ipv4Addr} (hqtype : env.qtype = 1) (hip : Ipv4Addr.ofBytes rr.rdata = some ip)
      (hprivate : (env.config.checkRebind && privateNet ip (!env.config.localRebindOk))) :
      AnswerData env rr (.error .rebindBlocked)
  | addr4 {ip : Ipv4Addr} (hqtype : env.qtype = 1) (hip : Ipv4Addr.ofBytes rr.rdata = some ip)
      (hpublic : (env.config.checkRebind && privateNet ip (!env.config.localRebindOk)) = false) :
      AnswerData env rr (.ok (.addr4 ip))
  | private6 {ip : Ipv6Addr} (hqtype : env.qtype = 28) (hip : Ipv6Addr.ofBytes rr.rdata = some ip)
      (hprivate : (env.config.checkRebind && privateNet6 ip (!env.config.localRebindOk))) :
      AnswerData env rr (.error .rebindBlocked)
  | addr6 {ip : Ipv6Addr} (hqtype : env.qtype = 28) (hip : Ipv6Addr.ofBytes rr.rdata = some ip)
      (hpublic : (env.config.checkRebind && privateNet6 ip (!env.config.localRebindOk)) = false) :
      AnswerData env rr (.ok (.addr6 ip))
  | other (h4 : env.qtype ≠ 1) (h6 : env.qtype ≠ 28) :
      AnswerData env rr (.ok (.rrData rr.rtype rr.rdata))

theorem answerData_spec : ∃ r, answerData env rr = .ok r ∧ AnswerData env rr r := by
  unfold answerData
  split_ifs with h4 hshort h6 hshort htxt
  · exact ⟨_, rfl, .short (.inl ⟨h4, hshort⟩)⟩
  · obtain ⟨ip, hip⟩ := ofBytes4_eq_some_iff.mpr (not_lt.mp hshort)
    rw [hip]
    dsimp only
    split_ifs with hprivate
    · exact ⟨_, rfl, .private4 h4 hip hprivate⟩
    · exact ⟨_, rfl, .addr4 h4 hip (Bool.not_eq_true _ ▸ hprivate)⟩
  · exact ⟨_, rfl, .short (.inr ⟨h6, hshort⟩)⟩
  · obtain ⟨ip, hip⟩ := ofBytes16_eq_some_iff.mpr (not_lt.mp hshort)
    rw [hip]
    dsimp only
    split_ifs with hprivate
    · exact ⟨_, rfl, .private6 h6 hip hprivate⟩
    · exact ⟨_, rfl, .addr6 h6 hip (Bool.not_eq_true _ ▸ hprivate)⟩
  · obtain ⟨strings, hstrings⟩ := isOk_iff.mp (parseTxtRecord_isOk)
    rw [hstrings]
    exact ⟨_, rfl, .other h4 h6⟩
  · exact ⟨_, rfl, .other h4 h6⟩

theorem AnswerData.of_eq (h : answerData env rr = .ok r) : AnswerData env rr r := by
  obtain ⟨r', hr', hdata⟩ := answerData_spec
  obtain rfl := Except.ok.inj (h.symm.trans hr')
  exact hdata

theorem answerData_isOk (env : Env) (rr : DnsRr) : (answerData env rr).isOk := by
  obtain ⟨r, hr, -⟩ := answerData_spec
  rw [hr]
  rfl

theorem scanAnswers_isOk (env : Env) (answers : List DnsRr) (w : Walk) :
    (scanAnswers env answers w).isOk := by
  fun_induction scanAnswers env answers w with
  | case1 | case3 | case4 | case5 | case6 | case9 => rfl
  | case2 rr rest w hskip ih | case7 rr rest w hskip hcname hother ih => exact ih
  | case10 rr rest w hskip ttl hcname hother addr hdata ih => exact ih
  | case8 rr rest w hskip hcname hother fault hdata =>
    have hok := answerData_isOk env rr
    rw [hdata] at hok
    cases hok

theorem followChain_isOk (env : Env) (answers : List DnsRr) (w : Walk) :
    (followChain env answers w).isOk := by
  fun_induction followChain env answers w with
  | case1 w fault hscan =>
    have hok := scanAnswers_isOk env answers w
    rw [hscan] at hok
    cases hok
  | case2 | case3 => rfl
  | case4 w w' hscan ih => exact ih

theorem readSoa_isOk : (readSoa rr owner).isOk := by
  unfold readSoa
  split
  · rfl
  · split
    · rfl
    · next rname pos _ =>
      split_ifs with hshort
      · rfl
      · rw [readSlice, if_pos (by omega)]
        obtain ⟨x, hx⟩ := exists_readU32Be rr.rdata (pos + 16) (by omega)
        rw [hx]
        rfl

/-! ### The slices -/

/-- The suffixes of the name that are as long as the domains of the entries can be sliced off. -/
def SetsSliceable (name : Str) (sets : List Ipsets) : Prop :=
  ∀ entry ∈ sets, byteLen entry.domain ≤ byteLen name →
    isCharBoundary name (byteLen name - byteLen entry.domain)

theorem setsSliceable_cons : SetsSliceable name (entry :: sets) ↔
      (byteLen entry.domain ≤ byteLen name →
        isCharBoundary name (byteLen name - byteLen entry.domain)) ∧
      SetsSliceable name sets :=
  forall_mem_cons

theorem findSetsLoop_isOk_iff (name : Str) (sets : List Ipsets) (matchlen : ℕ)
    (result : Option Ipsets) :
    (findSetsLoop name sets matchlen result).isOk ↔ SetsSliceable name sets := by
  fun_induction findSetsLoop name sets matchlen result with
  | case1 => exact iff_of_true rfl (forall_mem_nil _)
  | case2 entry rest matchlen result domainlen hshort ih =>
    rw [ih, setsSliceable_cons, iff_and_self]
    exact fun _ hle => absurd hshort (Nat.not_lt.mpr hle)
  | case3 entry rest matchlen result domainlen hlong matchstart hnone =>
    refine iff_of_false Bool.false_ne_true fun h => ?_
    have hbound := h entry mem_cons_self (Nat.not_lt.mp hlong)
    rw [isCharBoundary_of_sliceFrom_eq_none hnone] at hbound
    cases hbound
  | case4 entry rest matchlen result domainlen hlong matchstart suffix hsome boundaryOk hbest ih
  | case5 entry rest matchlen result domainlen hlong matchstart suffix hsome boundaryOk hbest ih =>
    rw [ih, setsSliceable_cons, iff_and_self]
    exact fun _ _ => isCharBoundary_of_sliceFrom hsome

/-- A SOA record whose owner, lower-cased, is not longer than the name. -/
def soaCandidate (name : Str) (rr : DnsRr) : Bool :=
  rr.rtype == 6 && rr.rclass == 1 && decide (byteLen (toLowercase rr.name) ≤ byteLen name)

/-- Where the suffix of the name begins that is compared with the owner of a SOA. -/
def soaOffset (name : Str) (rr : DnsRr) : ℕ := byteLen name - byteLen (toLowercase rr.name)

/-- The owner of the SOA is a suffix of the name. -/
def soaCovers (name : Str) (rr : DnsRr) : Bool :=
  soaCandidate name rr
    && (sliceFrom name (soaOffset name rr)).any (eqIgnoreAsciiCase · (toLowercase rr.name))

/-- The suffixes that are compared with the owners of SOA records, up to the first one that covers
the name, can be sliced off. -/
def SoaSliceable (name : Str) (authority : List DnsRr) : Prop :=
  ∀ pre rr post, authority = pre ++ rr :: post → (∀ r ∈ pre, soaCovers name r = false) →
    soaCandidate name rr → isCharBoundary name (soaOffset name rr)

theorem findSoa_isOk_iff : (findSoa name authority).isOk ↔ SoaSliceable name authority := by
  induction authority with
  | nil => exact iff_of_true rfl fun pre rr post h => absurd h (by simp)
  | cons rr rest ih =>
    unfold SoaSliceable at ih ⊢
    rw [forall_split_cons, ← ih, findSoa]
    by_cases hsoa : rr.rtype ≠ 6 ∨ rr.rclass ≠ 1
    · have hcand : soaCandidate name rr = false := by
        rcases hsoa with h | h <;> simp [soaCandidate, h]
      simp [hsoa, hcand, soaCovers]
    · rw [if_neg hsoa]
      obtain ⟨htype, hclass⟩ : rr.rtype = 6 ∧ rr.rclass = 1 := by simpa using hsoa
      by_cases hlong : byteLen name < byteLen (toLowercase rr.name)
      · have hcand : soaCandidate name rr = false := by
          simp [soaCandidate, hlong]
        simp [hlong, hcand, soaCovers]
      · have hcand : soaCandidate name rr := by
          simpa [soaCandidate, htype, hclass] using hlong
        simp only [if_neg hlong]
        rw [show byteLen name - byteLen (toLowercase rr.name) = soaOffset name rr from rfl]
        cases hslice : sliceFrom name (soaOffset name rr) with
        | none =>
            simp [hcand, isCharBoundary_of_sliceFrom_eq_none hslice, Except.isOk, Except.toBool]
        | some suffix =>
          by_cases hcover : eqIgnoreAsciiCase suffix (toLowercase rr.name)
          · simp [hcover, hcand, soaCovers, hslice, isCharBoundary_of_sliceFrom hslice,
              readSoa_isOk]
          · simp [hcover, hcand, soaCovers, hslice, isCharBoundary_of_sliceFrom hslice]

/-! ### Cache population -/

/-- Both slices of a question fall on character boundaries: in its lower-cased name, and in the name
at the end of its CNAME chain if the SOA is looked for. -/
structure QuestionSliceable (env : Env) (packet : DnsPacket) (qname : Str) : Prop where
  ipsets : SetsSliceable qname env.config.ipsets
  nftsets : SetsSliceable qname env.config.nftsets
  soa : ∀ w, followChain env packet.answers { currentName := qname } = .ok (none, w) →
    env.negative w → SoaSliceable w.currentName packet.authority

/-- Every slice that `extract_addresses` takes for the reply falls on a character boundary. -/
def Sliceable (packet : DnsPacket) (now : Instant) (config : ExtractConfig) : Prop :=
  ∀ q, packet.questions = [q] → q.qclass = 1 → q.qtype ≠ 12 →
    QuestionSliceable (questionEnv packet.header q.qtype now config) packet (toLowercase q.name)

theorem finishWalk_isOk_iff (env : Env) (authority : List DnsRr) (w : Walk) :
    (finishWalk env authority w).isOk ↔
      (env.negative w → SoaSliceable w.currentName authority) := by
  unfold finishWalk
  split_ifs with hneg
  · rw [isOk_map, findSoa_isOk_iff]
    exact ⟨fun h _ => h, fun h => h hneg⟩
  · exact iff_of_true rfl fun h => absurd h hneg

theorem walkQuestion_isOk_iff (env : Env) (packet : DnsPacket) (qname : Str) :
    (walkQuestion env packet qname).isOk ↔ QuestionSliceable env packet qname := by
  obtain ⟨⟨returned, w⟩, hwalk⟩ :=
    isOk_iff.mp (followChain_isOk env packet.answers { currentName := qname })
  have hipsets := findSetsLoop_isOk_iff qname env.config.ipsets 0 none
  have hnftsets := findSetsLoop_isOk_iff qname env.config.nftsets 0 none
  have hfinish := finishWalk_isOk_iff env packet.authority w
  unfold walkQuestion domainFindSets
  rw [hwalk]
  cases hi : findSetsLoop qname env.config.ipsets 0 none with
  | error fault =>
    rw [hi] at hipsets
    exact iff_of_false Bool.false_ne_true fun h => Bool.false_ne_true (hipsets.mpr h.ipsets)
  | ok ipset =>
    rw [hi] at hipsets
    cases hn : findSetsLoop qname env.config.nftsets 0 none with
    | error fault =>
      rw [hn] at hnftsets
      exact iff_of_false Bool.false_ne_true fun h => Bool.false_ne_true (hnftsets.mpr h.nftsets)
    | ok nftset =>
      rw [hn] at hnftsets
      cases returned with
      | some result =>
        refine iff_of_true rfl ⟨hipsets.mp rfl, hnftsets.mp rfl, fun w' hw' => ?_⟩
        rw [hwalk] at hw'
        cases hw'
      | none =>
        have hsoa : QuestionSliceable env packet qname ↔
            (env.negative w → SoaSliceable w.currentName packet.authority) := by
          refine ⟨fun h => h.soa w hwalk, fun h => ⟨hipsets.mp rfl, hnftsets.mp rfl, ?_⟩⟩
          intro w' hw'
          rw [hwalk] at hw'
          cases hw'
          exact h
        rw [hsoa, ← hfinish]
        show ((finishWalk env packet.authority w).bind fun staged =>
          Except.ok (_, some staged)).isOk ↔ _
        cases finishWalk env packet.authority w with
        | error | ok => rfl

variable {M : Type} [Lru M CacheKey CacheRecord]

/-- Cache population panics exactly for the replies with a slice off a character boundary. -/
theorem extractAddresses_isOk_iff (packet : DnsPacket) (cache : DnsCache M) (now : Instant)
    (config : ExtractConfig) :
    (extractAddresses packet cache now config).isOk = true ↔ Sliceable packet now config := by
  unfold extractAddresses
  rw [isOk_map]
  unfold collectRecords Sliceable
  split
  · next q hq =>
    by_cases hclass : q.qclass = 1
    · by_cases hptr : q.qtype = 12
      · simp [hclass, hptr, hq]
        rfl
      · simp [hclass, hptr, hq, walkQuestion_isOk_iff]
    · simp [hclass, hq]
      rfl
  · next hq =>
    exact iff_of_true rfl fun q hq' => absurd hq' (hq q)

/-- A reply to an A question for `é`, a name of one character and two bytes, with no answer and the
SOA of `x`. -/
def sampleAccented : Bytes :=
  [0x12, 0x34, 0x81, 0x80, 0, 1, 0, 0, 0, 1, 0, 0] ++ [2, 0xC3, 0xA9, 0, 0, 1, 0, 1]
    ++ [1, 0x78, 0, 0, 6, 0, 1, 0, 0, 0, 60, 0, 0]

/-- An empty cache. -/
def emptyCache : DnsCache (ListLru CacheKey CacheRecord) where
  maxSize := 150
  records := ⟨150, [], by decide, nodup_nil, by decide⟩
  minCacheTtl := 0
  maxCacheTtl := 0
  inserts := 0
  evictions := 0
  hits := 0
  misses := 0
  newChain := []
  insertError := false

/-- The owner `x` makes `find_soa` slice inside the `é`. -/
theorem extractAddresses_accented : (DnsPacket.parse sampleAccented).toOption.map (fun packet =>
      (extractAddresses packet emptyCache 0 {}).map Prod.snd) = some (.error .slice) := by
  decide +kernel

end DnsmasqRs.Rfc1035
