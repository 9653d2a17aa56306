import DnsmasqRs.HashQuestions
import DnsmasqRs.Rfc1035.Equiv.RoundTrip

/-!
# What the question digest identifies

The digest is a function of the stream fed to the hashers.  Taken as an injective one, it fixes the
type, the class and the part of the name that is hashed, up to ASCII case: that part is the name up
to its first compression pointer.  The rest of the name, `unhashedName`, is not looked at.

So two one-question packets of equal digest have the same question exactly if their unhashed names
agree (`sameQuestion_iff_of_hashQuestions_eq`), and always if neither name is compressed.  A reply
that spells out the labels of a question and continues with a pointer has the digest of the
question it does not ask (`hashQuestions_compressedReply`).
-/

namespace DnsmasqRs.HashQuestions

open Wire Utf8 ByteCursor Rfc1035 DnsProtocol List Option

/-! ### Dotted labels -/

/-- Labels with a dot behind each of them, in lower case: what a name feeds to the hashers. -/
def lowerDotted (ls : List Str) : Bytes := ls.flatMap fun l => (bytes l).map lowerByte ++ [0x2E]

@[simp] theorem lowerDotted_nil : lowerDotted [] = [] := rfl

@[simp] theorem lowerDotted_cons :
    lowerDotted (l :: ls) = (bytes l).map lowerByte ++ [0x2E] ++ lowerDotted ls := rfl

theorem lowerDotted_append :
    lowerDotted (ls ++ ls') = lowerDotted ls ++ lowerDotted ls' := flatMap_append

theorem lowerDotted_eq (h : ls ≠ []) :
    lowerDotted ls = bytes (asciiLower (joinLabels ls)) ++ [0x2E] := by
  induction ls with
  | nil => exact absurd rfl h
  | cons l ls ih =>
    rcases eq_or_ne ls [] with rfl | hne
    · simp [bytes_asciiLower]
    · have hdot : bytes ['.'] = [0x2E] := rfl
      rw [lowerDotted_cons, ih hne, joinLabels_cons hne, ← bytes_asciiLower]
      simp [← hdot]

/-- Two lists of non-empty labels make names equal up to ASCII case iff they feed the same. -/
theorem asciiLower_joinLabels_eq_iff (hls : ∀ l ∈ ls, l ≠ []) (hls' : ∀ l ∈ ls', l ≠ []) :
    asciiLower (joinLabels ls) = asciiLower (joinLabels ls')
      ↔ lowerDotted ls = lowerDotted ls' := by
  -- joined non-empty labels are not the empty name, and neither is what they feed
  have hne : ∀ {ks : List Str}, ks ≠ [] → (∀ l ∈ ks, l ≠ []) →
      asciiLower (joinLabels ks) ≠ [] ∧ lowerDotted ks ≠ [] := by
    intro ks hks hall
    cases ks with
    | nil => exact absurd rfl hks
    | cons k ks =>
      have hk := hall k (by simp)
      rcases eq_or_ne ks [] with rfl | hks'
      · simpa [asciiLower] using hk
      · simp [joinLabels_cons hks', asciiLower]
  rcases eq_or_ne ls [] with rfl | h
  · rcases eq_or_ne ls' [] with rfl | h'
    · simp
    · exact iff_of_false (fun he => (hne h' hls').1 he.symm) (fun he => (hne h' hls').2 he.symm)
  · rcases eq_or_ne ls' [] with rfl | h'
    · exact iff_of_false (hne h hls).1 (hne h hls).2
    · rw [lowerDotted_eq h, lowerDotted_eq h', append_left_inj]
      constructor
      · intro he
        rw [he]
      · intro he
        exact bytes_injective he

/-! ### The two label walks -/

variable {pkt : Bytes} {pos : ℕ}

theorem label_ne_nil {b : UInt8} {labelBytes : Bytes} {l : Str} (hb0 : b ≠ 0)
    (hslice : readSlice pkt pos b.toNat = some labelBytes) (hutf : fromUtf8 labelBytes = some l) :
    l ≠ [] := by
  rintro rfl
  have hlen := (readSlice_eq_some hslice).2.2
  rw [fromUtf8_eq_some_iff.mp hutf] at hlen
  exact hb0 (UInt8.toNat_inj.mp hlen.symm)

/-- What the decoder's loop reads from a position does not depend on how it got there: the same
labels come out for any labels, offset and counts brought along, as long as the counts are no
higher. -/
theorem extractNameLoop_frame (h : extractNameLoop pkt pos labels e hops w = .ok r) :
    ∃ ls fin, (∀ l ∈ ls, l ≠ []) ∧ ∀ labels' e' hops' w', hops' ≤ hops → w' ≤ w →
      extractNameLoop pkt pos labels' e' hops' w'
        = .ok (joinLabels (labels' ++ ls), e'.getD fin) := by
  fun_induction extractNameLoop pkt pos labels e hops w with
  | case2 pos labels e hops w hb =>
    refine ⟨[], pos + 1, by simp, ?_⟩
    intro labels' e' hops' w' _ _
    rw [append_nil]
    exact extractNameLoop_of_root hb
  | case6 pos labels e hops w b hb hb0 hptr lo hlo hhops hbound ih =>
    obtain ⟨ls, fin, hne, hframe⟩ := ih h
    refine ⟨ls, pos + 2, hne, ?_⟩
    intro labels' e' hops' w' hle hlew
    rw [extractNameLoop_of_pointer hb hptr hlo (by omega) (by omega),
      hframe _ _ _ _ (by omega) hlew]
    rfl
  | case10 pos labels e hops w b hb hb0 hptr htype labelBytes hslice hw label hutf ih =>
    obtain ⟨ls, fin, hne, hframe⟩ := ih h
    refine ⟨label :: ls, fin, ?_, ?_⟩
    · intro l hl
      rcases mem_cons.mp hl with rfl | hl
      · exact label_ne_nil hb0 hslice hutf
      · exact hne l hl
    · intro labels' e' hops' w' hle hlew
      rw [extractNameLoop_of_label hb hb0 htype hslice hutf labels' e' hops' (by omega),
        hframe _ _ _ _ hle (by omega), append_assoc]
      rfl
  | case1 | case3 | case4 | case5 | case7 | case8 | case9 | case11 => cases h

/-- The offset of the first compression pointer the labels at `pos` lead to. -/
def firstPointer (pkt : Bytes) (pos : ℕ) : Option ℕ :=
  match pkt[pos]? with
  | none => none
  | some len =>
    if len &&& 0xC0 = 0xC0 then some pos
    else if len = 0 then none
    else if pkt.length < pos + 1 + len.toNat then none
    else firstPointer pkt (pos + 1 + len.toNat)
  termination_by pkt.length - pos

/-- The part of the name at `pos` that is not hashed: what its first compression pointer leads to,
or nothing where there is none. -/
def unhashedName (pkt : Bytes) (pos : ℕ) : Str :=
  match firstPointer pkt pos with
  | none => []
  | some p =>
    match extractName pkt p with
    | .ok (name, _) => name
    | .error _ => []

theorem hashName_of_label (hb : readU8 pkt pos = some b) (hb0 : b ≠ 0) (hptr : ¬ b &&& 0xC0 = 0xC0)
    (hslice : readSlice pkt (pos + 1) b.toNat = some labelBytes) (fed : Bytes) :
    hashName pkt pos fed
        = hashName pkt (pos + 1 + b.toNat) (fed ++ labelBytes.map lowerByte ++ [0x2E])
      ∧ firstPointer pkt pos = firstPointer pkt (pos + 1 + b.toNat) := by
  have hb' : pkt[pos]? = some b := hb
  obtain ⟨hle, rfl, -⟩ := readSlice_eq_some hslice
  rw [hashName, firstPointer]
  simp only [hb', hptr, hb0, ↓reduceIte]
  rw [if_neg (by omega), if_neg (by omega)]
  exact ⟨rfl, rfl⟩

/-- **The two walks**: where the decoder reads a name, the hasher is fed the labels up to the first
pointer, and both end at the same offset. -/
theorem hashName_of_extractNameLoop
    (h : extractNameLoop pkt pos labels e hops w = .ok (name, endPos)) (he : e = none)
    (hw : 1 ≤ w) :
    ∃ hashed unhashed, name = joinLabels (labels ++ (hashed ++ unhashed))
      ∧ unhashedName pkt pos = joinLabels unhashed ∧ (∀ l ∈ hashed ++ unhashed, l ≠ [])
      ∧ ∀ fed, hashName pkt pos fed = some (fed ++ lowerDotted hashed, endPos) := by
  fun_induction extractNameLoop pkt pos labels e hops w with
  | case2 pos labels e hops w hb =>
    subst he
    obtain ⟨rfl, rfl⟩ := Prod.mk.inj (Except.ok.inj h)
    have hb' : pkt[pos]? = some 0 := hb
    refine ⟨[], [], by simp, ?_, by simp, ?_⟩
    · rw [unhashedName, firstPointer]
      simp [hb']
    · intro fed
      rw [hashName]
      simp [hb']
  | case6 pos labels e hops w b hb hb0 hptr lo hlo hhops hbound ih =>
    -- the pointer itself starts the unhashed part
    subst he
    obtain ⟨ls, fin, hne, hframe⟩ := extractNameLoop_frame h
    rw [hframe _ _ _ _ le_rfl le_rfl] at h
    obtain ⟨rfl, rfl⟩ := Prod.mk.inj (Except.ok.inj h)
    have hb' : pkt[pos]? = some b := hb
    have hlt : pos + 1 < pkt.length := (List.getElem?_eq_some_iff.mp hlo).1
    refine ⟨[], ls, rfl, ?_, hne, ?_⟩
    · have hname : extractName pkt pos = .ok (joinLabels ls, pos + 2) := by
        rw [extractName, extractNameLoop_of_pointer hb hptr hlo (by omega) (by omega),
          hframe _ _ _ _ (by omega) hw]
        rfl
      rw [unhashedName, firstPointer]
      simp [hb', hptr, hname]
    · intro fed
      rw [hashName]
      simp [hb', hptr, hlt]
  | case10 pos labels e hops w b hb hb0 hptr htype labelBytes hslice hw' label hutf ih =>
    obtain ⟨hashed, unhashed, hname, hun, hne, hfed⟩ := ih h he (by omega)
    refine ⟨label :: hashed, unhashed, ?_, ?_, ?_, ?_⟩
    · rw [hname, append_assoc]
      rfl
    · rw [← hun, unhashedName, (hashName_of_label hb hb0 hptr hslice []).2, unhashedName]
    · intro l hl
      rcases mem_cons.mp hl with rfl | hl
      · exact label_ne_nil hb0 hslice hutf
      · exact hne l hl
    · intro fed
      rw [(hashName_of_label hb hb0 hptr hslice fed).1, hfed, fromUtf8_eq_some_iff.mp hutf]
      simp
  | case1 | case3 | case4 | case5 | case7 | case8 | case9 | case11 => cases h

/-! ### What is not hashed -/

theorem hashName_congr (hlen : pkt.length = pkt'.length) (hn : n ≤ pos)
    (hdrop : pkt.drop n = pkt'.drop n) : hashName pkt pos fed = hashName pkt' pos fed := by
  have hget : ∀ i, n ≤ i → pkt[i]? = pkt'[i]? := by
    intro i hi
    have h := congrArg (·[i - n]?) hdrop
    simpa [hi] using h
  have hslice : ∀ i, n ≤ i → pkt.drop i = pkt'.drop i := by
    intro i hi
    have h := congrArg (List.drop (i - n)) hdrop
    simpa [hi] using h
  fun_induction hashName pkt pos fed with
  | case1 pos fed hb =>
    rw [hashName, ← hget pos hn, hb]
  | case2 pos fed b hb hptr hle | case3 pos fed b hb hptr hle =>
    rw [hashName, ← hget pos hn, hb]
    simp only [hptr, ↓reduceIte, ← hlen, hle]
  | case4 pos fed hb hptr =>
    rw [hashName, ← hget pos hn, hb]
    simp
  | case5 pos fed b hb hptr hb0 hlt =>
    rw [hashName, ← hget pos hn, hb]
    simp only [hptr, ↓reduceIte, hb0, ← hlen, hlt]
  | case6 pos fed b hb hptr hb0 hlt ih =>
    rw [ih (by omega)]
    conv_rhs => rw [hashName, ← hget pos hn, hb]
    simp only [hptr, ↓reduceIte, hb0, ← hlen, hlt, hslice (pos + 1) (by omega)]

theorem le_of_hashName (h : hashName pkt pos fed = some (fed', pos')) : pos ≤ pos' := by
  fun_induction hashName pkt pos fed with
  | case1 | case2 | case5 => cases h
  | case3 | case4 =>
    simp only [some.injEq, Prod.mk.injEq] at h
    omega
  | case6 pos fed b hb hptr hb0 hlt ih =>
    have := ih h
    omega

theorem hashQuestionsLoop_congr (hlen : pkt.length = pkt'.length)
    (hdrop : pkt.drop n = pkt'.drop n) (count : ℕ) {pos : ℕ} (hn : n ≤ pos) (fed : Bytes) :
    hashQuestionsLoop pkt count pos fed = hashQuestionsLoop pkt' count pos fed := by
  induction count generalizing pos fed with
  | zero => rfl
  | succ count ih =>
    unfold hashQuestionsLoop
    rw [← hashName_congr hlen hn hdrop]
    cases hname : hashName pkt pos fed with
    | none => rfl
    | some r =>
      obtain ⟨fed', pos'⟩ := r
      have hpos : n ≤ pos' := hn.trans (le_of_hashName hname)
      simp only [bind_eq_bind, bind_some, readU16Be_congr hlen hdrop hpos,
        readU16Be_congr hlen hdrop (hpos.trans (Nat.le_add_right pos' 2)),
        ih (hpos.trans (Nat.le_add_right pos' 4))]

theorem hashQuestions_congr (hlen : pkt.length = pkt'.length)
    (hdrop : pkt.drop 4 = pkt'.drop 4) (finish : Bytes → H) :
    hashQuestions finish pkt = hashQuestions finish pkt' := by
  unfold hashQuestions questionStream
  simp only [hlen, readU16Be_congr hlen hdrop le_rfl,
    hashQuestionsLoop_congr hlen hdrop _ (show 4 ≤ 12 by decide)]

/-- Every question can be answered: there is a reply of any id with the same digest. -/
theorem exists_reply (h : hashQuestions finish pkt = some d) (id : UInt16) :
    ∃ reply header, DnsHeader.fromBytes reply = some header ∧ header.hb3 &&& hb3Qr ≠ 0
      ∧ header.id = id ∧ hashQuestions finish reply = some d := by
  have hlen : 12 ≤ pkt.length := by
    by_contra hlt
    simp [hashQuestions, questionStream, Nat.lt_of_not_le hlt] at h
  obtain ⟨header, rest, rfl⟩ := DnsHeader.exists_toBytes_append hlen
  -- only the id and the answer bit change
  let header' : DnsHeader := { header with id := id, hb3 := hb3Qr }
  refine ⟨header'.toBytes ++ rest, header', DnsHeader.fromBytes_toBytes_append, ?_, rfl, ?_⟩
  · show hb3Qr &&& hb3Qr ≠ 0
    decide
  · rw [← h]
    apply hashQuestions_congr
    · rfl
    · rfl

/-! ### Questions of equal digest -/

/-- The same question: type, class and the name up to ASCII case. -/
def SameQuestion (q r : DnsQuestion) : Prop :=
  q.qtype = r.qtype ∧ q.qclass = r.qclass ∧ asciiLower q.name = asciiLower r.name

instance (q r : DnsQuestion) : Decidable (SameQuestion q r) :=
  inferInstanceAs (Decidable (_ ∧ _))

theorem questionStream_of_parse (hparse : DnsPacket.parse pkt = .ok p) (hq : p.questions = [q]) :
    ∃ hashed unhashed, q.name = joinLabels (hashed ++ unhashed)
      ∧ unhashedName pkt 12 = joinLabels unhashed ∧ (∀ l ∈ hashed ++ unhashed, l ≠ [])
      ∧ questionStream pkt = some (lowerDotted hashed ++ le16 q.qtype ++ le16 q.qclass) := by
  obtain ⟨hheader, e₁, -, -, -, hqs, -⟩ := DnsPacket.parse_eq_ok.mp hparse
  have hcount : p.header.qdcount.toNat = 1 := by
    rw [← (parseMany_forall (P := fun _ => True) (fun _ _ _ _ => trivial) hqs).1, hq]
    rfl
  rw [hcount, hq] at hqs
  obtain ⟨x, e, xs, hone, -, hcons⟩ := parseMany_succ_eq_ok.mp hqs
  obtain ⟨rfl, rfl⟩ := List.cons.inj hcons
  obtain ⟨p', hname, htype, hclass, -⟩ := parseQuestion_eq_ok.mp hone
  obtain ⟨hashed, unhashed, hjoin, hun, hne, hfed⟩ := hashName_of_extractNameLoop hname rfl le_rfl
  refine ⟨hashed, unhashed, hjoin, hun, hne, ?_⟩
  have hlen := DnsHeader.le_length_of_fromBytes hheader
  have hqd : readU16Be pkt 4 = some p.header.qdcount := DnsHeader.readU16Be_qdcount hheader
  have hqd0 : p.header.qdcount ≠ 0 := by
    intro h0
    rw [h0] at hcount
    exact absurd hcount (by decide)
  rw [questionStream, if_neg (by omega), hqd]
  show (if p.header.qdcount = 0 then none else _) = _
  rw [if_neg hqd0, hcount]
  show (hashName pkt 12 []).bind _ = _
  rw [hfed]
  simp [htype, hclass, hashQuestionsLoop]

theorem stream_inj (h : a ++ le16 t ++ le16 c = b ++ le16 u ++ le16 d) : a = b ∧ t = u ∧ c = d := by
  obtain ⟨h, hc⟩ := append_inj' h rfl
  obtain ⟨h, ht⟩ := append_inj' h rfl
  exact ⟨h, le16_injective ht, le16_injective hc⟩

/-- **What the digest identifies, exactly**: of two packets with one question each and the same
digest, the questions are the same iff the parts of their names that are not hashed are equal up to
ASCII case. -/
theorem sameQuestion_iff_of_hashQuestions_eq {H : Type} {finish : Bytes → H}
    (hinj : Function.Injective (digest finish)) {pkt pkt' : Bytes} {p p' : DnsPacket}
    {q q' : DnsQuestion} (hp : DnsPacket.parse pkt = .ok p) (hp' : DnsPacket.parse pkt' = .ok p')
    (hq : p.questions = [q]) (hq' : p'.questions = [q'])
    (heq : hashQuestions finish pkt = hashQuestions finish pkt') :
    SameQuestion q q' ↔ asciiLower (unhashedName pkt 12) = asciiLower (unhashedName pkt' 12) := by
  obtain ⟨hashed, unhashed, hname, hun, hne, hs⟩ := questionStream_of_parse hp hq
  obtain ⟨hashed', unhashed', hname', hun', hne', hs'⟩ := questionStream_of_parse hp' hq'
  rw [hashQuestions, hashQuestions, hs, hs', map_some, map_some, some.injEq] at heq
  obtain ⟨hsame, htype, hclass⟩ := stream_inj (hinj heq)
  have hright : ∀ {a b : List Str}, (∀ l ∈ a ++ b, l ≠ []) → ∀ l ∈ b, l ≠ [] :=
    fun h l hl => h l (mem_append_right _ hl)
  rw [SameQuestion, hname, hname', hun, hun', asciiLower_joinLabels_eq_iff hne hne',
    asciiLower_joinLabels_eq_iff (hright hne) (hright hne'), lowerDotted_append,
    lowerDotted_append, hsame, append_right_inj]
  constructor
  · rintro ⟨-, -, h⟩
    exact h
  · intro h
    exact ⟨htype, hclass, h⟩

/-- A query for `a`, type A, class IN. -/
def plainQuery : Bytes := [0, 7, 1, 0, 0, 1, 0, 0, 0, 0, 0, 0, 1, 97, 0, 0, 1, 0, 1]

/-- A reply to a query for `a.b`: the label `a`, a pointer to offset 20 and there the label `b`. -/
def compressedReply : Bytes :=
  [0, 7, 129, 0, 0, 1, 0, 0, 0, 0, 0, 0, 1, 97, 0xC0, 20, 0, 1, 0, 1, 1, 98, 0]

/-- A packet with one question and nothing else. -/
def oneQuestion (hb3 : UInt8) (q : DnsQuestion) : DnsPacket where
  header := { id := 7, hb3 := hb3, hb4 := 0, qdcount := 1, ancount := 0, nscount := 0,
              arcount := 0 }
  questions := [q]
  answers := []
  authority := []
  additional := []

theorem digest_id_injective : Function.Injective (digest id) := by
  intro s t h
  exact append_cancel_left (Prod.mk.inj h).1

/-- `plainQuery` asks for `a`, `compressedReply` answers for `a.b`, and their digests are equal. -/
theorem hashQuestions_compressedReply : Function.Injective (digest id)
      ∧ DnsPacket.parse plainQuery = .ok (oneQuestion 1 ⟨['a'], 1, 1⟩)
      ∧ DnsPacket.parse compressedReply = .ok (oneQuestion 129 ⟨['a', '.', 'b'], 1, 1⟩)
      ∧ hashQuestions id plainQuery = hashQuestions id compressedReply
      ∧ (hashQuestions id plainQuery).isSome
      ∧ ¬ SameQuestion ⟨['a'], 1, 1⟩ ⟨['a', '.', 'b'], 1, 1⟩ :=
  ⟨digest_id_injective, by decide +kernel, by decide +kernel, by decide +kernel, by decide +kernel,
    by decide⟩

/-- `A` and `a`, both spelled out, have one digest and are the same question. -/
theorem sameQuestion_upperQuery : hashQuestions id plainQuery
        = hashQuestions id [0, 7, 1, 0, 0, 1, 0, 0, 0, 0, 0, 0, 1, 65, 0, 0, 1, 0, 1]
      ∧ SameQuestion ⟨['a'], 1, 1⟩ ⟨['A'], 1, 1⟩ := by
  have hp : DnsPacket.parse plainQuery = .ok (oneQuestion 1 ⟨['a'], 1, 1⟩) := by decide +kernel
  have hp' : DnsPacket.parse [0, 7, 1, 0, 0, 1, 0, 0, 0, 0, 0, 0, 1, 65, 0, 0, 1, 0, 1]
      = .ok (oneQuestion 1 ⟨['A'], 1, 1⟩) := by decide +kernel
  have heq : hashQuestions id plainQuery
      = hashQuestions id [0, 7, 1, 0, 0, 1, 0, 0, 0, 0, 0, 0, 1, 65, 0, 0, 1, 0, 1] := by
    decide +kernel
  exact ⟨heq, (sameQuestion_iff_of_hashQuestions_eq digest_id_injective hp hp' rfl rfl heq).mpr
    (by decide +kernel)⟩

end DnsmasqRs.HashQuestions
