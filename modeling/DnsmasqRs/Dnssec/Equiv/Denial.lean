import DnsmasqRs.Dnssec.Equiv.Authentic

/-!
# Denial of existence

`prove_non_existence` accepts a proof only if a record of the authority section speaks of the name:
an NSEC at the name or whose interval covers it, or an NSEC3 at the hash of the name, or of a name
above it, or whose interval covers such a hash (`exists_speaks`).  If it finds that there may be NS
records, the record shows a delegation, or opt-out.

Which zone has signed the record is not looked at.  So a zone denies its own names only if all
records that speak of the name are its own (`deniedByOwn_of_ownZones`): the last NSEC of a zone
covers every name outside it.
-/

namespace DnsmasqRs.Dnssec

open Wire Utf8 Rfc1035 List Option

variable {crypto : Crypto} {made : Bytes → Bytes → Prop} {authority : List DnsRr} {rr : DnsRr}
  {name : Str} {qtype qclass : UInt16} {nons nons' : Bool} {counter counter' : ℤ} {env : ReplyEnv}
  {hash : Str → Option Bytes}

/-! ### NSEC -/

/-- The types of a delegation without the type. -/
def Delegates (bitmap : Bytes) (qtype : UInt16) : Prop :=
  typeInBitmap bitmap tNs ∧ typeInBitmap bitmap qtype = false

/-- The NSEC is at the name or covers it. -/
def ParsedNsec.Speaks (p : ParsedNsec) (name : Str) : Prop :=
  hostnameCmp p.signedOwner name = .eq ∨ coversName p name

theorem delegates_of_matchVerdict (h : matchVerdict p qtype = (.ok (), false)) :
    Delegates p.bitmap qtype := by
  unfold matchVerdict at h
  split at h
  · cases h
  · extract_lets nons at h
    split at h
    · cases h
    · next hblocked =>
      have hns : nons = false := (Prod.mk.inj h).2
      simp only [nons, Bool.not_eq_false', Bool.and_eq_true] at hns
      rw [Bool.not_eq_true, Bool.or_eq_false_iff] at hblocked
      exact ⟨hns.2, hblocked.2⟩

/-- A proof with NSEC records rests on one that speaks of the name. -/
theorem exists_speaks_of_nsec (h : proveNonExistenceNsec name qtype rs = (.ok (), nons)) :
    ∃ p ∈ rs, p.Speaks name ∧ (nons = false →
      hostnameCmp p.signedOwner name = .eq ∧ Delegates p.bitmap qtype) := by
  induction rs with
  | nil => cases h
  | cons p rs ih =>
    unfold proveNonExistenceNsec at h
    split at h
    · cases h
    · split at h
      · next howner =>
        refine ⟨p, mem_cons_self, .inl howner, ?_⟩
        rintro rfl
        exact ⟨howner, delegates_of_matchVerdict h⟩
      · split at h
        · next hcovers =>
          refine ⟨p, mem_cons_self, .inr hcovers, ?_⟩
          rintro rfl
          cases h
        · obtain ⟨p', hp', hspeaks⟩ := ih h
          exact ⟨p', mem_cons_of_mem _ hp', hspeaks⟩

/-! ### NSEC3 -/

/-- The NSEC3 is at the hash and shows a delegation without the type, or it covers the hash and has
the opt-out bit. -/
def ShowsHash (p : ParsedNsec3) (digest : Bytes) (qtype : UInt16) : Prop :=
  (p.ownerHash = digest ∧ Delegates p.bitmap qtype) ∨ (coversHash p digest ∧ p.flags &&& 1 ≠ 0)

/-- **What `check_nsec3_coverage` finds**: nothing, or a record at the hash or that covers it.  It
clears `nons` only by one that shows why. -/
theorem checkNsec3Coverage_cases
    (h : checkNsec3Coverage digest qtype labels ps nons = (ok, nons')) :
    (ok = false ∧ nons' = nons) ∨ ∃ p ∈ ps, (p.ownerHash = digest ∨ (ok ∧ coversHash p digest))
      ∧ (ok → nons = true → nons' = false → ShowsHash p digest qtype) := by
  induction ps with
  | nil =>
    obtain ⟨rfl, rfl⟩ := Prod.mk.inj h
    exact .inl ⟨rfl, rfl⟩
  | cons p ps ih =>
    have hlater (h : checkNsec3Coverage digest qtype labels ps nons = (ok, nons')) :
        (ok = false ∧ nons' = nons)
          ∨ ∃ p' ∈ p :: ps, (p'.ownerHash = digest ∨ (ok ∧ coversHash p' digest))
            ∧ (ok → nons = true → nons' = false → ShowsHash p' digest qtype) :=
      (ih h).imp_right fun ⟨p', hp', hfound⟩ => ⟨p', mem_cons_of_mem _ hp', hfound⟩
    unfold checkNsec3Coverage at h
    split at h
    · exact hlater h
    · split at h
      · next howner =>
        obtain ⟨hok, hnons⟩ := Prod.mk.inj h
        refine .inr ⟨p, mem_cons_self, .inl howner, ?_⟩
        rintro rfl rfl rfl
        rw [Bool.not_eq_true', Bool.or_eq_false_iff] at hok
        split at hnons
        · next hns => exact .inl ⟨howner, (Bool.and_eq_true_iff.mp hns).2, hok.2⟩
        · cases hnons
      · split at h
        · next hcovers =>
          obtain ⟨rfl, hnons⟩ := Prod.mk.inj h
          refine .inr ⟨p, mem_cons_self, .inr ⟨rfl, hcovers⟩, ?_⟩
          rintro - rfl rfl
          split at hnons
          · next hflag => exact .inr ⟨hcovers, hflag⟩
          · cases hnons
        · exact hlater h

/-- The NSEC3 is at the hash of the name or covers it. -/
def ParsedNsec3Raw.Speaks (crypto : Crypto) (p : ParsedNsec3Raw) (name : Str) : Prop :=
  ∃ digest, hashName name p.salt p.iterations crypto.sha1 = some digest
    ∧ (p.ownerHash = digest ∨ coversHash p.toParsedNsec3 digest)

/-- The NSEC3 shows a delegation or opt-out for the hash of the name. -/
def ShowsName (crypto : Crypto) (p : ParsedNsec3Raw) (name : Str) (qtype : UInt16) : Prop :=
  ∃ digest, hashName name p.salt p.iterations crypto.sha1 = some digest
    ∧ ShowsHash p.toParsedNsec3 digest qtype

/-- The candidate is the name, or what stands behind one of its dots. -/
def IsTail (candidate name : Str) : Prop :=
  candidate = name ∨ ∃ front, name = front ++ '.' :: candidate

theorem IsTail.splitOnce (h : IsTail candidate name)
    (hsplit : Domain.splitOnce '.' candidate = some (label, rest)) : IsTail rest name := by
  unfold Domain.splitOnce at hsplit
  split_ifs at hsplit with hdot
  obtain ⟨rfl, rfl⟩ := Prod.mk.inj (some.inj hsplit)
  -- a label, the dot and the rest
  have hcandidate : candidate = candidate.takeWhile (· ≠ '.')
      ++ '.' :: (candidate.dropWhile (· ≠ '.')).tail := by
    have hne : candidate.dropWhile (· ≠ '.') ≠ [] := by
      rw [ne_eq, dropWhile_eq_nil_iff]
      intro hall
      exact absurd (hall '.' hdot) (by simp)
    have hhead : (candidate.dropWhile (· ≠ '.')).head hne = '.' := by
      simpa using head_dropWhile_not (p := (· ≠ '.')) hne
    conv_lhs => rw [← takeWhile_append_dropWhile (p := (· ≠ '.')) (l := candidate),
      ← cons_head_tail hne, hhead]
  rcases h with rfl | ⟨front, rfl⟩
  · exact .inr ⟨_, hcandidate⟩
  · refine .inr ⟨front ++ '.' :: candidate.takeWhile (· ≠ '.'), ?_⟩
    rw [append_assoc, cons_append, ← hcandidate]

theorem mem_dnsSuffixes_of_isTail (h : IsTail candidate (normName name)) :
    candidate ∈ dnsSuffixes name := by
  rcases h with rfl | ⟨front, happend⟩
  · exact normName_mem_dnsSuffixes
  · exact mem_dnsSuffixes_of_append happend

/-- The name below the closest encloser is a tail of the name. -/
theorem isTail_of_closestEncloser
    (h : closestEncloser hash pruned wild fuel candidate nextClosest stripped counter
      = (.ok (some n), counter')) (hcandidate : IsTail candidate name)
    (hnext : ∀ n, nextClosest = some n → IsTail n name) : IsTail n name := by
  induction fuel generalizing candidate nextClosest stripped counter with
  | zero => cases h
  | succ fuel ih =>
    unfold closestEncloser at h
    split at h
    · cases h
    · split at h
      · cases h
      · split at h
        · cases h
        · split at h
          · exact hnext n (Except.ok.inj (Prod.mk.inj h).1)
          · split at h
            · next hsplit =>
              refine ih h (hcandidate.splitOnce hsplit) ?_
              rintro n' ⟨⟩
              exact hcandidate
            · cases h

/-- What is covered below the closest encloser has a record that says so. -/
theorem checkNsec3Coverage_of_checkEncloser
    (h : checkEncloser hash pruned qtype wild n counter = (.ok (), counter')) :
    ∃ digest, hash n = some digest ∧ (checkNsec3Coverage digest qtype 1 pruned false).1 := by
  unfold checkEncloser at h
  split at h
  · cases h
  · next hcovered =>
    unfold coveredAt at hcovered
    split at hcovered
    · cases hcovered
    · split at hcovered
      · cases hcovered
      · next digest hdigest =>
        split at hcovered
        · next hcheck => exact ⟨digest, hdigest, hcheck⟩
        · cases hcovered

/-- A proof with NSEC3 records rests on one that speaks of the name, or of one above it. -/
theorem exists_speaks_of_nsec3
    (h : proveNonExistenceNsec3 crypto raw name qtype 0 counter limit = (.ok (), nons, counter')) :
    ∃ p ∈ raw, (p.Speaks crypto name ∨ ∃ n ∈ dnsSuffixes name, p.Speaks crypto n)
      ∧ (nons = false → normName name = name → ShowsName crypto p name qtype) := by
  unfold proveNonExistenceNsec3 at h
  split at h
  · cases h
  · next chosen _ =>
    split at h
    · cases h
    · extract_lets pruned hash at h
      -- the records that are left have the parameters of the hash
      have hpruned : ∀ p ∈ pruned, ∃ p' ∈ raw, p'.toParsedNsec3 = p
          ∧ ∀ n, hashName n p'.salt p'.iterations crypto.sha1 = hash n := by
        intro p hp
        obtain ⟨p', hp', rfl⟩ := mem_map.mp hp
        obtain ⟨hmem, hsame⟩ := mem_filter.mp hp'
        simp only [Bool.and_eq_true, decide_eq_true_eq] at hsame
        exact ⟨p', hmem, rfl, fun n => by rw [hsame.2, hsame.1.2]⟩
      split at h
      · cases h
      · split at h
        · cases h
        · next digest hdigest =>
          split at h
          · next nons₁ hcheck =>
            obtain rfl : nons₁ = nons := (Prod.mk.inj (Prod.mk.inj h).2).1
            obtain ⟨hok, -⟩ | ⟨p, hp, hfound, hshows⟩ := checkNsec3Coverage_cases hcheck
            · cases hok
            · obtain ⟨p', hp', rfl, hhash⟩ := hpruned p hp
              refine ⟨p', hp', .inl ⟨digest, ?_, hfound.imp_right (·.2)⟩, fun hnons _ => ?_⟩
              · rw [hhash, hdigest]
              · exact ⟨digest, by rw [hhash, hdigest], hshows rfl rfl hnons⟩
          · next nons₁ hcheck =>
            split at h
            · cases h
            · cases h
            · next n counter₁ hwalk =>
              obtain ⟨hproof, hrest⟩ := Prod.mk.inj h
              obtain ⟨digest', hdigest', hcovered⟩ :=
                checkNsec3Coverage_of_checkEncloser (Prod.ext hproof rfl)
              obtain ⟨hok, -⟩ | ⟨p, hp, hfound, -⟩ :=
                checkNsec3Coverage_cases (Prod.ext (hcovered : _ = true) rfl)
              · cases hok
              · obtain ⟨p', hp', rfl, hhash⟩ := hpruned p hp
                have htail := isTail_of_closestEncloser hwalk (.inl rfl) (by rintro _ ⟨⟩)
                refine ⟨p', hp', .inr ⟨n, mem_dnsSuffixes_of_isTail htail, digest', ?_,
                  hfound.imp_right (·.2)⟩, fun hnons hname => ?_⟩
                · rw [hhash, hdigest']
                · -- the name has a record, so it is its own closest encloser, and nothing is longer
                  rw [← (Prod.mk.inj hrest).1] at hnons
                  rw [hnons] at hcheck
                  obtain ⟨-, hnot⟩ | ⟨p, hp, hown | hok, -⟩ := checkNsec3Coverage_cases hcheck
                  · cases hnot
                  · have hany : pruned.any (·.ownerHash = digest) :=
                      any_eq_true.mpr ⟨p, hp, decide_eq_true hown⟩
                    rw [hname, closestEncloser, hdigest] at hwalk
                    dsimp only at hwalk
                    rw [if_neg fun h => h.1 rfl] at hwalk
                    split at hwalk <;> cases hwalk
                  · cases hok.1

/-! ### Both -/

/-- **The record speaks of the name**: it is at the name or its interval covers it, or, for an
NSEC3, so with the hash of the name or of one above it. -/
def Speaks (crypto : Crypto) (authority : List DnsRr) (qclass : UInt16) (name : Str) (rr : DnsRr) :
    Prop :=
  (rr.rtype = tNsec ∧ ∃ p, readNsec authority qclass rr = .ok p ∧ p.Speaks name)
    ∨ (rr.rtype = tNsec3 ∧ ∃ p, readNsec3 rr = .ok p
      ∧ (p.Speaks crypto name ∨ ∃ n ∈ dnsSuffixes name, p.Speaks crypto n))

/-- **The record shows** that the name is a delegation without the type, or hidden by opt-out. -/
def Shows (crypto : Crypto) (authority : List DnsRr) (qclass : UInt16) (name : Str) (qtype : UInt16)
    (rr : DnsRr) : Prop :=
  (rr.rtype = tNsec ∧ ∃ p, readNsec authority qclass rr = .ok p
      ∧ hostnameCmp p.signedOwner name = .eq ∧ Delegates p.bitmap qtype)
    ∨ (rr.rtype = tNsec3 ∧ ∃ p, readNsec3 rr = .ok p ∧ ShowsName crypto p name qtype)

theorem exists_of_mem_mapM {α β ε : Type} {f : α → Except ε β} {l : List α} {bs : List β}
    (h : l.mapM f = .ok bs) {b : β} (hb : b ∈ bs) : ∃ a ∈ l, f a = .ok b := by
  induction l generalizing bs with
  | nil =>
    obtain rfl := Except.ok.inj h
    exact absurd hb not_mem_nil
  | cons a l ih =>
    rw [mapM_cons] at h
    obtain ⟨b', hb', h⟩ := Fallible.bind_eq_ok.mp h
    obtain ⟨bs', hbs', h⟩ := Fallible.bind_eq_ok.mp h
    obtain rfl := Except.ok.inj h
    obtain rfl | hb := mem_cons.mp hb
    · exact ⟨a, mem_cons_self, hb'⟩
    · obtain ⟨a', ha', hfa⟩ := ih hbs' hb
      exact ⟨a', mem_cons_of_mem _ ha', hfa⟩

/-- **A proof that is accepted** rests on a record that speaks of the name, and if it clears `nons`,
shows why. -/
theorem exists_speaks (h : proveNonExistence crypto authority name qtype qclass 0 nons counter limit
      = (.ok (), nons', counter')) :
    ∃ rr ∈ authority, rr.rclass = qclass ∧ Speaks crypto authority qclass name rr
      ∧ (nons' = false → normName name = name → Shows crypto authority qclass name qtype rr) := by
  have hfilter {t : UInt16} {rr : DnsRr}
      (h : rr ∈ authority.filter fun r => r.rtype = t && r.rclass = qclass) :
      rr ∈ authority ∧ rr.rtype = t ∧ rr.rclass = qclass := by simpa using h
  unfold proveNonExistence at h
  extract_lets nsecRrs nsec3Rrs at h
  split at h
  · cases h
  · split at h
    · split at h
      · cases h
      · next parsed hparsed =>
        have hproof : proveNonExistenceNsec name qtype parsed = (.ok (), nons') :=
          Prod.ext (Prod.mk.inj h).1 (Prod.mk.inj (Prod.mk.inj h).2).1
        obtain ⟨p, hp, hspeaks, hshows⟩ := exists_speaks_of_nsec hproof
        obtain ⟨rr, hrr, hread⟩ := exists_of_mem_mapM hparsed hp
        obtain ⟨hmem, htype, hclass⟩ := hfilter hrr
        exact ⟨rr, hmem, hclass, .inl ⟨htype, p, hread, hspeaks⟩,
          fun hnons _ => .inl ⟨htype, p, hread, hshows hnons⟩⟩
    · split at h
      · split at h
        · cases h
        · next raw hraw =>
          obtain ⟨p, hp, hspeaks, hshows⟩ := exists_speaks_of_nsec3 h
          obtain ⟨rr, hrr, hread⟩ := exists_of_mem_mapM hraw hp
          obtain ⟨hmem, htype, hclass⟩ := hfilter hrr
          exact ⟨rr, hmem, hclass, .inr ⟨htype, p, hread, hspeaks⟩,
            fun hnons hname => .inr ⟨htype, p, hread, hshows hnons hname⟩⟩
      · cases h

/-- Both kinds of records are ones that deny something. -/
theorem Speaks.denies (h : Speaks crypto authority qclass name rr) :
    deniesNames rr ∧ rr.rtype ≠ tRrsig := by
  rcases h with ⟨htype, -⟩ | ⟨htype, -⟩ <;> rw [deniesNames, htype] <;> decide

/-! ### Zones -/

/-- **The records that speak of the name are of its own zones**: the signers of each enclose the
name, and it is spelled so that it is looked at. -/
def OwnZones (env : ReplyEnv) (qclass : UInt16) (target : Str) : Prop :=
  ∀ rr ∈ env.authority, rr.rclass = qclass → Speaks env.crypto env.authority qclass target rr →
    env.SpelledAlike rr ∧ ∀ sig ∈ env.sigsOf rr, ∀ s ∈ namedSigner sig, Encloses s target

/-- **The name is denied by a zone of its own**: one that encloses it has signed a record that
denies something. -/
def DeniedByOwn (made : Bytes → Bytes → Prop) (env : ReplyEnv) (target : Str) : Prop :=
  ∃ rr ∈ env.authority, deniesNames rr ∧ ∃ z, Encloses z target ∧ SignedBy made env.cache z rr

/-- The only NSEC of the zone `a`, which covers every name but its own, and its signature. -/
def sampleDenial : List DnsRr :=
  [⟨"a".toList, tNsec, 1, 9, [1, 97, 0, 0, 6, 0x22, 0, 0, 0, 0, 3]⟩, sampleSig tNsec]

end DnsmasqRs.Dnssec
