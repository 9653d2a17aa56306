import Mathlib.Data.List.Sort
import DnsmasqRs.Dnssec.Equiv.Authentic

/-!
# The canonical order

`hostname_cmp` compares names by their labels from the last to the first, and an exhausted name
comes first.  The root is split into one empty label, but no other name ends in one, so this is the
order of the lists of labels (`hostnameCmp_canonical`).  `sort_rrset` puts a set in the order of its
RDATA (`sorted_sortRrset`), and two sets with the same RDATA are then the same to `validate_rrset`
(`validateRrset_congr`).
-/

namespace DnsmasqRs.Dnssec

open Wire Utf8 Rfc1035 List

variable {a b c s : Str}

/-! ### Names -/

theorem splitLabels_asciiLower : splitLabels (asciiLower s) = (splitLabels s).map asciiLower := by
  simp only [splitLabels, splitOn]
  induction s with
  | nil => rfl
  | cons c s ih =>
    rw [asciiLower_cons, splitOnP_cons_eq_if_modifyHead, splitOnP_cons_eq_if_modifyHead, ih]
    simp only [beq_iff_eq, toLower_eq_dot_iff]
    split
    · rfl
    · cases s.splitOnP (· == '.') <;> rfl

/-- **The place of a name in the canonical order**: its labels in lower case from the last to the
first, as byte strings.  The root has none. -/
def canonicalKey (name : Str) : List (List ℕ) :=
  if normName name = [] then
    [] else (splitLabels (normName name)).reverse.map fun l => bytesKey (bytes l)

theorem canonicalKey_eq_iff : canonicalKey a = canonicalKey b ↔ normName a = normName b := by
  refine ⟨fun h => ?_, fun h => by rw [canonicalKey, canonicalKey, h]⟩
  unfold canonicalKey at h
  split_ifs at h with ha hb hb
  · rw [ha, hb]
  · exact absurd (reverse_eq_nil_iff.mp (map_eq_nil_iff.mp h.symm)) (splitLabels_ne_nil _)
  · exact absurd (reverse_eq_nil_iff.mp (map_eq_nil_iff.mp h)) (splitLabels_ne_nil _)
  · have hlabels :=
      reverse_injective (map_injective_iff.mpr (bytesKey_injective.comp bytes_injective) h)
    rw [← joinLabels_splitLabels (normName a), hlabels, joinLabels_splitLabels]

/-- The root as `hostname_cmp` takes it, with one empty label. -/
def orRoot : List (List ℕ) → List (List ℕ)
  | [] => [[]]
  | keys => keys

theorem strictMonoOn_orRoot : StrictMonoOn orRoot {keys | keys.head? ≠ some []} := by
  intro x _ y hy hlt
  cases x with
  | nil =>
    cases y with
    | nil => exact absurd hlt (lt_irrefl _)
    | cons k ks =>
      cases k with
      | nil => exact absurd rfl hy
      | cons n k => exact cons_lt_cons_iff.mpr (.inl (nil_lt_cons n k))
  | cons k ks =>
    cases y with
    | nil => exact absurd hlt (not_lt_nil _)
    | cons k' ks' => exact hlt

theorem orRoot_canonicalKey : orRoot (canonicalKey s)
    = (splitLabels (trimEndDots s)).reverse.map fun l => bytesKey (bytes (asciiLower l)) := by
  unfold canonicalKey
  split
  · next h => rw [map_eq_nil_iff.mp h]; rfl
  · rw [normName, splitLabels_asciiLower, ← map_reverse, map_map]
    cases hlabels : (splitLabels (trimEndDots s)).reverse with
    | nil => exact absurd (reverse_eq_nil_iff.mp hlabels) (splitLabels_ne_nil _)
    | cons l ls => rfl

/-- A name of labels that are not empty has none in its key. -/
theorem canonicalKey_mem (h : GoodLabels (trimEndDots s)) :
    canonicalKey s ∈ {keys | keys.head? ≠ some []} := by
  intro hhead
  unfold canonicalKey at hhead
  split at hhead
  · cases hhead
  · next hne =>
    obtain ⟨lower, hlower, hkey⟩ := mem_map.mp (mem_of_mem_head? hhead)
    rw [mem_reverse, normName, splitLabels_asciiLower] at hlower
    obtain ⟨l, hl, rfl⟩ := mem_map.mp hlower
    have hnil : l = [] := map_eq_nil_iff.mp (bytes_injective (bytesKey_injective hkey))
    exact h.resolve_left (fun he => hne (congrArg asciiLower he)) l hl hnil

theorem compares_cmpLabels (as bs : List Str) :
    (cmpLabels as bs).Compares (as.map fun l => bytesKey (bytes (asciiLower l)))
      (bs.map fun l => bytesKey (bytes (asciiLower l))) := by
  induction as generalizing bs with
  | nil =>
    cases bs with
    | nil => exact rfl
    | cons b bs => exact nil_lt_cons _ _
  | cons a as ih =>
    cases bs with
    | nil => exact nil_lt_cons _ _
    | cons b bs =>
      have hcons :=
        compares_cons (compares_bytes (bytes (asciiLower a)) (bytes (asciiLower b))) (ih bs)
      unfold cmpLabels
      revert hcons
      cases compare (bytes (asciiLower a)) (bytes (asciiLower b)) <;> exact id

theorem compares_hostnameCmp (ha : GoodLabels (trimEndDots a)) (hb : GoodLabels (trimEndDots b)) :
    (hostnameCmp a b).Compares (canonicalKey a) (canonicalKey b) := by
  rw [← strictMonoOn_orRoot.compares (canonicalKey_mem ha) (canonicalKey_mem hb),
    orRoot_canonicalKey, orRoot_canonicalKey]
  exact compares_cmpLabels _ _

/-- **`hostname_cmp` is the canonical order of names**: that of their labels, in which names that
differ in the case of letters and in dots at the end are the same. -/
theorem hostnameCmp_canonical (ha : GoodLabels (trimEndDots a)) (hb : GoodLabels (trimEndDots b))
    (hc : GoodLabels (trimEndDots c)) : (hostnameCmp a b).Compares (canonicalKey a) (canonicalKey b)
      ∧ (hostnameCmp a b = .eq ↔ normName a = normName b) ∧ hostnameCmp b a = (hostnameCmp a b).swap
      ∧ (hostnameCmp a b ≠ .gt → hostnameCmp b c ≠ .gt → hostnameCmp a c ≠ .gt)
      ∧ (hostnameCmp a b ≠ .gt ∨ hostnameCmp b a ≠ .gt) := by
  have hab := compares_hostnameCmp ha hb
  have hba := compares_hostnameCmp hb ha
  refine ⟨hab, hab.eq_eq.trans canonicalKey_eq_iff, hba.inj hab.swap, ?_, ?_⟩
  · rw [hab.ne_gt, (compares_hostnameCmp hb hc).ne_gt, (compares_hostnameCmp ha hc).ne_gt]
    exact le_trans
  · rw [hab.ne_gt, hba.ne_gt]
    exact le_total _ _

theorem hostnameCmp_canonical_three : hostnameCmp "b.A".toList "a.".toList = .gt
    ∧ hostnameCmp "a.".toList "b.A".toList = (hostnameCmp "b.A".toList "a.".toList).swap :=
  ⟨by decide,
    (hostnameCmp_canonical (c := []) (.inr (by decide)) (.inr (by decide)) (.inl rfl)).2.2.1⟩

/-! ### Sets -/

variable {rr last : DnsRr} {rrset rest : List DnsRr}

/-- The order of `sort_rrset`. -/
abbrev rdataKey (rr : DnsRr) : List ℕ := bytesKey rr.rdata

/-- **One pass of `sort_rrset`** moves a greatest record to the end. -/
theorem sortPass_spec (rr : DnsRr) (rest : List DnsRr) :
    ∃ init last, (sortPass rr rest).1 = init ++ [last]
    ∧ rdataKey rr ≤ rdataKey last ∧ (∀ x ∈ init, rdataKey x < rdataKey last)
    ∧ init.length ≤ rest.length := by
  induction rest generalizing rr with
  | nil => exact ⟨[], rr, rfl, le_rfl, forall_mem_nil _, le_rfl⟩
  | cons next rest ih =>
    have hcmp := compares_bytes rr.rdata next.rdata
    cases heq : compare rr.rdata next.rdata with
    | gt =>
      obtain ⟨init, last, hpass, hle, hlt, hlen⟩ := ih rr
      refine ⟨next :: init, last, ?_, hle,
        forall_mem_cons.mpr ⟨(hcmp.eq_gt.mp heq).trans_le hle, hlt⟩, by simpa using hlen⟩
      simp [sortPass, heq, hpass]
    | eq =>
      obtain ⟨init, last, hpass, hle, hlt, hlen⟩ := ih rr
      exact ⟨init, last, by simp [sortPass, heq, hpass], hle, hlt, hlen.trans (Nat.le_succ _)⟩
    | lt =>
      obtain ⟨init, last, hpass, hle, hlt, hlen⟩ := ih next
      have hrr := (hcmp.eq_lt.mp heq).trans_le hle
      refine ⟨rr :: init, last, ?_, hrr.le, forall_mem_cons.mpr ⟨hrr, hlt⟩, by simpa using hlen⟩
      simp [sortPass, heq, hpass]

/-- A greatest record at the end stays there. -/
theorem sortPass_concat (h : ∀ x ∈ rr :: rest, rdataKey x < rdataKey last) :
    sortPass rr (rest ++ [last]) = ((sortPass rr rest).1 ++ [last], (sortPass rr rest).2) := by
  induction rest generalizing rr with
  | nil =>
    have hlt := (compares_bytes rr.rdata last.rdata).eq_lt.mpr (h rr mem_cons_self)
    simp [sortPass, hlt]
  | cons next rest ih =>
    have hrr := ih (forall_mem_cons.mpr ⟨h rr mem_cons_self, fun x hx => h x (by simp [hx])⟩)
    have hnext := ih fun x hx => h x (mem_cons_of_mem _ hx)
    cases heq : compare rr.rdata next.rdata <;> simp [sortPass, heq, hrr, hnext]

theorem sortPasses_concat (h : ∀ b ∈ rrset.map (·.rdata), bytesKey b < rdataKey last) :
    sortPasses fuel (rrset ++ [last]) = sortPasses fuel rrset ++ [last] := by
  induction fuel generalizing rrset with
  | zero => cases rrset <;> rfl
  | succ fuel ih =>
    cases rrset with
    | nil => rfl
    | cons rr rest =>
      rw [cons_append, sortPasses, sortPasses, sortPass_concat (forall_mem_map.mp h)]
      dsimp only
      split
      · exact ih fun b hb => h b (mem_rdata_sortPass.mp hb)
      · rfl

/-- A pass that has swapped nothing leaves the records in order. -/
theorem increasing_of_sortPass (h : (sortPass rr rest).2 = false) :
    (sortPass rr rest).1.Pairwise (rdataKey · < rdataKey ·)
      ∧ ∀ x ∈ (sortPass rr rest).1, rdataKey rr ≤ rdataKey x := by
  induction rest generalizing rr with
  | nil => exact ⟨pairwise_singleton _ _, forall_mem_singleton.mpr le_rfl⟩
  | cons next rest ih =>
    cases heq : compare rr.rdata next.rdata <;> simp only [sortPass, heq] at h ⊢
    · have hlt : rdataKey rr < rdataKey next := (compares_bytes _ _).eq_lt.mp heq
      obtain ⟨hpair, hle⟩ := ih h
      refine ⟨pairwise_cons.mpr ⟨fun x hx => hlt.trans_le (hle x hx), hpair⟩,
        forall_mem_cons.mpr ⟨le_rfl, ?_⟩⟩
      exact fun x hx => (hlt.trans_le (hle x hx)).le
    · exact ih h
    · cases h

/-- **The passes end in order**, one for each record at most: a further one changes nothing. -/
theorem increasing_sortPasses (hfuel : rrset.length ≤ fuel) :
    (sortPasses fuel rrset).Pairwise (rdataKey · < rdataKey ·)
      ∧ sortPasses (fuel + 1) rrset = sortPasses fuel rrset := by
  induction fuel generalizing rrset with
  | zero =>
    rw [eq_nil_of_length_eq_zero (Nat.le_zero.mp hfuel)]
    exact ⟨.nil, rfl⟩
  | succ fuel ih =>
    cases rrset with
    | nil => exact ⟨.nil, rfl⟩
    | cons rr rest =>
      simp only [sortPasses]
      split
      · obtain ⟨init, last, hpass, -, hlt, hlen⟩ := sortPass_spec rr rest
        have hlt : ∀ b ∈ init.map (·.rdata), bytesKey b < rdataKey last := forall_mem_map.mpr hlt
        obtain ⟨hpair, hstable⟩ := ih (hlen.trans (Nat.succ_le_succ_iff.mp hfuel))
        rw [hpass, sortPasses_concat hlt, sortPasses_concat hlt, hstable, pairwise_append]
        refine ⟨⟨hpair, pairwise_singleton _ _, fun x hx y hy => ?_⟩, rfl⟩
        rw [mem_singleton.mp hy]
        exact hlt _ (mem_rdata_sortPasses.mp (mem_map_of_mem hx))
      · next h => exact ⟨(increasing_of_sortPass (Bool.eq_false_iff.mpr h)).1, rfl⟩

/-- Two sets with the same RDATA are sorted to the same RDATA. -/
theorem map_rdata_sortRrset (h : ∀ b, b ∈ rrset.map (·.rdata) ↔ b ∈ rrset'.map (·.rdata)) :
    (sortRrset rrset).map (·.rdata) = (sortRrset rrset').map (·.rdata) := by
  have hinc (rrset) : ((sortRrset rrset).map (·.rdata)).Pairwise (InvImage (· < ·) bytesKey) :=
    pairwise_map.mpr (increasing_sortPasses le_rfl).1
  refine (hinc rrset).eq_of_mem_iff (hinc rrset') fun b => ?_
  rw [sortRrset, mem_rdata_sortPasses, h, sortRrset, mem_rdata_sortPasses]

/-! ### Signatures -/

/-- What a validation says but for how long. -/
def RrsetValidation.kind : RrsetValidation → RrsetValidation
  | .secure _ keyTag => .secure 0 keyTag
  | result => result

theorem trySignature_congr (h : sorted.map (·.rdata) = sorted'.map (·.rdata)) :
    (trySignature crypto sorted name rrtype rrclass now key rdata f).map RrsetValidation.kind
      = (trySignature crypto sorted' name rrtype rrclass now key rdata f).map
        RrsetValidation.kind := by
  have hdata (signer owner) : signedData rdata signer owner rrtype rrclass f.origTtl sorted
      = signedData rdata signer owner rrtype rrclass f.origTtl sorted' := by
    rw [signedData, signedData, ← flatMap_map, h, flatMap_map]
  simp only [trySignature, hdata, Option.bind_eq_bind, Option.map_bind, Function.comp_def,
    apply_ite (Option.map RrsetValidation.kind), Option.map_some, RrsetValidation.kind]

theorem validateLoop_congr (h : sorted.map (·.rdata) = sorted'.map (·.rdata)) :
    Prod.map RrsetValidation.kind id
      (validateLoop crypto sorted name rrtype rrclass now key sigs counter)
      = Prod.map RrsetValidation.kind id
        (validateLoop crypto sorted' name rrtype rrclass now key sigs counter) := by
  induction sigs generalizing counter with
  | nil => rfl
  | cons sig sigs ih =>
    simp only [validateLoop]
    split
    · rfl
    · split
      · exact ih
      · next f _ =>
        split
        · cases key with
          | none => rfl
          | some key =>
            have htry := @trySignature_congr crypto _ name rrtype rrclass now key sig.rdata f _ h
            dsimp only
            split <;> split <;> simp_all
        · exact ih

/-- **The order of the records does not matter.** `sort_rrset` ends with the RDATA of the set in
strictly increasing order, and the validation of two sets with the same RDATA says the same, but for
how long. -/
theorem validateRrset_congr (rrset rrset' rrsigs name rrtype rrclass now key counter) :
    ((∀ fuel, rrset.length ≤ fuel → sortPasses fuel rrset = sortRrset rrset)
        ∧ (sortRrset rrset).Pairwise (rdataKey · < rdataKey ·)
        ∧ ∀ b, b ∈ (sortRrset rrset).map (·.rdata) ↔ b ∈ rrset.map (·.rdata))
      ∧ ((∀ b, b ∈ rrset.map (·.rdata) ↔ b ∈ rrset'.map (·.rdata)) →
        Prod.map RrsetValidation.kind id
          (validateRrset crypto rrset rrsigs name rrtype rrclass now key counter)
          = Prod.map RrsetValidation.kind id
            (validateRrset crypto rrset' rrsigs name rrtype rrclass now key counter)) := by
  refine ⟨⟨fun fuel hfuel => ?_, (increasing_sortPasses le_rfl).1, fun b => mem_rdata_sortPasses⟩,
    fun h => ?_⟩
  · induction fuel, hfuel using Nat.le_induction with
    | base => rfl
    | succ fuel hfuel ih => exact (increasing_sortPasses hfuel).2.trans ih
  · unfold validateRrset
    split
    · rfl
    · exact validateLoop_congr (map_rdata_sortRrset h)

theorem validateRrset_congr_swap :
    let a : DnsRr := ⟨['a'], 1, 1, 60, [1]⟩
    let b : DnsRr := ⟨['a'], 1, 1, 60, [2]⟩
    let sig : DnsRr := ⟨['a'], 46, 1, 60, .replicate 20 0⟩
    let crypto : Crypto := ⟨id, id, id, fun _ _ _ _ => true⟩
    Prod.map RrsetValidation.kind id (validateRrset crypto [a, b] [sig] ['a'] 1 1 0 none 1)
      = Prod.map RrsetValidation.kind id (validateRrset crypto [b, a] [sig] ['a'] 1 1 0 none 1) :=
  (validateRrset_congr _ _ _ _ _ _ _ _ _).2 (by simp [or_comm])

end DnsmasqRs.Dnssec
