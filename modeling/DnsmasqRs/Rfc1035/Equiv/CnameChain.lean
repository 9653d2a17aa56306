import DnsmasqRs.Equiv.CacheEntries
import DnsmasqRs.Rfc1035.Answer

/-!
# Where the CNAMEs of local answering lead

`chainEnd` is where the CNAMEs lead from a name, those of the configuration first and then the live
ones of the cache, and `endsNxdomain` whether the cache has a live NXDOMAIN there.
`resolve_cname_chain` adds the CNAMEs on the way to the reply and nothing else
(`resolveCnameChain_spec`); what its lookups drop from the cache has expired.
-/

namespace DnsmasqRs.Rfc1035

open Lru Utf8 Wire Cache Domain DomainMatch Fallible List Option
open DnsCache (Expired live_of_onlyDrops)

variable {M : Type} [Lru M CacheKey CacheRecord]

section

variable (req : Request) (cache : DnsCache M) (now : Instant)

/-- The target of the live CNAME that the cache has for a name. -/
def cachedTarget (name : Str) : Option Str :=
  (cache.live ⟨toLowercase name, fCname⟩ now).bind fun rec =>
    match rec.addr with
    | some (.cname c) => c.targetName
    | _ => none

/-- The configured CNAME of a name. -/
def configuredCname (name : Str) : Option Cname :=
  req.config.cnames.find? fun c => toLowercase c.aliasName == name

/-- The name that a name is an alias of. -/
def nextName (name : Str) : Option Str :=
  match configuredCname req name with
  | some c => some (toLowercase c.target)
  | none => (cachedTarget cache req.now name).map toLowercase

/-- The hops that are left at the end of the chain, and the name there.  None are left if a CNAME
was what was asked for and there is one. -/
def chainEnd (req : Request) (cache : DnsCache M) : ℕ → Str → ℕ × Str
  | 0, name => (0, name)
  | hops + 1, name =>
    match nextName req cache name with
    | none => (hops + 1, name)
    | some target => if req.qtype = 5 then (0, target) else chainEnd req cache hops target

/-- The chain has a configured CNAME, or a CNAME was asked for and there is one. -/
def chainAnswers (req : Request) (cache : DnsCache M) : ℕ → Str → Bool
  | 0, _ => false
  | hops + 1, name =>
    match nextName req cache name with
    | none => false
    | some target =>
      (configuredCname req name).isSome || req.qtype == 5 || chainAnswers req cache hops target

/-- The cache has a live NXDOMAIN for a name. -/
def cachedNxdomain (name : Str) : Bool :=
  (cache.live ⟨toLowercase name, fNxdomain ||| fNeg⟩ now).isSome

/-- The chain ends, before the limit, at a name with a live NXDOMAIN. -/
def endsNxdomain (hops : ℕ) (name : Str) : Bool :=
  (chainEnd req cache hops name).1 != 0
    && cachedNxdomain cache req.now (chainEnd req cache hops name).2

end

section Congr

variable {req : Request} {c c' : DnsCache M} (h : OnlyDrops (Expired req.now) c.records c'.records)

include h

theorem nextName_of_onlyDrops : nextName req c' name = nextName req c name := by
  unfold nextName cachedTarget
  rw [live_of_onlyDrops h]

theorem chainEnd_of_onlyDrops : chainEnd req c' hops name = chainEnd req c hops name := by
  induction hops generalizing name with
  | zero => rfl
  | succ hops ih =>
    unfold chainEnd
    rw [nextName_of_onlyDrops h]
    simp only [ih]

theorem chainAnswers_of_onlyDrops :
    chainAnswers req c' hops name = chainAnswers req c hops name := by
  induction hops generalizing name with
  | zero => rfl
  | succ hops ih =>
    unfold chainAnswers
    rw [nextName_of_onlyDrops h]
    simp only [ih]

theorem cachedNxdomain_of_onlyDrops :
    cachedNxdomain c' req.now name = cachedNxdomain c req.now name := by
  unfold cachedNxdomain
  rw [live_of_onlyDrops h]

theorem endsNxdomain_of_onlyDrops :
    endsNxdomain req c' hops name = endsNxdomain req c hops name := by
  unfold endsNxdomain
  rw [chainEnd_of_onlyDrops h, cachedNxdomain_of_onlyDrops h]

end Congr

theorem fst_chainEnd_le (req : Request) (cache : DnsCache M) (hops : ℕ) (name : Str) :
    (chainEnd req cache hops name).1 ≤ hops := by
  fun_induction chainEnd req cache hops name with
  | case1 | case2 => exact Nat.le_refl _
  | case3 => exact Nat.zero_le _
  | case4 _ _ _ _ _ ih => exact Nat.le_succ_of_le ih

theorem snd_chainEnd_of_fst {req : Request} {cache : DnsCache M} {hops : ℕ} {name : Str}
    (h : (chainEnd req cache hops name).1 = hops) : (chainEnd req cache hops name).2 = name := by
  cases hops with
  | zero => rfl
  | succ hops =>
    unfold chainEnd at h ⊢
    split at h
    · rfl
    · next target hnext =>
      have hle := fst_chainEnd_le req cache hops target
      split_ifs at h
      omega

/-- Questions of types other than CNAME follow the same chain. -/
theorem chainEnd_of_qtype {req req' : Request} (hconfig : req'.config = req.config)
    (hnow : req'.now = req.now) (hqtype : req.qtype ≠ 5) (hqtype' : req'.qtype ≠ 5)
    (cache : DnsCache M) (hops : ℕ) (name : Str) :
    chainEnd req' cache hops name = chainEnd req cache hops name := by
  have hnext : ∀ name, nextName req' cache name = nextName req cache name := by
    intro name
    unfold nextName configuredCname
    rw [hconfig, hnow]
  induction hops generalizing name with
  | zero => rfl
  | succ hops ih =>
    unfold chainEnd
    rw [hnext]
    simp only [ih, if_neg hqtype, if_neg hqtype']

/-- Where the chain does not end with NXDOMAIN, a question for another type does not find one
either. -/
theorem endsNxdomain_of_qtype (req req' : Request) (hconfig : req'.config = req.config)
    (hnow : req'.now = req.now) (hqtype : req.qtype ≠ 5) {cache : DnsCache M} {hops : ℕ}
    {name : Str} (h : endsNxdomain req cache (hops + 1) name = false) :
    endsNxdomain req' cache (hops + 1) name = false := by
  by_cases hqtype' : req'.qtype = 5
  · have hnext : nextName req' cache name = nextName req cache name := by
      unfold nextName configuredCname
      rw [hconfig, hnow]
    unfold endsNxdomain chainEnd at h ⊢
    rw [hnext]
    cases hname : nextName req cache name with
    | none =>
      rw [hname] at h
      rwa [hnow]
    | some target =>
      dsimp only
      rw [if_pos hqtype']
      rfl
  · unfold endsNxdomain at h ⊢
    rwa [chainEnd_of_qtype hconfig hnow hqtype hqtype', hnow]

/-- What following the chain adds to a reply. -/
structure Chained (req : Request) (hops : ℕ) (r r' : Reply M) : Prop where
  name : r'.name = (chainEnd req r.cache hops r.name).2
  drops : OnlyDrops (Expired req.now) r.cache.records r'.cache.records
  answers : ∃ cnames, r'.answers = r.answers ++ cnames ∧ (∀ rr ∈ cnames, rr.rtype = 5)
    ∧ (cnames = [] ↔ (chainEnd req r.cache hops r.name).1 = hops)
  ans : r'.ans
    = (r.ans || chainAnswers req r.cache hops r.name || endsNxdomain req r.cache hops r.name)
  nxdomain : r'.nxdomain = (r.nxdomain || endsNxdomain req r.cache hops r.name)
  notimp : r'.notimp = r.notimp

/-- A reply that went one CNAME along. -/
structure Hopped (req : Request) (r r' : Reply M) : Prop where
  next : nextName req r.cache r.name = some r'.name
  drops : OnlyDrops (Expired req.now) r.cache.records r'.cache.records
  answers : ∃ cname, r'.answers = r.answers ++ [cname] ∧ cname.rtype = 5
  ans : r'.ans = (r.ans || (configuredCname req r.name).isSome || req.qtype == 5)
  nxdomain : r'.nxdomain = r.nxdomain
  notimp : r'.notimp = r.notimp

theorem Hopped.last {req : Request} {r r' : Reply M} (h : Hopped req r r') (hqtype : req.qtype = 5)
    (hops : ℕ) : Chained req (hops + 1) r r' := by
  have hend : chainEnd req r.cache (hops + 1) r.name = (0, r'.name) := by
    rw [chainEnd, h.next]
    exact if_pos hqtype
  have hnx : endsNxdomain req r.cache (hops + 1) r.name = false := by
    rw [endsNxdomain, hend]
    rfl
  have hans : chainAnswers req r.cache (hops + 1) r.name := by
    rw [chainAnswers, h.next, hqtype]
    simp
  obtain ⟨cname, hcname, htype⟩ := h.answers
  refine ⟨by rw [hend], h.drops, ⟨[cname], hcname, ?_, ?_⟩, ?_, ?_, h.notimp⟩
  · exact fun rr hrr => mem_singleton.mp hrr ▸ htype
  · rw [hend]
    exact iff_of_false (cons_ne_nil _ _) (Nat.zero_ne_add_one hops)
  · rw [h.ans, hans, hqtype]
    simp
  · rw [h.nxdomain, hnx, Bool.or_false]

theorem Hopped.trans {req : Request} {r r₁ r' : Reply M} (h : Hopped req r r₁)
    (hqtype : req.qtype ≠ 5) {hops : ℕ} (h' : Chained req hops r₁ r') :
    Chained req (hops + 1) r r' := by
  have hend : chainEnd req r.cache (hops + 1) r.name = chainEnd req r₁.cache hops r₁.name := by
    rw [chainEnd, h.next, chainEnd_of_onlyDrops h.drops]
    exact if_neg hqtype
  have hnx :
      endsNxdomain req r.cache (hops + 1) r.name = endsNxdomain req r₁.cache hops r₁.name := by
    rw [endsNxdomain_of_onlyDrops h.drops, endsNxdomain, endsNxdomain, hend,
      chainEnd_of_onlyDrops h.drops]
  have hqtype' : (req.qtype == 5) = false := beq_false_of_ne hqtype
  have hans : chainAnswers req r.cache (hops + 1) r.name =
      ((configuredCname req r.name).isSome || chainAnswers req r₁.cache hops r₁.name) := by
    rw [chainAnswers, h.next, chainAnswers_of_onlyDrops h.drops, hqtype']
    simp
  obtain ⟨cname, hcname, htype⟩ := h.answers
  obtain ⟨cnames, hcnames, htypes, -⟩ := h'.answers
  refine ⟨by rw [h'.name, hend], h.drops.trans h'.drops, ⟨cname :: cnames, ?_, ?_, ?_⟩, ?_, ?_, ?_⟩
  · rw [hcnames, hcname, append_assoc, singleton_append]
  · exact forall_mem_cons.mpr ⟨htype, htypes⟩
  · rw [hend]
    have hle := fst_chainEnd_le req r₁.cache hops r₁.name
    exact iff_of_false (cons_ne_nil _ _) (by omega)
  · rw [h'.ans, h.ans, hans, hnx, hqtype', Bool.or_false, Bool.or_assoc r.ans]
  · rw [h'.nxdomain, h.nxdomain, hnx]
  · rw [h'.notimp, h.notimp]

variable [LawfulLru M CacheKey CacheRecord]

/-- The target that `resolve_cname_chain` reads off the cached record, without its TTL. -/
theorem map_fst_target (cache : DnsCache M) (now : Instant) (name : Str) :
    ((cache.lookupByName name fCname now).2.bind fun rec =>
      match rec.addr with
      | some (.cname c) => c.targetName.map fun t => (t, DnsCache.crecTtl rec now)
      | _ => none).map Prod.fst = cachedTarget cache now name := by
  have hlookup :
      (cache.lookupByName name fCname now).2 = cache.live ⟨toLowercase name, fCname⟩ now :=
    DnsCache.lookupByName_snd
  rw [hlookup, cachedTarget]
  cases cache.live ⟨toLowercase name, fCname⟩ now with
  | none => rfl
  | some rec =>
    rw [bind_some, bind_some]
    split
    · rw [Option.map_map]
      exact map_id'
    · rfl

theorem resolveCnameChain_spec (req : Request) (hops : ℕ) (r : Reply M) :
    Chained req hops r (resolveCnameChain req hops r) := by
  induction hops generalizing r with
  | zero =>
    refine ⟨rfl, .refl _, ⟨[], (append_nil _).symm, by simp, by simp [chainEnd]⟩, ?_, ?_, rfl⟩
    · simp [resolveCnameChain, chainAnswers, endsNxdomain, chainEnd]
    · simp [resolveCnameChain, endsNxdomain, chainEnd]
  | succ hops ih =>
    unfold resolveCnameChain
    cases hconf : req.config.cnames.find? fun c => toLowercase c.aliasName == r.name with
    | some c =>
      have hhop : Hopped req r { r with
          answers := r.answers ++ [r.record 5 1 req.config.localTtl (writeName c.target)]
          name := toLowercase c.target
          ans := true } := by
        have hc : configuredCname req r.name = some c := hconf
        refine ⟨by rw [nextName, hc], .refl _, ⟨_, rfl, rfl⟩, ?_, rfl, rfl⟩
        rw [hc]
        simp
      split_ifs with hqtype
      · exact hhop.last hqtype hops
      · exact hhop.trans hqtype (ih _)
    | none =>
      have hc : configuredCname req r.name = none := hconf
      have hdrops := DnsCache.onlyDrops_lookupByName r.cache r.name fCname req.now
      have hfst := map_fst_target r.cache req.now r.name
      dsimp only
      split
      · next target ttl htarget =>
        have hcached : cachedTarget r.cache req.now r.name = some target :=
          hfst.symm.trans (congrArg (Option.map Prod.fst) htarget)
        have hnext : nextName req r.cache r.name = some (toLowercase target) := by
          rw [nextName, hc, hcached]
          rfl
        split_ifs with hqtype
        · refine Hopped.last ?_ hqtype hops
          exact ⟨hnext, hdrops, ⟨_, rfl, rfl⟩, by simp [hqtype], rfl, rfl⟩
        · refine Hopped.trans ?_ hqtype (ih _)
          exact ⟨hnext, hdrops, ⟨_, rfl, rfl⟩, by simp [hqtype, hc], rfl, rfl⟩
      · next htarget =>
        have hcached : cachedTarget r.cache req.now r.name = none :=
          hfst.symm.trans (congrArg (Option.map Prod.fst) htarget)
        have hnext : nextName req r.cache r.name = none := by
          rw [nextName, hc, hcached]
          rfl
        have hend : chainEnd req r.cache (hops + 1) r.name = (hops + 1, r.name) := by
          rw [chainEnd, hnext]
        have hans : chainAnswers req r.cache (hops + 1) r.name = false := by
          rw [chainAnswers, hnext]
        have hdrops' :=
          hdrops.trans (DnsCache.onlyDrops_lookupByName _ r.name (fNxdomain ||| fNeg) req.now)
        have hnx : endsNxdomain req r.cache (hops + 1) r.name =
            (((r.cache.lookupByName r.name fCname req.now).1).lookupByName r.name
              (fNxdomain ||| fNeg) req.now).2.isSome := by
          rw [DnsCache.lookupByName_snd, live_of_onlyDrops hdrops, endsNxdomain, hend]
          rfl
        split_ifs with hnegative
        · rw [← hnx] at hnegative
          refine ⟨by rw [hend], hdrops', ⟨[], (append_nil _).symm, by simp, by simp [hend]⟩, ?_,
            ?_, rfl⟩
          all_goals simp [hnegative]
        · rw [← hnx] at hnegative
          refine ⟨by rw [hend], hdrops', ⟨[], (append_nil _).symm, by simp, by simp [hend]⟩, ?_,
            ?_, rfl⟩
          · simp [hnegative, hans]
          · simp [hnegative]

end DnsmasqRs.Rfc1035
