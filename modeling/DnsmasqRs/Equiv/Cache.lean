import DnsmasqRs.Cache

/-!
# What a transaction changes

A reply's records go through `startInsert`, one `stageInsert` each and `endInsert` (`transact`).
Whatever the cache decides about them, only their own keys are set (`onlySets_transact`).
-/

namespace DnsmasqRs.Cache

open Lru List

/-- The record is not a CNAME that points to a slot. -/
def CacheRecord.NamePtr (rec : CacheRecord) : Prop :=
  ∀ target, rec.addr = some (.cname target) → target.isNamePtr

/-- The record can be one of a reply: it does not come from the configuration, it expires, and it is
no DNSSEC key. -/
structure CacheRecord.Plain (rec : CacheRecord) : Prop where
  isStatic : rec.isStatic = false
  mortal : rec.flags &&& fImmortal = 0
  noKey : rec.flags &&& (fDnskey ||| fDs) = 0

theorem or_and_eq_zero {a b f : UInt32} : (a ||| b) &&& f = 0 ↔ a &&& f = 0 ∧ b &&& f = 0 := by
  rw [Wire.or_and_distrib, UInt32.or_eq_zero_iff]

namespace DnsCache

variable {M : Type} {c : DnsCache M} {rec r : CacheRecord} {now : Instant}

/-! ### Lifetimes -/

/-- The record with its bounded lifetime. -/
def renew (c : DnsCache M) (now : Instant) (rec : CacheRecord) : CacheRecord :=
  if rec.isStatic then rec
  else { rec with ttl := c.boundTtl rec, expires := now + fromSecs (c.boundTtl rec).toNat }

theorem key_renew : (c.renew now rec).key = rec.key := by
  unfold renew
  split_ifs <;> rfl

theorem renew_eq : ∃ ttl expires, c.renew now rec = { rec with ttl, expires } := by
  unfold renew
  split_ifs
  · exact ⟨rec.ttl, rec.expires, rfl⟩
  · exact ⟨_, _, rfl⟩

theorem boundTtl_eq_zero_iff (hkey : rec.flags &&& (fDnskey ||| fDs) = 0) :
    c.boundTtl rec = 0 ↔ rec.ttl = 0 ∧ c.minCacheTtl = 0 := by
  have hmax : ∀ bound ttl : UInt32, (if bound != 0 && bound < ttl then bound else ttl) = 0
    ↔ ttl = 0 := by
    intro bound ttl
    split_ifs with hbound
    · rw [Bool.and_eq_true, bne_iff_ne, decide_eq_true_eq] at hbound
      refine iff_of_false hbound.1 ?_
      rintro rfl
      exact absurd hbound.2 UInt32.not_lt_zero
    · rfl
  have hmin : ∀ bound ttl : UInt32, (if bound != 0 && ttl < bound then bound else ttl) = 0
    ↔ ttl = 0 ∧ bound = 0 := by
    intro bound ttl
    by_cases hbound : bound = 0
    · simp [hbound]
    · rw [bne_iff_ne.mpr hbound]
      refine iff_of_false ?_ fun h => hbound h.2
      split_ifs with hlt
      · exact hbound
      · rintro rfl
        exact hlt (decide_eq_true (UInt32.pos_iff_ne_zero.mpr hbound))
  unfold boundTtl
  rw [hkey]
  rw [if_neg (by decide), hmin, hmax]

theorem recordIsExpired_renew (hplain : rec.Plain) (hlife : ¬(rec.ttl = 0 ∧ c.minCacheTtl = 0)) :
    recordIsExpired (c.renew now rec) now = false := by
  have hbound : c.boundTtl rec ≠ 0 := fun h => hlife ((boundTtl_eq_zero_iff hplain.noKey).mp h)
  have hpos : 0 < (c.boundTtl rec).toNat := by
    rw [Nat.pos_iff_ne_zero]
    exact fun h => hbound (UInt32.toNat_inj.mp h)
  have hsecs : 0 < fromSecs (c.boundTtl rec).toNat := Nat.mul_pos hpos (by decide)
  unfold renew recordIsExpired
  rw [hplain.isStatic, if_neg Bool.false_ne_true]
  rw [hplain.mortal, beq_self_eq_true, Bool.true_and, decide_eq_false_iff_not]
  exact Nat.not_le_of_lt (Nat.lt_add_of_pos_right hsecs)

variable [Lru M CacheKey CacheRecord]

/-! ### Staging -/

theorem eq_of_checkConflict (h : c.checkConflict rec = .ok (.new r)) : r = rec := by
  unfold checkConflict at h
  repeat' split at h
  all_goals cases h
  all_goals rfl

theorem eq_of_prepareInsert (h : c.prepareInsert rec now = .ok (.new r)) :
    r = { rec with ttl := r.ttl, expires := r.expires } := by
  unfold prepareInsert at h
  dsimp only at h
  split_ifs at h with hstatic hzero
  all_goals rw [eq_of_checkConflict h]

theorem prepareInsert_ne_sameAddr (haddr : rec.addr = none) :
    c.prepareInsert rec now ≠ .ok (.sameAddr r) := by
  have hcheck : ∀ r' : CacheRecord, r'.addr = none → c.checkConflict r' ≠ .ok (.sameAddr r) := by
    intro r' hr' h
    unfold checkConflict at h
    rw [hr'] at h
    split at h
    · next existing _ =>
      have hsame : sameAddress existing.addr none = false := by
        unfold sameAddress
        split <;> simp_all
      rw [hsame, if_neg Bool.false_ne_true] at h
      split_ifs at h
      cases h
    · split_ifs at h
      cases h
  unfold prepareInsert
  split_ifs
  · exact hcheck rec haddr
  · dsimp only
    split_ifs
    · nofun
    · exact hcheck _ haddr

/-- What staging a record does: it appends the record with a new lifetime, or leaves the chain. -/
theorem stageInsert_cases (c : DnsCache M) (rec : CacheRecord) (now : Instant) :
    (∃ ttl expires, c.prepareInsert rec now = .ok (.new { rec with ttl, expires })
      ∧ c.insertError = false
      ∧ (c.stageInsert rec now).1 = { c with
        newChain := c.newChain ++ [{ rec with ttl, expires }] })
      ∨ ∃ e, (c.stageInsert rec now).1 = { c with insertError := e } := by
  unfold stageInsert
  split_ifs with herror
  · exact .inr ⟨c.insertError, rfl⟩
  · cases hprep : c.prepareInsert rec now with
    | error outcome => exact .inr ⟨true, rfl⟩
    | ok prepared =>
      cases prepared with
      | sameAddr r => exact .inr ⟨c.insertError, rfl⟩
      | new r =>
        refine .inl ⟨r.ttl, r.expires, ?_, by simpa using herror, ?_⟩
        all_goals rw [← eq_of_prepareInsert hprep]

/-- All records of a reply staged in turn. -/
def stageAll (c : DnsCache M) (staged : List CacheRecord) (now : Instant) : DnsCache M :=
  staged.foldl (fun cache rec => (cache.stageInsert rec now).1) c

theorem stageAll_cons (c : DnsCache M) (rec : CacheRecord) (staged : List CacheRecord)
    (now : Instant) :
    c.stageAll (rec :: staged) now = (c.stageInsert rec now).1.stageAll staged now :=
  rfl

variable {staged : List CacheRecord}

theorem stageAll_of_takes
    (htakes : ∀ rec ∈ staged, c.prepareInsert rec now = .ok (.new (c.renew now rec)))
    (herror : c.insertError = false) :
    c.stageAll staged now = { c with newChain := c.newChain ++ staged.map (c.renew now) } := by
  induction staged generalizing c with
  | nil =>
    rw [map_nil, append_nil]
    rfl
  | cons rec staged ih =>
    rw [forall_mem_cons] at htakes
    have hstage :
        (c.stageInsert rec now).1 = { c with newChain := c.newChain ++ [c.renew now rec] } := by
      rw [stageInsert, herror, htakes.1]
      rfl
    -- what was staged has no part in what the cache takes
    have hnext : ∀ r ∈ staged,
      ({ c with newChain := c.newChain ++ [c.renew now rec] } : DnsCache M).prepareInsert
        r now = .ok (.new (c.renew now r)) := htakes.2
    rw [stageAll_cons, hstage, ih hnext herror, append_assoc]
    rfl

theorem insertError_stageAll (h : c.insertError) (staged : List CacheRecord) :
    (c.stageAll staged now).insertError := by
  induction staged with
  | nil => exact h
  | cons rec staged ih =>
    have hstage : (c.stageInsert rec now).1 = c := by rw [stageInsert, if_pos h]
    rw [stageAll_cons, hstage]
    exact ih

theorem insertError_of_refused (hrec : rec ∈ staged)
    (h : c.prepareInsert rec now = .error outcome) :
    (c.stageAll staged now).insertError := by
  induction staged generalizing c with
  | nil => cases hrec
  | cons r staged ih =>
    rw [stageAll_cons]
    rcases mem_cons.mp hrec with rfl | hrest
    · refine insertError_stageAll ?_ staged
      unfold stageInsert
      split_ifs with herror
      · exact herror
      · rw [h]
    · refine ih hrest ?_
      rcases stageInsert_cases c r now with ⟨ttl, expires, -, -, heq⟩ | ⟨e, heq⟩
      all_goals
        rw [heq]
        exact h

section

variable (c : DnsCache M) (staged : List CacheRecord) (now : Instant)

theorem records_stageAll :
    (c.stageAll staged now).records = c.records := by
  induction staged generalizing c with
  | nil => rfl
  | cons rec staged ih =>
    rw [stageAll_cons, ih]
    rcases stageInsert_cases c rec now with ⟨ttl, expires, -, -, h⟩ | ⟨e, h⟩ <;> rw [h]

/-! ### Committing -/

/-- One turn of the loop of `end_insert`. -/
def commitStep (rec : CacheRecord) : DnsCache M :=
  if c.isOutdatedCnamePointer rec then c else c.insert rec

theorem fst_commit : (c.commit staged).1 = staged.foldl commitStep c := by
  have hpair : ∀ (n : ℕ), (staged.foldl (fun p rec =>
      if p.1.isOutdatedCnamePointer rec then p else (p.1.insert rec, p.2 + 1)) (c, n)).1
        = staged.foldl commitStep c := by
    induction staged generalizing c with
    | nil => exact fun n => rfl
    | cons rec staged ih =>
      intro n
      rw [foldl_cons, foldl_cons, commitStep]
      dsimp only
      split_ifs
      · exact ih c n
      · exact ih (c.insert rec) (n + 1)
  exact hpair 0

/-- The whole transaction. -/
def transact : DnsCache M :=
  (c.startInsert.stageAll staged now).endInsert.1

end

theorem isOutdatedCnamePointer_eq_false (h : rec.NamePtr) :
    c.isOutdatedCnamePointer rec = false := by
  unfold isOutdatedCnamePointer
  split
  · next target haddr => rw [h target haddr, Bool.not_true, Bool.false_and, Bool.and_false]
  · rw [Bool.and_false]

/-- The records that a transaction writes: all that were staged, or none after an error. -/
def committed (c : DnsCache M) (staged : List CacheRecord) (now : Instant) : List CacheRecord :=
  if (c.startInsert.stageAll staged now).insertError then []
  else (c.startInsert.stageAll staged now).newChain

theorem prepareInsert_of_mem_stageAll (h : r ∈ (c.stageAll staged now).newChain) :
    r ∈ c.newChain ∨ ∃ rec ∈ staged, c.prepareInsert rec now = .ok (.new r) := by
  induction staged generalizing c with
  | nil => exact .inl h
  | cons rec staged ih =>
    rw [stageAll_cons] at h
    rcases stageInsert_cases c rec now with ⟨ttl, expires, hprep, -, heq⟩ | ⟨e, heq⟩
    · rw [heq] at h
      -- what was staged has no part in preparing the rest
      rcases ih h with hmem | ⟨rec', hrec', hprep'⟩
      · rcases mem_append.mp hmem with hold | hnew
        · exact .inl hold
        · obtain rfl := mem_singleton.mp hnew
          exact .inr ⟨rec, mem_cons_self, hprep⟩
      · exact .inr ⟨rec', mem_cons_of_mem _ hrec', hprep'⟩
    · rw [heq] at h
      rcases ih h with hold | ⟨rec', hrec', hprep'⟩
      · exact .inl hold
      · exact .inr ⟨rec', mem_cons_of_mem _ hrec', hprep'⟩

theorem mem_stageAll (h : r ∈ (c.stageAll staged now).newChain) :
    r ∈ c.newChain ∨ ∃ rec ∈ staged, r = { rec with ttl := r.ttl, expires := r.expires } := by
  rcases prepareInsert_of_mem_stageAll h with hold | ⟨rec, hrec, hprep⟩
  · exact .inl hold
  · exact .inr ⟨rec, hrec, eq_of_prepareInsert hprep⟩

theorem mem_committed (h : r ∈ c.committed staged now) :
    ∃ rec ∈ staged, r = { rec with ttl := r.ttl, expires := r.expires } := by
  unfold committed at h
  split_ifs at h
  · cases h
  · exact (mem_stageAll h).resolve_left not_mem_nil

theorem length_stageAll_le (c : DnsCache M) (staged : List CacheRecord) (now : Instant) :
    (c.stageAll staged now).newChain.length ≤ c.newChain.length + staged.length := by
  induction staged generalizing c with
  | nil => exact Nat.le_refl _
  | cons rec staged ih =>
    have hrest := ih (c.stageInsert rec now).1
    rw [stageAll_cons, length_cons]
    rcases stageInsert_cases c rec now with ⟨ttl, expires, -, -, heq⟩ | ⟨e, heq⟩
    · rw [heq] at hrest ⊢
      rw [length_append, length_singleton] at hrest
      omega
    · rw [heq] at hrest ⊢
      exact Nat.le_trans hrest (by simp)

theorem length_committed_le : (c.committed staged now).length ≤ staged.length := by
  have hlen := length_stageAll_le c.startInsert staged now
  unfold committed
  split_ifs
  · exact Nat.zero_le _
  · exact Nat.le_trans hlen (Nat.zero_add _).le

theorem stageAll_eq (c : DnsCache M) (staged : List CacheRecord) (now : Instant) :
    ∃ chain e, c.stageAll staged now = { c with newChain := chain, insertError := e } := by
  induction staged generalizing c with
  | nil => exact ⟨c.newChain, c.insertError, rfl⟩
  | cons rec staged ih =>
    rw [stageAll_cons]
    obtain ⟨chain, e, h⟩ := ih (c.stageInsert rec now).1
    rw [h]
    rcases stageInsert_cases c rec now with ⟨ttl, expires, -, -, hstage⟩ | ⟨e', hstage⟩
    all_goals
      rw [hstage]
      exact ⟨chain, e, rfl⟩

theorem foldl_commitStep_eq {chain : List CacheRecord} (hptr : ∀ r ∈ chain, r.NamePtr) :
    chain.foldl commitStep c = chain.foldl insert c := by
  induction chain generalizing c with
  | nil => rfl
  | cons r chain ih =>
    rw [forall_mem_cons] at hptr
    rw [foldl_cons, foldl_cons, ih hptr.2, commitStep,
      isOutdatedCnamePointer_eq_false hptr.1, if_neg Bool.false_ne_true]

theorem transact_eq_foldl_insert (hptr : ∀ rec ∈ staged, rec.NamePtr) :
    c.transact staged now = (c.committed staged now).foldl insert c.startInsert := by
  have hchain : ∀ r ∈ c.committed staged now, r.NamePtr := by
    intro r hr
    obtain ⟨rec, hrec, heq⟩ := mem_committed hr
    rw [heq]
    exact hptr rec hrec
  rw [← foldl_commitStep_eq hchain]
  obtain ⟨chain, e, hstage⟩ := stageAll_eq c.startInsert staged now
  unfold transact committed endInsert
  rw [hstage]
  cases e with
  | true => rfl
  | false =>
    exact fst_commit _ _

/-! ### Records of a reply -/

/-- Where no static record is in the way, a record of a reply is refused for its TTL only. -/
theorem prepareInsert_of_plain (hplain : rec.Plain) (hsize : c.maxSize ≠ 0)
    (hfree : ∀ r, peek c.records rec.key = some r → r.isStatic = false) : c.prepareInsert rec now
      = if rec.ttl = 0 ∧ c.minCacheTtl = 0 then .error .zeroTtlDropped
        else .ok (.new (c.renew now rec)) := by
  have hcheck : ∀ r : CacheRecord, r.key = rec.key → c.checkConflict r = .ok (.new r) := by
    intro r hkey
    unfold checkConflict
    rw [hkey]
    cases hpeek : peek c.records rec.key with
    | none => exact if_neg hsize
    | some existing =>
      dsimp only
      rw [hfree existing hpeek, Bool.false_and, if_neg Bool.false_ne_true, if_neg hsize]
  unfold prepareInsert renew
  simp only [hplain.isStatic, Bool.false_eq_true, if_false, and_iff_left hplain.mortal]
  by_cases hzero : c.boundTtl rec = 0
  · rw [if_pos hzero, if_pos ((boundTtl_eq_zero_iff hplain.noKey).mp hzero)]
  · rw [if_neg hzero, if_neg fun h => hzero ((boundTtl_eq_zero_iff hplain.noKey).mpr h)]
    exact hcheck _ rfl

theorem renew_of_prepareInsert (hplain : rec.Plain) (h : c.prepareInsert rec now = .ok (.new r)) :
    r = c.renew now rec ∧ ¬(rec.ttl = 0 ∧ c.minCacheTtl = 0) ∧ c.maxSize ≠ 0 := by
  unfold prepareInsert at h
  rw [hplain.isStatic, if_neg Bool.false_ne_true] at h
  simp only [and_iff_left hplain.mortal] at h
  split_ifs at h with hzero
  refine ⟨?_, fun hlife => hzero ((boundTtl_eq_zero_iff hplain.noKey).mpr hlife), fun hsize => ?_⟩
  · rw [eq_of_checkConflict h, renew, hplain.isStatic, if_neg Bool.false_ne_true]
  · unfold checkConflict at h
    repeat' split at h
    all_goals cases h

theorem mem_committed_of_plain (hplain : ∀ rec ∈ staged, rec.Plain)
    (h : r ∈ c.committed staged now) :
    c.maxSize ≠ 0 ∧ ∃ rec ∈ staged, r = c.renew now rec ∧ ¬(rec.ttl = 0 ∧ c.minCacheTtl = 0) := by
  unfold committed at h
  split_ifs at h
  · cases h
  · obtain ⟨rec, hrec, hprep⟩ := (prepareInsert_of_mem_stageAll h).resolve_left not_mem_nil
    obtain ⟨heq, hlife, hsize⟩ := renew_of_prepareInsert (hplain rec hrec) hprep
    exact ⟨hsize, rec, hrec, heq, hlife⟩

/-- A record of a reply that has no address is staged, or spoils the batch. -/
theorem stageInsert_of_addr_none (hplain : rec.Plain) (haddr : rec.addr = none) (c : DnsCache M) :
    (c.stageInsert rec now).1.insertError
      ∨ (c.stageInsert rec now).1 = { c with newChain := c.newChain ++ [c.renew now rec] } := by
  unfold stageInsert
  split_ifs with herror
  · exact .inl herror
  · cases hprep : c.prepareInsert rec now with
    | error outcome => exact .inl rfl
    | ok prepared =>
      cases prepared with
      | new r =>
        obtain ⟨rfl, -⟩ := renew_of_prepareInsert hplain hprep
        exact .inr rfl
      | sameAddr r => exact absurd hprep (prepareInsert_ne_sameAddr haddr)

/-- If anything of a batch is written and its last record has no address, that record is written
last. -/
theorem committed_concat (hplain : rec.Plain) (haddr : rec.addr = none)
    (hne : c.committed (staged ++ [rec]) now ≠ []) :
    ∃ front, c.committed (staged ++ [rec]) now = front ++ [c.renew now rec] := by
  have hlast : c.startInsert.stageAll (staged ++ [rec]) now
      = ((c.startInsert.stageAll staged now).stageInsert rec now).1 := by
    rw [stageAll, foldl_append]
    rfl
  unfold committed at hne ⊢
  rw [hlast] at hne ⊢
  rcases stageInsert_of_addr_none hplain haddr (c.startInsert.stageAll staged now) with herror
    | hstaged
  · exact absurd (if_pos herror) hne
  · rw [hstaged] at hne ⊢
    rw [if_neg fun herror => hne (if_pos herror)]
    obtain ⟨chain, e, hfront⟩ := stageAll_eq c.startInsert staged now
    rw [hfront]
    exact ⟨chain, rfl⟩

/-- Where no static record is in the way, the records of a reply are all written or, for a TTL of
zero, none. -/
theorem committed_of_plain (hplain : ∀ rec ∈ staged, rec.Plain) (hsize : c.maxSize ≠ 0)
    (hfree : ∀ rec ∈ staged, ∀ r, peek c.records rec.key = some r → r.isStatic = false) :
    ((∃ rec ∈ staged, rec.ttl = 0 ∧ c.minCacheTtl = 0) → c.committed staged now = []) ∧
      ((¬∃ rec ∈ staged, rec.ttl = 0 ∧ c.minCacheTtl = 0) →
        c.committed staged now = staged.map (c.renew now)) := by
  have hprepare : ∀ rec ∈ staged, c.startInsert.prepareInsert rec now
      = if rec.ttl = 0 ∧ c.minCacheTtl = 0 then .error .zeroTtlDropped
        else .ok (.new (c.renew now rec)) :=
    fun rec hrec => prepareInsert_of_plain (hplain rec hrec) hsize (hfree rec hrec)
  constructor
  · rintro ⟨rec, hrec, hzero⟩
    have hrefused : c.startInsert.prepareInsert rec now = .error .zeroTtlDropped := by
      rw [hprepare rec hrec, if_pos hzero]
    rw [committed, if_pos (insertError_of_refused hrec hrefused)]
  · intro hnone
    have htakes :
        ∀ rec ∈ staged, c.startInsert.prepareInsert rec now
          = .ok (.new (c.startInsert.renew now rec)) := by
      intro rec hrec
      rw [hprepare rec hrec, if_neg fun hzero => hnone ⟨rec, hrec, hzero⟩]
      rfl
    rw [committed, stageAll_of_takes htakes rfl]
    rfl

/-! ### The records after a transaction -/

variable [LawfulLru M CacheKey CacheRecord] {p : CacheKey → Prop}

theorem onlySets_insert (hp : p rec.key) : OnlySets p c.records (c.insert rec).records := by
  unfold insert
  by_cases hsize : c.maxSize = 0
  · rw [if_pos hsize]
    exact .refl _
  · rw [if_neg hsize]
    exact .put hp _ _

theorem onlySets_commitStep (hp : p rec.key) (c : DnsCache M) :
    OnlySets p c.records (c.commitStep rec).records := by
  unfold commitStep
  split_ifs with houtdated
  · exact .refl _
  · exact onlySets_insert hp

theorem onlySets_commit (staged : List CacheRecord) (hp : ∀ rec ∈ staged, p rec.key)
    (c : DnsCache M) : OnlySets p c.records (c.commit staged).1.records := by
  rw [fst_commit]
  induction staged generalizing c with
  | nil => exact .refl _
  | cons rec staged ih =>
    rw [forall_mem_cons] at hp
    exact (onlySets_commitStep hp.1 c).trans (ih hp.2 _)

theorem onlySets_transact (hp : ∀ rec ∈ staged, p rec.key) :
    OnlySets p c.records (c.transact staged now).records := by
  have hrecords : (c.startInsert.stageAll staged now).records = c.records :=
    records_stageAll c.startInsert staged now
  unfold transact endInsert
  split_ifs with herror
  · show OnlySets p c.records (c.startInsert.stageAll staged now).records
    rw [hrecords]
    exact .refl _
  · have hchain : ∀ r ∈ (c.startInsert.stageAll staged now).newChain, p r.key := by
      intro r hr
      rcases mem_stageAll hr with hold | ⟨rec, hrec, heq⟩
      · cases hold
      · rw [heq]
        exact hp rec hrec
    have hcommit := onlySets_commit _ hchain
      { c.startInsert.stageAll staged now with newChain := [] }
    rwa [show ({ c.startInsert.stageAll staged now with newChain := [] } : DnsCache M).records
      = c.records from hrecords] at hcommit

end DnsCache

end DnsmasqRs.Cache
