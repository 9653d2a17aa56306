import DnsmasqRs.Equiv.Cache

/-!
# The records of a cache

Every cache is `Valid`: a record is stored under its own key.  Dropping the records with a property
leaves the others (`entries_dropKeys_keysWhere`), so `lookup_all_by_name` returns the live forward
records of the name, whatever their keys (`lookupAllByName_snd`).  Records written where there is
room leave all entries alone that do not share a key with them (`filter_entries_foldl_insert`).
-/

namespace DnsmasqRs.Cache

open Lru Utf8 List Option

namespace DnsCache

variable {M : Type} [Lru M CacheKey CacheRecord] {c : DnsCache M} {rec : CacheRecord}
  {now : Instant}

/-- What holds of every cache that its operations can build. -/
structure Valid (c : DnsCache M) : Prop where
  keyed : ∀ k r, peek c.records k = some r → k = r.key
  capacity : capacity c.records = max c.maxSize 1

theorem records_insert (hsize : c.maxSize ≠ 0) :
    (c.insert rec).records = put c.records rec.key rec := by
  rw [insert, if_neg hsize]

theorem maxSize_insert : (c.insert rec).maxSize = c.maxSize := by
  unfold insert
  split_ifs <;> rfl

section

variable (c : DnsCache M) (key : CacheKey) (name : Str) (bits : UInt32) (now : Instant)

/-- The live forward records of a name with one of the type bits. -/
def answering : List CacheRecord :=
  ((entries c.records).map Prod.snd).filter fun rec =>
    !recordIsExpired rec now && answersName name bits rec

/-- The same without the record of one key. -/
def answeringExcept : List CacheRecord :=
  (((entries c.records).filter fun e => e.1 ≠ key).map Prod.snd).filter fun rec =>
    !recordIsExpired rec now && answersName name bits rec

/-- The live record of a key. -/
def live : Option CacheRecord :=
  (peek c.records key).filter fun rec => !recordIsExpired rec now

end

theorem live_eq_some : c.live key now = some rec
    ↔ peek c.records key = some rec ∧ recordIsExpired rec now = false := by
  rw [live, filter_eq_some_iff, Bool.not_eq_true']

/-- The record is expired at the time. -/
abbrev Expired (now : Instant) (rec : CacheRecord) : Prop := recordIsExpired rec now

/-- What was lost had expired. -/
theorem live_of_onlyDrops {c' : DnsCache M} (h : OnlyDrops (Expired now) c.records c'.records)
    (key : CacheKey) : c'.live key now = c.live key now := by
  unfold live
  rcases h key with heq | ⟨hnone, v, hv, hexpired⟩
  · rw [heq]
  · rw [hnone, hv, filter_none, filter_some, if_neg]
    rw [show recordIsExpired v now from hexpired]
    exact Bool.false_ne_true

theorem keyed_of_onlyDrops {c' : DnsCache M} {q : CacheRecord → Prop}
    (h : OnlyDrops q c.records c'.records) (hkeyed : ∀ k r, peek c.records k = some r → k = r.key) :
    ∀ k r, peek c'.records k = some r → k = r.key :=
  fun k r hpeek => hkeyed k r (h.peek_eq_some hpeek)

theorem and_eq_of_live (hkeyed : ∀ k r, peek c.records k = some r → k = r.key)
    (hrec : c.live key now = some rec) (hb : typeMask &&& b = b) :
    rec.flags &&& b = key.flags &&& b := by
  rw [hkeyed key rec (live_eq_some.mp hrec).1]
  show _ = typeFlags rec.flags &&& b
  rw [typeFlags, UInt32.and_assoc, hb]

theorem Valid.startInsert (h : c.Valid) : c.startInsert.Valid := ⟨h.keyed, h.capacity⟩

section Lawful

variable [LawfulLru M CacheKey CacheRecord]

theorem Valid.insert (h : c.Valid) (rec : CacheRecord) : (c.insert rec).Valid := by
  by_cases hsize : c.maxSize = 0
  · rw [DnsCache.insert, if_pos hsize]
    exact h
  · refine ⟨fun k r hpeek => ?_, ?_⟩
    · rw [records_insert hsize] at hpeek
      by_cases hk : k = rec.key
      · rw [hk, LawfulLru.peek_put_self] at hpeek
        cases hpeek
        exact hk
      · rcases LawfulLru.peek_put_of_ne c.records rec.key rec k hk with heq | ⟨hnone, -⟩
        · rw [heq] at hpeek
          exact h.keyed k r hpeek
        · rw [hnone] at hpeek
          cases hpeek
    · rw [records_insert hsize, LawfulLru.capacity_put, maxSize_insert]
      exact h.capacity

theorem Valid.foldl_insert (h : c.Valid) (recs : List CacheRecord) :
    (recs.foldl DnsCache.insert c).Valid :=
  foldlRecOn recs _ h fun _ hc rec _ => hc.insert rec

theorem mem_of_peek_foldl_insert {recs : List CacheRecord} {key : CacheKey}
    (h : peek (recs.foldl DnsCache.insert c).records key = some rec) :
    peek c.records key = some rec ∨ rec ∈ recs := by
  induction recs generalizing c with
  | nil => exact .inl h
  | cons r recs ih =>
    rcases ih h with hold | hmem
    · by_cases hsize : c.maxSize = 0
      · rw [DnsCache.insert, if_pos hsize] at hold
        exact .inl hold
      · rw [records_insert hsize] at hold
        by_cases hkey : key = r.key
        · rw [hkey, LawfulLru.peek_put_self] at hold
          exact .inr (mem_cons.mpr (.inl (some.inj hold).symm))
        · rcases LawfulLru.peek_put_of_ne c.records r.key r key hkey with heq | ⟨hnone, -⟩
          · exact .inl (heq ▸ hold)
          · rw [hnone] at hold
            cases hold
    · exact .inr (mem_cons_of_mem r hmem)

theorem live_of_committed (hplain : ∀ rec ∈ staged, rec.Plain)
    (h : c.committed staged now = front ++ [rec]) :
    ((c.committed staged now).foldl DnsCache.insert c.startInsert).live rec.key now = some rec := by
  have hmem : rec ∈ c.committed staged now := by
    rw [h]
    exact mem_append_right _ (mem_singleton.mpr rfl)
  obtain ⟨hsize, rec', hrec', heq, hlife⟩ := mem_committed_of_plain hplain hmem
  have hsizes :
      ∀ (recs : List CacheRecord) (c : DnsCache M), (recs.foldl DnsCache.insert c).maxSize
        = c.maxSize := by
    intro recs
    induction recs with
    | nil => exact fun c => rfl
    | cons r recs ih => exact fun c => (ih _).trans (maxSize_insert)
  rw [live_eq_some, h, foldl_append]
  constructor
  · show peek (DnsCache.insert _ rec).records rec.key = some rec
    rw [records_insert ((hsizes front c.startInsert).trans_ne hsize), LawfulLru.peek_put_self]
  · rw [heq]
    exact recordIsExpired_renew (hplain rec' hrec') hlife

theorem Valid.key_of_mem (h : c.Valid) (he : e ∈ entries c.records) : e.1 = e.2.key :=
  h.keyed e.1 e.2 ((LawfulLru.mem_entries _ _ _).mp he)

/-! ### Lookups -/

section

variable (c : DnsCache M) (name : Str) (flags : UInt32) (now : Instant)

theorem onlyDrops_dropExpired (key : CacheKey) (now : Instant) :
    OnlyDrops (Expired now) c.records (c.dropExpired key now).records := by
  unfold dropExpired
  split_ifs with hexpired
  · refine .pop fun v hv => ?_
    rwa [hv, any_some] at hexpired
  · exact .refl _

theorem onlyDrops_lookupByName :
    OnlyDrops (Expired now) c.records (c.lookupByName name flags now).1.records := by
  have hdrop := onlyDrops_dropExpired c ⟨toLowercase name, typeFlags flags⟩ now
  unfold lookupByName
  dsimp only
  split
  · exact hdrop.trans (.touch _ _)
  · exact hdrop

theorem onlyDrops_lookupForward :
    OnlyDrops (Expired now) c.records (c.lookupForward name flags now).1.records := by
  have hpositive := onlyDrops_dropExpired c ⟨toLowercase name, typeFlags flags⟩ now
  have hnegative := onlyDrops_dropExpired (c.dropExpired ⟨toLowercase name, typeFlags flags⟩ now)
    ⟨toLowercase name, typeFlags flags ||| fNeg⟩ now
  unfold lookupForward
  dsimp only
  split
  · exact hpositive.trans (.touch _ _)
  · split
    · exact (hpositive.trans hnegative).trans (.touch _ _)
    · exact hpositive.trans hnegative

theorem onlyDrops_foldl_dropExpired (es : List (CacheKey × CacheRecord)) (now : Instant) :
    OnlyDrops (Expired now) c.records (es.foldl (fun c e => c.dropExpired e.1 now) c).records := by
  induction es generalizing c with
  | nil => exact .refl _
  | cons e es ih => exact (onlyDrops_dropExpired c e.1 now).trans (ih _)

theorem onlyDrops_lookupByAddr (addr : AllAddr) (now : Instant) :
    OnlyDrops (Expired now) c.records (c.lookupByAddr addr now).1.records := by
  have hdrop := onlyDrops_foldl_dropExpired c (entries c.records) now
  unfold lookupByAddr
  dsimp only
  split
  · exact hdrop.trans (.touch _ _)
  · exact hdrop

end

theorem onlyDrops_dropKeys (hq : ∀ rec, p rec → q rec) :
    OnlyDrops q c.records (c.dropKeys (c.keysWhere p) counted).records := by
  refine OnlyDrops.foldl_pop fun k hk v hv => ?_
  obtain ⟨⟨k', v'⟩, hmem, rfl⟩ := mem_map.mp hk
  rw [mem_filter, LawfulLru.mem_entries] at hmem
  rw [hv] at hmem
  obtain rfl := some.inj hmem.1
  exact hq v hmem.2

theorem onlyDrops_lookupAllByName :
    OnlyDrops (Expired now) c.records (c.lookupAllByName name protMask now).1.records := by
  have hdrop :
      OnlyDrops (Expired now) c.records
        (c.dropKeys (c.keysWhere (recordIsExpired · now)) true).records :=
    onlyDrops_dropKeys (fun _ => id)
  unfold lookupAllByName countLookup
  dsimp only
  split_ifs <;> exact hdrop

theorem onlyDrops_lookupAllByAddr :
    OnlyDrops (Expired now) c.records (c.lookupAllByAddr addr protMask now).1.records := by
  have hdrop : OnlyDrops (Expired now) c.records
      (c.dropKeys (c.keysWhere fun rec => rec.flags &&& fReverse != 0
        && recordIsExpired rec now) true).records :=
    onlyDrops_dropKeys (fun _ h => (Bool.and_eq_true_iff.mp h).2)
  unfold lookupAllByAddr countLookup
  dsimp only
  split_ifs <;> exact hdrop

/-! ### Live records -/

theorem peek_dropExpired : peek (c.dropExpired key now).records key = c.live key now := by
  unfold dropExpired live
  cases hpeek : peek c.records key with
  | none =>
    rw [any_none, if_neg Bool.false_ne_true, hpeek, filter_none]
  | some rec =>
    rw [any_some, filter_some]
    cases hexpired : recordIsExpired rec now with
    | true => rw [if_pos rfl, if_neg (by simp), LawfulLru.peek_pop, if_pos rfl]
    | false => rw [if_neg Bool.false_ne_true, if_pos (by simp), hpeek]

theorem lookupByName_snd :
    (c.lookupByName name flags now).2 = c.live ⟨toLowercase name, typeFlags flags⟩ now := by
  unfold lookupByName
  dsimp only
  rw [peek_dropExpired]
  cases c.live ⟨toLowercase name, typeFlags flags⟩ now with
  | none | some => rfl

theorem lookupForward_snd (c : DnsCache M) (name : Str) (flags : UInt32) (now : Instant) :
    (c.lookupForward name flags now).2 = (c.live ⟨toLowercase name, typeFlags flags⟩ now).or
      (c.live ⟨toLowercase name, typeFlags flags ||| fNeg⟩ now) := by
  unfold lookupForward
  dsimp only
  rw [peek_dropExpired]
  cases c.live ⟨toLowercase name, typeFlags flags⟩ now with
  | some rec => rfl
  | none =>
    rw [peek_dropExpired, live_of_onlyDrops (onlyDrops_dropExpired c _ now)]
    cases c.live ⟨toLowercase name, typeFlags flags ||| fNeg⟩ now with
    | none | some => rfl

theorem cacheFindNonTerminal_of_onlyDrops {c' : DnsCache M}
    (h : OnlyDrops (Expired now) c.records c'.records) :
    c'.cacheFindNonTerminal name now = c.cacheFindNonTerminal name now := by
  unfold cacheFindNonTerminal
  rw [Bool.eq_iff_iff, List.any_eq_true, List.any_eq_true]
  constructor
  · rintro ⟨⟨k, rec⟩, hmem, hrec⟩
    rw [LawfulLru.mem_entries] at hmem
    exact ⟨(k, rec), (LawfulLru.mem_entries _ _ _).mpr (h.peek_eq_some hmem), hrec⟩
  · rintro ⟨⟨k, rec⟩, hmem, hrec⟩
    rw [LawfulLru.mem_entries] at hmem
    refine ⟨(k, rec), (LawfulLru.mem_entries _ _ _).mpr (h.keep hmem fun hexpired => ?_), hrec⟩
    dsimp only at hrec
    rw [show recordIsExpired rec now from hexpired] at hrec
    simp at hrec

end Lawful

variable [RecencyLru M CacheKey CacheRecord]

/-! ### Dropping -/

theorem entries_foldl_pop (keys : List CacheKey) (m : M) :
    entries (keys.foldl pop m) = (entries m).filter fun e => e.1 ∉ keys := by
  induction keys generalizing m with
  | nil => simp
  | cons key keys ih =>
    rw [List.foldl_cons, ih, RecencyLru.entries_pop]
    simp [Bool.and_comm]

/-- Of two entries with one key there is only one. -/
theorem mem_keysWhere_iff (he : e ∈ entries c.records) : e.1 ∈ c.keysWhere p ↔ p e.2 := by
  unfold keysWhere
  rw [List.mem_map]
  constructor
  · rintro ⟨⟨k, r⟩, hmem, hkey⟩
    rw [mem_filter] at hmem
    have hsame := (LawfulLru.mem_entries _ _ _).mp hmem.1
    rw [show k = e.1 from hkey, (LawfulLru.mem_entries _ e.1 e.2).mp he] at hsame
    rw [some_inj.mp hsame]
    exact hmem.2
  · intro hp
    exact ⟨e, mem_filter.mpr ⟨he, hp⟩, rfl⟩

theorem entries_dropKeys_keysWhere (c : DnsCache M) (p : CacheRecord → Bool) (counted : Bool) :
    entries (c.dropKeys (c.keysWhere p) counted).records = (entries c.records).filter fun e =>
      !p e.2 := by
  rw [show (c.dropKeys (c.keysWhere p) counted).records = (c.keysWhere p).foldl pop
    c.records from rfl, entries_foldl_pop]
  apply filter_congr
  intro e he
  rw [Bool.eq_iff_iff, decide_eq_true_eq, Bool.not_eq_true', mem_keysWhere_iff he, Bool.not_eq_true]

theorem map_snd_filter (l : List (K × V)) (p : V → Bool) :
    (l.filter fun e => p e.2).map Prod.snd = (l.map Prod.snd).filter p := by
  rw [List.filter_map]
  rfl

theorem lookupAllByName_snd (c : DnsCache M) (name : Str) (protMask : UInt32) (now : Instant) :
    (c.lookupAllByName name protMask now).2 = c.answering name (typeFlags protMask) now := by
  unfold lookupAllByName answering
  dsimp only
  rw [entries_dropKeys_keysWhere, map_snd_filter _ fun rec => !recordIsExpired rec now,
    List.filter_filter]
  congr 1
  ext rec
  rw [Bool.and_comm]

/-! ### Writing where there is room -/

/-- There is room for a number of records. -/
def RoomFor (c : DnsCache M) (n : ℕ) : Prop := (entries c.records).length + n ≤ c.maxSize

theorem entries_insert_of_room (hvalid : c.Valid) (hroom : c.RoomFor (n + 1)) :
    entries (c.insert rec).records = (rec.key, rec) :: (entries c.records).filter fun e =>
      e.1 ≠ rec.key := by
  unfold RoomFor at hroom
  have hcap := hvalid.capacity
  rw [records_insert (by omega), entries_put_of_room (by omega)]

theorem RoomFor.insert (hvalid : c.Valid) (hroom : c.RoomFor (n + 1)) (rec : CacheRecord) :
    (c.insert rec).RoomFor n := by
  have hlen := length_filter_le (fun e => decide (e.1 ≠ rec.key)) (entries c.records)
  rw [RoomFor, entries_insert_of_room hvalid hroom, maxSize_insert, length_cons]
  unfold RoomFor at hroom
  omega

theorem filter_entries_foldl_insert {recs : List CacheRecord} (hvalid : c.Valid)
    (hroom : c.RoomFor recs.length) {p : CacheKey × CacheRecord → Bool}
    (hp : ∀ r ∈ recs, ∀ r', r'.key = r.key → p (r.key, r') = false) :
    (entries (recs.foldl insert c).records).filter p = (entries c.records).filter p := by
  induction recs generalizing c with
  | nil => rfl
  | cons rec recs ih =>
    rw [forall_mem_cons] at hp
    have hold : ∀ e ∈ entries c.records, p e → e.1 ≠ rec.key := by
      intro e he hpe hkey
      rw [← Prod.eta e, hkey, hp.1 e.2 ((hvalid.key_of_mem he).symm.trans hkey)] at hpe
      cases hpe
    rw [foldl_cons, ih (hvalid.insert rec) (hroom.insert hvalid rec) hp.2,
      entries_insert_of_room hvalid hroom, filter_cons_of_neg (by simp [hp.1 rec rfl]),
      List.filter_filter]
    apply filter_congr
    intro e he
    by_cases hpe : p e
    · rw [hpe, Bool.true_and, decide_eq_true_eq]
      exact hold e he hpe
    · rw [Bool.not_eq_true] at hpe
      rw [hpe, Bool.false_and]

theorem RoomFor.foldl_insert (hvalid : c.Valid) (recs : List CacheRecord)
    (hroom : c.RoomFor (recs.length + n)) : (recs.foldl DnsCache.insert c).RoomFor n := by
  induction recs generalizing c with
  | nil => rwa [length_nil, Nat.zero_add] at hroom
  | cons rec recs ih =>
    rw [length_cons, Nat.add_right_comm] at hroom
    exact ih (hvalid.insert rec) (hroom.insert hvalid rec)

end DnsCache

end DnsmasqRs.Cache
