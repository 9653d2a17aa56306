import Mathlib.Data.List.Nodup

/-!
# Bounded maps that forget the least recently used entry

`Lru` is the interface of such a map and `LawfulLru` what is assumed of it: `put` sets its own key,
leaves every other key alone, or drops it if the map is full and the key is a new one; `get` only
changes the order of use; `pop` removes its own key.  Which entry is dropped is not said.

`RecencyLru` says more, for results that depend on it: the entries are listed from the most recently
used one to the least, and it is the last of them that is dropped.

`ListLru` is the map as the list of its entries, the most recently used one first.
-/

/-- The operations of an LRU map. -/
class Lru (M : Type) (K V : outParam Type) where
  capacity : M → ℕ
  entries : M → List (K × V)
  peek : M → K → Option V
  /-- The effect of `get` on the order of use; the value is that of `peek`. -/
  touch : M → K → M
  put : M → K → V → M
  pop : M → K → M

open Lru List Option

/-- What is assumed of an LRU map. -/
class LawfulLru (M : Type) (K V : outParam Type) [Lru M K V] [DecidableEq K] : Prop where
  mem_entries : ∀ (m : M) (k : K) (v : V), (k, v) ∈ entries m ↔ peek m k = some v
  peek_put_self : ∀ (m : M) (k : K) (v : V), peek (put m k v) k = some v
  peek_put_of_ne : ∀ (m : M) (k : K) (v : V) (k' : K), k' ≠ k → peek (put m k v) k' = peek m k'
      ∨ peek (put m k v) k' = none ∧ peek m k = none ∧ (entries m).length = capacity m
  capacity_put : ∀ (m : M) (k : K) (v : V), capacity (put m k v) = capacity m
  length_put : ∀ (m : M) (k : K) (v : V), (entries (put m k v)).length
    = if peek m k = none then min ((entries m).length + 1) (capacity m) else (entries m).length
  peek_touch : ∀ (m : M) (k k' : K), peek (touch m k) k' = peek m k'
  peek_pop : ∀ (m : M) (k k' : K), peek (pop m k) k' = if k' = k then none else peek m k'

namespace Lru

variable {M K V : Type} [Lru M K V]

/-- There is no room for a new key. -/
def Full (m : M) : Prop := (entries m).length = capacity m

/-- The keys without `p` are as before, or lost to a full map. -/
structure OnlySets (p : K → Prop) (m m' : M) : Prop where
  keep : ∀ k, ¬p k → peek m' k = peek m k ∨ peek m' k = none ∧ Full m'
  full : Full m → Full m'

variable {p : K → Prop}

theorem OnlySets.refl (m : M) : OnlySets p m m := ⟨fun _ _ => .inl rfl, id⟩

theorem OnlySets.trans {m₁ m₂ m₃ : M} (h₁₂ : OnlySets p m₁ m₂) (h₂₃ : OnlySets p m₂ m₃) :
    OnlySets p m₁ m₃ := by
  refine ⟨fun k hk => ?_, fun h => h₂₃.full (h₁₂.full h)⟩
  rcases h₂₃.keep k hk with heq | hlost
  · rw [heq]
    rcases h₁₂.keep k hk with h | ⟨hnone, hfull⟩
    · exact .inl h
    · exact .inr ⟨hnone, h₂₃.full hfull⟩
  · exact .inr hlost

variable [DecidableEq K] [LawfulLru M K V]

open LawfulLru

theorem full_put {m : M} (h : Full m) : Full (put m k v) := by
  unfold Full at h ⊢
  rw [length_put, capacity_put]
  split_ifs <;> omega

theorem OnlySets.put {k : K} (hk : p k) (m : M) (v : V) : OnlySets p m (put m k v) := by
  refine ⟨fun k' hk' => ?_, fun h => full_put h⟩
  have hne : k' ≠ k := by
    rintro rfl
    exact hk' hk
  rcases peek_put_of_ne m k v k' hne with heq | ⟨hnone, -, hfull⟩
  · exact .inl heq
  · exact .inr ⟨hnone, full_put hfull⟩

/-- Every key is as before, or its value had `p` and is lost. -/
def OnlyDrops (p : V → Prop) (m m' : M) : Prop :=
  ∀ k, peek m' k = peek m k ∨ peek m' k = none ∧ ∃ v, peek m k = some v ∧ p v

section OnlyDrops

variable {q : V → Prop} {m m₁ : M} {k : K} {v : V}

omit [DecidableEq K] [LawfulLru M K V] in
theorem OnlyDrops.refl (m : M) : OnlyDrops q m m := fun _ => .inl rfl

omit [DecidableEq K] [LawfulLru M K V] in
theorem OnlyDrops.trans (h : OnlyDrops q m m₁) (h₁ : OnlyDrops q m₁ m₂) : OnlyDrops q m m₂ := by
  intro k
  rcases h₁ k with heq | ⟨hnone, v, hv, hq⟩
  · rw [heq]
    exact h k
  · rcases h k with heq | ⟨hlost, -⟩
    · exact .inr ⟨hnone, v, heq ▸ hv, hq⟩
    · rw [hlost] at hv
      cases hv

omit [DecidableEq K] [LawfulLru M K V] in
theorem OnlyDrops.mono {p : V → Prop} (h : OnlyDrops p m m₁) (hq : ∀ v, p v → q v) :
    OnlyDrops q m m₁ := by
  intro k
  rcases h k with heq | ⟨hnone, v, hv, hp⟩
  · exact .inl heq
  · exact .inr ⟨hnone, v, hv, hq v hp⟩

omit [DecidableEq K] [LawfulLru M K V] in
theorem OnlyDrops.keep (h : OnlyDrops q m m₁) (hk : peek m k = some v) (hq : ¬q v) :
    peek m₁ k = some v := by
  rcases h k with heq | ⟨-, v', hv', hq'⟩
  · rw [heq, hk]
  · rw [hk] at hv'
    cases hv'
    exact absurd hq' hq

omit [DecidableEq K] [LawfulLru M K V] in
theorem OnlyDrops.peek_eq_some (h : OnlyDrops q m m₁) (hk : peek m₁ k = some v) :
    peek m k = some v := by
  rcases h k with heq | ⟨hnone, -⟩
  · rw [← heq, hk]
  · rw [hnone] at hk
    cases hk

theorem OnlyDrops.touch (m : M) (k : K) : OnlyDrops q m (touch m k) :=
  fun k' => .inl (peek_touch m k k')

theorem OnlyDrops.pop (hk : ∀ v, peek m k = some v → q v) : OnlyDrops q m (pop m k) := by
  intro k'
  rw [peek_pop]
  by_cases hne : k' = k
  · rw [if_pos hne, hne]
    cases hpeek : peek m k with
    | none => exact .inl rfl
    | some v => exact .inr ⟨rfl, v, rfl, hk v hpeek⟩
  · rw [if_neg hne]
    exact .inl rfl

theorem OnlyDrops.foldl_pop {keys : List K} (hkeys : ∀ k ∈ keys, ∀ v, peek m k = some v → q v) :
    OnlyDrops q m (keys.foldl Lru.pop m) := by
  induction keys generalizing m with
  | nil => exact .refl m
  | cons key keys ih =>
    rw [forall_mem_cons] at hkeys
    have hpop : OnlyDrops q m (Lru.pop m key) := .pop hkeys.1
    exact hpop.trans (ih fun k hk v hv => hkeys.2 k hk v (hpop.peek_eq_some hv))

end OnlyDrops

end Lru

/-- An LRU map that lists its entries in the order of use. -/
class RecencyLru (M : Type) (K V : outParam Type) [Lru M K V] [DecidableEq K] : Prop
    extends LawfulLru M K V where
  nodup_entries : ∀ m : M, ((entries m).map Prod.fst).Nodup
  length_le : ∀ m : M, (entries m).length ≤ capacity m
  capacity_pos : ∀ m : M, 0 < capacity m
  entries_put : ∀ (m : M) (k : K) (v : V), entries (put m k v)
    = ((k, v) :: (entries m).filter fun e => e.1 ≠ k).take (capacity m)
  entries_touch : ∀ (m : M) (k : K), entries (touch m k) = match peek m k with
      | none => entries m
      | some v => (k, v) :: (entries m).filter fun e => e.1 ≠ k
  entries_pop : ∀ (m : M) (k : K), entries (pop m k) = (entries m).filter fun e => e.1 ≠ k
  capacity_touch : ∀ (m : M) (k : K), capacity (touch m k) = capacity m
  capacity_pop : ∀ (m : M) (k : K), capacity (pop m k) = capacity m

namespace Lru

variable {M K V : Type} [Lru M K V] [DecidableEq K] [RecencyLru M K V] {m : M} {k k' : K} {v v' : V}

open LawfulLru RecencyLru

theorem entries_put_of_room (h : (entries m).length < capacity m) :
    entries (Lru.put m k v) = (k, v) :: (entries m).filter fun e => e.1 ≠ k := by
  rw [entries_put, take_of_length_le]
  have hfilter := length_filter_le (fun e : K × V => e.1 ≠ k) (entries m)
  rw [length_cons]
  omega

theorem filter_ne_of_peek_eq_none (h : peek m k = none) :
    ((entries m).filter fun e => e.1 ≠ k) = entries m := by
  rw [filter_eq_self]
  rintro ⟨k₀, v₀⟩ hmem
  rw [decide_eq_true_eq]
  rintro rfl
  rw [mem_entries, h] at hmem
  cases hmem

/-- A new key in a full map takes the place of the last one. -/
theorem entries_put_of_full (h : Full m) (hnone : peek m k = none) :
    entries (Lru.put m k v) = (k, v) :: (entries m).dropLast := by
  have hpos := capacity_pos m
  rw [entries_put, filter_ne_of_peek_eq_none hnone, ← h,
    ← Nat.succ_pred_eq_of_pos (show 0 < (entries m).length by rw [h]; exact hpos), take_succ_cons,
    dropLast_eq_take]
  rfl

/-- What setting one key means for the record of another: it stays unless it is the last one of a
full map and the key is new. -/
theorem peek_put_iff (hne : k' ≠ k) (hpeek : peek m k' = some v') :
    peek (Lru.put m k v) k' = some v' ↔
      ¬(peek m k = none ∧ Full m ∧ (entries m).getLast? = some (k', v')) := by
  have hmem : (k', v') ∈ entries m := (mem_entries m k' v').mpr hpeek
  by_cases hevict : peek m k = none ∧ Full m
  · obtain ⟨hnone, hfull⟩ := hevict
    rw [← mem_entries, entries_put_of_full hfull hnone, mem_cons,
      or_iff_right (by simp [hne]), and_iff_right hnone, and_iff_right hfull]
    have hnodup : (entries m).Nodup := (nodup_entries m).of_map
    rw [← dropLast_append_getLast (ne_nil_of_mem hmem), nodup_append] at hnodup
    rw [← dropLast_append_getLast (ne_nil_of_mem hmem), mem_append, mem_singleton] at hmem
    rw [getLast?_eq_some_getLast (ne_nil_of_mem ((mem_entries m k' v').mpr hpeek)), some_inj]
    constructor
    · intro hfront hlast
      exact hnodup.2.2 _ hfront _ (mem_singleton.mpr rfl) hlast.symm
    · intro hlast
      exact hmem.resolve_right fun heq => hlast heq.symm
  · have hkeep : peek (Lru.put m k v) k' = peek m k' := by
      rcases peek_put_of_ne m k v k' hne with heq | ⟨-, hnone, hfull⟩
      · exact heq
      · exact absurd ⟨hnone, hfull⟩ hevict
    rw [hkeep]
    exact iff_of_true hpeek fun h => hevict ⟨h.1, h.2.1⟩

end Lru

/-- An LRU map as the list of its entries. -/
structure ListLru (K V : Type) where
  capacity : ℕ
  entries : List (K × V)
  capacity_pos : 0 < capacity
  nodup : (entries.map Prod.fst).Nodup
  length_le : entries.length ≤ capacity

namespace ListLru

variable {K V : Type} [DecidableEq K] {l : List (K × V)} {k k' : K} {v v' : V}

/-- The entries without a key. -/
def without (l : List (K × V)) (k : K) : List (K × V) := l.filter fun e => e.1 ≠ k

def lookup (l : List (K × V)) (k : K) : Option V := (l.find? fun e => e.1 = k).map Prod.snd

theorem mem_without : (k', v) ∈ without l k ↔ (k', v) ∈ l ∧ k' ≠ k := by
  simp [without, mem_filter]

theorem lookup_eq_some (h : (l.map Prod.fst).Nodup) : lookup l k = some v ↔ (k, v) ∈ l := by
  induction l with
  | nil => simp [lookup]
  | cons e l ih =>
    obtain ⟨k₀, v₀⟩ := e
    rw [map_cons, nodup_cons] at h
    unfold lookup at ih ⊢
    by_cases hk : k₀ = k
    · subst hk
      rw [find?_cons_of_pos (by simp)]
      constructor
      · rintro ⟨⟩
        exact mem_cons_self
      · intro hmem
        rcases mem_cons.mp hmem with heq | hmem
        · cases heq
          rfl
        · exact absurd (mem_map_of_mem hmem) h.1
    · rw [find?_cons_of_neg (by simpa using hk), ih h.2, mem_cons]
      constructor
      · exact .inr
      · rintro (heq | hmem)
        · cases heq
          exact absurd rfl hk
        · exact hmem

theorem lookup_eq_none (h : (l.map Prod.fst).Nodup) : lookup l k = none ↔ without l k = l := by
  rw [eq_none_iff_forall_ne_some, without, filter_eq_self]
  constructor
  · rintro hnone ⟨k', v⟩ hmem
    have hne : k' ≠ k := by
      rintro rfl
      exact hnone v ((lookup_eq_some h).mpr hmem)
    simpa using hne
  · intro hall v hv
    have := hall _ ((lookup_eq_some h).mp hv)
    simp at this

theorem nodup_cons_without (h : (l.map Prod.fst).Nodup) :
    (((k, v) :: without l k).map Prod.fst).Nodup := by
  rw [map_cons, nodup_cons]
  constructor
  · intro hmem
    obtain ⟨⟨k', v'⟩, hmem, rfl⟩ := mem_map.mp hmem
    exact (mem_without.mp hmem).2 rfl
  · exact h.sublist (filter_sublist.map _)

theorem length_without (h : (l.map Prod.fst).Nodup) :
    (without l k).length + (if lookup l k = none then 0 else 1) = l.length := by
  induction l with
  | nil => rfl
  | cons e l ih =>
    obtain ⟨k₀, v₀⟩ := e
    have hcons := h
    rw [map_cons, nodup_cons] at h
    by_cases hk : k₀ = k
    · subst hk
      have hnone : lookup l k₀ = none := by
        rw [eq_none_iff_forall_ne_some]
        intro v hv
        have hmem := (lookup_eq_some h.2).mp hv
        exact h.1 (mem_map.mpr ⟨_, hmem, rfl⟩)
      have hsome : lookup ((k₀, v₀) :: l) k₀ = some v₀ := (lookup_eq_some hcons).mpr mem_cons_self
      have hwithout : without ((k₀, v₀) :: l) k₀ = without l k₀ := by simp [without]
      rw [hwithout, (lookup_eq_none h.2).mp hnone, hsome]
      rfl
    · have hlookup : lookup ((k₀, v₀) :: l) k = lookup l k := by simp [lookup, hk]
      have hwithout : without ((k₀, v₀) :: l) k = (k₀, v₀) :: without l k := by simp [without, hk]
      rw [hlookup, hwithout, length_cons, length_cons, ← ih h.2]
      omega

section

variable (m : ListLru K V) (k : K)

def put (v : V) : ListLru K V where
  capacity := m.capacity
  entries := ((k, v) :: without m.entries k).take m.capacity
  capacity_pos := m.capacity_pos
  nodup := (nodup_cons_without m.nodup).sublist ((take_sublist _ _).map _)
  length_le := length_take_le _ _

def pop : ListLru K V where
  capacity := m.capacity
  entries := without m.entries k
  capacity_pos := m.capacity_pos
  nodup := m.nodup.sublist (filter_sublist.map _)
  length_le := Nat.le_trans (length_filter_le _ _) m.length_le

def touch : ListLru K V :=
  match lookup m.entries k with
  | none => m
  | some v => m.put k v

theorem lookup_put_self (v : V) : lookup (m.put k v).entries k = some v := by
  rw [lookup_eq_some (m.put k v).nodup]
  obtain ⟨c, hc⟩ := Nat.exists_eq_succ_of_ne_zero (Nat.pos_iff_ne_zero.mp m.capacity_pos)
  show (k, v) ∈ ((k, v) :: without m.entries k).take m.capacity
  rw [hc]
  exact mem_cons_self

theorem length_cons_without (v : V) : ((k, v) :: without m.entries k).length
      = if lookup m.entries k = none then m.entries.length + 1 else m.entries.length := by
  have := length_without (k := k) m.nodup
  rw [length_cons]
  split_ifs at this ⊢ <;> omega

end

/-- Another key stays unless the map is full and `k` is new. -/
theorem lookup_put_of_ne (m : ListLru K V) (v : V) (hne : k' ≠ k) :
    lookup (m.put k v).entries k' = lookup m.entries k'
      ∨ lookup (m.put k v).entries k' = none ∧ lookup m.entries k = none
      ∧ m.entries.length = m.capacity := by
  have hcons : ∀ v', (k', v') ∈ (k, v) :: without m.entries k ↔ (k', v') ∈ m.entries := by
    intro v'
    rw [mem_cons, mem_without]
    constructor
    · rintro (heq | hmem)
      · cases heq
        exact absurd rfl hne
      · exact hmem.1
    · exact fun hmem => .inr ⟨hmem, hne⟩
  by_cases hroom : ((k, v) :: without m.entries k).length ≤ m.capacity
  · left
    have hentries : (m.put k v).entries = (k, v) :: without m.entries k := take_of_length_le hroom
    ext v'
    rw [lookup_eq_some (m.put k v).nodup, lookup_eq_some m.nodup, hentries]
    exact hcons v'
  · have hlen := length_cons_without m k v
    have hle := m.length_le
    have hnone : lookup m.entries k = none := by
      by_contra hsome
      rw [if_neg hsome] at hlen
      omega
    rw [if_pos hnone] at hlen
    cases hput : lookup (m.put k v).entries k' with
    | none => exact .inr ⟨rfl, hnone, by omega⟩
    | some v' =>
      left
      have hmem := mem_of_mem_take ((lookup_eq_some (m.put k v).nodup).mp hput)
      exact ((lookup_eq_some m.nodup).mpr ((hcons v').mp hmem)).symm

instance : Lru (ListLru K V) K V where
  capacity := capacity
  entries := entries
  peek m := lookup m.entries
  touch := touch
  put := put
  pop := pop

instance : LawfulLru (ListLru K V) K V where
  mem_entries m _ _ := (lookup_eq_some m.nodup).symm
  peek_put_self := lookup_put_self
  peek_put_of_ne m _ v _ hne := lookup_put_of_ne m v hne
  capacity_put _ _ _ := rfl
  length_put m k v := by
    have hlen := length_cons_without m k v
    have hle := m.length_le
    show (((k, v) :: without m.entries k).take m.capacity).length
      = if lookup m.entries k = none then min (m.entries.length + 1) m.capacity
        else m.entries.length
    rw [length_take, hlen]
    split_ifs <;> omega
  peek_touch m k k' := by
    show lookup (m.touch k).entries k' = lookup m.entries k'
    unfold touch
    cases hk : lookup m.entries k with
    | none => rfl
    | some v =>
      by_cases hne : k' = k
      · rw [hne, hk]
        exact lookup_put_self m k v
      · rcases lookup_put_of_ne m v hne with heq | ⟨-, hnone, -⟩
        · exact heq
        · rw [hk] at hnone
          cases hnone
  peek_pop m k k' := by
    show lookup (without m.entries k) k' = if k' = k then none else lookup m.entries k'
    ext v
    have hpop : lookup (without m.entries k) k' = some v ↔ (k', v) ∈ without m.entries k :=
      lookup_eq_some (m.pop k).nodup
    rw [hpop]
    split_ifs with hk
    · simp [mem_without, hk]
    · rw [mem_without, lookup_eq_some m.nodup]
      simp [hk]

instance : RecencyLru (ListLru K V) K V where
  nodup_entries m := m.nodup
  length_le m := m.length_le
  capacity_pos m := m.capacity_pos
  entries_put _ _ _ := rfl
  entries_touch m k := by
    show (m.touch k).entries = match lookup m.entries k with
      | none => m.entries
      | some v => (k, v) :: without m.entries k
    unfold touch
    cases hk : lookup m.entries k with
    | none => rfl
    | some v =>
      have hlen := length_cons_without m k v
      have hle := m.length_le
      rw [hk, if_neg (some_ne_none v)] at hlen
      exact take_of_length_le (by omega)
  entries_pop _ _ := rfl
  capacity_touch m k := by
    show (m.touch k).capacity = m.capacity
    unfold touch
    split <;> rfl
  capacity_pop _ _ := rfl

end ListLru
