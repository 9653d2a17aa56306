import Mathlib.Data.List.AList

/-!
# Stores with a secondary index

A store keeps values under a key, and an index from an attribute of the value to its key.  Values
without the attribute are kept but not indexed.  The index is a table of its own, so every operation
has to keep the two in step; `Coherent` says that they are, and each operation has a lemma that says
what `find` returns afterwards.
-/

/-! ### The size of a table -/

namespace AList

variable {α : Type*} {β : α → Type*} {a : α} {b : β a} {s : AList β}

theorem length_keys : s.keys.length = s.entries.length := List.length_map _

variable [DecidableEq α]

theorem length_erase_le : (s.erase a).entries.length ≤ s.entries.length := by
  rw [← length_keys, ← length_keys, keys_erase]
  exact List.length_erase_le

theorem length_insert : (s.insert a b).entries.length = (s.erase a).entries.length + 1 := by
  rw [← length_keys, ← length_keys, keys_insert, keys_erase, List.length_cons]

theorem length_insert_of_mem (h : a ∈ s) : (s.insert a b).entries.length = s.entries.length := by
  rw [← length_keys, ← length_keys, keys_insert, List.length_cons,
    List.length_erase_add_one (mem_keys.mp h)]

end AList

/-! ### Tables with an index -/

variable {κ ι V : Type} [DecidableEq κ] [DecidableEq ι]

/-- Values by key, and keys by attribute. -/
structure Indexed (κ ι V : Type) where
  entries : AList fun _ : κ => V
  index : AList fun _ : ι => κ

namespace Indexed

open List Option

/-- The store with nothing in it. -/
def empty : Indexed κ ι V := ⟨∅, ∅⟩

variable (s : Indexed κ ι V)

/-- The number of values. -/
def size : ℕ := s.entries.entries.length

/-- The values, in no particular order. -/
def values : List V := s.entries.entries.map (·.2)

/-- The value under a key. -/
def get (k : κ) : Option V := s.entries.lookup k

/-- The key an attribute is indexed under. -/
def keyOf (i : ι) : Option κ := s.index.lookup i

/-- The value with an attribute, by the index. -/
def find (i : ι) : Option V := (s.keyOf i).bind s.get

/-- Drop the index entry of an attribute, if there is one. -/
def unindex : Option ι → Indexed κ ι V
  | none => s
  | some i => { s with index := s.index.erase i }

/-- Put a value under a key.  What was there before loses its index entry. -/
def insertRaw (attr : V → Option ι) (s : Indexed κ ι V) (k : κ) (v : V) : Indexed κ ι V :=
  let s := match s.get k with
    | some old => if attr old = attr v then s else s.unindex (attr old)
    | none => s
  { entries := s.entries.insert k v
    index := match attr v with
      | some i => s.index.insert i k
      | none => s.index }

/-- Take the value under a key out, without looking at the index. -/
def eraseKey (k : κ) : Indexed κ ι V := { s with entries := s.entries.erase k }

/-- Change the value with an attribute. -/
def modify (i : ι) (f : V → V) : Indexed κ ι V :=
  match s.keyOf i with
  | none => s
  | some k =>
    match s.get k with
    | none => s
    | some v => { s with entries := s.entries.insert k (f v) }

/-! ### Keys and index in step -/

/-- Every value is indexed under its key, and every index entry leads to a value with the attribute.
-/
structure Coherent (attr : V → Option ι) (s : Indexed κ ι V) : Prop where
  complete : ∀ k v i, s.get k = some v → attr v = some i → s.keyOf i = some k
  sound : ∀ i k, s.keyOf i = some k → ∃ v, s.get k = some v ∧ attr v = some i

variable {attr : V → Option ι} {s : Indexed κ ι V} {k k' : κ} {i j : ι} {v v' : V}

theorem coherent_empty : Coherent attr (empty : Indexed κ ι V) where
  complete _ _ _ h := by cases h
  sound _ _ h := by cases h

theorem find_eq_some : s.find i = some v ↔ ∃ k, s.keyOf i = some k ∧ s.get k = some v :=
  bind_eq_some_iff

/-- In a coherent store `find` finds the values with the attribute. -/
theorem Coherent.find_eq_some_iff (h : Coherent attr s) :
    s.find i = some v ↔ ∃ k, s.get k = some v ∧ attr v = some i := by
  rw [find_eq_some]
  constructor
  · rintro ⟨k, hk, hv⟩
    obtain ⟨v', hv', hattr⟩ := h.sound i k hk
    obtain rfl := some.inj (hv.symm.trans hv')
    exact ⟨k, hv, hattr⟩
  · rintro ⟨k, hv, hattr⟩
    exact ⟨k, h.complete k v i hv hattr, hv⟩

theorem Coherent.attr_of_find (h : Coherent attr s) (hv : s.find i = some v) : attr v = some i := by
  obtain ⟨_, _, hattr⟩ := h.find_eq_some_iff.mp hv
  exact hattr

theorem Coherent.find_eq_none_iff (h : Coherent attr s) : s.find i = none ↔ s.keyOf i = none := by
  constructor
  · intro hnone
    cases hk : s.keyOf i with
    | none => rfl
    | some k =>
      obtain ⟨v, hv, -⟩ := h.sound i k hk
      rw [find, hk, bind_some, hv] at hnone
      cases hnone
  · intro hnone
    rw [find, hnone, bind_none]

theorem Coherent.find_eq_none (h : Coherent attr s) (hno : ∀ v, attr v ≠ some i) :
    s.find i = none := by
  cases hv : s.find i with
  | none => rfl
  | some v => exact absurd (h.attr_of_find hv) (hno v)

theorem Coherent.keyOf_injective (h : Coherent attr s) (hi : s.keyOf i = some k)
    (hj : s.keyOf j = some k) : i = j := by
  obtain ⟨v, hv, hattr⟩ := h.sound i k hi
  obtain ⟨v', hv', hattr'⟩ := h.sound j k hj
  rw [hv] at hv'
  obtain rfl := some.inj hv'
  exact some.inj (hattr.symm.trans hattr')

/-! ### Putting in a value -/

/-- Coherence but for one attribute, which no value has and the index may still know. -/
structure CoherentBut (attr : V → Option ι) (s : Indexed κ ι V) (a : Option ι) : Prop where
  complete : ∀ k v i, s.get k = some v → attr v = some i → s.keyOf i = some k
  sound : ∀ i k, some i ≠ a → s.keyOf i = some k → ∃ v, s.get k = some v ∧ attr v = some i
  absent : ∀ k v, s.get k = some v → attr v = a → a = none

/-- A value with a new attribute can be put in. -/
theorem Coherent.but_of_find (h : Coherent attr s) (ha : ∀ i, a = some i → s.find i = none) :
    CoherentBut attr s a where
  complete := h.complete
  sound i k _ hk := h.sound i k hk
  absent k v hv hattr := by
    cases a with
    | none => rfl
    | some i =>
      have hfind := h.find_eq_some_iff.mpr ⟨k, hv, hattr⟩
      rw [ha i rfl] at hfind
      cases hfind

omit [DecidableEq ι] in
theorem get_eraseKey : (s.eraseKey k).get k' = if k' = k then none else s.get k' := by
  unfold eraseKey get
  split
  · next h => rw [h, AList.lookup_erase]
  · next h => rw [AList.lookup_erase_ne h]

theorem Coherent.find_eraseKey (h : Coherent attr s) (hk : s.keyOf i = some k) (hj : j ≠ i) :
    (s.eraseKey k).find j = s.find j := by
  show (s.keyOf j).bind (s.eraseKey k).get = (s.keyOf j).bind s.get
  cases hkey : s.keyOf j with
  | none => rfl
  | some k' =>
    rw [bind_some, bind_some, get_eraseKey, if_neg]
    rintro rfl
    exact hj (h.keyOf_injective hkey hk)

/-- A value that was taken out can be put back under another key. -/
theorem Coherent.but_eraseKey (h : Coherent attr s) (hv : s.get k = some v) :
    CoherentBut attr (s.eraseKey k) (attr v) where
  complete k' v' i hv' hattr := by
    rw [get_eraseKey] at hv'
    split at hv'
    · cases hv'
    · exact h.complete k' v' i hv' hattr
  sound i k' hne hk' := by
    obtain ⟨v', hv', hattr⟩ := h.sound i k' hk'
    refine ⟨v', ?_, hattr⟩
    rw [get_eraseKey, if_neg, hv']
    rintro rfl
    rw [hv] at hv'
    obtain rfl := some.inj hv'
    exact hne hattr.symm
  absent k' v' hv' hattr := by
    rw [get_eraseKey] at hv'
    split at hv'
    · cases hv'
    · next hk =>
      cases ha : attr v with
      | none => rfl
      | some i =>
        have hkey := h.complete k' v' i hv' (hattr.trans ha)
        rw [h.complete k v i hv ha] at hkey
        exact absurd (some.inj hkey).symm hk

/-- Where the attribute is none, nothing is missing. -/
theorem CoherentBut.coherent (h : CoherentBut attr s none) : Coherent attr s where
  complete := h.complete
  sound i k hk := h.sound i k nofun hk

theorem entries_insertRaw : (s.insertRaw attr k v).entries = s.entries.insert k v := by
  unfold insertRaw
  cases s.get k with
  | none => rfl
  | some old =>
    dsimp only
    split
    · rfl
    · cases attr old <;> rfl

theorem get_insertRaw : (s.insertRaw attr k v).get k' = if k' = k then some v else s.get k' := by
  unfold get
  rw [entries_insertRaw]
  split
  · next h => rw [h, AList.lookup_insert]
  · next h => rw [AList.lookup_insert_ne h]

omit [DecidableEq κ] in
theorem keyOf_unindex : (s.unindex a).keyOf j = if a = some j then none else s.keyOf j := by
  cases a with
  | none => rfl
  | some i =>
    show (s.index.erase i).lookup j = _
    by_cases hij : j = i
    · rw [hij, AList.lookup_erase, if_pos rfl]
    · rw [AList.lookup_erase_ne hij, if_neg (fun h => hij (some.inj h).symm)]
      rfl

theorem keyOf_insertRaw (h : CoherentBut attr s (attr v)) : (s.insertRaw attr k v).keyOf j =
      if attr v = some j then some k else if s.keyOf j = some k then none else s.keyOf j := by
  -- the index before the attribute of the new value is entered
  obtain ⟨s₁, hs₁, hj⟩ : ∃ s₁ : Indexed κ ι V, (s.insertRaw attr k v).index = (match attr v with
        | some i => s₁.index.insert i k
        | none => s₁.index)
      ∧ (attr v ≠ some j → s₁.keyOf j = if s.keyOf j = some k then none else s.keyOf j) := by
    refine ⟨_, rfl, ?_⟩
    intro hne
    have hat : s.keyOf j = some k ↔ (s.get k).bind attr = some j := by
      constructor
      · intro hk
        obtain ⟨old, hold, hattr⟩ := h.sound j k (Ne.symm hne) hk
        rw [hold]
        exact hattr
      · intro hold
        obtain ⟨old, hold, hattr⟩ := bind_eq_some_iff.mp hold
        exact h.complete k old j hold hattr
    rw [if_congr hat rfl rfl]
    cases hget : s.get k with
    | none => rfl
    | some old =>
      dsimp only [bind_some]
      by_cases hsame : attr old = attr v
      · rw [if_pos hsame, if_neg (hsame ▸ hne)]
      · rw [if_neg hsame]
        exact keyOf_unindex
  unfold keyOf at hj ⊢
  rw [hs₁]
  cases hattr : attr v with
  | none =>
    rw [if_neg (by simp), ← hj (by rw [hattr]; simp)]
  | some i =>
    by_cases hij : j = i
    · subst hij
      rw [if_pos rfl, AList.lookup_insert]
    · have hne : attr v ≠ some j := by
        rw [hattr]
        exact fun h => hij (some.inj h).symm
      rw [AList.lookup_insert_ne hij, if_neg (hattr ▸ hne), hj hne]

/-- **What `find` returns after a value was put in**: the value under the same key is lost. -/
theorem find_insertRaw (h : CoherentBut attr s (attr v)) : (s.insertRaw attr k v).find j =
      if attr v = some j then some v else if s.keyOf j = some k then none else s.find j := by
  unfold find
  rw [keyOf_insertRaw h]
  split
  · rw [bind_some, get_insertRaw, if_pos rfl]
  · split
    · rfl
    · next hk =>
      cases hkey : s.keyOf j with
      | none => rfl
      | some k' =>
        rw [bind_some, bind_some, get_insertRaw, if_neg]
        rintro rfl
        exact hk hkey

theorem CoherentBut.insertRaw (h : CoherentBut attr s (attr v)) (k : κ) :
    Coherent attr (s.insertRaw attr k v) where
  complete k' v' i hv' hattr := by
    rw [get_insertRaw] at hv'
    rw [keyOf_insertRaw h]
    split at hv'
    · next hk =>
      obtain rfl := some.inj hv'
      rw [if_pos hattr, hk]
    · next hk =>
      have hkey := h.complete k' v' i hv' hattr
      rw [if_neg, if_neg, hkey]
      · rw [hkey]
        exact fun h => hk (some.inj h)
      · intro hvi
        have := h.absent k' v' hv' (hattr.trans hvi.symm)
        rw [this] at hvi
        cases hvi
  sound i k' hk' := by
    rw [keyOf_insertRaw h] at hk'
    rw [get_insertRaw]
    split at hk'
    · next hvi =>
      obtain rfl := some.inj hk'
      exact ⟨v, if_pos rfl, hvi⟩
    · next hvi =>
      split at hk'
      · cases hk'
      · next hne =>
        obtain ⟨v', hv', hattr⟩ := h.sound i k' (Ne.symm hvi) hk'
        refine ⟨v', ?_, hattr⟩
        rw [if_neg, hv']
        rintro rfl
        exact hne hk'

/-! ### Changing a value in place -/

theorem keyOf_modify (s : Indexed κ ι V) (i : ι) (f : V → V) (j : ι) :
    (s.modify i f).keyOf j = s.keyOf j := by
  unfold modify
  split
  · rfl
  · split <;> rfl

theorem get_modify (s : Indexed κ ι V) (i : ι) (f : V → V) (k : κ) :
    (s.modify i f).get k = if s.keyOf i = some k then (s.get k).map f else s.get k := by
  unfold modify
  cases hk : s.keyOf i with
  | none => simp
  | some k' =>
    dsimp only
    by_cases hkk : k' = k
    · subst hkk
      cases hv : s.get k' with
      | none => simp [hv]
      | some v =>
        show (s.entries.insert k' (f v)).lookup k' = _
        rw [AList.lookup_insert, if_pos rfl]
        rfl
    · rw [if_neg (fun h => hkk (some.inj h))]
      cases hv : s.get k' with
      | none => rfl
      | some v => exact AList.lookup_insert_ne (Ne.symm hkk)

theorem Coherent.modify (h : Coherent attr s) (i : ι) (hf : ∀ v, attr (f v) = attr v) :
    Coherent attr (s.modify i f) where
  complete k v j hv hattr := by
    rw [get_modify] at hv
    rw [keyOf_modify]
    split at hv
    · obtain ⟨v₀, hv₀, rfl⟩ := map_eq_some_iff.mp hv
      exact h.complete k v₀ j hv₀ ((hf v₀).symm.trans hattr)
    · exact h.complete k v j hv hattr
  sound j k hk := by
    rw [keyOf_modify] at hk
    obtain ⟨v, hv, hattr⟩ := h.sound j k hk
    rw [get_modify]
    split
    · exact ⟨f v, by rw [hv]; rfl, (hf v).trans hattr⟩
    · exact ⟨v, hv, hattr⟩

theorem Coherent.find_modify (h : Coherent attr s) :
    (s.modify i f).find j = if j = i then (s.find i).map f else s.find j := by
  unfold find
  rw [keyOf_modify]
  cases hk : s.keyOf j with
  | none =>
    split
    · next hij => rw [← hij, hk]; rfl
    · rfl
  | some k =>
    rw [bind_some, get_modify]
    by_cases hij : j = i
    · subst hij
      rw [if_pos hk, if_pos rfl, hk, bind_some]
    · rw [if_neg hij, if_neg, bind_some]
      exact fun hik => hij (h.keyOf_injective hk hik)

/-! ### Changing all values -/

/-- Change every value. -/
def mapValues (f : V → V) : Indexed κ ι V :=
  { s with
    entries := ⟨s.entries.entries.map fun e => ⟨e.1, f e.2⟩, by
      have h :
          (s.entries.entries.map fun e => (⟨e.1, f e.2⟩ : Σ _ : κ, V)).keys
            = s.entries.entries.keys := by
        rw [List.keys, List.map_map]
        rfl
      unfold List.NodupKeys
      rw [h]
      exact s.entries.nodupKeys⟩ }

omit [DecidableEq ι] in
theorem get_mapValues : (s.mapValues f).get k = (s.get k).map f := by
  have hlookup (es : List (Σ _ : κ, V)) :
      (es.map fun e => (⟨e.1, f e.2⟩ : Σ _ : κ, V)).dlookup k = (es.dlookup k).map f := by
    induction es with
    | nil => rfl
    | cons e es ih =>
      obtain ⟨k', v⟩ := e
      by_cases hk : k = k'
      · subst hk
        rw [map_cons, dlookup_cons_eq, dlookup_cons_eq, map_some]
      · have hne := dlookup_cons_ne es (⟨k', v⟩ : Σ _ : κ, V) hk
        rw [hne, ← ih]
        exact dlookup_cons_ne _ (⟨k', f v⟩ : Σ _ : κ, V) hk
  exact hlookup s.entries.entries

/-! ### Taking a value out -/

theorem keyOf_remove :
    ((s.eraseKey k).unindex (some i)).keyOf j = if j = i then none else s.keyOf j := by
  rw [keyOf_unindex]
  exact if_congr (by rw [some.injEq, eq_comm]) rfl rfl

theorem get_remove : ((s.eraseKey k).unindex (some i)).get k' = if k' = k then none else s.get k' :=
  get_eraseKey

theorem Coherent.remove (h : Coherent attr s) (hk : s.keyOf i = some k) :
    Coherent attr ((s.eraseKey k).unindex (some i)) where
  complete k' v j hv hattr := by
    rw [get_remove] at hv
    split at hv
    · cases hv
    · next hkk =>
      have hj := h.complete k' v j hv hattr
      rw [keyOf_remove, if_neg, hj]
      rintro rfl
      exact hkk (some.inj (hj.symm.trans hk))
  sound j k' hj := by
    rw [keyOf_remove] at hj
    split at hj
    · cases hj
    · next hij =>
      obtain ⟨v, hv, hattr⟩ := h.sound j k' hj
      refine ⟨v, ?_, hattr⟩
      rw [get_remove, if_neg, hv]
      rintro rfl
      exact hij (h.keyOf_injective hj hk)

/-! ### Taking out many values -/

/-- Take out the given entries, with what the index knows of them. -/
def removeAll (attr : V → Option ι) (s : Indexed κ ι V) (es : List (Σ _ : κ, V)) : Indexed κ ι V :=
  es.foldl (fun s e => (s.eraseKey e.1).unindex (attr e.2)) s

theorem get_unindex : (s.unindex a).get k = s.get k := by
  cases a <;> rfl

theorem get_removeAll :
    (s.removeAll attr es).get k = if k ∈ es.map Sigma.fst then none else s.get k := by
  induction es generalizing s with
  | nil => rfl
  | cons e es ih =>
    show (removeAll attr _ es).get k = _
    rw [ih, get_unindex, get_eraseKey, map_cons]
    by_cases hk : k = e.1
    · rw [if_pos hk, if_pos (mem_cons.mpr (.inl hk)), ite_self]
    · rw [if_neg hk]
      exact if_congr (by rw [mem_cons, or_iff_right hk]) rfl rfl

theorem Coherent.removeOne (h : Coherent attr s) (hv : s.get k = some v) :
    Coherent attr ((s.eraseKey k).unindex (attr v)) := by
  cases ha : attr v with
  | none =>
    have hbut := h.but_eraseKey hv
    rw [ha] at hbut
    exact hbut.coherent
  | some i => exact h.remove (h.complete k v i hv ha)

/-- **Entries of the store can be taken out**, each once. -/
theorem Coherent.removeAll (h : Coherent attr s)
    (hes : ∀ e ∈ es, s.get e.1 = some e.2) (hnodup : (es.map Sigma.fst).Nodup) :
    Coherent attr (s.removeAll attr es) := by
  induction es generalizing s with
  | nil => exact h
  | cons e es ih =>
    rw [map_cons, nodup_cons] at hnodup
    refine ih (h.removeOne (hes e mem_cons_self)) ?_ hnodup.2
    intro e' he'
    rw [get_unindex, get_eraseKey, if_neg]
    · exact hes e' (mem_cons_of_mem _ he')
    · intro heq
      exact hnodup.1 (heq ▸ mem_map_of_mem he')

/-! ### Putting in many values -/

/-- Put in the given values, each under its key. -/
def insertAll (attr : V → Option ι) (key : V → κ) (s : Indexed κ ι V) (vs : List V) :
    Indexed κ ι V :=
  vs.foldl (fun s v => s.insertRaw attr (key v) v) s

/-- Every key is that of a value, so there are no more values than were put in. -/
theorem mem_keys_insertAll (h : k ∈ (s.insertAll attr key vs).entries) :
    k ∈ s.entries ∨ k ∈ vs.map key := by
  induction vs generalizing s with
  | nil => exact .inl h
  | cons v vs ih =>
    rcases ih h with h | h
    · rw [entries_insertRaw, AList.mem_insert] at h
      rcases h with rfl | h
      · exact .inr mem_cons_self
      · exact .inl h
    · exact .inr (mem_cons_of_mem _ h)

/-- **Values with different keys are all there**. -/
theorem entries_insertAll (hnew : ∀ v ∈ vs, key v ∉ s.entries)
    (hnodup : (vs.map key).Nodup) : (s.insertAll attr key vs).entries.entries.Perm
      (vs.map (fun v => (⟨key v, v⟩ : Σ _ : κ, V)) ++ s.entries.entries) := by
  induction vs generalizing s with
  | nil => exact List.Perm.refl _
  | cons v vs ih =>
    rw [map_cons, nodup_cons] at hnodup
    have hv := hnew v mem_cons_self
    have hrest := ih (s := s.insertRaw attr (key v) v) ?_ hnodup.2
    · rw [entries_insertRaw, AList.insert_of_notMem hv] at hrest
      exact hrest.trans perm_middle
    · intro w hw hmem
      rw [entries_insertRaw, AList.mem_insert] at hmem
      rcases hmem with heq | hmem
      · exact hnodup.1 (heq ▸ mem_map_of_mem hw)
      · exact hnew w (mem_cons_of_mem _ hw) hmem

/-- **They are all there only if their keys are different**. -/
theorem nodup_of_length_insertAll
    (h : ((empty : Indexed κ ι V).insertAll attr key vs).entries.entries.length = vs.length) :
    (vs.map key).Nodup := by
  set s := (empty : Indexed κ ι V).insertAll attr key vs
  have hsub : s.entries.keys ⊆ vs.map key := by
    intro k hk
    exact (mem_keys_insertAll hk).resolve_left (AList.notMem_empty k)
  have hperm : s.entries.keys.Perm (vs.map key) := by
    apply (subperm_of_subset s.entries.keys_nodup hsub).perm_of_length_le
    rw [length_map, ← h]
    exact Nat.le_of_eq (length_map _).symm
  exact hperm.nodup_iff.mp s.entries.keys_nodup

/-! ### What all values have -/

/-- Every value has the property. -/
def All (p : V → Prop) (s : Indexed κ ι V) : Prop := ∀ k v, s.get k = some v → p v

variable {p : V → Prop}

omit [DecidableEq ι] in
theorem all_empty : All p (empty : Indexed κ ι V) := fun _ _ h => nomatch h

theorem All.modify (h : All p s) (i : ι) (hf : ∀ v, p v → p (f v)) : All p (s.modify i f) := by
  intro k v hv
  rw [get_modify] at hv
  split at hv
  · obtain ⟨v₀, hv₀, rfl⟩ := map_eq_some_iff.mp hv
    exact hf v₀ (h k v₀ hv₀)
  · exact h k v hv

theorem All.insertRaw (h : All p s) (k : κ) (hv : p v) : All p (s.insertRaw attr k v) := by
  intro k' v' hv'
  rw [get_insertRaw] at hv'
  split at hv'
  · obtain rfl := some.inj hv'
    exact hv
  · exact h k' v' hv'

omit [DecidableEq ι] in
theorem All.eraseKey (h : All p s) (k : κ) : All p (s.eraseKey k) := by
  intro k' v' hv'
  rw [get_eraseKey] at hv'
  split at hv'
  · cases hv'
  · exact h k' v' hv'

theorem All.removeAll (h : All p s) (es : List (Σ _ : κ, V)) : All p (s.removeAll attr es) := by
  intro k v hv
  rw [get_removeAll] at hv
  split at hv
  · cases hv
  · exact h k v hv

end Indexed
