import Mathlib.Data.List.Induction
import Mathlib.Data.List.Nodup

/-!
# The first element of each key

`firsts key l` keeps of a list the first element with each key, in order.  It is built from the
front, so a list that grows at its end keeps what it had (`firsts_concat`).

A list `t` that has the keys of `firsts key l` in the same order holds, for each key of `l`, exactly
one element, and that is the image of the first element with the key, iff it is the image of
`firsts key l` (`forall_filter_eq_iff`).
-/

namespace FirstBy

open List Option

variable {α β κ : Type*} [DecidableEq κ] (key : α → κ)

/-- The first element of each key. -/
def firsts (l : List α) : List α :=
  l.foldl (fun acc a => if key a ∈ acc.map key then acc else acc ++ [a]) []

theorem firsts_concat : firsts key (l ++ [a]) =
      if key a ∈ (firsts key l).map key then firsts key l else firsts key l ++ [a] := by
  unfold firsts
  rw [foldl_append, foldl_cons, foldl_nil]

theorem nodup_firsts : ((firsts key l).map key).Nodup := by
  induction l using List.reverseRecOn with
  | nil => exact nodup_nil
  | append_singleton l a ih =>
    rw [firsts_concat]
    split_ifs with hmem
    · exact ih
    · rw [map_append, map_singleton, ← concat_eq_append]
      exact ih.concat hmem

theorem mem_map_firsts : k ∈ (firsts key l).map key ↔ k ∈ l.map key := by
  induction l using List.reverseRecOn with
  | nil => exact Iff.rfl
  | append_singleton l a ih =>
    rw [firsts_concat, map_append, map_singleton, mem_append, mem_singleton, ← ih]
    split_ifs with hmem
    · constructor
      · exact Or.inl
      · rintro (hk | rfl)
        · exact hk
        · exact hmem
    · rw [map_append, map_singleton, mem_append, mem_singleton]

/-- Looking for a key finds the same in both. -/
theorem find?_firsts :
    (firsts key l).find? (fun a => key a = k) = l.find? (fun a => key a = k) := by
  induction l using List.reverseRecOn with
  | nil => rfl
  | append_singleton l a ih =>
    rw [firsts_concat, find?_append, ← ih]
    split_ifs with hmem
    · -- the new element's key was there before
      obtain ⟨b, hb, hkey⟩ := mem_map.mp hmem
      by_cases hk : key a = k
      · have hsome : ((firsts key l).find? (fun a => key a = k)).isSome := by
          rw [find?_isSome]
          exact ⟨b, hb, by simp [hkey, hk]⟩
        rw [or_of_isSome hsome]
      · rw [find?_cons_of_neg (by simpa using hk), find?_nil, or_none]
    · rw [find?_append]

variable {key} {l : List α} {a : α}

theorem find?_of_mem_firsts (h : a ∈ firsts key l) : l.find? (fun b => key b = key a) = some a := by
  rw [← find?_firsts]
  have hsome : ((firsts key l).find? (fun b => key b = key a)).isSome := by
    rw [find?_isSome]
    exact ⟨a, h, by simp⟩
  obtain ⟨b, hb⟩ := isSome_iff_exists.mp hsome
  have hkey : key b = key a := by simpa using find?_some hb
  rw [hb, inj_on_of_nodup_map (nodup_firsts key) (mem_of_find?_eq_some hb) h hkey]

/-- With distinct keys, one element has a given one. -/
theorem filter_map_eq_singleton {key' : β → κ} {g : α → β} (hg : ∀ a, key' (g a) = key a)
    (hnodup : (l.map key).Nodup) (h : a ∈ l) :
    (l.map g).filter (fun b => key' b = key a) = [g a] := by
  induction l with
  | nil => cases h
  | cons b l ih =>
    rw [map_cons, nodup_cons] at hnodup
    have hnone : key a = key b → (l.map g).filter (fun b => key' b = key a) = [] := by
      intro hkey
      rw [filter_eq_nil_iff]
      intro c hc
      obtain ⟨d, hd, rfl⟩ := mem_map.mp hc
      rw [hg, decide_eq_true_eq]
      intro heq
      exact hnodup.1 (mem_map.mpr ⟨d, hd, heq.trans hkey⟩)
    rw [map_cons]
    rcases mem_cons.mp h with rfl | hmem
    · rw [filter_cons_of_pos (by simp [hg]), hnone rfl]
    · have hne : key b ≠ key a := by
        intro heq
        exact hnodup.1 (mem_map.mpr ⟨a, hmem, heq.symm⟩)
      rw [filter_cons_of_neg (by simpa [hg] using hne), ih hnodup.2 hmem]

/-- **One for each key**: a list with the right keys is the image of the first elements iff it holds
for each key the image of the first element with it and nothing else. -/
theorem forall_filter_eq_iff (hg : ∀ a, key' (g a) = key a) {t : List β}
    (ht : t.map key' = (firsts key l).map key) :
    (∀ a ∈ l, ∃ b, l.find? (fun b => key b = key a) = some b
      ∧ t.filter (fun b => key' b = key a) = [g b])
      ↔ t = (firsts key l).map g := by
  constructor
  · intro heach
    apply ext_getElem
    · have hlen := congrArg List.length ht
      simpa using hlen
    · intro i hi hi'
      rw [getElem_map]
      rw [length_map] at hi'
      have hmem : (firsts key l)[i] ∈ firsts key l := getElem_mem hi'
      have hkey : key' t[i] = key (firsts key l)[i] := by
        have hget := congrArg (·[i]?) ht
        simpa [hi, hi'] using hget
      have hl : (firsts key l)[i] ∈ l := mem_of_find?_eq_some (find?_of_mem_firsts hmem)
      obtain ⟨b, hb, hfilter⟩ := heach _ hl
      rw [find?_of_mem_firsts hmem] at hb
      obtain rfl := some.inj hb
      have hin : t[i] ∈ t.filter (fun b => key' b = key (firsts key l)[i]) :=
        mem_filter.mpr ⟨getElem_mem hi, by simp [hkey]⟩
      rw [hfilter] at hin
      exact mem_singleton.mp hin
  · rintro rfl a ha
    obtain ⟨b, hb, hkey⟩ := mem_map.mp ((mem_map_firsts key).mpr (mem_map_of_mem ha))
    refine ⟨b, ?_, ?_⟩
    · rw [← hkey]
      exact find?_of_mem_firsts hb
    · rw [← hkey]
      exact filter_map_eq_singleton hg (nodup_firsts key) hb

end FirstBy
