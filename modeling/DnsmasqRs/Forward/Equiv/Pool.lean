import Mathlib.Data.List.Nodup
import DnsmasqRs.Forward.Pool
import DnsmasqRs.Lib.RefCount

/-!
# The pool counts what the queries hold

`PoolOk pool held` ties the pool to the list of all slots held anywhere: the reference counts are
balanced with it, and a temporary socket has one reference.  The two operations keep it, for any
other holders: `PoolOk.allocate` adds to the caller's slots what it adds to the counts, and
`PoolOk.freeRfds` takes the caller's slots out of them.
-/

namespace DnsmasqRs.Forward

open RefCount List Option

namespace RandFdPool

/-- The reference count of a slot, if it is open. -/
def refs (pool : RandFdPool) (i : ℕ) : Option ℕ := (pool.slot i).map (·.refcount)

/-- The pool agrees with the slots held. -/
structure PoolOk (pool : RandFdPool) (held : List ℕ) : Prop where
  balanced : Balanced pool.refs held
  temporary : ∀ i r, pool.slot i = some r → r.temporary → r.refcount = 1

variable {pool : RandFdPool} {held fdl others : List ℕ}

/-! ### Single slots -/

theorem join_set {slots : List (Option RandomSocket)} {i : ℕ} (hi : i < slots.length) :
    (slots.set i x)[j]?.join = if j = i then x else slots[j]?.join := by
  by_cases hj : j = i
  · subst hj
    rw [getElem?_set_self hi, if_pos rfl]
    rfl
  · rw [getElem?_set_ne (Ne.symm hj), if_neg hj]

theorem refs_set {pool' : RandFdPool} {i : ℕ} (hi : i < pool.slots.length)
    {x : Option RandomSocket} (hslots : pool'.slots = pool.slots.set i x) :
    pool'.refs = Function.update pool.refs i (x.map (·.refcount)) := by
  funext j
  unfold refs slot
  rw [hslots, join_set hi]
  by_cases hj : j = i
  · rw [if_pos hj, hj, Function.update_self]
  · rw [if_neg hj, Function.update_of_ne hj]

theorem lt_length_of_slot (h : pool.slot i = some r) : i < pool.slots.length := by
  unfold slot at h
  by_contra hlt
  rw [getElem?_eq_none (Nat.le_of_not_lt hlt)] at h
  cases h

theorem PoolOk.perm (h : PoolOk pool held) (hp : held.Perm held') : PoolOk pool held' :=
  ⟨h.balanced.perm hp, h.temporary⟩

theorem PoolOk.temporary_set (h : PoolOk pool held) {pool' : RandFdPool} {i : ℕ}
    (hi : i < pool.slots.length) {x : Option RandomSocket}
    (hslots : pool'.slots = pool.slots.set i x)
    (hx : ∀ r, x = some r → r.temporary → r.refcount = 1) :
    ∀ j r, pool'.slot j = some r → r.temporary → r.refcount = 1 := by
  intro j r hj
  unfold slot at hj
  rw [hslots, join_set hi] at hj
  split_ifs at hj with hji
  · exact hx r hj
  · exact h.temporary j r hj

theorem PoolOk.openAt (h : PoolOk pool held) {idx : ℕ} (hidx : idx < pool.slots.length)
    (hempty : pool.slot idx = none) (socket serverIdx : ℕ) (temporary : Bool) :
    PoolOk (pool.openAt idx socket serverIdx temporary) (idx :: held) where
  balanced := by
    rw [refs_set hidx rfl]
    exact h.balanced.acquire (by rw [refs, hempty]; rfl)
  temporary := h.temporary_set hidx rfl (by
    rintro r hr -
    obtain rfl := some.inj hr
    rfl)

/-! ### `allocate` -/

theorem slot_of_findIdx? {slots : List (Option RandomSocket)} {idx : ℕ}
    (hfind : slots.findIdx? Option.isNone = some idx) : slots[idx]? = some none := by
  obtain ⟨hlt, hnone, -⟩ := findIdx?_eq_some_iff_getElem.mp hfind
  rw [getElem?_eq_getElem hlt]
  exact congrArg some (isNone_iff_eq_none.mp hnone)

/-- What a call of `allocate` guarantees about its result. -/
structure AllocOk (others fdl : List ℕ) (result : RandFdPool × RfdList × Option ℕ) : Prop where
  pool : PoolOk result.1 (result.2.1 ++ others)
  nodup : fdl.Nodup → result.2.1.Nodup
  ne_nil : result.2.2 ≠ none ∨ fdl ≠ [] → result.2.1 ≠ []

theorem AllocOk.unchanged (h : PoolOk pool (fdl ++ others)) :
    AllocOk others fdl (pool, fdl, none) :=
  ⟨h, id, fun hor => hor.resolve_left fun hne => hne rfl⟩

/-- A slot that was not in the list is put behind it. -/
theorem AllocOk.push (hnot : idx ∉ fdl)
    (h : PoolOk pool' (idx :: (fdl ++ others))) :
    AllocOk others fdl (pool', fdl ++ [idx], socket) where
  pool := by
    apply h.perm
    rw [append_assoc]
    exact perm_middle.symm
  nodup hfdl := by
    apply nodup_append.mpr
    refine ⟨hfdl, nodup_singleton _, ?_⟩
    intro a ha b hb
    rw [mem_singleton.mp hb]
    rintro rfl
    exact hnot ha
  ne_nil _ := by simp

theorem PoolOk.not_mem_fdl (h : PoolOk pool (fdl ++ others)) (hempty : pool.slot idx = none) :
    idx ∉ fdl := by
  intro hmem
  exact h.balanced.not_mem (by rw [refs, hempty]; rfl) (mem_append_left _ hmem)

theorem PoolOk.allocateNew (h : PoolOk pool (fdl ++ others)) (serverIdx : ℕ) (bind : Option ℕ) :
    AllocOk others fdl (pool.allocateNew fdl serverIdx bind) := by
  have hopen {idx : ℕ} (hget : pool.slots[idx]? = some none) (socket : ℕ) (temporary : Bool) :
      AllocOk others fdl (pool.openAt idx socket serverIdx temporary, fdl ++ [idx], some socket) :=
    have hempty : pool.slot idx = none := by rw [slot, hget]; rfl
    AllocOk.push (h.not_mem_fdl hempty)
      (h.openAt (List.getElem?_eq_some_iff.mp hget).1 hempty socket serverIdx temporary)
  unfold RandFdPool.allocateNew
  cases hfree : (pool.slots.take pool.numrrand).findIdx? Option.isNone with
  | some idx =>
    -- a free slot of the fixed pool
    have htake := slot_of_findIdx? hfree
    rw [getElem?_take] at htake
    split_ifs at htake with hlt
    cases bind with
    | none => exact AllocOk.unchanged h
    | some socket => exact hopen htake socket false
  | none =>
    cases hshare : pool.roundRobin.find? (pool.shareable serverIdx fdl) with
    | some i =>
      -- a live socket for the same server, not held yet
      have hok := find?_some hshare
      unfold shareable at hok
      rw [Bool.and_eq_true, Option.any_eq_true] at hok
      obtain ⟨⟨r, hr, hlive⟩, hnot⟩ := hok
      simp only [hr]
      have hnot' : i ∉ fdl := by simpa using hnot
      have hlive' : r.temporary = false := by
        simp only [Bool.and_eq_true, Bool.not_eq_true'] at hlive
        exact hlive.1.1
      have hlt := lt_length_of_slot hr
      refine AllocOk.push hnot' ⟨?_, ?_⟩
      · rw [refs_set hlt rfl]
        exact h.balanced.share (by rw [refs, hr]; rfl)
      · apply h.temporary_set hlt rfl
        intro r' hr' htemp
        rw [← some.inj hr', hlive'] at htemp
        cases htemp
    | none =>
      cases bind with
      | none => exact AllocOk.unchanged h
      | some socket =>
        cases hany : pool.slots.findIdx? Option.isNone with
        | some idx => exact hopen (slot_of_findIdx? hany) socket true
        | none =>
          -- a new slot behind the last one, empty like everything past the end
          have hempty : pool.slot pool.slots.length = none := by
            rw [slot, getElem?_eq_none (Nat.le_refl _)]; rfl
          have hslot : ∀ j, ({ pool with slots := pool.slots ++ [none] } : RandFdPool).slot j
              = pool.slot j := by
            intro j
            unfold slot
            rcases Nat.lt_trichotomy j pool.slots.length with hj | rfl | hj
            · rw [getElem?_append_left hj]
            · simp
            · rw [getElem?_eq_none (by simp; omega), getElem?_eq_none (by omega)]
          have h' : PoolOk { pool with slots := pool.slots ++ [none] } (fdl ++ others) := by
            refine ⟨?_, ?_⟩
            · intro j
              rw [refs, hslot]
              exact h.balanced j
            · intro j r hj
              rw [hslot] at hj
              exact h.temporary j r hj
          exact AllocOk.push (h.not_mem_fdl hempty)
            (h'.openAt (by simp) (by rw [hslot]; exact hempty) socket serverIdx true)

/-- **`allocate` keeps the counts**, whatever else is held and whether or not it gets a socket. -/
theorem PoolOk.allocate (h : PoolOk pool (fdl ++ others)) (serverIdx : ℕ) (bind : Option ℕ) :
    AllocOk others fdl (pool.allocate fdl serverIdx bind) := by
  unfold RandFdPool.allocate
  cases pool.reusePos fdl serverIdx with
  | none => exact h.allocateNew serverIdx bind
  | some pos =>
    cases hpos : fdl[pos]? with
    | none =>
      simp only [hpos]
      exact AllocOk.unchanged h
    | some slot =>
      -- the same slots in another order
      simp only [hpos]
      obtain ⟨hlt, rfl⟩ := List.getElem?_eq_some_iff.mp hpos
      have hperm : fdl.Perm (fdl[pos] :: fdl.eraseIdx pos) := (getElem_cons_eraseIdx_perm hlt).symm
      exact ⟨h.perm (hperm.append_right others), hperm.nodup_iff.mp, by simp⟩

/-! ### `free_rfds` -/

theorem join_trimSlots (numrrand : ℕ) (slots : List (Option RandomSocket)) (j : ℕ) :
    (trimSlots numrrand slots)[j]?.join = slots[j]?.join := by
  fun_induction trimSlots numrrand slots with
  | case1 slots h ih =>
    rw [ih, getElem?_dropLast]
    split_ifs with hj
    · rfl
    · -- the slot dropped was the empty last one, and past it there is nothing
      rcases Nat.lt_or_ge j slots.length with hlt | hge
      · have hlast : slots[j]? = some none := by
          rw [← h.2, getLast?_eq_getElem?]
          congr 1
          omega
        rw [hlast]
        rfl
      · rw [getElem?_eq_none hge]
  | case2 => rfl

theorem PoolOk.freeRfd {i : ℕ} (h : PoolOk pool (i :: held)) :
    PoolOk { pool with slots := RandFdPool.freeRfd pool.slots i } held := by
  obtain ⟨n, hn⟩ := h.balanced.exists_of_mem (mem_cons_self (a := i) (l := held))
  obtain ⟨r, hr, rfl⟩ := map_eq_some_iff.mp hn
  have hlt := lt_length_of_slot hr
  have hslot : pool.slots[i]?.join = some r := hr
  have hone := (h.balanced.eq_count hn).2
  have hrelease := h.balanced.release hn
  unfold RandFdPool.freeRfd
  simp only [hslot]
  by_cases hlast : r.temporary ∨ r.refcount = 1
  · -- the last reference: a temporary socket has no other
    have hcount : r.refcount = 1 := hlast.elim (h.temporary i r hr) id
    rw [if_pos (by simp [hcount])]
    refine ⟨?_, h.temporary_set hlt rfl (fun _ hx => nomatch hx)⟩
    rw [refs_set hlt rfl]
    rwa [if_pos hcount] at hrelease
  · rw [not_or] at hlast
    have hsub : ¬ r.refcount - 1 = 0 := by omega
    rw [if_neg (by simp [hlast.1, hsub])]
    refine ⟨?_, h.temporary_set hlt rfl ?_⟩
    · rw [refs_set hlt rfl]
      rwa [if_neg hlast.2] at hrelease
    · intro r' hr' htemp
      rw [← some.inj hr'] at htemp
      exact absurd htemp hlast.1

/-- **`free_rfds` gives back what the caller held.** -/
theorem PoolOk.freeRfds (h : PoolOk pool (fdl ++ others)) : PoolOk (pool.freeRfds fdl) others := by
  -- the loop first; trimming afterwards changes no slot
  have hloop : PoolOk { pool with slots := fdl.foldl RandFdPool.freeRfd pool.slots } others := by
    induction fdl generalizing pool with
    | nil => exact h
    | cons i fdl ih => exact ih h.freeRfd
  have hslot : ∀ j, (pool.freeRfds fdl).slot j
      = ({ pool with slots := fdl.foldl RandFdPool.freeRfd pool.slots } : RandFdPool).slot j :=
    fun j => join_trimSlots _ _ j
  refine ⟨?_, ?_⟩
  · intro j
    rw [refs, hslot]
    exact hloop.balanced j
  · intro j r hj
    rw [hslot] at hj
    exact hloop.temporary j r hj

theorem poolOk_new (numrrand randportLimit : ℕ) : PoolOk (new numrrand randportLimit) [] := by
  have hslot : ∀ i, (new numrrand randportLimit).slot i = none := by
    intro i
    unfold slot new
    rw [getElem?_replicate]
    split_ifs <;> rfl
  refine ⟨balanced_nil fun i => by rw [refs, hslot]; rfl, ?_⟩
  intro i r hr
  rw [hslot] at hr
  cases hr

end RandFdPool

end DnsmasqRs.Forward
