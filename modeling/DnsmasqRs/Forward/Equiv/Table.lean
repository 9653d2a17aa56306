import DnsmasqRs.Forward.Table
import DnsmasqRs.Lib.RefCount

/-!
# What the table operations do to the records

Two things are said about each operation of `FrecTable`.

* It `Retires` records: whatever is in flight afterwards was in flight before, unchanged.  Freeing,
  expiring and claiming a slot for a new query do nothing else to the records; the new query is
  written into its slot by the engine.
* It moves slots between the records and `releasedRfds` but loses none: the list `held` of all of
  them is the same up to order.

`TableOk` is what holds of the table between any two of them: its records are in order, and the
budget `frecSrcCount` counts the clients that have joined.
-/

namespace DnsmasqRs.Forward.FrecTable

open RefCount List Option

variable {D : Type} {t t' : FrecTable D} {idx : ℕ} {f : Frec D}

/-! ### Records -/

/-- A record's slots are distinct, it holds none and nobody has joined it while it is free, and it
waits on no other. -/
structure FrecOk (f : Frec D) : Prop where
  nodup : f.rfds.Nodup
  idle : f.sentto = none → f.rfds = []
  unjoined : f.sentto = none → f.extraSrcs = []
  blocking : f.blockingQuery = none

/-- The clients that have joined queries. -/
def joined (t : FrecTable D) : List FrecSrc := t.frecs.flatMap (·.extraSrcs)

/-- Every record of the table is in order, and the clients that have joined are counted and within
the budget. -/
structure TableOk (t : FrecTable D) : Prop where
  records : ∀ f ∈ t.frecs, FrecOk f
  count : t.frecSrcCount = t.joined.length
  bound : t.frecSrcCount ≤ t.maxPerGroup

/-- What is in flight in `t'` is in flight in `t`, in the same place and unchanged. -/
def Retires (t t' : FrecTable D) : Prop :=
  ∀ i f, t'.get i = some f → f.sentto ≠ none → t.get i = some f

theorem Retires.refl (t : FrecTable D) : Retires t t := by
  intro i f hf _
  exact hf

theorem Retires.trans (h : Retires t t') (h' : Retires t' t'') : Retires t t'' := by
  intro i f hf hs
  exact h i f (h' i f hf hs) hs

/-- All slots the table knows of: those of the records and those parked for release. -/
def held (t : FrecTable D) : List ℕ := t.frecs.flatMap (·.rfds) ++ t.releasedRfds

theorem TableOk.get (h : TableOk t) (hf : t.get idx = some f) : FrecOk f :=
  h.records f (mem_of_getElem? hf)

theorem get_modify (t : FrecTable D) (idx : ℕ) (g : Frec D → Frec D) (i : ℕ) :
    (t.modify idx g).get i = if i = idx then (t.get i).map g else t.get i := by
  unfold FrecTable.get modify
  rw [getElem?_modify]
  by_cases hi : i = idx
  · simp [hi]
  · cases t.frecs[i]? <;> simp [hi, Ne.symm hi]

theorem get_modify_self (g : Frec D → Frec D) (hf : t.get idx = some f) :
    (t.modify idx g).get idx = some (g f) := by
  rw [get_modify, if_pos rfl, hf]
  rfl

theorem modify_of_some (hf : t.get idx = some f) :
    t.modify idx g = { t with frecs := t.frecs.set idx (g f) } := by
  have hf' : t.frecs[idx]? = some f := hf
  unfold FrecTable.modify
  rw [modify_eq_set_getElem?, hf']
  rfl

theorem modify_of_none (hf : t.get idx = none) : t.modify idx g = t := by
  have hf' : t.frecs[idx]? = none := hf
  unfold FrecTable.modify
  rw [modify_eq_set_getElem?, hf']
  rfl

theorem length_joined_modify (g : Frec D → Frec D) (hf : t.get idx = some f) :
    f.extraSrcs.length + (t.modify idx g).joined.length
      = (g f).extraSrcs.length + t.joined.length := by
  rw [modify_of_some hf, ← length_append, ← length_append]
  exact (flatMap_set_perm hf (g f) (·.extraSrcs)).length_eq

variable {g : Frec D → Frec D}

theorem frecOk_of_mem_modify (h : TableOk t)
    (hg : ∀ f, t.get idx = some f → FrecOk (g f)) : ∀ f ∈ (t.modify idx g).frecs, FrecOk f := by
  intro f hf
  obtain ⟨i, hi⟩ := mem_iff_getElem?.mp hf
  have hget : (t.modify idx g).get i = some f := hi
  rw [get_modify] at hget
  split_ifs at hget with heq
  · subst heq
    obtain ⟨f₀, hf₀, rfl⟩ := map_eq_some_iff.mp hget
    exact hg f₀ hf₀
  · exact h.get hget

theorem TableOk.modify (h : TableOk t)
    (hg : ∀ f, t.get idx = some f → FrecOk (g f)) (hsrcs : ∀ f, (g f).extraSrcs = f.extraSrcs) :
    TableOk (t.modify idx g) where
  records := frecOk_of_mem_modify h hg
  count := by
    show t.frecSrcCount = _
    cases hf : t.get idx with
    | none => rw [modify_of_none hf, h.count]
    | some f =>
      have hlen := length_joined_modify g hf
      rw [hsrcs f] at hlen
      rw [h.count]
      omega
  bound := h.bound

theorem TableOk.addSrc (h : TableOk t) (hf : t.get idx = some f) (hflight : f.sentto ≠ none)
    (hroom : t.frecSrcCount < t.maxPerGroup) (src : FrecSrc) :
    TableOk { t.modify idx fun f => { f with extraSrcs := f.extraSrcs ++ [src] } with
      frecSrcCount := t.frecSrcCount + 1 } where
  records := by
    refine frecOk_of_mem_modify h ?_
    intro f' hf'
    rw [hf] at hf'
    obtain rfl := some.inj hf'
    have hfok := h.get hf
    exact ⟨hfok.nodup, hfok.idle, fun hs => absurd hs hflight, hfok.blocking⟩
  count := by
    have hlen := length_joined_modify (fun f => { f with extraSrcs := f.extraSrcs ++ [src] }) hf
    rw [length_append, length_singleton] at hlen
    show t.frecSrcCount + 1 = (t.modify idx _).joined.length
    rw [h.count]
    omega
  bound := hroom

theorem modify_eq_self (hg : ∀ f, t.get idx = some f → g f = f) : t.modify idx g = t := by
  cases hf : t.get idx with
  | none => exact modify_of_none hf
  | some f =>
    obtain ⟨hlt, hget⟩ := List.getElem?_eq_some_iff.mp hf
    rw [modify_of_some hf, hg f hf, ← hget, set_getElem_self]

theorem held_modify (g : Frec D → Frec D) (hf : t.get idx = some f) :
    (f.rfds ++ (t.modify idx g).held).Perm ((g f).rfds ++ t.held) := by
  rw [modify_of_some hf]
  unfold held
  rw [← append_assoc, ← append_assoc]
  exact (flatMap_set_perm hf (g f) (·.rfds)).append_right _

/-- What the table holds once a record has been given the slots `rfds`: those and what it holds with
none in that record. -/
theorem held_modify_rfds (hf : t.get idx = some f) (rfds : RfdList) :
    (rfds ++ (t.modify idx fun f => { f with rfds := [] }).held).Perm
      (t.modify idx fun f => { f with rfds }).held := by
  have hwith := held_modify (fun f => { f with rfds }) hf
  have hwithout := held_modify (fun f => { f with rfds := [] }) hf
  apply (perm_append_left_iff f.rfds).mp
  calc f.rfds ++ (rfds ++ (t.modify idx fun f => { f with rfds := [] }).held)
    _ |>.Perm (rfds ++ (f.rfds ++ (t.modify idx fun f => { f with rfds := [] }).held)) :=
      perm_append_comm_assoc _ _ _
    _ |>.Perm (rfds ++ t.held) := hwithout.append_left _
    _ |>.Perm _ := hwith.symm

theorem held_modify_of_eq (hg : ∀ f, (g f).rfds = f.rfds) :
    ((t.modify idx g).held).Perm t.held := by
  cases hf : t.get idx with
  | none => rw [modify_of_none hf]
  | some f =>
    have h := held_modify g hf
    rw [hg] at h
    exact (perm_append_left_iff _).mp h

/-! ### The scan for a slot -/

theorem emitQueryFull_frecs (now : Instant) : (t.emitQueryFull now).frecs = t.frecs := by
  unfold emitQueryFull
  split <;> rfl

theorem emitQueryFull_releasedRfds (now : Instant) :
    (t.emitQueryFull now).releasedRfds = t.releasedRfds := by
  unfold emitQueryFull
  split <;> rfl

theorem emitQueryFull_maxPerGroup (now : Instant) :
    (t.emitQueryFull now).maxPerGroup = t.maxPerGroup := by
  unfold emitQueryFull
  split <;> rfl

theorem TableOk.emitQueryFull (h : TableOk t) (now : Instant) : TableOk (t.emitQueryFull now) := by
  unfold FrecTable.emitQueryFull
  split
  · exact ⟨h.records, h.count, h.bound⟩
  · exact h

/-- The record at `i` may be used for a new query: it is free, or old enough to be evicted. -/
def Collectable (t : FrecTable D) (now : Instant) (i : ℕ) : Prop :=
  ∃ f, t.get i = some f ∧ (f.sentto ≠ none → frecTimeout ≤ now - f.sentAt)

/-- What a scan has found may be used. -/
def Scan.Finds (t : FrecTable D) (now : Instant) (s : Scan) : Prop :=
  (∀ i, s.freeSlot = some i → Collectable t now i) ∧ ∀ i, s.oldestSlot = some i →
    Collectable t now i

variable {now : Instant}

theorem Scan.Finds.scanFrec (h : s.Finds t now) (serverIdx : ℕ) (force : Bool) {f : Frec D}
    (hf : t.get i = some f) :
    (FrecTable.scanFrec now serverIdx force s (f, i)).Finds t now := by
  have hor : ∀ o : Option ℕ, (∀ j, o = some j → Collectable t now j) → Collectable t now i →
      ∀ j, o.or (some i) = some j → Collectable t now j := by
    intro o ho hi j hj
    cases o with
    | none =>
      rw [← some.inj hj]
      exact hi
    | some k => exact ho j hj
  unfold FrecTable.scanFrec
  dsimp only
  split_ifs with hfree hhard hserver hold hold
  · refine ⟨hor _ h.1 ⟨f, hf, ?_⟩, h.2⟩
    intro hflight
    exact absurd (isNone_iff_eq_none.mp hfree) hflight
  · refine ⟨?_, h.2⟩
    intro j hj
    rw [← some.inj hj]
    refine ⟨f, hf, fun _ => ?_⟩
    -- the hard timeout is the longer one
    have hage := of_decide_eq_true (Bool.and_eq_true_iff.mp hhard).2
    exact le_trans (by decide) hage
  · exact ⟨h.1, hor _ h.2 ⟨f, hf, fun _ => of_decide_eq_true (Bool.and_eq_true_iff.mp hold).2⟩⟩
  · exact h
  · exact ⟨h.1, hor _ h.2 ⟨f, hf, fun _ => of_decide_eq_true (Bool.and_eq_true_iff.mp hold).2⟩⟩
  · exact h

theorem scan_finds (t : FrecTable D) (now : Instant) (serverIdx : ℕ) (force : Bool) :
    (t.frecs.zipIdx.foldl (scanFrec now serverIdx force) ⟨none, none, 0⟩).Finds t now := by
  refine List.foldlRecOn _ _ ?_ ?_
  · exact ⟨by simp, by simp⟩
  · rintro s hs ⟨f, i⟩ hentry
    exact hs.scanFrec serverIdx force (mem_zipIdx_iff_getElem?.mp hentry)

/-- What the scan counts: the record is in flight to the server and young. -/
def CountsFor (now : Instant) (serverIdx : ℕ) (f : Frec D) : Bool :=
  decide (f.sentto = some serverIdx ∧ now - f.sentAt < frecTimeout)

theorem scanFrec_count (serverIdx : ℕ) (s : Scan) (f : Frec D) (i : ℕ) :
    (scanFrec now serverIdx false s (f, i)).count
      = s.count + if CountsFor now serverIdx f then 1 else 0 := by
  unfold FrecTable.scanFrec CountsFor
  dsimp only
  by_cases hc : f.sentto = some serverIdx ∧ now - f.sentAt < frecTimeout
  · -- what is counted is not past the hard timeout, which is the longer one
    have hyoung : ¬ frecHardTimeout ≤ now - f.sentAt :=
      Nat.not_le.mpr (lt_of_lt_of_le hc.2 (by decide))
    rw [if_neg (by simp [hc.1]), if_neg (by simp [hyoung]), if_pos hc, decide_eq_true hc,
      if_pos rfl]
    split <;> rfl
  · rw [decide_eq_false hc, if_neg Bool.false_ne_true]
    split_ifs <;> rfl

theorem foldl_scanFrec_count (serverIdx : ℕ) (frecs : List (Frec D)) (s : Scan) (n : ℕ) :
    ((frecs.zipIdx n).foldl (scanFrec now serverIdx false) s).count
      = s.count + frecs.countP (CountsFor now serverIdx) := by
  induction frecs generalizing s n with
  | nil => rfl
  | cons f frecs ih =>
    rw [zipIdx_cons, foldl_cons, ih, scanFrec_count, countP_cons]
    omega

/-- A new ID is not in use. -/
theorem newId_ne_of_getId {id : UInt16} (h : t.getId draws = some id)
    (hf : t.get idx = some f) (hs : f.sentto ≠ none) : f.newId ≠ id := by
  have hfree := find?_some h
  simp only [Bool.and_eq_true, Bool.not_eq_true', FrecTable.inUse, List.any_eq_false, not_and,
    beq_iff_eq] at hfree
  exact hfree.2 f (List.mem_of_getElem? hf) (Option.isSome_iff_ne_none.mpr hs)

theorem ne_zero_of_getId {id : UInt16} (h : t.getId draws = some id) : id ≠ 0 := by
  have hfree := find?_some h
  simp only [Bool.and_eq_true, bne_iff_ne] at hfree
  exact hfree.1

/-- A lookup finds the first record that matches, if it is young enough. -/
theorem findIdx?_bind_liveAt : (t.frecs.findIdx? p).bind (t.liveAt now) = some idx ↔
      ∃ f, t.get idx = some f ∧ p f ∧ now - f.sentAt < frecHardTimeout
        ∧ ∀ i f', i < idx → t.get i = some f' → p f' = false := by
  rw [bind_eq_some_iff]
  constructor
  · rintro ⟨i, hi, hlive⟩
    obtain ⟨hlt, hmatch, hfirst⟩ := findIdx?_eq_some_iff_getElem.mp hi
    have hget : t.get i = some t.frecs[i] := getElem?_eq_getElem hlt
    unfold liveAt at hlive
    rw [hget] at hlive
    dsimp only at hlive
    split_ifs at hlive with hage
    obtain rfl := some.inj hlive
    refine ⟨_, hget, hmatch, Nat.lt_of_not_le hage, ?_⟩
    intro j f' hj hf'
    obtain ⟨hltj, rfl⟩ := List.getElem?_eq_some_iff.mp hf'
    simpa using hfirst j hj
  · rintro ⟨f, hf, hp, hage, hfirst⟩
    obtain ⟨hlt, rfl⟩ := List.getElem?_eq_some_iff.mp hf
    refine ⟨idx, findIdx?_eq_some_iff_getElem.mpr ⟨hlt, hp, ?_⟩, ?_⟩
    · intro j hj
      have hgetj : t.get j = some _ := getElem?_eq_getElem (by omega)
      simpa using hfirst j _ hj hgetj
    · unfold liveAt
      rw [hf]
      dsimp only
      rw [if_neg (Nat.not_le_of_lt hage)]

/-- A lookup by ID finds the first query in flight with that ID, if it is young enough. -/
theorem lookupFrec_eq_some {id : UInt16} : t.lookupFrec now (some id) 0 0 = some idx ↔
      ∃ f, t.get idx = some f ∧ f.sentto ≠ none ∧ f.newId = id ∧ now - f.sentAt < frecHardTimeout
        ∧ ∀ i f', i < idx → t.get i = some f' → f'.sentto ≠ none → f'.newId ≠ id := by
  have hmatch :
      ∀ f : Frec D, (f.sentto.isSome && f.flags &&& 0 == 0 && (some id).all (f.newId == ·))
      ↔ f.sentto ≠ none ∧ f.newId = id := by
    simp [isSome_iff_ne_none]
  unfold lookupFrec
  rw [findIdx?_bind_liveAt]
  simp only [← Bool.not_eq_true, hmatch, not_and, and_assoc]

/-- A query in flight for the question and under the flags given. -/
def Matches (f : Frec D) (questionHash : D) (fwdFlags : UInt32) : Prop :=
  f.sentto ≠ none ∧ f.questionHash = questionHash ∧ f.flags &&& dedupMask = fwdFlags &&& dedupMask

/-- A lookup by question finds the first query in flight for it, if it is young enough. -/
theorem lookupFrecByQuestion_eq_some [DecidableEq D] :
    t.lookupFrecByQuestion now qhash fwdFlags = some idx ↔
      ∃ f, t.get idx = some f ∧ Matches f qhash fwdFlags ∧ now - f.sentAt < frecHardTimeout
        ∧ ∀ i f', i < idx → t.get i = some f' → ¬ Matches f' qhash fwdFlags := by
  have hmatch : ∀ f : Frec D, (f.sentto.isSome && decide (f.questionHash = qhash)
      && f.flags &&& dedupMask == fwdFlags &&& dedupMask) ↔ Matches f qhash fwdFlags := by
    intro f
    unfold Matches
    rw [Bool.and_eq_true, Bool.and_eq_true, isSome_iff_ne_none, decide_eq_true_eq, beq_iff_eq,
      and_assoc]
  unfold lookupFrecByQuestion
  rw [findIdx?_bind_liveAt]
  simp only [← Bool.not_eq_true, hmatch]

/-! ### Freeing -/

variable [Inhabited D]

theorem frecOk_reset : FrecOk f.reset :=
  ⟨nodup_nil, fun _ => rfl, fun _ => rfl, rfl⟩

theorem frecOk_newFree : FrecOk (Frec.newFree now : Frec D) :=
  ⟨nodup_nil, fun _ => rfl, fun _ => rfl, rfl⟩

theorem freeFrec_of_none (h : t.get idx = none) : t.freeFrec idx = t := by
  have h' : t.frecs[idx]? = none := h
  rw [freeFrec]
  split
  · rfl
  · next f hf =>
    rw [h'] at hf
    cases hf

theorem freeFrec_of_some (hf : t.get idx = some f) (hblock : f.blockingQuery = none) :
    t.freeFrec idx = t.freeOne idx f := by
  have hf' : t.frecs[idx]? = some f := hf
  rw [freeFrec]
  split
  · next h =>
    rw [h] at hf'
    cases hf'
  · next g hg =>
    rw [hg] at hf'
    obtain rfl := some.inj hf'
    split
    · rfl
    · next bq hbq =>
      rw [hbq] at hblock
      cases hblock

theorem freeFrec_maxPerGroup (t : FrecTable D) (idx : ℕ) :
    (t.freeFrec idx).maxPerGroup = t.maxPerGroup := by
  fun_induction freeFrec t idx with
  | case5 t idx f _ bq _ b _ _ ih => exact ih
  | _ => rfl

theorem foldl_freeFrec_maxPerGroup (t : FrecTable D) (idxs : List ℕ) :
    (idxs.foldl FrecTable.freeFrec t).maxPerGroup = t.maxPerGroup := by
  induction idxs generalizing t with
  | nil => rfl
  | cons idx idxs ih => rw [foldl_cons, ih, freeFrec_maxPerGroup]

theorem get_freeOne (hf : t.get idx = some f) :
    (t.freeOne idx f).get i = if i = idx then some f.reset else t.get i := by
  have hlt : idx < t.frecs.length := (List.getElem?_eq_some_iff.mp hf).1
  unfold FrecTable.get freeOne
  by_cases hi : i = idx
  · rw [if_pos hi, hi, getElem?_set_self hlt]
  · rw [if_neg hi, getElem?_set_ne (Ne.symm hi)]

/-- **What `free_frec` does**: the record is free afterwards and nothing else changes, and its slots
are parked. -/
theorem TableOk.freeFrec (h : TableOk t) (idx : ℕ) :
    TableOk (t.freeFrec idx) ∧ Retires t (t.freeFrec idx)
      ∧ (t.held).Perm (t.freeFrec idx).held
      ∧ (∀ f, (t.freeFrec idx).get idx = some f → f.sentto = none)
      ∧ (t.freeFrec idx).frecs.length = t.frecs.length := by
  cases hf : t.get idx with
  | none =>
    rw [freeFrec_of_none hf]
    refine ⟨h, Retires.refl t, List.Perm.refl _, ?_, rfl⟩
    intro f hf'
    rw [hf] at hf'
    cases hf'
  | some f =>
    rw [freeFrec_of_some hf (h.get hf).blocking]
    refine ⟨?_, ?_, ?_, ?_, ?_⟩
    · refine ⟨?_, ?_, ?_⟩
      · intro g hg
        rcases mem_or_eq_of_mem_set hg with hg | rfl
        · exact h.records g hg
        · exact frecOk_reset
      · have hlen := (flatMap_set_perm hf f.reset (·.extraSrcs)).length_eq
        rw [length_append, length_append] at hlen
        have hcount := h.count
        unfold joined at hcount
        show t.frecSrcCount - f.extraSrcs.length
          = ((t.frecs.set idx f.reset).flatMap (·.extraSrcs)).length
        simp only [Frec.reset, length_nil] at hlen ⊢
        omega
      · exact (Nat.sub_le _ _).trans h.bound
    · intro i g hg hs
      rw [get_freeOne hf] at hg
      split_ifs at hg with hi
      · rw [← some.inj hg] at hs
        exact absurd rfl hs
      · exact hg
    · have hperm := flatMap_set_perm hf f.reset (·.rfds)
      show (t.frecs.flatMap (·.rfds) ++ t.releasedRfds).Perm
        ((t.frecs.set idx f.reset).flatMap (·.rfds) ++ (t.releasedRfds ++ f.rfds))
      calc t.frecs.flatMap (·.rfds) ++ t.releasedRfds
        _ |>.Perm (f.rfds ++ (t.frecs.set idx f.reset).flatMap (·.rfds) ++ t.releasedRfds) :=
          hperm.symm.append_right _
        _ |>.Perm ((t.frecs.set idx f.reset).flatMap (·.rfds) ++ t.releasedRfds ++ f.rfds) := by
          rw [append_assoc]
          exact perm_append_comm
        _ |>.Perm _ := by rw [append_assoc]
    · intro g hg
      rw [get_freeOne hf, if_pos rfl] at hg
      rw [← some.inj hg]
      rfl
    · exact length_set

theorem TableOk.foldl_freeFrec (h : TableOk t) (idxs : List ℕ) :
    TableOk (idxs.foldl FrecTable.freeFrec t) ∧ Retires t (idxs.foldl FrecTable.freeFrec t)
      ∧ (t.held).Perm (idxs.foldl FrecTable.freeFrec t).held := by
  induction idxs generalizing t with
  | nil => exact ⟨h, Retires.refl t, List.Perm.refl _⟩
  | cons idx idxs ih =>
    obtain ⟨hok, hret, hperm, -⟩ := h.freeFrec idx
    obtain ⟨hok', hret', hperm'⟩ := ih hok
    exact ⟨hok', hret.trans hret', hperm.trans hperm'⟩

/-! ### Claiming a slot for a new query -/

/-- The slot at `idx` has been claimed: it holds a free record, the others are as they were, and
what was in flight in it was old. -/
structure ClaimOk (t t' : FrecTable D) (now : Instant) (idx : ℕ) : Prop where
  slot : ∃ f, t'.get idx = some f ∧ f.sentto = none
  others : ∀ i, i ≠ idx → t'.get i = t.get i
  evicts : ∀ f, t.get idx = some f → f.sentto ≠ none → frecTimeout ≤ now - f.sentAt

/-- The slot claimed holds a free record, and nothing in flight has changed. -/
theorem TableOk.claimSlot (h : TableOk t) (now : Instant)
    (htarget : ∀ i, target = some i → Collectable t now i) :
    TableOk (t.claimSlot now target).1 ∧ Retires t (t.claimSlot now target).1
      ∧ (t.held).Perm (t.claimSlot now target).1.held
      ∧ ClaimOk t (t.claimSlot now target).1 now (t.claimSlot now target).2 := by
  unfold FrecTable.claimSlot
  cases target with
  | none =>
    refine ⟨?_, ?_, ?_, ⟨Frec.newFree now, ?_, rfl⟩, ?_, ?_⟩
    · refine ⟨?_, ?_, h.bound⟩
      · intro f hf
        rcases mem_append.mp hf with hf | hf
        · exact h.records f hf
        · rw [mem_singleton.mp hf]
          exact frecOk_newFree
      · show t.frecSrcCount = _
        rw [h.count]
        unfold joined
        simp [Frec.newFree]
    · intro i f hf hs
      unfold FrecTable.get at hf
      rcases Nat.lt_or_ge i t.frecs.length with hi | hi
      · rwa [getElem?_append_left hi] at hf
      · rw [getElem?_append_right hi, getElem?_singleton] at hf
        split_ifs at hf
        rw [← some.inj hf] at hs
        exact absurd rfl hs
    · unfold held
      simp [Frec.newFree]
    · unfold FrecTable.get
      simp
    · intro i hi
      unfold FrecTable.get
      dsimp only at hi ⊢
      rcases Nat.lt_or_ge i t.frecs.length with hlt | hge
      · rw [getElem?_append_left hlt]
      · rw [getElem?_eq_none hge, getElem?_eq_none]
        rw [length_append, length_singleton]
        omega
    · intro f hf
      unfold FrecTable.get at hf
      simp at hf
  | some i =>
    dsimp only
    obtain ⟨f, hf, hold⟩ := htarget i rfl
    have hevicts : ∀ f', t.get i = some f' → f'.sentto ≠ none → frecTimeout ≤ now - f'.sentAt := by
      intro f' hf'
      obtain rfl := some.inj (hf.symm.trans hf')
      exact hold
    by_cases hflight : (t.get i).any (·.sentto.isSome)
    · rw [if_pos hflight]
      obtain ⟨hok, hret, hperm, -, -⟩ := h.freeFrec i
      refine ⟨hok, hret, hperm, ⟨f.reset, ?_, rfl⟩, ?_, hevicts⟩
      · rw [freeFrec_of_some hf (h.get hf).blocking, get_freeOne hf, if_pos rfl]
      · intro j hj
        rw [freeFrec_of_some hf (h.get hf).blocking, get_freeOne hf, if_neg hj]
    · rw [if_neg hflight]
      refine ⟨h, Retires.refl t, List.Perm.refl _, ⟨f, hf, ?_⟩, fun _ _ => rfl, hevicts⟩
      rw [hf] at hflight
      simpa using hflight

theorem getNewFrec_maxPerGroup (t : FrecTable D) (now : Instant) (serverIdx : ℕ) (force : Bool) :
    (t.getNewFrec now serverIdx force).1.maxPerGroup = t.maxPerGroup := by
  unfold FrecTable.getNewFrec
  dsimp only
  split
  · exact emitQueryFull_maxPerGroup now
  · show ((t.claimSlot now _).1).maxPerGroup = t.maxPerGroup
    unfold FrecTable.claimSlot
    split
    · split
      · exact freeFrec_maxPerGroup t _
      · rfl
    · rfl

/-- A slot is found only while the server has fewer than `max_per_group` young queries in flight. -/
theorem countP_lt_of_getNewFrec {serverIdx : ℕ}
    (h : (t.getNewFrec now serverIdx false).2 = some idx) :
    t.frecs.countP (CountsFor now serverIdx) < t.maxPerGroup := by
  unfold FrecTable.getNewFrec at h
  dsimp only at h
  split at h
  · cases h
  · next hroom =>
    rw [foldl_scanFrec_count] at hroom
    simpa using hroom

/-- **What `get_new_frec` does**: nothing in flight changes but what it evicts, no slot is lost, and
the record it returns is free and stamped with the time. -/
theorem TableOk.getNewFrec (h : TableOk t) (now : Instant) (serverIdx : ℕ) (force : Bool) :
    TableOk (t.getNewFrec now serverIdx force).1 ∧ Retires t (t.getNewFrec now serverIdx force).1
      ∧ (t.held).Perm (t.getNewFrec now serverIdx force).1.held
      ∧ ∀ idx, (t.getNewFrec now serverIdx force).2 = some idx →
        ClaimOk t (t.getNewFrec now serverIdx force).1 now idx
          ∧ ∀ f, (t.getNewFrec now serverIdx force).1.get idx = some f → f.sentAt = now := by
  have hscan := scan_finds t now serverIdx force
  unfold FrecTable.getNewFrec
  generalize t.frecs.zipIdx.foldl (scanFrec now serverIdx force) ⟨none, none, 0⟩ = scan at hscan ⊢
  dsimp only
  split
  · refine ⟨h.emitQueryFull now, ?_, ?_, fun _ h => nomatch h⟩
    · intro i f hf _
      unfold FrecTable.get at hf ⊢
      rwa [emitQueryFull_frecs] at hf
    · unfold held
      rw [emitQueryFull_frecs, emitQueryFull_releasedRfds]
  · generalize htarget : scan.freeSlot.or (if (!force) then scan.oldestSlot else none) = target
    have hfound : ∀ i, target = some i → Collectable t now i := by
      intro i hi
      rw [← htarget, or_eq_some_iff] at hi
      rcases hi with hi | ⟨-, hi⟩
      · exact hscan.1 i hi
      · split_ifs at hi
        exact hscan.2 i hi
    obtain ⟨hok, hret, hperm, hclaim⟩ := h.claimSlot now hfound
    generalize t.claimSlot now target = claimed at hok hret hperm hclaim
    obtain ⟨t', idx⟩ := claimed
    obtain ⟨f, hf, hs⟩ := hclaim.slot
    generalize hg : (fun f : Frec D => { f with sentAt := now, uid := t'.nextUid }) = g
    have hget : ∀ i, (t'.modify idx g).get i = if i = idx then (t'.get i).map g else t'.get i :=
      get_modify t' idx g
    have hself := get_modify_self g hf
    refine ⟨?_, ?_, ?_, ?_⟩
    · have hmod : TableOk (t'.modify idx g) := by
        subst hg
        refine hok.modify ?_ fun _ => rfl
        intro f₀ hf₀
        have hfok := hok.get hf₀
        exact ⟨hfok.nodup, hfok.idle, hfok.unjoined, hfok.blocking⟩
      exact ⟨hmod.records, hmod.count, hmod.bound⟩
    · intro i f' hf' hs'
      have hf'' : (t'.modify idx g).get i = some f' := hf'
      rw [hget] at hf''
      split_ifs at hf'' with hi
      · -- the slot itself is free
        subst hi hg
        rw [hf] at hf''
        rw [← some.inj hf''] at hs'
        exact absurd hs hs'
      · exact hret i f' hf'' hs'
    · have hmod : ((t'.modify idx g).held).Perm t'.held :=
        held_modify_of_eq fun f₀ => by subst hg; rfl
      exact hperm.trans hmod.symm
    · intro j hj
      obtain rfl := some.inj hj
      refine ⟨⟨⟨g f, hself, by subst hg; exact hs⟩, ?_, hclaim.evicts⟩, ?_⟩
      · intro i hi
        show (t'.modify idx g).get i = t.get i
        rw [hget, if_neg hi]
        exact hclaim.others i hi
      · intro f' hf'
        have hf'' : (t'.modify idx g).get idx = some f' := hf'
        rw [hself] at hf''
        rw [← some.inj hf'']
        subst hg
        rfl

end DnsmasqRs.Forward.FrecTable
