import Mathlib.Data.List.Count
import DnsmasqRs.Types
import DnsmasqRs.Forward.Pool

/-!
# The table of in-flight queries (`FrecTable` in `forward.rs`)

A `Frec` is in flight while its `sentto` is set.  The table never shrinks: a freed record is reset
and its index used again.  The pool slots of freed records are parked in `releasedRfds` until the
engine hands them back to the pool.

`D` is the type of question digests; `default` is the all-zero one.
-/

namespace DnsmasqRs.Forward

open Wire List

/-- `FREC_TIMEOUT_SECS`. -/
def frecTimeoutSecs : ℕ := 10

/-- The age at which a record may be evicted, and the one at which it is dead. -/
def frecTimeout : ℕ := fromSecs frecTimeoutSecs

@[inherit_doc frecTimeout]
def frecHardTimeout : ℕ := fromSecs (4 * frecTimeoutSecs)

def frecCheckingDisabled : UInt32 := 2
def frecNoCache : UInt32 := 4
def frecDnskeyQuery : UInt32 := 8
def frecDsQuery : UInt32 := 16
def frecAdQuestion : UInt32 := 32
def frecDoQuestion : UInt32 := 64
def frecHasPheader : UInt32 := 128

/-- `DEDUP_MASK`. -/
def dedupMask : UInt32 :=
  frecCheckingDisabled ||| frecAdQuestion ||| frecDoQuestion ||| frecHasPheader ||| frecDnskeyQuery
    ||| frecDsQuery ||| frecNoCache

/-- `FrecSrc`: a client waiting on a query. -/
structure FrecSrc where
  source : Option SocketAddr := none
  dest : Option IpAddr := none
  fd : ℤ := 0
  origId : UInt16 := 0
  deriving DecidableEq

/-- `Frec`: a forwarded query. -/
structure Frec (D : Type) where
  frecSrc : FrecSrc
  extraSrcs : List FrecSrc
  sentto : Option ℕ
  newId : UInt16
  forwardall : Bool
  flags : UInt32
  sentAt : Instant
  stash : Option Bytes
  questionHash : D
  rfds : RfdList
  /-- `HashSet<usize>`, as a list without duplicates. -/
  tried : List ℕ
  retries : UInt8
  uid : UInt32
  blockingQuery : Option ℕ
  dependent : Option ℕ
  deriving DecidableEq

variable {D : Type} [Inhabited D]

namespace Frec

/-- `Frec::new_free`. -/
def newFree (now : Instant) : Frec D where
  frecSrc := {}
  extraSrcs := []
  sentto := none
  newId := 0
  forwardall := false
  flags := 0
  sentAt := now
  stash := none
  questionHash := default
  rfds := []
  tried := []
  retries := 0
  uid := 0
  blockingQuery := none
  dependent := none

/-- `Frec::srcs`. -/
def srcs (f : Frec D) : List FrecSrc := f.frecSrc :: f.extraSrcs

/-- A record as `free_frec` leaves it. -/
def reset (f : Frec D) : Frec D :=
  { f with
    rfds := [], sentto := none, flags := 0, stash := none, questionHash := default, tried := [],
    retries := 0, frecSrc := {}, extraSrcs := [], forwardall := false, blockingQuery := none,
    dependent := none }

end Frec

/-- `FrecTable`. -/
structure FrecTable (D : Type) where
  frecs : List (Frec D)
  maxPerGroup : ℕ
  frecSrcCount : ℕ
  nextUid : UInt32
  lastFullLog : Option Instant
  releasedRfds : RfdList
  deriving DecidableEq

namespace FrecTable

/-- `FrecTable::new`. -/
def new (maxPerGroup : ℕ) : FrecTable D where
  frecs := []
  maxPerGroup := maxPerGroup
  frecSrcCount := 0
  nextUid := 0
  lastFullLog := none
  releasedRfds := []

variable (t : FrecTable D) (now : Instant) (idx : ℕ)

/-- `FrecTable::get`. -/
def get : Option (Frec D) := t.frecs[idx]?

/-- A write through `FrecTable::get_mut`. -/
def modify (g : Frec D → Frec D) : FrecTable D :=
  { t with frecs := t.frecs.modify idx g }

/-- `free_frec` on one record: reset it, park its slots and return its clients to the budget. -/
def freeOne (f : Frec D) : FrecTable D :=
  { t with
    frecs := t.frecs.set idx f.reset
    releasedRfds := t.releasedRfds ++ f.rfds
    frecSrcCount := t.frecSrcCount - f.extraSrcs.length }

/-- Freeing a record that waits on another leaves one less that waits. -/
theorem countP_freeOne_lt {t : FrecTable D} {idx bq : ℕ} {f : Frec D} (hf : t.frecs[idx]? = some f)
    (hbq : f.blockingQuery = some bq) : (t.freeOne idx f).frecs.countP (·.blockingQuery.isSome)
      < t.frecs.countP (·.blockingQuery.isSome) := by
  obtain ⟨hlt, hget⟩ := List.getElem?_eq_some_iff.mp hf
  have hpos : 0 < t.frecs.countP (·.blockingQuery.isSome) := by
    rw [countP_pos_iff]
    exact ⟨f, hget ▸ getElem_mem hlt, by rw [hbq]; rfl⟩
  unfold freeOne
  rw [countP_set hlt, hget]
  simp only [hbq, Frec.reset, Option.isSome_some, Option.isSome_none, ↓reduceIte,
    Bool.false_eq_true]
  omega

/-- `FrecTable::free_frec`: with the record, the query it blocks on is freed unless that one still
has another dependent. -/
def freeFrec (t : FrecTable D) (idx : ℕ) : FrecTable D :=
  match _hf : t.frecs[idx]? with
  | none => t
  | some f =>
    match _hbq : f.blockingQuery with
    | none => t.freeOne idx f
    | some bq =>
      match (t.freeOne idx f).frecs[bq]? with
      | none => t.freeOne idx f
      | some b =>
        if b.dependent.isSome && b.dependent != some idx then t.freeOne idx f
        else freeFrec (t.freeOne idx f) bq
  termination_by t.frecs.countP (·.blockingQuery.isSome)
  decreasing_by exact countP_freeOne_lt _hf _hbq

/-- What the scan of `get_new_frec` has found so far. -/
structure Scan where
  freeSlot : Option ℕ
  oldestSlot : Option ℕ
  count : ℕ
  deriving DecidableEq

/-- One turn of the scan. -/
def scanFrec (serverIdx : ℕ) (force : Bool) (acc : Scan) (entry : Frec D × ℕ) : Scan :=
  let (f, i) := entry
  if f.sentto.isNone then { acc with freeSlot := acc.freeSlot.or (some i) }
  else
    -- only records nothing depends on may be collected
    let collect := !force && f.dependent.isNone
    if collect && frecHardTimeout ≤ now - f.sentAt then { acc with freeSlot := some i }
    else
      let acc :=
        if collect && frecTimeout ≤ now - f.sentAt then
          { acc with oldestSlot := acc.oldestSlot.or (some i) }
        else acc
      if f.sentto = some serverIdx ∧ now - f.sentAt < frecTimeout then
        { acc with count := acc.count + 1 }
      else acc

/-- `FrecTable::emit_query_full`, apart from the log line: at most one every five seconds. -/
def emitQueryFull : FrecTable D :=
  if t.lastFullLog.all fun last => decide (fromSecs 5 ≤ now - last) then
    { t with lastFullLog := some now }
  else t

/-- The slot `get_new_frec` uses: evict the record in it if it is in flight, or grow the table. -/
def claimSlot (target : Option ℕ) : FrecTable D × ℕ :=
  match target with
  | some i => (if (t.get i).any (·.sentto.isSome) then t.freeFrec i else t, i)
  | none => ({ t with frecs := t.frecs ++ [Frec.newFree now] }, t.frecs.length)

/-- `FrecTable::get_new_frec`. -/
def getNewFrec (serverIdx : ℕ) (force : Bool) : FrecTable D × Option ℕ :=
  let scan := t.frecs.zipIdx.foldl (scanFrec now serverIdx force) ⟨none, none, 0⟩
  if !force && t.maxPerGroup ≤ scan.count then (t.emitQueryFull now, none)
  else
    let target := scan.freeSlot.or (if !force then scan.oldestSlot else none)
    let (t, idx) := t.claimSlot now target
    ({ t.modify idx fun f => { f with sentAt := now, uid := t.nextUid } with
        nextUid := t.nextUid + 1 },
      some idx)

/-- Some query in flight has this ID. -/
def inUse (id : UInt16) : Bool :=
  t.frecs.any fun f => f.sentto.isSome && f.newId == id

/-- `FrecTable::get_id` on a stream of random draws; `none` where none of them will do. -/
def getId (draws : List UInt16) : Option UInt16 :=
  draws.find? fun id => id != 0 && !t.inUse id

/-- The record at `idx`, unless it is too old to be answered. -/
def liveAt : Option ℕ :=
  match t.get idx with
  | none => none
  | some f => if frecHardTimeout ≤ now - f.sentAt then none else some idx

/-- `FrecTable::lookup_frec`. -/
def lookupFrec (id : Option UInt16) (flags flagmask : UInt32) : Option ℕ :=
  (t.frecs.findIdx? fun f =>
    f.sentto.isSome && f.flags &&& flagmask == flags && id.all (f.newId == ·)).bind (t.liveAt now)

/-- `FrecTable::lookup_frec_by_question`. -/
def lookupFrecByQuestion [DecidableEq D] (t : FrecTable D) (now : Instant) (questionHash : D)
    (fwdFlags : UInt32) : Option ℕ :=
  (t.frecs.findIdx? fun f =>
    f.sentto.isSome && decide (f.questionHash = questionHash)
      && f.flags &&& dedupMask == fwdFlags &&& dedupMask).bind (t.liveAt now)

/-- `FrecTable::add_src`. -/
def addSrc (src : FrecSrc) : FrecTable D × Bool :=
  if t.maxPerGroup ≤ t.frecSrcCount then (t, false)
  else
    match t.get idx with
    | none => (t, false)
    | some _ =>
      ({ t.modify idx fun f => { f with extraSrcs := f.extraSrcs ++ [src] } with
          frecSrcCount := t.frecSrcCount + 1 },
        true)

/-- The records `expire_old` frees. -/
def stale (now timeout : ℕ) : List ℕ :=
  (t.frecs.zipIdx.filter fun (f, _) => f.sentto.isSome
    && decide (timeout < now - f.sentAt)).map Prod.snd

/-- `FrecTable::expire_old`. -/
def expireOld (now timeout : ℕ) : FrecTable D × ℕ :=
  ((t.stale now timeout).foldl freeFrec t, (t.stale now timeout).length)

end FrecTable

end DnsmasqRs.Forward
