import DnsmasqRs.Lib.BinarySearch
import DnsmasqRs.Lib.StableSort
import DnsmasqRs.Types

/-!
# Domain-to-server matching (`domain_match.rs`)

The array of server entries, sorted with the longest domains first, and the lookup of a query name
in it: a bisection for the longest suffix of the name that is some entry's domain, with the lower
bound carried from one suffix to the next and the query cropped by computed amounts between them.

`ServerArray` carries the order of its entries as a field, which `build` establishes.  `lookup`
returns a `Fault` where the source panics: a slice off a character boundary, an index out of range,
or a crop by a negative amount.  The last one wraps around in `start += crop_query as usize`: with
overflow checks the addition or the next use of `start` panics, and without them the walk goes back
to where it came from.
-/

namespace DnsmasqRs.DomainMatch

open Utf8 BinarySearch

/-! ### Names (`hostname.rs`) -/

/-- `hostname_order`. -/
def hostnameOrder : Str → Str → Ordering
  | c :: a, d :: b => (compare c.toLower d.toLower).then (hostnameOrder a b)
  | [], [] => .eq
  | [], _ :: _ => .lt
  | _ :: _, [] => .gt

theorem hostnameOrder_eq_compare : hostnameOrder a b = compare (asciiLower a) (asciiLower b) := by
  fun_induction hostnameOrder a b with
  | case1 c a d b ih =>
    rw [ih]
    exact List.compareLex_cons_cons.symm
  | case2 | case3 | case4 => rfl

/-! ### Entries and their order -/

/-- `ServerEntry`. -/
structure ServerEntry where
  domain : Str
  flags : ServFlags
  serial : ℤ
  index : ℕ
  isLocal : Bool
  deriving DecidableEq

namespace ServerEntry

/-- `domain_len`. -/
def domainLen (e : ServerEntry) : ℕ := byteLen e.domain

def isNodots (e : ServerEntry) : Bool := ServFlags.contains e.flags .forNodots

def isWildcard (e : ServerEntry) : Bool := ServFlags.contains e.flags .wildcard

end ServerEntry

/-- `order_entry`: `lt` is the source's -1, look left, and `gt` its 1, look right. -/
def orderEntry (qdomain : Str) (entry : ServerEntry) : Ordering :=
  if entry.isNodots then .lt
  else if byteLen qdomain < entry.domainLen then .gt
  else if entry.domainLen < byteLen qdomain then .lt
  else hostnameOrder qdomain entry.domain

/-- The first three criteria of `compare_entries`, which put the entries of a domain next to each
other: `FOR_NODOTS` last, long domains first, then by name. -/
def groupOrder : ServerEntry → ServerEntry → Ordering :=
  compareLex (compareOn ServerEntry.isNodots)
    (compareLex (fun a b => compare b.domainLen a.domainLen)
      fun a b => hostnameOrder a.domain b.domain)

/-- `TYPE_FLAGS`. -/
def typeFlags : ServFlags := 0x001f

/-- `compare_entries`. -/
def compareEntries (a b : ServerEntry) : Ordering :=
  (groupOrder a b).then <| (compare a.isWildcard b.isWildcard).then <|
    (compare (b.flags &&& typeFlags) (a.flags &&& typeFlags)).then <|
      if !a.isLocal && !b.isLocal then compare a.serial b.serial else .eq

/-! ### The array -/

instance : Std.TransCmp groupOrder := by
  have hname :
      (fun a b : ServerEntry => hostnameOrder a.domain b.domain) = compareOn fun e =>
        asciiLower e.domain := by
    ext a b
    exact hostnameOrder_eq_compare
  have hlen : Std.TransCmp fun a b : ServerEntry => compare b.domainLen a.domainLen :=
    inferInstanceAs (Std.TransCmp fun a b => compareOn ServerEntry.domainLen b a)
  unfold groupOrder
  rw [hname]
  infer_instance

/-- `ServerArray`: its entries are in the order of their groups. -/
structure ServerArray where
  entries : List ServerEntry
  hasWildcard : Bool
  sorted : entries.Pairwise fun a b => (groupOrder a b).isLE

/-- The entries in the order `build` pushes them: the servers that are not in a loop, numbered, and
then the local domains. -/
def unsortedEntries (servers localDomains : List Server) : List ServerEntry :=
  let upstream := servers.zipIdx.filter fun (s, _) => !ServFlags.contains s.flags .loop
  upstream.zipIdx.map (fun ((s, i), serial) => ⟨s.domain, s.flags, serial, i, false⟩)
    ++ localDomains.zipIdx.map fun (s, i) => ⟨s.domain, s.flags, 0, i, true⟩

/-- `compare_entries` refines the order of the groups.  (It is no total order: the serial number
counts only between two upstream servers.) -/
theorem pairwise_sortBy_compareEntries :
    (StableSort.sortBy compareEntries l).Pairwise fun a b => (groupOrder a b).isLE := by
  apply StableSort.pairwise_sortBy
  · intro a b c
    exact Std.TransCmp.isLE_trans
  · intro a b hlt
    rcases Ordering.then_eq_lt.mp hlt with h | ⟨h, -⟩ <;> rw [h] <;> rfl
  · intro a b hge
    have hswap : groupOrder b a = (groupOrder a b).swap := Std.OrientedCmp.eq_swap
    cases h : groupOrder a b with
    | lt => exact absurd (Ordering.then_eq_lt.mpr (.inl h)) hge
    | eq | gt => rw [hswap, h]; rfl

/-- `ServerArray::build`. -/
def ServerArray.build (servers localDomains : List Server) : ServerArray where
  entries := StableSort.sortBy compareEntries (unsortedEntries servers localDomains)
  hasWildcard := (unsortedEntries servers localDomains).any (·.isWildcard)
  sorted := pairwise_sortBy_compareEntries

/-! ### Narrowing a group to a kind of server -/

/-- Go back from an index as long as the index before it passes. -/
def backWhile (p : ℕ → Bool) : ℕ → ℕ
  | 0 => 0
  | i + 1 => if p i then backWhile p i else i + 1

/-- Go forward from an index below `n` as long as the test allows the step. -/
def forwardWhile (p : ℕ → Bool) (n i : ℕ) : ℕ :=
  if i + 1 < n ∧ p i then forwardWhile p n (i + 1) else i
  termination_by n - i

/-- `(lo..hi).find(|i| p(entries[i]))`. -/
def findIn (entries : List ServerEntry) (p : ServerEntry → Bool) (lo hi : ℕ) :
    Except Fault (Option ℕ) :=
  if lo < hi then
    match entries[lo]? with
    | none => .error .index
    | some e => if p e then .ok (some lo) else findIn entries p (lo + 1) hi
  else .ok none
  termination_by hi - lo

/-- The kinds of entries in the order they stand in a group, and whether a query with these flags is
content with that kind. -/
def kinds (flags : UInt32) : List (ServFlags × Bool) :=
  [(.addr6, flags &&& fServer == 0 && flags &&& fIpv6 != 0),
    (.addr4, flags &&& fServer == 0 && flags &&& fIpv4 != 0),
    (.allZeros, flags &&& fServer == 0 && flags &&& (fIpv4 ||| fIpv6) != 0),
    (.literalAddress, flags &&& (fDomainsrv ||| fServer) == 0),
    (.useResolv, true)]

/-- The cascade of `filter_servers_impl` through the kinds, from `lo`, ending with the upstream
servers. -/
def narrow (entries : List ServerEntry) (flags : UInt32) (hi : ℕ) :
    List (ServFlags × Bool) → ℕ → Except Fault (Option (ℕ × ℕ))
  | [], lo =>
    if lo < hi then
      match entries[lo]? with
      | none => .error .index
      | some e =>
        -- a catch-all upstream does not belong to a specific domain
        if flags &&& fDomainsrv != 0 && e.domainLen == 0 && !e.isNodots then .ok none
        else .ok (some (lo, hi))
    else .ok none
  | (kind, wanted) :: rest, lo => do
    let i := (← findIn entries (fun e => !ServFlags.contains e.flags kind) lo hi).getD hi
    if wanted && i != lo then return some (lo, i) else narrow entries flags hi rest i

namespace ServerArray

variable (arr : ServerArray) (domain : Str) (start : ℕ) (flags : UInt32)

/-- `ServerArray::same_group`. -/
def sameGroup (a b : ℕ) : Bool :=
  match arr.entries[a]?, arr.entries[b]? with
  | some ea, some eb => if ea.isNodots then eb.isNodots else orderEntry ea.domain eb == .eq
  | _, _ => false

/-- `SERV_LOCAL_ADDRESS`. -/
def servLocalAddress : ServFlags := 0x001c

/-- `ServerArray::filter_servers`. -/
def filterServers (seed : ℕ) (flags : UInt32) : Except Fault (Option (ℕ × ℕ)) :=
  if arr.entries.length ≤ seed then .ok none
  else
    let nlow := backWhile (fun i => arr.sameGroup i (i + 1)) seed
    let nhigh := forwardWhile (fun i => arr.sameGroup i (i + 1)) arr.entries.length seed + 1
    if flags &&& fConfig != 0 then do
      -- anything that can answer with an address
      let found ← findIn arr.entries (fun e => ServFlags.intersects e.flags servLocalAddress) nlow
        nhigh
      return if found.isSome then some (nlow, nhigh) else none
    else narrow arr.entries flags nhigh (kinds flags) nlow

/-! ### The lookup -/

/-- The state of the outer loop: `start`, the carried lower bound and the flags.  The remaining
query is the name from `start` on, and `qlen` its length. -/
structure Cursor where
  start : ℕ
  low : ℕ
  flags : UInt32
  deriving DecidableEq

/-- `order_entry` at an index, as the bisection asks it. -/
def probe (qdomain : Str) (i : ℕ) : Option Ordering :=
  arr.entries[i]?.map (orderEntry qdomain)

/-- `crop_query` after the bisection. -/
def cropQuery (qlen : ℕ) : Outcome → Except Fault ℤ
  | .hit _ => .ok 1
  | .below i =>
    match arr.entries[i]? with
    | none => .error .index
    | some e => .ok (qlen - e.domainLen)
  | .above i =>
    match arr.entries[i]? with
    | none => .error .index
    | some e =>
      -- the next domain of another length
      match (arr.entries.drop (i + 1)).find? fun e' => e'.domainLen ≠ e.domainLen with
      | some e' => .ok (qlen - e'.domainLen)
      | none => .ok 1

/-- The loop that jumps to the next label. -/
def nextLabel (domain : Str) (start : ℕ) : ℕ :=
  if start < byteLen domain ∧ 0 < start ∧ (bytes domain)[start - 1]? ≠ some 0x2E then
    nextLabel domain (start + 1)
  else start
  termination_by byteLen domain - start

/-- Crop the query: the next `start`. -/
def advance (crop : ℤ) : Except Fault ℕ :=
  let crop := if crop = 0 then 1 else crop
  if crop < 0 then .error .overflow
  else
    let start := start + crop.toNat
    .ok (if arr.hasWildcard then start else nextLabel domain start)

/-- The query at `start` begins at a label, or is empty. -/
def atBoundary : Bool :=
  start == 0 || start == byteLen domain || (bytes domain)[start - 1]? == some 0x2E

/-- The range of the group that the bisection hit, unless only a wildcard could match and there is
none. -/
def hitRange (qdomain : Str) (start found : ℕ) (flags : UInt32) : Except Fault (Option (ℕ × ℕ)) :=
  if arr.hasWildcard then
    let first := backWhile (fun i => arr.probe qdomain i == some .eq) found
    if atBoundary domain start then arr.filterServers first flags
    else
      let last :=
        forwardWhile (fun i => arr.probe qdomain (i + 1) == some .eq) arr.entries.length first
      match arr.entries[last]? with
      | none => .error .index
      | some e => if e.isWildcard then arr.filterServers last flags else .ok none
  else arr.filterServers found flags

/-- The cursor after cropping the query. -/
def goOn (low : ℕ) (flags : UInt32) (crop : ℤ) : Except Fault ((ℕ × ℕ) ⊕ Cursor) :=
  (arr.advance domain start crop).map fun start => .inr ⟨start, low, flags⟩

/-- One turn of the outer loop: a range, or where to go on. -/
def lookupStep (c : Cursor) : Except Fault ((ℕ × ℕ) ⊕ Cursor) :=
  match sliceFrom domain c.start with
  | none => .error .slice
  | some qdomain =>
    match bisect (arr.probe qdomain) c.low arr.entries.length with
    | none => .error .index
    | some (.hit found, low) =>
      match arr.hitRange domain qdomain c.start found c.flags with
      | .error fault => .error fault
      | .ok none => arr.goOn domain c.start low c.flags 1
      | .ok (some (nl, nh)) =>
        match arr.entries[nl]? with
        | none => .error .index
        | some e =>
          if ServFlags.contains e.flags .useResolv then
            -- "use resolv.conf": go on at the empty query, for real servers only
            arr.goOn domain c.start low (c.flags ||| fServer) (byteLen qdomain)
          else .ok (.inl (nl, nh))
    | some (outcome, low) =>
      match arr.cropQuery (byteLen qdomain) outcome with
      | .error fault => .error fault
      | .ok crop => arr.goOn domain c.start low c.flags crop

theorem le_nextLabel (domain : Str) (start : ℕ) : start ≤ nextLabel domain start := by
  fun_induction nextLabel domain start with
  | case1 start h ih => omega
  | case2 start h => exact le_rfl

theorem lt_of_advance {arr : ServerArray} {domain : Str} {start start' : ℕ} {crop : ℤ}
    (h : arr.advance domain start crop = .ok start') : start < start' := by
  unfold advance at h
  dsimp only at h
  split_ifs at h with hzero hneg hwild hneg hwild <;> cases h
  · omega
  · have := le_nextLabel domain (start + (1 : ℤ).toNat)
    omega
  · omega
  · have := le_nextLabel domain (start + crop.toNat)
    omega

theorem lt_of_goOn {arr : ServerArray} {domain : Str} {start low : ℕ} {flags : UInt32} {crop : ℤ}
    {c' : Cursor} (h : arr.goOn domain start low flags crop = .ok (.inr c')) :
    start < c'.start := by
  unfold goOn at h
  cases hadv : arr.advance domain start crop with
  | error fault => rw [hadv] at h; cases h
  | ok start' =>
    rw [hadv] at h
    cases h
    exact lt_of_advance hadv

theorem lt_of_lookupStep {arr : ServerArray} {domain : Str} {c c' : Cursor}
    (h : arr.lookupStep domain c = .ok (.inr c')) : c.start < c'.start := by
  unfold lookupStep at h
  repeat' split at h
  all_goals first | exact lt_of_goOn h | cases h

/-- The outer loop: the range found, if any, and the flags it ends with. -/
def lookupLoop (arr : ServerArray) (domain : Str) (c : Cursor) :
    Except Fault (Option (ℕ × ℕ) × UInt32) :=
  if byteLen domain < c.start then .ok (none, c.flags)
  else
    match _h : arr.lookupStep domain c with
    | .error fault => .error fault
    | .ok (.inl range) => .ok (some range, c.flags)
    | .ok (.inr c') => arr.lookupLoop domain c'
  termination_by byteLen domain + 1 - c.start
  decreasing_by
    have := lt_of_lookupStep _h
    omega

/-- Nothing was found, or only the catch-all. -/
def nothingBetter : Option (ℕ × ℕ) → Except Fault Bool
  | none => .ok true
  | some (nlow, _) =>
    match arr.entries[nlow]? with
    | none => .error .index
    | some e => .ok (e.domainLen == 0)

/-- The `NODOTS` fallback: a single-label query prefers `NODOTS` servers to the catch-all. -/
def nodotsFallback (found : Option (ℕ × ℕ)) (flags : UInt32) : Except Fault (Option (ℕ × ℕ)) :=
  if arr.entries.getLast?.any (·.isNodots) then
    match arr.nothingBetter found with
    | .error fault => .error fault
    | .ok true => (arr.filterServers (arr.entries.length - 1) flags).map (·.or found)
    | .ok false => .ok found
  else .ok found

/-- The parent zone, which a `DS` query is for: the name without its first label. -/
def parentZone : Str := (domain.dropWhile (· ≠ '.')).tail

/-- The name that servers are looked up for. -/
def zoneName : Str :=
  if flags &&& fDs != 0 then parentZone domain else domain

/-- The query is a single label, for which `NODOTS` servers are eligible. -/
def singleLabel : Bool :=
  domain != [] && !domain.contains '.' && flags &&& fDnssecok == 0

/-- `ServerArray::lookup`. -/
def lookup : Except Fault (Option (ℕ × ℕ)) :=
  if arr.entries = [] then .ok none
  else do
    let domain := zoneName domain flags
    let (found, flags') ← arr.lookupLoop domain ⟨0, 0, flags⟩
    if singleLabel domain flags then arr.nodotsFallback found flags' else return found

end ServerArray

end DnsmasqRs.DomainMatch
