import Mathlib.Data.List.Basic

/-!
# The random-socket pool (`RandFdPool` in `forward.rs`)

A slot of the pool is empty or holds an open socket with its reference count.  The first `numrrand`
slots are the fixed pool; temporary overflow sockets go into whatever empty slot there is, or behind
the last one.

A query holds slots by their indices (`RfdList`).  What the operating system decides is an argument:
`bind` is the socket a `bind()` call gives, or `none` where it fails.
-/

namespace DnsmasqRs.Forward

/-- `RfdList`: the pool slots one query holds. -/
abbrev RfdList := List ℕ

/-- `RandomSocket`; `socket` is the operating system's handle. -/
structure RandomSocket where
  socket : ℕ
  refcount : ℕ
  serverIdx : Option ℕ
  temporary : Bool
  deriving DecidableEq

/-- `RandFdPool`. -/
structure RandFdPool where
  slots : List (Option RandomSocket)
  numrrand : ℕ
  randportLimit : ℕ
  finger : ℕ
  deriving DecidableEq

namespace RandFdPool

/-- `RandFdPool::new`. -/
def new (numrrand randportLimit : ℕ) : RandFdPool where
  slots := List.replicate numrrand none
  numrrand := numrrand
  randportLimit := max randportLimit 1
  finger := 0

/-- `RandFdPool::sized_for_with_fd_limit`. -/
def sizedForWithFdLimit (ftabsize randportLimit maxFd : ℕ) : RandFdPool :=
  new (max (min (ftabsize / 2) (maxFd / 3)) 1) randportLimit

variable (pool : RandFdPool) (fdl : RfdList) (serverIdx : ℕ)

/-- `RandFdPool::slot`. -/
def slot (idx : ℕ) : Option RandomSocket := pool.slots[idx]?.join

/-- A slot of this pool is open for `serverIdx`. -/
def isFor (slot : ℕ) : Bool :=
  (pool.slot slot).any fun r => r.serverIdx == some serverIdx

/-- The first loop of `allocate`: how many of the sockets in `fdl` are for `serverIdx`, and the
position of the last of them. -/
def heldFor (fdl : RfdList) : ℕ × Option ℕ :=
  fdl.zipIdx.foldl (fun (held, lastHeld) (slot, pos) =>
      if pool.isFor serverIdx slot then (held + 1, some pos) else (held, lastHeld))
    (0, none)

/-- A slot `allocate` may share: open, not temporary, for `serverIdx`, and not in `fdl`. -/
def shareable (fdl : RfdList) (i : ℕ) : Bool :=
  ((pool.slot i).any fun r =>
      !r.temporary && decide (0 < r.refcount) && r.serverIdx == some serverIdx)
    && !fdl.contains i

/-- The slots in the order the sharing loop of `allocate` visits them. -/
def roundRobin : List ℕ :=
  (List.range pool.slots.length).map fun j => (j + pool.finger) % pool.slots.length

/-- Put a freshly bound socket for `serverIdx` into a slot. -/
def openAt (idx socket serverIdx : ℕ) (temporary : Bool) : RandFdPool :=
  { pool with
    slots := pool.slots.set idx
      (some { socket, refcount := 1, serverIdx := some serverIdx, temporary }) }

/-- The position in `fdl` of the socket `allocate` reuses, once the query holds as many for
`serverIdx` as it may. -/
def reusePos : Option ℕ :=
  let (held, lastHeld) := pool.heldFor serverIdx fdl
  if pool.randportLimit ≤ held then lastHeld else none

/-- `allocate` where the query gets a socket it does not hold yet. -/
def allocateNew (bind : Option ℕ) : RandFdPool × RfdList × Option ℕ :=
  match (pool.slots.take pool.numrrand).findIdx? Option.isNone with
  | some idx =>
    -- 2. a free slot in the fixed pool
    match bind with
    | none => (pool, fdl, none)
    | some socket => (pool.openAt idx socket serverIdx false, fdl ++ [idx], some socket)
  | none =>
    match pool.roundRobin.find? (pool.shareable serverIdx fdl) with
    | some i =>
      -- 3. share a live socket for the same server
      match pool.slot i with
      | none => ({ pool with finger := i + 1 }, fdl, none)
      | some r =>
        ({ pool with
            finger := i + 1
            slots := pool.slots.set i (some { r with refcount := r.refcount + 1 }) },
          fdl ++ [i], some r.socket)
    | none =>
      -- 4. a temporary socket, in the first empty slot or behind the last
      match bind with
      | none => (pool, fdl, none)
      | some socket =>
        match pool.slots.findIdx? Option.isNone with
        | some idx => (pool.openAt idx socket serverIdx true, fdl ++ [idx], some socket)
        | none =>
          (({ pool with slots := pool.slots ++ [none] } : RandFdPool).openAt pool.slots.length
              socket serverIdx true,
            fdl ++ [pool.slots.length], some socket)

/-- `RandFdPool::allocate`: the pool, the query's slots and the socket to send from. -/
def allocate (bind : Option ℕ) : RandFdPool × RfdList × Option ℕ :=
  match pool.reusePos fdl serverIdx with
  | some pos =>
    -- 1. promote the last socket for this server to the head of the list and reuse it
    match fdl[pos]? with
    | some slot => (pool, slot :: fdl.eraseIdx pos, (pool.slot slot).map (·.socket))
    | none => (pool, fdl, none)
  | none => pool.allocateNew fdl serverIdx bind

/-- One turn of the loop of `free_rfds`. -/
def freeRfd (slots : List (Option RandomSocket)) (idx : ℕ) : List (Option RandomSocket) :=
  match slots[idx]?.join with
  | none => slots
  | some r =>
    if r.temporary || r.refcount - 1 == 0 then slots.set idx none
    else slots.set idx (some { r with refcount := r.refcount - 1 })

/-- Drop the trailing empty slots past the fixed pool. -/
def trimSlots (numrrand : ℕ) (slots : List (Option RandomSocket)) : List (Option RandomSocket) :=
  if numrrand < slots.length ∧ slots.getLast? = some none then trimSlots numrrand slots.dropLast
  else slots
  termination_by slots.length
  decreasing_by simp only [List.length_dropLast]; omega

/-- `RandFdPool::free_rfds`; the caller's list is empty afterwards. -/
def freeRfds : RandFdPool :=
  { pool with slots := trimSlots pool.numrrand (fdl.foldl freeRfd pool.slots) }

end RandFdPool

end DnsmasqRs.Forward
