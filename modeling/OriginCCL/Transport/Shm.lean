/-
  File:      OriginCCL/Transport/Shm.lean
  Subject:   THE SHARED-MEMORY TRANSPORT (`src/transport/transport_shm.cpp`).

  Two endpoints of one ring: a producer that makes `TrySend` calls and a consumer that makes `TryRecv`
  calls. The two functions have the same loop around `Produce` and `Consume`, so a call is one machine
  with the endpoint's direction as a parameter: what differs is the cursor the endpoint moves, the room
  it sees, the way bytes are copied, and the eventfd it waits on.

  * `ShmRing` -- the shared memory: cursors, bytes, and the counters of the two eventfds.
  * `Point` -- where a call is, between two accesses to shared memory.
  * `advance` -- one access: a cursor load, one byte of a copy, a cursor store, a read of the own
    eventfd or a write to the peer's.
  * `ShmSystem.step` -- both endpoints, in any order.

  Cursors are natural numbers: they stay below 2^64, and by `ShmSystem.Inv` no difference of cursors
  the code takes is negative.
-/
import Mathlib.Algebra.Group.Nat.Defs
import Mathlib.Data.Nat.Basic
import Mathlib.Logic.Function.Basic
import OriginCCL.Base.Runs
import OriginCCL.Base.Slices

namespace OriginCCL

inductive TransportDirection where
  | send
  | receive
  deriving DecidableEq, Repr

/-- The direction of the endpoint at the other end. -/
def TransportDirection.peer : TransportDirection → TransportDirection
  | .send => .receive
  | .receive => .send

inductive TransportWaitMode where
  | eventDriven
  | polling
  deriving DecidableEq, Repr

def kShmRingCapacity : Nat := 2 * 1024 * 1024

theorem kShmRingCapacity_pos : 0 < kShmRingCapacity := by decide

/-! ## 1. The shared memory -/

/-- The mapped ring and its two eventfds. -/
structure ShmRing where
  head : Nat := 0
  tail : Nat := 0
  data : Nat → UInt8 := fun _ => 0
  dataReady : Nat := 0
  spaceReady : Nat := 1

namespace ShmRing

/-- The cursor an endpoint moves: the producer `head`, the consumer `tail`. -/
def cursor (g : ShmRing) : TransportDirection → Nat
  | .send => g.head
  | .receive => g.tail

/-- `Cursors()->head.store(value)`, `Cursors()->tail.store(value)` -/
def store (g : ShmRing) (value : Nat) : TransportDirection → ShmRing
  | .send => { g with head := value }
  | .receive => { g with tail := value }

/-- `WaitFd`: the counter an endpoint sleeps on. -/
def counter (g : ShmRing) : TransportDirection → Nat
  | .send => g.spaceReady
  | .receive => g.dataReady

/-- One `read` of the own eventfd: it resets the counter. -/
def drain (g : ShmRing) : TransportDirection → ShmRing
  | .send => { g with spaceReady := 0 }
  | .receive => { g with dataReady := 0 }

/-- `Notify` to the eventfd of an endpoint. -/
def notify (g : ShmRing) : TransportDirection → ShmRing
  | .send => { g with spaceReady := g.spaceReady + 1 }
  | .receive => { g with dataReady := g.dataReady + 1 }

end ShmRing

/-! ## 2. An endpoint and its call -/

/-- Where a call is. The endpoint's own cursor, once loaded, stays in the call. -/
inductive Point where
  /-- `while (*progress < size)`, and the first load of `Produce` and `Consume` -/
  | loop
  /-- the load of the peer's cursor in `Produce` and `Consume` -/
  | refresh (own : Nat)
  /-- the `memcpy` after `k` of `chunk` bytes, then the store of the own cursor -/
  | copy (own chunk k : Nat)
  /-- `Drain` -/
  | drain
  /-- the first load of `SpaceAvailable` and `DataAvailable` -/
  | available
  /-- the load of the peer's cursor there -/
  | recheck (own : Nat)
  /-- `*done = (*progress == size)` and `Notify` -/
  | finish
  deriving DecidableEq, Repr

/-- A `TrySend(data, size, progress, done)` or `TryRecv` call; `start` is `*progress` at its start. -/
structure TryCall where
  data : Nat → UInt8
  size : Nat
  start : Nat
  progress : Nat
  moved : Nat := 0
  point : Point := .loop

/-- A connected endpoint. `cached` is `cached_tail` of the producer and `cached_head` of the consumer,
    `last` its last call with the value of `*done`. -/
structure TransportShm where
  waitMode : TransportWaitMode := .eventDriven
  cached : Nat := 0
  call : Option TryCall := none
  last : Option (TryCall × Bool) := none

/-- The room `Produce` and `SpaceAvailable` see, the bytes `Consume` and `DataAvailable` see. -/
def available (own cached : Nat) : TransportDirection → Nat
  | .send => kShmRingCapacity - (own - cached)
  | .receive => cached - own

/-- `std::min({room, size - progress, kShmRingCapacity - offset})` -/
def chunkLen (room own : Nat) (c : TryCall) : Nat :=
  min room (min (c.size - c.progress) (kShmRingCapacity - own % kShmRingCapacity))

/-- One byte of the `memcpy` of `Produce` or `Consume`. -/
def copyByte (g : ShmRing) (c : TryCall) (own k : Nat) : TransportDirection → ShmRing × TryCall
  | .send => ({ g with data := Function.update g.data (own % kShmRingCapacity + k)
                                (c.data (c.progress + k)) }, c)
  | .receive => (g, { c with data := Function.update c.data (c.progress + k)
                                      (g.data (own % kShmRingCapacity + k)) })

/-- The bytes of a call's buffer from a place on. -/
def TryCall.slice (c : TryCall) (a n : Nat) : List UInt8 := OriginCCL.Base.slice c.data a n

/-- What an access leaves: the shared memory, the endpoint, and the bytes whose transfer a store of the
    cursor has made known. -/
structure Access where
  ring : ShmRing
  endpoint : TransportShm
  bytes : List UInt8 := []

/-- The endpoint goes on with its call. -/
def TransportShm.resume (e : TransportShm) (c : TryCall) : TransportShm := { e with call := some c }

/-- The call returns. -/
def TransportShm.finish (e : TransportShm) (c : TryCall) : TransportShm :=
  { e with call := none, last := some (c, c.progress == c.size) }

/-- One access to shared memory of an endpoint in a call. -/
def advance (d : TransportDirection) (g : ShmRing) (e : TransportShm) (c : TryCall) : Access :=
  match c.point with
  | .loop =>
    if c.progress < c.size then
      let own := g.cursor d
      let room := available own e.cached d
      if room = 0 then ⟨g, e.resume { c with point := .refresh own }, []⟩
      else ⟨g, e.resume { c with point := .copy own (chunkLen room own c) 0 }, []⟩
    else ⟨g, e.resume { c with point := .finish }, []⟩
  | .refresh own =>
    let e := { e with cached := g.cursor d.peer }
    let room := available own e.cached d
    if room = 0 then
      -- nothing was moved: a polling endpoint gives up at once
      if e.waitMode = .eventDriven then ⟨g, e.resume { c with point := .drain }, []⟩
      else ⟨g, e.resume { c with point := .finish }, []⟩
    else ⟨g, e.resume { c with point := .copy own (chunkLen room own c) 0 }, []⟩
  | .copy own chunk k =>
    if k < chunk then
      let (g, c) := copyByte g c own k d
      ⟨g, e.resume { c with point := .copy own chunk (k + 1) }, []⟩
    else
      ⟨g.store (own + chunk) d,
        e.resume { c with progress := c.progress + chunk, moved := c.moved + chunk, point := .loop },
        c.slice c.progress chunk⟩
  | .drain =>
    if 0 < g.counter d then ⟨g.drain d, e, []⟩
    else ⟨g, e.resume { c with point := .available }, []⟩
  | .available =>
    let own := g.cursor d
    if available own e.cached d = 0 then ⟨g, e.resume { c with point := .recheck own }, []⟩
    else ⟨g, e.resume { c with point := .loop }, []⟩
  | .recheck own =>
    let e := { e with cached := g.cursor d.peer }
    if available own e.cached d = 0 then ⟨g, e.resume { c with point := .finish }, []⟩
    else ⟨g, e.resume { c with point := .loop }, []⟩
  | .finish =>
    if 0 < c.moved ∧ e.waitMode = .eventDriven then ⟨g.notify d.peer, e.finish c, []⟩
    else ⟨g, e.finish c, []⟩

/-! ## 3. The two endpoints -/

/-- The ring with both endpoints, and the bytes they have produced and consumed so far. -/
structure ShmSystem where
  ring : ShmRing := {}
  endpoint : TransportDirection → TransportShm := fun _ => {}
  bytes : TransportDirection → List UInt8 := fun _ => []

/-- What happens next: a call of an endpoint on `size` bytes with `*progress` at `progress`, a change
    of its wait mode between two calls, or the next access of its call. -/
inductive ShmLabel where
  | begin (d : TransportDirection) (data : Nat → UInt8) (size progress : Nat)
  | setWaitMode (d : TransportDirection) (mode : TransportWaitMode)
  | access (d : TransportDirection)

namespace ShmSystem

/-- The ring right after `CreateRing`, with an endpoint on each side. -/
def created : ShmSystem := {}

/-- An endpoint in another state. -/
def withEndpoint (s : ShmSystem) (d : TransportDirection) (e : TransportShm) : ShmSystem :=
  { s with endpoint := Function.update s.endpoint d e }

@[simp] theorem withEndpoint_self (s : ShmSystem) (d : TransportDirection) (e : TransportShm) :
    (s.withEndpoint d e).endpoint d = e := Function.update_self ..

theorem withEndpoint_ne {s : ShmSystem} {d d' : TransportDirection} {e : TransportShm}
    (h : d' ≠ d) : (s.withEndpoint d e).endpoint d' = s.endpoint d' := Function.update_of_ne h ..

theorem withEndpoint_eq_self (s : ShmSystem) (d : TransportDirection) :
    s.withEndpoint d (s.endpoint d) = s := by
  rw [withEndpoint, Function.update_eq_self]

/-- An access of endpoint `d` has happened. -/
def accessed (s : ShmSystem) (d : TransportDirection) (a : Access) : ShmSystem where
  ring := a.ring
  endpoint := Function.update s.endpoint d a.endpoint
  bytes := Function.update s.bytes d (s.bytes d ++ a.bytes)

def step : ShmLabel → ShmSystem → Option ShmSystem
  | .begin d data size progress, s =>
    match (s.endpoint d).call with
    | some _ => none
    | none =>
      -- `*progress` counts bytes of the transfer that have moved
      if progress ≤ size then
        some (s.withEndpoint d ((s.endpoint d).resume
          { data := data, size := size, start := progress, progress := progress }))
      else none
  | .setWaitMode d mode, s =>
    match (s.endpoint d).call with
    | some _ => none
    | none => some (s.withEndpoint d { s.endpoint d with waitMode := mode })
  | .access d, s =>
    match (s.endpoint d).call with
    | none => none
    | some c => some (s.accessed d (advance d s.ring (s.endpoint d) c))

end ShmSystem

end OriginCCL
