/-
  File:      OriginCCL/Types.lean
  Subject:   THE DATA MODEL (`include/types.h`, `include/channel.h`).

  * `CollTask`, `PlanTask`, `CollOpState` -- the user's operation, the planner's slice of it and the
    cursors of its state machine. Addresses are numbers, 0 is `nullptr`; counts and sizes are
    natural numbers; ranks, peers and steps are integers as in the source.
  * `Vec` -- a `std::vector`: a size and its entries.
  * `RankState` -- what a task of one rank reads and writes: its cursors and the rank's memory.
    `Loc` is a pointer into the memory or into the task's `temp_buffer`.
  * `Link` -- a directed connection. A `shared_ptr<Transport>` is the link it is an end of.
-/
import Mathlib.Data.Int.Basic
import Mathlib.Logic.Function.Basic
import Mathlib.Tactic.Common

namespace OriginCCL

inductive DataType where
  | float32
  | float64
  | int32
  | int64
  deriving DecidableEq, Repr

inductive ReduceOp where
  | sum
  | max
  | min
  | avg
  deriving DecidableEq, Repr

inductive CollFunc where
  | allReduce
  | broadcast
  | reduce
  | allGather
  | reduceScatter
  | send
  | recv
  deriving DecidableEq, Repr

inductive CollEvent where
  | readable
  | writable
  deriving DecidableEq, Repr

/-- A user's operation. -/
structure CollTask where
  func : CollFunc := .allReduce
  sendBuf : Nat := 0
  recvBuf : Nat := 0
  count : Nat := 0
  dtype : DataType := .float32
  op : ReduceOp := .sum
  root : Int := 0
  peer : Int := -1
  deriving DecidableEq, Repr

/-! ## 1. Vectors -/

/-- A vector: its size and its entries. -/
structure Vec (α : Type) where
  size : Nat
  get : Nat → α

namespace Vec

variable {α : Type}

/-- `v.assign(n, a)` -/
def assign (n : Nat) (a : α) : Vec α := ⟨n, fun _ => a⟩

/-- `v[i] = a` -/
def set (v : Vec α) (i : Nat) (a : α) : Vec α := { v with get := Function.update v.get i a }

/-- `std::all_of(v.begin(), v.end(), p)` -/
def all (v : Vec α) (p : α → Bool) : Bool := (List.range v.size).all fun i => p (v.get i)

/-- `v.resize(n)` of an empty vector of bytes. -/
def zeros (n : Nat) : Vec UInt8 := assign n 0

@[simp] theorem assign_size (n : Nat) (a : α) : (assign n a).size = n := rfl

@[simp] theorem assign_get (n : Nat) (a : α) (i : Nat) : (assign n a).get i = a := rfl

@[simp] theorem set_size (v : Vec α) (i : Nat) (a : α) : (v.set i a).size = v.size := rfl

@[simp] theorem set_get_self (v : Vec α) (i : Nat) (a : α) : (v.set i a).get i = a :=
  Function.update_self ..

theorem set_get_ne (v : Vec α) {i j : Nat} (a : α) (h : j ≠ i) : (v.set i a).get j = v.get j :=
  Function.update_of_ne h ..

theorem all_iff (v : Vec α) (p : α → Bool) : v.all p = true ↔ ∀ i < v.size, p (v.get i) = true := by
  simp [all]

end Vec

/-! ## 2. Connections and channels -/

/-- What a connection belongs to: one channel of the collectives, or the P2P connections. -/
inductive LinkKind where
  | channel (id : Int)
  | p2p
  deriving DecidableEq, Repr

/-- A directed connection between two ranks. -/
structure Link where
  kind : LinkKind
  src : Nat
  dst : Nat
  deriving DecidableEq, Repr

structure Ring where
  prev : Int := -1
  next : Int := -1

structure Tree where
  parent : Int := -1
  children : List Int := []
  starPeers : List Int := []

structure Connector where
  peer : Int := -1
  channelId : Int := -1
  isSend : Bool := false
  transport : Option Link := none

structure Channel where
  id : Int := 0
  ring : Ring := {}
  tree : Tree := {}
  send : List Connector := []
  recv : List Connector := []
  sendP2p : List Connector := []
  recvP2p : List Connector := []

def Channel.sendConnector (c : Channel) (peer : Int) : Option Connector :=
  if peer < 0 ∨ c.send.length ≤ peer.toNat then none else c.send[peer.toNat]?

def Channel.recvConnector (c : Channel) (peer : Int) : Option Connector :=
  if peer < 0 ∨ c.recv.length ≤ peer.toNat then none else c.recv[peer.toNat]?

/-- The state of a ring topology object. -/
structure TopologyRing where
  rank : Int := -1
  worldSize : Int := 0

/-- The state of a tree topology object. -/
structure TopologyTree where
  isLeader : Bool := false
  channelRoles : List (List Int) := []

/-- A `shared_ptr<Topology>`: which topology it is, with its members. -/
inductive Topology where
  | ring (t : TopologyRing)
  | tree (t : TopologyTree)
  | p2p

/-! ## 3. Planned tasks and their state -/

/-- The cursors of a ring task. The step is an `int`, counted without a bound in Topology/Ring and as an `int`
    in Topology/RingInts. -/
structure RingCursor where
  step : Int := 0

/-- The cursors of a tree task, one per connection. An `int` is stored as the `size_t` it is read as; it is
    counted without a bound in Topology/Tree and as an `int` in Topology/TreeInts. -/
structure TreeCursor where
  recvChunk : Vec Nat := .assign 0 0
  sendChunk : Vec Nat := .assign 0 0

structure Algo where
  ring : RingCursor := {}
  tree : TreeCursor := {}

/-- The cursors of a task between two calls. -/
structure CollOpState where
  phase : Int := 0
  sendProgress : Vec Nat := .assign 0 0
  recvProgress : Vec Nat := .assign 0 0
  sendDone : Vec Bool := .assign 0 false
  recvDone : Vec Bool := .assign 0 false
  tempBuffer : Vec UInt8 := .zeros 0
  algo : Algo := {}

/-- The planner's slice of an operation. Its field `state` is kept apart, in `RankState`. -/
structure PlanTask where
  func : CollFunc := .allReduce
  sendBuf : Nat := 0
  recvBuf : Nat := 0
  elemCount : Nat := 0
  chunkSize : Nat := 0
  rankStride : Nat := 0
  dtype : DataType := .float32
  reduceOp : ReduceOp := .sum
  channelId : Int := 0
  rank : Int := 0
  worldSize : Int := 1
  root : Int := 0
  peer : Int := -1
  topology : Option Topology := none
  sendTransports : List Link := []
  recvTransports : List Link := []

/-- The memory of a rank. -/
abbrev Mem := Nat → UInt8

/-- What a task of one rank reads and writes: its own `state` and the rank's memory. -/
structure RankState where
  op : CollOpState
  mem : Mem

/-- Where a pointer points: into the rank's memory or into the task's `temp_buffer`. -/
inductive Space where
  | user
  | temp
  deriving DecidableEq, Repr

structure Loc where
  space : Space
  addr : Nat
  deriving DecidableEq, Repr

/-- A pointer into the rank's memory. -/
def user (a : Nat) : Loc := ⟨.user, a⟩

/-- A pointer into `temp_buffer`. -/
def temp (o : Nat) : Loc := ⟨.temp, o⟩

/-- Pointer arithmetic in bytes. -/
def Loc.shift (p : Loc) (n : Nat) : Loc := { p with addr := p.addr + n }

@[simp] theorem Loc.shift_space (p : Loc) (n : Nat) : (p.shift n).space = p.space := rfl

@[simp] theorem Loc.shift_addr (p : Loc) (n : Nat) : (p.shift n).addr = p.addr + n := rfl

@[simp] theorem Loc.shift_zero (p : Loc) : p.shift 0 = p := rfl

theorem Loc.shift_shift (p : Loc) (n m : Nat) : (p.shift n).shift m = p.shift (n + m) := by
  simp [Loc.shift, Nat.add_assoc]

/-! ## 4. Bytes -/

/-- The byte a pointer points to. -/
def RankState.byteAt (s : RankState) (p : Loc) : UInt8 :=
  match p.space with
  | .user => s.mem p.addr
  | .temp => s.op.tempBuffer.get p.addr

/-- The `n` bytes from a pointer on. -/
def RankState.read (s : RankState) (p : Loc) (n : Nat) : List UInt8 :=
  (List.range n).map fun j => s.byteAt (p.shift j)

/-- `p` lies in the `n` bytes from `q` on. -/
def Loc.inside (p q : Loc) (n : Nat) : Prop :=
  p.space = q.space ∧ q.addr ≤ p.addr ∧ p.addr < q.addr + n

instance (p q : Loc) (n : Nat) : Decidable (p.inside q n) :=
  inferInstanceAs (Decidable (_ ∧ _ ∧ _))

/-- The bytes of a memory after `bs` has been written at `a`. -/
def overwrite (f : Nat → UInt8) (a : Nat) (bs : List UInt8) (x : Nat) : UInt8 :=
  if a ≤ x ∧ x < a + bs.length then bs.getD (x - a) 0 else f x

/-- Writes bytes from a pointer on. -/
def RankState.write (s : RankState) (p : Loc) (bs : List UInt8) : RankState :=
  match p.space with
  | .user => { s with mem := overwrite s.mem p.addr bs }
  | .temp => { s with op := { s.op with tempBuffer :=
      { s.op.tempBuffer with get := overwrite s.op.tempBuffer.get p.addr bs } } }

/-- **What a write does to the bytes.** -/
theorem RankState.byteAt_write (s : RankState) (p : Loc) (bs : List UInt8) (q : Loc) :
    (s.write p bs).byteAt q =
      if q.inside p bs.length then bs.getD (q.addr - p.addr) 0 else s.byteAt q := by
  obtain ⟨ps, pa⟩ := p
  obtain ⟨qs, qa⟩ := q
  cases ps <;> cases qs <;> simp [write, byteAt, overwrite, Loc.inside]

@[simp] theorem RankState.read_length (s : RankState) (p : Loc) (n : Nat) :
    (s.read p n).length = n := by
  simp [read]

theorem RankState.read_getElem (s : RankState) (p : Loc) (n : Nat) {j : Nat}
    (h : j < (s.read p n).length) : (s.read p n)[j] = s.byteAt (p.shift j) := by
  simp [read]

/-- A write changes nothing of a task's state but its `temp_buffer`. -/
theorem RankState.write_op (s : RankState) (p : Loc) (bs : List UInt8) :
    (s.write p bs).op = { s.op with tempBuffer := (s.write p bs).op.tempBuffer } := by
  obtain ⟨ps, pa⟩ := p
  cases ps <;> rfl

theorem RankState.write_temp_size (s : RankState) (p : Loc) (bs : List UInt8) :
    (s.write p bs).op.tempBuffer.size = s.op.tempBuffer.size := by
  obtain ⟨ps, pa⟩ := p
  cases ps <;> rfl

/-- `std::memcpy(dst, src, n)` -/
def RankState.memcpy (s : RankState) (dst src : Loc) (n : Nat) : RankState :=
  s.write dst (s.read src n)

end OriginCCL
