/-
  File:      OriginCCL/Topology/World.lean
  Subject:   A WORLD OF RANKS, its channels and the tasks it runs together.

  Every rank groups the ranks into machines, shapes its channels for the ring and the tree and
  connects the edges they want (`Communicator::Init`, `InitChannels`).

  * `World.channels` -- the channels of a rank.
  * `Collective` -- an operation all ranks run, with the buffers of every rank; `Collective.task` is
    its task on one rank, with the connections its topology picks (`FillTransports`).
  * `Collective.ring_onRing` -- **a ring task sends to the next rank and receives from the previous
    one**, over the same connections as every other ring task of the channel.
-/
import OriginCCL.Topology.RingAllreduce

namespace OriginCCL

open Net Base

/-! ## 1. Channels -/

/-- A channel before it is shaped. -/
def initialChannel (worldSize id : Nat) : Channel where
  id := id
  send := (List.range worldSize).map fun (peer : Nat) =>
    { peer := peer, channelId := id, isSend := true, transport := none }
  recv := (List.range worldSize).map fun (peer : Nat) =>
    { peer := peer, channelId := id, isSend := false, transport := none }

/-- The directed edges the topologies want on a channel. -/
def channelPeers (channel : Channel) : List (Int × Bool) :=
  TopologyRing.fillPeers channel ++ TopologyTree.fillPeers channel

/-- The connection of a channel from one rank to another. -/
def channelLink (id : Int) (a b : Nat) : Link := ⟨.channel id, a, b⟩

/-- The connection of a rank's connector. -/
def connectorLink (rank : Nat) (channel : Channel) (c : Connector) : Link :=
  if c.isSend then channelLink channel.id rank c.peer.toNat
  else channelLink channel.id c.peer.toNat rank

/-- A connector after `InitChannels`: connected if a topology wants its edge to another rank. -/
def connected (rank : Nat) (channel : Channel) (c : Connector) : Connector :=
  if (c.peer, c.isSend) ∈ channelPeers channel ∧ c.peer ≠ (rank : Int) then
    { c with transport := some (connectorLink rank channel c) }
  else c

def initChannels (rank : Nat) (channel : Channel) : Channel :=
  { channel with send := channel.send.map (connected rank channel)
                 recv := channel.recv.map (connected rank channel) }

/-- Ranks with their hostnames, and a number of channels. -/
structure World (H : Type) where
  size : Nat
  hosts : Nat → H
  nChannels : Nat

section Worlds

variable {H : Type} [DecidableEq H] (w : World H)

namespace World

def comm (r : Nat) : Communicator := Communicator.group w.hosts w.size r

def ring (r : Nat) : TopologyRing := { rank := r, worldSize := w.size }

/-- The channels of a rank after both `FillChannels`, and its tree topology. -/
def shaped (r : Nat) : TopologyTree × List Channel :=
  TopologyTree.fillChannels (w.comm r)
    ((w.ring r).fillChannels ((List.range w.nChannels).map (initialChannel w.size)))

def tree (r : Nat) : TopologyTree := (w.shaped r).1

def channels (r : Nat) : List Channel := (w.shaped r).2.map (initChannels r)

/-- A channel of a rank before it is connected. -/
def shapedChannel (id r : Nat) : Channel :=
  { initialChannel w.size id with
    ring := { prev := (w.ring r).getPrevRank r, next := (w.ring r).getNextRank r }
    tree := TopologyTree.treeOf (w.comm r) id }

theorem channels_get {id : Nat} (hid : id < w.nChannels) (r : Nat) :
    (w.channels r)[id]? = some (initChannels r (w.shapedChannel id r)) := by
  simp only [channels, shaped, TopologyTree.fillChannels, TopologyRing.fillChannels, List.map_map,
    List.getElem?_map, List.getElem?_range hid, Option.map_some]
  rfl

end World

/-! ## 2. Connections -/

variable {w} {id r peer : Nat}

theorem transportOf_send (hp : peer < w.size) (hne : peer ≠ r)
    (h : ((peer : Int), true) ∈ channelPeers (w.shapedChannel id r)) :
    TopologyRing.transportOf ((initChannels r (w.shapedChannel id r)).sendConnector peer) =
      [channelLink id r peer] := by
  have hne' : (peer : Int) ≠ r := by omega
  have hget : (initChannels r (w.shapedChannel id r)).send[peer]? =
      some (connected r (w.shapedChannel id r)
        { peer := peer, channelId := id, isSend := true, transport := none }) := by
    simp only [initChannels, World.shapedChannel, initialChannel, List.getElem?_map,
      List.getElem?_range hp, Option.map_some]
  have hlen : ¬ ((peer : Int) < 0 ∨
      (initChannels r (w.shapedChannel id r)).send.length ≤ (peer : Int).toNat) := by
    have := (List.getElem?_eq_some_iff.mp hget).1
    omega
  rw [Channel.sendConnector, if_neg hlen, Int.toNat_natCast, hget, connected, if_pos ⟨h, hne'⟩]
  rfl

theorem transportOf_recv (hp : peer < w.size) (hne : peer ≠ r)
    (h : ((peer : Int), false) ∈ channelPeers (w.shapedChannel id r)) :
    TopologyRing.transportOf ((initChannels r (w.shapedChannel id r)).recvConnector peer) =
      [channelLink id peer r] := by
  have hne' : (peer : Int) ≠ r := by omega
  have hget : (initChannels r (w.shapedChannel id r)).recv[peer]? =
      some (connected r (w.shapedChannel id r)
        { peer := peer, channelId := id, isSend := false, transport := none }) := by
    simp only [initChannels, World.shapedChannel, initialChannel, List.getElem?_map,
      List.getElem?_range hp, Option.map_some]
  have hlen : ¬ ((peer : Int) < 0 ∨
      (initChannels r (w.shapedChannel id r)).recv.length ≤ (peer : Int).toNat) := by
    have := (List.getElem?_eq_some_iff.mp hget).1
    omega
  rw [Channel.recvConnector, if_neg hlen, Int.toNat_natCast, hget, connected, if_pos ⟨h, hne'⟩]
  rfl

omit [DecidableEq H] in
theorem getNextRank_eq (r : Nat) : (w.ring r).getNextRank r = ((r + 1) % w.size : Nat) := rfl

omit [DecidableEq H] in
theorem getPrevRank_eq (hN : 1 ≤ w.size) (r : Nat) :
    (w.ring r).getPrevRank r = (back w.size r 1 : Nat) := by
  simp only [TopologyRing.getPrevRank, World.ring, back]
  rw [show (r : Int) - 1 + w.size = ((r + w.size - 1 : Nat) : Int) by omega]
  rfl

/-! ## 3. Operations of the whole world -/

/-- An operation that all ranks run, with the buffers of every rank. -/
structure Collective where
  func : CollFunc
  onTree : Bool := false
  elemCount : Nat
  chunkSize : Nat := 0
  rankStride : Nat := 0
  dtype : DataType
  reduceOp : ReduceOp := .sum
  root : Int := 0
  sendBuf : Nat → Nat
  recvBuf : Nat → Nat

/-- Element `i` of a buffer at address `a`. -/
def elemAt (m : Mem) (dt : DataType) (a i : Nat) : Elem dt := (freshState m).load dt (user a) i

/-- The bytes of a buffer, from its `k`th element on. -/
theorem elemByte_elemAt (m : Mem) (dt : DataType) (a k j : Nat) :
    elemByte dt (fun i => elemAt m dt a (k + i)) j = m (a + (k * getDataTypeSize dt + j)) := by
  have hp := getDataTypeSize_pos dt
  have hlt : k * getDataTypeSize dt + j <
      (k * getDataTypeSize dt + j + 1) * getDataTypeSize dt :=
    Nat.lt_of_lt_of_le (Nat.lt_succ_self _) (Nat.le_mul_of_pos_right _ hp)
  rw [elemByte_shift]
  exact (holds_load dt (freshState m) (user a) _ _ hlt).symm

theorem elemAt_add (m : Mem) (dt : DataType) (a k i : Nat) :
    elemAt m dt a (k + i) = elemAt m dt (a + k * getDataTypeSize dt) i := by
  unfold elemAt RankState.load
  refine congrArg _ (leNat_congr fun j _ => congrArg (freshState m).byteAt ?_)
  simp only [user, Loc.shift, Loc.mk.injEq, true_and, Nat.add_mul]
  omega

/-- The buffers of a reduction on rank `r`: there, and in place or apart. -/
structure Collective.Buffers (p : Collective) (r : Nat) : Prop where
  send : p.sendBuf r ≠ 0
  recv : p.recvBuf r ≠ 0
  apart : p.sendBuf r = p.recvBuf r ∨
    p.sendBuf r + p.elemCount * getDataTypeSize p.dtype ≤ p.recvBuf r ∨
    p.recvBuf r + p.elemCount * getDataTypeSize p.dtype ≤ p.sendBuf r

/-- The buffers of an operation on rank `r` that does not run in place: there, and apart. -/
structure Collective.Separate (p : Collective) (r sendCount recvCount : Nat) : Prop where
  send : p.sendBuf r ≠ 0
  recv : p.recvBuf r ≠ 0
  apart : p.sendBuf r + sendCount * getDataTypeSize p.dtype ≤ p.recvBuf r ∨
    p.recvBuf r + recvCount * getDataTypeSize p.dtype ≤ p.sendBuf r

/-- The inputs of all ranks, element by element. -/
def Collective.inputs (p : Collective) (m : Nat → Mem) (r i : Nat) : Elem p.dtype :=
  elemAt (m r) p.dtype (p.sendBuf r) i

/-- The task of an operation on rank `r`, before its connections are filled in. -/
def Collective.plain (w : World H) (id : Nat) (p : Collective) (r : Nat) : PlanTask where
  func := p.func
  sendBuf := p.sendBuf r
  recvBuf := p.recvBuf r
  elemCount := p.elemCount
  chunkSize := p.chunkSize
  rankStride := p.rankStride
  dtype := p.dtype
  reduceOp := p.reduceOp
  channelId := id
  rank := r
  worldSize := w.size
  root := p.root
  topology := some (if p.onTree then .tree (w.tree r) else .ring (w.ring r))

/-- The task of an operation on rank `r` of a channel. -/
def Collective.task (w : World H) (id : Nat) (p : Collective) (r : Nat) : PlanTask :=
  match (w.channels r)[id]? with
  | none => p.plain w id r
  | some channel =>
    if p.onTree then TopologyTree.fillTransports channel (p.plain w id r)
    else TopologyRing.fillTransports channel (p.plain w id r)

/-- The tasks of the ranks when all run the same operations on one channel. -/
def World.tasks (w : World H) (id : Nat) (ps : List Collective) (r : Nat) : List PlanTask :=
  if r < w.size then ps.map fun p => p.task w id r else []

namespace Collective

variable {p : Collective}

/-- A task differs from its plain form in its connections only. -/
theorem task_plain (w : World H) (id : Nat) (p : Collective) (r : Nat) : ∃ sends recvs,
    p.task w id r =
      { p.plain w id r with sendTransports := sends, recvTransports := recvs } := by
  unfold task
  split
  · exact ⟨[], [], rfl⟩
  · split
    · exact ⟨_, _, rfl⟩
    · exact ⟨_, _, rfl⟩

@[simp] theorem task_func : (p.task w id r).func = p.func := by
  obtain ⟨_, _, e⟩ := task_plain w id p r
  rw [e]
  rfl

@[simp] theorem task_sendBuf : (p.task w id r).sendBuf = p.sendBuf r := by
  obtain ⟨_, _, e⟩ := task_plain w id p r
  rw [e]
  rfl

@[simp] theorem task_recvBuf : (p.task w id r).recvBuf = p.recvBuf r := by
  obtain ⟨_, _, e⟩ := task_plain w id p r
  rw [e]
  rfl

@[simp] theorem task_elemCount : (p.task w id r).elemCount = p.elemCount := by
  obtain ⟨_, _, e⟩ := task_plain w id p r
  rw [e]
  rfl

@[simp] theorem task_chunkSize : (p.task w id r).chunkSize = p.chunkSize := by
  obtain ⟨_, _, e⟩ := task_plain w id p r
  rw [e]
  rfl

@[simp] theorem task_rankStride : (p.task w id r).rankStride = p.rankStride := by
  obtain ⟨_, _, e⟩ := task_plain w id p r
  rw [e]
  rfl

@[simp] theorem task_dtype : (p.task w id r).dtype = p.dtype := by
  obtain ⟨_, _, e⟩ := task_plain w id p r
  rw [e]
  rfl

@[simp] theorem task_reduceOp : (p.task w id r).reduceOp = p.reduceOp := by
  obtain ⟨_, _, e⟩ := task_plain w id p r
  rw [e]
  rfl

@[simp] theorem task_channelId : (p.task w id r).channelId = id := by
  obtain ⟨_, _, e⟩ := task_plain w id p r
  rw [e]
  rfl

@[simp] theorem task_rank : (p.task w id r).rank = r := by
  obtain ⟨_, _, e⟩ := task_plain w id p r
  rw [e]
  rfl

@[simp] theorem task_worldSize : (p.task w id r).worldSize = w.size := by
  obtain ⟨_, _, e⟩ := task_plain w id p r
  rw [e]
  rfl

@[simp] theorem task_root : (p.task w id r).root = p.root := by
  obtain ⟨_, _, e⟩ := task_plain w id p r
  rw [e]
  rfl

@[simp] theorem task_topology : (p.task w id r).topology =
    some (if p.onTree then .tree (w.tree r) else .ring (w.ring r)) := by
  obtain ⟨_, _, e⟩ := task_plain w id p r
  rw [e]
  rfl

theorem blockBytes_task (r : Nat) :
    TopologyRing.blockBytes (p.task w id r) = p.elemCount * getDataTypeSize p.dtype := by
  rw [TopologyRing.blockBytes, task_elemCount, task_dtype]

/-- The buffers of a task on a rank lie apart. -/
theorem Separate.task_apart {sendCount recvCount : Nat} (h : p.Separate r sendCount recvCount)
    (w : World H) (id : Nat) :
    Apart (user (p.task w id r).sendBuf) (sendCount * getDataTypeSize (p.task w id r).dtype)
      (user (p.task w id r).recvBuf) (recvCount * getDataTypeSize (p.task w id r).dtype) := by
  rw [task_sendBuf, task_recvBuf, task_dtype]
  exact Or.inr h.apart

theorem task_eq (hid : id < w.nChannels) (hring : p.onTree = false) :
    p.task w id r =
      TopologyRing.fillTransports (initChannels r (w.shapedChannel id r)) (p.plain w id r) := by
  rw [task, w.channels_get hid]
  simp only [hring, Bool.false_eq_true, if_false]

/-- **The connections of a channel's ring**: to the next rank and from the previous one. -/
theorem ring_fillTransports (id : Nat) (hN : 2 ≤ w.size) (hr : r < w.size) (task : PlanTask) :
    (TopologyRing.fillTransports (initChannels r (w.shapedChannel id r)) task).sendTransports =
        [channelLink id r ((r + 1) % w.size)] ∧
      (TopologyRing.fillTransports (initChannels r (w.shapedChannel id r)) task).recvTransports =
        [channelLink id (back w.size r 1) r] := by
  have hnext : (r + 1) % w.size < w.size := Nat.mod_lt _ (by omega)
  have hprev : back w.size r 1 < w.size := back_lt hr
  have hne : (r + 1) % w.size ≠ r := by
    by_cases h : r + 1 = w.size
    · rw [h, Nat.mod_self]; omega
    · rw [Nat.mod_eq_of_lt (by omega)]; omega
  have hne' : back w.size r 1 ≠ r := by
    rw [back_eq hr (by omega)]
    split <;> omega
  constructor
  · have e : (initChannels r (w.shapedChannel id r)).ring.next = ((r + 1) % w.size : Nat) := rfl
    simp only [TopologyRing.fillTransports, e]
    refine transportOf_send hnext hne ?_
    simp [channelPeers, TopologyRing.fillPeers, World.shapedChannel, getNextRank_eq]
  · have e : (initChannels r (w.shapedChannel id r)).ring.prev = (back w.size r 1 : Nat) :=
      getPrevRank_eq (by omega) r
    simp only [TopologyRing.fillTransports, e]
    refine transportOf_recv hprev hne' ?_
    simp [channelPeers, TopologyRing.fillPeers, World.shapedChannel,
      getPrevRank_eq (w := w) (by omega) r]

/-- **The connections of a ring task.** -/
theorem ring_onRing (hid : id < w.nChannels) (hring : p.onTree = false) (hN : 2 ≤ w.size)
    (hr : r < w.size) :
    TopologyRing.OnRing (p.task w id r) w.size r (channelLink id r ((r + 1) % w.size))
      (channelLink id (back w.size r 1) r) := by
  obtain ⟨hsend, hrecv⟩ := ring_fillTransports id hN hr (p.plain w id r)
  rw [task_eq hid hring]
  exact ⟨rfl, rfl, hN, hr, hsend, hrecv⟩

end Collective

end Worlds

end OriginCCL
