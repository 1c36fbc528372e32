/-
  File:      OriginCCL/Topology/Channel.lean
  Subject:   THE TASKS OF ONE CHANNEL AS A SYSTEM of ranks and connections.

  An executor works through the tasks of a channel in order: `CollectiveInit` once, then
  `CollectiveStep` with the event of a side that is not done, until `CollectiveDone`
  (`MultiThreadExecutor::ExecuteTask`). `channelSystem` is that loop on every rank, over byte queues:
  a run of it is one interleaving of the ranks' transfers.
-/
import OriginCCL.Net.System
import OriginCCL.Topology.P2p
import OriginCCL.Topology.Tree

namespace OriginCCL

open Net

namespace Topology

def collectiveInit : Topology → PlanTask → RankState → Call RankState
  | .ring _, task, s => TopologyRing.collectiveInit task s
  | .tree t, task, s => t.collectiveInit task s
  | .p2p, task, s => TopologyP2p.collectiveInit task s

def collectiveStep : Topology → PlanTask → CollEvent → RankState → Call RankState
  | .ring _, task, event, s => TopologyRing.collectiveStep task event s
  | .tree t, task, event, s => t.collectiveStep task event s
  | .p2p, task, event, s => TopologyP2p.collectiveStep task event s

def collectiveDone : Topology → RankState → Bool
  | .ring _, s => TopologyRing.collectiveDone s
  | .tree _, s => TopologyTree.collectiveDone s
  | .p2p, s => TopologyP2p.collectiveDone s

end Topology

/-- A task before its first call: an empty state over the rank's memory. -/
def freshState (m : Mem) : RankState := ⟨{}, m⟩

/-- The event of a side: a sending side waits to write, a receiving side to read. -/
def sideEvent : Side → CollEvent
  | .out => .writable
  | .inn => .readable

/-- The `i`th connection of a side is not done. -/
def pending (task : PlanTask) (s : RankState) : Side → Link → Prop
  | .out, l => ∃ i, task.sendTransports[i]? = some l ∧ s.op.sendDone.get i = false
  | .inn, l => ∃ i, task.recvTransports[i]? = some l ∧ s.op.recvDone.get i = false

/-- **The tasks of a channel on all ranks**, over the directed connections between them. -/
def channelSystem : System Nat Link UInt8 PlanTask RankState Mem CollEvent where
  src l := l.src
  dst l := l.dst
  init task m :=
    match task.topology with
    | none => .fail .error
    | some topo => topo.collectiveInit task (freshState m)
  step task event s :=
    match task.topology with
    | none => .fail .error
    | some topo => topo.collectiveStep task event s
  done task s :=
    match task.topology with
    | none => false
    | some topo => topo.collectiveDone s
  mem s := s.mem
  waits := pending
  event := sideEvent

theorem sideEvent_surjective (e : CollEvent) : ∃ sd, sideEvent sd = e := by
  cases e with
  | readable => exact ⟨.inn, rfl⟩
  | writable => exact ⟨.out, rfl⟩

section Single

variable {task : PlanTask} {lo li : Link}

theorem pending_out_iff (hls : task.sendTransports = [lo]) {s : RankState} {l : Link} :
    pending task s .out l ↔ l = lo ∧ s.op.sendDone.get 0 = false := by
  constructor
  · rintro ⟨i, hi, hf⟩
    rw [hls, List.getElem?_eq_some_iff] at hi
    obtain ⟨hlt, rfl⟩ := hi
    obtain rfl : i = 0 := by rw [List.length_singleton] at hlt; omega
    exact ⟨rfl, hf⟩
  · rintro ⟨rfl, hf⟩
    exact ⟨0, by rw [hls]; rfl, hf⟩

theorem pending_inn_iff (hlr : task.recvTransports = [li]) {s : RankState} {l : Link} :
    pending task s .inn l ↔ l = li ∧ s.op.recvDone.get 0 = false := by
  constructor
  · rintro ⟨i, hi, hf⟩
    rw [hlr, List.getElem?_eq_some_iff] at hi
    obtain ⟨hlt, rfl⟩ := hi
    obtain rfl : i = 0 := by rw [List.length_singleton] at hlt; omega
    exact ⟨rfl, hf⟩
  · rintro ⟨rfl, hf⟩
    exact ⟨0, by rw [hlr]; rfl, hf⟩

end Single

end OriginCCL
