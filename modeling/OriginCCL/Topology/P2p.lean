/-
  File:      OriginCCL/Topology/P2p.lean
  Subject:   THE P2P STATE MACHINE (`src/topology/topology_p2p.cpp`).

  A Send or a Recv moves its whole buffer over one connection.
-/
import OriginCCL.Topology.Ring

namespace OriginCCL.TopologyP2p

open Net

def collectiveDone (s : RankState) : Bool := s.op.phase == 1

/-- The `Writable` or `Readable` half of `CollectiveStep`. -/
def transfer (task : PlanTask) (s : RankState) : Call RankState :=
  let bytes := task.elemCount * getDataTypeSize task.dtype
  if task.func = .send then
    match task.sendTransports with
    | [] => .fail .error
    | l :: _ => do
      let (progress, done) ← trySend l s (user task.sendBuf) bytes (s.op.sendProgress.get 0)
      pure ((s.setSend 0 progress done).setPhase (if done then 1 else 0))
  else
    match task.recvTransports with
    | [] => .fail .error
    | l :: _ => do
      let (s, progress, done) ← tryRecv l s (user task.recvBuf) bytes (s.op.recvProgress.get 0)
      pure ((s.setRecv 0 progress done).setPhase (if done then 1 else 0))

def collectiveStep (task : PlanTask) (event : CollEvent) (s : RankState) : Call RankState :=
  if collectiveDone s then pure s
  else if (event = .writable) ≠ (task.func = .send) then pure s
  else transfer task s

def collectiveInit (task : PlanTask) (s : RankState) : Call RankState :=
  let s := { s with op :=
    { sendProgress := .assign task.sendTransports.length 0
      recvProgress := .assign task.recvTransports.length 0
      sendDone := .assign task.sendTransports.length false
      recvDone := .assign task.recvTransports.length false } }
  if task.elemCount = 0 then pure (s.setPhase 1)
  else collectiveStep task (if task.func = .send then .writable else .readable) s

def fillTransports (channel : Channel) (task : PlanTask) : PlanTask :=
  if task.elemCount = 0 then { task with sendTransports := [], recvTransports := [] }
  else if task.func = .send then
    { task with
      sendTransports := ((channel.sendP2p[task.peer.toNat]?).bind Connector.transport).toList
      recvTransports := [] }
  else
    { task with
      sendTransports := []
      recvTransports := ((channel.recvP2p[task.peer.toNat]?).bind Connector.transport).toList }

end OriginCCL.TopologyP2p
