/-
  File:      OriginCCL/Topology/Ring.lean
  Subject:   THE RING STATE MACHINES (`src/topology/topology_ring.cpp`).

  The five ring collectives, as the code computes them: `CollectiveInit` starts a task,
  `CollectiveStep` drives it by one event, `CollectiveDone` tells whether it has ended. A call is a
  program over the task's connections; a `false` result is the fault `.error`.

  The `Complete*` loops differ only in what they settle between two phases, so each is
  `completeLoop` applied to its own `settle` and `begin`; so are the `*Step` functions `stepWith`.
-/
import OriginCCL.Net.Prog
import OriginCCL.Utils

namespace OriginCCL

open Net

/-- A call of a state machine over connections. -/
abbrev Call (α : Type) : Type := Prog Link UInt8 α

/-- `TrySend(data, size, &progress, &done)`: the new progress, and whether all is sent. -/
def trySend (l : Link) (s : RankState) (data : Loc) (size progress : Nat) : Call (Nat × Bool) :=
  .send l (s.read (data.shift progress) (size - progress)) fun
    | none => .fail .error
    | some n => .ret (progress + n, progress + n == size)

/-- `TryRecv(data, size, &progress, &done)`: the same, and the received bytes are in place. -/
def tryRecv (l : Link) (s : RankState) (data : Loc) (size progress : Nat) :
    Call (RankState × Nat × Bool) :=
  .recv l (size - progress) fun
    | none => .fail .error
    | some bs => .ret (s.write (data.shift progress) bs, progress + bs.length,
        progress + bs.length == size)

namespace RankState

/-- `s.send_progress[i] = progress; s.send_done[i] = done` -/
def setSend (s : RankState) (i progress : Nat) (done : Bool) : RankState :=
  { s with op := { s.op with sendProgress := s.op.sendProgress.set i progress
                             sendDone := s.op.sendDone.set i done } }

/-- `s.recv_progress[i] = progress; s.recv_done[i] = done` -/
def setRecv (s : RankState) (i progress : Nat) (done : Bool) : RankState :=
  { s with op := { s.op with recvProgress := s.op.recvProgress.set i progress
                             recvDone := s.op.recvDone.set i done } }

def setPhase (s : RankState) (phase : Int) : RankState :=
  { s with op := { s.op with phase := phase } }

def setStep (s : RankState) (step : Int) : RankState :=
  { s with op := { s.op with algo := { s.op.algo with ring := { step := step } } } }

/-- `s.temp_buffer.resize(n)` right after `s = CollOpState{}`. -/
def resizeTemp (s : RankState) (n : Nat) : RankState :=
  { s with op := { s.op with tempBuffer := .zeros n } }

def step (s : RankState) : Int := s.op.algo.ring.step

end RankState

/-- `SideDone` -/
def sideDone (done : Vec Bool) : Bool := done.all id

/-- `MarkAllDone` -/
def markAllDone (task : PlanTask) (s : RankState) : RankState :=
  { s with op := { s.op with sendDone := .assign task.sendTransports.length true
                             recvDone := .assign task.recvTransports.length true } }

namespace TopologyRing

def kPhaseUnstarted : Int := 0
def kPhaseReduceScatter : Int := 1
def kPhaseAllGather : Int := 2
def kPhaseDone : Int := 3
def kPhaseSend : Int := 4
def kPhaseRecv : Int := 5
def kPhaseExchange : Int := 6

/-! ## 1. Chunks, blocks and pointers -/

def chunkElemCount (count chunkSize : Nat) (chunkIndex : Int) : Nat :=
  let start := chunkIndex.toNat * chunkSize
  if start ≥ count then 0 else min chunkSize (count - start)

def allreduceUnit (task : PlanTask) (s : RankState) : Int := s.step.tdiv (task.worldSize - 1)

def allreduceStepInUnit (task : PlanTask) (s : RankState) : Int := s.step.tmod (task.worldSize - 1)

def allreduceSendChunk (task : PlanTask) (s : RankState) : Int :=
  let step := allreduceStepInUnit task s
  let worldSize := task.worldSize
  let chunk := if s.op.phase = kPhaseReduceScatter then (task.rank - step + worldSize).tmod worldSize
    else (task.rank - step + 1 + worldSize).tmod worldSize
  allreduceUnit task s * worldSize + chunk

def allreduceRecvChunk (task : PlanTask) (s : RankState) : Int :=
  let step := allreduceStepInUnit task s
  let worldSize := task.worldSize
  let chunk := if s.op.phase = kPhaseReduceScatter then
      (task.rank - step + worldSize - 1).tmod worldSize
    else (task.rank - step + worldSize).tmod worldSize
  allreduceUnit task s * worldSize + chunk

def allreduceUnits (task : PlanTask) : Nat :=
  let perUnit := task.chunkSize * task.worldSize.toNat
  if perUnit = 0 then 0 else (task.elemCount + perUnit - 1) / perUnit

def allreduceSendBytes (task : PlanTask) (s : RankState) : Nat :=
  chunkElemCount task.elemCount task.chunkSize (allreduceSendChunk task s) *
    getDataTypeSize task.dtype

def allreduceRecvBytes (task : PlanTask) (s : RankState) : Nat :=
  chunkElemCount task.elemCount task.chunkSize (allreduceRecvChunk task s) *
    getDataTypeSize task.dtype

def allreduceRecvPtr (task : PlanTask) (s : RankState) : Loc :=
  if s.op.phase = kPhaseReduceScatter then temp 0
  else user (task.recvBuf +
    (allreduceRecvChunk task s).toNat * task.chunkSize * getDataTypeSize task.dtype)

def allreduceSendPtr (task : PlanTask) (s : RankState) : Loc :=
  user (task.recvBuf +
    (allreduceSendChunk task s).toNat * task.chunkSize * getDataTypeSize task.dtype)

def blockBytes (task : PlanTask) : Nat := task.elemCount * getDataTypeSize task.dtype

def outputBlock (task : PlanTask) (block : Int) : Loc :=
  user (task.recvBuf + block.toNat * task.rankStride * getDataTypeSize task.dtype)

def inputBlock (task : PlanTask) (block : Int) : Loc :=
  user (task.sendBuf + block.toNat * task.rankStride * getDataTypeSize task.dtype)

def rootPosition (task : PlanTask) : Int :=
  (task.rank - task.root + task.worldSize).tmod task.worldSize

/-- The operation of a reduction before the average: `AVG` sums first. -/
def sumFirst (op : ReduceOp) : ReduceOp := if op = .avg then .sum else op

def reduceBlock (task : PlanTask) (input output : Loc) (s : RankState) : RankState :=
  s.performReduce input output task.elemCount task.dtype (sumFirst task.reduceOp)

def reduceScatterInputChunk (task : PlanTask) (s : RankState) : Int :=
  (task.rank - s.step - 2 + 2 * task.worldSize).tmod task.worldSize

def allGatherSendPtr (task : PlanTask) (s : RankState) : Loc :=
  outputBlock task ((task.rank - s.step + task.worldSize).tmod task.worldSize)

def allGatherRecvPtr (task : PlanTask) (s : RankState) : Loc :=
  outputBlock task ((task.rank - s.step - 1 + task.worldSize).tmod task.worldSize)

def reduceScatterSendPtr (task : PlanTask) (s : RankState) : Loc :=
  if s.step.tmod 2 = 0 then user task.recvBuf else temp 0

def reduceScatterRecvPtr (task : PlanTask) (s : RankState) : Loc :=
  if s.step.tmod 2 = 0 then temp 0 else user task.recvBuf

/-! ## 2. Transfers and phases -/

/-- The `Writable` half of `PushBuffer`: one `TrySend` for every connection not done. -/
def pushSends (data : Loc) (bytes : Nat) : List (Link × Nat) → RankState → Call RankState
  | [], s => pure s
  | (l, i) :: rest, s =>
    if s.op.sendDone.get i then pushSends data bytes rest s
    else do
      let (progress, done) ← trySend l s data bytes (s.op.sendProgress.get i)
      pushSends data bytes rest (s.setSend i progress done)

/-- The `Readable` half of `PushBuffer`. -/
def pushRecvs (data : Loc) (bytes : Nat) : List (Link × Nat) → RankState → Call RankState
  | [], s => pure s
  | (l, i) :: rest, s =>
    if s.op.recvDone.get i then pushRecvs data bytes rest s
    else do
      let (s, progress, done) ← tryRecv l s data bytes (s.op.recvProgress.get i)
      pushRecvs data bytes rest (s.setRecv i progress done)

def pushBuffer (task : PlanTask) (event : CollEvent) (sendData recvData : Loc)
    (sendBytes recvBytes : Nat) (s : RankState) : Call RankState :=
  match event with
  | .writable => pushSends sendData sendBytes task.sendTransports.zipIdx s
  | .readable => pushRecvs recvData recvBytes task.recvTransports.zipIdx s

/-- The cursors at the start of a phase. -/
def enterPhase (task : PlanTask) (phase : Int) (sendBytes recvBytes : Nat) (s : RankState) :
    RankState :=
  let sendSkip := (phase == kPhaseRecv || phase == kPhaseDone) || sendBytes == 0
  let recvSkip := (phase == kPhaseSend || phase == kPhaseDone) || recvBytes == 0
  { s with op := { s.op with
      phase := phase
      sendProgress := .assign task.sendTransports.length 0
      recvProgress := .assign task.recvTransports.length 0
      sendDone := .assign task.sendTransports.length sendSkip
      recvDone := .assign task.recvTransports.length recvSkip } }

def beginPhase (task : PlanTask) (phase : Int) (sendData recvData : Loc)
    (sendBytes recvBytes : Nat) (s : RankState) : Call RankState := do
  let s ← pushBuffer task .writable sendData recvData sendBytes recvBytes
    (enterPhase task phase sendBytes recvBytes s)
  pushBuffer task .readable sendData recvData sendBytes recvBytes s

/-- What is the operation's own in the buffers of a transfer: where to send from and receive to, how
    many bytes, and what happens between two phases. `settle` gives the next phase, or `none` where
    the code returns without beginning one. -/
structure Operation where
  sendPtr : PlanTask → RankState → Loc
  recvPtr : PlanTask → RankState → Loc
  sendBytes : PlanTask → RankState → Nat
  recvBytes : PlanTask → RankState → Nat
  settle : PlanTask → RankState → RankState × Option Int

/-- `BeginPhase` with the operation's buffers. -/
def Operation.begin (op : Operation) (task : PlanTask) (phase : Int) (s : RankState) :
    Call RankState :=
  beginPhase task phase (op.sendPtr task s) (op.recvPtr task s) (op.sendBytes task s)
    (op.recvBytes task s) s

/-- The loop of the `Complete*` functions, for at most `fuel` rounds. -/
def Operation.completeLoop (op : Operation) (task : PlanTask) : Nat → RankState → Call RankState
  | 0, _ => .fail .fuel
  | fuel + 1, s =>
    if sideDone s.op.sendDone && sideDone s.op.recvDone && s.op.phase != kPhaseDone then
      match op.settle task s with
      | (s, none) => pure s
      | (s, some phase) => do
        let s ← op.begin task phase s
        op.completeLoop task fuel s
    else pure s

/-- The `*Step` functions: start an unstarted task, then push the event's side and complete. -/
def Operation.stepWith (op : Operation) (init complete : RankState → Call RankState)
    (task : PlanTask) (event : CollEvent) (s : RankState) : Call RankState := do
  let s ← if s.op.phase = kPhaseUnstarted then init s else pure s
  if s.op.phase = kPhaseDone then pure s
  else do
    let s ← pushBuffer task event (op.sendPtr task s) (op.recvPtr task s) (op.sendBytes task s)
      (op.recvBytes task s) s
    complete s

/-! ## 3. The five operations

The number after `completeLoop` bounds its rounds; that it is never reached is part of every result
about these calls. -/

/-- Between two phases of `CompleteBroadcast`. -/
def broadcastSettle (task : PlanTask) (s : RankState) : RankState × Option Int :=
  if s.op.phase = kPhaseRecv ∧ (task.rank + 1).tmod task.worldSize ≠ task.root then
    (s, some kPhaseSend)
  else (s, some kPhaseDone)

def broadcast : Operation where
  sendPtr task _ := user task.recvBuf
  recvPtr task _ := user task.recvBuf
  sendBytes task _ := blockBytes task
  recvBytes task _ := blockBytes task
  settle := broadcastSettle

def completeBroadcast (task : PlanTask) : RankState → Call RankState :=
  broadcast.completeLoop task 3

/-- Between two phases of `CompleteAllGather`. -/
def allGatherSettle (task : PlanTask) (s : RankState) : RankState × Option Int :=
  let s := s.setStep (s.step + 1)
  (s, some (if s.step < task.worldSize - 1 then kPhaseExchange else kPhaseDone))

def allGather : Operation where
  sendPtr := allGatherSendPtr
  recvPtr := allGatherRecvPtr
  sendBytes task _ := blockBytes task
  recvBytes task _ := blockBytes task
  settle := allGatherSettle

def completeAllGather (task : PlanTask) : RankState → Call RankState :=
  allGather.completeLoop task (task.worldSize.toNat + 1)

/-- Between two phases of `CompleteReduce`. -/
def reduceSettle (task : PlanTask) (s : RankState) : RankState × Option Int :=
  if s.op.phase = kPhaseRecv then
    let s := reduceBlock task (temp (blockBytes task)) (temp 0) s
    if task.rank = task.root then
      let s := s.memcpy (user task.recvBuf) (temp 0) (blockBytes task)
      let s := if task.reduceOp = .avg then
          s.applyAverage (user task.recvBuf) task.elemCount task.dtype task.worldSize
        else s
      (s, some kPhaseDone)
    else (s, some kPhaseSend)
  else (s, some kPhaseDone)

def reduce : Operation where
  sendPtr _ _ := temp 0
  recvPtr task _ := temp (blockBytes task)
  sendBytes task _ := blockBytes task
  recvBytes task _ := blockBytes task
  settle := reduceSettle

def completeReduce (task : PlanTask) : RankState → Call RankState :=
  reduce.completeLoop task 3

/-- Between two phases of `CompleteReduceScatter`. -/
def reduceScatterSettle (task : PlanTask) (s : RankState) : RankState × Option Int :=
  let incoming := reduceScatterRecvPtr task s
  let s := reduceBlock task (inputBlock task (reduceScatterInputChunk task s)) incoming s
  let s := s.setStep (s.step + 1)
  if s.step < task.worldSize - 1 then (s, some kPhaseExchange)
  else
    let s := if incoming ≠ user task.recvBuf then
        s.memcpy (user task.recvBuf) incoming (blockBytes task)
      else s
    let s := if task.reduceOp = .avg then
        s.applyAverage (user task.recvBuf) task.elemCount task.dtype task.worldSize
      else s
    (s, some kPhaseDone)

def reduceScatter : Operation where
  sendPtr := reduceScatterSendPtr
  recvPtr := reduceScatterRecvPtr
  sendBytes task _ := blockBytes task
  recvBytes task _ := blockBytes task
  settle := reduceScatterSettle

def completeReduceScatter (task : PlanTask) : RankState → Call RankState :=
  reduceScatter.completeLoop task (task.worldSize.toNat + 1)

/-- The micro-operations of one phase of AllReduce. -/
def totalOps (task : PlanTask) : Nat := allreduceUnits task * (task.worldSize - 1).toNat

/-- The reduction at the end of a round of the first phase of AllReduce. -/
def allreduceReduce (task : PlanTask) (s : RankState) : RankState :=
  let recvChunk := allreduceRecvChunk task s
  let recvCount := chunkElemCount task.elemCount task.chunkSize recvChunk
  let recvPtr := user (task.recvBuf +
    recvChunk.toNat * task.chunkSize * getDataTypeSize task.dtype)
  let s' := s.performReduce (temp 0) recvPtr recvCount task.dtype (sumFirst task.reduceOp)
  if task.reduceOp = .avg ∧ allreduceStepInUnit task s = task.worldSize - 2 then
    s'.applyAverage recvPtr recvCount task.dtype task.worldSize
  else s'

/-- Between two rounds of `CompleteAllreduce`. -/
def allreduceSettle (task : PlanTask) (s : RankState) : RankState × Option Int :=
  let s := if s.op.phase = kPhaseReduceScatter then allreduceReduce task s else s
  let s := s.setStep (s.step + 1)
  if s.op.phase = kPhaseReduceScatter ∧ s.step.toNat ≥ totalOps task then
    ((s.setPhase kPhaseAllGather).setStep 0, some kPhaseAllGather)
  else if s.op.phase = kPhaseAllGather ∧ s.step.toNat ≥ totalOps task then
    (s.setPhase kPhaseDone, none)
  else (s, some s.op.phase)

def allreduce : Operation where
  sendPtr := allreduceSendPtr
  recvPtr := allreduceRecvPtr
  sendBytes := allreduceSendBytes
  recvBytes := allreduceRecvBytes
  settle := allreduceSettle

def completeAllreduce (task : PlanTask) : RankState → Call RankState :=
  allreduce.completeLoop task (2 * totalOps task + 3)

/-! ## 4. Starting and driving a task -/

/-- `s = CollOpState{}` -/
def clear (s : RankState) : RankState := { s with op := {} }

/-- The exit of a task that has nothing to transfer. -/
def finishAtOnce (task : PlanTask) (s : RankState) : RankState :=
  markAllDone task (s.setPhase kPhaseDone)

def allreduceInit (task : PlanTask) (s : RankState) : Call RankState :=
  let s := clear s
  let typeSize := getDataTypeSize task.dtype
  if task.worldSize ≤ 0 then .fail .error
  else if task.elemCount = 0 then pure (finishAtOnce task s)
  else if task.sendBuf = 0 ∨ task.recvBuf = 0 then .fail .error
  else
    let s := if task.sendBuf ≠ task.recvBuf then
        s.memcpy (user task.recvBuf) (user task.sendBuf) (task.elemCount * typeSize)
      else s
    if task.worldSize = 1 then
      let s := if task.reduceOp = .avg then
          s.applyAverage (user task.recvBuf) task.elemCount task.dtype task.worldSize
        else s
      pure (s.setPhase kPhaseDone)
    else if task.sendTransports.isEmpty ∨ task.recvTransports.isEmpty then .fail .error
    else do
      let s := (s.resizeTemp (task.chunkSize * typeSize)).setPhase kPhaseReduceScatter
      let s ← allreduce.begin task kPhaseReduceScatter (s.setStep 0)
      completeAllreduce task s

def allreduceStep (task : PlanTask) : CollEvent → RankState → Call RankState :=
  allreduce.stepWith (allreduceInit task) (completeAllreduce task) task

def broadcastInit (task : PlanTask) (s : RankState) : Call RankState :=
  let s := clear s
  if task.worldSize ≤ 0 ∨ task.root < 0 ∨ task.root ≥ task.worldSize then .fail .error
  else if task.elemCount = 0 then pure (finishAtOnce task s)
  else if task.recvBuf = 0 then .fail .error
  else if task.worldSize = 1 then pure (finishAtOnce task s)
  else if task.sendTransports.isEmpty ∨ task.recvTransports.isEmpty then .fail .error
  else do
    let phase := if task.rank = task.root then kPhaseSend else kPhaseRecv
    let s ← broadcast.begin task phase s
    completeBroadcast task s

def broadcastStep (task : PlanTask) : CollEvent → RankState → Call RankState :=
  broadcast.stepWith (broadcastInit task) (completeBroadcast task) task

def allGatherInit (task : PlanTask) (s : RankState) : Call RankState :=
  let s := clear s
  if task.worldSize ≤ 0 then .fail .error
  else if task.elemCount = 0 then pure (finishAtOnce task s)
  else if task.sendBuf = 0 ∨ task.recvBuf = 0 then .fail .error
  else
    let s := s.memcpy (outputBlock task task.rank) (user task.sendBuf) (blockBytes task)
    if task.worldSize = 1 then pure (finishAtOnce task s)
    else if task.sendTransports.isEmpty ∨ task.recvTransports.isEmpty then .fail .error
    else do
      let s ← allGather.begin task kPhaseExchange s
      completeAllGather task s

def allGatherStep (task : PlanTask) : CollEvent → RankState → Call RankState :=
  allGather.stepWith (allGatherInit task) (completeAllGather task) task

def reduceInit (task : PlanTask) (s : RankState) : Call RankState :=
  let s := clear s
  if task.worldSize ≤ 0 ∨ task.root < 0 ∨ task.root ≥ task.worldSize then .fail .error
  else if task.elemCount = 0 then pure (finishAtOnce task s)
  else if task.sendBuf = 0 ∨ (task.rank = task.root ∧ task.recvBuf = 0) then .fail .error
  else if task.worldSize = 1 then
    pure (finishAtOnce task
      (s.memcpy (user task.recvBuf) (user task.sendBuf) (blockBytes task)))
  else if task.sendTransports.isEmpty ∨ task.recvTransports.isEmpty then .fail .error
  else do
    let s := (s.resizeTemp (2 * blockBytes task)).memcpy (temp 0) (user task.sendBuf)
      (blockBytes task)
    let phase := if rootPosition task = 1 then kPhaseSend else kPhaseRecv
    let s ← reduce.begin task phase s
    completeReduce task s

def reduceStep (task : PlanTask) : CollEvent → RankState → Call RankState :=
  reduce.stepWith (reduceInit task) (completeReduce task) task

def reduceScatterInit (task : PlanTask) (s : RankState) : Call RankState :=
  let s := clear s
  if task.worldSize ≤ 0 then .fail .error
  else if task.elemCount = 0 then pure (finishAtOnce task s)
  else if task.sendBuf = 0 ∨ task.recvBuf = 0 then .fail .error
  else if task.worldSize = 1 then
    pure (finishAtOnce task
      (s.memcpy (user task.recvBuf) (user task.sendBuf) (blockBytes task)))
  else if task.sendTransports.isEmpty ∨ task.recvTransports.isEmpty then .fail .error
  else do
    let s := (s.resizeTemp (blockBytes task)).memcpy (user task.recvBuf)
      (inputBlock task ((task.rank - 1 + task.worldSize).tmod task.worldSize)) (blockBytes task)
    let s ← reduceScatter.begin task kPhaseExchange s
    completeReduceScatter task s

def reduceScatterStep (task : PlanTask) : CollEvent → RankState → Call RankState :=
  reduceScatter.stepWith (reduceScatterInit task) (completeReduceScatter task) task

def collectiveInit (task : PlanTask) (s : RankState) : Call RankState :=
  match task.func with
  | .allReduce => allreduceInit task s
  | .broadcast => broadcastInit task s
  | .allGather => allGatherInit task s
  | .reduce => reduceInit task s
  | .reduceScatter => reduceScatterInit task s
  | _ => .fail .error

def collectiveStep (task : PlanTask) (event : CollEvent) (s : RankState) : Call RankState :=
  match task.func with
  | .allReduce => allreduceStep task event s
  | .broadcast => broadcastStep task event s
  | .allGather => allGatherStep task event s
  | .reduce => reduceStep task event s
  | .reduceScatter => reduceScatterStep task event s
  | _ => .fail .error

def collectiveDone (s : RankState) : Bool := s.op.phase == kPhaseDone

/-! ## 5. Shape and connections -/

def getPrevRank (t : TopologyRing) (r : Int) : Int := (r - 1 + t.worldSize).tmod t.worldSize

def getNextRank (t : TopologyRing) (r : Int) : Int := (r + 1).tmod t.worldSize

def fillChannels (t : TopologyRing) (channels : List Channel) : List Channel :=
  channels.map fun channel =>
    { channel with ring := { prev := t.getPrevRank t.rank, next := t.getNextRank t.rank } }

/-- The directed edges a rank wants on a channel: the peer, and whether it sends to it. -/
def fillPeers (channel : Channel) : List (Int × Bool) :=
  [(channel.ring.next, true), (channel.ring.prev, false)]

/-- The transport of a connector, if there is one. -/
def transportOf (connector : Option Connector) : List Link :=
  (connector.bind Connector.transport).toList

def fillTransports (channel : Channel) (task : PlanTask) : PlanTask :=
  { task with sendTransports := transportOf (channel.sendConnector channel.ring.next)
              recvTransports := transportOf (channel.recvConnector channel.ring.prev) }

end TopologyRing

end OriginCCL
