/-
  File:      OriginCCL/Topology/Tree.lean
  Subject:   THE TREE STATE MACHINE (`src/topology/topology_tree.cpp`).

  A star inside each machine and a binary tree of machine leaders between machines. A task goes up,
  every leader reducing what its inputs send, then down, every leader handing the result on.

  Each connection has its own cursors; `edgeRecv` and `edgeSend` are the inner loops of `PushRecvs`
  and `PushSends` over the chunks of one connection.
-/
import OriginCCL.Communicator
import OriginCCL.Topology.Ring

namespace OriginCCL

open Net

namespace TopologyTree

def kPhaseUnstarted : Int := 0
def kPhaseUp : Int := 1
def kPhaseDown : Int := 2
def kPhaseDone : Int := 3

def kRoleStar : Int := 0
def kRoleTreeDown : Int := 1
def kRoleTreeUp : Int := 2

/-! ## 1. Chunks, roles and buffers -/

def typeSize (task : PlanTask) : Nat := getDataTypeSize task.dtype

def chunkCount (task : PlanTask) : Nat :=
  if task.chunkSize = 0 then 0 else (task.elemCount + task.chunkSize - 1) / task.chunkSize

def chunkElems (task : PlanTask) (chunk : Nat) : Nat :=
  let start := chunk * task.chunkSize
  if start ≥ task.elemCount then 0 else min task.chunkSize (task.elemCount - start)

def chunkBytes (task : PlanTask) (chunk : Nat) : Nat := chunkElems task chunk * typeSize task

def chunkOffset (task : PlanTask) (chunk : Nat) : Nat := chunk * task.chunkSize * typeSize task

def isInputRole (role : Int) : Bool := role == kRoleStar || role == kRoleTreeDown

/-- The index of the first connection to a parent, -1 if there is none. -/
def parentEdge (roles : List Int) : Int :=
  match roles.findIdx? (· == kRoleTreeUp) with
  | some i => i
  | none => -1

def sendSource (task : PlanTask) (isLeader : Bool) (chunk : Nat) : Loc :=
  (if isLeader then user task.recvBuf else user task.sendBuf).shift (chunkOffset task chunk)

def recvTarget (task : PlanTask) (isLeader : Bool) (roles : List Int) (edge chunk : Nat) : Loc :=
  if isLeader && isInputRole (roles.getD edge 0) then
    temp (edge * task.chunkSize * typeSize task)
  else (user task.recvBuf).shift (chunkOffset task chunk)

def reduceChunk (task : PlanTask) (edge chunk : Nat) (s : RankState) : RankState :=
  s.performReduce (temp (edge * task.chunkSize * typeSize task))
    ((user task.recvBuf).shift (chunkOffset task chunk)) (chunkElems task chunk) task.dtype
    (TopologyRing.sumFirst task.reduceOp)

/-! ## 2. The cursors of a connection -/

end TopologyTree

namespace RankState

def recvChunk (s : RankState) (i : Nat) : Nat := s.op.algo.tree.recvChunk.get i

def sendChunk (s : RankState) (j : Nat) : Nat := s.op.algo.tree.sendChunk.get j

/-- `++s.algo.tree.recv_chunk[i]` -/
def nextRecvChunk (s : RankState) (i : Nat) : RankState :=
  { s with op := { s.op with algo := { s.op.algo with tree := { s.op.algo.tree with
      recvChunk := s.op.algo.tree.recvChunk.set i (s.recvChunk i + 1) } } } }

/-- `++s.algo.tree.send_chunk[j]` -/
def nextSendChunk (s : RankState) (j : Nat) : RankState :=
  { s with op := { s.op with algo := { s.op.algo with tree := { s.op.algo.tree with
      sendChunk := s.op.algo.tree.sendChunk.set j (s.sendChunk j + 1) } } } }

end RankState

namespace TopologyTree

def minInputPrefix (task : PlanTask) (roles : List Int) (s : RankState) : Nat :=
  (List.range roles.length).foldl
    (fun best i => if isInputRole (roles.getD i 0) then min best (s.recvChunk i) else best)
    (chunkCount task)

/-- Some connection whose role meets `p` has chunks left on this side. -/
def chunksLeft (task : PlanTask) (roles : List Int) (p : Int → Bool) (cursor : Nat → Nat) : Bool :=
  (List.range roles.length).any fun i => p (roles.getD i 0) && decide (cursor i < chunkCount task)

def isUpRole (role : Int) : Bool := role == kRoleTreeUp

def upComplete (task : PlanTask) (roles : List Int) (isLeader : Bool) (s : RankState) : Bool :=
  if isLeader then
    !chunksLeft task roles isInputRole s.recvChunk && !chunksLeft task roles isUpRole s.sendChunk
  else !chunksLeft task roles (fun _ => true) s.sendChunk

def downComplete (task : PlanTask) (roles : List Int) (isLeader : Bool) (s : RankState) : Bool :=
  if isLeader then
    !chunksLeft task roles isUpRole s.recvChunk && !chunksLeft task roles isInputRole s.sendChunk
  else !chunksLeft task roles (fun _ => true) s.recvChunk

/-! ## 3. Transfers -/

/-- The `while` loop of `PushRecvs` on one connection. -/
def edgeRecv (task : PlanTask) (roles : List Int) (isLeader : Bool) (l : Link) (i : Nat) :
    Nat → RankState → Call RankState
  | 0, _ => .fail .fuel
  | fuel + 1, s =>
    if s.recvChunk i < chunkCount task then do
      let chunk := s.recvChunk i
      let s := if s.op.recvDone.get i then s.setRecv i 0 false else s
      let (s, progress, done) ← tryRecv l s (recvTarget task isLeader roles i chunk)
        (chunkBytes task chunk) (s.op.recvProgress.get i)
      let s := s.setRecv i progress done
      if !done then pure s
      else
        let s := if isLeader && isInputRole (roles.getD i 0) then reduceChunk task i chunk s else s
        edgeRecv task roles isLeader l i fuel (s.nextRecvChunk i)
    else pure s

/-- The connections `PushRecvs` visits. -/
def recvEligible (isLeader : Bool) (role : Int) (phase : Int) : Bool :=
  if isLeader then (if phase = kPhaseUp then isInputRole role else isUpRole role)
  else phase == kPhaseDown

def pushRecvsFrom (task : PlanTask) (roles : List Int) (isLeader : Bool) :
    List (Link × Nat) → RankState → Call RankState
  | [], s => pure s
  | (l, i) :: rest, s =>
    if recvEligible isLeader (roles.getD i 0) s.op.phase then do
      let s ← edgeRecv task roles isLeader l i (chunkCount task + 1) s
      pushRecvsFrom task roles isLeader rest s
    else pushRecvsFrom task roles isLeader rest s

def pushRecvs (task : PlanTask) (roles : List Int) (isLeader : Bool) (s : RankState) :
    Call RankState :=
  pushRecvsFrom task roles isLeader task.recvTransports.zipIdx s

/-- The number of chunks `PushSends` may have sent on a connection. -/
def sendGate (task : PlanTask) (roles : List Int) (isLeader : Bool) (s : RankState) : Nat :=
  if isLeader then
    if s.op.phase = kPhaseUp then minInputPrefix task roles s
    else
      let parent := parentEdge roles
      if parent < 0 then chunkCount task else s.recvChunk parent.toNat
  else chunkCount task

/-- The `while` loop of `PushSends` on one connection. -/
def edgeSend (task : PlanTask) (isLeader : Bool) (gate : Nat) (l : Link) (j : Nat) :
    Nat → RankState → Call RankState
  | 0, _ => .fail .fuel
  | fuel + 1, s =>
    if s.sendChunk j < gate then do
      let chunk := s.sendChunk j
      let s := if s.op.sendDone.get j then s.setSend j 0 false else s
      let (progress, done) ← trySend l s (sendSource task isLeader chunk) (chunkBytes task chunk)
        (s.op.sendProgress.get j)
      let s := s.setSend j progress done
      if !done then pure s else edgeSend task isLeader gate l j fuel (s.nextSendChunk j)
    else pure s

/-- The connections `PushSends` visits. -/
def sendEligible (isLeader : Bool) (role : Int) (phase : Int) : Bool :=
  if isLeader then (if phase = kPhaseUp then isUpRole role else isInputRole role)
  else phase == kPhaseUp

def pushSendsFrom (task : PlanTask) (roles : List Int) (isLeader : Bool) (gate : Nat) :
    List (Link × Nat) → RankState → Call RankState
  | [], s => pure s
  | (l, j) :: rest, s =>
    if sendEligible isLeader (roles.getD j 0) s.op.phase then do
      let s ← edgeSend task isLeader gate l j (gate + 1) s
      pushSendsFrom task roles isLeader gate rest s
    else pushSendsFrom task roles isLeader gate rest s

def pushSends (task : PlanTask) (roles : List Int) (isLeader : Bool) (s : RankState) :
    Call RankState :=
  pushSendsFrom task roles isLeader (sendGate task roles isLeader s) task.sendTransports.zipIdx s

/-! ## 4. The two phases -/

def enterDown (task : PlanTask) (roles : List Int) (isLeader : Bool) (s : RankState) : RankState :=
  let s := { s with op := { s.op with
      phase := kPhaseDown
      algo := { s.op.algo with tree :=
        { recvChunk := .assign task.recvTransports.length 0
          sendChunk := .assign task.sendTransports.length 0 } }
      recvProgress := .assign task.recvTransports.length 0
      sendProgress := .assign task.sendTransports.length 0
      recvDone := .assign task.recvTransports.length true
      sendDone := .assign task.sendTransports.length true } }
  if isLeader ∧ parentEdge roles < 0 ∧ task.reduceOp = .avg then
    s.applyAverage (user task.recvBuf) task.elemCount task.dtype task.worldSize
  else s

/-- `Advance`, for at most `fuel` rounds. -/
def advance (task : PlanTask) (roles : List Int) (isLeader : Bool) :
    Nat → RankState → Call RankState
  | 0, _ => .fail .fuel
  | fuel + 1, s =>
    if s.op.phase = kPhaseUp then
      if !upComplete task roles isLeader s then pure s
      else do
        let s ← pushRecvs task roles isLeader (enterDown task roles isLeader s)
        let s ← pushSends task roles isLeader s
        advance task roles isLeader fuel s
    else if s.op.phase = kPhaseDown then
      if !downComplete task roles isLeader s then pure s else pure (s.setPhase kPhaseDone)
    else pure s

/-- The cursors `TreeInit` starts with. -/
def start (task : PlanTask) (s : RankState) : RankState :=
  { s with op :=
    { sendProgress := .assign task.sendTransports.length 0
      recvProgress := .assign task.recvTransports.length 0
      sendDone := .assign task.sendTransports.length true
      recvDone := .assign task.recvTransports.length true
      algo := { tree := { sendChunk := .assign task.sendTransports.length 0
                          recvChunk := .assign task.recvTransports.length 0 } } } }

def treeInit (task : PlanTask) (roles : List Int) (isLeader : Bool) (s : RankState) :
    Call RankState :=
  let s := start task s
  if task.func ≠ .allReduce then .fail .error
  else if task.worldSize ≤ 0 then .fail .error
  else if task.elemCount = 0 then pure (s.setPhase kPhaseDone)
  else if task.sendBuf = 0 ∨ task.recvBuf = 0 then .fail .error
  else
    let copy (s : RankState) :=
      if task.sendBuf ≠ task.recvBuf then
        s.memcpy (user task.recvBuf) (user task.sendBuf) (task.elemCount * typeSize task)
      else s
    if task.worldSize = 1 then
      let s := copy s
      let s := if task.reduceOp = .avg then
          s.applyAverage (user task.recvBuf) task.elemCount task.dtype task.worldSize
        else s
      pure (s.setPhase kPhaseDone)
    else if task.sendTransports.isEmpty ∨ task.recvTransports.isEmpty then .fail .error
    else do
      let s := if isLeader then
          copy (s.resizeTemp (roles.countP isInputRole * task.chunkSize * typeSize task))
        else s
      let s ← pushRecvs task roles isLeader (s.setPhase kPhaseUp)
      let s ← pushSends task roles isLeader s
      advance task roles isLeader 2 s

/-- The role table of the task's channel: `channel_roles_[task.channel_id]`. -/
def rolesOf (t : TopologyTree) (task : PlanTask) : List Int :=
  t.channelRoles.getD task.channelId.toNat []

def collectiveInit (t : TopologyTree) (task : PlanTask) (s : RankState) : Call RankState :=
  if task.func ≠ .allReduce then .fail .error
  else treeInit task (t.rolesOf task) t.isLeader s

def collectiveStep (t : TopologyTree) (task : PlanTask) (_ : CollEvent) (s : RankState) :
    Call RankState := do
  let roles := t.rolesOf task
  let s ← if s.op.phase = kPhaseUnstarted then treeInit task roles t.isLeader s else pure s
  if s.op.phase = kPhaseDone then pure s
  else do
    let s ← pushRecvs task roles t.isLeader s
    let s ← pushSends task roles t.isLeader s
    advance task roles t.isLeader 2 s

def collectiveDone (s : RankState) : Bool := s.op.phase == kPhaseDone

/-! ## 5. Shape and connections -/

/-- The other ranks of the machine for its leader, the leader for the others. -/
def starPeers (comm : Communicator) : List Int :=
  if comm.localRank = 0 then comm.localRanks.tail.map Nat.cast
  else [(comm.localRanks.headD 0 : Nat)]

def mirrored (channelId : Int) : Bool := channelId.tmod 2 ≠ 0

/-- The place of a machine in the tree of a channel, and back: odd channels count from the end. -/
def treeNode (comm : Communicator) (channelId : Int) (machine : Nat) : Nat :=
  if mirrored channelId then comm.machineCount - 1 - machine else machine

/-- The leader of the machine at a place of the tree. -/
def nodeLeader (comm : Communicator) (channelId : Int) (node : Nat) : Int :=
  comm.machineLeaders.getD (treeNode comm channelId node) 0

def treeParent (comm : Communicator) (channelId : Int) : Int :=
  let node := treeNode comm channelId comm.machineIndex
  if node = 0 then -1 else nodeLeader comm channelId ((node - 1) / 2)

def treeChildren (comm : Communicator) (channelId : Int) : List Int :=
  let node := treeNode comm channelId comm.machineIndex
  ([2 * node + 1, 2 * node + 2].filter fun child => child < comm.machineCount).map
    (nodeLeader comm channelId)

/-- The machine of a child, as the loop counts it: on odd channels mirrored back, with
    `machine_count` for a child that does not exist. -/
def childMachine (comm : Communicator) (channelId : Int) (child : Nat) : Nat :=
  if mirrored channelId then
    if child < comm.machineCount then comm.machineCount - 1 - child else comm.machineCount
  else child

/-- The children are the leaders of the machines the loop keeps. -/
theorem treeChildren_loop (comm : Communicator) (channelId : Int) :
    let node := treeNode comm channelId comm.machineIndex
    treeChildren comm channelId =
      (([2 * node + 1, 2 * node + 2].map (childMachine comm channelId)).filter
        fun machine => machine < comm.machineCount).map
          fun machine => comm.machineLeaders.getD machine 0 := by
  intro node
  have hkeep : ∀ child, decide (childMachine comm channelId child < comm.machineCount) =
      decide (child < comm.machineCount) := by
    intro child
    refine decide_eq_decide.mpr ?_
    unfold childMachine
    split
    · split <;> omega
    · exact Iff.rfl
  change (List.filter _ [2 * node + 1, 2 * node + 2]).map _ = _
  rw [List.filter_map, List.map_map]
  have hfilter : ∀ l : List Nat, l.filter
      ((fun machine => decide (machine < comm.machineCount)) ∘ childMachine comm channelId) =
      l.filter fun child => decide (child < comm.machineCount) := fun l =>
    List.filter_congr fun child _ => hkeep child
  rw [hfilter]
  refine List.map_congr_left fun child hchild => ?_
  have hlt : child < comm.machineCount := by simpa using (List.mem_filter.mp hchild).2
  simp only [nodeLeader, treeNode, childMachine, Function.comp_apply, if_pos hlt]

/-- The tree of a channel, seen from one rank. -/
def treeOf (comm : Communicator) (channelId : Int) : Tree :=
  if comm.localRank = 0 then
    { parent := treeParent comm channelId
      children := treeChildren comm channelId
      starPeers := starPeers comm }
  else { parent := -1, children := [], starPeers := starPeers comm }

/-- The roles of the connections of a channel. -/
def treeRoles (comm : Communicator) (tree : Tree) : List Int :=
  if comm.localRank = 0 then
    List.replicate tree.starPeers.length kRoleStar ++
      List.replicate tree.children.length kRoleTreeDown ++
      if tree.parent ≥ 0 then [kRoleTreeUp] else []
  else [kRoleStar]

/-- The channels with their trees, and the topology with its role tables. -/
def fillChannels (comm : Communicator) (channels : List Channel) : TopologyTree × List Channel :=
  ({ isLeader := comm.localRank = 0
     channelRoles := channels.foldl
       (fun table channel =>
         table.modify channel.id.toNat (· ++ treeRoles comm (treeOf comm channel.id)))
       (List.replicate channels.length []) },
    channels.map fun channel => { channel with tree := treeOf comm channel.id })

/-- The peers of a tree, in the order of their roles. -/
def peers (tree : Tree) : List Int :=
  tree.starPeers ++ tree.children ++ if tree.parent ≥ 0 then [tree.parent] else []

/-- The directed edges a rank wants on a channel: the peer, and whether it sends to it. -/
def fillPeers (channel : Channel) : List (Int × Bool) :=
  (peers channel.tree).flatMap fun peer => [(peer, true), (peer, false)]

def fillTransports (channel : Channel) (task : PlanTask) : PlanTask :=
  { task with
    sendTransports := (peers channel.tree).flatMap fun peer =>
      TopologyRing.transportOf (channel.sendConnector peer)
    recvTransports := (peers channel.tree).flatMap fun peer =>
      TopologyRing.transportOf (channel.recvConnector peer) }

end TopologyTree

end OriginCCL
