/-
  File:      OriginCCL/Plan/Planner.lean
  Subject:   THE PLANNER (`src/planner.cpp`) and the communicator it plans for.

  * `CommunicatorState` -- the members of a communicator, as `Communicator::Init` leaves them
    (`Communicator.init`).
  * `Planner.validateCollectiveTask`, `sortTasks`, `emitCollectiveSlices`, `plan` -- the planner.

  `size_t` arithmetic is written out with `sizeT`. What becomes of the connections a round of P2P
  tasks wants is a parameter, `RoundOutcome`.
-/
import OriginCCL.Topology.Channel
import OriginCCL.Topology.World

namespace OriginCCL

/-- The value of a `size_t` expression. -/
def sizeT (x : Nat) : Nat := x % 2 ^ 64

/-- `std::numeric_limits<size_t>::max()` -/
def sizeMax : Nat := 2 ^ 64 - 1

def kChunkBytes : Nat := 32 * 1024
def kTreeThresholdChunks : Nat := 4
def kDefaultChannelCount : Nat := 4

/-- The most that the zero-copy transport takes, as `ValidateP2p` knows it. -/
def kRdmaZcMaxTransferSize : Nat := 2 ^ 30

namespace Topology

def fillTransports : Topology → Channel → PlanTask → PlanTask
  | .ring _, channel, task => TopologyRing.fillTransports channel task
  | .tree _, channel, task => TopologyTree.fillTransports channel task
  | .p2p, channel, task => TopologyP2p.fillTransports channel task

end Topology

/-- The connectors of `TopologyP2p::FillChannels`. -/
def TopologyP2p.fillChannels (worldSize : Nat) (channels : List Channel) : List Channel :=
  channels.map fun channel =>
    { channel with
      sendP2p := (List.range worldSize).map fun (peer : Nat) =>
        { peer := peer, channelId := channel.id, isSend := true, transport := none }
      recvP2p := (List.range worldSize).map fun (peer : Nat) =>
        { peer := peer, channelId := channel.id, isSend := false, transport := none } }

/-! ## 1. The communicator -/

structure ChannelPlan where
  channelId : Nat
  tasks : List PlanTask := []

structure CollPlan where
  channels : List ChannelPlan := []
  slices : List PlanTask := []

/-- `CollPlan(n_channels)` -/
def CollPlan.ofChannels (n : Nat) : CollPlan where
  channels := (List.range n).map fun id => { channelId := id }

/-- `plan.channels[id].tasks.push_back(task)` -/
def CollPlan.push (p : CollPlan) (id : Nat) (task : PlanTask) : CollPlan :=
  { p with channels := p.channels.modify id fun c => { c with tasks := c.tasks ++ [task] } }

/-- How planning fails: it returns false, or `GetChannel` throws. -/
inductive PlanFault where
  | rejected
  | outOfRange
  deriving DecidableEq, Repr

/-- The members of a communicator that its operations use. `nChannels` is `config.n_channels`,
    `sameMachine` compares the hostname of another rank with the own one. -/
structure CommunicatorState where
  rank : Int
  worldSize : Int
  nChannels : Int
  channels : List Channel
  ringTopology : TopologyRing
  treeTopology : TopologyTree
  sameMachine : Int → Bool
  useShm : Bool
  rdmaReady : Bool
  dynamicAvailable : Bool
  groupDepth : Int := 0
  pendingTasks : List CollTask := []

namespace CommunicatorState

/-- `GetNChannels` -/
def getNChannels (comm : CommunicatorState) : Nat := comm.channels.length

/-- `GetChannel` -/
def getChannel (comm : CommunicatorState) (id : Nat) : Except PlanFault Channel :=
  match comm.channels[id]? with
  | some channel => .ok channel
  | none => .error .outOfRange

end CommunicatorState

/-- The number of channels `Init` makes. -/
def channelCount (nChannels : Int) : Nat :=
  if 0 < nChannels then nChannels.toNat else kDefaultChannelCount

/-- What `Init` finds out about the host and its environment. -/
structure InitOptions where
  useShm : Bool
  rdmaReady : Bool
  dynamicEnabled : Bool

/-- `Communicator::Init` when it returns true: with one rank only the channels are made, otherwise they
    are shaped for the ring and the tree and connected. -/
def Communicator.init {H : Type} [DecidableEq H] (hosts : Nat → H) (worldSize rank : Nat)
    (nChannels : Int) (options : InitOptions) : CommunicatorState :=
  let w : World H := ⟨worldSize, hosts, channelCount nChannels⟩
  let single : CommunicatorState :=
    { rank := rank, worldSize := worldSize, nChannels := nChannels
      channels := TopologyP2p.fillChannels worldSize
        ((List.range w.nChannels).map (initialChannel worldSize))
      ringTopology := w.ring rank, treeTopology := {}
      sameMachine := fun peer => hosts peer.toNat = hosts rank
      useShm := options.useShm, rdmaReady := false, dynamicAvailable := false }
  if worldSize ≤ 1 then single
  else { single with
    channels := TopologyP2p.fillChannels worldSize (w.channels rank)
    treeTopology := w.tree rank, rdmaReady := options.rdmaReady
    dynamicAvailable := options.dynamicEnabled }

namespace Planner

def kP2pSendChannel : Nat := 0
def kP2pRecvChannel : Nat := 1

/-! ## 2. Validation and order -/

def isP2p (func : CollFunc) : Bool := func == .send || func == .recv

def isCollective : CollFunc → Bool
  | .allReduce | .broadcast | .reduce | .allGather | .reduceScatter => true
  | _ => false

def isReduceOp : ReduceOp → Bool
  | .sum | .max | .min | .avg => true

def p2pRoundOf (func : CollFunc) (rank peer worldSize : Int) : Int :=
  let forward := if func = .send then (peer - rank + worldSize).tmod worldSize
    else (rank - peer + worldSize).tmod worldSize
  worldSize - forward

/-- The round of a task with another rank. -/
theorem p2pRoundOf_bounds {rank peer worldSize : Int} (hrank : 0 ≤ rank ∧ rank < worldSize)
    (hpeer : 0 ≤ peer ∧ peer < worldSize) (hne : peer ≠ rank) (func : CollFunc) :
    1 ≤ p2pRoundOf func rank peer worldSize ∧ p2pRoundOf func rank peer worldSize < worldSize := by
  have hforward : ∀ x y : Int, 0 ≤ x → x < worldSize → 0 ≤ y → y < worldSize → x ≠ y →
      1 ≤ (x - y + worldSize).tmod worldSize ∧ (x - y + worldSize).tmod worldSize < worldSize := by
    intro x y hx hx' hy hy' hxy
    rw [Int.tmod_eq_emod_of_nonneg (by omega)]
    by_cases hlt : x < y
    · rw [Int.emod_eq_of_lt (by omega) (by omega)]
      omega
    · rw [Int.add_emod_right, Int.emod_eq_of_lt (by omega) (by omega)]
      omega
  have h1 := hforward peer rank (by omega) (by omega) (by omega) (by omega) hne
  have h2 := hforward rank peer (by omega) (by omega) (by omega) (by omega) (Ne.symm hne)
  unfold p2pRoundOf
  dsimp only
  split <;> omega

/-- The functions that reduce. -/
def reduces (func : CollFunc) : Bool := func == .allReduce || func == .reduce || func == .reduceScatter

/-- The functions that have a root. -/
def hasRoot (func : CollFunc) : Bool := func == .broadcast || func == .reduce

/-- The value of an enumerator, for the order of tasks. -/
def opIndex : ReduceOp → Int
  | .sum => 0
  | .max => 1
  | .min => 2
  | .avg => 3

def funcIndex : CollFunc → Int
  | .allReduce => 0
  | .broadcast => 1
  | .reduce => 2
  | .allGather => 3
  | .reduceScatter => 4
  | .send => 5
  | .recv => 6

def dtypeIndex : DataType → Int
  | .float32 => 0
  | .float64 => 1
  | .int32 => 2
  | .int64 => 3

def effectiveOp (task : CollTask) : Int := if reduces task.func then opIndex task.op else 0

def effectiveRoot (task : CollTask) : Int := if hasRoot task.func then task.root else 0

def validateCollectiveTask (task : CollTask) (rank worldSize : Int) : Bool :=
  let typeSize := getDataTypeSize task.dtype
  if !isCollective task.func || worldSize ≤ 0 || rank < 0 || rank ≥ worldSize then false
  else if typeSize = 0 ∨ task.count > sizeMax / typeSize then false
  else if reduces task.func && !isReduceOp task.op then false
  else if hasRoot task.func && (task.root < 0 || task.root ≥ worldSize) then false
  else if (task.func == .allGather || task.func == .reduceScatter) && task.count != 0 &&
      decide (task.count > sizeMax / worldSize.toNat / typeSize) then false
  else if task.count = 0 then true
  else
    let needsSend := task.func != .broadcast
    let needsRecv := task.func != .reduce || rank == task.root
    !(needsSend && task.sendBuf == 0 || needsRecv && task.recvBuf == 0)

/-- The order of the collectives of a batch: `less(a, b)`. -/
def collectiveLess (a b : CollTask) : Bool :=
  if a.func ≠ b.func then funcIndex a.func < funcIndex b.func
  else
    let aBytes := sizeT (a.count * getDataTypeSize a.dtype)
    let bBytes := sizeT (b.count * getDataTypeSize b.dtype)
    if aBytes ≠ bBytes then aBytes < bBytes
    else if a.dtype ≠ b.dtype then dtypeIndex a.dtype < dtypeIndex b.dtype
    else if effectiveOp a ≠ effectiveOp b then effectiveOp a < effectiveOp b
    else effectiveRoot a < effectiveRoot b

/-- The order of the P2P tasks. -/
def p2pLess (rank worldSize : Int) (a b : CollTask) : Bool :=
  let aRound := p2pRoundOf a.func rank a.peer worldSize
  let bRound := p2pRoundOf b.func rank b.peer worldSize
  if aRound ≠ bRound then aRound < bRound else funcIndex a.func < funcIndex b.func

/-- `std::stable_sort` -/
def stableSort {α : Type} (less : α → α → Bool) (xs : List α) : List α :=
  xs.mergeSort fun a b => !less b a

/-- The check of one task in `SortTasks`. -/
def sortable (rank worldSize : Int) (task : CollTask) : Bool :=
  if isP2p task.func then !(task.peer < 0 || task.peer ≥ worldSize || task.peer == rank)
  else validateCollectiveTask task rank worldSize

/-- `SortTasks`: the new order, or `none` if it returns false and leaves the tasks as they are. -/
def sortTasks (tasks : List CollTask) (rank worldSize : Int) : Option (List CollTask) :=
  if worldSize ≤ 0 ∨ rank < 0 ∨ rank ≥ worldSize then none
  else if tasks.all (sortable rank worldSize) then
    some (stableSort collectiveLess (tasks.filter fun task => !isP2p task.func) ++
      stableSort (p2pLess rank worldSize) (tasks.filter fun task => isP2p task.func))
  else none

def isCollectiveBatch (tasks : List CollTask) : Bool := tasks.all fun task => !isP2p task.func

/-! ## 3. Slices -/

def totalBytes (task : CollTask) : Nat := sizeT (task.count * getDataTypeSize task.dtype)

def useTree (task : CollTask) : Bool :=
  task.func == .allReduce && totalBytes task / kChunkBytes < kTreeThresholdChunks

def unitBytes (worldSize : Int) (task : CollTask) : Nat :=
  if useTree task || task.func == .allReduce then sizeT (kChunkBytes * worldSize.toNat)
  else kChunkBytes

section Slicing

variable (worldSize : Int) (maxChannels : Nat) (task : CollTask)

def unitsTotal : Nat := totalBytes task / unitBytes worldSize task

def remBytes : Nat := totalBytes task % unitBytes worldSize task

def nUsed : Nat := if 0 < unitsTotal worldSize task then min (unitsTotal worldSize task) maxChannels else 1

def baseUnits : Nat := unitsTotal worldSize task / nUsed worldSize maxChannels task

def remUnits : Nat := unitsTotal worldSize task % nUsed worldSize maxChannels task

def channelUnits (c : Nat) : Nat :=
  baseUnits worldSize maxChannels task + if c < remUnits worldSize maxChannels task then 1 else 0

def channelBytes (c : Nat) : Nat :=
  let bytes := sizeT (channelUnits worldSize maxChannels task c * unitBytes worldSize task)
  if c = nUsed worldSize maxChannels task - 1 then sizeT (bytes + remBytes worldSize task) else bytes

/-- `elem_count` of iteration `c` -/
def sliceElems (c : Nat) : Nat :=
  channelBytes worldSize maxChannels task c / getDataTypeSize task.dtype

/-- `offset` at the start of iteration `c` -/
def sliceOffset : Nat → Nat
  | 0 => 0
  | c + 1 => sizeT (sliceOffset c + sliceElems worldSize maxChannels task c)

/-- `chunk_size` of a slice of `elemCount` elements -/
def sliceChunk (elemCount : Nat) : Nat :=
  if useTree task || task.func == .allReduce then kChunkBytes / getDataTypeSize task.dtype
  else sizeT (elemCount + worldSize.toNat - 1) / worldSize.toNat

end Slicing

/-- A buffer from element `offset` on. -/
def shiftBuf (buf offset typeSize : Nat) : Nat := if buf = 0 then 0 else buf + sizeT (offset * typeSize)

/-- The task of iteration `c`, before it is bound to a channel. -/
def slice (comm : CommunicatorState) (task : CollTask) (c : Nat) : PlanTask :=
  let maxChannels := max comm.getNChannels 1
  let typeSize := getDataTypeSize task.dtype
  let offset := sliceOffset comm.worldSize maxChannels task c
  let elemCount := sliceElems comm.worldSize maxChannels task c
  { func := task.func
    topology := some (if useTree task then .tree comm.treeTopology else .ring comm.ringTopology)
    sendBuf := shiftBuf task.sendBuf offset typeSize
    recvBuf := shiftBuf task.recvBuf offset typeSize
    elemCount := elemCount, rankStride := task.count, root := task.root, dtype := task.dtype
    reduceOp := task.op, channelId := -1, rank := comm.rank, worldSize := comm.worldSize
    chunkSize := sliceChunk comm.worldSize task elemCount }

/-- A task on a channel, with the connections its topology picks there. -/
def bindTask (channel : Channel) (id : Int) (task : PlanTask) : PlanTask :=
  match task.topology with
  | some topology => topology.fillTransports channel { task with channelId := id }
  | none => { task with channelId := id }

/-- One iteration of the loop of `EmitCollectiveSlices`. -/
def emitSlice (comm : CommunicatorState) (task : CollTask) (bind : Bool) (plan : CollPlan) (c : Nat) :
    Except PlanFault CollPlan := do
  let channelId := c % max comm.getNChannels 1
  let channel ← comm.getChannel channelId
  if bind then pure (plan.push channelId (bindTask channel channel.id (slice comm task c)))
  else pure { plan with slices := plan.slices ++ [slice comm task c] }

def emitCollectiveSlices (comm : CommunicatorState) (task : CollTask) (plan : CollPlan) (bind : Bool) :
    Except PlanFault CollPlan :=
  (List.range (nUsed comm.worldSize (max comm.getNChannels 1) task)).foldlM
    (emitSlice comm task bind) plan

def planCollective (comm : CommunicatorState) (task : CollTask) (plan : CollPlan) :
    Except PlanFault CollPlan :=
  emitCollectiveSlices comm task plan true

/-! ## 4. P2P rounds -/

def validateP2p (comm : CommunicatorState) (task : CollTask) : Bool :=
  let typeSize := getDataTypeSize task.dtype
  let buf := if task.func = .send then task.sendBuf else task.recvBuf
  if task.peer < 0 ∨ task.peer ≥ comm.worldSize ∨ task.peer = comm.rank then false
  else if task.count ≠ 0 ∧ (buf = 0 ∨ typeSize = 0 ∨ task.count > sizeMax / typeSize) then false
  else if task.count ≠ 0 then
    let useShm := comm.sameMachine task.peer && comm.useShm
    let useRdmaZc := !useShm && (!comm.sameMachine task.peer || comm.rdmaReady)
    !(useRdmaZc && decide (kRdmaZcMaxTransferSize < sizeT (task.count * typeSize)))
  else true

/-- What becomes of the connections of a round: the peers connected to, the sources accepted from, and
    whether `PrepareRound` returns true. -/
structure RoundOutcome where
  connected : List Int
  accepted : List Int
  ok : Bool

/-- The peers of the tasks that move bytes, without duplicates, in order. -/
def roundPeers (tasks : List CollTask) : List Int :=
  (((tasks.filter fun task => task.count ≠ 0).map CollTask.peer).mergeSort (· ≤ ·)).eraseReps

/-- `std::unique` on a sorted list keeps every value. -/
theorem mem_eraseReps (xs : List Int) (x : Int) : x ∈ xs.eraseReps ↔ x ∈ xs := by
  have hloop : ∀ (xs acc : List Int) (a : Int),
      x ∈ List.eraseRepsBy.loop (· == ·) a xs acc ↔ x ∈ acc ∨ x = a ∨ x ∈ xs := by
    intro xs
    induction xs with
    | nil =>
      intro acc a
      rw [List.eraseRepsBy.loop, List.mem_reverse, List.mem_cons]
      constructor
      · intro h
        exact h.elim (fun h => Or.inr (Or.inl h)) Or.inl
      · intro h
        exact h.elim Or.inr fun h => h.elim Or.inl fun h => absurd h List.not_mem_nil
    | cons b xs ih =>
      intro acc a
      rw [List.eraseRepsBy.loop]
      cases hab : (a == b) with
      | true =>
        have hab := eq_of_beq hab
        dsimp only
        rw [ih, List.mem_cons, hab]
        tauto
      | false =>
        dsimp only
        rw [ih, List.mem_cons, List.mem_cons]
        tauto
  cases xs with
  | nil => exact Iff.rfl
  | cons a xs =>
    show x ∈ List.eraseRepsBy.loop (· == ·) a xs [] ↔ _
    rw [hloop, List.mem_cons]
    exact ⟨fun h => h.elim (fun h => absurd h List.not_mem_nil) id, Or.inr⟩

/-- The peers of the tasks that move bytes. -/
theorem mem_roundPeers {tasks : List CollTask} {p : Int} :
    p ∈ roundPeers tasks ↔ ∃ t ∈ tasks, t.count ≠ 0 ∧ t.peer = p := by
  rw [roundPeers, mem_eraseReps, List.mem_mergeSort, List.mem_map]
  constructor
  · rintro ⟨t, ht, rfl⟩
    obtain ⟨ht, hcount⟩ := List.mem_filter.mp ht
    exact ⟨t, ht, of_decide_eq_true hcount, rfl⟩
  · rintro ⟨t, ht, hcount, rfl⟩
    exact ⟨t, List.mem_filter.mpr ⟨ht, decide_eq_true hcount⟩, rfl⟩

/-- The peers that have no connection yet. -/
def unconnected (connectors : List Connector) (peers : List Int) : List Int :=
  peers.filter fun peer => ((connectors[peer.toNat]?).bind Connector.transport).isNone

/-- The connectors after a connection with each of `peers`. -/
def connectP2p (link : Nat → Link) (peers : List Int) (connectors : List Connector) : List Connector :=
  connectors.map fun c =>
    if c.peer ∈ peers ∧ c.transport = none then { c with transport := some (link c.peer.toNat) } else c

/-- The channels after the connections of a round. -/
def connectRound (comm : CommunicatorState) (outcome : RoundOutcome) : CommunicatorState :=
  let rank := comm.rank.toNat
  let channels := comm.channels.modify kP2pSendChannel fun channel =>
    { channel with sendP2p := connectP2p (fun peer => ⟨.p2p, rank, peer⟩) outcome.connected channel.sendP2p }
  { comm with channels := channels.modify kP2pRecvChannel fun channel =>
    { channel with
      recvP2p := connectP2p (fun peer => ⟨.p2p, peer, rank⟩) outcome.accepted channel.recvP2p } }

def prepareRound (comm : CommunicatorState) (sends recvs : List CollTask) (outcome : RoundOutcome) :
    CommunicatorState × Except PlanFault Unit :=
  match comm.getChannel kP2pSendChannel, comm.getChannel kP2pRecvChannel with
  | .ok sendChannel, .ok recvChannel =>
    if unconnected sendChannel.sendP2p (roundPeers sends) = [] ∧
        unconnected recvChannel.recvP2p (roundPeers recvs) = [] then (comm, .ok ())
    else (connectRound comm outcome, if outcome.ok then .ok () else .error .rejected)
  | _, _ => (comm, .error .outOfRange)

/-- `append`: the task of a Send or a Recv goes to the end of its channel. -/
def appendP2p (comm : CommunicatorState) (id : Nat) (plan : CollPlan) (task : CollTask) :
    Except PlanFault CollPlan := do
  let channel ← comm.getChannel id
  pure (plan.push id (TopologyP2p.fillTransports channel
    { func := task.func, sendBuf := task.sendBuf, recvBuf := task.recvBuf, elemCount := task.count
      dtype := task.dtype, peer := task.peer, channelId := id, rank := comm.rank
      worldSize := comm.worldSize, topology := some .p2p }))

/-- The tasks of a round. -/
def roundTasks (comm : CommunicatorState) (tasks : List CollTask) (func : CollFunc) (round : Int) :
    List CollTask :=
  tasks.filter fun task => task.func == func &&
    p2pRoundOf task.func comm.rank task.peer comm.worldSize == round

def planP2pRound (comm : CommunicatorState) (tasks : List CollTask) (round : Int) (plan : CollPlan)
    (outcome : RoundOutcome) : CommunicatorState × Except PlanFault CollPlan :=
  let sends := roundTasks comm tasks .send round
  let recvs := roundTasks comm tasks .recv round
  if sends = [] ∧ recvs = [] then (comm, .ok plan)
  else
    match prepareRound comm sends recvs outcome with
    | (comm, .ok _) => (comm, do
        let plan ← sends.foldlM (appendP2p comm kP2pSendChannel) plan
        recvs.foldlM (appendP2p comm kP2pRecvChannel) plan)
    | (comm, .error e) => (comm, .error e)

/-- The rounds `rounds`, one after the other. -/
def planRounds (tasks : List CollTask) (net : Int → RoundOutcome) :
    List Int → CommunicatorState → CollPlan → CommunicatorState × Except PlanFault CollPlan
  | [], comm, plan => (comm, .ok plan)
  | round :: rounds, comm, plan =>
    match planP2pRound comm tasks round plan (net round) with
    | (comm, .ok plan) => planRounds tasks net rounds comm plan
    | (comm, .error e) => (comm, .error e)

/-! ## 5. Plans -/

/-- The check of one task in `Plan`. -/
def plannable (comm : CommunicatorState) (task : CollTask) : Bool :=
  if isP2p task.func then validateP2p comm task
  else validateCollectiveTask task comm.rank comm.worldSize

/-- `Plan`, with the outcome of the connections of every round. -/
def plan (comm : CommunicatorState) (tasks : List CollTask) (dynamic : Bool)
    (net : Int → RoundOutcome) : CommunicatorState × Except PlanFault CollPlan :=
  if tasks.all (plannable comm) then
    let empty := CollPlan.ofChannels comm.getNChannels
    if dynamic then
      (comm, tasks.foldlM (fun plan task => emitCollectiveSlices comm task plan false) empty)
    else
      match (tasks.filter fun task => !isP2p task.func).foldlM
          (fun plan task => planCollective comm task plan) empty with
      | .ok plan =>
        planRounds tasks net ((List.range (comm.worldSize.toNat - 1)).map fun (i : Nat) => (i : Int) + 1)
          comm plan
      | .error e => (comm, .error e)
  else (comm, .error .rejected)

end Planner

end OriginCCL
