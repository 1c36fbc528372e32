/-
  File:      OriginCCL/Plan/Modes.lean
  Subject:   THE STATIC AND THE DYNAMIC PLAN of a batch of collectives hold the same work.

  * `CommunicatorState.Ready` -- the channels of a communicator, as `Init` makes them and planning keeps
    them (`init_ready`, `plan_ready`).
  * `bindSlice` -- `DynamicMultiThreadExecutor::ExecuteTask` binds a slice to a channel.
  * `plan_dynamic`, `plan_static` -- the two plans as lists.
  * `plans_agree` -- **both hold the same slices**.
-/
import OriginCCL.Plan.Slices

namespace OriginCCL

open Base

/-! ## 1. The channels of a communicator -/

/-- There is a channel, and every channel has its index as its id. -/
structure CommunicatorState.Ready (comm : CommunicatorState) : Prop where
  some_channel : 1 ≤ comm.getNChannels
  ids : ∀ (c : Nat) channel, comm.channels[c]? = some channel → channel.id = c

section Ready

variable {H : Type} [DecidableEq H]

theorem channelCount_pos (nChannels : Int) : 1 ≤ channelCount nChannels := by
  unfold channelCount kDefaultChannelCount
  split <;> omega

theorem fillP2p_getElem? (worldSize : Nat) (channels : List Channel) (c : Nat) :
    ∃ f : Channel → Channel, (TopologyP2p.fillChannels worldSize channels)[c]? = channels[c]?.map f ∧
      ∀ channel, (f channel).id = channel.id ∧ (f channel).ring = channel.ring ∧
        (f channel).tree = channel.tree ∧ (f channel).send = channel.send ∧
        (f channel).recv = channel.recv :=
  ⟨_, List.getElem?_map .., fun _ => ⟨rfl, rfl, rfl, rfl, rfl⟩⟩

/-- The channels `Init` leaves. -/
theorem init_channels (hosts : Nat → H) (worldSize rank : Nat) (nChannels : Int)
    (options : InitOptions) :
    (Communicator.init hosts worldSize rank nChannels options).channels =
      TopologyP2p.fillChannels worldSize (if worldSize ≤ 1 then
        (List.range (channelCount nChannels)).map (initialChannel worldSize)
        else (World.mk worldSize hosts (channelCount nChannels)).channels rank) := by
  unfold Communicator.init
  dsimp only
  split <;> rfl

/-- **`Init` numbers the channels.** -/
theorem init_ready (hosts : Nat → H) (worldSize rank : Nat) (nChannels : Int) (options : InitOptions) :
    (Communicator.init hosts worldSize rank nChannels options).Ready ∧
      (Communicator.init hosts worldSize rank nChannels options).getNChannels =
        channelCount nChannels := by
  have hlen : (Communicator.init hosts worldSize rank nChannels options).getNChannels =
      channelCount nChannels := by
    rw [CommunicatorState.getNChannels, init_channels, TopologyP2p.fillChannels, List.length_map]
    split
    · rw [List.length_map, List.length_range]
    · simp [World.channels, World.shaped, TopologyTree.fillChannels, TopologyRing.fillChannels]
  refine ⟨⟨by rw [hlen]; exact channelCount_pos nChannels, fun c channel hc => ?_⟩, hlen⟩
  have hlt : c < channelCount nChannels := by
    rw [← hlen]
    exact (List.getElem?_eq_some_iff.mp hc).1
  rw [init_channels] at hc
  obtain ⟨f, hf, hsame⟩ := fillP2p_getElem? worldSize (if worldSize ≤ 1 then
    (List.range (channelCount nChannels)).map (initialChannel worldSize)
    else (World.mk worldSize hosts (channelCount nChannels)).channels rank) c
  rw [hf] at hc
  split at hc
  · rw [List.getElem?_map, List.getElem?_range hlt] at hc
    obtain rfl := Option.some.inj hc
    exact (hsame _).1
  · rw [World.channels_get (w := ⟨worldSize, hosts, channelCount nChannels⟩) hlt rank] at hc
    obtain rfl := Option.some.inj hc
    exact (hsame _).1

end Ready

/-! ## 2. Planning makes P2P connections only -/

namespace Planner

/-- What planning leaves alone: all of a communicator but its P2P connectors. -/
structure SameShape (comm comm' : CommunicatorState) : Prop where
  rank : comm'.rank = comm.rank
  worldSize : comm'.worldSize = comm.worldSize
  nChannels : comm'.nChannels = comm.nChannels
  ring : comm'.ringTopology = comm.ringTopology
  tree : comm'.treeTopology = comm.treeTopology
  dynamic : comm'.dynamicAvailable = comm.dynamicAvailable
  channel : ∀ c : Nat, ∃ sends recvs, comm'.channels[c]? = comm.channels[c]?.map fun channel =>
    { channel with sendP2p := sends, recvP2p := recvs }

section Shape

variable {comm comm' comm'' : CommunicatorState}

theorem SameShape.refl (comm : CommunicatorState) : SameShape comm comm := by
  refine ⟨rfl, rfl, rfl, rfl, rfl, rfl, fun c => ?_⟩
  cases hc : comm.channels[c]? with
  | none => exact ⟨[], [], rfl⟩
  | some channel => exact ⟨channel.sendP2p, channel.recvP2p, rfl⟩

theorem SameShape.trans (h : SameShape comm comm') (h' : SameShape comm' comm'') :
    SameShape comm comm'' := by
  refine ⟨h'.rank.trans h.rank, h'.worldSize.trans h.worldSize, h'.nChannels.trans h.nChannels,
    h'.ring.trans h.ring, h'.tree.trans h.tree, h'.dynamic.trans h.dynamic, fun c => ?_⟩
  obtain ⟨sends, recvs, e⟩ := h.channel c
  obtain ⟨sends', recvs', e'⟩ := h'.channel c
  refine ⟨sends', recvs', ?_⟩
  rw [e', e, Option.map_map]
  rfl

/-- The channels have the same connectors but for P2P. -/
theorem SameShape.getElem? (h : SameShape comm comm') {c : Nat} {channel : Channel}
    (hc : comm'.channels[c]? = some channel) : ∃ old, comm.channels[c]? = some old ∧
      channel.id = old.id ∧ channel.ring = old.ring ∧ channel.tree = old.tree ∧
      channel.send = old.send ∧ channel.recv = old.recv := by
  obtain ⟨sends, recvs, e⟩ := h.channel c
  rw [hc] at e
  obtain ⟨old, hold, e⟩ := Option.map_eq_some_iff.mp e.symm
  refine ⟨old, hold, ?_⟩
  rw [← e]
  exact ⟨rfl, rfl, rfl, rfl, rfl⟩

theorem SameShape.getNChannels (h : SameShape comm comm') :
    comm'.getNChannels = comm.getNChannels := by
  have hiff : ∀ c, comm'.channels.length ≤ c ↔ comm.channels.length ≤ c := by
    intro c
    obtain ⟨sends, recvs, e⟩ := h.channel c
    rw [← List.getElem?_eq_none_iff, ← List.getElem?_eq_none_iff, e, Option.map_eq_none_iff]
  have h1 := (hiff comm.channels.length).mpr (Nat.le_refl _)
  have h2 := (hiff comm'.channels.length).mp (Nat.le_refl _)
  unfold CommunicatorState.getNChannels
  omega

theorem SameShape.ready (h : SameShape comm comm') (hcomm : comm.Ready) : comm'.Ready := by
  refine ⟨by rw [h.getNChannels]; exact hcomm.some_channel, fun c channel hc => ?_⟩
  obtain ⟨old, hold, hid, -⟩ := h.getElem? hc
  rw [hid]
  exact hcomm.ids c old hold

theorem sameShape_connectRound (comm : CommunicatorState) (outcome : RoundOutcome) :
    SameShape comm (connectRound comm outcome) := by
  refine ⟨rfl, rfl, rfl, rfl, rfl, rfl, fun c => ?_⟩
  show ∃ sends recvs, ((comm.channels.modify kP2pSendChannel _).modify kP2pRecvChannel _)[c]? = _
  cases hc : comm.channels[c]? with
  | none =>
    refine ⟨[], [], ?_⟩
    simp only [List.getElem?_modify, hc]
    rfl
  | some channel =>
    simp only [List.getElem?_modify, hc]
    refine ⟨if kP2pSendChannel = c then connectP2p (fun peer => ⟨.p2p, comm.rank.toNat, peer⟩)
        outcome.connected channel.sendP2p else channel.sendP2p,
      if kP2pRecvChannel = c then connectP2p (fun peer => ⟨.p2p, peer, comm.rank.toNat⟩)
        outcome.accepted channel.recvP2p else channel.recvP2p, ?_⟩
    by_cases h0 : kP2pSendChannel = c
    · have h1 : kP2pRecvChannel ≠ c := by
        rw [← h0]
        decide
      simp [h0, h1]
    · by_cases h1 : kP2pRecvChannel = c
      · simp [h0, h1]
      · simp [h0, h1]

theorem sameShape_prepareRound (comm : CommunicatorState) (sends recvs : List CollTask)
    (outcome : RoundOutcome) : SameShape comm (prepareRound comm sends recvs outcome).1 := by
  unfold prepareRound
  split
  · split
    · exact SameShape.refl comm
    · exact sameShape_connectRound comm outcome
  · exact SameShape.refl comm

theorem sameShape_planP2pRound (comm : CommunicatorState) (tasks : List CollTask) (round : Int)
    (plan : CollPlan) (outcome : RoundOutcome) :
    SameShape comm (planP2pRound comm tasks round plan outcome).1 := by
  have h := sameShape_prepareRound comm (roundTasks comm tasks .send round)
    (roundTasks comm tasks .recv round) outcome
  unfold planP2pRound
  dsimp only
  split
  · exact SameShape.refl comm
  · split
    · rename_i e
      rw [e] at h
      exact h
    · rename_i e
      rw [e] at h
      exact h

theorem sameShape_planRounds (tasks : List CollTask) (net : Int → RoundOutcome) (rounds : List Int)
    (comm : CommunicatorState) (plan : CollPlan) :
    SameShape comm (planRounds tasks net rounds comm plan).1 := by
  induction rounds generalizing comm plan with
  | nil => exact SameShape.refl comm
  | cons round rounds ih =>
    have h := sameShape_planP2pRound comm tasks round plan (net round)
    rw [planRounds]
    split
    · rename_i e
      rw [e] at h
      exact h.trans (ih _ _)
    · rename_i e
      rw [e] at h
      exact h

/-- **Planning keeps the shape of a communicator.** -/
theorem sameShape_plan (comm : CommunicatorState) (tasks : List CollTask) (dynamic : Bool)
    (net : Int → RoundOutcome) : SameShape comm (plan comm tasks dynamic net).1 := by
  unfold plan
  split
  · dsimp only
    split
    · exact SameShape.refl comm
    · split
      · exact sameShape_planRounds ..
      · exact SameShape.refl comm
  · exact SameShape.refl comm

end Shape

end Planner

/-- The start of `DynamicMultiThreadExecutor::ExecuteTask`: a slice is bound to a channel. -/
def bindSlice (comm : CommunicatorState) (channelId : Nat) (task : PlanTask) :
    Except PlanFault PlanTask :=
  match task.topology with
  | none => .error .rejected
  | some topology => do
    let channel ← comm.getChannel channelId
    pure (topology.fillTransports channel { task with channelId := channelId })

namespace Planner

/-! ## 3. The two plans as lists -/

/-- A task without its channel and its connections. -/
def unbound (task : PlanTask) : PlanTask :=
  { task with channelId := -1, sendTransports := [], recvTransports := [] }

/-- The slices of a batch with their channels, task by task. -/
def assigned (comm : CommunicatorState) (tasks : List CollTask) : List (PlanTask × Nat) :=
  tasks.flatMap fun task => (slices comm task).zipIdx

section Plans

variable {comm : CommunicatorState} {tasks : List CollTask} {p : CollPlan} {c : Nat}

theorem push_getElem? (id : Nat) (task : PlanTask) : (p.push id task).channels[c]? =
    p.channels[c]?.map fun queue =>
      { queue with tasks := queue.tasks ++ if id = c then [task] else [] } := by
  rw [CollPlan.push, List.getElem?_modify]
  by_cases h : id = c
  · simp only [if_pos h]
    cases p.channels[c]? <;> rfl
  · simp only [if_neg h, List.append_nil]
    cases p.channels[c]? <;> rfl

/-- **What a channel has been given**, in order. -/
theorem pushAll_getElem? (comm : CommunicatorState) (p : CollPlan) (xs : List (PlanTask × Nat)) :
    (pushAll comm p xs).channels[c]? = p.channels[c]?.map fun queue =>
      { queue with tasks := queue.tasks ++
          (xs.filter fun x => x.2 = c).map fun x => bindTo comm c x.1 } := by
  induction xs generalizing p with
  | nil =>
    rw [pushAll, List.foldl_nil]
    simp
  | cons x xs ih =>
    have hstep : pushAll comm p (x :: xs) = pushAll comm (p.push x.2 (bindTo comm x.2 x.1)) xs := rfl
    rw [hstep, ih, push_getElem?, Option.map_map]
    congr 1
    funext queue
    simp only [Function.comp_apply, List.append_assoc]
    by_cases h : x.2 = c
    · rw [if_pos h, List.filter_cons_of_pos (by simpa using h), List.map_cons, List.singleton_append, h]
    · rw [if_neg h, List.filter_cons_of_neg (by simpa using h), List.nil_append]

theorem pushAll_slices (comm : CommunicatorState) (p : CollPlan) (xs : List (PlanTask × Nat)) :
    (pushAll comm p xs).slices = p.slices ∧
      (pushAll comm p xs).channels.length = p.channels.length := by
  induction xs generalizing p with
  | nil => exact ⟨rfl, rfl⟩
  | cons x xs ih =>
    have hstep : pushAll comm p (x :: xs) = pushAll comm (p.push x.2 (bindTo comm x.2 x.1)) xs := rfl
    rw [hstep]
    obtain ⟨h1, h2⟩ := ih (p.push x.2 (bindTo comm x.2 x.1))
    refine ⟨h1, h2.trans ?_⟩
    rw [CollPlan.push, List.length_modify]

theorem ofChannels_getElem? (n : Nat) :
    (CollPlan.ofChannels n).channels[c]? = if c < n then some { channelId := c } else none := by
  rw [CollPlan.ofChannels, List.getElem?_map]
  by_cases h : c < n
  · rw [List.getElem?_range h, if_pos h]
    rfl
  · rw [List.getElem?_eq_none (by rw [List.length_range]; omega), if_neg h]
    rfl

/-- The checks of `Plan` for a batch of collectives. -/
theorem all_plannable (hbatch : isCollectiveBatch tasks = true)
    (hv : ∀ task ∈ tasks, validateCollectiveTask task comm.rank comm.worldSize = true) :
    tasks.all (plannable comm) = true := by
  refine List.all_eq_true.mpr fun task hmem => ?_
  have hp : isP2p task.func = false := by
    have := List.all_eq_true.mp hbatch task hmem
    simpa using this
  rw [plannable, hp]
  exact hv task hmem

/-- **The dynamic plan**: the slices of all tasks in one list. -/
theorem plan_dynamic (hn : 1 ≤ comm.getNChannels) (hall : tasks.all (plannable comm) = true)
    (net : Int → RoundOutcome) : plan comm tasks true net =
      (comm, .ok { CollPlan.ofChannels comm.getNChannels with
        slices := tasks.flatMap (slices comm) }) := by
  rw [plan, if_pos hall]
  dsimp only
  have hstep : ∀ task ∈ tasks, ∀ plan, emitCollectiveSlices comm task plan false =
      .ok { plan with slices := plan.slices ++ slices comm task } := fun _ _ plan => emit_unbound hn plan
  rw [if_pos rfl, foldlM_ok hstep]
  have hfold : ∀ p : CollPlan, tasks.foldl (fun plan task =>
      { plan with slices := plan.slices ++ slices comm task }) p =
      { p with slices := p.slices ++ tasks.flatMap (slices comm) } := by
    clear hall hstep
    induction tasks with
    | nil =>
      intro p
      rw [List.foldl_nil, List.flatMap_nil, List.append_nil]
    | cons task tasks ih =>
      intro p
      rw [List.foldl_cons, ih, List.flatMap_cons, List.append_assoc]
  rw [hfold]
  rfl

/-- The collectives of a static plan. -/
theorem planCollectives (hn : 1 ≤ comm.getNChannels) (tasks : List CollTask) (p : CollPlan) :
    tasks.foldlM (fun plan task => planCollective comm task plan) p =
      .ok (pushAll comm p (assigned comm tasks)) := by
  have hstep : ∀ task ∈ tasks, ∀ plan, planCollective comm task plan =
      .ok (placeSlices comm plan (slices comm task)) := fun _ _ plan => emit_bound hn plan
  rw [foldlM_ok hstep]
  congr 1
  clear hstep
  induction tasks generalizing p with
  | nil => rfl
  | cons task tasks ih =>
    have hcons : assigned comm (task :: tasks) =
        (slices comm task).zipIdx ++ assigned comm tasks := List.flatMap_cons ..
    rw [List.foldl_cons, ih, hcons, placeSlices, pushAll, pushAll, pushAll, List.foldl_append]

/-- Without P2P tasks the rounds do nothing. -/
theorem planRounds_collective (hbatch : isCollectiveBatch tasks = true) (net : Int → RoundOutcome)
    (rounds : List Int) (comm : CommunicatorState) (p : CollPlan) :
    planRounds tasks net rounds comm p = (comm, .ok p) := by
  have hnone : ∀ func, isP2p func = true → ∀ round, roundTasks comm tasks func round = [] := by
    intro func hfunc round
    refine List.filter_eq_nil_iff.mpr fun task hmem h => ?_
    rw [Bool.and_eq_true] at h
    have hcoll := List.all_eq_true.mp hbatch task hmem
    rw [eq_of_beq h.1, hfunc] at hcoll
    cases hcoll
  induction rounds with
  | nil => rfl
  | cons round rounds ih =>
    rw [planRounds, planP2pRound, if_pos ⟨hnone .send rfl round, hnone .recv rfl round⟩]
    exact ih

/-- **The static plan**: every channel has its slices of all tasks. -/
theorem plan_static (hn : 1 ≤ comm.getNChannels) (hbatch : isCollectiveBatch tasks = true)
    (hall : tasks.all (plannable comm) = true) (net : Int → RoundOutcome) :
    plan comm tasks false net =
      (comm, .ok (pushAll comm (CollPlan.ofChannels comm.getNChannels) (assigned comm tasks))) := by
  have hfilter : (tasks.filter fun task => !isP2p task.func) = tasks :=
    List.filter_eq_self.mpr (List.all_eq_true.mp hbatch)
  rw [plan, if_pos hall]
  dsimp only
  rw [if_neg (by decide), hfilter, planCollectives hn]
  exact planRounds_collective hbatch net _ comm _

end Plans

/-! ## 4. The same work -/

section Same

variable {comm : CommunicatorState} {tasks : List CollTask} {task : PlanTask}

/-- The topology of a slice. -/
theorem slice_topology (comm : CommunicatorState) (t : CollTask) (c : Nat) :
    ∃ topology, (slice comm t c).topology = some topology ∧ unbound (slice comm t c) = slice comm t c ∧
      ((∃ ring, topology = .ring ring) ∨ ∃ tree, topology = .tree tree) := by
  refine ⟨_, rfl, rfl, ?_⟩
  split
  · exact Or.inr ⟨_, rfl⟩
  · exact Or.inl ⟨_, rfl⟩

theorem mem_slices {t : CollTask} (h : task ∈ slices comm t) :
    ∃ c, c < (slices comm t).length ∧ task = slice comm t c := by
  obtain ⟨c, hc, rfl⟩ := List.mem_map.mp h
  exact ⟨c, by rw [length_slices]; exact List.mem_range.mp hc, rfl⟩

/-- A slice of a batch. -/
theorem mem_assigned {x : PlanTask × Nat} (h : x ∈ assigned comm tasks) :
    ∃ t ∈ tasks, x.1 = slice comm t x.2 ∧ x.2 < (slices comm t).length := by
  obtain ⟨t, ht, hx⟩ := List.mem_flatMap.mp h
  obtain ⟨s, c⟩ := x
  obtain ⟨hc, hget⟩ := List.mem_zipIdx' hx
  refine ⟨t, ht, ?_, hc⟩
  rw [← slices_getD hc, List.getD_eq_getElem _ _ hc]
  exact hget

/-- **Binding adds a channel and connections**, which depend on the channel and the topology alone. -/
theorem bindTask_eq {topology : Topology}
    (htop : (∃ ring, topology = .ring ring) ∨ ∃ tree, topology = .tree tree) (channel : Channel) :
    ∃ sends recvs, ∀ (task : PlanTask) (id : Int), task.topology = some topology →
      bindTask channel id task =
        { task with channelId := id, sendTransports := sends, recvTransports := recvs } := by
  rcases htop with ⟨ring, rfl⟩ | ⟨tree, rfl⟩
  · refine ⟨TopologyRing.transportOf (channel.sendConnector channel.ring.next),
      TopologyRing.transportOf (channel.recvConnector channel.ring.prev), fun task id h => ?_⟩
    rw [bindTask, h]
    rfl
  · refine ⟨(TopologyTree.peers channel.tree).flatMap fun peer =>
        TopologyRing.transportOf (channel.sendConnector peer),
      (TopologyTree.peers channel.tree).flatMap fun peer =>
        TopologyRing.transportOf (channel.recvConnector peer), fun task id h => ?_⟩
    rw [bindTask, h]
    rfl

/-- The executor binds a slice as the planner does. -/
theorem bindSlice_eq (hcomm : comm.Ready) {c : Nat} (hc : c < comm.getNChannels) {topology : Topology}
    (htop : task.topology = some topology) : bindSlice comm c task = .ok (bindTo comm c task) := by
  have hc' : c < comm.channels.length := hc
  have hget := List.getElem?_eq_getElem hc'
  have hid := hcomm.ids c _ hget
  rw [bindSlice, htop]
  dsimp only
  rw [CommunicatorState.getChannel, hget, bindTo, List.getD_eq_getElem _ _ hc', hid, bindTask, htop]
  rfl

/-- **The static and the dynamic plan hold the same work.** The slices of the dynamic plan are, in the
    order of the batch and of the channels, the tasks that the static plan spreads over its channels,
    without channel and connections; each queue of the static plan is the part of that list that is
    assigned to its channel; and a slice bound to any channel by the dynamic executor is the slice with
    that channel and the connections of the static tasks there. -/
theorem plans_agree {H : Type} [DecidableEq H] (hosts : Nat → H) (worldSize rank : Nat)
    (nChannels : Int) (options : InitOptions)
    (hcomm : SameShape (Communicator.init hosts worldSize rank nChannels options) comm)
    (hbatch : isCollectiveBatch tasks = true)
    (hv : ∀ task ∈ tasks, validateCollectiveTask task comm.rank comm.worldSize = true)
    (net : Int → RoundOutcome) :
    ∃ static dyn, plan comm tasks false net = (comm, .ok static) ∧
      plan comm tasks true net = (comm, .ok dyn) ∧
      dyn.slices = (assigned comm tasks).map Prod.fst ∧
      static.channels.length = comm.getNChannels ∧
      (∀ x ∈ assigned comm tasks, x.2 < comm.getNChannels) ∧
      (∀ (c : Nat) queue, static.channels[c]? = some queue →
        queue.tasks = ((assigned comm tasks).filter fun x => x.2 = c).map (fun x => bindTo comm c x.1) ∧
        queue.tasks.map unbound = ((assigned comm tasks).filter fun x => x.2 = c).map Prod.fst) ∧
      ∀ s ∈ dyn.slices, ∀ c < comm.getNChannels, ∃ task, bindSlice comm c s = .ok task ∧
        unbound task = s ∧ task.channelId = c ∧
        ∀ queue, static.channels[c]? = some queue → ∀ other ∈ queue.tasks,
          other.topology = s.topology → task.sendTransports = other.sendTransports ∧
            task.recvTransports = other.recvTransports := by
  have hready := hcomm.ready (init_ready hosts worldSize rank nChannels options).1
  have hn := hready.some_channel
  have hall := all_plannable hbatch hv
  have hfst : tasks.flatMap (slices comm) = (assigned comm tasks).map Prod.fst := by
    rw [assigned, List.map_flatMap]
    refine List.flatMap_congr fun t _ => ?_
    rw [List.zipIdx_map_fst]
  have hqueue : ∀ (c : Nat) queue, (pushAll comm (CollPlan.ofChannels comm.getNChannels)
      (assigned comm tasks)).channels[c]? = some queue → c < comm.getNChannels ∧
      queue.tasks = ((assigned comm tasks).filter fun x => x.2 = c).map fun x => bindTo comm c x.1 := by
    intro c queue hc
    rw [pushAll_getElem?, ofChannels_getElem?] at hc
    split at hc
    · rename_i hlt
      obtain rfl := Option.some.inj hc
      exact ⟨hlt, List.nil_append _⟩
    · cases hc
  have hbound : ∀ (t : CollTask) k c, ∃ sends recvs, ∀ task : PlanTask,
      task.topology = (slice comm t k).topology → bindTo comm c task = { task with
        channelId := (comm.channels.getD c {}).id, sendTransports := sends, recvTransports := recvs } := by
    intro t k c
    obtain ⟨topology, htop, -, hkind⟩ := slice_topology comm t k
    obtain ⟨sends, recvs, e⟩ := bindTask_eq hkind (comm.channels.getD c {})
    exact ⟨sends, recvs, fun task h => e task _ (h.trans htop)⟩
  refine ⟨_, _, plan_static hn hbatch hall net, plan_dynamic hn hall net, hfst, ?_, fun x hx => ?_,
    fun c queue hc => ?_, fun s hs c hc => ?_⟩
  · rw [(pushAll_slices ..).2, CollPlan.ofChannels, List.length_map, List.length_range]
  · obtain ⟨t, -, -, hlt⟩ := mem_assigned hx
    rw [length_slices] at hlt
    have := nUsed_le comm.worldSize t
      (show 1 ≤ max comm.getNChannels 1 from Nat.le_max_right ..)
    omega
  · obtain ⟨-, htasks⟩ := hqueue c queue hc
    refine ⟨htasks, ?_⟩
    rw [htasks, List.map_map]
    refine List.map_congr_left fun x hx => ?_
    obtain ⟨t, -, hx1, -⟩ := mem_assigned (List.mem_filter.mp hx).1
    obtain ⟨sends, recvs, e⟩ := hbound t x.2 c
    rw [Function.comp_apply, e x.1 (by rw [hx1]), hx1]
    rfl
  · obtain ⟨t, -, hs⟩ := List.mem_flatMap.mp hs
    obtain ⟨k, -, rfl⟩ := mem_slices hs
    obtain ⟨topology, htop, hself, -⟩ := slice_topology comm t k
    obtain ⟨sends, recvs, e⟩ := hbound t k c
    have hc' : c < comm.channels.length := hc
    have hid : (comm.channels.getD c {}).id = c := by
      rw [List.getD_eq_getElem _ _ hc']
      exact hready.ids c _ (List.getElem?_eq_getElem hc')
    refine ⟨bindTo comm c (slice comm t k), bindSlice_eq hready hc htop, ?_, ?_, ?_⟩
    · rw [e _ rfl]
      exact hself
    · rw [e _ rfl]
      exact hid
    · intro queue hq other hother htopo
      rw [(hqueue c queue hq).2] at hother
      obtain ⟨x, hx, rfl⟩ := List.mem_map.mp hother
      obtain ⟨t', -, hx1, -⟩ := mem_assigned (List.mem_filter.mp hx).1
      have hxtop : x.1.topology = (slice comm t k).topology := by
        obtain ⟨sends', recvs', e'⟩ := hbound t' x.2 c
        rw [e' x.1 (by rw [hx1])] at htopo
        exact htopo
      rw [e _ rfl, e _ hxtop]
      exact ⟨rfl, rfl⟩

theorem plans_agree_gather : ∃ static dyn,
    plan twoChannels [gatherTask] false (fun _ => ⟨[], [], true⟩) = (twoChannels, .ok static) ∧
    plan twoChannels [gatherTask] true (fun _ => ⟨[], [], true⟩) = (twoChannels, .ok dyn) ∧
    dyn.slices = (assigned twoChannels [gatherTask]).map Prod.fst := by
  obtain ⟨static, dyn, h1, h2, h3, -⟩ := plans_agree (fun r => r % 2) 3 0 2 ⟨true, false, true⟩
    (SameShape.refl twoChannels) (show isCollectiveBatch [gatherTask] = true by decide) (by decide)
    (fun _ => ⟨[], [], true⟩)
  exact ⟨static, dyn, h1, h2, h3⟩

end Same

end Planner

end OriginCCL
