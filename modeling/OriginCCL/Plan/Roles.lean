/-
  File:      OriginCCL/Plan/Roles.lean
  Subject:   THE ROLE TABLES OF TREE TASKS (`TopologyTree::CollectiveInit`, `CollectiveStep`).

  * `TreeBound` -- a task that a plan of either mode binds to the tree.
  * `RoleTable` -- the table of the task's channel: there is one, and its entries describe the task's
    connections.
  * `tree_roles` -- **every tree task has its table, except with a single rank**, where `Init` returns
    before `TopologyTree::FillChannels`.
-/
import OriginCCL.Plan.Modes
import OriginCCL.Topology.Trees

namespace OriginCCL.Planner

open Base TopologyTree

/-! ## 1. The tasks of a tree -/

/-- A task bound to the tree, by the static plan or by the dynamic executor. -/
inductive TreeBound (comm : CommunicatorState) (tasks : List CollTask) (net : Int → RoundOutcome)
    (task : PlanTask) (tree : TopologyTree) : Prop where
  | static {comm' : CommunicatorState} {p : CollPlan} {c : Nat} {queue : ChannelPlan}
      (hplan : plan comm tasks false net = (comm', .ok p)) (hqueue : p.channels[c]? = some queue)
      (hmem : task ∈ queue.tasks) (htop : task.topology = some (.tree tree))
  | dynamic {comm' : CommunicatorState} {p : CollPlan} {c : Nat} {s : PlanTask}
      (hbatch : isCollectiveBatch tasks = true) (hplan : plan comm tasks true net = (comm', .ok p))
      (hmem : s ∈ p.slices) (hc : c < comm'.getNChannels) (hbind : bindSlice comm' c s = .ok task)
      (htop : task.topology = some (.tree tree))

/-- A plan without tree tasks but those of an earlier plan. -/
def NoNewTrees (p p' : CollPlan) : Prop :=
  ∀ (c : Nat) queue task tree, p'.channels[c]? = some queue → task ∈ queue.tasks →
    task.topology = some (.tree tree) → ∃ queue', p.channels[c]? = some queue' ∧ task ∈ queue'.tasks

section Rounds

variable {comm comm' : CommunicatorState} {p p' p'' : CollPlan} {tasks : List CollTask}

theorem NoNewTrees.refl (p : CollPlan) : NoNewTrees p p :=
  fun _ queue _ _ hc hmem _ => ⟨queue, hc, hmem⟩

theorem NoNewTrees.trans (h : NoNewTrees p p') (h' : NoNewTrees p' p'') : NoNewTrees p p'' := by
  intro c queue task tree hc hmem htop
  obtain ⟨queue', hc', hmem'⟩ := h' c queue task tree hc hmem htop
  exact h c queue' task tree hc' hmem' htop

theorem noNewTrees_append {id : Nat} {t : CollTask} (h : appendP2p comm id p t = .ok p') :
    NoNewTrees p p' := by
  intro c queue task tree hc hmem htop
  unfold appendP2p at h
  cases hch : comm.getChannel id with
  | error e =>
    rw [hch] at h
    cases h
  | ok channel =>
    rw [hch] at h
    obtain rfl := Except.ok.inj h
    rw [push_getElem?] at hc
    obtain ⟨queue', hqueue', rfl⟩ := Option.map_eq_some_iff.mp hc
    refine ⟨queue', hqueue', ?_⟩
    rcases List.mem_append.mp hmem with hmem | hmem
    · exact hmem
    · -- what is appended is a P2P task
      split at hmem
      · obtain rfl := List.mem_singleton.mp hmem
        unfold TopologyP2p.fillTransports at htop
        split at htop
        · cases htop
        · split at htop <;> cases htop
      · cases hmem

theorem noNewTrees_appends {id : Nat} {ts : List CollTask}
    (h : ts.foldlM (appendP2p comm id) p = .ok p') : NoNewTrees p p' := by
  induction ts generalizing p with
  | nil =>
    obtain rfl := Except.ok.inj h
    exact NoNewTrees.refl p
  | cons t ts ih =>
    rw [List.foldlM_cons] at h
    cases ht : appendP2p comm id p t with
    | error e =>
      rw [ht] at h
      cases h
    | ok next =>
      rw [ht] at h
      exact (noNewTrees_append ht).trans (ih h)

theorem noNewTrees_planP2pRound {round : Int} {outcome : RoundOutcome}
    (h : planP2pRound comm tasks round p outcome = (comm', .ok p')) : NoNewTrees p p' := by
  unfold planP2pRound at h
  dsimp only at h
  split at h
  · obtain ⟨-, h⟩ := Prod.mk.inj h
    obtain rfl := Except.ok.inj h
    exact NoNewTrees.refl p
  · split at h
    · rename_i comm1 _ _
      obtain ⟨-, h⟩ := Prod.mk.inj h
      cases hs : (roundTasks comm tasks .send round).foldlM (appendP2p comm1 kP2pSendChannel) p with
      | error e =>
        rw [hs] at h
        cases h
      | ok next =>
        rw [hs] at h
        exact (noNewTrees_appends hs).trans (noNewTrees_appends h)
    · cases (Prod.mk.inj h).2

/-- The P2P rounds add no tree task. -/
theorem noNewTrees_planRounds {net : Int → RoundOutcome} {rounds : List Int}
    (h : planRounds tasks net rounds comm p = (comm', .ok p')) : NoNewTrees p p' := by
  induction rounds generalizing comm p with
  | nil =>
    obtain ⟨-, h⟩ := Prod.mk.inj h
    obtain rfl := Except.ok.inj h
    exact NoNewTrees.refl p
  | cons round rounds ih =>
    rw [planRounds] at h
    split at h
    · rename_i e
      exact (noNewTrees_planP2pRound e).trans (ih h)
    · cases (Prod.mk.inj h).2

end Rounds

section Bound

variable {comm : CommunicatorState} {tasks : List CollTask} {net : Int → RoundOutcome}
  {task : PlanTask} {tree : TopologyTree}

/-- A bound slice keeps its topology. -/
theorem bindTo_topology (comm : CommunicatorState) (c : Nat) (t : CollTask) (k : Nat) :
    (bindTo comm c (slice comm t k)).topology = (slice comm t k).topology := by
  obtain ⟨topology, htop, -, hkind⟩ := slice_topology comm t k
  obtain ⟨sends, recvs, e⟩ := bindTask_eq hkind (comm.channels.getD c {})
  rw [bindTo, e _ _ htop]

/-- A tree slice belongs to an AllReduce below the threshold. -/
theorem slice_tree {t : CollTask} {k : Nat} (h : (slice comm t k).topology = some (.tree tree)) :
    useTree t = true ∧ tree = comm.treeTopology := by
  have h : some (if useTree t then Topology.tree comm.treeTopology else .ring comm.ringTopology) =
      some (.tree tree) := h
  cases ht : useTree t with
  | true =>
    rw [ht, if_pos rfl] at h
    cases h
    exact ⟨rfl, rfl⟩
  | false =>
    rw [ht] at h
    cases h

/-- **Where a tree task comes from**: it is a slice bound to a channel. -/
theorem TreeBound.slice (hcomm : comm.Ready) (h : TreeBound comm tasks net task tree) :
    ∃ t ∈ tasks, ∃ k, ∃ c < comm.getNChannels, task = bindTo comm c (Planner.slice comm t k) ∧
      useTree t = true ∧ tree = comm.treeTopology := by
  have hn := hcomm.some_channel
  suffices hslice : ∃ t ∈ tasks, ∃ k, ∃ c < comm.getNChannels,
      task = bindTo comm c (Planner.slice comm t k) by
    obtain ⟨t, ht, k, c, hc, rfl⟩ := hslice
    have htop : (Planner.slice comm t k).topology = some (.tree tree) := by
      rw [← bindTo_topology comm c t k]
      cases h with
      | static _ _ _ htop => exact htop
      | dynamic _ _ _ _ _ htop => exact htop
    exact ⟨t, ht, k, c, hc, rfl, slice_tree htop⟩
  cases h with
  | @static comm' p c queue hplan hqueue hmem htop =>
    unfold plan at hplan
    split at hplan
    · dsimp only at hplan
      rw [if_neg (by decide), planCollectives hn] at hplan
      dsimp only at hplan
      obtain ⟨queue', hqueue', hmem'⟩ := noNewTrees_planRounds hplan c queue task tree hqueue hmem htop
      rw [pushAll_getElem?, ofChannels_getElem?] at hqueue'
      split at hqueue'
      · rename_i hc
        obtain rfl := Option.some.inj hqueue'
        obtain ⟨x, hx, rfl⟩ := List.mem_map.mp (show task ∈ List.map _ _ from hmem')
        obtain ⟨t, ht, hx1, -⟩ := mem_assigned (List.mem_filter.mp hx).1
        exact ⟨t, (List.mem_filter.mp ht).1, x.2, c, hc, by rw [hx1]⟩
      · cases hqueue'
    · cases (Prod.mk.inj hplan).2
  | @dynamic comm' p c s hbatch hplan hmem hc hbind htop =>
    have hall : tasks.all (plannable comm) = true := by
      by_contra hno
      rw [plan, if_neg hno] at hplan
      cases (Prod.mk.inj hplan).2
    rw [plan_dynamic hn hall] at hplan
    obtain ⟨rfl, hp⟩ := Prod.mk.inj hplan
    obtain rfl := Except.ok.inj hp
    obtain ⟨t, ht, hs⟩ := List.mem_flatMap.mp hmem
    obtain ⟨k, -, rfl⟩ := mem_slices hs
    obtain ⟨topology, hstop, -⟩ := slice_topology comm t k
    rw [bindSlice_eq hcomm hc hstop] at hbind
    exact ⟨t, ht, k, c, hc, (Except.ok.inj hbind).symm⟩

/-- Every AllReduce below the threshold puts a task of the tree on channel 0. -/
theorem treeBound_of_useTree (hcomm : comm.Ready) (hbatch : isCollectiveBatch tasks = true)
    (hall : tasks.all (plannable comm) = true) (net : Int → RoundOutcome) {t : CollTask}
    (ht : t ∈ tasks) (htree : useTree t = true) :
    TreeBound comm tasks net (bindTo comm 0 (Planner.slice comm t 0)) comm.treeTopology := by
  have hn := hcomm.some_channel
  have hmem : (Planner.slice comm t 0, 0) ∈ assigned comm tasks := by
    have hpos : 0 < (slices comm t).length := by
      rw [length_slices]
      exact nUsed_pos _ _ (Nat.le_max_right ..)
    refine List.mem_flatMap.mpr ⟨t, ht, List.mem_zipIdx_iff_getElem?.mpr ?_⟩
    rw [← slices_getD hpos, List.getElem?_eq_getElem hpos, List.getD_eq_getElem _ _ hpos]
  have hqueue : (pushAll comm (CollPlan.ofChannels comm.getNChannels)
      (assigned comm tasks)).channels[0]? = some { channelId := 0, tasks :=
        [] ++ ((assigned comm tasks).filter fun x => x.2 = 0).map fun x => bindTo comm 0 x.1 } := by
    rw [pushAll_getElem?, ofChannels_getElem?, if_pos (by omega)]
    rfl
  refine .static (plan_static hn hbatch hall net) hqueue ?_ ?_
  · rw [List.nil_append]
    exact List.mem_map.mpr ⟨_, List.mem_filter.mpr ⟨hmem, by simp⟩, rfl⟩
  · rw [bindTo_topology]
    show some (if useTree t then Topology.tree comm.treeTopology else .ring comm.ringTopology) = _
    rw [htree, if_pos rfl]

end Bound

/-! ## 2. The role tables -/

section Roles

variable {H : Type} [DecidableEq H]

/-- **The role table of a tree task** of rank `r`: its channel is in the table, and with two ranks or
    more every entry is the role of the peer that the connections at its index lead to and from. -/
structure RoleTable (w : World H) (r : Nat) (task : PlanTask) (tree : TopologyTree) : Prop where
  nonneg : 0 ≤ task.channelId
  index : task.channelId.toNat < tree.channelRoles.length
  sends : 2 ≤ w.size → task.sendTransports.length = (tree.rolesOf task).length
  recvs : 2 ≤ w.size → task.recvTransports.length = (tree.rolesOf task).length
  entry : 2 ≤ w.size → ∀ (i : Nat) role, (tree.rolesOf task)[i]? = some role → ∃ peer < w.size,
    RoleOf w task.channelId.toNat r role (peer : Int) ∧
      task.sendTransports[i]? = some (channelLink task.channelId r peer) ∧
      task.recvTransports[i]? = some (channelLink task.channelId peer r)

theorem length_channelRoles (w : World H) (r : Nat) : (w.tree r).channelRoles.length = w.nChannels := by
  have hfold : ∀ (f : Channel → List Int) (channels : List Channel) (table : List (List Int)),
      (channels.foldl (fun table channel => table.modify channel.id.toNat (· ++ f channel))
        table).length = table.length := by
    intro f channels
    induction channels with
    | nil => exact fun _ => rfl
    | cons channel channels ih =>
      intro table
      rw [List.foldl_cons, ih, List.length_modify]
  simp only [World.tree, World.shaped, TopologyTree.fillChannels]
  rw [hfold fun channel => treeRoles (w.comm r) (treeOf (w.comm r) channel.id), List.length_replicate]
  simp [TopologyRing.fillChannels]

/-- The connections a tree picks depend on the tree and on the connectors of a channel. -/
theorem fillTransports_congr {channel channel' : Channel} (htree : channel.tree = channel'.tree)
    (hsend : channel.send = channel'.send) (hrecv : channel.recv = channel'.recv) (task : PlanTask) :
    TopologyTree.fillTransports channel task = TopologyTree.fillTransports channel' task := by
  simp only [TopologyTree.fillTransports, Channel.sendConnector, Channel.recvConnector, htree, hsend,
    hrecv]

variable {hosts : Nat → H} {worldSize rank : Nat} {nChannels : Int} {options : InitOptions}
  {comm : CommunicatorState} {tasks : List CollTask}

theorem init_sizes : (Communicator.init hosts worldSize rank nChannels options).rank = rank ∧
    (Communicator.init hosts worldSize rank nChannels options).worldSize = worldSize := by
  unfold Communicator.init
  dsimp only
  split <;> exact ⟨rfl, rfl⟩

/-- What `Init` leaves with more than one rank. -/
theorem init_multi (hosts : Nat → H) (rank : Nat) (nChannels : Int) (options : InitOptions)
    (hN : 2 ≤ worldSize) :
    (Communicator.init hosts worldSize rank nChannels options).treeTopology =
      (World.mk worldSize hosts (channelCount nChannels)).tree rank ∧
    (Communicator.init hosts worldSize rank nChannels options).channels =
      TopologyP2p.fillChannels worldSize
        ((World.mk worldSize hosts (channelCount nChannels)).channels rank) := by
  unfold Communicator.init
  dsimp only
  rw [if_neg (by omega)]
  exact ⟨rfl, rfl⟩

/-- What `Init` leaves with a single rank: no role table. -/
theorem init_single (hN : worldSize ≤ 1) :
    (Communicator.init hosts worldSize rank nChannels options).treeTopology = {} := by
  unfold Communicator.init
  dsimp only
  rw [if_pos hN]

/-- **With two ranks or more, a slice bound to a channel has its role table.** -/
theorem roleTable_bindTo
    (hcomm : SameShape (Communicator.init hosts worldSize rank nChannels options) comm)
    (hN : 2 ≤ worldSize) (hr : rank < worldSize) {c : Nat} (hc : c < comm.getNChannels) {t : CollTask}
    (htree : useTree t = true) (k : Nat) :
    RoleTable ⟨worldSize, hosts, channelCount nChannels⟩ rank (bindTo comm c (slice comm t k))
      comm.treeTopology := by
  obtain ⟨hinit, hcount⟩ := init_ready hosts worldSize rank nChannels options
  have hready := hcomm.ready hinit
  obtain ⟨htopo, hchannels⟩ := init_multi hosts rank nChannels options hN
  have hcc : c < channelCount nChannels := by
    rw [← hcount, ← hcomm.getNChannels]
    exact hc
  have hc' : c < comm.channels.length := hc
  have hget := List.getElem?_eq_getElem hc'
  have hid := hready.ids c _ hget
  obtain ⟨old, hold, -, -, htree', hsend, hrecv⟩ := hcomm.getElem? hget
  obtain ⟨f, hf, hsame⟩ := fillP2p_getElem? worldSize
    ((World.mk worldSize hosts (channelCount nChannels)).channels rank) c
  rw [hchannels, hf, World.channels_get _ hcc, Option.map_some] at hold
  obtain rfl := Option.some.inj hold
  obtain ⟨-, -, h1, h2, h3⟩ := hsame
    (initChannels rank ((World.mk worldSize hosts (channelCount nChannels)).shapedChannel c rank))
  have hfill : ∀ task, TopologyTree.fillTransports comm.channels[c] task =
      TopologyTree.fillTransports (initChannels rank
        ((World.mk worldSize hosts (channelCount nChannels)).shapedChannel c rank)) task :=
    fillTransports_congr (htree'.trans h1) (hsend.trans h2) (hrecv.trans h3)
  have hbind : bindTo comm c (slice comm t k) = TopologyTree.fillTransports (initChannels rank
      ((World.mk worldSize hosts (channelCount nChannels)).shapedChannel c rank))
      { slice comm t k with channelId := c } := by
    rw [bindTo, List.getD_eq_getElem _ _ hc', hid, ← hfill, bindTask]
    show Topology.fillTransports (if useTree t then _ else _) _ _ = _
    rw [htree, if_pos rfl]
    rfl
  obtain ⟨hsends, hrecvs⟩ := links_fillTransports
    (w := World.mk worldSize hosts (channelCount nChannels)) c hr
    { slice comm t k with channelId := c }
  rw [← hbind] at hsends hrecvs
  have hchannel : (bindTo comm c (slice comm t k)).channelId = c := by
    rw [hbind]
    rfl
  have hroles : comm.treeTopology.rolesOf (bindTo comm c (slice comm t k)) =
      treeRoles ((World.mk worldSize hosts (channelCount nChannels)).comm rank)
        (treeAt (World.mk worldSize hosts (channelCount nChannels)) c rank) := by
    rw [rolesOf, hchannel, Int.toNat_natCast, hcomm.tree.trans htopo]
    exact channelRoles_get rank hcc
  have hdesc : List.Forall₂ (RoleOf (World.mk worldSize hosts (channelCount nChannels)) c rank)
      (treeRoles _ _) (peers (treeAt (World.mk worldSize hosts (channelCount nChannels)) c rank)) :=
    roles_describe hr
  have hpeers : peers (treeAt (World.mk worldSize hosts (channelCount nChannels)) c rank) =
      (nbrsOf (World.mk worldSize hosts (channelCount nChannels)) c rank).map Nat.cast :=
    peers_treeOf hr
  rw [hpeers] at hdesc
  have hlen := hdesc.length_eq
  rw [List.length_map] at hlen
  refine ⟨?_, ?_, fun _ => ?_, fun _ => ?_, fun _ i role hrole => ?_⟩
  · rw [hchannel]
    exact Int.natCast_nonneg c
  · rw [hchannel, Int.toNat_natCast, hcomm.tree.trans htopo, length_channelRoles]
    exact hcc
  · rw [hsends, List.length_map, hroles, hlen]
  · rw [hrecvs, List.length_map, hroles, hlen]
  · rw [hroles] at hrole
    obtain ⟨hi, hrole⟩ := List.getElem?_eq_some_iff.mp hrole
    have hi' : i < (nbrsOf (World.mk worldSize hosts (channelCount nChannels)) c rank).length := by
      rw [← hlen]
      exact hi
    have hpeer := hdesc.get hi (by rw [List.length_map]; exact hi')
    rw [List.get_eq_getElem, List.get_eq_getElem, hrole, List.getElem_map] at hpeer
    refine ⟨_, (nbrsOf_lt hr (List.getElem_mem hi')).1, ?_, ?_, ?_⟩
    · rw [hchannel, Int.toNat_natCast]
      exact hpeer
    · rw [hsends, hchannel, List.getElem?_map, List.getElem?_eq_getElem hi']
      rfl
    · rw [hrecvs, hchannel, List.getElem?_map, List.getElem?_eq_getElem hi']
      rfl

/-- **Every tree task has its role table if and only if there are two ranks or the batch has no task
    for the tree**: with a single rank `Init` returns before the tables are filled. -/
theorem tree_roles (hcomm : SameShape (Communicator.init hosts worldSize rank nChannels options) comm)
    (hN : 1 ≤ worldSize) (hr : rank < worldSize) (hall : tasks.all (plannable comm) = true)
    (net : Int → RoundOutcome) :
    (∀ task tree, TreeBound comm tasks net task tree →
      RoleTable ⟨worldSize, hosts, channelCount nChannels⟩ rank task tree) ↔
    2 ≤ worldSize ∨ ∀ t ∈ tasks, useTree t = false := by
  have hready := hcomm.ready (init_ready hosts worldSize rank nChannels options).1
  constructor
  · intro h
    by_contra hno
    push Not at hno
    obtain ⟨hone, t, ht, htree⟩ := hno
    -- a single rank has no peers, and so no P2P tasks
    have hbatch : isCollectiveBatch tasks = true := by
      refine List.all_eq_true.mpr fun t ht => ?_
      have hp := List.all_eq_true.mp hall t ht
      cases hfunc : isP2p t.func with
      | false => rfl
      | true =>
        rw [plannable, hfunc, if_pos rfl] at hp
        have hsize : comm.worldSize = worldSize := hcomm.worldSize.trans init_sizes.2
        have hrank : comm.rank = rank := hcomm.rank.trans init_sizes.1
        unfold validateP2p at hp
        dsimp only at hp
        rw [if_pos (by omega)] at hp
        cases hp
    have hbound := h _ _ (treeBound_of_useTree hready hbatch hall net ht (by simpa using htree))
    have hindex := hbound.index
    rw [hcomm.tree, init_single (by omega)] at hindex
    exact Nat.not_lt_zero _ hindex
  · intro h task tree hbound
    obtain ⟨t, ht, k, c, hc, rfl, htree, rfl⟩ := hbound.slice hready
    rcases h with h | h
    · exact roleTable_bindTo hcomm h hr hc htree k
    · rw [h t ht] at htree
      cases htree

end Roles

/-- A small AllReduce. -/
def smallReduce : CollTask :=
  { func := .allReduce, sendBuf := 8, recvBuf := 64, count := 1, dtype := .int64 }

theorem tree_roles_three : useTree smallReduce = true ∧ ∀ task tree,
    TreeBound twoChannels [smallReduce] (fun _ => ⟨[], [], true⟩) task tree →
      RoleTable ⟨3, fun r => r % 2, channelCount 2⟩ 0 task tree :=
  ⟨by decide, (tree_roles (SameShape.refl twoChannels) (by decide) (by decide) (by decide)
    (fun _ => ⟨[], [], true⟩)).mpr (Or.inl (by decide))⟩

/-- A communicator of one rank. -/
def alone : CommunicatorState := Communicator.init (fun _ => 0) 1 0 4 ⟨true, false, true⟩

/-- **With one rank a small AllReduce has a tree task and no role table.** -/
theorem alone_without_roles : [smallReduce].all (plannable alone) = true ∧
    ¬ ∀ task tree, TreeBound alone [smallReduce] (fun _ => ⟨[], [], true⟩) task tree →
      task.channelId.toNat < tree.channelRoles.length := by
  have hall : [smallReduce].all (plannable alone) = true := by decide
  refine ⟨hall, fun h => ?_⟩
  have hready := (init_ready (fun _ => 0) 1 0 4 ⟨true, false, true⟩).1
  have hbound := treeBound_of_useTree hready (show isCollectiveBatch [smallReduce] = true by decide) hall
    (fun _ => ⟨[], [], true⟩) List.mem_cons_self (by decide)
  have hindex := h _ _ hbound
  exact Nat.not_lt_zero _ hindex

end OriginCCL.Planner
