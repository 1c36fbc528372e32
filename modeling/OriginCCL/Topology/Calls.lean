/-
  File:      OriginCCL/Topology/Calls.lean
  Subject:   NO TASK IDLES: the calls an executor makes for a task, in any order and with any answers of
             its connections.

  An executor waits for the connections whose flags are not set, so after every call one has to be open,
  and every open one has to have been tried with what it moves next.

  * `Topology.tracedInit`, `Topology.tracedStep` -- the calls with their logs; without the logs they are
    the calls of the code.
  * `TaskReached` -- the states that sequences of successful calls lead to.
  * `Topology.Connects` -- a channel has the transports of its neighbours; `World.tree_connects` -- the
    channels a rank sets up do.
  * `never_idle` -- **every call ends, and afterwards the task is done or waits for connections that
    have been tried**.
-/
import OriginCCL.Plan.Planner
import OriginCCL.Topology.RingIdle
import OriginCCL.Topology.TreeIdle
import OriginCCL.Topology.TreeShape

namespace OriginCCL

open Net

namespace Net.Prog

variable {τ β α γ : Type}

/-- Mapping a result changes no fault. -/
theorem ends_error_map {p : Prog τ β α} {g : α → γ} {f : Fault} (h : (p.map g).Ends (.error f)) :
    p.Ends (.error f) := by
  induction p with
  | ret a => cases h
  | fail f' =>
    cases h
    exact .fail f
  | send l data k ih =>
    cases h with
    | send _ _ _ n _ h => exact .send l data k n _ (ih n h)
  | recv l size k ih =>
    cases h with
    | recv _ _ _ bs _ h => exact .recv l size k bs _ (ih bs h)

/-- The end of a call whose connections move nothing. -/
def unmoved : Prog τ β α → Except Fault α
  | .ret a => .ok a
  | .fail f => .error f
  | .send _ _ k => (k (some 0)).unmoved
  | .recv _ _ k => (k (some [])).unmoved

theorem ends_unmoved (p : Prog τ β α) : p.Ends p.unmoved := by
  induction p with
  | ret a => exact .ret a
  | fail f => exact .fail f
  | send l data k ih => exact .send l data k (some 0) _ (ih _)
  | recv l size k ih => exact .recv l size k (some []) _ (ih _)

end Net.Prog

/-! ## 1. Calls with logs -/

namespace Topology

def tracedInit : Topology → PlanTask → Traced → Call Traced
  | .ring _, task, t => TopologyRing.Traced.collectiveInit task t
  | .tree T, task, t => TopologyTree.Traced.collectiveInit T task t
  | .p2p, task, t => TopologyP2p.Traced.collectiveInit task t

def tracedStep : Topology → PlanTask → CollEvent → Traced → Call Traced
  | .ring _, task, event, t => TopologyRing.Traced.collectiveStep task event t
  | .tree T, task, event, t => TopologyTree.Traced.collectiveStep T task event t
  | .p2p, task, event, t => TopologyP2p.Traced.collectiveStep task event t

theorem tracedInit_erase (topo : Topology) (task : PlanTask) (t : Traced) :
    (topo.tracedInit task t).map Prod.fst = topo.collectiveInit task t.1 := by
  cases topo with
  | ring R => exact TopologyRing.Traced.collectiveInit_erase task t
  | tree T => exact TopologyTree.Traced.collectiveInit_erase T task t
  | p2p => exact TopologyP2p.Traced.collectiveInit_erase task t

theorem tracedStep_erase (topo : Topology) (task : PlanTask) (event : CollEvent) (t : Traced) :
    (topo.tracedStep task event t).map Prod.fst = topo.collectiveStep task event t.1 := by
  cases topo with
  | ring R => exact TopologyRing.Traced.collectiveStep_erase task event t
  | tree T => exact TopologyTree.Traced.collectiveStep_erase T task event t
  | p2p => exact TopologyP2p.Traced.collectiveStep_erase task event t

/-- The buffer and the size a connection moves in a state. -/
def currentBuffer (topo : Topology) (task : PlanTask) (s : RankState) (sd : Side) (i : Nat) : Loc × Nat :=
  match topo with
  | .ring _ => ((TopologyRing.ringOp task.func).map fun o => o.op.buffer task s sd).getD (user 0, 0)
  | .tree T => TopologyTree.bufferAt task (T.rolesOf task) T.isLeader (TopologyTree.chunkAt s sd i) sd i
  | .p2p => TopologyP2p.buffer task sd

/-- `CollectiveStep` of this topology starts a task that was not started. -/
def startsItself : Topology → Bool
  | .p2p => false
  | _ => true

end Topology

/-- **The states of a task after calls that have succeeded**, from the state `t₀` on: a first call, or a
    step of a task in its initial state, and any calls after it. A call that fails ends the task. -/
inductive TaskReached (topo : Topology) (task : PlanTask) (t₀ : Traced) : Traced → Prop
  | init (t : Traced) (h : (topo.tracedInit task t₀).Ends (.ok t)) : TaskReached topo task t₀ t
  | start (event : CollEvent) (t : Traced) (hfresh : t₀.1.op = {}) (hself : topo.startsItself = true)
      (h : (topo.tracedStep task event t₀).Ends (.ok t)) : TaskReached topo task t₀ t
  | again (t t' : Traced) (ht : TaskReached topo task t₀ t)
      (h : (topo.tracedInit task t).Ends (.ok t')) : TaskReached topo task t₀ t'
  | step (event : CollEvent) (t t' : Traced) (ht : TaskReached topo task t₀ t)
      (h : (topo.tracedStep task event t).Ends (.ok t')) : TaskReached topo task t₀ t'

/-- Every flag that is not set has been tried with its current buffer since it was last cleared, and
    the latest try was not done. -/
def Topology.Attends (topo : Topology) (task : PlanTask) (t : Traced) : Prop :=
  ∀ sd i, Unset t.1 sd i → Attended (topo.currentBuffer task t.1 sd i) sd i t.2

/-- **A task that waits**: some flag is not set, and all such are attended to. -/
def Topology.Waits (topo : Topology) (task : PlanTask) (t : Traced) : Prop :=
  (∃ sd i, Unset t.1 sd i) ∧ topo.Attends task t

/-! ## 2. What a topology relies on -/

/-- **A channel is connected for a topology**: the tree's role table has a role for every neighbour, and
    every neighbour, or the peer of a P2P task, has its transports. -/
def Topology.Connects (channel : Channel) (task : PlanTask) : Topology → Prop
  | .ring _ => True
  | .tree T => (T.rolesOf task).length = (TopologyTree.peers channel.tree).length ∧
      ∀ peer ∈ TopologyTree.peers channel.tree,
        (TopologyRing.transportOf (channel.sendConnector peer)).length = 1 ∧
          (TopologyRing.transportOf (channel.recvConnector peer)).length = 1
  | .p2p => task.elemCount = 0 ∨ if task.func = .send then
        (((channel.sendP2p[task.peer.toNat]?).bind Connector.transport).toList).length = 1
      else (((channel.recvP2p[task.peer.toNat]?).bind Connector.transport).toList).length = 1

theorem length_flatMap_one {α β : Type} {f : α → List β} {l : List α} (h : ∀ a ∈ l, (f a).length = 1) :
    (l.flatMap f).length = l.length := by
  induction l with
  | nil => rfl
  | cons a l ih =>
    rw [List.flatMap_cons, List.length_append, h a List.mem_cons_self,
      ih fun b hb => h b (List.mem_cons_of_mem _ hb), List.length_cons, Nat.add_comm]

namespace TopologyTree

theorem connected_fillTransports {T : TopologyTree} {channel : Channel} {task : PlanTask}
    (h : Topology.Connects channel task (.tree T)) :
    Connected (fillTransports channel task) (T.rolesOf (fillTransports channel task)) := by
  obtain ⟨hroles, hpeers⟩ := h
  have hr : T.rolesOf (fillTransports channel task) = T.rolesOf task := rfl
  rw [Connected, hr, hroles]
  exact ⟨length_flatMap_one fun peer hp => (hpeers peer hp).1,
    length_flatMap_one fun peer hp => (hpeers peer hp).2⟩

theorem length_treeRoles (comm : Communicator) (id : Int) :
    (treeRoles comm (treeOf comm id)).length = (peers (treeOf comm id)).length := by
  unfold treeRoles peers
  by_cases hl : comm.localRank = 0
  · rw [if_pos hl]
    split <;> simp only [List.length_append, List.length_replicate, List.length_cons, List.length_nil]
  · rw [if_neg hl, treeOf, if_neg hl, starPeers, if_neg hl]
    rfl

end TopologyTree

open TopologyTree in
/-- **The channels of a rank are connected for its tree.** -/
theorem World.tree_connects {H : Type} [DecidableEq H] (w : World H) {id r : Nat} (hid : id < w.nChannels)
    (hr : r < w.size) {task : PlanTask} (hchannel : task.channelId = id) :
    Topology.Connects (initChannels r (w.shapedChannel id r)) task (.tree (w.tree r)) := by
  have hpeers : peers (initChannels r (w.shapedChannel id r)).tree =
      (nbrsOf w id r).map Nat.cast := peers_treeOf hr
  refine ⟨?_, fun peer hp => ?_⟩
  · rw [rolesOf, hchannel, Int.toNat_natCast, channelRoles_get r hid]
    exact length_treeRoles ..
  · have hwant : ∀ b, (peer, b) ∈ channelPeers (w.shapedChannel id r) := by
      intro b
      refine List.mem_append_right _ (List.mem_flatMap.mpr ⟨peer, hp, ?_⟩)
      cases b <;> simp
    rw [hpeers] at hp
    obtain ⟨q, hq, rfl⟩ := List.mem_map.mp hp
    obtain ⟨hlt, hne⟩ := nbrsOf_lt hr hq
    rw [transportOf_send hlt hne (hwant true), transportOf_recv hlt hne (hwant false)]
    exact ⟨rfl, rfl⟩

namespace TopologyP2p

theorem connected_fillTransports {channel : Channel} {task : PlanTask}
    (h : Topology.Connects channel task .p2p) : Connected (fillTransports channel task) := by
  unfold Connected fillTransports
  unfold Topology.Connects at h
  by_cases hn : task.elemCount = 0
  · rw [if_pos hn, if_pos hn]
    trivial
  · replace h := h.resolve_left hn
    rw [if_neg hn]
    by_cases hsend : task.func = .send
    · rw [if_pos hsend] at h ⊢
      rw [if_neg hn, if_pos hsend]
      exact ⟨h, rfl⟩
    · rw [if_neg hsend] at h ⊢
      rw [if_neg hn, if_neg hsend]
      exact ⟨rfl, h⟩

end TopologyP2p

/-! ## 3. Sequences of calls -/

/-- What the calls of a topology ensure holds after every sequence of them. -/
theorem TaskReached.ensures {topo : Topology} {task : PlanTask} {K : Traced → Prop} {t₀ t : Traced}
    (h : TaskReached topo task t₀ t) (hfirst : (topo.tracedInit task t₀).Ensures K)
    (hstart : topo.startsItself = true → t₀.1.op = {} → ∀ event, (topo.tracedStep task event t₀).Ensures K)
    (hagain : ∀ t, K t → (topo.tracedInit task t).Ensures K)
    (hstep : ∀ event t, K t → (topo.tracedStep task event t).Ensures K) : K t := by
  induction h with
  | init t h => exact hfirst.ends h
  | start event t hfresh hself h => exact (hstart hself hfresh event).ends h
  | again t t' _ h ih => exact (hagain t ih).ends h
  | step event t t' _ h ih => exact (hstep event t ih).ends h

/-- What is kept by the calls of a topology, from whatever state a first call starts. -/
theorem TaskReached.keeps {topo : Topology} {task : PlanTask} {K : Traced → Prop} {t₀ t : Traced}
    (h : TaskReached topo task t₀ t) (hinit : ∀ t, (topo.tracedInit task t).Always K)
    (hstep : ∀ event t, K t ∨ (topo.startsItself = true ∧ t.1.op = {}) →
      (topo.tracedStep task event t).Always K) : K t :=
  h.ensures (hinit t₀).ensures (fun hself hfresh event => (hstep event t₀ (Or.inr ⟨hself, hfresh⟩)).ensures)
    (fun t _ => (hinit t).ensures) fun event t ht => (hstep event t (Or.inl ht)).ensures

/-- The ring keeps its tasks resting; it rejects those of a function it does not have. -/
theorem ring_kept (R : TopologyRing) (task : PlanTask) : ∃ K : Traced → Prop,
    (∀ t, ((Topology.ring R).tracedInit task t).Always K) ∧
    (∀ event t, K t ∨ ((Topology.ring R).startsItself = true ∧ t.1.op = {}) →
      ((Topology.ring R).tracedStep task event t).Always K) ∧
    ∀ t, K t → (Topology.ring R).collectiveDone t.1 = true ∨ (Topology.ring R).Waits task t := by
  cases hop : TopologyRing.ringOp task.func with
  | none =>
    refine ⟨fun _ => False, fun t => ?_, fun event t ht => ?_, fun t ht => ht.elim⟩
    · change (TopologyRing.Traced.collectiveInit task t).Always _
      unfold TopologyRing.Traced.collectiveInit
      rw [hop]
      exact Prog.always_error
    · change (TopologyRing.Traced.collectiveStep task event t).Always _
      unfold TopologyRing.Traced.collectiveStep
      rw [hop]
      exact Prog.always_error
  | some o =>
    obtain ⟨left, valid, H⟩ := TopologyRing.ringOp_steady task hop
    refine ⟨o.Resting task left valid, fun t => ?_, fun event t ht => ?_, fun t ht => ?_⟩
    · change (TopologyRing.Traced.collectiveInit task t).Always _
      unfold TopologyRing.Traced.collectiveInit
      rw [hop]
      exact TopologyRing.init_always H t
    · change (TopologyRing.Traced.collectiveStep task event t).Always _
      unfold TopologyRing.Traced.collectiveStep
      rw [hop]
      refine TopologyRing.step_always H event t (ht.imp id fun hx => ?_)
      rw [hx.2]
      rfl
    · refine ht.imp (fun hdone => beq_iff_eq.mpr hdone) fun hw => ⟨hw.2.2.1, fun sd i hi => ?_⟩
      have hb : Topology.currentBuffer (.ring R) task t.1 sd i = o.op.buffer task t.1 sd := by
        simp only [Topology.currentBuffer, hop, Option.map_some, Option.getD_some]
      rw [hb]
      exact hw.2.2.2 sd i hi

/-- **What the calls of every topology keep**, whatever the connections answer. -/
theorem exists_kept (topo : Topology) {channel : Channel} {task : PlanTask}
    (hcon : topo.Connects channel task) : ∃ K : Traced → Prop,
      (∀ t, (topo.tracedInit (topo.fillTransports channel task) t).Always K) ∧
      (∀ event t, K t ∨ (topo.startsItself = true ∧ t.1.op = {}) →
        (topo.tracedStep (topo.fillTransports channel task) event t).Always K) ∧
      ∀ t, K t → topo.collectiveDone t.1 = true ∨ topo.Waits (topo.fillTransports channel task) t := by
  cases topo with
  | ring R => exact ring_kept R (TopologyRing.fillTransports channel task)
  | tree T =>
    have hc := TopologyTree.connected_fillTransports hcon
    refine ⟨_, TopologyTree.init_always hc, fun event t ht => ?_, fun t ht => ?_⟩
    · refine TopologyTree.step_always hc event t (ht.imp id fun hx => ?_)
      rw [hx.2]
      rfl
    · exact ht.imp (fun hdone => beq_iff_eq.mpr hdone) fun hw => ⟨hw.2, hw.1.attends⟩
  | p2p =>
    have hc := TopologyP2p.connected_fillTransports hcon
    refine ⟨_, TopologyP2p.init_always hc, fun event t ht => ?_, fun t ht => ?_⟩
    · exact TopologyP2p.step_always hc event t (ht.resolve_right fun hx => by cases hx.1)
    · exact ht.imp id fun hw => hw.2.2

/-- **No task idles**: on a connected channel every call of a task ends, and after every sequence of
    successful calls the task is done, or some flag is not set and every such flag was tried with its
    current buffer since it was last cleared. -/
theorem never_idle (topo : Topology) (channel : Channel) (task : PlanTask)
    (hcon : topo.Connects channel task) :
    (∀ s, ¬ (topo.collectiveInit (topo.fillTransports channel task) s).Ends (.error .fuel)) ∧
    (∀ event t₀ t, TaskReached topo (topo.fillTransports channel task) t₀ t ∨
        (topo.startsItself = true ∧ t.1.op = {}) →
      ¬ (topo.collectiveStep (topo.fillTransports channel task) event t.1).Ends (.error .fuel)) ∧
    ∀ t₀ t, TaskReached topo (topo.fillTransports channel task) t₀ t →
      topo.collectiveDone t.1 = true ∨ topo.Waits (topo.fillTransports channel task) t := by
  obtain ⟨K, hinit, hstep, hK⟩ := exists_kept topo hcon
  refine ⟨fun s hf => ?_, fun event t₀ t ht hf => ?_, fun t₀ t ht => hK t (ht.keeps hinit hstep)⟩
  · rw [← topo.tracedInit_erase _ (s, [])] at hf
    exact (Prog.always_iff.mp (hinit (s, []))).2 (Prog.ends_error_map hf)
  · rw [← topo.tracedStep_erase _ event t] at hf
    exact (Prog.always_iff.mp (hstep event t (ht.imp (fun h => h.keeps hinit hstep) id))).2
      (Prog.ends_error_map hf)

/-- A leader with one other rank on its machine. -/
def soloLeader : TopologyTree := { isLeader := true, channelRoles := [[TopologyTree.kRoleStar]] }

def soloChannel : Channel where
  tree := { starPeers := [1] }
  send := [{ peer := 0 }, { peer := 1, isSend := true, transport := some (channelLink 0 0 1) }]
  recv := [{ peer := 0 }, { peer := 1, transport := some (channelLink 0 1 0) }]

def soloTask : PlanTask := { sendBuf := 8, recvBuf := 64, elemCount := 4, chunkSize := 4, worldSize := 2 }

/-- The state after a first call in which no byte moves. -/
def soloState : Except Fault Traced :=
  ((Topology.tree soloLeader).tracedInit ((Topology.tree soloLeader).fillTransports soloChannel soloTask)
    (freshState fun _ => 0, [])).unmoved

theorem never_idle_solo : ∃ t, soloState = .ok t ∧
    (Topology.tree soloLeader).Waits ((Topology.tree soloLeader).fillTransports soloChannel soloTask) t := by
  cases h : soloState with
  | error f =>
    have hok : soloState.isOk = true := by decide
    rw [h] at hok
    cases hok
  | ok t =>
    have hends := Prog.ends_unmoved ((Topology.tree soloLeader).tracedInit
      ((Topology.tree soloLeader).fillTransports soloChannel soloTask) (freshState fun _ => 0, []))
    have hreached : TaskReached (.tree soloLeader) _ _ t := .init t (by rw [← h]; exact hends)
    have hphase : (soloState.toOption.map fun t => t.1.op.phase) = some TopologyTree.kPhaseUp := by decide
    rw [h] at hphase
    refine ⟨t, rfl, ((never_idle (.tree soloLeader) soloChannel soloTask ⟨by decide, by decide⟩).2.2 _ t
      hreached).resolve_left fun hdone => ?_⟩
    have hdone : t.1.op.phase = TopologyTree.kPhaseDone := beq_iff_eq.mp hdone
    have hup : t.1.op.phase = TopologyTree.kPhaseUp := Option.some.inj hphase
    rw [hup] at hdone
    exact absurd hdone (by decide)

end OriginCCL
