/-
  File:      OriginCCL/Topology/IntRuns.lean
  Subject:   LISTS OF OPERATIONS WITH THE `int` ARITHMETIC OF THE SOURCE.

  `channelSystem` counts chunks and steps without a bound. The source counts them in `int`s; for operations
  whose numbers are small enough that makes no difference.

  * `intSystem` -- the tasks of a channel with the calls on `int`s.
  * `Collective.FitsInt` -- the numbers of an operation are small enough.
  * `lists_same` -- **a list of such operations has the same runs**.
-/
import OriginCCL.Topology.RingInts
import OriginCCL.Topology.TaskLists
import OriginCCL.Topology.TreeInts

namespace OriginCCL

open Net Base

/-! ## 1. The system -/

namespace Topology

def intInit : Topology → PlanTask → RankState → Call RankState
  | .ring _, task, s => TopologyRing.Ints.collectiveInit task s
  | .tree t, task, s => TopologyTree.Ints.collectiveInit t task s
  | .p2p, task, s => TopologyP2p.collectiveInit task s

def intStep : Topology → PlanTask → CollEvent → RankState → Call RankState
  | .ring _, task, event, s => TopologyRing.Ints.collectiveStep task event s
  | .tree t, task, event, s => TopologyTree.Ints.collectiveStep t task event s
  | .p2p, task, event, s => TopologyP2p.collectiveStep task event s

end Topology

/-- **The tasks of a channel on all ranks**, with the `int`s of the source. -/
def intSystem : System Nat Link UInt8 PlanTask RankState Mem CollEvent :=
  { channelSystem with
    init := fun task m =>
      match task.topology with
      | none => .fail .error
      | some topo => topo.intInit task (freshState m)
    step := fun task event s =>
      match task.topology with
      | none => .fail .error
      | some topo => topo.intStep task event s }

/-- **The numbers of an operation on `N` ranks are small enough**: on the tree it has fewer than `2 ^ 31`
    chunks, and on the ring an AllReduce that is filled up to whole units has at most `2 ^ 31`. -/
structure Collective.FitsInt (p : Collective) (N : Nat) : Prop where
  tree : p.onTree = true → p.elemCount ≤ (2 ^ 31 - 1) * p.chunkSize
  ranks : p.onTree = false → 3 * N ≤ 2 ^ 31 + 1
  ring : p.onTree = false → p.func = .allReduce →
    p.elemCount + p.chunkSize * N ≤ 2 ^ 31 * p.chunkSize

/-! ## 2. The same calls -/

section Calls

variable {H : Type} [DecidableEq H] {w : World H} {ch : Nat} {p : Collective}

/-- What a state of an operation's task keeps to. -/
def IntReady (task : PlanTask) (s : RankState) : Prop :=
  match task.topology with
  | some (.ring _) =>
    if task.worldSize = 1 then TopologyRing.Finished s
    else TopologyRing.AtCursor (TopologyRing.ringCursor task) s
  | some (.tree _) => TopologyTree.Counts task s
  | _ => False

/-- The chunks of a tree task. -/
theorem tree_chunks (ch r : Nat) (hv : p.Valid w.size) (hf : p.FitsInt w.size) (htree : p.onTree = true) :
    1 ≤ (p.task w ch r).chunkSize ∧ TopologyTree.chunkCount (p.task w ch r) < 2 ^ 31 := by
  have hle := hf.tree htree
  have hc : 1 ≤ (p.task w ch r).chunkSize := by
    rw [Collective.task_chunkSize]
    exact hv.chunk (hv.tree htree)
  refine ⟨hc, Nat.lt_of_not_le fun hge => ?_⟩
  have hlast := (TopologyTree.lt_chunkCount hc).mp (show 2 ^ 31 - 1 < _ by omega)
  rw [Collective.task_chunkSize, Collective.task_elemCount] at hlast
  omega

/-- The chunks of a ring task. -/
theorem ring_small (ch r : Nat) (hv : p.Valid w.size) (hf : p.FitsInt w.size) (hN : 2 ≤ w.size)
    (hring : p.onTree = false) : TopologyRing.Small (p.task w ch r) w.size := by
  have hranks := hf.ranks hring
  refine ⟨hranks, ?_⟩
  unfold TopologyRing.indexBound
  rw [Collective.task_worldSize, Collective.task_func]
  cases hfunc : p.func with
  | allReduce =>
    have hpos := hv.chunk hfunc
    have hle := hf.ring hring hfunc
    have hper : 0 < p.chunkSize * w.size := Nat.mul_pos hpos (by omega)
    have hdiv := Nat.div_mul_le_self (p.elemCount + p.chunkSize * w.size - 1) (p.chunkSize * w.size)
    have hunits : TopologyRing.allreduceUnits (p.task w ch r) =
        (p.elemCount + p.chunkSize * w.size - 1) / (p.chunkSize * w.size) := by
      simp only [TopologyRing.allreduceUnits, Collective.task_elemCount, Collective.task_chunkSize,
        Collective.task_worldSize, Int.toNat_natCast]
      rw [if_neg (by omega)]
    have hcap : TopologyRing.allreduceUnits (p.task w ch r) * w.size * p.chunkSize ≤ 2 ^ 31 * p.chunkSize := by
      rw [hunits, Nat.mul_assoc, Nat.mul_comm w.size]
      omega
    dsimp only
    exact_mod_cast Nat.le_of_mul_le_mul_right hcap hpos
  | broadcast | allGather | reduce | reduceScatter | send | recv =>
    dsimp only
    omega

theorem ranked_task (ch : Nat) {r : Nat} (hv : p.Valid w.size) (hN : 2 ≤ w.size) (hr : r < w.size) :
    TopologyRing.Ranked (p.task w ch r) w.size r :=
  ⟨Collective.task_worldSize, hN, Collective.task_rank, hr, fun hfunc => by
    rw [Collective.task_func] at hfunc
    rw [Collective.task_chunkSize]
    exact hv.chunk hfunc⟩

/-- **An operation with small numbers makes the same calls**, on every rank. -/
theorem task_same (ch : Nat) (hv : p.Valid w.size) (hf : p.FitsInt w.size) {r : Nat} (hr : r < w.size) :
    (∀ m, Prog.Image id (IntReady (p.task w ch r)) (channelSystem.init (p.task w ch r) m)
      (intSystem.init (p.task w ch r) m)) ∧
    ∀ e s, IntReady (p.task w ch r) s →
      Prog.Image id (IntReady (p.task w ch r)) (channelSystem.step (p.task w ch r) e s)
        (intSystem.step (p.task w ch r) e s) := by
  have htopo : (p.task w ch r).topology = _ := Collective.task_topology
  unfold channelSystem intSystem IntReady
  dsimp only
  rw [htopo]
  by_cases htree : p.onTree = true
  · rw [if_pos htree]
    obtain ⟨hpos, hlt⟩ := tree_chunks ch r hv hf htree
    exact ⟨fun m => TopologyTree.collectiveInit_same _ hpos hlt _,
      fun e s hs => TopologyTree.collectiveStep_same _ hpos hlt e hs⟩
  · rw [if_neg htree]
    by_cases hone : w.size = 1
    · have hW : (p.task w ch r).worldSize = 1 := by rw [Collective.task_worldSize, hone, Nat.cast_one]
      have hR : (p.task w ch r).rank = 0 := by
        rw [Collective.task_rank]
        omega
      simp only [if_pos hW]
      exact ⟨fun m => TopologyRing.collectiveInit_lone hW hR _,
        fun e s hs => TopologyRing.collectiveStep_lone e hs⟩
    · have hW : (p.task w ch r).worldSize ≠ 1 := by
        rw [Collective.task_worldSize]
        omega
      have S := ranked_task ch hv (by omega) hr
      have B := ring_small ch r hv hf (by omega) (Bool.eq_false_of_not_eq_true htree)
      simp only [if_neg hW]
      exact ⟨fun m => TopologyRing.collectiveInit_same S B _,
        fun e s hs => TopologyRing.collectiveStep_same S B e fun _ => hs⟩

variable {ps : List Collective}

/-- **Operations with small numbers are the same system.** -/
theorem int_images (ch : Nat) (hv : ∀ p ∈ ps, p.Valid w.size) (hf : ∀ p ∈ ps, p.FitsInt w.size) :
    Images channelSystem intSystem id id IntReady (w.tasks ch ps) := by
  have htask : ∀ r, ∀ t ∈ w.tasks ch ps r, ∃ p ∈ ps, r < w.size ∧ t = p.task w ch r := by
    intro r t ht
    unfold World.tasks at ht
    split at ht
    · obtain ⟨p, hp, rfl⟩ := List.mem_map.mp ht
      exact ⟨p, hp, by assumption, rfl⟩
    · exact absurd ht List.not_mem_nil
  refine ⟨fun r t ht m => ?_, fun r t ht e s hs => ?_, fun _ _ _ _ _ => rfl, fun _ => rfl⟩
  · obtain ⟨p, hp, hr, rfl⟩ := htask r t ht
    exact (task_same ch (hv p hp) (hf p hp) hr).1 m
  · obtain ⟨p, hp, hr, rfl⟩ := htask r t ht
    exact (task_same ch (hv p hp) (hf p hp) hr).2 e s hs

variable {m₀ : Nat → Mem} {F : Flow Link} {ls : List (Label Nat Link UInt8 CollEvent)}
  {c : Config Nat Link UInt8 RankState Mem}

/-- **A list of operations with small numbers has the same runs** on `int`s and without a bound, -/
theorem lists_same {ch : Nat} (hv : ∀ p ∈ ps, p.Valid w.size) (hf : ∀ p ∈ ps, p.FitsInt w.size) :
    Run intSystem F (w.tasks ch ps) (.start m₀) ls c ↔
      Run channelSystem F (w.tasks ch ps) (.start m₀) ls c :=
  Run.same (int_images ch hv hf) (meets_start m₀)

/-- and goes on in the same way from every state it reaches. -/
theorem lists_same_from {ch : Nat} (hv : ∀ p ∈ ps, p.Valid w.size) (hf : ∀ p ∈ ps, p.FitsInt w.size)
    (hrun : Run intSystem F (w.tasks ch ps) (.start m₀) ls c) {ls' : List (Label Nat Link UInt8 CollEvent)}
    {c' : Config Nat Link UInt8 RankState Mem} :
    Run intSystem F (w.tasks ch ps) c ls' c' ↔ Run channelSystem F (w.tasks ch ps) c ls' c' := by
  have H := int_images ch hv hf
  exact Run.same H (((lists_same hv hf).mp hrun).meets H (meets_start m₀))

end Calls

end OriginCCL
