/-
  File:      OriginCCL/Topology/TaskListResults.lean
  Subject:   THE RESULTS OF A LIST OF OPERATIONS.

  Ring and tree operations of every kind run after one another over the same connections, each rank as
  far ahead of the others as it gets. Each of them still computes what it computes alone.

  * `Collective.Result` -- what an operation leaves on a rank, from the memories its ranks start it with.
  * `Collective.computes` -- **every accepted operation computes it alone**, by its contracts.
  * `lists_results` -- **every operation of a list has its result**, whatever runs before it, after it and
    at the same time on other ranks.
-/
import OriginCCL.Topology.IntRuns
import OriginCCL.Topology.RingAllGather
import OriginCCL.Topology.RingBroadcast
import OriginCCL.Topology.RingReduceScatter
import OriginCCL.Topology.TaskListRuns

namespace OriginCCL

open Net Base
open TopologyRing (sumFirst allreduceResult)

/-! ## 1. Results -/

namespace Collective

/-- **What an operation leaves on rank `r`**, if the ranks start it with the memories `m`. -/
def Result (p : Collective) (N : Nat) (m : Nat → Mem) (r : Nat) (x : Mem) : Prop :=
  match p.func with
  | .allReduce => ∀ i < p.elemCount,
      elemAt x p.dtype (p.recvBuf r) i = allreduceResult p.reduceOp N (p.inputs m) i
  | .broadcast => ∀ j < p.elemCount * getDataTypeSize p.dtype,
      x (p.recvBuf r + j) = m p.root.toNat (p.recvBuf p.root.toNat + j)
  | .reduce => r = p.root.toNat → ∀ i < p.elemCount,
      elemAt x p.dtype (p.recvBuf r) i = allreduceResult p.reduceOp N (p.inputs m) i
  | .allGather => ∀ q < N, ∀ i < p.elemCount,
      elemAt x p.dtype (p.recvBuf r) (q * p.rankStride + i) = elemAt (m q) p.dtype (p.sendBuf q) i
  | .reduceScatter => ∀ i < p.elemCount, elemAt x p.dtype (p.recvBuf r) i =
      allreduceResult p.reduceOp N (p.inputs m) (r * p.rankStride + i)
  | _ => True

/-- The buffers of an operation do not overlap where its result depends on it. -/
def Laid (p : Collective) (N : Nat) : Prop :=
  match p.func with
  | .allReduce => p.dtype.isInt ∧ ∀ r < N, p.Buffers r
  | .reduce => p.dtype.isInt
  | .allGather => p.elemCount ≤ p.rankStride ∧
      ∀ r < N, p.Separate r p.elemCount ((N - 1) * p.rankStride + p.elemCount)
  | .reduceScatter => p.dtype.isInt ∧
      ∀ r < N, p.Separate r ((N - 1) * p.rankStride + p.elemCount) p.elemCount
  | _ => True

/-- An operation of no elements has no result. -/
theorem result_empty {p : Collective} {N r : Nat} {m : Nat → Mem} {x : Mem} (h : p.elemCount = 0) :
    p.Result N m r x := by
  have hnone : ∀ i, ¬ i < p.elemCount := fun i hi => by omega
  unfold Result
  cases p.func with
  | allReduce => exact fun i hi => absurd hi (hnone i)
  | broadcast =>
    intro j hj
    rw [h, Nat.zero_mul] at hj
    exact absurd hj (Nat.not_lt_zero j)
  | reduce => exact fun _ i hi => absurd hi (hnone i)
  | allGather => exact fun _ _ i hi => absurd hi (hnone i)
  | reduceScatter => exact fun i hi => absurd hi (hnone i)
  | send => trivial
  | recv => trivial

end Collective

/-! ## 2. The operations alone -/

section Operations

variable {H : Type} [DecidableEq H] {w : World H} {id : Nat} {p : Collective} {m : Nat → Mem}

namespace Collective

/-- **An operation computes its result alone**: there are terms and contracts for its ranks that lead
    from the memories `m` to the result. -/
def Computes (p : Collective) (w : World H) (id : Nat) (m : Nat → Mem) : Prop :=
  ∃ (C : Nat → Terms Link UInt8) (At : Nat → Nat → Mem → Prop), Joined w.size C ∧
    (∀ r < w.size, Nonempty (Contract channelSystem (p.task w id r) (C r) (At r 0) (At r 1))) ∧
    (∀ r, At r 0 (m r)) ∧ ∀ r < w.size, ∀ x, At r 1 x → p.Result w.size m r x

theorem result_of_allreduce (hfunc : p.func = .allReduce) {r : Nat} {x : Mem}
    (h : TopologyRing.allreduceAt w id p m r 1 x) : p.Result w.size m r x := by
  simp only [Result, hfunc]
  intro i hi
  have hres := h i (by rw [task_elemCount]; exact hi)
  rw [task_recvBuf, task_reduceOp] at hres
  exact hres

theorem allreduce_computes (hid : id < w.nChannels) (hN : 2 ≤ w.size) (hv : p.Valid w.size)
    (hl : p.Laid w.size) (hfunc : p.func = .allReduce) (hcount : 0 < p.elemCount) :
    p.Computes w id m := by
  simp only [Laid, hfunc] at hl
  obtain ⟨hint, hbuf⟩ := hl
  have hchunk := hv.chunk hfunc
  by_cases htree : p.onTree = true
  · have : Std.Commutative (reduceElem p.dtype (sumFirst p.reduceOp)) := ⟨reduceElem_comm hint _⟩
    have : Std.Associative (reduceElem p.dtype (sumFirst p.reduceOp)) := ⟨reduceElem_assoc hint _⟩
    obtain ⟨e, he⟩ := exists_neutral hint (sumFirst p.reduceOp)
    refine ⟨fun r => TopologyTree.treeTerms (p.task w id r) (TopologyTree.seatOf w id r) fun _ =>
        TopologyTree.linkOk p.reduceOp e (TopologyTree.treeForest w id) w.size (p.inputs m),
      TopologyRing.allreduceAt w id p m, TopologyTree.tree_joined w id p _, fun r hr => ?_,
      fun _ => rfl, fun r _ x hx => result_of_allreduce hfunc hx⟩
    exact TopologyTree.tree_allreduce_contract hid hN hfunc htree hcount hchunk he hr (hbuf r hr) m
  · have hring := Bool.eq_false_iff.mpr htree
    exact ⟨TopologyRing.allreduceTerms w id (p.inputs m) p, TopologyRing.allreduceAt w id p m,
      TopologyRing.allreduce_joined _ hN, fun r hr =>
      TopologyRing.allreduce_contract hid hN hfunc hring hcount hchunk hint hr (hbuf r hr) m,
      fun _ => rfl, fun r _ x hx => result_of_allreduce hfunc hx⟩

theorem broadcast_computes (hid : id < w.nChannels) (hN : 1 ≤ w.size) (hv : p.Valid w.size)
    (hfunc : p.func = .broadcast) (hring : p.onTree = false) (hcount : 0 < p.elemCount) :
    p.Computes w id m := by
  obtain ⟨h0, h1⟩ := hv.root (Or.inl hfunc)
  have hq : p.root.toNat < w.size := by omega
  have hroot : p.root = (p.root.toNat : Nat) := by omega
  have hrecv : ∀ r < w.size, p.recvBuf r ≠ 0 := fun r hr =>
    hv.recvs hcount r hr (Or.inl (by rw [hfunc]; decide))
  refine ⟨TopologyRing.broadcastTerms w id p.root.toNat (TopologyRing.rootBlock p.root.toNat p m) p,
    TopologyRing.broadcastAt w id p.root.toNat p m, TopologyRing.broadcast_joined _ hN hq,
    fun r hr => ?_, fun _ => rfl, fun r hr x hx => ?_⟩
  · obtain ⟨K, -⟩ := TopologyRing.broadcast_contract hid hfunc hring hcount hq hroot hr (hrecv r hr) m
    exact ⟨K⟩
  · have hx : TopologyRing.BroadcastDone _ _ _ _ _ x := hx
    simp only [Result, hfunc]
    intro j hj
    have hres := hx.result j (by rw [blockBytes_task]; exact hj)
    rw [task_recvBuf] at hres
    exact hres

theorem reduce_computes (hid : id < w.nChannels) (hN : 1 ≤ w.size) (hv : p.Valid w.size)
    (hl : p.Laid w.size) (hfunc : p.func = .reduce) (hring : p.onTree = false)
    (hcount : 0 < p.elemCount) : p.Computes w id m := by
  simp only [Laid, hfunc] at hl
  obtain ⟨h0, h1⟩ := hv.root (Or.inr hfunc)
  have hq : p.root.toNat < w.size := by omega
  have hroot : p.root = (p.root.toNat : Nat) := by omega
  have hsend : ∀ r < w.size, p.sendBuf r ≠ 0 := hv.sends hcount (by rw [hfunc]; decide)
  have hrecv : p.recvBuf p.root.toNat ≠ 0 := hv.recvs hcount _ hq (Or.inr hroot)
  refine ⟨TopologyRing.reduceTerms w id p.root.toNat (p.inputs m) p,
    TopologyRing.reduceAt w id p.root.toNat p m, TopologyRing.reduce_joined _ hN,
    fun r hr => TopologyRing.reduce_contract hid hfunc hring hcount hl hq hroot hr (hsend r hr) hrecv m,
    fun _ => rfl, fun r hr x hx => ?_⟩
  have hx : TopologyRing.ReduceDone _ _ _ _ _ _ _ x := hx
  simp only [Result, hfunc]
  intro hr i hi
  have hres := hx.result hr i (by rw [task_elemCount]; exact hi)
  rw [task_recvBuf, task_reduceOp] at hres
  exact hres

theorem allGather_computes (hid : id < w.nChannels) (hN : 1 ≤ w.size) (hl : p.Laid w.size)
    (hfunc : p.func = .allGather) (hring : p.onTree = false) (hcount : 0 < p.elemCount) :
    p.Computes w id m := by
  simp only [Laid, hfunc] at hl
  obtain ⟨hstride, hbuf⟩ := hl
  refine ⟨TopologyRing.gatherTerms w id (p.inputs m) p, TopologyRing.gatherAt w id p m,
    TopologyRing.gather_joined _ hN, fun r hr =>
    TopologyRing.gather_contract hid hfunc hring hcount hstride hr (hbuf r hr) m, fun _ => rfl,
    fun r hr x hx => ?_⟩
  have hx : TopologyRing.GatherDone _ _ _ _ _ x := hx
  simp only [Result, hfunc]
  intro q hq i hi
  have hres := hx.result q hq i (by rw [task_elemCount]; exact hi)
  rw [task_recvBuf, task_rankStride] at hres
  exact hres

theorem reduceScatter_computes (hid : id < w.nChannels) (hN : 2 ≤ w.size) (hl : p.Laid w.size)
    (hfunc : p.func = .reduceScatter) (hring : p.onTree = false) (hcount : 0 < p.elemCount) :
    p.Computes w id m := by
  simp only [Laid, hfunc] at hl
  obtain ⟨hint, hbuf⟩ := hl
  refine ⟨TopologyRing.scatterTerms w id (p.inputs m) p, TopologyRing.scatterAt w id p m,
    TopologyRing.scatter_joined _ hN, fun r hr =>
    TopologyRing.scatter_contract hid hN hfunc hring hcount hint hr (hbuf r hr) m, fun _ => rfl,
    fun r hr x hx => ?_⟩
  have hx : TopologyRing.ScatterDone _ _ _ _ _ _ x := hx
  simp only [Result, hfunc]
  intro i hi
  have hres := hx.result i (by rw [task_elemCount]; exact hi)
  rw [task_recvBuf, task_reduceOp, task_rankStride] at hres
  exact hres

/-- **Every accepted operation computes its result alone.** -/
theorem computes (hid : id < w.nChannels) (hN : 2 ≤ w.size) (hv : p.Valid w.size) (hl : p.Laid w.size)
    (hcount : 0 < p.elemCount) : p.Computes w id m := by
  have hN1 : 1 ≤ w.size := by omega
  have hring : p.func ≠ .allReduce → p.onTree = false := fun hne =>
    Bool.eq_false_iff.mpr fun htree => hne (hv.tree htree)
  cases hfunc : p.func with
  | allReduce => exact allreduce_computes hid hN hv hl hfunc hcount
  | broadcast => exact broadcast_computes hid hN1 hv hfunc (hring (by rw [hfunc]; decide)) hcount
  | reduce => exact reduce_computes hid hN1 hv hl hfunc (hring (by rw [hfunc]; decide)) hcount
  | allGather => exact allGather_computes hid hN1 hl hfunc (hring (by rw [hfunc]; decide)) hcount
  | reduceScatter => exact reduceScatter_computes hid hN hl hfunc (hring (by rw [hfunc]; decide)) hcount
  | send => exact absurd hfunc hv.func.1
  | recv => exact absurd hfunc hv.func.2

end Collective

end Operations

/-! ## 3. The operations of a list -/

section Lists

variable {H : Type} [DecidableEq H] {w : World H} {id : Nat} {ps : List Collective}
  {m₀ : Nat → Mem} {ls : List (Label Nat Link UInt8 CollEvent)}
  {c : Config Nat Link UInt8 RankState Mem} {F : Flow Link}

/-- One operation of a list: what the others leave in memory does not matter. -/
theorem list_result (hid : id < w.nChannels) (hN : 2 ≤ w.size) (hv : ∀ p ∈ ps, p.Valid w.size)
    (hrun : Run channelSystem F (w.tasks id ps) (.start m₀) ls c) {k : Nat} {p : Collective}
    (hp : ps[k]? = some p) (hl : p.Laid w.size) {m : Nat → Mem}
    (hm : ∀ r x, (c.node r).starts (m₀ r) k = some x → m r = x)
    {r : Nat} (hr : r < w.size) (hk : k < (c.node r).finished) :
    ∃ x, (c.node r).starts (m₀ r) (k + 1) = some x ∧ p.Result w.size m r x := by
  have hmem := List.mem_of_getElem? hp
  obtain ⟨c', hrun', hends⟩ := list_task hid (by omega) hv hrun hp hm
  obtain ⟨x, hfin, hmode, hstarts⟩ := hends r hk
  refine ⟨x, hstarts, ?_⟩
  rcases Nat.eq_zero_or_pos p.elemCount with hcount | hcount
  · exact Collective.result_empty hcount
  · obtain ⟨C, At, hjoin, hcontract, h0, hresult⟩ :=
      Collective.computes (m := m) hid hN (hv p hmem) hl hcount
    obtain ⟨y, hy, hpost⟩ := single_post (fun _ => C) At hjoin hcontract h0 hrun' hr hfin
    rw [hmode] at hy
    cases hy
    exact hresult r hr x hpost

/-- **Every operation of a list has its result.** In every run of a list of operations whose chunks an
    `int` counts, ring and tree mixed in any order, however the bytes are split and however far the ranks
    are apart: when a rank has finished an operation, its memory holds the result of this operation alone,
    from the memories the ranks have started it with. -/
theorem lists_results (hid : id < w.nChannels) (hN : 2 ≤ w.size) (hv : ∀ p ∈ ps, p.Valid w.size)
    (hf : ∀ p ∈ ps, p.FitsInt w.size) (hl : ∀ p ∈ ps, p.Laid w.size)
    (hrun : Run intSystem F (w.tasks id ps) (.start m₀) ls c) {k : Nat} {p : Collective}
    (hp : ps[k]? = some p) {m : Nat → Mem} (hm : ∀ r x, (c.node r).starts (m₀ r) k = some x → m r = x)
    {r : Nat} (hr : r < w.size) (hk : k < (c.node r).finished) :
    ∃ x, (c.node r).starts (m₀ r) (k + 1) = some x ∧ p.Result w.size m r x :=
  list_result hid hN hv ((lists_same hv hf).mp hrun) hp (hl p (List.mem_of_getElem? hp)) hm hr hk

end Lists

/-! ## 4. Three ranks -/

theorem ringThenTree_laid : ∀ p ∈ ringThenTree, p.Laid TopologyTree.splitWorld.size := by
  intro p hp
  rcases List.mem_cons.mp hp with rfl | hp
  · exact trivial
  · rw [List.mem_singleton.mp hp]
    exact ⟨trivial, fun _ _ => ⟨Nat.succ_ne_zero 7, Nat.succ_ne_zero 7, Or.inl rfl⟩⟩

theorem ringThenTree_fits : ∀ p ∈ ringThenTree, p.FitsInt TopologyTree.splitWorld.size := by
  intro p hp
  rcases List.mem_cons.mp hp with rfl | hp
  · exact ⟨nofun, fun _ => by decide, nofun⟩
  · rw [List.mem_singleton.mp hp]
    exact ⟨fun _ => by decide, nofun, nofun⟩

/-- The memories the ranks start the second task with. -/
def secondMem (r : Nat) : Mem :=
  (((ringThenTreeAt 20).node r).starts (TopologyTree.splitMem r) 1).getD (TopologyTree.splitMem r)

theorem lists_results_split : ∃ x,
    ((ringThenTreeAt 20).node 2).starts (TopologyTree.splitMem 2) 2 = some x ∧
      TopologyTree.splitAverage.Result TopologyTree.splitWorld.size secondMem 2 x := by
  obtain ⟨ls, hrun⟩ := Config.follow_run channelSystem (fun _ => 3)
    (TopologyTree.splitWorld.tasks 1 ringThenTree) (.start TopologyTree.splitMem) _
  refine lists_results (c := ringThenTreeAt 20) (k := 1) (by decide) (by decide) ringThenTree_valid
    ringThenTree_fits ringThenTree_laid ((lists_same ringThenTree_valid ringThenTree_fits).mpr hrun) rfl
    (fun r x h => ?_) (by decide) (by decide +kernel)
  rw [secondMem, h]
  rfl

end OriginCCL
