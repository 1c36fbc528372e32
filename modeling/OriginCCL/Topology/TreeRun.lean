/-
  File:      OriginCCL/Topology/TreeRun.lean
  Subject:   A TREE ALLREDUCE UNDER EVERY SCHEDULE.

  * `tree_joined` -- both ends of a connection of the tree speak of the same bytes.
  * `tree_allreduce_correct` -- **whatever the machines, the schedule and the split of the bytes**,
    when the ranks are done every receive buffer holds the reduction, for cursors without a bound.
-/
import OriginCCL.Topology.RingAllreduceRun
import OriginCCL.Topology.TreeShape

namespace OriginCCL.TopologyTree

open Net Base
open TopologyRing (sumFirst allreduceResult)

/-! ## 1. Both ends of a connection -/

section Ends

variable {H : Type} [DecidableEq H] {w : World H} {id r : Nat} {p : Collective}

/-- The connections of a rank's tree lead to its neighbours. -/
theorem owns_out (w : World H) (id r : Nat) {l : Link} :
    (∃ i < (seatOf w id r).edges, l = (seatOf w id r).out i) ↔
      ∃ q ∈ nbrsOf w id r, l = channelLink id r q := by
  constructor
  · rintro ⟨i, hi, rfl⟩
    exact ⟨_, nbr_mem hi, rfl⟩
  · rintro ⟨q, hq, rfl⟩
    obtain ⟨i, hi, rfl⟩ := List.getElem_of_mem hq
    refine ⟨i, hi, ?_⟩
    change _ = channelLink id r ((nbrsOf w id r).getD i 0)
    rw [List.getD_eq_getElem _ _ hi]

theorem owns_inn (w : World H) (id r : Nat) {l : Link} :
    (∃ i < (seatOf w id r).edges, l = (seatOf w id r).inn i) ↔
      ∃ q ∈ nbrsOf w id r, l = channelLink id q r := by
  constructor
  · rintro ⟨i, hi, rfl⟩
    exact ⟨_, nbr_mem hi, rfl⟩
  · rintro ⟨q, hq, rfl⟩
    obtain ⟨i, hi, rfl⟩ := List.getElem_of_mem hq
    refine ⟨i, hi, ?_⟩
    change _ = channelLink id ((nbrsOf w id r).getD i 0) r
    rw [List.getD_eq_getElem _ _ hi]

/-- Neighbours are neighbours of each other. -/
theorem mem_nbrsOf_comm {q : Nat} (hr : r < w.size) (hq : q < w.size) :
    q ∈ nbrsOf w id r ↔ r ∈ nbrsOf w id q := by
  rw [mem_nbrsOf hr, mem_nbrsOf hq]
  exact or_comm

/-- A connection is in the tree of its sender if it is in that of its receiver. -/
theorem owned_both {l : Link} (hs : l.src < w.size) (hd : l.dst < w.size) :
    (∃ i < (seatOf w id l.src).edges, l = (seatOf w id l.src).out i) ↔
      ∃ i < (seatOf w id l.dst).edges, l = (seatOf w id l.dst).inn i := by
  obtain ⟨kind, a, b⟩ := l
  rw [owns_out, owns_inn]
  simp only [channelLink, Link.mk.injEq, true_and, and_true]
  constructor
  · rintro ⟨q, hq, rfl, rfl⟩
    exact ⟨a, (mem_nbrsOf_comm hs hd).mp hq, rfl, rfl⟩
  · rintro ⟨q, hq, rfl, rfl⟩
    exact ⟨b, (mem_nbrsOf_comm hs hd).mpr hq, rfl, rfl⟩

/-- **The terms of a tree operation join** when both ends of a connection claim the same. -/
theorem tree_joined (w : World H) (id : Nat) (p : Collective) (ok : Link → Nat → UInt8 → Prop) :
    Joined w.size fun r => treeTerms (p.task w id r) (seatOf w id r) fun _ => ok := by
  refine ⟨?_, ?_, ?_, ?_, ?_⟩
  · intro r hr l ho
    obtain ⟨q, hq, rfl⟩ := (owns_out w id r).mp ho
    exact ⟨rfl, (nbrsOf_lt hr hq).1⟩
  · intro r hr l ho
    obtain ⟨q, hq, rfl⟩ := (owns_inn w id r).mp ho
    exact ⟨rfl, (nbrsOf_lt hr hq).1⟩
  · intro r _ sd l ho
    cases sd <;> exact if_neg ho
  · intro l hs hd
    simp only [treeTerms, owned_both hs hd, typeSize, Collective.task_elemCount,
      Collective.task_dtype]
  · intro l _ _ j b _ hb
    exact hb

end Ends

/-! ## 2. The result -/

section Ranks

variable {H : Type} [DecidableEq H] {w : World H} {id : Nat} {p : Collective}

/-- The contract of a tree task, for elements of its type. -/
theorem TreeTask.values {task : PlanTask} {T : Seat} (K : TreeTask task T (treePrep task T))
    {dt : DataType} (hdt : task.dtype = dt) {op : ReduceOp} {e : Elem dt} {F : Forest Nat}
    {N r root : Nat} {nbr : Nat → Nat} {X : Nat → Nat → Elem dt}
    [Std.Commutative (reduceElem dt (sumFirst op))] [Std.Associative (reduceElem dt (sumFirst op))]
    (he : ∀ x, reduceElem dt (sumFirst op) e x = x) (hop : task.reduceOp = op)
    (hsize : task.worldSize = N) (h : Hangs T F N r nbr) (hF : Rooted F N root) {Pre : Mem → Prop}
    (hpre : ∀ m, Pre m → ∀ i, X r i = elemAt m dt task.sendBuf i) :
    Nonempty (Contract channelSystem task (treeTerms task T fun _ => linkOk op e F N X) Pre
      (TopologyRing.AllreduceDone task dt N X)) := by
  subst hdt
  exact ⟨K.contract (treeBytes_claimed he hop hsize K.seat h hF)
    fun m hm => treeBytes_start he K.seat (hpre m hm)⟩

/-- **The contract of one rank in a tree AllReduce.** -/
theorem tree_allreduce_contract (hid : id < w.nChannels) (hN : 2 ≤ w.size)
    (hfunc : p.func = .allReduce) (htree : p.onTree = true) (hcount : 0 < p.elemCount)
    (hchunk : 1 ≤ p.chunkSize)
    [Std.Commutative (reduceElem p.dtype (sumFirst p.reduceOp))]
    [Std.Associative (reduceElem p.dtype (sumFirst p.reduceOp))] {e : Elem p.dtype}
    (he : ∀ x, reduceElem p.dtype (sumFirst p.reduceOp) e x = x) {r : Nat} (hr : r < w.size)
    (hbuf : p.Buffers r) (m₀ : Nat → Mem) :
    Nonempty (Contract channelSystem (p.task w id r)
      (treeTerms (p.task w id r) (seatOf w id r) fun _ =>
        linkOk p.reduceOp e (treeForest w id) w.size (p.inputs m₀))
      (TopologyRing.allreduceAt w id p m₀ r 0) (TopologyRing.allreduceAt w id p m₀ r 1)) := by
  have W := tree_onTree (p := p) hid htree hN hr hchunk
  have htopo : (p.task w id r).topology = some (.tree (w.tree r)) := by
    rw [Collective.task_topology, htree]
    rfl
  have T : TreeTask (p.task w id r) (seatOf w id r) (treePrep (p.task w id r) (seatOf w id r)) := by
    refine tree_task W (by rw [Collective.task_func, hfunc]) htopo (rolesOf_task hid)
      (isLeader_task hr) (by rw [Collective.task_worldSize]; exact_mod_cast hN)
      (by rw [Collective.task_elemCount]; omega) ?_
    rw [Collective.task_sendBuf, Collective.task_recvBuf]
    exact ⟨hbuf.send, hbuf.recv⟩
  refine T.values Collective.task_dtype he Collective.task_reduceOp Collective.task_worldSize
    (tree_hangs hr) treeForest_rooted fun m hm i => ?_
  obtain rfl : m = m₀ r := hm
  rw [Collective.task_sendBuf]
  rfl

/-- **Tree AllReduce is correct for every machine layout and every schedule**, for cursors without a bound:
    when all ranks are done, every receive buffer holds the reduction of all inputs. -/
theorem tree_allreduce_correct (hid : id < w.nChannels) (hN : 2 ≤ w.size)
    (hfunc : p.func = .allReduce) (htree : p.onTree = true) (hcount : 0 < p.elemCount)
    (hchunk : 1 ≤ p.chunkSize) (hint : p.dtype.isInt) (hbuf : ∀ r < w.size, p.Buffers r)
    {m₀ : Nat → Mem} {ls : List (Label Nat Link UInt8 CollEvent)}
    {c : Config Nat Link UInt8 RankState Mem}
    (hrun : Run channelSystem (Flow.any Link) (w.tasks id [p]) (.start m₀) ls c)
    (hdone : ∀ r < w.size, (c.node r).finished = 1) :
    ∀ r < w.size, ∃ m, (c.node r).mode = .fresh m ∧ ∀ i < p.elemCount,
      elemAt m p.dtype (p.recvBuf r) i = allreduceResult p.reduceOp w.size (p.inputs m₀) i := by
  have : Std.Commutative (reduceElem p.dtype (sumFirst p.reduceOp)) := ⟨reduceElem_comm hint _⟩
  have : Std.Associative (reduceElem p.dtype (sumFirst p.reduceOp)) := ⟨reduceElem_assoc hint _⟩
  obtain ⟨e, he⟩ := exists_neutral hint (sumFirst p.reduceOp)
  intro r hr
  obtain ⟨m, hm, hpost⟩ := single_post
    (fun q r => treeTerms (q.task w id r) (seatOf w id r) fun _ =>
      linkOk p.reduceOp e (treeForest w id) w.size (p.inputs m₀))
    (TopologyRing.allreduceAt w id p m₀) (tree_joined w id p _)
    (fun q hq => tree_allreduce_contract hid hN hfunc htree hcount hchunk he hq (hbuf q hq) m₀)
    (fun _ => rfl) hrun hr (hdone r hr)
  refine ⟨m, hm, fun i hi => ?_⟩
  have hres := hpost i (by rw [Collective.task_elemCount]; exact hi)
  rw [Collective.task_recvBuf, Collective.task_reduceOp] at hres
  exact hres

end Ranks

/-! ## 3. Three ranks -/

/-- Ranks 0 and 2 on one machine, rank 1 on another. -/
def splitWorld : World Nat := ⟨3, fun r => r % 2, 2⟩

/-- The average of two elements in chunks of one, in place. -/
def splitAverage : Collective where
  func := .allReduce
  onTree := true
  elemCount := 2
  chunkSize := 1
  dtype := .int32
  reduceOp := .avg
  sendBuf _ := 8
  recvBuf _ := 8

/-- Rank `r` holds `200 + r` and `r`. -/
def splitMem (r a : Nat) : UInt8 :=
  if a = 8 then 200 + r.toUInt8 else if a = 12 then r.toUInt8 else 0

end OriginCCL.TopologyTree
