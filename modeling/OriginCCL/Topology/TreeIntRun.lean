/-
  File:      OriginCCL/Topology/TreeIntRun.lean
  Subject:   TREE ALLREDUCE WITH THE `int` CURSORS OF THE SOURCE.

  * `int_tree_allreduce_correct` -- **whatever the machines, the schedule and the split of the bytes**,
    every rank ends with the reduction of all inputs, if an `int` counts the chunks.
  * `tree_allreduce_frame` -- no byte outside the receive buffer is changed.
  * `tree_int_runs` -- with more chunks than an `int` counts the ranks run the trimmed operation, and
    finish with the rest of their buffers as it was (`tree_allreduce_past_int`).
-/
import OriginCCL.Topology.IntRuns
import OriginCCL.Topology.Traffic

namespace OriginCCL.TopologyTree

open Net Base
open TopologyRing (allreduceResult)

section Ranks

variable {H : Type} [DecidableEq H] {w : World H} {id : Nat} {p : Collective} {F : Flow Link}
  {m₀ : Nat → Mem} {ls : List (Label Nat Link UInt8 CollEvent)} {c : Config Nat Link UInt8 RankState Mem}

/-! ## 1. The result -/

omit [DecidableEq H] in
/-- An AllReduce with buffers is accepted. -/
theorem tree_valid (hfunc : p.func = .allReduce) (hchunk : 1 ≤ p.chunkSize)
    (hbuf : ∀ r < w.size, p.Buffers r) : p.Valid w.size where
  func := by
    rw [hfunc]
    exact ⟨nofun, nofun⟩
  tree _ := hfunc
  chunk _ := hchunk
  root h := by
    rw [hfunc] at h
    rcases h with h | h <;> cases h
  sends _ _ r hr := (hbuf r hr).send
  recvs _ r hr _ := (hbuf r hr).recv

/-- **Tree AllReduce is correct for every machine layout and every schedule**, with the `int` cursors of
    the source, if it has fewer than `2 ^ 31` chunks: when all ranks are done, every receive buffer holds
    the reduction of all inputs. -/
theorem int_tree_allreduce_correct (hid : id < w.nChannels) (hN : 2 ≤ w.size)
    (hfunc : p.func = .allReduce) (htree : p.onTree = true) (hcount : 0 < p.elemCount)
    (hchunk : 1 ≤ p.chunkSize) (hchunks : p.elemCount ≤ (2 ^ 31 - 1) * p.chunkSize)
    (hint : p.dtype.isInt) (hbuf : ∀ r < w.size, p.Buffers r)
    (hrun : Run intSystem (Flow.any Link) (w.tasks id [p]) (.start m₀) ls c)
    (hdone : ∀ r < w.size, (c.node r).finished = 1) :
    ∀ r < w.size, ∃ m, (c.node r).mode = .fresh m ∧ ∀ i < p.elemCount,
      elemAt m p.dtype (p.recvBuf r) i = allreduceResult p.reduceOp w.size (p.inputs m₀) i := by
  have hv : ∀ q ∈ [p], q.Valid w.size := by
    intro q hq
    rw [List.mem_singleton.mp hq]
    exact tree_valid hfunc hchunk hbuf
  have hf : ∀ q ∈ [p], q.FitsInt w.size := by
    intro q hq
    rw [List.mem_singleton.mp hq]
    refine ⟨fun _ => hchunks, fun hring => ?_, fun hring => ?_⟩ <;> rw [htree] at hring <;> cases hring
  exact tree_allreduce_correct hid hN hfunc htree hcount hchunk hint hbuf ((lists_same hv hf).mp hrun)
    hdone

/-- A schedule in which the ranks take turns. -/
def splitSchedule : List (Nat × CollEvent) :=
  (List.replicate 20 [(0, .writable), (1, .readable), (2, .readable), (0, .readable),
    (1, .writable), (2, .writable)]).flatten

def splitEnd : Config Nat Link UInt8 RankState Mem :=
  (Config.start splitMem).follow channelSystem (fun _ => 3) (splitWorld.tasks 1 [splitAverage])
    splitSchedule

theorem splitRun : ∃ ls, Run channelSystem (Flow.any Link) (splitWorld.tasks 1 [splitAverage])
    (.start splitMem) ls splitEnd := by
  obtain ⟨ls, h⟩ := Config.follow_run channelSystem (fun _ => 3)
    (splitWorld.tasks 1 [splitAverage]) (.start splitMem) splitSchedule
  exact ⟨ls, h.any⟩

theorem int_tree_allreduce_correct_split : ∃ m, (splitEnd.node 2).mode = .fresh m ∧
    ∀ i < splitAverage.elemCount, elemAt m splitAverage.dtype (splitAverage.recvBuf 2) i =
      allreduceResult splitAverage.reduceOp splitWorld.size (splitAverage.inputs splitMem) i := by
  have hbuf : ∀ r < 3, splitAverage.Buffers r := fun _ _ =>
    ⟨Nat.succ_ne_zero 7, Nat.succ_ne_zero 7, Or.inl rfl⟩
  have hv : ∀ q ∈ [splitAverage], q.Valid splitWorld.size := by
    intro q hq
    rw [List.mem_singleton.mp hq]
    exact tree_valid rfl (by decide) hbuf
  have hf : ∀ q ∈ [splitAverage], q.FitsInt splitWorld.size := by
    intro q hq
    rw [List.mem_singleton.mp hq]
    exact ⟨fun _ => by decide, nofun, nofun⟩
  obtain ⟨ls, h⟩ := splitRun
  exact int_tree_allreduce_correct (w := splitWorld) (p := splitAverage) (by decide) (by decide) rfl rfl
    (by decide) (by decide) (by decide) trivial hbuf ((lists_same hv hf).mpr h) (by decide +kernel) 2
    (by decide)

/-! ## 2. Bytes outside the receive buffer -/

section Frames

variable {task : PlanTask} {T : Seat} {a : Nat}

/-- An address outside the receive buffer. -/
def Outside (task : PlanTask) (a : Nat) : Prop :=
  a < task.recvBuf ∨ task.recvBuf + task.elemCount * typeSize task ≤ a

/-- The bytes outside the receive buffer are those of `m`. -/
def untouched (task : PlanTask) (m : Mem) : Claim := fun _ _ _ bytes =>
  ∀ a, Outside task a → bytes (user a) = m a

theorem outside_part (ha : Outside task a) {k n : Nat} (hle : k + n ≤ task.elemCount * typeSize task) :
    ¬ (user a).inside ((user task.recvBuf).shift k) n := by
  rintro ⟨-, h1, h2⟩
  rw [Loc.shift_addr] at h1 h2
  have h1 : task.recvBuf + k ≤ a := h1
  have h2 : a < task.recvBuf + k + n := h2
  unfold Outside at ha
  omega

/-- A chunk lies in the buffer. -/
theorem chunk_within (hc : 1 ≤ task.chunkSize) {c : Nat} (h : c < chunkCount task) :
    chunkOffset task c + chunkBytes task c ≤ task.elemCount * typeSize task := by
  rw [← off_chunk hc h, ← off_succ, off_chunks]
  exact Nat.mul_le_mul_right _ (Nat.min_le_right ..)

theorem temp_not_inside (o n : Nat) : ¬ (user a).inside (temp o) n := fun h => by cases h.1

/-- **A tree AllReduce writes to its receive buffer and to `temp_buffer` only.** -/
theorem untouched_claimed (W : OnTree task T) (hpos : 0 < task.worldSize) (m : Mem) :
    Claimed task T (fun _ _ _ _ => True) (untouched task m) fun m' => ∀ a, Outside task a → m' a = m a where
  sends _ _ _ _ _ _ _ _ _ _ _ _ := trivial
  receives w i hi hw rc rp m' m'' q hd hlt hle hq _ hm a ha := by
    rw [hm, hd a ha]
    cases w with
    | up =>
      rw [target_up W hw]
      exact temp_not_inside _ _
    | down =>
      obtain rfl : i = T.kids := hw
      rw [target_down W hi, Loc.shift_shift]
      have hin := chunk_within W.chunk_pos hlt
      exact outside_part ha (by omega)
  completes w i hi hw rc rp s hd hlt _ a ha := by
    cases w with
    | up =>
      have hin := chunk_within W.chunk_pos hlt
      rw [settle, if_pos rfl, reduceChunk,
        RankState.performReduce_frame _ (Or.inl (by simp [temp, user])) (outside_part ha hin)]
      exact hd a ha
    | down => exact hd a ha
  turns rc rp s hd _ a ha := by
    unfold enterDown
    dsimp only
    split
    · exact (RankState.applyAverage_frame hpos
        (outside_part (k := 0) ha (Nat.le_of_eq (Nat.zero_add _)))).trans (hd a ha)
    · exact hd a ha
  ends _ _ _ hd _ := hd

theorem untouched_start (task : PlanTask) (T : Seat) (m : Mem) :
    untouched task m .up (fun _ => 0) (fun _ => 0) (treePrep task T m).byteAt := by
  intro a ha
  unfold treePrep
  dsimp only
  split
  · split
    · exact RankState.memcpy_frame (outside_part (k := 0) ha (Nat.le_of_eq (Nat.zero_add _)))
    · rfl
  · rfl

end Frames

/-- The memory of a rank before and after an operation, outside the receive buffer. -/
def frameAt (w : World H) (id : Nat) (p : Collective) (m₀ : Nat → Mem) (r : Nat) : Nat → Mem → Prop
  | 0, m => m = m₀ r
  | _ + 1, m => ∀ a, Outside (p.task w id r) a → m a = m₀ r a

/-- **A tree AllReduce changes no byte outside the receive buffers.** -/
theorem tree_allreduce_frame (hid : id < w.nChannels) (hN : 2 ≤ w.size) (htree : p.onTree = true)
    (hv : p.Valid w.size) (hcount : 0 < p.elemCount)
    (hrun : Run channelSystem F (w.tasks id [p]) (.start m₀) ls c) {r : Nat} (hr : r < w.size)
    (hdone : (c.node r).finished = 1) :
    ∃ m, (c.node r).mode = .fresh m ∧ ∀ a, Outside (p.task w id r) a → m a = m₀ r a := by
  have hcontract : ∀ q < w.size, Nonempty (Contract channelSystem (p.task w id q)
      (treeTerms (p.task w id q) (seatOf w id q) fun _ _ _ _ => True)
      (frameAt w id p m₀ q 0) (frameAt w id p m₀ q 1)) := by
    intro q hq
    have K := p.tree_task hid htree hv hcount hN hq
    have hpos : 0 < (p.task w id q).worldSize := by
      rw [Collective.task_worldSize]
      omega
    refine ⟨K.contract (untouched_claimed K.seat hpos (m₀ q)) fun m hm => ?_⟩
    obtain rfl : m = m₀ q := hm
    exact untouched_start _ _ _
  exact single_post (fun q r => treeTerms (q.task w id r) (seatOf w id r) fun _ _ _ _ => True)
    (frameAt w id p m₀) (tree_joined w id p fun _ _ _ => True) hcontract (fun _ => rfl) hrun hr hdone

/-! ## 3. More chunks than an `int` counts -/

/-- The operation without the chunks from number `2 ^ 31` on. -/
def trimmed (p : Collective) : Collective :=
  { p with elemCount := min p.elemCount (2 ^ 31 * p.chunkSize) }

theorem task_trimmed (w : World H) (id : Nat) (p : Collective) (r : Nat) :
    (trimmed p).task w id r = trim (p.task w id r) := by
  have htree : (trimmed p).onTree = p.onTree := rfl
  unfold Collective.task
  rw [htree]
  split
  · rfl
  · split <;> rfl

theorem tasks_trimmed (w : World H) (id : Nat) (p : Collective) :
    w.tasks id [trimmed p] = fun r => (w.tasks id [p] r).map trim := by
  funext r
  unfold World.tasks
  split
  · exact congrArg (· :: []) (task_trimmed w id p r)
  · rfl

/-- **On `int` cursors the ranks run the trimmed operation.** -/
theorem tree_images (id : Nat) (htree : p.onTree = true) (hc : ∀ r < w.size, Countable (p.task w id r)) :
    Images channelSystem intSystem trim clamp Counts (w.tasks id [p]) := by
  have htask : ∀ r, ∀ t ∈ w.tasks id [p] r, r < w.size ∧ t = p.task w id r := by
    intro r t ht
    unfold World.tasks at ht
    split at ht
    · exact ⟨by assumption, List.mem_singleton.mp ht⟩
    · exact absurd ht List.not_mem_nil
  have htopo : ∀ r, (p.task w id r).topology = some (.tree (w.tree r)) := Collective.task_topology_tree htree
  have htrim : ∀ r, (trim (p.task w id r)).topology = some (.tree (w.tree r)) := htopo
  refine ⟨fun r t ht m => ?_, fun r t ht e s hs => ?_, fun r t ht s _ => ?_, fun _ => rfl⟩
  · obtain ⟨hr, rfl⟩ := htask r t ht
    unfold intSystem channelSystem
    dsimp only
    rw [htrim, htopo]
    exact collectiveInit_image (hc r hr) _ _
  · obtain ⟨hr, rfl⟩ := htask r t ht
    unfold intSystem channelSystem
    dsimp only
    rw [htrim, htopo]
    exact collectiveStep_image (hc r hr) _ e hs
  · obtain ⟨hr, rfl⟩ := htask r t ht
    unfold intSystem channelSystem
    dsimp only
    rw [htrim, htopo]
    rfl

/-- An AllReduce in place that is not an average can be counted. -/
theorem countable_in_place {r : Nat} (hchunk : 1 ≤ p.chunkSize)
    (hcount : p.elemCount ≤ (2 ^ 64 - 2 ^ 31) * p.chunkSize) (hplace : p.sendBuf r = p.recvBuf r)
    (hop : p.reduceOp ≠ .avg) : Countable (p.task w id r) := by
  have hpos : 1 ≤ (p.task w id r).chunkSize := by rwa [Collective.task_chunkSize]
  refine ⟨hpos, Nat.le_of_not_lt fun hlt => ?_, Or.inr ⟨?_, ?_⟩⟩
  · have hlast := (lt_chunkCount hpos).mp hlt
    rw [Collective.task_chunkSize, Collective.task_elemCount] at hlast
    omega
  · rw [Collective.task_sendBuf, Collective.task_recvBuf, hplace]
  · rwa [Collective.task_reduceOp]

/-- **What becomes of chunks that no `int` counts**: in place and without an average, the ranks reduce the
    elements of the first `2 ^ 31` chunks, are done, and leave the others as they were. -/
theorem tree_int_runs (hid : id < w.nChannels) (hN : 2 ≤ w.size) (hfunc : p.func = .allReduce)
    (htree : p.onTree = true) (hpos : 0 < p.elemCount) (hchunk : 1 ≤ p.chunkSize)
    (hcount : p.elemCount ≤ (2 ^ 64 - 2 ^ 31) * p.chunkSize) (hint : p.dtype.isInt)
    (hbuf : ∀ r < w.size, p.Buffers r) (hplace : ∀ r < w.size, p.sendBuf r = p.recvBuf r)
    (hop : p.reduceOp ≠ .avg) (hrun : Run intSystem (Flow.any Link) (w.tasks id [p]) (.start m₀) ls c)
    (hdone : ∀ r < w.size, (c.node r).finished = 1) :
    ∀ r < w.size, ∃ m, (c.node r).mode = .fresh m ∧
      (∀ i < min p.elemCount (2 ^ 31 * p.chunkSize), elemAt m p.dtype (p.recvBuf r) i =
        allreduceResult p.reduceOp w.size (p.inputs m₀) i) ∧
      ∀ i, 2 ^ 31 * p.chunkSize ≤ i →
        elemAt m p.dtype (p.recvBuf r) i = elemAt (m₀ r) p.dtype (p.recvBuf r) i := by
  have H := tree_images id htree fun r hr => countable_in_place (w := w) hchunk hcount (hplace r hr) hop
  obtain ⟨d, hrun', rfl⟩ := hrun.preimage H (meets_start m₀)
  rw [← tasks_trimmed] at hrun'
  have hpos' : 0 < (trimmed p).elemCount := by
    have hmul : 1 ≤ 2 ^ 31 * p.chunkSize := by omega
    exact Nat.lt_min.mpr ⟨hpos, hmul⟩
  have hbuf' : ∀ r < w.size, (trimmed p).Buffers r := fun r hr =>
    ⟨(hbuf r hr).send, (hbuf r hr).recv, Or.inl (hplace r hr)⟩
  intro r hr
  obtain ⟨m, hm, hres⟩ := tree_allreduce_correct hid hN (p := trimmed p) hfunc htree hpos' hchunk hint
    hbuf' hrun' hdone r hr
  obtain ⟨m', hm', hframe⟩ := tree_allreduce_frame hid hN (p := trimmed p) htree
    (tree_valid hfunc hchunk hbuf') hpos' hrun' hr (hdone r hr)
  obtain rfl : m' = m := by
    rw [hm] at hm'
    exact (Mode.fresh.inj hm').symm
  refine ⟨m', congrArg (Mode.image clamp) hm, hres, fun i hi => ?_⟩
  unfold elemAt RankState.load
  refine congrArg _ (leNat_congr fun j _ => ?_)
  refine hframe _ (Or.inr ?_)
  rw [task_trimmed]
  change (p.task w id r).recvBuf + min (p.task w id r).elemCount (2 ^ 31 * (p.task w id r).chunkSize) *
    getDataTypeSize (p.task w id r).dtype ≤ p.recvBuf r + (i * getDataTypeSize p.dtype + j)
  rw [Collective.task_recvBuf, Collective.task_elemCount, Collective.task_chunkSize, Collective.task_dtype]
  have hle : min p.elemCount (2 ^ 31 * p.chunkSize) ≤ i := (Nat.min_le_right ..).trans hi
  have hmul := Nat.mul_le_mul_right (getDataTypeSize p.dtype) hle
  omega

end Ranks

/-- Two ranks on one machine. -/
def hugeWorld : World Nat := ⟨2, fun _ => 0, 1⟩

/-- The sum of `2 ^ 31 + 1` elements in chunks of one, in place. -/
def hugeSum : Collective where
  func := .allReduce
  onTree := true
  elemCount := 2 ^ 31 + 1
  chunkSize := 1
  dtype := .int32
  sendBuf _ := 8
  recvBuf _ := 8

/-- **The last element is not reduced.** The two ranks can be done with it, and then it is as it was. -/
theorem tree_allreduce_past_int : ∃ ls c,
    Run intSystem (Flow.any Link) (hugeWorld.tasks 0 [hugeSum]) (.start fun _ _ => 1) ls c ∧
    (∀ r < 2, (c.node r).finished = 1) ∧
    ∀ r < 2, ∃ m, (c.node r).mode = .fresh m ∧
      elemAt m hugeSum.dtype (hugeSum.recvBuf r) (2 ^ 31) ≠
        allreduceResult hugeSum.reduceOp 2 (hugeSum.inputs fun _ _ => 1) (2 ^ 31) := by
  have hbuf : ∀ r < 2, hugeSum.Buffers r := fun _ _ =>
    ⟨Nat.succ_ne_zero 7, Nat.succ_ne_zero 7, Or.inl rfl⟩
  have hv : ∀ q ∈ [trimmed hugeSum], q.Valid hugeWorld.size := by
    intro q hq
    rw [List.mem_singleton.mp hq]
    exact tree_valid rfl (by decide) fun _ _ => ⟨Nat.succ_ne_zero 7, Nat.succ_ne_zero 7, Or.inl rfl⟩
  have H := tree_images (w := hugeWorld) (p := hugeSum) 0 rfl fun r _ =>
    countable_in_place (by decide) (by decide) rfl (by decide)
  -- The trimmed sum runs to its end on cursors without a bound; its image is a run on `int`s.
  have hstart : Run channelSystem (Flow.full fun _ => 1) (hugeWorld.tasks 0 [trimmed hugeSum])
      (.start fun _ _ => 1) [] (.start fun _ _ => 1) := .nil
  obtain ⟨ls, d, hrun, hdone⟩ := list_completes (by decide) (by decide) hv (fun _ => by decide) hstart
  rw [tasks_trimmed] at hrun
  have himage := (hrun.any.image H (meets_start _)).1
  refine ⟨ls, d.image clamp, himage, hdone, fun r hr => ?_⟩
  obtain ⟨m, hm, -, hrest⟩ := tree_int_runs (w := hugeWorld) (p := hugeSum) (by decide) (by decide) rfl rfl
    (by decide) (by decide) (by decide) trivial hbuf (fun _ _ => rfl) (by decide) himage hdone r hr
  refine ⟨m, hm, ?_⟩
  rw [hrest (2 ^ 31) (by decide)]
  change elemAt (fun _ => 1) .int32 8 (2 ^ 31) ≠
    allreduceResult .sum 2 (fun _ i => elemAt (fun _ => 1) .int32 8 i) (2 ^ 31)
  decide

end OriginCCL.TopologyTree
