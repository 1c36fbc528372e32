/-
  File:      OriginCCL/Plan/Accesses.lean
  Subject:   THE DATA A SLICE TOUCHES.

  * `within_sendBuf`, `within_recvBuf` -- a slice's own parts lie in the buffers of its task.
  * `sliced_bindTo`, `scratch_lt` -- what the planner promises of a slice, and the size of its
    `temp_buffer`.
  * `Contained` -- what the calls of a slice have touched.
  * `accesses_inside` -- **every range that a slice touches lies inside its buffers**.
-/
import OriginCCL.Plan.Roles
import OriginCCL.Topology.IntCalls
import OriginCCL.Topology.TreeRanges

namespace OriginCCL.Planner

open Base Net

/-! ## 1. The parts of a slice -/

section Parts

variable {comm : CommunicatorState} {t : CollTask} {k c : Nat} {task : PlanTask}

/-- **What the planner says of slice `k`** of a task, on whichever channel it runs. -/
structure SliceOf (comm : CommunicatorState) (t : CollTask) (k : Nat) (task : PlanTask) : Prop where
  func : task.func = t.func
  sendBuf : task.sendBuf = (slice comm t k).sendBuf
  recvBuf : task.recvBuf = (slice comm t k).recvBuf
  elemCount : task.elemCount = (slice comm t k).elemCount
  chunkSize : task.chunkSize = (slice comm t k).chunkSize
  rankStride : task.rankStride = t.count
  dtype : task.dtype = t.dtype
  root : task.root = t.root
  rank : task.rank = comm.rank
  worldSize : task.worldSize = comm.worldSize

theorem sliceOf_bindTo (comm : CommunicatorState) (t : CollTask) (k c : Nat) :
    SliceOf comm t k (bindTo comm c (slice comm t k)) := by
  obtain ⟨topology, htop, -, hkind⟩ := slice_topology comm t k
  obtain ⟨sends, recvs, e⟩ := bindTask_eq hkind (comm.channels.getD c {})
  rw [bindTo, e _ _ htop]
  exact ⟨rfl, rfl, rfl, rfl, rfl, rfl, rfl, rfl, rfl, rfl⟩

/-- The elements of a slice in a block of its task. -/
theorem slice_fits (h : Valid t comm.rank comm.worldSize) (hint : comm.worldSize < 2 ^ 31)
    (hk : k < (slices comm t).length) :
    off (elems (slices comm t)) k + (slice comm t k).elemCount ≤ t.count := by
  have hn : 1 ≤ max comm.getNChannels 1 := Nat.le_max_right ..
  have hk' := hk
  rw [length_slices] at hk'
  have hle := (sliceOffset_eq h hint hn hk').2
  rw [off_succ] at hle
  rw [off_elems (Nat.le_of_lt hk)]
  exact hle

/-- A block of a slice lies in the block of its task. -/
theorem part_within {buf o n size count blocks b : Nat} (hb : b < blocks) (ho : o + n ≤ count) :
    Within (user (buf + o * size + b * count * size), n * size) (user buf, blocks * (count * size)) := by
  refine Or.inr ⟨rfl, ?_, ?_⟩
  · change buf ≤ buf + o * size + b * count * size
    omega
  · have hblock : b * count + (o + n) ≤ blocks * count := by
      have hmul := Nat.mul_le_mul_right count (Nat.succ_le_of_lt hb)
      rw [Nat.succ_mul] at hmul
      omega
    have hbytes := Nat.mul_le_mul_right size hblock
    rw [Nat.add_mul, Nat.add_mul, Nat.mul_assoc blocks] at hbytes
    change buf + o * size + b * count * size + n * size ≤ buf + blocks * (count * size)
    omega

/-- **A slice's part of a buffer** lies in the buffer of the task. -/
theorem blockPart_within (h : Valid t comm.rank comm.worldSize) (hint : comm.worldSize < 2 ^ 31)
    (hk : k < (slices comm t).length) (S : SliceOf comm t k task) {buf part b blocks : Nat} (hb : b < blocks)
    (hpart : part = shiftBuf buf (sliceOffset comm.worldSize (max comm.getNChannels 1) t k)
      (getDataTypeSize t.dtype)) (hne : t.count ≠ 0 → buf ≠ 0) :
    Within (blockPart task part b) (user buf, blocks * (t.count * getDataTypeSize t.dtype)) := by
  have hfits := slice_fits h hint hk
  rw [blockPart, S.rankStride, S.dtype, S.elemCount]
  by_cases h0 : t.count = 0
  · refine Or.inl ?_
    change (slice comm t k).elemCount * _ = 0
    rw [show (slice comm t k).elemCount = 0 by omega, Nat.zero_mul]
  · rw [hpart, shiftBuf_eq h hint hk, if_neg (hne h0)]
    exact part_within hb hfits

/-- **The parts of `send_buf`.** -/
theorem within_sendBuf (h : Valid t comm.rank comm.worldSize) (hint : comm.worldSize < 2 ^ 31)
    (hk : k < (slices comm t).length) (S : SliceOf comm t k task) : ∀ x ∈ sendParts task,
      Within x (user t.sendBuf, sendBlocks task * (t.count * getDataTypeSize t.dtype)) := by
  intro x hx
  obtain ⟨b, hb, rfl⟩ := List.mem_map.mp hx
  rw [List.mem_range] at hb
  refine blockPart_within h hint hk S hb S.sendBuf fun h0 => h.send h0 fun hf => ?_
  unfold sendBlocks at hb
  rw [S.func, hf] at hb
  exact absurd hb (Nat.not_lt_zero _)

/-- **The parts of `recv_buf`.** -/
theorem within_recvBuf (h : Valid t comm.rank comm.worldSize) (hint : comm.worldSize < 2 ^ 31)
    (hk : k < (slices comm t).length) (S : SliceOf comm t k task) : ∀ x ∈ recvParts task,
      Within x (user t.recvBuf, recvBlocks task * (t.count * getDataTypeSize t.dtype)) := by
  intro x hx
  obtain ⟨b, hb, rfl⟩ := List.mem_map.mp hx
  rw [List.mem_range] at hb
  refine blockPart_within h hint hk S hb S.recvBuf fun h0 => h.recv h0 fun hf => ?_
  by_contra hroot
  unfold recvBlocks at hb
  rw [S.func, hf] at hb
  dsimp only at hb
  rw [S.rank, S.root, if_neg hroot] at hb
  exact absurd hb (Nat.not_lt_zero _)

end Parts

/-! ## 2. What the state machines rely on -/

section Slices

variable {comm : CommunicatorState} {t : CollTask} {k : Nat} {task : PlanTask}

/-- The bytes of a chunk of AllReduce. -/
theorem chunk_bytes (comm : CommunicatorState) (k : Nat) (hf : t.func = .allReduce) :
    (slice comm t k).chunkSize * getDataTypeSize t.dtype = kChunkBytes := by
  have hchunk : (slice comm t k).chunkSize = kChunkBytes / getDataTypeSize t.dtype := by
    change sliceChunk _ _ _ = _
    rw [sliceChunk, if_pos (by rw [hf]; simp)]
  rw [hchunk, Nat.div_mul_cancel (typeSize_dvd _)]

/-- **A slice is what a ring task relies on.** -/
theorem sliced_sliceOf {N r : Nat} (h : Valid t comm.rank comm.worldSize) (hint : comm.worldSize < 2 ^ 31)
    (hk : k < (slices comm t).length) (S : SliceOf comm t k task) (hN : 2 ≤ N)
    (hworld : comm.worldSize = N) (hrank : comm.rank = r) (hr : r < N) : TopologyRing.Sliced task N r := by
  refine ⟨⟨S.worldSize.trans hworld, hN, S.rank.trans hrank, hr, fun hf => ?_⟩, ?_⟩
  · have hbytes := chunk_bytes comm k (t := t) (S.func.symm.trans hf)
    rw [S.chunkSize]
    refine Nat.pos_of_ne_zero fun h0 => ?_
    rw [h0, Nat.zero_mul] at hbytes
    exact absurd hbytes (by decide)
  · have hfits := slice_fits h hint hk
    rw [S.elemCount, S.rankStride]
    omega

/-- **The `temp_buffer` of a ring task** has fewer than `2^64` bytes. -/
theorem ring_scratch_lt (S : SliceOf comm t k task)
    (hsize : 2 * (task.elemCount * getDataTypeSize task.dtype) < 2 ^ 64) :
    TopologyRing.scratchBytes task < 2 ^ 64 := by
  unfold TopologyRing.scratchBytes
  split
  · decide
  · cases hf : task.func with
    | allReduce =>
      have hbytes := chunk_bytes comm k (t := t) (S.func.symm.trans hf)
      dsimp only
      rw [S.chunkSize, S.dtype, hbytes]
      decide
    | reduce => exact hsize
    | reduceScatter => exact Nat.lt_of_le_of_lt (Nat.le_mul_of_pos_left _ (by decide)) hsize
    | broadcast | allGather | send | recv => exact Nat.two_pow_pos 64

/-- **So has that of a leader** of fewer than `2^31` connections. -/
theorem tree_scratch_lt (S : SliceOf comm t k task) (hf : t.func = .allReduce) {roles : List Int}
    (hroles : roles.length < 2 ^ 31) (isLeader : Bool) :
    TopologyTree.scratchBytes task roles isLeader < 2 ^ 64 := by
  unfold TopologyTree.scratchBytes
  split
  · decide
  · split
    · have hcount := List.countP_le_length (p := TopologyTree.isInputRole) (l := roles)
      have hmul := Nat.mul_le_mul_right kChunkBytes (Nat.le_trans hcount (Nat.le_of_lt hroles))
      rw [Nat.mul_assoc, TopologyTree.typeSize, S.chunkSize, S.dtype, chunk_bytes comm k hf]
      exact Nat.lt_of_le_of_lt hmul (by decide)
    · decide

/-- **The chunks of AllReduce** fit an `int` for slices of less than 64 TiB. -/
theorem allreduce_index_lt (S : SliceOf comm t k task) (hf : t.func = .allReduce)
    (hpos : 0 < comm.worldSize) (hsmall : (slice comm t k).elemCount * getDataTypeSize t.dtype +
      comm.worldSize.toNat * kChunkBytes ≤ 2 ^ 46) : TopologyRing.indexBound task ≤ 2 ^ 31 := by
  have hbytes := chunk_bytes comm k hf
  obtain ⟨N, hN⟩ := Int.eq_ofNat_of_zero_le (Int.le_of_lt hpos)
  rw [TopologyRing.indexBound, S.func, hf]
  dsimp only
  rw [TopologyRing.allreduceUnits, S.chunkSize, S.elemCount, S.worldSize, hN]
  rw [hN] at hsmall hpos
  simp only [Int.toNat_natCast] at hsmall ⊢
  generalize (slice comm t k).elemCount = n at *
  generalize (slice comm t k).chunkSize = m at *
  generalize getDataTypeSize t.dtype = size at *
  split
  · simp
  · rename_i hunit
    have hdiv := Nat.div_mul_le_self (n + m * N - 1) (m * N)
    have hle : (n + m * N - 1) / (m * N) * (m * N) * size ≤ (n + m * N) * size :=
      Nat.mul_le_mul_right _ (by omega)
    have hle2 : (n + m * N - 1) / (m * N) * N * kChunkBytes ≤ 2 ^ 46 := by
      calc (n + m * N - 1) / (m * N) * N * kChunkBytes
          = (n + m * N - 1) / (m * N) * (m * N) * size := by rw [← hbytes]; ring
        _ ≤ (n + m * N) * size := hle
        _ = n * size + N * kChunkBytes := by rw [← hbytes]; ring
        _ ≤ 2 ^ 46 := hsmall
    have hfin : (n + m * N - 1) / (m * N) * N ≤ 2 ^ 31 := by
      unfold kChunkBytes at hle2
      omega
    exact_mod_cast hfin

end Slices

/-! ## 3. The calls of a slice -/

/-- **What the calls of a slice have touched.** The log of a task holds every range that was passed to
    `TrySend`, `TryRecv`, `memcpy`, `PerformReduce` or `ApplyAverage` and every cursor at which pointers
    were computed. A call in which a transfer fails touches what it touches when that transfer moves
    nothing. -/
structure Contained (t : CollTask) (task : PlanTask) (x : Traced) : Prop where
  /-- Every range lies in the slice's own parts or in `temp_buffer`. -/
  inside : ∀ a ∈ x.2, a.Inside task x.1.op.tempBuffer.size
  /-- The slice's own parts lie in the buffers of its task. -/
  sends : ∀ y ∈ sendParts task,
    Within y (user t.sendBuf, sendBlocks task * (t.count * getDataTypeSize t.dtype))
  recvs : ∀ y ∈ recvParts task,
    Within y (user t.recvBuf, recvBlocks task * (t.count * getDataTypeSize t.dtype))
  /-- `temp_buffer` has a size. -/
  temp : x.1.op.tempBuffer.size < 2 ^ 64
  /-- What is sent and what is received at the same time is apart. -/
  apart : Separated x.2
  /-- The divisors of the code. -/
  divisors : 0 < task.worldSize ∧ 0 < task.worldSize - 1 ∧ (task.func = .allReduce → 0 < task.chunkSize)
  /-- No index is negative or too large, -/
  cursors : ∀ phase step, Effect.cursor phase step ∈ x.2 → TopologyRing.CursorFits task phase step
  /-- and an `int` holds it. -/
  int : TopologyRing.indexBound task ≤ 2 ^ 31

section Accesses

variable {H : Type} [DecidableEq H] {hosts : Nat → H} {worldSize rank : Nat} {nChannels : Int}
  {options : InitOptions} {comm : CommunicatorState} {t : CollTask} {k c : Nat}

/-- A clean log of a slice. -/
theorem contained_of_clean {task : PlanTask} {x : Traced} {scratch : Nat} {fit : Int → Int → Prop}
    (h : Valid t comm.rank comm.worldSize) (hint : comm.worldSize < 2 ^ 31)
    (hk : k < (slices comm t).length) (S : SliceOf comm t k task) {N r : Nat}
    (R : TopologyRing.Sliced task N r) (hclean : Clean task fit scratch x.2)
    (htemp : x.1.op.tempBuffer.size = scratch) (hlt : scratch < 2 ^ 64)
    (hfit : ∀ phase step, fit phase step → TopologyRing.CursorFits task phase step)
    (hbound : TopologyRing.indexBound task ≤ 2 ^ 31) : Contained t task x := by
  refine ⟨fun a ha => ?_, within_sendBuf h hint hk S, within_recvBuf h hint hk S, ?_, hclean.separated,
    ⟨R.divisors.1, R.divisors.2, R.chunk⟩, fun phase step ha => hfit _ _ (hclean.inside _ ha).2, hbound⟩
  · rw [htemp]
    exact (hclean.inside a ha).1
  · rw [htemp]
    exact hlt

/-- The calls of a ring slice. -/
theorem ring_contained {R : TopologyRing} {task : PlanTask} {N r : Nat}
    (S : TopologyRing.Sliced task N r) {o : TopologyRing.RingOp} (hop : TopologyRing.ringOp task.func = some o)
    {t₀ x : Traced} (h₀ : t₀.2 = []) (hx : TaskReached (.ring R) task t₀ x) :
    Clean task (TopologyRing.CursorFits task) (TopologyRing.scratchBytes task) x.2 ∧
      x.1.op.tempBuffer.size = TopologyRing.scratchBytes task := by
  obtain ⟨valid, G, St⟩ := TopologyRing.ringOp_guarded S hop
  have hinit : ∀ t : Traced, Clean task (TopologyRing.CursorFits task) (TopologyRing.scratchBytes task) t.2 →
      ((Topology.ring R).tracedInit task t).Ensures
        (o.Guard task valid (TopologyRing.CursorFits task) (TopologyRing.scratchBytes task)) := by
    intro t ht
    change (TopologyRing.Traced.collectiveInit task t).Ensures _
    unfold TopologyRing.Traced.collectiveInit
    rw [hop]
    exact TopologyRing.init_guard G St t ht
  have hstep : ∀ event, ∀ t : Traced,
      o.Guard task valid (TopologyRing.CursorFits task) (TopologyRing.scratchBytes task) t ∨
        (t.1.op.phase = TopologyRing.kPhaseUnstarted ∧
          Clean task (TopologyRing.CursorFits task) (TopologyRing.scratchBytes task) t.2) →
      ((Topology.ring R).tracedStep task event t).Ensures
        (o.Guard task valid (TopologyRing.CursorFits task) (TopologyRing.scratchBytes task)) := by
    intro event t ht
    change (TopologyRing.Traced.collectiveStep task event t).Ensures _
    unfold TopologyRing.Traced.collectiveStep
    rw [hop]
    exact TopologyRing.step_guard G St event t ht
  have hclean : Clean task (TopologyRing.CursorFits task) (TopologyRing.scratchBytes task) t₀.2 := by
    rw [h₀]
    exact clean_nil
  have hguard := hx.ensures (hinit t₀ hclean)
    (fun _ hfresh event => hstep event t₀ (Or.inr ⟨by rw [hfresh]; rfl, hclean⟩))
    (fun t ht => hinit t ht.clean) fun event t ht => hstep event t (Or.inl ht)
  exact ⟨hguard.clean, hguard.temp⟩

/-- The calls of a tree slice. -/
theorem tree_contained {T : TopologyTree} {task : PlanTask} (hf : task.func = .allReduce)
    (hroles : TopologyTree.RoleTable T.isLeader (T.rolesOf task)) (htwo : 2 ≤ task.worldSize)
    (hcon : TopologyTree.Connected task (T.rolesOf task)) {t₀ x : Traced} (h₀ : t₀.2 = [])
    (hx : TaskReached (.tree T) task t₀ x) :
    Clean task (TopologyRing.CursorFits task) (TopologyTree.scratchBytes task (T.rolesOf task) T.isLeader)
        x.2 ∧
      x.1.op.tempBuffer.size = TopologyTree.scratchBytes task (T.rolesOf task) T.isLeader := by
  have hclean : Clean task (TopologyRing.CursorFits task)
      (TopologyTree.scratchBytes task (T.rolesOf task) T.isLeader) t₀.2 := by
    rw [h₀]
    exact clean_nil
  have hsafe := hx.ensures (TopologyTree.init_ranges T hroles htwo hcon t₀ hclean)
    (fun _ hfresh event => TopologyTree.step_ranges T hf hroles htwo hcon event t₀
      (Or.inr ⟨by rw [hfresh]; rfl, hclean⟩))
    (fun t ht => TopologyTree.init_ranges T hroles htwo hcon t ht.1)
    fun event t ht => TopologyTree.step_ranges T hf hroles htwo hcon event t (Or.inl ht)
  exact ⟨hsafe.1, hsafe.2.1⟩

/-- The role table of a slice on a channel. -/
theorem rolesOf_bindTo (hcomm : SameShape (Communicator.init hosts worldSize rank nChannels options) comm)
    (hN : 2 ≤ worldSize) (hr : rank < worldSize) (hc : c < comm.getNChannels) (k : Nat) :
    TopologyTree.RoleTable comm.treeTopology.isLeader
        (comm.treeTopology.rolesOf (bindTo comm c (slice comm t k))) ∧
      (comm.treeTopology.rolesOf (bindTo comm c (slice comm t k))).length ≤ worldSize := by
  obtain ⟨hinit, hcount⟩ := init_ready hosts worldSize rank nChannels options
  have hready := hcomm.ready hinit
  have hcc : c < channelCount nChannels := by
    rw [← hcount, ← hcomm.getNChannels]
    exact hc
  have htopo := hcomm.tree.trans (init_multi hosts rank nChannels options hN).1
  have hchannel : (bindTo comm c (slice comm t k)).channelId = c := by
    obtain ⟨topology, htop, -, hkind⟩ := slice_topology comm t k
    obtain ⟨sends, recvs, e⟩ := bindTask_eq hkind (comm.channels.getD c {})
    have hc' : c < comm.channels.length := hc
    rw [bindTo, e _ _ htop]
    change (comm.channels.getD c {}).id = c
    rw [List.getD_eq_getElem _ _ hc']
    exact hready.ids c _ (List.getElem?_eq_getElem hc')
  have hroles : comm.treeTopology.rolesOf (bindTo comm c (slice comm t k)) =
      TopologyTree.treeRoles ((World.mk worldSize hosts (channelCount nChannels)).comm rank)
        (TopologyTree.treeOf ((World.mk worldSize hosts (channelCount nChannels)).comm rank) c) := by
    rw [TopologyTree.rolesOf, hchannel, Int.toNat_natCast, htopo]
    exact TopologyTree.channelRoles_get rank hcc
  rw [hroles, htopo]
  refine ⟨TopologyTree.roleTable_treeRoles _ _, ?_⟩
  have hpeers : TopologyTree.peers (TopologyTree.treeOf
      ((World.mk worldSize hosts (channelCount nChannels)).comm rank) c) =
        (TopologyTree.nbrsOf (World.mk worldSize hosts (channelCount nChannels)) c rank).map Nat.cast :=
    TopologyTree.peers_treeOf hr
  rw [TopologyTree.length_treeRoles, hpeers, List.length_map]
  have hsub : TopologyTree.nbrsOf (World.mk worldSize hosts (channelCount nChannels)) c rank ⊆
      List.range worldSize := fun q hq => List.mem_range.mpr (TopologyTree.nbrsOf_lt hr hq).1
  have hle := (List.subperm_of_subset (TopologyTree.nbrsOf_nodup hr) hsub).length_le
  rwa [List.length_range] at hle

/-- The indices of a slice fit an `int`. -/
theorem index_bound {task : PlanTask} (S : SliceOf comm t k task) (hworld : comm.worldSize = worldSize)
    (hpos : 0 < worldSize) (hint : worldSize < 2 ^ 31) (hbytes : t.func = .allReduce →
      (slice comm t k).elemCount * getDataTypeSize t.dtype + worldSize * kChunkBytes ≤ 2 ^ 46) :
    TopologyRing.indexBound task ≤ 2 ^ 31 := by
  by_cases hf : t.func = .allReduce
  · refine allreduce_index_lt S hf (by omega) ?_
    rw [hworld, Int.toNat_natCast]
    exact hbytes hf
  · have hbound : TopologyRing.indexBound task = worldSize := by
      unfold TopologyRing.indexBound
      rw [S.func, S.worldSize, hworld]
      cases hfunc : t.func with
      | allReduce => exact absurd hfunc hf
      | broadcast | reduce | allGather | reduceScatter | send | recv => rfl
    rw [hbound]
    exact_mod_cast Nat.le_of_lt hint

/-- The chunks of a slice on the tree. -/
theorem tree_chunks_lt {task : PlanTask} (S : SliceOf comm t k task) (hf : t.func = .allReduce)
    (hpos : 0 < worldSize) (hbytes : (slice comm t k).elemCount * getDataTypeSize t.dtype +
      worldSize * kChunkBytes ≤ 2 ^ 46) :
    1 ≤ task.chunkSize ∧ TopologyTree.chunkCount task < 2 ^ 31 := by
  have hbytes' := chunk_bytes comm k hf
  have hchunk : 1 ≤ task.chunkSize := by
    rw [S.chunkSize]
    refine Nat.pos_of_ne_zero fun hz => ?_
    rw [hz, Nat.zero_mul] at hbytes'
    cases hbytes'
  refine ⟨hchunk, Nat.lt_of_not_le fun hge => ?_⟩
  have hlast := (TopologyTree.lt_chunkCount hchunk).mp (show 2 ^ 31 - 1 < _ by omega)
  rw [S.chunkSize, S.elemCount] at hlast
  have hmul := Nat.mul_lt_mul_of_pos_right hlast (getDataTypeSize_pos t.dtype)
  rw [Nat.mul_assoc, hbytes'] at hmul
  have hle : kChunkBytes ≤ worldSize * kChunkBytes := Nat.le_mul_of_pos_left _ hpos
  unfold kChunkBytes at hmul hle hbytes
  omega

/-- **What a slice touches lies inside its buffers**, in every state its calls reach on a communicator that
    `Init` has set up, on whichever channel and at whichever rank, if an `int` holds its indices; and the
    states that calls on `int`s reach are among these. -/
theorem accesses_inside (hcomm : SameShape (Communicator.init hosts worldSize rank nChannels options) comm)
    (hN : 2 ≤ worldSize) (hranks : 3 * worldSize ≤ 2 ^ 31 + 1) (hr : rank < worldSize)
    (hv : validateCollectiveTask t comm.rank comm.worldSize = true) (hk : k < (slices comm t).length)
    (hc : c < comm.getNChannels)
    (hsize : 2 * ((slice comm t k).elemCount * getDataTypeSize t.dtype) < 2 ^ 64)
    (hbytes : t.func = .allReduce →
      (slice comm t k).elemCount * getDataTypeSize t.dtype + worldSize * kChunkBytes ≤ 2 ^ 46)
    {topo : Topology} (htopo : (slice comm t k).topology = some topo) {t₀ : Traced} (h₀ : t₀.2 = []) :
    (∀ x, TaskReached topo (bindTo comm c (slice comm t k)) t₀ x →
      Contained t (bindTo comm c (slice comm t k)) x) ∧
      ∀ s, topo.IntReached (bindTo comm c (slice comm t k)) t₀.1 s →
        ∃ x, TaskReached topo (bindTo comm c (slice comm t k)) t₀ x ∧ x.1 = s := by
  have h := valid_of_validate hv
  have S := sliceOf_bindTo comm t k c
  have hint : worldSize < 2 ^ 31 := by omega
  have hworld : comm.worldSize = worldSize := hcomm.worldSize.trans init_sizes.2
  have hint' : comm.worldSize < 2 ^ 31 := by rw [hworld]; exact_mod_cast hint
  have R := sliced_sliceOf h hint' hk S hN hworld (hcomm.rank.trans init_sizes.1) hr
  have hbound := index_bound S hworld (by omega) hint hbytes
  have hsize' : 2 * ((bindTo comm c (slice comm t k)).elemCount *
      getDataTypeSize (bindTo comm c (slice comm t k)).dtype) < 2 ^ 64 := by
    rw [S.elemCount, S.dtype]
    exact hsize
  have htopo : some (if useTree t then Topology.tree comm.treeTopology else .ring comm.ringTopology) =
    some topo := htopo
  cases htree : useTree t with
  | false =>
    rw [htree] at htopo
    obtain rfl := Option.some.inj htopo
    have hop : ∃ o, TopologyRing.ringOp (bindTo comm c (slice comm t k)).func = some o := by
      rw [S.func]
      have hcoll := h.collective
      cases hf : t.func with
      | allReduce | broadcast | reduce | allGather | reduceScatter => exact ⟨_, rfl⟩
      | send | recv =>
        rw [hf] at hcoll
        cases hcoll
    obtain ⟨o, hop⟩ := hop
    refine ⟨fun x hx => ?_, fun s hs => ?_⟩
    · obtain ⟨hclean, htemp⟩ := ring_contained R hop h₀ hx
      exact contained_of_clean h hint' hk S R hclean htemp (ring_scratch_lt S hsize') (fun _ _ hfit => hfit)
        hbound
    · obtain ⟨x, hx, he, -⟩ := hs.traced (ring_sameInts _ R.toRanked ⟨hranks, hbound⟩)
      exact ⟨x, hx, he⟩
  | true =>
    rw [htree] at htopo
    obtain rfl := Option.some.inj htopo
    have hf : t.func = .allReduce := by
      unfold useTree at htree
      rw [Bool.and_eq_true, beq_iff_eq] at htree
      exact htree.1
    have table := roleTable_bindTo hcomm hN hr hc htree k
    have htwo : 2 ≤ (bindTo comm c (slice comm t k)).worldSize := by
      rw [S.worldSize, hworld]
      exact_mod_cast hN
    obtain ⟨hroles, hlen⟩ := rolesOf_bindTo hcomm hN hr hc (t := t) k
    refine ⟨fun x hx => ?_, fun s hs => ?_⟩
    · obtain ⟨hclean, htemp⟩ := tree_contained (S.func.trans hf)
        hroles htwo ⟨table.sends hN, table.recvs hN⟩ h₀ hx
      exact contained_of_clean h hint' hk S R hclean htemp
        (tree_scratch_lt S hf (Nat.lt_of_le_of_lt hlen hint) _) (fun _ _ hfit => hfit) hbound
    · obtain ⟨hpos, hlt⟩ := tree_chunks_lt S hf (by omega) (hbytes hf)
      obtain ⟨x, hx, he, -⟩ := hs.traced (tree_sameInts _ hpos hlt)
      exact ⟨x, hx, he⟩

end Accesses

/-- A small AllReduce after a first call in which no byte moves. -/
def smallState : Except Fault Traced :=
  ((Topology.tree twoChannels.treeTopology).tracedInit
    (bindTo twoChannels 0 (slice twoChannels smallReduce 0)) (freshState fun _ => 0, [])).unmoved

theorem accesses_inside_small : ∃ x, smallState = .ok x ∧
    Contained smallReduce (bindTo twoChannels 0 (slice twoChannels smallReduce 0)) x := by
  cases h : smallState with
  | error f =>
    have hok : smallState.isOk = true := by decide
    rw [h] at hok
    cases hok
  | ok x =>
    have hends := Prog.ends_unmoved ((Topology.tree twoChannels.treeTopology).tracedInit
      (bindTo twoChannels 0 (slice twoChannels smallReduce 0)) (freshState fun _ => 0, []))
    have hreached : TaskReached (.tree twoChannels.treeTopology) _ _ x := .init x (by rw [← h]; exact hends)
    have htopo : (slice twoChannels smallReduce 0).topology = some (.tree twoChannels.treeTopology) := by
      change some (if useTree smallReduce then _ else _) = _
      rw [show useTree smallReduce = true by decide, if_pos rfl]
    exact ⟨x, rfl, (accesses_inside (SameShape.refl twoChannels) (by decide) (by decide) (by decide)
      (by decide) (by decide) (by decide) (by decide) (by decide) htopo rfl).1 x hreached⟩

end OriginCCL.Planner
