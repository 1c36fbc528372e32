/-
  File:      OriginCCL/Plan/CollectiveRuns.lean
  Subject:   THE PLANS OF ALL RANKS ARE ONE LIST OF OPERATIONS on every channel.

  All ranks call the same collectives, each with its own buffers. The planner of every rank cuts them into
  slices on its own; on a channel the slices of all ranks fit together to operations of the whole world.

  * `GroupOp.call` -- the task of a rank; `GroupOp.slice` -- a slice as an operation of all ranks.
  * `bindTo_slice` -- **a planned slice is the rank's task of that operation**.
  * `queues_agree` -- **the queues of all ranks are one list of operations** on every channel.
  * `plans_complete`, `plans_results` -- **what the ranks have planned runs to its end, and every slice
    has its result**.
-/
import OriginCCL.Plan.Agreement
import OriginCCL.Plan.P2pQueues
import OriginCCL.Topology.TaskListResults
import OriginCCL.Topology.Traffic

namespace OriginCCL

open Net Base Planner

/-! ## 1. Collectives of all ranks -/

/-- A collective that all ranks call, with the buffers of every rank. -/
structure GroupOp where
  func : CollFunc
  count : Nat
  dtype : DataType
  op : ReduceOp := .sum
  root : Int := 0
  sendBuf : Nat → Nat
  recvBuf : Nat → Nat

namespace GroupOp

/-- The task that rank `r` submits. -/
def call (o : GroupOp) (r : Nat) : CollTask where
  func := o.func
  sendBuf := o.sendBuf r
  recvBuf := o.recvBuf r
  count := o.count
  dtype := o.dtype
  op := o.op
  root := o.root

/-- Slice `c` of the collective over `n` channels, as an operation of all ranks. -/
def slice (o : GroupOp) (N n c : Nat) : Collective where
  func := o.func
  onTree := useTree (o.call 0)
  elemCount := sliceElems N n (o.call 0) c
  chunkSize := sliceChunk N (o.call 0) (sliceElems N n (o.call 0) c)
  rankStride := o.count
  dtype := o.dtype
  reduceOp := o.op
  root := o.root
  sendBuf r := shiftBuf (o.sendBuf r) (sliceOffset N n (o.call 0) c) (getDataTypeSize o.dtype)
  recvBuf r := shiftBuf (o.recvBuf r) (sliceOffset N n (o.call 0) c) (getDataTypeSize o.dtype)

/-- The collective as one operation, not cut. -/
def whole (o : GroupOp) : Collective where
  func := o.func
  elemCount := o.count
  rankStride := o.count
  dtype := o.dtype
  reduceOp := o.op
  root := o.root
  sendBuf := o.sendBuf
  recvBuf := o.recvBuf

/-- The slices of the collectives on channel `c`. -/
def onChannel (N n : Nat) (ops : List GroupOp) (c : Nat) : List Collective :=
  (ops.filter fun o => c < nUsed N n (o.call 0)).map fun o => o.slice N n c

end GroupOp

/-! ## 2. Planned slices -/

section Ranks

variable {H : Type} [DecidableEq H] {hosts : Nat → H} {worldSize rank : Nat} {nChannels : Int}
  {options : InitOptions} {comm : CommunicatorState} {o : GroupOp} {c : Nat}

/-- **The channel of a rank** has the connections that the topologies have chosen for it. -/
theorem channel_shaped (hcomm : SameShape (Communicator.init hosts worldSize rank nChannels options) comm)
    (hN : 2 ≤ worldSize) (hc : c < channelCount nChannels) : ∃ channel,
      comm.channels[c]? = some channel ∧ channel.id = c ∧
      (∀ task, TopologyTree.fillTransports channel task = TopologyTree.fillTransports (initChannels rank
        ((World.mk worldSize hosts (channelCount nChannels)).shapedChannel c rank)) task) ∧
      ∀ task, TopologyRing.fillTransports channel task = TopologyRing.fillTransports (initChannels rank
        ((World.mk worldSize hosts (channelCount nChannels)).shapedChannel c rank)) task := by
  obtain ⟨hinit, hcount⟩ := init_ready hosts worldSize rank nChannels options
  obtain ⟨-, hchannels⟩ := init_multi hosts rank nChannels options hN
  have hc' : c < comm.channels.length := by
    show c < comm.getNChannels
    rw [hcomm.getNChannels, hcount]
    exact hc
  have hget := List.getElem?_eq_getElem hc'
  have hid := (hcomm.ready hinit).ids c _ hget
  obtain ⟨old, hold, -, hring, htree, hsend, hrecv⟩ := hcomm.getElem? hget
  obtain ⟨f, hf, hsame⟩ := fillP2p_getElem? worldSize
    ((World.mk worldSize hosts (channelCount nChannels)).channels rank) c
  rw [hchannels, hf, World.channels_get _ hc, Option.map_some] at hold
  obtain rfl := Option.some.inj hold
  obtain ⟨-, h1, h2, h3, h4⟩ := hsame
    (initChannels rank ((World.mk worldSize hosts (channelCount nChannels)).shapedChannel c rank))
  refine ⟨_, hget, hid, fillTransports_congr (htree.trans h2) (hsend.trans h3)
    (hrecv.trans h4), fun task => ?_⟩
  simp only [TopologyRing.fillTransports, Channel.sendConnector, Channel.recvConnector,
    hring.trans h1, hsend.trans h3, hrecv.trans h4]

/-- **A planned slice is the rank's task of an operation of the whole world.** -/
theorem bindTo_slice (hcomm : SameShape (Communicator.init hosts worldSize rank nChannels options) comm)
    (hN : 2 ≤ worldSize) (hc : c < channelCount nChannels) :
    bindTo comm c (Planner.slice comm (o.call rank) c) =
      (o.slice worldSize (max (channelCount nChannels) 1) c).task
        ⟨worldSize, hosts, channelCount nChannels⟩ c rank := by
  obtain ⟨channel, hget, hid, hfilltree, hfillring⟩ := channel_shaped hcomm hN hc
  have hcount := hcomm.getNChannels.trans (init_ready hosts worldSize rank nChannels options).2
  have hring : comm.ringTopology = (World.mk worldSize hosts (channelCount nChannels)).ring rank := by
    rw [hcomm.ring, Communicator.init]
    dsimp only
    rw [if_neg (by omega)]
  have htree := hcomm.tree.trans (init_multi hosts rank nChannels options hN).1
  have hsig : signature (o.call rank) = signature (o.call 0) := rfl
  obtain ⟨-, huse, helems, hchunk, hoffset⟩ :=
    slices_congr worldSize (max (channelCount nChannels) 1) hsig c
  have hplain : { Planner.slice comm (o.call rank) c with channelId := (c : Int) } =
      (o.slice worldSize (max (channelCount nChannels) 1) c).plain
        ⟨worldSize, hosts, channelCount nChannels⟩ c rank := by
    simp only [Planner.slice, hcount, hcomm.worldSize.trans init_sizes.2,
      hcomm.rank.trans init_sizes.1, hring, htree, huse, helems, hchunk, hoffset]
    rfl
  rw [bindTo, List.getD_eq_getElem?_getD, hget, Option.getD_some, hid, bindTask]
  show Topology.fillTransports (if useTree (o.call rank) then _ else _) channel
    { Planner.slice comm (o.call rank) c with channelId := (c : Int) } = _
  rw [hplain, huse, Collective.task, World.channels_get _ hc]
  show Topology.fillTransports _ channel _ = if useTree (o.call 0) then _ else _
  split
  · exact hfilltree _
  · exact hfillring _

/-- The slice for one channel. -/
theorem filter_zipIdx {α : Type} (f : Nat → α) (n c : Nat) :
    (((List.range n).map f).zipIdx.filter fun x => x.2 = c) = if c < n then [(f c, c)] else [] := by
  induction n with
  | zero => rfl
  | succ n ih =>
    rw [List.range_succ, List.map_append, List.zipIdx_append, List.filter_append, ih, List.length_map,
      List.length_range, Nat.zero_add]
    show _ ++ ([(f n, n)].filter fun x => x.2 = c) = _
    rcases Nat.lt_trichotomy c n with hlt | rfl | hgt
    · rw [if_pos hlt, if_pos (by omega), List.filter_cons_of_neg (by simp; omega)]
      rfl
    · rw [if_neg (Nat.lt_irrefl c), if_pos (Nat.lt_succ_self c), List.filter_cons_of_pos (by simp)]
      rfl
    · rw [if_neg (by omega), if_neg (by omega), List.filter_cons_of_neg (by simp; omega)]
      rfl

/-- **The queue of a channel**: the slices for it, one for every collective that has so many. -/
theorem assigned_channel (tasks : List CollTask) (c : Nat) :
    ((assigned comm tasks).filter fun x => x.2 = c).map (fun x => bindTo comm c x.1) =
      (tasks.filter fun t => c < nUsed comm.worldSize (max comm.getNChannels 1) t).map
        fun t => bindTo comm c (Planner.slice comm t c) := by
  induction tasks with
  | nil => rfl
  | cons t tasks ih =>
    have hcons : assigned comm (t :: tasks) = (slices comm t).zipIdx ++ assigned comm tasks :=
      List.flatMap_cons ..
    rw [hcons, List.filter_append, List.map_append, ih, slices, filter_zipIdx]
    split
    case isTrue h =>
      rw [List.filter_cons_of_pos (by simpa using h)]
      rfl
    case isFalse h =>
      rw [List.filter_cons_of_neg (by simpa using h)]
      rfl

/-- **A slice is a part of its collective**, the same part of every buffer. -/
theorem slice_shift (hint : worldSize < 2 ^ 31) (hvalid : Planner.Valid (o.call 0) 0 worldSize) {n : Nat}
    (hn : 1 ≤ n) (hc : c < nUsed worldSize n (o.call 0)) : ∃ k,
      k + (o.slice worldSize n c).elemCount ≤ o.count ∧ ∀ buf, buf ≠ 0 →
        shiftBuf buf (sliceOffset worldSize n (o.call 0) c) (getDataTypeSize o.dtype) =
          buf + k * getDataTypeSize o.dtype := by
  have hlt : ((worldSize : Nat) : Int) < 2 ^ 31 := by exact_mod_cast hint
  have hoff := (sliceOffset_eq hvalid hlt hn (Nat.le_of_lt hc)).1
  have hle := (sliceOffset_eq hvalid hlt hn hc).2
  rw [off_succ] at hle
  have hle : off (sliceElems worldSize n (o.call 0)) c + (o.slice worldSize n c).elemCount ≤ o.count :=
    hle
  refine ⟨_, hle, fun buf hbuf => ?_⟩
  have hbytes : o.count * getDataTypeSize o.dtype ≤ sizeMax := hvalid.bytes_le
  have hmul := Nat.mul_le_mul_right (getDataTypeSize o.dtype) (Nat.le_trans (Nat.le_add_right _ _) hle)
  rw [shiftBuf, if_neg hbuf, hoff, sizeT_eq (Nat.le_trans hmul hbytes)]

/-- **A slice of accepted collectives is an accepted operation.** -/
theorem slice_valid (hint : worldSize < 2 ^ 31)
    (hv : ∀ r < worldSize, validateCollectiveTask (o.call r) r worldSize = true) (hN : 1 ≤ worldSize)
    {n : Nat} (hn : 1 ≤ n) (hc : c < nUsed worldSize n (o.call 0)) :
    (o.slice worldSize n c).Valid worldSize := by
  have hvalid : ∀ r < worldSize, Planner.Valid (o.call r) r worldSize := fun r hr =>
    valid_of_validate (hv r hr)
  have hcount : 0 < (o.slice worldSize n c).elemCount → o.count ≠ 0 := by
    intro hpos hzero
    obtain ⟨k, hle, -⟩ := slice_shift hint (hvalid 0 hN) hn hc
    omega
  have hshift : ∀ buf offset size, buf ≠ 0 → shiftBuf buf offset size ≠ 0 := by
    intro buf offset size hbuf
    rw [shiftBuf, if_neg hbuf]
    omega
  have hcoll : isCollective o.func = true := (hvalid 0 hN).collective
  refine ⟨⟨fun hf => ?_, fun hf => ?_⟩, fun htree => ?_, fun hf => ?_, fun hf => ?_,
    fun hpos hf r hr => hshift _ _ _ ((hvalid r hr).send (hcount hpos) hf),
    fun hpos r hr hor => hshift _ _ _ ((hvalid r hr).recv (hcount hpos) fun hf => ?_)⟩
  · have hf : o.func = .send := hf
    rw [hf] at hcoll
    cases hcoll
  · have hf : o.func = .recv := hf
    rw [hf] at hcoll
    cases hcoll
  · have htree : useTree (o.call 0) = true := htree
    unfold useTree at htree
    rw [Bool.and_eq_true, beq_iff_eq] at htree
    exact htree.1
  · have hf : o.func = .allReduce := hf
    show 1 ≤ sliceChunk _ _ _
    rw [sliceChunk, if_pos (by show (_ || o.func == .allReduce) = true; rw [hf]; simp)]
    have hp := getDataTypeSize_pos o.dtype
    exact Nat.div_pos (Nat.le_of_dvd (by decide) (typeSize_dvd _)) hp
  · refine (hvalid 0 hN).root ?_
    show hasRoot o.func = true
    have hf : o.func = .broadcast ∨ o.func = .reduce := hf
    rcases hf with hf | hf <;> rw [hf] <;> rfl
  · have hor : o.func ≠ .reduce ∨ o.root = r := hor
    rcases hor with hne | he
    · exact absurd hf hne
    · exact he.symm

/-- **A slice of a collective below 64 TiB** has small numbers: its chunks have 32 KiB. -/
theorem slice_fits (hranks : 3 * worldSize ≤ 2 ^ 31 + 1) (hN : 1 ≤ worldSize)
    (hvalid : Planner.Valid (o.call 0) 0 worldSize) {n : Nat} (hn : 1 ≤ n)
    (hc : c < nUsed worldSize n (o.call 0))
    (hbytes : o.func = .allReduce →
      o.count * getDataTypeSize o.dtype + worldSize * kChunkBytes ≤ 2 ^ 46) :
    (o.slice worldSize n c).FitsInt worldSize := by
  have hchunks : o.func = .allReduce → (o.slice worldSize n c).elemCount +
      (o.slice worldSize n c).chunkSize * worldSize ≤ 2 ^ 31 * (o.slice worldSize n c).chunkSize := by
    intro hf
    obtain ⟨k, hle, -⟩ := slice_shift (by omega) hvalid hn hc
    have hchunk : (o.slice worldSize n c).chunkSize = kChunkBytes / getDataTypeSize o.dtype :=
      if_pos (by show (_ || o.func == .allReduce) = true; rw [hf]; simp)
    have hsize : (o.slice worldSize n c).chunkSize * getDataTypeSize o.dtype = kChunkBytes := by
      rw [hchunk]
      exact Nat.div_mul_cancel (typeSize_dvd _)
    refine Nat.le_of_mul_le_mul_right ?_ (getDataTypeSize_pos o.dtype)
    calc ((o.slice worldSize n c).elemCount + (o.slice worldSize n c).chunkSize * worldSize) *
          getDataTypeSize o.dtype
        = (o.slice worldSize n c).elemCount * getDataTypeSize o.dtype + worldSize * kChunkBytes := by
          rw [← hsize]
          ring
      _ ≤ o.count * getDataTypeSize o.dtype + worldSize * kChunkBytes :=
          Nat.add_le_add_right (Nat.mul_le_mul_right _ (Nat.le_trans (Nat.le_add_left _ k) hle)) _
      _ ≤ 2 ^ 46 := hbytes hf
      _ = 2 ^ 31 * kChunkBytes := by norm_num [kChunkBytes]
      _ = 2 ^ 31 * (o.slice worldSize n c).chunkSize * getDataTypeSize o.dtype := by
          rw [← hsize, Nat.mul_assoc]
  refine ⟨fun htree => ?_, fun _ => hranks, fun _ => hchunks⟩
  have htree : useTree (o.call 0) = true := htree
  unfold useTree at htree
  rw [Bool.and_eq_true, beq_iff_eq] at htree
  have hle := hchunks htree.1
  have hmul : (o.slice worldSize n c).chunkSize ≤ (o.slice worldSize n c).chunkSize * worldSize :=
    Nat.le_mul_of_pos_right _ hN
  omega

section Buffers

variable {n k r : Nat}

/-- The parts of two buffers that are apart. -/
theorem slice_separate (hshift : ∀ buf, buf ≠ 0 →
      shiftBuf buf (sliceOffset worldSize n (o.call 0) c) (getDataTypeSize o.dtype) =
        buf + k * getDataTypeSize o.dtype) {a b a' b' : Nat} (h : o.whole.Separate r a b) (ha : a' ≤ a)
    (hb : b' ≤ b) : (o.slice worldSize n c).Separate r a' b' := by
  have hsend : o.sendBuf r ≠ 0 := h.send
  have hrecv : o.recvBuf r ≠ 0 := h.recv
  have hapart : o.sendBuf r + a * getDataTypeSize o.dtype ≤ o.recvBuf r ∨
      o.recvBuf r + b * getDataTypeSize o.dtype ≤ o.sendBuf r := h.apart
  have hs : (o.slice worldSize n c).sendBuf r = _ := hshift _ hsend
  have hr : (o.slice worldSize n c).recvBuf r = _ := hshift _ hrecv
  have ha' := Nat.mul_le_mul_right (getDataTypeSize o.dtype) ha
  have hb' := Nat.mul_le_mul_right (getDataTypeSize o.dtype) hb
  have hdtype : (o.slice worldSize n c).dtype = o.dtype := rfl
  refine ⟨by rw [hs]; omega, by rw [hr]; omega, ?_⟩
  rw [hs, hr, hdtype]
  omega

/-- The parts of two buffers that are the same or apart. -/
theorem slice_buffers (hshift : ∀ buf, buf ≠ 0 →
      shiftBuf buf (sliceOffset worldSize n (o.call 0) c) (getDataTypeSize o.dtype) =
        buf + k * getDataTypeSize o.dtype) (h : o.whole.Buffers r)
    (hle : (o.slice worldSize n c).elemCount ≤ o.count) : (o.slice worldSize n c).Buffers r := by
  by_cases he : o.sendBuf r = o.recvBuf r
  · have hrecv : o.recvBuf r ≠ 0 := h.recv
    have hs : (o.slice worldSize n c).sendBuf r = _ := hshift _ h.send
    have hr : (o.slice worldSize n c).recvBuf r = _ := hshift _ hrecv
    refine ⟨by rw [hs, he]; omega, by rw [hr]; omega, Or.inl ?_⟩
    rw [hs, hr, he]
  · have hseparate : o.whole.Separate r o.count o.count := ⟨h.send, h.recv, h.apart.resolve_left he⟩
    obtain ⟨h1, h2, h3⟩ := slice_separate hshift hseparate hle hle
    exact ⟨h1, h2, Or.inr h3⟩

/-- **The buffers of a slice do not overlap** where those of the collective do not. -/
theorem slice_laid (hint : worldSize < 2 ^ 31) (hvalid : Planner.Valid (o.call 0) 0 worldSize)
    (hn : 1 ≤ n) (hc : c < nUsed worldSize n (o.call 0)) (hl : o.whole.Laid worldSize) :
    (o.slice worldSize n c).Laid worldSize := by
  obtain ⟨k, hle, hshift⟩ := slice_shift hint hvalid hn hc
  have hcount : (o.slice worldSize n c).elemCount ≤ o.count := by omega
  have hslice : (o.slice worldSize n c).func = o.func := rfl
  have hwhole : o.whole.func = o.func := rfl
  unfold Collective.Laid at hl ⊢
  rw [hwhole] at hl
  rw [hslice]
  cases hfunc : o.func with
  | allReduce =>
    rw [hfunc] at hl
    exact ⟨hl.1, fun r hr => slice_buffers hshift (hl.2 r hr) hcount⟩
  | reduce =>
    rw [hfunc] at hl
    exact hl
  | allGather =>
    rw [hfunc] at hl
    exact ⟨hcount, fun r hr => slice_separate hshift (hl.2 r hr) hcount
      (Nat.add_le_add_left hcount _)⟩
  | reduceScatter =>
    rw [hfunc] at hl
    exact ⟨hl.1, fun r hr => slice_separate hshift (hl.2 r hr) (Nat.add_le_add_left hcount _) hcount⟩
  | broadcast => trivial
  | send => trivial
  | recv => trivial

end Buffers

/-- **The queue of a channel in the plan of a rank**: its tasks of the operations there. -/
theorem queue_planned (hcomm : SameShape (Communicator.init hosts worldSize rank nChannels options) comm)
    (hN : 2 ≤ worldSize) (hr : rank < worldSize) (hc : c < channelCount nChannels)
    (ops : List GroupOp) : queue (pushAll comm (CollPlan.ofChannels comm.getNChannels)
      (assigned comm (ops.map fun o => o.call rank))) c =
    (World.mk worldSize hosts (channelCount nChannels)).tasks c
      (GroupOp.onChannel worldSize (max (channelCount nChannels) 1) ops c) rank := by
  have hcount := hcomm.getNChannels.trans (init_ready hosts worldSize rank nChannels options).2
  have hworld := hcomm.worldSize.trans init_sizes.2
  have hused : ∀ o : GroupOp, nUsed worldSize (max (channelCount nChannels) 1) (o.call rank) =
      nUsed worldSize (max (channelCount nChannels) 1) (o.call 0) := fun o =>
    (slices_congr worldSize _ (show signature (o.call rank) = signature (o.call 0) from rfl) c).1
  rw [queue, pushAll_getElem?, ofChannels_getElem?, hcount, if_pos hc]
  show ([] ++ _ : List PlanTask) = _
  rw [List.nil_append, assigned_channel, World.tasks, if_pos hr, GroupOp.onChannel, List.filter_map,
    List.map_map, List.map_map, hcount, hworld]
  have hfilter : ops.filter ((fun t => decide (c < nUsed worldSize (max (channelCount nChannels) 1) t)) ∘
      fun o => o.call rank) =
      ops.filter fun o => c < nUsed worldSize (max (channelCount nChannels) 1) (o.call 0) := by
    refine List.filter_congr fun o _ => ?_
    show decide (c < nUsed _ _ (o.call rank)) = _
    rw [hused o]
  rw [hfilter]
  exact List.map_congr_left fun o _ => bindTo_slice hcomm hN hc

end Ranks

/-! ## 3. Planned and run -/

section Worlds

variable {H : Type} [DecidableEq H] {hosts : Nat → H} {worldSize : Nat} {nChannels : Int}
  {options : Nat → InitOptions} {comm : Nat → CommunicatorState} {ops : List GroupOp}

/-- **The plans of all ranks succeed and fit together**: on every channel their queues are the tasks of
    one list of accepted operations of the whole world. -/
theorem queues_agree (hN : 2 ≤ worldSize) (hint : worldSize < 2 ^ 31)
    (hcomm : ∀ r < worldSize,
      SameShape (Communicator.init hosts worldSize r nChannels (options r)) (comm r))
    (hv : ∀ o ∈ ops, ∀ r < worldSize, validateCollectiveTask (o.call r) r worldSize = true)
    (net : Nat → Int → RoundOutcome) :
    ∃ p : Nat → CollPlan,
      (∀ r < worldSize, plan (comm r) (ops.map fun o => o.call r) false (net r) =
        (comm r, .ok (p r))) ∧
      ∀ c < channelCount nChannels,
        (∀ q ∈ GroupOp.onChannel worldSize (max (channelCount nChannels) 1) ops c,
          q.Valid worldSize) ∧
        (fun r => if r < worldSize then queue (p r) c else []) =
          (World.mk worldSize hosts (channelCount nChannels)).tasks c
            (GroupOp.onChannel worldSize (max (channelCount nChannels) 1) ops c) := by
  refine ⟨fun r => pushAll (comm r) (CollPlan.ofChannels (comm r).getNChannels)
    (assigned (comm r) (ops.map fun o => o.call r)), fun r hr => ?_, fun c hc => ⟨fun q hq => ?_, ?_⟩⟩
  · have hn : 1 ≤ (comm r).getNChannels :=
      ((hcomm r hr).ready (init_ready hosts worldSize r nChannels (options r)).1).some_channel
    have hno : ∀ o ∈ ops, isP2p o.func = false := by
      intro o ho
      have hcoll : isCollective o.func = true := (valid_of_validate (hv o ho r hr)).collective
      cases hfunc : o.func with
      | send | recv =>
        rw [hfunc] at hcoll
        cases hcoll
      | allReduce | broadcast | reduce | allGather | reduceScatter => rfl
    refine plan_static hn ?_ ?_ (net r)
    · refine List.all_eq_true.mpr fun t ht => ?_
      obtain ⟨o, ho, rfl⟩ := List.mem_map.mp ht
      show (!isP2p o.func) = true
      rw [hno o ho]
      rfl
    · refine List.all_eq_true.mpr fun t ht => ?_
      obtain ⟨o, ho, rfl⟩ := List.mem_map.mp ht
      have hcall : isP2p (o.call r).func = false := hno o ho
      rw [plannable, hcall, if_neg Bool.false_ne_true, (hcomm r hr).rank.trans init_sizes.1,
        (hcomm r hr).worldSize.trans init_sizes.2]
      exact hv o ho r hr
  · obtain ⟨o, ho, rfl⟩ := List.mem_map.mp hq
    obtain ⟨ho, hused⟩ := List.mem_filter.mp ho
    exact slice_valid hint (hv o ho) (by omega) (Nat.le_max_right ..) (of_decide_eq_true hused)
  · funext r
    split
    case isTrue hr => exact queue_planned (hcomm r hr) hN hr hc ops
    case isFalse hr => exact (if_neg hr).symm

/-- The slices of a channel have numbers that an `int` holds, if the AllReduces are below 64 TiB. -/
theorem channel_fits (nChannels : Int) (hN : 2 ≤ worldSize) (hranks : 3 * worldSize ≤ 2 ^ 31 + 1)
    (hbytes : ∀ o ∈ ops, o.func = .allReduce →
      o.count * getDataTypeSize o.dtype + worldSize * kChunkBytes ≤ 2 ^ 46)
    (hv : ∀ o ∈ ops, ∀ r < worldSize, validateCollectiveTask (o.call r) r worldSize = true) (c : Nat) :
    ∀ q ∈ GroupOp.onChannel worldSize (max (channelCount nChannels) 1) ops c, q.FitsInt worldSize := by
  intro q hq
  obtain ⟨o, ho, rfl⟩ := List.mem_map.mp hq
  obtain ⟨ho, hused⟩ := List.mem_filter.mp ho
  exact slice_fits hranks (by omega) (valid_of_validate (hv o ho 0 (by omega))) (Nat.le_max_right ..)
    (of_decide_eq_true hused) (hbytes o ho)

/-- **What the ranks plan from the same collectives runs to its end.** Every rank plans on its own; the
    plans succeed, and from every state of every run of the queues of a channel, over connections of any
    capacity, all ranks can finish: on cursors without a bound, and on the `int`s of the source as long as
    these count the chunks. -/
theorem plans_complete (hN : 2 ≤ worldSize) (hint : worldSize < 2 ^ 31)
    (hcomm : ∀ r < worldSize,
      SameShape (Communicator.init hosts worldSize r nChannels (options r)) (comm r))
    (hv : ∀ o ∈ ops, ∀ r < worldSize, validateCollectiveTask (o.call r) r worldSize = true)
    (net : Nat → Int → RoundOutcome) :
    ∃ p : Nat → CollPlan,
      (∀ r < worldSize, plan (comm r) (ops.map fun o => o.call r) false (net r) =
        (comm r, .ok (p r))) ∧
      ∀ c < channelCount nChannels, ∀ cap : Link → Nat, (∀ l, 0 < cap l) → ∀ sys,
        sys = channelSystem ∨ (sys = intSystem ∧ 3 * worldSize ≤ 2 ^ 31 + 1 ∧
          ∀ o ∈ ops, o.func = .allReduce →
            o.count * getDataTypeSize o.dtype + worldSize * kChunkBytes ≤ 2 ^ 46) →
        ∀ (m₀ : Nat → Mem) ls s,
          Run sys (Flow.full cap) (fun r => if r < worldSize then queue (p r) c else [])
            (.start m₀) ls s →
          ∃ ls' s', Run sys (Flow.full cap)
              (fun r => if r < worldSize then queue (p r) c else []) s ls' s' ∧
            ∀ r < worldSize, (s'.node r).finished = (queue (p r) c).length := by
  obtain ⟨p, hplan, hchannels⟩ := queues_agree hN hint hcomm hv net
  refine ⟨p, hplan, fun c hc cap hcap sys hsys m₀ ls s hrun => ?_⟩
  obtain ⟨hvalid, htasks⟩ := hchannels c hc
  have hlength : ∀ r < worldSize, (queue (p r) c).length =
      (GroupOp.onChannel worldSize (max (channelCount nChannels) 1) ops c).length := by
    intro r hr
    have hqueue := congrFun htasks r
    rw [if_pos hr] at hqueue
    rw [hqueue, tasks_length hr]
  rw [htasks] at hrun ⊢
  rcases hsys with rfl | ⟨rfl, hranks, hbytes⟩
  · obtain ⟨ls', s', hrun', hfin⟩ := list_completes (w := World.mk worldSize hosts _) hc
      (show 1 ≤ worldSize by omega) hvalid hcap hrun
    exact ⟨ls', s', hrun', fun r hr => (hfin r hr).trans (hlength r hr).symm⟩
  · have hfits := channel_fits nChannels hN hranks hbytes hv c
    obtain ⟨⟨ls', s', hrun', hfin⟩, -⟩ := lists_complete (w := World.mk worldSize hosts _) hc
      (show 1 ≤ worldSize by omega) hvalid hfits hcap hrun
    exact ⟨ls', s', hrun', fun r hr => (hfin r hr).trans (hlength r hr).symm⟩

/-- **Every planned slice has its result.** In every run of the queues that the ranks have planned for one
    channel from the same collectives below 64 TiB, with the `int`s of the source, however the bytes are
    split and however far the ranks are apart: when a rank has finished the `k`-th slice, its memory holds
    the result of that slice, from the memories the ranks have started it with. -/
theorem plans_results (hN : 2 ≤ worldSize) (hranks : 3 * worldSize ≤ 2 ^ 31 + 1)
    (hbytes : ∀ o ∈ ops, o.func = .allReduce →
      o.count * getDataTypeSize o.dtype + worldSize * kChunkBytes ≤ 2 ^ 46)
    (hcomm : ∀ r < worldSize,
      SameShape (Communicator.init hosts worldSize r nChannels (options r)) (comm r))
    (hv : ∀ o ∈ ops, ∀ r < worldSize, validateCollectiveTask (o.call r) r worldSize = true)
    (hl : ∀ o ∈ ops, o.whole.Laid worldSize) (net : Nat → Int → RoundOutcome) :
    ∃ p : Nat → CollPlan,
      (∀ r < worldSize, plan (comm r) (ops.map fun o => o.call r) false (net r) =
        (comm r, .ok (p r))) ∧
      ∀ c < channelCount nChannels, ∀ (F : Flow Link) (m₀ : Nat → Mem) ls s,
        Run intSystem F (fun r => if r < worldSize then queue (p r) c else []) (.start m₀) ls s →
        ∀ k q, (GroupOp.onChannel worldSize (max (channelCount nChannels) 1) ops c)[k]? = some q →
        ∀ m : Nat → Mem, (∀ r x, (s.node r).starts (m₀ r) k = some x → m r = x) →
        ∀ r < worldSize, k < (s.node r).finished →
          ∃ x, (s.node r).starts (m₀ r) (k + 1) = some x ∧ q.Result worldSize m r x := by
  have hint : worldSize < 2 ^ 31 := by omega
  obtain ⟨p, hplan, hchannels⟩ := queues_agree hN hint hcomm hv net
  refine ⟨p, hplan, fun c hc F m₀ ls s hrun k q hq m hm r hr hk => ?_⟩
  obtain ⟨hvalid, htasks⟩ := hchannels c hc
  have hfits := channel_fits nChannels hN hranks hbytes hv c
  have hlaid : q.Laid worldSize := by
    obtain ⟨o, ho, rfl⟩ := List.mem_map.mp (List.mem_of_getElem? hq)
    obtain ⟨ho, hused⟩ := List.mem_filter.mp ho
    exact slice_laid hint (valid_of_validate (hv o ho 0 (by omega))) (Nat.le_max_right ..)
      (of_decide_eq_true hused) (hl o ho)
  rw [htasks] at hrun
  have hrun := (lists_same (w := World.mk worldSize hosts _) hvalid hfits).mp hrun
  exact list_result (w := World.mk worldSize hosts _) hc hN hvalid hrun hq hlaid hm hr hk

end Worlds

/-! ## 4. Three ranks -/

/-- A Broadcast and an AllReduce of three ranks. -/
def groupOps : List GroupOp :=
  [{ func := .broadcast, count := 3, dtype := .int32, root := 1, sendBuf := fun _ => 8
     recvBuf := fun _ => 8 },
   { func := .allReduce, count := 5, dtype := .int32, sendBuf := fun r => 32 + r
     recvBuf := fun _ => 64 }]

theorem groupOps_laid : ∀ o ∈ groupOps, o.whole.Laid 3 := by
  intro o ho
  rcases List.mem_cons.mp ho with rfl | ho
  · exact trivial
  · rw [List.mem_singleton.mp ho]
    refine ⟨trivial, fun r hr => ⟨?_, Nat.succ_ne_zero 63, Or.inr (Or.inl ?_)⟩⟩
    · show 32 + r ≠ 0
      omega
    · show 32 + r + 5 * 4 ≤ 64
      omega

theorem groupOps_fits : ∀ q ∈ GroupOp.onChannel 3 (max (channelCount 2) 1) groupOps 0, q.FitsInt 3 := by
  intro q hq
  have hq : q ∈ groupOps.map fun o => o.slice 3 2 0 := hq
  rcases List.mem_cons.mp hq with rfl | hq
  · exact ⟨nofun, fun _ => by decide, fun _ => nofun⟩
  · rw [List.mem_singleton.mp hq]
    exact ⟨fun _ => by decide, fun _ => by decide, fun _ _ => by decide⟩

/-- The three ranks after `Init`, on two machines and with two channels. -/
def groupComm (r : Nat) : CommunicatorState :=
  Communicator.init (fun r => r % 2) 3 r 2 ⟨true, true, true⟩

theorem plans_complete_three : ∃ p : Nat → CollPlan, ∀ sys, sys = channelSystem ∨ sys = intSystem → ∃ ls s,
    Run sys (Flow.full fun _ => 3) (fun r => if r < 3 then queue (p r) 0 else [])
      (.start fun _ _ => 0) ls s ∧ ∀ r < 3, (s.node r).finished = (queue (p r) 0).length := by
  obtain ⟨p, -, h⟩ := @plans_complete Nat _ (fun r => r % 2) 3 2 (fun _ => ⟨true, true, true⟩)
    groupComm groupOps (by decide) (by decide) (fun _ _ => SameShape.refl _) (by decide)
    fun _ _ => ⟨[], [], true⟩
  refine ⟨p, fun sys hsys => h 0 (by decide) (fun _ => 3) (fun _ => by decide) sys ?_ _ _ _ .nil⟩
  exact hsys.imp id fun hsys => ⟨hsys, by decide, by decide⟩

theorem plans_results_three : ∃ p : Nat → CollPlan, ∃ ls s x,
    Run intSystem (Flow.full fun _ => 3) (fun r => if r < 3 then queue (p r) 0 else [])
      (.start fun r _ => r.toUInt8) ls s ∧
    (s.node 2).starts (fun _ => 2) 1 = some x ∧ ∀ j < 12, x (8 + j) = 1 := by
  have hcomm : ∀ r < 3, SameShape (groupComm r) (groupComm r) := fun _ _ => SameShape.refl _
  obtain ⟨p, hplan, h⟩ := @plans_results Nat _ (fun r => r % 2) 3 2 (fun _ => ⟨true, true, true⟩)
    groupComm groupOps (by decide) (by decide) (by decide) hcomm (by decide) groupOps_laid
    fun _ _ => ⟨[], [], true⟩
  obtain ⟨p', hplan', hchannels⟩ := @queues_agree Nat _ (fun r => r % 2) 3 2
    (fun _ => ⟨true, true, true⟩) groupComm groupOps (by decide) (by decide) hcomm (by decide)
    fun _ _ => ⟨[], [], true⟩
  obtain ⟨hvalid, htasks⟩ := hchannels 0 (by decide)
  have hp : ∀ r < 3, p r = p' r := fun r hr =>
    Except.ok.inj (Prod.mk.inj ((hplan r hr).symm.trans (hplan' r hr))).2
  have htasks : (fun r => if r < 3 then queue (p r) 0 else []) =
      (World.mk 3 (fun r => r % 2) (channelCount 2)).tasks 0
        (GroupOp.onChannel 3 (max (channelCount 2) 1) groupOps 0) := by
    rw [← htasks]
    funext r
    split
    case isTrue hr => rw [hp r hr]
    case isFalse => rfl
  obtain ⟨ls, s, hrun, hfin⟩ := list_completes
    (w := World.mk 3 (fun r => r % 2) (channelCount 2)) (by decide) (by decide) hvalid
    (fun _ => by decide) (.nil : Run channelSystem (Flow.full fun _ => 3)
      ((World.mk 3 (fun r => r % 2) (channelCount 2)).tasks 0
        (GroupOp.onChannel 3 (max (channelCount 2) 1) groupOps 0))
      (.start fun r _ => r.toUInt8) [] (.start fun r _ => r.toUInt8))
  have hrun := (lists_same (w := World.mk 3 (fun r => r % 2) (channelCount 2)) hvalid
    groupOps_fits).mpr hrun
  rw [← htasks] at hrun
  obtain ⟨x, hx, hresult⟩ := h 0 (by decide) _ _ _ _ hrun 0 _ rfl (fun r _ => r.toUInt8)
    (fun r x hx => Option.some.inj hx) 2 (by decide) (by rw [hfin 2 (by decide)]; decide)
  exact ⟨p, ls, s, x, hrun, hx, hresult⟩

end OriginCCL
