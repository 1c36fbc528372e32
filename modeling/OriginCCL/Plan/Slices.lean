/-
  File:      OriginCCL/Plan/Slices.lean
  Subject:   THE SLICES OF A COLLECTIVE (`Planner::EmitCollectiveSlices`) are an exact partition.

  * `Valid task worldSize` -- what a task that passes `ValidateCollectiveTask` promises.
  * `sliceElems_eq`, `sliceOffset_eq` -- the loop without the `size_t` arithmetic, which never wraps.
  * `slices_exact` -- **the slices are consecutive, cover the task once and fit the channels**.
-/
import OriginCCL.Plan.Planner

namespace OriginCCL.Planner

open Base

/-! ## 1. Valid tasks -/

section Valid

variable {task : CollTask} {rank worldSize : Int}

theorem sizeT_eq {x : Nat} (h : x ≤ sizeMax) : sizeT x = x :=
  Nat.mod_eq_of_lt (Nat.lt_of_le_of_lt h (by decide))

/-- A valid task on one of `worldSize` ranks. -/
structure Valid (task : CollTask) (rank worldSize : Int) : Prop where
  collective : isCollective task.func = true
  size_pos : 0 < worldSize
  rank_nonneg : 0 ≤ rank
  rank_lt : rank < worldSize
  bytes_le : task.count * getDataTypeSize task.dtype ≤ sizeMax
  root : hasRoot task.func = true → 0 ≤ task.root ∧ task.root < worldSize
  blocks_le : task.func = .allGather ∨ task.func = .reduceScatter →
    worldSize.toNat * (task.count * getDataTypeSize task.dtype) ≤ sizeMax
  send : task.count ≠ 0 → task.func ≠ .broadcast → task.sendBuf ≠ 0
  recv : task.count ≠ 0 → (task.func = .reduce → rank = task.root) → task.recvBuf ≠ 0

/-- **What `ValidateCollectiveTask` accepts.** -/
theorem valid_of_validate (h : validateCollectiveTask task rank worldSize = true) :
    Valid task rank worldSize := by
  have hp := getDataTypeSize_pos task.dtype
  unfold validateCollectiveTask at h
  dsimp only at h
  split at h
  · cases h
  · rename_i h1
    split at h
    · cases h
    · rename_i h2
      split at h
      · cases h
      · split at h
        · cases h
        · rename_i h4
          split at h
          · cases h
          · rename_i h5
            simp only [Bool.not_eq_true, Bool.or_eq_false_iff, Bool.not_eq_false',
              decide_eq_false_iff_not] at h1
            obtain ⟨⟨⟨hcoll, hsize⟩, hrank⟩, hlt⟩ := h1
            have hcount : task.count ≤ sizeMax / getDataTypeSize task.dtype := by
              by_contra hc
              exact h2 (Or.inr (by omega))
            have hsize : 0 < worldSize := by omega
            refine ⟨hcoll, hsize, by omega, by omega, (Nat.le_div_iff_mul_le hp).mp hcount, ?_, ?_, ?_,
              ?_⟩
            · intro hroot
              simp only [hroot, Bool.true_and, Bool.not_eq_true, Bool.or_eq_false_iff,
                decide_eq_false_iff_not] at h4
              omega
            · intro hf
              by_cases h0 : task.count = 0
              · rw [h0, Nat.zero_mul, Nat.mul_zero]
                exact Nat.zero_le _
              have hf' : (task.func == .allGather || task.func == .reduceScatter) = true := by
                rcases hf with hf | hf <;> rw [hf] <;> rfl
              simp only [hf', Bool.true_and, Bool.not_eq_true, Bool.and_eq_false_iff, bne_eq_false_iff_eq,
                decide_eq_false_iff_not, h0, false_or, Nat.not_lt] at h5
              have hws : 0 < worldSize.toNat := by omega
              have h6 := (Nat.le_div_iff_mul_le hp).mp h5
              have h7 := (Nat.le_div_iff_mul_le hws).mp h6
              rw [Nat.mul_comm]
              exact h7
            · intro h0 hf hbuf
              rw [if_neg h0] at h
              simp [hf, hbuf] at h
            · intro h0 hf hbuf
              rw [if_neg h0] at h
              by_cases hr : task.func = .reduce
              · simp [hr, hf hr, hbuf] at h
              · simp [hr, hbuf] at h

end Valid

/-! ## 2. Units -/

section Units

variable {task : CollTask} {rank worldSize : Int} {n c : Nat}

theorem typeSize_dvd (dt : DataType) : getDataTypeSize dt ∣ kChunkBytes := by
  cases dt <;> decide

theorem totalBytes_eq (h : Valid task rank worldSize) :
    totalBytes task = task.count * getDataTypeSize task.dtype := sizeT_eq h.bytes_le

/-- Units are chunks, or for AllReduce a chunk for every rank. -/
theorem unitBytes_eq (hint : worldSize < 2 ^ 31) : unitBytes worldSize task =
    if task.func = .allReduce then kChunkBytes * worldSize.toNat else kChunkBytes := by
  have hle : kChunkBytes * worldSize.toNat ≤ sizeMax := by
    unfold kChunkBytes sizeMax
    omega
  unfold unitBytes
  by_cases hf : task.func = .allReduce
  · rw [if_pos hf, if_pos (by rw [hf]; simp), sizeT_eq hle]
  · have htree : useTree task = false := by
      unfold useTree
      simp [hf]
    rw [if_neg hf, if_neg (by simp [htree, hf])]

/-- The elements of a unit. -/
def unitElems (worldSize : Int) (task : CollTask) : Nat :=
  unitBytes worldSize task / getDataTypeSize task.dtype

theorem unitElems_mul (task : CollTask) (h : 0 < worldSize) (hint : worldSize < 2 ^ 31) :
    unitElems worldSize task * getDataTypeSize task.dtype = unitBytes worldSize task ∧
      0 < unitElems worldSize task := by
  have hdvd : getDataTypeSize task.dtype ∣ unitBytes worldSize task := by
    rw [unitBytes_eq hint]
    split
    · exact Nat.dvd_mul_right_of_dvd (typeSize_dvd _) _
    · exact typeSize_dvd _
  have hpos : 0 < unitBytes worldSize task := by
    rw [unitBytes_eq hint]
    unfold kChunkBytes
    split <;> omega
  exact ⟨Nat.div_mul_cancel hdvd, Nat.div_pos (Nat.le_of_dvd hpos hdvd) (getDataTypeSize_pos _)⟩

theorem unitsTotal_eq (h : Valid task rank worldSize) (hint : worldSize < 2 ^ 31) :
    unitsTotal worldSize task = task.count / unitElems worldSize task ∧
      remBytes worldSize task =
        task.count % unitElems worldSize task * getDataTypeSize task.dtype := by
  have hunit := (unitElems_mul task h.size_pos hint).1
  rw [unitsTotal, remBytes, totalBytes_eq h, ← hunit]
  exact ⟨Nat.mul_div_mul_right _ _ (getDataTypeSize_pos _), Nat.mul_mod_mul_right ..⟩

theorem nUsed_pos (worldSize : Int) (task : CollTask) (hn : 1 ≤ n) : 0 < nUsed worldSize n task := by
  unfold nUsed
  split <;> omega

theorem nUsed_le (worldSize : Int) (task : CollTask) (hn : 1 ≤ n) : nUsed worldSize n task ≤ n := by
  unfold nUsed
  split <;> omega

/-- The units of the first slices, counted together. -/
theorem off_channelUnits (worldSize : Int) (task : CollTask) (hn : 1 ≤ n) :
    off (channelUnits worldSize n task) (nUsed worldSize n task) = unitsTotal worldSize task :=
  off_spread_all (nUsed_pos worldSize task hn)

/-- With more than one slice, every slice has a unit. -/
theorem channelUnits_pos (h : 1 < nUsed worldSize n task) : 0 < channelUnits worldSize n task c := by
  have hle : nUsed worldSize n task ≤ unitsTotal worldSize task := by
    unfold nUsed at h ⊢
    split at h
    · rename_i hu
      rw [if_pos hu]
      exact Nat.min_le_left ..
    · omega
  have hbase : 0 < baseUnits worldSize n task := Nat.div_pos hle (by omega)
  unfold channelUnits
  omega

end Units

/-! ## 3. The loop -/

section Loop

variable {task : CollTask} {rank worldSize : Int} {n c : Nat}

/-- The number of elements of slice `c`: whole units, and in the last slice also the rest. -/
theorem sliceElems_eq (h : Valid task rank worldSize) (hint : worldSize < 2 ^ 31) (hn : 1 ≤ n)
    (hc : c < nUsed worldSize n task) :
    channelUnits worldSize n task c * unitBytes worldSize task ≤ sizeMax ∧
    channelUnits worldSize n task c * unitBytes worldSize task + remBytes worldSize task ≤ sizeMax ∧
    sliceElems worldSize n task c = channelUnits worldSize n task c * unitElems worldSize task +
      if c = nUsed worldSize n task - 1 then task.count % unitElems worldSize task else 0 := by
  obtain ⟨hunits, hrem⟩ := unitsTotal_eq h hint
  obtain ⟨hmul, hpos⟩ := unitElems_mul task h.size_pos hint
  have hsum := off_channelUnits worldSize task hn
  have hone := off_succ_le (channelUnits worldSize n task) hc
  have hdiv := Nat.div_add_mod task.count (unitElems worldSize task)
  have hbytes := h.bytes_le
  have hle : channelUnits worldSize n task c * unitElems worldSize task +
      task.count % unitElems worldSize task ≤ task.count := by
    have := Nat.mul_le_mul_right (unitElems worldSize task)
      (show channelUnits worldSize n task c ≤ task.count / unitElems worldSize task by omega)
    rw [Nat.mul_comm (_ / _)] at this
    omega
  have hmain := Nat.mul_le_mul_right (getDataTypeSize task.dtype) hle
  rw [Nat.add_mul, Nat.mul_assoc, hmul, ← hrem] at hmain
  have h1 : channelUnits worldSize n task c * unitBytes worldSize task ≤ sizeMax := by omega
  have h2 : channelUnits worldSize n task c * unitBytes worldSize task + remBytes worldSize task ≤
      sizeMax := by omega
  refine ⟨h1, h2, ?_⟩
  unfold sliceElems channelBytes
  dsimp only
  rw [sizeT_eq h1]
  split
  · rw [sizeT_eq h2, hrem, ← hmul, ← Nat.mul_assoc, ← Nat.add_mul,
      Nat.mul_div_cancel _ (getDataTypeSize_pos _)]
  · rw [← hmul, ← Nat.mul_assoc, Nat.mul_div_cancel _ (getDataTypeSize_pos _), Nat.add_zero]

/-- The elements before a slice, in whole units. -/
theorem off_sliceElems (h : Valid task rank worldSize) (hint : worldSize < 2 ^ 31) (hn : 1 ≤ n)
    (hc : c < nUsed worldSize n task) : off (sliceElems worldSize n task) c =
      off (channelUnits worldSize n task) c * unitElems worldSize task := by
  induction c with
  | zero => rw [off_zero, off_zero, Nat.zero_mul]
  | succ c ih =>
    rw [off_succ, off_succ, ih (by omega), Nat.add_mul, (sliceElems_eq h hint hn (by omega)).2.2,
      if_neg (by omega), Nat.add_zero]

/-- **The slices add up to the task.** -/
theorem off_nUsed (h : Valid task rank worldSize) (hint : worldSize < 2 ^ 31) (hn : 1 ≤ n) :
    off (sliceElems worldSize n task) (nUsed worldSize n task) = task.count := by
  have hpos := nUsed_pos worldSize task hn
  obtain ⟨k, hk⟩ := Nat.exists_eq_succ_of_ne_zero (Nat.ne_of_gt hpos)
  have hsum := off_channelUnits worldSize task hn
  have hlast : k < nUsed worldSize n task := by omega
  have hdiv := Nat.div_add_mod task.count (unitElems worldSize task)
  rw [hk, Nat.succ_eq_add_one, off_succ] at hsum
  rw [hk, Nat.succ_eq_add_one, off_succ, off_sliceElems h hint hn hlast,
    (sliceElems_eq h hint hn hlast).2.2, if_pos (by omega), ← Nat.add_assoc, ← Nat.add_mul, hsum,
    (unitsTotal_eq h hint).1, Nat.mul_comm]
  exact hdiv

/-- **Where a slice starts.** -/
theorem sliceOffset_eq (h : Valid task rank worldSize) (hint : worldSize < 2 ^ 31) (hn : 1 ≤ n)
    (hc : c ≤ nUsed worldSize n task) :
    sliceOffset worldSize n task c = off (sliceElems worldSize n task) c ∧
      off (sliceElems worldSize n task) c ≤ task.count := by
  have hle : off (sliceElems worldSize n task) c ≤ task.count := by
    rw [← off_nUsed h hint hn]
    exact off_mono _ hc
  refine ⟨?_, hle⟩
  induction c with
  | zero => rfl
  | succ c ih =>
    have hcount : task.count ≤ sizeMax :=
      Nat.le_trans (Nat.le_mul_of_pos_right _ (getDataTypeSize_pos task.dtype)) h.bytes_le
    have hprev := off_mono (sliceElems worldSize n task) (Nat.le_succ c)
    rw [sliceOffset, ih (by omega) (Nat.le_trans hprev hle), ← off_succ]
    exact sizeT_eq (Nat.le_trans hle hcount)

end Loop

/-! ## 4. The emitted slices -/

/-- A loop of steps that all succeed. -/
theorem foldlM_ok {α β ε : Type} {f : β → α → Except ε β} {g : β → α → β} {xs : List α}
    (h : ∀ x ∈ xs, ∀ b, f b x = .ok (g b x)) (b : β) : xs.foldlM f b = .ok (xs.foldl g b) := by
  induction xs generalizing b with
  | nil => rfl
  | cons x xs ih =>
    rw [List.foldlM_cons, h x List.mem_cons_self, List.foldl_cons]
    exact ih (fun y hy => h y (List.mem_cons_of_mem _ hy)) (g b x)

section Emit

variable {comm : CommunicatorState} {task : CollTask} {c : Nat}

/-- The slices of a task, in the order of their channels. -/
def slices (comm : CommunicatorState) (task : CollTask) : List PlanTask :=
  (List.range (nUsed comm.worldSize (max comm.getNChannels 1) task)).map (slice comm task)

/-- A slice on channel `c`. -/
def bindTo (comm : CommunicatorState) (c : Nat) (slice : PlanTask) : PlanTask :=
  bindTask (comm.channels.getD c {}) (comm.channels.getD c {}).id slice

/-- Slices with their channels go to the ends of these. -/
def pushAll (comm : CommunicatorState) (plan : CollPlan) (assigned : List (PlanTask × Nat)) : CollPlan :=
  assigned.foldl (fun plan x => plan.push x.2 (bindTo comm x.2 x.1)) plan

/-- Slice `c` goes to the end of channel `c`. -/
def placeSlices (comm : CommunicatorState) (plan : CollPlan) (slices : List PlanTask) : CollPlan :=
  pushAll comm plan slices.zipIdx

theorem length_slices (comm : CommunicatorState) (task : CollTask) :
    (slices comm task).length = nUsed comm.worldSize (max comm.getNChannels 1) task := by
  rw [slices, List.length_map, List.length_range]

theorem slices_getD (hc : c < (slices comm task).length) :
    (slices comm task).getD c {} = slice comm task c := by
  rw [List.getD_eq_getElem _ _ hc]
  simp [slices]

theorem getChannel_ok (hc : c < comm.getNChannels) :
    comm.getChannel (c % max comm.getNChannels 1) = .ok (comm.channels.getD c {}) ∧
      c % max comm.getNChannels 1 = c := by
  have hmod : c % max comm.getNChannels 1 = c := Nat.mod_eq_of_lt (by omega)
  have hc : c < comm.channels.length := hc
  refine ⟨?_, hmod⟩
  rw [hmod, CommunicatorState.getChannel, List.getElem?_eq_getElem hc, List.getD_eq_getElem _ _ hc]

theorem slice_lt (hn : 1 ≤ comm.getNChannels)
    (hc : c ∈ List.range (nUsed comm.worldSize (max comm.getNChannels 1) task)) :
    c < comm.getNChannels := by
  have hlt := List.mem_range.mp hc
  have hle := nUsed_le comm.worldSize task
    (show 1 ≤ max comm.getNChannels 1 from Nat.le_max_right ..)
  omega

/-- **Unbound slices** go to the end of the list. -/
theorem emit_unbound (hn : 1 ≤ comm.getNChannels) (plan : CollPlan) :
    emitCollectiveSlices comm task plan false =
      .ok { plan with slices := plan.slices ++ slices comm task } := by
  have hstep : ∀ c ∈ List.range (nUsed comm.worldSize (max comm.getNChannels 1) task), ∀ plan,
      emitSlice comm task false plan c =
        .ok { plan with slices := plan.slices ++ [slice comm task c] } := by
    intro c hc plan
    unfold emitSlice
    dsimp only
    rw [(getChannel_ok (slice_lt hn hc)).1]
    rfl
  rw [emitCollectiveSlices, foldlM_ok hstep, slices]
  generalize List.range _ = cs
  congr 1
  induction cs generalizing plan with
  | nil => rw [List.foldl_nil, List.map_nil, List.append_nil]
  | cons c cs ih =>
    rw [List.foldl_cons, ih, List.map_cons, List.append_assoc, List.singleton_append]

/-- **Bound slices** go to a channel each. -/
theorem emit_bound (hn : 1 ≤ comm.getNChannels) (plan : CollPlan) :
    emitCollectiveSlices comm task plan true = .ok (placeSlices comm plan (slices comm task)) := by
  have hstep : ∀ c ∈ List.range (nUsed comm.worldSize (max comm.getNChannels 1) task), ∀ plan,
      emitSlice comm task true plan c = .ok (plan.push c (bindTo comm c (slice comm task c))) := by
    intro c hc plan
    obtain ⟨hget, hmod⟩ := getChannel_ok (slice_lt hn hc)
    unfold emitSlice
    dsimp only
    rw [hget, hmod]
    rfl
  rw [emitCollectiveSlices, foldlM_ok hstep, placeSlices, pushAll, slices]
  congr 1
  rw [List.zipIdx_map, List.foldl_map, List.zipIdx_eq_zip_range', List.range_eq_range']
  simp only [List.length_range', List.zip_eq_zipWith]
  generalize List.range' 0 _ = cs
  induction cs generalizing plan with
  | nil => rfl
  | cons c cs ih =>
    rw [List.foldl_cons, List.zipWith_cons_cons, List.foldl_cons]
    exact ih _

/-- The number of elements of a slice. -/
def elems (slices : List PlanTask) (c : Nat) : Nat := (slices.getD c {}).elemCount

theorem elems_slices (hc : c < (slices comm task).length) :
    elems (slices comm task) c = sliceElems comm.worldSize (max comm.getNChannels 1) task c := by
  rw [elems, slices_getD hc]
  rfl

theorem off_elems (hc : c ≤ (slices comm task).length) : off (elems (slices comm task)) c =
    off (sliceElems comm.worldSize (max comm.getNChannels 1) task) c :=
  off_congr fun _ hi => elems_slices (Nat.lt_of_lt_of_le hi hc)

end Emit

/-! ## 5. An exact partition -/

section Exact

variable {comm : CommunicatorState} {task : CollTask} {c : Nat}

/-- The sums and products of the computation, all in range: the sizes of the task and of a unit, the
    bytes of a slice, the place where it ends, in AllGather and ReduceScatter also in block `b`, and the
    divisor of its chunk size. -/
structure InRange (comm : CommunicatorState) (task : CollTask) : Prop where
  total : task.count * getDataTypeSize task.dtype < 2 ^ 64
  unit : kChunkBytes * comm.worldSize.toNat < 2 ^ 64
  bytes : ∀ c < (slices comm task).length,
    channelUnits comm.worldSize (max comm.getNChannels 1) task c * unitBytes comm.worldSize task +
      remBytes comm.worldSize task < 2 ^ 64
  stop : ∀ c < (slices comm task).length,
    (sliceOffset comm.worldSize (max comm.getNChannels 1) task c +
      sliceElems comm.worldSize (max comm.getNChannels 1) task c) * getDataTypeSize task.dtype < 2 ^ 64
  block : task.func = .allGather ∨ task.func = .reduceScatter → ∀ c < (slices comm task).length,
    ∀ b < comm.worldSize.toNat,
    (b * task.count + sliceOffset comm.worldSize (max comm.getNChannels 1) task c +
      sliceElems comm.worldSize (max comm.getNChannels 1) task c) * getDataTypeSize task.dtype < 2 ^ 64
  chunk : ∀ c < (slices comm task).length,
    sliceElems comm.worldSize (max comm.getNChannels 1) task c + comm.worldSize.toNat < 2 ^ 64

theorem inRange (hint : comm.worldSize < 2 ^ 31) (h : Valid task comm.rank comm.worldSize) :
    InRange comm task := by
  have hn : 1 ≤ max comm.getNChannels 1 := Nat.le_max_right ..
  have hmax : sizeMax < 2 ^ 64 := by decide
  have hbytes := h.bytes_le
  have hstop : ∀ c < (slices comm task).length,
      sliceOffset comm.worldSize (max comm.getNChannels 1) task c +
        sliceElems comm.worldSize (max comm.getNChannels 1) task c ≤ task.count := by
    intro c hc
    rw [length_slices] at hc
    rw [(sliceOffset_eq h hint hn (Nat.le_of_lt hc)).1, ← off_succ]
    exact (sliceOffset_eq h hint hn hc).2
  refine ⟨by omega, ?_, fun c hc => ?_, fun c hc => ?_, fun hf c hc b hb => ?_, fun c hc => ?_⟩
  · unfold kChunkBytes
    omega
  · rw [length_slices] at hc
    have := (sliceElems_eq h hint hn hc).2.1
    omega
  · have := Nat.mul_le_mul_right (getDataTypeSize task.dtype) (hstop c hc)
    omega
  · have hblocks := h.blocks_le hf
    have hle : b * task.count + task.count ≤ comm.worldSize.toNat * task.count := by
      have := Nat.mul_le_mul_right task.count (Nat.succ_le_of_lt hb)
      rw [Nat.succ_mul] at this
      exact this
    have hsum := hstop c hc
    have := Nat.mul_le_mul_right (getDataTypeSize task.dtype)
      (show b * task.count + sliceOffset comm.worldSize (max comm.getNChannels 1) task c +
        sliceElems comm.worldSize (max comm.getNChannels 1) task c ≤
          comm.worldSize.toNat * task.count by omega)
    rw [Nat.mul_assoc] at this
    omega
  · have hsum := hstop c hc
    have hsize : 4 ≤ getDataTypeSize task.dtype := by cases task.dtype <;> decide
    have := Nat.mul_le_mul_left task.count hsize
    unfold sizeMax at hbytes
    omega

/-- The buffer of a slice. -/
theorem shiftBuf_eq (h : Valid task comm.rank comm.worldSize) (hint : comm.worldSize < 2 ^ 31)
    (hc : c < (slices comm task).length) (buf : Nat) :
    shiftBuf buf (sliceOffset comm.worldSize (max comm.getNChannels 1) task c)
        (getDataTypeSize task.dtype) =
      if buf = 0 then 0
      else buf + off (elems (slices comm task)) c * getDataTypeSize task.dtype := by
  have hle : c ≤ nUsed comm.worldSize (max comm.getNChannels 1) task := by
    rw [length_slices] at hc
    exact Nat.le_of_lt hc
  obtain ⟨hoff, hcount⟩ := sliceOffset_eq h hint (Nat.le_max_right ..) hle
  have hbytes := Nat.mul_le_mul_right (getDataTypeSize task.dtype) hcount
  rw [shiftBuf, hoff, ← off_elems (Nat.le_of_lt hc), sizeT_eq]
  rw [off_elems (Nat.le_of_lt hc)]
  exact Nat.le_trans hbytes h.bytes_le

/-- A slice has elements if the task has. -/
theorem sliceElems_pos (h : Valid task comm.rank comm.worldSize) (hint : comm.worldSize < 2 ^ 31)
    (hc : c < (slices comm task).length) (hcount : 0 < task.count) :
    0 < sliceElems comm.worldSize (max comm.getNChannels 1) task c := by
  have hn : 1 ≤ max comm.getNChannels 1 := Nat.le_max_right ..
  rw [length_slices] at hc
  by_cases hone : nUsed comm.worldSize (max comm.getNChannels 1) task = 1
  · have hall := off_nUsed h hint hn
    have hc0 : c = 0 := by omega
    rw [hone, off_succ, off_zero, Nat.zero_add] at hall
    rw [hc0, hall]
    exact hcount
  · rw [(sliceElems_eq h hint hn hc).2.2]
    have hunits : 0 < channelUnits comm.worldSize (max comm.getNChannels 1) task c :=
      channelUnits_pos (by omega)
    have := Nat.mul_pos hunits (unitElems_mul task h.size_pos hint).2
    omega

/-- **A slice of whole units** of AllReduce consists of `world_size` full chunks per unit. -/
theorem slice_units (h : Valid task comm.rank comm.worldSize) (hint : comm.worldSize < 2 ^ 31)
    (hc : c + 1 < (slices comm task).length) :
    unitBytes comm.worldSize task ∣
        (slice comm task c).elemCount * getDataTypeSize task.dtype ∧
    (task.func = .allReduce →
      (slice comm task c).elemCount = TopologyRing.allreduceUnits (slice comm task c) *
        ((slice comm task c).chunkSize * comm.worldSize.toNat) ∧
      ∀ k : Nat, k < TopologyRing.allreduceUnits (slice comm task c) * comm.worldSize.toNat →
        TopologyRing.chunkElemCount (slice comm task c).elemCount (slice comm task c).chunkSize k =
          (slice comm task c).chunkSize) := by
  have hn : 1 ≤ max comm.getNChannels 1 := Nat.le_max_right ..
  rw [length_slices] at hc
  obtain ⟨hmul, hpos⟩ := unitElems_mul task h.size_pos hint
  have hlen := (sliceElems_eq h hint hn (show c < _ by omega)).2.2
  rw [if_neg (by omega), Nat.add_zero] at hlen
  have helem : (slice comm task c).elemCount =
      channelUnits comm.worldSize (max comm.getNChannels 1) task c * unitElems comm.worldSize task :=
    hlen
  refine ⟨?_, fun hf => ?_⟩
  · rw [helem, Nat.mul_assoc, hmul]
    exact Nat.dvd_mul_left ..
  have hp := getDataTypeSize_pos task.dtype
  have hchunk : (slice comm task c).chunkSize = kChunkBytes / getDataTypeSize task.dtype := by
    show sliceChunk _ _ _ = _
    rw [sliceChunk, if_pos (by rw [hf]; simp)]
  have hunit : unitElems comm.worldSize task =
      (slice comm task c).chunkSize * comm.worldSize.toNat := by
    rw [unitElems, unitBytes_eq hint, if_pos hf, hchunk, Nat.mul_comm,
      Nat.mul_div_assoc _ (typeSize_dvd _), Nat.mul_comm]
  have hunits : TopologyRing.allreduceUnits (slice comm task c) =
      channelUnits comm.worldSize (max comm.getNChannels 1) task c := by
    have hws : (slice comm task c).worldSize.toNat = comm.worldSize.toNat := rfl
    rw [TopologyRing.allreduceUnits, hws, ← hunit, if_neg (by omega), helem, Nat.add_sub_assoc (by omega), Nat.add_comm,
      Nat.add_mul_div_right _ _ hpos, Nat.div_eq_of_lt (by omega), Nat.zero_add]
  rw [hunits, ← hunit]
  refine ⟨helem, fun k hk => ?_⟩
  have hk1 : (k + 1) * (slice comm task c).chunkSize ≤ (slice comm task c).elemCount := by
    rw [helem, hunit, Nat.mul_comm (slice comm task c).chunkSize, ← Nat.mul_assoc]
    exact Nat.mul_le_mul_right _ hk
  rw [Nat.add_mul, Nat.one_mul] at hk1
  have hcpos : 0 < (slice comm task c).chunkSize := by
    rw [hchunk]
    exact Nat.div_pos (Nat.le_of_dvd (by decide) (typeSize_dvd _)) hp
  rw [TopologyRing.chunkElemCount, Int.toNat_natCast, if_neg (by omega), Nat.min_eq_left (by omega)]

/-- **The slices of a task are an exact partition.** They are consecutive, at most one for each channel,
    none of them empty unless the task is, and together they have the elements of the task; so every
    element of the buffers, also in AllGather and ReduceScatter with their blocks, is one element of one
    slice. All but the last hold whole units, and nothing wraps around. -/
theorem slices_exact (comm : CommunicatorState) (task : CollTask) (hn : 1 ≤ comm.getNChannels)
    (hint : comm.worldSize < 2 ^ 31)
    (hv : validateCollectiveTask task comm.rank comm.worldSize = true) :
    (∀ plan, emitCollectiveSlices comm task plan false =
      .ok { plan with slices := plan.slices ++ slices comm task }) ∧
    (∀ plan, emitCollectiveSlices comm task plan true =
      .ok (placeSlices comm plan (slices comm task))) ∧
    (slices comm task).length ≤ comm.getNChannels ∧
    off (elems (slices comm task)) (slices comm task).length = task.count ∧
    (∀ c s, (slices comm task)[c]? = some s →
      (0 < task.count → 0 < s.elemCount) ∧ s.rankStride = task.count ∧
      s.sendBuf = (if task.sendBuf = 0 then 0
        else task.sendBuf + off (elems (slices comm task)) c * getDataTypeSize task.dtype) ∧
      s.recvBuf = (if task.recvBuf = 0 then 0
        else task.recvBuf + off (elems (slices comm task)) c * getDataTypeSize task.dtype) ∧
      (c + 1 < (slices comm task).length →
        unitBytes comm.worldSize task ∣ s.elemCount * getDataTypeSize task.dtype ∧
        (task.func = .allReduce →
          s.elemCount = TopologyRing.allreduceUnits s * (s.chunkSize * comm.worldSize.toNat) ∧
          ∀ k : Nat, k < TopologyRing.allreduceUnits s * comm.worldSize.toNat →
            TopologyRing.chunkElemCount s.elemCount s.chunkSize k = s.chunkSize))) ∧
    Set.BijOn (fun x : Nat × Nat => off (elems (slices comm task)) x.1 + x.2)
      {x | x.1 < (slices comm task).length ∧ x.2 < elems (slices comm task) x.1}
      (Set.Iio task.count) ∧
    Set.BijOn
      (fun x : Nat × Nat × Nat => x.2.1 * task.count + off (elems (slices comm task)) x.1 + x.2.2)
      {x | x.1 < (slices comm task).length ∧ x.2.1 < comm.worldSize.toNat ∧
        x.2.2 < elems (slices comm task) x.1}
      (Set.Iio (comm.worldSize.toNat * task.count)) ∧
    InRange comm task := by
  have h := valid_of_validate hv
  have hmax : 1 ≤ max comm.getNChannels 1 := Nat.le_max_right ..
  have hall : off (elems (slices comm task)) (slices comm task).length = task.count := by
    rw [off_elems (Nat.le_refl _), length_slices]
    exact off_nUsed h hint hmax
  refine ⟨emit_unbound hn, emit_bound hn, ?_, hall, fun c s hs => ?_, ?_, ?_, inRange hint h⟩
  · rw [length_slices]
    have := nUsed_le comm.worldSize task hmax
    omega
  · obtain ⟨hc, hget⟩ := List.getElem?_eq_some_iff.mp hs
    have hs : s = slice comm task c := by
      rw [← slices_getD hc, List.getD_eq_getElem _ _ hc, hget]
    rw [hs]
    exact ⟨sliceElems_pos h hint hc, rfl, shiftBuf_eq h hint hc _, shiftBuf_eq h hint hc _,
      slice_units h hint⟩
  · have := off_bijOn (elems (slices comm task)) (slices comm task).length
    rwa [hall] at this
  · have := block_bijOn (elems (slices comm task)) (slices comm task).length comm.worldSize.toNat
    rwa [hall] at this

end Exact

/-- Rank 0 of three ranks on two machines, with two channels. -/
def twoChannels : CommunicatorState :=
  Communicator.init (fun r => r % 2) 3 0 2 ⟨true, false, true⟩

/-- More than two units. -/
def gatherTask : CollTask :=
  { func := .allGather, sendBuf := 8, recvBuf := 2 ^ 40, count := 10000, dtype := .int64 }

theorem slices_exact_gather : (slices twoChannels gatherTask).length = 2 ∧
    off (elems (slices twoChannels gatherTask)) (slices twoChannels gatherTask).length = 10000 :=
  ⟨by decide, (slices_exact twoChannels gatherTask (by decide) (by decide) (by decide)).2.2.2.1⟩

end OriginCCL.Planner
