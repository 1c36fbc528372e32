/-
  File:      OriginCCL/Topology/RingRanges.lean
  Subject:   THE SLICES OF THE FIVE RING OPERATIONS stay inside their buffers.

  * `Sliced` -- what the planner promises of a slice.
  * `CursorFits` -- the cursors at which no index is negative or too large and nothing is divided by
    zero; `scratchBytes` -- the bytes of `temp_buffer` an operation asks for.
  * `broadcast_guarded`, `reduce_guarded`, `allGather_guarded`, `reduceScatter_guarded`,
    `allreduce_guarded`, and their starts.
  * `ringOp_guarded` -- **all five are guarded**.
-/
import OriginCCL.Topology.RingGuard

namespace OriginCCL.TopologyRing

open Net

/-! ## 1. Slices -/

/-- A task on one of `N` ranks whose chunks have elements, if it is an AllReduce. -/
structure Ranked (task : PlanTask) (N r : Nat) : Prop where
  worldSize : task.worldSize = N
  two : 2 ≤ N
  rank : task.rank = r
  rank_lt : r < N
  chunk : task.func = .allReduce → 0 < task.chunkSize

/-- A slice: its elements fit a block. -/
structure Sliced (task : PlanTask) (N r : Nat) : Prop extends Ranked task N r where
  stride : task.elemCount ≤ task.rankStride

/-- A state at a cursor. -/
def cursorState (phase step : Int) : RankState := ((freshState fun _ => 0).setPhase phase).setStep step

/-- The chunk and block indices an operation computes at a cursor. -/
def indices (task : PlanTask) (phase step : Int) : List Int :=
  match task.func with
  | .allReduce =>
    [allreduceSendChunk task (cursorState phase step), allreduceRecvChunk task (cursorState phase step)]
  | .allGather => [(task.rank - step + task.worldSize).tmod task.worldSize,
      (task.rank - step - 1 + task.worldSize).tmod task.worldSize]
  | .reduceScatter => [reduceScatterInputChunk task (cursorState phase step)]
  | _ => []

/-- The number of chunks or blocks of an operation. -/
def indexBound (task : PlanTask) : Int :=
  match task.func with
  | .allReduce => allreduceUnits task * task.worldSize
  | _ => task.worldSize

/-- **A cursor fits**: nothing is divided by zero, and no index is negative or too large. -/
def CursorFits (task : PlanTask) (phase step : Int) : Prop :=
  0 < task.worldSize ∧ 0 < task.worldSize - 1 ∧
    ∀ i ∈ indices task phase step, 0 ≤ i ∧ i < indexBound task

/-- The bytes of `temp_buffer` an operation asks for. -/
def scratchBytes (task : PlanTask) : Nat :=
  if task.elemCount = 0 then 0
  else match task.func with
    | .allReduce => task.chunkSize * getDataTypeSize task.dtype
    | .reduce => 2 * blockBytes task
    | .reduceScatter => blockBytes task
    | _ => 0

theorem apart_user_temp (a m b n : Nat) : Apart (user a) m (temp b) n :=
  Or.inl (show Space.user ≠ Space.temp by decide)

section Slices

variable {task : PlanTask} {N r : Nat}

/-- An index modulo the number of ranks. -/
theorem Ranked.index (S : Ranked task N r) {x : Int} (h : 0 ≤ x) :
    0 ≤ x.tmod task.worldSize ∧ x.tmod task.worldSize < task.worldSize := by
  have hpos : 0 < task.worldSize := by
    have := S.two
    rw [S.worldSize]
    omega
  exact ⟨Int.tmod_nonneg _ h, Int.tmod_lt_of_pos _ hpos⟩

theorem Ranked.divisors (S : Ranked task N r) : 0 < task.worldSize ∧ 0 < task.worldSize - 1 := by
  have := S.two
  rw [S.worldSize]
  omega

/-- Neighbouring indices are different. -/
theorem Ranked.neighbours (S : Ranked task N r) {x : Int} (h : 0 ≤ x) :
    ((x + 1).tmod task.worldSize).toNat ≠ (x.tmod task.worldSize).toNat := by
  have hN := S.two
  intro he
  have h1 := S.index (show 0 ≤ x + 1 by omega)
  have h0 := S.index h
  have he : (x + 1).tmod task.worldSize = x.tmod task.worldSize := by omega
  rw [Int.tmod_eq_emod_of_nonneg (by omega), Int.tmod_eq_emod_of_nonneg h] at he
  have hone := Int.emod_eq_emod_iff_emod_sub_eq_zero.mp he
  rw [show x + 1 - x = 1 by omega, Int.emod_eq_of_lt (by decide) (by rw [S.worldSize]; omega)] at hone
  exact absurd hone (by decide)

/-- **The cursors of a run** of an operation are `valid`: it begins and goes on at one, and ends done. -/
structure RingOp.Cursors (o : RingOp) (task : PlanTask) (valid : Int → Int → Prop) : Prop where
  ends : ∀ s, valid s.op.phase s.step → s.op.phase ≠ kPhaseDone →
    (o.op.settle task s).2 = none → (o.op.settle task s).1.op.phase = kPhaseDone
  goes : ∀ s phase, valid s.op.phase s.step → s.op.phase ≠ kPhaseDone →
    (o.op.settle task s).2 = some phase → valid phase (o.op.settle task s).1.step
  finishes : ∀ t t', o.start task t = .finished t' → t'.1.op.phase = kPhaseDone
  begins : ∀ t t' phase, o.start task t = .begins t' phase → valid phase t'.1.step

/-! ## 2. Broadcast and Reduce -/

/-- A task with something to move at a cursor of the chain operations. -/
def ChainCursor (task : PlanTask) (phase _step : Int) : Prop :=
  task.elemCount ≠ 0 ∧ (phase = kPhaseSend ∨ phase = kPhaseRecv ∨ phase = kPhaseDone)

/-- A cursor of the exchanges. -/
def ExchangeCursor (task : PlanTask) (phase step : Int) : Prop :=
  task.elemCount ≠ 0 ∧ 0 ≤ step ∧ step < task.worldSize ∧
    (phase ≠ kPhaseDone → phase = kPhaseExchange ∧ step < task.worldSize - 1)

/-- In a phase of a chain one side moves bytes. -/
theorem ChainCursor.active {phase step : Int} (h : ChainCursor task phase step) {sd sd' : Side}
    (ha : Active phase sd) (ha' : Active phase sd') : sd' = sd := by
  obtain ⟨-, rfl | rfl | rfl⟩ := h
  · cases sd with
    | out => cases sd' with
      | out => rfl
      | inn => exact absurd rfl ha'.1
    | inn => exact absurd rfl ha.1
  · cases sd with
    | out => exact absurd rfl ha.1
    | inn => cases sd' with
      | out => exact absurd rfl ha'.1
      | inn => rfl
  · cases sd with
    | out => exact absurd rfl ha.2
    | inn => exact absurd rfl ha.2

theorem scratch_of_ne (h : task.elemCount ≠ 0) : scratchBytes task = match task.func with
    | .allReduce => task.chunkSize * getDataTypeSize task.dtype
    | .reduce => 2 * blockBytes task
    | .reduceScatter => blockBytes task
    | _ => 0 := if_neg h

/-- A cursor of an operation without indices fits. -/
theorem Sliced.fits (S : Sliced task N r) {phase step : Int} (h : indices task phase step = []) :
    CursorFits task phase step :=
  ⟨S.divisors.1, S.divisors.2, by rw [h]; exact nofun⟩

theorem broadcast_cursors (task : PlanTask) : broadcastOp.Cursors task (ChainCursor task) := by
  refine ⟨fun s _ => (broadcast_steady task).ends s trivial, fun s phase hv hne hset => ⟨hv.1, ?_⟩,
    (broadcast_steady task).finishes, fun t t' phase h => ?_⟩
  · change (broadcastSettle task s).2 = some phase at hset
    unfold broadcastSettle at hset
    split at hset <;> cases hset
    · exact Or.inl rfl
    · exact Or.inr (Or.inr rfl)
  · change broadcastStart task t = .begins t' phase at h
    unfold broadcastStart at h
    simp only at h
    split_ifs at h with h1 h2 h3 h4 h5 <;> cases h
    · exact ⟨h2, Or.inl rfl⟩
    · exact ⟨h2, Or.inr (Or.inl rfl)⟩

theorem broadcast_guarded (S : Sliced task N r) (hf : task.func = .broadcast) :
    broadcastOp.Guarded task (ChainCursor task) (CursorFits task) (scratchBytes task) := by
  have hblocks : 0 < recvBlocks task := by
    unfold recvBlocks
    rw [hf]
    exact Nat.zero_lt_one
  have hfit : ∀ phase step, CursorFits task phase step := fun phase step =>
    S.fits (by rw [indices, hf])
  refine ⟨fun _ _ _ _ => rfl, fun phase step _ => hfit phase step, fun s sd i done _ _ => ?_,
    fun s sd sd' hv ha ha' hne => absurd (hv.active ha ha') hne, fun _ _ _ => nofun, fun s hv hne => ?_,
    fun s hv hne hset => ?_, fun s phase hv hne hset => ?_⟩
  · cases sd with
    | out => exact inside_transfer (writable_recvBuf hblocks (Within.refl _))
    | inn => exact inside_transfer (writable_recvBuf hblocks (Within.refl _))
  · change (broadcastSettle task s).1.op.tempBuffer.size = _
    unfold broadcastSettle
    split <;> rfl
  · exact (broadcast_cursors task).ends s hv hne hset
  · exact ⟨(broadcast_cursors task).goes s phase hv hne hset, hfit _ _,
      ((broadcast_steady task).goes s phase trivial hne hset).2.2⟩

theorem noted_cleared (t : Traced) {fit : Int → Int → Prop} {scratch : Nat} :
    Noted task fit scratch t (Traced.cleared t) :=
  ⟨[.assign], rfl, fun a ha => by rw [List.mem_singleton.mp ha]; exact harmless_assign⟩

section Notes

variable {fit : Int → Int → Prop} {scratch : Nat} {t t' : Traced}

theorem Noted.more (h : Noted task fit scratch t t') {as : List Effect} {s : RankState}
    (has : ∀ a ∈ as, Harmless task fit scratch a) : Noted task fit scratch t (s, t'.2 ++ as) := by
  obtain ⟨bs, hlog, hbs⟩ := h
  refine ⟨bs ++ as, ?_, fun a ha => ?_⟩
  · rw [hlog, List.append_assoc]
  · exact (List.mem_append.mp ha).elim (hbs a) (has a)

theorem Noted.state (h : Noted task fit scratch t t') (s : RankState) :
    Noted task fit scratch t (s, t'.2) := h

theorem Noted.finished (h : Noted task fit scratch t t') :
    Noted task fit scratch t (Traced.finished task t') :=
  h.more fun a ha => by rw [List.mem_singleton.mp ha]; exact harmless_assign

theorem temp_perform (as : List Effect) (t : Traced) :
    (t.perform task as).1.op.tempBuffer.size = t.1.op.tempBuffer.size :=
  congrArg (fun c => c.tempBuffer.size) (Effect.control_runAll task as t.1)

end Notes

/-- A task without elements needs no `temp_buffer`. -/
theorem scratch_of_eq (h : task.elemCount = 0) : scratchBytes task = 0 := if_pos h

theorem broadcast_starts (S : Sliced task N r) (hf : task.func = .broadcast) :
    broadcastOp.Starts task (ChainCursor task) (CursorFits task) (scratchBytes task) := by
  have hN := S.two
  have hW := S.worldSize
  refine ⟨fun t t' h => ?_, fun t t' phase h => ?_⟩
  · change broadcastStart task t = .finished t' at h
    unfold broadcastStart at h
    simp only at h
    split_ifs at h with h1 h2 h3 h4 h5
    · cases h
      exact ⟨(noted_cleared t).finished, (scratch_of_eq h2).symm, rfl⟩
    · omega
  · have hv := (broadcast_cursors task).begins t t' phase h
    change broadcastStart task t = .begins t' phase at h
    unfold broadcastStart at h
    simp only at h
    have hscratch : task.elemCount ≠ 0 → scratchBytes task = 0 := fun hne => by rw [scratch_of_ne hne, hf]
    split_ifs at h with h1 h2 h3 h4 h5
    all_goals
      cases h
      exact ⟨noted_cleared t, (hscratch h2).symm, hv, S.fits (by rw [indices, hf]), rfl⟩

theorem temp_of_control {s s' : RankState} (h : s'.control = s.control) :
    s'.op.tempBuffer.size = s.op.tempBuffer.size :=
  congrArg (fun c => c.tempBuffer.size) h

theorem harmless_of_inside {fit : Int → Int → Prop} {scratch : Nat} {a : Effect}
    (h : a.Inside task scratch) (hcursor : ∀ phase step, a ≠ .cursor phase step)
    (htransfer : ∀ sd i p n done, a ≠ .transfer sd i p n done) : Harmless task fit scratch a := by
  refine ⟨h, ?_, htransfer⟩
  cases a with
  | cursor phase step => exact absurd rfl (hcursor phase step)
  | assign | clear | transfer | memcpy | performReduce | applyAverage => trivial

/-- The average of a part that may be written. -/
theorem harmless_averageOf {fit : Int → Int → Prop} {scratch : Nat} {data : Loc} {n : Nat}
    (h : Writable task scratch (data, n * getDataTypeSize task.dtype)) :
    ∀ a ∈ averageOf task data n, Harmless task fit scratch a := by
  intro a ha
  unfold averageOf at ha
  split at ha
  · rw [List.mem_singleton.mp ha]
    exact harmless_of_inside (inside_applyAverage h) nofun nofun
  · exact absurd ha List.not_mem_nil

theorem reduce_cursors (task : PlanTask) : reduceOp.Cursors task (ChainCursor task) := by
  refine ⟨fun s _ => (reduce_steady task).ends s trivial, fun s phase hv hne hset => ⟨hv.1, ?_⟩,
    (reduce_steady task).finishes, fun t t' phase h => ?_⟩
  · change (reduceSettle task s).2 = some phase at hset
    unfold reduceSettle at hset
    split_ifs at hset <;> cases hset
    · exact Or.inr (Or.inr rfl)
    · exact Or.inr (Or.inr rfl)
    · exact Or.inl rfl
    · exact Or.inr (Or.inr rfl)
  · change reduceStart task t = .begins t' phase at h
    unfold reduceStart at h
    simp only at h
    split_ifs at h with h1 h2 h3 h4 h5 <;> cases h
    · exact ⟨h2, Or.inl rfl⟩
    · exact ⟨h2, Or.inr (Or.inl rfl)⟩

theorem reduce_guarded (S : Sliced task N r) (hf : task.func = .reduce) :
    reduceOp.Guarded task (ChainCursor task) (CursorFits task) (scratchBytes task) := by
  have hfit : ∀ phase step, CursorFits task phase step := fun phase step =>
    S.fits (by rw [indices, hf])
  have hscratch : task.elemCount ≠ 0 → scratchBytes task = 2 * blockBytes task := fun hne => by
    rw [scratch_of_ne hne, hf]
  have hlow : task.elemCount ≠ 0 → Writable task (scratchBytes task) (temp 0, blockBytes task) :=
    fun hne => writable_temp (by rw [hscratch hne]; omega)
  have hhigh : task.elemCount ≠ 0 →
      Writable task (scratchBytes task) (temp (blockBytes task), blockBytes task) :=
    fun hne => writable_temp (by rw [hscratch hne]; omega)
  refine ⟨fun _ _ _ _ => rfl, fun phase step _ => hfit phase step, fun s sd i done hv _ => ?_,
    fun s sd sd' hv ha ha' hne => absurd (hv.active ha ha') hne, fun s hv _ a ha => ?_, fun s hv hne => ?_,
    fun s hv hne hset => ?_, fun s phase hv hne hset => ?_⟩
  · cases sd with
    | out => exact inside_transfer (hlow hv.1)
    | inn => exact inside_transfer (hhigh hv.1)
  · change a ∈ reduceSettled task s at ha
    unfold reduceSettled at ha
    split at ha
    · rcases List.mem_append.mp ha with ha | ha
      · rw [List.mem_singleton.mp ha]
        exact harmless_of_inside (inside_performReduce (hhigh hv.1).readable (hlow hv.1)) nofun nofun
      · split at ha
        · rename_i hroot
          have hrecv : Writable task (scratchBytes task) (user task.recvBuf, blockBytes task) := by
            refine writable_recvBuf ?_ (Within.refl _)
            unfold recvBlocks
            rw [hf]
            dsimp only
            rw [if_pos hroot]
            exact Nat.zero_lt_one
          rcases List.mem_append.mp ha with ha | ha
          · rw [List.mem_singleton.mp ha]
            exact harmless_of_inside (inside_memcpy hrecv (hlow hv.1).readable) nofun nofun
          · exact harmless_averageOf hrecv a ha
        · exact absurd ha List.not_mem_nil
    · exact absurd ha List.not_mem_nil
  · change (reduceSettle task s).1.op.tempBuffer.size = _
    have hreduce := temp_of_control (control_reduceBlock task (temp (blockBytes task)) (temp 0) s)
    unfold reduceSettle
    dsimp only
    split_ifs
    · exact (temp_of_control (RankState.control_applyAverage ..)).trans
        ((temp_of_control (RankState.control_memcpy ..)).trans hreduce)
    · exact (temp_of_control (RankState.control_memcpy ..)).trans hreduce
    · exact hreduce
    · rfl
  · exact (reduce_cursors task).ends s hv hne hset
  · exact ⟨(reduce_cursors task).goes s phase hv hne hset, hfit _ _,
      ((reduce_steady task).goes s phase trivial hne hset).2.2⟩

theorem reduce_starts (S : Sliced task N r) (hf : task.func = .reduce) :
    reduceOp.Starts task (ChainCursor task) (CursorFits task) (scratchBytes task) := by
  have hN := S.two
  have hW := S.worldSize
  refine ⟨fun t t' h => ?_, fun t t' phase h => ?_⟩
  · change reduceStart task t = .finished t' at h
    unfold reduceStart at h
    simp only at h
    split_ifs at h with h1 h2 h3 h4 h5
    · cases h
      exact ⟨(noted_cleared t).finished, (scratch_of_eq h2).symm, rfl⟩
    · omega
  · have hv := (reduce_cursors task).begins t t' phase h
    change reduceStart task t = .begins t' phase at h
    unfold reduceStart at h
    simp only at h
    split_ifs at h with h1 h2 h3 h4 h5
    all_goals
      have hscratch : scratchBytes task = 2 * blockBytes task := by rw [scratch_of_ne h2, hf]
      have hcopy : Harmless task (CursorFits task) (scratchBytes task)
          (.memcpy (temp 0) (user task.sendBuf) (blockBytes task)) := by
        refine harmless_of_inside (inside_memcpy (writable_temp (by rw [hscratch]; omega))
          (readable_sendBuf ?_ (Within.refl _))) nofun nofun
        unfold sendBlocks
        rw [hf]
        exact Nat.zero_lt_one
      cases h
      refine ⟨(noted_cleared t).more fun a ha => by rw [List.mem_singleton.mp ha]; exact hcopy, ?_,
        hv, S.fits (by rw [indices, hf]), rfl⟩
      rw [temp_perform, hscratch]
      rfl

/-! ## 3. AllGather and ReduceScatter -/

/-- The blocks of an AllGather at a cursor: those of neighbours. -/
theorem allGather_blocks (S : Ranked task N r) {step : Int} (h1 : step < task.worldSize) :
    ∃ x : Int, 0 ≤ x ∧ task.rank - step + task.worldSize = x + 1 ∧
      task.rank - step - 1 + task.worldSize = x := by
  refine ⟨task.rank - step - 1 + task.worldSize, ?_, by omega, rfl⟩
  rw [S.rank]
  omega

/-- A block of the output may be written. -/
theorem writable_output (S : Sliced task N r) (hf : task.func = .allGather) {scratch : Nat} {x : Int}
    (h : 0 ≤ x) : Writable task scratch (outputBlock task (x.tmod task.worldSize), blockBytes task) := by
  refine writable_block ?_ (Within.refl _)
  have hi := S.index h
  unfold recvBlocks
  rw [hf]
  dsimp only
  omega

theorem allGather_fits (S : Sliced task N r) (hf : task.func = .allGather) (phase : Int) {step : Int}
    (h1 : step < task.worldSize) : CursorFits task phase step := by
  obtain ⟨x, hx, hs, hr⟩ := allGather_blocks S.toRanked h1
  refine ⟨S.divisors.1, S.divisors.2, fun i hi => ?_⟩
  have hbound : indexBound task = task.worldSize := by
    unfold indexBound
    rw [hf]
  unfold indices at hi
  rw [hf] at hi
  dsimp only at hi
  rw [hs, hr] at hi
  rw [hbound]
  rcases List.mem_cons.mp hi with rfl | hi
  · exact S.index (by omega)
  · rw [List.mem_singleton.mp hi]
    exact S.index hx

/-- The next cursor of an exchange. -/
theorem ExchangeCursor.next {phase step : Int} (h : ExchangeCursor task phase step) (hne : phase ≠ kPhaseDone) :
    ExchangeCursor task (if step + 1 < task.worldSize - 1 then kPhaseExchange else kPhaseDone) (step + 1) := by
  obtain ⟨hcount, h0, -, hmore⟩ := h
  have hlt := (hmore hne).2
  refine ⟨hcount, by omega, by omega, fun hx => ?_⟩
  by_cases hlast : step + 1 < task.worldSize - 1
  · rw [if_pos hlast]
    exact ⟨rfl, hlast⟩
  · rw [if_neg hlast] at hx
    exact absurd rfl hx

/-- The first cursor of an exchange. -/
theorem Ranked.exchange (S : Ranked task N r) (hne : task.elemCount ≠ 0) :
    ExchangeCursor task kPhaseExchange 0 := by
  have hN := S.two
  have hW := S.worldSize
  exact ⟨hne, Int.le_refl _, by omega, fun _ => ⟨rfl, by omega⟩⟩

theorem allGather_cursors (S : Ranked task N r) : allGatherOp.Cursors task (ExchangeCursor task) := by
  refine ⟨fun s _ => (allGather_steady task).ends s trivial, fun s phase hv hne hset => ?_,
    (allGather_steady task).finishes, fun t t' phase h => ?_⟩
  · obtain rfl := Option.some.inj hset
    exact hv.next hne
  · change allGatherStart task t = .begins t' phase at h
    unfold allGatherStart at h
    simp only at h
    split_ifs at h with h1 h2 h3 h4
    cases h
    have hstep : (Traced.perform task [.memcpy (outputBlock task task.rank) (user task.sendBuf)
        (blockBytes task)] (Traced.cleared t)).1.step = 0 :=
      step_eq_of_control (Effect.control_runAll task _ (clear t.1))
    rw [hstep]
    exact S.exchange h2

theorem allGather_guarded (S : Sliced task N r) (hf : task.func = .allGather) :
    allGatherOp.Guarded task (ExchangeCursor task) (CursorFits task) (scratchBytes task) := by
  refine ⟨(allGather_steady task).buffer, fun phase step hv => allGather_fits S hf phase hv.2.2.1,
    fun s sd i done hv _ => ?_, fun s sd sd' hv _ _ hne => ?_, fun _ _ _ => nofun, fun _ _ _ => rfl,
    fun _ _ _ hset => absurd hset (Option.some_ne_none _), fun s phase hv hne hset => ?_⟩
  · obtain ⟨x, hx, hs, hr⟩ := allGather_blocks S.toRanked hv.2.2.1
    cases sd with
    | out =>
      refine inside_transfer ?_
      change Writable task _ (allGatherSendPtr task s, blockBytes task)
      rw [allGatherSendPtr, hs]
      exact writable_output S hf (by omega)
    | inn =>
      refine inside_transfer ?_
      change Writable task _ (allGatherRecvPtr task s, blockBytes task)
      rw [allGatherRecvPtr, hr]
      exact writable_output S hf hx
  · obtain ⟨x, hx, hs, hr⟩ := allGather_blocks S.toRanked hv.2.2.1
    have hapart : Apart (allGatherSendPtr task s) (blockBytes task) (allGatherRecvPtr task s)
        (blockBytes task) := by
      rw [allGatherSendPtr, allGatherRecvPtr, hs, hr]
      exact block_apart _ _ S.stride (S.neighbours hx)
    cases sd with
    | out => cases sd' with
      | out => exact absurd rfl hne
      | inn => exact hapart
    | inn => cases sd' with
      | out => exact hapart.symm
      | inn => exact absurd rfl hne
  · have hnext := (allGather_cursors S.toRanked).goes s phase hv hne hset
    exact ⟨hnext, allGather_fits S hf _ hnext.2.2.1, ((allGather_steady task).goes s phase trivial hne hset).2.2⟩

theorem allGather_starts (S : Sliced task N r) (hf : task.func = .allGather) :
    allGatherOp.Starts task (ExchangeCursor task) (CursorFits task) (scratchBytes task) := by
  have hN := S.two
  have hW := S.worldSize
  refine ⟨fun t t' h => ?_, fun t t' phase h => ?_⟩
  · change allGatherStart task t = .finished t' at h
    unfold allGatherStart at h
    simp only at h
    split_ifs at h with h1 h2 h3 h4
    · cases h
      exact ⟨(noted_cleared t).finished, (scratch_of_eq h2).symm, rfl⟩
    · omega
  · have hv := (allGather_cursors S.toRanked).begins t t' phase h
    change allGatherStart task t = .begins t' phase at h
    unfold allGatherStart at h
    simp only at h
    split_ifs at h with h1 h2 h3 h4
    have hscratch : scratchBytes task = 0 := by rw [scratch_of_ne h2, hf]
    have hcopy : Harmless task (CursorFits task) (scratchBytes task)
        (.memcpy (outputBlock task task.rank) (user task.sendBuf) (blockBytes task)) := by
      refine harmless_of_inside (inside_memcpy (writable_block ?_ (Within.refl _))
        (readable_sendBuf ?_ (Within.refl _))) nofun nofun
      · unfold recvBlocks
        rw [hf, S.rank]
        have := S.rank_lt
        dsimp only
        omega
      · unfold sendBlocks
        rw [hf]
        exact Nat.zero_lt_one
    cases h
    refine ⟨(noted_cleared t).more fun a ha => by rw [List.mem_singleton.mp ha]; exact hcopy, ?_, hv,
      allGather_fits S hf _ hv.2.2.1, rfl⟩
    rw [temp_perform, hscratch]
    rfl

theorem temp_reduceScatterSettle (task : PlanTask) (s : RankState) :
    (reduceScatterSettle task s).1.op.tempBuffer.size = s.op.tempBuffer.size := by
  have hreduce := temp_of_control (control_reduceBlock task
    (inputBlock task (reduceScatterInputChunk task s)) (reduceScatterRecvPtr task s) s)
  have hcopy : ∀ x : RankState, (x.memcpy (user task.recvBuf) (reduceScatterRecvPtr task s)
      (blockBytes task)).op.tempBuffer.size = x.op.tempBuffer.size :=
    fun _ => temp_of_control (RankState.control_memcpy ..)
  have havg : ∀ x : RankState, (x.applyAverage (user task.recvBuf) task.elemCount task.dtype
      task.worldSize).op.tempBuffer.size = x.op.tempBuffer.size :=
    fun _ => temp_of_control (RankState.control_applyAverage ..)
  unfold reduceScatterSettle
  dsimp only
  split_ifs
  · exact hreduce
  · exact (havg _).trans ((hcopy _).trans hreduce)
  · exact (havg _).trans hreduce
  · exact (hcopy _).trans hreduce
  · exact hreduce

/-- A block of the input may be read. -/
theorem readable_input (S : Sliced task N r) (hf : task.func = .reduceScatter) {scratch : Nat} {x : Int}
    (h : 0 ≤ x) : Readable task scratch (inputBlock task (x.tmod task.worldSize), blockBytes task) := by
  refine readable_block ?_ (Within.refl _)
  have hi := S.index h
  unfold sendBlocks
  rw [hf]
  dsimp only
  omega

theorem reduceScatter_fits (S : Sliced task N r) (hf : task.func = .reduceScatter) (phase : Int) {step : Int}
    (h1 : step < task.worldSize) : CursorFits task phase step := by
  refine ⟨S.divisors.1, S.divisors.2, fun i hi => ?_⟩
  have hbound : indexBound task = task.worldSize := by
    unfold indexBound
    rw [hf]
  unfold indices at hi
  rw [hf] at hi
  rw [hbound, List.mem_singleton.mp hi]
  refine S.index ?_
  change 0 ≤ task.rank - step - 2 + 2 * task.worldSize
  have := S.two
  have := S.worldSize
  rw [S.rank]
  omega

/-- The two buffers of a ReduceScatter. -/
theorem reduceScatter_writable (hf : task.func = .reduceScatter) (hne : task.elemCount ≠ 0) :
    Writable task (scratchBytes task) (user task.recvBuf, blockBytes task) ∧
      Writable task (scratchBytes task) (temp 0, blockBytes task) := by
  refine ⟨writable_recvBuf ?_ (Within.refl _), writable_temp ?_⟩
  · unfold recvBlocks
    rw [hf]
    exact Nat.zero_lt_one
  · rw [scratch_of_ne hne, hf]
    dsimp only
    omega

theorem reduceScatter_incoming (hf : task.func = .reduceScatter) (hne : task.elemCount ≠ 0) (s : RankState) :
    Writable task (scratchBytes task) (reduceScatterRecvPtr task s, blockBytes task) := by
  obtain ⟨hrecv, htemp⟩ := reduceScatter_writable hf hne
  unfold reduceScatterRecvPtr
  split
  · exact htemp
  · exact hrecv

theorem reduceScatter_cursors (S : Ranked task N r) :
    reduceScatterOp.Cursors task (ExchangeCursor task) := by
  refine ⟨fun s _ => (reduceScatter_steady task).ends s trivial, fun s phase hv hne hset => ?_,
    (reduceScatter_steady task).finishes, fun t t' phase h => ?_⟩
  · change (reduceScatterSettle task s).2 = some phase at hset
    obtain ⟨hstep, hphase⟩ := reduceScatterSettle_eq task s
    rw [hphase] at hset
    obtain rfl := Option.some.inj hset
    change ExchangeCursor task _ (reduceScatterSettle task s).1.step
    rw [hstep]
    exact hv.next hne
  · change reduceScatterStart task t = .begins t' phase at h
    unfold reduceScatterStart at h
    simp only at h
    split_ifs at h with h1 h2 h3 h4
    cases h
    have hstep : ∀ as : List Effect, (Traced.perform task as
        ((Traced.cleared t).1.resizeTemp (blockBytes task), (Traced.cleared t).2)).1.step = 0 := fun as =>
      step_eq_of_control (Effect.control_runAll task as ((clear t.1).resizeTemp (blockBytes task)))
    rw [hstep]
    exact S.exchange h2

theorem reduceScatter_guarded (S : Sliced task N r) (hf : task.func = .reduceScatter) :
    reduceScatterOp.Guarded task (ExchangeCursor task) (CursorFits task) (scratchBytes task) := by
  refine ⟨(reduceScatter_steady task).buffer, fun phase step hv => reduceScatter_fits S hf phase hv.2.2.1,
    fun s sd i done hv _ => ?_, fun s sd sd' hv _ _ hne => ?_, fun s hv hne a ha => ?_, fun s _ _ => ?_,
    fun s _ hne hset => (reduceScatter_steady task).ends s trivial hne hset, fun s phase hv hne hset => ?_⟩
  · obtain ⟨hrecv, htemp⟩ := reduceScatter_writable hf hv.1
    cases sd with
    | out =>
      refine inside_transfer ?_
      change Writable task _ (reduceScatterSendPtr task s, blockBytes task)
      unfold reduceScatterSendPtr
      split
      · exact hrecv
      · exact htemp
    | inn => exact inside_transfer (reduceScatter_incoming hf hv.1 s)
  · have hapart : Apart (reduceScatterSendPtr task s) (blockBytes task) (reduceScatterRecvPtr task s)
        (blockBytes task) := by
      unfold reduceScatterSendPtr reduceScatterRecvPtr
      split
      · exact apart_user_temp ..
      · exact (apart_user_temp ..).symm
    cases sd with
    | out => cases sd' with
      | out => exact absurd rfl hne
      | inn => exact hapart
    | inn => cases sd' with
      | out => exact hapart.symm
      | inn => exact absurd rfl hne
  · have hrecv := (reduceScatter_writable hf hv.1).1
    have hincoming := reduceScatter_incoming hf hv.1 s
    change a ∈ reduceScatterSettled task s at ha
    unfold reduceScatterSettled at ha
    dsimp only at ha
    rcases List.mem_append.mp ha with ha | ha
    · rcases List.mem_cons.mp ha with rfl | ha
      · exact harmless_cursor (reduceScatter_fits S hf _ hv.2.2.1)
      · rw [List.mem_singleton.mp ha]
        refine harmless_of_inside (inside_performReduce (readable_input S hf ?_) hincoming) nofun nofun
        have h1 := hv.2.2.1
        have := S.two
        have := S.worldSize
        rw [S.rank]
        omega
    · split at ha
      · exact absurd ha List.not_mem_nil
      · rcases List.mem_append.mp ha with ha | ha
        · split at ha
          · rw [List.mem_singleton.mp ha]
            exact harmless_of_inside (inside_memcpy hrecv hincoming.readable) nofun nofun
          · exact absurd ha List.not_mem_nil
        · exact harmless_averageOf hrecv a ha
  · exact temp_reduceScatterSettle task s
  · have hnext := (reduceScatter_cursors S.toRanked).goes s phase hv hne hset
    exact ⟨hnext, reduceScatter_fits S hf _ hnext.2.2.1,
      ((reduceScatter_steady task).goes s phase trivial hne hset).2.2⟩

theorem reduceScatter_starts (S : Sliced task N r) (hf : task.func = .reduceScatter) :
    reduceScatterOp.Starts task (ExchangeCursor task) (CursorFits task) (scratchBytes task) := by
  have hN := S.two
  have hW := S.worldSize
  refine ⟨fun t t' h => ?_, fun t t' phase h => ?_⟩
  · change reduceScatterStart task t = .finished t' at h
    unfold reduceScatterStart at h
    simp only at h
    split_ifs at h with h1 h2 h3 h4
    · cases h
      exact ⟨(noted_cleared t).finished, (scratch_of_eq h2).symm, rfl⟩
    · omega
  · have hv := (reduceScatter_cursors S.toRanked).begins t t' phase h
    change reduceScatterStart task t = .begins t' phase at h
    unfold reduceScatterStart at h
    simp only at h
    split_ifs at h with h1 h2 h3 h4
    have hscratch : scratchBytes task = blockBytes task := by rw [scratch_of_ne h2, hf]
    have hindex : 0 ≤ task.rank - 1 + task.worldSize := by
      rw [S.rank]
      omega
    have hcopy : Harmless task (CursorFits task) (scratchBytes task) (.memcpy (user task.recvBuf)
        (inputBlock task ((task.rank - 1 + task.worldSize).tmod task.worldSize)) (blockBytes task)) :=
      harmless_of_inside (inside_memcpy (reduceScatter_writable hf h2).1 (readable_input S hf hindex))
        nofun nofun
    cases h
    refine ⟨(noted_cleared t).more fun a ha => by rw [List.mem_singleton.mp ha]; exact hcopy, ?_, hv,
      reduceScatter_fits S hf _ hv.2.2.1, rfl⟩
    rw [temp_perform, hscratch]
    rfl

/-! ## 4. AllReduce -/

/-- A cursor of AllReduce. -/
def AllreduceAt (task : PlanTask) (phase step : Int) : Prop :=
  task.elemCount ≠ 0 ∧ AllreduceCursor phase step ∧ step.toNat < totalOps task

/-- **The chunks of an AllReduce at a cursor** are neighbours in the same unit. -/
theorem allreduce_chunks (S : Ranked task N r) {s : RankState} (h0 : 0 ≤ s.step) :
    ∃ x : Int, 0 ≤ x ∧
      allreduceSendChunk task s = allreduceUnit task s * task.worldSize + (x + 1).tmod task.worldSize ∧
      allreduceRecvChunk task s = allreduceUnit task s * task.worldSize + x.tmod task.worldSize := by
  have hN := S.two
  have hdiv := S.divisors.2
  have hlo : 0 ≤ allreduceStepInUnit task s := Int.tmod_nonneg _ h0
  have hhi : allreduceStepInUnit task s < task.worldSize - 1 := Int.tmod_lt_of_pos _ hdiv
  have hW := S.worldSize
  have hR := S.rank
  unfold allreduceSendChunk allreduceRecvChunk
  dsimp only
  by_cases hp : s.op.phase = kPhaseReduceScatter
  · refine ⟨task.rank - allreduceStepInUnit task s + task.worldSize - 1, by omega, ?_, ?_⟩
    · rw [if_pos hp, show task.rank - allreduceStepInUnit task s + task.worldSize - 1 + 1 =
        task.rank - allreduceStepInUnit task s + task.worldSize by omega]
    · rw [if_pos hp]
  · refine ⟨task.rank - allreduceStepInUnit task s + task.worldSize, by omega, ?_, ?_⟩
    · rw [if_neg hp, show task.rank - allreduceStepInUnit task s + 1 + task.worldSize =
        task.rank - allreduceStepInUnit task s + task.worldSize + 1 by omega]
    · rw [if_neg hp]

/-- The unit of a step. -/
theorem allreduce_unit (S : Ranked task N r) {s : RankState} (h0 : 0 ≤ s.step)
    (h1 : s.step.toNat < totalOps task) :
    0 ≤ allreduceUnit task s ∧ allreduceUnit task s < allreduceUnits task := by
  have hdiv := S.divisors.2
  have hlt : s.step < allreduceUnits task * (task.worldSize - 1) := by
    unfold totalOps at h1
    have hcast : ((allreduceUnits task * (task.worldSize - 1).toNat : Nat) : Int) =
        allreduceUnits task * (task.worldSize - 1) := by
      rw [Int.natCast_mul, Int.toNat_of_nonneg (Int.le_of_lt hdiv)]
    omega
  unfold allreduceUnit
  rw [Int.tdiv_eq_ediv_of_nonneg h0]
  exact ⟨Int.ediv_nonneg h0 (Int.le_of_lt hdiv), Int.ediv_lt_of_lt_mul hdiv hlt⟩

/-- An index of AllReduce. -/
theorem allreduce_index (S : Ranked task N r) {s : RankState} (h0 : 0 ≤ s.step)
    (h1 : s.step.toNat < totalOps task) {x : Int} (hx : 0 ≤ x) :
    0 ≤ allreduceUnit task s * task.worldSize + x.tmod task.worldSize ∧
      allreduceUnit task s * task.worldSize + x.tmod task.worldSize <
        allreduceUnits task * task.worldSize := by
  obtain ⟨hlo, hhi⟩ := S.index hx
  obtain ⟨hu0, hu1⟩ := allreduce_unit S h0 h1
  have hpos := S.divisors.1
  have hmul := Int.mul_nonneg hu0 (Int.le_of_lt hpos)
  have hle := Int.mul_le_mul_of_nonneg_right (Int.add_one_le_of_lt hu1) (Int.le_of_lt hpos)
  rw [Int.add_mul, Int.one_mul] at hle
  omega

theorem allreduce_fits (S : Ranked task N r) (hf : task.func = .allReduce) {phase step : Int}
    (h : AllreduceAt task phase step) : CursorFits task phase step := by
  have h0 : 0 ≤ (cursorState phase step).step := h.2.1.1
  have h1 : (cursorState phase step).step.toNat < totalOps task := h.2.2
  obtain ⟨x, hx, hsend, hrecv⟩ := allreduce_chunks S h0
  refine ⟨S.divisors.1, S.divisors.2, fun i hi => ?_⟩
  have hbound : indexBound task = allreduceUnits task * task.worldSize := by
    unfold indexBound
    rw [hf]
  unfold indices at hi
  rw [hf] at hi
  dsimp only at hi
  rw [hsend, hrecv] at hi
  rw [hbound]
  rcases List.mem_cons.mp hi with rfl | hi
  · exact allreduce_index S h0 h1 (by omega)
  · rw [List.mem_singleton.mp hi]
    exact allreduce_index S h0 h1 hx

/-- A chunk of the receive buffer may be written. -/
theorem writable_chunk (hf : task.func = .allReduce) {scratch : Nat} (chunk : Int) :
    Writable task scratch (user (task.recvBuf + chunk.toNat * task.chunkSize * getDataTypeSize task.dtype),
      chunkElemCount task.elemCount task.chunkSize chunk * getDataTypeSize task.dtype) := by
  refine writable_recvBuf ?_ (chunk_within ..)
  unfold recvBlocks
  rw [hf]
  exact Nat.zero_lt_one

/-- So may the room for one in `temp_buffer`. -/
theorem writable_incoming (hf : task.func = .allReduce) (hne : task.elemCount ≠ 0) (chunk : Int) :
    Writable task (scratchBytes task) (temp 0,
      chunkElemCount task.elemCount task.chunkSize chunk * getDataTypeSize task.dtype) := by
  refine writable_temp ?_
  rw [scratch_of_ne hne, hf, Nat.zero_add]
  refine Nat.mul_le_mul_right _ ?_
  unfold chunkElemCount
  dsimp only
  split
  · exact Nat.zero_le _
  · exact Nat.min_le_left ..

/-- An AllReduce with elements has steps to make. -/
theorem Ranked.totalOps_pos (S : Ranked task N r) (hf : task.func = .allReduce) (hne : task.elemCount ≠ 0) :
    0 < totalOps task := by
  have hN := S.two
  have hW := S.worldSize
  have hper : 0 < task.chunkSize * task.worldSize.toNat := Nat.mul_pos (S.chunk hf) (by omega)
  unfold totalOps allreduceUnits
  dsimp only
  rw [if_neg (Nat.ne_of_gt hper)]
  exact Nat.mul_pos (Nat.div_pos (by omega) hper) (by omega)

/-- The next cursor of an AllReduce. -/
theorem AllreduceAt.next {s : RankState} {phase : Int} (hv : AllreduceAt task s.op.phase s.step)
    (hset : (allreduceSettle task s).2 = some phase) :
    AllreduceAt task phase (allreduceSettle task s).1.step ∧
      (allreduceSettle task s).1.op.phase = phase := by
  obtain ⟨s', ⟨hs, -, hphase, hstep⟩ | ⟨hs, -⟩ | ⟨hs, hphase, hstep, hmore⟩⟩ :=
    allreduceSettle_cases task hv.2.1
  · rw [hs] at hset ⊢
    obtain rfl := Option.some.inj hset
    refine ⟨⟨hv.1, ⟨Int.le_of_eq hstep.symm, Or.inr rfl⟩, ?_⟩, hphase⟩
    have hlt := hv.2.2
    dsimp only
    rw [hstep, Int.toNat_zero]
    omega
  · rw [hs] at hset
    cases hset
  · rw [hs] at hset ⊢
    obtain rfl := Option.some.inj hset
    have h0 := hv.2.1.1
    refine ⟨⟨hv.1, ⟨?_, hv.2.1.2⟩, ?_⟩, hphase⟩
    · dsimp only
      rw [hstep]
      omega
    · dsimp only
      rw [hstep]
      exact hmore

theorem allreduce_cursors (S : Ranked task N r) (hf : task.func = .allReduce) :
    allreduceOp.Cursors task (AllreduceAt task) := by
  refine ⟨fun s hv => (allreduce_steady task).ends s hv.2.1, fun s phase hv _ hset => (hv.next hset).1,
    (allreduce_steady task).finishes, fun t t' phase h => ?_⟩
  change allreduceStart task t = .begins t' phase at h
  unfold allreduceStart at h
  simp only at h
  split_ifs at h with h1 h2 h3 h4 h5 <;> cases h <;>
    exact ⟨h2, ⟨Int.le_refl _, Or.inl rfl⟩, S.totalOps_pos hf h2⟩

theorem allreduce_guarded (S : Sliced task N r) (hf : task.func = .allReduce) :
    allreduceOp.Guarded task (AllreduceAt task) (CursorFits task) (scratchBytes task) := by
  refine ⟨(allreduce_steady task).buffer, fun phase step hv => allreduce_fits S.toRanked hf hv,
    fun s sd i done hv _ => ?_, fun s sd sd' hv _ _ hne => ?_, fun s hv hne a ha => ?_, fun s hv _ => ?_,
    fun s hv hne hset => (allreduce_steady task).ends s hv.2.1 hne hset, fun s phase hv hne hset => ?_⟩
  · cases sd with
    | out => exact inside_transfer (writable_chunk hf _)
    | inn =>
      refine inside_transfer ?_
      change Writable task _ (allreduceRecvPtr task s, _)
      unfold allreduceRecvPtr
      split
      · exact writable_incoming hf hv.1 _
      · exact writable_chunk hf _
  · obtain ⟨x, hx, hsend, hrecv⟩ := allreduce_chunks S.toRanked hv.2.1.1
    have hapart : Apart (allreduceSendPtr task s) (allreduceSendBytes task s) (allreduceRecvPtr task s)
        (allreduceRecvBytes task s) := by
      unfold allreduceRecvPtr
      split
      · exact apart_user_temp ..
      · refine extents_apart _ _ _ _ ?_
        have hu := (allreduce_unit S.toRanked hv.2.1.1 hv.2.2).1
        have hmul := Int.mul_nonneg hu (Int.le_of_lt S.divisors.1)
        have h1 := S.index (show 0 ≤ x + 1 by omega)
        have h0 := S.index hx
        have hneq := S.neighbours hx
        rw [hsend, hrecv]
        omega
    cases sd with
    | out => cases sd' with
      | out => exact absurd rfl hne
      | inn => exact hapart
    | inn => cases sd' with
      | out => exact hapart.symm
      | inn => exact absurd rfl hne
  · change a ∈ allreduceSettled task s at ha
    unfold allreduceSettled at ha
    split at ha
    · dsimp only at ha
      rcases List.mem_append.mp ha with ha | ha
      · rcases List.mem_cons.mp ha with rfl | ha
        · exact harmless_cursor (allreduce_fits S.toRanked hf hv)
        · rw [List.mem_singleton.mp ha]
          exact harmless_of_inside (inside_performReduce (writable_incoming hf hv.1 _).readable
            (writable_chunk hf _)) nofun nofun
      · split at ha
        · rw [List.mem_singleton.mp ha]
          exact harmless_of_inside (inside_applyAverage (writable_chunk hf _)) nofun nofun
        · exact absurd ha List.not_mem_nil
    · exact absurd ha List.not_mem_nil
  · have hreduce := temp_of_control (control_allreduceReduce task s)
    change (allreduceSettle task s).1.op.tempBuffer.size = _
    unfold allreduceSettle
    dsimp only
    split_ifs <;> first | exact hreduce | rfl
  · have hturn := ((allreduce_steady task).goes s phase hv.2.1 hne hset).2.2
    have hat : AllreduceAt task phase (allreduceSettle task s).1.step ∧
      (allreduceSettle task s).1.op.phase = phase := hv.next hset
    change AllreduceAt task phase (allreduceSettle task s).1.step ∧
      CursorFits task (allreduceSettle task s).1.op.phase (allreduceSettle task s).1.step ∧ _
    refine ⟨hat.1, ?_, hturn⟩
    rw [hat.2]
    exact allreduce_fits S.toRanked hf hat.1

theorem allreduce_starts (S : Sliced task N r) (hf : task.func = .allReduce) :
    allreduceOp.Starts task (AllreduceAt task) (CursorFits task) (scratchBytes task) := by
  have hN := S.two
  have hW := S.worldSize
  have hsend : 0 < sendBlocks task := by
    unfold sendBlocks
    rw [hf]
    exact Nat.zero_lt_one
  have hrecv : 0 < recvBlocks task := by
    unfold recvBlocks
    rw [hf]
    exact Nat.zero_lt_one
  refine ⟨fun t t' h => ?_, fun t t' phase h => ?_⟩
  · change allreduceStart task t = .finished t' at h
    unfold allreduceStart at h
    simp only at h
    split_ifs at h with h1 h2 h3 h4 h5
    · cases h
      exact ⟨(noted_cleared t).finished, (scratch_of_eq h2).symm, rfl⟩
    · omega
    · omega
  · change allreduceStart task t = .begins t' phase at h
    unfold allreduceStart at h
    simp only at h
    have hcopy : Harmless task (CursorFits task) (scratchBytes task) (.memcpy (user task.recvBuf)
        (user task.sendBuf) (task.elemCount * getDataTypeSize task.dtype)) :=
      harmless_of_inside (inside_memcpy (writable_recvBuf hrecv (Within.refl _))
        (readable_sendBuf hsend (Within.refl _))) nofun nofun
    split_ifs at h with h1 h2 h3 h4 h5
    all_goals
      have hscratch : scratchBytes task = task.chunkSize * getDataTypeSize task.dtype := by
        rw [scratch_of_ne h2, hf]
      have hat : AllreduceAt task kPhaseReduceScatter 0 :=
        ⟨h2, ⟨Int.le_refl _, Or.inl rfl⟩, S.totalOps_pos hf h2⟩
      cases h
      refine ⟨(noted_cleared t).more fun a ha => ?_, hscratch.symm, hat, allreduce_fits S.toRanked hf hat, rfl⟩
    · rw [List.mem_singleton.mp ha]
      exact hcopy
    · exact absurd ha List.not_mem_nil

/-- **The five operations of a slice are guarded.** -/
theorem ringOp_guarded (S : Sliced task N r) {o : RingOp} (h : ringOp task.func = some o) :
    ∃ valid, o.Guarded task valid (CursorFits task) (scratchBytes task) ∧
      o.Starts task valid (CursorFits task) (scratchBytes task) := by
  cases hf : task.func with
  | allReduce =>
    rw [hf] at h
    obtain rfl := Option.some.inj h
    exact ⟨_, allreduce_guarded S hf, allreduce_starts S hf⟩
  | broadcast =>
    rw [hf] at h
    obtain rfl := Option.some.inj h
    exact ⟨_, broadcast_guarded S hf, broadcast_starts S hf⟩
  | allGather =>
    rw [hf] at h
    obtain rfl := Option.some.inj h
    exact ⟨_, allGather_guarded S hf, allGather_starts S hf⟩
  | reduce =>
    rw [hf] at h
    obtain rfl := Option.some.inj h
    exact ⟨_, reduce_guarded S hf, reduce_starts S hf⟩
  | reduceScatter =>
    rw [hf] at h
    obtain rfl := Option.some.inj h
    exact ⟨_, reduceScatter_guarded S hf, reduceScatter_starts S hf⟩
  | send | recv =>
    rw [hf] at h
    cases h

end Slices

end OriginCCL.TopologyRing
