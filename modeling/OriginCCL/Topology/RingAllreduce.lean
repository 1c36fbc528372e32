/-
  File:      OriginCCL/Topology/RingAllreduce.lean
  Subject:   RING ALLREDUCE goes through `2 · K` rounds, `K = totalOps`.

  In the first `K` rounds a chunk travels around the ring and every rank adds its own input, in the
  second `K` the reduced chunks travel around. Round `t` of either half moves one chunk of unit
  `t / (N - 1)`; which one is decoded from the step by division and modulo, and a chunk past the end
  of the buffer is empty.

  * `allreduceRounds` -- the rounds of one rank, in ring positions (`back`).
  * `allreduce_controls` -- **the code goes through them**.
  * `allreduce_task` -- the calls of an AllReduce, from the first one on.
-/
import OriginCCL.Base.Reduction
import OriginCCL.Topology.RingRounds

namespace OriginCCL.TopologyRing

open Net Base

/-! ## 1. Steps as chunks -/

/-- The elements of chunk `c`. -/
def chunkLen (task : PlanTask) (c : Nat) : Nat := chunkElemCount task.elemCount task.chunkSize c

/-- The address of chunk `c` in the receive buffer. -/
def chunkPtr (task : PlanTask) (c : Nat) : Loc :=
  user (task.recvBuf + c * task.chunkSize * getDataTypeSize task.dtype)

/-- The step of round `t` within its half. -/
def halfStep (K t : Nat) : Nat := if t < K then t else t - K

/-- The rank a chunk's distance is counted from in round `t`. -/
def halfBase (N r K t : Nat) : Nat := if t < K then r else (r + 1) % N

/-- The chunk that is `k` steps before the base of round `t`, in the round's unit. -/
def roundChunk (N r K t k : Nat) : Nat :=
  halfStep K t / (N - 1) * N + back N (halfBase N r K t) k

def sendChunkAt (N r K t : Nat) : Nat := roundChunk N r K t (halfStep K t % (N - 1))

def recvChunkAt (N r K t : Nat) : Nat := roundChunk N r K t (halfStep K t % (N - 1) + 1)

/-- The rounds of AllReduce on rank `r`. -/
def allreduceRounds (task : PlanTask) (N r : Nat) : Rounds where
  total := 2 * totalOps task
  phase t := if t < totalOps task then kPhaseReduceScatter else kPhaseAllGather
  step t := halfStep (totalOps task) t
  sendLen t := chunkLen task (sendChunkAt N r (totalOps task) t) * getDataTypeSize task.dtype
  recvLen t := chunkLen task (recvChunkAt N r (totalOps task) t) * getDataTypeSize task.dtype
  sendLoc t := chunkPtr task (sendChunkAt N r (totalOps task) t)
  recvLoc t := if t < totalOps task then temp 0
    else chunkPtr task (recvChunkAt N r (totalOps task) t)

section Control

variable {task : PlanTask} {N r : Nat} {lo li : Link} {s : RankState} {t : Nat}

theorem back_mod {N r k : Nat} (hr : r < 2 * N) (hk : k ≤ N) :
    (r + N - k) % N = back N (r % N) k := by
  unfold back
  by_cases h : r < N
  · rw [Nat.mod_eq_of_lt h]
  · have e : r % N = r - N := by
      rw [Nat.mod_eq_sub_mod (by omega), Nat.mod_eq_of_lt (by omega)]
    rw [e, show r + N - k = r - N + N - k + N by omega, Nat.add_mod_right]

theorem allreduceUnit_eq (W : OnRing task N r lo li) {x : Nat} (hs : s.step = x) :
    allreduceUnit task s = (x / (N - 1) : Nat) := by
  have h := W.two_le
  have e : task.worldSize - 1 = ((N - 1 : Nat) : Int) := by rw [W.worldSize]; omega
  rw [allreduceUnit, hs, e]
  rfl

theorem allreduceStepInUnit_eq (W : OnRing task N r lo li) {x : Nat} (hs : s.step = x) :
    allreduceStepInUnit task s = (x % (N - 1) : Nat) := by
  have h := W.two_le
  have e : task.worldSize - 1 = ((N - 1 : Nat) : Int) := by rw [W.worldSize]; omega
  rw [allreduceStepInUnit, hs, e]
  rfl

/-- The step of a rank's cursors in round `t`. -/
structure AtStep (task : PlanTask) (s : RankState) (t : Nat) : Prop where
  phase : s.op.phase = if t < totalOps task then kPhaseReduceScatter else kPhaseAllGather
  step : s.step = halfStep (totalOps task) t

theorem halfStep_mod_lt (W : OnRing task N r lo li) (x : Nat) : x % (N - 1) + 1 < N := by
  have h := W.two_le
  have := Nat.mod_lt x (show 0 < N - 1 by omega)
  omega

/-- **The chunk the code sends** in round `t`. -/
theorem allreduceSendChunk_eq (W : OnRing task N r lo li) (h : AtStep task s t) :
    allreduceSendChunk task s = (sendChunkAt N r (totalOps task) t : Nat) := by
  have hlt := W.lt
  have hi := halfStep_mod_lt W (halfStep (totalOps task) t)
  simp only [allreduceSendChunk, allreduceStepInUnit_eq W h.step, allreduceUnit_eq W h.step, W.rank,
    W.worldSize]
  have hchunk : (if s.op.phase = kPhaseReduceScatter then
      ((r : Int) - (halfStep (totalOps task) t % (N - 1) : Nat) + N).tmod N
      else ((r : Int) - (halfStep (totalOps task) t % (N - 1) : Nat) + 1 + N).tmod N) =
      (back N (halfBase N r (totalOps task) t) (halfStep (totalOps task) t % (N - 1)) : Nat) := by
    rw [h.phase]
    by_cases ht : t < totalOps task
    · rw [if_pos ht, if_pos rfl, halfBase, if_pos ht]
      exact tmod_back (by omega)
    · rw [if_neg ht, if_neg (by decide), halfBase, if_neg ht,
        ← back_mod (by omega) (by omega)]
      exact tmod_back (r := r + 1) (by omega)
  rw [hchunk, sendChunkAt, roundChunk]
  push_cast
  rfl

/-- **The chunk the code receives** in round `t`. -/
theorem allreduceRecvChunk_eq (W : OnRing task N r lo li) (h : AtStep task s t) :
    allreduceRecvChunk task s = (recvChunkAt N r (totalOps task) t : Nat) := by
  have hlt := W.lt
  have hi := halfStep_mod_lt W (halfStep (totalOps task) t)
  simp only [allreduceRecvChunk, allreduceStepInUnit_eq W h.step, allreduceUnit_eq W h.step, W.rank,
    W.worldSize]
  have hchunk : (if s.op.phase = kPhaseReduceScatter then
      ((r : Int) - (halfStep (totalOps task) t % (N - 1) : Nat) + N - 1).tmod N
      else ((r : Int) - (halfStep (totalOps task) t % (N - 1) : Nat) + N).tmod N) =
      (back N (halfBase N r (totalOps task) t) (halfStep (totalOps task) t % (N - 1) + 1) :
        Nat) := by
    rw [h.phase]
    by_cases ht : t < totalOps task
    · rw [if_pos ht, if_pos rfl, halfBase, if_pos ht]
      exact tmod_back (by omega)
    · rw [if_neg ht, if_neg (by decide), halfBase, if_neg ht, back_next hlt (by omega)]
      exact tmod_back (by omega)
  rw [hchunk, recvChunkAt, roundChunk]
  push_cast
  rfl

/-- The buffers of the code are those of the round. -/
theorem allreduce_buffers (W : OnRing task N r lo li) (h : AtStep task s t) :
    allreduceSendPtr task s = (allreduceRounds task N r).sendLoc t ∧
      allreduceSendBytes task s = (allreduceRounds task N r).sendLen t ∧
      allreduceRecvPtr task s = (allreduceRounds task N r).recvLoc t ∧
      allreduceRecvBytes task s = (allreduceRounds task N r).recvLen t := by
  refine ⟨?_, ?_, ?_, ?_⟩
  · rw [allreduceSendPtr, allreduceSendChunk_eq W h]
    rfl
  · rw [allreduceSendBytes, allreduceSendChunk_eq W h]
    rfl
  · rw [allreduceRecvPtr, allreduceRecvChunk_eq W h, h.phase]
    by_cases ht : t < totalOps task
    · simp only [allreduceRounds, if_pos ht, if_true]
    · simp only [allreduceRounds, if_neg ht]
      rw [if_neg (by decide)]
      rfl
  · rw [allreduceRecvBytes, allreduceRecvChunk_eq W h]
    rfl

theorem allreduce_begins (W : OnRing task N r lo li) (h : AtStep task s t) :
    Begins allreduce task (allreduceRounds task N r) t s := by
  obtain ⟨h1, h2, h3, h4⟩ := allreduce_buffers W h
  have hphase : (allreduceRounds task N r).phase t = kPhaseReduceScatter ∨
      (allreduceRounds task N r).phase t = kPhaseAllGather := by
    simp only [allreduceRounds]
    split
    · exact Or.inl rfl
    · exact Or.inr rfl
  refine ⟨?_, ?_, fun _ => ⟨h1, h2⟩, fun _ => ⟨h3, h4⟩⟩
  · have e : ((allreduceRounds task N r).phase t == kPhaseRecv ||
        (allreduceRounds task N r).phase t == kPhaseDone) = false := by
      rcases hphase with e | e <;> rw [e] <;> decide
    change (_ || allreduceSendBytes task s == 0) = _
    rw [e, h2]
    rfl
  · have e : ((allreduceRounds task N r).phase t == kPhaseSend ||
        (allreduceRounds task N r).phase t == kPhaseDone) = false := by
      rcases hphase with e | e <;> rw [e] <;> decide
    change (_ || allreduceRecvBytes task s == 0) = _
    rw [e, h4]
    rfl

/-! ## 2. What happens between two rounds -/

theorem control_allreduceReduce (task : PlanTask) (s : RankState) :
    (allreduceReduce task s).control = s.control := by
  unfold allreduceReduce
  dsimp only
  split
  · rw [RankState.control_applyAverage, RankState.control_performReduce]
  · rw [RankState.control_performReduce]

theorem allreduceReduce_phase (task : PlanTask) (s : RankState) :
    (allreduceReduce task s).op.phase = s.op.phase := by
  have h := congrArg CollOpState.phase (control_allreduceReduce task s)
  exact h

theorem allreduceReduce_step (task : PlanTask) (s : RankState) :
    (allreduceReduce task s).step = s.step := by
  have h := congrArg (fun c => c.algo.ring.step) (control_allreduceReduce task s)
  exact h

/-- **A round of the first half** is settled by reducing the received chunk; the last one turns to the
    second half. -/
theorem allreduceSettle_first (h : AtStep task s t) (ht : t < totalOps task) :
    ∃ s', allreduceSettle task s = (s', some s'.op.phase) ∧ AtStep task s' (t + 1) ∧
      s'.byteAt = (allreduceReduce task s).byteAt := by
  have hphase : s.op.phase = kPhaseReduceScatter := by rw [h.phase, if_pos ht]
  have hstep : s.step = t := by rw [h.step, halfStep, if_pos ht]
  have hr : (allreduceReduce task s).op.phase = kPhaseReduceScatter := by
    rw [allreduceReduce_phase, hphase]
  have hnum : ((allreduceReduce task s).step + 1).toNat = t + 1 := by
    rw [allreduceReduce_step, hstep]
    rfl
  unfold allreduceSettle
  simp only [if_pos hphase]
  by_cases hlast : totalOps task ≤ t + 1
  · refine ⟨(((allreduceReduce task s).setStep ((allreduceReduce task s).step + 1)).setPhase
        kPhaseAllGather).setStep 0, ?_, ⟨?_, ?_⟩, rfl⟩
    · refine if_pos ⟨hr, ?_⟩
      change ((allreduceReduce task s).step + 1).toNat ≥ totalOps task
      omega
    · rw [if_neg (by omega)]
      rfl
    · rw [halfStep, if_neg (by omega), show t + 1 - totalOps task = 0 by omega]
      rfl
  · refine ⟨(allreduceReduce task s).setStep ((allreduceReduce task s).step + 1), ?_, ⟨?_, ?_⟩, rfl⟩
    · rw [if_neg, if_neg]
      · rintro ⟨hag, -⟩
        have hag : (allreduceReduce task s).op.phase = kPhaseAllGather := hag
        rw [hr] at hag
        exact absurd hag (by decide)
      · rintro ⟨-, hge⟩
        have hge : ((allreduceReduce task s).step + 1).toNat ≥ totalOps task := hge
        omega
    · rw [if_pos (by omega)]
      exact hr
    · rw [halfStep, if_pos (by omega)]
      change (allreduceReduce task s).step + 1 = _
      rw [allreduceReduce_step, hstep]
      rfl

/-- **A round of the second half** changes no byte; the last one ends the task. -/
theorem allreduceSettle_second (h : AtStep task s t) (ht : totalOps task ≤ t)
    (ht' : t < 2 * totalOps task) :
    ∃ s', s'.byteAt = s.byteAt ∧ s'.mem = s.mem ∧
      ((t + 1 = 2 * totalOps task ∧ allreduceSettle task s = (s', none) ∧
        s'.op.phase = kPhaseDone) ∨
      (t + 1 < 2 * totalOps task ∧ allreduceSettle task s = (s', some s'.op.phase) ∧
        AtStep task s' (t + 1))) := by
  have hphase : s.op.phase = kPhaseAllGather := by rw [h.phase, if_neg (by omega)]
  have hstep : s.step = (t - totalOps task : Nat) := by rw [h.step, halfStep, if_neg (by omega)]
  have hnum : (s.step + 1).toNat = t - totalOps task + 1 := by
    rw [hstep]
    rfl
  have hne : ¬ s.op.phase = kPhaseReduceScatter := by rw [hphase]; decide
  unfold allreduceSettle
  simp only [if_neg hne]
  rw [if_neg (fun hx => hne hx.1)]
  by_cases hlast : t + 1 = 2 * totalOps task
  · refine ⟨(s.setStep (s.step + 1)).setPhase kPhaseDone, rfl, rfl, Or.inl ⟨hlast, ?_, rfl⟩⟩
    refine if_pos ⟨hphase, ?_⟩
    change (s.step + 1).toNat ≥ totalOps task
    omega
  · refine ⟨s.setStep (s.step + 1), rfl, rfl, Or.inr ⟨by omega, ?_, ?_, ?_⟩⟩
    · refine if_neg ?_
      rintro ⟨-, hge⟩
      have hge : (s.step + 1).toNat ≥ totalOps task := hge
      omega
    · rw [if_neg (by omega)]
      exact hphase
    · rw [halfStep, if_neg (by omega)]
      change s.step + 1 = _
      rw [hstep]
      omega

/-- **AllReduce goes through its rounds.** -/
theorem allreduce_controls (W : OnRing task N r lo li) :
    Controls allreduce task (allreduceRounds task N r) where
  phase_ne t _ := by
    simp only [allreduceRounds]
    split <;> exact ⟨by decide, by decide⟩
  buffers t _ s hphase hstep := by
    obtain ⟨h1, h2, h3, h4⟩ := allreduce_buffers W ⟨hphase, hstep⟩
    exact ⟨fun _ => ⟨h1, h2⟩, fun _ => ⟨h3, h4⟩⟩
  next t ht s hphase hstep := by
    have ht : t + 1 < 2 * totalOps task := ht
    have hset : ∃ s', allreduceSettle task s = (s', some s'.op.phase) ∧ AtStep task s' (t + 1) := by
      by_cases hK : t < totalOps task
      · obtain ⟨s', hset, hat, -⟩ := allreduceSettle_first ⟨hphase, hstep⟩ hK
        exact ⟨s', hset, hat⟩
      · obtain ⟨s', -, -, ⟨hlast, -⟩ | ⟨-, hset, hat⟩⟩ :=
          allreduceSettle_second ⟨hphase, hstep⟩ (by omega) (by omega)
        · omega
        · exact ⟨s', hset, hat⟩
    obtain ⟨s', hset, hat⟩ := hset
    change (allreduceSettle task s).2 = _ ∧ (allreduceSettle task s).1.step = _ ∧
      Begins _ _ _ _ (allreduceSettle task s).1
    rw [hset]
    refine ⟨?_, hat.step, allreduce_begins W hat⟩
    rw [hat.phase]
    rfl
  last t ht s hphase hstep := by
    have ht : t + 1 = 2 * totalOps task := ht
    obtain ⟨s', -, -, ⟨-, hset, hd⟩ | ⟨hlt, -⟩⟩ :=
      allreduceSettle_second ⟨hphase, hstep⟩ (by omega) (by omega)
    · left
      change (allreduceSettle task s).2 = _ ∧ (allreduceSettle task s).1.op.phase = _
      rw [hset]
      exact ⟨rfl, hd⟩
    · omega

/-! ## 3. The first call -/

theorem totalOps_pos (W : OnRing task N r lo li) (hcount : task.elemCount ≠ 0)
    (hchunk : 1 ≤ task.chunkSize) : 0 < totalOps task := by
  have hN := W.two_le
  have e1 : task.worldSize.toNat = N := by rw [W.worldSize]; rfl
  have e2 : (task.worldSize - 1).toNat = N - 1 := by rw [W.worldSize]; omega
  have hunit : 0 < task.chunkSize * N := Nat.mul_pos hchunk (by omega)
  unfold totalOps allreduceUnits
  rw [e1, e2]
  dsimp only
  rw [if_neg (by omega)]
  refine Nat.mul_pos (Nat.div_pos ?_ hunit) (by omega)
  omega

/-- The buffers a reduction needs are there. -/
def HasBuffers (task : PlanTask) : Prop := task.sendBuf ≠ 0 ∧ task.recvBuf ≠ 0

/-- The bytes after the input has been copied to the receive buffer. -/
def copied (task : PlanTask) (m : Mem) (a : Nat) : UInt8 :=
  if task.recvBuf ≤ a ∧ a < task.recvBuf + task.elemCount * getDataTypeSize task.dtype then
    m (task.sendBuf + (a - task.recvBuf))
  else m a

/-- The state in which the first call begins round 0: the input is in the receive buffer. -/
def allreducePrep (task : PlanTask) (m : Mem) : RankState :=
  let s := clear (freshState m)
  let s := if task.sendBuf ≠ task.recvBuf then
      s.memcpy (user task.recvBuf) (user task.sendBuf) (task.elemCount * getDataTypeSize task.dtype)
    else s
  ((s.resizeTemp (task.chunkSize * getDataTypeSize task.dtype)).setPhase
    kPhaseReduceScatter).setStep 0

theorem allreducePrep_bytes (task : PlanTask) (m : Mem) (a : Nat) :
    (allreducePrep task m).byteAt (user a) = copied task m a := by
  unfold allreducePrep
  by_cases hsame : task.sendBuf = task.recvBuf
  · rw [copied, hsame]
    simp only [ne_eq, not_true_eq_false, if_false]
    split
    · rename_i h
      rw [Nat.add_sub_cancel' h.1]
      rfl
    · rfl
  · simp only [ne_eq, hsame, not_false_eq_true, if_true]
    change ((clear (freshState m)).memcpy (user task.recvBuf) (user task.sendBuf)
      (task.elemCount * getDataTypeSize task.dtype)).byteAt (user a) = _
    rw [RankState.byteAt_memcpy, copied]
    by_cases hin : task.recvBuf ≤ a ∧ a < task.recvBuf +
        task.elemCount * getDataTypeSize task.dtype
    · rw [if_pos ⟨rfl, hin⟩, if_pos hin]
      rfl
    · rw [if_neg (fun h => hin h.2), if_neg hin]
      rfl

theorem allreduce_runs {ring : TopologyRing} (hfunc : task.func = .allReduce)
    (htopo : task.topology = some (.ring ring)) :
    Runs allreduce task (2 * totalOps task + 3) (allreduceInit task) := by
  refine ⟨fun m => ?_, fun e s => ?_, fun s => ?_⟩
  · simp only [channelSystem, htopo, Topology.collectiveInit, collectiveInit, hfunc]
  · simp only [channelSystem, htopo, Topology.collectiveStep, collectiveStep, hfunc]
    rfl
  · simp only [channelSystem, htopo, Topology.collectiveDone]

/-- **An AllReduce is a task that goes through its rounds.** -/
theorem allreduce_task {ring : TopologyRing} (W : OnRing task N r lo li)
    (hfunc : task.func = .allReduce) (htopo : task.topology = some (.ring ring))
    (hcount : task.elemCount ≠ 0) (hchunk : 1 ≤ task.chunkSize) (hbuf : HasBuffers task) :
    RingTask allreduce task (allreduceRounds task N r) (allreducePrep task) lo li := by
  have hN := W.two_le
  have hK := totalOps_pos W hcount hchunk
  have hat : ∀ m, AtStep task (allreducePrep task m) 0 := by
    intro m
    refine ⟨?_, ?_⟩
    · rw [if_pos hK]
      rfl
    · rw [halfStep, if_pos hK]
      rfl
  refine ⟨W.sends, W.recvs, allreduce_controls W, ?_, fun m => (hat m).step,
    fun m => allreduce_begins W (hat m),
    ⟨2 * totalOps task + 3, allreduceInit task, ?_, allreduce_runs hfunc htopo, fun m => ?_⟩⟩
  · change 0 < 2 * totalOps task
    omega
  · change 2 * totalOps task < 2 * totalOps task + 3
    omega
  · have hphase : (allreduceRounds task N r).phase 0 = kPhaseReduceScatter := if_pos hK
    have hnz : ¬ task.worldSize ≤ 0 := by rw [W.worldSize]; omega
    have hn1 : ¬ task.worldSize = 1 := by rw [W.worldSize]; omega
    have hlinks : ¬ (task.sendTransports.isEmpty = true ∨ task.recvTransports.isEmpty = true) := by
      rw [W.sends, W.recvs]
      simp
    unfold allreduceInit
    simp only [if_neg hnz, if_neg hcount, if_neg (not_or.mpr hbuf), if_neg hn1, if_neg hlinks,
      hphase]
    rfl

end Control

end OriginCCL.TopologyRing
