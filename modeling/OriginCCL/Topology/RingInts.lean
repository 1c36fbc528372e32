/-
  File:      OriginCCL/Topology/RingInts.lean
  Subject:   THE RING STATE MACHINES WITH THE `int` ARITHMETIC OF THE SOURCE.

  The step of a ring task and the indices computed from it are `int`s, cast to `size_t` where they become
  pointers. The calls of Ring.lean compute with integers of any size; those of this file wrap around. A
  sum wraps once, behind its last term: that is where wrapping after every term ends up as well.

  * `Ints.collectiveInit`, `Ints.collectiveStep` -- the calls on `int`s.
  * `Agrees` -- an operation that computes the same at the cursors of its run.
  * `collectiveInit_same`, `collectiveStep_same` -- **with at most `2 ^ 31` chunks or blocks**, on ranks
    whose numbers have sums of three that fit, the calls are the same.
-/
import OriginCCL.Base.MachineInts
import OriginCCL.Net.Images
import OriginCCL.Topology.RingRanges

namespace OriginCCL.TopologyRing

open Net Base

/-! ## 1. The calls -/

namespace Ints

def chunkElemCount (count chunkSize : Nat) (chunkIndex : Int) : Nat :=
  let start := toSize chunkIndex * chunkSize
  if start ≥ count then 0 else min chunkSize (count - start)

def allreduceSendChunk (task : PlanTask) (s : RankState) : Int :=
  let step := allreduceStepInUnit task s
  let worldSize := task.worldSize
  let chunk := if s.op.phase = kPhaseReduceScatter then
      (int32 (task.rank - step + worldSize)).tmod worldSize
    else (int32 (task.rank - step + 1 + worldSize)).tmod worldSize
  int32 (allreduceUnit task s * worldSize + chunk)

def allreduceRecvChunk (task : PlanTask) (s : RankState) : Int :=
  let step := allreduceStepInUnit task s
  let worldSize := task.worldSize
  let chunk := if s.op.phase = kPhaseReduceScatter then
      (int32 (task.rank - step + worldSize - 1)).tmod worldSize
    else (int32 (task.rank - step + worldSize)).tmod worldSize
  int32 (allreduceUnit task s * worldSize + chunk)

def allreduceSendBytes (task : PlanTask) (s : RankState) : Nat :=
  chunkElemCount task.elemCount task.chunkSize (allreduceSendChunk task s) *
    getDataTypeSize task.dtype

def allreduceRecvBytes (task : PlanTask) (s : RankState) : Nat :=
  chunkElemCount task.elemCount task.chunkSize (allreduceRecvChunk task s) *
    getDataTypeSize task.dtype

def allreduceRecvPtr (task : PlanTask) (s : RankState) : Loc :=
  if s.op.phase = kPhaseReduceScatter then temp 0
  else user (task.recvBuf +
    toSize (allreduceRecvChunk task s) * task.chunkSize * getDataTypeSize task.dtype)

def allreduceSendPtr (task : PlanTask) (s : RankState) : Loc :=
  user (task.recvBuf +
    toSize (allreduceSendChunk task s) * task.chunkSize * getDataTypeSize task.dtype)

def outputBlock (task : PlanTask) (block : Int) : Loc :=
  user (task.recvBuf + toSize block * task.rankStride * getDataTypeSize task.dtype)

def inputBlock (task : PlanTask) (block : Int) : Loc :=
  user (task.sendBuf + toSize block * task.rankStride * getDataTypeSize task.dtype)

def rootPosition (task : PlanTask) : Int :=
  (int32 (task.rank - task.root + task.worldSize)).tmod task.worldSize

def reduceScatterInputChunk (task : PlanTask) (s : RankState) : Int :=
  (int32 (task.rank - s.step - 2 + 2 * task.worldSize)).tmod task.worldSize

def allGatherSendPtr (task : PlanTask) (s : RankState) : Loc :=
  outputBlock task ((int32 (task.rank - s.step + task.worldSize)).tmod task.worldSize)

def allGatherRecvPtr (task : PlanTask) (s : RankState) : Loc :=
  outputBlock task ((int32 (task.rank - s.step - 1 + task.worldSize)).tmod task.worldSize)

/-- Between two phases of `CompleteAllGather`. -/
def allGatherSettle (task : PlanTask) (s : RankState) : RankState × Option Int :=
  let s := s.setStep (int32 (s.step + 1))
  (s, some (if s.step < task.worldSize - 1 then kPhaseExchange else kPhaseDone))

def allGather : Operation where
  sendPtr := allGatherSendPtr
  recvPtr := allGatherRecvPtr
  sendBytes task _ := blockBytes task
  recvBytes task _ := blockBytes task
  settle := allGatherSettle

/-- Between two phases of `CompleteReduceScatter`. -/
def reduceScatterSettle (task : PlanTask) (s : RankState) : RankState × Option Int :=
  let incoming := reduceScatterRecvPtr task s
  let s := reduceBlock task (inputBlock task (reduceScatterInputChunk task s)) incoming s
  let s := s.setStep (int32 (s.step + 1))
  if s.step < task.worldSize - 1 then (s, some kPhaseExchange)
  else
    let s := if incoming ≠ user task.recvBuf then
        s.memcpy (user task.recvBuf) incoming (blockBytes task)
      else s
    let s := if task.reduceOp = .avg then
        s.applyAverage (user task.recvBuf) task.elemCount task.dtype task.worldSize
      else s
    (s, some kPhaseDone)

def reduceScatter : Operation where
  sendPtr := reduceScatterSendPtr
  recvPtr := reduceScatterRecvPtr
  sendBytes task _ := blockBytes task
  recvBytes task _ := blockBytes task
  settle := reduceScatterSettle

/-- The reduction at the end of a round of the first phase of AllReduce. -/
def allreduceReduce (task : PlanTask) (s : RankState) : RankState :=
  let recvChunk := allreduceRecvChunk task s
  let recvCount := chunkElemCount task.elemCount task.chunkSize recvChunk
  let recvPtr := user (task.recvBuf +
    toSize recvChunk * task.chunkSize * getDataTypeSize task.dtype)
  let s' := s.performReduce (temp 0) recvPtr recvCount task.dtype (sumFirst task.reduceOp)
  if task.reduceOp = .avg ∧ allreduceStepInUnit task s = task.worldSize - 2 then
    s'.applyAverage recvPtr recvCount task.dtype task.worldSize
  else s'

/-- Between two rounds of `CompleteAllreduce`. -/
def allreduceSettle (task : PlanTask) (s : RankState) : RankState × Option Int :=
  let s := if s.op.phase = kPhaseReduceScatter then allreduceReduce task s else s
  let s := s.setStep (int32 (s.step + 1))
  if s.op.phase = kPhaseReduceScatter ∧ toSize s.step ≥ totalOps task then
    ((s.setPhase kPhaseAllGather).setStep 0, some kPhaseAllGather)
  else if s.op.phase = kPhaseAllGather ∧ toSize s.step ≥ totalOps task then
    (s.setPhase kPhaseDone, none)
  else (s, some s.op.phase)

def allreduce : Operation where
  sendPtr := allreduceSendPtr
  recvPtr := allreduceRecvPtr
  sendBytes := allreduceSendBytes
  recvBytes := allreduceRecvBytes
  settle := allreduceSettle

def completeAllreduce (task : PlanTask) : RankState → Call RankState :=
  allreduce.completeLoop task (2 * totalOps task + 3)

def completeAllGather (task : PlanTask) : RankState → Call RankState :=
  allGather.completeLoop task (task.worldSize.toNat + 1)

def completeReduceScatter (task : PlanTask) : RankState → Call RankState :=
  reduceScatter.completeLoop task (task.worldSize.toNat + 1)

def allreduceInit (task : PlanTask) (s : RankState) : Call RankState :=
  let s := clear s
  let typeSize := getDataTypeSize task.dtype
  if task.worldSize ≤ 0 then .fail .error
  else if task.elemCount = 0 then pure (finishAtOnce task s)
  else if task.sendBuf = 0 ∨ task.recvBuf = 0 then .fail .error
  else
    let s := if task.sendBuf ≠ task.recvBuf then
        s.memcpy (user task.recvBuf) (user task.sendBuf) (task.elemCount * typeSize)
      else s
    if task.worldSize = 1 then
      let s := if task.reduceOp = .avg then
          s.applyAverage (user task.recvBuf) task.elemCount task.dtype task.worldSize
        else s
      pure (s.setPhase kPhaseDone)
    else if task.sendTransports.isEmpty ∨ task.recvTransports.isEmpty then .fail .error
    else do
      let s := (s.resizeTemp (task.chunkSize * typeSize)).setPhase kPhaseReduceScatter
      let s ← allreduce.begin task kPhaseReduceScatter (s.setStep 0)
      completeAllreduce task s

def allGatherInit (task : PlanTask) (s : RankState) : Call RankState :=
  let s := clear s
  if task.worldSize ≤ 0 then .fail .error
  else if task.elemCount = 0 then pure (finishAtOnce task s)
  else if task.sendBuf = 0 ∨ task.recvBuf = 0 then .fail .error
  else
    let s := s.memcpy (outputBlock task task.rank) (user task.sendBuf) (blockBytes task)
    if task.worldSize = 1 then pure (finishAtOnce task s)
    else if task.sendTransports.isEmpty ∨ task.recvTransports.isEmpty then .fail .error
    else do
      let s ← allGather.begin task kPhaseExchange s
      completeAllGather task s

def reduceInit (task : PlanTask) (s : RankState) : Call RankState :=
  let s := clear s
  if task.worldSize ≤ 0 ∨ task.root < 0 ∨ task.root ≥ task.worldSize then .fail .error
  else if task.elemCount = 0 then pure (finishAtOnce task s)
  else if task.sendBuf = 0 ∨ (task.rank = task.root ∧ task.recvBuf = 0) then .fail .error
  else if task.worldSize = 1 then
    pure (finishAtOnce task
      (s.memcpy (user task.recvBuf) (user task.sendBuf) (blockBytes task)))
  else if task.sendTransports.isEmpty ∨ task.recvTransports.isEmpty then .fail .error
  else do
    let s := (s.resizeTemp (2 * blockBytes task)).memcpy (temp 0) (user task.sendBuf)
      (blockBytes task)
    let phase := if rootPosition task = 1 then kPhaseSend else kPhaseRecv
    let s ← reduce.begin task phase s
    completeReduce task s

def reduceScatterInit (task : PlanTask) (s : RankState) : Call RankState :=
  let s := clear s
  if task.worldSize ≤ 0 then .fail .error
  else if task.elemCount = 0 then pure (finishAtOnce task s)
  else if task.sendBuf = 0 ∨ task.recvBuf = 0 then .fail .error
  else if task.worldSize = 1 then
    pure (finishAtOnce task
      (s.memcpy (user task.recvBuf) (user task.sendBuf) (blockBytes task)))
  else if task.sendTransports.isEmpty ∨ task.recvTransports.isEmpty then .fail .error
  else do
    let s := (s.resizeTemp (blockBytes task)).memcpy (user task.recvBuf)
      (inputBlock task ((int32 (task.rank - 1 + task.worldSize)).tmod task.worldSize)) (blockBytes task)
    let s ← reduceScatter.begin task kPhaseExchange s
    completeReduceScatter task s

/-- `CollectiveInit`. A Broadcast computes with nothing but ranks. -/
def collectiveInit (task : PlanTask) (s : RankState) : Call RankState :=
  match task.func with
  | .allReduce => allreduceInit task s
  | .broadcast => broadcastInit task s
  | .allGather => allGatherInit task s
  | .reduce => reduceInit task s
  | .reduceScatter => reduceScatterInit task s
  | _ => .fail .error

def collectiveStep (task : PlanTask) (event : CollEvent) (s : RankState) : Call RankState :=
  match task.func with
  | .allReduce => allreduce.stepWith (allreduceInit task) (completeAllreduce task) task event s
  | .broadcast => broadcastStep task event s
  | .allGather => allGather.stepWith (allGatherInit task) (completeAllGather task) task event s
  | .reduce => reduce.stepWith (reduceInit task) (completeReduce task) task event s
  | .reduceScatter =>
    reduceScatter.stepWith (reduceScatterInit task) (completeReduceScatter task) task event s
  | _ => .fail .error

end Ints

/-! ## 2. Operations that compute the same -/

/-- **An operation computes the same as `o`** at the cursors `valid` of a run of `o`: its buffers there and
    in the state that is about to begin a phase, and what it settles. -/
structure Agrees (o : RingOp) (op : Operation) (task : PlanTask) (valid : Int → Int → Prop) : Prop where
  buffer : ∀ s phase, valid phase s.step → op.buffer task s = o.op.buffer task s
  settle : ∀ s, valid s.op.phase s.step → s.op.phase ≠ kPhaseDone → op.settle task s = o.op.settle task s

/-- The task is done or at a cursor of its run. -/
def AtCursor (valid : Int → Int → Prop) (s : RankState) : Prop :=
  s.op.phase = kPhaseDone ∨ valid s.op.phase s.step

section Calls

variable {o : RingOp} {op : Operation} {task : PlanTask} {valid : Int → Int → Prop}

/-- A push leaves the cursor where it is. -/
theorem pushBuffer_cursor (event : CollEvent) (b : Side → Loc × Nat) (s : RankState) :
    (pushBuffer task event (b .out).1 (b .inn).1 (b .out).2 (b .inn).2 s).Ensures
      fun s' => s'.op.phase = s.op.phase ∧ s'.step = s.step := by
  have h := (Traced.pushBuffer_always task event b (s, [])).ensures
  rw [← Traced.pushBuffer_erase task event _ _ _ _ (s, []), Prog.ensures_map]
  exact Prog.ensures_mono (fun t ht => ⟨ht.phase, ht.step⟩) h

/-- Equal buffers, part by part. -/
theorem buffer_parts {op' : Operation} {s : RankState} (h : op.buffer task s = op'.buffer task s) :
    op.sendPtr task s = op'.sendPtr task s ∧ op.recvPtr task s = op'.recvPtr task s ∧
      op.sendBytes task s = op'.sendBytes task s ∧ op.recvBytes task s = op'.recvBytes task s :=
  ⟨congrArg Prod.fst (congrFun h .out), congrArg Prod.fst (congrFun h .inn),
    congrArg Prod.snd (congrFun h .out), congrArg Prod.snd (congrFun h .inn)⟩

theorem begin_same (A : Agrees o op task valid) {phase : Int} {s : RankState} (hv : valid phase s.step) :
    Prog.Image id (AtCursor valid) (o.op.begin task phase s) (op.begin task phase s) := by
  obtain ⟨hsend, hrecv, hsendBytes, hrecvBytes⟩ := buffer_parts (A.buffer s phase hv)
  have hsame : op.begin task phase s = o.op.begin task phase s := by
    unfold Operation.begin
    rw [hsend, hrecv, hsendBytes, hrecvBytes]
  rw [hsame]
  refine .same ((Prog.ensures_bind _ _).mpr (Prog.ensures_mono (fun s₁ h₁ => ?_)
    (pushBuffer_cursor .writable (o.op.buffer task s) _)))
  refine Prog.ensures_mono (fun s₂ h₂ => Or.inr ?_) (pushBuffer_cursor .readable (o.op.buffer task s) s₁)
  rw [h₂.1, h₂.2, h₁.1, h₁.2]
  exact hv

theorem completeLoop_same (C : o.Cursors task valid) (A : Agrees o op task valid) (fuel : Nat)
    {s : RankState} (hs : AtCursor valid s) :
    Prog.Image id (AtCursor valid) (o.op.completeLoop task fuel s) (op.completeLoop task fuel s) := by
  induction fuel generalizing s with
  | zero => exact .fail _
  | succ fuel ih =>
    rw [Operation.completeLoop, Operation.completeLoop]
    by_cases hcond : (sideDone s.op.sendDone && sideDone s.op.recvDone && s.op.phase != kPhaseDone) = true
    · rw [if_pos hcond, if_pos hcond]
      rw [Bool.and_eq_true, bne_iff_ne] at hcond
      have hv := hs.resolve_left hcond.2
      rw [A.settle s hv hcond.2]
      cases hset : o.op.settle task s with
      | mk s' next =>
        cases next with
        | none =>
          have hend := C.ends s hv hcond.2 (by rw [hset])
          rw [hset] at hend
          exact .ret (Or.inl hend)
        | some phase =>
          have hv' := C.goes s phase hv hcond.2 (by rw [hset])
          rw [hset] at hv'
          exact (begin_same A hv').bind fun s₂ hs₂ => ih hs₂
    · rw [if_neg hcond, if_neg hcond]
      exact .ret hs

/-- What an operation does with the start of a task. -/
def startWith (op : Operation) (task : PlanTask) (rounds : Nat) : Start → Call RankState
  | .rejected => .fail .error
  | .finished t => pure t.1
  | .begins t phase => op.begin task phase t.1 >>= op.completeLoop task rounds

theorem start_same (C : o.Cursors task valid) (A : Agrees o op task valid) (s : RankState) :
    Prog.Image id (AtCursor valid) (startWith o.op task (o.rounds task) (o.start task (s, [])))
      (startWith op task (o.rounds task) (o.start task (s, []))) := by
  cases hstart : o.start task (s, []) with
  | rejected => exact .fail _
  | finished t => exact .ret (Or.inl (C.finishes _ _ hstart))
  | begins t phase =>
    exact (begin_same A (C.begins _ _ _ hstart)).bind fun s₁ hs₁ => completeLoop_same C A _ hs₁

theorem stepWith_same (C : o.Cursors task valid) (A : Agrees o op task valid)
    {init init' : RankState → Call RankState}
    (hinit : ∀ s, Prog.Image id (AtCursor valid) (init s) (init' s)) (fuel : Nat) (event : CollEvent)
    {s : RankState} (hs : s.op.phase ≠ kPhaseUnstarted → AtCursor valid s) :
    Prog.Image id (AtCursor valid) (o.op.stepWith init (o.op.completeLoop task fuel) task event s)
      (op.stepWith init' (op.completeLoop task fuel) task event s) := by
  have hdrive : ∀ s : RankState, AtCursor valid s → Prog.Image id (AtCursor valid)
      (if s.op.phase = kPhaseDone then pure s
        else pushBuffer task event (o.op.sendPtr task s) (o.op.recvPtr task s) (o.op.sendBytes task s)
          (o.op.recvBytes task s) s >>= o.op.completeLoop task fuel)
      (if s.op.phase = kPhaseDone then pure s
        else pushBuffer task event (op.sendPtr task s) (op.recvPtr task s) (op.sendBytes task s)
          (op.recvBytes task s) s >>= op.completeLoop task fuel) := by
    intro s hs
    refine .ite Iff.rfl (fun _ => .ret hs) fun hne => ?_
    have hv := hs.resolve_left hne
    obtain ⟨hsend, hrecv, hsendBytes, hrecvBytes⟩ := buffer_parts (A.buffer s _ hv)
    rw [hsend, hrecv, hsendBytes, hrecvBytes]
    refine (Prog.Image.same (pushBuffer_cursor event (o.op.buffer task s) s)).bind fun s₁ h₁ => ?_
    refine completeLoop_same C A fuel (Or.inr ?_)
    rw [h₁.1, h₁.2]
    exact hv
  unfold Operation.stepWith
  dsimp only
  refine .ite Iff.rfl (fun _ => ?_) fun hstarted => hdrive s (hs hstarted)
  exact (hinit s).bind hdrive

end Calls

/-! ## 3. The operations -/

section Operations

variable {task : PlanTask} {N r : Nat}

/-- **The numbers of a slice are small enough**: the largest sum of ranks is `3 * N - 3`, of the block that
    a ReduceScatter adds first, and there are at most `2 ^ 31` chunks or blocks. -/
structure Small (task : PlanTask) (N : Nat) : Prop where
  ranks : 3 * N ≤ 2 ^ 31 + 1
  indices : indexBound task ≤ 2 ^ 31

theorem int32_of_small {x : Int} (h0 : -2 ^ 31 ≤ x) (h1 : x < 2 ^ 31) : int32 x = x := int32_of_fits ⟨h0, h1⟩

theorem toSize_of_small {x : Int} (h0 : 0 ≤ x) (h1 : x < 2 ^ 31) : toSize x = x.toNat :=
  toSize_of_nonneg h0 (by omega)

variable (S : Ranked task N r) (B : Small task N)
include S B

/-- The chunks of an AllReduce. -/
theorem ints_chunks (hf : task.func = .allReduce) {s : RankState} (h0 : 0 ≤ s.step)
    (h1 : s.step.toNat < totalOps task) :
    Ints.allreduceSendChunk task s = allreduceSendChunk task s ∧
      Ints.allreduceRecvChunk task s = allreduceRecvChunk task s ∧
      toSize (allreduceSendChunk task s) = (allreduceSendChunk task s).toNat ∧
      toSize (allreduceRecvChunk task s) = (allreduceRecvChunk task s).toNat := by
  have hN := B.ranks
  have hR := S.rank
  have hW := S.worldSize
  have hlt := S.rank_lt
  have hlo : 0 ≤ allreduceStepInUnit task s := Int.tmod_nonneg _ h0
  have hhi : allreduceStepInUnit task s < task.worldSize - 1 := Int.tmod_lt_of_pos _ S.divisors.2
  have hbound : ((allreduceUnits task : Nat) : Int) * task.worldSize ≤ 2 ^ 31 := by
    have h := B.indices
    unfold indexBound at h
    rwa [hf] at h
  obtain ⟨x, hx, hsend, hrecv⟩ := allreduce_chunks S h0
  obtain ⟨hs0, hs1⟩ := allreduce_index S h0 h1 (show 0 ≤ x + 1 by omega)
  obtain ⟨hr0, hr1⟩ := allreduce_index S h0 h1 hx
  rw [← hsend] at hs0 hs1
  rw [← hrecv] at hr0 hr1
  refine ⟨?_, ?_, toSize_of_small hs0 (by omega), toSize_of_small hr0 (by omega)⟩
  · unfold Ints.allreduceSendChunk
    dsimp only
    rw [int32_of_small (x := task.rank - _ + _) (by omega) (by omega),
      int32_of_small (x := task.rank - _ + 1 + _) (by omega) (by omega)]
    change int32 (allreduceSendChunk task s) = _
    exact int32_of_small (by omega) (by omega)
  · unfold Ints.allreduceRecvChunk
    dsimp only
    rw [int32_of_small (x := task.rank - _ + _ - 1) (by omega) (by omega),
      int32_of_small (x := task.rank - _ + _) (by omega) (by omega)]
    change int32 (allreduceRecvChunk task s) = _
    exact int32_of_small (by omega) (by omega)

/-- The next step of an AllReduce. -/
theorem ints_step (hf : task.func = .allReduce) {x : Int} (h0 : 0 ≤ x) (h1 : x.toNat < totalOps task) :
    int32 (x + 1) = x + 1 ∧ toSize (x + 1) = (x + 1).toNat := by
  have hbound : ((allreduceUnits task * task.worldSize.toNat : Nat) : Int) ≤ 2 ^ 31 := by
    have h := B.indices
    unfold indexBound at h
    rw [hf] at h
    rwa [Int.natCast_mul, Int.toNat_of_nonneg (Int.le_of_lt S.divisors.1)]
  have hlt : totalOps task < 2 ^ 31 := by
    have hpos : 0 < allreduceUnits task := by
      refine Nat.pos_of_ne_zero fun hz => ?_
      unfold totalOps at h1
      rw [hz, Nat.zero_mul] at h1
      exact absurd h1 (Nat.not_lt_zero _)
    have hmul : allreduceUnits task * (task.worldSize - 1).toNat < allreduceUnits task * task.worldSize.toNat :=
      Nat.mul_lt_mul_of_pos_left (by have := S.divisors.1; omega) hpos
    unfold totalOps
    omega
  exact ⟨int32_of_small (by omega) (by omega), toSize_of_small (by omega) (by omega)⟩

theorem allreduce_agrees (hf : task.func = .allReduce) :
    Agrees allreduceOp Ints.allreduce task (AllreduceAt task) := by
  refine ⟨fun s phase hv => ?_, fun s hv hne => ?_⟩
  · obtain ⟨hsend, hrecv, hsendSize, hrecvSize⟩ := ints_chunks S B hf hv.2.1.1 hv.2.2
    funext sd
    cases sd with
    | out =>
      change (Ints.allreduceSendPtr task s, Ints.allreduceSendBytes task s) = _
      unfold Ints.allreduceSendPtr Ints.allreduceSendBytes Ints.chunkElemCount
      rw [hsend, hsendSize]
      rfl
    | inn =>
      change (Ints.allreduceRecvPtr task s, Ints.allreduceRecvBytes task s) = _
      unfold Ints.allreduceRecvPtr Ints.allreduceRecvBytes Ints.chunkElemCount
      rw [hrecv, hrecvSize]
      rfl
  · obtain ⟨-, hrecv, -, hrecvSize⟩ := ints_chunks S B hf hv.2.1.1 hv.2.2
    obtain ⟨hstep, hstepSize⟩ := ints_step S B hf hv.2.1.1 hv.2.2
    have hreduce : Ints.allreduceReduce task s = allreduceReduce task s := by
      unfold Ints.allreduceReduce Ints.chunkElemCount
      dsimp only
      rw [hrecv, hrecvSize]
      rfl
    have hcount : (if s.op.phase = kPhaseReduceScatter then allreduceReduce task s else s).step = s.step := by
      split
      · exact allreduceReduce_step task s
      · rfl
    change Ints.allreduceSettle task s = allreduceSettle task s
    unfold Ints.allreduceSettle allreduceSettle
    dsimp only
    rw [hreduce, hcount, hstep]
    generalize (if s.op.phase = kPhaseReduceScatter then allreduceReduce task s else s) = s₁
    have hsize : toSize (s₁.setStep (s.step + 1)).step = (s₁.setStep (s.step + 1)).step.toNat := hstepSize
    rw [hsize]

theorem exchange_step {phase step : Int} (hv : ExchangeCursor task phase step) :
    int32 (step + 1) = step + 1 := by
  have hN := B.ranks
  have hW := S.worldSize
  obtain ⟨-, h0, h1, -⟩ := hv
  exact int32_of_small (by omega) (by omega)

/-- A block index. -/
theorem block_size {x : Int} (h : 0 ≤ x) : toSize (x.tmod task.worldSize) = (x.tmod task.worldSize).toNat := by
  have hN := B.ranks
  have hW := S.worldSize
  obtain ⟨h0, h1⟩ := S.index h
  exact toSize_of_small h0 (by omega)

theorem allGather_agrees : Agrees allGatherOp Ints.allGather task (ExchangeCursor task) := by
  have hN := B.ranks
  have hR := S.rank
  have hW := S.worldSize
  have hlt := S.rank_lt
  refine ⟨fun s phase hv => ?_, fun s hv hne => ?_⟩
  · obtain ⟨-, h0, h1, -⟩ := hv
    funext sd
    cases sd with
    | out =>
      change (Ints.allGatherSendPtr task s, blockBytes task) = (allGatherSendPtr task s, blockBytes task)
      unfold Ints.allGatherSendPtr Ints.outputBlock
      rw [int32_of_small (by omega) (by omega), block_size S B (by omega)]
      rfl
    | inn =>
      change (Ints.allGatherRecvPtr task s, blockBytes task) = (allGatherRecvPtr task s, blockBytes task)
      unfold Ints.allGatherRecvPtr Ints.outputBlock
      rw [int32_of_small (by omega) (by omega), block_size S B (by omega)]
      rfl
  · change Ints.allGatherSettle task s = allGatherSettle task s
    unfold Ints.allGatherSettle
    rw [exchange_step S B hv]
    rfl

/-- The block a ReduceScatter adds. -/
theorem ints_input {s : RankState} (h0 : 0 ≤ s.step) (h1 : s.step < task.worldSize - 1) :
    Ints.inputBlock task (Ints.reduceScatterInputChunk task s) =
      inputBlock task (reduceScatterInputChunk task s) := by
  have hN := B.ranks
  have hR := S.rank
  have hW := S.worldSize
  have hlt := S.rank_lt
  unfold Ints.inputBlock Ints.reduceScatterInputChunk
  rw [int32_of_small (by omega) (by omega), block_size S B (by omega)]
  rfl

/-- With one rank more than is small the last rank would begin with a negative block. -/
example : 3 * 715827883 ≤ 2 ^ 31 + 1 ∧ (int32 (715827883 - 0 - 2 + 2 * 715827884)).tmod 715827884 < 0 := by
  decide

theorem reduceScatterSettle_same {s : RankState} (hv : ExchangeCursor task s.op.phase s.step)
    (hne : s.op.phase ≠ kPhaseDone) : Ints.reduceScatterSettle task s = reduceScatterSettle task s := by
  have hcount : (reduceBlock task (inputBlock task (reduceScatterInputChunk task s))
      (reduceScatterRecvPtr task s) s).step = s.step :=
    congrArg (fun c => c.algo.ring.step) (RankState.control_performReduce ..)
  unfold Ints.reduceScatterSettle reduceScatterSettle
  dsimp only
  rw [ints_input S B hv.2.1 (hv.2.2.2 hne).2, hcount, exchange_step S B hv]

theorem reduceScatter_agrees : Agrees reduceScatterOp Ints.reduceScatter task (ExchangeCursor task) where
  buffer s phase _ := by
    funext sd
    cases sd with
    | out =>
      change (reduceScatterSendPtr task s, blockBytes task) = (reduceScatterSendPtr task s, blockBytes task)
      rfl
    | inn =>
      change (reduceScatterRecvPtr task s, blockBytes task) = (reduceScatterRecvPtr task s, blockBytes task)
      rfl
  settle s hv hne := reduceScatterSettle_same S B hv hne

omit S B in
theorem Agrees.refl (o : RingOp) (valid : Int → Int → Prop) : Agrees o o.op task valid :=
  ⟨fun _ _ _ => rfl, fun _ _ _ => rfl⟩

end Operations

/-! ## 4. The calls are the same -/

section Same

variable {task : PlanTask} {N r : Nat}

/-- The cursors of the run of a task. -/
def ringCursor (task : PlanTask) : Int → Int → Prop :=
  match task.func with
  | .allReduce => AllreduceAt task
  | .broadcast | .reduce => ChainCursor task
  | .allGather | .reduceScatter => ExchangeCursor task
  | .send | .recv => fun _ _ => False

theorem allreduceInit_start (task : PlanTask) (s : RankState) :
    allreduceInit task s = startWith allreduce task (2 * totalOps task + 3) (allreduceStart task (s, [])) ∧
      Ints.allreduceInit task s =
        startWith Ints.allreduce task (2 * totalOps task + 3) (allreduceStart task (s, [])) := by
  simp only [allreduceInit, Ints.allreduceInit, allreduceStart, averageOf]
  constructor <;> split_ifs <;> rfl

theorem broadcastInit_start (task : PlanTask) (s : RankState) :
    broadcastInit task s = startWith broadcast task 3 (broadcastStart task (s, [])) := by
  simp only [broadcastInit, broadcastStart]
  split_ifs <;> rfl

theorem allGatherInit_start (task : PlanTask) (s : RankState) (h : toSize task.rank = task.rank.toNat) :
    allGatherInit task s = startWith allGather task (task.worldSize.toNat + 1) (allGatherStart task (s, [])) ∧
      Ints.allGatherInit task s =
        startWith Ints.allGather task (task.worldSize.toNat + 1) (allGatherStart task (s, [])) := by
  have hblock : Ints.outputBlock task task.rank = outputBlock task task.rank := by
    unfold Ints.outputBlock
    rw [h]
    rfl
  simp only [allGatherInit, Ints.allGatherInit, allGatherStart, hblock]
  constructor <;> split_ifs <;> rfl

theorem reduceInit_start (task : PlanTask) (s : RankState)
    (h : ¬ (task.worldSize ≤ 0 ∨ task.root < 0 ∨ task.root ≥ task.worldSize) →
      Ints.rootPosition task = rootPosition task) :
    reduceInit task s = startWith reduce task 3 (reduceStart task (s, [])) ∧
      Ints.reduceInit task s = startWith reduce task 3 (reduceStart task (s, [])) := by
  simp only [reduceInit, Ints.reduceInit, reduceStart]
  by_cases hroot : task.worldSize ≤ 0 ∨ task.root < 0 ∨ task.root ≥ task.worldSize
  · simp only [if_pos hroot]
    exact ⟨rfl, rfl⟩
  · simp only [if_neg hroot, h hroot]
    constructor <;> split_ifs <;> rfl

theorem reduceScatterInit_start (task : PlanTask) (s : RankState)
    (h : Ints.inputBlock task ((int32 (task.rank - 1 + task.worldSize)).tmod task.worldSize) =
      inputBlock task ((task.rank - 1 + task.worldSize).tmod task.worldSize)) :
    reduceScatterInit task s =
        startWith reduceScatter task (task.worldSize.toNat + 1) (reduceScatterStart task (s, [])) ∧
      Ints.reduceScatterInit task s =
        startWith Ints.reduceScatter task (task.worldSize.toNat + 1) (reduceScatterStart task (s, [])) := by
  simp only [reduceScatterInit, Ints.reduceScatterInit, reduceScatterStart, h]
  constructor <;> split_ifs <;> rfl

/-- **A first call on `int`s** is the same. -/
theorem collectiveInit_same (S : Ranked task N r) (B : Small task N) (s : RankState) :
    Prog.Image id (AtCursor (ringCursor task)) (collectiveInit task s) (Ints.collectiveInit task s) := by
  have hN := B.ranks
  have hR := S.rank
  have hW := S.worldSize
  have hlt := S.rank_lt
  unfold collectiveInit Ints.collectiveInit ringCursor
  cases hf : task.func with
  | allReduce =>
    dsimp only
    rw [(allreduceInit_start task s).1, (allreduceInit_start task s).2]
    exact start_same (allreduce_cursors S hf) (allreduce_agrees S B hf) s
  | broadcast =>
    dsimp only
    rw [broadcastInit_start task s]
    exact start_same (broadcast_cursors task) (.refl broadcastOp _) s
  | allGather =>
    have hrank : toSize task.rank = task.rank.toNat := toSize_of_small (by omega) (by omega)
    dsimp only
    rw [(allGatherInit_start task s hrank).1, (allGatherInit_start task s hrank).2]
    exact start_same (allGather_cursors S) (allGather_agrees S B) s
  | reduce =>
    have hroot : ¬ (task.worldSize ≤ 0 ∨ task.root < 0 ∨ task.root ≥ task.worldSize) →
        Ints.rootPosition task = rootPosition task := fun h => by
      unfold Ints.rootPosition
      rw [int32_of_small (by omega) (by omega)]
      rfl
    dsimp only
    rw [(reduceInit_start task s hroot).1, (reduceInit_start task s hroot).2]
    exact start_same (reduce_cursors task) (.refl reduceOp _) s
  | reduceScatter =>
    have hblock : Ints.inputBlock task ((int32 (task.rank - 1 + task.worldSize)).tmod task.worldSize) =
        inputBlock task ((task.rank - 1 + task.worldSize).tmod task.worldSize) := by
      unfold Ints.inputBlock
      rw [int32_of_small (by omega) (by omega), block_size S B (by omega)]
      rfl
    dsimp only
    rw [(reduceScatterInit_start task s hblock).1, (reduceScatterInit_start task s hblock).2]
    exact start_same (reduceScatter_cursors S) (reduceScatter_agrees S B) s
  | send | recv => exact .fail _

/-- **So is a later call.** -/
theorem collectiveStep_same (S : Ranked task N r) (B : Small task N) (event : CollEvent) {s : RankState}
    (hs : s.op.phase ≠ kPhaseUnstarted → AtCursor (ringCursor task) s) :
    Prog.Image id (AtCursor (ringCursor task)) (collectiveStep task event s)
      (Ints.collectiveStep task event s) := by
  have hinit := collectiveInit_same S B
  revert hinit hs
  unfold collectiveInit Ints.collectiveInit collectiveStep Ints.collectiveStep ringCursor
  cases hf : task.func with
  | allReduce =>
    exact fun hs hinit => stepWith_same (allreduce_cursors S hf) (allreduce_agrees S B hf) hinit _ event hs
  | broadcast =>
    exact fun hs hinit => stepWith_same (broadcast_cursors task) (.refl broadcastOp _) hinit _ event hs
  | allGather =>
    exact fun hs hinit => stepWith_same (allGather_cursors S) (allGather_agrees S B) hinit _ event hs
  | reduce =>
    exact fun hs hinit => stepWith_same (reduce_cursors task) (.refl reduceOp _) hinit _ event hs
  | reduceScatter =>
    exact fun hs hinit => stepWith_same (reduceScatter_cursors S) (reduceScatter_agrees S B) hinit _ event hs
  | send | recv => exact fun _ _ => .fail _

/-- The task is done. -/
def Finished (s : RankState) : Prop := s.op.phase = kPhaseDone

/-- **A single rank** is done at once, and computes with no index. -/
theorem collectiveInit_lone (hone : task.worldSize = 1) (hrank : task.rank = 0) (s : RankState) :
    Prog.Image id Finished (collectiveInit task s) (Ints.collectiveInit task s) := by
  have hblock : Ints.outputBlock task task.rank = outputBlock task task.rank := by
    rw [hrank]
    rfl
  unfold collectiveInit Ints.collectiveInit
  cases task.func with
  | allReduce | broadcast | reduce | reduceScatter =>
    exact .ite Iff.rfl (fun _ => .fail _) fun _ => .ite Iff.rfl (fun _ => .ret rfl) fun _ =>
      .ite Iff.rfl (fun _ => .fail _) fun _ => .ite Iff.rfl (fun _ => .ret rfl)
        fun hne => absurd hone hne
  | allGather =>
    unfold allGatherInit Ints.allGatherInit
    rw [hblock]
    exact .ite Iff.rfl (fun _ => .fail _) fun _ => .ite Iff.rfl (fun _ => .ret rfl) fun _ =>
      .ite Iff.rfl (fun _ => .fail _) fun _ => .ite Iff.rfl (fun _ => .ret rfl)
        fun hne => absurd hone hne
  | send | recv => exact .fail _

theorem stepWith_finished (op : Operation) (init complete : RankState → Call RankState) (event : CollEvent)
    {s : RankState} (hs : Finished s) : op.stepWith init complete task event s = .ret s := by
  have hne : ¬ s.op.phase = kPhaseUnstarted := by
    rw [hs]
    decide
  unfold Operation.stepWith
  dsimp only
  rw [if_neg hne]
  exact if_pos hs

theorem collectiveStep_lone (event : CollEvent) {s : RankState} (hs : Finished s) :
    Prog.Image id Finished (collectiveStep task event s) (Ints.collectiveStep task event s) := by
  unfold collectiveStep Ints.collectiveStep
  cases task.func with
  | allReduce =>
    dsimp only
    rw [allreduceStep, stepWith_finished _ _ _ event hs, stepWith_finished _ _ _ event hs]
    exact .ret hs
  | broadcast =>
    dsimp only
    rw [broadcastStep, stepWith_finished _ _ _ event hs]
    exact .ret hs
  | allGather =>
    dsimp only
    rw [allGatherStep, stepWith_finished _ _ _ event hs, stepWith_finished _ _ _ event hs]
    exact .ret hs
  | reduce =>
    dsimp only
    rw [reduceStep, stepWith_finished _ _ _ event hs, stepWith_finished _ _ _ event hs]
    exact .ret hs
  | reduceScatter =>
    dsimp only
    rw [reduceScatterStep, stepWith_finished _ _ _ event hs, stepWith_finished _ _ _ event hs]
    exact .ret hs
  | send | recv => exact .fail _

end Same

end OriginCCL.TopologyRing
