/-
  File:      OriginCCL/Topology/RingTrace.lean
  Subject:   THE RING STATE MACHINES WITH A LOG.

  The calls of Ring.lean over states with their logs. Nothing else changes: without the logs they are
  those calls (`collectiveInit_erase`, `collectiveStep_erase`), and between two phases an operation does
  to the bytes just what it notes (`settled_bytes`).

  * `RingOp` -- an operation, what it notes when it settles, how it starts and its number of rounds:
    `allreduceOp`, `broadcastOp`, `allGatherOp`, `reduceOp`, `reduceScatterOp`.
  * `Traced.collectiveInit`, `Traced.collectiveStep` -- the calls.
-/
import OriginCCL.Topology.Trace

namespace OriginCCL.TopologyRing

open Net

/-! ## 1. Transfers -/

namespace Traced

def pushSends (data : Loc) (bytes : Nat) : List (Link × Nat) → Traced → Call Traced
  | [], t => pure t
  | (l, i) :: rest, t =>
    if t.1.op.sendDone.get i then pushSends data bytes rest t
    else do
      let (progress, done) ← trySend l t.1 data bytes (t.1.op.sendProgress.get i)
      pushSends data bytes rest
        (t.1.setSend i progress done, t.2 ++ [.transfer .out i data bytes done])

def pushRecvs (data : Loc) (bytes : Nat) : List (Link × Nat) → Traced → Call Traced
  | [], t => pure t
  | (l, i) :: rest, t =>
    if t.1.op.recvDone.get i then pushRecvs data bytes rest t
    else do
      let (s, progress, done) ← tryRecv l t.1 data bytes (t.1.op.recvProgress.get i)
      pushRecvs data bytes rest
        (s.setRecv i progress done, t.2 ++ [.transfer .inn i data bytes done])

def pushBuffer (task : PlanTask) (event : CollEvent) (sendData recvData : Loc)
    (sendBytes recvBytes : Nat) (t : Traced) : Call Traced :=
  match event with
  | .writable => pushSends sendData sendBytes task.sendTransports.zipIdx t
  | .readable => pushRecvs recvData recvBytes task.recvTransports.zipIdx t

def beginPhase (task : PlanTask) (phase : Int) (sendData recvData : Loc) (sendBytes recvBytes : Nat)
    (t : Traced) : Call Traced := do
  let t ← pushBuffer task .writable sendData recvData sendBytes recvBytes
    (enterPhase task phase sendBytes recvBytes t.1, t.2 ++ [.assign])
  pushBuffer task .readable sendData recvData sendBytes recvBytes t

/-- The cursor of a state, noted where the pointers of its operation are computed. -/
def noteCursor (t : Traced) : Traced := (t.1, t.2 ++ [.cursor t.1.op.phase t.1.step])

def begin (op : Operation) (task : PlanTask) (phase : Int) (t : Traced) : Call Traced :=
  beginPhase task phase (op.sendPtr task t.1) (op.recvPtr task t.1) (op.sendBytes task t.1)
    (op.recvBytes task t.1) (noteCursor t)

end Traced

/-! ## 2. Operations -/

/-- How a task starts: it is rejected, it has nothing to transfer, or it begins a phase. -/
inductive Start where
  | rejected
  | finished (t : Traced)
  | begins (t : Traced) (phase : Int)

/-- An operation with what it notes between two phases, its start and its number of rounds. -/
structure RingOp where
  op : Operation
  settled : PlanTask → RankState → List Effect
  start : PlanTask → Traced → Start
  rounds : PlanTask → Nat

namespace Traced

def completeLoop (o : RingOp) (task : PlanTask) : Nat → Traced → Call Traced
  | 0, _ => .fail .fuel
  | fuel + 1, t =>
    if sideDone t.1.op.sendDone && sideDone t.1.op.recvDone && t.1.op.phase != kPhaseDone then
      match o.op.settle task t.1 with
      | (s, none) => pure (s, t.2 ++ o.settled task t.1)
      | (s, some phase) => do
        let t ← begin o.op task phase (s, t.2 ++ o.settled task t.1)
        completeLoop o task fuel t
    else pure t

def init (o : RingOp) (task : PlanTask) (t : Traced) : Call Traced :=
  match o.start task t with
  | .rejected => .fail .error
  | .finished t => pure t
  | .begins t phase => do
    let t ← begin o.op task phase t
    completeLoop o task (o.rounds task) t

/-- The part of a `*Step` function behind the start of an unstarted task. -/
def drive (o : RingOp) (task : PlanTask) (event : CollEvent) (t : Traced) : Call Traced :=
  if t.1.op.phase = kPhaseDone then pure t
  else do
    let t ← pushBuffer task event (o.op.sendPtr task t.1) (o.op.recvPtr task t.1)
      (o.op.sendBytes task t.1) (o.op.recvBytes task t.1) (noteCursor t)
    completeLoop o task (o.rounds task) t

def step (o : RingOp) (task : PlanTask) (event : CollEvent) (t : Traced) : Call Traced :=
  if t.1.op.phase = kPhaseUnstarted then init o task t >>= drive o task event
  else drive o task event t

/-- `s = CollOpState{}` -/
def cleared (t : Traced) : Traced := (clear t.1, t.2 ++ [.assign])

def finished (task : PlanTask) (t : Traced) : Traced := (finishAtOnce task t.1, t.2 ++ [.assign])

end Traced

/-- The average of a buffer, if the operation is one. -/
def averageOf (task : PlanTask) (data : Loc) (count : Nat) : List Effect :=
  if task.reduceOp = .avg then [.applyAverage data count] else []

def allreduceSettled (task : PlanTask) (s : RankState) : List Effect :=
  if s.op.phase = kPhaseReduceScatter then
    let recvChunk := allreduceRecvChunk task s
    let recvCount := chunkElemCount task.elemCount task.chunkSize recvChunk
    let recvPtr := user (task.recvBuf +
      recvChunk.toNat * task.chunkSize * getDataTypeSize task.dtype)
    [.cursor s.op.phase s.step, .performReduce (temp 0) recvPtr recvCount] ++
      if task.reduceOp = .avg ∧ allreduceStepInUnit task s = task.worldSize - 2 then
        [.applyAverage recvPtr recvCount] else []
  else []

def allreduceStart (task : PlanTask) (t : Traced) : Start :=
  let t := Traced.cleared t
  let typeSize := getDataTypeSize task.dtype
  if task.worldSize ≤ 0 then .rejected
  else if task.elemCount = 0 then .finished (Traced.finished task t)
  else if task.sendBuf = 0 ∨ task.recvBuf = 0 then .rejected
  else
    let t := t.perform task (if task.sendBuf ≠ task.recvBuf then
      [.memcpy (user task.recvBuf) (user task.sendBuf) (task.elemCount * typeSize)] else [])
    if task.worldSize = 1 then
      let t := t.perform task (averageOf task (user task.recvBuf) task.elemCount)
      .finished (t.1.setPhase kPhaseDone, t.2)
    else if task.sendTransports.isEmpty ∨ task.recvTransports.isEmpty then .rejected
    else .begins ((((t.1.resizeTemp (task.chunkSize * typeSize)).setPhase kPhaseReduceScatter).setStep
      0), t.2) kPhaseReduceScatter

def allreduceOp : RingOp where
  op := allreduce
  settled := allreduceSettled
  start := allreduceStart
  rounds task := 2 * totalOps task + 3

def broadcastStart (task : PlanTask) (t : Traced) : Start :=
  let t := Traced.cleared t
  if task.worldSize ≤ 0 ∨ task.root < 0 ∨ task.root ≥ task.worldSize then .rejected
  else if task.elemCount = 0 then .finished (Traced.finished task t)
  else if task.recvBuf = 0 then .rejected
  else if task.worldSize = 1 then .finished (Traced.finished task t)
  else if task.sendTransports.isEmpty ∨ task.recvTransports.isEmpty then .rejected
  else .begins t (if task.rank = task.root then kPhaseSend else kPhaseRecv)

def broadcastOp : RingOp where
  op := broadcast
  settled _ _ := []
  start := broadcastStart
  rounds _ := 3

def allGatherStart (task : PlanTask) (t : Traced) : Start :=
  let t := Traced.cleared t
  if task.worldSize ≤ 0 then .rejected
  else if task.elemCount = 0 then .finished (Traced.finished task t)
  else if task.sendBuf = 0 ∨ task.recvBuf = 0 then .rejected
  else
    let t := t.perform task
      [.memcpy (outputBlock task task.rank) (user task.sendBuf) (blockBytes task)]
    if task.worldSize = 1 then .finished (Traced.finished task t)
    else if task.sendTransports.isEmpty ∨ task.recvTransports.isEmpty then .rejected
    else .begins t kPhaseExchange

def allGatherOp : RingOp where
  op := allGather
  settled _ _ := []
  start := allGatherStart
  rounds task := task.worldSize.toNat + 1

def reduceSettled (task : PlanTask) (s : RankState) : List Effect :=
  if s.op.phase = kPhaseRecv then
    [.performReduce (temp (blockBytes task)) (temp 0) task.elemCount] ++
      if task.rank = task.root then
        [.memcpy (user task.recvBuf) (temp 0) (blockBytes task)] ++
          averageOf task (user task.recvBuf) task.elemCount
      else []
  else []

def reduceStart (task : PlanTask) (t : Traced) : Start :=
  let t := Traced.cleared t
  if task.worldSize ≤ 0 ∨ task.root < 0 ∨ task.root ≥ task.worldSize then .rejected
  else if task.elemCount = 0 then .finished (Traced.finished task t)
  else if task.sendBuf = 0 ∨ (task.rank = task.root ∧ task.recvBuf = 0) then .rejected
  else if task.worldSize = 1 then
    .finished (Traced.finished task
      (t.perform task [.memcpy (user task.recvBuf) (user task.sendBuf) (blockBytes task)]))
  else if task.sendTransports.isEmpty ∨ task.recvTransports.isEmpty then .rejected
  else .begins (Traced.perform task [.memcpy (temp 0) (user task.sendBuf) (blockBytes task)]
    (t.1.resizeTemp (2 * blockBytes task), t.2))
    (if rootPosition task = 1 then kPhaseSend else kPhaseRecv)

def reduceOp : RingOp where
  op := reduce
  settled := reduceSettled
  start := reduceStart
  rounds _ := 3

def reduceScatterSettled (task : PlanTask) (s : RankState) : List Effect :=
  let incoming := reduceScatterRecvPtr task s
  [.cursor s.op.phase s.step, .performReduce
    (inputBlock task (reduceScatterInputChunk task s)) incoming task.elemCount] ++
    if s.step + 1 < task.worldSize - 1 then []
    else (if incoming ≠ user task.recvBuf then
        [.memcpy (user task.recvBuf) incoming (blockBytes task)] else []) ++
      averageOf task (user task.recvBuf) task.elemCount

def reduceScatterStart (task : PlanTask) (t : Traced) : Start :=
  let t := Traced.cleared t
  if task.worldSize ≤ 0 then .rejected
  else if task.elemCount = 0 then .finished (Traced.finished task t)
  else if task.sendBuf = 0 ∨ task.recvBuf = 0 then .rejected
  else if task.worldSize = 1 then
    .finished (Traced.finished task
      (t.perform task [.memcpy (user task.recvBuf) (user task.sendBuf) (blockBytes task)]))
  else if task.sendTransports.isEmpty ∨ task.recvTransports.isEmpty then .rejected
  else .begins (Traced.perform task [.memcpy (user task.recvBuf)
    (inputBlock task ((task.rank - 1 + task.worldSize).tmod task.worldSize)) (blockBytes task)]
    (t.1.resizeTemp (blockBytes task), t.2)) kPhaseExchange

def reduceScatterOp : RingOp where
  op := reduceScatter
  settled := reduceScatterSettled
  start := reduceScatterStart
  rounds task := task.worldSize.toNat + 1

/-- The operation of a function, if the ring has one. -/
def ringOp : CollFunc → Option RingOp
  | .allReduce => some allreduceOp
  | .broadcast => some broadcastOp
  | .allGather => some allGatherOp
  | .reduce => some reduceOp
  | .reduceScatter => some reduceScatterOp
  | _ => none

def Traced.collectiveInit (task : PlanTask) (t : Traced) : Call Traced :=
  match ringOp task.func with
  | some o => Traced.init o task t
  | none => .fail .error

def Traced.collectiveStep (task : PlanTask) (event : CollEvent) (t : Traced) : Call Traced :=
  match ringOp task.func with
  | some o => Traced.step o task event t
  | none => .fail .error

/-! ## 3. Without the logs -/

namespace Traced

theorem pushSends_erase (data : Loc) (bytes : Nat) (ls : List (Link × Nat)) (t : Traced) :
    (pushSends data bytes ls t).map Prod.fst = TopologyRing.pushSends data bytes ls t.1 := by
  induction ls generalizing t with
  | nil => rfl
  | cons x rest ih =>
    obtain ⟨l, i⟩ := x
    rw [pushSends, TopologyRing.pushSends]
    split
    · exact ih t
    · rw [Prog.map_bind]
      exact congrArg _ (funext fun r => ih _)

theorem pushRecvs_erase (data : Loc) (bytes : Nat) (ls : List (Link × Nat)) (t : Traced) :
    (pushRecvs data bytes ls t).map Prod.fst = TopologyRing.pushRecvs data bytes ls t.1 := by
  induction ls generalizing t with
  | nil => rfl
  | cons x rest ih =>
    obtain ⟨l, i⟩ := x
    rw [pushRecvs, TopologyRing.pushRecvs]
    split
    · exact ih t
    · rw [Prog.map_bind]
      exact congrArg _ (funext fun r => ih _)

theorem pushBuffer_erase (task : PlanTask) (event : CollEvent) (p q : Loc) (b c : Nat) (t : Traced) :
    (pushBuffer task event p q b c t).map Prod.fst = TopologyRing.pushBuffer task event p q b c t.1 := by
  cases event with
  | writable => exact pushSends_erase ..
  | readable => exact pushRecvs_erase ..

theorem begin_erase (op : Operation) (task : PlanTask) (phase : Int) (t : Traced) :
    (begin op task phase t).map Prod.fst = op.begin task phase t.1 :=
  Prog.map_seq (pushBuffer_erase ..) fun _ => pushBuffer_erase ..

theorem completeLoop_erase (o : RingOp) (task : PlanTask) (fuel : Nat) (t : Traced) :
    (completeLoop o task fuel t).map Prod.fst = o.op.completeLoop task fuel t.1 := by
  induction fuel generalizing t with
  | zero => rfl
  | succ fuel ih =>
    rw [completeLoop, Operation.completeLoop]
    split
    · cases hset : o.op.settle task t.1 with
      | mk s next =>
        cases next with
        | none => rfl
        | some phase => exact Prog.map_seq (begin_erase o.op task phase _) ih
    · rfl

/-- **A start without its log** leads to the same call. -/
theorem init_erase (o : RingOp) (task : PlanTask) (t : Traced) {p : Call RankState}
    (h : p = match o.start task t with
      | .rejected => .fail .error
      | .finished t => pure t.1
      | .begins t phase => o.op.begin task phase t.1 >>= o.op.completeLoop task (o.rounds task)) :
    (init o task t).map Prod.fst = p := by
  rw [h, init]
  cases o.start task t with
  | rejected => rfl
  | finished t => rfl
  | begins t phase => exact Prog.map_seq (begin_erase ..) (completeLoop_erase o task _)

theorem step_erase (o : RingOp) (task : PlanTask) (event : CollEvent) (t : Traced)
    {i : RankState → Call RankState} (hi : (init o task t).map Prod.fst = i t.1) :
    (step o task event t).map Prod.fst =
      o.op.stepWith i (o.op.completeLoop task (o.rounds task)) task event t.1 := by
  have hdrive : ∀ t : Traced, (drive o task event t).map Prod.fst =
      if t.1.op.phase = kPhaseDone then pure t.1
      else TopologyRing.pushBuffer task event (o.op.sendPtr task t.1) (o.op.recvPtr task t.1)
        (o.op.sendBytes task t.1) (o.op.recvBytes task t.1) t.1 >>=
          o.op.completeLoop task (o.rounds task) := by
    intro t
    unfold drive
    split
    · rfl
    · exact Prog.map_seq (pushBuffer_erase ..) (completeLoop_erase o task _)
  unfold step Operation.stepWith
  split
  · exact Prog.map_seq hi hdrive
  · exact hdrive t

theorem allreduceInit_erase (task : PlanTask) (t : Traced) :
    (init allreduceOp task t).map Prod.fst = TopologyRing.allreduceInit task t.1 := by
  refine init_erase _ _ _ ?_
  simp only [allreduceOp, allreduceStart, TopologyRing.allreduceInit, averageOf]
  split_ifs <;> rfl

theorem broadcastInit_erase (task : PlanTask) (t : Traced) :
    (init broadcastOp task t).map Prod.fst = TopologyRing.broadcastInit task t.1 := by
  refine init_erase _ _ _ ?_
  simp only [broadcastOp, broadcastStart, TopologyRing.broadcastInit]
  split_ifs <;> rfl

theorem allGatherInit_erase (task : PlanTask) (t : Traced) :
    (init allGatherOp task t).map Prod.fst = TopologyRing.allGatherInit task t.1 := by
  refine init_erase _ _ _ ?_
  simp only [allGatherOp, allGatherStart, TopologyRing.allGatherInit]
  split_ifs <;> rfl

theorem reduceInit_erase (task : PlanTask) (t : Traced) :
    (init reduceOp task t).map Prod.fst = TopologyRing.reduceInit task t.1 := by
  refine init_erase _ _ _ ?_
  simp only [reduceOp, reduceStart, TopologyRing.reduceInit]
  split_ifs <;> rfl

theorem reduceScatterInit_erase (task : PlanTask) (t : Traced) :
    (init reduceScatterOp task t).map Prod.fst = TopologyRing.reduceScatterInit task t.1 := by
  refine init_erase _ _ _ ?_
  simp only [reduceScatterOp, reduceScatterStart, TopologyRing.reduceScatterInit]
  split_ifs <;> rfl

/-- **Without its log a first call is the call of the code.** -/
theorem collectiveInit_erase (task : PlanTask) (t : Traced) :
    (collectiveInit task t).map Prod.fst = TopologyRing.collectiveInit task t.1 := by
  unfold collectiveInit TopologyRing.collectiveInit
  cases task.func with
  | allReduce => exact allreduceInit_erase task t
  | broadcast => exact broadcastInit_erase task t
  | allGather => exact allGatherInit_erase task t
  | reduce => exact reduceInit_erase task t
  | reduceScatter => exact reduceScatterInit_erase task t
  | send | recv => rfl

/-- **So is a later call.** -/
theorem collectiveStep_erase (task : PlanTask) (event : CollEvent) (t : Traced) :
    (collectiveStep task event t).map Prod.fst = TopologyRing.collectiveStep task event t.1 := by
  unfold collectiveStep TopologyRing.collectiveStep
  cases task.func with
  | allReduce => exact step_erase allreduceOp task event t (allreduceInit_erase task t)
  | broadcast => exact step_erase broadcastOp task event t (broadcastInit_erase task t)
  | allGather => exact step_erase allGatherOp task event t (allGatherInit_erase task t)
  | reduce => exact step_erase reduceOp task event t (reduceInit_erase task t)
  | reduceScatter => exact step_erase reduceScatterOp task event t (reduceScatterInit_erase task t)
  | send | recv => rfl

end Traced

/-! ## 4. What settling does -/

/-- **Between two phases an operation does to the bytes what it notes**, and no more. -/
theorem settled_bytes {f : CollFunc} {o : RingOp} (h : ringOp f = some o) (task : PlanTask)
    (s : RankState) : (o.op.settle task s).1.byteAt = (Effect.runAll task (o.settled task s) s).byteAt := by
  cases f with
  | allReduce =>
    obtain rfl := Option.some.inj h
    simp only [allreduceOp, allreduce, allreduceSettle, allreduceSettled, allreduceReduce]
    split_ifs <;> rfl
  | broadcast =>
    obtain rfl := Option.some.inj h
    simp only [broadcastOp, broadcast, broadcastSettle]
    split_ifs <;> rfl
  | allGather =>
    obtain rfl := Option.some.inj h
    rfl
  | reduce =>
    obtain rfl := Option.some.inj h
    simp only [reduceOp, reduce, reduceSettle, reduceSettled, averageOf]
    split_ifs <;> rfl
  | reduceScatter =>
    obtain rfl := Option.some.inj h
    change (reduceScatterSettle task s).1.byteAt = _
    -- the step is counted between the reduction and what follows it
    have hcount : (reduceBlock task (inputBlock task (reduceScatterInputChunk task s))
        (reduceScatterRecvPtr task s) s).step = s.step :=
      congrArg (fun c => c.algo.ring.step) (RankState.control_performReduce ..)
    have hstep : ∀ (s : RankState) (k : Int) (as : List Effect),
        (Effect.runAll task as (s.setStep k)).byteAt = (Effect.runAll task as s).byteAt :=
      fun _ _ as => Effect.runAll_congr task as rfl
    have hfirst : ∀ rest : List Effect, Effect.runAll task ([.cursor s.op.phase s.step,
        .performReduce (inputBlock task (reduceScatterInputChunk task s)) (reduceScatterRecvPtr task s)
          task.elemCount] ++ rest) s = Effect.runAll task rest (reduceBlock task
            (inputBlock task (reduceScatterInputChunk task s)) (reduceScatterRecvPtr task s) s) :=
      fun _ => rfl
    have hset : ∀ (s : RankState) (k : Int), (s.setStep k).step = k := fun _ _ => rfl
    unfold reduceScatterSettle
    simp only [reduceScatterOp, reduceScatterSettled, averageOf]
    rw [hcount, hset, hfirst]
    generalize reduceBlock task _ _ s = s₁
    by_cases hmore : s.step + 1 < task.worldSize - 1
    · rw [if_pos hmore, if_pos hmore]
      rfl
    · rw [if_neg hmore, if_neg hmore]
      split_ifs
      · exact hstep s₁ _ [.memcpy _ _ _, .applyAverage _ _]
      · exact hstep s₁ _ [.applyAverage _ _]
      · exact hstep s₁ (s.step + 1)
          [.memcpy (user task.recvBuf) (reduceScatterRecvPtr task s) (blockBytes task)]
      · exact hstep s₁ _ []
  | send | recv => cases h

end OriginCCL.TopologyRing
