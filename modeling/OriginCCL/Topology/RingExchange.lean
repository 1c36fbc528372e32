/-
  File:      OriginCCL/Topology/RingExchange.lean
  Subject:   RING ALLGATHER AND REDUCESCATTER are `N - 1` exchanges of one block.

  * `exchangeRounds` -- the rounds of one rank.
  * `exchange_controls` -- an operation that counts its steps to `N - 1` goes through them.
  * `allGather_task`, `reduceScatter_task` -- **the two operations of the code do**.
-/
import OriginCCL.Topology.RingRounds

namespace OriginCCL.TopologyRing

open Net Base

/-! ## 1. Exchanges -/

/-- `N - 1` rounds that send and receive a block. -/
def exchangeRounds (N bytes : Nat) (src dst : Nat → Loc) : Rounds where
  total := N - 1
  phase _ := kPhaseExchange
  step t := t
  sendLen _ := bytes
  recvLen _ := bytes
  sendLoc := src
  recvLoc := dst

section Exchanges

variable {op : Operation} {task : PlanTask} {N bytes : Nat} {src dst : Nat → Loc}

/-- The buffers of an operation depend on its step. -/
structure Stepped (op : Operation) (task : PlanTask) (N : Nat) (src dst : Nat → Loc) (bytes : Nat) :
    Prop where
  send_ptr : ∀ t < N - 1, ∀ s : RankState, s.step = (t : Nat) → op.sendPtr task s = src t
  recv_ptr : ∀ t < N - 1, ∀ s : RankState, s.step = (t : Nat) → op.recvPtr task s = dst t
  send_bytes : ∀ s, op.sendBytes task s = bytes
  recv_bytes : ∀ s, op.recvBytes task s = bytes

theorem exchange_begins (hc : Stepped op task N src dst bytes) (hbytes : bytes ≠ 0) {t : Nat}
    (ht : t < N - 1) {s : RankState} (hs : s.step = (t : Nat)) :
    Begins op task (exchangeRounds N bytes src dst) t s := by
  have hzero : (bytes == 0) = false := by simpa using hbytes
  have h1 : (exchangeRounds N bytes src dst).phase t = kPhaseExchange := rfl
  have h2 : (exchangeRounds N bytes src dst).sendLen t = bytes := rfl
  have h3 : (exchangeRounds N bytes src dst).recvLen t = bytes := rfl
  refine ⟨?_, ?_, fun _ => ⟨hc.send_ptr t ht s hs, hc.send_bytes s⟩,
    fun _ => ⟨hc.recv_ptr t ht s hs, hc.recv_bytes s⟩⟩
  · rw [h1, hc.send_bytes, hzero, decide_eq_false (by omega)]
    rfl
  · rw [h1, hc.recv_bytes, hzero, decide_eq_false (by omega)]
    rfl

/-- **An operation that counts its steps to `N - 1` goes through the exchanges.** -/
theorem exchange_controls (hc : Stepped op task N src dst bytes) (hbytes : bytes ≠ 0)
    (hstep : ∀ s : RankState, (op.settle task s).1.step = s.step + 1)
    (hphase : ∀ s : RankState, (op.settle task s).2 =
      some (if s.step + 1 < (N : Int) - 1 then kPhaseExchange else kPhaseDone)) :
    Controls op task (exchangeRounds N bytes src dst) where
  phase_ne _ _ := by
    change kPhaseExchange ≠ kPhaseUnstarted ∧ kPhaseExchange ≠ kPhaseDone
    decide
  buffers t ht s _ hs := by
    have hb := exchange_begins hc hbytes ht hs
    exact ⟨hb.send, hb.recv⟩
  next t ht s _ hs := by
    have ht : t + 1 < N - 1 := ht
    have hs : s.step = (t : Nat) := hs
    have hs' : (op.settle task s).1.step = (t + 1 : Nat) := by
      rw [hstep, hs]
      rfl
    refine ⟨?_, hs', exchange_begins hc hbytes ht hs'⟩
    rw [hphase, if_pos (by omega)]
    rfl
  last t ht s _ hs := by
    have ht : t + 1 = N - 1 := ht
    have hs : s.step = (t : Nat) := hs
    right
    rw [hphase, if_neg (by omega)]

theorem exchange_off (N bytes : Nat) (src dst : Nat → Loc) (t : Nat) :
    off (exchangeRounds N bytes src dst).sendLen t =
      off (exchangeRounds N bytes src dst).recvLen t := rfl

end Exchanges

/-! ## 2. AllGather -/

section Operations

variable {task : PlanTask} {N r : Nat} {lo li : Link} {ring : TopologyRing}

/-- The rounds of an AllGather: blocks travel around the ring. -/
def allGatherRounds (task : PlanTask) (N r : Nat) : Rounds :=
  exchangeRounds N (blockBytes task) (fun t => outputBlock task (back N r t : Nat))
    fun t => outputBlock task (back N r (t + 1) : Nat)

theorem allGather_stepped (W : OnRing task N r lo li) :
    Stepped allGather task N (fun t => outputBlock task (back N r t : Nat))
      (fun t => outputBlock task (back N r (t + 1) : Nat)) (blockBytes task) := by
  have hr := W.lt
  refine ⟨fun t ht s hs => ?_, fun t ht s hs => ?_, fun _ => rfl, fun _ => rfl⟩
  · change outputBlock task ((task.rank - s.step + task.worldSize).tmod task.worldSize) = _
    rw [W.rank, W.worldSize, hs, tmod_back (N := N) (r := r) (k := t) (by omega)]
  · change outputBlock task ((task.rank - s.step - 1 + task.worldSize).tmod task.worldSize) = _
    rw [W.rank, W.worldSize, hs, tmod_back (N := N) (r := r) (k := t + 1) (by omega)]

theorem allGather_controls (W : OnRing task N r lo li) (hbytes : blockBytes task ≠ 0) :
    Controls allGather task (allGatherRounds task N r) := by
  refine exchange_controls (allGather_stepped W) hbytes (fun s => rfl) fun s => ?_
  rw [← W.worldSize]
  rfl

theorem allGather_runs (hfunc : task.func = .allGather)
    (htopo : task.topology = some (.ring ring)) :
    Runs allGather task (task.worldSize.toNat + 1) (allGatherInit task) := by
  refine ⟨fun m => ?_, fun e s => ?_, fun s => ?_⟩
  · simp only [channelSystem, htopo, Topology.collectiveInit, collectiveInit, hfunc]
  · simp only [channelSystem, htopo, Topology.collectiveStep, collectiveStep, hfunc]
    rfl
  · simp only [channelSystem, htopo, Topology.collectiveDone]

/-- The state in which the first call begins round 0: the own block is in the receive buffer. -/
def allGatherPrep (task : PlanTask) (m : Mem) : RankState :=
  (clear (freshState m)).memcpy (outputBlock task task.rank) (user task.sendBuf) (blockBytes task)

/-- **An AllGather is a task that goes through its rounds.** -/
theorem allGather_task (W : OnRing task N r lo li) (hfunc : task.func = .allGather)
    (htopo : task.topology = some (.ring ring)) (hcount : task.elemCount ≠ 0)
    (hbuf : task.sendBuf ≠ 0 ∧ task.recvBuf ≠ 0) :
    RingTask allGather task (allGatherRounds task N r) (allGatherPrep task) lo li := by
  have hN := W.two_le
  have hbytes : blockBytes task ≠ 0 := Nat.mul_ne_zero hcount (getDataTypeSize_pos _).ne'
  have e : task.worldSize.toNat = N := by rw [W.worldSize]; rfl
  have hstep : ∀ m, (allGatherPrep task m).step = ((0 : Nat) : Int) := by
    intro m
    have h := congrArg (fun c => c.algo.ring.step)
      (RankState.control_memcpy (clear (freshState m)) (outputBlock task task.rank)
        (user task.sendBuf) (blockBytes task))
    exact h
  refine ⟨W.sends, W.recvs, allGather_controls W hbytes, ?_, hstep,
    fun m => exchange_begins (allGather_stepped W) hbytes (by omega) (hstep m),
    ⟨task.worldSize.toNat + 1, allGatherInit task, ?_, allGather_runs hfunc htopo, fun m => ?_⟩⟩
  · change 0 < N - 1
    omega
  · change N - 1 < task.worldSize.toNat + 1
    omega
  · have hnz : ¬ task.worldSize ≤ 0 := by rw [W.worldSize]; omega
    have hn1 : ¬ task.worldSize = 1 := by rw [W.worldSize]; omega
    have hlinks : ¬ (task.sendTransports.isEmpty = true ∨ task.recvTransports.isEmpty = true) := by
      rw [W.sends, W.recvs]
      simp
    unfold allGatherInit
    simp only [if_neg hnz, if_neg hcount, if_neg (not_or.mpr hbuf), if_neg hn1, if_neg hlinks]
    rfl

/-! ## 3. ReduceScatter -/

/-- The rounds of a ReduceScatter: two buffers take turns. -/
def reduceScatterRounds (task : PlanTask) (N : Nat) : Rounds :=
  exchangeRounds N (blockBytes task)
    (fun t => if t % 2 = 0 then user task.recvBuf else temp 0)
    fun t => if t % 2 = 0 then temp 0 else user task.recvBuf

theorem even_step {s : RankState} {t : Nat} (hs : s.step = (t : Nat)) :
    s.step.tmod 2 = 0 ↔ t % 2 = 0 := by
  rw [hs]
  have h : ((t : Nat) : Int).tmod 2 = ((t % 2 : Nat) : Int) := rfl
  rw [h]
  omega

theorem reduceScatter_stepped (task : PlanTask) (N : Nat) :
    Stepped reduceScatter task N (fun t => if t % 2 = 0 then user task.recvBuf else temp 0)
      (fun t => if t % 2 = 0 then temp 0 else user task.recvBuf) (blockBytes task) := by
  refine ⟨fun t _ s hs => ?_, fun t _ s hs => ?_, fun _ => rfl, fun _ => rfl⟩
  · change reduceScatterSendPtr task s = _
    simp only [reduceScatterSendPtr, even_step hs]
  · change reduceScatterRecvPtr task s = _
    simp only [reduceScatterRecvPtr, even_step hs]

theorem control_reduceBlock (task : PlanTask) (input output : Loc) (s : RankState) :
    (reduceBlock task input output s).control = s.control :=
  RankState.control_performReduce ..

theorem step_eq_of_control {s s' : RankState} (h : s'.control = s.control) : s'.step = s.step := by
  have e := congrArg (fun c => c.algo.ring.step) h
  exact e

/-- Settling counts the step and keeps exchanging until the last. -/
theorem reduceScatterSettle_eq (task : PlanTask) (s : RankState) :
    (reduceScatterSettle task s).1.step = s.step + 1 ∧ (reduceScatterSettle task s).2 =
      some (if s.step + 1 < task.worldSize - 1 then kPhaseExchange else kPhaseDone) := by
  have hstep : ((reduceBlock task (inputBlock task (reduceScatterInputChunk task s))
      (reduceScatterRecvPtr task s) s).setStep
        ((reduceBlock task (inputBlock task (reduceScatterInputChunk task s))
          (reduceScatterRecvPtr task s) s).step + 1)).step = s.step + 1 := by
    change (reduceBlock task _ _ s).step + 1 = _
    rw [step_eq_of_control (control_reduceBlock ..)]
  unfold reduceScatterSettle
  dsimp only
  rw [hstep]
  split
  · exact ⟨hstep, rfl⟩
  · refine ⟨?_, rfl⟩
    have hcopy : ∀ x : RankState, (if reduceScatterRecvPtr task s ≠ user task.recvBuf then
        x.memcpy (user task.recvBuf) (reduceScatterRecvPtr task s) (blockBytes task)
        else x).step = x.step := by
      intro x
      split
      · exact step_eq_of_control (RankState.control_memcpy ..)
      · rfl
    have havg : ∀ x : RankState, (if task.reduceOp = .avg then
        x.applyAverage (user task.recvBuf) task.elemCount task.dtype task.worldSize
        else x).step = x.step := by
      intro x
      split
      · exact step_eq_of_control (RankState.control_applyAverage ..)
      · rfl
    rw [havg, hcopy, hstep]

theorem reduceScatter_controls (W : OnRing task N r lo li) (hbytes : blockBytes task ≠ 0) :
    Controls reduceScatter task (reduceScatterRounds task N) := by
  refine exchange_controls (reduceScatter_stepped task N) hbytes
    (fun s => (reduceScatterSettle_eq task s).1) fun s => ?_
  rw [← W.worldSize]
  exact (reduceScatterSettle_eq task s).2

theorem reduceScatter_runs (hfunc : task.func = .reduceScatter)
    (htopo : task.topology = some (.ring ring)) :
    Runs reduceScatter task (task.worldSize.toNat + 1) (reduceScatterInit task) := by
  refine ⟨fun m => ?_, fun e s => ?_, fun s => ?_⟩
  · simp only [channelSystem, htopo, Topology.collectiveInit, collectiveInit, hfunc]
  · simp only [channelSystem, htopo, Topology.collectiveStep, collectiveStep, hfunc]
    rfl
  · simp only [channelSystem, htopo, Topology.collectiveDone]

/-- The state in which the first call begins round 0: the previous rank's block of the input is in the
    receive buffer. -/
def reduceScatterPrep (task : PlanTask) (m : Mem) : RankState :=
  ((clear (freshState m)).resizeTemp (blockBytes task)).memcpy (user task.recvBuf)
    (inputBlock task ((task.rank - 1 + task.worldSize).tmod task.worldSize)) (blockBytes task)

/-- **A ReduceScatter is a task that goes through its rounds.** -/
theorem reduceScatter_task (W : OnRing task N r lo li) (hfunc : task.func = .reduceScatter)
    (htopo : task.topology = some (.ring ring)) (hcount : task.elemCount ≠ 0)
    (hbuf : task.sendBuf ≠ 0 ∧ task.recvBuf ≠ 0) :
    RingTask reduceScatter task (reduceScatterRounds task N) (reduceScatterPrep task) lo li := by
  have hN := W.two_le
  have hbytes : blockBytes task ≠ 0 := Nat.mul_ne_zero hcount (getDataTypeSize_pos _).ne'
  have e : task.worldSize.toNat = N := by rw [W.worldSize]; rfl
  have hstep : ∀ m, (reduceScatterPrep task m).step = ((0 : Nat) : Int) := by
    intro m
    exact step_eq_of_control (s := (clear (freshState m)).resizeTemp (blockBytes task))
      (RankState.control_memcpy ..)
  refine ⟨W.sends, W.recvs, reduceScatter_controls W hbytes, ?_, hstep,
    fun m => exchange_begins (reduceScatter_stepped task N) hbytes (by omega) (hstep m),
    ⟨task.worldSize.toNat + 1, reduceScatterInit task, ?_, reduceScatter_runs hfunc htopo,
      fun m => ?_⟩⟩
  · change 0 < N - 1
    omega
  · change N - 1 < task.worldSize.toNat + 1
    omega
  · have hnz : ¬ task.worldSize ≤ 0 := by rw [W.worldSize]; omega
    have hn1 : ¬ task.worldSize = 1 := by rw [W.worldSize]; omega
    have hlinks : ¬ (task.sendTransports.isEmpty = true ∨ task.recvTransports.isEmpty = true) := by
      rw [W.sends, W.recvs]
      simp
    unfold reduceScatterInit
    simp only [if_neg hnz, if_neg hcount, if_neg (not_or.mpr hbuf), if_neg hn1, if_neg hlinks]
    rfl

end Operations

end OriginCCL.TopologyRing
