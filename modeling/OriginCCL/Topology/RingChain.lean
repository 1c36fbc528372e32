/-
  File:      OriginCCL/Topology/RingChain.lean
  Subject:   RING BROADCAST AND REDUCE are chains.

  Data travels once along the ring, from a first rank to a last. A Broadcast starts at the root, a
  Reduce behind the root and ends at it. At distance `d` from the first rank a rank receives (unless
  `d = 0`), then sends (unless it is the last).

  * `chainRounds` -- the rounds of one rank.
  * `chain_controls` -- an operation with constant buffers that settles like a chain goes through
    them.
  * `broadcast_task`, `reduce_task` -- **the two operations of the code are such chains**.
-/
import OriginCCL.Topology.RingRounds

namespace OriginCCL.TopologyRing

open Net Base

/-! ## 1. Chains -/

/-- The rounds at distance `d` from the first rank of a chain of `N`. -/
def chainRounds (N d bytes : Nat) (src dst : Loc) : Rounds where
  total := if d = 0 ∨ d + 1 = N then 1 else 2
  phase t := if d = 0 ∨ t = 1 then kPhaseSend else kPhaseRecv
  step _ := 0
  sendLen t := if d = 0 ∨ t = 1 then bytes else 0
  recvLen t := if d = 0 ∨ t = 1 then 0 else bytes
  sendLoc _ := src
  recvLoc _ := dst

section Chains

variable {op : Operation} {task : PlanTask} {N d bytes : Nat} {src dst : Loc}

/-- The buffers of an operation are the same in every phase. -/
structure Constant (op : Operation) (task : PlanTask) (src dst : Loc) (bytes : Nat) : Prop where
  send_ptr : ∀ s, op.sendPtr task s = src
  recv_ptr : ∀ s, op.recvPtr task s = dst
  send_bytes : ∀ s, op.sendBytes task s = bytes
  recv_bytes : ∀ s, op.recvBytes task s = bytes

theorem chain_total_le (N d bytes : Nat) (src dst : Loc) :
    (chainRounds N d bytes src dst).total ≤ 2 := by
  simp only [chainRounds]
  split <;> omega

theorem chain_sending (N bytes : Nat) (src dst : Loc) {t : Nat} (h : d = 0 ∨ t = 1) :
    (chainRounds N d bytes src dst).phase t = kPhaseSend ∧
      (chainRounds N d bytes src dst).sendLen t = bytes ∧
      (chainRounds N d bytes src dst).recvLen t = 0 :=
  ⟨if_pos h, if_pos h, if_pos h⟩

theorem chain_receiving (N bytes : Nat) (src dst : Loc) {t : Nat} (h : ¬ (d = 0 ∨ t = 1)) :
    (chainRounds N d bytes src dst).phase t = kPhaseRecv ∧
      (chainRounds N d bytes src dst).sendLen t = 0 ∧
      (chainRounds N d bytes src dst).recvLen t = bytes :=
  ⟨if_neg h, if_neg h, if_neg h⟩

theorem chain_begins (hc : Constant op task src dst bytes) (hbytes : bytes ≠ 0) (t : Nat)
    (s : RankState) : Begins op task (chainRounds N d bytes src dst) t s := by
  have hzero : (bytes == 0) = false := by simpa using hbytes
  by_cases h : d = 0 ∨ t = 1
  · obtain ⟨h1, h2, h3⟩ := chain_sending N bytes src dst h
    refine ⟨?_, ?_, fun _ => ⟨hc.send_ptr s, ?_⟩, fun hpos => absurd hpos (by omega)⟩
    · rw [h1, hc.send_bytes, hzero, decide_eq_false (by omega)]
      rfl
    · rw [h1, decide_eq_true h3]
      rfl
    · rw [hc.send_bytes, h2]
  · obtain ⟨h1, h2, h3⟩ := chain_receiving N bytes src dst h
    refine ⟨?_, ?_, fun hpos => absurd hpos (by omega), fun _ => ⟨hc.recv_ptr s, ?_⟩⟩
    · rw [h1, decide_eq_true h2]
      rfl
    · rw [h1, hc.recv_bytes, hzero, decide_eq_false (by omega)]
      rfl
    · rw [hc.recv_bytes, h3]

/-- **An operation with constant buffers that settles like a chain goes through its rounds.** -/
theorem chain_controls (hc : Constant op task src dst bytes) (hbytes : bytes ≠ 0)
    (hnext : ∀ s : RankState, s.op.phase = kPhaseRecv → d + 1 ≠ N →
      (op.settle task s).2 = some kPhaseSend ∧ (op.settle task s).1.step = s.step)
    (hlast : ∀ s : RankState, s.op.phase = kPhaseSend ∨ s.op.phase = kPhaseRecv ∧ d + 1 = N →
      (op.settle task s).2 = some kPhaseDone) :
    Controls op task (chainRounds N d bytes src dst) where
  phase_ne t _ := by
    simp only [chainRounds]
    split <;> exact ⟨by decide, by decide⟩
  buffers t _ s _ _ :=
    ⟨(chain_begins hc hbytes t s).send, (chain_begins hc hbytes t s).recv⟩
  next t ht s hphase hstep := by
    simp only [chainRounds] at ht hphase
    split at ht
    · omega
    · rename_i hd
      obtain rfl : t = 0 := by omega
      rw [if_neg (by omega)] at hphase
      obtain ⟨h1, h2⟩ := hnext s hphase (by omega)
      refine ⟨?_, h2.trans hstep, chain_begins hc hbytes _ _⟩
      rw [h1]
      exact congrArg some (if_pos (Or.inr rfl)).symm
  last t ht s hphase _ := by
    right
    apply hlast
    simp only [chainRounds] at ht hphase
    by_cases hs : d = 0 ∨ t = 1
    · rw [if_pos hs] at hphase
      exact Or.inl hphase
    · rw [if_neg hs] at hphase
      right
      refine ⟨hphase, ?_⟩
      split at ht <;> omega

/-- The bytes a rank of a chain sends. -/
theorem chain_sent (hN : 2 ≤ N) (d bytes : Nat) (src dst : Loc) :
    off (chainRounds N d bytes src dst).sendLen (chainRounds N d bytes src dst).total =
      if d + 1 = N then 0 else bytes := by
  simp only [chainRounds]
  by_cases h0 : d = 0
  · rw [if_pos (Or.inl h0), off_succ, off_zero, if_pos (Or.inl h0), if_neg (by omega), Nat.zero_add]
  · by_cases hl : d + 1 = N
    · rw [if_pos (Or.inr hl), off_succ, off_zero, if_neg (by omega), if_pos hl]
    · rw [if_neg (by omega), off_succ, off_succ, off_zero, if_neg (by omega), if_pos (Or.inr rfl),
        if_neg hl, Nat.zero_add]

/-- The bytes a rank of a chain receives. -/
theorem chain_received (hN : 2 ≤ N) (d bytes : Nat) (src dst : Loc) :
    off (chainRounds N d bytes src dst).recvLen (chainRounds N d bytes src dst).total =
      if d = 0 then 0 else bytes := by
  simp only [chainRounds]
  by_cases h0 : d = 0
  · rw [if_pos (Or.inl h0), off_succ, off_zero, if_pos (Or.inl h0), if_pos h0]
  · by_cases hl : d + 1 = N
    · rw [if_pos (Or.inr hl), off_succ, off_zero, if_neg (by omega), if_neg h0, Nat.zero_add]
    · rw [if_neg (by omega), off_succ, off_succ, off_zero, if_neg (by omega), if_pos (Or.inr rfl),
        if_neg h0, Nat.zero_add, Nat.add_zero]

/-- What has been sent before a round that sends. -/
theorem chain_send_off (N d bytes : Nat) (src dst : Loc) {t : Nat}
    (ht : t < (chainRounds N d bytes src dst).total) (hpos : 0 < (chainRounds N d bytes src dst).sendLen t) :
    off (chainRounds N d bytes src dst).sendLen t = 0 := by
  simp only [chainRounds] at ht hpos ⊢
  split at hpos
  · rename_i h
    rcases h with h0 | rfl
    · rw [if_pos (Or.inl h0)] at ht
      obtain rfl : t = 0 := by omega
      rfl
    · rw [off_succ, off_zero, Nat.zero_add, if_neg]
      rintro (h0 | h0)
      · rw [if_pos (Or.inl h0)] at ht
        omega
      · omega
  · omega

/-- What has been received before a round that receives. -/
theorem chain_recv_off (N d bytes : Nat) (src dst : Loc) {t : Nat}
    (ht : t < (chainRounds N d bytes src dst).total) (hpos : 0 < (chainRounds N d bytes src dst).recvLen t) :
    t = 0 ∧ off (chainRounds N d bytes src dst).recvLen t = 0 := by
  simp only [chainRounds] at ht hpos ⊢
  split at hpos
  · omega
  · obtain rfl : t = 0 := by
      split at ht <;> omega
    exact ⟨rfl, rfl⟩

/-- A round with another behind it receives, in the middle of the chain. -/
theorem chain_next {t : Nat}
    (ht : t + 1 < (chainRounds N d bytes src dst).total) : t = 0 ∧ d ≠ 0 ∧ d + 1 ≠ N := by
  simp only [chainRounds] at ht
  split at ht <;> omega

/-- A last round that receives is that of the last rank. -/
theorem chain_last {t : Nat}
    (ht : t + 1 = (chainRounds N d bytes src dst).total) (h : ¬ (d = 0 ∨ t = 1)) :
    t = 0 ∧ d + 1 = N := by
  simp only [chainRounds] at ht
  split at ht <;> omega

end Chains

/-! ## 2. Places in the chain -/

section Places

variable {N r q : Nat}

/-- A rank is the first of the chain that starts at `q` if it is `q`. -/
theorem back_eq_zero_iff (hr : r < N) (hq : q < N) : back N r q = 0 ↔ r = q := by
  rw [back_eq hr (by omega)]
  split <;> omega

/-- It is the last if `q` is the next. -/
theorem back_last_iff (hr : r < N) (hq : q < N) : back N r q + 1 = N ↔ (r + 1) % N = q := by
  rw [back_eq hr (by omega)]
  by_cases h : r + 1 = N
  · rw [h, Nat.mod_self]
    split <;> omega
  · rw [Nat.mod_eq_of_lt (show r + 1 < N by omega)]
    split <;> omega

/-- The next rank is one further, or the first again. -/
theorem back_of_next_rank (hr : r < N) (hq : q < N) :
    back N ((r + 1) % N) q = if back N r q + 1 = N then 0 else back N r q + 1 := by
  have hlt : (r + 1) % N < N := Nat.mod_lt _ (by omega)
  have hmod : (r + 1) % N = if r + 1 = N then 0 else r + 1 := by
    split
    · rename_i h
      rw [h, Nat.mod_self]
    · exact Nat.mod_eq_of_lt (by omega)
  rw [back_eq hlt (by omega), back_eq hr (by omega), hmod]
  by_cases h : r + 1 = N
  · rw [if_pos h]
    by_cases hqr : q ≤ r
    · rw [if_pos hqr]
      split <;> split <;> omega
    · omega
  · rw [if_neg h]
    by_cases hqr : q ≤ r
    · rw [if_pos hqr, if_pos (by omega), if_neg (by omega)]
      omega
    · rw [if_neg hqr]
      split <;> split <;> omega

end Places

/-! ## 3. Broadcast -/

section Operations

variable {task : PlanTask} {N r q : Nat} {lo li : Link} {ring : TopologyRing}

/-- The rounds of a Broadcast from root `q`. -/
def broadcastRounds (task : PlanTask) (N r q : Nat) : Rounds :=
  chainRounds N (back N r q) (blockBytes task) (user task.recvBuf) (user task.recvBuf)

/-- `(rank + 1) % world_size`, as the code computes it. -/
theorem tmod_next (W : OnRing task N r lo li) :
    (task.rank + 1).tmod task.worldSize = ((r + 1) % N : Nat) := by
  rw [W.rank, W.worldSize]
  rfl

theorem broadcast_controls (W : OnRing task N r lo li) (hroot : task.root = (q : Nat)) (hq : q < N)
    (hbytes : blockBytes task ≠ 0) : Controls broadcast task (broadcastRounds task N r q) := by
  have hlast : back N r q + 1 = N ↔ (task.rank + 1).tmod task.worldSize = task.root := by
    rw [back_last_iff W.lt hq, tmod_next W, hroot]
    omega
  refine chain_controls ⟨fun _ => rfl, fun _ => rfl, fun _ => rfl, fun _ => rfl⟩ hbytes
    (fun s hp hne => ?_) fun s hs => ?_
  · have hset : broadcastSettle task s = (s, some kPhaseSend) :=
      if_pos ⟨hp, fun e => hne (hlast.mpr e)⟩
    change (broadcastSettle task s).2 = _ ∧ (broadcastSettle task s).1.step = _
    rw [hset]
    exact ⟨rfl, rfl⟩
  · have hset : broadcastSettle task s = (s, some kPhaseDone) := by
      refine if_neg ?_
      rintro ⟨hp, hne⟩
      rcases hs with hs | ⟨-, hs⟩
      · rw [hs] at hp
        exact absurd hp (by decide)
      · exact hne (hlast.mp hs)
    change (broadcastSettle task s).2 = _
    rw [hset]

theorem broadcast_runs (hfunc : task.func = .broadcast)
    (htopo : task.topology = some (.ring ring)) :
    Runs broadcast task 3 (broadcastInit task) := by
  refine ⟨fun m => ?_, fun e s => ?_, fun s => ?_⟩
  · simp only [channelSystem, htopo, Topology.collectiveInit, collectiveInit, hfunc]
  · simp only [channelSystem, htopo, Topology.collectiveStep, collectiveStep, hfunc]
    rfl
  · simp only [channelSystem, htopo, Topology.collectiveDone]

/-- **A Broadcast is a task that goes through its rounds.** -/
theorem broadcast_task (W : OnRing task N r lo li) (hfunc : task.func = .broadcast)
    (htopo : task.topology = some (.ring ring)) (hroot : task.root = (q : Nat)) (hq : q < N)
    (hcount : task.elemCount ≠ 0) (hbuf : task.recvBuf ≠ 0) :
    RingTask broadcast task (broadcastRounds task N r q) (fun m => clear (freshState m)) lo li := by
  have hN := W.two_le
  have hbytes : blockBytes task ≠ 0 := Nat.mul_ne_zero hcount (getDataTypeSize_pos _).ne'
  refine ⟨W.sends, W.recvs, broadcast_controls W hroot hq hbytes, ?_, fun m => rfl,
    fun m => chain_begins ⟨fun _ => rfl, fun _ => rfl, fun _ => rfl, fun _ => rfl⟩ hbytes _ _,
    ⟨3, broadcastInit task, ?_, broadcast_runs hfunc htopo, fun m => ?_⟩⟩
  · simp only [broadcastRounds, chainRounds]
    split <;> omega
  · exact Nat.lt_succ_of_le (chain_total_le ..)
  · have hvalid : ¬ (task.worldSize ≤ 0 ∨ task.root < 0 ∨ task.root ≥ task.worldSize) := by
      rw [W.worldSize, hroot]
      omega
    have hn1 : ¬ task.worldSize = 1 := by rw [W.worldSize]; omega
    have hlinks : ¬ (task.sendTransports.isEmpty = true ∨ task.recvTransports.isEmpty = true) := by
      rw [W.sends, W.recvs]
      simp
    have hphase : (broadcastRounds task N r q).phase 0 =
        if task.rank = task.root then kPhaseSend else kPhaseRecv := by
      have e : task.rank = task.root ↔ back N r q = 0 ∨ 0 = 1 := by
        rw [back_eq_zero_iff W.lt hq, W.rank, hroot]
        omega
      simp only [broadcastRounds, chainRounds, e]
    unfold broadcastInit
    simp only [if_neg hvalid, if_neg hcount, if_neg hbuf, if_neg hn1, if_neg hlinks, hphase]
    rfl

/-! ## 4. Reduce -/

/-- The rounds of a Reduce to root `q`: the chain starts behind the root. -/
def reduceRounds (task : PlanTask) (N r q : Nat) : Rounds :=
  chainRounds N (back N r ((q + 1) % N)) (blockBytes task) (temp 0) (temp (blockBytes task))

theorem reduceBlock_step (task : PlanTask) (input output : Loc) (s : RankState) :
    (reduceBlock task input output s).step = s.step := by
  have h := congrArg (fun c => c.algo.ring.step)
    (RankState.control_performReduce s input output task.elemCount task.dtype
      (sumFirst task.reduceOp))
  exact h

theorem reduce_controls (W : OnRing task N r lo li) (hroot : task.root = (q : Nat)) (hq : q < N)
    (hbytes : blockBytes task ≠ 0) : Controls reduce task (reduceRounds task N r q) := by
  have hN := W.two_le
  have hq' : (q + 1) % N < N := Nat.mod_lt _ (by omega)
  have hlast : back N r ((q + 1) % N) + 1 = N ↔ task.rank = task.root := by
    rw [back_last_iff W.lt hq', W.rank, hroot]
    constructor
    · intro h
      have h1 := back_of_next W.lt
      rw [h, back_of_next hq] at h1
      rw [h1]
    · intro h
      rw [show r = q by omega]
  refine chain_controls ⟨fun _ => rfl, fun _ => rfl, fun _ => rfl, fun _ => rfl⟩ hbytes
    (fun s hp hne => ?_) fun s hs => ?_
  · have hset : reduceSettle task s =
        (reduceBlock task (temp (blockBytes task)) (temp 0) s, some kPhaseSend) := by
      unfold reduceSettle
      rw [if_pos hp]
      exact if_neg fun e => hne (hlast.mpr e)
    change (reduceSettle task s).2 = _ ∧ (reduceSettle task s).1.step = _
    rw [hset]
    exact ⟨rfl, reduceBlock_step ..⟩
  · change (reduceSettle task s).2 = _
    unfold reduceSettle
    rcases hs with hs | ⟨hp, hs⟩
    · rw [if_neg (by rw [hs]; decide)]
    · rw [if_pos hp]
      dsimp only
      rw [if_pos (hlast.mp hs)]

theorem reduce_runs (hfunc : task.func = .reduce) (htopo : task.topology = some (.ring ring)) :
    Runs reduce task 3 (reduceInit task) := by
  refine ⟨fun m => ?_, fun e s => ?_, fun s => ?_⟩
  · simp only [channelSystem, htopo, Topology.collectiveInit, collectiveInit, hfunc]
  · simp only [channelSystem, htopo, Topology.collectiveStep, collectiveStep, hfunc]
    rfl
  · simp only [channelSystem, htopo, Topology.collectiveDone]

/-- The state in which the first call of a Reduce begins: the input is in `temp_buffer`. -/
def reducePrep (task : PlanTask) (m : Mem) : RankState :=
  ((clear (freshState m)).resizeTemp (2 * blockBytes task)).memcpy (temp 0) (user task.sendBuf)
    (blockBytes task)

theorem rootPosition_eq (W : OnRing task N r lo li) (hroot : task.root = (q : Nat)) (hq : q < N) :
    rootPosition task = (back N r q : Nat) := by
  have hr := W.lt
  rw [rootPosition, W.rank, W.worldSize, hroot]
  exact tmod_back (by omega)

/-- **A Reduce is a task that goes through its rounds.** -/
theorem reduce_task (W : OnRing task N r lo li) (hfunc : task.func = .reduce)
    (htopo : task.topology = some (.ring ring)) (hroot : task.root = (q : Nat)) (hq : q < N)
    (hcount : task.elemCount ≠ 0) (hsend : task.sendBuf ≠ 0)
    (hrecv : task.rank = task.root → task.recvBuf ≠ 0) :
    RingTask reduce task (reduceRounds task N r q) (reducePrep task) lo li := by
  have hN := W.two_le
  have hr := W.lt
  have hbytes : blockBytes task ≠ 0 := Nat.mul_ne_zero hcount (getDataTypeSize_pos _).ne'
  refine ⟨W.sends, W.recvs, reduce_controls W hroot hq hbytes, ?_, fun m => ?_,
    fun m => chain_begins ⟨fun _ => rfl, fun _ => rfl, fun _ => rfl, fun _ => rfl⟩ hbytes _ _,
    ⟨3, reduceInit task, ?_, reduce_runs hfunc htopo, fun m => ?_⟩⟩
  · simp only [reduceRounds, chainRounds]
    split <;> omega
  · have h := congrArg (fun c => c.algo.ring.step)
      (RankState.control_memcpy ((clear (freshState m)).resizeTemp (2 * blockBytes task)) (temp 0)
        (user task.sendBuf) (blockBytes task))
    exact h
  · exact Nat.lt_succ_of_le (chain_total_le ..)
  · have hvalid : ¬ (task.worldSize ≤ 0 ∨ task.root < 0 ∨ task.root ≥ task.worldSize) := by
      rw [W.worldSize, hroot]
      omega
    have hbuf : ¬ (task.sendBuf = 0 ∨ task.rank = task.root ∧ task.recvBuf = 0) := by
      rintro (h | ⟨h1, h2⟩)
      · exact hsend h
      · exact hrecv h1 h2
    have hn1 : ¬ task.worldSize = 1 := by rw [W.worldSize]; omega
    have hlinks : ¬ (task.sendTransports.isEmpty = true ∨ task.recvTransports.isEmpty = true) := by
      rw [W.sends, W.recvs]
      simp
    have hphase : (reduceRounds task N r q).phase 0 =
        if rootPosition task = 1 then kPhaseSend else kPhaseRecv := by
      have e : rootPosition task = 1 ↔ back N r ((q + 1) % N) = 0 ∨ 0 = 1 := by
        have hq' : (q + 1) % N < N := Nat.mod_lt _ (by omega)
        rw [back_eq_zero_iff hr hq', rootPosition_eq W hroot hq]
        constructor
        · intro h
          left
          have h1 : back N r q = 1 := by omega
          have h2 := back_back hr hq
          rw [h1] at h2
          rw [← h2, next_of_back hr]
        · rintro (h | h)
          · rw [h, back_of_next_rank hq hq, (back_eq_zero_iff hq hq).mpr rfl, if_neg (by omega)]
            rfl
          · omega
      simp only [reduceRounds, chainRounds, e]
    unfold reduceInit
    simp only [if_neg hvalid, if_neg hcount, if_neg hbuf, if_neg hn1, if_neg hlinks, hphase]
    rfl

end Operations

end OriginCCL.TopologyRing
