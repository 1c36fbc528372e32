/-
  File:      OriginCCL/Plan/HugeSlice.lean
  Subject:   A SLICE OF MORE THAN 64 TiB, which an `int` does not index.

  Two ranks on one channel reduce `2 ^ 43 + 1` elements of eight bytes in place. The planner accepts it,
  and the ring counts its steps up to the unit of number `2 ^ 30`, the chunks of which have numbers from
  `2 ^ 31` on.

  * `Rounded` -- a rank at rest in a round of the first phase; `Rounded.next` -- it goes on to the next.
  * `accesses_past_int` -- **the ranks come to a negative chunk index**.
-/
import OriginCCL.Plan.Accesses

namespace OriginCCL

open Net Base

namespace Net.Prog

variable {τ β α γ : Type}

/-- The end of calls in sequence. -/
theorem ends_bind {p : Prog τ β α} {f : α → Prog τ β γ} {a : α} {r : Except Fault γ}
    (h : p.Ends (.ok a)) (hf : (f a).Ends r) : (p >>= f).Ends r := by
  induction p with
  | ret b =>
    cases h
    exact hf
  | fail e => cases h
  | send l data k ih =>
    cases h with
    | send _ _ _ n _ h => exact .send _ _ _ n _ (ih n h)
  | recv l size k ih =>
    cases h with
    | recv _ _ _ bs _ h => exact .recv _ _ _ bs _ (ih bs h)

end Net.Prog

namespace TopologyRing

/-! ## 1. One connection each way -/

section Calls

variable {task : PlanTask} {lo li : Link} {s : RankState} (sendData recvData : Loc) (sendBytes recvBytes : Nat)

/-- The next `n` bytes are sent. -/
theorem pushBuffer_sends (hlinks : task.sendTransports = [lo]) (hopen : s.op.sendDone.get 0 = false)
    (n : Nat) : (pushBuffer task .writable sendData recvData sendBytes recvBytes s).Ends
      (.ok (s.setSend 0 (s.op.sendProgress.get 0 + n) (s.op.sendProgress.get 0 + n == sendBytes))) := by
  have hzip : task.sendTransports.zipIdx = [(lo, 0)] := by rw [hlinks]; rfl
  unfold pushBuffer
  dsimp only
  rw [hzip, pushSends, hopen, if_neg Bool.false_ne_true]
  exact .send _ _ _ (some n) _ (.ret _)

/-- The bytes `bs` are received. -/
theorem pushBuffer_recvs (hlinks : task.recvTransports = [li]) (hopen : s.op.recvDone.get 0 = false)
    (bs : List UInt8) : ∃ s' : RankState, s'.control = s.control ∧
      (pushBuffer task .readable sendData recvData sendBytes recvBytes s).Ends
        (.ok (s'.setRecv 0 (s.op.recvProgress.get 0 + bs.length)
          (s.op.recvProgress.get 0 + bs.length == recvBytes))) := by
  have hzip : task.recvTransports.zipIdx = [(li, 0)] := by rw [hlinks]; rfl
  refine ⟨s.write (recvData.shift (s.op.recvProgress.get 0)) bs, RankState.control_write .., ?_⟩
  unfold pushBuffer
  dsimp only
  rw [hzip, pushRecvs, hopen, if_neg Bool.false_ne_true]
  exact .recv _ _ _ (some bs) _ (.ret _)

theorem setRecv_control {s s' : RankState} (h : s'.control = s.control) (i n : Nat) (b : Bool) :
    (s'.setRecv i n b).control = (s.setRecv i n b).control :=
  congrArg (fun c => { c with recvProgress := c.recvProgress.set i n, recvDone := c.recvDone.set i b }) h

/-- A step of a task that is started and not done. -/
theorem stepWith_started (op : Operation) (init complete : RankState → Call RankState) (event : CollEvent)
    (h0 : s.op.phase ≠ kPhaseUnstarted) (hd : s.op.phase ≠ kPhaseDone) :
    op.stepWith init complete task event s =
      pushBuffer task event (op.sendPtr task s) (op.recvPtr task s) (op.sendBytes task s)
        (op.recvBytes task s) s >>= complete := by
  unfold Operation.stepWith
  dsimp only
  rw [if_neg h0]
  exact if_neg hd

end Calls

/-! ## 2. The rounds of the first phase -/

/-- The task: `2 ^ 43 + 1` elements in chunks of 4096, of rank 0 out of two. -/
structure Huge (task : PlanTask) (lo li : Link) : Prop where
  func : task.func = .allReduce
  sends : task.sendTransports = [lo]
  recvs : task.recvTransports = [li]
  buffers : task.sendBuf = task.recvBuf ∧ task.recvBuf ≠ 0
  count : task.elemCount = 2 ^ 43 + 1
  chunk : task.chunkSize = 4096
  world : task.worldSize = 2
  rank : task.rank = 0
  op : task.reduceOp = .sum

/-- **A rank at rest in round `k`** of the first phase: it has received nothing yet, and sent all of the
    round (`b`) or nothing. -/
structure Rounded (b : Bool) (k : Nat) (s : RankState) : Prop where
  phase : s.op.phase = kPhaseReduceScatter
  step : s.step = k
  sends : s.op.sendDone.size = 1
  sent : s.op.sendDone.get 0 = b
  unsent : b = false → s.op.sendProgress.get 0 = 0
  recvs : s.op.recvDone.size = 1
  open_recv : s.op.recvDone.get 0 = false
  progress : s.op.recvProgress.get 0 = 0

theorem Rounded.of_control {b : Bool} {k : Nat} {s s' : RankState} (h : Rounded b k s)
    (hc : s'.control = s.control) : Rounded b k s' where
  phase := (congrArg (fun c => c.phase) hc).trans h.phase
  step := (congrArg (fun c => c.algo.ring.step) hc).trans h.step
  sends := (congrArg (fun c => c.sendDone.size) hc).trans h.sends
  sent := (congrArg (fun c => c.sendDone.get 0) hc).trans h.sent
  unsent hb := (congrArg (fun c => c.sendProgress.get 0) hc).trans (h.unsent hb)
  recvs := (congrArg (fun c => c.recvDone.size) hc).trans h.recvs
  open_recv := (congrArg (fun c => c.recvDone.get 0) hc).trans h.open_recv
  progress := (congrArg (fun c => c.recvProgress.get 0) hc).trans h.progress

theorem sideDone_one {v : Vec Bool} (h : v.size = 1) : sideDone v = v.get 0 := by
  unfold sideDone Vec.all
  rw [h]
  exact Bool.and_true _

section Rounds

variable {task : PlanTask} {lo li : Link} {s : RankState} {k : Nat} (T : Huge task lo li)
include T

theorem Huge.total : totalOps task = 2 ^ 30 + 1 := by
  unfold totalOps allreduceUnits
  rw [T.chunk, T.world, T.count]
  rfl

/-- The chunks of round `k`. -/
theorem Huge.chunks (hphase : s.op.phase = kPhaseReduceScatter) (hstep : s.step = k) :
    Ints.allreduceSendChunk task s = int32 (2 * k) ∧
      Ints.allreduceRecvChunk task s = int32 (2 * k + 1) := by
  have hunit : allreduceUnit task s = k := by
    unfold allreduceUnit
    rw [T.world, hstep]
    exact Int.tdiv_one _
  have hin : allreduceStepInUnit task s = 0 := by
    unfold allreduceStepInUnit
    rw [T.world, hstep]
    exact Int.tmod_one _
  unfold Ints.allreduceSendChunk Ints.allreduceRecvChunk
  dsimp only
  rw [hunit, hin, if_pos hphase, if_pos hphase, T.world, T.rank]
  constructor
  · exact congrArg int32 (show (k : Int) * 2 + (int32 2).tmod 2 = _ by
      rw [show (int32 2).tmod 2 = 0 by decide]
      omega)
  · exact congrArg int32 (show (k : Int) * 2 + (int32 1).tmod 2 = _ by
      rw [show (int32 1).tmod 2 = 1 by decide]
      omega)

/-- A chunk whose number an `int` holds is not empty. -/
theorem Huge.chunk_pos {i : Nat} (hi : i < 2 ^ 31) :
    0 < Ints.chunkElemCount task.elemCount task.chunkSize (int32 i) * getDataTypeSize task.dtype := by
  refine Nat.mul_pos ?_ (getDataTypeSize_pos _)
  unfold Ints.chunkElemCount
  rw [int32_of_fits (fitsInt_of_nonneg (by omega) (by omega)),
    toSize_of_nonneg (by omega) (by omega), Int.toNat_natCast, T.chunk, T.count]
  dsimp only
  rw [if_neg (by omega)]
  omega

/-- The bytes of round `k`. -/
theorem Huge.bytes_pos (hphase : s.op.phase = kPhaseReduceScatter) (hstep : s.step = k)
    (hk : k < 2 ^ 30) :
    0 < Ints.allreduceSendBytes task s ∧ 0 < Ints.allreduceRecvBytes task s := by
  obtain ⟨hsend, hrecv⟩ := T.chunks hphase hstep
  unfold Ints.allreduceSendBytes Ints.allreduceRecvBytes
  rw [hsend, hrecv]
  exact ⟨by exact_mod_cast T.chunk_pos (i := 2 * k) (by omega),
    by exact_mod_cast T.chunk_pos (i := 2 * k + 1) (by omega)⟩

/-- **A round that begins** and moves nothing yet. -/
theorem Huge.begins (hstep : s.step = k) (hphase : s.op.phase = kPhaseReduceScatter) (hk : k < 2 ^ 30) :
    ∃ s', (Ints.allreduce.begin task kPhaseReduceScatter s).Ends (.ok s') ∧ Rounded false k s' := by
  obtain ⟨hsend, hrecv⟩ := T.bytes_pos hphase hstep hk
  have hsend' : (Ints.allreduceSendBytes task s == 0) = false := beq_false_of_ne (by omega)
  have hrecv' : (Ints.allreduceRecvBytes task s == 0) = false := beq_false_of_ne (by omega)
  obtain ⟨s', hctl, hrecvs⟩ := pushBuffer_recvs (Ints.allreduce.sendPtr task s)
    (Ints.allreduce.recvPtr task s) (Ints.allreduce.sendBytes task s)
    (Ints.allreduce.recvBytes task s) (s := (enterPhase task kPhaseReduceScatter
      (Ints.allreduceSendBytes task s) (Ints.allreduceRecvBytes task s) s).setSend 0 0
        (0 == Ints.allreduceSendBytes task s)) T.recvs hrecv' []
  refine ⟨_, Prog.ends_bind (pushBuffer_sends _ _ _ _ T.sends hsend' 0) hrecvs, ?_⟩
  refine Rounded.of_control ?_ (setRecv_control hctl _ _ _)
  refine ⟨rfl, hstep, ?_, ?_, fun _ => rfl, ?_, ?_, rfl⟩
  · exact congrArg List.length T.sends
  · exact beq_false_of_ne (show 0 ≠ Ints.allreduceSendBytes task s by omega)
  · exact congrArg List.length T.recvs
  · exact beq_false_of_ne (show 0 ≠ Ints.allreduceRecvBytes task s by omega)

/-- The rank sends all of its round. -/
theorem Huge.sendsAll (h : Rounded false k s) (fuel : Nat) :
    ∃ s', (pushBuffer task .writable (Ints.allreduce.sendPtr task s) (Ints.allreduce.recvPtr task s)
        (Ints.allreduce.sendBytes task s) (Ints.allreduce.recvBytes task s) s >>=
          Ints.allreduce.completeLoop task (fuel + 1)).Ends (.ok s') ∧ Rounded true k s' := by
  have hpush := pushBuffer_sends (Ints.allreduce.sendPtr task s)
    (Ints.allreduce.recvPtr task s) (Ints.allreduce.sendBytes task s)
    (Ints.allreduce.recvBytes task s) T.sends h.sent (Ints.allreduce.sendBytes task s)
  rw [h.unsent rfl, Nat.zero_add, beq_self_eq_true] at hpush
  refine ⟨s.setSend 0 (Ints.allreduce.sendBytes task s) true, Prog.ends_bind hpush ?_,
    h.phase, h.step, h.sends, Vec.set_get_self .., nofun, h.recvs, h.open_recv, h.progress⟩
  have hrecv : sideDone (s.setSend 0 (Ints.allreduce.sendBytes task s) true).op.recvDone = false :=
    (sideDone_one h.recvs).trans h.open_recv
  rw [Operation.completeLoop, hrecv, Bool.and_false, Bool.false_and, if_neg Bool.false_ne_true]
  exact .ret _

/-- **The end of a round**: when the rank has received its chunk, the call settles the round and goes on to
    the next one. -/
structure Settles (task : PlanTask) (k : Nat) (s s₁ s₂ : RankState) : Prop where
  received : (pushBuffer task .readable (Ints.allreduce.sendPtr task s) (Ints.allreduce.recvPtr task s)
    (Ints.allreduce.sendBytes task s) (Ints.allreduce.recvBytes task s) s).Ends (.ok s₁)
  complete : (sideDone s₁.op.sendDone && sideDone s₁.op.recvDone && s₁.op.phase != kPhaseDone) = true
  settled : Ints.allreduce.settle task s₁ = (s₂, some kPhaseReduceScatter)
  phase : s₂.op.phase = kPhaseReduceScatter
  step : s₂.step = (k + 1 : Nat)

theorem Huge.settles (h : Rounded true k s) (hk : k < 2 ^ 30) : ∃ s₁ s₂, Settles task k s s₁ s₂ := by
  obtain ⟨s', hctl, hpush⟩ := pushBuffer_recvs (Ints.allreduce.sendPtr task s)
    (Ints.allreduce.recvPtr task s) (Ints.allreduce.sendBytes task s)
    (Ints.allreduce.recvBytes task s) T.recvs h.open_recv
    (List.replicate (Ints.allreduce.recvBytes task s) 0)
  rw [h.progress, Nat.zero_add, List.length_replicate, beq_self_eq_true] at hpush
  have h' := h.of_control hctl
  have hsent : sideDone s'.op.sendDone = true := (sideDone_one h'.sends).trans h'.sent
  have hreceived : sideDone (s'.setRecv 0 (Ints.allreduce.recvBytes task s) true).op.recvDone = true :=
    (sideDone_one (v := s'.op.recvDone.set 0 true) h'.recvs).trans (Vec.set_get_self ..)
  generalize hs₁ : s'.setRecv 0 (Ints.allreduce.recvBytes task s) true = s₁ at hpush hreceived
  have hphase : s₁.op.phase = kPhaseReduceScatter := by rw [← hs₁]; exact h'.phase
  have hstep : s₁.step = k := by rw [← hs₁]; exact h'.step
  have hsends : sideDone s₁.op.sendDone = true := by rw [← hs₁]; exact hsent
  -- The reduction changes bytes only.
  have hreduce : (Ints.allreduceReduce task s₁).control = s₁.control := by
    unfold Ints.allreduceReduce
    dsimp only
    rw [if_neg fun hx => ReduceOp.noConfusion (T.op.symm.trans hx.1)]
    exact RankState.control_performReduce ..
  generalize hs₂ : Ints.allreduceReduce task s₁ = s₂ at hreduce
  have hphase₂ : s₂.op.phase = kPhaseReduceScatter := (congrArg (fun c => c.phase) hreduce).trans hphase
  have hstep₂ : s₂.step = k := (congrArg (fun c => c.algo.ring.step) hreduce).trans hstep
  have hnext : int32 (s₂.step + 1) = (k + 1 : Nat) := by
    rw [hstep₂]
    exact int32_of_fits (fitsInt_of_nonneg (by omega) (by omega))
  refine ⟨s₁, s₂.setStep (k + 1 : Nat), hpush, ?_, ?_, hphase₂, rfl⟩
  · rw [hsends, hreceived, hphase]
    rfl
  · change Ints.allreduceSettle task s₁ = _
    unfold Ints.allreduceSettle
    dsimp only
    rw [if_pos hphase, hs₂, hnext]
    have hphase₃ : (s₂.setStep (k + 1 : Nat)).op.phase = kPhaseReduceScatter := hphase₂
    have hsize : toSize (s₂.setStep (k + 1 : Nat)).step = k + 1 :=
      toSize_of_nonneg (x := (k + 1 : Nat)) (by omega) (by omega)
    rw [hphase₃, hsize, T.total, if_neg (by omega), if_neg fun hx => absurd hx.1 (by decide)]

/-- **A rank goes on to the next round.** -/
theorem Huge.next (h : Rounded true k s) (hk : k + 1 < 2 ^ 30) (fuel : Nat) :
    ∃ s', (pushBuffer task .readable (Ints.allreduce.sendPtr task s) (Ints.allreduce.recvPtr task s)
        (Ints.allreduce.sendBytes task s) (Ints.allreduce.recvBytes task s) s >>=
          Ints.allreduce.completeLoop task (fuel + 2)).Ends (.ok s') ∧ Rounded false (k + 1) s' := by
  obtain ⟨s₁, s₂, h₁⟩ := T.settles h (by omega)
  obtain ⟨s₃, hbegin, h₃⟩ := T.begins h₁.step h₁.phase hk
  refine ⟨s₃, Prog.ends_bind h₁.received ?_, h₃⟩
  have hrecv : sideDone s₃.op.recvDone = false := (sideDone_one h₃.recvs).trans h₃.open_recv
  rw [Operation.completeLoop, if_pos h₁.complete, h₁.settled]
  refine Prog.ends_bind hbegin ?_
  rw [Operation.completeLoop, hrecv, Bool.and_false, Bool.false_and, if_neg Bool.false_ne_true]
  exact .ret _

/-- A first call begins the first round. -/
theorem Huge.starts (s : RankState) :
    ∃ s', (Ints.collectiveInit task s).Ends (.ok s') ∧ Rounded false 0 s' := by
  have hlinks : ¬ (task.sendTransports.isEmpty = true ∨ task.recvTransports.isEmpty = true) := by
    rw [T.sends, T.recvs]
    simp
  obtain ⟨s', hbegin, h'⟩ := T.begins (s := (((clear s).resizeTemp
    (task.chunkSize * getDataTypeSize task.dtype)).setPhase kPhaseReduceScatter).setStep 0) (k := 0)
      rfl rfl (by decide)
  refine ⟨s', ?_, h'⟩
  have hrecv : sideDone s'.op.recvDone = false := (sideDone_one h'.recvs).trans h'.open_recv
  unfold Ints.collectiveInit
  rw [T.func]
  unfold Ints.allreduceInit
  dsimp only
  rw [if_neg (by rw [T.world]; decide), if_neg (by rw [T.count]; decide),
    if_neg (not_or.mpr ⟨T.buffers.1 ▸ T.buffers.2, T.buffers.2⟩), if_neg (not_not_intro T.buffers.1),
    if_neg (by rw [T.world]; decide), if_neg hlinks]
  refine Prog.ends_bind hbegin ?_
  rw [Ints.completeAllreduce, Operation.completeLoop, hrecv, Bool.and_false, Bool.false_and,
    if_neg Bool.false_ne_true]
  exact .ret _

/-- **Every round below number `2 ^ 30` is reached.** -/
theorem Huge.reaches (R : TopologyRing) (s₀ : RankState) (hk : k < 2 ^ 30) :
    ∃ s, (Topology.ring R).IntReached task s₀ s ∧ Rounded true k s := by
  have hstep : ∀ e s, s.op.phase = kPhaseReduceScatter → (Topology.ring R).intStep task e s =
      pushBuffer task e (Ints.allreduce.sendPtr task s) (Ints.allreduce.recvPtr task s)
        (Ints.allreduce.sendBytes task s) (Ints.allreduce.recvBytes task s) s >>=
          Ints.allreduce.completeLoop task (2 * totalOps task + 3) := by
    intro e s hphase
    change Ints.collectiveStep task e s = _
    unfold Ints.collectiveStep
    rw [T.func]
    exact stepWith_started _ _ _ e (by rw [hphase]; decide) (by rw [hphase]; decide)
  have hsend : ∀ {k s}, (Topology.ring R).IntReached task s₀ s → Rounded false k s →
      ∃ s', (Topology.ring R).IntReached task s₀ s' ∧ Rounded true k s' := by
    intro k s hs h
    obtain ⟨s', hends, h'⟩ := T.sendsAll h (2 * totalOps task + 2)
    exact ⟨s', .step .writable s s' hs (by rw [hstep _ _ h.phase]; exact hends), h'⟩
  induction k with
  | zero =>
    obtain ⟨s, hends, h⟩ := T.starts s₀
    exact hsend (.init s hends) h
  | succ k ih =>
    obtain ⟨s, hs, h⟩ := ih (by omega)
    obtain ⟨s', hends, h'⟩ := T.next h hk (2 * totalOps task + 1)
    exact hsend (.step .readable s s' hs (by rw [hstep _ _ h.phase]; exact hends)) h'

end Rounds

end TopologyRing

/-! ## 3. The slice -/

namespace Planner

open TopologyRing

/-- Rank 0 of two, with one channel. -/
def hugeComm : CommunicatorState := Communicator.init (fun r => r) 2 0 1 ⟨true, false, true⟩

def hugeReduce : CollTask :=
  { func := .allReduce, sendBuf := 8, recvBuf := 8, count := 2 ^ 43 + 1, dtype := .int64 }

/-- The slice of the rank's channel. -/
def hugeTask : PlanTask := bindTo hugeComm 0 (slice hugeComm hugeReduce 0)

theorem huge_hugeTask : Huge hugeTask ⟨.channel 0, 0, 1⟩ ⟨.channel 0, 1, 0⟩ where
  func := by decide
  sends := by decide
  recvs := by decide
  buffers := by decide
  count := by decide
  chunk := by decide
  world := by decide
  rank := by decide
  op := by decide

/-- **The rank comes to a negative chunk index.** The planner accepts the task and gives the ring one slice
    of it; in a state `s` that the calls reach the rank receives the chunk of its round, and the call
    settles the round and begins the next one at `s₂`, where it computes its two chunk indices. -/
theorem accesses_past_int :
    validateCollectiveTask hugeReduce hugeComm.rank hugeComm.worldSize = true ∧
    (slices hugeComm hugeReduce).length = 1 ∧
    (slice hugeComm hugeReduce 0).topology = some (.ring hugeComm.ringTopology) ∧
    2 * (hugeTask.elemCount * getDataTypeSize hugeTask.dtype) < 2 ^ 64 ∧
    ∃ s s₁ s₂, (Topology.ring hugeComm.ringTopology).IntReached hugeTask (freshState fun _ => 0) s ∧
      Settles hugeTask (2 ^ 30 - 1) s s₁ s₂ ∧
      Ints.allreduceSendChunk hugeTask s₂ < 0 ∧ Ints.allreduceRecvChunk hugeTask s₂ < 0 := by
  refine ⟨by decide, by decide, ?_, by decide, ?_⟩
  · change some (if useTree hugeReduce then _ else _) = _
    rw [show useTree hugeReduce = false by decide, if_neg Bool.false_ne_true]
  · obtain ⟨s, hs, h⟩ := huge_hugeTask.reaches hugeComm.ringTopology (freshState fun _ => 0)
      (k := 2 ^ 30 - 1) (by decide)
    obtain ⟨s₁, s₂, h₁⟩ := huge_hugeTask.settles h (by decide)
    obtain ⟨hsend, hrecv⟩ := huge_hugeTask.chunks h₁.phase h₁.step
    refine ⟨s, s₁, s₂, hs, h₁, ?_, ?_⟩
    · rw [hsend]
      decide
    · rw [hrecv]
      decide

end Planner

end OriginCCL
