/-
  File:      OriginCCL/Topology/RingReduceScatter.lean
  Subject:   A RING REDUCESCATTER UNDER EVERY SCHEDULE.

  A partial sum travels backwards through the blocks: in round `t` a rank passes on the sum, over `t + 1`
  ranks, of the block `t + 1` places before its own.

  * `scatterElem` -- the partial sum a rank sends in a round.
  * `scatter_values` -- **every round keeps the claim about the bytes**, and the last one leaves the
    result in the receive buffer.
  * `reduceScatter_correct` -- **whatever the schedule and the split of the bytes**, when the ranks are
    done every receive buffer holds its block of the reduction, and nothing else has changed.
-/
import OriginCCL.Net.Schedule
import OriginCCL.Topology.RingAllreduceValues
import OriginCCL.Topology.RingExchange
import OriginCCL.Topology.Together

namespace OriginCCL.TopologyRing

open Net Base

/-! ## 1. Partial sums -/

section Values

variable {dt : DataType} (task : PlanTask) (N r : Nat) (X : Nat → Nat → Elem dt)

/-- The partial sum that rank `r` sends in round `t`. -/
def scatterElem (t i : Nat) : Elem dt :=
  sumAt task.reduceOp N X t r (back N r (t + 1) * task.rankStride + i)

/-- The bytes of the two streams of rank `r`. -/
def scatterOk : Side → Nat → UInt8 → Prop
  | .out => streamOk (fun _ => blockBytes task) (N - 1)
      fun t => elemByte dt (scatterElem task N r X t)
  | .inn => streamOk (fun _ => blockBytes task) (N - 1)
      fun t => elemByte dt (scatterElem task N (back N r 1) X t)

variable {task N r X}

/-- **A rank adds its own block to what the previous one has sent.** -/
theorem scatterElem_succ (hr : r < N) {t : Nat} (ht : t + 1 < N) (i : Nat) :
    scatterElem task N r X (t + 1) i =
      reduceElem dt (sumFirst task.reduceOp) (X r (back N r (t + 2) * task.rankStride + i))
        (scatterElem task N (back N r 1) X t i) := by
  rw [scatterElem, scatterElem, back_one_back hr ht]
  rfl

/-- After `N - 1` rounds the sum is that of the rank's own block, over all ranks. -/
theorem scatterElem_last (hint : dt.isInt) (hr : r < N) (i : Nat) :
    averaged task.reduceOp N (scatterElem task N r X (N - 1) i) =
      allreduceResult task.reduceOp N X (r * task.rankStride + i) := by
  have hback : back N r (N - 1 + 1) = r := by
    rw [Nat.sub_add_cancel (by omega), back, Nat.add_sub_cancel, Nat.mod_eq_of_lt hr]
  have h : partSum task.reduceOp N X (N - 1) r (r * task.rankStride + i) =
      allreduceResult task.reduceOp N X (r * task.rankStride + i) := partSum_full hint hr _
  rw [partSum, if_pos rfl] at h
  rw [scatterElem, hback, h]

end Values

/-! ## 2. The bytes -/

section Bytes

variable {dt : DataType} {task : PlanTask} {N r : Nat} {lo li : Link} {X : Nat → Nat → Elem dt}
  {m₀ : Mem} {t rp : Nat}

/-- The elements of a send buffer of `N` blocks. -/
def scatterCount (task : PlanTask) (N : Nat) : Nat := (N - 1) * task.rankStride + task.elemCount

/-- **The bytes in round `t`** after `rp` received ones: the partial sums to send and those arriving,
    each in one of the two buffers; all other memory is as before. -/
structure ScatterBytes (task : PlanTask) (N r : Nat) (X : Nat → Nat → Elem dt) (m₀ : Mem)
    (t rp : Nat) (m : Loc → UInt8) : Prop where
  kept : ∀ a, ¬ (user a).inside (user task.recvBuf) (blockBytes task) → m (user a) = m₀ a
  sending : Holds m dt ((reduceScatterRounds task N).sendLoc t) task.elemCount
    (scatterElem task N r X t)
  incoming : ∀ j < rp, m (((reduceScatterRounds task N).recvLoc t).shift j) =
    elemByte dt (scatterElem task N (back N r 1) X t) j

/-- What a ReduceScatter leaves: the rank's block of the result, and all other memory as before. -/
structure ScatterDone (task : PlanTask) (dt : DataType) (N r : Nat) (X : Nat → Nat → Elem dt)
    (m₀ m : Mem) : Prop where
  result : ∀ i < task.elemCount, elemAt m dt task.recvBuf i =
    allreduceResult task.reduceOp N X (r * task.rankStride + i)
  kept : ∀ a, ¬ (user a).inside (user task.recvBuf) (blockBytes task) → m a = m₀ a

/-- The two buffers of a round lie apart. -/
theorem scatter_apart (task : PlanTask) (N t : Nat) (n m : Nat) :
    Apart ((reduceScatterRounds task N).sendLoc t) n ((reduceScatterRounds task N).recvLoc t) m := by
  left
  simp only [reduceScatterRounds, exchangeRounds]
  split <;> simp [user, temp]

/-- The buffers change places in the next round. -/
theorem scatter_turn (task : PlanTask) (N t : Nat) :
    (reduceScatterRounds task N).sendLoc (t + 1) = (reduceScatterRounds task N).recvLoc t := by
  simp only [reduceScatterRounds, exchangeRounds]
  by_cases h : t % 2 = 0
  · rw [if_neg (by omega), if_pos h]
  · rw [if_pos (by omega), if_neg h]

/-- The buffer a round receives in is the receive buffer or scratch. -/
theorem scatter_recvLoc (task : PlanTask) (N t : Nat) :
    (reduceScatterRounds task N).recvLoc t = temp 0 ∨
      (reduceScatterRounds task N).recvLoc t = user task.recvBuf := by
  simp only [reduceScatterRounds, exchangeRounds]
  split
  · exact Or.inl rfl
  · exact Or.inr rfl

section Blocks

variable (hapart : Apart (user task.sendBuf) (scatterCount task N * getDataTypeSize task.dtype)
  (user task.recvBuf) (blockBytes task))
include hapart

/-- A block of the send buffer lies apart from both buffers. -/
theorem inputBlock_apart {b : Nat} (hb : b < N) :
    Apart (inputBlock task (b : Nat)) (blockBytes task) (user task.recvBuf) (blockBytes task) := by
  have hmul : (b * task.rankStride + task.elemCount) * getDataTypeSize task.dtype ≤
      scatterCount task N * getDataTypeSize task.dtype :=
    Nat.mul_le_mul_right _ (Nat.add_le_add_right (Nat.mul_le_mul_right _ (by omega)) _)
  rw [Nat.add_mul] at hmul
  have e : (inputBlock task (b : Nat)).addr =
      task.sendBuf + b * task.rankStride * getDataTypeSize task.dtype := rfl
  have e' : (user task.sendBuf).addr = task.sendBuf := rfl
  rcases hapart with h | h | h
  · exact absurd rfl h
  · right; left
    rw [e, blockBytes] at *
    omega
  · right; right
    rw [e]
    omega

/-- **The blocks of the send buffer hold the rank's inputs.** -/
theorem inputBlock_holds (hdt : task.dtype = dt)
    (hX : ∀ i, X r i = elemAt m₀ dt task.sendBuf i) {m : Loc → UInt8}
    (hkept : ∀ a, ¬ (user a).inside (user task.recvBuf) (blockBytes task) → m (user a) = m₀ a)
    {b : Nat} (hb : b < N) : Holds m dt (inputBlock task (b : Nat)) task.elemCount
      fun i => X r (b * task.rankStride + i) := by
  subst hdt
  intro j hj
  have hout := (inputBlock_apart hapart hb).not_inside hj
  have e : (inputBlock task (b : Nat)).shift j = user (task.sendBuf +
      (b * task.rankStride * getDataTypeSize task.dtype + j)) := by
    rw [← Nat.add_assoc]
    rfl
  rw [e] at hout ⊢
  rw [hkept _ hout, ← elemByte_elemAt m₀ task.dtype]
  exact elemByte_congr (fun i _ => (hX _).symm) hj

/-- A received block reduced with the rank's own one holds the next partial sum. -/
theorem reduce_incoming (W : OnRing task N r lo li) (hdt : task.dtype = dt) (hint : dt.isInt)
    (hX : ∀ i, X r i = elemAt m₀ dt task.sendBuf i) (ht : t < N - 1) {s : RankState}
    (h : ScatterBytes task N r X m₀ t (blockBytes task) s.byteAt) :
    let s' := reduceBlock task (inputBlock task (back N r (t + 2) : Nat))
      ((reduceScatterRounds task N).recvLoc t) s
    (∀ a, ¬ (user a).inside (user task.recvBuf) (blockBytes task) → s'.byteAt (user a) = m₀ a) ∧
      Holds s'.byteAt dt ((reduceScatterRounds task N).recvLoc t) task.elemCount
        (scatterElem task N r X (t + 1)) := by
  have hr := W.lt
  have hinput := inputBlock_holds hapart hdt hX h.kept (back_lt (k := t + 2) hr)
  have hblock := inputBlock_apart hapart (back_lt (k := t + 2) hr)
  subst hdt
  have hincoming : Holds s.byteAt task.dtype ((reduceScatterRounds task N).recvLoc t)
      task.elemCount (scatterElem task N (back N r 1) X t) := fun j hj => h.incoming j hj
  have hsep : Apart (inputBlock task (back N r (t + 2) : Nat)) (blockBytes task)
      ((reduceScatterRounds task N).recvLoc t) (blockBytes task) := by
    rcases scatter_recvLoc task N t with e | e
    · rw [e]
      exact Or.inl (by simp [inputBlock, user, temp])
    · rw [e]
      exact hblock
  refine ⟨fun a ha => ?_, ?_⟩
  · refine (RankState.performReduce_frame _ hsep fun hin => ha ?_).trans (h.kept a ha)
    rcases scatter_recvLoc task N t with e | e
    · rw [e] at hin
      exact absurd hin.1 (by simp [user, temp])
    · rw [e] at hin
      exact hin
  · refine (RankState.performReduce_holds (sumFirst task.reduceOp) hsep hincoming hinput).congr
      (fun _ _ => rfl) fun i _ => ?_
    rw [scatterElem_succ hr (by omega), reduceElem_comm hint]

end Blocks

/-- The block a round reduces with. -/
theorem inputChunk_eq (W : OnRing task N r lo li) (ht : t < N - 1) {s : RankState}
    (hs : s.step = (t : Nat)) : reduceScatterInputChunk task s = (back N r (t + 2) : Nat) := by
  have hr := W.lt
  have e : task.rank - s.step - 2 + 2 * task.worldSize = ((r + N - (t + 2) + N : Nat) : Int) := by
    rw [W.rank, W.worldSize, hs]
    omega
  rw [reduceScatterInputChunk, e, W.worldSize]
  have hmod : ((r + N - (t + 2) + N : Nat) : Int).tmod (N : Int) =
      ((r + N - (t + 2) + N) % N : Nat) := rfl
  rw [hmod, Nat.add_mod_right]
  rfl

theorem recvPtr_eq {s : RankState} (hs : s.step = (t : Nat)) :
    reduceScatterRecvPtr task s = (reduceScatterRounds task N).recvLoc t := by
  simp only [reduceScatterRecvPtr, reduceScatterRounds, exchangeRounds, even_step hs]

/-- The state after a received block has been reduced. -/
def reduced (task : PlanTask) (N r t : Nat) (s : RankState) : RankState :=
  let s := reduceBlock task (inputBlock task (back N r (t + 2) : Nat))
    ((reduceScatterRounds task N).recvLoc t) s
  s.setStep (s.step + 1)

theorem reduced_step (s : RankState) : (reduced task N r t s).step = s.step + 1 := by
  change (reduceBlock task _ _ s).step + 1 = _
  rw [step_eq_of_control (control_reduceBlock ..)]

theorem settle_next (W : OnRing task N r lo li) (ht : t + 1 < N - 1) {s : RankState}
    (hs : s.step = (t : Nat)) : (reduceScatterSettle task s).1 = reduced task N r t s := by
  have hstep : (reduced task N r t s).step = s.step + 1 := reduced_step s
  unfold reduceScatterSettle
  rw [inputChunk_eq W (by omega) hs, recvPtr_eq (N := N) hs]
  change (if (reduced task N r t s).step < task.worldSize - 1 then _ else _ :
    RankState × Option Int).1 = _
  rw [hstep, hs, W.worldSize, if_pos (by omega)]
  rfl

/-- The last round copies the block to the receive buffer, if it is not there, and averages it. -/
theorem settle_last (W : OnRing task N r lo li) (ht : t + 1 = N - 1) {s : RankState}
    (hs : s.step = (t : Nat)) : (reduceScatterSettle task s).1 =
      let s := reduced task N r t s
      let s := if (reduceScatterRounds task N).recvLoc t ≠ user task.recvBuf then
          s.memcpy (user task.recvBuf) ((reduceScatterRounds task N).recvLoc t) (blockBytes task)
        else s
      if task.reduceOp = .avg then
        s.applyAverage (user task.recvBuf) task.elemCount task.dtype task.worldSize
      else s := by
  have hstep : (reduced task N r t s).step = s.step + 1 := reduced_step s
  unfold reduceScatterSettle
  rw [inputChunk_eq W (by omega) hs, recvPtr_eq (N := N) hs]
  change (if (reduced task N r t s).step < task.worldSize - 1 then _ else _ :
    RankState × Option Int).1 = _
  rw [hstep, hs, W.worldSize, if_neg (by omega)]
  rfl

theorem scatterOk_out (ht : t < N - 1) {j : Nat} {b : UInt8} (hj : j < blockBytes task) :
    scatterOk task N r X .out (off (reduceScatterRounds task N).sendLen t + j) b ↔
      b = elemByte dt (scatterElem task N r X t) j :=
  streamOk_iff ht hj

theorem scatterOk_inn (ht : t < N - 1) {j : Nat} {b : UInt8} (hj : j < blockBytes task) :
    scatterOk task N r X .inn (off (reduceScatterRounds task N).recvLen t + j) b ↔
      b = elemByte dt (scatterElem task N (back N r 1) X t) j :=
  streamOk_iff ht hj

/-- **ReduceScatter keeps the claim about its bytes**, and ends with the result. -/
theorem scatter_values (W : OnRing task N r lo li) (hdt : task.dtype = dt) (hint : dt.isInt)
    (hapart : Apart (user task.sendBuf) (scatterCount task N * getDataTypeSize task.dtype)
      (user task.recvBuf) (blockBytes task))
    (hX : ∀ i, X r i = elemAt m₀ dt task.sendBuf i) :
    Claimed reduceScatter task (reduceScatterRounds task N) (scatterOk task N r X)
      (ScatterBytes task N r X m₀) (ScatterDone task dt N r X m₀) where
  sends t ht rp _ m h j hj := by
    refine (scatterOk_out ht hj).mpr ?_
    subst hdt
    exact h.sending j hj
  receives t ht rp rp' hle hrp m m' h hnew hm := by
    have hrp : rp' ≤ blockBytes task := hrp
    have hnew' : ∀ j, rp ≤ j → j < rp' → m' (((reduceScatterRounds task N).recvLoc t).shift j) =
        elemByte dt (scatterElem task N (back N r 1) X t) j :=
      fun j h1 h2 => (scatterOk_inn ht (by omega)).mp (hnew j h1 h2)
    refine ⟨fun a ha => ?_, fun j hj => ?_, fun j hj => ?_⟩
    · rw [hm _ fun hin => ha ?_, h.kept a ha]
      have hin := Loc.inside_part hin (m := blockBytes task) (by omega)
      rcases scatter_recvLoc task N t with e | e
      · rw [e] at hin
        exact absurd hin.1 (by simp [user, temp])
      · rw [e] at hin
        exact hin
    · rw [hm _ fun hin => ?_, h.sending j hj]
      subst hdt
      exact (scatter_apart task N t (blockBytes task) (blockBytes task)).not_inside hj
        (Loc.inside_part hin (by omega))
    · by_cases hj' : rp ≤ j
      · exact hnew' j hj' hj
      · rw [hm _ ?_, h.incoming j (by omega)]
        rintro ⟨-, h2, -⟩
        rw [Loc.shift_addr, Loc.shift_addr] at h2
        omega
  next t ht s _ hs h := by
    have ht : t + 1 < N - 1 := ht
    obtain ⟨hkept, hheld⟩ := reduce_incoming hapart W hdt hint hX (by omega) h
    change ScatterBytes task N r X m₀ (t + 1) 0 (reduceScatterSettle task s).1.byteAt
    rw [settle_next W ht hs]
    refine ⟨hkept, ?_, fun j hj => absurd hj (Nat.not_lt_zero j)⟩
    rw [scatter_turn]
    exact hheld
  last t ht s _ hs h := by
    have ht : t + 1 = N - 1 := ht
    have hr := W.lt
    obtain ⟨hkept, hheld⟩ := reduce_incoming hapart W hdt hint hX (by omega) h
    change ScatterDone task dt N r X m₀ (reduceScatterSettle task s).1.mem
    subst hdt
    rw [settle_last W ht hs]
    dsimp only
    generalize hs₁ : (if (reduceScatterRounds task N).recvLoc t ≠ user task.recvBuf then
        (reduced task N r t s).memcpy (user task.recvBuf) ((reduceScatterRounds task N).recvLoc t)
          (blockBytes task) else reduced task N r t s) = s₁
    -- the sum is in the receive buffer
    have hsum : Holds s₁.byteAt task.dtype (user task.recvBuf) task.elemCount
        (scatterElem task N r X (N - 1)) := by
      rw [← hs₁, ← ht]
      split
      · exact RankState.memcpy_holds hheld
      · rename_i hne
        rw [not_not] at hne
        rw [← hne]
        exact hheld
    have hkept₁ : ∀ a, ¬ (user a).inside (user task.recvBuf) (blockBytes task) →
        s₁.byteAt (user a) = m₀ a := by
      intro a ha
      rw [← hs₁]
      split
      · exact (RankState.memcpy_frame ha).trans (hkept a ha)
      · exact hkept a ha
    have hpos : 0 < task.worldSize := by
      rw [W.worldSize]
      omega
    refine ⟨fun i hi => ?_, fun a ha => ?_⟩
    · rw [← scatterElem_last hint hr]
      unfold averaged
      split
      · have havg := RankState.applyAverage_holds hpos hsum
        rw [W.worldSize] at havg ⊢
        exact havg.load hi
      · exact hsum.load hi
    · split
      · exact (RankState.applyAverage_frame hpos ha).trans (hkept₁ a ha)
      · exact hkept₁ a ha

/-- **The first call starts from the block of the previous rank.** -/
theorem scatter_start (W : OnRing task N r lo li) (hdt : task.dtype = dt)
    (hapart : Apart (user task.sendBuf) (scatterCount task N * getDataTypeSize task.dtype)
      (user task.recvBuf) (blockBytes task))
    (hX : ∀ i, X r i = elemAt m₀ dt task.sendBuf i) :
    ScatterBytes task N r X m₀ 0 0 (reduceScatterPrep task m₀).byteAt := by
  have hr := W.lt
  have hN := W.two_le
  have hblock : (task.rank - 1 + task.worldSize).tmod task.worldSize = (back N r 1 : Nat) := by
    rw [W.worldSize]
    exact tmod_back (k := 1) (by rw [W.rank]; omega)
  have hinput := inputBlock_holds (m := ((clear (freshState m₀)).resizeTemp
    (blockBytes task)).byteAt) hapart hdt hX (fun _ _ => rfl) (back_lt (k := 1) hr)
  refine ⟨fun a ha => ?_, ?_, fun j hj => absurd hj (Nat.not_lt_zero j)⟩
  · exact RankState.memcpy_frame ha
  · rw [reduceScatterPrep, hblock]
    subst hdt
    exact (RankState.memcpy_holds hinput).congr (fun _ _ => rfl) fun i _ => rfl

end Bytes

/-! ## 3. The ranks together -/

section Ranks

variable {H : Type} [DecidableEq H] {w : World H} {id : Nat} {p : Collective}

/-- The terms of a rank in a ReduceScatter with inputs `X`. -/
def scatterTerms {dt : DataType} (w : World H) (id : Nat) (X : Nat → Nat → Elem dt)
    (p : Collective) (r : Nat) : Terms Link UInt8 :=
  (reduceScatterRounds (p.task w id r) w.size).terms (channelLink id r ((r + 1) % w.size))
    (channelLink id (back w.size r 1) r) (scatterOk (p.task w id r) w.size r X)

theorem scatterElem_task {dt : DataType} {X : Nat → Nat → Elem dt} (r q v t i : Nat) :
    scatterElem (p.task w id r) w.size v X t i = scatterElem (p.task w id q) w.size v X t i := by
  rw [scatterElem, scatterElem, Collective.task_reduceOp, Collective.task_rankStride,
    Collective.task_reduceOp, Collective.task_rankStride]

/-- **The next rank receives what a rank sends.** -/
theorem scatter_joined {dt : DataType} (X : Nat → Nat → Elem dt) (hN : 2 ≤ w.size) :
    Joined w.size (scatterTerms w id X p) := by
  refine ring_joined id (fun r sd => off ((reduceScatterRounds (p.task w id r) w.size).len sd)
    (w.size - 1)) (fun r => scatterOk (p.task w id r) w.size r X) hN (fun r _ => ?_)
    fun r hr j b _ hb => ?_
  · refine off_congr fun t _ => ?_
    change blockBytes (p.task w id r) = blockBytes (p.task w id ((r + 1) % w.size))
    rw [Collective.blockBytes_task, Collective.blockBytes_task]
  · intro t ht i hi he
    rw [back_of_next hr]
    refine (hb t ht i ?_ ?_).trans ?_
    · rwa [Collective.blockBytes_task] at hi ⊢
    · simp only [Collective.blockBytes_task] at he ⊢
      exact he
    · exact congrArg (fun f => elemByte dt f i) (funext fun x => scatterElem_task r _ r t x)

/-- What holds of a rank's memory before and after the operation. -/
def scatterAt (w : World H) (id : Nat) (p : Collective) (m₀ : Nat → Mem) (r : Nat) :
    Nat → Mem → Prop
  | 0, m => m = m₀ r
  | _ + 1, m => ScatterDone (p.task w id r) p.dtype w.size r (p.inputs m₀) (m₀ r) m

/-- **The contract of one rank in a ReduceScatter.** -/
theorem scatter_contract (hid : id < w.nChannels) (hN : 2 ≤ w.size)
    (hfunc : p.func = .reduceScatter) (hring : p.onTree = false) (hcount : 0 < p.elemCount)
    (hint : p.dtype.isInt) {r : Nat} (hr : r < w.size)
    (hbuf : p.Separate r ((w.size - 1) * p.rankStride + p.elemCount) p.elemCount)
    (m₀ : Nat → Mem) :
    Nonempty (Contract channelSystem (p.task w id r) (scatterTerms w id (p.inputs m₀) p r)
      (scatterAt w id p m₀ r 0) (scatterAt w id p m₀ r 1)) := by
  have W := Collective.ring_onRing (p := p) hid hring hN hr
  have hdt : (p.task w id r).dtype = p.dtype := Collective.task_dtype
  have htopo : (p.task w id r).topology = some (.ring (w.ring r)) := by
    rw [Collective.task_topology, hring]
    rfl
  have T := reduceScatter_task W (by rw [Collective.task_func, hfunc]) htopo
    (by rw [Collective.task_elemCount]; omega)
    (by rw [Collective.task_sendBuf, Collective.task_recvBuf]; exact ⟨hbuf.send, hbuf.recv⟩)
  have hapart : Apart (user (p.task w id r).sendBuf)
      (scatterCount (p.task w id r) w.size * getDataTypeSize (p.task w id r).dtype)
      (user (p.task w id r).recvBuf) (blockBytes (p.task w id r)) := by
    rw [scatterCount, Collective.task_rankStride, Collective.task_elemCount]
    have h := hbuf.task_apart w id
    have hbytes : blockBytes (p.task w id r) = p.elemCount * getDataTypeSize p.dtype :=
      Collective.blockBytes_task r
    rw [hdt] at h ⊢
    rwa [hbytes]
  have hX : ∀ i, p.inputs m₀ r i = elemAt (m₀ r) p.dtype (p.task w id r).sendBuf i := by
    intro i
    rw [Collective.task_sendBuf]
    rfl
  refine ⟨T.contract (scatter_values W hdt hint hapart hX) fun m hm => ?_⟩
  obtain rfl : m = m₀ r := hm
  exact scatter_start W hdt hapart hX

/-- **Ring ReduceScatter is correct for every schedule**: when all ranks are done, every receive
    buffer holds the rank's block of the reduction, and the send buffers are unchanged. -/
theorem reduceScatter_correct (hid : id < w.nChannels) (hN : 2 ≤ w.size)
    (hfunc : p.func = .reduceScatter) (hring : p.onTree = false) (hcount : 0 < p.elemCount)
    (hint : p.dtype.isInt) (hbuf : ∀ r < w.size,
      p.Separate r ((w.size - 1) * p.rankStride + p.elemCount) p.elemCount) {m₀ : Nat → Mem}
    {ls : List (Label Nat Link UInt8 CollEvent)} {c : Config Nat Link UInt8 RankState Mem}
    (hrun : Run channelSystem (Flow.any Link) (w.tasks id [p]) (.start m₀) ls c)
    (hdone : ∀ r < w.size, (c.node r).finished = 1) :
    ∀ r < w.size, ∃ m, (c.node r).mode = .fresh m ∧
      (∀ i < p.elemCount, elemAt m p.dtype (p.recvBuf r) i =
        allreduceResult p.reduceOp w.size (p.inputs m₀) (r * p.rankStride + i)) ∧
      ∀ j < ((w.size - 1) * p.rankStride + p.elemCount) * getDataTypeSize p.dtype,
        m (p.sendBuf r + j) = m₀ r (p.sendBuf r + j) := by
  intro r hr
  obtain ⟨m, hm, hpost⟩ := single_post (scatterTerms w id (p.inputs m₀)) (scatterAt w id p m₀)
    (scatter_joined _ hN)
    (fun q hq => scatter_contract hid hN hfunc hring hcount hint hq (hbuf q hq) m₀)
    (fun _ => rfl) hrun hr (hdone r hr)
  have hpost : ScatterDone (p.task w id r) p.dtype w.size r (p.inputs m₀) (m₀ r) m := hpost
  refine ⟨m, hm, fun i hi => ?_, fun j hj => hpost.kept _ ?_⟩
  · have hres := hpost.result i (by rw [Collective.task_elemCount]; exact hi)
    rw [Collective.task_recvBuf, Collective.task_reduceOp, Collective.task_rankStride] at hres
    exact hres
  · have hin := ((hbuf r hr).task_apart w id).not_inside (j := j)
      (by rw [Collective.task_dtype]; exact hj)
    rw [Collective.task_sendBuf, Collective.task_dtype] at hin
    rw [Collective.blockBytes_task]
    exact hin

end Ranks

/-! ## 4. Three ranks -/

/-- Three ranks on one machine, one channel. -/
def trioWorld : World Unit := ⟨3, fun _ => (), 1⟩

/-- The average of three blocks of one element. -/
def trioScatter : Collective where
  func := .reduceScatter
  elemCount := 1
  rankStride := 1
  dtype := .int32
  reduceOp := .avg
  sendBuf _ := 8
  recvBuf _ := 32

/-- Rank `r` holds `100 + r`, `r` and `7`. -/
def trioMem (r a : Nat) : UInt8 :=
  if a = 8 then 100 + r.toUInt8 else if a = 12 then r.toUInt8 else if a = 16 then 7 else 0

/-- A schedule in which the ranks take turns, each with a few steps for either side. -/
def trioSchedule (n : Nat) : List (Nat × CollEvent) :=
  (List.replicate n ((List.range 3).flatMap fun v =>
    List.replicate 3 (v, .writable) ++ List.replicate 3 (v, .readable))).flatten

def scatterEnd : Config Nat Link UInt8 RankState Mem :=
  (Config.start trioMem).follow channelSystem (fun _ => 3) (trioWorld.tasks 0 [trioScatter])
    (trioSchedule 5)

theorem scatterRun : ∃ ls, Run channelSystem (Flow.any Link) (trioWorld.tasks 0 [trioScatter])
    (.start trioMem) ls scatterEnd := by
  obtain ⟨ls, h⟩ := Config.follow_run channelSystem (fun _ => 3) (trioWorld.tasks 0 [trioScatter])
    (.start trioMem) (trioSchedule 5)
  exact ⟨ls, h.any⟩

theorem reduceScatter_correct_trio : ∃ m, (scatterEnd.node 1).mode = .fresh m ∧
    elemAt m trioScatter.dtype (trioScatter.recvBuf 1) 0 =
      allreduceResult trioScatter.reduceOp trioWorld.size (trioScatter.inputs trioMem) 1 := by
  obtain ⟨ls, h⟩ := scatterRun
  obtain ⟨m, hm, hres, -⟩ := reduceScatter_correct (w := trioWorld) (p := trioScatter) (by decide)
    (by decide) rfl rfl (by decide) trivial
    (fun _ _ => ⟨Nat.succ_ne_zero 7, Nat.succ_ne_zero 31, Or.inl (show 8 + 3 * 4 ≤ 32 by decide)⟩) h
    (by decide +kernel) 1 (by decide)
  exact ⟨m, hm, hres 0 (by decide)⟩

end OriginCCL.TopologyRing
