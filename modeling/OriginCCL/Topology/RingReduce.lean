/-
  File:      OriginCCL/Topology/RingReduce.lean
  Subject:   A RING REDUCE UNDER EVERY SCHEDULE.

  A partial sum travels along the chain that starts behind the root: at distance `d` from its first
  rank it holds `d + 1` inputs, and at the root all of them.

  * `ReduceBytes` -- what the two halves of `temp_buffer` hold; the memory of the rank is untouched.
  * `reduce_values` -- **every round keeps it**, and the root's last one leaves the result.
  * `reduce_without_recvBuf` -- off the root no call depends on `recv_buf`.
  * `reduce_correct` -- **whatever the schedule, the root and the split of the bytes**, when the ranks
    are done the root holds the reduction, and nothing else has changed.
-/
import OriginCCL.Net.Schedule
import OriginCCL.Topology.RingAllreduceValues
import OriginCCL.Topology.RingChain
import OriginCCL.Topology.RingExchange
import OriginCCL.Topology.Together

namespace OriginCCL.TopologyRing

open Net Base

/-! ## 1. Partial sums -/

section Values

variable {dt : DataType} {op : ReduceOp} {N : Nat} {X : Nat → Nat → Elem dt}

/-- The sum at the end of the chain is that of all inputs. -/
theorem sumAt_full (hint : dt.isInt) {r : Nat} (hr : r < N) (i : Nat) :
    averaged op N (sumAt op N X (N - 1) r i) = allreduceResult op N X i := by
  have h : partSum op N X (N - 1) r i = allreduceResult op N X i := partSum_full hint hr i
  rwa [partSum, if_pos rfl] at h

/-- A single rank has nothing to divide. -/
theorem averageElem_one (hint : dt.isInt) (x : Elem dt) : averageElem dt 1 x = x := by
  cases dt with
  | int32 | int64 => exact (congrArg _ (Int.tdiv_one _)).trans (BitVec.ofInt_toInt ..)
  | float32 | float64 => exact hint.elim

theorem allreduceResult_one (hint : dt.isInt) (i : Nat) : allreduceResult op 1 X i = X 0 i := by
  change averaged op 1 (X 0 i) = X 0 i
  unfold averaged
  split
  · exact averageElem_one hint _
  · rfl

end Values

/-! ## 2. The bytes -/

section Bytes

variable {dt : DataType} {task : PlanTask} {N r q : Nat} {lo li : Link} {X : Nat → Nat → Elem dt}
  {m₀ : Mem} {t rp : Nat}

/-- The distance of a rank from the first of the chain, the rank behind the root. -/
def chainPlace (N r q : Nat) : Nat := back N r ((q + 1) % N)

/-- The bytes of the two streams of rank `r`: the sums of its own and of the previous place. -/
def reduceOk (task : PlanTask) (N r q : Nat) (X : Nat → Nat → Elem dt) : Side → Nat → UInt8 → Prop
  | .out => fun j b => b = elemByte dt (sumAt task.reduceOp N X (chainPlace N r q) r) j
  | .inn => fun j b =>
    b = elemByte dt (sumAt task.reduceOp N X (chainPlace N r q - 1) (back N r 1)) j

/-- What the first half of `temp_buffer` holds in round `t`: the input until the round that sends. -/
def heldElem (task : PlanTask) (N r q : Nat) (X : Nat → Nat → Elem dt) (t : Nat) : Nat → Elem dt :=
  if chainPlace N r q = 0 ∨ t = 1 then sumAt task.reduceOp N X (chainPlace N r q) r else X r

/-- **The bytes in round `t`** after `rp` received ones. -/
structure ReduceBytes (task : PlanTask) (N r q : Nat) (X : Nat → Nat → Elem dt) (m₀ : Mem)
    (t rp : Nat) (m : Loc → UInt8) : Prop where
  kept : ∀ a, m (user a) = m₀ a
  held : Holds m dt (temp 0) task.elemCount (heldElem task N r q X t)
  incoming : ∀ j < rp, m ((temp (blockBytes task)).shift j) =
    elemByte dt (sumAt task.reduceOp N X (chainPlace N r q - 1) (back N r 1)) j

/-- What a Reduce leaves: the result on the root, and all other memory as before. -/
structure ReduceDone (task : PlanTask) (dt : DataType) (N r q : Nat) (X : Nat → Nat → Elem dt)
    (m₀ m : Mem) : Prop where
  result : r = q → ∀ i < task.elemCount,
    elemAt m dt task.recvBuf i = allreduceResult task.reduceOp N X i
  kept : ∀ a, ¬ (r = q ∧ (user a).inside (user task.recvBuf) (blockBytes task)) → m a = m₀ a

/-- The root is the last of its chain. -/
theorem chainPlace_last (hr : r < N) (hq : q < N) : chainPlace N r q + 1 = N ↔ r = q := by
  rw [chainPlace, back_last_iff hr (Nat.mod_lt _ (by omega))]
  constructor
  · intro h
    have h1 := back_of_next hr
    rw [h, back_of_next hq] at h1
    exact h1.symm
  · rintro rfl
    rfl

/-- The two halves of `temp_buffer` lie apart. -/
theorem halves_apart (n : Nat) : Apart (temp n) n (temp 0) n :=
  Or.inr (Or.inr (by simp [temp]))

/-- **A rank adds its own input** to what the previous place has sent. -/
theorem sumAt_place (hd : chainPlace N r q ≠ 0) (i : Nat) :
    sumAt task.reduceOp N X (chainPlace N r q) r i =
      reduceElem dt (sumFirst task.reduceOp) (X r i)
        (sumAt task.reduceOp N X (chainPlace N r q - 1) (back N r 1) i) := by
  obtain ⟨d, hd⟩ := Nat.exists_eq_succ_of_ne_zero hd
  rw [hd]
  rfl

/-- **The reduction of a complete receive** leaves the sum of the rank's place. -/
theorem reduce_received (hdt : task.dtype = dt) (hd : chainPlace N r q ≠ 0)
    {s : RankState} (h : ReduceBytes task N r q X m₀ 0 (blockBytes task) s.byteAt) :
    (∀ a, (reduceBlock task (temp (blockBytes task)) (temp 0) s).byteAt (user a) = m₀ a) ∧
      Holds (reduceBlock task (temp (blockBytes task)) (temp 0) s).byteAt dt (temp 0)
        task.elemCount (sumAt task.reduceOp N X (chainPlace N r q) r) := by
  have hheld := h.held
  have hinput : heldElem task N r q X 0 = X r := if_neg (by omega)
  rw [hinput] at hheld
  subst hdt
  have hincoming : Holds s.byteAt task.dtype (temp (blockBytes task)) task.elemCount
      (sumAt task.reduceOp N X (chainPlace N r q - 1) (back N r 1)) := fun j hj => h.incoming j hj
  refine ⟨fun a => ?_, ?_⟩
  · refine (RankState.performReduce_frame _ (halves_apart _) ?_).trans (h.kept a)
    rintro ⟨hspace, -⟩
    exact absurd hspace (by simp [user, temp])
  · refine (RankState.performReduce_holds (sumFirst task.reduceOp) (halves_apart _) hheld
      hincoming).congr (fun _ _ => rfl) fun i _ => ?_
    rw [sumAt_place hd]

/-- Off the root the sum is passed on. -/
theorem reduceSettle_pass {s : RankState} (hp : s.op.phase = kPhaseRecv)
    (hroot : task.rank ≠ task.root) : reduceSettle task s =
      (reduceBlock task (temp (blockBytes task)) (temp 0) s, some kPhaseSend) := by
  unfold reduceSettle
  rw [if_pos hp]
  exact if_neg hroot

/-- The root copies the sum to its receive buffer and averages it. -/
theorem reduceSettle_root {s : RankState} (hp : s.op.phase = kPhaseRecv)
    (hroot : task.rank = task.root) : (reduceSettle task s).1 =
      let s := (reduceBlock task (temp (blockBytes task)) (temp 0) s).memcpy (user task.recvBuf)
        (temp 0) (blockBytes task)
      if task.reduceOp = .avg then
        s.applyAverage (user task.recvBuf) task.elemCount task.dtype task.worldSize
      else s := by
  unfold reduceSettle
  rw [if_pos hp]
  dsimp only
  rw [if_pos hroot]

/-- A round that sends leaves the state as it is. -/
theorem reduceSettle_sent {s : RankState} (hp : s.op.phase = kPhaseSend) :
    reduceSettle task s = (s, some kPhaseDone) := by
  unfold reduceSettle
  exact if_neg (by rw [hp]; decide)

/-- **The last round of the root** leaves the result in its receive buffer. -/
theorem reduce_root_done (W : OnRing task N r lo li) (hdt : task.dtype = dt) (hint : dt.isInt)
    (hq : q < N) (hrq : r = q) (hroot : task.root = (q : Nat)) {s : RankState}
    (hp : s.op.phase = kPhaseRecv)
    (h : ReduceBytes task N r q X m₀ 0 (blockBytes task) s.byteAt) :
    ReduceDone task dt N r q X m₀ (reduceSettle task s).1.mem := by
  have hr := W.lt
  have hN := W.two_le
  have hd := (chainPlace_last hr hq).mpr hrq
  have hplace : chainPlace N r q = N - 1 := by omega
  obtain ⟨hkept, hheld⟩ := reduce_received hdt (by omega) h
  rw [hplace] at hheld
  have hpos : 0 < task.worldSize := by
    rw [W.worldSize]
    omega
  rw [reduceSettle_root hp (by rw [W.rank, hroot, hrq])]
  subst hdt
  have hsum : Holds ((reduceBlock task (temp (blockBytes task)) (temp 0) s).memcpy
      (user task.recvBuf) (temp 0) (blockBytes task)).byteAt task.dtype (user task.recvBuf)
      task.elemCount (sumAt task.reduceOp N X (N - 1) r) := RankState.memcpy_holds hheld
  have hkept₁ : ∀ a, ¬ (user a).inside (user task.recvBuf) (blockBytes task) →
      ((reduceBlock task (temp (blockBytes task)) (temp 0) s).memcpy (user task.recvBuf) (temp 0)
        (blockBytes task)).byteAt (user a) = m₀ a :=
    fun a ha => (RankState.memcpy_frame ha).trans (hkept a)
  refine ⟨fun _ i hi => ?_, fun a ha => ?_⟩
  · rw [← sumAt_full hint hr]
    unfold averaged
    dsimp only
    split
    · have havg := RankState.applyAverage_holds hpos hsum
      rw [W.worldSize] at havg ⊢
      exact havg.load hi
    · exact hsum.load hi
  · have ha : ¬ (user a).inside (user task.recvBuf) (blockBytes task) := fun hin =>
      ha ⟨hrq, hin⟩
    dsimp only
    split
    · exact (RankState.applyAverage_frame hpos ha).trans (hkept₁ a ha)
    · exact hkept₁ a ha

/-- **Reduce keeps the claim about its bytes**, and the root ends with the result. -/
theorem reduce_values (W : OnRing task N r lo li) (hdt : task.dtype = dt) (hint : dt.isInt)
    (hq : q < N) (hroot : task.root = (q : Nat)) :
    Claimed reduce task (reduceRounds task N r q) (reduceOk task N r q X)
      (ReduceBytes task N r q X m₀) (ReduceDone task dt N r q X m₀) where
  sends t ht rp _ m h j hj := by
    have hoff := chain_send_off _ _ _ _ _ ht (Nat.zero_lt_of_lt hj)
    change m ((temp 0).shift j) = elemByte dt _ (off (reduceRounds task N r q).sendLen t + j)
    have hsend : chainPlace N r q = 0 ∨ t = 1 := by
      by_contra hne
      have hlen : (reduceRounds task N r q).sendLen t = 0 := if_neg hne
      omega
    have hheld := h.held
    rw [heldElem, if_pos hsend] at hheld
    have hj : j < blockBytes task := Nat.lt_of_lt_of_eq hj (if_pos hsend)
    rw [show off (reduceRounds task N r q).sendLen t = 0 from hoff, Nat.zero_add]
    subst hdt
    exact hheld j hj
  receives t ht rp rp' hle hrp m m' h hnew hm := by
    have hlen : rp' ≤ blockBytes task := by
      refine Nat.le_trans hrp ?_
      change (if _ then 0 else blockBytes task) ≤ _
      split <;> omega
    refine ⟨fun a => ?_, fun j hj => ?_, fun j hj => ?_⟩
    · rw [hm _ ?_, h.kept a]
      rintro ⟨hspace, -⟩
      exact absurd hspace (by simp [user, reduceRounds, chainRounds, temp])
    · rw [hm _ fun hin => ?_, h.held j hj]
      subst hdt
      exact (halves_apart (blockBytes task)).symm.not_inside hj (Loc.inside_part hin (by omega))
    · by_cases hj' : rp ≤ j
      · have hpos : 0 < (reduceRounds task N r q).recvLen t := by omega
        obtain ⟨-, hoff⟩ := chain_recv_off _ _ _ _ _ ht hpos
        have hb := hnew j hj' hj
        rw [show off (reduceRounds task N r q).recvLen t = 0 from hoff, Nat.zero_add] at hb
        exact hb
      · have hout : ¬ ((temp (blockBytes task)).shift j).inside
            ((temp (blockBytes task)).shift rp) (rp' - rp) := by
          rintro ⟨-, h2, -⟩
          rw [Loc.shift_addr, Loc.shift_addr] at h2
          omega
        rw [hm _ hout, h.incoming j (by omega)]
  next t ht s hp _ h := by
    obtain ⟨rfl, hd, hlast⟩ := chain_next ht
    have hlen : (reduceRounds task N r q).recvLen 0 = blockBytes task := if_neg (by omega)
    have hphase : s.op.phase = kPhaseRecv := hp.trans (if_neg (by omega))
    have hne : task.rank ≠ task.root := by
      rw [W.rank, hroot]
      intro he
      exact hlast ((chainPlace_last W.lt hq).mpr (by omega))
    rw [hlen] at h
    obtain ⟨hkept, hheld⟩ := reduce_received hdt hd h
    change ReduceBytes task N r q X m₀ (0 + 1) 0 (reduceSettle task s).1.byteAt
    rw [reduceSettle_pass hphase hne]
    refine ⟨hkept, ?_, fun j hj => absurd hj (Nat.not_lt_zero j)⟩
    rw [heldElem, if_pos (Or.inr rfl)]
    exact hheld
  last t ht s hp _ h := by
    change ReduceDone task dt N r q X m₀ (reduceSettle task s).1.mem
    have hplace := chainPlace_last W.lt hq
    have hN := W.two_le
    by_cases hsend : chainPlace N r q = 0 ∨ t = 1
    · have hphase : s.op.phase = kPhaseSend := hp.trans (if_pos hsend)
      rw [reduceSettle_sent hphase]
      refine ⟨fun hrq => ?_, fun a _ => h.kept a⟩
      have hlast := hplace.mpr hrq
      have htotal : t + 1 = 1 := ht.trans (if_pos (Or.inr hlast))
      omega
    · have hlen : (reduceRounds task N r q).recvLen t = blockBytes task := if_neg hsend
      have hphase : s.op.phase = kPhaseRecv := hp.trans (if_neg hsend)
      obtain ⟨rfl, hlast⟩ := chain_last ht hsend
      rw [hlen] at h
      exact reduce_root_done W hdt hint hq (hplace.mp hlast) hroot hphase h

/-- **The first call starts from the rank's own input.** -/
theorem reduce_start (hdt : task.dtype = dt) (hX : ∀ i, X r i = elemAt m₀ dt task.sendBuf i) :
    ReduceBytes task N r q X m₀ 0 0 (reducePrep task m₀).byteAt := by
  refine ⟨fun a => ?_, ?_, fun j hj => absurd hj (Nat.not_lt_zero j)⟩
  · refine RankState.memcpy_frame ?_
    rintro ⟨hspace, -⟩
    exact absurd hspace (by simp [user, temp])
  · have hfirst : heldElem task N r q X 0 = X r := by
      unfold heldElem
      split
      · rename_i h
        rw [h.resolve_right (by omega)]
        rfl
      · rfl
    rw [hfirst, reducePrep]
    subst hdt
    have hinput : Holds ((clear (freshState m₀)).resizeTemp (2 * blockBytes task)).byteAt
        task.dtype (user task.sendBuf) task.elemCount (X r) := fun j hj => by
      rw [elemByte_congr (fun i _ => hX i) hj]
      exact holds_load task.dtype (freshState m₀) (user task.sendBuf) task.elemCount j hj
    exact RankState.memcpy_holds hinput

/-- What a single rank, the root, leaves. -/
theorem reduce_alone (hdt : task.dtype = dt) (hint : dt.isInt)
    (hX : ∀ i, X 0 i = elemAt m₀ dt task.sendBuf i) : ReduceDone task dt 1 0 0 X m₀
      ((clear (freshState m₀)).memcpy (user task.recvBuf) (user task.sendBuf)
        (blockBytes task)).mem := by
  subst hdt
  have hinput : Holds (clear (freshState m₀)).byteAt task.dtype (user task.sendBuf)
      task.elemCount (X 0) := fun j hj => by
    rw [elemByte_congr (fun i _ => hX i) hj]
    exact holds_load task.dtype (freshState m₀) (user task.sendBuf) task.elemCount j hj
  refine ⟨fun _ i hi => ?_, fun a ha => ?_⟩
  · have hcopy : Holds ((clear (freshState m₀)).memcpy (user task.recvBuf) (user task.sendBuf)
        (blockBytes task)).byteAt task.dtype (user task.recvBuf) task.elemCount (X 0) :=
      RankState.memcpy_holds hinput
    rw [allreduceResult_one hint]
    exact hcopy.load hi
  · exact RankState.memcpy_frame fun hin => ha ⟨rfl, hin⟩

end Bytes

/-! ## 3. Off the root -/

section OffRoot

variable {task : PlanTask} (x : Nat)

theorem reduceSettle_without_recvBuf (h : task.rank ≠ task.root) (s : RankState) :
    reduceSettle { task with recvBuf := x } s = reduceSettle task s := by
  by_cases hp : s.op.phase = kPhaseRecv
  · have hpass : reduceSettle { task with recvBuf := x } s =
        (reduceBlock task (temp (blockBytes task)) (temp 0) s, some kPhaseSend) :=
      reduceSettle_pass hp h
    rw [hpass, reduceSettle_pass hp h]
  · unfold reduceSettle
    rw [if_neg hp, if_neg hp]

theorem completeReduce_without_recvBuf (h : task.rank ≠ task.root) (fuel : Nat) (s : RankState) :
    reduce.completeLoop { task with recvBuf := x } fuel s = reduce.completeLoop task fuel s := by
  induction fuel generalizing s with
  | zero => rfl
  | succ fuel ih =>
    have hloop : reduce.completeLoop { task with recvBuf := x } fuel =
        reduce.completeLoop task fuel := funext ih
    have hset : reduce.settle { task with recvBuf := x } s = reduce.settle task s :=
      reduceSettle_without_recvBuf x h s
    rw [Operation.completeLoop, Operation.completeLoop, hloop, hset]
    rfl

/-- **Off the root no call depends on the receive buffer**: it neither reads nor writes there. -/
theorem reduce_without_recvBuf {ring : TopologyRing} (hfunc : task.func = .reduce)
    (htopo : task.topology = some (.ring ring)) (hrank : 0 ≤ task.rank ∧ task.rank < task.worldSize)
    (h : task.rank ≠ task.root) :
    (∀ m, channelSystem.init { task with recvBuf := x } m = channelSystem.init task m) ∧
      ∀ e s, channelSystem.step { task with recvBuf := x } e s = channelSystem.step task e s := by
  have hloop : reduce.completeLoop { task with recvBuf := x } 3 = reduce.completeLoop task 3 :=
    funext (completeReduce_without_recvBuf x h 3)
  have hinit : reduceInit { task with recvBuf := x } = reduceInit task := by
    funext s
    unfold reduceInit completeReduce
    rw [hloop]
    simp only [h, false_and, or_false]
    by_cases h1 : task.worldSize = 1
    · -- a single rank is the root, or there is none
      have hroot : task.worldSize ≤ 0 ∨ task.root < 0 ∨ task.root ≥ task.worldSize := by omega
      rw [if_pos hroot, if_pos hroot]
    · simp only [h1, if_false]
      rfl
  have hruns : Runs reduce task 3 (reduceInit task) := reduce_runs hfunc htopo
  have hruns' : Runs reduce { task with recvBuf := x } 3 (reduceInit { task with recvBuf := x }) :=
    reduce_runs hfunc htopo
  refine ⟨fun m => ?_, fun e s => ?_⟩
  · rw [hruns.init, hruns'.init, hinit]
  · rw [hruns.step, hruns'.step, hinit, hloop]
    rfl

end OffRoot

/-! ## 4. The ranks together -/

section Ranks

variable {H : Type} [DecidableEq H] {w : World H} {id q : Nat} {p : Collective}

/-- The terms of a rank in a Reduce to root `q` with inputs `X`. -/
def reduceTerms {dt : DataType} (w : World H) (id q : Nat) (X : Nat → Nat → Elem dt)
    (p : Collective) (r : Nat) : Terms Link UInt8 :=
  if w.size = 1 then Terms.none
  else (reduceRounds (p.task w id r) w.size r q).terms (channelLink id r ((r + 1) % w.size))
    (channelLink id (back w.size r 1) r) (reduceOk (p.task w id r) w.size r q X)

/-- **The next rank receives what a rank sends.** -/
theorem reduce_joined {dt : DataType} (X : Nat → Nat → Elem dt) (hN : 1 ≤ w.size) :
    Joined w.size (reduceTerms w id q X p) := by
  by_cases h1 : w.size = 1
  · have e : reduceTerms w id q X p = fun _ => Terms.none := funext fun r => if_pos h1
    rw [e]
    exact joined_none w.size
  · have e : reduceTerms w id q X p = fun r =>
        (reduceRounds (p.task w id r) w.size r q).terms (channelLink id r ((r + 1) % w.size))
          (channelLink id (back w.size r 1) r) (reduceOk (p.task w id r) w.size r q X) :=
      funext fun r => if_neg h1
    have hsent : ∀ r, off (reduceRounds (p.task w id r) w.size r q).sendLen
        (reduceRounds (p.task w id r) w.size r q).total =
          if chainPlace w.size r q + 1 = w.size then 0 else blockBytes (p.task w id r) :=
      fun r => chain_sent (by omega) ..
    have hreceived : ∀ r, off (reduceRounds (p.task w id r) w.size r q).recvLen
        (reduceRounds (p.task w id r) w.size r q).total =
          if chainPlace w.size r q = 0 then 0 else blockBytes (p.task w id r) :=
      fun r => chain_received (by omega) ..
    have hplace : ∀ r < w.size, chainPlace w.size ((r + 1) % w.size) q =
        if chainPlace w.size r q + 1 = w.size then 0 else chainPlace w.size r q + 1 :=
      fun r hr => back_of_next_rank hr (Nat.mod_lt _ (by omega))
    rw [e]
    refine ring_joined id (fun r sd => off ((reduceRounds (p.task w id r) w.size r q).len sd)
      (reduceRounds (p.task w id r) w.size r q).total)
      (fun r => reduceOk (p.task w id r) w.size r q X) (by omega) (fun r hr => ?_)
      fun r hr j b hj hb => ?_
    · change off (reduceRounds (p.task w id r) w.size r q).sendLen _ =
        off (reduceRounds (p.task w id ((r + 1) % w.size)) w.size ((r + 1) % w.size) q).recvLen _
      rw [hsent, hreceived, hplace r hr, Collective.blockBytes_task, Collective.blockBytes_task]
      by_cases hl : chainPlace w.size r q + 1 = w.size
      · rw [if_pos hl, if_pos hl, if_pos rfl]
      · rw [if_neg hl, if_neg hl, if_neg (Nat.succ_ne_zero _)]
    · have hj : j < off (reduceRounds (p.task w id r) w.size r q).sendLen
          (reduceRounds (p.task w id r) w.size r q).total := hj
      have hne : ¬ chainPlace w.size r q + 1 = w.size := fun hl => by
        rw [hsent, if_pos hl] at hj
        omega
      have hb : b = elemByte dt (sumAt (p.task w id r).reduceOp w.size X
        (chainPlace w.size r q) r) j := hb
      change b = elemByte dt (sumAt (p.task w id ((r + 1) % w.size)).reduceOp w.size X
        (chainPlace w.size ((r + 1) % w.size) q - 1) (back w.size ((r + 1) % w.size) 1)) j
      rw [back_of_next hr, hplace r hr, if_neg hne, Nat.add_sub_cancel, Collective.task_reduceOp]
      rw [Collective.task_reduceOp] at hb
      exact hb

/-- What holds of a rank's memory before and after the operation. -/
def reduceAt (w : World H) (id q : Nat) (p : Collective) (m₀ : Nat → Mem) (r : Nat) :
    Nat → Mem → Prop
  | 0, m => m = m₀ r
  | _ + 1, m => ReduceDone (p.task w id r) p.dtype w.size r q (p.inputs m₀) (m₀ r) m

/-- A single rank, the root, copies its input. -/
theorem reduce_single {task : PlanTask} {ring : TopologyRing} (hfunc : task.func = .reduce)
    (htopo : task.topology = some (.ring ring)) (hcount : task.elemCount ≠ 0)
    (hsend : task.sendBuf ≠ 0) (hrecv : task.recvBuf ≠ 0) (hworld : task.worldSize = 1)
    (hroot : task.root = 0) (m : Mem) : channelSystem.init task m = .ret (finishAtOnce task
      ((clear (freshState m)).memcpy (user task.recvBuf) (user task.sendBuf)
        (blockBytes task))) := by
  have hvalid : ¬ (task.worldSize ≤ 0 ∨ task.root < 0 ∨ task.root ≥ task.worldSize) := by omega
  have hbuf : ¬ (task.sendBuf = 0 ∨ task.rank = task.root ∧ task.recvBuf = 0) := by
    rintro (h | ⟨-, h⟩)
    · exact hsend h
    · exact hrecv h
  rw [(reduce_runs hfunc htopo).init]
  unfold reduceInit
  simp only [if_neg hvalid, if_neg hcount, if_neg hbuf, if_pos hworld]
  rfl

/-- **The contract of one rank in a Reduce.** -/
theorem reduce_contract (hid : id < w.nChannels) (hfunc : p.func = .reduce)
    (hring : p.onTree = false) (hcount : 0 < p.elemCount) (hint : p.dtype.isInt)
    (hq : q < w.size) (hroot : p.root = (q : Nat)) {r : Nat} (hr : r < w.size)
    (hsend : p.sendBuf r ≠ 0) (hrecv : p.recvBuf q ≠ 0) (m₀ : Nat → Mem) :
    Nonempty (Contract channelSystem (p.task w id r) (reduceTerms w id q (p.inputs m₀) p r)
      (reduceAt w id q p m₀ r 0) (reduceAt w id q p m₀ r 1)) := by
  have hdt : (p.task w id r).dtype = p.dtype := Collective.task_dtype
  have htopo : (p.task w id r).topology = some (.ring (w.ring r)) := by
    rw [Collective.task_topology, hring]
    rfl
  have hfunc' : (p.task w id r).func = .reduce := by rw [Collective.task_func, hfunc]
  have hcount' : (p.task w id r).elemCount ≠ 0 := by rw [Collective.task_elemCount]; omega
  have hroot' : (p.task w id r).root = (q : Nat) := by rw [Collective.task_root, hroot]
  have hsend' : (p.task w id r).sendBuf ≠ 0 := by rw [Collective.task_sendBuf]; exact hsend
  have hX : ∀ i, p.inputs m₀ r i = elemAt (m₀ r) p.dtype (p.task w id r).sendBuf i := by
    intro i
    rw [Collective.task_sendBuf]
    rfl
  by_cases h1 : w.size = 1
  · obtain rfl : r = 0 := by omega
    obtain rfl : q = 0 := by omega
    have hrecv' : (p.task w id 0).recvBuf ≠ 0 := by rw [Collective.task_recvBuf]; exact hrecv
    rw [reduceTerms, if_pos h1]
    refine ⟨finishAtOnce_contract htopo (fun m => (clear (freshState m)).memcpy
      (user (p.task w id 0).recvBuf) (user (p.task w id 0).sendBuf) (blockBytes (p.task w id 0)))
      (fun m _ => ?_) fun m hm => ?_⟩
    · exact reduce_single hfunc' htopo hcount' hsend' hrecv'
        (by rw [Collective.task_worldSize, h1]; rfl) hroot' m
    · obtain rfl : m = m₀ 0 := hm
      change ReduceDone (p.task w id 0) p.dtype w.size 0 0 (p.inputs m₀) (m₀ 0) _
      rw [h1]
      exact reduce_alone hdt hint hX
  · have W := Collective.ring_onRing (p := p) hid hring (by omega) hr
    have T := reduce_task W hfunc' htopo hroot' hq hcount' hsend' fun hrank => by
      rw [Collective.task_rank, hroot'] at hrank
      rw [Collective.task_recvBuf, show r = q by omega]
      exact hrecv
    rw [reduceTerms, if_neg h1]
    refine ⟨T.contract (reduce_values W hdt hint hq hroot') fun m hm => ?_⟩
    obtain rfl : m = m₀ r := hm
    exact reduce_start hdt hX

/-- **Ring Reduce is correct for every root and schedule**: when all ranks are done, the root's
    receive buffer holds the reduction of all inputs, every send buffer is unchanged, and off the root
    the memory is unchanged and no call depends on `recv_buf`. -/
theorem reduce_correct (hid : id < w.nChannels) (hN : 1 ≤ w.size) (hfunc : p.func = .reduce)
    (hring : p.onTree = false) (hcount : 0 < p.elemCount) (hint : p.dtype.isInt)
    (hq : q < w.size) (hroot : p.root = (q : Nat)) (hsend : ∀ r < w.size, p.sendBuf r ≠ 0)
    (hbuf : p.Separate q p.elemCount p.elemCount) {m₀ : Nat → Mem}
    {ls : List (Label Nat Link UInt8 CollEvent)} {c : Config Nat Link UInt8 RankState Mem}
    (hrun : Run channelSystem (Flow.any Link) (w.tasks id [p]) (.start m₀) ls c)
    (hdone : ∀ r < w.size, (c.node r).finished = 1) :
    ∀ r < w.size, ∃ m, (c.node r).mode = .fresh m ∧
      (r = q → ∀ i < p.elemCount, elemAt m p.dtype (p.recvBuf q) i =
        allreduceResult p.reduceOp w.size (p.inputs m₀) i) ∧
      (∀ j < p.elemCount * getDataTypeSize p.dtype,
        m (p.sendBuf r + j) = m₀ r (p.sendBuf r + j)) ∧
      (r ≠ q → m = m₀ r ∧ ∀ x,
        (∀ m', channelSystem.init { p.task w id r with recvBuf := x } m' =
          channelSystem.init (p.task w id r) m') ∧
        ∀ e s, channelSystem.step { p.task w id r with recvBuf := x } e s =
          channelSystem.step (p.task w id r) e s) := by
  intro r hr
  obtain ⟨m, hm, hpost⟩ := single_post (reduceTerms w id q (p.inputs m₀)) (reduceAt w id q p m₀)
    (reduce_joined _ hN)
    (fun v hv => reduce_contract hid hfunc hring hcount hint hq hroot hv (hsend v hv) hbuf.recv m₀)
    (fun _ => rfl) hrun hr (hdone r hr)
  have hpost : ReduceDone (p.task w id r) p.dtype w.size r q (p.inputs m₀) (m₀ r) m := hpost
  refine ⟨m, hm, ?_, fun j hj => hpost.kept _ ?_, fun hne => ⟨?_, fun x => ?_⟩⟩
  · rintro rfl i hi
    have hres := hpost.result rfl i (by rw [Collective.task_elemCount]; exact hi)
    rw [Collective.task_recvBuf, Collective.task_reduceOp] at hres
    exact hres
  · rintro ⟨rfl, hin⟩
    have hout := (hbuf.task_apart w id).not_inside (j := j)
      (by rw [Collective.task_dtype]; exact hj)
    rw [Collective.task_sendBuf, Collective.task_dtype] at hout
    rw [Collective.blockBytes_task] at hin
    exact hout hin
  · exact funext fun a => hpost.kept a fun h => hne h.1
  · have htopo : (p.task w id r).topology = some (.ring (w.ring r)) := by
      rw [Collective.task_topology, hring]
      rfl
    refine reduce_without_recvBuf x (by rw [Collective.task_func, hfunc]) htopo ?_ ?_
    · rw [Collective.task_rank, Collective.task_worldSize]
      omega
    · rw [Collective.task_rank, Collective.task_root, hroot]
      omega

end Ranks

/-! ## 5. Three ranks -/

/-- Three ranks on one machine, one channel. -/
def reduceWorld : World Unit := ⟨3, fun _ => (), 1⟩

/-- The average of one element on rank 1; the other ranks have no receive buffer. -/
def reduceTrio : Collective where
  func := .reduce
  elemCount := 1
  dtype := .int32
  reduceOp := .avg
  root := 1
  sendBuf _ := 8
  recvBuf r := if r = 1 then 32 else 0

/-- Rank `r` holds `30 + 3 * r`. -/
def reduceMem (r a : Nat) : UInt8 := if a = 8 then 30 + 3 * r.toUInt8 else 0

def reduceEnd : Config Nat Link UInt8 RankState Mem :=
  (Config.start reduceMem).follow channelSystem (fun _ => 3) (reduceWorld.tasks 0 [reduceTrio])
    (List.replicate 5 ((List.range 3).flatMap fun v =>
      List.replicate 3 (v, .writable) ++ List.replicate 3 (v, .readable))).flatten

theorem reduceRun : ∃ ls, Run channelSystem (Flow.any Link) (reduceWorld.tasks 0 [reduceTrio])
    (.start reduceMem) ls reduceEnd := by
  obtain ⟨ls, h⟩ := Config.follow_run channelSystem (fun _ => 3) (reduceWorld.tasks 0 [reduceTrio])
    (.start reduceMem) _
  exact ⟨ls, h.any⟩

theorem reduce_correct_trio : ∃ m, (reduceEnd.node 1).mode = .fresh m ∧
    elemAt m reduceTrio.dtype (reduceTrio.recvBuf 1) 0 =
      allreduceResult reduceTrio.reduceOp reduceWorld.size (reduceTrio.inputs reduceMem) 0 := by
  obtain ⟨ls, h⟩ := reduceRun
  obtain ⟨m, hm, hres, -⟩ := reduce_correct (q := 1) (w := reduceWorld) (p := reduceTrio)
    (by decide) (by decide) rfl rfl (by decide) trivial (by decide) rfl
    (fun _ _ => Nat.succ_ne_zero 7)
    ⟨Nat.succ_ne_zero 7, Nat.succ_ne_zero 31, Or.inl (show 8 + 1 * 4 ≤ 32 by decide)⟩ h
    (by decide +kernel) 1 (by decide)
  exact ⟨m, hm, hres rfl 0 (by decide)⟩

end OriginCCL.TopologyRing
