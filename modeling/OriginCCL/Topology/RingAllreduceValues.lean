/-
  File:      OriginCCL/Topology/RingAllreduceValues.lean
  Subject:   WHAT THE BYTES OF A RING ALLREDUCE ARE.

  In the first half a chunk that has come `k` steps holds the sum of `k + 1` inputs (`sumAt`), in the
  second half the chunks that have arrived hold the result.

  * `allreduceResult` -- the reduction over all ranks, divided once for `AVG`.
  * `AllreduceBytes` -- the claim about the bytes in every round.
  * `allreduce_values` -- **every round keeps it**, and after the last one the receive buffer holds
    the result.
  * `allreduce_sent_received` -- what a rank sends is what the next rank may rely on.
-/
import Mathlib.Tactic.Ring
import OriginCCL.Topology.RingAllreduce

namespace OriginCCL.TopologyRing

open Net Base

/-! ## 1. Values -/

section Values

variable {dt : DataType} (op : ReduceOp) (N : Nat) (X : Nat → Nat → Elem dt)

/-- The sum of the inputs of `r`, `r - 1`, …, `r - k`, element `i`. -/
def sumAt (k r i : Nat) : Elem dt := travel (reduceElem dt (sumFirst op)) N (fun q => X q i) k r

/-- The average, for `AVG`. -/
def averaged (x : Elem dt) : Elem dt := if op = .avg then averageElem dt N x else x

/-- **The result of an AllReduce**: the reduction over all ranks, for `AVG` divided once. -/
def allreduceResult (i : Nat) : Elem dt :=
  averaged op N (reduceRange (reduceElem dt (sumFirst op)) N fun q => X q i)

/-- What the reduction of a chunk that has come `k` steps leaves in the receive buffer. -/
def partSum (k r i : Nat) : Elem dt :=
  if k = N - 1 then averaged op N (sumAt op N X k r i) else sumAt op N X k r i

variable {op N X}

theorem partSum_full (hint : dt.isInt) {r : Nat} (hr : r < N) (i : Nat) :
    partSum op N X (N - 1) r i = allreduceResult op N X i := by
  have : Std.Commutative (reduceElem dt (sumFirst op)) := ⟨reduceElem_comm hint _⟩
  have : Std.Associative (reduceElem dt (sumFirst op)) := ⟨reduceElem_assoc hint _⟩
  obtain ⟨e, he⟩ := exists_neutral hint (sumFirst op)
  rw [partSum, if_pos rfl, sumAt, travel_full he hr, allreduceResult]

end Values

/-! ## 2. Chunks -/

section Chunks

variable {task : PlanTask} {N r : Nat} {lo li : Link}

theorem chunkLen_le (task : PlanTask) (c : Nat) : chunkLen task c ≤ task.chunkSize := by
  simp only [chunkLen, chunkElemCount]
  split <;> omega

/-- Different chunks do not overlap. -/
theorem chunk_apart {c c' : Nat} (h : c ≠ c') (n : Nat) (hn : n ≤ chunkLen task c) :
    Apart (chunkPtr task c) (n * getDataTypeSize task.dtype) (chunkPtr task c')
      (chunkLen task c' * getDataTypeSize task.dtype) := by
  have h1 := Nat.le_trans hn (chunkLen_le task c)
  have h2 := chunkLen_le task c'
  have hmul : ∀ a b len : Nat, a < b → len ≤ task.chunkSize →
      a * task.chunkSize * getDataTypeSize task.dtype + len * getDataTypeSize task.dtype ≤
        b * task.chunkSize * getDataTypeSize task.dtype := by
    intro a b len hab hlen
    rw [← Nat.add_mul]
    apply Nat.mul_le_mul_right
    calc a * task.chunkSize + len ≤ a * task.chunkSize + task.chunkSize := by omega
      _ = (a + 1) * task.chunkSize := (Nat.succ_mul ..).symm
      _ ≤ b * task.chunkSize := Nat.mul_le_mul_right _ hab
  rcases Nat.lt_or_gt_of_ne h with hlt | hgt
  · have := hmul c c' n hlt h1
    right; left
    simp only [chunkPtr, user]
    omega
  · have := hmul c' c _ hgt h2
    right; right
    simp only [chunkPtr, user]
    omega

/-- A chunk past the last unit is empty. -/
theorem chunkLen_past (hN : task.worldSize = N) (hpos : 0 < task.chunkSize * N) {c : Nat}
    (h : allreduceUnits task ≤ c / N) : chunkLen task c = 0 := by
  have hNpos : 0 < N := Nat.pos_of_mul_pos_left hpos
  have e : task.worldSize.toNat = N := by rw [hN]; rfl
  unfold allreduceUnits at h
  rw [e] at h
  dsimp only at h
  rw [if_neg (by omega)] at h
  have hcover : task.elemCount ≤ task.chunkSize * N * (c / N) := by
    have h1 := Nat.lt_succ_of_le h
    rw [Nat.succ_eq_add_one, Nat.div_lt_iff_lt_mul hpos, Nat.succ_mul] at h1
    rw [Nat.mul_comm]
    omega
  have hle : task.elemCount ≤ c * task.chunkSize := by
    calc task.elemCount ≤ task.chunkSize * N * (c / N) := hcover
      _ = c / N * N * task.chunkSize := by ring
      _ ≤ c * task.chunkSize := Nat.mul_le_mul_right _ (Nat.div_mul_le_self ..)
  simp only [chunkLen, chunkElemCount, Int.toNat_natCast]
  rw [if_pos hle]

/-- Every element lies in one chunk. -/
theorem elem_chunk (hchunk : 1 ≤ task.chunkSize) {i : Nat} (hi : i < task.elemCount) :
    i % task.chunkSize < chunkLen task (i / task.chunkSize) := by
  have hm := Nat.mod_lt i (show 0 < task.chunkSize by omega)
  have hd := Nat.div_add_mod' i task.chunkSize
  simp only [chunkLen, chunkElemCount, Int.toNat_natCast]
  rw [if_neg (by omega)]
  omega

theorem roundChunk_div (W : OnRing task N r lo li) {t k : Nat} (K : Nat) :
    roundChunk N r K t k / N = halfStep K t / (N - 1) := by
  have hN := W.two_le
  have hb : halfBase N r K t < N := by
    unfold halfBase
    split
    · exact W.lt
    · exact Nat.mod_lt _ (by omega)
  rw [roundChunk, Nat.mul_comm, Nat.mul_add_div (by omega), Nat.div_eq_of_lt (back_lt hb),
    Nat.add_zero]

theorem halfBase_lt (W : OnRing task N r lo li) (K t : Nat) : halfBase N r K t < N := by
  have hN := W.two_le
  unfold halfBase
  split
  · exact W.lt
  · exact Nat.mod_lt _ (by omega)

/-- The distance of a round's chunk from the base. -/
theorem roundChunk_dist (W : OnRing task N r lo li) {t k : Nat} (K : Nat) (hk : k < N) :
    back N (halfBase N r K t) (roundChunk N r K t k % N) = k := by
  have hb := halfBase_lt W K t
  rw [roundChunk, Nat.mul_comm, Nat.mul_add_mod, Nat.mod_eq_of_lt (back_lt hb), back_back hb hk]

/-- A chunk is determined by its unit and its distance. -/
theorem chunk_eq (W : OnRing task N r lo li) {b c c' : Nat} (hb : b < N) (h1 : c / N = c' / N)
    (h2 : back N b (c % N) = back N b (c' % N)) : c = c' := by
  have hN := W.two_le
  have h3 := back_injective hb (Nat.mod_lt c (by omega)) (Nat.mod_lt c' (by omega)) h2
  rw [← Nat.div_add_mod c N, ← Nat.div_add_mod c' N, h1, h3]

/-- Distances of a unit and the unit itself are read off from their place in the half. -/
theorem place_unique (D u u' k k' : Nat) (hk : 1 ≤ k) (hkD : k ≤ D) (hk' : 1 ≤ k') (hkD' : k' ≤ D)
    (h : u * D + k = u' * D + k') : u = u' ∧ k = k' := by
  have hu : u = u' := by
    rcases Nat.lt_trichotomy u u' with hlt | he | hgt
    · have := Nat.mul_le_mul_right D (show u + 1 ≤ u' by omega)
      rw [Nat.succ_mul] at this
      omega
    · exact he
    · have := Nat.mul_le_mul_right D (show u' + 1 ≤ u by omega)
      rw [Nat.succ_mul] at this
      omega
  subst hu
  exact ⟨rfl, by omega⟩

end Chunks

/-! ## 3. What is sent, received and held -/

section Claims

variable {dt : DataType} (task : PlanTask) (N r : Nat) (X : Nat → Nat → Elem dt)

/-- The elements sent in round `t`. -/
def sentElem (t i : Nat) : Elem dt :=
  if t < totalOps task then sumAt task.reduceOp N X (halfStep (totalOps task) t % (N - 1)) r i
  else allreduceResult task.reduceOp N X i

/-- The elements received in round `t`. -/
def recvElem (t i : Nat) : Elem dt :=
  if t < totalOps task then
    sumAt task.reduceOp N X (halfStep (totalOps task) t % (N - 1)) (back N r 1) i
  else allreduceResult task.reduceOp N X i

def sentByte (t j : Nat) : UInt8 :=
  elemByte dt
    (fun i => sentElem task N r X t (sendChunkAt N r (totalOps task) t * task.chunkSize + i)) j

def recvByte (t j : Nat) : UInt8 :=
  elemByte dt
    (fun i => recvElem task N r X t (recvChunkAt N r (totalOps task) t * task.chunkSize + i)) j

/-- The bytes of the two streams of rank `r`. -/
def allreduceOk : Side → Nat → UInt8 → Prop
  | .out => streamOk (allreduceRounds task N r).sendLen (2 * totalOps task) (sentByte task N r X)
  | .inn => streamOk (allreduceRounds task N r).recvLen (2 * totalOps task) (recvByte task N r X)

/-- A chunk of the receive buffer after `t` rounds of the first half. -/
def chunkSum (t c i : Nat) : Elem dt :=
  if 1 ≤ back N r (c % N) ∧ c / N * (N - 1) + back N r (c % N) ≤ t then
    partSum task.reduceOp N X (back N r (c % N)) r i
  else X r i

/-- The chunks that hold the result after `t` rounds of the second half. -/
def arrived (t c : Nat) : Prop :=
  back N ((r + 1) % N) (c % N) = 0 ∨
    c / N * (N - 1) + back N ((r + 1) % N) (c % N) ≤ t

/-- The bytes in the first half: partial sums in the chunks, the incoming chunk in `temp_buffer`. -/
structure FirstHalf (t rp : Nat) (m : Loc → UInt8) : Prop where
  chunks : ∀ c, Holds m dt (chunkPtr task c) (chunkLen task c)
    fun i => chunkSum task N r X t c (c * task.chunkSize + i)
  incoming : ∀ j < rp, m ((temp 0).shift j) = recvByte task N r X t j

/-- The bytes in the second half: the result in the chunks that have arrived. -/
structure SecondHalf (t rp : Nat) (m : Loc → UInt8) : Prop where
  chunks : ∀ c, arrived N r (t - totalOps task) c → Holds m dt (chunkPtr task c) (chunkLen task c)
    fun i => allreduceResult task.reduceOp N X (c * task.chunkSize + i)
  incoming : ∀ j < rp, m ((chunkPtr task (recvChunkAt N r (totalOps task) t)).shift j) =
    recvByte task N r X t j

/-- **The bytes in round `t`** after `rp` received ones. -/
def AllreduceBytes (t rp : Nat) (m : Loc → UInt8) : Prop :=
  if t < totalOps task then FirstHalf task N r X t rp m else SecondHalf task N r X t rp m

end Claims

/-! ## 4. The values of a round's chunks -/

section Rounds

variable {dt : DataType} {task : PlanTask} {N r : Nat} {lo li : Link} {X : Nat → Nat → Elem dt}
  {t : Nat}

theorem halfStep_first {K t : Nat} (ht : t < K) : halfStep K t = t := if_pos ht

theorem halfStep_second {K t : Nat} (ht : K ≤ t) : halfStep K t = t - K := if_neg (by omega)

theorem chunkSum_sent (W : OnRing task N r lo li) (ht : t < totalOps task) (i : Nat) :
    chunkSum task N r X t (sendChunkAt N r (totalOps task) t) i =
      sumAt task.reduceOp N X (t % (N - 1)) r i := by
  have hk := halfStep_mod_lt W t
  have hplace := Nat.div_add_mod' t (N - 1)
  have hdist := roundChunk_dist W (t := t) (totalOps task) (show t % (N - 1) < N by omega)
  have hunit := roundChunk_div W (t := t) (k := t % (N - 1)) (totalOps task)
  rw [halfStep_first ht] at hunit
  rw [halfBase, if_pos ht] at hdist
  rw [chunkSum, sendChunkAt, halfStep_first ht, hdist, hunit, hplace]
  by_cases hz : 1 ≤ t % (N - 1)
  · rw [if_pos ⟨hz, Nat.le_refl _⟩, partSum, if_neg (by omega)]
  · rw [if_neg (fun h => hz h.1), show t % (N - 1) = 0 by omega]
    rfl

/-- Before its round a chunk holds the rank's own input. -/
theorem chunkSum_before (W : OnRing task N r lo li) (ht : t < totalOps task) (i : Nat) :
    chunkSum task N r X t (recvChunkAt N r (totalOps task) t) i = X r i := by
  have hk := halfStep_mod_lt W t
  have hplace := Nat.div_add_mod' t (N - 1)
  have hdist := roundChunk_dist W (t := t) (totalOps task) hk
  have hunit := roundChunk_div W (t := t) (k := t % (N - 1) + 1) (totalOps task)
  rw [halfStep_first ht] at hunit
  rw [halfBase, if_pos ht] at hdist
  rw [chunkSum, recvChunkAt, halfStep_first ht, hdist, hunit, if_neg]
  rintro ⟨-, h⟩
  omega

/-- After its round it holds one more input. -/
theorem chunkSum_after (W : OnRing task N r lo li) (ht : t < totalOps task) (i : Nat) :
    chunkSum task N r X (t + 1) (recvChunkAt N r (totalOps task) t) i =
      partSum task.reduceOp N X (t % (N - 1) + 1) r i := by
  have hk := halfStep_mod_lt W t
  have hplace := Nat.div_add_mod' t (N - 1)
  have hdist := roundChunk_dist W (t := t) (totalOps task) hk
  have hunit := roundChunk_div W (t := t) (k := t % (N - 1) + 1) (totalOps task)
  rw [halfStep_first ht] at hunit
  rw [halfBase, if_pos ht] at hdist
  rw [chunkSum, recvChunkAt, halfStep_first ht, hdist, hunit, if_pos ⟨by omega, by omega⟩]

/-- The other chunks keep theirs. -/
theorem chunkSum_other (W : OnRing task N r lo li) (ht : t < totalOps task) {c : Nat}
    (hc : c ≠ recvChunkAt N r (totalOps task) t) (i : Nat) :
    chunkSum task N r X (t + 1) c i = chunkSum task N r X t c i := by
  have hN := W.two_le
  have hk := halfStep_mod_lt W t
  have hplace := Nat.div_add_mod' t (N - 1)
  have hdist := roundChunk_dist W (t := t) (totalOps task) hk
  have hunit := roundChunk_div W (t := t) (k := t % (N - 1) + 1) (totalOps task)
  rw [halfStep_first ht] at hunit
  rw [halfBase, if_pos ht] at hdist
  unfold chunkSum
  by_cases h : 1 ≤ back N r (c % N) ∧ c / N * (N - 1) + back N r (c % N) ≤ t
  · rw [if_pos h, if_pos ⟨h.1, by omega⟩]
  · rw [if_neg h, if_neg]
    rintro ⟨h1, h2⟩
    have hlt : back N r (c % N) < N := back_lt W.lt
    obtain ⟨hu, hd⟩ := place_unique (N - 1) (c / N) (t / (N - 1)) (back N r (c % N))
      (t % (N - 1) + 1) h1 (by omega) (by omega) (by omega) (by omega)
    refine hc (chunk_eq W W.lt ?_ ?_)
    · rw [recvChunkAt, halfStep_first ht, hunit, hu]
    · rw [recvChunkAt, halfStep_first ht, hdist, hd]

theorem arrived_sent (W : OnRing task N r lo li) (ht : totalOps task ≤ t) :
    arrived N r (t - totalOps task) (sendChunkAt N r (totalOps task) t) := by
  have hk := halfStep_mod_lt W (t - totalOps task)
  have hplace := Nat.div_add_mod' (t - totalOps task) (N - 1)
  have hdist := roundChunk_dist W (t := t) (totalOps task)
    (show (t - totalOps task) % (N - 1) < N by omega)
  have hunit := roundChunk_div W (t := t) (k := (t - totalOps task) % (N - 1)) (totalOps task)
  rw [halfStep_second ht] at hunit
  rw [halfBase, if_neg (by omega)] at hdist
  rw [arrived, sendChunkAt, halfStep_second ht, hdist, hunit]
  omega

theorem not_arrived_received (W : OnRing task N r lo li) (ht : totalOps task ≤ t) :
    ¬ arrived N r (t - totalOps task) (recvChunkAt N r (totalOps task) t) := by
  have hk := halfStep_mod_lt W (t - totalOps task)
  have hplace := Nat.div_add_mod' (t - totalOps task) (N - 1)
  have hdist := roundChunk_dist W (t := t) (totalOps task) hk
  have hunit := roundChunk_div W (t := t) (k := (t - totalOps task) % (N - 1) + 1) (totalOps task)
  rw [halfStep_second ht] at hunit
  rw [halfBase, if_neg (by omega)] at hdist
  rw [arrived, recvChunkAt, halfStep_second ht, hdist, hunit]
  omega

/-- In a round of the second half one chunk arrives. -/
theorem arrived_other (W : OnRing task N r lo li) (ht : totalOps task ≤ t) {c : Nat}
    (hc : c ≠ recvChunkAt N r (totalOps task) t) (h : arrived N r (t + 1 - totalOps task) c) :
    arrived N r (t - totalOps task) c := by
  have hN := W.two_le
  have hb : (r + 1) % N < N := Nat.mod_lt _ (by omega)
  have hk := halfStep_mod_lt W (t - totalOps task)
  have hplace := Nat.div_add_mod' (t - totalOps task) (N - 1)
  have hdist := roundChunk_dist W (t := t) (totalOps task) hk
  have hunit := roundChunk_div W (t := t) (k := (t - totalOps task) % (N - 1) + 1) (totalOps task)
  rw [halfStep_second ht] at hunit
  rw [halfBase, if_neg (by omega)] at hdist
  have hlt : back N ((r + 1) % N) (c % N) < N := back_lt hb
  rcases h with h | h
  · exact Or.inl h
  · by_contra hna
    have h0 : back N ((r + 1) % N) (c % N) ≠ 0 := fun h0 => hna (Or.inl h0)
    have h1 : ¬ c / N * (N - 1) + back N ((r + 1) % N) (c % N) ≤ t - totalOps task :=
      fun h1 => hna (Or.inr h1)
    obtain ⟨hu, hd⟩ := place_unique (N - 1) (c / N) ((t - totalOps task) / (N - 1))
      (back N ((r + 1) % N) (c % N)) ((t - totalOps task) % (N - 1) + 1)
      (by omega) (by omega) (by omega) (by omega) (by omega)
    refine hc (chunk_eq W hb ?_ ?_)
    · rw [recvChunkAt, halfStep_second ht, hunit, hu]
    · rw [recvChunkAt, halfStep_second ht, hdist, hd]

/-- After the first half the chunk the rank has completed holds the result. -/
theorem chunkSum_complete (W : OnRing task N r lo li) (hint : dt.isInt) {c : Nat}
    (hc : c / N < allreduceUnits task) (h : back N ((r + 1) % N) (c % N) = 0) (i : Nat) :
    chunkSum task N r X (totalOps task) c i = allreduceResult task.reduceOp N X i := by
  have hN := W.two_le
  have hmod : c % N < N := Nat.mod_lt _ (by omega)
  have hb : (r + 1) % N < N := Nat.mod_lt _ (by omega)
  have hc' : c % N = (r + 1) % N := by
    rw [← back_back hb hmod, h, back_zero hb]
  -- the chunk is the furthest one
  have hdist : back N r (c % N) = N - 1 := by
    have hr := W.lt
    rw [hc', back_eq hr (by omega)]
    by_cases hlast : r + 1 = N
    · rw [hlast, Nat.mod_self, if_pos (Nat.zero_le r)]
      omega
    · rw [Nat.mod_eq_of_lt (show r + 1 < N by omega), if_neg (by omega)]
      omega
  have e : (task.worldSize - 1).toNat = N - 1 := by rw [W.worldSize]; omega
  have hle : c / N * (N - 1) + (N - 1) ≤ totalOps task := by
    rw [totalOps, e, ← Nat.succ_mul]
    exact Nat.mul_le_mul_right _ hc
  rw [chunkSum, hdist, if_pos ⟨by omega, hle⟩, partSum_full hint W.lt]

end Rounds

/-! ## 5. Every round keeps the claim -/

section Bytes

variable {dt : DataType} {task : PlanTask} {N r : Nat} {lo li : Link} {X : Nat → Nat → Elem dt}
  {t rp rp' : Nat} {m m' : Loc → UInt8} {s : RankState}

theorem temp_apart_chunk (task : PlanTask) (c n k : Nat) : Apart (temp 0) n (chunkPtr task c) k :=
  Or.inl (by simp [temp, chunkPtr, user])

/-- **The reduction of a round** adds the incoming elements to the received chunk, divides in the
    last step of a unit, and changes nothing else. -/
theorem allreduceReduce_bytes (W : OnRing task N r lo li) (hdt : task.dtype = dt)
    (h : AtStep task s t) (ht : t < totalOps task) {f g : Nat → Elem dt}
    (hf : Holds s.byteAt dt (chunkPtr task (recvChunkAt N r (totalOps task) t))
      (chunkLen task (recvChunkAt N r (totalOps task) t)) f)
    (hg : Holds s.byteAt dt (temp 0) (chunkLen task (recvChunkAt N r (totalOps task) t)) g) :
    Holds (allreduceReduce task s).byteAt dt (chunkPtr task (recvChunkAt N r (totalOps task) t))
        (chunkLen task (recvChunkAt N r (totalOps task) t))
        (fun i =>
          let x := reduceElem dt (sumFirst task.reduceOp) (f i) (g i)
          if t % (N - 1) + 1 = N - 1 then averaged task.reduceOp N x else x) ∧
      ∀ q : Loc, ¬ q.inside (chunkPtr task (recvChunkAt N r (totalOps task) t))
          (chunkLen task (recvChunkAt N r (totalOps task) t) * getDataTypeSize dt) →
        (allreduceReduce task s).byteAt q = s.byteAt q := by
  subst hdt
  have hN := W.two_le
  have hapart := temp_apart_chunk task (recvChunkAt N r (totalOps task) t)
    (chunkLen task (recvChunkAt N r (totalOps task) t) * getDataTypeSize task.dtype)
    (chunkLen task (recvChunkAt N r (totalOps task) t) * getDataTypeSize task.dtype)
  have hred := RankState.performReduce_holds (sumFirst task.reduceOp) hapart hf hg
  have hframe := fun q => RankState.performReduce_frame (s := s) (q := q)
    (sumFirst task.reduceOp) hapart
  have hstep : s.step = (t : Nat) := by rw [h.step, halfStep_first ht]
  have hcond : (task.reduceOp = .avg ∧ allreduceStepInUnit task s = task.worldSize - 2) ↔
      (task.reduceOp = .avg ∧ t % (N - 1) + 1 = N - 1) := by
    rw [allreduceStepInUnit_eq W hstep, W.worldSize]
    refine and_congr_right fun _ => ?_
    omega
  have hpos : 0 < task.worldSize := by rw [W.worldSize]; omega
  unfold allreduceReduce
  simp only [hcond, allreduceRecvChunk_eq W h]
  by_cases havg : task.reduceOp = .avg ∧ t % (N - 1) + 1 = N - 1
  · rw [if_pos havg]
    constructor
    · simp only [if_pos havg.2, averaged, if_pos havg.1, ← W.worldSize]
      exact RankState.applyAverage_holds hpos hred
    · intro q hq
      exact (RankState.applyAverage_frame hpos hq).trans (hframe q hq)
  · rw [if_neg havg]
    refine ⟨?_, hframe⟩
    have e : (fun i => if t % (N - 1) + 1 = N - 1 then
        averaged task.reduceOp N (reduceElem task.dtype (sumFirst task.reduceOp) (f i) (g i))
        else reduceElem task.dtype (sumFirst task.reduceOp) (f i) (g i)) =
        fun i => reduceElem task.dtype (sumFirst task.reduceOp) (f i) (g i) := by
      funext i
      split
      · rename_i hlast
        rw [averaged, if_neg fun h => havg ⟨h, hlast⟩]
      · rfl
    rw [e]
    exact hred

/-- Writing at one chunk leaves the other chunks alone. -/
theorem chunk_unchanged (hdt : task.dtype = dt) {c c' n k : Nat} (hc : c ≠ c')
    (hm : ∀ q : Loc, ¬ q.inside ((chunkPtr task c').shift n) k → m' q = m q)
    (hk : n + k ≤ chunkLen task c' * getDataTypeSize dt) {f : Nat → Elem dt}
    (h : Holds m dt (chunkPtr task c) (chunkLen task c) f) :
    Holds m' dt (chunkPtr task c) (chunkLen task c) f := by
  subst hdt
  refine h.congr (fun j hj => hm _ ?_) fun _ _ => rfl
  rintro ⟨h1, h2, h3⟩
  simp only [Loc.shift_addr] at h2 h3
  refine (chunk_apart hc (chunkLen task c) (Nat.le_refl _)).not_inside hj ⟨h1, ?_, ?_⟩
  · rw [Loc.shift_addr]
    omega
  · rw [Loc.shift_addr]
    omega

theorem firstHalf_sends (W : OnRing task N r lo li) (hdt : task.dtype = dt)
    (ht : t < totalOps task) (h : FirstHalf task N r X t rp m) {j : Nat}
    (hj : j < (allreduceRounds task N r).sendLen t) :
    m (((allreduceRounds task N r).sendLoc t).shift j) = sentByte task N r X t j := by
  subst hdt
  refine (h.chunks _ j hj).trans (elemByte_congr (fun i _ => ?_) hj)
  rw [chunkSum_sent W ht, sentElem, if_pos ht, halfStep_first ht]

theorem secondHalf_sends (W : OnRing task N r lo li) (hdt : task.dtype = dt)
    (ht : totalOps task ≤ t) (h : SecondHalf task N r X t rp m) {j : Nat}
    (hj : j < (allreduceRounds task N r).sendLen t) :
    m (((allreduceRounds task N r).sendLoc t).shift j) = sentByte task N r X t j := by
  subst hdt
  refine (h.chunks _ (arrived_sent W ht) j hj).trans (elemByte_congr (fun i _ => ?_) hj)
  rw [sentElem, if_neg (by omega)]

/-- More bytes of a round have been received. -/
theorem incoming_more {p : Loc} {b : Nat → UInt8}
    (hm : ∀ q : Loc, ¬ q.inside (p.shift rp) (rp' - rp) → m' q = m q)
    (hnew : ∀ j, rp ≤ j → j < rp' → m' (p.shift j) = b j) (h : ∀ j < rp, m (p.shift j) = b j) :
    ∀ j < rp', m' (p.shift j) = b j := by
  intro j hj
  by_cases hlt : j < rp
  · rw [← h j hlt]
    apply hm
    rintro ⟨-, h2, -⟩
    rw [Loc.shift_addr, Loc.shift_addr] at h2
    omega
  · exact hnew j (by omega) hj

theorem firstHalf_receives
    (hm : ∀ q : Loc, ¬ q.inside ((temp 0).shift rp) (rp' - rp) → m' q = m q)
    (hnew : ∀ j, rp ≤ j → j < rp' → m' ((temp 0).shift j) = recvByte task N r X t j)
    (h : FirstHalf task N r X t rp m) : FirstHalf task N r X t rp' m' := by
  refine ⟨fun c => (h.chunks c).congr (fun j _ => hm _ ?_) fun _ _ => rfl,
    incoming_more hm hnew h.incoming⟩
  rintro ⟨h1, -⟩
  simp [chunkPtr, user, temp] at h1

theorem secondHalf_receives (W : OnRing task N r lo li) (hdt : task.dtype = dt)
    (ht : totalOps task ≤ t) (hle : rp ≤ rp')
    (hrp : rp' ≤ (allreduceRounds task N r).recvLen t)
    (hm : ∀ q : Loc, ¬ q.inside ((chunkPtr task (recvChunkAt N r (totalOps task) t)).shift rp)
      (rp' - rp) → m' q = m q)
    (hnew : ∀ j, rp ≤ j → j < rp' →
      m' ((chunkPtr task (recvChunkAt N r (totalOps task) t)).shift j) = recvByte task N r X t j)
    (h : SecondHalf task N r X t rp m) : SecondHalf task N r X t rp' m' := by
  refine ⟨fun c hc => ?_, incoming_more hm hnew h.incoming⟩
  have hne : c ≠ recvChunkAt N r (totalOps task) t := fun e =>
    not_arrived_received W ht (e ▸ hc)
  have hlen : rp + (rp' - rp) ≤
      chunkLen task (recvChunkAt N r (totalOps task) t) * getDataTypeSize dt := by
    subst hdt
    have e : (allreduceRounds task N r).recvLen t =
      chunkLen task (recvChunkAt N r (totalOps task) t) * getDataTypeSize task.dtype := rfl
    omega
  exact chunk_unchanged hdt hne hm hlen (h.chunks c hc)

/-- **A round of the first half** leaves the partial sums of the next. -/
theorem firstHalf_reduces (W : OnRing task N r lo li) (hdt : task.dtype = dt)
    (hat : AtStep task s t) (ht : t < totalOps task)
    (h : FirstHalf task N r X t ((allreduceRounds task N r).recvLen t) s.byteAt) (c : Nat) :
    Holds (allreduceReduce task s).byteAt dt (chunkPtr task c) (chunkLen task c)
      fun i => chunkSum task N r X (t + 1) c (c * task.chunkSize + i) := by
  have hf := h.chunks (recvChunkAt N r (totalOps task) t)
  have hg : Holds s.byteAt dt (temp 0) (chunkLen task (recvChunkAt N r (totalOps task) t))
      fun i => recvElem task N r X t
        (recvChunkAt N r (totalOps task) t * task.chunkSize + i) := by
    intro j hj
    subst hdt
    exact h.incoming j hj
  obtain ⟨hnew, hframe⟩ := allreduceReduce_bytes W hdt hat ht hf hg
  by_cases hc : c = recvChunkAt N r (totalOps task) t
  · subst hc
    refine hnew.congr (fun _ _ => rfl) fun i _ => ?_
    rw [chunkSum_before W ht, chunkSum_after W ht, recvElem, if_pos ht, halfStep_first ht, partSum]
    rfl
  · refine (chunk_unchanged hdt hc (n := 0) (fun q hq => hframe q hq) (by omega)
      (h.chunks c)).congr (fun _ _ => rfl) fun i _ => ?_
    rw [chunkSum_other W ht hc]

/-- **The last round of the first half** leaves the result in the rank's own chunks. -/
theorem firstHalf_complete (W : OnRing task N r lo li) (hint : dt.isInt)
    (hchunk : 1 ≤ task.chunkSize)
    (h : ∀ c, Holds m dt (chunkPtr task c) (chunkLen task c)
      fun i => chunkSum task N r X (totalOps task) c (c * task.chunkSize + i)) :
    SecondHalf task N r X (totalOps task) 0 m := by
  have hN := W.two_le
  refine ⟨fun c hc => ?_, fun j hj => absurd hj (Nat.not_lt_zero j)⟩
  by_cases hu : c / N < allreduceUnits task
  · refine (h c).congr (fun _ _ => rfl) fun i _ => ?_
    refine chunkSum_complete W hint hu ?_ _
    rw [Nat.sub_self, arrived] at hc
    have := Nat.zero_le (c / N * (N - 1))
    omega
  · rw [chunkLen_past W.worldSize (Nat.mul_pos hchunk (by omega)) (by omega)]
    intro j hj
    rw [Nat.zero_mul] at hj
    exact absurd hj (Nat.not_lt_zero j)

/-- **A round of the second half** leaves one more chunk with the result. -/
theorem secondHalf_arrives (W : OnRing task N r lo li) (hdt : task.dtype = dt)
    (ht : totalOps task ≤ t)
    (h : SecondHalf task N r X t ((allreduceRounds task N r).recvLen t) m) {c : Nat}
    (hc : arrived N r (t + 1 - totalOps task) c) :
    Holds m dt (chunkPtr task c) (chunkLen task c)
      fun i => allreduceResult task.reduceOp N X (c * task.chunkSize + i) := by
  by_cases he : c = recvChunkAt N r (totalOps task) t
  · subst he hdt
    intro j hj
    rw [h.incoming j hj]
    refine elemByte_congr (fun i _ => ?_) hj
    rw [recvElem, if_neg (by omega)]
  · exact h.chunks c (arrived_other W ht he hc)

/-- What an AllReduce leaves in the receive buffer. -/
def AllreduceDone (task : PlanTask) (dt : DataType) (N : Nat) (X : Nat → Nat → Elem dt) (m : Mem) :
    Prop :=
  ∀ i < task.elemCount, (freshState m).load dt (user task.recvBuf) i =
    allreduceResult task.reduceOp N X i

/-- An element of the receive buffer is an element of its chunk. -/
theorem load_chunk (s : RankState) (task : PlanTask) (i : Nat) :
    s.load task.dtype (user task.recvBuf) i =
      s.load task.dtype (chunkPtr task (i / task.chunkSize)) (i % task.chunkSize) := by
  unfold RankState.load
  refine congrArg _ (leNat_congr fun j _ => congrArg s.byteAt ?_)
  have e : i * getDataTypeSize task.dtype =
      i / task.chunkSize * task.chunkSize * getDataTypeSize task.dtype +
        i % task.chunkSize * getDataTypeSize task.dtype := by
    rw [← Nat.add_mul, Nat.div_add_mod']
  simp only [chunkPtr, user, Loc.shift, Loc.mk.injEq, true_and]
  omega

/-- **After the last round** every chunk holds the result. -/
theorem secondHalf_complete (W : OnRing task N r lo li) (hdt : task.dtype = dt)
    (hchunk : 1 ≤ task.chunkSize) (ht : totalOps task ≤ t) (hlast : t + 1 = 2 * totalOps task)
    (h : SecondHalf task N r X t ((allreduceRounds task N r).recvLen t) s.byteAt) :
    AllreduceDone task dt N X s.mem := by
  subst hdt
  have hN := W.two_le
  intro i hi
  have hlen := elem_chunk hchunk hi
  have hu : i / task.chunkSize / N < allreduceUnits task := by
    by_contra hu
    rw [chunkLen_past W.worldSize (Nat.mul_pos hchunk (by omega)) (by omega)] at hlen
    exact absurd hlen (Nat.not_lt_zero _)
  have e : (task.worldSize - 1).toNat = N - 1 := by rw [W.worldSize]; omega
  have hle : i / task.chunkSize / N * (N - 1) + (N - 1) ≤ totalOps task := by
    rw [totalOps, e, ← Nat.succ_mul]
    exact Nat.mul_le_mul_right _ hu
  have harr : arrived N r (t + 1 - totalOps task) (i / task.chunkSize) := by
    have hlt : back N ((r + 1) % N) (i / task.chunkSize % N) < N :=
      back_lt (Nat.mod_lt _ (by omega))
    right
    omega
  have hload := (secondHalf_arrives W rfl ht h harr).load hlen
  rw [Nat.div_add_mod'] at hload
  exact (load_chunk s task i).trans hload

theorem allreduceOk_out (hj : t < 2 * totalOps task) {j : Nat} {b : UInt8}
    (h : j < (allreduceRounds task N r).sendLen t) :
    allreduceOk task N r X .out (off (allreduceRounds task N r).sendLen t + j) b ↔
      b = sentByte task N r X t j :=
  streamOk_iff hj h

theorem allreduceOk_inn (hj : t < 2 * totalOps task) {j : Nat} {b : UInt8}
    (h : j < (allreduceRounds task N r).recvLen t) :
    allreduceOk task N r X .inn (off (allreduceRounds task N r).recvLen t + j) b ↔
      b = recvByte task N r X t j :=
  streamOk_iff hj h

/-- **AllReduce keeps the claim about its bytes**, and ends with the result. -/
theorem allreduce_values (W : OnRing task N r lo li) (hdt : task.dtype = dt) (hint : dt.isInt)
    (hchunk : 1 ≤ task.chunkSize) :
    Claimed allreduce task (allreduceRounds task N r) (allreduceOk task N r X)
      (AllreduceBytes task N r X) (AllreduceDone task dt N X) where
  sends t ht rp hrp m hdata j hj := by
    rw [allreduceOk_out ht hj]
    by_cases hK : t < totalOps task
    · rw [AllreduceBytes, if_pos hK] at hdata
      exact firstHalf_sends W hdt hK hdata hj
    · rw [AllreduceBytes, if_neg hK] at hdata
      exact secondHalf_sends W hdt (by omega) hdata hj
  receives t ht rp rp' hle hrp m m' hdata hnew hm := by
    have hnew' : ∀ j, rp ≤ j → j < rp' →
        m' (((allreduceRounds task N r).recvLoc t).shift j) = recvByte task N r X t j :=
      fun j h1 h2 => (allreduceOk_inn ht (by omega)).mp (hnew j h1 h2)
    by_cases hK : t < totalOps task
    · have e : (allreduceRounds task N r).recvLoc t = temp 0 := if_pos hK
      rw [e] at hm hnew'
      rw [AllreduceBytes, if_pos hK] at hdata ⊢
      exact firstHalf_receives hm hnew' hdata
    · have e : (allreduceRounds task N r).recvLoc t =
        chunkPtr task (recvChunkAt N r (totalOps task) t) := if_neg hK
      rw [e] at hm hnew'
      rw [AllreduceBytes, if_neg hK] at hdata ⊢
      exact secondHalf_receives W hdt (by omega) hle hrp hm hnew' hdata
  next t ht s hphase hstep hdata := by
    have ht : t + 1 < 2 * totalOps task := ht
    change AllreduceBytes task N r X (t + 1) 0 (allreduceSettle task s).1.byteAt
    by_cases hK : t < totalOps task
    · obtain ⟨s', hset, -, hbytes⟩ := allreduceSettle_first ⟨hphase, hstep⟩ hK
      rw [AllreduceBytes, if_pos hK] at hdata
      have hred := firstHalf_reduces W hdt ⟨hphase, hstep⟩ hK hdata
      rw [hset, hbytes]
      by_cases hlast : t + 1 < totalOps task
      · rw [AllreduceBytes, if_pos hlast]
        exact ⟨hred, fun j hj => absurd hj (Nat.not_lt_zero j)⟩
      · have e : t + 1 = totalOps task := by omega
        rw [AllreduceBytes, if_neg hlast, e]
        rw [e] at hred
        exact firstHalf_complete W hint hchunk hred
    · obtain ⟨s', hbytes, -, ⟨hlast, -⟩ | ⟨-, hset, -⟩⟩ :=
        allreduceSettle_second ⟨hphase, hstep⟩ (by omega) (by omega)
      · omega
      · rw [hset, hbytes]
        rw [AllreduceBytes, if_neg (by omega)] at hdata ⊢
        exact ⟨fun c hc => secondHalf_arrives W hdt (by omega) hdata hc,
          fun j hj => absurd hj (Nat.not_lt_zero j)⟩
  last t ht s hphase hstep hdata := by
    have ht : t + 1 = 2 * totalOps task := ht
    obtain ⟨s', -, hmem, ⟨-, hset, -⟩ | ⟨hlt, -⟩⟩ :=
      allreduceSettle_second ⟨hphase, hstep⟩ (by omega) (by omega)
    · rw [AllreduceBytes, if_neg (by omega)] at hdata
      change AllreduceDone task dt N X (allreduceSettle task s).1.mem
      rw [hset, hmem]
      exact secondHalf_complete W hdt hchunk (by omega) ht hdata
    · omega

end Bytes

end OriginCCL.TopologyRing
