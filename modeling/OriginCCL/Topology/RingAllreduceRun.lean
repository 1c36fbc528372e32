/-
  File:      OriginCCL/Topology/RingAllreduceRun.lean
  Subject:   A RING ALLREDUCE UNDER EVERY SCHEDULE.

  * `sendChunkAt_next` -- the chunk a rank sends in a round is the one the next rank receives in it.
  * `allreduce_joined` -- so the streams of the ranks agree, byte by byte.
  * `allreduce_correct` -- **whatever the schedule and the split of the bytes**, when the ranks are
    done every receive buffer holds the reduction.
-/
import OriginCCL.Net.Schedule
import OriginCCL.Topology.RingAllreduceValues
import OriginCCL.Topology.Together

namespace OriginCCL.TopologyRing

open Net Base

/-! ## 1. One round on two neighbours -/

section Rounds

variable {H : Type} [DecidableEq H] {w : World H} {id : Nat} {p : Collective} {r : Nat}

theorem sendChunkAt_next {N K t : Nat} (hN : 2 ≤ N) (hr : r < N) :
    sendChunkAt N r K t = recvChunkAt N ((r + 1) % N) K t := by
  have hk := Nat.mod_lt (halfStep K t) (show 0 < N - 1 by omega)
  have hbase : halfBase N ((r + 1) % N) K t = (halfBase N r K t + 1) % N := by
    unfold halfBase
    split <;> rfl
  have hlt : halfBase N r K t < N := by
    unfold halfBase
    split
    · exact hr
    · exact Nat.mod_lt _ (by omega)
  rw [sendChunkAt, recvChunkAt, roundChunk, roundChunk, hbase, back_next hlt (by omega)]

theorem totalOps_task (r q : Nat) : totalOps (p.task w id r) = totalOps (p.task w id q) := by
  simp only [totalOps, allreduceUnits, Collective.task_elemCount, Collective.task_chunkSize,
    Collective.task_worldSize]

theorem chunkLen_task (r c : Nat) :
    chunkLen (p.task w id r) c = chunkElemCount p.elemCount p.chunkSize c := by
  simp only [chunkLen, Collective.task_elemCount, Collective.task_chunkSize]

/-- **The next rank receives what a rank sends**, round by round. -/
theorem allreduce_len_next (hN : 2 ≤ w.size) (hr : r < w.size) (t : Nat) :
    (allreduceRounds (p.task w id r) w.size r).sendLen t =
      (allreduceRounds (p.task w id ((r + 1) % w.size)) w.size ((r + 1) % w.size)).recvLen t := by
  simp only [allreduceRounds, chunkLen_task, Collective.task_dtype]
  rw [sendChunkAt_next hN hr, totalOps_task r ((r + 1) % w.size)]

theorem allreduce_byte_next {dt : DataType} {X : Nat → Nat → Elem dt} (hN : 2 ≤ w.size)
    (hr : r < w.size) (t j : Nat) :
    sentByte (p.task w id r) w.size r X t j =
      recvByte (p.task w id ((r + 1) % w.size)) w.size ((r + 1) % w.size) X t j := by
  simp only [sentByte, recvByte, sentElem, recvElem, Collective.task_chunkSize,
    Collective.task_reduceOp]
  rw [sendChunkAt_next hN hr, totalOps_task r ((r + 1) % w.size), back_of_next hr]

end Rounds

/-! ## 2. The ranks together -/

section Ranks

variable {H : Type} [DecidableEq H] {w : World H} {id : Nat} {p : Collective}

/-- The terms of a rank in an AllReduce with inputs `X`. -/
def allreduceTerms {dt : DataType} (w : World H) (id : Nat) (X : Nat → Nat → Elem dt)
    (p : Collective) (r : Nat) : Terms Link UInt8 :=
  (allreduceRounds (p.task w id r) w.size r).terms (channelLink id r ((r + 1) % w.size))
    (channelLink id (back w.size r 1) r) (allreduceOk (p.task w id r) w.size r X)

theorem allreduce_joined {dt : DataType} (X : Nat → Nat → Elem dt) (hN : 2 ≤ w.size) :
    Joined w.size (allreduceTerms w id X p) := by
  refine ring_joined id
    (fun r sd => off ((allreduceRounds (p.task w id r) w.size r).len sd)
      (2 * totalOps (p.task w id r)))
    (fun r => allreduceOk (p.task w id r) w.size r X) hN (fun r hr => ?_)
    fun r hr j b _ hb => ?_
  · have e : 2 * totalOps (p.task w id r) = 2 * totalOps (p.task w id ((r + 1) % w.size)) := by
      rw [totalOps_task r]
    exact (off_congr fun t _ => allreduce_len_next hN hr t).trans (congrArg _ e)
  · intro t ht i hi he
    have hoff : off (allreduceRounds (p.task w id r) w.size r).sendLen t =
        off (allreduceRounds (p.task w id ((r + 1) % w.size)) w.size ((r + 1) % w.size)).recvLen t :=
      off_congr fun t _ => allreduce_len_next hN hr t
    rw [← allreduce_byte_next hN hr]
    refine hb t ?_ i ?_ ?_
    · rw [totalOps_task r]
      exact ht
    · rw [allreduce_len_next hN hr]
      exact hi
    · rw [hoff]
      exact he

/-- Before the first round every chunk holds the rank's input. -/
theorem firstHalf_start {task : PlanTask} {dt : DataType} (hdt : task.dtype = dt) {N r : Nat}
    {m₀ : Mem} {X : Nat → Nat → Elem dt} (hX : ∀ i, X r i = elemAt m₀ dt task.sendBuf i)
    {s : RankState} (hs : ∀ a, s.byteAt (user a) = copied task m₀ a) :
    FirstHalf task N r X 0 0 s.byteAt := by
  subst hdt
  refine ⟨fun c j hj => ?_, fun j hj => absurd hj (Nat.not_lt_zero j)⟩
  have hval : (fun i => chunkSum task N r X 0 c (c * task.chunkSize + i)) =
      fun i => elemAt m₀ task.dtype task.sendBuf (c * task.chunkSize + i) := by
    funext i
    rw [chunkSum, if_neg (by omega), hX]
  have hin : c * task.chunkSize * getDataTypeSize task.dtype + j <
      task.elemCount * getDataTypeSize task.dtype := by
    have hle : c * task.chunkSize + chunkLen task c ≤ task.elemCount ∨ chunkLen task c = 0 := by
      simp only [chunkLen, chunkElemCount, Int.toNat_natCast]
      split <;> omega
    rcases hle with hle | h0
    · have := Nat.mul_le_mul_right (getDataTypeSize task.dtype) hle
      rw [Nat.add_mul] at this
      omega
    · rw [h0, Nat.zero_mul] at hj
      exact absurd hj (Nat.not_lt_zero j)
  have hsrc := holds_load task.dtype (freshState m₀) (user task.sendBuf) task.elemCount _ hin
  have e : (chunkPtr task c).shift j = user (task.recvBuf +
      (c * task.chunkSize * getDataTypeSize task.dtype + j)) := by
    simp only [chunkPtr, user, Loc.shift, Nat.add_assoc]
  rw [hval, elemByte_shift, e, hs, copied, if_pos ⟨Nat.le_add_right .., by omega⟩,
    Nat.add_sub_cancel_left]
  exact hsrc

/-- What holds of a rank's memory before and after the operation. -/
def allreduceAt (w : World H) (id : Nat) (p : Collective) (m₀ : Nat → Mem) (r : Nat) :
    Nat → Mem → Prop
  | 0, m => m = m₀ r
  | _ + 1, m => AllreduceDone (p.task w id r) p.dtype w.size (p.inputs m₀) m

/-- **The contract of one rank in an AllReduce.** -/
theorem allreduce_contract (hid : id < w.nChannels) (hN : 2 ≤ w.size)
    (hfunc : p.func = .allReduce) (hring : p.onTree = false) (hcount : 0 < p.elemCount)
    (hchunk : 1 ≤ p.chunkSize) (hint : p.dtype.isInt) {r : Nat} (hr : r < w.size)
    (hbuf : p.Buffers r) (m₀ : Nat → Mem) :
    Nonempty (Contract channelSystem (p.task w id r) (allreduceTerms w id (p.inputs m₀) p r)
      (allreduceAt w id p m₀ r 0) (allreduceAt w id p m₀ r 1)) := by
  have W := Collective.ring_onRing (p := p) hid hring hN hr
  have hdt : (p.task w id r).dtype = p.dtype := Collective.task_dtype
  have hcount' : (p.task w id r).elemCount ≠ 0 := by rw [Collective.task_elemCount]; omega
  have hchunk' : 1 ≤ (p.task w id r).chunkSize := by rw [Collective.task_chunkSize]; exact hchunk
  have hbuf' : HasBuffers (p.task w id r) := by
    rw [HasBuffers, Collective.task_sendBuf, Collective.task_recvBuf]
    exact ⟨hbuf.send, hbuf.recv⟩
  have hK := totalOps_pos W hcount' hchunk'
  have htopo : (p.task w id r).topology = some (.ring (w.ring r)) := by
    rw [Collective.task_topology, hring]
    rfl
  have T := allreduce_task W (by rw [Collective.task_func, hfunc]) htopo hcount' hchunk' hbuf'
  refine ⟨T.contract (allreduce_values (X := p.inputs m₀) W hdt hint hchunk') fun m hm => ?_⟩
  obtain rfl : m = m₀ r := hm
  rw [AllreduceBytes, if_pos hK]
  refine firstHalf_start hdt (fun i => ?_) (allreducePrep_bytes _ _)
  rw [Collective.task_sendBuf]
  rfl

/-- **Ring AllReduce is correct for every schedule**: when all ranks are done, every receive buffer
    holds the reduction of all inputs. -/
theorem allreduce_correct (hid : id < w.nChannels) (hN : 2 ≤ w.size) (hfunc : p.func = .allReduce)
    (hring : p.onTree = false) (hcount : 0 < p.elemCount) (hchunk : 1 ≤ p.chunkSize)
    (hint : p.dtype.isInt) (hbuf : ∀ r < w.size, p.Buffers r) {m₀ : Nat → Mem}
    {ls : List (Label Nat Link UInt8 CollEvent)} {c : Config Nat Link UInt8 RankState Mem}
    (hrun : Run channelSystem (Flow.any Link) (w.tasks id [p]) (.start m₀) ls c)
    (hdone : ∀ r < w.size, (c.node r).finished = 1) :
    ∀ r < w.size, ∃ m, (c.node r).mode = .fresh m ∧ ∀ i < p.elemCount,
      elemAt m p.dtype (p.recvBuf r) i = allreduceResult p.reduceOp w.size (p.inputs m₀) i := by
  intro r hr
  obtain ⟨m, hm, hpost⟩ := single_post (allreduceTerms w id (p.inputs m₀))
    (allreduceAt w id p m₀) (allreduce_joined _ hN)
    (fun q hq => allreduce_contract hid hN hfunc hring hcount hchunk hint hq (hbuf q hq) m₀)
    (fun _ => rfl) hrun hr (hdone r hr)
  refine ⟨m, hm, fun i hi => ?_⟩
  have hres := hpost i (by rw [Collective.task_elemCount]; exact hi)
  rw [Collective.task_recvBuf, Collective.task_reduceOp] at hres
  exact hres

end Ranks

/-! ## 3. Two ranks -/

/-- Two ranks on one machine, one channel. -/
def pairWorld : World Unit := ⟨2, fun _ => (), 1⟩

/-- The average of one element, in place. -/
def pairAverage : Collective where
  func := .allReduce
  elemCount := 1
  chunkSize := 1
  dtype := .int32
  reduceOp := .avg
  sendBuf _ := 8
  recvBuf _ := 8

/-- Rank 0 holds 250, rank 1 holds 9. -/
def pairMem (r a : Nat) : UInt8 := if a = 8 then (if r = 0 then 250 else 9) else 0

/-- A schedule in which the ranks take turns. -/
def pairSchedule : List (Nat × CollEvent) :=
  (List.replicate 6 [(0, .writable), (1, .readable), (0, .readable), (1, .writable), (0, .readable),
    (1, .readable)]).flatten

def pairEnd : Config Nat Link UInt8 RankState Mem :=
  (Config.start pairMem).follow channelSystem (fun _ => 2) (pairWorld.tasks 0 [pairAverage])
    pairSchedule

theorem pairRun : ∃ ls, Run channelSystem (Flow.any Link) (pairWorld.tasks 0 [pairAverage])
    (.start pairMem) ls pairEnd := by
  obtain ⟨ls, h⟩ := Config.follow_run channelSystem (fun _ => 2)
    (pairWorld.tasks 0 [pairAverage]) (.start pairMem) pairSchedule
  exact ⟨ls, h.any⟩

theorem allreduce_correct_pair : ∃ m, (pairEnd.node 1).mode = .fresh m ∧
    elemAt m pairAverage.dtype (pairAverage.recvBuf 1) 0 =
      allreduceResult pairAverage.reduceOp pairWorld.size (pairAverage.inputs pairMem) 0 := by
  obtain ⟨ls, h⟩ := pairRun
  obtain ⟨m, hm, hres⟩ := allreduce_correct (w := pairWorld) (p := pairAverage) (by decide)
    (by decide) rfl rfl (by decide) (by decide) trivial (fun _ _ =>
      ⟨Nat.succ_ne_zero 7, Nat.succ_ne_zero 7, Or.inl rfl⟩) h (by decide +kernel)
    1 (by decide)
  exact ⟨m, hm, hres 0 (by decide)⟩

end OriginCCL.TopologyRing
