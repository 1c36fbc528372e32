/-
  File:      OriginCCL/Topology/RingAllGather.lean
  Subject:   A RING ALLGATHER UNDER EVERY SCHEDULE.

  In round `t` a rank passes on the block that it has got in round `t - 1`, beginning with its own.

  * `GatherBytes` -- the blocks that have arrived, and all other memory as before.
  * `gather_values` -- **every round keeps the claim about the bytes**.
  * `allGather_correct` -- **whatever the schedule and the split of the bytes**, when the ranks are done
    every receive buffer holds the blocks of all ranks, and nothing else has changed.
-/
import OriginCCL.Net.Schedule
import OriginCCL.Topology.RingExchange
import OriginCCL.Topology.Together

namespace OriginCCL.TopologyRing

open Net Base

/-! ## 1. The bytes -/

section Bytes

variable {dt : DataType} {task : PlanTask} {N r : Nat} {lo li : Link} {X : Nat → Nat → Elem dt}
  {m₀ : Mem} {t rp : Nat}

/-- The bytes of the two streams of rank `r`: the blocks of the ranks before it. -/
def gatherOk (task : PlanTask) (N r : Nat) (X : Nat → Nat → Elem dt) : Side → Nat → UInt8 → Prop
  | .out => streamOk (fun _ => blockBytes task) (N - 1) fun t => elemByte dt (X (back N r t))
  | .inn => streamOk (fun _ => blockBytes task) (N - 1) fun t => elemByte dt (X (back N r (t + 1)))

/-- All memory outside the blocks of a receive buffer is as before. -/
def BlocksOnly (task : PlanTask) (N : Nat) (m₀ : Mem) (m : Loc → UInt8) : Prop :=
  ∀ a, (∀ q < N, ¬ (user a).inside (outputBlock task (q : Nat)) (blockBytes task)) →
    m (user a) = m₀ a

/-- **The bytes in round `t`** after `rp` received ones. -/
structure GatherBytes (task : PlanTask) (N r : Nat) (X : Nat → Nat → Elem dt) (m₀ : Mem)
    (t rp : Nat) (m : Loc → UInt8) : Prop where
  kept : BlocksOnly task N m₀ m
  blocks : ∀ k ≤ t, Holds m dt (outputBlock task (back N r k : Nat)) task.elemCount
    (X (back N r k))
  incoming : ∀ j < rp, m ((outputBlock task (back N r (t + 1) : Nat)).shift j) =
    elemByte dt (X (back N r (t + 1))) j

/-- What an AllGather leaves: the blocks of all ranks, and all other memory as before. -/
structure GatherDone (task : PlanTask) (dt : DataType) (N : Nat) (X : Nat → Nat → Elem dt)
    (m₀ m : Mem) : Prop where
  result : ∀ q < N, ∀ i < task.elemCount, elemAt m dt task.recvBuf (q * task.rankStride + i) = X q i
  kept : BlocksOnly task N m₀ (freshState m).byteAt

/-- Different blocks of the receive buffer do not overlap. -/
theorem outputBlock_apart (hstride : task.elemCount ≤ task.rankStride) {q q' : Nat} (h : q ≠ q') :
    Apart (outputBlock task (q : Nat)) (blockBytes task) (outputBlock task (q' : Nat))
      (blockBytes task) := by
  have key : ∀ a b : Nat, a < b →
      (outputBlock task (a : Nat)).addr + blockBytes task ≤ (outputBlock task (b : Nat)).addr := by
    intro a b hab
    have hmul : (a * task.rankStride + task.elemCount) * getDataTypeSize task.dtype ≤
        b * task.rankStride * getDataTypeSize task.dtype := by
      refine Nat.mul_le_mul_right _ ?_
      have := Nat.mul_le_mul_right task.rankStride (Nat.succ_le_of_lt hab)
      rw [Nat.succ_mul] at this
      omega
    rw [Nat.add_mul] at hmul
    change task.recvBuf + a * task.rankStride * getDataTypeSize task.dtype +
      task.elemCount * getDataTypeSize task.dtype ≤
        task.recvBuf + b * task.rankStride * getDataTypeSize task.dtype
    omega
  rcases Nat.lt_or_gt_of_ne h with hlt | hgt
  · exact Or.inr (Or.inl (key _ _ hlt))
  · exact Or.inr (Or.inr (key _ _ hgt))

/-- **A write into one block** leaves the other blocks and all other memory. -/
theorem GatherBytes.receive (hr : r < N) (hdt : task.dtype = dt)
    (hstride : task.elemCount ≤ task.rankStride) (ht : t < N - 1) {rp' : Nat}
    (hrp : rp' ≤ blockBytes task) {m m' : Loc → UInt8} (h : GatherBytes task N r X m₀ t rp m)
    (hnew : ∀ j, rp ≤ j → j < rp' → m' ((outputBlock task (back N r (t + 1) : Nat)).shift j) =
      elemByte dt (X (back N r (t + 1))) j)
    (hm : ∀ q : Loc, ¬ q.inside ((outputBlock task (back N r (t + 1) : Nat)).shift rp) (rp' - rp) →
      m' q = m q) (hle : rp ≤ rp') : GatherBytes task N r X m₀ t rp' m' := by
  subst hdt
  refine ⟨fun a ha => ?_, fun k hk j hj => ?_, fun j hj => ?_⟩
  · rw [hm _ fun hin => ha _ (back_lt hr) (Loc.inside_part hin (by omega)), h.kept a ha]
  · have hne : back N r k ≠ back N r (t + 1) := fun he => by
      have := back_injective hr (by omega) (by omega) he
      omega
    rw [hm _ fun hin => (outputBlock_apart hstride hne).not_inside hj
      (Loc.inside_part hin (by omega)), h.blocks k hk j hj]
  · by_cases hj' : rp ≤ j
    · exact hnew j hj' hj
    · rw [hm _ ?_, h.incoming j (by omega)]
      rintro ⟨-, h2, -⟩
      rw [Loc.shift_addr, Loc.shift_addr] at h2
      omega

/-- A complete round adds a block. -/
theorem GatherBytes.next (hdt : task.dtype = dt) {m : Loc → UInt8}
    (h : GatherBytes task N r X m₀ t (blockBytes task) m) : GatherBytes task N r X m₀ (t + 1) 0 m := by
  refine ⟨h.kept, fun k hk => ?_, fun j hj => absurd hj (Nat.not_lt_zero j)⟩
  rcases Nat.lt_or_eq_of_le hk with hlt | rfl
  · exact h.blocks k (by omega)
  · subst hdt
    exact fun j hj => h.incoming j hj

/-- **After the last round** all blocks are there. -/
theorem GatherBytes.done (hr : r < N) (hdt : task.dtype = dt) (ht : t + 1 = N) {s : RankState}
    (h : GatherBytes task N r X m₀ t 0 s.byteAt) : GatherDone task dt N X m₀ s.mem := by
  refine ⟨fun q hq i hi => ?_, h.kept⟩
  have hblock := h.blocks (back N r q) (by have := back_lt (k := q) hr; omega)
  rw [back_back hr hq] at hblock
  subst hdt
  rw [elemAt_add]
  exact hblock.load hi

theorem gatherOk_out (ht : t < N - 1) {j : Nat} {b : UInt8} (hj : j < blockBytes task) :
    gatherOk task N r X .out (off (allGatherRounds task N r).sendLen t + j) b ↔
      b = elemByte dt (X (back N r t)) j :=
  streamOk_iff ht hj

theorem gatherOk_inn (ht : t < N - 1) {j : Nat} {b : UInt8} (hj : j < blockBytes task) :
    gatherOk task N r X .inn (off (allGatherRounds task N r).recvLen t + j) b ↔
      b = elemByte dt (X (back N r (t + 1))) j :=
  streamOk_iff ht hj

/-- **AllGather keeps the claim about its bytes**, and ends with the blocks of all ranks. -/
theorem gather_values (W : OnRing task N r lo li) (hdt : task.dtype = dt)
    (hstride : task.elemCount ≤ task.rankStride) :
    Claimed allGather task (allGatherRounds task N r) (gatherOk task N r X)
      (GatherBytes task N r X m₀) (GatherDone task dt N X m₀) where
  sends t ht rp _ m h j hj := by
    refine (gatherOk_out ht hj).mpr ?_
    subst hdt
    exact h.blocks t (Nat.le_refl t) j hj
  receives t ht rp rp' hle hrp m m' h hnew hm := by
    have hrp : rp' ≤ blockBytes task := hrp
    refine h.receive W.lt hdt hstride ht hrp (fun j h1 h2 => ?_) hm hle
    exact (gatherOk_inn ht (by omega)).mp (hnew j h1 h2)
  next _ _ _ _ _ h := h.next hdt
  last t ht s _ _ h := by
    have ht : t + 1 = N - 1 := ht
    have hN := W.two_le
    exact (h.next hdt).done (s := (allGatherSettle task s).1) W.lt hdt (by omega)

/-- **The first call starts from the own block.** -/
theorem gather_start (hr : r < N) (hrank : task.rank = (r : Nat)) (hdt : task.dtype = dt)
    (hX : ∀ i, X r i = elemAt m₀ dt task.sendBuf i) :
    GatherBytes task N r X m₀ 0 0 (allGatherPrep task m₀).byteAt := by
  refine ⟨fun a ha => ?_, fun k hk => ?_, fun j hj => absurd hj (Nat.not_lt_zero j)⟩
  · rw [allGatherPrep, hrank]
    exact RankState.memcpy_frame (ha r hr)
  · obtain rfl : k = 0 := Nat.le_zero.mp hk
    rw [back_zero hr, allGatherPrep, hrank]
    subst hdt
    have hinput : Holds (clear (freshState m₀)).byteAt task.dtype (user task.sendBuf)
        task.elemCount (X r) := fun j hj => by
      rw [elemByte_congr (fun i _ => hX i) hj]
      exact holds_load task.dtype (freshState m₀) (user task.sendBuf) task.elemCount j hj
    exact RankState.memcpy_holds hinput

end Bytes

/-! ## 2. The ranks together -/

section Ranks

variable {H : Type} [DecidableEq H] {w : World H} {id : Nat} {p : Collective}

/-- The terms of a rank in an AllGather with inputs `X`; a single rank has nothing to transfer. -/
def gatherTerms {dt : DataType} (w : World H) (id : Nat) (X : Nat → Nat → Elem dt)
    (p : Collective) (r : Nat) : Terms Link UInt8 :=
  if w.size = 1 then Terms.none
  else (allGatherRounds (p.task w id r) w.size r).terms (channelLink id r ((r + 1) % w.size))
    (channelLink id (back w.size r 1) r) (gatherOk (p.task w id r) w.size r X)

/-- **The next rank receives what a rank sends.** -/
theorem gather_joined {dt : DataType} (X : Nat → Nat → Elem dt) (hN : 1 ≤ w.size) :
    Joined w.size (gatherTerms w id X p) := by
  by_cases h1 : w.size = 1
  · have e : gatherTerms w id X p = fun _ => Terms.none := funext fun r => if_pos h1
    rw [e]
    exact joined_none w.size
  · have e : gatherTerms w id X p = fun r =>
        (allGatherRounds (p.task w id r) w.size r).terms (channelLink id r ((r + 1) % w.size))
          (channelLink id (back w.size r 1) r) (gatherOk (p.task w id r) w.size r X) :=
      funext fun r => if_neg h1
    rw [e]
    refine ring_joined id (fun r sd => off ((allGatherRounds (p.task w id r) w.size r).len sd)
      (w.size - 1)) (fun r => gatherOk (p.task w id r) w.size r X) (by omega) (fun r _ => ?_)
      fun r hr j b _ hb => ?_
    · refine off_congr fun t _ => ?_
      change blockBytes (p.task w id r) = blockBytes (p.task w id ((r + 1) % w.size))
      rw [Collective.blockBytes_task, Collective.blockBytes_task]
    · intro t ht i hi he
      change b = elemByte dt (X (back w.size ((r + 1) % w.size) (t + 1))) i
      rw [back_next hr (by omega)]
      refine hb t ht i ?_ ?_
      · rwa [Collective.blockBytes_task] at hi ⊢
      · simp only [Collective.blockBytes_task] at he ⊢
        exact he

/-- What holds of a rank's memory before and after the operation. -/
def gatherAt (w : World H) (id : Nat) (p : Collective) (m₀ : Nat → Mem) (r : Nat) :
    Nat → Mem → Prop
  | 0, m => m = m₀ r
  | _ + 1, m => GatherDone (p.task w id r) p.dtype w.size (p.inputs m₀) (m₀ r) m

/-- A single rank copies its block. -/
theorem allGather_single {task : PlanTask} {ring : TopologyRing} (hfunc : task.func = .allGather)
    (htopo : task.topology = some (.ring ring)) (hcount : task.elemCount ≠ 0)
    (hbuf : task.sendBuf ≠ 0 ∧ task.recvBuf ≠ 0) (hworld : task.worldSize = 1) (m : Mem) :
    channelSystem.init task m = .ret (finishAtOnce task (allGatherPrep task m)) := by
  simp only [channelSystem, htopo, Topology.collectiveInit, collectiveInit, hfunc]
  unfold allGatherInit
  simp only [hworld, if_neg hcount, if_neg (not_or.mpr hbuf), if_true]
  rw [if_neg (by decide)]
  rfl

/-- **The contract of one rank in an AllGather.** -/
theorem gather_contract (hid : id < w.nChannels) (hfunc : p.func = .allGather)
    (hring : p.onTree = false) (hcount : 0 < p.elemCount) (hstride : p.elemCount ≤ p.rankStride)
    {r : Nat} (hr : r < w.size)
    (hbuf : p.Separate r p.elemCount ((w.size - 1) * p.rankStride + p.elemCount))
    (m₀ : Nat → Mem) :
    Nonempty (Contract channelSystem (p.task w id r) (gatherTerms w id (p.inputs m₀) p r)
      (gatherAt w id p m₀ r 0) (gatherAt w id p m₀ r 1)) := by
  have hdt : (p.task w id r).dtype = p.dtype := Collective.task_dtype
  have hrank : (p.task w id r).rank = (r : Nat) := Collective.task_rank
  have htopo : (p.task w id r).topology = some (.ring (w.ring r)) := by
    rw [Collective.task_topology, hring]
    rfl
  have hfunc' : (p.task w id r).func = .allGather := by rw [Collective.task_func, hfunc]
  have hcount' : (p.task w id r).elemCount ≠ 0 := by rw [Collective.task_elemCount]; omega
  have hbuf' : (p.task w id r).sendBuf ≠ 0 ∧ (p.task w id r).recvBuf ≠ 0 := by
    rw [Collective.task_sendBuf, Collective.task_recvBuf]
    exact ⟨hbuf.send, hbuf.recv⟩
  have hX : ∀ i, p.inputs m₀ r i = elemAt (m₀ r) p.dtype (p.task w id r).sendBuf i := by
    intro i
    rw [Collective.task_sendBuf]
    rfl
  by_cases h1 : w.size = 1
  · rw [gatherTerms, if_pos h1]
    refine ⟨finishAtOnce_contract htopo (allGatherPrep (p.task w id r)) (fun m _ => ?_)
      fun m hm => ?_⟩
    · exact allGather_single hfunc' htopo hcount' hbuf'
        (by rw [Collective.task_worldSize, h1]; rfl) m
    · obtain rfl : m = m₀ r := hm
      exact (gather_start hr hrank hdt hX).done hr hdt (by omega)
  · have W := Collective.ring_onRing (p := p) hid hring (by omega) hr
    have T := allGather_task W hfunc' htopo hcount' hbuf'
    rw [gatherTerms, if_neg h1]
    refine ⟨T.contract (gather_values W hdt ?_) fun m hm => ?_⟩
    · rw [Collective.task_elemCount, Collective.task_rankStride]
      exact hstride
    · obtain rfl : m = m₀ r := hm
      exact gather_start hr hrank hdt hX

/-- **Ring AllGather is correct for every schedule**: when all ranks are done, every receive buffer
    holds the blocks of all ranks in their order, and nothing else has changed. -/
theorem allGather_correct (hid : id < w.nChannels) (hN : 1 ≤ w.size) (hfunc : p.func = .allGather)
    (hring : p.onTree = false) (hcount : 0 < p.elemCount) (hstride : p.elemCount ≤ p.rankStride)
    (hbuf : ∀ r < w.size,
      p.Separate r p.elemCount ((w.size - 1) * p.rankStride + p.elemCount)) {m₀ : Nat → Mem}
    {ls : List (Label Nat Link UInt8 CollEvent)} {c : Config Nat Link UInt8 RankState Mem}
    (hrun : Run channelSystem (Flow.any Link) (w.tasks id [p]) (.start m₀) ls c)
    (hdone : ∀ r < w.size, (c.node r).finished = 1) :
    ∀ r < w.size, ∃ m, (c.node r).mode = .fresh m ∧
      (∀ q < w.size, ∀ i < p.elemCount, elemAt m p.dtype (p.recvBuf r) (q * p.rankStride + i) =
        elemAt (m₀ q) p.dtype (p.sendBuf q) i) ∧
      ∀ a, (∀ q < w.size, ¬ (p.recvBuf r + q * p.rankStride * getDataTypeSize p.dtype ≤ a ∧
        a < p.recvBuf r + q * p.rankStride * getDataTypeSize p.dtype +
          p.elemCount * getDataTypeSize p.dtype)) → m a = m₀ r a := by
  intro r hr
  obtain ⟨m, hm, hpost⟩ := single_post (gatherTerms w id (p.inputs m₀)) (gatherAt w id p m₀)
    (gather_joined _ hN)
    (fun q hq => gather_contract hid hfunc hring hcount hstride hq (hbuf q hq) m₀)
    (fun _ => rfl) hrun hr (hdone r hr)
  have hpost : GatherDone (p.task w id r) p.dtype w.size (p.inputs m₀) (m₀ r) m := hpost
  refine ⟨m, hm, fun q hq i hi => ?_, fun a ha => hpost.kept a fun q hq hin => ha q hq ?_⟩
  · have hres := hpost.result q hq i (by rw [Collective.task_elemCount]; exact hi)
    rw [Collective.task_recvBuf, Collective.task_rankStride] at hres
    exact hres
  · have hin : (user (p.task w id r).recvBuf).addr +
        q * (p.task w id r).rankStride * getDataTypeSize (p.task w id r).dtype ≤ a ∧
        a < (user (p.task w id r).recvBuf).addr +
          q * (p.task w id r).rankStride * getDataTypeSize (p.task w id r).dtype +
          blockBytes (p.task w id r) := hin.2
    rw [Collective.blockBytes_task, Collective.task_recvBuf, Collective.task_rankStride,
      Collective.task_dtype] at hin
    exact hin

end Ranks

/-! ## 3. Two ranks -/

/-- Two ranks on one machine, one channel. -/
def gatherWorld : World Unit := ⟨2, fun _ => (), 1⟩

/-- One element of each rank, two elements apart. -/
def gatherPair : Collective where
  func := .allGather
  elemCount := 1
  rankStride := 2
  dtype := .int32
  sendBuf _ := 8
  recvBuf _ := 32

/-- Rank `r` holds `50 + r`. -/
def gatherMem (r a : Nat) : UInt8 := if a = 8 then 50 + r.toUInt8 else 0

def gatherEnd : Config Nat Link UInt8 RankState Mem :=
  (Config.start gatherMem).follow channelSystem (fun _ => 3) (gatherWorld.tasks 0 [gatherPair])
    (List.replicate 4 ((List.range 2).flatMap fun v =>
      List.replicate 3 (v, .writable) ++ List.replicate 3 (v, .readable))).flatten

theorem gatherRun : ∃ ls, Run channelSystem (Flow.any Link) (gatherWorld.tasks 0 [gatherPair])
    (.start gatherMem) ls gatherEnd := by
  obtain ⟨ls, h⟩ := Config.follow_run channelSystem (fun _ => 3) (gatherWorld.tasks 0 [gatherPair])
    (.start gatherMem) _
  exact ⟨ls, h.any⟩

theorem allGather_correct_pair : ∃ m, (gatherEnd.node 0).mode = .fresh m ∧
    elemAt m gatherPair.dtype (gatherPair.recvBuf 0) 2 =
      elemAt (gatherMem 1) gatherPair.dtype (gatherPair.sendBuf 1) 0 := by
  obtain ⟨ls, h⟩ := gatherRun
  obtain ⟨m, hm, hres, -⟩ := allGather_correct (w := gatherWorld) (p := gatherPair) (by decide)
    (by decide) rfl rfl (by decide) (by decide)
    (fun _ _ => ⟨Nat.succ_ne_zero 7, Nat.succ_ne_zero 31, Or.inl (show 8 + 1 * 4 ≤ 32 by decide)⟩) h
    (by decide +kernel) 0 (by decide)
  exact ⟨m, hm, hres 1 (by decide) 0 (by decide)⟩

end OriginCCL.TopologyRing
