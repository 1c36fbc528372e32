/-
  File:      OriginCCL/Topology/TaskLists.lean
  Subject:   LISTS OF OPERATIONS, run by all ranks in the same order over the same connections.

  Ring and tree tasks share their connections without any framing, and a rank may be tasks ahead of its
  neighbours. For the counting of bytes it does not matter what the bytes are: every operation has a
  contract that claims nothing of them.

  * `Collective.Valid` -- the operations the planner accepts.
  * `Collective.contract` -- **every such operation keeps its terms and serves its connections in the
    order of its stamps**, which are the same at both ends of a connection.
-/
import OriginCCL.Net.InOrder
import OriginCCL.Topology.RingAllreduceRun
import OriginCCL.Topology.RingExchange
import OriginCCL.Topology.RingReduce
import OriginCCL.Topology.TreeRun

namespace OriginCCL

open Net Base

/-! ## 1. Times of the rounds -/

namespace TopologyRing

/-- When a rank at distance `d` in a chain goes through its rounds: it sends one step after it has
    received. -/
def chainTime (d t : Nat) : Nat := if d = 0 then 1 else d + t

theorem chainTime_mono (d : Nat) {t u : Nat} (h : t ≤ u) : chainTime d t ≤ chainTime d u := by
  unfold chainTime
  split <;> omega

section Stamps

variable {N d bytes j : Nat} {src dst : Loc}

theorem chainTime_lt {t u : Nat} (h : t < u) (hu : u < (chainRounds N d bytes src dst).total) :
    chainTime d t < chainTime d u := by
  simp only [chainRounds] at hu
  unfold chainTime
  split at hu
  · omega
  · rw [if_neg (by omega), if_neg (by omega)]
    omega

/-- What a rank of a chain sends is sent one step further. -/
theorem chain_stamp_out (hN : 2 ≤ N) (hd : d + 1 ≠ N) (hj : j < bytes) :
    (chainRounds N d bytes src dst).stamp (chainTime d) .out j = d + 1 := by
  by_cases h0 : d = 0
  · rw [Rounds.stamp, chainTime, if_pos h0, h0]
  · have htotal : (chainRounds N d bytes src dst).total = 2 := if_neg (by omega)
    have hslot : slot (chainRounds N d bytes src dst).sendLen 2 j = 1 := by
      refine slot_eq (by omega) ?_ ?_
      · rw [off_succ, off_zero, (chain_receiving N bytes src dst (t := 0) (by omega)).2.1]
        omega
      · rw [off_succ, off_zero, (chain_receiving N bytes src dst (t := 0) (by omega)).2.1,
          (chain_sending N bytes src dst (t := 1) (Or.inr rfl)).2.1]
        omega
    rw [Rounds.stamp, htotal]
    change chainTime d (slot (chainRounds N d bytes src dst).sendLen 2 j) = _
    rw [hslot, chainTime, if_neg h0]

/-- What it receives it receives at its own place. -/
theorem chain_stamp_inn (hd : d ≠ 0) (hj : j < bytes) :
    (chainRounds N d bytes src dst).stamp (chainTime d) .inn j = d := by
  have hpos : 0 < (chainRounds N d bytes src dst).total := by
    simp only [chainRounds]
    split <;> omega
  have hslot : slot (chainRounds N d bytes src dst).recvLen
      (chainRounds N d bytes src dst).total j = 0 := by
    refine slot_eq hpos (Nat.zero_le j) ?_
    rw [off_zero, (chain_receiving N bytes src dst (t := 0) (by omega)).2.2]
    omega
  change chainTime d (slot (chainRounds N d bytes src dst).recvLen _ j) = _
  rw [hslot, chainTime, if_neg hd, Nat.add_zero]

/-- **The ends of a chain's connection agree** on the bytes and on when they are moved. -/
theorem chain_meets {bytes' d' : Nat} {src' dst' : Loc} (hN : 2 ≤ N)
    (hd : d' = if d + 1 = N then 0 else d + 1) (hbytes : bytes' = bytes) :
    off ((chainRounds N d bytes src dst).len .out) (chainRounds N d bytes src dst).total =
      off ((chainRounds N d' bytes' src' dst').len .inn) (chainRounds N d' bytes' src' dst').total ∧
    ∀ j < off ((chainRounds N d bytes src dst).len .out) (chainRounds N d bytes src dst).total,
      (chainRounds N d bytes src dst).stamp (chainTime d) .out j =
        (chainRounds N d' bytes' src' dst').stamp (chainTime d') .inn j := by
  subst hbytes
  have hsent := chain_sent hN d bytes' src dst
  have hreceived := chain_received hN d' bytes' src' dst'
  simp only [Rounds.len]
  rw [hsent, hreceived, hd]
  by_cases hl : d + 1 = N
  · rw [if_pos hl, if_pos hl, if_pos rfl]
    exact ⟨rfl, fun j hj => absurd hj (Nat.not_lt_zero j)⟩
  · rw [if_neg hl, if_neg hl, if_neg (Nat.succ_ne_zero d)]
    refine ⟨rfl, fun j hj => ?_⟩
    rw [chain_stamp_out hN hl hj, chain_stamp_inn (Nat.succ_ne_zero d) hj]

/-- Rounds of the same lengths at the same times meet. -/
theorem Rounds.meets {R R' : Rounds} (htotal : R.total = R'.total)
    (hlen : ∀ t < R.total, R.sendLen t = R'.recvLen t) (time : Nat → Nat) :
    off (R.len .out) R.total = off (R'.len .inn) R'.total ∧
      ∀ j < off (R.len .out) R.total, R.stamp time .out j = R'.stamp time .inn j := by
  refine ⟨?_, fun j _ => ?_⟩
  · rw [← htotal]
    exact off_congr hlen
  · rw [Rounds.stamp, Rounds.stamp, ← htotal]
    exact congrArg time (slot_congr hlen j)

/-- **The ends of a connection agree** in an exchange of blocks. -/
theorem exchange_meets {bytes' : Nat} {src dst src' dst' : Nat → Loc} (hbytes : bytes' = bytes) :
    off ((exchangeRounds N bytes src dst).len .out) (exchangeRounds N bytes src dst).total =
      off ((exchangeRounds N bytes' src' dst').len .inn) (exchangeRounds N bytes' src' dst').total ∧
    ∀ j < off ((exchangeRounds N bytes src dst).len .out) (exchangeRounds N bytes src dst).total,
      (exchangeRounds N bytes src dst).stamp id .out j =
        (exchangeRounds N bytes' src' dst').stamp id .inn j := by
  subst hbytes
  exact Rounds.meets rfl (fun _ _ => rfl) id

/-- A later byte is not moved earlier. -/
theorem Rounds.stamp_mono (R : Rounds) {time : Nat → Nat} (h : ∀ t u, t ≤ u → time t ≤ time u)
    (sd : Side) {j j' : Nat} (hle : j ≤ j') : R.stamp time sd j ≤ R.stamp time sd j' :=
  h _ _ (slot_mono _ _ hle)

end Stamps

end TopologyRing

namespace TopologyTree

/-- When a chunk passes a connection of a tree of ranks: on the way up, the later the nearer to the
    root; on the way down, after all that, the later the farther away. -/
def treeTime (F : Forest Nat) (height count : Nat) (l : Link) (c : Nat) : Nat :=
  if F.parent l.src = some l.dst then c + (height - F.depth l.src)
  else count + height + c + F.depth l.dst

theorem treeTime_mono (F : Forest Nat) (height count : Nat) (l : Link) {c c' : Nat} (h : c ≤ c') :
    treeTime F height count l c ≤ treeTime F height count l c' := by
  unfold treeTime
  split <;> omega

theorem depthOf_le {H : Type} [DecidableEq H] {w : World H} (id : Nat) {q : Nat} (hq : q < w.size) :
    (treeForest w id).depth q ≤ machines w := by
  change (if leaderOf w q = q then nodeOf w id q else machines w) ≤ machines w
  have := nodeOf_lt id hq
  split <;> omega

/-- **These are times for every seat of the tree.** -/
theorem Hangs.timed {task : PlanTask} {T : Seat} {F : Forest Nat} {N r : Nat} {nbr : Nat → Nat}
    (W : OnTree task T) (h : Hangs T F N r nbr) {height : Nat} (hheight : ∀ q < N, F.depth q ≤ height)
    (count : Nat) : Timed T count (treeTime F height count) where
  up he i hi c' c hle hc := by
    have hkids := W.kids_le
    have hdepth := F.depth_lt _ _ (h.kid i hi)
    have hmax := hheight _ (h.nbr_lt i (by omega))
    rw [treeTime, if_pos (up_inn W h hi), (h.inn_link i (by omega)).1, treeTime,
      if_pos (up_out h he), (h.out_link _ he).1]
    omega
  down he j hj c' c hle hc := by
    have hkids := W.kids_le
    have hdepth := F.depth_lt _ _ (h.kid j hj)
    rw [treeTime, if_neg (down_inn h he), (h.inn_link _ he).2, treeTime, if_neg (down_out W h hj),
      (h.out_link j (by omega)).2]
    omega
  turn u d hu hd c hc c' hc' := by
    have hup : F.parent u.src = some u.dst := by
      rcases hu with ⟨i, hi, rfl⟩ | ⟨he, rfl⟩
      · exact up_inn W h hi
      · exact up_out h he
    have hdown : F.parent d.src ≠ some d.dst := by
      rcases hd with ⟨j, hj, rfl⟩ | ⟨he, rfl⟩
      · exact down_out W h hj
      · exact down_inn h he
    rw [treeTime, if_pos hup, treeTime, if_neg hdown]
    omega

end TopologyTree

/-! ## 2. Operations -/

section Worlds

variable {H : Type} [DecidableEq H]

/-- A task that the planner has accepted on its rank (`ValidateCollectiveTask`). -/
structure Accepted (task : PlanTask) : Prop where
  world : 0 < task.worldSize
  func : task.func ≠ .send ∧ task.func ≠ .recv
  root : task.func = .broadcast ∨ task.func = .reduce → 0 ≤ task.root ∧ task.root < task.worldSize
  sends : task.elemCount ≠ 0 → task.func ≠ .broadcast → task.sendBuf ≠ 0
  recvs : task.elemCount ≠ 0 → task.func ≠ .reduce ∨ task.rank = task.root → task.recvBuf ≠ 0

/-- A ring task without a transfer is done at once. -/
theorem TopologyRing.done_at_once {task : PlanTask} (ha : Accepted task)
    (h : task.elemCount = 0 ∨ task.worldSize = 1) (s : RankState) :
    ∃ s', collectiveInit task s = .ret s' ∧ collectiveDone s' = true := by
  have hpos : ¬ task.worldSize ≤ 0 := by
    have := ha.world
    omega
  have hroot : task.func = .broadcast ∨ task.func = .reduce →
      ¬ (task.worldSize ≤ 0 ∨ task.root < 0 ∨ task.root ≥ task.worldSize) := by
    intro hf
    have := ha.root hf
    omega
  have hboth : task.elemCount ≠ 0 → task.func ≠ .broadcast → task.func ≠ .reduce →
      ¬ (task.sendBuf = 0 ∨ task.recvBuf = 0) :=
    fun hc hb hr => not_or.mpr ⟨ha.sends hc hb, ha.recvs hc (Or.inl hr)⟩
  unfold collectiveInit
  by_cases hc : task.elemCount = 0
  · cases hfunc : task.func with
    | broadcast =>
      simp only [broadcastInit, if_neg (hroot (Or.inl hfunc)), if_pos hc]
      exact ⟨_, rfl, rfl⟩
    | reduce =>
      simp only [reduceInit, if_neg (hroot (Or.inr hfunc)), if_pos hc]
      exact ⟨_, rfl, rfl⟩
    | allGather =>
      simp only [allGatherInit, if_neg hpos, if_pos hc]
      exact ⟨_, rfl, rfl⟩
    | reduceScatter =>
      simp only [reduceScatterInit, if_neg hpos, if_pos hc]
      exact ⟨_, rfl, rfl⟩
    | allReduce =>
      simp only [allreduceInit, if_neg hpos, if_pos hc]
      exact ⟨_, rfl, rfl⟩
    | send => exact absurd hfunc ha.func.1
    | recv => exact absurd hfunc ha.func.2
  · have hone : task.worldSize = 1 := h.resolve_left hc
    cases hfunc : task.func with
    | broadcast =>
      have hbuf := ha.recvs hc (Or.inl (by rw [hfunc]; decide))
      simp only [broadcastInit, if_neg (hroot (Or.inl hfunc)), if_neg hc, if_neg hbuf, if_pos hone]
      exact ⟨_, rfl, rfl⟩
    | reduce =>
      have hbuf : ¬ (task.sendBuf = 0 ∨ task.rank = task.root ∧ task.recvBuf = 0) := by
        rintro (h0 | ⟨hr, h0⟩)
        · exact ha.sends hc (by rw [hfunc]; decide) h0
        · exact ha.recvs hc (Or.inr hr) h0
      simp only [reduceInit, if_neg (hroot (Or.inr hfunc)), if_neg hc, if_neg hbuf, if_pos hone]
      exact ⟨_, rfl, rfl⟩
    | allGather =>
      have hbuf := hboth hc (by rw [hfunc]; decide) (by rw [hfunc]; decide)
      simp only [allGatherInit, if_neg hpos, if_neg hc, if_neg hbuf, if_pos hone]
      exact ⟨_, rfl, rfl⟩
    | reduceScatter =>
      have hbuf := hboth hc (by rw [hfunc]; decide) (by rw [hfunc]; decide)
      simp only [reduceScatterInit, if_neg hpos, if_neg hc, if_neg hbuf, if_pos hone]
      exact ⟨_, rfl, rfl⟩
    | allReduce =>
      have hbuf := hboth hc (by rw [hfunc]; decide) (by rw [hfunc]; decide)
      simp only [allreduceInit, if_neg hpos, if_neg hc, if_neg hbuf, if_pos hone]
      exact ⟨_, rfl, rfl⟩
    | send => exact absurd hfunc ha.func.1
    | recv => exact absurd hfunc ha.func.2

/-- A tree task without a transfer is done at once. -/
theorem TopologyTree.done_at_once {task : PlanTask} (ha : Accepted task)
    (hfunc : task.func = .allReduce) (h : task.elemCount = 0 ∨ task.worldSize = 1)
    (t : TopologyTree) (s : RankState) :
    ∃ s', collectiveInit t task s = .ret s' ∧ collectiveDone s' = true := by
  have hpos : ¬ task.worldSize ≤ 0 := by
    have := ha.world
    omega
  have hred : ¬ task.func ≠ .allReduce := not_not.mpr hfunc
  unfold collectiveInit treeInit
  simp only [if_neg hred, if_neg hpos]
  by_cases hc : task.elemCount = 0
  · rw [if_pos hc]
    exact ⟨_, rfl, rfl⟩
  · have hbuf : ¬ (task.sendBuf = 0 ∨ task.recvBuf = 0) :=
      not_or.mpr ⟨ha.sends hc (by rw [hfunc]; decide),
        ha.recvs hc (Or.inl (by rw [hfunc]; decide))⟩
    rw [if_neg hc, if_neg hbuf, if_pos (h.resolve_left hc)]
    exact ⟨_, rfl, rfl⟩

/-- An operation that the planner accepts on every rank of `N` (`ValidateCollectiveTask`), for the
    topology it is bound to. -/
structure Collective.Valid (p : Collective) (N : Nat) : Prop where
  func : p.func ≠ .send ∧ p.func ≠ .recv
  tree : p.onTree = true → p.func = .allReduce
  chunk : p.func = .allReduce → 1 ≤ p.chunkSize
  root : p.func = .broadcast ∨ p.func = .reduce → 0 ≤ p.root ∧ p.root < N
  sends : 0 < p.elemCount → p.func ≠ .broadcast → ∀ r < N, p.sendBuf r ≠ 0
  recvs : 0 < p.elemCount → ∀ r < N, p.func ≠ .reduce ∨ p.root = r → p.recvBuf r ≠ 0

namespace Collective

/-- The rounds of a ring operation on rank `r`. -/
def rounds (p : Collective) (w : World H) (id r : Nat) : TopologyRing.Rounds :=
  match p.func with
  | .broadcast => TopologyRing.broadcastRounds (p.task w id r) w.size r p.root.toNat
  | .reduce => TopologyRing.reduceRounds (p.task w id r) w.size r p.root.toNat
  | .allGather => TopologyRing.allGatherRounds (p.task w id r) w.size r
  | .reduceScatter => TopologyRing.reduceScatterRounds (p.task w id r) w.size
  | _ => TopologyRing.allreduceRounds (p.task w id r) w.size r

/-- When a rank goes through them. -/
def roundTime (p : Collective) (N r : Nat) : Nat → Nat :=
  match p.func with
  | .broadcast => TopologyRing.chainTime (back N r p.root.toNat)
  | .reduce => TopologyRing.chainTime (TopologyRing.chainPlace N r p.root.toNat)
  | _ => id

/-- The terms of a rank: all bytes of the operation, whatever they are. -/
def terms (p : Collective) (w : World H) (id r : Nat) : Terms Link UInt8 :=
  if p.elemCount = 0 ∨ w.size = 1 then Terms.none
  else if p.onTree then
    TopologyTree.treeTerms (p.task w id r) (TopologyTree.seatOf w id r) fun _ _ _ _ => True
  else (p.rounds w id r).terms (channelLink id r ((r + 1) % w.size))
    (channelLink id (back w.size r 1) r) fun _ _ _ => True

/-- The stamp of a byte, the same for its sender and its receiver. -/
def stamp (p : Collective) (w : World H) (id : Nat) (l : Link) (j : Nat) : Nat :=
  if p.onTree then
    TopologyTree.treeStamp (p.task w id 0) (TopologyTree.treeTime (TopologyTree.treeForest w id)
      (TopologyTree.machines w) (TopologyTree.chunkCount (p.task w id 0))) l j
  else (p.rounds w id l.src).stamp (p.roundTime w.size l.src) .out j

variable {p : Collective} {w : World H} {id r : Nat}

theorem roundTime_mono (p : Collective) (N r : Nat) {t u : Nat} (h : t ≤ u) :
    p.roundTime N r t ≤ p.roundTime N r u := by
  unfold roundTime
  cases p.func with
  | broadcast | reduce => exact TopologyRing.chainTime_mono _ h
  | _ => exact h

/-- A rank goes through its rounds one after another. -/
theorem roundTime_lt {t u : Nat} (h : t < u)
    (hu : u < (p.rounds w id r).total) : p.roundTime w.size r t < p.roundTime w.size r u := by
  unfold roundTime
  unfold rounds at hu
  cases hfunc : p.func with
  | broadcast =>
    rw [hfunc] at hu
    exact TopologyRing.chainTime_lt h hu
  | reduce =>
    rw [hfunc] at hu
    exact TopologyRing.chainTime_lt h hu
  | _ => exact h

theorem stamp_mono (p : Collective) (w : World H) (id : Nat) (l : Link) {j j' : Nat} (h : j ≤ j') :
    p.stamp w id l j ≤ p.stamp w id l j' := by
  unfold stamp
  split
  · exact TopologyTree.treeTime_mono _ _ _ _ (slot_mono _ _ h)
  · exact TopologyRing.Rounds.stamp_mono _ (fun _ _ => p.roundTime_mono _ _) _ h

/-- **Both ends of a ring connection agree** on the bytes of an operation and on when they are moved. -/
theorem rounds_meet (id : Nat) (hN : 2 ≤ w.size) (hv : p.Valid w.size) (hr : r < w.size) :
    off ((p.rounds w id r).len .out) (p.rounds w id r).total =
      off ((p.rounds w id ((r + 1) % w.size)).len .inn) (p.rounds w id ((r + 1) % w.size)).total ∧
    ∀ j < off ((p.rounds w id r).len .out) (p.rounds w id r).total,
      (p.rounds w id r).stamp (p.roundTime w.size r) .out j =
        (p.rounds w id ((r + 1) % w.size)).stamp (p.roundTime w.size ((r + 1) % w.size)) .inn j := by
  have hbytes : TopologyRing.blockBytes (p.task w id ((r + 1) % w.size)) =
      TopologyRing.blockBytes (p.task w id r) := by
    rw [blockBytes_task, blockBytes_task]
  unfold rounds roundTime
  cases hfunc : p.func with
  | broadcast =>
    have hq := hv.root (Or.inl hfunc)
    exact TopologyRing.chain_meets hN (TopologyRing.back_of_next_rank hr (by omega)) hbytes
  | reduce =>
    have hq : (p.root.toNat + 1) % w.size < w.size := Nat.mod_lt _ (by omega)
    exact TopologyRing.chain_meets hN (TopologyRing.back_of_next_rank hr hq) hbytes
  | allGather => exact TopologyRing.exchange_meets hbytes
  | reduceScatter => exact TopologyRing.exchange_meets hbytes
  | allReduce =>
    refine TopologyRing.Rounds.meets ?_ (fun t _ => TopologyRing.allreduce_len_next hN hr t) _
    exact congrArg (2 * ·) (TopologyRing.totalOps_task r _)
  | send => exact absurd hfunc hv.func.1
  | recv => exact absurd hfunc hv.func.2

/-! ## 3. The contract of an operation -/

theorem Valid.accepted (hv : p.Valid w.size) (hr : r < w.size) : Accepted (p.task w id r) where
  world := by rw [task_worldSize]; omega
  func := by rw [task_func]; exact hv.func
  root h := by
    rw [task_func] at h
    rw [task_root, task_worldSize]
    exact hv.root h
  sends hc hf := by
    rw [task_elemCount] at hc
    rw [task_func] at hf
    rw [task_sendBuf]
    exact hv.sends (by omega) hf r hr
  recvs hc hf := by
    rw [task_elemCount] at hc
    rw [task_func, task_rank, task_root] at hf
    rw [task_recvBuf]
    exact hv.recvs (by omega) r hr (hf.imp_right Eq.symm)

theorem task_topology_ring (hring : p.onTree = false) (r : Nat) :
    (p.task w id r).topology = some (.ring (w.ring r)) := by
  rw [task_topology, hring]
  rfl

theorem task_topology_tree (htree : p.onTree = true) (r : Nat) :
    (p.task w id r).topology = some (.tree (w.tree r)) := by
  rw [task_topology, htree]
  rfl

/-- **A ring operation goes through its rounds.** -/
theorem ring_task (hid : id < w.nChannels) (hring : p.onTree = false) (hv : p.Valid w.size)
    (hcount : 0 < p.elemCount) (hN : 2 ≤ w.size) (hr : r < w.size) :
    ∃ op prep, TopologyRing.RingTask op (p.task w id r) (p.rounds w id r) prep
      (channelLink id r ((r + 1) % w.size)) (channelLink id (back w.size r 1) r) := by
  have W := ring_onRing (p := p) hid hring hN hr
  have htopo : (p.task w id r).topology = some (.ring (w.ring r)) := task_topology_ring hring r
  have hcount' : (p.task w id r).elemCount ≠ 0 := by rw [task_elemCount]; omega
  have hfunc' : (p.task w id r).func = p.func := task_func
  have hsend : p.func ≠ .broadcast → (p.task w id r).sendBuf ≠ 0 := fun h => by
    rw [task_sendBuf]
    exact hv.sends hcount h r hr
  have hrecv : p.func ≠ .reduce ∨ p.root = r → (p.task w id r).recvBuf ≠ 0 := fun h => by
    rw [task_recvBuf]
    exact hv.recvs hcount r hr h
  unfold rounds
  cases hfunc : p.func with
  | broadcast =>
    have hq := hv.root (Or.inl hfunc)
    exact ⟨_, _, TopologyRing.broadcast_task W (hfunc'.trans hfunc) htopo
      (by rw [task_root, Int.toNat_of_nonneg hq.1]) (by omega) hcount'
      (hrecv (Or.inl (by rw [hfunc]; decide)))⟩
  | reduce =>
    have hq := hv.root (Or.inr hfunc)
    refine ⟨_, _, TopologyRing.reduce_task W (hfunc'.trans hfunc) htopo
      (by rw [task_root, Int.toNat_of_nonneg hq.1]) (by omega) hcount'
      (hsend (by rw [hfunc]; decide)) fun h => hrecv (Or.inr ?_)⟩
    rw [task_rank, task_root] at h
    exact h.symm
  | allGather =>
    exact ⟨_, _, TopologyRing.allGather_task W (hfunc'.trans hfunc) htopo hcount'
      ⟨hsend (by rw [hfunc]; decide), hrecv (Or.inl (by rw [hfunc]; decide))⟩⟩
  | reduceScatter =>
    exact ⟨_, _, TopologyRing.reduceScatter_task W (hfunc'.trans hfunc) htopo hcount'
      ⟨hsend (by rw [hfunc]; decide), hrecv (Or.inl (by rw [hfunc]; decide))⟩⟩
  | allReduce =>
    exact ⟨_, _, TopologyRing.allreduce_task W (hfunc'.trans hfunc) htopo hcount'
      (by rw [task_chunkSize]; exact hv.chunk hfunc)
      ⟨hsend (by rw [hfunc]; decide), hrecv (Or.inl (by rw [hfunc]; decide))⟩⟩
  | send => exact absurd hfunc hv.func.1
  | recv => exact absurd hfunc hv.func.2

/-- **A tree operation sits in its rank's seat.** -/
theorem tree_task (hid : id < w.nChannels) (htree : p.onTree = true) (hv : p.Valid w.size)
    (hcount : 0 < p.elemCount) (hN : 2 ≤ w.size) (hr : r < w.size) :
    TopologyTree.TreeTask (p.task w id r) (TopologyTree.seatOf w id r)
      (TopologyTree.treePrep (p.task w id r) (TopologyTree.seatOf w id r)) := by
  have hfunc := hv.tree htree
  have W := TopologyTree.tree_onTree (p := p) hid htree hN hr (hv.chunk hfunc)
  refine TopologyTree.tree_task W (by rw [task_func, hfunc]) (task_topology_tree htree r)
    (TopologyTree.rolesOf_task hid) (TopologyTree.isLeader_task hr)
    (by rw [task_worldSize]; exact_mod_cast hN) (by rw [task_elemCount]; omega) ?_
  rw [task_sendBuf, task_recvBuf]
  exact ⟨hv.sends hcount (by rw [hfunc]; decide) r hr,
    hv.recvs hcount r hr (Or.inl (by rw [hfunc]; decide))⟩

/-- **An operation without a transfer is done at once**: on no elements, or on a single rank. -/
theorem Valid.done_at_once (hv : p.Valid w.size) (hr : r < w.size) (h : p.elemCount = 0 ∨ w.size = 1)
    (m : Mem) : ∃ s, channelSystem.init (p.task w id r) m = .ret s ∧
      channelSystem.done (p.task w id r) s = true := by
  have h' : (p.task w id r).elemCount = 0 ∨ (p.task w id r).worldSize = 1 := by
    rw [task_elemCount, task_worldSize]
    omega
  by_cases htree : p.onTree = true
  · have htopo : (p.task w id r).topology = some (.tree (w.tree r)) := task_topology_tree htree r
    simp only [channelSystem, htopo, Topology.collectiveInit, Topology.collectiveDone]
    exact TopologyTree.done_at_once (hv.accepted hr) (task_func.trans (hv.tree htree)) h' _ _
  · have htopo : (p.task w id r).topology = some (.ring (w.ring r)) :=
      task_topology_ring (Bool.eq_false_iff.mpr htree) r
    simp only [channelSystem, htopo, Topology.collectiveInit, Topology.collectiveDone]
    exact TopologyRing.done_at_once (hv.accepted hr) h' _

/-- A task that is done at once keeps every order. -/
theorem atOnce_paced {task : PlanTask} {ι : Type} [LinearOrder ι]
    (h : ∀ m, ∃ s, channelSystem.init task m = .ret s ∧ channelSystem.done task s = true)
    (σ : Side → Link → Nat → ι) :
    ∃ K : Contract channelSystem task (Terms.none : Terms Link UInt8) (fun _ => True) fun _ => True,
      K.Paced σ := by
  exact ⟨_, Contract.atOnce_paced (f := fun m => (h m).choose) (fun m _ => (h m).choose_spec.1)
    (fun m _ => (h m).choose_spec.2) (fun _ _ => trivial) σ⟩

theorem chunkCount_task (p : Collective) (w : World H) (id r : Nat) :
    TopologyTree.chunkCount (p.task w id r) = TopologyTree.chunkCount (p.task w id 0) := by
  simp only [TopologyTree.chunkCount, task_elemCount, task_chunkSize]

/-- The stamps of a tree operation are the same for the tasks of all ranks. -/
theorem tree_stamp (htree : p.onTree = true) (r : Nat) (l : Link) (j : Nat) :
    p.stamp w id l j = TopologyTree.treeStamp (p.task w id r) (TopologyTree.treeTime
      (TopologyTree.treeForest w id) (TopologyTree.machines w)
      (TopologyTree.chunkCount (p.task w id r))) l j := by
  have hbytes : TopologyTree.chunkBytes (p.task w id 0) =
      TopologyTree.chunkBytes (p.task w id r) := by
    funext c
    simp only [TopologyTree.chunkBytes, TopologyTree.chunkElems, TopologyTree.typeSize,
      task_elemCount, task_chunkSize, task_dtype]
  rw [stamp, if_pos htree, TopologyTree.treeStamp, TopologyTree.treeStamp, hbytes,
    chunkCount_task p w id r]

/-- The stamps of a ring operation are those of both ends. -/
theorem ring_stamp (hring : ¬ p.onTree = true) (hN : 2 ≤ w.size) (hv : p.Valid w.size)
    (hr : r < w.size) {ok : Side → Nat → UInt8 → Prop} {sd : Side} {l : Link} {j : Nat}
    (ho : ((p.rounds w id r).terms (channelLink id r ((r + 1) % w.size))
      (channelLink id (back w.size r 1) r) ok).owns sd l)
    (hj : j < ((p.rounds w id r).terms (channelLink id r ((r + 1) % w.size))
      (channelLink id (back w.size r 1) r) ok).upto sd l) :
    (p.rounds w id r).stamp (p.roundTime w.size r) sd j = p.stamp w id l j := by
  rw [stamp, if_neg hring]
  cases sd with
  | out =>
    obtain rfl : l = channelLink id r ((r + 1) % w.size) := ho
    rfl
  | inn =>
    obtain rfl : l = channelLink id (back w.size r 1) r := ho
    have hprev : back w.size r 1 < w.size := back_lt hr
    obtain ⟨htotal, hstamp⟩ := rounds_meet id hN hv hprev
    rw [next_of_back hr] at htotal hstamp
    have hj : j < if channelLink id (back w.size r 1) r = channelLink id (back w.size r 1) r then
        off ((p.rounds w id r).len .inn) (p.rounds w id r).total else 0 := hj
    rw [if_pos rfl, ← htotal] at hj
    exact (hstamp j hj).symm

/-- **The contract of an operation**: a rank keeps its terms, from any memory, and serves its
    connections in the order of the stamps. -/
theorem contract (hid : id < w.nChannels) (hv : p.Valid w.size) (hr : r < w.size) :
    ∃ K : Contract channelSystem (p.task w id r) (p.terms w id r) (fun _ => True) fun _ => True,
      K.Paced fun _ l j => p.stamp w id l j := by
  by_cases h : p.elemCount = 0 ∨ w.size = 1
  · rw [terms, if_pos h]
    exact atOnce_paced (hv.done_at_once hr h) _
  have hN : 2 ≤ w.size := by omega
  by_cases htree : p.onTree = true
  · rw [terms, if_neg h, if_pos htree]
    have T := tree_task hid htree hv (by omega) hN hr
    have hhangs : TopologyTree.Hangs (TopologyTree.seatOf w id r) (TopologyTree.treeForest w id)
        w.size r _ := TopologyTree.tree_hangs hr
    have htimed := hhangs.timed T.seat
      (fun q hq => TopologyTree.depthOf_le id hq) (TopologyTree.chunkCount (p.task w id r))
    have e : (fun (_ : Side) (l : Link) (j : Nat) => p.stamp w id l j) = fun _ l j => _ :=
      funext fun _ => funext fun l => funext fun j => tree_stamp htree r l j
    rw [e]
    exact ⟨_, T.paced (.account _ _) (fun _ _ => trivial) htimed⟩
  · rw [terms, if_neg h, if_neg htree]
    obtain ⟨op, prep, T⟩ := ring_task hid (Bool.eq_false_iff.mpr htree) hv (by omega) hN hr
    have htime : ∀ t u, t < u → u < (p.rounds w id r).total →
        p.roundTime w.size r t < p.roundTime w.size r u := fun _ _ => roundTime_lt
    have hpaced := T.paced (.account _ _ _) (fun _ (_ : True) => trivial) htime
    refine ⟨_, hpaced.mono fun sd l j sd' l' j' ho hj ho' hj' hlt => ?_⟩
    rw [← ring_stamp htree hN hv hr ho hj, ← ring_stamp htree hN hv hr ho' hj']
    exact hlt

/-- **The terms of an operation join.** -/
theorem terms_joined (hN : 1 ≤ w.size) (hv : p.Valid w.size) : Joined w.size (p.terms w id) := by
  by_cases h : p.elemCount = 0 ∨ w.size = 1
  · rw [show p.terms w id = fun _ => Terms.none from funext fun r => if_pos h]
    exact joined_none w.size
  by_cases htree : p.onTree = true
  · rw [show p.terms w id = fun r => TopologyTree.treeTerms (p.task w id r)
        (TopologyTree.seatOf w id r) fun _ _ _ _ => True from
      funext fun r => (if_neg h).trans (if_pos htree)]
    exact TopologyTree.tree_joined w id p _
  · rw [show p.terms w id = fun r => (p.rounds w id r).terms (channelLink id r ((r + 1) % w.size))
        (channelLink id (back w.size r 1) r) fun _ _ _ => True from
      funext fun r => (if_neg h).trans (if_neg htree)]
    exact ring_joined id (fun r sd => off ((p.rounds w id r).len sd) (p.rounds w id r).total)
      (fun _ _ _ _ => True) (by omega) (fun r hr => (rounds_meet id (by omega) hv hr).1)
      fun _ _ _ _ _ _ => trivial

end Collective

end Worlds

end OriginCCL
