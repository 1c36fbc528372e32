/-
  File:      OriginCCL/Topology/P2pShared.lean
  Subject:   THE SEND AND THE RECV QUEUE OF A RANK OVER ONE MEMORY.

  The two queues are two threads of one process: a Send reads what is in its buffer when its bytes are
  moved, also if a Recv has put it there.

  * `p2pThreads` -- the queues of all ranks, each rank with one memory.
  * `TopologyP2p.Apart` -- no Send of a rank reads what a Recv of it writes.
  * `TopologyP2p.tame` -- **then the queues do not notice each other**, and each of them may be run over a
    memory of its own, as in `p2pSystem`.
-/
import OriginCCL.Net.Shared
import OriginCCL.Topology.P2pTasks

namespace OriginCCL

open Net

/-- **The two P2P queues of all ranks**: the thread `(r, .out)` sends, `(r, .inn)` receives, and both work on
    the memory of `r`. -/
def p2pThreads : Threads (Nat × Side) Nat Link UInt8 PlanTask RankState CollOpState Mem CollEvent where
  toSystem := p2pSystem
  home v := v.1
  op := RankState.op
  state := RankState.mk
  op_state _ _ := rfl
  mem_state _ _ := rfl
  state_op _ := rfl
  done_state t _ _ _ := by
    change channelSystem.done t _ = channelSystem.done t _
    unfold channelSystem
    dsimp only
    cases t.topology with
    | none => rfl
    | some topo => cases topo <;> rfl
  waits_state _ _ _ _ sd _ := by cases sd <;> exact Iff.rfl

namespace TopologyP2p

/-- The tasks of the queues: Sends and Recvs. -/
structure Queues (tasks : Nat × Side → List PlanTask) : Prop where
  topology : ∀ v, ∀ t ∈ tasks v, t.topology = some .p2p
  func : ∀ v, ∀ t ∈ tasks v, t.func = .send ↔ v.2 = .out

/-- **No Send of a rank reads a byte that a Recv of the rank writes.** -/
def Apart (tasks : Nat × Side → List PlanTask) : Prop :=
  ∀ r, ∀ t ∈ tasks (r, .out), ∀ t' ∈ tasks (r, .inn), ∀ j < bytes t, ∀ j' < bytes t',
    t.sendBuf + j ≠ t'.recvBuf + j'

/-- What a queue sees of the memory of its rank: a Send queue its buffers, a Recv queue everything. -/
def Sees (tasks : Nat × Side → List PlanTask) : Nat × Side → Mem → Mem → Prop
  | (r, .out), m, m' => ∀ t ∈ tasks (r, .out), ∀ j < bytes t, m (t.sendBuf + j) = m' (t.sendBuf + j)
  | (_, .inn), m, m' => m = m'

variable {tasks : Nat × Side → List PlanTask} {r : Nat} {task : PlanTask} {o : CollOpState} {m m' : Mem}

theorem sees_refl (v : Nat × Side) (m : Mem) : Sees tasks v m m := by
  obtain ⟨r, sd⟩ := v
  cases sd with
  | out => exact fun _ _ _ _ => rfl
  | inn => rfl

/-- A call that leaves the memory alone. -/
theorem same_of_mem {v : Nat × Side} (h : Sees tasks v m m') (o : CollOpState) :
    Same p2pThreads (Sees tasks) v m' ⟨o, m⟩ ⟨o, m'⟩ :=
  ⟨rfl, h, fun _ _ _ _ ha => ha⟩

/-- **What a Recv writes, no Send queue sees.** -/
theorem Apart.frame (h : Apart tasks) (ht : task ∈ tasks (r, .inn)) {a : Mem} {pos : Nat}
    {bs : List UInt8} (hlen : pos + bs.length ≤ bytes task) {v : Nat × Side} (hv : v ≠ (r, .inn))
    (hhome : v.1 = r) (hsees : Sees tasks v a m) :
    Sees tasks v a (overwrite m (task.recvBuf + pos) bs) := by
  obtain ⟨r', sd⟩ := v
  obtain rfl : r' = r := hhome
  cases sd with
  | inn => exact absurd rfl hv
  | out =>
    intro t htask j hj
    rw [hsees t htask j hj, overwrite, if_neg]
    rintro ⟨h1, h2⟩
    exact h r' t htask task ht j hj (t.sendBuf + j - task.recvBuf) (by omega) (by omega)

/-- A transfer of a Send reads its buffer only. -/
theorem transfer_send_turn (ht : task ∈ tasks (r, .out)) (hfunc : task.func = .send)
    (h : Sees tasks (r, .out) m m') :
    Turn p2pThreads (Sees tasks) (r, .out) m' (transfer task ⟨o, m⟩) (transfer task ⟨o, m'⟩) := by
  unfold transfer
  dsimp only
  rw [if_pos hfunc, if_pos hfunc]
  cases task.sendTransports with
  | nil => exact .fail _
  | cons l ls =>
    dsimp only
    unfold trySend
    rw [Prog.send_bind, Prog.send_bind]
    have hread : RankState.read ⟨o, m⟩ ((user task.sendBuf).shift (o.sendProgress.get 0))
          (task.elemCount * getDataTypeSize task.dtype - o.sendProgress.get 0) =
        RankState.read ⟨o, m'⟩ ((user task.sendBuf).shift (o.sendProgress.get 0))
          (task.elemCount * getDataTypeSize task.dtype - o.sendProgress.get 0) := by
      refine List.map_congr_left fun j hj => ?_
      have hlt := List.mem_range.mp hj
      change m (task.sendBuf + o.sendProgress.get 0 + j) = m' (task.sendBuf + o.sendProgress.get 0 + j)
      rw [Nat.add_assoc]
      exact h task ht _ (by unfold bytes; omega)
    rw [hread]
    exact .send l _ fun n _ => ⟨_, _, rfl, rfl, same_of_mem h _⟩

/-- A transfer of a Recv writes its buffer only. -/
theorem transfer_recv_turn (hapart : Apart tasks) (ht : task ∈ tasks (r, .inn))
    (hfunc : task.func ≠ .send) :
    Turn p2pThreads (Sees tasks) (r, .inn) m (transfer task ⟨o, m⟩) (transfer task ⟨o, m⟩) := by
  unfold transfer
  dsimp only
  rw [if_neg hfunc]
  cases task.recvTransports with
  | nil => exact .fail _
  | cons l ls =>
    dsimp only
    unfold tryRecv
    rw [Prog.recv_bind]
    refine .recv l _ fun bs hbs => ⟨_, _, rfl, rfl, rfl, rfl, fun v hv hhome a hsees => ?_⟩
    change Sees tasks v a (overwrite m (task.recvBuf + o.recvProgress.get 0) bs)
    by_cases hle : o.recvProgress.get 0 ≤ bytes task
    · exact hapart.frame ht (by unfold bytes at *; omega) hv hhome hsees
    · -- nothing is left to receive
      obtain rfl : bs = [] := List.eq_nil_of_length_eq_zero (by unfold bytes at *; omega)
      have hnone : overwrite m (task.recvBuf + o.recvProgress.get 0) [] = m := by
        funext x
        rw [overwrite, if_neg (by rw [List.length_nil]; omega)]
      rw [hnone]
      exact hsees

/-- A transfer of a task of a queue. -/
theorem transfer_turn (hq : Queues tasks) (hapart : Apart tasks) {v : Nat × Side} (ht : task ∈ tasks v)
    (h : Sees tasks v m m') :
    Turn p2pThreads (Sees tasks) v m' (transfer task ⟨o, m⟩) (transfer task ⟨o, m'⟩) := by
  have hfunc := hq.func v task ht
  obtain ⟨r, sd⟩ := v
  cases sd with
  | out => exact transfer_send_turn ht (hfunc.mpr rfl) h
  | inn =>
    obtain rfl : m = m' := h
    exact transfer_recv_turn hapart ht fun hsend => Side.noConfusion (hfunc.mp hsend)

/-- **Queues that are apart do not notice each other.** -/
theorem tame (hq : Queues tasks) (hapart : Apart tasks) : TameTasks p2pThreads (Sees tasks) tasks where
  init v task ht m m' h := by
    change Turn _ _ v m' (p2pSystem.init task m) (p2pSystem.init task m')
    rw [system_init (hq.topology v task ht), system_init (hq.topology v task ht)]
    by_cases hcount : task.elemCount = 0
    · unfold collectiveInit
      dsimp only
      rw [if_pos hcount, if_pos hcount]
      exact .ret (same_of_mem h _)
    · rw [collectiveInit_pos hcount, collectiveInit_pos hcount]
      exact transfer_turn hq hapart ht h
  step v task ht e o m m' h := by
    change Turn _ _ v m' (p2pSystem.step task e ⟨o, m⟩) (p2pSystem.step task e ⟨o, m'⟩)
    rw [system_step (hq.topology v task ht), system_step (hq.topology v task ht)]
    by_cases hdone : (o.phase == 1) = true
    · unfold collectiveStep collectiveDone
      dsimp only
      rw [if_pos hdone, if_pos hdone]
      exact .ret (same_of_mem h _)
    · have hopen := Bool.not_eq_true _ ▸ hdone
      rw [collectiveStep_open (s := ⟨o, m⟩) hopen, collectiveStep_open (s := ⟨o, m'⟩) hopen]
      by_cases hside : (e = .writable) ≠ (task.func = .send)
      · rw [if_pos hside, if_pos hside]
        exact .ret (same_of_mem h _)
      · rw [if_neg hside, if_neg hside]
        exact transfer_turn hq hapart ht h

end TopologyP2p

end OriginCCL
