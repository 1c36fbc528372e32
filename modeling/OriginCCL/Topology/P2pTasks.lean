/-
  File:      OriginCCL/Topology/P2pTasks.lean
  Subject:   ONE SEND OR RECV over its connection.

  * `p2pSystem` -- the queues of Sends and Recvs of all ranks, each over a memory of its own. A rank has
    one of each, and runs them beside each other.
  * `sendContract`, `recvContract` -- **a Send puts its buffer on the connection, byte by byte, and a Recv
    fills its buffer** with what comes, whatever the kernel takes or gives at a time.
  * `sendContract_paced`, `recvContract_paced` -- the task waits for its connection until it is done.
-/
import OriginCCL.Net.Progress
import OriginCCL.Topology.Channel

namespace OriginCCL

open Net

/-- The tasks of the two P2P queues of all ranks: the node `(r, .out)` sends, `(r, .inn)` receives. Here each
    queue has a memory of its own; `p2pThreads` runs the two of a rank over its one memory. -/
def p2pSystem : System (Nat × Side) Link UInt8 PlanTask RankState Mem CollEvent where
  src l := (l.src, .out)
  dst l := (l.dst, .inn)
  init := channelSystem.init
  step := channelSystem.step
  done := channelSystem.done
  mem := channelSystem.mem
  waits := channelSystem.waits
  event := channelSystem.event

namespace TopologyP2p

/-- The size of a Send or a Recv in bytes. -/
def bytes (task : PlanTask) : Nat := task.elemCount * getDataTypeSize task.dtype

/-- The terms of a task: its bytes at one end of one connection. -/
def terms (sd : Side) (l : Link) (n : Nat) (ok : Nat → UInt8 → Prop) : Terms Link UInt8 where
  owns sd' l' := sd' = sd ∧ l' = l
  upto sd' l' := if sd' = sd ∧ l' = l then n else 0
  byteOk _ _ := ok

theorem bytes_pos {task : PlanTask} (h : task.elemCount ≠ 0) : 0 < bytes task :=
  Nat.mul_pos (Nat.pos_of_ne_zero h) (getDataTypeSize_pos task.dtype)

/-- The state of a task with something to move, before its first transfer. -/
def opened (task : PlanTask) (m : Mem) : RankState where
  op :=
    { sendProgress := .assign task.sendTransports.length 0
      recvProgress := .assign task.recvTransports.length 0
      sendDone := .assign task.sendTransports.length false
      recvDone := .assign task.recvTransports.length false }
  mem := m

section Calls

variable {task : PlanTask}

theorem system_init (htopo : task.topology = some .p2p) (m : Mem) :
    p2pSystem.init task m = collectiveInit task (freshState m) := by
  unfold p2pSystem channelSystem
  dsimp only
  rw [htopo]
  rfl

theorem system_step (htopo : task.topology = some .p2p) (e : CollEvent) (s : RankState) :
    p2pSystem.step task e s = collectiveStep task e s := by
  unfold p2pSystem channelSystem
  dsimp only
  rw [htopo]
  rfl

theorem system_done (htopo : task.topology = some .p2p) (s : RankState) :
    p2pSystem.done task s = collectiveDone s := by
  unfold p2pSystem channelSystem
  dsimp only
  rw [htopo]
  rfl

/-- The first call of a task with something to move is a transfer. -/
theorem collectiveInit_pos (hcount : task.elemCount ≠ 0) (m : Mem) :
    collectiveInit task (freshState m) = transfer task (opened task m) := by
  unfold collectiveInit
  dsimp only
  rw [if_neg hcount]
  show (if collectiveDone (opened task m) = true then _ else _) = _
  rw [if_neg (show ¬ collectiveDone (opened task m) = true from Bool.false_ne_true)]
  split
  · split
    case isTrue h => exact absurd h (by simp [*])
    case isFalse => rfl
  · split
    case isTrue h => exact absurd h (by simp [*])
    case isFalse => rfl

/-- A later call is a transfer if it is for the side of the task. -/
theorem collectiveStep_open {s : RankState} (hs : collectiveDone s = false) (event : CollEvent) :
    collectiveStep task event s =
      if (event = .writable) ≠ (task.func = .send) then pure s else transfer task s := by
  unfold collectiveStep
  rw [if_neg (by rw [hs]; exact Bool.false_ne_true)]

end Calls

/-! ## 1. A Send -/

section Send

variable {task : PlanTask} {l : Link} {m₀ : Mem} {s : RankState} {n : Side → Link → Nat}

/-- The task is a Send over the connection `l`. -/
structure IsSend (task : PlanTask) (l : Link) : Prop where
  topology : task.topology = some .p2p
  func : task.func = .send
  count : task.elemCount ≠ 0
  out : task.sendTransports = [l]
  inn : task.recvTransports = []

/-- A Send between two calls. -/
structure SendAt (task : PlanTask) (l : Link) (m₀ : Mem) (s : RankState) (n : Side → Link → Nat) :
    Prop where
  phase : s.op.phase = 0
  notDone : s.op.sendDone.get 0 = false
  progress : s.op.sendProgress.get 0 = n .out l
  left : n .out l < bytes task
  mem : s.mem = m₀

/-- The terms of a Send: the bytes of its buffer. -/
def sendTerms (task : PlanTask) (l : Link) (m₀ : Mem) : Terms Link UInt8 :=
  terms .out l (bytes task) fun j b => b = m₀ (task.sendBuf + j)

/-- How a call of a Send ends. -/
def SendEnds (task : PlanTask) (l : Link) (m₀ : Mem) (s : RankState) (n : Side → Link → Nat) : Prop :=
  if collectiveDone s then (sendTerms task l m₀).spent n ∧ s.mem = m₀ else SendAt task l m₀ s n

theorem SendEnds.settled (h : SendEnds task l m₀ s n) {Post : Mem → Prop} (hpost : Post m₀) :
    if collectiveDone s then (sendTerms task l m₀).spent n ∧ Post (p2pSystem.mem s)
    else SendAt task l m₀ s n := by
  unfold SendEnds at h
  by_cases hd : collectiveDone s = true
  · rw [if_pos hd] at h ⊢
    rw [show p2pSystem.mem s = m₀ from h.2]
    exact ⟨h.1, hpost⟩
  · rw [if_neg hd] at h ⊢
    exact h

/-- **One transfer of a Send.** -/
theorem send_transfer (hT : IsSend task l) {g : Acct Link} (h : SendAt task l m₀ s g.count) :
    (transfer task s).wp (sendTerms task l m₀)
      (fun s' g' => SendEnds task l m₀ s' g'.count ∧ g'.tried .out l) g := by
  have hleft := h.left
  have hprogress := h.progress
  unfold transfer
  dsimp only
  rw [if_pos hT.func, hT.out]
  dsimp only
  unfold trySend
  rw [Prog.send_bind]
  have hlen : (s.read ((user task.sendBuf).shift (s.op.sendProgress.get 0))
      (task.elemCount * getDataTypeSize task.dtype - s.op.sendProgress.get 0)).length =
      bytes task - g.count .out l := by
    rw [RankState.read_length, hprogress]
    rfl
  refine ⟨⟨rfl, rfl⟩, ?_, fun j hj => ?_, fun k hk => ?_⟩
  · rw [hlen]
    show _ ≤ if _ then _ else _
    rw [if_pos ⟨rfl, rfl⟩]
    omega
  · rw [RankState.read_getElem, hprogress]
    show s.mem (task.sendBuf + g.count .out l + j) = m₀ (task.sendBuf + (g.count .out l + j))
    rw [h.mem, Nat.add_assoc]
  · rw [hlen] at hk ⊢
    have hcount : (g.move .out l (bytes task - g.count .out l) k).count .out l = g.count .out l + k :=
      Acct.move_count_self ..
    refine ⟨?_, Acct.move_tried_self _ _ _ _ (by omega)⟩
    unfold SendEnds
    by_cases hall : g.count .out l + k = bytes task
    · have hdone : (s.op.sendProgress.get 0 + k == task.elemCount * getDataTypeSize task.dtype) = true := by
        rw [hprogress]
        exact beq_iff_eq.mpr hall
      rw [hdone, if_pos rfl, if_pos (show collectiveDone (RankState.setPhase _ 1) = true from rfl)]
      refine ⟨fun sd l' ho => ?_, h.mem⟩
      obtain ⟨rfl, rfl⟩ := ho
      rw [hcount, hall]
      exact (if_pos ⟨rfl, rfl⟩).symm
    · have hdone : (s.op.sendProgress.get 0 + k == task.elemCount * getDataTypeSize task.dtype) = false := by
        rw [hprogress]
        exact beq_eq_false_iff_ne.mpr hall
      rw [hdone, if_neg Bool.false_ne_true,
        if_neg (show ¬ collectiveDone (RankState.setPhase _ 0) = true from Bool.false_ne_true)]
      refine ⟨rfl, Vec.set_get_self .., ?_, ?_, h.mem⟩
      · rw [hcount, ← hprogress]
        exact Vec.set_get_self ..
      · rw [hcount]
        omega

/-- A Send waits for its own connection only. -/
theorem send_waits (hT : IsSend task l) {sd : Side} {l' : Link} (hw : p2pSystem.waits task s sd l') :
    sd = .out ∧ l' = l := by
  cases sd with
  | out => exact ⟨rfl, ((pending_out_iff hT.out).mp hw).1⟩
  | inn =>
    obtain ⟨i, hi, -⟩ := hw
    rw [hT.inn] at hi
    cases hi

/-- **The contract of a Send**: it puts its buffer on the connection and leaves the memory alone. -/
def sendContract (hT : IsSend task l) (m₀ : Mem) (Pre Post : Mem → Prop) (hpre : ∀ m, Pre m → m = m₀)
    (hpost : Post m₀) : Contract p2pSystem task (sendTerms task l m₀) Pre Post where
  Inv s n := SendAt task l m₀ s n
  init m hm := by
    obtain rfl := hpre m hm
    have hstart : SendAt task l m (opened task m) (Acct.zero : Acct Link).count :=
      ⟨rfl, rfl, rfl, bytes_pos hT.count, rfl⟩
    rw [system_init hT.topology, collectiveInit_pos hT.count]
    refine Prog.wp_mono (fun s' g' h => ?_) (send_transfer hT hstart)
    rw [system_done hT.topology]
    refine ⟨h.1.settled hpost, fun _ sd l' hw => ?_⟩
    obtain ⟨rfl, rfl⟩ := send_waits hT hw
    exact h.2
  step s g sd h hd := by
    rw [system_done hT.topology] at hd
    rw [system_step hT.topology, collectiveStep_open hd]
    cases sd with
    | out =>
      rw [if_neg (by simp [p2pSystem, channelSystem, sideEvent, hT.func])]
      refine Prog.wp_mono (fun s' g' h => ?_) (send_transfer hT (g := g.restart) h)
      rw [system_done hT.topology]
      refine ⟨h.1.settled hpost, fun l' hw => ?_⟩
      obtain ⟨-, rfl⟩ := send_waits hT hw
      exact h.2
    | inn =>
      -- the event of the other side changes nothing
      rw [if_pos (by simp [p2pSystem, channelSystem, sideEvent, hT.func])]
      rw [Prog.wp_pure, system_done hT.topology, hd]
      refine ⟨h, fun l' hw => ?_⟩
      obtain ⟨hside, -⟩ := send_waits hT hw
      cases hside

theorem sendContract_paced {ι : Type} [LinearOrder ι] (hT : IsSend task l) (m₀ : Mem)
    (Pre Post : Mem → Prop) (hpre : ∀ m, Pre m → m = m₀) (hpost : Post m₀)
    (σ : Side → Link → Nat → ι) :
    (sendContract hT m₀ Pre Post hpre hpost).Paced σ where
  waits_left s n sd l' h hd hw := by
    obtain ⟨rfl, rfl⟩ := send_waits hT hw
    refine ⟨⟨rfl, rfl⟩, ?_⟩
    show _ < if _ then _ else _
    rw [if_pos ⟨rfl, rfl⟩]
    exact h.left
  waits_some s n h hd := ⟨.out, l, 0, by rw [hT.out]; rfl, h.notDone⟩
  serves s n sd l' h hd ho hlt := by
    obtain ⟨rfl, rfl⟩ := ho
    exact Or.inl ⟨0, by rw [hT.out]; rfl, h.notDone⟩

end Send

/-! ## 2. A Recv -/

section Recv

variable {task : PlanTask} {l : Link} {ok : Nat → UInt8 → Prop} {Pre Post : Mem → Prop} {s : RankState}
  {n : Side → Link → Nat}

/-- The task is a Recv over the connection `l`. -/
structure IsRecv (task : PlanTask) (l : Link) : Prop where
  topology : task.topology = some .p2p
  func : task.func ≠ .send
  count : task.elemCount ≠ 0
  out : task.sendTransports = []
  inn : task.recvTransports = [l]

/-- The memory after the first `n` bytes: they are allowed, and everything else is as it was when the
    task was started. -/
structure Filled (task : PlanTask) (ok : Nat → UInt8 → Prop) (Pre : Mem → Prop) (n : Nat) (m : Mem) :
    Prop where
  got : ∀ j < n, ok j (m (task.recvBuf + j))
  kept : ∃ m₀, Pre m₀ ∧ ∀ x, (x < task.recvBuf ∨ task.recvBuf + bytes task ≤ x) → m x = m₀ x

/-- A Recv between two calls. -/
structure RecvAt (task : PlanTask) (l : Link) (ok : Nat → UInt8 → Prop) (Pre : Mem → Prop)
    (s : RankState) (n : Side → Link → Nat) : Prop where
  phase : s.op.phase = 0
  notDone : s.op.recvDone.get 0 = false
  progress : s.op.recvProgress.get 0 = n .inn l
  left : n .inn l < bytes task
  filled : Filled task ok Pre (n .inn l) s.mem

/-- How a call of a Recv ends. -/
def RecvEnds (task : PlanTask) (l : Link) (ok : Nat → UInt8 → Prop) (Pre : Mem → Prop)
    (s : RankState) (n : Side → Link → Nat) : Prop :=
  if collectiveDone s then (terms .inn l (bytes task) ok).spent n ∧ Filled task ok Pre (bytes task) s.mem
  else RecvAt task l ok Pre s n

theorem RecvEnds.settled (h : RecvEnds task l ok Pre s n)
    (hpost : ∀ m, Filled task ok Pre (bytes task) m → Post m) :
    if collectiveDone s then (terms .inn l (bytes task) ok).spent n ∧ Post (p2pSystem.mem s)
    else RecvAt task l ok Pre s n := by
  unfold RecvEnds at h
  by_cases hd : collectiveDone s = true
  · rw [if_pos hd] at h ⊢
    exact ⟨h.1, hpost _ h.2⟩
  · rw [if_neg hd] at h ⊢
    exact h

/-- The next bytes in their place. -/
theorem Filled.write {m : Mem} {c : Nat} (h : Filled task ok Pre c m) {bs : List UInt8}
    (hle : c + bs.length ≤ bytes task) (hbs : ∀ j (hj : j < bs.length), ok (c + j) bs[j]) :
    Filled task ok Pre (c + bs.length) (overwrite m (task.recvBuf + c) bs) := by
  obtain ⟨m₀, hpre, hkept⟩ := h.kept
  refine ⟨fun j hj => ?_, m₀, hpre, fun x hx => ?_⟩
  · unfold overwrite
    split
    case isTrue hin =>
      have hj' : j - c < bs.length := by omega
      have hok := hbs (j - c) hj'
      rw [show c + (j - c) = j by omega] at hok
      rw [show task.recvBuf + j - (task.recvBuf + c) = j - c by omega, List.getD_eq_getElem _ _ hj']
      exact hok
    case isFalse hout => exact h.got j (by omega)
  · rw [overwrite, if_neg (by omega)]
    exact hkept x hx

/-- **One transfer of a Recv.** -/
theorem recv_transfer (hT : IsRecv task l) {g : Acct Link} (h : RecvAt task l ok Pre s g.count) :
    (transfer task s).wp (terms .inn l (bytes task) ok)
      (fun s' g' => RecvEnds task l ok Pre s' g'.count ∧ g'.tried .inn l) g := by
  have hleft := h.left
  have hprogress := h.progress
  unfold transfer
  dsimp only
  rw [if_neg hT.func, hT.inn]
  dsimp only
  unfold tryRecv
  rw [Prog.recv_bind]
  have hsize : task.elemCount * getDataTypeSize task.dtype - s.op.recvProgress.get 0 =
      bytes task - g.count .inn l := by
    rw [hprogress]
    rfl
  refine ⟨⟨rfl, rfl⟩, ?_, fun bs hbs hok => ?_⟩
  · rw [hsize]
    show _ ≤ if _ then _ else _
    rw [if_pos ⟨rfl, rfl⟩]
    omega
  · rw [hsize] at hbs ⊢
    have hcount : (g.move .inn l (bytes task - g.count .inn l) bs.length).count .inn l =
        g.count .inn l + bs.length := Acct.move_count_self ..
    have hmem : (s.write ((user task.recvBuf).shift (s.op.recvProgress.get 0)) bs).mem =
        overwrite s.mem (task.recvBuf + g.count .inn l) bs := by
      rw [hprogress]
      rfl
    have hfilled := h.filled.write (by omega) hok
    rw [← hmem] at hfilled
    refine ⟨?_, Acct.move_tried_self _ _ _ _ (by omega)⟩
    unfold RecvEnds
    by_cases hall : g.count .inn l + bs.length = bytes task
    · have hdone : (s.op.recvProgress.get 0 + bs.length ==
          task.elemCount * getDataTypeSize task.dtype) = true := by
        rw [hprogress]
        exact beq_iff_eq.mpr hall
      rw [hdone, if_pos rfl, if_pos (show collectiveDone (RankState.setPhase _ 1) = true from rfl)]
      refine ⟨fun sd l' ho => ?_, hall ▸ hfilled⟩
      obtain ⟨rfl, rfl⟩ := ho
      rw [hcount, hall]
      exact (if_pos ⟨rfl, rfl⟩).symm
    · have hdone : (s.op.recvProgress.get 0 + bs.length ==
          task.elemCount * getDataTypeSize task.dtype) = false := by
        rw [hprogress]
        exact beq_eq_false_iff_ne.mpr hall
      rw [hdone, if_neg Bool.false_ne_true,
        if_neg (show ¬ collectiveDone (RankState.setPhase _ 0) = true from Bool.false_ne_true)]
      refine ⟨rfl, Vec.set_get_self .., ?_, ?_, ?_⟩
      · rw [hcount, ← hprogress]
        exact Vec.set_get_self ..
      · rw [hcount]
        omega
      · rw [hcount]
        exact hfilled

/-- A Recv waits for its own connection only. -/
theorem recv_waits (hT : IsRecv task l) {sd : Side} {l' : Link} (hw : p2pSystem.waits task s sd l') :
    sd = .inn ∧ l' = l := by
  cases sd with
  | inn => exact ⟨rfl, ((pending_inn_iff hT.inn).mp hw).1⟩
  | out =>
    obtain ⟨i, hi, -⟩ := hw
    rw [hT.out] at hi
    cases hi

/-- **The contract of a Recv**: it fills its buffer from the connection and leaves the rest of the
    memory alone. -/
def recvContract (hT : IsRecv task l) (ok : Nat → UInt8 → Prop)
    (hpost : ∀ m, Filled task ok Pre (bytes task) m → Post m) :
    Contract p2pSystem task (terms .inn l (bytes task) ok) Pre Post where
  Inv s n := RecvAt task l ok Pre s n
  init m hm := by
    have hstart : RecvAt task l ok Pre (opened task m) (Acct.zero : Acct Link).count :=
      ⟨rfl, rfl, rfl, bytes_pos hT.count, fun _ hj => absurd hj (Nat.not_lt_zero _), m, hm,
        fun _ _ => rfl⟩
    rw [system_init hT.topology, collectiveInit_pos hT.count]
    refine Prog.wp_mono (fun s' g' h => ?_) (recv_transfer hT hstart)
    rw [system_done hT.topology]
    refine ⟨h.1.settled hpost, fun _ sd l' hw => ?_⟩
    obtain ⟨rfl, rfl⟩ := recv_waits hT hw
    exact h.2
  step s g sd h hd := by
    rw [system_done hT.topology] at hd
    rw [system_step hT.topology, collectiveStep_open hd]
    cases sd with
    | inn =>
      rw [if_neg (by simp [p2pSystem, channelSystem, sideEvent, hT.func])]
      refine Prog.wp_mono (fun s' g' h => ?_) (recv_transfer hT (g := g.restart) h)
      rw [system_done hT.topology]
      refine ⟨h.1.settled hpost, fun l' hw => ?_⟩
      obtain ⟨-, rfl⟩ := recv_waits hT hw
      exact h.2
    | out =>
      -- the event of the other side changes nothing
      rw [if_pos (by simp [p2pSystem, channelSystem, sideEvent, hT.func])]
      rw [Prog.wp_pure, system_done hT.topology, hd]
      refine ⟨h, fun l' hw => ?_⟩
      obtain ⟨hside, -⟩ := recv_waits hT hw
      cases hside

theorem recvContract_paced {ι : Type} [LinearOrder ι] (hT : IsRecv task l) (ok : Nat → UInt8 → Prop)
    (hpost : ∀ m, Filled task ok Pre (bytes task) m → Post m) (σ : Side → Link → Nat → ι) :
    (recvContract hT ok hpost).Paced σ where
  waits_left s n sd l' h hd hw := by
    obtain ⟨rfl, rfl⟩ := recv_waits hT hw
    refine ⟨⟨rfl, rfl⟩, ?_⟩
    show _ < if _ then _ else _
    rw [if_pos ⟨rfl, rfl⟩]
    exact h.left
  waits_some s n h hd := ⟨.inn, l, 0, by rw [hT.inn]; rfl, h.notDone⟩
  serves s n sd l' h hd ho hlt := by
    obtain ⟨rfl, rfl⟩ := ho
    exact Or.inl ⟨0, by rw [hT.inn]; rfl, h.notDone⟩

end Recv

/-! ## 3. A task of no elements -/

/-- **A Send or Recv of no elements is done at once**, and its connection need not be there. -/
theorem empty_done (task : PlanTask) (htopo : task.topology = some .p2p) (h : task.elemCount = 0)
    (m : Mem) : p2pSystem.init task m = .ret ((opened task m).setPhase 1) ∧
      p2pSystem.done task ((opened task m).setPhase 1) = true := by
  rw [system_init htopo, system_done htopo]
  refine ⟨?_, rfl⟩
  unfold collectiveInit
  dsimp only
  rw [if_pos h]
  rfl

end TopologyP2p

end OriginCCL
