/-
  File:      OriginCCL/Topology/TreeInts.lean
  Subject:   THE TREE STATE MACHINE WITH THE `int` CURSORS OF THE SOURCE.

  `recv_chunk` and `send_chunk` are vectors of `int`, read through `static_cast<size_t>` and counted up
  by `++`. The calls of Tree.lean count chunks without a bound; those of this file wrap around.

  * `Ints.collectiveInit`, `Ints.collectiveStep` -- the calls on `int` cursors.
  * `trim` -- a task without the chunks from number `2 ^ 31` on, which an `int` does not count.
  * `collectiveInit_image`, `collectiveStep_image` -- **on `int` cursors a task moves the chunks of its
    trimmed task**; with fewer than `2 ^ 31` chunks it runs as if there were no bound
    (`collectiveInit_same`, `collectiveStep_same`).
-/
import OriginCCL.Base.MachineInts
import OriginCCL.Net.Images
import OriginCCL.Topology.TreeEdges

namespace OriginCCL

open Net Base

namespace RankState

/-- `++s.algo.tree.recv_chunk[i]` on an `int`. What is stored is the `size_t` it is read as. -/
def countRecvChunk (s : RankState) (i : Nat) : RankState :=
  { s with op := { s.op with algo := { s.op.algo with tree := { s.op.algo.tree with
      recvChunk := s.op.algo.tree.recvChunk.set i (toSize (int32 (s.recvChunk i + 1))) } } } }

/-- `++s.algo.tree.send_chunk[i]` on an `int`. -/
def countSendChunk (s : RankState) (j : Nat) : RankState :=
  { s with op := { s.op with algo := { s.op.algo with tree := { s.op.algo.tree with
      sendChunk := s.op.algo.tree.sendChunk.set j (toSize (int32 (s.sendChunk j + 1))) } } } }

end RankState

namespace TopologyTree

/-! ## 1. The calls -/

namespace Ints

/-- The `while` loop of `PushRecvs` on one connection. -/
def edgeRecv (task : PlanTask) (roles : List Int) (isLeader : Bool) (l : Link) (i : Nat) :
    Nat → RankState → Call RankState
  | 0, _ => .fail .fuel
  | fuel + 1, s =>
    if s.recvChunk i < chunkCount task then do
      let chunk := s.recvChunk i
      let s := if s.op.recvDone.get i then s.setRecv i 0 false else s
      let (s, progress, done) ← tryRecv l s (recvTarget task isLeader roles i chunk)
        (chunkBytes task chunk) (s.op.recvProgress.get i)
      let s := s.setRecv i progress done
      if !done then pure s
      else
        let s := if isLeader && isInputRole (roles.getD i 0) then reduceChunk task i chunk s else s
        edgeRecv task roles isLeader l i fuel (s.countRecvChunk i)
    else pure s

def pushRecvsFrom (task : PlanTask) (roles : List Int) (isLeader : Bool) :
    List (Link × Nat) → RankState → Call RankState
  | [], s => pure s
  | (l, i) :: rest, s =>
    if recvEligible isLeader (roles.getD i 0) s.op.phase then do
      let s ← edgeRecv task roles isLeader l i (chunkCount task + 1) s
      pushRecvsFrom task roles isLeader rest s
    else pushRecvsFrom task roles isLeader rest s

def pushRecvs (task : PlanTask) (roles : List Int) (isLeader : Bool) (s : RankState) :
    Call RankState :=
  pushRecvsFrom task roles isLeader task.recvTransports.zipIdx s

/-- The `while` loop of `PushSends` on one connection. -/
def edgeSend (task : PlanTask) (isLeader : Bool) (gate : Nat) (l : Link) (j : Nat) :
    Nat → RankState → Call RankState
  | 0, _ => .fail .fuel
  | fuel + 1, s =>
    if s.sendChunk j < gate then do
      let chunk := s.sendChunk j
      let s := if s.op.sendDone.get j then s.setSend j 0 false else s
      let (progress, done) ← trySend l s (sendSource task isLeader chunk) (chunkBytes task chunk)
        (s.op.sendProgress.get j)
      let s := s.setSend j progress done
      if !done then pure s else edgeSend task isLeader gate l j fuel (s.countSendChunk j)
    else pure s

def pushSendsFrom (task : PlanTask) (roles : List Int) (isLeader : Bool) (gate : Nat) :
    List (Link × Nat) → RankState → Call RankState
  | [], s => pure s
  | (l, j) :: rest, s =>
    if sendEligible isLeader (roles.getD j 0) s.op.phase then do
      let s ← edgeSend task isLeader gate l j (gate + 1) s
      pushSendsFrom task roles isLeader gate rest s
    else pushSendsFrom task roles isLeader gate rest s

def pushSends (task : PlanTask) (roles : List Int) (isLeader : Bool) (s : RankState) :
    Call RankState :=
  pushSendsFrom task roles isLeader (sendGate task roles isLeader s) task.sendTransports.zipIdx s

/-- `Advance`, for at most `fuel` rounds. -/
def advance (task : PlanTask) (roles : List Int) (isLeader : Bool) :
    Nat → RankState → Call RankState
  | 0, _ => .fail .fuel
  | fuel + 1, s =>
    if s.op.phase = kPhaseUp then
      if !upComplete task roles isLeader s then pure s
      else do
        let s ← pushRecvs task roles isLeader (enterDown task roles isLeader s)
        let s ← pushSends task roles isLeader s
        advance task roles isLeader fuel s
    else if s.op.phase = kPhaseDown then
      if !downComplete task roles isLeader s then pure s else pure (s.setPhase kPhaseDone)
    else pure s

def treeInit (task : PlanTask) (roles : List Int) (isLeader : Bool) (s : RankState) :
    Call RankState :=
  let s := start task s
  if task.func ≠ .allReduce then .fail .error
  else if task.worldSize ≤ 0 then .fail .error
  else if task.elemCount = 0 then pure (s.setPhase kPhaseDone)
  else if task.sendBuf = 0 ∨ task.recvBuf = 0 then .fail .error
  else
    let copy (s : RankState) :=
      if task.sendBuf ≠ task.recvBuf then
        s.memcpy (user task.recvBuf) (user task.sendBuf) (task.elemCount * typeSize task)
      else s
    if task.worldSize = 1 then
      let s := copy s
      let s := if task.reduceOp = .avg then
          s.applyAverage (user task.recvBuf) task.elemCount task.dtype task.worldSize
        else s
      pure (s.setPhase kPhaseDone)
    else if task.sendTransports.isEmpty ∨ task.recvTransports.isEmpty then .fail .error
    else do
      let s := if isLeader then
          copy (s.resizeTemp (roles.countP isInputRole * task.chunkSize * typeSize task))
        else s
      let s ← pushRecvs task roles isLeader (s.setPhase kPhaseUp)
      let s ← pushSends task roles isLeader s
      advance task roles isLeader 2 s

def collectiveInit (t : TopologyTree) (task : PlanTask) (s : RankState) : Call RankState :=
  if task.func ≠ .allReduce then .fail .error
  else treeInit task (t.rolesOf task) t.isLeader s

def collectiveStep (t : TopologyTree) (task : PlanTask) (_ : CollEvent) (s : RankState) :
    Call RankState := do
  let roles := t.rolesOf task
  let s ← if s.op.phase = kPhaseUnstarted then treeInit task roles t.isLeader s else pure s
  if s.op.phase = kPhaseDone then pure s
  else do
    let s ← pushRecvs task roles t.isLeader s
    let s ← pushSends task roles t.isLeader s
    advance task roles t.isLeader 2 s

end Ints

/-! ## 2. The chunks an `int` counts -/

/-- The task without the chunks from number `2 ^ 31` on. -/
def trim (task : PlanTask) : PlanTask :=
  { task with elemCount := min task.elemCount (2 ^ 31 * task.chunkSize) }

section Trimmed

variable {task : PlanTask}

theorem trim_of_le (h : task.elemCount ≤ 2 ^ 31 * task.chunkSize) : trim task = task := by
  unfold trim
  rw [Nat.min_eq_left h]

/-- **A trimmed task has as many chunks as an `int` counts.** -/
theorem chunkCount_trim (hc : 1 ≤ task.chunkSize) :
    chunkCount (trim task) = min (chunkCount task) (2 ^ 31) := by
  refine eq_of_forall_lt_iff fun c => ?_
  have htrim : 1 ≤ (trim task).chunkSize := hc
  rw [lt_chunkCount htrim, Nat.lt_min, lt_chunkCount hc]
  change c * task.chunkSize < min task.elemCount (2 ^ 31 * task.chunkSize) ↔ _
  rw [Nat.lt_min, Nat.mul_lt_mul_right hc]

/-- The chunks it has are those of the task. -/
theorem chunkElems_trim {c : Nat} (h : c < 2 ^ 31) : chunkElems (trim task) c = chunkElems task c := by
  have hle : (c + 1) * task.chunkSize ≤ 2 ^ 31 * task.chunkSize := Nat.mul_le_mul_right _ h
  rw [Nat.succ_mul] at hle
  unfold chunkElems trim
  dsimp only
  by_cases hend : c * task.chunkSize ≥ task.elemCount
  · rw [if_pos hend, if_pos (by omega)]
  · by_cases hpos : task.chunkSize = 0
    · rw [hpos, Nat.zero_min, Nat.zero_min, ite_self, ite_self]
    · rw [if_neg hend, if_neg (by omega)]
      omega

theorem chunkBytes_trim {c : Nat} (h : c < 2 ^ 31) : chunkBytes (trim task) c = chunkBytes task c :=
  congrArg (· * typeSize task) (chunkElems_trim h)

end Trimmed

/-! ## 3. Cursors at their bound -/

/-- What is stored for a cursor after `c` chunks: the cursor itself, and after `2 ^ 31` chunks the
    `size_t` of a negative `int`. -/
def clampChunk (c : Nat) : Nat := if c < 2 ^ 31 then c else 2 ^ 64 - 2 ^ 31

theorem clampChunk_lt {c : Nat} (h : c < 2 ^ 31) : clampChunk c = c := if_pos h

theorem clampChunk_end : clampChunk (2 ^ 31) = 2 ^ 64 - 2 ^ 31 := if_neg (Nat.lt_irrefl _)

theorem le_clampChunk {c : Nat} (h : c ≤ 2 ^ 31) : c ≤ clampChunk c := by
  unfold clampChunk
  split <;> omega

/-- **Counting up.** -/
theorem count_clampChunk {c : Nat} (h : c < 2 ^ 31) :
    toSize (int32 (clampChunk c + 1)) = clampChunk (c + 1) := by
  rw [clampChunk_lt h]
  rcases Nat.lt_or_eq_of_le (Nat.succ_le_of_lt h) with hlt | heq
  · have hfits : FitsInt ((c : Int) + 1) := fitsInt_of_nonneg (by omega) (by omega)
    rw [clampChunk_lt hlt, int32_of_fits hfits, toSize_of_nonneg (by omega) (by omega)]
    omega
  · obtain rfl : c = 2 ^ 31 - 1 := by omega
    decide

/-- A stored cursor is below another as the cursors are. -/
theorem clampChunk_lt_iff {c d : Nat} (hc : c ≤ 2 ^ 31) (hd : d ≤ 2 ^ 31) :
    clampChunk c < clampChunk d ↔ c < d := by
  unfold clampChunk
  split <;> split <;> omega

def clampCursors (v : Vec Nat) : Vec Nat := ⟨v.size, fun i => clampChunk (v.get i)⟩

/-- The state with the cursors as they are stored. -/
def clamp (s : RankState) : RankState :=
  { s with op := { s.op with algo := { s.op.algo with tree :=
      { recvChunk := clampCursors s.op.algo.tree.recvChunk
        sendChunk := clampCursors s.op.algo.tree.sendChunk } } } }

theorem clampCursors_set (v : Vec Nat) (i a : Nat) :
    clampCursors (v.set i a) = (clampCursors v).set i (clampChunk a) := by
  refine congrArg (Vec.mk v.size) (funext fun j => ?_)
  by_cases e : j = i
  · subst e
    rw [Vec.set_get_self, Function.update_self]
  · rw [Vec.set_get_ne _ _ e, Function.update_of_ne e]
    rfl

theorem clampCursors_zero (n : Nat) : clampCursors (.assign n 0) = .assign n 0 := rfl

section Clamp

variable {s : RankState}

theorem clamp_write (p : Loc) (bs : List UInt8) : (clamp s).write p bs = clamp (s.write p bs) := by
  obtain ⟨space, a⟩ := p
  cases space <;> rfl

theorem clamp_memcpy (dst src : Loc) (n : Nat) : (clamp s).memcpy dst src n = clamp (s.memcpy dst src n) :=
  clamp_write ..

theorem clamp_forLoop {count : Nat} {body : Nat → RankState → RankState}
    (h : ∀ i s, body i (clamp s) = clamp (body i s)) :
    (clamp s).forLoop count body = clamp (s.forLoop count body) := by
  induction count with
  | zero => rfl
  | succ n ih => rw [RankState.forLoop_succ, RankState.forLoop_succ, ih, h]

theorem clamp_performReduce (send recv : Loc) (count : Nat) (dt : DataType) (op : ReduceOp) :
    (clamp s).performReduce send recv count dt op = clamp (s.performReduce send recv count dt op) :=
  clamp_forLoop fun _ _ => clamp_write ..

theorem clamp_applyAverage (buf : Loc) (count : Nat) (dt : DataType) (worldSize : Int) :
    (clamp s).applyAverage buf count dt worldSize = clamp (s.applyAverage buf count dt worldSize) := by
  unfold RankState.applyAverage
  split
  · rfl
  · exact clamp_forLoop fun _ _ => clamp_write ..

theorem clamp_countRecvChunk {i : Nat} (h : s.recvChunk i < 2 ^ 31) :
    (clamp s).countRecvChunk i = clamp (s.nextRecvChunk i) := by
  have hset : (clampCursors s.op.algo.tree.recvChunk).set i
      (toSize (int32 (clampChunk (s.recvChunk i) + 1))) =
        clampCursors (s.op.algo.tree.recvChunk.set i (s.recvChunk i + 1)) := by
    rw [clampCursors_set, count_clampChunk h]
  exact congrArg (fun v : Vec Nat => { s with op := { s.op with algo := { s.op.algo with tree :=
    { recvChunk := v, sendChunk := clampCursors s.op.algo.tree.sendChunk } } } }) hset

theorem clamp_countSendChunk {j : Nat} (h : s.sendChunk j < 2 ^ 31) :
    (clamp s).countSendChunk j = clamp (s.nextSendChunk j) := by
  have hset : (clampCursors s.op.algo.tree.sendChunk).set j
      (toSize (int32 (clampChunk (s.sendChunk j) + 1))) =
        clampCursors (s.op.algo.tree.sendChunk.set j (s.sendChunk j + 1)) := by
    rw [clampCursors_set, count_clampChunk h]
  exact congrArg (fun v : Vec Nat => { s with op := { s.op with algo := { s.op.algo with tree :=
    { recvChunk := clampCursors s.op.algo.tree.recvChunk, sendChunk := v } } } }) hset

end Clamp

/-! ## 4. The chunks counted so far -/

/-- The task's chunks can be counted: beyond the last one a stored cursor counts no chunk, and what the
    task copies and averages is no longer than what it trims to. -/
structure Countable (task : PlanTask) : Prop where
  chunk_pos : 1 ≤ task.chunkSize
  count_le : chunkCount task ≤ 2 ^ 64 - 2 ^ 31
  trims : task.elemCount ≤ 2 ^ 31 * task.chunkSize ∨ task.sendBuf = task.recvBuf ∧ task.reduceOp ≠ .avg

/-- No cursor is past the last chunk that is counted. -/
structure Counts (task : PlanTask) (s : RankState) : Prop where
  recv : ∀ i, s.recvChunk i ≤ chunkCount (trim task)
  send : ∀ j, s.sendChunk j ≤ chunkCount (trim task)

section Counted

variable {task : PlanTask} {s s' : RankState}

theorem Counts.of_algo (h : Counts task s) (he : s'.op.algo = s.op.algo) : Counts task s' := by
  have hr : s'.recvChunk = s.recvChunk := congrArg (fun a i => a.tree.recvChunk.get i) he
  have hs : s'.sendChunk = s.sendChunk := congrArg (fun a j => a.tree.sendChunk.get j) he
  exact ⟨fun i => hr ▸ h.recv i, fun j => hs ▸ h.send j⟩

theorem Counts.nextRecvChunk (h : Counts task s) {i : Nat} (hlt : s.recvChunk i < chunkCount (trim task)) :
    Counts task (s.nextRecvChunk i) := by
  refine ⟨fun k => ?_, h.send⟩
  change (s.op.algo.tree.recvChunk.set i (s.recvChunk i + 1)).get k ≤ _
  by_cases e : k = i
  · subst e
    rw [Vec.set_get_self]
    exact hlt
  · rw [Vec.set_get_ne _ _ e]
    exact h.recv k

theorem Counts.nextSendChunk (h : Counts task s) {j : Nat} (hlt : s.sendChunk j < chunkCount (trim task)) :
    Counts task (s.nextSendChunk j) := by
  refine ⟨h.recv, fun k => ?_⟩
  change (s.op.algo.tree.sendChunk.set j (s.sendChunk j + 1)).get k ≤ _
  by_cases e : k = j
  · subst e
    rw [Vec.set_get_self]
    exact hlt
  · rw [Vec.set_get_ne _ _ e]
    exact h.send k

variable (hc : Countable task)
include hc

theorem Countable.trim_le : chunkCount (trim task) ≤ 2 ^ 31 := by
  rw [chunkCount_trim hc.chunk_pos]
  exact Nat.min_le_right ..

/-- **The loops stop at the same chunk.** -/
theorem Countable.lt_iff {c : Nat} (h : c ≤ chunkCount (trim task)) :
    clampChunk c < chunkCount task ↔ c < chunkCount (trim task) := by
  have hn := hc.count_le
  rw [chunkCount_trim hc.chunk_pos] at h ⊢
  unfold clampChunk
  split <;> omega

end Counted

/-! ## 5. Transfers -/

section Transfers

variable {task : PlanTask} {s : RankState} {roles : List Int} {isLeader : Bool} {l : Link} {i j : Nat}

theorem tryRecv_image (data : Loc) (size progress : Nat) :
    Prog.Image (Prod.map clamp id) (fun x => x.1.control = s.control) (tryRecv l s data size progress)
      (tryRecv l (clamp s) data size progress) := by
  have hwrite : ∀ bs, (clamp s).write (data.shift progress) bs = clamp (s.write (data.shift progress) bs) :=
    fun bs => clamp_write ..
  constructor
  · refine congrArg (Prog.recv l _) (funext fun r => ?_)
    cases r with
    | none => rfl
    | some bs =>
      change Prog.ret _ = Prog.ret _
      rw [hwrite]
      rfl
  · intro r
    cases r with
    | none => trivial
    | some bs => exact RankState.control_write ..

theorem openRecv_algo (s : RankState) (i : Nat) : (openRecv s i).op.algo = s.op.algo := by
  unfold openRecv
  split <;> rfl

theorem clamp_setRecv (i progress : Nat) (done : Bool) :
    (clamp s).setRecv i progress done = clamp (s.setRecv i progress done) := rfl

theorem clamp_setSend (j progress : Nat) (done : Bool) :
    (clamp s).setSend j progress done = clamp (s.setSend j progress done) := rfl

/-- What is done with a chunk that has come in. -/
theorem clamp_reduced {b : Bool} {c : Nat} (h : c < 2 ^ 31) :
    (if b = true then reduceChunk task i c (clamp s) else clamp s) =
      clamp (if b = true then reduceChunk (trim task) i c s else s) := by
  have hreduce : reduceChunk task i c (clamp s) = clamp (reduceChunk (trim task) i c s) := by
    unfold reduceChunk
    rw [chunkElems_trim h]
    exact clamp_performReduce ..
  rw [hreduce, apply_ite clamp]

theorem openRecv_clamp : openRecv (clamp s) i = clamp (openRecv s i) := by
  rw [openRecv, openRecv, apply_ite clamp]
  rfl

theorem openSend_algo (s : RankState) (j : Nat) : (openSend s j).op.algo = s.op.algo := by
  unfold openSend
  split <;> rfl

theorem openSend_clamp : openSend (clamp s) j = clamp (openSend s j) := by
  rw [openSend, openSend, apply_ite clamp]
  rfl

variable (hc : Countable task)
include hc

/-- **The chunks of a connection on `int` cursors.** -/
theorem edgeRecv_image {fuel fuel' : Nat} (hle : fuel ≤ fuel') (hs : Counts task s)
    (hfuel : chunkCount (trim task) < fuel + s.recvChunk i) :
    Prog.Image clamp (Counts task) (edgeRecv (trim task) roles isLeader l i fuel s)
      (Ints.edgeRecv task roles isLeader l i fuel' (clamp s)) := by
  induction fuel generalizing fuel' s with
  | zero => exact absurd (hs.recv i) (by omega)
  | succ fuel ih =>
    obtain ⟨fuel', rfl⟩ : ∃ k, fuel' = k + 1 := ⟨fuel' - 1, by omega⟩
    rw [edgeRecv, Ints.edgeRecv]
    have hguard : (clamp s).recvChunk i < chunkCount task ↔ s.recvChunk i < chunkCount (trim task) :=
      hc.lt_iff (hs.recv i)
    by_cases hlt : s.recvChunk i < chunkCount (trim task)
    · have hbound : s.recvChunk i < 2 ^ 31 := Nat.lt_of_lt_of_le hlt hc.trim_le
      have hcur : (clamp s).recvChunk i = s.recvChunk i := clampChunk_lt hbound
      rw [if_pos hlt, if_pos (hguard.mpr hlt), hcur]
      dsimp only
      rw [chunkBytes_trim hbound]
      change Prog.Image _ _ (tryRecv l (openRecv s i) (recvTarget task isLeader roles i (s.recvChunk i)) _
          ((openRecv s i).op.recvProgress.get i) >>= _)
        (tryRecv l (openRecv (clamp s) i) _ _ ((openRecv (clamp s) i).op.recvProgress.get i) >>= _)
      rw [openRecv_clamp]
      refine (tryRecv_image (s := openRecv s i) ..).bind fun x hx => ?_
      obtain ⟨s₁, progress, done⟩ := x
      have halgo : (s₁.setRecv i progress done).op.algo = s.op.algo :=
        (congrArg CollOpState.algo hx).trans (openRecv_algo s i)
      dsimp only [Prod.map, id]
      rw [clamp_setRecv]
      generalize s₁.setRecv i progress done = s₂ at halgo ⊢
      by_cases hdone : (!done) = true
      · rw [if_pos hdone, if_pos hdone]
        exact .ret (hs.of_algo halgo)
      · rw [if_neg hdone, if_neg hdone, clamp_reduced hbound]
        generalize hs₃ : (if (isLeader && isInputRole (roles.getD i 0)) = true then
          reduceChunk (trim task) i (s.recvChunk i) s₂ else s₂) = s₃
        have halgo₃ : s₃.op.algo = s.op.algo := by
          rw [← hs₃]
          split
          · exact (congrArg CollOpState.algo (RankState.control_performReduce ..)).trans halgo
          · exact halgo
        have hcount : s₃.recvChunk i = s.recvChunk i := congrArg (fun a => a.tree.recvChunk.get i) halgo₃
        rw [clamp_countRecvChunk (hcount ▸ hbound)]
        refine ih (Nat.le_of_succ_le_succ hle) ((hs.of_algo halgo₃).nextRecvChunk (hcount ▸ hlt)) ?_
        change _ < fuel + (s₃.op.algo.tree.recvChunk.set i (s₃.recvChunk i + 1)).get i
        rw [Vec.set_get_self, hcount]
        omega
    · rw [if_neg hlt, if_neg (mt hguard.mp hlt)]
      exact .ret hs

/-- The number of chunks that may have been sent, with cursors of both kinds. -/
structure Gates (task : PlanTask) (gate gate' : Nat) : Prop where
  le : gate ≤ gate'
  le_count : gate ≤ chunkCount (trim task)
  lt_iff : ∀ c ≤ chunkCount (trim task), clampChunk c < gate' ↔ c < gate

theorem edgeSend_image {gate gate' fuel fuel' : Nat} (hg : Gates task gate gate') (hle : fuel ≤ fuel')
    (hs : Counts task s) (hfuel : gate < fuel + min (s.sendChunk j) gate) :
    Prog.Image clamp (Counts task) (edgeSend (trim task) isLeader gate l j fuel s)
      (Ints.edgeSend task isLeader gate' l j fuel' (clamp s)) := by
  induction fuel generalizing fuel' s with
  | zero => exact absurd (Nat.min_le_right (s.sendChunk j) gate) (by omega)
  | succ fuel ih =>
    obtain ⟨fuel', rfl⟩ : ∃ k, fuel' = k + 1 := ⟨fuel' - 1, by omega⟩
    rw [edgeSend, Ints.edgeSend]
    have hguard : (clamp s).sendChunk j < gate' ↔ s.sendChunk j < gate := hg.lt_iff _ (hs.send j)
    by_cases hlt : s.sendChunk j < gate
    · have hin : s.sendChunk j < chunkCount (trim task) := Nat.lt_of_lt_of_le hlt hg.le_count
      have hbound : s.sendChunk j < 2 ^ 31 := Nat.lt_of_lt_of_le hin hc.trim_le
      have hcur : (clamp s).sendChunk j = s.sendChunk j := clampChunk_lt hbound
      rw [if_pos hlt, if_pos (hguard.mpr hlt), hcur]
      dsimp only
      rw [chunkBytes_trim hbound]
      change Prog.Image _ _ (trySend l (openSend s j) (sendSource task isLeader (s.sendChunk j)) _
          ((openSend s j).op.sendProgress.get j) >>= _)
        (trySend l (openSend (clamp s) j) _ _ ((openSend (clamp s) j).op.sendProgress.get j) >>= _)
      rw [openSend_clamp]
      refine (Prog.Image.same (Prog.ensures_trivial _)).bind fun x _ => ?_
      obtain ⟨progress, done⟩ := x
      have halgo : ((openSend s j).setSend j progress done).op.algo = s.op.algo := openSend_algo s j
      change Prog.Image _ _
        (if (!done) = true then pure ((openSend s j).setSend j progress done)
          else edgeSend (trim task) isLeader gate l j fuel
            (((openSend s j).setSend j progress done).nextSendChunk j))
        (if (!done) = true then pure ((openSend (clamp s) j).setSend j progress done)
          else Ints.edgeSend task isLeader gate' l j fuel'
            (((openSend (clamp s) j).setSend j progress done).countSendChunk j))
      rw [openSend_clamp, clamp_setSend]
      generalize (openSend s j).setSend j progress done = s₂ at halgo ⊢
      by_cases hdone : (!done) = true
      · rw [if_pos hdone, if_pos hdone]
        exact .ret (hs.of_algo halgo)
      · rw [if_neg hdone, if_neg hdone]
        have hcount : s₂.sendChunk j = s.sendChunk j := congrArg (fun a => a.tree.sendChunk.get j) halgo
        rw [clamp_countSendChunk (hcount ▸ hbound)]
        refine ih (Nat.le_of_succ_le_succ hle) ((hs.of_algo halgo).nextSendChunk (hcount ▸ hin)) ?_
        change _ < fuel + min ((s₂.op.algo.tree.sendChunk.set j (s₂.sendChunk j + 1)).get j) gate
        rw [Vec.set_get_self, hcount]
        omega
    · rw [if_neg hlt, if_neg (mt hguard.mp hlt)]
      exact .ret hs

theorem pushRecvsFrom_image (ls : List (Link × Nat)) (hs : Counts task s) :
    Prog.Image clamp (Counts task) (pushRecvsFrom (trim task) roles isLeader ls s)
      (Ints.pushRecvsFrom task roles isLeader ls (clamp s)) := by
  induction ls generalizing s with
  | nil => exact .ret hs
  | cons x rest ih =>
    obtain ⟨l, i⟩ := x
    rw [pushRecvsFrom, Ints.pushRecvsFrom]
    change Prog.Image _ _ _ (if recvEligible isLeader (roles.getD i 0) s.op.phase = true then _ else _)
    by_cases h : recvEligible isLeader (roles.getD i 0) s.op.phase = true
    · rw [if_pos h, if_pos h]
      have hle : chunkCount (trim task) ≤ chunkCount task := by
        rw [chunkCount_trim hc.chunk_pos]
        exact Nat.min_le_left ..
      exact (edgeRecv_image hc (Nat.succ_le_succ hle) hs (by omega)).bind fun s' hs' => ih hs'
    · rw [if_neg h, if_neg h]
      exact ih hs

theorem pushSendsFrom_image {gate gate' : Nat} (hg : Gates task gate gate') (ls : List (Link × Nat))
    (hs : Counts task s) :
    Prog.Image clamp (Counts task) (pushSendsFrom (trim task) roles isLeader gate ls s)
      (Ints.pushSendsFrom task roles isLeader gate' ls (clamp s)) := by
  induction ls generalizing s with
  | nil => exact .ret hs
  | cons x rest ih =>
    obtain ⟨l, j⟩ := x
    rw [pushSendsFrom, Ints.pushSendsFrom]
    change Prog.Image _ _ _ (if sendEligible isLeader (roles.getD j 0) s.op.phase = true then _ else _)
    by_cases h : sendEligible isLeader (roles.getD j 0) s.op.phase = true
    · rw [if_pos h, if_pos h]
      exact (edgeSend_image hc hg (Nat.succ_le_succ hg.le) hs (by omega)).bind fun s' hs' => ih hs'
    · rw [if_neg h, if_neg h]
      exact ih hs

/-- The whole task is a gate of both kinds. -/
theorem gates_count : Gates task (chunkCount (trim task)) (chunkCount task) where
  le := by
    rw [chunkCount_trim hc.chunk_pos]
    exact Nat.min_le_left ..
  le_count := Nat.le_refl _
  lt_iff _ h := hc.lt_iff h

/-- So is a cursor, -/
theorem gates_cursor {c : Nat} (h : c ≤ chunkCount (trim task)) : Gates task c (clampChunk c) where
  le := le_clampChunk (h.trans hc.trim_le)
  le_count := h
  lt_iff _ hd := clampChunk_lt_iff (hd.trans hc.trim_le) (h.trans hc.trim_le)

omit hc in
/-- and the lower of two. -/
theorem Gates.min {g g' e e' : Nat} (h : Gates task g g') (h' : Gates task e e') :
    Gates task (min g e) (min g' e') where
  le := min_le_min h.le h'.le
  le_count := (Nat.min_le_left ..).trans h.le_count
  lt_iff c hc := by rw [Nat.lt_min, Nat.lt_min, h.lt_iff c hc, h'.lt_iff c hc]

theorem gates_minInputPrefix (hs : Counts task s) :
    Gates task (minInputPrefix (trim task) roles s) (minInputPrefix task roles (clamp s)) := by
  unfold minInputPrefix
  generalize List.range roles.length = edges
  have h := gates_count hc
  revert h
  generalize chunkCount (trim task) = g
  generalize chunkCount task = g'
  intro h
  induction edges generalizing g g' with
  | nil => exact h
  | cons i rest ih =>
    rw [List.foldl_cons, List.foldl_cons]
    refine ih _ _ ?_
    split
    · exact h.min (gates_cursor hc (hs.recv i))
    · exact h

theorem gates_sendGate (hs : Counts task s) :
    Gates task (sendGate (trim task) roles isLeader s) (sendGate task roles isLeader (clamp s)) := by
  unfold sendGate
  change Gates task _ (if isLeader = true then (if s.op.phase = kPhaseUp then _ else _) else _)
  split
  · split
    · exact gates_minInputPrefix hc hs
    · dsimp only
      split
      · exact gates_count hc
      · exact gates_cursor hc (hs.recv _)
  · exact gates_count hc

theorem pushRecvs_image (hs : Counts task s) :
    Prog.Image clamp (Counts task) (pushRecvs (trim task) roles isLeader s)
      (Ints.pushRecvs task roles isLeader (clamp s)) := pushRecvsFrom_image hc _ hs

theorem pushSends_image (hs : Counts task s) :
    Prog.Image clamp (Counts task) (pushSends (trim task) roles isLeader s)
      (Ints.pushSends task roles isLeader (clamp s)) := pushSendsFrom_image hc (gates_sendGate hc hs) _ hs

end Transfers

/-! ## 6. Calls -/

section Calls

variable {task : PlanTask} {s : RankState} {roles : List Int} {isLeader : Bool}

/-- The cursors on the way down. -/
def cursorsDown (task : PlanTask) (s : RankState) : RankState :=
  { s with op := { s.op with
      phase := kPhaseDown
      algo := { s.op.algo with tree :=
        { recvChunk := .assign task.recvTransports.length 0
          sendChunk := .assign task.sendTransports.length 0 } }
      recvProgress := .assign task.recvTransports.length 0
      sendProgress := .assign task.sendTransports.length 0
      recvDone := .assign task.recvTransports.length true
      sendDone := .assign task.sendTransports.length true } }

theorem counts_start (s : RankState) : Counts task (start task s) :=
  ⟨fun _ => Nat.zero_le _, fun _ => Nat.zero_le _⟩

variable (hc : Countable task)
include hc

theorem chunksLeft_clamp (p : Int → Bool) {cursor : Nat → Nat}
    (h : ∀ i, cursor i ≤ chunkCount (trim task)) :
    chunksLeft task roles p (fun i => clampChunk (cursor i)) = chunksLeft (trim task) roles p cursor := by
  unfold chunksLeft
  congr 1
  funext i
  rw [decide_eq_decide.mpr (hc.lt_iff (h i))]

theorem upComplete_clamp (hs : Counts task s) :
    upComplete task roles isLeader (clamp s) = upComplete (trim task) roles isLeader s := by
  unfold upComplete
  rw [← chunksLeft_clamp hc isInputRole hs.recv, ← chunksLeft_clamp hc isUpRole hs.send,
    ← chunksLeft_clamp hc (fun _ => true) hs.send]
  rfl

theorem downComplete_clamp (hs : Counts task s) :
    downComplete task roles isLeader (clamp s) = downComplete (trim task) roles isLeader s := by
  unfold downComplete
  rw [← chunksLeft_clamp hc isInputRole hs.send, ← chunksLeft_clamp hc isUpRole hs.recv,
    ← chunksLeft_clamp hc (fun _ => true) hs.recv]
  rfl

omit hc in
theorem enterDown_eq (task : PlanTask) (roles : List Int) (isLeader : Bool) (s : RankState) :
    enterDown task roles isLeader s =
      if isLeader ∧ parentEdge roles < 0 ∧ task.reduceOp = .avg then
        (cursorsDown task s).applyAverage (user task.recvBuf) task.elemCount task.dtype task.worldSize
      else cursorsDown task s := rfl

omit hc in
theorem counts_enterDown (s : RankState) : Counts task (enterDown (trim task) roles isLeader s) := by
  have hzero : Counts task (cursorsDown (trim task) s) := ⟨fun _ => Nat.zero_le _, fun _ => Nat.zero_le _⟩
  rw [enterDown_eq]
  split
  · exact hzero.of_algo (congrArg CollOpState.algo (RankState.control_applyAverage (cursorsDown task s) ..) :)
  · exact hzero

theorem enterDown_clamp (s : RankState) :
    enterDown task roles isLeader (clamp s) = clamp (enterDown (trim task) roles isLeader s) := by
  have hcursors : cursorsDown task (clamp s) = clamp (cursorsDown (trim task) s) := rfl
  rw [enterDown_eq, enterDown_eq, hcursors]
  by_cases h : isLeader = true ∧ parentEdge roles < 0 ∧ task.reduceOp = .avg
  · have hle : task.elemCount ≤ 2 ^ 31 * task.chunkSize := hc.trims.resolve_right fun e => e.2 h.2.2
    rw [trim_of_le hle, if_pos h, if_pos h]
    exact clamp_applyAverage ..
  · exact (if_neg h).trans (congrArg clamp (if_neg h)).symm

theorem advance_image (fuel : Nat) (hs : Counts task s) :
    Prog.Image clamp (Counts task) (advance (trim task) roles isLeader fuel s)
      (Ints.advance task roles isLeader fuel (clamp s)) := by
  induction fuel generalizing s with
  | zero => exact .fail _
  | succ fuel ih =>
    rw [advance, Ints.advance, upComplete_clamp hc hs, downComplete_clamp hc hs, enterDown_clamp hc]
    change Prog.Image _ _ _ (if s.op.phase = kPhaseUp then _ else if s.op.phase = kPhaseDown then _ else _)
    split
    · split
      · exact .ret hs
      · exact (pushRecvs_image hc (counts_enterDown s)).bind fun s₁ hs₁ =>
          (pushSends_image hc hs₁).bind fun s₂ hs₂ => ih hs₂
    · split
      · split
        · exact .ret hs
        · exact .ret (hs.of_algo rfl)
      · exact .ret hs

/-- What `TreeInit` copies. -/
theorem copy_clamp (s : RankState) :
    (if task.sendBuf ≠ task.recvBuf then
      (clamp s).memcpy (user task.recvBuf) (user task.sendBuf) (task.elemCount * typeSize task)
      else clamp s) =
    clamp (if task.sendBuf ≠ task.recvBuf then
      s.memcpy (user task.recvBuf) (user task.sendBuf) ((trim task).elemCount * typeSize task) else s) := by
  by_cases h : task.sendBuf = task.recvBuf
  · rw [if_neg (not_not_intro h), if_neg (not_not_intro h)]
  · rw [if_pos h, if_pos h, trim_of_le (hc.trims.resolve_right fun e => h e.1)]
    exact clamp_memcpy ..

/-- What a single rank averages. -/
theorem average_clamp (s : RankState) :
    (if task.reduceOp = .avg then
      (clamp s).applyAverage (user task.recvBuf) task.elemCount task.dtype task.worldSize else clamp s) =
    clamp (if task.reduceOp = .avg then
      s.applyAverage (user task.recvBuf) (trim task).elemCount task.dtype task.worldSize else s) := by
  by_cases h : task.reduceOp = .avg
  · rw [if_pos h, if_pos h, trim_of_le (hc.trims.resolve_right fun e => e.2 h)]
    exact clamp_applyAverage ..
  · rw [if_neg h, if_neg h]

omit hc in
theorem counts_copy (hs : Counts task s) (dst src : Loc) (n : Nat) :
    Counts task (if task.sendBuf ≠ task.recvBuf then s.memcpy dst src n else s) := by
  split
  · exact hs.of_algo (congrArg CollOpState.algo (RankState.control_memcpy s ..) :)
  · exact hs

omit hc in
theorem counts_average (hs : Counts task s) (buf : Loc) (n : Nat) :
    Counts task (if task.reduceOp = .avg then s.applyAverage buf n task.dtype task.worldSize else s) := by
  split
  · exact hs.of_algo (congrArg CollOpState.algo (RankState.control_applyAverage s ..) :)
  · exact hs

theorem treeInit_image (s : RankState) :
    Prog.Image clamp (Counts task) (treeInit (trim task) roles isLeader s)
      (Ints.treeInit task roles isLeader s) := by
  obtain ⟨s₀, hs₀, hs₀'⟩ : ∃ s₀, start (trim task) s = s₀ ∧ start task s = clamp s₀ := ⟨_, rfl, rfl⟩
  have hstart : Counts task s₀ := hs₀ ▸ counts_start s
  have hempty : (trim task).elemCount = 0 ↔ task.elemCount = 0 := by
    have hpos := hc.chunk_pos
    change min task.elemCount (2 ^ 31 * task.chunkSize) = 0 ↔ _
    omega
  unfold treeInit Ints.treeInit
  dsimp only
  rw [hs₀, hs₀']
  refine .ite Iff.rfl (fun _ => .fail _) fun _ => .ite Iff.rfl (fun _ => .fail _) fun _ =>
    .ite hempty (fun _ => .ret (hstart.of_algo rfl)) fun _ => .ite Iff.rfl (fun _ => .fail _) fun _ =>
      .ite Iff.rfl (fun _ => ?_) fun _ => .ite Iff.rfl (fun _ => .fail _) fun _ => ?_
  · have hcopied := counts_copy hstart (user task.recvBuf) (user task.sendBuf)
      ((trim task).elemCount * typeSize task)
    rw [copy_clamp hc, average_clamp hc]
    exact .ret ((counts_average hcopied (user task.recvBuf) (trim task).elemCount).of_algo rfl)
  · have hinit : Counts task (if isLeader = true then
        (if task.sendBuf ≠ task.recvBuf then
          (s₀.resizeTemp (roles.countP isInputRole * task.chunkSize * typeSize task)).memcpy
            (user task.recvBuf) (user task.sendBuf) ((trim task).elemCount * typeSize task)
        else s₀.resizeTemp (roles.countP isInputRole * task.chunkSize * typeSize task)) else s₀) := by
      split
      · exact counts_copy (Counts.of_algo hstart rfl : Counts task (s₀.resizeTemp _)) ..
      · exact hstart
    have hresize : (clamp s₀).resizeTemp (roles.countP isInputRole * task.chunkSize * typeSize task) =
        clamp (s₀.resizeTemp (roles.countP isInputRole * task.chunkSize * typeSize task)) := rfl
    rw [hresize, copy_clamp hc, ← apply_ite clamp]
    refine (pushRecvs_image (s := RankState.setPhase _ kPhaseUp) hc (hinit.of_algo rfl)).bind
      fun s₁ hs₁ => ?_
    refine (pushSends_image hc hs₁).bind fun s₂ hs₂ => ?_
    exact advance_image hc 2 hs₂

variable (t : TopologyTree)

theorem collectiveInit_image (s : RankState) :
    Prog.Image clamp (Counts task) (t.collectiveInit (trim task) s) (Ints.collectiveInit t task s) :=
  .ite Iff.rfl (fun _ => .fail _) fun _ => treeInit_image hc s

theorem collectiveStep_image (e : CollEvent) (hs : Counts task s) :
    Prog.Image clamp (Counts task) (t.collectiveStep (trim task) e s)
      (Ints.collectiveStep t task e (clamp s)) := by
  have hrest : ∀ s₁, Counts task s₁ → Prog.Image clamp (Counts task)
      (if s₁.op.phase = kPhaseDone then pure s₁
        else pushRecvs (trim task) (t.rolesOf task) t.isLeader s₁ >>= fun s₂ =>
          pushSends (trim task) (t.rolesOf task) t.isLeader s₂ >>=
            advance (trim task) (t.rolesOf task) t.isLeader 2)
      (if (clamp s₁).op.phase = kPhaseDone then pure (clamp s₁)
        else Ints.pushRecvs task (t.rolesOf task) t.isLeader (clamp s₁) >>= fun s₂ =>
          Ints.pushSends task (t.rolesOf task) t.isLeader s₂ >>=
            Ints.advance task (t.rolesOf task) t.isLeader 2) := by
    intro s₁ hs₁
    refine .ite Iff.rfl (fun _ => .ret hs₁) fun _ => ?_
    refine (pushRecvs_image hc hs₁).bind fun s₂ hs₂ => ?_
    refine (pushSends_image hc hs₂).bind fun s₃ hs₃ => ?_
    exact advance_image hc 2 hs₃
  unfold collectiveStep Ints.collectiveStep
  dsimp only
  refine .ite Iff.rfl (fun _ => ?_) fun _ => hrest s hs
  exact (treeInit_image hc s).bind hrest

omit hc in
theorem countable_of_lt (hpos : 1 ≤ task.chunkSize) (hlt : chunkCount task < 2 ^ 31) :
    Countable task ∧ trim task = task := by
  have hle : task.elemCount ≤ 2 ^ 31 * task.chunkSize := by
    by_contra hover
    exact absurd ((lt_chunkCount hpos).mpr (Nat.lt_of_not_ge hover)) (by omega)
  exact ⟨⟨hpos, by omega, Or.inl hle⟩, trim_of_le hle⟩

omit hc in
/-- Cursors below `2 ^ 31` are stored as they are. -/
theorem clamp_eq (hlt : chunkCount (trim task) < 2 ^ 31) (hs : Counts task s) : clamp s = s := by
  have hrecv : clampCursors s.op.algo.tree.recvChunk = s.op.algo.tree.recvChunk :=
    congrArg (Vec.mk _) (funext fun i => clampChunk_lt (Nat.lt_of_le_of_lt (hs.recv i) hlt))
  have hsend : clampCursors s.op.algo.tree.sendChunk = s.op.algo.tree.sendChunk :=
    congrArg (Vec.mk _) (funext fun j => clampChunk_lt (Nat.lt_of_le_of_lt (hs.send j) hlt))
  unfold clamp
  rw [hrecv, hsend]

omit hc in
/-- **A task of fewer than `2 ^ 31` chunks**, on `int` cursors and on unbounded ones. -/
theorem collectiveInit_same (hpos : 1 ≤ task.chunkSize) (hlt : chunkCount task < 2 ^ 31) (s : RankState) :
    Prog.Image id (Counts task) (t.collectiveInit task s) (Ints.collectiveInit t task s) := by
  obtain ⟨hc, htrim⟩ := countable_of_lt hpos hlt
  have h := collectiveInit_image hc t s
  rw [htrim] at h
  exact h.fixed fun s' hs' => clamp_eq (htrim.symm ▸ hlt) hs'

omit hc in
theorem collectiveStep_same (hpos : 1 ≤ task.chunkSize) (hlt : chunkCount task < 2 ^ 31) (e : CollEvent)
    (hs : Counts task s) :
    Prog.Image id (Counts task) (t.collectiveStep task e s) (Ints.collectiveStep t task e s) := by
  obtain ⟨hc, htrim⟩ := countable_of_lt hpos hlt
  have h := collectiveStep_image hc t e hs
  rw [htrim, clamp_eq (htrim.symm ▸ hlt) hs] at h
  exact h.fixed fun s' hs' => clamp_eq (htrim.symm ▸ hlt) hs'

end Calls

end TopologyTree

end OriginCCL
