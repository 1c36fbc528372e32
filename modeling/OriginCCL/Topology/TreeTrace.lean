/-
  File:      OriginCCL/Topology/TreeTrace.lean
  Subject:   THE TREE AND P2P STATE MACHINES WITH A LOG.

  The calls of Tree.lean and P2p.lean over states with their logs; without the logs they are those
  calls.

  * `TopologyTree.Traced` -- the calls of a tree task; `collectiveInit_erase`, `collectiveStep_erase`.
  * `TopologyP2p.Traced` -- the calls of a P2P task; `collectiveInit_erase`, `collectiveStep_erase`.
-/
import OriginCCL.Topology.Channel
import OriginCCL.Topology.Trace

namespace OriginCCL

open Net

/-! ## 1. The tree -/

namespace TopologyTree.Traced

/-- A connection that was done is cleared for the next chunk. -/
def clearRecv (i : Nat) (t : Traced) : Traced :=
  if t.1.op.recvDone.get i then (t.1.setRecv i 0 false, t.2 ++ [.clear .inn i]) else t

def clearSend (j : Nat) (t : Traced) : Traced :=
  if t.1.op.sendDone.get j then (t.1.setSend j 0 false, t.2 ++ [.clear .out j]) else t

/-- What a leader does with a chunk that has come in. -/
def takeChunk (task : PlanTask) (roles : List Int) (isLeader : Bool) (i chunk : Nat) (t : Traced) : Traced :=
  if isLeader && isInputRole (roles.getD i 0) then
    t.perform task [.performReduce (temp (i * task.chunkSize * typeSize task))
      ((user task.recvBuf).shift (chunkOffset task chunk)) (chunkElems task chunk)]
  else t

def edgeRecv (task : PlanTask) (roles : List Int) (isLeader : Bool) (l : Link) (i : Nat) :
    Nat → Traced → Call Traced
  | 0, _ => .fail .fuel
  | fuel + 1, t =>
    if t.1.recvChunk i < chunkCount task then do
      let chunk := t.1.recvChunk i
      let t := clearRecv i t
      let (s, progress, done) ← tryRecv l t.1 (recvTarget task isLeader roles i chunk)
        (chunkBytes task chunk) (t.1.op.recvProgress.get i)
      let t : Traced := (s.setRecv i progress done, t.2 ++
        [.transfer .inn i (recvTarget task isLeader roles i chunk) (chunkBytes task chunk) done])
      if !done then pure t
      else
        let t := takeChunk task roles isLeader i chunk t
        edgeRecv task roles isLeader l i fuel (t.1.nextRecvChunk i, t.2)
    else pure t

def pushRecvsFrom (task : PlanTask) (roles : List Int) (isLeader : Bool) :
    List (Link × Nat) → Traced → Call Traced
  | [], t => pure t
  | (l, i) :: rest, t =>
    if recvEligible isLeader (roles.getD i 0) t.1.op.phase then do
      let t ← edgeRecv task roles isLeader l i (chunkCount task + 1) t
      pushRecvsFrom task roles isLeader rest t
    else pushRecvsFrom task roles isLeader rest t

def pushRecvs (task : PlanTask) (roles : List Int) (isLeader : Bool) (t : Traced) : Call Traced :=
  pushRecvsFrom task roles isLeader task.recvTransports.zipIdx t

def edgeSend (task : PlanTask) (isLeader : Bool) (gate : Nat) (l : Link) (j : Nat) :
    Nat → Traced → Call Traced
  | 0, _ => .fail .fuel
  | fuel + 1, t =>
    if t.1.sendChunk j < gate then do
      let chunk := t.1.sendChunk j
      let t := clearSend j t
      let (progress, done) ← trySend l t.1 (sendSource task isLeader chunk) (chunkBytes task chunk)
        (t.1.op.sendProgress.get j)
      let t : Traced := (t.1.setSend j progress done, t.2 ++
        [.transfer .out j (sendSource task isLeader chunk) (chunkBytes task chunk) done])
      if !done then pure t else edgeSend task isLeader gate l j fuel (t.1.nextSendChunk j, t.2)
    else pure t

def pushSendsFrom (task : PlanTask) (roles : List Int) (isLeader : Bool) (gate : Nat) :
    List (Link × Nat) → Traced → Call Traced
  | [], t => pure t
  | (l, j) :: rest, t =>
    if sendEligible isLeader (roles.getD j 0) t.1.op.phase then do
      let t ← edgeSend task isLeader gate l j (gate + 1) t
      pushSendsFrom task roles isLeader gate rest t
    else pushSendsFrom task roles isLeader gate rest t

def pushSends (task : PlanTask) (roles : List Int) (isLeader : Bool) (t : Traced) : Call Traced :=
  pushSendsFrom task roles isLeader (sendGate task roles isLeader t.1) task.sendTransports.zipIdx t

/-- The average that the root of the tree takes before it hands the result down. -/
def downAverage (task : PlanTask) (roles : List Int) (isLeader : Bool) : List Effect :=
  if isLeader ∧ parentEdge roles < 0 ∧ task.reduceOp = .avg then
    [.applyAverage (user task.recvBuf) task.elemCount] else []

def enterDown (task : PlanTask) (roles : List Int) (isLeader : Bool) (t : Traced) : Traced :=
  (TopologyTree.enterDown task roles isLeader t.1, t.2 ++ .assign :: downAverage task roles isLeader)

def advance (task : PlanTask) (roles : List Int) (isLeader : Bool) : Nat → Traced → Call Traced
  | 0, _ => .fail .fuel
  | fuel + 1, t =>
    if t.1.op.phase = kPhaseUp then
      if !upComplete task roles isLeader t.1 then pure t
      else do
        let t ← pushRecvs task roles isLeader (enterDown task roles isLeader t)
        let t ← pushSends task roles isLeader t
        advance task roles isLeader fuel t
    else if t.1.op.phase = kPhaseDown then
      if !downComplete task roles isLeader t.1 then pure t else pure (t.1.setPhase kPhaseDone, t.2)
    else pure t

/-- The input of a task in its receive buffer. -/
def copyInput (task : PlanTask) : List Effect :=
  if task.sendBuf ≠ task.recvBuf then
    [.memcpy (user task.recvBuf) (user task.sendBuf) (task.elemCount * typeSize task)] else []

/-- The average of a task that has no other rank. -/
def aloneAverage (task : PlanTask) : List Effect :=
  if task.reduceOp = .avg then [.applyAverage (user task.recvBuf) task.elemCount] else []

/-- The `temp_buffer` of a leader: one chunk for every input. -/
def scratch (task : PlanTask) (roles : List Int) (t : Traced) : Traced :=
  (t.1.resizeTemp (roles.countP isInputRole * task.chunkSize * typeSize task), t.2)

def treeInit (task : PlanTask) (roles : List Int) (isLeader : Bool) (t : Traced) : Call Traced :=
  let t : Traced := (start task t.1, t.2 ++ [.assign])
  if task.func ≠ .allReduce then .fail .error
  else if task.worldSize ≤ 0 then .fail .error
  else if task.elemCount = 0 then pure (t.1.setPhase kPhaseDone, t.2)
  else if task.sendBuf = 0 ∨ task.recvBuf = 0 then .fail .error
  else if task.worldSize = 1 then
    let t := (t.perform task (copyInput task)).perform task (aloneAverage task)
    pure (t.1.setPhase kPhaseDone, t.2)
  else if task.sendTransports.isEmpty ∨ task.recvTransports.isEmpty then .fail .error
  else do
    let t := if isLeader then (scratch task roles t).perform task (copyInput task) else t
    let t ← pushRecvs task roles isLeader (t.1.setPhase kPhaseUp, t.2)
    let t ← pushSends task roles isLeader t
    advance task roles isLeader 2 t

def collectiveInit (t : TopologyTree) (task : PlanTask) (x : Traced) : Call Traced :=
  if task.func ≠ .allReduce then .fail .error
  else treeInit task (t.rolesOf task) t.isLeader x

/-- The part of `CollectiveStep` behind the start of an unstarted task. -/
def drive (task : PlanTask) (roles : List Int) (isLeader : Bool) (t : Traced) : Call Traced :=
  if t.1.op.phase = kPhaseDone then pure t
  else do
    let t ← pushRecvs task roles isLeader t
    let t ← pushSends task roles isLeader t
    advance task roles isLeader 2 t

def collectiveStep (t : TopologyTree) (task : PlanTask) (_ : CollEvent) (x : Traced) : Call Traced :=
  if x.1.op.phase = kPhaseUnstarted then
    treeInit task (t.rolesOf task) t.isLeader x >>= drive task (t.rolesOf task) t.isLeader
  else drive task (t.rolesOf task) t.isLeader x

/-! ## 2. The tree without the log -/

theorem clearRecv_fst (i : Nat) (t : Traced) :
    (clearRecv i t).1 = if t.1.op.recvDone.get i then t.1.setRecv i 0 false else t.1 := by
  unfold clearRecv
  split <;> rfl

theorem clearSend_fst (j : Nat) (t : Traced) :
    (clearSend j t).1 = if t.1.op.sendDone.get j then t.1.setSend j 0 false else t.1 := by
  unfold clearSend
  split <;> rfl

theorem takeChunk_fst (task : PlanTask) (roles : List Int) (isLeader : Bool) (i chunk : Nat) (t : Traced) :
    (takeChunk task roles isLeader i chunk t).1 =
      if isLeader && isInputRole (roles.getD i 0) then reduceChunk task i chunk t.1 else t.1 := by
  unfold takeChunk
  split <;> rfl

theorem edgeRecv_erase (task : PlanTask) (roles : List Int) (isLeader : Bool) (l : Link) (i fuel : Nat)
    (t : Traced) : (edgeRecv task roles isLeader l i fuel t).map Prod.fst =
      TopologyTree.edgeRecv task roles isLeader l i fuel t.1 := by
  induction fuel generalizing t with
  | zero => rfl
  | succ fuel ih =>
    rw [edgeRecv, TopologyTree.edgeRecv]
    split
    · rw [← clearRecv_fst]
      dsimp only
      rw [Prog.map_bind]
      refine congrArg _ (funext fun ⟨s, progress, done⟩ => ?_)
      cases done with
      | false => rfl
      | true =>
        refine (ih _).trans ?_
        rw [takeChunk_fst]
        rfl
    · rfl

theorem pushRecvsFrom_erase (task : PlanTask) (roles : List Int) (isLeader : Bool)
    (ls : List (Link × Nat)) (t : Traced) : (pushRecvsFrom task roles isLeader ls t).map Prod.fst =
      TopologyTree.pushRecvsFrom task roles isLeader ls t.1 := by
  induction ls generalizing t with
  | nil => rfl
  | cons x rest ih =>
    obtain ⟨l, i⟩ := x
    rw [pushRecvsFrom, TopologyTree.pushRecvsFrom]
    split
    · exact Prog.map_seq (edgeRecv_erase ..) ih
    · exact ih t

theorem edgeSend_erase (task : PlanTask) (isLeader : Bool) (gate : Nat) (l : Link) (j fuel : Nat)
    (t : Traced) : (edgeSend task isLeader gate l j fuel t).map Prod.fst =
      TopologyTree.edgeSend task isLeader gate l j fuel t.1 := by
  induction fuel generalizing t with
  | zero => rfl
  | succ fuel ih =>
    rw [edgeSend, TopologyTree.edgeSend]
    split
    · rw [← clearSend_fst]
      dsimp only
      rw [Prog.map_bind]
      refine congrArg _ (funext fun ⟨progress, done⟩ => ?_)
      cases done with
      | false => rfl
      | true => exact ih _
    · rfl

theorem pushSendsFrom_erase (task : PlanTask) (roles : List Int) (isLeader : Bool) (gate : Nat)
    (ls : List (Link × Nat)) (t : Traced) : (pushSendsFrom task roles isLeader gate ls t).map Prod.fst =
      TopologyTree.pushSendsFrom task roles isLeader gate ls t.1 := by
  induction ls generalizing t with
  | nil => rfl
  | cons x rest ih =>
    obtain ⟨l, j⟩ := x
    rw [pushSendsFrom, TopologyTree.pushSendsFrom]
    split
    · exact Prog.map_seq (edgeSend_erase ..) ih
    · exact ih t

/-- Both sides pushed, and what follows. -/
theorem pushes_erase (task : PlanTask) (roles : List Int) (isLeader : Bool) (t : Traced)
    {f : Traced → Call Traced} {f' : RankState → Call RankState}
    (hf : ∀ t, (f t).map Prod.fst = f' t.1) :
    (pushRecvs task roles isLeader t >>= fun t => pushSends task roles isLeader t >>= f).map Prod.fst =
      TopologyTree.pushRecvs task roles isLeader t.1 >>= fun s =>
        TopologyTree.pushSends task roles isLeader s >>= f' :=
  Prog.map_seq (pushRecvsFrom_erase ..) fun _ => Prog.map_seq (pushSendsFrom_erase ..) hf

theorem advance_erase (task : PlanTask) (roles : List Int) (isLeader : Bool) (fuel : Nat) (t : Traced) :
    (advance task roles isLeader fuel t).map Prod.fst =
      TopologyTree.advance task roles isLeader fuel t.1 := by
  induction fuel generalizing t with
  | zero => rfl
  | succ fuel ih =>
    rw [advance, TopologyTree.advance]
    split_ifs
    · rfl
    · exact pushes_erase task roles isLeader (enterDown task roles isLeader t) ih
    · rfl
    · rfl
    · rfl

theorem treeInit_erase (task : PlanTask) (roles : List Int) (isLeader : Bool) (t : Traced) :
    (treeInit task roles isLeader t).map Prod.fst =
      TopologyTree.treeInit task roles isLeader t.1 := by
  unfold treeInit TopologyTree.treeInit
  simp only [copyInput, aloneAverage]
  split_ifs <;> first | rfl | exact pushes_erase task roles isLeader _ (advance_erase task roles isLeader 2)

/-- **Without its log a first call of a tree task is the call of the code.** -/
theorem collectiveInit_erase (t : TopologyTree) (task : PlanTask) (x : Traced) :
    (collectiveInit t task x).map Prod.fst = t.collectiveInit task x.1 := by
  unfold collectiveInit TopologyTree.collectiveInit
  split
  · rfl
  · exact treeInit_erase ..

/-- **So is a later call.** -/
theorem collectiveStep_erase (t : TopologyTree) (task : PlanTask) (event : CollEvent) (x : Traced) :
    (collectiveStep t task event x).map Prod.fst = t.collectiveStep task event x.1 := by
  have hdrive : ∀ x : Traced, (drive task (t.rolesOf task) t.isLeader x).map Prod.fst =
      if x.1.op.phase = kPhaseDone then pure x.1
      else TopologyTree.pushRecvs task (t.rolesOf task) t.isLeader x.1 >>= fun s =>
        TopologyTree.pushSends task (t.rolesOf task) t.isLeader s >>=
          TopologyTree.advance task (t.rolesOf task) t.isLeader 2 := by
    intro x
    unfold drive
    split
    · rfl
    · exact pushes_erase task _ _ x (advance_erase task _ _ 2)
  unfold collectiveStep TopologyTree.collectiveStep
  dsimp only
  split
  · exact Prog.map_seq (treeInit_erase ..) hdrive
  · exact hdrive x

end TopologyTree.Traced

/-! ## 3. P2P -/

namespace TopologyP2p.Traced

def transfer (task : PlanTask) (t : Traced) : Call Traced :=
  let bytes := task.elemCount * getDataTypeSize task.dtype
  if task.func = .send then
    match task.sendTransports with
    | [] => .fail .error
    | l :: _ => do
      let (progress, done) ← trySend l t.1 (user task.sendBuf) bytes (t.1.op.sendProgress.get 0)
      pure ((t.1.setSend 0 progress done).setPhase (if done then 1 else 0),
        t.2 ++ [.transfer .out 0 (user task.sendBuf) bytes done])
  else
    match task.recvTransports with
    | [] => .fail .error
    | l :: _ => do
      let (s, progress, done) ← tryRecv l t.1 (user task.recvBuf) bytes (t.1.op.recvProgress.get 0)
      pure ((s.setRecv 0 progress done).setPhase (if done then 1 else 0),
        t.2 ++ [.transfer .inn 0 (user task.recvBuf) bytes done])

def collectiveStep (task : PlanTask) (event : CollEvent) (t : Traced) : Call Traced :=
  if collectiveDone t.1 then pure t
  else if (event = .writable) ≠ (task.func = .send) then pure t
  else transfer task t

/-- The cursors `CollectiveInit` starts with. -/
def start (task : PlanTask) (s : RankState) : RankState :=
  { s with op :=
    { sendProgress := .assign task.sendTransports.length 0
      recvProgress := .assign task.recvTransports.length 0
      sendDone := .assign task.sendTransports.length false
      recvDone := .assign task.recvTransports.length false } }

def collectiveInit (task : PlanTask) (t : Traced) : Call Traced :=
  let t : Traced := (start task t.1, t.2 ++ [.assign])
  if task.elemCount = 0 then pure (t.1.setPhase 1, t.2)
  else collectiveStep task (if task.func = .send then .writable else .readable) t

theorem transfer_erase (task : PlanTask) (t : Traced) :
    (transfer task t).map Prod.fst = TopologyP2p.transfer task t.1 := by
  unfold transfer TopologyP2p.transfer
  dsimp only
  split
  · cases task.sendTransports with
    | nil => rfl
    | cons l rest => exact Prog.map_bind ..
  · cases task.recvTransports with
    | nil => rfl
    | cons l rest => exact Prog.map_bind ..

/-- **Without its log a call of a P2P task is the call of the code**, -/
theorem collectiveStep_erase (task : PlanTask) (event : CollEvent) (t : Traced) :
    (collectiveStep task event t).map Prod.fst = TopologyP2p.collectiveStep task event t.1 := by
  unfold collectiveStep TopologyP2p.collectiveStep
  split
  · rfl
  · split
    · rfl
    · exact transfer_erase task t

/-- also the first. -/
theorem collectiveInit_erase (task : PlanTask) (t : Traced) :
    (collectiveInit task t).map Prod.fst = TopologyP2p.collectiveInit task t.1 := by
  unfold collectiveInit TopologyP2p.collectiveInit
  dsimp only
  split
  · rfl
  · exact collectiveStep_erase ..

end TopologyP2p.Traced

end OriginCCL
