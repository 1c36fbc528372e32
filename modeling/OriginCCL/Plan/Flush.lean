/-
  File:      OriginCCL/Plan/Flush.lean
  Subject:   GROUPS (`Communicator::GroupStart`, `GroupEnd`, `Submit`, `Flush`).

  * `CommunicatorState.flush`, `groupStart`, `groupEnd`, `submit` -- the calls. What the network and the
    executors do is a parameter, `FlushOutcome`.
  * `Session` -- a communicator with the submissions it has accepted and the batches it has flushed.
  * `group_batches` -- **the batches are the accepted submissions, cut where the depth returns to zero**.
-/
import OriginCCL.Plan.Planner

namespace OriginCCL

/-! ## 1. The calls -/

/-- What a flush meets: the connections of the P2P rounds, and whether the executors succeed. -/
structure FlushOutcome where
  net : Int → Planner.RoundOutcome
  run : CollPlan → Bool
  runDynamic : CollPlan → Bool

/-- What a call leaves: the communicator, the batch it handed to `Flush`, and what it returns, or that
    it throws. -/
structure Called where
  comm : CommunicatorState
  batch : Option (List CollTask) := none
  result : Except PlanFault Bool

namespace CommunicatorState

/-- `static_cast<size_t>(config.n_channels)` -/
def configChannels (comm : CommunicatorState) : Nat := (comm.nChannels % 2 ^ 64).toNat

/-- A plan and what runs it; a plan that is refused makes the flush return false. -/
def execute (planned : CommunicatorState × Except PlanFault CollPlan)
    (run : CommunicatorState → CollPlan → CommunicatorState × Except PlanFault Bool) :
    CommunicatorState × Except PlanFault Bool :=
  match planned with
  | (comm, .ok plan) => run comm plan
  | (comm, .error .rejected) => (comm, .ok false)
  | (comm, .error .outOfRange) => (comm, .error .outOfRange)

/-- `Flush` after the tasks are taken from the queue. -/
def flushTasks (comm : CommunicatorState) (tasks : List CollTask) (outcome : FlushOutcome) :
    CommunicatorState × Except PlanFault Bool :=
  match Planner.sortTasks tasks comm.rank comm.worldSize with
  | none => (comm, .ok false)
  | some tasks =>
    let wantDynamic := comm.dynamicAvailable && Planner.isCollectiveBatch tasks
    execute (Planner.plan comm tasks wantDynamic outcome.net) fun comm plan =>
      if wantDynamic then
        if plan.slices.length > comm.configChannels then (comm, .ok (outcome.runDynamic plan))
        else execute (Planner.plan comm tasks false outcome.net) fun comm plan =>
          (comm, .ok (outcome.run plan))
      else (comm, .ok (outcome.run plan))

/-- `Flush` -/
def flush (comm : CommunicatorState) (outcome : FlushOutcome) : Called :=
  let tasks := comm.pendingTasks
  let flushed := flushTasks { comm with pendingTasks := [] } tasks outcome
  { comm := flushed.1, batch := some tasks, result := flushed.2 }

/-- `GroupStart`; the depth is an `int` of the source, without its bound. -/
def groupStart (comm : CommunicatorState) : Called :=
  { comm := { comm with groupDepth := comm.groupDepth + 1 }, result := .ok true }

/-- `GroupEnd` -/
def groupEnd (comm : CommunicatorState) (outcome : FlushOutcome) : Called :=
  if comm.groupDepth ≤ 0 then { comm := comm, result := .ok false }
  else
    let comm := { comm with groupDepth := comm.groupDepth - 1 }
    if comm.groupDepth > 0 then { comm := comm, result := .ok true } else comm.flush outcome

/-- The check of `Submit`. -/
def accepts (comm : CommunicatorState) (task : CollTask) : Bool :=
  Planner.isP2p task.func || Planner.validateCollectiveTask task comm.rank comm.worldSize

/-- `Submit` -/
def submit (comm : CommunicatorState) (task : CollTask) (outcome : FlushOutcome) : Called :=
  if comm.accepts task then
    let comm := { comm with pendingTasks := comm.pendingTasks ++ [task] }
    if comm.groupDepth = 0 then comm.flush outcome else { comm := comm, result := .ok true }
  else { comm := comm, result := .ok false }

end CommunicatorState

/-- A call of a communicator; every operation calls `Submit` with its task. -/
inductive GroupCall where
  | groupStart
  | groupEnd
  | submit (task : CollTask)

namespace CommunicatorState

def call (comm : CommunicatorState) (c : GroupCall) (outcome : FlushOutcome) : Called :=
  match c with
  | .groupStart => comm.groupStart
  | .groupEnd => comm.groupEnd outcome
  | .submit task => comm.submit task outcome

/-- The submission a call adds to the queue. -/
def submitted (comm : CommunicatorState) : GroupCall → List CollTask
  | .groupStart => []
  | .groupEnd => []
  | .submit task => if comm.accepts task then [task] else []

/-- How a call changes the depth. -/
def depthAfter (comm : CommunicatorState) : GroupCall → Int
  | .groupStart => comm.groupDepth + 1
  | .groupEnd => if comm.groupDepth ≤ 0 then comm.groupDepth else comm.groupDepth - 1
  | .submit _ => comm.groupDepth

end CommunicatorState

/-! ## 2. One call -/

section Calls

variable {comm comm' : CommunicatorState} {outcome : FlushOutcome} {c : GroupCall}

/-- The communicators differ in their channels only. -/
def SameGroup (comm comm' : CommunicatorState) : Prop :=
  ∃ channels, comm' = { comm with channels := channels }

theorem SameGroup.refl (comm : CommunicatorState) : SameGroup comm comm := ⟨comm.channels, rfl⟩

theorem SameGroup.trans {comm'' : CommunicatorState} (h : SameGroup comm comm')
    (h' : SameGroup comm' comm'') : SameGroup comm comm'' := by
  obtain ⟨channels, rfl⟩ := h
  obtain ⟨channels', rfl⟩ := h'
  exact ⟨channels', rfl⟩

namespace Planner

theorem sameGroup_prepareRound (comm : CommunicatorState) (sends recvs : List CollTask)
    (outcome : RoundOutcome) : SameGroup comm (prepareRound comm sends recvs outcome).1 := by
  unfold prepareRound
  split
  · split
    · exact SameGroup.refl comm
    · exact ⟨_, rfl⟩
  · exact SameGroup.refl comm

theorem sameGroup_planP2pRound (comm : CommunicatorState) (tasks : List CollTask) (round : Int)
    (plan : CollPlan) (outcome : RoundOutcome) :
    SameGroup comm (planP2pRound comm tasks round plan outcome).1 := by
  have h := sameGroup_prepareRound comm (roundTasks comm tasks .send round)
    (roundTasks comm tasks .recv round) outcome
  unfold planP2pRound
  dsimp only
  split
  · exact SameGroup.refl comm
  · split
    · rename_i e
      rw [e] at h
      exact h
    · rename_i e
      rw [e] at h
      exact h

theorem sameGroup_planRounds (tasks : List CollTask) (net : Int → RoundOutcome) (rounds : List Int)
    (comm : CommunicatorState) (plan : CollPlan) :
    SameGroup comm (planRounds tasks net rounds comm plan).1 := by
  induction rounds generalizing comm plan with
  | nil => exact SameGroup.refl comm
  | cons round rounds ih =>
    have h := sameGroup_planP2pRound comm tasks round plan (net round)
    rw [planRounds]
    split
    · rename_i e
      rw [e] at h
      exact h.trans (ih _ _)
    · rename_i e
      rw [e] at h
      exact h

/-- **Planning leaves the depth and the queue alone.** -/
theorem sameGroup_plan (comm : CommunicatorState) (tasks : List CollTask) (dynamic : Bool)
    (net : Int → RoundOutcome) : SameGroup comm (plan comm tasks dynamic net).1 := by
  unfold plan
  split
  · dsimp only
    split
    · exact SameGroup.refl comm
    · split
      · exact sameGroup_planRounds ..
      · exact SameGroup.refl comm
  · exact SameGroup.refl comm

end Planner

namespace CommunicatorState

theorem sameGroup_execute {planned : CommunicatorState × Except PlanFault CollPlan}
    {run : CommunicatorState → CollPlan → CommunicatorState × Except PlanFault Bool}
    (h : SameGroup comm planned.1) (hrun : ∀ comm plan, SameGroup comm (run comm plan).1) :
    SameGroup comm (execute planned run).1 := by
  unfold execute
  split
  · exact h.trans (hrun _ _)
  · exact h
  · exact h

theorem sameGroup_flushTasks (comm : CommunicatorState) (tasks : List CollTask)
    (outcome : FlushOutcome) : SameGroup comm (comm.flushTasks tasks outcome).1 := by
  unfold flushTasks
  split
  · exact SameGroup.refl comm
  · refine sameGroup_execute (Planner.sameGroup_plan ..) fun comm plan => ?_
    split
    · split
      · exact SameGroup.refl comm
      · exact sameGroup_execute (Planner.sameGroup_plan ..) fun comm _ => SameGroup.refl comm
    · exact SameGroup.refl comm

/-- **A flush takes the whole queue**, and succeeds or not with an empty one. -/
theorem flush_spec (comm : CommunicatorState) (outcome : FlushOutcome) :
    (comm.flush outcome).batch = some comm.pendingTasks ∧
      (comm.flush outcome).comm.groupDepth = comm.groupDepth ∧
      (comm.flush outcome).comm.pendingTasks = [] := by
  obtain ⟨channels, h⟩ := sameGroup_flushTasks { comm with pendingTasks := [] } comm.pendingTasks outcome
  have h : (comm.flush outcome).comm = { comm with pendingTasks := [], channels := channels } := h
  rw [h]
  exact ⟨rfl, rfl, rfl⟩

/-- The calls that flush: the end of the outermost group, and an operation outside a group. -/
def Flushes (comm : CommunicatorState) : GroupCall → Prop
  | .groupStart => False
  | .groupEnd => comm.groupDepth = 1
  | .submit task => comm.accepts task = true ∧ comm.groupDepth = 0

/-- A call that flushes hands over the queue, with its own submission at the end. -/
theorem call_flush (h : comm.Flushes c) (outcome : FlushOutcome) :
    (comm.call c outcome).batch = some (comm.pendingTasks ++ comm.submitted c) ∧
      (comm.call c outcome).comm.groupDepth = 0 ∧ (comm.call c outcome).comm.pendingTasks = [] := by
  cases c with
  | groupStart => exact h.elim
  | groupEnd =>
    have h : comm.groupDepth = 1 := h
    have e : comm.call .groupEnd outcome =
        ({ comm with groupDepth := comm.groupDepth - 1 } : CommunicatorState).flush outcome := by
      have hzero : ¬ comm.groupDepth - 1 > 0 := by omega
      show comm.groupEnd outcome = _
      rw [groupEnd, if_neg (by omega)]
      exact if_neg hzero
    obtain ⟨h1, h2, h3⟩ := flush_spec { comm with groupDepth := comm.groupDepth - 1 } outcome
    rw [e]
    refine ⟨?_, ?_, h3⟩
    · rw [h1, submitted, List.append_nil]
    · rw [h2]
      show comm.groupDepth - 1 = 0
      omega
  | submit task =>
    obtain ⟨hacc, hdepth⟩ := h
    have e : comm.call (.submit task) outcome =
        ({ comm with pendingTasks := comm.pendingTasks ++ [task] } : CommunicatorState).flush
          outcome := by
      show comm.submit task outcome = _
      rw [submit, if_pos hacc]
      exact if_pos hdepth
    obtain ⟨h1, h2, h3⟩ :=
      flush_spec { comm with pendingTasks := comm.pendingTasks ++ [task] } outcome
    rw [e]
    refine ⟨?_, h2.trans hdepth, h3⟩
    rw [h1, submitted, if_pos hacc]

/-- Every other call adds its submission to the queue, if it has one. -/
theorem call_keep (h : ¬ comm.Flushes c) (outcome : FlushOutcome) :
    (comm.call c outcome).batch = none ∧
      (comm.call c outcome).comm.pendingTasks = comm.pendingTasks ++ comm.submitted c ∧
      (comm.call c outcome).comm.groupDepth = comm.depthAfter c := by
  cases c with
  | groupStart => exact ⟨rfl, (List.append_nil _).symm, rfl⟩
  | groupEnd =>
    have h : comm.groupDepth ≠ 1 := h
    show (comm.groupEnd outcome).batch = _ ∧ (comm.groupEnd outcome).comm.pendingTasks = _ ∧
      (comm.groupEnd outcome).comm.groupDepth = _
    rw [groupEnd, submitted, depthAfter, List.append_nil]
    by_cases hdepth : comm.groupDepth ≤ 0
    · rw [if_pos hdepth, if_pos hdepth]
      exact ⟨rfl, rfl, rfl⟩
    · have hinner : comm.groupDepth - 1 > 0 := by omega
      rw [if_neg hdepth, if_neg hdepth]
      dsimp only
      rw [if_pos hinner]
      exact ⟨rfl, rfl, rfl⟩
  | submit task =>
    show (comm.submit task outcome).batch = _ ∧ (comm.submit task outcome).comm.pendingTasks = _ ∧
      (comm.submit task outcome).comm.groupDepth = _
    rw [submit, submitted, depthAfter]
    by_cases hacc : comm.accepts task = true
    · have hdepth : comm.groupDepth ≠ 0 := fun h0 => h ⟨hacc, h0⟩
      rw [if_pos hacc, if_pos hacc]
      dsimp only
      rw [if_neg hdepth]
      exact ⟨rfl, rfl, rfl⟩
    · rw [if_neg hacc, if_neg hacc, List.append_nil]
      exact ⟨rfl, rfl, rfl⟩

end CommunicatorState

end Calls

/-! ## 3. Sessions -/

/-- A communicator in use: the submissions it has accepted, and the batches it has handed to `Flush`. -/
structure Session where
  comm : CommunicatorState
  accepted : List CollTask := []
  batches : List (List CollTask) := []

namespace Session

def call (s : Session) (c : GroupCall × FlushOutcome) : Session :=
  { comm := (s.comm.call c.1 c.2).comm
    accepted := s.accepted ++ s.comm.submitted c.1
    batches := s.batches ++ (s.comm.call c.1 c.2).batch.toList }

/-- The session after some calls. -/
def after (s : Session) (calls : List (GroupCall × FlushOutcome)) : Session := calls.foldl call s

/-- Every submission is in one batch or waits, and outside a group none waits. -/
structure Inv (s : Session) : Prop where
  depth : 0 ≤ s.comm.groupDepth
  idle : s.comm.groupDepth = 0 → s.comm.pendingTasks = []
  queue : s.batches.flatten ++ s.comm.pendingTasks = s.accepted

section Sessions

variable {s : Session}

/-- **One call keeps the books.** -/
theorem Inv.call (h : s.Inv) (c : GroupCall × FlushOutcome) : (s.call c).Inv := by
  by_cases hf : s.comm.Flushes c.1
  · obtain ⟨h1, h2, h3⟩ := CommunicatorState.call_flush hf c.2
    refine ⟨Int.le_of_eq h2.symm, fun _ => h3, ?_⟩
    show (s.batches ++ (s.comm.call c.1 c.2).batch.toList).flatten ++
      (s.comm.call c.1 c.2).comm.pendingTasks = s.accepted ++ s.comm.submitted c.1
    rw [h1, h3, ← h.queue]
    simp
  · obtain ⟨h1, h2, h3⟩ := CommunicatorState.call_keep hf c.2
    have hdepth := h.depth
    refine ⟨?_, fun h0 => ?_, ?_⟩
    · show 0 ≤ (s.comm.call c.1 c.2).comm.groupDepth
      rw [h3]
      unfold CommunicatorState.depthAfter
      split
      · omega
      · split <;> omega
      · omega
    · have h0 : (s.comm.call c.1 c.2).comm.groupDepth = 0 := h0
      show (s.comm.call c.1 c.2).comm.pendingTasks = []
      rw [h3] at h0
      rw [h2]
      obtain ⟨c, o⟩ := c
      cases c with
      | groupStart =>
        have h0 : s.comm.groupDepth + 1 = 0 := h0
        omega
      | groupEnd =>
        have hne : s.comm.groupDepth ≠ 1 := hf
        have h0 : (if s.comm.groupDepth ≤ 0 then s.comm.groupDepth else s.comm.groupDepth - 1) = 0 := h0
        split at h0
        · rw [h.idle h0]
          rfl
        · omega
      | submit task =>
        have h0 : s.comm.groupDepth = 0 := h0
        have hrej : ¬ s.comm.accepts task = true := fun hacc => hf ⟨hacc, h0⟩
        rw [h.idle h0, CommunicatorState.submitted, if_neg hrej]
        rfl
    · show (s.batches ++ (s.comm.call c.1 c.2).batch.toList).flatten ++
        (s.comm.call c.1 c.2).comm.pendingTasks = s.accepted ++ s.comm.submitted c.1
      rw [h1, h2, ← h.queue]
      simp

/-- The books after any calls. -/
theorem Inv.after (h : s.Inv) (calls : List (GroupCall × FlushOutcome)) : (s.after calls).Inv := by
  induction calls generalizing s with
  | nil => exact h
  | cons c calls ih => exact ih (h.call c)

/-- A call that leaves a group open flushes nothing. -/
theorem call_open {c : GroupCall × FlushOutcome} (h : 0 < (s.call c).comm.groupDepth) :
    (s.call c).batches = s.batches := by
  have hf : ¬ s.comm.Flushes c.1 := by
    intro hf
    have h0 : (s.call c).comm.groupDepth = 0 := (CommunicatorState.call_flush hf c.2).2.1
    omega
  show s.batches ++ (s.comm.call c.1 c.2).batch.toList = s.batches
  rw [(CommunicatorState.call_keep hf c.2).1]
  exact List.append_nil _

/-- **While a group is open nothing is flushed.** -/
theorem after_open (calls : List (GroupCall × FlushOutcome))
    (h : ∀ k ≤ calls.length, 0 < (s.after (calls.take k)).comm.groupDepth) :
    (s.after calls).batches = s.batches := by
  induction calls generalizing s with
  | nil => rfl
  | cons c calls ih =>
    have htail : ∀ k ≤ calls.length, 0 < ((s.call c).after (calls.take k)).comm.groupDepth :=
      fun k hk => h (k + 1) (Nat.succ_le_succ hk)
    have hhead : 0 < (s.call c).comm.groupDepth := htail 0 (Nat.zero_le _)
    exact (ih htail).trans (call_open hhead)

/-- The call that closes the outermost group flushes. -/
theorem call_close {c : GroupCall × FlushOutcome} (h : 0 < s.comm.groupDepth)
    (h' : (s.call c).comm.groupDepth = 0) : s.comm.Flushes c.1 := by
  by_contra hf
  have h' : (s.comm.call c.1 c.2).comm.groupDepth = 0 := h'
  rw [(CommunicatorState.call_keep hf c.2).2.2] at h'
  obtain ⟨c, o⟩ := c
  cases c with
  | groupStart =>
    have h' : s.comm.groupDepth + 1 = 0 := h'
    omega
  | groupEnd =>
    have hne : s.comm.groupDepth ≠ 1 := hf
    have h' : (if s.comm.groupDepth ≤ 0 then s.comm.groupDepth else s.comm.groupDepth - 1) = 0 := h'
    split at h' <;> omega
  | submit task =>
    have h' : s.comm.groupDepth = 0 := h'
    omega

end Sessions

/-! ## 4. Exactly one flush -/

/-- **Every accepted submission is in exactly one batch**, that of the first call that brings the depth
    back to zero. -/
structure Exact (s : Session) : Prop where
  /-- Outside a group nothing waits. -/
  idle : 0 ≤ s.comm.groupDepth ∧ (s.comm.groupDepth = 0 → s.comm.pendingTasks = [])
  /-- The batches and the queue are the accepted submissions in order, each once. -/
  queue : s.batches.flatten ++ s.comm.pendingTasks = s.accepted
  /-- A collective that `Submit` rejects changes nothing. -/
  rejected : ∀ task, Planner.isP2p task.func = false →
    Planner.validateCollectiveTask task s.comm.rank s.comm.worldSize = false → ∀ outcome,
      s.comm.call (.submit task) outcome = { comm := s.comm, result := .ok false }
  /-- A `GroupEnd` without its `GroupStart` changes nothing. -/
  unmatched : s.comm.groupDepth = 0 → ∀ outcome,
    s.comm.call .groupEnd outcome = { comm := s.comm, result := .ok false }
  /-- A batch is all that was accepted since the last one; the flush leaves depth zero and an empty
      queue, whether it succeeds or not. -/
  flushed : ∀ c outcome batch, (s.comm.call c outcome).batch = some batch →
    s.batches.flatten ++ batch = (s.call (c, outcome)).accepted ∧
      (s.call (c, outcome)).comm.groupDepth = 0 ∧ (s.call (c, outcome)).comm.pendingTasks = []
  /-- Outside a group an accepted submission is flushed at once, alone. -/
  outside : s.comm.groupDepth = 0 → ∀ task, s.comm.accepts task = true → ∀ outcome,
    (s.comm.call (.submit task) outcome).batch = some [task]
  /-- Inside a group nothing is flushed until the first call that brings the depth to zero, and that
      call flushes all that was accepted since the last batch. -/
  grouped : ∀ calls, (∀ k ≤ calls.length, 0 < (s.after (calls.take k)).comm.groupDepth) →
    (s.after calls).batches = s.batches ∧
      ∀ c, ((s.after calls).call c).comm.groupDepth = 0 → ∃ batch,
        ((s.after calls).call c).batches = s.batches ++ [batch] ∧
          s.batches.flatten ++ batch = ((s.after calls).call c).accepted

theorem Inv.exact {s : Session} (h : s.Inv) : s.Exact := by
  have hflushed : ∀ {s : Session}, s.Inv → ∀ {c : GroupCall}, s.comm.Flushes c →
      s.batches.flatten ++ (s.comm.pendingTasks ++ s.comm.submitted c) =
        s.accepted ++ s.comm.submitted c := by
    intro s h c _
    rw [← List.append_assoc, h.queue]
  refine ⟨⟨h.depth, h.idle⟩, h.queue, fun task hp hv outcome => ?_, fun h0 outcome => ?_,
    fun c outcome batch hb => ?_, fun h0 task hacc outcome => ?_, fun calls hopen => ?_⟩
  · have hrej : ¬ s.comm.accepts task = true := by
      rw [CommunicatorState.accepts, hp, hv]
      decide
    exact if_neg hrej
  · exact if_pos (Int.le_of_eq h0)
  · by_cases hf : s.comm.Flushes c
    · obtain ⟨h1, h2, h3⟩ := CommunicatorState.call_flush hf outcome
      rw [h1] at hb
      obtain rfl := Option.some.inj hb
      exact ⟨hflushed h hf, h2, h3⟩
    · rw [(CommunicatorState.call_keep hf outcome).1] at hb
      cases hb
  · have hf : s.comm.Flushes (.submit task) := ⟨hacc, h0⟩
    rw [(CommunicatorState.call_flush hf outcome).1, h.idle h0, CommunicatorState.submitted, if_pos hacc]
    rfl
  · have hb := after_open calls hopen
    refine ⟨hb, fun c h0 => ?_⟩
    have hdepth := hopen calls.length (Nat.le_refl _)
    rw [List.take_length] at hdepth
    have hf := call_close hdepth h0
    refine ⟨(s.after calls).comm.pendingTasks ++ (s.after calls).comm.submitted c.1, ?_, ?_⟩
    · show (s.after calls).batches ++ ((s.after calls).comm.call c.1 c.2).batch.toList = _
      rw [hb, (CommunicatorState.call_flush hf c.2).1]
      rfl
    · rw [← hb]
      exact hflushed (h.after calls) hf

end Session

end OriginCCL
