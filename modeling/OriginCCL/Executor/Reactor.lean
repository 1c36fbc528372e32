/-
  File:      OriginCCL/Executor/Reactor.lean
  Subject:   THE REACTOR EXECUTOR (`src/executor/reactor_executor.cpp`).

  The main loop waits for events and hands every task that is ready to a pool of workers; a worker makes
  the calls of one work item and posts a completion, which the main loop takes.

  * `ReactorHost` -- the connections, and the number of workers.
  * `WorkItem`, `Completion` -- what main loop and workers hand to each other.
  * `ReactorWorker`, `ReactorPoint` -- where `WorkerLoop` and `Run` stand.
  * `ReactorExecutor.step` -- a step of `Run` or of a worker, in any order. What a call of a task
    returns, which descriptors the kernel refuses and which events it reports are part of the label.
-/
import OriginCCL.Base.Runs
import OriginCCL.Executor.Epoll

namespace OriginCCL

open Base

/-- The connections, and the argument of the constructor. -/
structure ReactorHost where
  endpoint : Link → Endpoint
  workerCount : Nat

namespace ReactorExecutor

def kNotifyTag : Nat := 0xFFFFFFFF
def kStepWritable : UInt32 := 1
def kStepReadable : UInt32 := 2
def kDefaultWorkers : Nat := 4

/-! ## 1. Work and workers -/

inductive JobState where
  | waiting
  | done
  | failed
  deriving DecidableEq

/-- A task of a slot with its number in the channel, and what is to be done with it. -/
structure WorkItem where
  slot : Nat
  number : Nat
  task : PlanTask
  init : Bool
  steps : UInt32

structure Completion where
  slot : Nat
  init : Bool
  state : JobState
  deriving DecidableEq

/-- A call of a worker on the topology of a task. -/
inductive TaskCall where
  | init
  | step (event : CollEvent)

/-- What a call does to task number `i`. -/
def TaskCall.act (i : Nat) (ok : Bool) : TaskCall → Act CollEvent
  | .init => .init i ok
  | .step event => .step i event ok

/-- The calls that `WorkerLoop` makes for an item, as long as they succeed. -/
def WorkItem.calls (item : WorkItem) : List TaskCall :=
  if item.init then [.init]
  else
    (if item.steps &&& kStepWritable ≠ 0 then [.step .writable] else []) ++
      (if item.steps &&& kStepReadable ≠ 0 then [.step .readable] else [])

/-- The completion of an item. -/
def WorkItem.completion (item : WorkItem) (state : JobState) : Completion :=
  { slot := item.slot, init := item.init, state := state }

/-- Where `WorkerLoop` stands: it waits for work, has calls left to make, is about to post the completion,
    has posted it, or has returned. -/
inductive ReactorWorker where
  | waiting
  | working (item : WorkItem) (calls : List TaskCall)
  | posting (completion : Completion)
  | notifying
  | exited

/-! ## 2. The executor -/

/-- Where `Run` stands. -/
inductive ReactorPoint where
  /-- outside; what the last `Run` has returned, if there was one since the last `Shutdown` -/
  | idle (last : Option Bool)
  /-- the loop over the slots that starts their first tasks -/
  | starting (slot : Nat)
  /-- the condition of the main loop -/
  | looping
  /-- `epoll_wait` -/
  | waiting
  /-- the loop over the slots that posts their steps -/
  | dispatching (slot : Nat) (readySteps : Nat → UInt32) (notify : Bool)
  /-- `DrainNotify` -/
  | draining
  /-- the swap of `completed` and `completions_` -/
  | taking
  /-- the loop over `completed` -/
  | completing (completed : List Completion)
  /-- `abort_plan`, with what is left in `completed` -/
  | aborting (completed : List Completion)
  /-- the joins in `StopWorkers`, after which `Run` returns, or `Shutdown` closes -/
  | stopping (completed : List Completion) (last : Option Bool)

/-- The completions in the local variable of the main loop. -/
def ReactorPoint.completed : ReactorPoint → List Completion
  | .completing cs => cs
  | .aborting cs => cs
  | .stopping cs _ => cs
  | _ => []

end ReactorExecutor

/-- The executor, its workers, and the variables of its last `Run`. `registered` is the interest list of
    `epoll_fd_` without `notify_fd_`, whose counter is `notifications`. `taken` records the completions
    that the main loop has taken, with the numbers of their tasks. -/
structure ReactorExecutor where
  opened : Bool := false
  registered : List (Int × Nat) := []
  notifications : Nat := 0
  stop : Bool := false
  workQueue : List ReactorExecutor.WorkItem := []
  completions : List ReactorExecutor.Completion := []
  workers : List ReactorExecutor.ReactorWorker := []
  point : ReactorExecutor.ReactorPoint := .idle none
  slots : Slots := {}
  inFlight : Nat := 0
  taken : List (Nat × ReactorExecutor.Completion) := []

namespace ReactorExecutor

section Model

variable (H : ReactorHost)

/-- The descriptors of a task's connections. -/
def taskFds (task : PlanTask) : List Int :=
  ((task.recvTransports ++ task.sendTransports).map fun l => (H.endpoint l).fd).filter fun fd => 0 ≤ fd

/-- One of the two loops of `RegisterTask`. `EPOLL_CTL_ADD` fails with `EEXIST` for a registered
    descriptor, and where the kernel refuses. -/
def registerSide (refused : Int → Bool) (tag : Nat) :
    List Link → List (Int × Nat) → Bool × List (Int × Nat)
  | [], registered => (true, registered)
  | l :: ls, registered =>
    let transport := H.endpoint l
    if 0 ≤ transport.fd ∧ transport.pollEvents ≠ 0 then
      if transport.fd ∈ registered.map Prod.fst ∨ refused transport.fd then (false, registered)
      else registerSide refused tag ls (registered ++ [(transport.fd, tag)])
    else registerSide refused tag ls registered

def registerTask (refused : Int → Bool) (slot : Nat) (task : PlanTask) (registered : List (Int × Nat)) :
    Bool × List (Int × Nat) :=
  let tagBase := slot * 2 % 2 ^ 32
  match registerSide H refused tagBase task.recvTransports registered with
  | (true, registered) =>
    registerSide H refused ((tagBase + 1) % 2 ^ 32) task.sendTransports registered
  | (false, registered) => (false, registered)

/-- The two loops of `EPOLL_CTL_DEL`. -/
def unregisterTask (task : PlanTask) (registered : List (Int × Nat)) : List (Int × Nat) :=
  registered.filter fun x => x.1 ∉ taskFds H task

/-- The loop of `abort_plan`. -/
def unregisterAll (current : List (Option (Nat × PlanTask))) (registered : List (Int × Nat)) :
    List (Int × Nat) :=
  current.foldl (fun registered c =>
    match c with
    | some (_, task) => unregisterTask H task registered
    | none => registered) registered

/-- `current[slot]`, where it is set. -/
def setCurrent (slots : Slots) (slot : Nat) (c : Option (Nat × PlanTask)) : Slots :=
  { slots with current := slots.current.set slot c }

/-- `++in_flight; PostWork(item)` -/
def post (s : ReactorExecutor) (item : WorkItem) : ReactorExecutor :=
  { s with inFlight := s.inFlight + 1, workQueue := s.workQueue ++ [item] }

/-- `start_next(slot)` -/
def startNext (slot : Nat) (s : ReactorExecutor) : Bool × ReactorExecutor :=
  let i := s.slots.indexAt slot
  match (s.slots.plan.tasksOf slot)[i]? with
  | none => (true, s)
  | some task =>
    if task.topology.isNone then (false, s)
    else
      let slots := setCurrent (s.slots.advance slot) slot (some (i, task))
      (true, { s with slots := slots }.post
        { slot := slot, number := i, task := task, init := true, steps := 0 })

/-- One iteration of the loop over the events. -/
def collect (slots : Slots) (ready : Nat → UInt32) (event : EpollEvent) : Nat → UInt32 :=
  if event.tag = kNotifyTag then ready
  else
    let slot := event.tag / 2
    match slots.currentAt slot with
    | none => ready
    | some (_, task) =>
      let side := event.tag % 2
      if (EpollExecutor.sideOf task side).any fun l =>
          event.events &&& (H.endpoint l).pollEvents ≠ 0 then
        Function.update ready slot
          (ready slot ||| if side = 0 then kStepReadable else kStepWritable)
      else ready

/-- One iteration of the loop over the slots. -/
def dispatch (slot : Nat) (readySteps : Nat → UInt32) (s : ReactorExecutor) : ReactorExecutor :=
  match s.slots.currentAt slot with
  | none => s
  | some (i, task) =>
    if readySteps slot = 0 then s
    else
      { s with registered := unregisterTask H task s.registered }.post
        { slot := slot, number := i, task := task, init := false, steps := readySteps slot }

/-- Out of the main loop where something has failed. -/
def orAbort (r : Bool × ReactorExecutor) : ReactorExecutor :=
  if r.1 then r.2 else { r.2 with point := .aborting r.2.point.completed }

/-- One iteration of the loop over `completed`, for the completion of task `i`. -/
def complete (refused : Int → Bool) (c : Completion) (i : Nat) (task : PlanTask) (s : ReactorExecutor) :
    ReactorExecutor :=
  let rest := s.point.completed.tail
  let s := { s with inFlight := s.inFlight - 1, taken := s.taken ++ [(i, c)] }
  match c.state with
  | .failed => { s with point := .aborting s.point.completed }
  | .waiting =>
    let r := registerTask H refused c.slot task s.registered
    let active := if r.1 ∧ c.init then s.slots.active + 1 else s.slots.active
    orAbort (r.1, { s with registered := r.2, slots := { s.slots with active := active }
                           point := .completing rest })
  | .done =>
    let active := if c.init then s.slots.active else s.slots.active - 1
    orAbort (startNext c.slot { s with
      slots := setCurrent { s.slots with active := active } c.slot none
      point := .completing rest })

/-- The start of `Run`; `opens` is what `EnsureEpoll` returns where there is no epoll instance yet. -/
def begin (plan : CollPlan) (opens : Bool) (s : ReactorExecutor) : ReactorExecutor :=
  let s := { s with slots := Slots.ofPlan plan, inFlight := 0, taken := [] }
  if plan.channels.isEmpty then { s with point := .idle (some true) }
  else if s.opened ∨ opens then
    let count := if 0 < H.workerCount then H.workerCount else kDefaultWorkers
    { s with
      opened := true
      workers := if s.workers.isEmpty then List.replicate count .waiting else s.workers
      point := .starting 0 }
  else { s with point := .idle (some false) }

/-- What happens next. -/
inductive Label where
  | run (plan : CollPlan) (opens : Bool)
  /-- the next step of `Run` that nothing outside has a say in -/
  | tick
  | interrupted
  | waitFailed
  /-- `epoll_wait` returns events -/
  | ready (events : List EpollEvent)
  /-- the next completion is taken; the kernel refuses to register some descriptors -/
  | complete (refused : Int → Bool)
  | joined
  | shutdown
  /-- a worker leaves its wait, with an item or to return -/
  | take (w : Nat)
  /-- a call on the topology returns -/
  | work (w : Nat) (ok : Bool)
  /-- `CollectiveDone` returns -/
  | judge (w : Nat) (done : Bool)
  | postCompletion (w : Nat)
  | notify (w : Nat)

/-- A step of `Run` that nothing outside has a say in. -/
def tick (s : ReactorExecutor) : Option ReactorExecutor :=
  match s.point with
  | .starting slot =>
    if slot < s.slots.plan.channels.length then
      some (orAbort (startNext slot { s with point := .starting (slot + 1) }))
    else some { s with point := .looping }
  | .looping =>
    if 0 < s.slots.active ∨ 0 < s.inFlight then some { s with point := .waiting }
    else some { s with point := .idle (some true) }
  | .dispatching slot readySteps notify =>
    if slot < s.slots.plan.channels.length then
      some { dispatch H slot readySteps s with point := .dispatching (slot + 1) readySteps notify }
    else some { s with point := if notify then .draining else .looping }
  | .draining => some { s with notifications := 0, point := .taking }
  | .taking => some { s with completions := [], point := .completing s.completions }
  | .completing [] => some { s with point := .looping }
  | .aborting completed =>
    some { s with registered := unregisterAll H s.slots.current s.registered, stop := true
                  point := .stopping completed (some false) }
  | _ => none

/-- An event that `epoll_wait` can report: of `notify_fd_`, or of a registered descriptor. -/
def Reported (s : ReactorExecutor) (event : EpollEvent) : Prop :=
  event.tag = kNotifyTag ∧ 0 < s.notifications ∨ event.tag ∈ s.registered.map Prod.snd

instance (s : ReactorExecutor) (event : EpollEvent) : Decidable (s.Reported event) :=
  inferInstanceAs (Decidable (_ ∨ _))

/-- A step of worker `w`. -/
def stepWorker (l : Label) (w : Nat) (s : ReactorExecutor) : Option ReactorExecutor :=
  match l, s.workers[w]? with
  | .take _, some .waiting =>
    if s.stop then some { s with workers := s.workers.set w .exited }
    else
      match s.workQueue with
      | [] => none
      | item :: rest =>
        let worker := if item.task.topology.isNone then .posting (item.completion .failed)
          else .working item item.calls
        some { s with workQueue := rest, workers := s.workers.set w worker }
  | .work _ ok, some (.working item (call :: calls)) =>
    let worker := if ok then .working item calls else .posting (item.completion .failed)
    some { s with slots := s.slots.note item.slot (call.act item.number ok)
                  workers := s.workers.set w worker }
  | .judge _ done, some (.working item []) =>
    let slots := if done then s.slots.note item.slot (.done item.number) else s.slots
    let state := if done then .done else .waiting
    some { s with slots := slots, workers := s.workers.set w (.posting (item.completion state)) }
  | .postCompletion _, some (.posting completion) =>
    some { s with completions := s.completions ++ [completion], workers := s.workers.set w .notifying }
  | .notify _, some .notifying =>
    some { s with notifications := s.notifications + 1, workers := s.workers.set w .waiting }
  | _, _ => none

/-- **A step of `Run`, `Shutdown` or a worker.** -/
def step (l : Label) (s : ReactorExecutor) : Option ReactorExecutor :=
  match l with
  | .run plan opens =>
    match s.point with
    -- the number of channels of a `CollPlan` is an `int`
    | .idle _ => if plan.channels.length < 2 ^ 31 then some (begin H plan opens s) else none
    | _ => none
  | .tick => tick H s
  | .interrupted =>
    match s.point with
    | .waiting => some { s with point := .looping }
    | _ => none
  | .waitFailed =>
    match s.point with
    | .waiting => some { s with point := .aborting [] }
    | _ => none
  | .ready events =>
    match s.point with
    | .waiting =>
      if 0 < events.length ∧ events.length ≤ s.slots.plan.channels.length * 2 + 1 ∧
          ∀ event ∈ events, s.Reported event then
        some { s with point := .dispatching 0 (events.foldl (collect H s.slots) fun _ => 0)
                                 (events.any fun event => event.tag = kNotifyTag) }
      else none
    | _ => none
  | .complete refused =>
    match s.point with
    | .completing (c :: _) =>
      match s.slots.currentAt c.slot with
      | some (i, task) => some (complete H refused c i task s)
      -- the task of a completion is dereferenced
      | none => none
    | _ => none
  | .joined =>
    match s.point with
    | .stopping _ last =>
      if s.workers.all fun w => match w with
        | .exited => true
        | _ => false then
        let s := { s with workers := [], workQueue := [], completions := [], stop := false
                          point := .idle last }
        -- `Shutdown` closes the descriptors
        some (if last.isNone then { s with opened := false, registered := [], notifications := 0 } else s)
      else none
    | _ => none
  | .shutdown =>
    match s.point with
    | .idle _ => some { s with stop := true, point := .stopping [] none }
    | _ => none
  | .take w => stepWorker l w s
  | .work w _ => stepWorker l w s
  | .judge w _ => stepWorker l w s
  | .postCompletion w => stepWorker l w s
  | .notify w => stepWorker l w s

end Model

end ReactorExecutor

end OriginCCL
