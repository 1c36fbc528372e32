/-
  File:      OriginCCL/Executor/Workers.lean
  Subject:   THE BATCH PROTOCOL of the multi-threaded executors
             (`src/executor/multi_thread_executor.cpp`, `dynamic_multi_thread_executor.cpp`).

  * `Workload` -- what the two executors differ in: `MultiThreadExecutor.workload`,
    `DynamicMultiThreadExecutor.workload`.
  * `WorkerPool` -- the members under the mutex, the workers, the caller of `Run`; `WorkerPool.step` is
    one step of a thread. A wait on a condition variable is a check of its predicate under the mutex,
    after which the thread sleeps until it is notified or wakes for no reason.
-/
import OriginCCL.Base.Runs
import OriginCCL.Executor.Slots

namespace OriginCCL

open Base

/-! ## 1. Workloads -/

/-- The workers a plan needs, whether `Run` has anything to do, and the jobs of a worker, which does them
    in order until one fails. -/
structure Workload (P T : Type) where
  workers : P → Nat
  busy : P → Bool
  jobs : P → Nat → List T

/-- A worker for every channel of the plan; worker `i` executes the tasks of channel `i`. -/
def MultiThreadExecutor.workload : Workload CollPlan PlanTask where
  workers plan := plan.channels.length
  busy plan := !plan.channels.isEmpty
  jobs plan channelId := plan.tasksOf channelId

/-- A worker for every channel of the communicator; its one job is `ProcessChannel`. -/
def DynamicMultiThreadExecutor.workload (nChannels : Nat) : Workload CollPlan CollPlan where
  workers _ := nChannels
  busy plan := !plan.slices.isEmpty
  jobs plan _ := [plan]

/-! ## 2. Threads -/

/-- Where `WorkerLoop` stands. A worker at work holds a plan, by the number of the `Run` it belongs to. -/
inductive WorkerPoint (P T : Type) where
  | checking
  | asleep
  | working (plan : Option (Nat × P)) (batchId : Nat) (todo : List T) (success : Bool)
  | exited

/-- A worker with its `completed_batch_id`. `born` is the number of batches before it was made, `picked`
    records the batches it has picked up, `results` the jobs of the last one with their outcomes. -/
structure Worker (P T : Type) where
  completedBatchId : Nat
  point : WorkerPoint P T := .checking
  born : Nat
  picked : List Nat := []
  results : List (T × Bool) := []

/-- Where the caller stands: outside `Run` with the last plan and what `Run` returned for it, in
    `EnsureWorkers`, before and after it hands the plan to the workers, or in `StopWorkers`. -/
inductive CallerPoint (P : Type) where
  | idle (last : Option (P × Bool))
  | ensuring (plan : P) (completedBatchId : Nat)
  | publishing (plan : P)
  | waiting (plan : P) (asleep : Bool)
  | stopping

/-- The executor and its threads. `runs` counts the batches. -/
structure WorkerPool (P T : Type) where
  stop : Bool := false
  batchId : Nat := 0
  activeChannels : Nat := 0
  completedChannels : Nat := 0
  batchSuccess : Bool := true
  plan : Option (Nat × P) := none
  workers : List (Worker P T) := []
  caller : CallerPoint P := .idle none
  runs : Nat := 0

namespace WorkerPool

section Model

variable {P T : Type}

/-- A step of the caller or of a worker. -/
inductive Label (P : Type) where
  | run (plan : P)
  | spawn
  | spawned
  | publish
  | check
  | wake
  | shutdown
  | joined
  | workerCheck (i : Nat)
  | workerWake (i : Nat)
  | work (i : Nat) (ok : Bool)
  | finish (i : Nat)

/-- `work_ready_.notify_all()` -/
def notifyAll (workers : List (Worker P T)) : List (Worker P T) :=
  workers.map fun w => match w.point with
    | .asleep => { w with point := .checking }
    | _ => w

/-- `work_done_.notify_one()` -/
def notifyOne (caller : CallerPoint P) : CallerPoint P :=
  match caller with
  | .waiting plan _ => .waiting plan false
  | caller => caller

variable (W : Workload P T)

/-- The check of a worker: it stops, picks up the batch or goes to sleep. -/
def pickUp (s : WorkerPool P T) (i : Nat) (w : Worker P T) : Worker P T :=
  if s.stop then { w with point := .exited }
  else if s.batchId ≠ w.completedBatchId then
    let todo := match s.plan with
      | some (_, plan) => W.jobs plan i
      | none => []
    { w with point := .working s.plan s.batchId todo true, picked := w.picked ++ [s.runs], results := [] }
  else { w with point := .asleep }

/-- **A step of a thread.** -/
def step (l : Label P) (s : WorkerPool P T) : Option (WorkerPool P T) :=
  match l with
  | .run plan =>
    match s.caller with
    | .idle _ => some { s with caller := .ensuring plan s.batchId }
    | _ => none
  | .spawn =>
    match s.caller with
    | .ensuring plan completedBatchId =>
      if s.workers.length < W.workers plan then
        some { s with workers :=
          s.workers ++ [{ completedBatchId := completedBatchId, born := s.runs }] }
      else none
    | _ => none
  | .spawned =>
    match s.caller with
    | .ensuring plan _ =>
      if s.workers.length < W.workers plan then none
      else some { s with caller := if W.busy plan then .publishing plan else .idle (some (plan, true)) }
    | _ => none
  | .publish =>
    match s.caller with
    | .publishing plan =>
      some { s with
        plan := some (s.runs + 1, plan)
        activeChannels := s.workers.length
        completedChannels := 0
        batchSuccess := true
        batchId := (s.batchId + 1) % 2 ^ 64
        workers := notifyAll s.workers
        caller := .waiting plan false
        runs := s.runs + 1 }
    | _ => none
  | .check =>
    match s.caller with
    | .waiting plan false =>
      if s.completedChannels = s.activeChannels then
        some { s with caller := .idle (some (plan, s.batchSuccess)) }
      else some { s with caller := .waiting plan true }
    | _ => none
  | .wake =>
    match s.caller with
    | .waiting plan true => some { s with caller := .waiting plan false }
    | _ => none
  | .shutdown =>
    match s.caller with
    | .idle _ => some { s with stop := true, workers := notifyAll s.workers, caller := .stopping }
    | _ => none
  | .joined =>
    match s.caller with
    | .stopping =>
      if s.workers.all fun w => match w.point with
        | .exited => true
        | _ => false then some { s with stop := false, workers := [], caller := .idle none }
      else none
    | _ => none
  | .workerCheck i =>
    match s.workers[i]? with
    | some w => match w.point with
      | .checking => some { s with workers := s.workers.set i (pickUp W s i w) }
      | _ => none
    | none => none
  | .workerWake i =>
    match s.workers[i]? with
    | some w => match w.point with
      | .asleep => some { s with workers := s.workers.set i { w with point := .checking } }
      | _ => none
    | none => none
  | .work i ok =>
    match s.workers[i]? with
    | some w => match w.point with
      | .working plan batchId (t :: todo) success =>
        let point := if ok then .working plan batchId todo success else .working plan batchId [] false
        some { s with workers :=
          s.workers.set i { w with point := point, results := w.results ++ [(t, ok)] } }
      | _ => none
    | none => none
  | .finish i =>
    match s.workers[i]? with
    | some w => match w.point with
      | .working _ batchId [] success =>
        some { s with
          batchSuccess := s.batchSuccess && success
          completedChannels := s.completedChannels + 1
          workers := s.workers.set i { w with point := .checking, completedBatchId := batchId }
          caller := if s.completedChannels + 1 = s.activeChannels then notifyOne s.caller else s.caller }
      | _ => none
    | none => none

end Model

end WorkerPool

end OriginCCL
