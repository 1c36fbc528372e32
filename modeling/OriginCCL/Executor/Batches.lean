/-
  File:      OriginCCL/Executor/Batches.lean
  Subject:   EVERY PLAN IS RUN ONCE and is done with when `Run` returns.

  * `Progress` -- the jobs of a worker: done in order, up to the first failure.
  * `Rested`, `Serving` -- a worker while the caller is not in a batch, and while it waits for one.
  * `WorkerPool.Inv` -- where the caller stands and what it knows of the workers; `inv_step`.
  * `Served` -- what the protocol promises; `batches_served` -- **it holds in every state reached**, for
    both executors.
-/
import OriginCCL.Executor.Workers

namespace OriginCCL

open Base

/-! ## 1. The jobs of a worker -/

section Jobs

variable {T : Type}

/-- **Jobs are done in order, up to the first failure**: all so far with success, or the last one has
    failed and nothing is left to do. -/
def Progress (jobs : List T) (results : List (T × Bool)) (todo : List T) (success : Bool) : Prop :=
  ∃ done : List T, if success then results = done.map (·, true) ∧ done ++ todo = jobs
    else todo = [] ∧ ∃ t, results = done.map (·, true) ++ [(t, false)] ∧ done ++ [t] <+: jobs

theorem Progress.start (jobs : List T) : Progress jobs [] jobs true := ⟨[], rfl, rfl⟩

theorem Progress.work {jobs todo : List T} {results : List (T × Bool)} {t : T} {success : Bool}
    (h : Progress jobs results (t :: todo) success) (ok : Bool) : success = true ∧
      Progress jobs (results ++ [(t, ok)]) (if ok then todo else []) ok := by
  obtain ⟨done, h⟩ := h
  cases success with
  | false => cases h.1
  | true =>
    obtain ⟨rfl, hjobs⟩ := h
    refine ⟨rfl, ?_⟩
    cases ok with
    | true =>
      refine ⟨done ++ [t], ?_, ?_⟩
      · rw [List.map_append]
        rfl
      · rw [List.append_assoc]
        exact hjobs
    | false =>
      refine ⟨done, rfl, t, rfl, todo, ?_⟩
      rw [List.append_assoc]
      exact hjobs

/-- When nothing is left to do, success means that all jobs were done with success. -/
theorem Progress.success_iff {jobs : List T} {results : List (T × Bool)} {success : Bool}
    (h : Progress jobs results [] success) : success = true ↔ results = jobs.map (·, true) := by
  obtain ⟨done, h⟩ := h
  cases success with
  | true =>
    obtain ⟨rfl, hjobs⟩ := h
    rw [List.append_nil] at hjobs
    rw [hjobs]
    exact ⟨fun _ => rfl, fun _ => rfl⟩
  | false =>
    obtain ⟨-, t, rfl, -⟩ := h
    refine ⟨fun hf => absurd hf (by decide), fun hall => ?_⟩
    have hmem : (t, false) ∈ jobs.map (·, true) := by
      rw [← hall]
      exact List.mem_append_right _ (List.mem_singleton_self _)
    obtain ⟨_, _, hf⟩ := List.mem_map.mp hmem
    cases (Prod.mk.inj hf).2

end Jobs

/-! ## 2. Workers -/

namespace WorkerPool

section Workers

variable {P T : Type}

/-- The batches a worker has picked up when it has picked up all so far. -/
def allBatches (runs : Nat) (w : Worker P T) : List Nat := List.range' (w.born + 1) (runs - w.born)

/-- **A worker outside a batch**: it has picked up every batch since it was made and has finished it. -/
structure Rested (batchId runs : Nat) (stop : Bool) (w : Worker P T) : Prop where
  batch : w.completedBatchId = batchId
  born : w.born ≤ runs
  picked : w.picked = allBatches runs w
  point : w.point = .checking ∨ (w.point = .asleep ∧ stop = false) ∨ (w.point = .exited ∧ stop = true)

/-- **A worker in a batch**: it has yet to pick it up, works on it, or has finished it. -/
inductive Serving (W : Workload P T) (batchId runs : Nat) (plan : P) (i : Nat) (w : Worker P T) :
    Prop where
  | fresh (hbatch : w.completedBatchId ≠ batchId) (hborn : w.born < runs)
      (hpicked : w.picked = allBatches (runs - 1) w) (hpoint : w.point = .checking)
  | busy (hbatch : w.completedBatchId ≠ batchId) (hborn : w.born < runs)
      (hpicked : w.picked = allBatches runs w) (todo : List T) (success : Bool)
      (hpoint : w.point = .working (some (runs, plan)) batchId todo success)
      (hprogress : Progress (W.jobs plan i) w.results todo success)
  | finished (hbatch : w.completedBatchId = batchId) (hborn : w.born < runs)
      (hpicked : w.picked = allBatches runs w) (hpoint : w.point = .checking ∨ w.point = .asleep)
      (success : Bool) (hprogress : Progress (W.jobs plan i) w.results [] success)

/-- All jobs of the workers that satisfy `p` were done with success. -/
def AllSucceeded (W : Workload P T) (workers : List (Worker P T)) (plan : P)
    (p : Worker P T → Prop) : Prop :=
  ∀ (i : Nat) w, workers[i]? = some w → p w → w.results = (W.jobs plan i).map (·, true)

/-- **What the caller knows of a batch it waits for.** -/
structure Waiting (W : Workload P T) (s : WorkerPool P T) (plan : P) (asleep : Bool) : Prop where
  stop : s.stop = false
  held : s.plan = some (s.runs, plan)
  busy : W.busy plan = true
  enough : W.workers plan ≤ s.workers.length
  active : s.activeChannels = s.workers.length
  serving : ∀ (i : Nat) w, s.workers[i]? = some w → Serving W s.batchId s.runs plan i w
  completed : s.completedChannels = (s.workers.map Worker.completedBatchId).count s.batchId
  success : s.batchSuccess = true ↔
    AllSucceeded W s.workers plan fun w => w.completedBatchId = s.batchId
  awake : asleep = true → s.completedChannels ≠ s.activeChannels

/-- What `Run` has returned for a plan, and the results of its workers. -/
def Returned (W : Workload P T) (results : List (List (T × Bool))) (plan : P) (ok : Bool) : Prop :=
  if W.busy plan then W.workers plan ≤ results.length ∧
    (∀ (i : Nat) rs, results[i]? = some rs → ∃ success, Progress (W.jobs plan i) rs [] success) ∧
    (ok = true ↔ ∀ (i : Nat) rs, results[i]? = some rs → rs = (W.jobs plan i).map (·, true))
  else ok = true

/-- **The caller outside a batch.** -/
structure Resting (s : WorkerPool P T) (stop : Bool) : Prop where
  stop : s.stop = stop
  workers : ∀ w ∈ s.workers, Rested s.batchId s.runs s.stop w
  completed : s.completedChannels = s.activeChannels

/-- **The pool, by where the caller stands.** -/
def Inv (W : Workload P T) (s : WorkerPool P T) : Prop :=
  match s.caller with
  | .idle last => Resting s false ∧
      ∀ plan ok, last = some (plan, ok) → Returned W (s.workers.map Worker.results) plan ok
  | .ensuring _ completedBatchId => Resting s false ∧ completedBatchId = s.batchId
  | .publishing plan => Resting s false ∧ W.busy plan = true ∧ W.workers plan ≤ s.workers.length
  | .waiting plan asleep => Waiting W s plan asleep
  | .stopping => Resting s true

end Workers

/-! ## 3. A step of one worker -/

section Steps

variable {P T : Type} {W : Workload P T} {s : WorkerPool P T} {plan : P} {i : Nat}
  {w w' : Worker P T}

theorem map_set_same {α β : Type} {f : α → β} {xs : List α} {x x' : α} (hget : xs[i]? = some x)
    (hf : f x' = f x) : (xs.set i x').map f = xs.map f := by
  obtain ⟨hi, rfl⟩ := List.getElem?_eq_some_iff.mp hget
  rw [List.map_set, hf, ← List.getElem_map (f := f) (h := by rw [List.length_map]; exact hi)]
  exact List.set_getElem_self _

theorem set_cases {α : Type} {xs : List α} {x v : α} {j : Nat} (h : (xs.set i x)[j]? = some v) :
    (j = i ∧ v = x) ∨ (j ≠ i ∧ xs[j]? = some v) := by
  by_cases hj : j = i
  · rw [hj, List.getElem?_set] at h
    split at h
    · split at h
      · exact Or.inl ⟨hj, (Option.some.inj h).symm⟩
      · cases h
    · exact absurd rfl ‹_›
  · rw [List.getElem?_set_ne (Ne.symm hj)] at h
    exact Or.inr ⟨hj, h⟩

theorem Resting.set {stop : Bool} (h : Resting s stop) (hw : Rested s.batchId s.runs s.stop w') :
    Resting { s with workers := s.workers.set i w' } stop := by
  refine ⟨h.stop, fun v hv => ?_, h.completed⟩
  rcases List.mem_or_eq_of_mem_set hv with hv | rfl
  · exact h.workers v hv
  · exact hw

/-- A worker that moves within a batch, without finishing it. -/
theorem Waiting.set {asleep : Bool} (h : Waiting W s plan asleep) (hget : s.workers[i]? = some w)
    (hw : Serving W s.batchId s.runs plan i w') (hbatch : w'.completedBatchId = w.completedBatchId)
    (hresults : w.completedBatchId = s.batchId → w'.results = w.results) :
    Waiting W { s with workers := s.workers.set i w' } plan asleep := by
  have hlen : (s.workers.set i w').length = s.workers.length := List.length_set ..
  refine ⟨h.stop, h.held, h.busy, ?_, ?_, fun j v hv => ?_, ?_, ?_, h.awake⟩
  · exact Nat.le_trans h.enough (Nat.le_of_eq hlen.symm)
  · exact h.active.trans hlen.symm
  · rcases set_cases hv with ⟨rfl, rfl⟩ | ⟨-, hv⟩
    · exact hw
    · exact h.serving j v hv
  · show s.completedChannels = ((s.workers.set i w').map Worker.completedBatchId).count s.batchId
    rw [map_set_same hget hbatch]
    exact h.completed
  · refine h.success.trans ⟨fun hall j v hv hb => ?_, fun hall j v hv hb => ?_⟩
    · rcases set_cases hv with ⟨rfl, rfl⟩ | ⟨-, hv⟩
      · have hb : w.completedBatchId = s.batchId := hbatch.symm.trans hb
        rw [hresults hb]
        exact hall j w hget hb
      · exact hall j v hv hb
    · by_cases hj : j = i
      · subst hj
        rw [hget] at hv
        obtain rfl := Option.some.inj hv
        rw [← hresults hb]
        refine hall j w' ?_ (hbatch.trans hb)
        exact List.getElem?_set_self (List.getElem?_eq_some_iff.mp hget).1
      · exact hall j v ((List.getElem?_set_ne (Ne.symm hj)).trans hv) hb

/-- The check of a worker outside a batch: there is nothing to pick up. -/
theorem Rested.pickUp (h : Rested s.batchId s.runs s.stop w) : Rested s.batchId s.runs s.stop (pickUp W s i w) ∧
    (pickUp W s i w).results = w.results := by
  unfold WorkerPool.pickUp
  split
  · rename_i hstop
    exact ⟨⟨h.batch, h.born, h.picked, Or.inr (Or.inr ⟨rfl, hstop⟩)⟩, rfl⟩
  · rename_i hstop
    rw [if_neg fun hne => hne h.batch.symm]
    exact ⟨⟨h.batch, h.born, h.picked, Or.inr (Or.inl ⟨rfl, Bool.not_eq_true _ ▸ hstop⟩)⟩, rfl⟩

/-- **The check of a worker in a batch**: it picks up the batch if it has not done so. -/
theorem Waiting.pickUp {asleep : Bool} (h : Waiting W s plan asleep) (hs : Serving W s.batchId s.runs plan i w)
    (hpoint : w.point = .checking) : Serving W s.batchId s.runs plan i (pickUp W s i w) ∧
      (pickUp W s i w).completedBatchId = w.completedBatchId ∧
      (w.completedBatchId = s.batchId → (pickUp W s i w).results = w.results) := by
  unfold WorkerPool.pickUp
  rw [if_neg (by rw [h.stop]; decide), h.held]
  cases hs with
  | fresh hbatch hborn hpicked _ =>
    rw [if_pos (Ne.symm hbatch)]
    refine ⟨.busy hbatch hborn ?_ (W.jobs plan i) true rfl (Progress.start _), rfl,
      fun hb => absurd hb hbatch⟩
    show w.picked ++ [s.runs] = List.range' (w.born + 1) (s.runs - w.born)
    rw [hpicked, allBatches, show s.runs - w.born = s.runs - 1 - w.born + 1 by omega,
      List.range'_1_concat]
    congr 2
    omega
  | busy _ _ _ todo success hpoint' _ =>
    rw [hpoint] at hpoint'
    cases hpoint'
  | finished hbatch hborn hpicked _ success hprogress =>
    rw [if_neg fun hne => hne hbatch.symm]
    exact ⟨.finished hbatch hborn hpicked (Or.inr rfl) success hprogress, rfl, fun _ => rfl⟩

/-- A worker that is woken. -/
theorem Serving.wake (h : Serving W s.batchId s.runs plan i w) (hpoint : w.point = .asleep) :
    Serving W s.batchId s.runs plan i { w with point := .checking } := by
  cases h with
  | fresh _ _ _ hp =>
    rw [hpoint] at hp
    cases hp
  | busy _ _ _ todo success hp _ =>
    rw [hpoint] at hp
    cases hp
  | finished hbatch hborn hpicked _ success hprogress =>
    exact .finished hbatch hborn hpicked (Or.inl rfl) success hprogress

/-- A worker that does a job. -/
theorem Serving.work {held : Option (Nat × P)} {batchId : Nat} {t : T} {todo : List T}
    {success : Bool} (h : Serving W s.batchId s.runs plan i w)
    (hpoint : w.point = .working held batchId (t :: todo) success) (ok : Bool) : w.completedBatchId ≠ s.batchId ∧
      Serving W s.batchId s.runs plan i { w with
        point := if ok then .working held batchId todo success else .working held batchId [] false
        results := w.results ++ [(t, ok)] } := by
  cases h with
  | fresh _ _ _ hp =>
    rw [hpoint] at hp
    cases hp
  | busy hbatch hborn hpicked todo' success' hp hprogress =>
    rw [hpoint] at hp
    cases hp
    obtain ⟨rfl, hnext⟩ := hprogress.work ok
    refine ⟨hbatch, .busy hbatch hborn hpicked _ ok ?_ hnext⟩
    cases ok <;> rfl
  | finished _ _ _ hp =>
    rw [hpoint] at hp
    rcases hp with hp | hp <;> cases hp

/-- **A worker that finishes the batch.** -/
theorem Waiting.finish {asleep : Bool} {held : Option (Nat × P)} {batchId : Nat} {success : Bool}
    (h : Waiting W s plan asleep) (hget : s.workers[i]? = some w)
    (hpoint : w.point = .working held batchId [] success) (asleep' : Bool)
    (hawake : asleep' = true → s.completedChannels + 1 ≠ s.activeChannels) :
    Waiting W { s with
      batchSuccess := s.batchSuccess && success
      completedChannels := s.completedChannels + 1
      workers := s.workers.set i { w with point := .checking, completedBatchId := batchId } } plan
      asleep' := by
  obtain ⟨hi, hgeti⟩ := List.getElem?_eq_some_iff.mp hget
  have hlen : ∀ w', (s.workers.set i w').length = s.workers.length := fun _ => List.length_set ..
  cases h.serving i w hget with
  | fresh _ _ _ hp =>
    rw [hpoint] at hp
    cases hp
  | finished _ _ _ hp =>
    rw [hpoint] at hp
    rcases hp with hp | hp <;> cases hp
  | busy hbatch hborn hpicked todo success' hp hprogress =>
    rw [hpoint] at hp
    cases hp
    refine ⟨h.stop, h.held, h.busy, ?_, ?_, fun j v hv => ?_, ?_, ?_, hawake⟩
    · exact Nat.le_trans h.enough (Nat.le_of_eq (hlen _).symm)
    · exact h.active.trans (hlen _).symm
    · rcases set_cases hv with ⟨rfl, rfl⟩ | ⟨-, hv⟩
      · exact .finished rfl hborn hpicked (Or.inl rfl) success hprogress
      · exact h.serving j v hv
    · show s.completedChannels + 1 = ((s.workers.set i _).map Worker.completedBatchId).count s.batchId
      rw [List.map_set, List.count_set (by rw [List.length_map]; exact hi), h.completed,
        List.getElem_map, hgeti, if_neg (by simpa using hbatch), if_pos (by simp)]
      rfl
    · show (s.batchSuccess && success) = true ↔ _
      rw [Bool.and_eq_true, h.success, hprogress.success_iff]
      refine ⟨fun ⟨hall, hthis⟩ j v hv hb => ?_, fun hall => ⟨fun j v hv hb => ?_, ?_⟩⟩
      · rcases set_cases hv with ⟨rfl, rfl⟩ | ⟨-, hv⟩
        · exact hthis
        · exact hall j v hv hb
      · have hj : i ≠ j := by
          rintro rfl
          rw [hget] at hv
          obtain rfl := Option.some.inj hv
          exact hbatch hb
        exact hall j v ((List.getElem?_set_ne hj).trans hv) hb
      · have hself := hall i { w with point := .checking, completedBatchId := s.batchId }
          (List.getElem?_set_self hi) rfl
        exact hself

end Steps

/-! ## 4. Runs -/

section Runs

variable {P T : Type} {W : Workload P T} {s : WorkerPool P T} {plan : P}

/-- A worker is notified. -/
def notified (w : Worker P T) : Worker P T :=
  match w.point with
  | .asleep => { w with point := .checking }
  | _ => w

theorem notified_eq (w : Worker P T) : (notified w).completedBatchId = w.completedBatchId ∧
    (notified w).born = w.born ∧ (notified w).picked = w.picked ∧ (notified w).results = w.results ∧
      (notified w).point ≠ .asleep ∧ (w.point ≠ .asleep → (notified w).point = w.point) := by
  unfold notified
  split
  · rename_i hp
    exact ⟨rfl, rfl, rfl, rfl, nofun, fun hf => absurd hp hf⟩
  · rename_i hp
    exact ⟨rfl, rfl, rfl, rfl, hp, fun _ => rfl⟩

theorem notifyAll_eq (workers : List (Worker P T)) : notifyAll workers = workers.map notified :=
  List.map_congr_left fun w _ => by unfold notified; rfl

/-- **A plan is handed to the workers**: none of them has picked it up, and none is asleep. -/
theorem Resting.publish (h : Resting s false) (hbusy : W.busy plan = true)
    (henough : W.workers plan ≤ s.workers.length) :
    Waiting W { s with
      plan := some (s.runs + 1, plan)
      activeChannels := s.workers.length
      completedChannels := 0
      batchSuccess := true
      batchId := (s.batchId + 1) % 2 ^ 64
      workers := notifyAll s.workers
      caller := .waiting plan false
      runs := s.runs + 1 } plan false := by
  have hne : s.batchId ≠ (s.batchId + 1) % 2 ^ 64 := by omega
  have hget : ∀ (j : Nat) v, (notifyAll s.workers)[j]? = some v → ∃ w ∈ s.workers, v = notified w := by
    intro j v hv
    rw [notifyAll_eq, List.getElem?_map] at hv
    obtain ⟨w, hw, rfl⟩ := Option.map_eq_some_iff.mp hv
    exact ⟨w, List.mem_of_getElem? hw, rfl⟩
  have hbatch : ∀ (j : Nat) v, (notifyAll s.workers)[j]? = some v →
      v.completedBatchId ≠ (s.batchId + 1) % 2 ^ 64 := by
    intro j v hv
    obtain ⟨w, hw, rfl⟩ := hget j v hv
    rw [(notified_eq w).1, (h.workers w hw).batch]
    exact hne
  have hlen : (notifyAll s.workers).length = s.workers.length := by
    rw [notifyAll_eq, List.length_map]
  refine ⟨h.stop, rfl, hbusy, ?_, hlen.symm, fun j v hv => ?_, ?_, ?_, fun hf => by cases hf⟩
  · exact Nat.le_trans henough (Nat.le_of_eq hlen.symm)
  · have hb := hbatch j v hv
    obtain ⟨w, hw, rfl⟩ := hget j v hv
    obtain ⟨-, h2, h3, -, h5, h6⟩ := notified_eq w
    have hr := h.workers w hw
    refine .fresh hb ?_ ?_ ?_
    · rw [h2]
      exact Nat.lt_succ_of_le hr.born
    · rw [h3, hr.picked, allBatches, allBatches, h2]
      rfl
    · rcases hr.point with hp | ⟨hp, -⟩ | ⟨-, hstop⟩
      · rw [h6 (by rw [hp]; exact fun hf => by cases hf), hp]
      · unfold notified
        rw [hp]
      · rw [h.stop] at hstop
        cases hstop
  · refine (List.count_eq_zero.mpr fun hmem => ?_).symm
    obtain ⟨v, hv, he⟩ := List.mem_map.mp hmem
    obtain ⟨j, hj, hget⟩ := List.getElem_of_mem hv
    exact hbatch j v (List.getElem?_eq_some_iff.mpr ⟨hj, hget⟩) he
  · exact ⟨fun _ j v hv hb => absurd hb (hbatch j v hv), fun _ => rfl⟩

/-- **The caller finds the batch completed**: every worker has finished it. -/
theorem Waiting.return {asleep : Bool} (h : Waiting W s plan asleep)
    (hdone : s.completedChannels = s.activeChannels) :
    Resting s false ∧ Returned W (s.workers.map Worker.results) plan s.batchSuccess := by
  have hall : ∀ w ∈ s.workers, w.completedBatchId = s.batchId := by
    have hcount : (s.workers.map Worker.completedBatchId).count s.batchId =
        (s.workers.map Worker.completedBatchId).length := by
      rw [List.length_map, ← h.completed, hdone, h.active]
    intro w hw
    exact (List.count_eq_length.mp hcount _ (List.mem_map_of_mem hw)).symm
  have hfin : ∀ (i : Nat) w, s.workers[i]? = some w → w.completedBatchId = s.batchId :=
    fun i w hw => hall w (List.mem_of_getElem? hw)
  have hresult : ∀ (i : Nat) rs, (s.workers.map Worker.results)[i]? = some rs →
      ∃ w, s.workers[i]? = some w ∧ w.results = rs := by
    intro i rs hrs
    rw [List.getElem?_map] at hrs
    exact Option.map_eq_some_iff.mp hrs
  refine ⟨⟨h.stop, fun w hw => ?_, hdone⟩, ?_⟩
  · obtain ⟨i, hi, hget⟩ := List.getElem_of_mem hw
    cases h.serving i w (List.getElem?_eq_some_iff.mpr ⟨hi, hget⟩) with
    | fresh hbatch => exact absurd (hall w hw) hbatch
    | busy hbatch => exact absurd (hall w hw) hbatch
    | finished hbatch hborn hpicked hpoint =>
      refine ⟨hbatch, Nat.le_of_lt hborn, hpicked, ?_⟩
      rcases hpoint with hp | hp
      · exact Or.inl hp
      · exact Or.inr (Or.inl ⟨hp, h.stop⟩)
  · unfold Returned
    rw [if_pos h.busy, List.length_map]
    refine ⟨h.enough, fun i rs hrs => ?_, h.success.trans ⟨fun hs i rs hrs => ?_, fun hs i w hw _ => ?_⟩⟩
    · obtain ⟨w, hw, rfl⟩ := hresult i rs hrs
      cases h.serving i w hw with
      | fresh hbatch => exact absurd (hfin i w hw) hbatch
      | busy hbatch => exact absurd (hfin i w hw) hbatch
      | finished _ _ _ _ success hprogress => exact ⟨success, hprogress⟩
    · obtain ⟨w, hw, rfl⟩ := hresult i rs hrs
      exact hs i w hw (hfin i w hw)
    · refine hs i w.results ?_
      rw [List.getElem?_map, hw]
      rfl

/-- The caller goes to sleep or wakes. -/
theorem Waiting.caller {asleep : Bool} (h : Waiting W s plan asleep) (asleep' : Bool)
    (hawake : asleep' = true → s.completedChannels ≠ s.activeChannels) :
    Waiting W { s with caller := .waiting plan asleep' } plan asleep' := by
  obtain ⟨h1, h2, h3, h4, h5, h6, h7, h8, -⟩ := h
  exact ⟨h1, h2, h3, h4, h5, h6, h7, h8, hawake⟩

/-- `StopWorkers` outside a batch: every worker is told. -/
theorem Resting.shutdown (h : Resting s false) : Resting { s with
    stop := true, workers := notifyAll s.workers, caller := .stopping } true := by
  refine ⟨rfl, fun v hv => ?_, h.completed⟩
  rw [notifyAll_eq] at hv
  obtain ⟨w, hw, rfl⟩ := List.mem_map.mp hv
  obtain ⟨h1, h2, h3, -, h5, h6⟩ := notified_eq w
  have hr := h.workers w hw
  refine ⟨h1.trans hr.batch, by rw [h2]; exact hr.born, ?_, ?_⟩
  · rw [h3, hr.picked, allBatches, allBatches, h2]
  · rcases hr.point with hp | ⟨hp, -⟩ | ⟨-, hstop⟩
    · exact Or.inl ((h6 (by rw [hp]; nofun)).trans hp)
    · refine Or.inl ?_
      unfold notified
      rw [hp]
    · rw [h.stop] at hstop
      cases hstop

theorem Rested.not_working {batchId runs : Nat} {stop : Bool} {w : Worker P T}
    (h : Rested batchId runs stop w) (held : Option (Nat × P)) (id : Nat) (todo : List T)
    (success : Bool) : w.point ≠ .working held id todo success := by
  intro hp
  rcases h.point with hp' | ⟨hp', -⟩ | ⟨hp', -⟩
  · rw [hp] at hp'
    cases hp'
  · rw [hp] at hp'
    cases hp'
  · rw [hp] at hp'
    cases hp'

/-- A step of one worker, outside a batch or within it. -/
theorem Inv.setWorker {i : Nat} {w w' : Worker P T} (h : Inv W s) (hget : s.workers[i]? = some w)
    (hrest : Rested s.batchId s.runs s.stop w → Rested s.batchId s.runs s.stop w' ∧ w'.results = w.results)
    (hserve : ∀ plan asleep, Waiting W s plan asleep → Serving W s.batchId s.runs plan i w →
      Serving W s.batchId s.runs plan i w' ∧ w'.completedBatchId = w.completedBatchId ∧
        (w.completedBatchId = s.batchId → w'.results = w.results)) :
    Inv W { s with workers := s.workers.set i w' } := by
  have hmem := List.mem_of_getElem? hget
  unfold Inv at h ⊢
  dsimp only
  split at h
  · rename_i last hc
    obtain ⟨h1, h2⟩ := hrest (h.1.workers w hmem)
    have hr := h.1.set (i := i) h1
    rw [hc, map_set_same hget h2]
    exact ⟨⟨hr.stop, hr.workers, hr.completed⟩, h.2⟩
  · rename_i hc
    have hr := h.1.set (i := i) (hrest (h.1.workers w hmem)).1
    rw [hc]
    exact ⟨⟨hr.stop, hr.workers, hr.completed⟩, h.2⟩
  · rename_i hc
    have hr := h.1.set (i := i) (hrest (h.1.workers w hmem)).1
    rw [hc]
    refine ⟨⟨hr.stop, hr.workers, hr.completed⟩, h.2.1, ?_⟩
    exact Nat.le_trans h.2.2 (Nat.le_of_eq (List.length_set ..).symm)
  · rename_i plan asleep hc
    obtain ⟨h1, h2, h3⟩ := hserve plan asleep h (h.serving i w hget)
    rw [hc]
    exact (h.set hget h1 h2 h3).caller asleep h.awake
  · rename_i hc
    have hr := h.set (i := i) (hrest (h.workers w hmem)).1
    rw [hc]
    exact ⟨hr.stop, hr.workers, hr.completed⟩

/-- **A step of any thread keeps the invariant.** -/
theorem inv_step {l : Label P} {s' : WorkerPool P T} (h : Inv W s) (hs : step W l s = some s') :
    Inv W s' := by
  cases l with
  | run plan =>
    unfold step at hs
    dsimp only at hs
    split at hs
    · rename_i hc
      obtain rfl := Option.some.inj hs
      unfold Inv at h
      rw [hc] at h
      obtain ⟨h1, h2, h3⟩ := h.1
      exact ⟨⟨h1, h2, h3⟩, rfl⟩
    · cases hs
  | spawn =>
    unfold step at hs
    dsimp only at hs
    split at hs
    · rename_i plan completedBatchId hc
      split at hs
      · obtain rfl := Option.some.inj hs
        unfold Inv at h ⊢
        rw [hc] at h
        dsimp only
        rw [hc]
        obtain ⟨⟨h1, h2, h3⟩, h4⟩ := h
        refine ⟨⟨h1, fun w hw => ?_, h3⟩, h4⟩
        rcases List.mem_append.mp hw with hw | hw
        · exact h2 w hw
        · obtain rfl := List.mem_singleton.mp hw
          refine ⟨h4, Nat.le_refl _, ?_, Or.inl rfl⟩
          rw [allBatches, Nat.sub_self]
          rfl
      · cases hs
    · cases hs
  | spawned =>
    unfold step at hs
    dsimp only at hs
    split at hs
    · rename_i plan completedBatchId hc
      split at hs
      · cases hs
      · rename_i henough
        obtain rfl := Option.some.inj hs
        unfold Inv at h
        rw [hc] at h
        obtain ⟨⟨h1, h2, h3⟩, -⟩ := h
        unfold Inv
        cases hbusy : W.busy plan with
        | true =>
          have henough : W.workers plan ≤ s.workers.length := by omega
          exact ⟨⟨h1, h2, h3⟩, hbusy, henough⟩
        | false =>
          refine ⟨⟨h1, h2, h3⟩, fun p ok hlast => ?_⟩
          obtain ⟨rfl, rfl⟩ := Prod.mk.inj (Option.some.inj hlast)
          unfold Returned
          rw [hbusy]
          rfl
    · cases hs
  | publish =>
    unfold step at hs
    dsimp only at hs
    split at hs
    · rename_i plan hc
      obtain rfl := Option.some.inj hs
      unfold Inv at h
      rw [hc] at h
      exact h.1.publish h.2.1 h.2.2
    · cases hs
  | check =>
    unfold step at hs
    dsimp only at hs
    split at hs
    · rename_i plan hc
      unfold Inv at h
      rw [hc] at h
      have h : Waiting W s plan false := h
      split at hs
      · rename_i hdone
        obtain rfl := Option.some.inj hs
        obtain ⟨⟨h1, h2, h3⟩, h4⟩ := h.return hdone
        refine ⟨⟨h1, h2, h3⟩, fun p ok hlast => ?_⟩
        obtain ⟨rfl, rfl⟩ := Prod.mk.inj (Option.some.inj hlast)
        exact h4
      · rename_i hopen
        obtain rfl := Option.some.inj hs
        exact h.caller _ fun _ => hopen
    · cases hs
  | wake =>
    unfold step at hs
    dsimp only at hs
    split at hs
    · rename_i plan hc
      obtain rfl := Option.some.inj hs
      unfold Inv at h
      rw [hc] at h
      exact h.caller _ nofun
    · cases hs
  | shutdown =>
    unfold step at hs
    dsimp only at hs
    split at hs
    · rename_i hc
      obtain rfl := Option.some.inj hs
      unfold Inv at h
      rw [hc] at h
      exact h.1.shutdown
    · cases hs
  | joined =>
    unfold step at hs
    dsimp only at hs
    split at hs
    · rename_i hc
      split at hs
      · obtain rfl := Option.some.inj hs
        unfold Inv at h
        rw [hc] at h
        exact ⟨⟨rfl, fun _ hw => absurd hw List.not_mem_nil, h.completed⟩, nofun⟩
      · cases hs
    · cases hs
  | workerCheck i =>
    unfold step at hs
    dsimp only at hs
    split at hs
    · rename_i w hget
      split at hs
      · rename_i hp
        obtain rfl := Option.some.inj hs
        exact h.setWorker hget (fun hr => hr.pickUp) fun plan asleep hw hsv => hw.pickUp hsv hp
      · cases hs
    · cases hs
  | workerWake i =>
    unfold step at hs
    dsimp only at hs
    split at hs
    · rename_i w hget
      split at hs
      · rename_i hp
        obtain rfl := Option.some.inj hs
        refine h.setWorker hget (fun hr => ⟨⟨hr.batch, hr.born, hr.picked, Or.inl rfl⟩, rfl⟩)
          fun plan asleep _ hsv => ⟨hsv.wake hp, rfl, fun _ => rfl⟩
      · cases hs
    · cases hs
  | work i ok =>
    unfold step at hs
    dsimp only at hs
    split at hs
    · rename_i w hget
      split at hs
      · rename_i hp
        obtain rfl := Option.some.inj hs
        refine h.setWorker hget (fun hr => ?_) fun plan asleep _ hsv => ?_
        · exact absurd hp (hr.not_working _ _ _ _)
        · obtain ⟨h1, h2⟩ := hsv.work hp ok
          exact ⟨h2, rfl, fun hb => absurd hb h1⟩
      · cases hs
    · cases hs
  | finish i =>
    unfold step at hs
    dsimp only at hs
    split at hs
    · rename_i w hget
      split at hs
      · rename_i held batchId success hp
        obtain rfl := Option.some.inj hs
        -- no worker is at work outside a batch
        have hnot : ∀ {batchId runs stop}, ¬ Rested batchId runs stop w :=
          fun hr => absurd hp (hr.not_working _ _ _ _)
        have hmem := List.mem_of_getElem? hget
        unfold Inv at h
        split at h
        · exact absurd (h.1.workers w hmem) hnot
        · exact absurd (h.1.workers w hmem) hnot
        · exact absurd (h.1.workers w hmem) hnot
        · rename_i plan asleep hc
          by_cases hlast : s.completedChannels + 1 = s.activeChannels
          · have hw := (h.finish hget hp false nofun).caller false nofun
            unfold Inv
            rw [if_pos hlast, hc]
            exact hw
          · have hw := (h.finish hget hp asleep fun _ => hlast).caller asleep fun _ => hlast
            unfold Inv
            rw [if_neg hlast, hc]
            exact hw
        · exact absurd (h.workers w hmem) hnot
      · cases hs
    · cases hs

/-- **The invariant holds in every state of an executor in use.** -/
theorem inv_reach {ls : List (Label P)} (h : Reach (step W) {} ls s) : Inv W s := by
  refine h.invariant ?_ fun l s s' hI hs => inv_step hI hs
  exact ⟨⟨rfl, fun _ hw => absurd hw List.not_mem_nil, rfl⟩, nofun⟩

/-! ## 5. The protocol -/

/-- **What the batch protocol promises** in a state of the pool. -/
structure Served (W : Workload P T) (s : WorkerPool P T) : Prop where
  bounded : s.completedChannels ≤ s.activeChannels
  /-- A worker picks up the batches since it was made: each once, in order, none left out. -/
  once : ∀ w ∈ s.workers, ∃ n, w.born + n ≤ s.runs ∧ w.picked = List.range' (w.born + 1) n
  /-- A worker holds only the plan of the `Run` that waits for it, and does its jobs in order. -/
  current : ∀ (i : Nat) w held batchId todo success, s.workers[i]? = some w →
    w.point = .working held batchId todo success → ∃ plan asleep, s.caller = .waiting plan asleep ∧
      held = some (s.runs, plan) ∧ s.runs ∈ w.picked ∧ Progress (W.jobs plan i) w.results todo success
  /-- While no `Run` waits, no worker holds a plan and every worker has had all batches. -/
  finished : (∀ plan asleep, s.caller ≠ .waiting plan asleep) → ∀ w ∈ s.workers,
    w.picked = allBatches s.runs w ∧ ∀ held batchId todo success,
      w.point ≠ .working held batchId todo success
  result : ∀ plan ok, s.caller = .idle (some (plan, ok)) →
    Returned W (s.workers.map Worker.results) plan ok
  /-- While the caller sleeps, a worker with the batch still to finish is awake. -/
  awake : ∀ plan, s.caller = .waiting plan true → ∃ w ∈ s.workers,
    w.completedBatchId ≠ s.batchId ∧ w.point ≠ .asleep

theorem Resting.served {stop : Bool} (h : Resting s stop)
    (hcaller : ∀ plan asleep, s.caller ≠ .waiting plan asleep)
    (hresult : ∀ plan ok, s.caller = .idle (some (plan, ok)) →
      Returned W (s.workers.map Worker.results) plan ok) : Served W s := by
  refine ⟨Nat.le_of_eq h.completed, fun w hw => ?_, ?_, fun _ w hw => ?_, hresult, ?_⟩
  · have hr := h.workers w hw
    refine ⟨s.runs - w.born, ?_, hr.picked⟩
    have := hr.born
    omega
  · intro i w held batchId todo success hget hp
    exact absurd hp ((h.workers w (List.mem_of_getElem? hget)).not_working _ _ _ _)
  · exact ⟨(h.workers w hw).picked, (h.workers w hw).not_working⟩
  · exact fun plan hc => absurd hc (hcaller plan true)

theorem Serving.picked {i : Nat} {w : Worker P T} {batchId runs : Nat}
    (h : Serving W batchId runs plan i w) : ∃ n, w.born + n ≤ runs ∧
      w.picked = List.range' (w.born + 1) n := by
  cases h with
  | fresh _ hborn hpicked => exact ⟨runs - 1 - w.born, by omega, hpicked⟩
  | busy _ hborn hpicked => exact ⟨runs - w.born, by omega, hpicked⟩
  | finished _ hborn hpicked => exact ⟨runs - w.born, by omega, hpicked⟩

theorem Waiting.served {asleep : Bool} (h : Waiting W s plan asleep)
    (hc : s.caller = .waiting plan asleep) : Served W s := by
  have hbound : s.completedChannels ≤ s.activeChannels := by
    have hle := List.count_le_length (a := s.batchId) (l := s.workers.map Worker.completedBatchId)
    rw [List.length_map] at hle
    rw [h.completed, h.active]
    exact hle
  refine ⟨hbound, fun w hw => ?_, ?_, fun hf => absurd hc (hf _ _), fun p ok hi => ?_, fun p hw => ?_⟩
  · obtain ⟨i, hi, hget⟩ := List.getElem_of_mem hw
    exact (h.serving i w (List.getElem?_eq_some_iff.mpr ⟨hi, hget⟩)).picked
  · intro i w held batchId todo success hget hp
    cases h.serving i w hget with
    | fresh _ _ _ hp' =>
      rw [hp] at hp'
      cases hp'
    | finished _ _ _ hp' =>
      rw [hp] at hp'
      rcases hp' with hp' | hp' <;> cases hp'
    | busy _ hborn hpicked todo' success' hp' hprogress =>
      rw [hp] at hp'
      cases hp'
      refine ⟨plan, asleep, hc, rfl, ?_, hprogress⟩
      rw [hpicked, allBatches, List.mem_range'_1]
      omega
  · rw [hc] at hi
    cases hi
  · rw [hc] at hw
    obtain ⟨rfl, rfl⟩ := CallerPoint.waiting.inj hw
    -- not all workers have finished, and only a worker that has finished can be asleep
    by_contra hnone
    have hall : ∀ w ∈ s.workers, w.completedBatchId = s.batchId := by
      intro w hw
      by_contra hopen
      refine hnone ⟨w, hw, hopen, fun hp => ?_⟩
      obtain ⟨i, hi, hget⟩ := List.getElem_of_mem hw
      cases h.serving i w (List.getElem?_eq_some_iff.mpr ⟨hi, hget⟩) with
      | fresh _ _ _ hp' =>
        rw [hp] at hp'
        cases hp'
      | busy _ _ _ _ _ hp' =>
        rw [hp] at hp'
        cases hp'
      | finished hbatch => exact hopen hbatch
    refine h.awake rfl ?_
    have hcount : (s.workers.map Worker.completedBatchId).count s.batchId =
        (s.workers.map Worker.completedBatchId).length := by
      refine List.count_eq_length.mpr fun b hb => ?_
      obtain ⟨w, hw, rfl⟩ := List.mem_map.mp hb
      exact (hall w hw).symm
    rw [h.completed, hcount, List.length_map, h.active]

/-- **The invariant gives the promise.** -/
theorem Inv.served (h : Inv W s) : Served W s := by
  unfold Inv at h
  split at h
  · rename_i last hc
    refine h.1.served (fun _ _ hf => ?_) fun plan ok hl => ?_
    · rw [hc] at hf
      cases hf
    · rw [hc] at hl
      exact h.2 plan ok (CallerPoint.idle.inj hl)
  · rename_i hc
    exact h.1.served (fun _ _ hf => by rw [hc] at hf; cases hf) fun _ _ hf => by rw [hc] at hf; cases hf
  · rename_i hc
    exact h.1.served (fun _ _ hf => by rw [hc] at hf; cases hf) fun _ _ hf => by rw [hc] at hf; cases hf
  · rename_i hc
    exact h.served hc
  · rename_i hc
    exact h.served (fun _ _ hf => by rw [hc] at hf; cases hf) fun _ _ hf => by rw [hc] at hf; cases hf

/-- **Every plan is run once, and is done with when `Run` returns**, by both executors and under every
    interleaving of the caller's and the workers' steps. -/
theorem batches_served :
    (∀ ls (s : WorkerPool CollPlan PlanTask),
      Reach (step MultiThreadExecutor.workload) {} ls s → Served MultiThreadExecutor.workload s) ∧
    ∀ nChannels ls (s : WorkerPool CollPlan CollPlan),
      Reach (step (DynamicMultiThreadExecutor.workload nChannels)) {} ls s →
        Served (DynamicMultiThreadExecutor.workload nChannels) s :=
  ⟨fun _ _ h => (inv_reach h).served, fun _ _ _ h => (inv_reach h).served⟩

end Runs

/-- Two channels, of which the second has no task. -/
def twoQueues : CollPlan := { channels := [{ channelId := 0, tasks := [{}] }, { channelId := 1 }] }

/-- A plan of one channel, which wakes its worker for a second plan that needs another worker; the new
    worker is the first to finish. -/
def addedWorker : List (Label CollPlan) :=
  [.run { channels := [{ channelId := 0, tasks := [{}, {}] }] }, .spawn, .spawned, .workerCheck 0, .publish,
    .workerCheck 0, .check, .work 0 true, .work 0 true, .finish 0, .check, .workerCheck 0,
    .run twoQueues, .spawn, .workerCheck 1, .spawned, .publish, .workerCheck 1, .check, .finish 1,
    .workerCheck 0, .workerCheck 1, .work 0 true, .finish 0, .check]

/-- The second `Run` returns; the first worker has picked up both batches, the other one the second. -/
theorem batches_served_two : ∃ ls s, Reach (step MultiThreadExecutor.workload) {} ls s ∧
    s.caller = .idle (some (twoQueues, true)) ∧ s.workers.map Worker.picked = [[1, 2], [2]] ∧
    Served MultiThreadExecutor.workload s := by
  obtain ⟨ls, -, h⟩ := follow_reach (step MultiThreadExecutor.workload) {} addedWorker
  exact ⟨ls, _, h, rfl, rfl, batches_served.1 ls _ h⟩

end WorkerPool

end OriginCCL
