/-
  File:      OriginCCL/Executor/Polling.lean
  Subject:   THE POLLING EXECUTOR (`src/executor/polling_executor.cpp`), and the order of the tasks in
             both single-threaded executors.

  * `PollingExecutor.tick` -- `Run`, up to its next control point.
  * `Orderly` -- the tasks of every channel in order, and none forgotten.
  * `single_threaded_orderly` -- **both executors are orderly**, whatever the tasks and the kernel do.
-/
import OriginCCL.Executor.Epoll

namespace OriginCCL

open Base

/-! ## 1. The executor -/

/-- The tasks, with the done flags of their sides: all of `send_done`, all of `recv_done`. -/
structure PollingHost (E : Type) extends Tasks E where
  sendDone : Nat → Nat → E → Bool
  recvDone : Nat → Nat → E → Bool
  setPlanWaitMode : CollPlan → E → E

/-- Where `Run` stands. -/
inductive PollingPoint where
  | starting (i : Nat)
  | waiting
  | sweeping (i : Nat)
  | returned (ok : Bool)

structure PollingExecutor (E : Type) where
  env : E
  point : PollingPoint := .returned true
  slots : Slots := {}

namespace PollingExecutor

section Model

variable {E : Type} (S : PollingHost E)

def startFrontTask (slot : Nat) (s : PollingExecutor E) : Bool × PollingExecutor E :=
  let i := s.slots.indexAt slot
  match (s.slots.plan.tasksOf slot)[i]? with
  | none => (true, s)
  | some task =>
    if task.topology.isNone then (false, s)
    else
      match S.collectiveInit slot i s.env with
      | (false, env) => (false, { s with env := env, slots := s.slots.note slot (.init i false) })
      | (true, env) =>
        (true, { s with env := env, slots := (s.slots.initTask slot).enter slot i task })

/-- `CollectiveStep` for a side that is not done. -/
def stepSide (slot i : Nat) (op : CollEvent) (done : Bool) (s : PollingExecutor E) :
    Bool × PollingExecutor E :=
  if done then (true, s)
  else
    match S.collectiveStep slot i op s.env with
    | (ok, env) => (ok, { s with env := env, slots := s.slots.note slot (.step i op ok) })

/-- One iteration of the loop over the slots; whether it made progress decides about `sched_yield`. -/
def sweep (slot : Nat) (s : PollingExecutor E) : Bool × PollingExecutor E :=
  match s.slots.currentAt slot with
  | none => (true, s)
  | some (i, _) =>
    let sendDone := S.sendDone slot i s.env
    let recvDone := S.recvDone slot i s.env
    match stepSide S slot i .writable sendDone s with
    | (false, s) => (false, s)
    | (true, s) =>
      match stepSide S slot i .readable recvDone s with
      | (false, s) => (false, s)
      | (true, s) =>
        if S.collectiveDone slot i s.env then
          startFrontTask S slot { s with slots := (s.slots.note slot (.done i)).leave slot }
        else (true, s)

/-- On to a control point, or out of `Run`. -/
def proceed (point : PollingPoint) (r : Bool × PollingExecutor E) : PollingExecutor E :=
  { r.2 with point := if r.1 then point else .returned false }

/-- `Run`, up to its next control point. -/
def tick (s : PollingExecutor E) : PollingExecutor E :=
  match s.point with
  | .starting i =>
    if i < s.slots.plan.channels.length then
      if (s.slots.plan.tasksOf i).isEmpty then { s with point := .starting (i + 1) }
      else proceed (.starting (i + 1)) (startFrontTask S i s)
    else { s with point := .waiting }
  | .waiting => { s with point := if 0 < s.slots.active then .sweeping 0 else .returned true }
  | .sweeping i =>
    if i < s.slots.plan.channels.length then proceed (.sweeping (i + 1)) (sweep S i s)
    else { s with point := .waiting }
  | .returned _ => s

/-- The start of `Run`. -/
def begin (plan : CollPlan) (s : PollingExecutor E) : PollingExecutor E :=
  { env := S.setPlanWaitMode plan s.env, slots := Slots.ofPlan plan
    point := if plan.channels.isEmpty then .returned true else .starting 0 }

/-- What is done with an executor: it runs a plan, or goes on with it. -/
inductive Label where
  | run (plan : CollPlan)
  | tick

/-- **An executor in use**: plans run one after the other. -/
def step (l : Label) (s : PollingExecutor E) : Option (PollingExecutor E) :=
  match s.point, l with
  | .returned _, .run plan => some (begin S plan s)
  | .returned _, .tick => none
  | _, .tick => some (tick S s)
  | _, .run _ => none

end Model

/-! ## 2. Runs -/

section Runs

variable {E : Type} (S : PollingHost E) {s : PollingExecutor E}

/-- **`StartFrontTask` keeps the books**, and leaves its slot settled. -/
theorem startFrontTask_spec {slot : Nat} (h : s.slots.Going) (hnone : s.slots.currentAt slot = none) :
    (startFrontTask S slot s).2.slots.Books ∧
      ((startFrontTask S slot s).1 = true → Slots.Kept slot s.slots (startFrontTask S slot s).2.slots ∧
        (startFrontTask S slot s).2.slots.Settled slot) := by
  unfold startFrontTask
  dsimp only
  split
  · rename_i hi
    have hlen := List.getElem?_eq_none_iff.mp hi
    exact ⟨h.toBooks, fun _ => ⟨h.kept slot, fun _ => Nat.le_antisymm (h.bound slot) hlen⟩⟩
  · rename_i task htask
    split
    · exact ⟨h.toBooks, fun hf => by cases hf⟩
    · split
      · refine ⟨h.books_note (t := .failed (s.slots.indexAt slot)) ?_, fun hf => by cases hf⟩
        rw [Slots.stageAt, hnone]
        exact if_pos rfl
      · have hk := h.initEnter hnone htask
        refine ⟨hk.going.toBooks, fun _ => ⟨hk, fun hc => ?_⟩⟩
        have hcur : ((s.slots.initTask slot).enter slot (s.slots.indexAt slot) task).currentAt slot =
            some (s.slots.indexAt slot, task) := by
          refine (Slots.currentAt_enter ?_ slot).trans (if_pos rfl)
          rw [h.current]
          exact Slots.indexAt_lt (List.getElem?_eq_some_iff.mp htask).1
        exact absurd (hcur.symm.trans hc) (by simp)

/-- A step of the current task. -/
theorem stepSide_spec {slot i : Nat} {task : PlanTask} (h : s.slots.Going)
    (hcur : s.slots.currentAt slot = some (i, task)) (op : CollEvent) (done : Bool) :
    (stepSide S slot i op done s).2.slots.Books ∧
      ((stepSide S slot i op done s).1 = true →
        Slots.Kept slot s.slots (stepSide S slot i op done s).2.slots ∧
          (stepSide S slot i op done s).2.slots.currentAt slot = some (i, task)) := by
  unfold stepSide
  split
  · exact ⟨h.toBooks, fun _ => ⟨h.kept slot, hcur⟩⟩
  · split
    rename_i ok env _
    cases ok with
    | true =>
      have hk := h.stepTask hcur op
      exact ⟨hk.going.toBooks, fun _ => ⟨hk, hcur⟩⟩
    | false =>
      refine ⟨h.books_note (t := .failed i) ?_, fun hf => by cases hf⟩
      rw [Slots.stageAt_some hcur]
      exact if_pos rfl

/-- **An iteration of the sweep keeps the books.** -/
theorem sweep_spec (h : s.slots.Going) (slot : Nat) : (sweep S slot s).2.slots.Books ∧
    ((sweep S slot s).1 = true → Slots.Kept slot s.slots (sweep S slot s).2.slots ∧
      (s.slots.Settled slot → (sweep S slot s).2.slots.Settled slot)) := by
  unfold sweep
  split
  · exact ⟨h.toBooks, fun _ => ⟨h.kept slot, id⟩⟩
  · rename_i i task hcur
    dsimp only
    obtain ⟨hb1, hk1⟩ := stepSide_spec S h hcur .writable (S.sendDone slot i s.env)
    split
    · rename_i e
      rw [e] at hb1
      exact ⟨hb1, fun hf => by cases hf⟩
    · rename_i s1 e1
      rw [e1] at hk1
      obtain ⟨hk1, hcur1⟩ := hk1 rfl
      obtain ⟨hb2, hk2⟩ := stepSide_spec S hk1.going hcur1 .readable (S.recvDone slot i s.env)
      split
      · rename_i e
        rw [e] at hb2
        exact ⟨hb2, fun hf => by cases hf⟩
      · rename_i s2 e2
        rw [e2] at hk2
        obtain ⟨hk2, hcur2⟩ := hk2 rfl
        split
        · have hk3 := hk2.going.leaveTask hcur2
          have hnone : ((s2.slots.note slot (.done i)).leave slot).currentAt slot = none :=
            (Slots.currentAt_leave (Slots.currentAt_lt hcur2) _).trans (if_pos rfl)
          obtain ⟨h1, h2⟩ := startFrontTask_spec S (s := { s2 with
            slots := (s2.slots.note slot (.done i)).leave slot }) hk3.going hnone
          exact ⟨h1, fun hok => ⟨((hk1.trans hk2).trans hk3).trans (h2 hok).1, fun _ => (h2 hok).2⟩⟩
        · refine ⟨hk2.going.toBooks, fun _ => ⟨hk1.trans hk2, fun _ hc => ?_⟩⟩
          have hc : s2.slots.currentAt slot = none := hc
          rw [hcur2] at hc
          cases hc

/-- **The books at every control point.** -/
def Inv (s : PollingExecutor E) : Prop :=
  match s.point with
  | .starting i => s.slots.Started i
  | .waiting => s.slots.InLoop
  | .sweeping _ => s.slots.InLoop
  | .returned ok => s.slots.Books ∧ (ok = true → s.slots.AllDone)

variable {S}

/-- One step of `Run`. -/
theorem inv_tick (h : s.Inv) : (tick S s).Inv := by
  unfold tick
  unfold Inv at h
  split
  · rename_i i hp
    rw [hp] at h
    have h : s.slots.Started i := h
    split
    · split
      · rename_i hempty
        refine h.next (h.going.kept i) fun _ => ?_
        have hb := h.going.bound i
        rw [List.isEmpty_iff.mp hempty] at hb ⊢
        exact Nat.le_zero.mp hb
      · obtain ⟨h1, h2⟩ := startFrontTask_spec S h.going (h.free i (Nat.le_refl i))
        unfold proceed
        cases hok : (startFrontTask S i s).1 with
        | false => exact ⟨h1, fun hf => by cases hf⟩
        | true => exact h.next (h2 hok).1 (h2 hok).2
    · exact h.all (by omega)
  · rename_i hp
    rw [hp] at h
    have h : s.slots.InLoop := h
    split
    · exact h
    · rename_i hactive
      exact ⟨h.going.toBooks, fun _ => h.all_done (by omega)⟩
  · rename_i i hp
    rw [hp] at h
    split
    · obtain ⟨h1, h2⟩ := sweep_spec S h.going i
      unfold proceed
      cases hok : (sweep S i s).1 with
      | false => exact ⟨h1, fun hf => by cases hf⟩
      | true => exact h.next (h2 hok).1 (h2 hok).2
    · exact h
  · unfold Inv
    exact h

theorem inv_begin (plan : CollPlan) (s : PollingExecutor E) : (begin S plan s).Inv := by
  have hstart := Slots.started_ofPlan plan
  unfold begin Inv
  dsimp only
  cases hempty : plan.channels.isEmpty with
  | true => exact ⟨hstart.going.toBooks, fun _ => Slots.allDone_ofPlan hempty⟩
  | false => exact hstart

theorem inv_step {l : Label} {s' : PollingExecutor E} (h : s.Inv) (hs : step S l s = some s') :
    s'.Inv := by
  unfold step at hs
  split at hs
  · obtain rfl := Option.some.inj hs
    exact inv_begin _ s
  · cases hs
  · obtain rfl := Option.some.inj hs
    exact inv_tick h
  · cases hs

/-- **The books hold in every state of an executor in use.** -/
theorem inv_reach {env : E} {ls : List Label} (h : Reach (step S) { env := env } ls s) : s.Inv := by
  refine h.invariant ?_ fun l s s' hI hs => inv_step hI hs
  exact ⟨(Slots.going_ofPlan {}).toBooks, fun _ => Slots.allDone_ofPlan rfl⟩

end Runs

end PollingExecutor

/-! ## 3. Both executors -/

/-- **An orderly run**: the tasks of every channel are initialised once each and in order, each after
    those before it are done, and only the current one is stepped; `active` counts the current tasks,
    which are those initialised and not done; and a run that succeeds leaves no task undone. -/
structure Orderly (s : Slots) (returned succeeded : Prop) : Prop where
  order : ∀ slot, InOrder (onQueue slot s.acts)
  active : s.active = s.current.countP Option.isSome
  current : ¬ returned → ∀ slot i, (∃ task, s.currentAt slot = some (i, task)) ↔
    .init i true ∈ onQueue slot s.acts ∧ .done i ∉ onQueue slot s.acts
  done : succeeded → ∀ slot, ∀ i < (s.plan.tasksOf slot).length, .done i ∈ onQueue slot s.acts

/-- A run that goes on is orderly. -/
theorem Slots.Going.orderly {s : Slots} {returned succeeded : Prop} (h : s.Going)
    (hs : ¬ succeeded) : Orderly s returned succeeded :=
  ⟨h.inOrder, h.active, fun _ => h.current_iff, fun hd => absurd hd hs⟩

theorem EpollExecutor.Inv.orderly {E : Type} {s : EpollExecutor E} (h : s.Inv) :
    Orderly s.slots (∃ ok, s.point = .returned ok) (s.point = .returned true) := by
  unfold EpollExecutor.Inv at h
  split at h
  · rename_i hp
    exact h.going.orderly fun hd => by cases hp.symm.trans hd
  · rename_i hp
    exact h.going.orderly fun hd => by cases hp.symm.trans hd
  · rename_i hp
    exact h.going.orderly fun hd => by cases hp.symm.trans hd
  · rename_i ok hp
    refine ⟨h.1.inOrder, h.1.active, fun hr => absurd ⟨ok, hp⟩ hr, fun hd slot i hi => ?_⟩
    rw [hp] at hd
    exact (h.2 (EpollPoint.returned.inj hd)).done hi

theorem PollingExecutor.Inv.orderly {E : Type} {s : PollingExecutor E} (h : s.Inv) :
    Orderly s.slots (∃ ok, s.point = .returned ok) (s.point = .returned true) := by
  unfold PollingExecutor.Inv at h
  split at h
  · rename_i hp
    exact h.going.orderly fun hd => by cases hp.symm.trans hd
  · rename_i hp
    exact h.going.orderly fun hd => by cases hp.symm.trans hd
  · rename_i hp
    exact h.going.orderly fun hd => by cases hp.symm.trans hd
  · rename_i ok hp
    refine ⟨h.1.inOrder, h.1.active, fun hr => absurd ⟨ok, hp⟩ hr, fun hd slot i hi => ?_⟩
    rw [hp] at hd
    exact (h.2 (PollingPoint.returned.inj hd)).done hi

/-- **The single-threaded executors keep the order of every channel and never stop early**, whatever
    plans they run, whatever the tasks do and whatever events the kernel reports. -/
theorem single_threaded_orderly {E : Type} (epoll : EpollHost E) (polling : PollingHost E) (env : E) :
    (∀ ls s, Reach (EpollExecutor.step epoll) { env := env } ls s →
      Orderly s.slots (∃ ok, s.point = .returned ok) (s.point = .returned true)) ∧
    ∀ ls s, Reach (PollingExecutor.step polling) { env := env } ls s →
      Orderly s.slots (∃ ok, s.point = .returned ok) (s.point = .returned true) :=
  ⟨fun _ _ h => (EpollExecutor.inv_reach h).orderly, fun _ _ h => (PollingExecutor.inv_reach h).orderly⟩

/-- Two channels: a task of no bytes before a Recv, and a Recv. -/
def threeTasks : CollPlan := { channels :=
  [{ channelId := 0, tasks :=
      [{ topology := some .p2p, func := .recv },
        { topology := some .p2p, func := .recv, recvTransports := [⟨.p2p, 1, 0⟩] }] },
    { channelId := 1, tasks :=
      [{ topology := some .p2p, func := .recv, recvTransports := [⟨.p2p, 2, 0⟩] }] }] }

/-- The task of no bytes is done at once, a Recv after its second step; `E` records the steps. -/
def twoStepTasks : Tasks (List (Nat × Nat)) where
  collectiveInit _ _ steps := (true, steps)
  collectiveStep slot i _ steps := (true, (slot, i) :: steps)
  collectiveDone slot i steps := (slot, i) = (0, 0) ∨ 2 ≤ steps.count (slot, i)

/-- A kernel that reports both connections readable, and a channel the plan does not have. -/
def twoStepEpoll : EpollHost (List (Nat × Nat)) where
  toTasks := twoStepTasks
  endpoint l := ⟨if l.src = 1 then 7 else 8, 1, Nat.one_pos⟩
  setPlanWaitMode _ steps := steps
  epollCreate steps := (true, steps)
  epollAdd _ steps := (true, steps)
  epollWait steps := (.ready [⟨8, 1⟩, ⟨0, 1⟩, ⟨2, 1⟩], steps)

def twoStepPolling : PollingHost (List (Nat × Nat)) where
  toTasks := twoStepTasks
  sendDone _ _ _ := true
  recvDone slot i steps := twoStepTasks.collectiveDone slot i steps
  setPlanWaitMode _ steps := steps

/-- Both executors return with all three tasks done, after two steps of each Recv. -/
theorem single_threaded_orderly_three :
    (∃ ls s, Reach (EpollExecutor.step twoStepEpoll) { env := [] } ls s ∧ s.point = .returned true ∧
      s.slots.acts.length = 10 ∧ ∀ slot, ∀ i < (threeTasks.tasksOf slot).length,
        .done i ∈ onQueue slot s.slots.acts) ∧
    ∃ ls s, Reach (PollingExecutor.step twoStepPolling) { env := [] } ls s ∧ s.point = .returned true ∧
      s.slots.acts.length = 10 ∧ ∀ slot, ∀ i < (threeTasks.tasksOf slot).length,
        .done i ∈ onQueue slot s.slots.acts := by
  obtain ⟨hepoll, hpolling⟩ := single_threaded_orderly twoStepEpoll twoStepPolling []
  obtain ⟨ls, -, h⟩ := follow_reach (EpollExecutor.step twoStepEpoll) { env := [] }
    (.run threeTasks :: List.replicate 20 .tick)
  obtain ⟨ls', -, h'⟩ := follow_reach (PollingExecutor.step twoStepPolling) { env := [] }
    (.run threeTasks :: List.replicate 20 .tick)
  exact ⟨⟨ls, _, h, rfl, rfl, (hepoll ls _ h).done rfl⟩, ls', _, h', rfl, rfl, (hpolling ls' _ h').done rfl⟩

end OriginCCL
