/-
  File:      OriginCCL/Executor/Slots.lean
  Subject:   THE SLOTS OF A SINGLE-THREADED EXECUTOR, one for every channel of a plan.

  * `Tasks` -- the tasks of a plan, as arbitrary functions of a state `E` outside the executor.
  * `Slots` -- the plan and the local variables of `Run`: the current task and the next index of every
    slot, and the number of current tasks.
  * `Slots.Going` -- **the books of a run that goes on**: every channel is a queue worked off in order,
    of which the slot has the current task. `Slots.Books` -- what is left of them after a failure.
-/
import OriginCCL.Base.Fifo
import OriginCCL.Plan.Planner

namespace OriginCCL

open Base

/-- The tasks of a plan, by slot and by number in their channel. `E` is the state of everything outside
    the executor, their cursors included. -/
structure Tasks (E : Type) where
  collectiveInit : Nat → Nat → E → Bool × E
  collectiveStep : Nat → Nat → CollEvent → E → Bool × E
  collectiveDone : Nat → Nat → E → Bool

/-- The tasks of a slot. -/
def CollPlan.tasksOf (plan : CollPlan) (slot : Nat) : List PlanTask :=
  match plan.channels[slot]? with
  | some channel => channel.tasks
  | none => []

/-- The plan and the variables of `Run`; a current task is its number in its channel and the task
    itself. `acts` records what is done to the tasks. -/
structure Slots where
  plan : CollPlan := {}
  current : List (Option (Nat × PlanTask)) := []
  taskIndex : List Nat := []
  active : Nat := 0
  acts : List (Nat × Act CollEvent) := []

namespace Slots

/-- `current` and `task_index` at the start of `Run`. -/
def ofPlan (plan : CollPlan) : Slots where
  plan := plan
  current := plan.channels.map fun _ => none
  taskIndex := plan.channels.map fun _ => 0

/-- `current[slot]` -/
def currentAt (s : Slots) (slot : Nat) : Option (Nat × PlanTask) := s.current.getD slot none

/-- `task_index[slot]` -/
def indexAt (s : Slots) (slot : Nat) : Nat := s.taskIndex.getD slot 0

def note (s : Slots) (slot : Nat) (a : Act CollEvent) : Slots := { s with acts := s.acts ++ [(slot, a)] }

/-- `++task_index[slot]` -/
def advance (s : Slots) (slot : Nat) : Slots :=
  { s with taskIndex := s.taskIndex.set slot (s.indexAt slot + 1) }

/-- `CollectiveInit` of the next task returned true; `++task_index[slot]`. -/
def initTask (s : Slots) (slot : Nat) : Slots :=
  (s.note slot (.init (s.indexAt slot) true)).advance slot

/-- `current[slot] = &task; ++active` -/
def enter (s : Slots) (slot i : Nat) (task : PlanTask) : Slots :=
  { s with current := s.current.set slot (some (i, task)), active := s.active + 1 }

/-- `--active; current[slot] = nullptr` -/
def leave (s : Slots) (slot : Nat) : Slots :=
  { s with current := s.current.set slot none, active := s.active - 1 }

/-! ## 1. Books -/

/-- The stage of a slot's channel. -/
def stageAt (s : Slots) (slot : Nat) : Stage :=
  match s.currentAt slot with
  | none => .idle (s.indexAt slot)
  | some (i, _) => .running i

/-- **What holds of every run**, also of one that failed: the acts on every channel keep its order, and
    `active` counts the slots with a current task. -/
structure Books (s : Slots) : Prop where
  current : s.current.length = s.plan.channels.length
  index : s.taskIndex.length = s.plan.channels.length
  active : s.active = s.current.countP Option.isSome
  order : ∀ slot, ∃ stage, (Stage.idle 0).run (onQueue slot s.acts) = some stage

/-- **What holds of a run that goes on**: the stage of every channel is that of its slot. -/
structure Going (s : Slots) : Prop extends Books s where
  stage : ∀ slot, (Stage.idle 0).run (onQueue slot s.acts) = some (s.stageAt slot)
  task : ∀ slot i task, s.currentAt slot = some (i, task) →
    s.indexAt slot = i + 1 ∧ (s.plan.tasksOf slot)[i]? = some task
  bound : ∀ slot, s.indexAt slot ≤ (s.plan.tasksOf slot).length

/-- A step of the run at one slot: the books go on, and the other slots are as before. -/
structure Kept (slot : Nat) (s s' : Slots) : Prop where
  going : s'.Going
  plan : s'.plan = s.plan
  other : ∀ slot' ≠ slot, s'.currentAt slot' = s.currentAt slot' ∧ s'.indexAt slot' = s.indexAt slot'

/-- A slot without a current task has no task left. -/
def Settled (s : Slots) (slot : Nat) : Prop :=
  s.currentAt slot = none → s.indexAt slot = (s.plan.tasksOf slot).length

section Lemmas

variable {s : Slots} {slot slot' i : Nat} {task : PlanTask}

theorem currentAt_set (s : Slots) (c : Option (Nat × PlanTask)) (h : slot < s.current.length)
    (slot' : Nat) : (s.current.set slot c).getD slot' none =
      if slot' = slot then c else s.currentAt slot' := by
  unfold currentAt
  by_cases he : slot' = slot
  · rw [if_pos he, he, List.getD_eq_getElem?_getD, List.getElem?_set_self h, Option.getD_some]
  · rw [if_neg he, List.getD_eq_getElem?_getD, List.getElem?_set_ne (Ne.symm he),
      List.getD_eq_getElem?_getD]

/-- `current` after a task was made current. -/
theorem currentAt_enter (h : slot < s.current.length) (slot' : Nat) :
    ((s.initTask slot).enter slot i task).currentAt slot' =
      if slot' = slot then some (i, task) else s.currentAt slot' := currentAt_set (s.initTask slot) _ h slot'

/-- `current` after the current task was done. -/
theorem currentAt_leave (h : slot < s.current.length) (slot' : Nat) :
    (s.leave slot).currentAt slot' = if slot' = slot then none else s.currentAt slot' :=
  currentAt_set s none h slot'

theorem indexAt_advance (h : slot < s.taskIndex.length) (slot' : Nat) :
    (s.advance slot).indexAt slot' = if slot' = slot then s.indexAt slot + 1 else s.indexAt slot' := by
  unfold indexAt advance
  by_cases he : slot' = slot
  · rw [if_pos he, he, List.getD_eq_getElem?_getD, List.getElem?_set_self h, Option.getD_some]
    rfl
  · rw [if_neg he, List.getD_eq_getElem?_getD, List.getElem?_set_ne (Ne.symm he),
      List.getD_eq_getElem?_getD]

theorem currentAt_lt {c : Nat × PlanTask} (h : s.currentAt slot = some c) : slot < s.current.length := by
  by_contra hlt
  rw [currentAt, List.getD_eq_getElem?_getD, List.getElem?_eq_none (by omega)] at h
  cases h

theorem indexAt_lt (h : s.indexAt slot < (s.plan.tasksOf slot).length) :
    slot < s.plan.channels.length := by
  by_contra hlt
  rw [CollPlan.tasksOf, List.getElem?_eq_none (by omega)] at h
  exact Nat.not_lt_zero _ h

/-- The count of the current tasks when a slot changes. -/
theorem countP_set (c : Option (Nat × PlanTask)) (h : slot < s.current.length) :
    (s.current.set slot c).countP Option.isSome + (if (s.currentAt slot).isSome then 1 else 0) =
      s.current.countP Option.isSome + if c.isSome then 1 else 0 := by
  have hget : s.currentAt slot = s.current[slot] := by
    rw [currentAt, List.getD_eq_getElem _ _ h]
  rw [hget, List.countP_set h]
  have hle : (if s.current[slot].isSome = true then 1 else 0) ≤ s.current.countP Option.isSome := by
    split
    · rename_i hs
      exact List.countP_pos_iff.mpr ⟨_, List.getElem_mem h, hs⟩
    · exact Nat.zero_le _
  omega

/-- The books of the acts of a slot. -/
theorem Going.note_run (h : s.Going) {a : Act CollEvent} {t : Stage}
    (ha : (s.stageAt slot).act a = some t) (slot' : Nat) :
    (Stage.idle 0).run (onQueue slot' (s.acts ++ [(slot, a)])) =
      some (if slot' = slot then t else s.stageAt slot') := by
  by_cases he : slot' = slot
  · rw [if_pos he, he, onQueue_self, Stage.run_snoc (h.stage slot)]
    exact ha
  · rw [if_neg he, onQueue_other (Ne.symm he)]
    exact h.stage slot'

/-- An act after which the run fails. -/
theorem Going.books_note (h : s.Going) {a : Act CollEvent} {t : Stage}
    (ha : (s.stageAt slot).act a = some t) : (s.note slot a).Books :=
  ⟨h.current, h.index, h.active, fun slot' => ⟨_, h.note_run ha slot'⟩⟩

/-! ## 2. Changes of a slot -/

theorem Kept.trans {s' s'' : Slots} (h : Kept slot s s') (h' : Kept slot s' s'') : Kept slot s s'' :=
  ⟨h'.going, h'.plan.trans h.plan, fun slot' he =>
    ⟨(h'.other slot' he).1.trans (h.other slot' he).1,
      (h'.other slot' he).2.trans (h.other slot' he).2⟩⟩

theorem Going.kept (h : s.Going) (slot : Nat) : Kept slot s s := ⟨h, rfl, fun _ _ => ⟨rfl, rfl⟩⟩

/-- The other slots stay settled. -/
theorem Kept.settled {s' : Slots} (h : Kept slot s s') (he : slot' ≠ slot) (hs : s.Settled slot') :
    s'.Settled slot' := by
  intro hc
  obtain ⟨h1, h2⟩ := h.other slot' he
  rw [h1] at hc
  rw [h2, h.plan]
  exact hs hc

/-- A change of one slot keeps the books if the slot's own are kept. -/
theorem Going.change (h : s.Going) (slot : Nat) {s' : Slots} (hplan : s'.plan = s.plan)
    (hcurrent : s'.current.length = s.current.length) (hindex : s'.taskIndex.length = s.taskIndex.length)
    (hactive : s'.active = s'.current.countP Option.isSome)
    (hother : ∀ slot' ≠ slot, s'.currentAt slot' = s.currentAt slot' ∧
      s'.indexAt slot' = s.indexAt slot' ∧ onQueue slot' s'.acts = onQueue slot' s.acts)
    (hrun : (Stage.idle 0).run (onQueue slot s'.acts) = some (s'.stageAt slot))
    (htask : ∀ i task, s'.currentAt slot = some (i, task) →
      s'.indexAt slot = i + 1 ∧ (s.plan.tasksOf slot)[i]? = some task)
    (hbound : s'.indexAt slot ≤ (s.plan.tasksOf slot).length) : Kept slot s s' := by
  have hstage : ∀ slot', (Stage.idle 0).run (onQueue slot' s'.acts) = some (s'.stageAt slot') := by
    intro slot'
    by_cases he : slot' = slot
    · rw [he]
      exact hrun
    · obtain ⟨h1, h2, h3⟩ := hother slot' he
      rw [h3, stageAt, h1, h2]
      exact h.stage slot'
  refine ⟨⟨⟨by rw [hcurrent, hplan]; exact h.current, by rw [hindex, hplan]; exact h.index, hactive,
    fun slot' => ⟨_, hstage slot'⟩⟩, hstage, fun slot' i task hc => ?_, fun slot' => ?_⟩, hplan,
    fun slot' he => ⟨(hother slot' he).1, (hother slot' he).2.1⟩⟩
  · by_cases he : slot' = slot
    · rw [he] at hc ⊢
      rw [hplan]
      exact htask i task hc
    · obtain ⟨h1, h2, -⟩ := hother slot' he
      rw [h1] at hc
      rw [h2, hplan]
      exact h.task slot' i task hc
  · by_cases he : slot' = slot
    · rw [he, hplan]
      exact hbound
    · rw [(hother slot' he).2.1, hplan]
      exact h.bound slot'

theorem initTask_indexAt (hslot : slot < s.taskIndex.length) (slot' : Nat) :
    (s.initTask slot).indexAt slot' = if slot' = slot then s.indexAt slot + 1 else s.indexAt slot' :=
  indexAt_advance (s := s.note slot (.init (s.indexAt slot) true)) hslot slot'

theorem Going.indexAt_initDone (h : s.Going) (hlt : s.indexAt slot < (s.plan.tasksOf slot).length) :
    ((s.initTask slot).note slot (.done (s.indexAt slot))).indexAt slot = s.indexAt slot + 1 := by
  refine (initTask_indexAt ?_ slot).trans (if_pos rfl)
  rw [h.index]
  exact indexAt_lt hlt

/-- What the acts of an initialised task lead to. -/
theorem Going.initTask_run (h : s.Going) (hnone : s.currentAt slot = none) :
    (Stage.idle 0).run (onQueue slot (s.initTask slot).acts) = some (.running (s.indexAt slot)) := by
  have hact : (s.stageAt slot).act (.init (s.indexAt slot) true : Act CollEvent) =
      some (.running (s.indexAt slot)) := by
    rw [stageAt, hnone]
    exact if_pos rfl
  have hrun := h.note_run hact slot
  rw [if_pos rfl] at hrun
  exact hrun

/-- **A task that is done at once** leaves its slot free for the next. -/
theorem Going.initDone (h : s.Going) (hnone : s.currentAt slot = none)
    (hlt : s.indexAt slot < (s.plan.tasksOf slot).length) :
    Kept slot s ((s.initTask slot).note slot (.done (s.indexAt slot))) := by
  have hslot : slot < s.taskIndex.length := by
    rw [h.index]
    exact indexAt_lt hlt
  have hindex : ∀ slot', ((s.initTask slot).note slot (.done (s.indexAt slot))).indexAt slot' =
      if slot' = slot then s.indexAt slot + 1 else s.indexAt slot' := initTask_indexAt hslot
  have hcur : ∀ slot', ((s.initTask slot).note slot (.done (s.indexAt slot))).currentAt slot' =
      s.currentAt slot' := fun _ => rfl
  refine h.change slot rfl rfl (List.length_set ..) h.active (fun slot' he => ?_) ?_ ?_ ?_
  · refine ⟨rfl, (hindex slot').trans (if_neg he), ?_⟩
    show onQueue slot' (s.acts ++ [(slot, _)] ++ [(slot, _)]) = _
    rw [onQueue_other (Ne.symm he), onQueue_other (Ne.symm he)]
  · rw [stageAt, hcur, hnone]
    show (Stage.idle 0).run (onQueue slot ((s.initTask slot).acts ++ [(slot, _)])) = _
    rw [onQueue_self, Stage.run_snoc (h.initTask_run hnone), hindex, if_pos rfl]
    exact if_pos rfl
  · intro i task hc
    rw [hcur, hnone] at hc
    cases hc
  · rw [hindex, if_pos rfl]
    exact hlt

/-- **A task that is not done at once** becomes the current task of its slot. -/
theorem Going.initEnter (h : s.Going) (hnone : s.currentAt slot = none)
    (htask : (s.plan.tasksOf slot)[s.indexAt slot]? = some task) :
    Kept slot s ((s.initTask slot).enter slot (s.indexAt slot) task) := by
  have hlt := (List.getElem?_eq_some_iff.mp htask).1
  have hslot : slot < s.current.length := by
    rw [h.current]
    exact indexAt_lt hlt
  have hslot' : slot < s.taskIndex.length := by
    rw [h.index]
    exact indexAt_lt hlt
  have hindex : ∀ slot', ((s.initTask slot).enter slot (s.indexAt slot) task).indexAt slot' =
      if slot' = slot then s.indexAt slot + 1 else s.indexAt slot' := initTask_indexAt hslot'
  have hcur : ∀ slot', ((s.initTask slot).enter slot (s.indexAt slot) task).currentAt slot' =
      if slot' = slot then some (s.indexAt slot, task) else s.currentAt slot' := currentAt_enter hslot
  refine h.change slot rfl (List.length_set ..) (List.length_set ..) ?_
    (fun slot' he => ?_) ?_ ?_ ?_
  · have hcount := countP_set (s := s) (some (s.indexAt slot, task)) hslot
    rw [hnone] at hcount
    show s.active + 1 = (s.current.set slot _).countP Option.isSome
    rw [h.active]
    exact hcount.symm
  · refine ⟨(hcur slot').trans (if_neg he), (hindex slot').trans (if_neg he), ?_⟩
    exact onQueue_other (Ne.symm he) _ _
  · rw [stageAt, hcur, if_pos rfl]
    exact h.initTask_run hnone
  · intro i t hc
    rw [hcur, if_pos rfl] at hc
    cases hc
    rw [hindex, if_pos rfl]
    exact ⟨rfl, htask⟩
  · rw [hindex, if_pos rfl]
    exact hlt

/-- The stage of a slot with a current task. -/
theorem stageAt_some (hcur : s.currentAt slot = some (i, task)) : s.stageAt slot = .running i := by
  rw [stageAt, hcur]

/-- **A step of the current task.** -/
theorem Going.stepTask (h : s.Going) (hcur : s.currentAt slot = some (i, task)) (event : CollEvent) :
    Kept slot s (s.note slot (.step i event true)) := by
  have hact : (s.stageAt slot).act (.step i event true) = some (.running i) := by
    rw [stageAt_some hcur]
    exact if_pos rfl
  refine h.change slot rfl rfl rfl h.active (fun slot' he => ⟨rfl, rfl, ?_⟩) ?_
    (fun j t hc => h.task slot j t hc) (h.bound slot)
  · exact onQueue_other (Ne.symm he) _ _
  · have hrun := h.note_run hact slot
    rw [if_pos rfl] at hrun
    rw [show (s.note slot (.step i event true)).stageAt slot = s.stageAt slot from rfl,
      stageAt_some hcur]
    exact hrun

/-- **The current task is done** and its slot is free for the next. -/
theorem Going.leaveTask (h : s.Going) (hcur : s.currentAt slot = some (i, task)) :
    Kept slot s ((s.note slot (.done i)).leave slot) := by
  have hslot := currentAt_lt hcur
  have hact : (s.stageAt slot).act (.done i : Act CollEvent) = some (.idle (i + 1)) := by
    rw [stageAt_some hcur]
    exact if_pos rfl
  have hcur' : ∀ slot', ((s.note slot (.done i)).leave slot).currentAt slot' =
      if slot' = slot then none else s.currentAt slot' := currentAt_leave hslot
  refine h.change slot rfl (List.length_set ..) rfl ?_ (fun slot' he => ?_) ?_ ?_
    (h.bound slot)
  · have hcount := countP_set (s := s) none hslot
    rw [hcur] at hcount
    show s.active - 1 = (s.current.set slot none).countP Option.isSome
    rw [h.active]
    simp only [Option.isSome_some, if_true, Option.isSome_none, Bool.false_eq_true, if_false] at hcount
    omega
  · refine ⟨(hcur' slot').trans (if_neg he), rfl, ?_⟩
    exact onQueue_other (Ne.symm he) _ _
  · have hrun := h.note_run hact slot
    rw [if_pos rfl] at hrun
    rw [stageAt, hcur', if_pos rfl]
    refine hrun.trans ?_
    rw [show ((s.note slot (.done i)).leave slot).indexAt slot = s.indexAt slot from rfl,
      (h.task slot i task hcur).1]
  · intro j t hc
    rw [hcur', if_pos rfl] at hc
    cases hc

theorem currentAt_ofPlan (plan : CollPlan) (slot : Nat) : (ofPlan plan).currentAt slot = none := by
  rw [currentAt, List.getD_eq_getElem?_getD]
  show ((plan.channels.map fun _ => none)[slot]?).getD none = none
  rw [List.getElem?_map]
  cases plan.channels[slot]? <;> rfl

/-- The books at the start of `Run`. -/
theorem going_ofPlan (plan : CollPlan) : (ofPlan plan).Going := by
  have hcur := currentAt_ofPlan plan
  have hindex : ∀ slot, (ofPlan plan).indexAt slot = 0 := by
    intro slot
    rw [indexAt, List.getD_eq_getElem?_getD]
    show ((plan.channels.map fun _ => 0)[slot]?).getD 0 = 0
    rw [List.getElem?_map]
    cases plan.channels[slot]? <;> rfl
  have hstage : ∀ slot, (Stage.idle 0).run (onQueue slot (ofPlan plan).acts) =
      some ((ofPlan plan).stageAt slot) := by
    intro slot
    rw [stageAt, hcur, hindex]
    rfl
  refine ⟨⟨List.length_map _, List.length_map _, ?_, fun slot => ⟨_, hstage slot⟩⟩, hstage,
    fun slot i task hc => ?_, fun slot => ?_⟩
  · show 0 = (plan.channels.map fun _ => (none : Option (Nat × PlanTask))).countP Option.isSome
    rw [List.countP_map]
    exact (List.countP_eq_zero.mpr fun _ _ => by simp).symm
  · rw [hcur] at hc
    cases hc
  · rw [hindex]
    exact Nat.zero_le _

/-- A slot outside the plan is settled. -/
theorem Going.settled_outside (h : s.Going) (hge : s.plan.channels.length ≤ slot) : s.Settled slot := by
  intro _
  have hnil : s.plan.tasksOf slot = [] := by
    rw [CollPlan.tasksOf, List.getElem?_eq_none hge]
  have hb := h.bound slot
  rw [hnil] at hb ⊢
  exact Nat.le_zero.mp hb

/-- All tasks of a plan are done. -/
def AllDone (s : Slots) : Prop := ∀ slot,
  (Stage.idle 0).run (onQueue slot s.acts) = some (.idle (s.plan.tasksOf slot).length)

/-- **The slots before `i` are started**, the others are not. -/
structure Started (i : Nat) (s : Slots) : Prop where
  going : s.Going
  settled : ∀ slot < i, s.Settled slot
  free : ∀ slot, i ≤ slot → s.currentAt slot = none

/-- **All slots are started.** -/
structure InLoop (s : Slots) : Prop where
  going : s.Going
  settled : ∀ slot, s.Settled slot

theorem started_ofPlan (plan : CollPlan) : (ofPlan plan).Started 0 :=
  ⟨going_ofPlan plan, fun slot h => absurd h (Nat.not_lt_zero slot),
    fun slot _ => currentAt_ofPlan plan slot⟩

theorem Started.next {s' : Slots} (h : s.Started i) (hk : Kept i s s') (hset : s'.Settled i) :
    s'.Started (i + 1) := by
  refine ⟨hk.going, fun slot hlt => ?_, fun slot hle => ?_⟩
  · by_cases he : slot = i
    · rw [he]
      exact hset
    · exact hk.settled he (h.settled slot (by omega))
  · exact (hk.other slot (by omega)).1.trans (h.free slot (by omega))

theorem Started.all (h : s.Started i) (hi : s.plan.channels.length ≤ i) : s.InLoop := by
  refine ⟨h.going, fun slot => ?_⟩
  by_cases hlt : slot < i
  · exact h.settled slot hlt
  · exact h.going.settled_outside (by omega)

theorem InLoop.next {s' : Slots} (h : s.InLoop) (hk : Kept slot s s')
    (hset : s.Settled slot → s'.Settled slot) : s'.InLoop := by
  refine ⟨hk.going, fun slot' => ?_⟩
  by_cases he : slot' = slot
  · rw [he]
    exact hset (h.settled slot)
  · exact hk.settled he (h.settled slot')

/-- **`active` is 0 only if no task is current.** -/
theorem Books.none_current (h : s.Books) (hactive : s.active = 0) (slot : Nat) :
    s.currentAt slot = none := by
  cases hc : s.currentAt slot with
  | none => rfl
  | some c =>
    have hlt := currentAt_lt hc
    have hget : s.current[slot] = some c := by
      rw [← hc, currentAt, List.getD_eq_getElem _ _ hlt]
    have hzero := List.countP_eq_zero.mp (h.active.symm.trans hactive) _ (List.getElem_mem hlt)
    rw [hget] at hzero
    exact absurd rfl hzero

/-- **When no task is current and every slot is settled, every task is done.** -/
theorem InLoop.all_done (h : s.InLoop) (hactive : s.active = 0) : s.AllDone := by
  intro slot
  have hnone := h.going.none_current hactive slot
  rw [h.going.stage slot, stageAt, hnone, h.settled slot hnone]

/-- A plan without channels is done at once. -/
theorem allDone_ofPlan {plan : CollPlan} (h : plan.channels.isEmpty = true) : (ofPlan plan).AllDone := by
  refine ((started_ofPlan plan).all (Nat.le_zero.mpr ?_)).all_done rfl
  exact List.length_eq_zero_iff.mpr (List.isEmpty_iff.mp h)

/-- Every task that is done was found done. -/
theorem AllDone.done (h : s.AllDone) (hi : i < (s.plan.tasksOf slot).length) :
    .done i ∈ onQueue slot s.acts := ((Stage.facts (h slot)).done i).mpr hi

theorem Books.inOrder (h : s.Books) (slot : Nat) : InOrder (onQueue slot s.acts) := by
  obtain ⟨_, hrun⟩ := h.order slot
  exact Stage.inOrder hrun

/-- **The current task** of a slot is the one that is initialised and not done. -/
theorem Going.current_iff (h : s.Going) (slot i : Nat) :
    (∃ task, s.currentAt slot = some (i, task)) ↔
      .init i true ∈ onQueue slot s.acts ∧ .done i ∉ onQueue slot s.acts := by
  have hf := Stage.facts (h.stage slot)
  constructor
  · rintro ⟨task, hc⟩
    rw [stageAt_some hc] at hf
    obtain ⟨h1, h2, -⟩ := Stage.facts_running hf
    exact ⟨h1, h2⟩
  · rintro ⟨hinit, hdone⟩
    have hmem : i ∈ (onQueue slot s.acts).filterMap Act.started :=
      List.mem_filterMap.mpr ⟨_, hinit, rfl⟩
    rw [hf.started, List.mem_range] at hmem
    rw [hf.done] at hdone
    cases hc : s.currentAt slot with
    | none =>
      have hstage : s.stageAt slot = .idle (s.indexAt slot) := by rw [stageAt, hc]
      rw [hstage] at hmem hdone
      exact absurd hmem hdone
    | some c =>
      obtain ⟨k, task⟩ := c
      rw [stageAt_some hc] at hmem hdone
      have hmem : i < k + 1 := hmem
      have hdone : ¬ i < k := hdone
      exact ⟨task, by rw [show i = k by omega]⟩

end Lemmas

end Slots

end OriginCCL
