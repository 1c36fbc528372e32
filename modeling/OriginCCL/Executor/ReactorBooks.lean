/-
  File:      OriginCCL/Executor/ReactorBooks.lean
  Subject:   THE BOOKS OF THE REACTOR EXECUTOR: who holds a task, and what main loop and workers know.

  * `Carrier` -- a work item or a completion on its way; `carriers` -- all of them.
  * `Held` -- at most one carrier for every slot, which fits the stage of the slot's channel.
  * `Counted`, `Watched` -- `in_flight`, `active` and the interest list of a run that goes on.
  * `Inv` -- what holds at every point of `Run`.
-/
import Mathlib.Algebra.Order.Group.Multiset
import Mathlib.Tactic.Abel
import Mathlib.Data.List.Perm.Basic
import OriginCCL.Executor.Reactor

namespace OriginCCL.ReactorExecutor

open Base

/-! ## 1. Items and completions on their way -/

/-- A work item with the calls that are left, or a completion. -/
inductive Carrier where
  | work (item : WorkItem) (calls : List TaskCall)
  | completion (c : Completion)

/-- The slot it is for, and whether it is for an initialisation. -/
def Carrier.key : Carrier → Nat × Bool
  | .work item _ => (item.slot, item.init)
  | .completion c => (c.slot, c.init)

/-- What a worker has in hand. -/
def ReactorWorker.carrier : ReactorWorker → Option Carrier
  | .working item calls => some (.work item calls)
  | .posting c => some (.completion c)
  | _ => none

/-- All that is queued, in the hands of a worker, posted, or taken and not handled yet. -/
def carriers (s : ReactorExecutor) : Multiset Carrier :=
  ↑(s.workQueue.map fun item => Carrier.work item item.calls) + ↑(s.workers.filterMap (·.carrier)) +
    ↑(s.completions.map Carrier.completion) + ↑(s.point.completed.map Carrier.completion)

/-- Their slots, with the mark of the initialisations. -/
def keys (s : ReactorExecutor) : Multiset (Nat × Bool) := s.carriers.map Carrier.key

/-- The stage of a channel whose task `i` has these calls left. -/
def stageBefore (i : Nat) : List TaskCall → Stage
  | .init :: _ => .idle i
  | _ => .running i

/-- **A carrier fits its slot**: its task is the current one, and what is left to do to the task, or what
    the completion says, agrees with what was done to it. -/
def Carrier.Fits (slots : Slots) : Carrier → Prop
  | .work item calls =>
    slots.currentAt item.slot = some (item.number, item.task) ∧
      (Stage.idle 0).run (onQueue item.slot slots.acts) = some (stageBefore item.number calls) ∧
      ∀ call ∈ calls.tail, call ≠ .init
  | .completion c => ∃ i task, slots.currentAt c.slot = some (i, task) ∧
      ∃ stage, (Stage.idle 0).run (onQueue c.slot slots.acts) = some stage ∧
        (c.state = .waiting → stage = .running i) ∧ (c.state = .done → stage = .idle (i + 1))

/-- **The carriers of a plan.** -/
structure Held (cs : Multiset Carrier) (slots : Slots) : Prop where
  current : slots.current.length = slots.plan.channels.length
  index : slots.taskIndex.length = slots.plan.channels.length
  task : ∀ slot i task, slots.currentAt slot = some (i, task) →
    slots.indexAt slot = i + 1 ∧ (slots.plan.tasksOf slot)[i]? = some task
  bound : ∀ slot, slots.indexAt slot ≤ (slots.plan.tasksOf slot).length
  /-- at most one for every slot -/
  single : (cs.map fun c => c.key.1).Nodup
  fits : ∀ c ∈ cs, c.Fits slots
  /-- where there is none, the task runs and nobody calls it -/
  quiet : ∀ slot, (∀ c ∈ cs, c.key.1 ≠ slot) →
    (Stage.idle 0).run (onQueue slot slots.acts) = some (slots.stageAt slot)

section Carriers

variable {s : ReactorExecutor} {cs : Multiset Carrier} {slots : Slots} {c c' : Carrier}

/-- **Every channel keeps its order.** -/
theorem Held.order (h : Held cs slots) (slot : Nat) :
    ∃ stage, (Stage.idle 0).run (onQueue slot slots.acts) = some stage := by
  by_cases hc : ∀ c ∈ cs, c.key.1 ≠ slot
  · exact ⟨_, h.quiet slot hc⟩
  · push Not at hc
    obtain ⟨c, hmem, rfl⟩ := hc
    have hfits := h.fits c hmem
    cases c with
    | work item calls => exact ⟨_, hfits.2.1⟩
    | completion c =>
      obtain ⟨_, _, _, stage, hrun, _⟩ := hfits
      exact ⟨stage, hrun⟩

/-- The slot of a carrier has a current task. -/
theorem Held.current_of (h : Held cs slots) (hc : c ∈ cs) :
    ∃ i task, slots.currentAt c.key.1 = some (i, task) := by
  have hfits := h.fits c hc
  cases c with
  | work item calls => exact ⟨_, _, hfits.1⟩
  | completion c =>
    obtain ⟨i, task, hcur, _⟩ := hfits
    exact ⟨i, task, hcur⟩

/-- What fits its slot does so whatever is done to other slots. -/
theorem Carrier.Fits.congr (h : c.Fits slots) {slots' : Slots}
    (hcur : slots'.currentAt c.key.1 = slots.currentAt c.key.1)
    (hacts : onQueue c.key.1 slots'.acts = onQueue c.key.1 slots.acts) : c.Fits slots' := by
  cases c with
  | work item calls =>
    obtain ⟨h1, h2, h3⟩ := h
    refine ⟨hcur.trans h1, ?_, h3⟩
    rw [show onQueue item.slot slots'.acts = onQueue item.slot slots.acts from hacts]
    exact h2
  | completion c =>
    obtain ⟨i, task, h1, stage, h2, h3⟩ := h
    refine ⟨i, task, hcur.trans h1, stage, ?_, h3⟩
    rw [show onQueue c.slot slots'.acts = onQueue c.slot slots.acts from hacts]
    exact h2

/-- The carriers of other slots. -/
theorem Held.slot_ne (h : Held (c ::ₘ cs) slots) : ∀ c' ∈ cs, c'.key.1 ≠ c.key.1 := by
  intro c' hc' heq
  have hsingle := h.single
  rw [Multiset.map_cons, Multiset.nodup_cons] at hsingle
  exact hsingle.1 (heq ▸ Multiset.mem_map_of_mem (fun c => c.key.1) hc')

/-- **A carrier becomes another one** of the same slot, by an act on the task or none. -/
theorem Held.replace (h : Held (c ::ₘ cs) slots) (hkey : c'.key = c.key) {slots' : Slots}
    (hsame : slots' = { slots with acts := slots'.acts })
    (hacts : ∀ slot, slot ≠ c.key.1 → onQueue slot slots'.acts = onQueue slot slots.acts)
    (hfits : c'.Fits slots') : Held (c' ::ₘ cs) slots' := by
  have hcur : ∀ slot, slots'.currentAt slot = slots.currentAt slot := fun slot => by rw [hsame]; rfl
  have hindex : ∀ slot, slots'.indexAt slot = slots.indexAt slot := fun slot => by rw [hsame]; rfl
  have hplan : slots'.plan = slots.plan := by rw [hsame]
  refine ⟨?_, ?_, ?_, ?_, ?_, ?_, ?_⟩
  · rw [hsame]
    exact h.current
  · rw [hsame]
    exact h.index
  · intro slot i task hc
    rw [hcur] at hc
    rw [hindex, hplan]
    exact h.task slot i task hc
  · intro slot
    rw [hindex, hplan]
    exact h.bound slot
  · have hsingle := h.single
    rw [Multiset.map_cons] at hsingle ⊢
    rw [hkey]
    exact hsingle
  · intro x hx
    rcases Multiset.mem_cons.mp hx with rfl | hx
    · exact hfits
    · refine (h.fits x (Multiset.mem_cons_of_mem hx)).congr (hcur _) (hacts _ ?_)
      exact h.slot_ne x hx
  · intro slot hslot
    have hne : slot ≠ c.key.1 := by
      rw [← hkey]
      exact (hslot c' (Multiset.mem_cons_self c' cs)).symm
    rw [hacts slot hne, Slots.stageAt, hcur, hindex]
    refine h.quiet slot fun x hx => ?_
    rcases Multiset.mem_cons.mp hx with rfl | hx
    · exact hne.symm
    · exact hslot x (Multiset.mem_cons_of_mem hx)

/-- **A carrier of a running task is on its way.** -/
theorem Held.add (h : Held cs slots) (hfree : ∀ x ∈ cs, x.key.1 ≠ c.key.1) (hfits : c.Fits slots) :
    Held (c ::ₘ cs) slots := by
  refine ⟨h.current, h.index, h.task, h.bound, ?_, ?_, ?_⟩
  · rw [Multiset.map_cons, Multiset.nodup_cons]
    refine ⟨fun hmem => ?_, h.single⟩
    obtain ⟨x, hx, heq⟩ := Multiset.mem_map.mp hmem
    exact hfree x hx heq
  · intro x hx
    rcases Multiset.mem_cons.mp hx with rfl | hx
    · exact hfits
    · exact h.fits x hx
  · exact fun slot hslot => h.quiet slot fun x hx => hslot x (Multiset.mem_cons_of_mem hx)

/-- **A carrier has arrived**, and the slot is at the stage it says. -/
theorem Held.remove (h : Held (c ::ₘ cs) slots)
    (hstage : (Stage.idle 0).run (onQueue c.key.1 slots.acts) = some (slots.stageAt c.key.1)) :
    Held cs slots := by
  have hsingle := h.single
  rw [Multiset.map_cons, Multiset.nodup_cons] at hsingle
  refine ⟨h.current, h.index, h.task, h.bound, hsingle.2,
    fun x hx => h.fits x (Multiset.mem_cons_of_mem hx), ?_⟩
  intro slot hslot
  by_cases heq : slot = c.key.1
  · rw [heq]
    exact hstage
  · refine h.quiet slot fun x hx => ?_
    rcases Multiset.mem_cons.mp hx with rfl | hx
    · exact Ne.symm heq
    · exact hslot x hx

/-- A change of the current task of one slot, with its carrier. -/
theorem Held.change (h : Held cs slots) (slot : Nat) {slots' : Slots} {cs' : Multiset Carrier}
    (hplan : slots'.plan = slots.plan) (hacts : slots'.acts = slots.acts)
    (hcurrent : slots'.current.length = slots.current.length)
    (hindex : slots'.taskIndex.length = slots.taskIndex.length)
    (hother : ∀ slot' ≠ slot, slots'.currentAt slot' = slots.currentAt slot' ∧
      slots'.indexAt slot' = slots.indexAt slot')
    (htask : ∀ i task, slots'.currentAt slot = some (i, task) →
      slots'.indexAt slot = i + 1 ∧ (slots.plan.tasksOf slot)[i]? = some task)
    (hbound : slots'.indexAt slot ≤ (slots.plan.tasksOf slot).length)
    (hsingle : (cs'.map fun c => c.key.1).Nodup)
    (hmem : ∀ c ∈ cs', c.Fits slots' ∨ c ∈ cs ∧ c.key.1 ≠ slot)
    (hkept : ∀ c ∈ cs, c.key.1 ≠ slot → c ∈ cs')
    (hquiet : (∀ c ∈ cs', c.key.1 ≠ slot) →
      (Stage.idle 0).run (onQueue slot slots.acts) = some (slots'.stageAt slot)) :
    Held cs' slots' := by
  refine ⟨by rw [hcurrent, hplan, h.current], by rw [hindex, hplan, h.index], ?_, ?_, hsingle, ?_, ?_⟩
  · intro slot' i task hc
    by_cases he : slot' = slot
    · rw [he] at hc ⊢
      rw [hplan]
      exact htask i task hc
    · obtain ⟨h1, h2⟩ := hother slot' he
      rw [h1] at hc
      rw [h2, hplan]
      exact h.task slot' i task hc
  · intro slot'
    by_cases he : slot' = slot
    · rw [he, hplan]
      exact hbound
    · rw [(hother slot' he).2, hplan]
      exact h.bound slot'
  · intro c hc
    rcases hmem c hc with hfits | ⟨hc, hne⟩
    · exact hfits
    · exact (h.fits c hc).congr (hother _ hne).1 (by rw [hacts])
  · intro slot' hslot
    rw [hacts]
    by_cases he : slot' = slot
    · rw [he] at hslot ⊢
      exact hquiet hslot
    · obtain ⟨h1, h2⟩ := hother slot' he
      rw [Slots.stageAt, h1, h2]
      refine h.quiet slot' fun c hc heq => ?_
      exact hslot c (hkept c hc fun h => he (heq.symm.trans h)) heq

theorem currentAt_setCurrent (slots : Slots) (c : Option (Nat × PlanTask)) {slot : Nat}
    (h : slot < slots.current.length) (slot' : Nat) :
    (setCurrent slots slot c).currentAt slot' = if slot' = slot then c else slots.currentAt slot' :=
  Slots.currentAt_set slots c h slot'

/-- **A task is started**: it is current, and its initialisation is on its way. -/
theorem Held.enter (h : Held cs slots) {slot : Nat} {task : PlanTask}
    (hnone : slots.currentAt slot = none) (hfree : ∀ c ∈ cs, c.key.1 ≠ slot)
    (htask : (slots.plan.tasksOf slot)[slots.indexAt slot]? = some task) {item : WorkItem}
    (hslot : item.slot = slot) (hnumber : item.number = slots.indexAt slot) (hitem : item.task = task)
    (hinit : item.init = true) :
    Held (.work item item.calls ::ₘ cs)
      (setCurrent (slots.advance slot) slot (some (slots.indexAt slot, task))) := by
  have hlt := (List.getElem?_eq_some_iff.mp htask).1
  have hslots := Slots.indexAt_lt hlt
  have hcur : ∀ slot', (setCurrent (slots.advance slot) slot
      (some (slots.indexAt slot, task))).currentAt slot' =
      if slot' = slot then some (slots.indexAt slot, task) else slots.currentAt slot' :=
    currentAt_setCurrent (slots.advance slot) _ (by rw [← h.current] at hslots; exact hslots)
  have hindex : ∀ slot', (setCurrent (slots.advance slot) slot
      (some (slots.indexAt slot, task))).indexAt slot' =
      if slot' = slot then slots.indexAt slot + 1 else slots.indexAt slot' :=
    Slots.indexAt_advance (by rw [h.index]; exact hslots)
  have hcalls : item.calls = [.init] := by rw [WorkItem.calls, hinit, if_pos rfl]
  refine h.change slot rfl rfl (List.length_set ..) (List.length_set ..) ?_ ?_ ?_ ?_ ?_ ?_ ?_
  · exact fun slot' he => ⟨(hcur slot').trans (if_neg he), (hindex slot').trans (if_neg he)⟩
  · intro i t hc
    rw [hcur, if_pos rfl] at hc
    cases hc
    rw [hindex, if_pos rfl]
    exact ⟨rfl, htask⟩
  · rw [hindex, if_pos rfl]
    exact hlt
  · rw [Multiset.map_cons, Multiset.nodup_cons]
    refine ⟨fun hmem => ?_, h.single⟩
    obtain ⟨c, hc, heq⟩ := Multiset.mem_map.mp hmem
    exact hfree c hc (heq.trans hslot)
  · intro c hc
    rcases Multiset.mem_cons.mp hc with rfl | hc
    · left
      refine ⟨?_, ?_, ?_⟩
      · rw [hslot, hcur, if_pos rfl, hnumber, hitem]
      · rw [hslot, hcalls, hnumber]
        show (Stage.idle 0).run (onQueue slot slots.acts) = some (.idle (slots.indexAt slot))
        rw [h.quiet slot hfree, Slots.stageAt, hnone]
      · rw [hcalls]
        exact fun call hcall => absurd hcall List.not_mem_nil
    · exact Or.inr ⟨hc, hfree c hc⟩
  · exact fun c hc _ => Multiset.mem_cons_of_mem hc
  · intro hslot'
    exact absurd hslot (hslot' _ (Multiset.mem_cons_self ..))

/-- **A task is done** and its slot is free for the next. -/
theorem Held.leave {comp : Completion} (h : Held (.completion comp ::ₘ cs) slots)
    (hdone : comp.state = .done) : Held cs (setCurrent slots comp.slot none) := by
  obtain ⟨i, task, hcurrent, stage, hrun, -, hstage⟩ := h.fits _ (Multiset.mem_cons_self ..)
  have hlt := Slots.currentAt_lt hcurrent
  have hcur := currentAt_setCurrent slots none hlt
  have hne : ∀ c ∈ cs, c.key.1 ≠ comp.slot := h.slot_ne
  have hsingle := h.single
  rw [Multiset.map_cons, Multiset.nodup_cons] at hsingle
  refine h.change comp.slot rfl rfl (List.length_set ..) rfl ?_ ?_ (h.bound _) hsingle.2
    ?_ ?_ ?_
  · exact fun slot' he => ⟨(hcur slot').trans (if_neg he), rfl⟩
  · intro j t hc
    rw [hcur, if_pos rfl] at hc
    cases hc
  · exact fun c hc => Or.inr ⟨Multiset.mem_cons_of_mem hc, hne c hc⟩
  · intro c hc hslot
    rcases Multiset.mem_cons.mp hc with rfl | hc
    · exact absurd rfl hslot
    · exact hc
  · intro _
    rw [hrun, hstage hdone, Slots.stageAt, hcur, if_pos rfl]
    show some (Stage.idle (i + 1)) = some (Stage.idle (slots.indexAt comp.slot))
    rw [(h.task _ _ _ hcurrent).1]

/-- The slots of a plan that is not started. -/
theorem held_ofPlan (plan : CollPlan) : Held 0 (Slots.ofPlan plan) := by
  have h := Slots.going_ofPlan plan
  exact ⟨h.current, h.index, h.task, h.bound, Multiset.nodup_zero,
    fun c hc => absurd hc (Multiset.notMem_zero c), fun slot _ => h.stage slot⟩

end Carriers

/-! ## 2. The steps of the workers -/

section Workers

variable {s s' : ReactorExecutor} {w : Nat} {y : ReactorWorker}

/-- What a worker has in hand, as a multiset. -/
def hand (x : ReactorWorker) : Multiset Carrier := ↑x.carrier.toList

theorem hand_empty {x : ReactorWorker} (h : x.carrier = none) (m : Multiset Carrier) :
    hand x + m = m := by
  rw [hand, h]
  exact Multiset.zero_add m

theorem hand_full {x : ReactorWorker} {c : Carrier} (h : x.carrier = some c) (m : Multiset Carrier) :
    hand x + m = c ::ₘ m := by
  rw [hand, h]
  exact Multiset.singleton_add c m

/-- What one worker has in hand, and what the others have. -/
theorem workers_set (h : s.workers[w]? = some y) : ∃ rest : Multiset Carrier,
    (↑(s.workers.filterMap (·.carrier)) : Multiset Carrier) = hand y + rest ∧
      ∀ x : ReactorWorker,
        (↑((s.workers.set w x).filterMap (·.carrier)) : Multiset Carrier) = hand x + rest := by
  obtain ⟨hw, rfl⟩ := List.getElem?_eq_some_iff.mp h
  have hcons : ∀ (x : ReactorWorker) (l : List ReactorWorker),
      (x :: l).filterMap (·.carrier) = x.carrier.toList ++ l.filterMap (·.carrier) := by
    intro x l
    cases hx : x.carrier with
    | none => rw [List.filterMap_cons_none hx]; rfl
    | some c => rw [List.filterMap_cons_some hx]; rfl
  refine ⟨↑((s.workers.eraseIdx w).filterMap (·.carrier)), ?_, ?_⟩
  · rw [hand, Multiset.coe_add, Multiset.coe_eq_coe, ← hcons]
    exact ((List.getElem_cons_eraseIdx_perm hw).filterMap _).symm
  · intro x
    rw [hand, Multiset.coe_add, Multiset.coe_eq_coe, ← hcons]
    exact (List.set_perm_cons_eraseIdx hw x).filterMap _

/-- What a step of a worker leaves alone. -/
def Beside (s s' : ReactorExecutor) : Prop :=
  s' = { s with
    workQueue := s'.workQueue, completions := s'.completions, workers := s'.workers
    notifications := s'.notifications, slots := { s.slots with acts := s'.slots.acts } }

/-- **A carrier becomes another one** of the same slot. -/
structure Replaces (c c' : Carrier) (cs : Multiset Carrier) (s s' : ReactorExecutor) : Prop where
  before : s.carriers = c ::ₘ cs
  after : s'.carriers = c' ::ₘ cs
  key : c'.key = c.key
  acts : ∀ slot, slot ≠ c.key.1 → onQueue slot s'.slots.acts = onQueue slot s.slots.acts
  fits : c.Fits s.slots → c'.Fits s'.slots

/-- A task that is called runs. -/
theorem stageBefore_running {i : Nat} {calls : List TaskCall} (h : ∀ call ∈ calls, call ≠ .init) :
    stageBefore i calls = .running i := by
  cases calls with
  | nil => rfl
  | cons call calls =>
    cases call with
    | init => exact absurd rfl (h .init List.mem_cons_self)
    | step event => rfl

/-- **What a call does to its task.** -/
theorem act_stageBefore (i : Nat) (call : TaskCall) (calls : List TaskCall) (ok : Bool) :
    (stageBefore i (call :: calls)).act (call.act i ok) =
      some (if ok then .running i else .failed i) := by
  cases call with
  | init => exact if_pos rfl
  | step event => exact if_pos rfl

theorem onQueue_note (slots : Slots) (slot : Nat) (a : Act CollEvent) :
    onQueue slot (slots.note slot a).acts = onQueue slot slots.acts ++ [a] := onQueue_self ..

theorem onQueue_note_ne (slots : Slots) {slot slot' : Nat} (h : slot' ≠ slot) (a : Act CollEvent) :
    onQueue slot' (slots.note slot a).acts = onQueue slot' slots.acts := onQueue_other (Ne.symm h) ..

/-- The carriers but those in hand. -/
def elsewhere (queue : List WorkItem) (completions : List Completion) (completed : List Completion) :
    Multiset Carrier :=
  ↑(queue.map fun item => Carrier.work item item.calls) + ↑(completions.map Carrier.completion) +
    ↑(completed.map Carrier.completion)

theorem carriers_eq (s : ReactorExecutor) : s.carriers =
    ↑(s.workers.filterMap (·.carrier)) + elsewhere s.workQueue s.completions s.point.completed := by
  unfold carriers elsewhere
  abel

theorem elsewhere_queue (item : WorkItem) (queue : List WorkItem) (cs cs' : List Completion) :
    elsewhere (item :: queue) cs cs' = .work item item.calls ::ₘ elsewhere queue cs cs' := by
  unfold elsewhere
  rw [List.map_cons, ← Multiset.cons_coe, Multiset.cons_add, Multiset.cons_add]

theorem elsewhere_post (queue : List WorkItem) (item : WorkItem) (cs cs' : List Completion) :
    elsewhere (queue ++ [item]) cs cs' = .work item item.calls ::ₘ elsewhere queue cs cs' := by
  unfold elsewhere
  rw [List.map_append, ← Multiset.coe_add, ← Multiset.singleton_add]
  simp only [List.map_cons, List.map_nil, Multiset.coe_singleton]
  abel

theorem elsewhere_completion (queue : List WorkItem) (c : Completion) (cs cs' : List Completion) :
    elsewhere queue (cs ++ [c]) cs' = .completion c ::ₘ elsewhere queue cs cs' := by
  unfold elsewhere
  rw [List.map_append, ← Multiset.coe_add, ← Multiset.singleton_add]
  simp only [List.map_cons, List.map_nil, Multiset.coe_singleton]
  abel

theorem elsewhere_taken (queue : List WorkItem) (c : Completion) (cs cs' : List Completion) :
    elsewhere queue cs (c :: cs') = .completion c ::ₘ elsewhere queue cs cs' := by
  unfold elsewhere
  rw [List.map_cons, ← Multiset.cons_coe, Multiset.add_cons]

/-- **What a step of a worker does**: it leaves the carriers alone, or replaces one. -/
theorem worker_cases {l : Label} (hs : stepWorker l w s = some s') : Beside s s' ∧
    (s'.carriers = s.carriers ∧ s'.slots = s.slots ∨ ∃ c c' cs, Replaces c c' cs s s') := by
  unfold stepWorker at hs
  split at hs
  · -- it leaves its wait
    rename_i _ _ hw
    obtain ⟨rest, hold, hnew⟩ := workers_set hw
    split at hs
    · cases hs
      refine ⟨rfl, Or.inl ⟨?_, rfl⟩⟩
      rw [carriers_eq, carriers_eq]
      dsimp only
      rw [hold, hnew, hand_empty rfl, hand_empty rfl]
    · split at hs
      · cases hs
      · rename_i item queue hqueue
        cases hs
        have hcs : s.carriers = .work item item.calls ::ₘ
            (rest + elsewhere queue s.completions s.point.completed) := by
          rw [carriers_eq, hold, hqueue, elsewhere_queue, Multiset.add_cons, hand_empty rfl]
        by_cases ht : item.task.topology.isNone
        · simp only [ht, if_true]
          refine ⟨rfl, Or.inr ⟨_, .completion (item.completion .failed), _, hcs, ?_, rfl,
            fun _ _ => rfl, fun hfits => ⟨_, _, hfits.1, _, hfits.2.1, nofun, nofun⟩⟩⟩
          rw [carriers_eq]
          dsimp only
          rw [hnew, hand_full rfl, Multiset.cons_add]
        · simp only [ht]
          refine ⟨rfl, Or.inr ⟨_, .work item item.calls, _, hcs, ?_, rfl, fun _ _ => rfl, id⟩⟩
          rw [carriers_eq]
          dsimp only
          rw [hnew]
          exact (congrArg (· + _) (hand_full rfl rest)).trans (Multiset.cons_add ..)
  · -- a call returns
    rename_i _ w' ok item call calls hw
    obtain ⟨rest, hold, hnew⟩ := workers_set hw
    cases hs
    have hcs : s.carriers = .work item (call :: calls) ::ₘ
        (rest + elsewhere s.workQueue s.completions s.point.completed) := by
      rw [carriers_eq, hold, hand_full rfl, Multiset.cons_add]
    have hnote : (Stage.idle 0).run (onQueue item.slot s.slots.acts) =
          some (stageBefore item.number (call :: calls)) →
        (Stage.idle 0).run (onQueue item.slot
          (s.slots.note item.slot (call.act item.number ok)).acts) =
          some (if ok then .running item.number else .failed item.number) := by
      intro hrun
      rw [onQueue_note, Stage.run_snoc hrun]
      exact act_stageBefore item.number call calls ok
    cases ok with
    | true =>
      refine ⟨rfl, Or.inr ⟨_, .work item calls, _, hcs, ?_, rfl,
        fun slot hne => onQueue_note_ne s.slots hne _, ?_⟩⟩
      · rw [carriers_eq]
        dsimp only
        rw [if_pos rfl, hnew, hand_full rfl, Multiset.cons_add]
      · rintro ⟨hcur, hrun, hcalls⟩
        have hrunning : stageBefore item.number calls = .running item.number :=
          stageBefore_running hcalls
        refine ⟨hcur, ?_, fun call hcall => hcalls call (List.mem_of_mem_tail hcall)⟩
        rw [hrunning]
        exact hnote hrun
    | false =>
      refine ⟨rfl, Or.inr ⟨_, .completion (item.completion .failed), _, hcs, ?_, rfl,
        fun slot hne => onQueue_note_ne s.slots hne _,
        fun hfits => ⟨_, _, hfits.1, _, hnote hfits.2.1, nofun, nofun⟩⟩⟩
      rw [carriers_eq]
      dsimp only
      rw [if_neg Bool.false_ne_true, hnew, hand_full rfl, Multiset.cons_add]
  · -- it finds its task done or not
    rename_i _ w' done item hw
    obtain ⟨rest, hold, hnew⟩ := workers_set hw
    cases hs
    have hcs : s.carriers = .work item [] ::ₘ
        (rest + elsewhere s.workQueue s.completions s.point.completed) := by
      rw [carriers_eq, hold, hand_full rfl, Multiset.cons_add]
    cases done with
    | true =>
      refine ⟨rfl, Or.inr ⟨_, .completion (item.completion .done), _, hcs, ?_, rfl,
        fun slot hne => onQueue_note_ne s.slots hne _, ?_⟩⟩
      · rw [carriers_eq]
        dsimp only
        rw [if_pos rfl, hnew, hand_full rfl, Multiset.cons_add]
      · rintro ⟨hcur, hrun, -⟩
        refine ⟨_, _, hcur, .idle (item.number + 1), ?_, nofun, fun _ => rfl⟩
        show (Stage.idle 0).run (onQueue item.slot (s.slots.note item.slot (.done item.number)).acts) = _
        rw [onQueue_note, Stage.run_snoc hrun]
        exact if_pos rfl
    | false =>
      refine ⟨rfl, Or.inr ⟨_, .completion (item.completion .waiting), _, hcs, ?_, rfl,
        fun _ _ => rfl, fun hfits => ⟨_, _, hfits.1, _, hfits.2.1, fun _ => rfl, nofun⟩⟩⟩
      rw [carriers_eq]
      dsimp only
      rw [if_neg Bool.false_ne_true, hnew, hand_full rfl, Multiset.cons_add]
  · -- it posts its completion
    rename_i _ w' c hw
    obtain ⟨rest, hold, hnew⟩ := workers_set hw
    cases hs
    refine ⟨rfl, Or.inl ⟨?_, rfl⟩⟩
    rw [carriers_eq, carriers_eq]
    dsimp only
    rw [hold, hnew, elsewhere_completion, hand_empty rfl, hand_full rfl, Multiset.add_cons,
      Multiset.cons_add]
  · rename_i _ w' hw
    obtain ⟨rest, hold, hnew⟩ := workers_set hw
    cases hs
    refine ⟨rfl, Or.inl ⟨?_, rfl⟩⟩
    rw [carriers_eq, carriers_eq]
    dsimp only
    rw [hold, hnew, hand_empty rfl, hand_empty rfl]
  · cases hs

/-- **A step of a worker** keeps the carriers in their slots, and leaves the main loop alone. -/
theorem Held.worker {l : Label} (h : Held s.carriers s.slots) (hs : stepWorker l w s = some s') :
    Held s'.carriers s'.slots ∧ s'.keys = s.keys ∧ Beside s s' := by
  obtain ⟨hb, ⟨hcs, hslots⟩ | ⟨c, c', cs, hr⟩⟩ := worker_cases hs
  · exact ⟨by rw [hcs, hslots]; exact h, by rw [keys, keys, hcs], hb⟩
  · have hheld := h
    rw [hr.before] at hheld
    refine ⟨?_, ?_, hb⟩
    · rw [hr.after]
      refine hheld.replace hr.key ?_ hr.acts (hr.fits (hheld.fits c (Multiset.mem_cons_self c cs)))
      rw [hb]
    · rw [keys, keys, hr.before, hr.after, Multiset.map_cons, Multiset.map_cons, hr.key]

/-- While nothing is on its way, a worker only comes and goes. -/
theorem worker_quiet {l : Label} (h : s.carriers = 0) (hs : stepWorker l w s = some s') :
    s'.carriers = 0 ∧ s'.slots = s.slots ∧ Beside s s' := by
  obtain ⟨hb, ⟨hcs, hslots⟩ | ⟨c, c', cs, hr⟩⟩ := worker_cases hs
  · exact ⟨hcs.trans h, hslots, hb⟩
  · exact absurd (hr.before.symm.trans h) (Multiset.cons_ne_zero)

end Workers

/-! ## 3. The books of a run that goes on -/

/-- **The slot has a task whose initialisation was completed as waiting and that is not done**, by the
    completions that were taken. -/
def waits (slots : Slots) (taken : List (Nat × Completion)) (slot : Nat) : Bool :=
  match slots.currentAt slot with
  | none => false
  | some (i, _) =>
    decide ((i, ({ slot := slot, init := true, state := .waiting } : Completion)) ∈ taken) &&
      !taken.any fun x => x.1 = i ∧ x.2.slot = slot ∧ x.2.state = .done

/-- `in_flight` and `active`, with what the taken completions say of the slots. -/
structure Counted (ks : Multiset (Nat × Bool)) (slots : Slots) (inFlight : Nat)
    (taken : List (Nat × Completion)) : Prop where
  inFlight : inFlight = ks.card
  active : slots.active = (List.range slots.plan.channels.length).countP (waits slots taken)
  /-- a current task waits as soon as its initialisation is not on its way any more -/
  waiting : ∀ slot, slots.currentAt slot ≠ none → (waits slots taken slot = true ↔ (slot, true) ∉ ks)
  fresh : ∀ slot i task, slots.currentAt slot = some (i, task) → (slot, true) ∈ ks →
    ∀ x ∈ taken, x.2.slot = slot → x.1 ≠ i
  old : ∀ x ∈ taken, x.1 < slots.indexAt x.2.slot

/-- **A descriptor is registered only for a current task that is in nobody's hands.** -/
def Watched (H : ReactorHost) (ks : Multiset (Nat × Bool)) (s : ReactorExecutor) : Prop :=
  ∀ x ∈ s.registered, ∃ i task, s.slots.currentAt (x.2 / 2) = some (i, task) ∧
    (∀ b, (x.2 / 2, b) ∉ ks) ∧ x.1 ∈ taskFds H task

/-- Every registered descriptor is one of a current task. -/
def Covered (H : ReactorHost) (s : ReactorExecutor) : Prop :=
  ∀ x ∈ s.registered, ∃ slot i task, s.slots.currentAt slot = some (i, task) ∧ x.1 ∈ taskFds H task

/-- **What holds of a run that goes on.** -/
structure Running (H : ReactorHost) (s : ReactorExecutor) : Prop where
  held : Held s.carriers s.slots
  channels : s.slots.plan.channels.length < 2 ^ 31
  counted : Counted s.keys s.slots s.inFlight s.taken
  watched : Watched H s.keys s

section Books

variable {H : ReactorHost} {s s' : ReactorExecutor} {slot i : Nat} {task : PlanTask}
  {slots slots' : Slots} {taken : List (Nat × Completion)} {c : Completion} {cs : Multiset Carrier}

theorem waits_none (h : slots.currentAt slot = none) : waits slots taken slot = false := by
  rw [waits, h]

theorem waits_some (h : slots.currentAt slot = some (i, task)) : waits slots taken slot = true ↔
    (i, ({ slot := slot, init := true, state := .waiting } : Completion)) ∈ taken ∧
      ∀ x ∈ taken, x.1 = i → x.2.slot = slot → x.2.state ≠ .done := by
  rw [waits, h]
  simp

/-- The slots of other completions are as before. -/
theorem waits_taken (h : c.slot ≠ slot) : waits slots (taken ++ [(i, c)]) slot = waits slots taken slot := by
  cases hcur : slots.currentAt slot with
  | none => rw [waits_none hcur, waits_none hcur]
  | some p =>
    obtain ⟨j, task⟩ := p
    rw [Bool.eq_iff_iff, waits_some hcur, waits_some hcur]
    have hne : ({ slot := slot, init := true, state := .waiting } : Completion) ≠ c :=
      fun he => h (by rw [← he])
    simp only [List.mem_append, List.mem_singleton, Prod.mk.injEq, hne, and_false, or_false]
    refine and_congr_right fun _ => ⟨fun hall x hx => hall x (Or.inl hx), fun hall x hx => ?_⟩
    rcases hx with hx | rfl
    · exact hall x hx
    · exact fun _ hslot => absurd hslot h

theorem waits_congr (h : slots'.currentAt slot = slots.currentAt slot) :
    waits slots' taken slot = waits slots taken slot := by
  rw [waits, waits, h]

/-- A count over the slots when one of them changes. -/
theorem countP_range_change {p q : Nat → Bool} {n : Nat} (hslot : slot < n)
    (h : ∀ k ≠ slot, q k = p k) :
    (List.range n).countP q + (if p slot then 1 else 0) =
      (List.range n).countP p + if q slot then 1 else 0 := by
  induction n with
  | zero => exact absurd hslot (Nat.not_lt_zero slot)
  | succ n ih =>
    rw [List.range_succ, List.countP_append, List.countP_append, List.countP_singleton,
      List.countP_singleton]
    by_cases hn : slot = n
    · have hsame : (List.range n).countP q = (List.range n).countP p := by
        refine List.countP_congr fun k hk => ?_
        rw [h k (by have := List.mem_range.mp hk; omega)]
      rw [hsame, hn]
      omega
    · have := ih (by omega)
      rw [h n (Ne.symm hn)]
      omega

/-- A slot without a carrier. -/
theorem free_iff : (∀ x ∈ s.carriers, x.key.1 ≠ slot) ↔ ∀ b, (slot, b) ∉ s.keys := by
  constructor
  · intro h b hmem
    obtain ⟨x, hx, heq⟩ := Multiset.mem_map.mp hmem
    exact h x hx (congrArg Prod.fst heq)
  · intro h x hx heq
    refine h x.key.2 ?_
    rw [← heq]
    exact Multiset.mem_map_of_mem Carrier.key hx

theorem currentAt_lt (h : Held cs slots) (hcur : slots.currentAt slot = some (i, task)) :
    slot < slots.plan.channels.length := by
  rw [← h.current]
  exact Slots.currentAt_lt hcur

theorem Watched.covered {ks : Multiset (Nat × Bool)} (h : Watched H ks s) : Covered H s := by
  intro x hx
  obtain ⟨i, task, hcur, -, hfd⟩ := h x hx
  exact ⟨_, i, task, hcur, hfd⟩

/-- A step of a worker is none of the main loop's. -/
theorem Running.beside (h : Running H s) (hheld : Held s'.carriers s'.slots) (hk : s'.keys = s.keys)
    (hb : Beside s s') : Running H s' := by
  refine ⟨hheld, ?_, ?_, ?_⟩
  · rw [hb]
    exact h.channels
  · rw [hk, hb]
    have hc := h.counted
    exact ⟨hc.inFlight, hc.active, hc.waiting, hc.fresh, hc.old⟩
  · rw [hk, hb]
    exact h.watched

theorem carriers_post (item : WorkItem) :
    (s.post item).carriers = .work item item.calls ::ₘ s.carriers := by
  rw [carriers_eq, carriers_eq]
  show _ + elsewhere (s.workQueue ++ [item]) s.completions s.point.completed = _
  rw [elsewhere_post, Multiset.add_cons]
  rfl

theorem keys_post (item : WorkItem) : (s.post item).keys = (item.slot, item.init) ::ₘ s.keys := by
  rw [keys, carriers_post, Multiset.map_cons]
  rfl

/-- What a start of the next task leaves. -/
structure Next (H : ReactorHost) (slot : Nat) (s s' : ReactorExecutor) : Prop where
  running : Running H s'
  point : s'.point = s.point
  plan : s'.slots.plan = s.slots.plan
  other : ∀ slot' ≠ slot, s'.slots.currentAt slot' = s.slots.currentAt slot' ∧
    s'.slots.indexAt slot' = s.slots.indexAt slot'
  settled : s'.slots.Settled slot

/-- A change of one slot and of what is on its way for it. -/
theorem Counted.change {ks ks' : Multiset (Nat × Bool)} {n n' : Nat}
    {taken' : List (Nat × Completion)} (h : Counted ks slots n taken) (slot : Nat)
    (hplan : slots'.plan = slots.plan) (hslot : slot < slots.plan.channels.length)
    (hinFlight : n' = ks'.card)
    (hother : ∀ slot' ≠ slot, slots'.currentAt slot' = slots.currentAt slot' ∧
      slots'.indexAt slot' = slots.indexAt slot' ∧ ((slot', true) ∈ ks' ↔ (slot', true) ∈ ks))
    (htaken : taken' = taken ∨ ∃ i c, taken' = taken ++ [(i, c)] ∧ c.slot = slot)
    (hactive : slots'.active + (if waits slots taken slot then 1 else 0) =
      slots.active + if waits slots' taken' slot then 1 else 0)
    (hwaiting : slots'.currentAt slot ≠ none →
      (waits slots' taken' slot = true ↔ (slot, true) ∉ ks'))
    (hfresh : ∀ i task, slots'.currentAt slot = some (i, task) → (slot, true) ∈ ks' →
      ∀ x ∈ taken', x.2.slot = slot → x.1 ≠ i)
    (hold : ∀ x ∈ taken', x.2.slot = slot → x.1 < slots'.indexAt slot) :
    Counted ks' slots' n' taken' := by
  have hwaits : ∀ slot' ≠ slot, waits slots' taken' slot' = waits slots taken slot' := by
    intro slot' he
    rw [waits_congr (hother slot' he).1]
    rcases htaken with rfl | ⟨i, c, rfl, hc⟩
    · rfl
    · exact waits_taken (by rw [hc]; exact Ne.symm he)
  have hmem : ∀ x ∈ taken', x.2.slot ≠ slot → x ∈ taken := by
    intro x hx hne
    rcases htaken with rfl | ⟨i, c, rfl, hc⟩
    · exact hx
    · rcases List.mem_append.mp hx with hx | hx
      · exact hx
      · rw [List.mem_singleton.mp hx] at hne
        exact absurd hc hne
  refine ⟨hinFlight, ?_, ?_, ?_, ?_⟩
  · have hcount := countP_range_change hslot hwaits
    rw [hplan]
    have := h.active
    omega
  · intro slot' hsome
    by_cases he : slot' = slot
    · rw [he] at hsome ⊢
      exact hwaiting hsome
    · obtain ⟨hcur, -, hks⟩ := hother slot' he
      rw [hcur] at hsome
      rw [hwaits slot' he, h.waiting slot' hsome, hks]
  · intro slot' i t hsome hin x hx hslot'
    by_cases he : slot' = slot
    · rw [he] at hsome hin hslot'
      exact hfresh i t hsome hin x hx hslot'
    · obtain ⟨hcur, -, hks⟩ := hother slot' he
      rw [hcur] at hsome
      exact h.fresh slot' i t hsome (hks.mp hin) x (hmem x hx (by rw [hslot']; exact he)) hslot'
  · intro x hx
    by_cases he : x.2.slot = slot
    · rw [he]
      exact hold x hx he
    · rw [(hother _ he).2.1]
      exact h.old x (hmem x hx he)

/-- Another key leaves the other slots alone. -/
theorem mem_keys_cons {ks : Multiset (Nat × Bool)} {slot' : Nat} {b : Bool} (h : slot' ≠ slot) :
    (slot', true) ∈ (slot, b) ::ₘ ks ↔ (slot', true) ∈ ks := by
  rw [Multiset.mem_cons]
  exact or_iff_right fun heq => h (congrArg Prod.fst heq)

/-- The counts when a task is started: it does not wait yet. -/
theorem Counted.enter {ks : Multiset (Nat × Bool)} {n : Nat} (h : Counted ks slots n taken)
    (hheld : Held cs slots) (hnone : slots.currentAt slot = none)
    (htask : (slots.plan.tasksOf slot)[slots.indexAt slot]? = some task) :
    Counted ((slot, true) ::ₘ ks)
      (setCurrent (slots.advance slot) slot (some (slots.indexAt slot, task))) (n + 1) taken := by
  have hlt := Slots.indexAt_lt (List.getElem?_eq_some_iff.mp htask).1
  have hcur : ∀ slot', (setCurrent (slots.advance slot) slot
      (some (slots.indexAt slot, task))).currentAt slot' =
      if slot' = slot then some (slots.indexAt slot, task) else slots.currentAt slot' :=
    currentAt_setCurrent (slots.advance slot) _ (by rw [← hheld.current] at hlt; exact hlt)
  have hindex : ∀ slot', (setCurrent (slots.advance slot) slot
      (some (slots.indexAt slot, task))).indexAt slot' =
      if slot' = slot then slots.indexAt slot + 1 else slots.indexAt slot' :=
    Slots.indexAt_advance (by rw [hheld.index]; exact hlt)
  have hnew : waits (setCurrent (slots.advance slot) slot (some (slots.indexAt slot, task))) taken slot =
      false := by
    rw [Bool.eq_false_iff, Ne, waits_some (by rw [hcur, if_pos rfl])]
    rintro ⟨hmem, -⟩
    exact Nat.lt_irrefl _ (h.old _ hmem)
  refine h.change slot rfl hlt ?_ ?_ (Or.inl rfl) ?_ ?_ ?_ ?_
  · rw [Multiset.card_cons, h.inFlight]
  · exact fun slot' he => ⟨(hcur slot').trans (if_neg he), (hindex slot').trans (if_neg he),
      mem_keys_cons he⟩
  · rw [hnew, waits_none hnone]
    rfl
  · intro _
    rw [hnew]
    simp
  · intro i t hsome _ x hx hslot
    rw [hcur, if_pos rfl] at hsome
    cases hsome
    have := h.old x hx
    rw [hslot] at this
    omega
  · intro x hx hslot
    have := h.old x hx
    rw [hslot] at this
    rw [hindex, if_pos rfl]
    omega

/-- **`start_next`** starts the next task of a free slot, if there is one. -/
theorem startNext_spec (h : Running H s) (hnone : s.slots.currentAt slot = none)
    (hfree : ∀ b, (slot, b) ∉ s.keys) :
    ((startNext slot s).1 = false → (startNext slot s).2 = s) ∧
      ((startNext slot s).1 = true → Next H slot s (startNext slot s).2) := by
  unfold startNext
  dsimp only
  split
  · rename_i hend
    refine ⟨fun hf => (by cases hf), fun _ => ⟨h, rfl, rfl, fun _ _ => ⟨rfl, rfl⟩, fun _ => ?_⟩⟩
    have := List.getElem?_eq_none_iff.mp hend
    exact Nat.le_antisymm (h.held.bound slot) this
  · rename_i task htask
    split
    · exact ⟨fun _ => rfl, fun hf => by cases hf⟩
    · refine ⟨fun hf => (by cases hf), fun _ => ?_⟩
      have hlt := Slots.indexAt_lt (List.getElem?_eq_some_iff.mp htask).1
      have hcur : ∀ slot', (setCurrent (s.slots.advance slot) slot
          (some (s.slots.indexAt slot, task))).currentAt slot' =
          if slot' = slot then some (s.slots.indexAt slot, task) else s.slots.currentAt slot' :=
        currentAt_setCurrent (s.slots.advance slot) _ (by
          rw [← h.held.current] at hlt
          exact hlt)
      refine ⟨⟨?_, h.channels, ?_, ?_⟩, rfl, rfl, fun slot' he => ⟨?_, ?_⟩, fun hc => ?_⟩
      · rw [carriers_post]
        exact h.held.enter hnone (free_iff.mpr hfree) htask rfl rfl rfl rfl
      · rw [keys_post]
        exact h.counted.enter h.held hnone htask
      · rw [keys_post]
        intro x hx
        obtain ⟨i, t, hx', hfree', hfd⟩ := h.watched x hx
        have hne : x.2 / 2 ≠ slot := fun he => by
          rw [he, hnone] at hx'
          cases hx'
        refine ⟨i, t, ((hcur _).trans (if_neg hne)).trans hx', fun b hmem => ?_, hfd⟩
        rcases Multiset.mem_cons.mp hmem with heq | hmem
        · exact hne (congrArg Prod.fst heq)
        · exact hfree' b hmem
      · exact (hcur slot').trans (if_neg he)
      · exact (Slots.indexAt_advance (by rw [h.held.index]; exact hlt) slot').trans (if_neg he)
      · have := (hcur slot).symm.trans hc
        rw [if_pos rfl] at this
        cases this

end Books

end OriginCCL.ReactorExecutor
