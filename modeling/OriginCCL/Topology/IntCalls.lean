/-
  File:      OriginCCL/Topology/IntCalls.lean
  Subject:   THE CALLS AN EXECUTOR MAKES FOR A TASK, with the `int`s of the source.

  * `Topology.IntReached` -- the states that sequences of successful calls on `int`s lead to.
  * `Topology.SameInts` -- a task whose calls are the same with `int`s and without.
  * `IntReached.traced` -- **every state of such a task is one that calls without a bound lead to**, with
    a log of what they touch.
-/
import OriginCCL.Topology.Calls
import OriginCCL.Topology.IntRuns

namespace OriginCCL

open Net

namespace Net.Prog

variable {τ β α γ : Type}

/-- The ends of a mapped call. -/
theorem ends_map {p : Prog τ β α} {g : α → γ} {b : γ} (h : (p.map g).Ends (.ok b)) :
    ∃ a, p.Ends (.ok a) ∧ g a = b := by
  induction p with
  | ret a =>
    cases h
    exact ⟨a, .ret a, rfl⟩
  | fail f => cases h
  | send l data k ih =>
    cases h with
    | send _ _ _ n _ h =>
      obtain ⟨a, ha, he⟩ := ih n h
      exact ⟨a, .send l data k n _ ha, he⟩
  | recv l size k ih =>
    cases h with
    | recv _ _ _ bs _ h =>
      obtain ⟨a, ha, he⟩ := ih bs h
      exact ⟨a, .recv l size k bs _ ha, he⟩

end Net.Prog

/-- **The states of a task after calls that have succeeded**, with the `int`s of the source. -/
inductive Topology.IntReached (topo : Topology) (task : PlanTask) (s₀ : RankState) : RankState → Prop
  | init (s : RankState) (h : (topo.intInit task s₀).Ends (.ok s)) : IntReached topo task s₀ s
  | start (event : CollEvent) (s : RankState) (hfresh : s₀.op = {}) (hself : topo.startsItself = true)
      (h : (topo.intStep task event s₀).Ends (.ok s)) : IntReached topo task s₀ s
  | again (s s' : RankState) (hs : IntReached topo task s₀ s)
      (h : (topo.intInit task s).Ends (.ok s')) : IntReached topo task s₀ s'
  | step (event : CollEvent) (s s' : RankState) (hs : IntReached topo task s₀ s)
      (h : (topo.intStep task event s).Ends (.ok s')) : IntReached topo task s₀ s'

/-- **The calls of a task are the same on `int`s**: from every state a first one, from the initial state a
    step, and from the states that meet `K` all others. -/
structure Topology.SameInts (topo : Topology) (task : PlanTask) (K : RankState → Prop) : Prop where
  init : ∀ s, Prog.Image id K (topo.collectiveInit task s) (topo.intInit task s)
  start : ∀ e s, s.op = {} → Prog.Image id K (topo.collectiveStep task e s) (topo.intStep task e s)
  step : ∀ e s, K s → Prog.Image id K (topo.collectiveStep task e s) (topo.intStep task e s)

section Same

variable {task : PlanTask}

/-- The calls of a ring task with small numbers. -/
theorem ring_sameInts (R : TopologyRing) {N r : Nat} (S : TopologyRing.Ranked task N r)
    (B : TopologyRing.Small task N) :
    Topology.SameInts (.ring R) task (TopologyRing.AtCursor (TopologyRing.ringCursor task)) where
  init s := TopologyRing.collectiveInit_same S B s
  start e s hfresh := TopologyRing.collectiveStep_same S B e fun hne => absurd (by rw [hfresh]; rfl) hne
  step e s hs := TopologyRing.collectiveStep_same S B e fun _ => hs

/-- The calls of a tree task with fewer than `2 ^ 31` chunks. -/
theorem tree_sameInts (T : TopologyTree) (hpos : 1 ≤ task.chunkSize)
    (hlt : TopologyTree.chunkCount task < 2 ^ 31) :
    Topology.SameInts (.tree T) task (TopologyTree.Counts task) where
  init s := TopologyTree.collectiveInit_same T hpos hlt s
  start e s hfresh := TopologyTree.collectiveStep_same T hpos hlt e
    ((show TopologyTree.Counts task ⟨{}, s.mem⟩ from
      ⟨fun _ => Nat.zero_le _, fun _ => Nat.zero_le _⟩).of_algo (by rw [hfresh]))
  step e s hs := TopologyTree.collectiveStep_same T hpos hlt e hs

variable {topo : Topology} {K : RankState → Prop} {t₀ : Traced} {s : RankState}

/-- **Every state that calls on `int`s lead to** is one that calls without a bound lead to. -/
theorem Topology.IntReached.traced (H : topo.SameInts task K) (h : topo.IntReached task t₀.1 s) :
    ∃ x, TaskReached topo task t₀ x ∧ x.1 = s ∧ K s := by
  have hinit : ∀ {t : Traced} {s' : RankState}, (topo.intInit task t.1).Ends (.ok s') →
      ∃ x, (topo.tracedInit task t).Ends (.ok x) ∧ x.1 = s' ∧ K s' := by
    intro t s' h
    have himage := H.init t.1
    rw [himage.eq, Prog.map_id] at h
    have hK := himage.ensures.ends h
    rw [← Topology.tracedInit_erase] at h
    obtain ⟨x, hx, he⟩ := Prog.ends_map h
    exact ⟨x, hx, he, hK⟩
  have hstep : ∀ {e : CollEvent} {t : Traced} {s' : RankState},
      Prog.Image id K (topo.collectiveStep task e t.1) (topo.intStep task e t.1) →
      (topo.intStep task e t.1).Ends (.ok s') →
      ∃ x, (topo.tracedStep task e t).Ends (.ok x) ∧ x.1 = s' ∧ K s' := by
    intro e t s' himage h
    rw [himage.eq, Prog.map_id] at h
    have hK := himage.ensures.ends h
    rw [← Topology.tracedStep_erase] at h
    obtain ⟨x, hx, he⟩ := Prog.ends_map h
    exact ⟨x, hx, he, hK⟩
  induction h with
  | init s h =>
    obtain ⟨x, hx, he⟩ := hinit h
    exact ⟨x, .init x hx, he⟩
  | start e s hfresh hself h =>
    obtain ⟨x, hx, he⟩ := hstep (H.start e _ hfresh) h
    exact ⟨x, .start e x hfresh hself hx, he⟩
  | again s s' _ h ih =>
    obtain ⟨t, ht, rfl, -⟩ := ih
    obtain ⟨x, hx, he⟩ := hinit h
    exact ⟨x, .again t x ht hx, he⟩
  | step e s s' _ h ih =>
    obtain ⟨t, ht, rfl, hK⟩ := ih
    obtain ⟨x, hx, he⟩ := hstep (H.step e _ hK) h
    exact ⟨x, .step e t x ht hx, he⟩

end Same

end OriginCCL
