/-
  File:      OriginCCL/Net/Schedule.lean
  Subject:   RUNS THAT CAN BE COMPUTED.

  * `Config.advance` -- the next step of one node over pipes of given capacities: every transfer moves
    as much as its pipe takes or holds, and a node between two calls is driven by a given event.
  * `Config.follow` -- a whole schedule; `follow_run` -- **it is a run**.
-/
import Mathlib.Data.List.Induction
import OriginCCL.Net.System

namespace OriginCCL.Net

variable {V τ β T S M E : Type} [DecidableEq V] [DecidableEq τ]
  (sys : System V τ β T S M E) (cap : τ → Nat) (tasks : V → List T)

/-- The next step of node `v`, driven by `e` where it is between two calls. -/
def Config.advance (c : Config V τ β S M) (v : V) (e : E) : Config V τ β S M :=
  match (tasks v)[(c.node v).finished]? with
  | none => c
  | some t =>
    match (c.node v).mode with
    | .fresh m => c.setMode v (.busy (sys.init t m))
    | .idle s => c.setMode v (.busy (sys.step t e s))
    | .busy (.ret s) =>
      if sys.done t s then
        c.setNode v ⟨(c.node v).finished + 1, .fresh (sys.mem s), (c.node v).past ++ [sys.mem s]⟩
      else c.setMode v (.idle s)
    | .busy (.fail _) => c
    | .busy (.send l data k) =>
      let n := min data.length (cap l - (c.link l).length)
      (c.setMode v (.busy (k (some n)))).setLink l (c.link l ++ data.take n)
    | .busy (.recv l size k) =>
      let n := min size (c.link l).length
      (c.setMode v (.busy (k (some ((c.link l).take n))))).setLink l ((c.link l).drop n)

/-- The configuration at the end of a schedule. -/
def Config.follow (c : Config V τ β S M) (schedule : List (V × E)) : Config V τ β S M :=
  schedule.foldl (fun c x => c.advance sys cap tasks x.1 x.2) c

/-- What `advance` computes is a step, or nothing. -/
theorem Config.advance_step (c : Config V τ β S M) (v : V) (e : E) :
    c.advance sys cap tasks v e = c ∨
      ∃ a, Step sys (Flow.full cap) tasks c a (c.advance sys cap tasks v e) := by
  unfold advance
  split
  · exact Or.inl rfl
  · rename_i t ht
    split
    · rename_i m hm
      exact Or.inr ⟨_, .call c v t m ht hm⟩
    · rename_i s hm
      exact Or.inr ⟨_, .step c v t s e ht hm⟩
    · rename_i s hm
      split
      · rename_i hd
        exact Or.inr ⟨_, .finish c v t s ht hm hd⟩
      · rename_i hd
        exact Or.inr ⟨_, .ret c v t s ht hm (by simpa using hd)⟩
    · exact Or.inl rfl
    · rename_i l data k hm
      exact Or.inr ⟨_, .push c v l data k _ hm (Nat.min_le_left ..) rfl⟩
    · rename_i l size k hm
      exact Or.inr ⟨_, .pull c v l size k _ hm (Nat.min_le_left ..) (Nat.min_le_right ..) rfl⟩

/-- **A schedule is a run.** -/
theorem Config.follow_run (c₀ : Config V τ β S M) (schedule : List (V × E)) :
    ∃ ls, Run sys (Flow.full cap) tasks c₀ ls (c₀.follow sys cap tasks schedule) := by
  induction schedule using List.reverseRecOn with
  | nil => exact ⟨[], .nil⟩
  | append_singleton xs x ih =>
    obtain ⟨ls, h⟩ := ih
    simp only [follow, List.foldl_append, List.foldl_cons, List.foldl_nil] at h ⊢
    rcases advance_step sys cap tasks
      (xs.foldl (fun c x => c.advance sys cap tasks x.1 x.2) c₀) x.1 x.2 with he | ⟨a, hs⟩
    · rw [he]
      exact ⟨ls, h⟩
    · exact ⟨_, .snoc h hs⟩

end OriginCCL.Net
