/-
  File:      OriginCCL/Base/Fifo.lean
  Subject:   A QUEUE OF JOBS, worked off one after the other.

  * `Act` -- what is done to a job: it is started, stepped with an event, found done.
  * `Stage.run` -- the queue a list of acts leads to, if the acts keep the order.
  * `InOrder` -- what the order means for the acts; `Stage.inOrder` -- **acts that run keep it**.
-/
import Mathlib.Data.List.Basic
import Mathlib.Data.List.Induction
import Mathlib.Tactic.Common

namespace OriginCCL.Base

/-- What is done to the jobs of a queue, which are numbered from 0. -/
inductive Act (E : Type) where
  | init (i : Nat) (ok : Bool)
  | step (i : Nat) (event : E) (ok : Bool)
  | done (i : Nat)

/-- Where a queue stands: all jobs before `k` are done; `k` is not started, runs, or has failed. -/
inductive Stage where
  | idle (k : Nat)
  | running (k : Nat)
  | failed (k : Nat)
  deriving DecidableEq

section Queue

variable {E : Type}

/-- The job started by an act. -/
def Act.started : Act E → Option Nat
  | .init i _ => some i
  | .step _ _ _ => none
  | .done _ => none

namespace Stage

/-- The number of jobs that are done. -/
def finished : Stage → Nat
  | .idle k => k
  | .running k => k
  | .failed k => k

/-- A job may only be started after the one before it is done, and stepped while it runs. -/
def act : Stage → Act E → Option Stage
  | .idle k, .init i ok => if i = k then some (if ok then .running k else .failed k) else none
  | .running k, .step i _ ok => if i = k then some (if ok then .running k else .failed k) else none
  | .running k, .done i => if i = k then some (.idle (k + 1)) else none
  | _, _ => none

def run (s : Stage) (acts : List (Act E)) : Option Stage := acts.foldlM act s

theorem run_nil (s : Stage) : s.run ([] : List (Act E)) = some s := rfl

theorem run_append (s : Stage) (xs ys : List (Act E)) :
    s.run (xs ++ ys) = (s.run xs).bind fun t => t.run ys := List.foldlM_append

/-- One more act. -/
theorem run_snoc {s t : Stage} {acts : List (Act E)} (h : s.run acts = some t) (a : Act E) :
    s.run (acts ++ [a]) = t.act a := by
  rw [run_append, h, Option.bind_some, run, List.foldlM_cons]
  cases t.act a <;> rfl

theorem run_prefix {s t : Stage} (xs : List (Act E)) {ys : List (Act E)} (h : s.run (xs ++ ys) = some t) :
    ∃ u, s.run xs = some u ∧ u.run ys = some t := by
  rw [run_append] at h
  exact Option.bind_eq_some_iff.mp h

end Stage

/-- **The acts keep the order of the queue**: the jobs are started once each and in order, each after
    all before it are done, and only the last job started, which is not done, is stepped or found done. -/
structure InOrder (acts : List (Act E)) : Prop where
  started : ∃ m, acts.filterMap Act.started = List.range m
  after : ∀ xs i ok ys, acts = xs ++ .init i ok :: ys → ∀ j < i, .done j ∈ xs
  stepped : ∀ xs i event ok ys, acts = xs ++ .step i event ok :: ys →
    .init i true ∈ xs ∧ .done i ∉ xs ∧ ∀ j, j ∈ xs.filterMap Act.started → j ≤ i
  found : ∀ xs i ys, acts = xs ++ .done i :: ys →
    .init i true ∈ xs ∧ .done i ∉ xs ∧ ∀ j, j ∈ xs.filterMap Act.started → j ≤ i

namespace Stage

/-- What the acts before it say about a stage. -/
structure Facts (acts : List (Act E)) (s : Stage) : Prop where
  started : acts.filterMap Act.started = List.range (match s with
    | .idle k => k
    | .running k => k + 1
    | .failed k => k + 1)
  done : ∀ j, .done j ∈ acts ↔ j < s.finished
  running : ∀ k, s = .running k → .init k true ∈ acts

theorem Facts.act {acts : List (Act E)} {s t : Stage} {a : Act E} (h : Facts acts s)
    (ha : s.act a = some t) : Facts (acts ++ [a]) t := by
  obtain ⟨h1, h2, h3⟩ := h
  unfold Stage.act at ha
  split at ha
  · -- a job is started
    rename_i k i ok
    split at ha
    · rename_i hi
      obtain rfl := hi
      obtain rfl := Option.some.inj ha
      refine ⟨?_, fun j => ?_, fun k hk => ?_⟩
      · rw [List.filterMap_append, h1]
        cases ok <;> exact (List.range_succ).symm
      · rw [List.mem_append, h2]
        cases ok <;> simp [finished]
      · cases ok with
        | true =>
          obtain rfl := Stage.running.inj hk
          exact List.mem_append_right _ (List.mem_singleton_self _)
        | false => cases hk
    · cases ha
  · -- it is stepped
    rename_i k i event ok
    split at ha
    · rename_i hi
      obtain rfl := hi
      obtain rfl := Option.some.inj ha
      refine ⟨?_, fun j => ?_, fun k hk => ?_⟩
      · rw [List.filterMap_append, h1]
        cases ok <;> exact List.append_nil _
      · rw [List.mem_append, h2]
        cases ok <;> simp [finished]
      · cases ok with
        | true =>
          obtain rfl := Stage.running.inj hk
          exact List.mem_append_left _ (h3 _ rfl)
        | false => cases hk
    · cases ha
  · -- it is done
    rename_i k i
    split at ha
    · rename_i hi
      obtain rfl := hi
      obtain rfl := Option.some.inj ha
      refine ⟨?_, fun j => ?_, fun k hk => by cases hk⟩
      · rw [List.filterMap_append, h1]
        exact List.append_nil _
      · rw [List.mem_append, h2]
        simp only [finished, List.mem_singleton, Act.done.injEq]
        omega
    · cases ha
  · cases ha

/-- The facts about the stage that acts lead to. -/
theorem facts {acts : List (Act E)} {s : Stage} (h : (Stage.idle 0).run acts = some s) :
    Facts acts s := by
  induction acts using List.reverseRecOn generalizing s with
  | nil =>
    obtain rfl := Option.some.inj h
    refine ⟨rfl, fun j => ⟨fun hj => ?_, fun hj => absurd hj (Nat.not_lt_zero j)⟩, fun k hk => ?_⟩
    · cases hj
    · cases hk
  | append_singleton acts a ih =>
    obtain ⟨t, ht, ha⟩ := run_prefix _ h
    have ha : t.act a = some s := by
      rw [← ha, ← run_snoc (run_nil t) a, List.nil_append]
    exact (ih ht).act ha

/-- An act that steps or ends a job meets it running. -/
theorem facts_running {acts : List (Act E)} {k : Nat} (h : Facts acts (.running k)) :
    .init k true ∈ acts ∧ .done k ∉ acts ∧ ∀ j, j ∈ acts.filterMap Act.started → j ≤ k := by
  refine ⟨h.running k rfl, fun hd => Nat.lt_irrefl k ((h.done k).mp hd), fun j hj => ?_⟩
  rw [h.started] at hj
  exact Nat.le_of_lt_succ (List.mem_range.mp hj)

/-- **Acts that run keep the order of the queue.** -/
theorem inOrder {acts : List (Act E)} {s : Stage} (h : (Stage.idle 0).run acts = some s) :
    InOrder acts := by
  refine ⟨⟨_, (facts h).started⟩, fun xs i ok ys e j hj => ?_, fun xs i event ok ys e => ?_,
    fun xs i ys e => ?_⟩
  all_goals
    obtain ⟨t, ht, hrest⟩ := run_prefix _ (e ▸ h)
    obtain ⟨u, hu, -⟩ := run_prefix [_] hrest
    rw [← List.nil_append [_], run_snoc (run_nil t)] at hu
    have hf := facts ht
    unfold Stage.act at hu
  · split at hu
    · rename_i k i' ok' heq
      obtain ⟨rfl, rfl⟩ := Act.init.inj heq
      split at hu
      · rename_i hi
        rw [hf.done, finished]
        omega
      · cases hu
    · rename_i heq
      cases heq
    · rename_i heq
      cases heq
    · cases hu
  · split at hu
    · rename_i heq
      cases heq
    · rename_i k i' event' ok' heq
      obtain ⟨rfl, rfl, rfl⟩ := Act.step.inj heq
      split at hu
      · rename_i hi
        obtain rfl := hi
        exact facts_running hf
      · cases hu
    · rename_i heq
      cases heq
    · cases hu
  · split at hu
    · rename_i heq
      cases heq
    · rename_i heq
      cases heq
    · rename_i k i' heq
      obtain rfl := Act.done.inj heq
      split at hu
      · rename_i hi
        obtain rfl := hi
        exact facts_running hf
      · cases hu
    · cases hu

end Stage

/-! ## Several queues -/

/-- The acts on one of several queues. -/
def onQueue (q : Nat) (acts : List (Nat × Act E)) : List (Act E) :=
  (acts.filter fun x => x.1 == q).map Prod.snd

theorem onQueue_self (q : Nat) (acts : List (Nat × Act E)) (a : Act E) :
    onQueue q (acts ++ [(q, a)]) = onQueue q acts ++ [a] := by
  rw [onQueue, List.filter_append, List.map_append, List.filter_cons_of_pos (by simp)]
  rfl

theorem onQueue_other {q q' : Nat} (h : q' ≠ q) (acts : List (Nat × Act E)) (a : Act E) :
    onQueue q (acts ++ [(q', a)]) = onQueue q acts := by
  rw [onQueue, List.filter_append, List.map_append, List.filter_cons_of_neg (by simpa using h)]
  exact List.append_nil _

end Queue

end OriginCCL.Base
