/-
  File:      OriginCCL/Base/Runs.lean
  Subject:   RUNS of a labelled machine.

  * `Reach step s₀ ls s` -- the labels `ls` lead from `s₀` to `s`, and nowhere else (`Reach.unique`).
  * `Reach.invariant` -- **what every step keeps holds in every state reached**, also when the labels
    are restricted (`Reach.invariant_of`).
  * `replay` -- the state after a list of labels, if every one is enabled; `replay_reach`.
  * `follow` -- a schedule whose disabled labels are left out; `follow_reach` -- it is a run.
-/
import Mathlib.Data.List.Induction
import Mathlib.Tactic.Common

namespace OriginCCL.Base

section Runs

variable {S L : Type} {step : L → S → Option S} {s₀ s : S} {ls : List L}

/-- The labels `ls` lead from `s₀` to the state. -/
inductive Reach (step : L → S → Option S) (s₀ : S) : List L → S → Prop where
  | start : Reach step s₀ [] s₀
  | next (ls : List L) (s : S) (l : L) (s' : S) (h : Reach step s₀ ls s) (hs : step l s = some s') :
      Reach step s₀ (ls ++ [l]) s'

/-- A run that goes on. -/
theorem Reach.trans {s' : S} {ls' : List L} (h : Reach step s₀ ls s) (h' : Reach step s ls' s') :
    Reach step s₀ (ls ++ ls') s' := by
  induction h' with
  | start =>
    rw [List.append_nil]
    exact h
  | next ls' s l s' _ hs ih =>
    rw [← List.append_assoc]
    exact .next _ _ l _ ih hs

theorem Reach.single {l : L} (hs : step l s₀ = some s) : Reach step s₀ [l] s :=
  .next [] s₀ l s .start hs

/-- A run after a first step. -/
theorem Reach.cons {s' : S} {l : L} (hs : step l s₀ = some s) (h : Reach step s ls s') :
    Reach step s₀ (l :: ls) s' :=
  (Reach.single hs).trans h

/-- **The labels of a run determine where it leads.** -/
theorem Reach.unique {s' : S} (h : Reach step s₀ ls s) (h' : Reach step s₀ ls s') : s = s' := by
  induction h generalizing s' with
  | start =>
    generalize hls : [] = ks at h'
    cases h' with
    | start => rfl
    | next ls₂ _ l₂ _ _ _ => exact absurd hls.symm (List.concat_ne_nil l₂ ls₂)
  | next ls s l s₁ _ hs ih =>
    generalize hls : ls ++ [l] = ks at h'
    cases h' with
    | start => exact absurd hls (List.concat_ne_nil l ls)
    | next ls₂ s₂ l₂ _ h₂ hs₂ =>
      obtain ⟨rfl, hl⟩ := List.append_inj' hls rfl
      obtain rfl := List.singleton_inj.mp hl
      obtain rfl := ih h₂
      exact Option.some.inj (hs.symm.trans hs₂)

/-- **An invariant of the steps whose labels satisfy `P`** holds after every run of such steps. -/
theorem Reach.invariant_of {I : S → Prop} {P : L → Prop} (h : Reach step s₀ ls s) (h0 : I s₀)
    (hstep : ∀ l s s', P l → I s → step l s = some s' → I s') (hP : ∀ l ∈ ls, P l) : I s := by
  induction h with
  | start => exact h0
  | next ls s l s' _ hs ih =>
    have hI := ih fun a ha => hP a (List.mem_append_left _ ha)
    exact hstep l s s' (hP l (List.mem_append_right _ (List.mem_singleton_self l))) hI hs

/-- **What every step keeps holds in every state reached.** -/
theorem Reach.invariant {I : S → Prop} (h : Reach step s₀ ls s) (h0 : I s₀)
    (hstep : ∀ l s s', I s → step l s = some s' → I s') : I s :=
  h.invariant_of (P := fun _ => True) h0 (fun l s s' _ => hstep l s s') fun _ _ => trivial

/-- The state after the labels, if every one is enabled in its turn. -/
def replay (step : L → S → Option S) : List L → S → Option S
  | [], s => some s
  | l :: ls, s => (step l s).bind (replay step ls)

theorem replay_reach (h : replay step ls s₀ = some s) : Reach step s₀ ls s := by
  induction ls generalizing s₀ with
  | nil =>
    obtain rfl := Option.some.inj h
    exact .start
  | cons l ls ih =>
    obtain ⟨s', hs, h⟩ := Option.bind_eq_some_iff.mp h
    exact (ih h).cons hs

/-- The state after a schedule; labels that are not enabled are left out. -/
def follow (step : L → S → Option S) (s : S) (schedule : List L) : S :=
  schedule.foldl (fun s l => (step l s).getD s) s

/-- **A schedule is a run**, of the labels that were enabled. -/
theorem follow_reach (step : L → S → Option S) (s : S) (schedule : List L) :
    ∃ ls, (∀ l ∈ ls, l ∈ schedule) ∧ Reach step s ls (follow step s schedule) := by
  induction schedule using List.reverseRecOn with
  | nil => exact ⟨[], fun _ h => h, .start⟩
  | append_singleton xs x ih =>
    obtain ⟨ls, hmem, h⟩ := ih
    have hlast : follow step s (xs ++ [x]) =
        (step x (follow step s xs)).getD (follow step s xs) := by
      rw [follow, List.foldl_append]
      rfl
    have hmem' : ∀ l ∈ ls, l ∈ xs ++ [x] := fun l hl => List.mem_append_left _ (hmem l hl)
    rw [hlast]
    cases hx : step x (follow step s xs) with
    | none => exact ⟨ls, hmem', h⟩
    | some s' =>
      refine ⟨ls ++ [x], fun l hl => ?_, .next ls _ x s' h hx⟩
      rcases List.mem_append.mp hl with hl | hl
      · exact hmem' l hl
      · exact List.mem_append_right _ hl

end Runs

end OriginCCL.Base
