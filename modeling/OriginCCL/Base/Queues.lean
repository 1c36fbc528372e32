/-
  File:      OriginCCL/Base/Queues.lean
  Subject:   NUMBERED QUEUES: queues whose elements bear consecutive numbers.

  * `Numbered P n q` -- the first element of the queue has property `P n`, the next one `P (n + 1)`, …
  * `numbered_append` -- a queue is numbered from `n` on if its front is, and its rest goes on from there.
-/
import Mathlib.Data.List.Basic
import Mathlib.Tactic.Common

namespace OriginCCL.Base

section Queues

variable {α β : Type} {P : Nat → α → Prop} {Q : Nat → β → Prop} {n : Nat} {x : α} {xs ys : List α}

/-- The elements of the queue have the properties `P n`, `P (n + 1)`, …, in order. -/
def Numbered (P : Nat → α → Prop) : Nat → List α → Prop
  | _, [] => True
  | n, x :: xs => P n x ∧ Numbered P (n + 1) xs

@[simp] theorem numbered_nil : Numbered P n [] := trivial

@[simp] theorem numbered_cons : Numbered P n (x :: xs) ↔ P n x ∧ Numbered P (n + 1) xs := Iff.rfl

/-- **A queue goes on where its front ends.** -/
theorem numbered_append :
    Numbered P n (xs ++ ys) ↔ Numbered P n xs ∧ Numbered P (n + xs.length) ys := by
  induction xs generalizing n with
  | nil => simp
  | cons x xs ih =>
    rw [List.cons_append, numbered_cons, numbered_cons, ih, List.length_cons, and_assoc,
      Nat.add_assoc, Nat.add_comm 1]

/-- An element put at the end has the next number. -/
theorem Numbered.concat (h : Numbered P n xs) (hx : P (n + xs.length) x) :
    Numbered P n (xs ++ [x]) :=
  numbered_append.mpr ⟨h, hx, trivial⟩

/-- **Element `k` has number `n + k`.** -/
theorem Numbered.get (h : Numbered P n xs) {k : Nat} (hk : k < xs.length) : P (n + k) xs[k] := by
  induction xs generalizing n k with
  | nil => exact absurd hk (Nat.not_lt_zero k)
  | cons x xs ih =>
    cases k with
    | zero => exact h.1
    | succ k =>
      have := ih h.2 (Nat.lt_of_succ_lt_succ hk)
      rw [Nat.add_assoc, Nat.add_comm 1] at this
      exact this

/-- Every element has a number. -/
theorem Numbered.exists_number (h : Numbered P n xs) (hx : x ∈ xs) : ∃ i, P i x := by
  obtain ⟨k, hk, rfl⟩ := List.getElem_of_mem hx
  exact ⟨n + k, h.get hk⟩

/-- A queue is renumbered element by element. -/
theorem Numbered.map (h : Numbered P n xs) (g : α → β)
    (hg : ∀ i x, n ≤ i → i < n + xs.length → P i x → Q i (g x)) : Numbered Q n (xs.map g) := by
  induction xs generalizing n with
  | nil => trivial
  | cons x xs ih =>
    have hx := hg n x (Nat.le_refl n) (by rw [List.length_cons]; omega) h.1
    refine ⟨hx, ih h.2 fun i y h1 h2 => hg i y (by omega) ?_⟩
    rw [List.length_cons]
    omega

theorem Numbered.imp {P' : Nat → α → Prop} (h : Numbered P n xs)
    (hg : ∀ i x, n ≤ i → i < n + xs.length → P i x → P' i x) : Numbered P' n xs := by
  have := h.map id hg
  rwa [List.map_id] at this

end Queues

end OriginCCL.Base
