/-
  File:      OriginCCL/Base/Selections.lean
  Subject:   A LIST SEEN THROUGH A FILTER, and the bytes of a list of messages.

  * `before q xs k` -- how many of the first `k` elements are selected.
  * `getElem?_before`, `exists_before` -- **the selected elements are numbered by what is before them**.
  * `getElem?_flatMap` -- the bytes of a message follow those of the messages before it.
-/
import Mathlib.Algebra.GroupWithZero.Nat
import Mathlib.Data.List.Basic
import Mathlib.Tactic.Common

namespace OriginCCL.Base

section Selections

variable {α β : Type} {q : α → Bool} {xs : List α} {a : α} {k i : Nat}

/-- How many of the first `k` elements are selected. -/
def before (q : α → Bool) (xs : List α) (k : Nat) : Nat := ((xs.take k).filter q).length

/-- The first selected elements are the selected ones of the first. -/
theorem take_before (q : α → Bool) (xs : List α) (k : Nat) :
    (xs.filter q).take (before q xs k) = (xs.take k).filter q := by
  have happ : xs.filter q = (xs.take k).filter q ++ (xs.drop k).filter q := by
    rw [← List.filter_append, List.take_append_drop]
  rw [happ, before, List.take_left]

/-- **A selected element is found after those before it.** -/
theorem getElem?_before (hk : xs[k]? = some a) (hq : q a = true) :
    (xs.filter q)[before q xs k]? = some a := by
  obtain ⟨hlt, rfl⟩ := List.getElem?_eq_some_iff.mp hk
  have happ : xs.filter q =
      (xs.take k).filter q ++ (xs[k] :: xs.drop (k + 1)).filter q := by
    rw [← List.filter_append, ← List.drop_eq_getElem_cons hlt, List.take_append_drop]
  rw [happ, before, List.getElem?_append_right (Nat.le_refl _), Nat.sub_self,
    List.filter_cons_of_pos hq]
  rfl

/-- **Every selected element has its place.** -/
theorem exists_before (h : (xs.filter q)[i]? = some a) :
    ∃ k, xs[k]? = some a ∧ before q xs k = i ∧ q a = true := by
  induction xs generalizing i with
  | nil => cases h
  | cons x xs ih =>
    by_cases hx : q x = true
    · rw [List.filter_cons_of_pos hx] at h
      cases i with
      | zero => exact ⟨0, h, rfl, by cases h; exact hx⟩
      | succ i =>
        obtain ⟨k, hk, hbefore, hq⟩ := ih h
        refine ⟨k + 1, hk, ?_, hq⟩
        rw [before, List.take_succ_cons, List.filter_cons_of_pos hx, List.length_cons]
        exact congrArg (· + 1) hbefore
    · rw [List.filter_cons_of_neg hx] at h
      obtain ⟨k, hk, hbefore, hq⟩ := ih h
      refine ⟨k + 1, hk, ?_, hq⟩
      rw [before, List.take_succ_cons, List.filter_cons_of_neg hx]
      exact hbefore

/-- **The bytes of a message** follow those of the messages before it. -/
theorem getElem?_flatMap (f : α → List β) (h : xs[i]? = some a) {j : Nat} (hj : j < (f a).length) :
    (xs.flatMap f)[((xs.take i).map fun x => (f x).length).sum + j]? = (f a)[j]? := by
  induction xs generalizing i with
  | nil => cases h
  | cons x xs ih =>
    cases i with
    | zero =>
      cases h
      rw [List.take_zero, List.map_nil, List.sum_nil, Nat.zero_add, List.flatMap_cons,
        List.getElem?_append_left hj]
    | succ i =>
      have hrest := ih h
      rw [List.take_succ_cons, List.map_cons, List.sum_cons, List.flatMap_cons, Nat.add_assoc,
        List.getElem?_append_right (Nat.le_add_right ..), Nat.add_sub_cancel_left]
      exact hrest

end Selections

end OriginCCL.Base
