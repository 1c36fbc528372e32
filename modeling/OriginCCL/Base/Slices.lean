/-
  File:      OriginCCL/Base/Slices.lean
  Subject:   SLICES of a memory: reading a list of cells, and storing one.

  * `slice f a n` -- the `n` cells of `f` from `a` on; `splice f a l` -- `f` with `l` stored from `a` on.
  * `slice_splice_self`, `slice_splice_disjoint` -- what was stored is read back, the rest is unchanged.
-/
import Mathlib.Data.List.Basic
import Mathlib.Tactic.Common

namespace OriginCCL.Base

section Slices

variable {α : Type} {f g : Nat → α} {a b n m : Nat} {l : List α}

/-- The `n` cells of a memory from `a` on. -/
def slice (f : Nat → α) (a n : Nat) : List α := (List.range n).map fun j => f (a + j)

/-- The memory with a list stored from `a` on. -/
def splice (f : Nat → α) (a : Nat) (l : List α) : Nat → α := fun i =>
  if a ≤ i then l[i - a]?.getD (f i) else f i

@[simp] theorem length_slice : (slice f a n).length = n := by simp [slice]

@[simp] theorem slice_zero : slice f a 0 = [] := rfl

theorem slice_append : slice f a n ++ slice f (a + n) m = slice f a (n + m) := by
  simp only [slice, List.range_add, List.map_append, List.map_map]
  congr 1
  refine List.map_congr_left fun j _ => ?_
  simp [Nat.add_assoc]

/-- Memories that agree on a range have the same slice there. -/
theorem slice_congr (h : ∀ j < n, g (b + j) = f (a + j)) : slice g b n = slice f a n :=
  List.map_congr_left fun j hj => h j (List.mem_range.mp hj)

/-- A slice is a list if its cells are the list's places. -/
theorem slice_eq (h : ∀ j (hj : j < l.length), f (a + j) = l[j]) : slice f a l.length = l := by
  refine List.ext_getElem (by simp) fun j h1 h2 => ?_
  simp only [slice, List.getElem_map, List.getElem_range]
  exact h j h2

/-- The cells of a slice, one by one. -/
theorem getElem?_slice {j : Nat} (h : j < n) : (slice f a n)[j]? = some (f (a + j)) := by
  simp [slice, h]

theorem take_slice (h : m ≤ n) : (slice f a n).take m = slice f a m := by
  obtain ⟨k, rfl⟩ := Nat.exists_eq_add_of_le h
  rw [← slice_append, List.take_left' length_slice]

theorem drop_slice (h : m ≤ n) : (slice f a n).drop m = slice f (a + m) (n - m) := by
  obtain ⟨k, rfl⟩ := Nat.exists_eq_add_of_le h
  rw [← slice_append, List.drop_left' length_slice, Nat.add_sub_cancel_left]

theorem splice_of_lt {i : Nat} (h : i < a) : splice f a l i = f i := if_neg (by omega)

theorem splice_of_le {i : Nat} (h : a + l.length ≤ i) : splice f a l i = f i := by
  rw [splice, if_pos (by omega), List.getElem?_eq_none (by omega), Option.getD_none]

theorem splice_at {j : Nat} (h : j < l.length) : splice f a l (a + j) = l[j] := by
  rw [splice, if_pos (Nat.le_add_right a j), Nat.add_sub_cancel_left, List.getElem?_eq_getElem h,
    Option.getD_some]

/-- **What was stored is read back.** -/
theorem slice_splice_self : slice (splice f a l) a l.length = l := slice_eq fun _ hj => splice_at hj

/-- **A range apart from what is stored is unchanged.** -/
theorem slice_splice_disjoint (h : b + n ≤ a ∨ a + l.length ≤ b) :
    slice (splice f a l) b n = slice f b n := by
  refine slice_congr fun j hj => ?_
  rcases h with h | h
  · exact splice_of_lt (by omega)
  · exact splice_of_le (by omega)

end Slices

end OriginCCL.Base
