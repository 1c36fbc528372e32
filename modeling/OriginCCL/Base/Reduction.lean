/-
  File:      OriginCCL/Base/Reduction.lean
  Subject:   REDUCTIONS over the members of a group, in any order.

  * `reduceRange op n f` -- `f 0, f 1, …, f (n - 1)` combined from left to right.
  * `reduceRange_eq_fold` -- for a commutative and associative operation with a neutral element it
    is the fold over the set of members, so the order does not matter.
  * `window N r k` -- the members `r, r - 1, …, r - k` of a ring of `N`.
  * `travel op N f r k` -- a reduction that travels around the ring, `k` steps long, when it reaches
    `r`; `travel_full` -- after a whole turn it is the reduction of all members.
-/
import Mathlib.Data.Finset.Fold
import Mathlib.Data.Finset.Range
import Mathlib.Data.Finset.Lattice.Fold
import Mathlib.Tactic.Common

namespace OriginCCL.Base

section Fold

variable {α : Type}

/-- `f 0, f 1, …, f (n - 1)`, combined from left to right. -/
def reduceRange (op : α → α → α) (n : Nat) (f : Nat → α) : α :=
  (List.range (n - 1)).foldl (fun acc r => op acc (f (r + 1))) (f 0)

variable {op : α → α → α} [Std.Commutative op] [Std.Associative op] {e : α}

/-- **The order of a reduction does not matter.** -/
theorem reduceRange_eq_fold (he : ∀ a, op e a = a) {n : Nat} (hn : 0 < n) (f : Nat → α) :
    reduceRange op n f = (Finset.range n).fold op e f := by
  have hcomm : ∀ a b, op a b = op b a := Std.Commutative.comm
  obtain ⟨n, rfl⟩ : ∃ m, n = m + 1 := ⟨n - 1, by omega⟩
  unfold reduceRange
  rw [Nat.add_sub_cancel]
  induction n with
  | zero =>
    rw [Finset.range_one, Finset.fold_singleton, hcomm, he]
    rfl
  | succ n ih =>
    rw [List.range_succ, List.foldl_append, List.foldl_cons, List.foldl_nil, ih (Nat.succ_pos n),
      Finset.range_add_one (n := n + 1), Finset.fold_insert Finset.notMem_range_self,
      hcomm]

end Fold

/-! ## A ring of `N` members -/

/-- The member `k` steps before `r`. -/
def back (N r k : Nat) : Nat := (r + N - k) % N

theorem back_lt {N r k : Nat} (hr : r < N) : back N r k < N := Nat.mod_lt _ (by omega)

theorem back_zero {N r : Nat} (hr : r < N) : back N r 0 = r := by
  rw [back, Nat.sub_zero, Nat.add_mod_right, Nat.mod_eq_of_lt hr]

/-- `back` without the modulus. -/
theorem back_eq {N r k : Nat} (hr : r < N) (hk : k ≤ N) :
    back N r k = if k ≤ r then r - k else r + N - k := by
  unfold back
  split
  · rw [show r + N - k = r - k + N by omega, Nat.add_mod_right, Nat.mod_eq_of_lt (by omega)]
  · exact Nat.mod_eq_of_lt (by omega)

/-- Two distances below `N` lead to the same member only if they are equal. -/
theorem back_injective {N r i j : Nat} (hr : r < N) (hi : i < N) (hj : j < N)
    (h : back N r i = back N r j) : i = j := by
  rw [back_eq hr (by omega), back_eq hr (by omega)] at h
  split at h <;> split at h <;> omega

/-- The distance to a member leads to it. -/
theorem back_back {N r c : Nat} (hr : r < N) (hc : c < N) : back N r (back N r c) = c := by
  rw [back_eq hr (Nat.le_of_lt (back_lt hr)), back_eq hr (by omega)]
  split <;> split <;> omega

/-- One step back, then `k` more. -/
theorem back_one_back {N r k : Nat} (hr : r < N) (hk : k < N) :
    back N (back N r 1) k = back N r (k + 1) := by
  have h1 : back N r 1 < N := back_lt hr
  rw [back_eq h1 (by omega), back_eq hr (by omega), back_eq hr (by omega)]
  split <;> split <;> split <;> omega

/-- The member before the next one. -/
theorem back_of_next {N r : Nat} (hr : r < N) : back N ((r + 1) % N) 1 = r := by
  by_cases h : r + 1 = N
  · have e : (r + 1) % N = 0 := by rw [h, Nat.mod_self]
    rw [e, back_eq (by omega) (by omega)]
    split <;> omega
  · have e : (r + 1) % N = r + 1 := Nat.mod_eq_of_lt (by omega)
    rw [e, back_eq (by omega) (by omega)]
    split <;> omega

/-- The member after the previous one. -/
theorem next_of_back {N r : Nat} (hr : r < N) : (back N r 1 + 1) % N = r := by
  rw [back_eq hr (by omega)]
  split
  · rw [Nat.sub_add_cancel (by omega), Nat.mod_eq_of_lt hr]
  · have e : r + N - 1 + 1 = N := by omega
    rw [e, Nat.mod_self]
    omega

/-- The next member is one step further from every other. -/
theorem back_next {N r k : Nat} (hr : r < N) (hk : k < N) :
    back N ((r + 1) % N) (k + 1) = back N r k := by
  have hlt : (r + 1) % N < N := Nat.mod_lt _ (by omega)
  rw [← back_one_back hlt hk, back_of_next hr]

/-- The members `r, r - 1, …, r - k` of a ring of `N`. -/
def window (N r k : Nat) : Finset Nat := (Finset.range (k + 1)).image (back N r)

theorem mem_window {N r k q : Nat} : q ∈ window N r k ↔ ∃ j ≤ k, back N r j = q := by
  simp only [window, Finset.mem_image, Finset.mem_range, Nat.lt_succ_iff]

theorem window_zero {N r : Nat} (hr : r < N) : window N r 0 = {r} := by
  ext q
  simp only [mem_window, Nat.le_zero, exists_eq_left, back_zero hr, Finset.mem_singleton, eq_comm]

theorem window_succ {N r k : Nat} (hr : r < N) (hk : k + 1 < N) :
    window N r (k + 1) = insert r (window N (back N r 1) k) := by
  ext q
  rw [Finset.mem_insert, mem_window, mem_window]
  constructor
  · rintro ⟨j, hj, rfl⟩
    cases j with
    | zero => exact Or.inl (back_zero hr)
    | succ j => exact Or.inr ⟨j, by omega, back_one_back hr (by omega)⟩
  · rintro (rfl | ⟨j, hj, rfl⟩)
    · exact ⟨0, Nat.zero_le _, back_zero hr⟩
    · exact ⟨j + 1, by omega, (back_one_back hr (by omega)).symm⟩

theorem notMem_window_prev {N r k : Nat} (hr : r < N) (hk : k + 1 < N) :
    r ∉ window N (back N r 1) k := by
  rw [mem_window]
  rintro ⟨j, hj, h⟩
  rw [back_one_back hr (by omega)] at h
  have := back_injective hr (by omega) (by omega) (h.trans (back_zero hr).symm)
  omega

/-- **A window of `N` members is the whole ring.** -/
theorem window_full {N r : Nat} (hr : r < N) : window N r (N - 1) = Finset.range N := by
  apply Finset.eq_of_subset_of_card_le
  · intro q hq
    obtain ⟨j, -, rfl⟩ := mem_window.mp hq
    exact Finset.mem_range.mpr (back_lt hr)
  · rw [Finset.card_range, window, Finset.card_image_of_injOn, Finset.card_range]
    · omega
    · intro i hi j hj h
      rw [Finset.mem_coe, Finset.mem_range] at hi hj
      exact back_injective hr (by omega) (by omega) h

section RingFold

variable {α : Type}

/-- What a reduction that has travelled `k` steps is at member `r`: the member combines its own value
    with what its predecessor passes on. -/
def travel (op : α → α → α) (N : Nat) (f : Nat → α) : Nat → Nat → α
  | 0, r => f r
  | k + 1, r => op (f r) (travel op N f k (back N r 1))

variable {op : α → α → α} [Std.Commutative op] [Std.Associative op] {e : α}

theorem window_fold_zero (he : ∀ a, op e a = a) {N r : Nat} (hr : r < N) (f : Nat → α) :
    (window N r 0).fold op e f = f r := by
  have hcomm : ∀ a b, op a b = op b a := Std.Commutative.comm
  rw [window_zero hr, Finset.fold_singleton, hcomm, he]

/-- **One step around the ring**: a member combines its own value with what its predecessor has. -/
theorem window_fold_succ {N r k : Nat} (hr : r < N) (hk : k + 1 < N) (f : Nat → α) :
    (window N r (k + 1)).fold op e f = op (f r) ((window N (back N r 1) k).fold op e f) := by
  rw [window_succ hr hk, Finset.fold_insert (notMem_window_prev hr hk)]

theorem travel_eq_fold (he : ∀ a, op e a = a) {N r k : Nat} (hr : r < N) (hk : k < N)
    (f : Nat → α) : travel op N f k r = (window N r k).fold op e f := by
  induction k generalizing r with
  | zero => exact (window_fold_zero he hr f).symm
  | succ k ih => rw [travel, ih (back_lt hr) (by omega), window_fold_succ hr hk]

/-- **After a whole turn** every member has been combined, wherever the reduction ends. -/
theorem travel_full (he : ∀ a, op e a = a) {N r : Nat} (hr : r < N) (f : Nat → α) :
    travel op N f (N - 1) r = reduceRange op N f := by
  rw [travel_eq_fold he hr (by omega), window_full hr, reduceRange_eq_fold he (by omega)]

end RingFold

end OriginCCL.Base
