/-
  File:      OriginCCL/Base/MachineInts.lean
  Subject:   THE INTEGERS OF THE MACHINE: `int` of 32 bits, `size_t` of 64.

  * `int32` -- what an `int` holds of a number, in two's complement; `toSize` -- an `int` as a `size_t`.
  * `int32_of_fits`, `toSize_of_nonneg` -- **numbers in range are themselves**.
-/
import Mathlib.Algebra.Group.Nat.Defs
import Mathlib.Algebra.Ring.Int.Defs
import Mathlib.Tactic.Common

namespace OriginCCL.Base

/-- What an `int` holds of `x`. -/
def int32 (x : Int) : Int := x.bmod (2 ^ 32)

/-- `static_cast<size_t>(x)` -/
def toSize (x : Int) : Nat := (x % 2 ^ 64).toNat

/-- The number fits an `int`. -/
def FitsInt (x : Int) : Prop := -2 ^ 31 ≤ x ∧ x < 2 ^ 31

instance (x : Int) : Decidable (FitsInt x) := inferInstanceAs (Decidable (_ ∧ _))

theorem int32_of_fits {x : Int} (h : FitsInt x) : int32 x = x := by
  obtain ⟨h0, h1⟩ := h
  exact Int.bmod_eq_of_le (by omega) (by omega)

theorem toSize_of_nonneg {x : Int} (h0 : 0 ≤ x) (h1 : x < 2 ^ 64) : toSize x = x.toNat := by
  rw [toSize, Int.emod_eq_of_lt h0 h1]

theorem fitsInt_of_nonneg {x : Int} (h0 : 0 ≤ x) (h1 : x < 2 ^ 31) : FitsInt x :=
  ⟨Int.le_trans (by decide) h0, h1⟩

end OriginCCL.Base
