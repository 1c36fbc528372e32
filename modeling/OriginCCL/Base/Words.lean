/-
  File:      OriginCCL/Base/Words.lean
  Subject:   LITTLE-ENDIAN WORDS in byte memories.

  * `leNat f n` -- the number stored in the `n` bytes `f 0 … f (n - 1)`, least significant first.
  * `leByte x i` -- the `i`th byte of the number `x`.
  * `leNat_leByte`, `leByte_leNat` -- reading what was written, and writing what was read.
-/
import Mathlib.Data.Nat.ModEq
import Mathlib.Tactic.Common

namespace OriginCCL.Base

/-- The number in the bytes `f 0 … f (n - 1)`. -/
def leNat (f : Nat → UInt8) : Nat → Nat
  | 0 => 0
  | n + 1 => (f 0).toNat + 256 * leNat (fun i => f (i + 1)) n

/-- The `i`th byte of a number. -/
def leByte (x i : Nat) : UInt8 := UInt8.ofNat (x / 256 ^ i)

theorem leByte_zero (x : Nat) : (leByte x 0).toNat = x % 256 := by
  simp [leByte]

theorem leByte_succ (x i : Nat) : leByte x (i + 1) = leByte (x / 256) i := by
  unfold leByte
  rw [Nat.pow_succ', Nat.div_div_eq_div_mul]

/-- **Reading what was written** gives the number, cut to `n` bytes. -/
theorem leNat_leByte (x n : Nat) : leNat (leByte x) n = x % 256 ^ n := by
  induction n generalizing x with
  | zero => rw [leNat, Nat.pow_zero, Nat.mod_one]
  | succ n ih =>
    have hf : (fun i => leByte x (i + 1)) = leByte (x / 256) := funext (leByte_succ x)
    rw [leNat, hf, ih, leByte_zero, Nat.pow_succ', Nat.mod_mul]

/-- **Writing what was read** gives the bytes back. -/
theorem leByte_leNat {f : Nat → UInt8} {n i : Nat} (h : i < n) : leByte (leNat f n) i = f i := by
  induction n generalizing f i with
  | zero => exact absurd h (Nat.not_lt_zero i)
  | succ n ih =>
    have hb : (f 0).toNat < 256 := UInt8.toNat_lt _
    cases i with
    | zero =>
      apply UInt8.toNat_inj.mp
      rw [leByte_zero, leNat]
      omega
    | succ i =>
      have hd : leNat f (n + 1) / 256 = leNat (fun i => f (i + 1)) n := by
        rw [leNat]
        omega
      rw [leByte_succ, hd, ih (by omega)]

theorem leNat_lt (f : Nat → UInt8) (n : Nat) : leNat f n < 256 ^ n := by
  induction n generalizing f with
  | zero => exact Nat.one_pos
  | succ n ih =>
    have hb : (f 0).toNat < 256 := UInt8.toNat_lt _
    have := ih fun i => f (i + 1)
    rw [leNat, Nat.pow_succ']
    omega

theorem leNat_congr {f f' : Nat → UInt8} {n : Nat} (h : ∀ i < n, f i = f' i) :
    leNat f n = leNat f' n := by
  induction n generalizing f f' with
  | zero => rfl
  | succ n ih =>
    rw [leNat, leNat, h 0 (Nat.succ_pos n), ih fun i hi => h (i + 1) (by omega)]

end OriginCCL.Base
