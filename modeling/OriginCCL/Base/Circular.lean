/-
  File:      OriginCCL/Base/Circular.lean
  Subject:   CIRCULAR BUFFERS: a stream in `cap` cells that are used again and again.

  Place `i` of the stream lives in cell `i % cap`.

  * `Carries cap cells lo hi stream` -- the cells hold the places `lo … hi - 1` of the stream.
  * `Carries.write` -- **a write less than `cap` places after the first one held loses nothing**.
-/
import Mathlib.Logic.Function.Basic
import Mathlib.Tactic.Common

namespace OriginCCL.Base

section Circular

variable {α : Type} {cap lo hi : Nat} {cells stream : Nat → α}

/-- The cells hold the places `lo … hi - 1` of the stream. -/
def Carries (cap : Nat) (cells : Nat → α) (lo hi : Nat) (stream : Nat → α) : Prop :=
  ∀ i, lo ≤ i → i < hi → cells (i % cap) = stream i

/-- Places less than `cap` apart live in different cells. -/
theorem mod_ne_of_lt {i p : Nat} (h1 : i < p) (h2 : p < i + cap) : i % cap ≠ p % cap := by
  intro h
  have hd : cap ∣ p - i := Nat.dvd_of_mod_eq_zero (Nat.sub_mod_eq_zero_of_mod_eq h.symm)
  have := Nat.le_of_dvd (by omega) hd
  omega

/-- The cells of a run of places that does not wrap. -/
theorem mod_add_of_le {p k n : Nat} (hk : k < n) (hn : p % cap + n ≤ cap) :
    (p + k) % cap = p % cap + k := by
  rw [Nat.add_mod, Nat.mod_eq_of_lt (show k < cap by omega), Nat.mod_eq_of_lt (by omega)]

/-- **A write less than `cap` places after the first one held loses nothing.** -/
theorem Carries.write (h : Carries cap cells lo hi stream) {p : Nat} (hp : hi ≤ p)
    (hcap : p < lo + cap) (x : α) : Carries cap (Function.update cells (p % cap) x) lo hi stream := by
  intro i h1 h2
  have hne : i % cap ≠ p % cap := mod_ne_of_lt (by omega) (by omega)
  rw [Function.update_of_ne hne]
  exact h i h1 h2

/-- The first places can be given up. -/
theorem Carries.drop (h : Carries cap cells lo hi stream) {lo' : Nat} (hle : lo ≤ lo') :
    Carries cap cells lo' hi stream := fun i h1 h2 => h i (by omega) h2

/-- The places that have been written are held. -/
theorem Carries.extend (h : Carries cap cells lo hi stream) {hi' : Nat} {stream' : Nat → α}
    (hold : ∀ i < hi, stream' i = stream i)
    (hnew : ∀ i, hi ≤ i → i < hi' → cells (i % cap) = stream' i) :
    Carries cap cells lo hi' stream' := by
  intro i h1 h2
  by_cases hi' : i < hi
  · rw [h i h1 hi', hold i hi']
  · exact hnew i (by omega) h2

end Circular

end OriginCCL.Base
