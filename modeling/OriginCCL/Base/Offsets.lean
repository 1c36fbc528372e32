/-
  File:      OriginCCL/Base/Offsets.lean
  Subject:   CONSECUTIVE PIECES of a stream.

  * `off len t` -- where the piece number `t` starts, when the pieces have the lengths `len`.
  * `slot len T j` -- the piece that holds place `j` (`slot_eq`, `exists_slot`).
  * `off_bijOn` -- **every place is one place of one piece**; `block_bijOn` -- the same for blocks of
    such streams.
  * `off_spread` -- where the pieces start when a number of units is spread evenly.
-/
import Mathlib.Algebra.BigOperators.Group.Finset.Basic
import Mathlib.Data.Finset.Card
import Mathlib.Data.Set.Function

namespace OriginCCL.Base

/-- The place where the `t`th piece starts. -/
def off (len : Nat → Nat) (t : Nat) : Nat := ∑ i ∈ Finset.range t, len i

@[simp] theorem off_zero (len : Nat → Nat) : off len 0 = 0 := rfl

theorem off_succ (len : Nat → Nat) (t : Nat) : off len (t + 1) = off len t + len t :=
  Finset.sum_range_succ ..

theorem off_mono (len : Nat → Nat) {t u : Nat} (h : t ≤ u) : off len t ≤ off len u := by
  induction h with
  | refl => exact Nat.le_refl _
  | step _ ih => rw [off_succ]; omega

theorem off_succ_le (len : Nat → Nat) {t u : Nat} (h : t < u) : off len t + len t ≤ off len u := by
  rw [← off_succ]
  exact off_mono len h

theorem off_congr {len len' : Nat → Nat} {t : Nat} (h : ∀ i < t, len i = len' i) :
    off len t = off len' t :=
  Finset.sum_congr rfl fun i hi => h i (Finset.mem_range.mp hi)

/-- A place lies in one piece only. -/
theorem off_add_inj (len : Nat → Nat) {t u i j : Nat} (hi : i < len t) (hj : j < len u)
    (h : off len t + i = off len u + j) : t = u ∧ i = j := by
  rcases Nat.lt_trichotomy t u with hlt | rfl | hgt
  · have := off_succ_le len hlt
    omega
  · exact ⟨rfl, by omega⟩
  · have := off_succ_le len hgt
    omega

/-- Every place before the end of the pieces lies in one of them, at or after any piece that starts
    no later. -/
theorem exists_slot (len : Nat → Nat) {k n p : Nat} (hk : off len k ≤ p) (hn : p < off len n) :
    ∃ t, k ≤ t ∧ t < n ∧ off len t ≤ p ∧ p < off len t + len t := by
  induction n with
  | zero => exact absurd hn (Nat.not_lt_zero p)
  | succ n ih =>
    by_cases hp : off len n ≤ p
    · refine ⟨n, ?_, Nat.lt_succ_self n, hp, by rw [← off_succ]; exact hn⟩
      by_contra hlt
      have := off_mono len (show n + 1 ≤ k by omega)
      omega
    · obtain ⟨t, h1, h2, h3, h4⟩ := ih (by omega)
      exact ⟨t, h1, by omega, h3, h4⟩

/-- The piece that holds place `j`, among the first `T`. -/
def slot (len : Nat → Nat) (T j : Nat) : Nat :=
  ((Finset.range T).filter fun t => off len (t + 1) ≤ j).card

theorem slot_eq {len : Nat → Nat} {T t j : Nat} (ht : t < T) (h1 : off len t ≤ j)
    (h2 : j < off len t + len t) : slot len T j = t := by
  have e : (Finset.range T).filter (fun u => off len (u + 1) ≤ j) = Finset.range t := by
    ext u
    rw [Finset.mem_filter, Finset.mem_range, Finset.mem_range]
    constructor
    · rintro ⟨-, hu⟩
      by_contra hle
      have := off_mono len (show t + 1 ≤ u + 1 by omega)
      rw [off_succ] at this
      omega
    · intro hu
      have := off_mono len (show u + 1 ≤ t by omega)
      exact ⟨by omega, by omega⟩
  rw [slot, e, Finset.card_range]

theorem slot_mono (len : Nat → Nat) (T : Nat) {i j : Nat} (h : i ≤ j) :
    slot len T i ≤ slot len T j :=
  Finset.card_le_card (Finset.monotone_filter_right _ fun _ _ ht => Nat.le_trans ht h)

theorem slot_congr {len len' : Nat → Nat} {T : Nat} (h : ∀ t < T, len t = len' t) (j : Nat) :
    slot len T j = slot len' T j := by
  unfold slot
  congr 1
  refine Finset.filter_congr fun t ht => ?_
  rw [Finset.mem_range] at ht
  rw [off_congr fun i hi => h i (by omega)]

/-- **Every place is one place of one piece.** -/
theorem off_bijOn (len : Nat → Nat) (n : Nat) :
    Set.BijOn (fun x : Nat × Nat => off len x.1 + x.2) {x | x.1 < n ∧ x.2 < len x.1}
      (Set.Iio (off len n)) := by
  refine ⟨?_, ?_, ?_⟩
  · rintro ⟨t, j⟩ ⟨ht, hj⟩
    have hle := off_succ_le len (show t < n from ht)
    have hj : j < len t := hj
    show off len t + j < off len n
    omega
  · rintro ⟨t, j⟩ ⟨-, hj⟩ ⟨u, i⟩ ⟨-, hi⟩ h
    obtain ⟨rfl, rfl⟩ := off_add_inj len hj hi h
    rfl
  · intro p hp
    obtain ⟨t, -, ht, h1, h2⟩ := exists_slot len (k := 0) (n := n) (Nat.zero_le p) hp
    refine ⟨(t, p - off len t), ⟨ht, ?_⟩, ?_⟩
    · show p - off len t < len t
      omega
    · show off len t + (p - off len t) = p
      omega

/-- **A place of a stream of `k` blocks** is one place of one piece of one block. -/
theorem block_bijOn (len : Nat → Nat) (n k : Nat) :
    Set.BijOn (fun x : Nat × Nat × Nat => x.2.1 * off len n + off len x.1 + x.2.2)
      {x | x.1 < n ∧ x.2.1 < k ∧ x.2.2 < len x.1} (Set.Iio (k * off len n)) := by
  obtain ⟨hmaps, hinj, hsurj⟩ := off_bijOn len n
  refine ⟨?_, ?_, ?_⟩
  · rintro ⟨t, b, j⟩ ⟨ht, hb, hj⟩
    have hin : off len t + j < off len n := hmaps (show (t, j) ∈ {x | _} from ⟨ht, hj⟩)
    have hle : (b + 1) * off len n ≤ k * off len n := Nat.mul_le_mul_right _ hb
    rw [Nat.add_mul, Nat.one_mul] at hle
    show b * off len n + off len t + j < k * off len n
    omega
  · rintro ⟨t, b, j⟩ ⟨ht, -, hj⟩ ⟨u, a, i⟩ ⟨hu, -, hi⟩ h
    have h1 : off len t + j < off len n := hmaps (show (t, j) ∈ {x | _} from ⟨ht, hj⟩)
    have h2 : off len u + i < off len n := hmaps (show (u, i) ∈ {x | _} from ⟨hu, hi⟩)
    have h : b * off len n + off len t + j = a * off len n + off len u + i := h
    have hmod : ∀ c x, x < off len n → (c * off len n + x) / off len n = c := by
      intro c x hx
      rw [Nat.mul_comm, Nat.mul_add_div (by omega), Nat.div_eq_of_lt hx, Nat.add_zero]
    have hb := hmod b _ h1
    have ha := hmod a _ h2
    rw [← Nat.add_assoc] at hb ha
    obtain rfl : b = a := by rw [← hb, ← ha, h]
    obtain ⟨rfl, rfl⟩ := off_add_inj len hj hi (show off len t + j = off len u + i by omega)
    rfl
  · intro p hp
    have hp : p < k * off len n := hp
    have hpos : 0 < off len n := Nat.pos_of_ne_zero fun h0 => by
      rw [h0, Nat.mul_zero] at hp
      exact absurd hp (Nat.not_lt_zero p)
    obtain ⟨⟨t, j⟩, ⟨ht, hj⟩, he⟩ := hsurj (show p % off len n ∈ Set.Iio _ from Nat.mod_lt p hpos)
    have he : off len t + j = p % off len n := he
    have hdiv := Nat.div_add_mod p (off len n)
    rw [Nat.mul_comm] at hdiv
    refine ⟨(t, p / off len n, j), ⟨ht, ?_, hj⟩, ?_⟩
    · show p / off len n < k
      rw [Nat.div_lt_iff_lt_mul hpos]
      exact hp
    · show p / off len n * off len n + off len t + j = p
      omega

/-- **An even spread of `total` units over `k` pieces**: the first ones get the units left over. -/
theorem off_spread (total k c : Nat) :
    off (fun i => total / k + if i < total % k then 1 else 0) c =
      c * (total / k) + min c (total % k) := by
  induction c with
  | zero => rw [off_zero, Nat.zero_mul, Nat.zero_min]
  | succ c ih =>
    rw [off_succ, ih, Nat.add_mul, Nat.one_mul]
    split <;> omega

theorem off_spread_all {total k : Nat} (h : 0 < k) :
    off (fun i => total / k + if i < total % k then 1 else 0) k = total := by
  have hlt := Nat.mod_lt total h
  have hdiv := Nat.div_add_mod total k
  rw [off_spread, Nat.min_eq_right (Nat.le_of_lt hlt)]
  exact hdiv

/-- The byte at a place is the one the pieces prescribe there. -/
def streamOk {β : Type} (len : Nat → Nat) (T : Nat) (val : Nat → Nat → β) (pos : Nat) (b : β) :
    Prop :=
  ∀ t < T, ∀ j < len t, pos = off len t + j → b = val t j

theorem streamOk_iff {β : Type} {len : Nat → Nat} {T t j : Nat} {val : Nat → Nat → β} {b : β}
    (ht : t < T) (hj : j < len t) : streamOk len T val (off len t + j) b ↔ b = val t j := by
  constructor
  · intro h
    exact h t ht j hj rfl
  · rintro rfl u hu i hi e
    have h1 : slot len T (off len t + j) = t := slot_eq ht (by omega) (by omega)
    have h2 : slot len T (off len u + i) = u := slot_eq hu (by omega) (by omega)
    rw [e, h2] at h1
    subst h1
    obtain rfl : j = i := by omega
    rfl

end OriginCCL.Base
