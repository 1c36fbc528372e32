/-
  File:      OriginCCL/Base/Transfers.lean
  Subject:   TRANSFERS in parts: a loop that asks for the rest until all is moved.

  * `Answer` -- what one call answers: a positive count, or a reason to stop.
  * `transfer` -- the loop over the answers of the calls. It makes at most one call for every unit
    that is left, and one more.
  * `Consecutive` -- the moved spans lie one behind the other.
  * `transfer_consecutive`, `transfer_stop`, `transfer_none` -- where the loop ends, and why.
-/
import Mathlib.Data.List.Basic
import Mathlib.Tactic.Common
import Mathlib.Algebra.Order.Ring.Nat

namespace OriginCCL.Base

variable {α σ : Type}

/-! ## 1. The loop -/

/-- The answer to a request of at least one unit: a positive count, no more than what is asked for,
    or a reason to stop. -/
inductive Answer (σ : Type) where
  | moved (more : Nat)
  | stopped (reason : σ)
  deriving DecidableEq, Repr

/-- The count an answer stands for. -/
def Answer.count (requested : Nat) : Answer σ → Nat
  | .moved more => min (more + 1) requested
  | .stopped _ => 0

/-- The answer to call number `i`, for what is left from `offset` on. -/
abbrev Answers (σ : Type) := (i offset requested : Nat) → Answer σ

/-- What a loop did: the spans it moved, where it got, and the reason it stopped at. -/
structure Transfer (σ : Type) where
  spans : List (Nat × Nat) := []
  progress : Nat
  stop : Option σ := none
  deriving DecidableEq, Repr

/-- The number of calls. -/
def Transfer.calls (t : Transfer σ) : Nat := t.spans.length + t.stop.toList.length

/-- Asks for the rest until all is moved or a call stops; `i` calls were made before. -/
def transfer (answers : Answers σ) (size : Nat) (i progress : Nat) : Transfer σ :=
  if progress < size then
    match answers i progress (size - progress) with
    | .moved more =>
      let n := min (more + 1) (size - progress)
      let t := transfer answers size (i + 1) (progress + n)
      { t with spans := (progress, n) :: t.spans }
    | .stopped reason => { progress, stop := some reason }
  else { progress }
termination_by size - progress

theorem transfer_done {answers : Answers σ} {size i progress : Nat} (h : size ≤ progress) :
    transfer answers size i progress = { progress } := by
  rw [transfer, if_neg (by omega)]

theorem transfer_moved {answers : Answers σ} {size i progress more : Nat} (h : progress < size)
    (ha : answers i progress (size - progress) = .moved more) :
    transfer answers size i progress =
      let n := min (more + 1) (size - progress)
      let t := transfer answers size (i + 1) (progress + n)
      { t with spans := (progress, n) :: t.spans } := by
  rw [transfer, if_pos h, ha]

theorem transfer_stopped {answers : Answers σ} {size i progress : Nat} {reason : σ}
    (h : progress < size) (ha : answers i progress (size - progress) = .stopped reason) :
    transfer answers size i progress = { progress, stop := some reason } := by
  rw [transfer, if_pos h, ha]

/-- Induction along the loop. -/
theorem transfer_induction (answers : Answers σ) {size : Nat} {P : Nat → Nat → Transfer σ → Prop}
    (done : ∀ i p, size ≤ p → P i p { progress := p })
    (stopped : ∀ i p reason, p < size → answers i p (size - p) = .stopped reason →
      P i p { progress := p, stop := some reason })
    (moved : ∀ i p more t, p < size → answers i p (size - p) = .moved more →
      P (i + 1) (p + min (more + 1) (size - p)) t →
      P i p { t with spans := (p, min (more + 1) (size - p)) :: t.spans })
    (i p : Nat) : P i p (transfer answers size i p) := by
  induction hk : size - p using Nat.strong_induction_on generalizing i p with
  | _ k ih =>
    by_cases h : p < size
    · cases ha : answers i p (size - p) with
      | moved more =>
        rw [transfer_moved h ha]
        exact moved i p more _ h ha (ih _ (by omega) _ _ rfl)
      | stopped reason =>
        rw [transfer_stopped h ha]
        exact stopped i p reason h ha
    · rw [transfer_done (by omega)]
      exact done i p (by omega)

/-! ## 2. The spans -/

/-- The spans lie one behind the other, from the first place to the second, and none is empty. -/
def Consecutive : List (Nat × Nat) → Nat → Nat → Prop
  | [], a, b => a = b
  | (o, n) :: spans, a, b => o = a ∧ 0 < n ∧ Consecutive spans (a + n) b

theorem Consecutive.le {spans : List (Nat × Nat)} {a b : Nat} (h : Consecutive spans a b) :
    a + spans.length ≤ b := by
  induction spans generalizing a with
  | nil => exact Nat.le_of_eq h
  | cons s spans ih =>
    obtain ⟨-, hn, hrest⟩ := h
    have := ih hrest
    rw [List.length_cons]
    omega

/-- The counts of the spans add up to the distance. -/
theorem Consecutive.sum {spans : List (Nat × Nat)} {a b : Nat} (h : Consecutive spans a b) :
    b = a + (spans.map (·.2)).sum := by
  induction spans generalizing a with
  | nil => exact h.symm
  | cons s spans ih =>
    obtain ⟨-, -, hrest⟩ := h
    rw [ih hrest, List.map_cons, List.sum_cons, Nat.add_assoc]

/-- The pieces of a list at consecutive spans make up the part between the ends. -/
theorem Consecutive.flatMap {spans : List (Nat × Nat)} {a b : Nat} (h : Consecutive spans a b)
    (data : List α) :
    (spans.flatMap fun s => (data.drop s.1).take s.2) = (data.drop a).take (b - a) := by
  induction spans generalizing a with
  | nil =>
    obtain rfl : a = b := h
    simp
  | cons s spans ih =>
    obtain ⟨o, n⟩ := s
    obtain ⟨rfl, -, hrest⟩ := h
    have hle := hrest.le
    have hsplit : b - o = n + (b - (o + n)) := by omega
    rw [List.flatMap_cons, ih hrest, hsplit, List.take_add, List.drop_drop]

/-- The cells of a list with others stored from a place on. -/
def overwrite (buffer : List α) (offset : Nat) (piece : List α) : List α :=
  buffer.take offset ++ piece ++ buffer.drop (offset + piece.length)

theorem length_overwrite {buffer piece : List α} {offset : Nat}
    (h : offset + piece.length ≤ buffer.length) :
    (overwrite buffer offset piece).length = buffer.length := by
  simp only [overwrite, List.length_append, List.length_take, List.length_drop]
  omega

/-- A piece stored right behind another. -/
theorem overwrite_overwrite {buffer p q : List α} {offset : Nat}
    (h : offset + p.length ≤ buffer.length) :
    overwrite (overwrite buffer offset p) (offset + p.length) q =
      overwrite buffer offset (p ++ q) := by
  have hfront : (buffer.take offset ++ p).length = offset + p.length := by
    rw [List.length_append, List.length_take]
    omega
  have htake : (overwrite buffer offset p).take (offset + p.length) = buffer.take offset ++ p :=
    List.take_left' hfront
  have hdrop : (overwrite buffer offset p).drop (offset + p.length + q.length) =
      buffer.drop (offset + p.length + q.length) := by
    rw [overwrite, ← List.drop_drop, List.drop_left' hfront, List.drop_drop]
  rw [overwrite, htake, hdrop, overwrite, List.length_append, List.append_assoc (buffer.take offset),
    Nat.add_assoc]

/-- Stores pieces of a stream at the spans, in order; what is left of the stream stays. -/
def fill : List (Nat × Nat) → List α → List α → List α × List α
  | [], buffer, stream => (buffer, stream)
  | (o, n) :: spans, buffer, stream =>
    fill spans (overwrite buffer o (stream.take n)) (stream.drop n)

/-- **A buffer filled at consecutive spans** holds the front of the stream from there on. -/
theorem Consecutive.fill {spans : List (Nat × Nat)} {a b : Nat} (h : Consecutive spans a b)
    (buffer stream : List α) (hb : b ≤ buffer.length) (hs : b - a ≤ stream.length) :
    fill spans buffer stream =
      (overwrite buffer a (stream.take (b - a)), stream.drop (b - a)) := by
  induction spans generalizing a buffer stream with
  | nil =>
    obtain rfl : a = b := h
    simp [Base.fill, overwrite]
  | cons s spans ih =>
    obtain ⟨o, n⟩ := s
    obtain ⟨rfl, -, hrest⟩ := h
    have hle := hrest.le
    have hn : (stream.take n).length = n := by rw [List.length_take]; omega
    have hroom : o + (stream.take n).length ≤ buffer.length := by omega
    have hlen := length_overwrite hroom
    rw [Base.fill, ih hrest _ _ (by rw [hlen]; exact hb) (by rw [List.length_drop]; omega)]
    have hsplit : b - o = n + (b - (o + n)) := by omega
    have hnext := overwrite_overwrite (q := (stream.drop n).take (b - (o + n))) hroom
    rw [hn] at hnext
    rw [hnext, ← List.take_add, List.drop_drop, ← hsplit]

/-! ## 3. Where the loop ends -/

section Ends

variable (answers : Answers σ) (size : Nat)

/-- **The spans are consecutive**, from the starting progress to the last. -/
theorem transfer_consecutive (i p : Nat) :
    Consecutive (transfer answers size i p).spans p (transfer answers size i p).progress := by
  refine transfer_induction answers (P := fun _ p t => Consecutive t.spans p t.progress) ?_ ?_ ?_ i p
  · intro i p _
    rfl
  · intro i p reason _ _
    rfl
  · intro i p more t hp _ ih
    exact ⟨rfl, by omega, ih⟩

theorem transfer_le (i p : Nat) (hp : p ≤ size) : (transfer answers size i p).progress ≤ size := by
  refine transfer_induction answers (P := fun _ p t => p ≤ size → t.progress ≤ size) ?_ ?_ ?_ i p hp
  · intro i p _ hp
    exact hp
  · intro i p reason _ _ hp
    exact hp
  · intro i p more t hlt _ ih _
    exact ih (by omega)

/-- A loop that no call stopped has moved everything. -/
theorem transfer_none (i p : Nat) :
    (transfer answers size i p).stop = none ↔ size ≤ (transfer answers size i p).progress := by
  refine transfer_induction answers (P := fun _ p t => t.stop = none ↔ size ≤ t.progress) ?_ ?_ ?_ i p
  · intro i p hp
    simpa using hp
  · intro i p reason hp _
    simpa using hp
  · intro i p more t _ _ ih
    exact ih

/-- A stopped loop was stopped by the answer to its last call. -/
theorem transfer_stop (i p : Nat) {reason : σ} (h : (transfer answers size i p).stop = some reason) :
    let t := transfer answers size i p
    t.progress < size ∧
      answers (i + t.spans.length) t.progress (size - t.progress) = .stopped reason := by
  refine transfer_induction answers (P := fun i p t => t.stop = some reason → t.progress < size ∧
    answers (i + t.spans.length) t.progress (size - t.progress) = .stopped reason) ?_ ?_ ?_ i p h
  · intro i p _ h
    cases h
  · intro i p reason' hp ha h
    cases h
    exact ⟨hp, ha⟩
  · intro i p more t _ _ ih h
    obtain ⟨h1, h2⟩ := ih h
    refine ⟨h1, ?_⟩
    rw [List.length_cons, Nat.add_comm t.spans.length 1, ← Nat.add_assoc]
    exact h2

/-- Each span is what the answer to its call counts. -/
theorem transfer_span (i p : Nat) {j : Nat} {s : Nat × Nat}
    (h : (transfer answers size i p).spans[j]? = some s) :
    s.1 < size ∧ 0 < s.2 ∧ s.2 = (answers (i + j) s.1 (size - s.1)).count (size - s.1) := by
  refine transfer_induction answers (P := fun i p t => ∀ j, t.spans[j]? = some s → s.1 < size ∧ 0 < s.2 ∧
    s.2 = (answers (i + j) s.1 (size - s.1)).count (size - s.1)) ?_ ?_ ?_ i p j h
  · intro i p _ j h
    cases h
  · intro i p reason _ _ j h
    cases h
  · intro i p more t hp ha ih j h
    cases j with
    | zero =>
      obtain rfl : (p, min (more + 1) (size - p)) = s := by simpa using h
      refine ⟨hp, by omega, ?_⟩
      change min (more + 1) (size - p) = (answers i p (size - p)).count (size - p)
      rw [ha, Answer.count]
    | succ j =>
      have := ih j (by simpa using h)
      rwa [Nat.add_assoc, Nat.add_comm 1 j] at this

/-- **The loop ends**: with one call for every unit that is left, and one more at most. -/
theorem transfer_calls (i p : Nat) : (transfer answers size i p).calls ≤ size - p + 1 := by
  refine transfer_induction answers (P := fun _ p t => t.calls ≤ size - p + 1) ?_ ?_ ?_ i p
  · intro i p _
    simp [Transfer.calls]
  · intro i p reason _ _
    simp [Transfer.calls]
  · intro i p more t _ _ ih
    simp only [Transfer.calls, List.length_cons] at ih ⊢
    omega

/-- A loop whose calls never stop moves everything. -/
theorem transfer_always (h : ∀ i p n, ∃ more, answers i p n = .moved more) (i p : Nat)
    (hp : p ≤ size) :
    (transfer answers size i p).stop = none ∧ (transfer answers size i p).progress = size := by
  have hstop : (transfer answers size i p).stop = none := by
    cases hs : (transfer answers size i p).stop with
    | none => rfl
    | some reason =>
      obtain ⟨-, ha⟩ := transfer_stop answers size i p hs
      obtain ⟨more, hm⟩ := h (i + (transfer answers size i p).spans.length)
        (transfer answers size i p).progress (size - (transfer answers size i p).progress)
      rw [hm] at ha
      cases ha
  refine ⟨hstop, ?_⟩
  have h1 := (transfer_none answers size i p).mp hstop
  have h2 := transfer_le answers size i p hp
  omega

end Ends

/-! ## 4. Answers that depend on the call only -/

/-- Call number `i + n` is the one that stops: the calls before it, from call `i` on, move something
    each, and together less than is left. -/
def StopsAt (answers : Nat → Answer σ) (size i progress n : Nat) (reason : σ) : Prop :=
  answers (i + n) = .stopped reason ∧
  (∀ j ∈ List.range' i n, ∃ more, answers j = .moved more) ∧
  progress + ((List.range' i n).map fun j => (answers j).count size).sum < size

/-- **Why the loop stops**, from its answers. -/
theorem transfer_stop_iff (answers : Nat → Answer σ) (size i p : Nat) (reason : σ) :
    (transfer (fun i _ _ => answers i) size i p).stop = some reason ↔
      ∃ n, StopsAt answers size i p n reason := by
  constructor
  · refine transfer_induction (fun i _ _ => answers i) (P := fun i p t =>
      t.stop = some reason → ∃ n, StopsAt answers size i p n reason) ?_ ?_ ?_ i p
    · intro i p _ h
      cases h
    · intro i p reason' hp ha h
      cases h
      exact ⟨0, ha, by simp, by simpa using hp⟩
    · intro i p more t hp ha ih h
      obtain ⟨n, hstop, hmoved, hsum⟩ := ih h
      refine ⟨n + 1, ?_, ?_, ?_⟩
      · rwa [Nat.add_comm n 1, ← Nat.add_assoc]
      · rw [List.range'_succ]
        intro j hj
        rcases List.mem_cons.mp hj with rfl | hj
        · exact ⟨more, ha⟩
        · exact hmoved j hj
      · -- What the first call moves is less than was asked for, so all it could.
        rw [List.range'_succ, List.map_cons, List.sum_cons, show answers i = .moved more from ha,
          Answer.count]
        omega
  · rintro ⟨n, hstop, hmoved, hsum⟩
    induction n generalizing i p with
    | zero =>
      have hp : p < size := by simpa using hsum
      rw [transfer_stopped hp hstop]
    | succ n ih =>
      rw [List.range'_succ, List.map_cons, List.sum_cons] at hsum
      obtain ⟨more, ha⟩ := hmoved i (by rw [List.range'_succ]; exact List.mem_cons_self)
      rw [ha, Answer.count] at hsum
      have hp : p < size := by omega
      rw [transfer_moved hp ha]
      refine ih (i + 1) (p + min (more + 1) (size - p)) ?_ ?_ ?_
      · rwa [Nat.add_assoc, Nat.add_comm 1 n]
      · intro j hj
        refine hmoved j ?_
        rw [List.range'_succ]
        exact List.mem_cons_of_mem i hj
      · omega

end OriginCCL.Base
