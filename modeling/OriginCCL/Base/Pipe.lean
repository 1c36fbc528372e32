/-
  File:      OriginCCL/Base/Pipe.lean
  Subject:   A PIPE: a FIFO queue of a bounded size with two ends, and machines that implement one.

  * `Pipe.move`, `Pipe.run` -- bytes are put in at one end and taken out at the other.
  * `Pipe.run_fifo` -- **what is in the pipe is what was put in and not taken out yet**.
  * `Streams` -- what a machine has to keep; `Streams.refines` -- **every run of it is a run of a pipe**,
    the `i`-th move for the `i`-th step.
-/
import OriginCCL.Base.Runs

namespace OriginCCL.Base

/-- Items put in at one end of a pipe, or taken out at the other. -/
inductive PipeMove (α : Type) where
  | put (xs : List α)
  | take (xs : List α)

section Pipes

variable {α : Type} [DecidableEq α]

/-- The items put in by a move. -/
def PipeMove.ins : PipeMove α → List α
  | .put xs => xs
  | .take _ => []

/-- The items taken out by a move. -/
def PipeMove.outs : PipeMove α → List α
  | .put _ => []
  | .take xs => xs

namespace Pipe

/-- A pipe of `cap` items: no more are put in than it has room for, and the oldest are taken out. -/
def move (cap : Nat) (q : List α) : PipeMove α → Option (List α)
  | .put xs => if q.length + xs.length ≤ cap then some (q ++ xs) else none
  | .take xs => if xs <+: q then some (q.drop xs.length) else none

def run (cap : Nat) (q : List α) (moves : List (PipeMove α)) : Option (List α) :=
  moves.foldlM (move cap) q

/-- One more move. -/
theorem run_snoc {cap : Nat} {q q' : List α} {moves : List (PipeMove α)}
    (h : run cap q moves = some q') (x : PipeMove α) :
    run cap q (moves ++ [x]) = move cap q' x := by
  rw [run, List.foldlM_append]
  have h : moves.foldlM (move cap) q = some q' := h
  rw [h]
  show (do let q ← move cap q' x; [].foldlM (move cap) q) = _
  cases move cap q' x <;> rfl

/-- **First in, first out**: the items in a pipe are those put in and not taken out yet, and there are
    no more than `cap`. -/
theorem run_fifo {cap : Nat} {q q' : List α} {moves : List (PipeMove α)} (hq : q.length ≤ cap)
    (h : run cap q moves = some q') :
    q ++ moves.flatMap PipeMove.ins = moves.flatMap PipeMove.outs ++ q' ∧ q'.length ≤ cap := by
  induction moves using List.reverseRecOn generalizing q' with
  | nil =>
    obtain rfl := Option.some.inj h
    exact ⟨List.append_nil _, hq⟩
  | append_singleton moves x ih =>
    cases hrun : run cap q moves with
    | none =>
      rw [run, List.foldlM_append] at h
      have hrun : moves.foldlM (move cap) q = none := hrun
      rw [hrun] at h
      cases h
    | some p =>
      rw [run_snoc hrun] at h
      obtain ⟨hfifo, hlen⟩ := ih hrun
      rw [List.flatMap_append, List.flatMap_append, List.flatMap_singleton, List.flatMap_singleton,
        ← List.append_assoc, hfifo, List.append_assoc, List.append_assoc]
      unfold move at h
      split at h
      case h_1 xs =>
        split at h
        · rename_i hroom
          obtain rfl := Option.some.inj h
          rw [List.length_append]
          exact ⟨rfl, hroom⟩
        · cases h
      case h_2 xs =>
        split at h
        · rename_i hprefix
          obtain rfl := Option.some.inj h
          obtain ⟨rest, rfl⟩ := hprefix
          rw [List.drop_left]
          rw [List.length_append] at hlen
          exact ⟨by rw [PipeMove.ins, PipeMove.outs, List.append_nil], by omega⟩
        · cases h

end Pipe

/-! ## Machines that implement a pipe -/

variable {S L : Type}

/-- **What a machine has to keep** to be a pipe: what has come out is the beginning of what has gone in,
    no more than `cap` items are inside, and a step lets items in or out, not both. -/
structure Streams (step : L → S → Option S) (s₀ : S) (sent received : S → List α) (cap : Nat) :
    Prop where
  sent_start : sent s₀ = []
  received_start : received s₀ = []
  inside : ∀ ls s, Reach step s₀ ls s →
    received s <+: sent s ∧ (sent s).length ≤ (received s).length + cap
  steps : ∀ ls s l s', Reach step s₀ ls s → step l s = some s' →
    (∃ xs, sent s' = sent s ++ xs ∧ received s' = received s) ∨
      ∃ xs, sent s' = sent s ∧ received s' = received s ++ xs

/-- The items inside. -/
def queued (sent received : S → List α) (s : S) : List α := (sent s).drop (received s).length

variable {step : L → S → Option S} {s₀ s : S} {sent received : S → List α} {cap : Nat} {ls : List L}

omit [DecidableEq α] in
/-- What has gone in is what has come out and what is inside. -/
theorem Streams.split (h : Streams step s₀ sent received cap) (hr : Reach step s₀ ls s) :
    received s ++ queued sent received s = sent s := by
  obtain ⟨rest, he⟩ := (h.inside ls s hr).1
  rw [queued, ← he, List.drop_left]

/-- **A machine that keeps this is a pipe**: every run of it is a run of a pipe that starts empty, one
    move for every step. After every part of the run the same items have gone in and come out by the moves
    of its steps. -/
theorem Streams.refines (h : Streams step s₀ sent received cap) (hr : Reach step s₀ ls s) :
    ∃ moves : List (PipeMove α), moves.length = ls.length ∧
      ∀ ls₁ s₁, ls₁ <+: ls → Reach step s₀ ls₁ s₁ →
        Pipe.run cap [] (moves.take ls₁.length) = some (queued sent received s₁) ∧
        (moves.take ls₁.length).flatMap PipeMove.ins = sent s₁ ∧
        (moves.take ls₁.length).flatMap PipeMove.outs = received s₁ := by
  induction hr with
  | start =>
    refine ⟨[], rfl, fun ls₁ s₁ hpre hr₁ => ?_⟩
    obtain rfl := List.prefix_nil.mp hpre
    obtain rfl := Reach.unique .start hr₁
    refine ⟨?_, h.sent_start.symm, h.received_start.symm⟩
    rw [queued, h.sent_start, List.drop_nil]
    rfl
  | next ls s l s' hr hs ih =>
    obtain ⟨moves, hlen, hparts⟩ := ih
    obtain ⟨hrun, hins, houts⟩ := hparts ls s List.prefix_rfl hr
    rw [List.take_of_length_le (Nat.le_of_eq hlen)] at hrun hins houts
    have hsplit := h.split hr
    have hr' := Reach.next ls s l s' hr hs
    have hsplit' := h.split hr'
    have hroom := (h.inside _ s' hr').2
    -- the next move only has to be right after the whole run
    have hgo : ∀ x : PipeMove α, Pipe.move cap (queued sent received s) x = some (queued sent received s') →
        sent s ++ x.ins = sent s' → received s ++ x.outs = received s' →
        ∃ moves : List (PipeMove α), moves.length = (ls ++ [l]).length ∧
          ∀ ls₁ s₁, ls₁ <+: ls ++ [l] → Reach step s₀ ls₁ s₁ →
            Pipe.run cap [] (moves.take ls₁.length) = some (queued sent received s₁) ∧
            (moves.take ls₁.length).flatMap PipeMove.ins = sent s₁ ∧
            (moves.take ls₁.length).flatMap PipeMove.outs = received s₁ := by
      intro x hmove hin hout
      refine ⟨moves ++ [x], ?_, fun ls₁ s₁ hpre hr₁ => ?_⟩
      · rw [List.length_append, List.length_append, hlen]
        rfl
      · rcases List.prefix_concat_iff.mp hpre with rfl | hpre
        · obtain rfl := hr'.unique hr₁
          rw [List.take_of_length_le (by rw [List.length_append, List.length_append, hlen]; exact Nat.le_refl _),
            Pipe.run_snoc hrun, List.flatMap_append, List.flatMap_append, List.flatMap_singleton,
            List.flatMap_singleton, hins, houts]
          exact ⟨hmove, hin, hout⟩
        · rw [List.take_append_of_le_length (by rw [hlen]; exact hpre.length_le)]
          exact hparts ls₁ s₁ hpre hr₁
    rcases h.steps ls s l s' hr hs with ⟨xs, hsent, hreceived⟩ | ⟨xs, hsent, hreceived⟩
    · -- items go in behind those inside
      have hnext : queued sent received s' = queued sent received s ++ xs := by
        rw [hsent, hreceived, ← hsplit, List.append_assoc] at hsplit'
        exact List.append_cancel_left hsplit'
      refine hgo (.put xs) ?_ hsent.symm ((List.append_nil _).trans hreceived.symm)
      rw [Pipe.move, if_pos, hnext]
      rw [← List.length_append, ← hnext]
      rw [← hsplit', List.length_append] at hroom
      omega
    · -- the oldest of them come out
      have hfront : queued sent received s = xs ++ queued sent received s' := by
        rw [hsent, hreceived, ← hsplit, List.append_assoc] at hsplit'
        exact (List.append_cancel_left hsplit').symm
      refine hgo (.take xs) ?_ ((List.append_nil _).trans hsent.symm) hreceived.symm
      rw [Pipe.move, hfront, if_pos (List.prefix_append ..), List.drop_left]

end Pipes

end OriginCCL.Base
