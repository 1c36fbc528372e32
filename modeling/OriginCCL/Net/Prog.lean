/-
  File:      OriginCCL/Net/Prog.lean
  Subject:   PROGRAMS OVER BYTE STREAMS and their weakest preconditions.

  A call of a non-blocking state machine runs straight through, except that it asks its links to
  move some bytes and goes on with whatever they moved. `Prog` is that call as a tree: a `send`
  offers bytes to a link and continues with the number of bytes taken, a `recv` asks a link for at
  most `size` bytes and continues with the bytes delivered; `none` is a link that failed.

  * `Prog.wp` -- what a call guarantees when its links answer in every allowed way. The allowed
    answers, the byte budget of every link end and what each byte of a stream may be are the
    `Terms` of the call; the ghost `Acct` counts the bytes moved at every link end and remembers
    which ends were tried.
  * `Prog.wp_bind`, `Prog.wp_mono`, `Prog.wp_kept` -- sequencing, weakening, and that what was
    tried stays tried.
  * `Prog.offers`, `Prog.wp_zero` -- the run of a call in which no link moves a byte: it ends, and
    every end it reports as tried was really offered a transfer.
-/
import Mathlib.Data.List.Basic
import Mathlib.Logic.Function.Basic
import Mathlib.Tactic.Common

namespace OriginCCL.Net

/-- Why a call ended without a result: it reported an error, or a loop ran past its bound. -/
inductive Fault where
  | error
  | fuel
  deriving DecidableEq, Repr

/-- The two ends of a link, seen from the node that holds the end. -/
inductive Side where
  | out
  | inn
  deriving DecidableEq, Repr

/-- A call over links `τ` carrying bytes `β`, with result `α`. -/
inductive Prog (τ β α : Type) : Type where
  | ret (a : α)
  | fail (f : Fault)
  | send (l : τ) (data : List β) (k : Option Nat → Prog τ β α)
  | recv (l : τ) (size : Nat) (k : Option (List β) → Prog τ β α)

namespace Prog

variable {τ β α γ : Type}

/-- Sequencing: a fault skips the rest of the call. -/
def bind : Prog τ β α → (α → Prog τ β γ) → Prog τ β γ
  | .ret a, f => f a
  | .fail e, _ => .fail e
  | .send l data k, f => .send l data fun r => (k r).bind f
  | .recv l size k, f => .recv l size fun r => (k r).bind f

instance : Monad (Prog τ β) where
  pure := .ret
  bind := bind

@[simp] theorem pure_eq (a : α) : (pure a : Prog τ β α) = .ret a := rfl

@[simp] theorem ret_bind (a : α) (f : α → Prog τ β γ) : (Prog.ret a >>= f) = f a := rfl

@[simp] theorem fail_bind (e : Fault) (f : α → Prog τ β γ) :
    ((Prog.fail e : Prog τ β α) >>= f) = .fail e := rfl

theorem send_bind (l : τ) (data : List β) (k : Option Nat → Prog τ β α) (f : α → Prog τ β γ) :
    (Prog.send l data k >>= f) = .send l data fun r => k r >>= f := rfl

theorem recv_bind (l : τ) (size : Nat) (k : Option (List β) → Prog τ β α) (f : α → Prog τ β γ) :
    (Prog.recv l size k >>= f) = .recv l size fun r => k r >>= f := rfl

end Prog

/-! ## 1. The ghost account and the terms of a call -/

/-- The bytes moved at each link end so far, and the ends tried with work to do. -/
structure Acct (τ : Type) where
  count : Side → τ → Nat
  tried : Side → τ → Prop

namespace Acct

variable {τ : Type}

/-- Nothing moved, nothing tried. -/
def zero : Acct τ := ⟨fun _ _ => 0, fun _ _ => False⟩

/-- The account at the start of a call: the counts stay, nothing is tried yet. -/
def restart (g : Acct τ) : Acct τ := { g with tried := fun _ _ => False }

@[simp] theorem zero_count (sd : Side) (l : τ) : (zero : Acct τ).count sd l = 0 := rfl

@[simp] theorem restart_count (g : Acct τ) : g.restart.count = g.count := rfl

theorem restart_tried (g : Acct τ) (sd : Side) (l : τ) : ¬ g.restart.tried sd l := id

variable [DecidableEq τ]

/-- The account after `n` of `want` bytes moved at one link end. -/
def move (g : Acct τ) (sd : Side) (l : τ) (want n : Nat) : Acct τ where
  count sd' l' := if sd' = sd ∧ l' = l then g.count sd l + n else g.count sd' l'
  tried sd' l' := g.tried sd' l' ∨ (sd' = sd ∧ l' = l ∧ 0 < want)

@[simp] theorem move_count_self (g : Acct τ) (sd : Side) (l : τ) (want n : Nat) :
    (g.move sd l want n).count sd l = g.count sd l + n := by
  simp [move]

theorem move_count_ne (g : Acct τ) {sd sd' : Side} {l l' : τ} (want n : Nat)
    (h : ¬ (sd' = sd ∧ l' = l)) : (g.move sd l want n).count sd' l' = g.count sd' l' := by
  simp [move, h]

theorem move_tried_mono {g : Acct τ} {sd' : Side} {l' : τ} (sd : Side) (l : τ) (want n : Nat)
    (h : g.tried sd' l') : (g.move sd l want n).tried sd' l' := Or.inl h

theorem move_tried_self (g : Acct τ) (sd : Side) (l : τ) {want : Nat} (n : Nat) (h : 0 < want) :
    (g.move sd l want n).tried sd l := Or.inr ⟨rfl, rfl, h⟩

end Acct

/-- The terms a call is bound to: the link ends it may use, how many bytes it may move at each,
    and what the byte at each place of a stream may be. -/
structure Terms (τ β : Type) where
  owns : Side → τ → Prop
  upto : Side → τ → Nat
  byteOk : Side → τ → Nat → β → Prop

/-- The terms of a call that moves no byte. -/
def Terms.none {τ β : Type} : Terms τ β := ⟨fun _ _ => False, fun _ _ => 0, fun _ _ _ _ => True⟩

/-- `bs` may stand at the places from `pos` on. -/
def Terms.run {τ β : Type} (C : Terms τ β) (sd : Side) (l : τ) (pos : Nat) (bs : List β) : Prop :=
  ∀ j (h : j < bs.length), C.byteOk sd l (pos + j) bs[j]

/-- The weakest precondition of a call: it keeps its terms, it never ends in a fault, and its
    result and account meet `Q` -- whatever its links answer. -/
def Prog.wp {τ β α : Type} [DecidableEq τ] (C : Terms τ β) :
    Prog τ β α → (α → Acct τ → Prop) → Acct τ → Prop
  | .ret a, Q, g => Q a g
  | .fail _, _, _ => False
  | .send l data k, Q, g =>
      C.owns .out l ∧ g.count .out l + data.length ≤ C.upto .out l ∧
      C.run .out l (g.count .out l) data ∧
      ∀ n ≤ data.length, (k (some n)).wp C Q (g.move .out l data.length n)
  | .recv l size k, Q, g =>
      C.owns .inn l ∧ g.count .inn l + size ≤ C.upto .inn l ∧
      ∀ bs : List β, bs.length ≤ size → C.run .inn l (g.count .inn l) bs →
        (k (some bs)).wp C Q (g.move .inn l size bs.length)

namespace Prog

variable {τ β α γ : Type} [DecidableEq τ] {C : Terms τ β}

@[simp] theorem wp_ret (a : α) (Q : α → Acct τ → Prop) (g : Acct τ) :
    (Prog.ret a : Prog τ β α).wp C Q g = Q a g := rfl

@[simp] theorem wp_pure (a : α) (Q : α → Acct τ → Prop) (g : Acct τ) :
    (pure a : Prog τ β α).wp C Q g = Q a g := rfl

/-- **Sequencing**: the first part must establish what the rest needs. -/
theorem wp_bind (p : Prog τ β α) (f : α → Prog τ β γ) (Q : γ → Acct τ → Prop) (g : Acct τ) :
    (p >>= f).wp C Q g ↔ p.wp C (fun a g' => (f a).wp C Q g') g := by
  induction p generalizing g with
  | ret a => rfl
  | fail e => rfl
  | send l data k ih =>
    simp only [send_bind, wp]
    exact and_congr_right fun _ => and_congr_right fun _ => and_congr_right fun _ =>
      forall_congr' fun n => imp_congr_right fun _ => ih (some n) _
  | recv l size k ih =>
    simp only [recv_bind, wp]
    exact and_congr_right fun _ => and_congr_right fun _ =>
      forall_congr' fun bs => imp_congr_right fun _ => imp_congr_right fun _ => ih (some bs) _

/-- A weaker demand is met as well. -/
theorem wp_mono {p : Prog τ β α} {Q Q' : α → Acct τ → Prop} {g : Acct τ}
    (h : ∀ a g', Q a g' → Q' a g') (hp : p.wp C Q g) : p.wp C Q' g := by
  induction p generalizing g with
  | ret a => exact h a g hp
  | fail e => exact hp
  | send l data k ih =>
    obtain ⟨h1, h2, h3, h4⟩ := hp
    exact ⟨h1, h2, h3, fun n hn => ih (some n) (h4 n hn)⟩
  | recv l size k ih =>
    obtain ⟨h1, h2, h3⟩ := hp
    exact ⟨h1, h2, fun bs hbs hok => ih (some bs) (h3 bs hbs hok)⟩

/-- What was tried before a call is still tried after it. -/
theorem wp_kept {p : Prog τ β α} {Q : α → Acct τ → Prop} {g : Acct τ} (hp : p.wp C Q g) :
    p.wp C (fun a g' => Q a g' ∧ ∀ sd l, g.tried sd l → g'.tried sd l) g := by
  induction p generalizing g with
  | ret a => exact ⟨hp, fun _ _ => id⟩
  | fail e => exact hp
  | send l data k ih =>
    obtain ⟨h1, h2, h3, h4⟩ := hp
    refine ⟨h1, h2, h3, fun n hn => wp_mono ?_ (ih (some n) (h4 n hn))⟩
    rintro a g' ⟨hq, ht⟩
    exact ⟨hq, fun sd l' h => ht sd l' (Acct.move_tried_mono _ _ _ _ h)⟩
  | recv l size k ih =>
    obtain ⟨h1, h2, h3⟩ := hp
    refine ⟨h1, h2, fun bs hbs hok => wp_mono ?_ (ih (some bs) (h3 bs hbs hok))⟩
    rintro a g' ⟨hq, ht⟩
    exact ⟨hq, fun sd l' h => ht sd l' (Acct.move_tried_mono _ _ _ _ h)⟩

theorem wp_tried {p : Prog τ β α} {Q : α → Acct τ → Prop} {g : Acct τ} {sd : Side} {l : τ}
    (ht : g.tried sd l) (hp : p.wp C Q g) :
    p.wp C (fun a g' => Q a g' ∧ g'.tried sd l) g :=
  wp_mono (fun _ _ h => ⟨h.1, h.2 sd l ht⟩) (wp_kept hp)

end Prog

/-! ## 2. The run in which nothing moves -/

namespace Prog

variable {τ β α γ : Type}

/-- Along the run in which no link moves a byte, the call offers a transfer at this end: it has
    bytes for the link, or asks it for at least one. -/
def offers (sd : Side) (l : τ) : Prog τ β α → Prop
  | .ret _ => False
  | .fail _ => False
  | .send l' data k => (sd = .out ∧ l' = l ∧ data ≠ []) ∨ (k (some 0)).offers sd l
  | .recv l' size k => (sd = .inn ∧ l' = l ∧ 0 < size) ∨ (k (some [])).offers sd l

/-- The result of the run in which no link moves a byte. -/
def zeroRun : Prog τ β α → Option α
  | .ret a => some a
  | .fail _ => none
  | .send _ _ k => (k (some 0)).zeroRun
  | .recv _ _ k => (k (some [])).zeroRun

/-- **A call that keeps its terms ends also when nothing moves**, with the counts it started with,
    and every end it reports as newly tried was offered a transfer. -/
theorem wp_zero [DecidableEq τ] {C : Terms τ β} {p : Prog τ β α} {Q : α → Acct τ → Prop}
    {g : Acct τ} (hp : p.wp C Q g) :
    ∃ a g', p.zeroRun = some a ∧ Q a g' ∧ g'.count = g.count ∧
      ∀ sd l, g'.tried sd l → g.tried sd l ∨ p.offers sd l := by
  induction p generalizing g with
  | ret a => exact ⟨a, g, rfl, hp, rfl, fun _ _ h => Or.inl h⟩
  | fail e => exact hp.elim
  | send l data k ih =>
    obtain ⟨a, g', hr, hq, hc, ht⟩ := ih (some 0) (hp.2.2.2 0 (Nat.zero_le _))
    refine ⟨a, g', hr, hq, ?_, fun sd l' h => ?_⟩
    · rw [hc]
      funext sd l'
      by_cases e : sd = .out ∧ l' = l
      · obtain ⟨rfl, rfl⟩ := e
        simp
      · exact Acct.move_count_ne _ _ _ e
    · rcases ht sd l' h with (h | ⟨rfl, rfl, h⟩) | h
      · exact Or.inl h
      · exact Or.inr (Or.inl ⟨rfl, rfl, List.ne_nil_of_length_pos h⟩)
      · exact Or.inr (Or.inr h)
  | recv l size k ih =>
    obtain ⟨a, g', hr, hq, hc, ht⟩ :=
      ih (some []) (hp.2.2 [] (Nat.zero_le _) fun j h => absurd h (Nat.not_lt_zero j))
    refine ⟨a, g', hr, hq, ?_, fun sd l' h => ?_⟩
    · rw [hc]
      funext sd l'
      by_cases e : sd = .inn ∧ l' = l
      · obtain ⟨rfl, rfl⟩ := e
        simp
      · exact Acct.move_count_ne _ _ _ e
    · rcases ht sd l' h with (h | ⟨rfl, rfl, h⟩) | h
      · exact Or.inl h
      · exact Or.inr (Or.inl ⟨rfl, rfl, h⟩)
      · exact Or.inr (Or.inr h)

end Prog

end OriginCCL.Net
