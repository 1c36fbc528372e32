/-
  File:      OriginCCL/Net/Answers.lean
  Subject:   CALLS WHOSE LINKS ANSWER WHATEVER THEY LIKE.

  `Prog.wp` lets the links of a call answer as its terms allow. Here an answer is any number of bytes,
  any bytes, or a failure.

  * `Prog.Ends` -- the ends of a call.
  * `Prog.Always` -- whatever the answers, the call ends, with a result that meets a condition or with
    the error of a failed link; `always_iff` -- that is what its ends say.
  * `Prog.Ensures` -- the same of its results only.
  * `Prog.map` -- a call with its result mapped, for calls that carry a log.
-/
import OriginCCL.Net.Prog

namespace OriginCCL.Net

namespace Prog

variable {τ β α γ δ : Type}

/-- With some answers of its links the call ends like this. -/
inductive Ends : Prog τ β α → Except Fault α → Prop where
  | ret (a : α) : Ends (.ret a) (.ok a)
  | fail (f : Fault) : Ends (.fail f) (.error f)
  | send (l : τ) (data : List β) (k : Option Nat → Prog τ β α) (n : Option Nat) (r : Except Fault α)
      (h : Ends (k n) r) : Ends (.send l data k) r
  | recv (l : τ) (size : Nat) (k : Option (List β) → Prog τ β α) (bs : Option (List β))
      (r : Except Fault α) (h : Ends (k bs) r) : Ends (.recv l size k) r

/-- **Whatever its links answer, the call ends**: with a result that meets `P`, or with an error. It
    never runs out of rounds. -/
def Always (P : α → Prop) : Prog τ β α → Prop
  | .ret a => P a
  | .fail f => f = .error
  | .send _ _ k => ∀ n, (k n).Always P
  | .recv _ _ k => ∀ bs, (k bs).Always P

@[simp] theorem always_ret {P : α → Prop} {a : α} : (Prog.ret a : Prog τ β α).Always P ↔ P a := Iff.rfl

@[simp] theorem always_pure {P : α → Prop} {a : α} : (pure a : Prog τ β α).Always P ↔ P a := Iff.rfl

theorem always_error {P : α → Prop} : (Prog.fail .error : Prog τ β α).Always P := rfl

theorem always_bind {P : γ → Prop} (p : Prog τ β α) (f : α → Prog τ β γ) :
    (p >>= f).Always P ↔ p.Always fun a => (f a).Always P := by
  induction p with
  | ret a => rfl
  | fail e => rfl
  | send l data k ih => exact forall_congr' fun n => ih n
  | recv l size k ih => exact forall_congr' fun bs => ih bs

theorem always_mono {P Q : α → Prop} {p : Prog τ β α} (h : ∀ a, P a → Q a) (hp : p.Always P) :
    p.Always Q := by
  induction p with
  | ret a => exact h a hp
  | fail e => exact hp
  | send l data k ih => exact fun n => ih n (hp n)
  | recv l size k ih => exact fun bs => ih bs (hp bs)

/-- **What always holds is what holds at every end.** -/
theorem always_iff {P : α → Prop} {p : Prog τ β α} :
    p.Always P ↔ (∀ a, p.Ends (.ok a) → P a) ∧ ¬ p.Ends (.error .fuel) := by
  induction p with
  | ret a =>
    refine ⟨fun h => ⟨fun b hb => ?_, nofun⟩, fun h => h.1 a (.ret a)⟩
    cases hb
    exact h
  | fail f =>
    refine ⟨fun h => ⟨nofun, fun hf => ?_⟩, fun h => ?_⟩
    · cases hf
      cases h
    · cases f with
      | error => rfl
      | fuel => exact absurd (.fail .fuel) h.2
  | send l data k ih =>
    refine ⟨fun h => ⟨fun a ha => ?_, fun hf => ?_⟩, fun h n => (ih n).mpr ⟨fun a ha => ?_, fun hf => ?_⟩⟩
    · cases ha with
      | send _ _ _ n _ ha => exact ((ih n).mp (h n)).1 a ha
    · cases hf with
      | send _ _ _ n _ hf => exact ((ih n).mp (h n)).2 hf
    · exact h.1 a (.send l data k n _ ha)
    · exact h.2 (.send l data k n _ hf)
  | recv l size k ih =>
    refine ⟨fun h => ⟨fun a ha => ?_, fun hf => ?_⟩, fun h n => (ih n).mpr ⟨fun a ha => ?_, fun hf => ?_⟩⟩
    · cases ha with
      | recv _ _ _ n _ ha => exact ((ih n).mp (h n)).1 a ha
    · cases hf with
      | recv _ _ _ n _ hf => exact ((ih n).mp (h n)).2 hf
    · exact h.1 a (.recv l size k n _ ha)
    · exact h.2 (.recv l size k n _ hf)

/-- Every result of the call meets `P`, if it comes to one. -/
def Ensures (P : α → Prop) : Prog τ β α → Prop
  | .ret a => P a
  | .fail _ => True
  | .send _ _ k => ∀ n, (k n).Ensures P
  | .recv _ _ k => ∀ bs, (k bs).Ensures P

theorem ensures_bind {P : γ → Prop} (p : Prog τ β α) (f : α → Prog τ β γ) :
    (p >>= f).Ensures P ↔ p.Ensures fun a => (f a).Ensures P := by
  induction p with
  | ret a => rfl
  | fail e => rfl
  | send l data k ih => exact forall_congr' fun n => ih n
  | recv l size k ih => exact forall_congr' fun bs => ih bs

theorem ensures_mono {P Q : α → Prop} {p : Prog τ β α} (h : ∀ a, P a → Q a) (hp : p.Ensures P) :
    p.Ensures Q := by
  induction p with
  | ret a => exact h a hp
  | fail e => trivial
  | send l data k ih => exact fun n => ih n (hp n)
  | recv l size k ih => exact fun bs => ih bs (hp bs)

theorem Always.ensures {P : α → Prop} {p : Prog τ β α} (h : p.Always P) : p.Ensures P := by
  induction p with
  | ret a => exact h
  | fail e => trivial
  | send l data k ih => exact fun n => ih n (h n)
  | recv l size k ih => exact fun bs => ih bs (h bs)

theorem Ensures.ends {P : α → Prop} {p : Prog τ β α} {a : α} (h : p.Ensures P) (ha : p.Ends (.ok a)) :
    P a := by
  induction p with
  | ret b =>
    cases ha
    exact h
  | fail e => cases ha
  | send l data k ih =>
    cases ha with
    | send _ _ _ n _ ha => exact ih n (h n) ha
  | recv l size k ih =>
    cases ha with
    | recv _ _ _ bs _ ha => exact ih bs (h bs) ha

/-! ## 1. Mapped results -/

/-- The call with its result mapped. -/
def map (g : α → γ) : Prog τ β α → Prog τ β γ
  | .ret a => .ret (g a)
  | .fail f => .fail f
  | .send l data k => .send l data fun n => (k n).map g
  | .recv l size k => .recv l size fun bs => (k bs).map g

@[simp] theorem map_ret (g : α → γ) (a : α) : (Prog.ret a : Prog τ β α).map g = .ret (g a) := rfl

@[simp] theorem map_pure (g : α → γ) (a : α) : (pure a : Prog τ β α).map g = .ret (g a) := rfl

@[simp] theorem map_fail (g : α → γ) (f : Fault) : (Prog.fail f : Prog τ β α).map g = .fail f := rfl

theorem map_bind (p : Prog τ β α) (f : α → Prog τ β γ) (g : γ → δ) :
    (p >>= f).map g = p >>= fun a => (f a).map g := by
  induction p with
  | ret a => rfl
  | fail e => rfl
  | send l data k ih => exact congrArg (Prog.send l data) (funext fun n => ih n)
  | recv l size k ih => exact congrArg (Prog.recv l size) (funext fun bs => ih bs)

theorem bind_map (p : Prog τ β α) (g : α → γ) (f : γ → Prog τ β δ) :
    (p.map g >>= f) = p >>= fun a => f (g a) := by
  induction p with
  | ret a => rfl
  | fail e => rfl
  | send l data k ih => exact congrArg (Prog.send l data) (funext fun n => ih n)
  | recv l size k ih => exact congrArg (Prog.recv l size) (funext fun bs => ih bs)

theorem ensures_map {P : γ → Prop} (p : Prog τ β α) (g : α → γ) :
    (p.map g).Ensures P ↔ p.Ensures fun a => P (g a) := by
  induction p with
  | ret a => rfl
  | fail e => rfl
  | send l data k ih => exact forall_congr' fun n => ih n
  | recv l size k ih => exact forall_congr' fun bs => ih bs

/-- **Two calls in sequence**, each with its result mapped. -/
theorem map_seq {α' γ' : Type} {p : Prog τ β α} {p' : Prog τ β α'} {g : α → α'} (hp : p.map g = p')
    {f : α → Prog τ β γ} {f' : α' → Prog τ β γ'} {h : γ → γ'} (hf : ∀ a, (f a).map h = f' (g a)) :
    (p >>= f).map h = p' >>= f' := by
  rw [map_bind, ← hp, bind_map]
  exact congrArg _ (funext hf)

end Prog

end OriginCCL.Net
