/-
  File:      OriginCCL/Base/Codec.lean
  Subject:   DECODERS with a running offset, and the formats they read.

  * `Format` -- which lists encode a value. Formats compose like the decoders that read them.
  * `Decoder` -- reads a buffer from an offset on and moves the offset.
  * `Accepts` -- the decoder succeeds exactly on the buffers that go on with an encoding, and then
    moves the offset over this encoding: **totality and soundness at once**.
  * `Recovers` -- what the decoder returns on a list, on a part of it or on more than it, if it
    returns: nothing is said about whether it does.
-/
import Mathlib.Data.List.Basic
import Mathlib.Tactic.Common

namespace OriginCCL.Base

variable {α β γ ε : Type}

/-! ## 1. Formats -/

/-- A format: which lists encode a value. A value may have several encodings. -/
def Format (α β : Type) := β → List α → Prop

namespace Format

instance : Monad (Format α) where
  pure x := fun y l => y = x ∧ l = []
  bind F G := fun z l => ∃ y p q, F y p ∧ G y z q ∧ l = p ++ q

theorem pure_self (x : β) : (pure x : Format α β) x [] := ⟨rfl, rfl⟩

theorem bind_mk {F : Format α β} {G : β → Format α γ} {y : β} {z : γ} {p q : List α}
    (hp : F y p) (hq : G y z q) : (F >>= G) z (p ++ q) := ⟨y, p, q, hp, hq, rfl⟩

/-- `n` encodings in a row. -/
def times (F : Format α β) : Nat → Format α (List β)
  | 0 => pure []
  | n + 1 => do
    let x ← F
    let xs ← times F n
    pure (x :: xs)

theorem times_flatMap {F : Format α β} {encode : β → List α} {xs : List β}
    (h : ∀ x ∈ xs, F x (encode x)) : times F xs.length xs (xs.flatMap encode) := by
  induction xs with
  | nil => exact pure_self []
  | cons x xs ih =>
    have hx : F x (encode x) := h x List.mem_cons_self
    have hxs := ih fun y hy => h y (List.mem_cons_of_mem x hy)
    have htail := bind_mk (G := fun xs => pure (x :: xs)) hxs (pure_self (x :: xs))
    rw [List.append_nil] at htail
    rw [List.flatMap_cons]
    exact bind_mk hx htail

end Format

/-! ## 2. Decoders -/

/-- A decoder of a buffer. The state is the offset. -/
abbrev Decoder (ε α β : Type) := List α → StateT Nat (Except ε) β

namespace Decoder

/-- `n` times the decoder. -/
def times (dec : Decoder ε α β) (buffer : List α) : Nat → StateT Nat (Except ε) (List β)
  | 0 => pure []
  | n + 1 => do
    let x ← dec buffer
    let xs ← times dec buffer n
    pure (x :: xs)

theorem run_pure {x y : β} {o o' : Nat} :
    (pure x : StateT Nat (Except ε) β).run o = .ok (y, o') ↔ x = y ∧ o = o' := by
  rw [StateT.run_pure]
  constructor
  · intro h
    cases h
    exact ⟨rfl, rfl⟩
  · rintro ⟨rfl, rfl⟩
    rfl

theorem run_bind {d : StateT Nat (Except ε) β} {k : β → StateT Nat (Except ε) γ} {o o' : Nat}
    {z : γ} : (d >>= k).run o = .ok (z, o') ↔
      ∃ y m, d.run o = .ok (y, m) ∧ (k y).run m = .ok (z, o') := by
  rw [StateT.run_bind]
  cases h : d.run o with
  | error e => simp [bind, Except.bind]
  | ok r =>
    constructor
    · intro hk
      exact ⟨r.1, r.2, rfl, hk⟩
    · rintro ⟨y, m, hr, hk⟩
      cases hr
      exact hk

/-- `p ++ q` begins a list if `p` does and `q` begins the rest. -/
theorem append_prefix_iff {p q l : List α} : p ++ q <+: l ↔ p <+: l ∧ q <+: l.drop p.length := by
  constructor
  · intro h
    have hp : p <+: l := (List.prefix_append p q).trans h
    obtain ⟨r, rfl⟩ := h
    refine ⟨hp, ?_⟩
    rw [List.append_assoc, List.drop_left]
    exact List.prefix_append q r
  · rintro ⟨⟨r, rfl⟩, hq⟩
    rw [List.drop_left] at hq
    exact (List.prefix_append_right_inj p).mpr hq

/-! ### Accepting a format -/

/-- The decoder succeeds exactly where the buffer goes on with an encoding. -/
def Accepts (dec : Decoder ε α β) (F : Format α β) : Prop :=
  ∀ buffer offset x offset', (dec buffer).run offset = .ok (x, offset') ↔
    ∃ l, F x l ∧ l <+: buffer.drop offset ∧ offset' = offset + l.length

theorem accepts_pure (x : β) :
    Accepts (fun _ => (pure x : StateT Nat (Except ε) β)) (pure x : Format α β) := by
  intro buffer o y o'
  constructor
  · intro h
    obtain ⟨rfl, rfl⟩ := run_pure.mp h
    exact ⟨[], Format.pure_self x, List.nil_prefix, rfl⟩
  · rintro ⟨l, ⟨rfl, rfl⟩, -, rfl⟩
    rfl

theorem Accepts.bind {dec : Decoder ε α β} {k : β → Decoder ε α γ} {F : Format α β}
    {G : β → Format α γ} (hd : Accepts dec F) (hk : ∀ y, Accepts (k y) (G y)) :
    Accepts (fun buffer => dec buffer >>= fun y => k y buffer) (F >>= G) := by
  intro buffer o z o'
  rw [run_bind]
  constructor
  · rintro ⟨y, m, h1, h2⟩
    obtain ⟨p, hp, hpre, rfl⟩ := (hd buffer o y m).mp h1
    obtain ⟨q, hq, hqre, rfl⟩ := (hk y buffer _ z o').mp h2
    refine ⟨p ++ q, Format.bind_mk hp hq, ?_, by rw [List.length_append, Nat.add_assoc]⟩
    rw [append_prefix_iff, List.drop_drop]
    exact ⟨hpre, hqre⟩
  · rintro ⟨l, ⟨y, p, q, hp, hq, rfl⟩, hl, rfl⟩
    rw [append_prefix_iff, List.drop_drop] at hl
    refine ⟨y, o + p.length, (hd buffer o y _).mpr ⟨p, hp, hl.1, rfl⟩, ?_⟩
    refine (hk y buffer _ z _).mpr ⟨q, hq, hl.2, ?_⟩
    rw [List.length_append, Nat.add_assoc]

theorem Accepts.times {dec : Decoder ε α β} {F : Format α β} (hd : Accepts dec F) (n : Nat) :
    Accepts (fun buffer => dec.times buffer n) (F.times n) := by
  induction n with
  | zero => exact accepts_pure []
  | succ n ih => exact hd.bind fun x => ih.bind fun xs => accepts_pure (x :: xs)

/-- **Decoding an encoding**, wherever it lies in the buffer and whatever follows. -/
theorem Accepts.decode {dec : Decoder ε α β} {F : Format α β} (hd : Accepts dec F) {x : β}
    {l : List α} (h : F x l) (before after : List α) :
    (dec (before ++ l ++ after)).run before.length = .ok (x, before.length + l.length) := by
  refine (hd _ _ x _).mpr ⟨l, h, ?_, rfl⟩
  rw [List.append_assoc, List.drop_left]
  exact List.prefix_append l after

/-- The decoder fails on exactly the buffers that do not go on with an encoding. -/
theorem Accepts.isOk_iff {dec : Decoder ε α β} {F : Format α β} (hd : Accepts dec F)
    (buffer : List α) (o : Nat) :
    (∃ r, (dec buffer).run o = .ok r) ↔ ∃ x l, F x l ∧ l <+: buffer.drop o := by
  constructor
  · rintro ⟨⟨x, o'⟩, h⟩
    obtain ⟨l, hl, hpre, -⟩ := (hd buffer o x o').mp h
    exact ⟨x, l, hl, hpre⟩
  · rintro ⟨x, l, hl, hpre⟩
    exact ⟨(x, o + l.length), (hd buffer o x _).mpr ⟨l, hl, hpre, rfl⟩⟩

/-! ### Recovering a value -/

/-- One of two lists begins the other. -/
def Comparable (l m : List α) : Prop := l <+: m ∨ m <+: l

/-- If the decoder returns on a buffer that goes on with the list, a part of it or more than it,
    then it returns the value and has read the list. -/
def Recovers (dec : Decoder ε α β) (l : List α) (x : β) : Prop :=
  ∀ buffer offset y offset', Comparable l (buffer.drop offset) →
    (dec buffer).run offset = .ok (y, offset') →
    y = x ∧ l <+: buffer.drop offset ∧ offset' = offset + l.length

theorem recovers_pure (x : β) :
    Recovers (fun _ : List α => (pure x : StateT Nat (Except ε) β)) [] x := by
  intro buffer o y o' _ h
  obtain ⟨rfl, rfl⟩ := run_pure.mp h
  exact ⟨rfl, List.nil_prefix, rfl⟩

theorem Comparable.left {p q l : List α} (h : Comparable (p ++ q) l) : Comparable p l := by
  rcases h with h | h
  · exact .inl ((List.prefix_append p q).trans h)
  · exact List.prefix_or_prefix_of_prefix (List.prefix_append p q) h

theorem Comparable.right {p q l : List α} (h : Comparable (p ++ q) l) (hp : p <+: l) :
    Comparable q (l.drop p.length) := by
  obtain ⟨r, rfl⟩ := hp
  rw [List.drop_left]
  rcases h with h | h
  · exact .inl ((List.prefix_append_right_inj p).mp h)
  · exact .inr ((List.prefix_append_right_inj p).mp h)

theorem Recovers.bind {dec : Decoder ε α β} {k : β → Decoder ε α γ} {p q : List α} {x : β} {z : γ}
    (hd : Recovers dec p x) (hk : Recovers (k x) q z) :
    Recovers (fun buffer => dec buffer >>= fun y => k y buffer) (p ++ q) z := by
  intro buffer o w o' hcomp h
  obtain ⟨y, m, h1, h2⟩ := run_bind.mp h
  obtain ⟨rfl, hp, rfl⟩ := hd buffer o y m hcomp.left h1
  have hright : Comparable q (buffer.drop (o + p.length)) := by
    have hdrop := hcomp.right hp
    rwa [List.drop_drop] at hdrop
  obtain ⟨rfl, hq, rfl⟩ := hk buffer _ w o' hright h2
  refine ⟨rfl, ?_, by rw [List.length_append, Nat.add_assoc]⟩
  rw [append_prefix_iff, List.drop_drop]
  exact ⟨hp, hq⟩

theorem Recovers.times {dec : Decoder ε α β} {encode : β → List α} {xs : List β}
    (h : ∀ x ∈ xs, Recovers dec (encode x) x) :
    Recovers (fun buffer => dec.times buffer xs.length) (xs.flatMap encode) xs := by
  induction xs with
  | nil => exact recovers_pure []
  | cons x xs ih =>
    have hx := h x List.mem_cons_self
    have hxs := ih fun y hy => h y (List.mem_cons_of_mem x hy)
    have htail := hxs.bind (k := fun xs _ => pure (x :: xs)) (recovers_pure (x :: xs))
    rw [List.append_nil] at htail
    rw [List.flatMap_cons]
    exact hx.bind htail

/-- Reading an accepted encoding recovers its value. -/
theorem Accepts.recovers {dec : Decoder ε α β} {F : Format α β} (hd : Accepts dec F) {x : β}
    {l : List α} (h : F x l) : Recovers dec l x := by
  intro buffer o y o' hcomp hdec
  obtain ⟨m, hm, hpre, rfl⟩ := (hd buffer o y o').mp hdec
  -- Both encodings lie at the front of the longer list, so the decoder reads the same there.
  have hfront : ∀ b : List α, l <+: b → m <+: b → y = x ∧ m.length = l.length := by
    intro b hl hm'
    have h1 : (dec b).run 0 = .ok (x, 0 + l.length) := (hd b 0 x _).mpr ⟨l, h, hl, rfl⟩
    have h2 : (dec b).run 0 = .ok (y, 0 + m.length) := (hd b 0 y _).mpr ⟨m, hm, hm', rfl⟩
    rw [h1] at h2
    simp only [Except.ok.injEq, Prod.mk.injEq] at h2
    exact ⟨h2.1.symm, by omega⟩
  rcases hcomp with hcomp | hcomp
  · obtain ⟨rfl, hlen⟩ := hfront _ hcomp hpre
    exact ⟨rfl, hcomp, by rw [hlen]⟩
  · obtain ⟨rfl, hlen⟩ := hfront l (List.prefix_refl l) (hpre.trans hcomp)
    have heq : m = l := (hpre.trans hcomp).eq_of_length hlen
    exact ⟨rfl, heq ▸ hpre, by rw [hlen]⟩

end Decoder

end OriginCCL.Base
