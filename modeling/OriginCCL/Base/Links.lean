/-
  File:      OriginCCL/Base/Links.lean
  Subject:   CONNECTIONS that are asked for, accepted and announced.

  * `Links` -- all connections between the parties, where each one is, and what each party knows of it.
  * `Links.Inv` -- **a connection is in one place at a time, and its two ends agree.**
  * `Links.Inv.ask`, `Links.Inv.take`, `Links.Inv.announce`, `Links.Inv.receive` -- every operation
    keeps it.

  A party asks for one connection at a time and waits until it is accepted; then it says who it is.
-/
import OriginCCL.Base.Tables

namespace OriginCCL.Base

/-- How far a connection is. What is announced is the party that asked for it. -/
inductive ConnStatus (α : Type) where
  | pending
  | accepted
  | announced (source : α)
  deriving DecidableEq, Repr

/-- The connections of parties `α` with listeners `β`: the source and the destination of each, and how far
    it is; the backlogs; the connection that a party has asked for, the one that it has accepted, and the
    ones that it holds. -/
structure Links (α β : Type) where
  conns : List (α × α)
  status : Nat → ConnStatus α
  backlog : α → β → List Nat
  asked : α → Option (α × Nat)
  greeting : α → Option Nat
  sent : α → α → Option Nat
  received : α → α → Option Nat

namespace Links

variable {α β : Type} [DecidableEq α]

/-! ## 1. The operations -/

/-- `a` asks `b` for a connection, at the listener `j`. -/
def ask [DecidableEq β] (L : Links α β) (a b : α) (j : β) : Links α β :=
  { L with
    conns := L.conns ++ [(a, b)]
    status := Function.update L.status L.conns.length .pending
    backlog := update₂ L.backlog b j (L.backlog b j ++ [L.conns.length])
    asked := Function.update L.asked a (some (b, L.conns.length)) }

/-- `b` accepts the first connection of a backlog. -/
def take [DecidableEq β] (L : Links α β) (b : α) (j : β) (c : Nat) (waiting : List Nat) : Links α β :=
  { L with
    status := Function.update L.status c .accepted
    backlog := update₂ L.backlog b j waiting
    greeting := Function.update L.greeting b (some c) }

/-- `a` says on a connection who it is, and keeps it. -/
def announce (L : Links α β) (a b : α) (c : Nat) : Links α β :=
  { L with
    status := Function.update L.status c (.announced a)
    asked := Function.update L.asked a none
    sent := update₂ L.sent a b (some c) }

/-- `b` reads who has asked for the connection, and keeps it. -/
def receive (L : Links α β) (a b : α) (c : Nat) : Links α β :=
  { L with
    greeting := Function.update L.greeting b none
    received := update₂ L.received b a (some c) }

/-! ## 2. The invariant -/

/-- Where a connection from `a` to `b` is. -/
def Placed (listener : α → α → β) (L : Links α β) (c : Nat) (a b : α) : ConnStatus α → Prop
  | .pending => c ∈ L.backlog b (listener a b) ∧ L.asked a = some (b, c) ∧ L.sent a b = none ∧
      L.received b a = none ∧ L.greeting b ≠ some c
  | .accepted => L.greeting b = some c ∧ L.asked a = some (b, c) ∧ L.sent a b = none ∧ L.received b a = none
  | .announced source => source = a ∧ L.sent a b = some c ∧
      (L.received b a = some c ∧ L.greeting b ≠ some c ∨ L.received b a = none ∧ L.greeting b = some c)

/-- **A connection is in one place at a time**, and what a party knows of one is true. -/
structure Inv (listener : α → α → β) (L : Links α β) : Prop where
  nodup : L.conns.Nodup
  placed : ∀ c a b, L.conns[c]? = some (a, b) → L.Placed listener c a b (L.status c)
  sent : ∀ a b c, L.sent a b = some c → L.conns[c]? = some (a, b)
  received : ∀ a b c, L.received b a = some c → L.conns[c]? = some (a, b)
  asked : ∀ a b c, L.asked a = some (b, c) → L.conns[c]? = some (a, b) ∧ ∀ src, L.status c ≠ .announced src
  greeting : ∀ b c, L.greeting b = some c → ∃ a, L.conns[c]? = some (a, b)
  backlog : ∀ b j, (L.backlog b j).Nodup
  waiting : ∀ b j, ∀ c ∈ L.backlog b j, ∃ a, L.conns[c]? = some (a, b) ∧ listener a b = j ∧
    L.status c = .pending

variable {listener : α → α → β} {L : Links α β} {a b : α} {c : Nat}

omit [DecidableEq α] in
/-- The connection of two parties is one. -/
theorem Inv.unique (h : L.Inv listener) {c' : Nat} (hc : L.conns[c]? = some (a, b))
    (hc' : L.conns[c']? = some (a, b)) : c' = c := by
  obtain ⟨hlt, -⟩ := List.getElem?_eq_some_iff.mp hc
  exact ((List.getElem?_inj hlt h.nodup).mp (hc.trans hc'.symm)).symm

/-- A connection is listed once. -/
theorem getElem?_ask [DecidableEq β] {j : β} {p : α × α} : (L.ask a b j).conns[c]? = some p ↔
    L.conns[c]? = some p ∨ c = L.conns.length ∧ p = (a, b) := by
  show (L.conns ++ [(a, b)])[c]? = some p ↔ _
  rcases Nat.lt_trichotomy c L.conns.length with hlt | heq | hgt
  · rw [List.getElem?_append_left hlt]
    exact ⟨Or.inl, fun h => h.resolve_right fun h => by omega⟩
  · rw [heq, List.getElem?_concat_length, List.getElem?_eq_none (Nat.le_refl _)]
    constructor
    · intro h
      exact Or.inr ⟨rfl, (Option.some.inj h).symm⟩
    · intro h
      rcases h with h | ⟨-, rfl⟩
      · cases h
      · rfl
  · rw [List.getElem?_eq_none (by simp only [List.length_append, List.length_singleton]; omega),
      List.getElem?_eq_none (by omega)]
    constructor
    · intro h
      cases h
    · intro h
      rcases h with h | ⟨h, -⟩
      · cases h
      · omega

/-! ## 3. What the operations change -/

section Fields

variable (L : Links α β) (a b x y : α) (j i : β) (c d : Nat) (waiting : List Nat)

@[simp] theorem announce_status :
    (L.announce a b c).status d = if d = c then .announced a else L.status d :=
  Function.update_apply ..

@[simp] theorem announce_asked : (L.announce a b c).asked x = if x = a then none else L.asked x :=
  Function.update_apply ..

@[simp] theorem announce_sent :
    (L.announce a b c).sent x y = if x = a ∧ y = b then some c else L.sent x y :=
  update₂_apply ..

@[simp] theorem announce_backlog : (L.announce a b c).backlog = L.backlog := rfl

@[simp] theorem announce_greeting : (L.announce a b c).greeting = L.greeting := rfl

@[simp] theorem announce_received : (L.announce a b c).received = L.received := rfl

@[simp] theorem receive_greeting :
    (L.receive a b c).greeting y = if y = b then none else L.greeting y :=
  Function.update_apply ..

@[simp] theorem receive_received :
    (L.receive a b c).received y x = if y = b ∧ x = a then some c else L.received y x :=
  update₂_apply ..

@[simp] theorem receive_status : (L.receive a b c).status = L.status := rfl

@[simp] theorem receive_backlog : (L.receive a b c).backlog = L.backlog := rfl

@[simp] theorem receive_asked : (L.receive a b c).asked = L.asked := rfl

@[simp] theorem receive_sent : (L.receive a b c).sent = L.sent := rfl

variable [DecidableEq β]

@[simp] theorem ask_status :
    (L.ask a b j).status d = if d = L.conns.length then .pending else L.status d :=
  Function.update_apply ..

@[simp] theorem ask_backlog : (L.ask a b j).backlog y i =
    if y = b ∧ i = j then L.backlog b j ++ [L.conns.length] else L.backlog y i :=
  update₂_apply ..

@[simp] theorem ask_asked :
    (L.ask a b j).asked x = if x = a then some (b, L.conns.length) else L.asked x :=
  Function.update_apply ..

@[simp] theorem ask_greeting : (L.ask a b j).greeting = L.greeting := rfl

@[simp] theorem ask_sent : (L.ask a b j).sent = L.sent := rfl

@[simp] theorem ask_received : (L.ask a b j).received = L.received := rfl

@[simp] theorem take_status :
    (L.take b j c waiting).status d = if d = c then .accepted else L.status d :=
  Function.update_apply ..

@[simp] theorem take_backlog :
    (L.take b j c waiting).backlog y i = if y = b ∧ i = j then waiting else L.backlog y i :=
  update₂_apply ..

@[simp] theorem take_greeting :
    (L.take b j c waiting).greeting y = if y = b then some c else L.greeting y :=
  Function.update_apply ..

@[simp] theorem take_asked : (L.take b j c waiting).asked = L.asked := rfl

@[simp] theorem take_sent : (L.take b j c waiting).sent = L.sent := rfl

@[simp] theorem take_received : (L.take b j c waiting).received = L.received := rfl

end Fields

/-! ## 4. The operations keep the invariant -/

omit [DecidableEq α] in
/-- Two parties without a connection, when the first one is not waiting for any. -/
theorem Inv.free (h : L.Inv listener) (hasked : L.asked a = none) (hsent : L.sent a b = none) :
    (a, b) ∉ L.conns := by
  intro hmem
  obtain ⟨c, hc⟩ := List.getElem?_of_mem hmem
  have hplaced := h.placed c a b hc
  cases hstatus : L.status c with
  | pending =>
    rw [hstatus] at hplaced
    rw [hplaced.2.1] at hasked
    cases hasked
  | accepted =>
    rw [hstatus] at hplaced
    rw [hplaced.2.1] at hasked
    cases hasked
  | announced src =>
    rw [hstatus] at hplaced
    rw [hplaced.2.1] at hsent
    cases hsent

theorem Inv.ask [DecidableEq β] (h : L.Inv listener) (hasked : L.asked a = none) (hsent : L.sent a b = none) :
    (L.ask a b (listener a b)).Inv listener := by
  have hfree := h.free hasked hsent
  have hlast : ∀ c p, L.conns[c]? = some p → c ≠ L.conns.length := by
    intro c p hc
    obtain ⟨hlt, -⟩ := List.getElem?_eq_some_iff.mp hc
    omega
  have hreceived : L.received b a = none := by
    cases hr : L.received b a with
    | none => rfl
    | some c => exact absurd (List.mem_of_getElem? (h.received a b c hr)) hfree
  have hgreeting : L.greeting b ≠ some L.conns.length := by
    intro hg
    obtain ⟨x, hx⟩ := h.greeting b _ hg
    exact hlast _ _ hx rfl
  refine ⟨?_, fun c x y hc => ?_, fun x y c hc => ?_, fun x y c hc => ?_, fun x y c hc => ?_,
    fun y c hc => ?_, fun y j => ?_, fun y j c hc => ?_⟩
  · exact List.nodup_append.mpr ⟨h.nodup, List.nodup_singleton _, fun p hp q hq => by
      rw [List.mem_singleton.mp hq]
      exact fun e => hfree (e ▸ hp)⟩
  · rw [ask_status]
    rcases getElem?_ask.mp hc with hc | ⟨rfl, hxy⟩
    · have hplaced := h.placed c x y hc
      rw [if_neg (hlast c _ hc)]
      cases hs : L.status c <;> rw [hs] at hplaced <;>
        simp only [Placed, ask_backlog, ask_asked, ask_sent, ask_received, ask_greeting] at hplaced ⊢ <;> grind
    · obtain ⟨rfl, rfl⟩ := Prod.mk.inj hxy
      rw [if_pos rfl]
      refine ⟨?_, ?_, hsent, hreceived, hgreeting⟩
      · simp
      · simp
  · exact getElem?_ask.mpr (Or.inl (h.sent x y c hc))
  · exact getElem?_ask.mpr (Or.inl (h.received x y c hc))
  · rw [ask_asked] at hc
    rw [getElem?_ask, ask_status]
    by_cases hx : x = a
    · grind
    · rw [if_neg hx] at hc
      obtain ⟨h1, h2⟩ := h.asked x y c hc
      rw [if_neg (hlast c _ h1)]
      exact ⟨Or.inl h1, h2⟩
  · obtain ⟨x, hx⟩ := h.greeting y c hc
    exact ⟨x, getElem?_ask.mpr (Or.inl hx)⟩
  · rw [ask_backlog]
    split
    · refine List.nodup_append.mpr ⟨h.backlog .., List.nodup_singleton _, fun c hc d hd => ?_⟩
      obtain ⟨x, hx, -⟩ := h.waiting _ _ c hc
      rw [List.mem_singleton.mp hd]
      exact hlast c _ hx
    · exact h.backlog y j
  · have hold : ∀ c ∈ L.backlog y j, ∃ x, (L.ask a b (listener a b)).conns[c]? = some (x, y) ∧
        listener x y = j ∧ (L.ask a b (listener a b)).status c = .pending := by
      intro c hc
      obtain ⟨x, hx, hlistener, hs⟩ := h.waiting y j c hc
      refine ⟨x, getElem?_ask.mpr (Or.inl hx), hlistener, ?_⟩
      rw [ask_status, if_neg (hlast c _ hx), hs]
    rw [ask_backlog] at hc
    split at hc
    case isTrue hyj =>
      obtain ⟨rfl, rfl⟩ := hyj
      rcases List.mem_append.mp hc with hc | hc
      · exact hold c hc
      · rw [List.mem_singleton.mp hc]
        exact ⟨a, getElem?_ask.mpr (Or.inr ⟨rfl, rfl⟩), rfl, by simp⟩
    case isFalse => exact hold c hc

theorem Inv.take [DecidableEq β] (h : L.Inv listener) {j : β} {waiting : List Nat}
    (hb : L.backlog b j = c :: waiting) (hgreeting : L.greeting b = none) : (L.take b j c waiting).Inv listener := by
  obtain ⟨a, hc, hlistener, hpending⟩ := h.waiting b j c (hb ▸ List.mem_cons_self)
  have hfirst := h.placed c a b hc
  rw [hpending] at hfirst
  obtain ⟨hcw, hwaiting⟩ := List.nodup_cons.mp (hb ▸ h.backlog b j)
  refine ⟨h.nodup, fun d x y hd => ?_, h.sent, h.received, fun x y d hd => ?_,
    fun y d hd => ?_, fun y i => ?_, fun y i d hd => ?_⟩
  · rw [take_status]
    by_cases hdc : d = c
    · subst hdc
      have hxy : (a, b) = (x, y) := Option.some.inj (hc.symm.trans hd)
      obtain ⟨rfl, rfl⟩ := Prod.mk.inj hxy
      rw [if_pos rfl]
      obtain ⟨-, h2, h3, h4, -⟩ := hfirst
      exact ⟨by simp, h2, h3, h4⟩
    · have hplaced := h.placed d x y hd
      rw [if_neg hdc]
      cases hs : L.status d <;> rw [hs] at hplaced <;>
        simp only [Placed, take_backlog, take_asked, take_sent, take_received,
          take_greeting] at hplaced ⊢ <;> grind
  · obtain ⟨h1, h2⟩ := h.asked x y d hd
    refine ⟨h1, fun src => ?_⟩
    rw [take_status]
    split
    · exact fun h => by cases h
    · exact h2 src
  · rw [take_greeting] at hd
    split at hd
    case isTrue hy =>
      subst hy
      obtain rfl := Option.some.inj hd
      exact ⟨a, hc⟩
    case isFalse => exact h.greeting y d hd
  · rw [take_backlog]
    split
    · exact hwaiting
    · exact h.backlog y i
  · have hmem : d ∈ L.backlog y i ∧ d ≠ c := by
      rw [take_backlog] at hd
      grind [h.waiting y i]
    obtain ⟨x, h1, h2, h3⟩ := h.waiting y i d hmem.1
    exact ⟨x, h1, h2, by rw [take_status, if_neg hmem.2, h3]⟩

theorem Inv.announce (h : L.Inv listener) (hasked : L.asked a = some (b, c)) (hs : L.status c = .accepted) :
    (L.announce a b c).Inv listener := by
  obtain ⟨hc, -⟩ := h.asked a b c hasked
  have hfirst := h.placed c a b hc
  rw [hs] at hfirst
  simp only [Placed] at hfirst
  refine ⟨h.nodup, fun d x y hd => ?_, fun x y d hd => ?_, h.received, fun x y d hd => ?_,
    h.greeting, h.backlog, fun y i d hd => ?_⟩
  · rw [announce_status]
    by_cases hdc : d = c
    · subst hdc
      have hxy : (a, b) = (x, y) := Option.some.inj (hc.symm.trans hd)
      obtain ⟨rfl, rfl⟩ := Prod.mk.inj hxy
      rw [if_pos rfl]
      obtain ⟨h1, -, -, h4⟩ := hfirst
      exact ⟨rfl, by simp, Or.inr ⟨h4, h1⟩⟩
    · have hplaced := h.placed d x y hd
      rw [if_neg hdc]
      cases hs : L.status d <;> rw [hs] at hplaced <;>
        simp only [Placed, announce_backlog, announce_asked, announce_sent, announce_received,
          announce_greeting] at hplaced ⊢ <;> grind
  · rw [announce_sent] at hd
    grind [h.sent x y d, Links.announce]
  · rw [announce_asked] at hd
    split at hd
    · cases hd
    case isFalse hx =>
      obtain ⟨h1, h2⟩ := h.asked x y d hd
      refine ⟨h1, fun src => ?_⟩
      rw [announce_status]
      grind
  · obtain ⟨x, h1, h2, h3⟩ := h.waiting y i d hd
    refine ⟨x, h1, h2, ?_⟩
    rw [announce_status]
    grind

theorem Inv.receive (h : L.Inv listener) (hgreeting : L.greeting b = some c)
    (hs : L.status c = .announced a) : (L.receive a b c).Inv listener := by
  obtain ⟨a', hc⟩ := h.greeting b c hgreeting
  have hfirst := h.placed c a' b hc
  rw [hs] at hfirst
  obtain ⟨rfl, hsent, hreceived⟩ := hfirst
  refine ⟨h.nodup, fun d x y hd => ?_, h.sent, fun x y d hd => ?_, h.asked,
    fun y d hd => ?_, h.backlog, h.waiting⟩
  · have hplaced := h.placed d x y hd
    have huniq := fun e : (x, y) = (a, b) => h.unique hc (e ▸ hd)
    show Placed listener (L.receive a b c) d x y (L.status d)
    cases hs : L.status d <;> rw [hs] at hplaced <;>
      simp only [Placed, receive_backlog, receive_asked, receive_sent, receive_received,
        receive_greeting] at hplaced ⊢ <;> grind
  · rw [receive_received] at hd
    grind [h.received x y d, Links.receive]
  · rw [receive_greeting] at hd
    split at hd
    · cases hd
    · exact h.greeting y d hd

end Links

end OriginCCL.Base
