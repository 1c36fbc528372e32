/-
  File:      OriginCCL/Base/Forest.lean
  Subject:   ROOTED FORESTS and reductions over their subtrees.

  * `Forest` -- vertices with parents, and a depth that grows from a parent to its children.
  * `Forest.Below r q` -- `q` is in the subtree of `r`.
  * `Forest.subtree_eq` -- a subtree is its root and the subtrees of the children.
  * `gathered r done` -- the root and the subtrees of the children in `done`;
    `fold_gathered_insert` -- **taking in one more child reduces by the child's whole subtree**.
-/
import Mathlib.Data.Finset.Fold
import Mathlib.Data.Finset.Union
import Mathlib.Tactic.Common

namespace OriginCCL.Base

/-- Vertices with parents; the depth excludes cycles. -/
structure Forest (V : Type) where
  parent : V → Option V
  depth : V → Nat
  depth_lt : ∀ q p, parent q = some p → depth p < depth q

namespace Forest

variable {V : Type} (T : Forest V)

/-- `q` is in the subtree of `r`. -/
inductive Below (r : V) : V → Prop where
  | root : Below r r
  | child {q p : V} (hp : T.parent q = some p) (h : Below r p) : Below r q

variable {T}

theorem Below.depth_le {r q : V} (h : T.Below r q) : T.depth r ≤ T.depth q := by
  induction h with
  | root => exact Nat.le_refl _
  | child hp _ ih => exact Nat.le_trans ih (Nat.le_of_lt (T.depth_lt _ _ hp))

/-- A subtree hangs off its root by the children. -/
theorem Below.cases_child {r q : V} (h : T.Below r q) :
    q = r ∨ ∃ c, T.parent c = some r ∧ T.Below c q := by
  induction h with
  | root => exact Or.inl rfl
  | @child q p hp _ ih =>
    right
    rcases ih with rfl | ⟨c, hc, hcp⟩
    · exact ⟨q, hp, .root⟩
    · exact ⟨c, hc, .child hp hcp⟩

theorem Below.of_child {r c q : V} (hc : T.parent c = some r) (h : T.Below c q) : T.Below r q := by
  induction h with
  | root => exact .child hc .root
  | child hp _ ih => exact .child hp ih

/-- Two vertices above a third are above each other. -/
theorem Below.chain {a b q : V} (ha : T.Below a q) (hb : T.Below b q) :
    T.Below a b ∨ T.Below b a := by
  induction ha generalizing b with
  | root => exact Or.inr hb
  | @child q p hp ha ih =>
    cases hb with
    | root => exact Or.inl (.child hp ha)
    | child hp' hb =>
      obtain rfl := Option.some.inj (hp.symm.trans hp')
      exact ih hb

/-- No child of a vertex is above it. -/
theorem not_below_parent {r c : V} (hc : T.parent c = some r) : ¬ T.Below c r := by
  intro h
  have h1 := h.depth_le
  have h2 := T.depth_lt c r hc
  omega

/-- Subtrees of different children have no vertex in common. -/
theorem Below.child_unique {r c c' q : V} (hc : T.parent c = some r) (hc' : T.parent c' = some r)
    (h : T.Below c q) (h' : T.Below c' q) : c = c' := by
  have key : ∀ a b, T.parent a = some r → T.parent b = some r → T.Below a b → a = b := by
    intro a b ha hb hab
    cases hab with
    | root => rfl
    | child hp hbelow =>
      obtain rfl := Option.some.inj (hp.symm.trans hb)
      exact absurd hbelow (not_below_parent ha)
  rcases h.chain h' with hab | hba
  · exact key c c' hc hc' hab
  · exact (key c' c hc' hc hba).symm

/-- A vertex without a parent is above everything, if it is the only one. -/
theorem below_root {s : Finset V} (hs : ∀ q ∈ s, ∀ p, T.parent q = some p → p ∈ s) {r : V}
    (hr : ∀ q ∈ s, T.parent q = none → q = r) {q : V} (hq : q ∈ s) : T.Below r q := by
  induction hd : T.depth q using Nat.strong_induction_on generalizing q with
  | _ d ih =>
    cases hp : T.parent q with
    | none =>
      rw [hr q hq hp]
      exact .root
    | some p =>
      have hlt := T.depth_lt q p hp
      exact .child hp (ih (T.depth p) (by omega) (hs q hq p hp) rfl)

/-! ## 1. Subtrees as sets -/

section Subtrees

open Classical

variable (T) (s : Finset V)

/-- The members of `s` in the subtree of `r`. -/
noncomputable def subtree (r : V) : Finset V := s.filter (T.Below r)

/-- The root `r` and the subtrees of the children in `done`. -/
noncomputable def gathered (r : V) (done : Finset V) : Finset V :=
  insert r (done.biUnion (T.subtree s))

variable {T s}

theorem mem_subtree {r q : V} : q ∈ T.subtree s r ↔ q ∈ s ∧ T.Below r q := Finset.mem_filter

theorem mem_gathered {r q : V} {done : Finset V} :
    q ∈ T.gathered s r done ↔ q = r ∨ ∃ d ∈ done, q ∈ T.subtree s d := by
  rw [gathered, Finset.mem_insert, Finset.mem_biUnion]

theorem gathered_empty (r : V) : T.gathered s r ∅ = {r} := rfl

/-- **A subtree is its root and the subtrees of the children.** -/
theorem subtree_eq (hs : ∀ q ∈ s, ∀ p, T.parent q = some p → p ∈ s) {r : V} (hr : r ∈ s)
    {kids : Finset V} (hk : ∀ c, c ∈ kids ↔ c ∈ s ∧ T.parent c = some r) :
    T.subtree s r = T.gathered s r kids := by
  -- the members of `s` have their ancestors in `s`
  have hanc : ∀ {a q}, T.Below a q → q ∈ s → a ∈ s := by
    intro a q h
    induction h with
    | root => exact id
    | child hp _ ih => exact fun hq => ih (hs _ hq _ hp)
  ext q
  rw [mem_subtree, mem_gathered]
  constructor
  · rintro ⟨hq, h⟩
    rcases h.cases_child with rfl | ⟨c, hc, hcq⟩
    · exact Or.inl rfl
    · exact Or.inr ⟨c, (hk c).mpr ⟨hanc hcq hq, hc⟩, mem_subtree.mpr ⟨hq, hcq⟩⟩
  · rintro (rfl | ⟨c, hc, hq⟩)
    · exact ⟨hr, .root⟩
    · obtain ⟨hq, hcq⟩ := mem_subtree.mp hq
      exact ⟨hq, hcq.of_child ((hk c).mp hc).2⟩

/-- The subtree of a single root is everything. -/
theorem subtree_root (hs : ∀ q ∈ s, ∀ p, T.parent q = some p → p ∈ s) {r : V}
    (hr : ∀ q ∈ s, T.parent q = none → q = r) : T.subtree s r = s :=
  Finset.filter_true_of_mem fun _ hq => below_root hs hr hq

section Fold

variable {α : Type} {op : α → α → α} [Std.Commutative op] [Std.Associative op] {e : α}

/-- **Taking in one more child reduces by the child's whole subtree.** -/
theorem fold_gathered_insert [DecidableEq V] (he : ∀ a, op e a = a) {r c : V} {done : Finset V}
    (hdone : ∀ d ∈ done, T.parent d = some r) (hc : T.parent c = some r) (hnew : c ∉ done)
    (f : V → α) : (T.gathered s r (insert c done)).fold op e f =
      op ((T.gathered s r done).fold op e f) ((T.subtree s c).fold op e f) := by
  have hdisj : T.gathered s r done ∩ T.subtree s c = ∅ := by
    rw [Finset.eq_empty_iff_forall_notMem]
    intro q hq
    obtain ⟨hq1, hq2⟩ := Finset.mem_inter.mp hq
    have hcq := (mem_subtree.mp hq2).2
    rcases mem_gathered.mp hq1 with rfl | ⟨d, hd, hq1⟩
    · exact not_below_parent hc hcq
    · have := (mem_subtree.mp hq1).2.child_unique (hdone d hd) hc hcq
      exact hnew (this ▸ hd)
  have hunion : T.gathered s r (insert c done) = T.gathered s r done ∪ T.subtree s c := by
    ext q
    rw [Finset.mem_union, mem_gathered, mem_gathered]
    constructor
    · rintro (rfl | ⟨d, hd, hq⟩)
      · exact Or.inl (Or.inl rfl)
      · rcases Finset.mem_insert.mp hd with rfl | hd
        · exact Or.inr hq
        · exact Or.inl (Or.inr ⟨d, hd, hq⟩)
    · rintro ((rfl | ⟨d, hd, hq⟩) | hq)
      · exact Or.inl rfl
      · exact Or.inr ⟨d, Finset.mem_insert_of_mem hd, hq⟩
      · exact Or.inr ⟨c, Finset.mem_insert_self .., hq⟩
  have hcomm : ∀ a b, op a b = op b a := Std.Commutative.comm
  have h : op ((T.gathered s r done ∪ T.subtree s c).fold op e f)
      ((T.gathered s r done ∩ T.subtree s c).fold op e f) =
        op ((T.gathered s r done).fold op e f) ((T.subtree s c).fold op e f) :=
    Finset.fold_union_inter
  rw [hdisj, Finset.fold_empty, hcomm, he] at h
  rw [hunion, h]

end Fold

end Subtrees

end Forest

end OriginCCL.Base
