/-
  File:      OriginCCL/Base/ForestGraph.lean
  Subject:   A FOREST WITH ONE ROOT IS A TREE.

  * `Forest.graph` -- the graph of the edges from children to parents.
  * `Forest.graph_isTree` -- **it is connected and has no cycle**, if only one vertex has no parent.
  * `Forest.walk_root` -- a vertex is no further from the root than its level.
-/
import Mathlib.Combinatorics.SimpleGraph.Acyclic
import OriginCCL.Base.Forest

namespace OriginCCL.Base.Forest

variable {V : Type} (T : Forest V)

/-- The edges from children to parents, in both directions. -/
def graph : SimpleGraph V where
  Adj p q := T.parent p = some q ∨ T.parent q = some p
  symm := ⟨fun _ _ h => h.symm⟩
  loopless := ⟨fun q h => by
    have h := h.elim id id
    exact absurd (T.depth_lt q q h) (Nat.lt_irrefl _)⟩

variable {T} {root : V}

/-- **Every vertex reaches the root by its parents.** -/
theorem reaches_root (honly : ∀ q, T.parent q = none → q = root) (q : V) :
    Relation.ReflTransGen (fun a b => T.parent a = some b) q root := by
  induction h : T.depth q using Nat.strong_induction_on generalizing q with
  | _ d ih =>
    subst h
    cases hp : T.parent q with
    | none =>
      rw [honly q hp]
    | some p => exact .head hp (ih _ (T.depth_lt q p hp) p rfl)

theorem reachable_root (honly : ∀ q, T.parent q = none → q = root) (q : V) :
    T.graph.Reachable q root := by
  induction reaches_root honly q using Relation.ReflTransGen.head_induction_on with
  | refl => exact .refl _
  | head h _ ih =>
    have hadj : T.graph.Adj _ _ := Or.inl h
    exact hadj.reachable.trans ih

/-- The edge of a vertex to its parent. -/
def toParent (hroot : ∀ q, T.parent q = none → q = root) (q : {q : V // q ≠ root}) :
    T.graph.edgeSet :=
  match h : T.parent q.1 with
  | some p => ⟨s(q.1, p), Or.inl h⟩
  | none => absurd (hroot q.1 h) q.2

theorem toParent_spec (hroot : ∀ q, T.parent q = none → q = root) (q : {q : V // q ≠ root}) :
    ∃ p, T.parent q.1 = some p ∧ (toParent hroot q).1 = s(q.1, p) := by
  unfold toParent
  split
  · rename_i p hp
    exact ⟨p, hp, rfl⟩
  · rename_i hp
    exact absurd (hroot q.1 hp) q.2

/-- The edges are those of the vertices other than the root to their parents. -/
theorem toParent_bijective (honly : ∀ q, T.parent q = none → q = root)
    (hnone : T.parent root = none) : Function.Bijective (toParent honly) := by
  constructor
  · intro a b hab
    obtain ⟨p, hp, ha⟩ := toParent_spec honly a
    obtain ⟨q, hq, hb⟩ := toParent_spec honly b
    rw [hab, hb] at ha
    rcases Sym2.eq_iff.mp ha with ⟨h, -⟩ | ⟨h1, h2⟩
    · exact Subtype.ext h.symm
    · -- two vertices cannot be each other's parents
      have hlt := T.depth_lt _ _ hp
      have hlt' := T.depth_lt _ _ hq
      rw [← h1] at hlt
      rw [h2] at hlt'
      omega
  · rintro ⟨e, he⟩
    have key : ∀ a b, T.parent a = some b → ∀ h : s(a, b) ∈ T.graph.edgeSet,
        ∃ q, toParent honly q = ⟨s(a, b), h⟩ := by
      intro a b hab h
      have hne : a ≠ root := by
        rintro rfl
        rw [hnone] at hab
        cases hab
      obtain ⟨p, hp, ha⟩ := toParent_spec honly ⟨a, hne⟩
      obtain rfl := Option.some.inj (hab.symm.trans hp)
      exact ⟨⟨a, hne⟩, Subtype.ext ha⟩
    induction e using Sym2.ind with
    | _ a b =>
      rcases (id he : T.parent a = some b ∨ T.parent b = some a) with h | h
      · exact key a b h he
      · obtain ⟨q, hq⟩ := key b a h (by rw [Sym2.eq_swap]; exact he)
        exact ⟨q, hq.trans (Subtype.ext Sym2.eq_swap)⟩

/-- **A forest with one root is a tree.** -/
theorem graph_isTree [Finite V] (honly : ∀ q, T.parent q = none → q = root)
    (hnone : T.parent root = none) : T.graph.IsTree := by
  rw [SimpleGraph.isTree_iff_connected_and_card]
  have : Nonempty V := ⟨root⟩
  refine ⟨⟨fun a b => (reachable_root honly a).trans (reachable_root honly b).symm⟩, ?_⟩
  have hcard : Nat.card {q : V // q ≠ root} + 1 = Nat.card V := by
    have := Fintype.ofFinite V
    classical
    rw [Nat.card_eq_fintype_card, Nat.card_eq_fintype_card, Fintype.card_subtype_compl,
      Fintype.card_subtype_eq]
    have : 0 < Fintype.card V := Fintype.card_pos
    omega
  rw [← hcard, Nat.card_eq_of_bijective _ (toParent_bijective honly hnone)]

/-- **A vertex is no further from the root than its level**, where the level grows by at least one
    from a parent to its children. -/
theorem walk_root (level : V → Nat) (honly : ∀ q, T.parent q = none → q = root)
    (hlevel : ∀ q p, T.parent q = some p → level p + 1 ≤ level q) (q : V) :
    ∃ path : T.graph.Walk q root, path.length ≤ level q := by
  induction reaches_root honly q using Relation.ReflTransGen.head_induction_on with
  | refl => exact ⟨.nil, Nat.zero_le _⟩
  | @head a b hab _ ih =>
    obtain ⟨path, hpath⟩ := ih
    have hadj : T.graph.Adj a b := Or.inl hab
    refine ⟨.cons hadj path, ?_⟩
    rw [SimpleGraph.Walk.length_cons]
    exact Nat.le_trans (Nat.succ_le_succ hpath) (hlevel a b hab)

end OriginCCL.Base.Forest
