/-
  File:      OriginCCL/Topology/TreeDiameter.lean
  Subject:   THE TREES ARE SHALLOW: their depth is logarithmic in the number of machines.

  * `levelOf` -- the level of a rank: that of its leader in the heap, one more for the others.
  * `levelOf_le` -- **it is logarithmic in the number of machines**.
  * `tree_diameter` -- **any two ranks are joined by a short path of connections**.
-/
import OriginCCL.Topology.Trees

namespace OriginCCL.TopologyTree

open Base

section Levels

variable {H : Type} [DecidableEq H] (w : World H) (id : Nat)

/-- How far a rank is from the root: the height of its machine in the heap, and one more to its
    leader. -/
def levelOf (q : Nat) : Nat :=
  Nat.log 2 (nodeOf w id q + 1) + if leaderOf w q = q then 0 else 1

variable {w id} {q p : Nat}

/-- Half way down the heap is one level up. -/
theorem log_half {n : Nat} (hn : n ≠ 0) : Nat.log 2 ((n - 1) / 2 + 1) + 1 = Nat.log 2 (n + 1) := by
  have hhalf : (n - 1) / 2 + 1 = (n + 1) / 2 := by omega
  have hone : 1 ≤ Nat.log 2 (n + 1) := Nat.log_pos (by decide) (by omega)
  rw [hhalf, Nat.log_div_base]
  exact Nat.sub_add_cancel hone

/-- **A child lies one level below its parent.** -/
theorem levelOf_parent (h : parentOf w id q = some p) : levelOf w id p + 1 = levelOf w id q := by
  obtain ⟨hq, -, hp, -⟩ := parentOf_spec h
  unfold parentOf at h
  rw [if_pos hq] at h
  unfold levelOf
  rw [if_pos hp]
  split at h
  case isTrue hl =>
    rw [if_pos hl]
    split at h
    case isTrue => cases h
    case isFalse hz =>
      obtain rfl := Option.some.inj h
      have hlt := nodeOf_lt id hq
      obtain ⟨-, -, hnode, -⟩ := leaderAt_spec id q
        (show (nodeOf w id q - 1) / 2 < machines w by omega)
      rw [hnode]
      exact log_half hz
  case isFalse hl =>
    obtain rfl := Option.some.inj h
    rw [if_neg hl, nodeOf_leaderOf hq]

/-- **No rank is deep**: a leader is at most `log2` of the machines down, the others one more. -/
theorem levelOf_le (id : Nat) (hq : q < w.size) :
    levelOf w id q ≤ Nat.log 2 (machines w) + if leaderOf w q = q then 0 else 1 :=
  Nat.add_le_add_right (Nat.log_mono_right (nodeOf_lt id hq)) _

end Levels

/-- **The trees are shallow**: on every channel a rank is joined to the root by at most
    `log2(machines) + 1` connections, the leader of a machine by at most `log2(machines)`, and so any
    two ranks by at most `2 * log2(machines) + 2`. -/
theorem tree_diameter {H : Type} [DecidableEq H] (w : World H) (id : Nat) :
    (∀ q root : Fin w.size, (root : Nat) = rootOf w id →
      ∃ path : (treeGraph w id).Walk q root, path.length ≤ Nat.log 2 (machines w) +
        if leaderOf w q = q then 0 else 1) ∧
    ∀ q p : Fin w.size, ∃ path : (treeGraph w id).Walk q p,
      path.length ≤ 2 * Nat.log 2 (machines w) + 2 := by
  have hroot : ∀ q root : Fin w.size, (root : Nat) = rootOf w id →
      ∃ path : (treeGraph w id).Walk q root, path.length ≤ Nat.log 2 (machines w) +
        if leaderOf w q = q then 0 else 1 := by
    intro q root he
    have honly : ∀ q, (rankForest w id).parent q = none → q = root := fun q hq =>
      Fin.ext ((treeForest_rooted.only q q.2 (rankForest_none.mp hq)).trans he.symm)
    obtain ⟨path, hpath⟩ := Forest.walk_root (fun q : Fin w.size => levelOf w id q) honly
      (fun a b hab => Nat.le_of_eq (levelOf_parent (rankForest_parent.mp hab))) q
    rw [treeGraph_eq]
    exact ⟨path, Nat.le_trans hpath (levelOf_le id q.2)⟩
  refine ⟨hroot, fun q p => ?_⟩
  have hN : 1 ≤ w.size := Nat.lt_of_le_of_lt (Nat.zero_le _) q.2
  have hlt := (rootOf_spec w id hN).1
  obtain ⟨down, hdown⟩ := hroot q ⟨rootOf w id, hlt⟩ rfl
  obtain ⟨up, hup⟩ := hroot p ⟨rootOf w id, hlt⟩ rfl
  refine ⟨down.append up.reverse, ?_⟩
  rw [SimpleGraph.Walk.length_append, SimpleGraph.Walk.length_reverse]
  split at hdown <;> split at hup <;> omega

theorem tree_diameter_three : machines threeMachines = 3 ∧
    (∃ path : (treeGraph threeMachines 1).Walk ⟨4, by decide⟩ ⟨2, by decide⟩, path.length ≤ 2) ∧
    ∃ path : (treeGraph threeMachines 1).Walk ⟨3, by decide⟩ ⟨4, by decide⟩, path.length ≤ 4 := by
  have hroot : ((⟨2, by decide⟩ : Fin threeMachines.size) : Nat) = rootOf threeMachines 1 := by decide
  obtain ⟨up, hup⟩ := (tree_diameter threeMachines 1).1 ⟨4, by decide⟩ ⟨2, by decide⟩ hroot
  obtain ⟨path, hpath⟩ := (tree_diameter threeMachines 1).2 ⟨3, by decide⟩ ⟨4, by decide⟩
  exact ⟨by decide, ⟨up, Nat.le_trans hup (by decide)⟩, path, Nat.le_trans hpath (by decide)⟩

end OriginCCL.TopologyTree
