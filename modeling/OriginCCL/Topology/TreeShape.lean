/-
  File:      OriginCCL/Topology/TreeShape.lean
  Subject:   THE TREES OF A WORLD (`TopologyTree::FillChannels`).

  Every rank works out its own connections from the hostnames of all. Together they are one tree: a
  star in every machine, the leaders in heap order, on odd channels counted from the last machine.

  * `treeForest` -- that tree; `treeForest_rooted` -- **it is one tree of all ranks**.
  * `mem_kidsOf` -- a rank's children are those whose parent it is.
  * `tree_onTree`, `tree_hangs` -- **a tree task sits in its seat of that tree**.
-/
import OriginCCL.Grouping
import OriginCCL.Topology.TreeValues
import OriginCCL.Topology.World

namespace OriginCCL.TopologyTree

open Net Base

/-! ## 1. Machines in heap order -/

section Places

variable {H : Type} [DecidableEq H] (w : World H) (id : Nat)

/-- The number of machines. -/
def machines : Nat := (Machines.machineHosts w.hosts w.size).length

/-- The place of a rank's machine in the tree of a channel. -/
def nodeOf (r : Nat) : Nat := treeNode (w.comm r) id (w.comm r).machineIndex

/-- The first rank of a rank's machine. -/
def leaderOf (r : Nat) : Nat := Machines.leader w.hosts w.size r

/-- The leader at a place of the tree. -/
def leaderAt (n : Nat) : Nat := (nodeLeader (w.comm 0) id n).toNat

variable {w id} {r q n : Nat}

theorem treeNode_lt (id r : Nat) (hn : n < machines w) : treeNode (w.comm r) id n < machines w := by
  have e : (w.comm r).machineCount = machines w := rfl
  unfold treeNode
  rw [e]
  split <;> omega

theorem treeNode_treeNode (hn : n < machines w) :
    treeNode (w.comm r) id (treeNode (w.comm r) id n) = n := by
  have e : (w.comm r).machineCount = machines w := rfl
  unfold treeNode
  rw [e]
  split <;> omega

theorem nodeOf_lt (id : Nat) (hr : r < w.size) : nodeOf w id r < machines w :=
  treeNode_lt id r (Machines.machineIndex_lt w.hosts hr)

/-- The leader at the place of a rank is the leader of its machine. -/
theorem nodeLeader_nodeOf (hr : r < w.size) :
    nodeLeader (w.comm q) id (nodeOf w id r) = leaderOf w r := by
  have e : nodeLeader (w.comm q) id (nodeOf w id r) =
      (Machines.machineLeaders w.hosts w.size).getD
        (treeNode (w.comm r) id (treeNode (w.comm r) id
          (Machines.machineIndex w.hosts w.size r))) 0 := rfl
  rw [e, treeNode_treeNode (Machines.machineIndex_lt w.hosts hr)]
  exact Machines.machineLeaders_get hr

theorem leaderAt_nodeOf (hr : r < w.size) : leaderAt w id (nodeOf w id r) = leaderOf w r := by
  rw [leaderAt, nodeLeader_nodeOf hr]
  rfl

theorem leaderOf_lt (hr : r < w.size) : leaderOf w r < w.size := (Machines.leader_spec w.hosts hr).1

theorem leaderOf_leaderOf (hr : r < w.size) : leaderOf w (leaderOf w r) = leaderOf w r :=
  Machines.leader_leader hr

theorem nodeOf_leaderOf (hr : r < w.size) : nodeOf w id (leaderOf w r) = nodeOf w id r := by
  obtain ⟨hlt, hhost⟩ := Machines.leader_spec w.hosts hr
  have e := (Machines.machineIndex_inj hr hlt).mpr hhost
  change treeNode (w.comm r) id (Machines.machineIndex w.hosts w.size _) =
    treeNode (w.comm r) id (Machines.machineIndex w.hosts w.size _)
  rw [leaderOf, e]

/-- **Every place of the tree has its leader.** -/
theorem leaderAt_spec (id q : Nat) (hn : n < machines w) : leaderAt w id n < w.size ∧
    leaderOf w (leaderAt w id n) = leaderAt w id n ∧ nodeOf w id (leaderAt w id n) = n ∧
    nodeLeader (w.comm q) id n = leaderAt w id n := by
  obtain ⟨r, hr, he⟩ := Machines.exists_machine (treeNode_lt id 0 hn)
  have hnode : nodeOf w id r = n := by
    change treeNode (w.comm r) id (Machines.machineIndex w.hosts w.size r) = n
    rw [he]
    exact treeNode_treeNode hn
  subst hnode
  rw [leaderAt_nodeOf hr]
  exact ⟨leaderOf_lt hr, leaderOf_leaderOf hr, nodeOf_leaderOf hr, nodeLeader_nodeOf hr⟩

end Places

/-! ## 2. The tree -/

section Trees

variable {H : Type} [DecidableEq H] (w : World H) (id : Nat)

/-- The parent of a rank: its leader, or the leader half way down the heap. -/
def parentOf (q : Nat) : Option Nat :=
  if q < w.size then
    if leaderOf w q = q then
      if nodeOf w id q = 0 then none else some (leaderAt w id ((nodeOf w id q - 1) / 2))
    else some (leaderOf w q)
  else none

/-- Leaders lie at their place of the heap, all others below. -/
def depthOf (q : Nat) : Nat := if leaderOf w q = q then nodeOf w id q else machines w

variable {w id} {r q n p : Nat}

/-- A parent is a leader, above its child. -/
theorem parentOf_spec (h : parentOf w id q = some p) :
    q < w.size ∧ p < w.size ∧ leaderOf w p = p ∧ depthOf w id p < depthOf w id q := by
  unfold parentOf at h
  split at h
  · rename_i hq
    split at h
    · rename_i hl
      split at h
      · cases h
      · rename_i hz
        obtain rfl := Option.some.inj h
        have hlt := nodeOf_lt id hq
        obtain ⟨h1, h2, h3, -⟩ := leaderAt_spec id q
          (show (nodeOf w id q - 1) / 2 < machines w by omega)
        refine ⟨hq, h1, h2, ?_⟩
        rw [depthOf, depthOf, if_pos h2, if_pos hl, h3]
        omega
    · rename_i hl
      obtain rfl := Option.some.inj h
      refine ⟨hq, leaderOf_lt hq, leaderOf_leaderOf hq, ?_⟩
      rw [depthOf, depthOf, if_pos (leaderOf_leaderOf hq), if_neg hl, nodeOf_leaderOf hq]
      exact nodeOf_lt id hq
  · cases h

variable (w id)

/-- **The tree of a channel.** -/
def treeForest : Forest Nat where
  parent := parentOf w id
  depth := depthOf w id
  depth_lt _ _ h := (parentOf_spec h).2.2.2

/-- The root: the leader of the first machine, on odd channels of the last. -/
def rootOf : Nat := leaderAt w id 0

variable {w id}

/-- **The ranks are one tree.** -/
theorem treeForest_rooted : Rooted (treeForest w id) w.size (rootOf w id) where
  closed _ _ _ h := (parentOf_spec h).2.1
  only q hq h := by
    have h : parentOf w id q = none := h
    unfold parentOf at h
    rw [if_pos hq] at h
    split at h
    · rename_i hl
      split at h
      · rename_i hz
        rw [rootOf, ← hz, leaderAt_nodeOf hq, hl]
      · cases h
    · cases h

variable (w id)

/-- The children of a rank, in the order of its connections. -/
def kidsOf (r : Nat) : List Nat :=
  if leaderOf w r = r then
    (Machines.localRanks w.hosts w.size r).tail ++
      ([2 * nodeOf w id r + 1, 2 * nodeOf w id r + 2].filter fun n => n < machines w).map
        (leaderAt w id)
  else []

variable {w id}

/-- **A rank's children are those whose parent it is.** -/
theorem mem_kidsOf (hr : r < w.size) : q ∈ kidsOf w id r ↔ parentOf w id q = some r := by
  constructor
  · intro h
    unfold kidsOf at h
    split at h
    · rename_i hl
      rcases List.mem_append.mp h with h | h
      · obtain ⟨hq, hhost, hne⟩ := (Machines.mem_tail_localRanks hr).mp h
        have hlead : leaderOf w q = r := (Machines.leader_congr hhost).trans hl
        have hne : r ≠ q := fun e => hne (e ▸ hl.symm)
        rw [parentOf, if_pos hq, hlead, if_neg hne]
      · obtain ⟨n, hn, rfl⟩ := List.mem_map.mp h
        obtain ⟨hn, hlt⟩ := List.mem_filter.mp hn
        have hlt : n < machines w := by simpa using hlt
        obtain ⟨h1, h2, h3, -⟩ := leaderAt_spec id r hlt
        have hn : n = 2 * nodeOf w id r + 1 ∨ n = 2 * nodeOf w id r + 2 := by simpa using hn
        have hhalf : (n - 1) / 2 = nodeOf w id r := by omega
        rw [parentOf, if_pos h1, if_pos h2, h3, if_neg (by omega), hhalf, leaderAt_nodeOf hr]
        exact congrArg some hl
    · exact absurd h List.not_mem_nil
  · intro h
    obtain ⟨hq, -, hl, -⟩ := parentOf_spec h
    unfold parentOf at h
    rw [if_pos hq] at h
    rw [kidsOf, if_pos hl, List.mem_append]
    split at h
    · rename_i hlq
      split at h
      · cases h
      · rename_i hz
        right
        have h := Option.some.inj h
        have hlt := nodeOf_lt id hq
        obtain ⟨-, -, h3, -⟩ := leaderAt_spec id q
          (show (nodeOf w id q - 1) / 2 < machines w by omega)
        rw [h] at h3
        refine List.mem_map.mpr ⟨nodeOf w id q, ?_, by rw [leaderAt_nodeOf hq, hlq]⟩
        simp only [List.mem_filter, List.mem_cons, List.not_mem_nil, or_false, decide_eq_true_eq]
        omega
    · rename_i hlq
      left
      have h := Option.some.inj h
      have hhost := (Machines.leader_spec w.hosts hq).2
      rw [Machines.mem_tail_localRanks hr]
      change Machines.leader w.hosts w.size q = r at h
      change ¬ Machines.leader w.hosts w.size q = q at hlq
      rw [h] at hhost hlq
      refine ⟨hq, hhost.symm, ?_⟩
      change q ≠ leaderOf w r
      rw [hl]
      exact Ne.symm hlq

theorem kidsOf_nodup (hr : r < w.size) : (kidsOf w id r).Nodup := by
  unfold kidsOf
  split
  · rename_i hl
    have hnode := nodeOf_lt id hr
    have hsort := Machines.localRanks_sorted w.hosts w.size r
    rw [Machines.localRanks_eq hr] at hsort
    rw [List.nodup_append]
    refine ⟨(List.pairwise_cons.mp hsort).2.imp Nat.ne_of_lt, ?_, ?_⟩
    · -- different places have different leaders
      refine List.Nodup.map_on (fun a ha b hb hab => ?_) ?_
      · have ha : a < machines w := by simpa using (List.mem_filter.mp ha).2
        have hb : b < machines w := by simpa using (List.mem_filter.mp hb).2
        have h1 := (leaderAt_spec id r ha).2.2.1
        have h2 := (leaderAt_spec id r hb).2.2.1
        rw [hab] at h1
        exact h1.symm.trans h2
      · refine List.Nodup.filter _ ?_
        simp
    · rintro a ha b hb rfl
      -- the others of a machine are no leaders
      obtain ⟨ha, hhost, hne⟩ := (Machines.mem_tail_localRanks hr).mp ha
      obtain ⟨n, hn, rfl⟩ := List.mem_map.mp hb
      have hn : n < machines w := by simpa using (List.mem_filter.mp hn).2
      have hlead := (leaderAt_spec id r hn).2.1
      exact hne (hlead.symm.trans (Machines.leader_congr hhost))
  · exact List.nodup_nil

variable (w id)

/-- The neighbours of a rank: its children, then its parent. -/
def nbrsOf (r : Nat) : List Nat := kidsOf w id r ++ (parentOf w id r).toList

variable {w id}

theorem mem_nbrsOf (hr : r < w.size) :
    q ∈ nbrsOf w id r ↔ parentOf w id q = some r ∨ parentOf w id r = some q := by
  rw [nbrsOf, List.mem_append, mem_kidsOf hr, Option.mem_toList]

theorem nbrsOf_lt (hr : r < w.size) (h : q ∈ nbrsOf w id r) : q < w.size ∧ q ≠ r := by
  rcases (mem_nbrsOf hr).mp h with h | h
  · obtain ⟨h1, -, -, h4⟩ := parentOf_spec h
    refine ⟨h1, ?_⟩
    rintro rfl
    omega
  · obtain ⟨-, h2, -, h4⟩ := parentOf_spec h
    refine ⟨h2, ?_⟩
    rintro rfl
    omega

theorem nbrsOf_nodup (hr : r < w.size) : (nbrsOf w id r).Nodup := by
  rw [nbrsOf, List.nodup_append]
  refine ⟨kidsOf_nodup hr, ?_, ?_⟩
  · cases parentOf w id r with
    | none => exact List.nodup_nil
    | some p => exact List.pairwise_singleton _ _
  · rintro a ha b hb rfl
    have h1 := (parentOf_spec ((mem_kidsOf hr).mp ha)).2.2.2
    rw [Option.mem_toList] at hb
    have h2 := (parentOf_spec hb).2.2.2
    omega

end Trees

/-! ## 3. Roles -/

section Roles

/-- Roles of children, then at most one of a parent. -/
structure ChildrenFirst (kids : Nat) (roles : List Int) : Prop where
  kids_le : kids ≤ roles.length
  le_kids : roles.length ≤ kids + 1
  child : ∀ i < kids, isInputRole (roles.getD i 0) = true ∧ isUpRole (roles.getD i 0) = false
  parent : kids < roles.length → roles.getD kids 0 = kRoleTreeUp

variable {kids : Nat} {roles : List Int}

theorem ChildrenFirst.input (h : ChildrenFirst kids roles) {i : Nat} (hi : i < roles.length) :
    isInputRole (roles.getD i 0) = decide (i < kids) ∧
      isUpRole (roles.getD i 0) = decide (i = kids) := by
  have hle := h.le_kids
  by_cases hk : i < kids
  · obtain ⟨h1, h2⟩ := h.child i hk
    rw [h1, h2, decide_eq_true hk, decide_eq_false (by omega)]
    exact ⟨rfl, rfl⟩
  · obtain rfl : i = kids := by omega
    rw [h.parent hi, decide_eq_false hk, decide_eq_true rfl]
    exact ⟨by decide, by decide⟩

/-- The first connection to a parent comes after all children. -/
theorem ChildrenFirst.parentEdge (h : ChildrenFirst kids roles) :
    TopologyTree.parentEdge roles = if kids < roles.length then (kids : Int) else -1 := by
  have hget : ∀ i, (hi : i < roles.length) → roles.getD i 0 = roles[i] := fun i hi =>
    List.getD_eq_getElem _ _ hi
  unfold TopologyTree.parentEdge
  by_cases he : kids < roles.length
  · have hfind : roles.findIdx? (· == kRoleTreeUp) = some kids := by
      rw [List.findIdx?_eq_some_iff_getElem]
      refine ⟨he, ?_, fun j hj => ?_⟩
      · rw [← hget _ he, h.parent he]
        rfl
      · have := (h.child j hj).2
        rw [hget j (by omega)] at this
        simpa [isUpRole] using this
    rw [hfind, if_pos he]
  · have hfind : roles.findIdx? (· == kRoleTreeUp) = none := by
      rw [List.findIdx?_eq_none_iff]
      intro x hx
      obtain ⟨j, hj, rfl⟩ := List.getElem_of_mem hx
      have := (h.child j (by omega)).2
      rw [hget j hj] at this
      exact this
    rw [hfind, if_neg he]

theorem childrenFirst_append {A B : List Int} (hA : ∀ x ∈ A, isInputRole x = true ∧ isUpRole x = false)
    (hB : B = [] ∨ B = [kRoleTreeUp]) : ChildrenFirst A.length (A ++ B) := by
  refine ⟨by simp, ?_, fun i hi => ?_, fun he => ?_⟩
  · rcases hB with rfl | rfl <;> simp
  · rw [List.getD_eq_getElem _ _ (by rw [List.length_append]; omega), List.getElem_append_left hi]
    exact hA _ (List.getElem_mem hi)
  · rcases hB with rfl | rfl
    · simp at he
    · simp [List.getD_eq_getElem?_getD]

end Roles

/-! ## 4. The seat of a rank -/

section SeatsOfRanks

variable {H : Type} [DecidableEq H] {w : World H} {id r q : Nat}

theorem localRank_zero (hr : r < w.size) : (w.comm r).localRank = 0 ↔ leaderOf w r = r :=
  Machines.localRank_eq_zero hr

theorem treeChildren_eq (id : Nat) (hr : r < w.size) (hl : leaderOf w r = r) :
    starPeers (w.comm r) ++ treeChildren (w.comm r) id = (kidsOf w id r).map Nat.cast := by
  have h0 := (localRank_zero hr).mpr hl
  rw [starPeers, if_pos h0, kidsOf, if_pos hl, List.map_append, List.map_map]
  congr 1
  refine List.map_congr_left fun n hn => ?_
  have hn : n < (w.comm r).machineCount := by simpa using (List.mem_filter.mp hn).2
  exact (leaderAt_spec id r hn).2.2.2

theorem treeParent_eq (id : Nat) (hr : r < w.size) (hl : leaderOf w r = r) :
    (if treeParent (w.comm r) id ≥ 0 then [treeParent (w.comm r) id] else []) =
      (parentOf w id r).toList.map Nat.cast := by
  have e : treeParent (w.comm r) id =
    if nodeOf w id r = 0 then -1 else nodeLeader (w.comm r) id ((nodeOf w id r - 1) / 2) := rfl
  rw [e, parentOf, if_pos hr, if_pos hl]
  by_cases hz : nodeOf w id r = 0
  · rw [if_pos hz, if_pos hz, if_neg (by decide)]
    rfl
  · have hlt := nodeOf_lt id hr
    have hp := (leaderAt_spec id r (show (nodeOf w id r - 1) / 2 < machines w by omega)).2.2.2
    rw [if_neg hz, if_neg hz, hp, if_pos (Int.natCast_nonneg _)]
    rfl

/-- **The peers of a rank's tree are its neighbours.** -/
theorem peers_treeOf (hr : r < w.size) :
    peers (treeOf (w.comm r) id) = (nbrsOf w id r).map Nat.cast := by
  rw [nbrsOf, List.map_append]
  by_cases hl : leaderOf w r = r
  · rw [treeOf, if_pos ((localRank_zero hr).mpr hl), peers, ← treeChildren_eq id hr hl,
      ← treeParent_eq id hr hl]
  · have h0 := mt (localRank_zero hr).mp hl
    have hkids : kidsOf w id r = [] := if_neg hl
    have hpar : parentOf w id r = some (leaderOf w r) := by rw [parentOf, if_pos hr, if_neg hl]
    rw [treeOf, if_neg h0, peers, starPeers, if_neg h0, hkids, hpar]
    rfl

/-- A leader's roles: the other ranks of its machine, its children, its parent. -/
theorem treeRoles_children (id : Nat) (hr : r < w.size) (hl : leaderOf w r = r) :
    ChildrenFirst (kidsOf w id r).length (treeRoles (w.comm r) (treeOf (w.comm r) id)) ∧
      (treeRoles (w.comm r) (treeOf (w.comm r) id)).length = (nbrsOf w id r).length := by
  have h0 := (localRank_zero hr).mpr hl
  have hkids := congrArg List.length (treeChildren_eq id hr hl)
  have hpar := congrArg List.length (treeParent_eq id hr hl)
  rw [List.length_append, List.length_map] at hkids
  rw [List.length_map] at hpar
  have e : treeRoles (w.comm r) (treeOf (w.comm r) id) =
      (List.replicate (starPeers (w.comm r)).length kRoleStar ++
        List.replicate (treeChildren (w.comm r) id).length kRoleTreeDown) ++
      if treeParent (w.comm r) id ≥ 0 then [kRoleTreeUp] else [] := by
    rw [treeRoles, if_pos h0, treeOf, if_pos h0]
  have hlen : (List.replicate (starPeers (w.comm r)).length kRoleStar ++
      List.replicate (treeChildren (w.comm r) id).length kRoleTreeDown).length =
      (kidsOf w id r).length := by
    rw [List.length_append, List.length_replicate, List.length_replicate, hkids]
  rw [e]
  refine ⟨?_, ?_⟩
  · rw [← hlen]
    refine childrenFirst_append (fun x hx => ?_) ?_
    · rcases List.mem_append.mp hx with hx | hx
      · rw [List.eq_of_mem_replicate hx]
        exact ⟨by decide, by decide⟩
      · rw [List.eq_of_mem_replicate hx]
        exact ⟨by decide, by decide⟩
    · split
      · exact Or.inr rfl
      · exact Or.inl rfl
  · rw [List.length_append, hlen, nbrsOf, List.length_append, ← hpar]
    split <;> rfl

variable (w id r)

/-- **The seat of a rank in the tree of a channel.** -/
def seatOf : Seat where
  isLeader := decide (leaderOf w r = r)
  roles := treeRoles (w.comm r) (treeOf (w.comm r) id)
  kids := (kidsOf w id r).length
  edges := (nbrsOf w id r).length
  out i := channelLink id r ((nbrsOf w id r).getD i 0)
  inn i := channelLink id ((nbrsOf w id r).getD i 0) r

variable {w id r}

theorem nbr_mem {i : Nat} (hi : i < (nbrsOf w id r).length) :
    (nbrsOf w id r).getD i 0 ∈ nbrsOf w id r := by
  rw [List.getD_eq_getElem _ _ hi]
  exact List.getElem_mem hi

theorem nbr_inj (hr : r < w.size) {i j : Nat} (hi : i < (nbrsOf w id r).length)
    (hj : j < (nbrsOf w id r).length)
    (h : (nbrsOf w id r).getD i 0 = (nbrsOf w id r).getD j 0) : i = j := by
  rw [List.getD_eq_getElem _ _ hi, List.getD_eq_getElem _ _ hj] at h
  exact (nbrsOf_nodup hr).getElem_inj_iff.mp h

theorem parentOf_length (w : World H) (id r : Nat) : (parentOf w id r).toList.length ≤ 1 := by
  cases parentOf w id r <;> simp

theorem kid_nbr {i : Nat} (hi : i < (kidsOf w id r).length) :
    (nbrsOf w id r).getD i 0 ∈ kidsOf w id r := by
  have hlt : i < (nbrsOf w id r).length := by rw [nbrsOf, List.length_append]; omega
  rw [List.getD_eq_getElem _ _ hlt]
  simp only [nbrsOf, List.getElem_append_left hi]
  exact List.getElem_mem hi

/-- **The seat is the rank's place in the tree.** -/
theorem tree_hangs (hr : r < w.size) :
    Hangs (seatOf w id r) (treeForest w id) w.size r fun i => (nbrsOf w id r).getD i 0 where
  rank_lt := hr
  nbr_lt i hi := (nbrsOf_lt hr (nbr_mem hi)).1
  inj i hi j hj h := nbr_inj hr hi hj h
  out_link _ _ := ⟨rfl, rfl⟩
  inn_link _ _ := ⟨rfl, rfl⟩
  kid i hi := (mem_kidsOf hr).mp (kid_nbr hi)
  all_kids q hq h := by
    obtain ⟨i, hi, he⟩ := List.getElem_of_mem ((mem_kidsOf hr).mpr h)
    refine ⟨i, hi, ?_⟩
    have hlt : i < (nbrsOf w id r).length := by rw [nbrsOf, List.length_append]; omega
    rw [List.getD_eq_getElem _ _ hlt]
    simp only [nbrsOf, List.getElem_append_left hi, he]
  parent h := by
    have h : (kidsOf w id r).length < (nbrsOf w id r).length := h
    have hlen : (nbrsOf w id r).length =
        (kidsOf w id r).length + (parentOf w id r).toList.length := List.length_append
    cases hp : parentOf w id r with
    | none =>
      rw [hp] at hlen
      simp only [Option.toList_none, List.length_nil, Nat.add_zero] at hlen
      omega
    | some p =>
      change parentOf w id r = _
      rw [hp, seatOf, nbrsOf, hp]
      simp [List.getD_eq_getElem?_getD]
  root h := by
    have h : (nbrsOf w id r).length ≤ (kidsOf w id r).length := h
    have hlen : (nbrsOf w id r).length =
        (kidsOf w id r).length + (parentOf w id r).toList.length := List.length_append
    cases hp : parentOf w id r with
    | none => exact hp
    | some p =>
      rw [hp] at hlen
      simp only [Option.toList_some, List.length_singleton] at hlen
      omega

end SeatsOfRanks

/-! ## 5. The seat of a task -/

section Tasks

variable {H : Type} [DecidableEq H] {w : World H} {id r : Nat} {p : Collective}

/-- Every rank has a neighbour, if there are two ranks. -/
theorem nbrsOf_pos (hN : 2 ≤ w.size) (hr : r < w.size) : 0 < (nbrsOf w id r).length := by
  have hne : nbrsOf w id r ≠ [] := by
    intro hnil
    have hnone : ∀ q, q ∉ nbrsOf w id r := fun q => by rw [hnil]; exact List.not_mem_nil
    have hnopar : parentOf w id r = none := by
      cases hp : parentOf w id r with
      | none => rfl
      | some p => exact absurd ((mem_nbrsOf hr).mpr (Or.inr hp)) (hnone p)
    have hroot : ∀ q ∈ Finset.range w.size, (treeForest w id).parent q = none → q = r := by
      intro q hq hp
      rw [treeForest_rooted.only q (Finset.mem_range.mp hq) hp, treeForest_rooted.only r hr hnopar]
    have hclosed : ∀ q ∈ Finset.range w.size, ∀ p, (treeForest w id).parent q = some p →
        p ∈ Finset.range w.size := fun q _ p hp => Finset.mem_range.mpr (parentOf_spec hp).2.1
    obtain ⟨q, hq, hqr⟩ : ∃ q < w.size, q ≠ r := by
      by_cases h0 : r = 0
      · exact ⟨1, by omega, by omega⟩
      · exact ⟨0, by omega, by omega⟩
    rcases (Forest.below_root hclosed hroot (Finset.mem_range.mpr hq)).cases_child with
      rfl | ⟨c, hc, -⟩
    · exact hqr rfl
    · exact hnone c ((mem_nbrsOf hr).mpr (Or.inl hc))
  exact List.length_pos_of_ne_nil hne

/-- A rank that leads no machine has its leader as its only connection. -/
theorem leaf_seat (id : Nat) (hr : r < w.size) (hl : ¬ leaderOf w r = r) :
    (seatOf w id r).kids = 0 ∧ (seatOf w id r).edges = 1 := by
  have hkids : kidsOf w id r = [] := if_neg hl
  have hpar : parentOf w id r = some (leaderOf w r) := by rw [parentOf, if_pos hr, if_neg hl]
  refine ⟨?_, ?_⟩
  · change (kidsOf w id r).length = 0
    rw [hkids]
    rfl
  · change (nbrsOf w id r).length = 1
    rw [nbrsOf, hkids, hpar]
    rfl

/-- A table filled entry by entry. -/
theorem table_get {α : Type} (f : Nat → List α) {n : Nat} (k : Nat) (hk : k ≤ n) (j : Nat) :
    ((List.range k).foldl (fun table i => table.modify i (· ++ f i))
      (List.replicate n [])).getD j [] = if j < k then f j else [] := by
  induction k with
  | zero =>
    simp only [List.range_zero, List.foldl_nil, Nat.not_lt_zero, if_false]
    by_cases hj : j < n <;> simp [List.getD_eq_getElem?_getD, hj]
  | succ k ih =>
    have ih := ih (by omega)
    have hlen : ∀ m, ((List.range m).foldl (fun table i => table.modify i (· ++ f i))
        (List.replicate n [])).length = n := by
      intro m
      induction m with
      | zero => simp
      | succ m ihm => simp [List.range_succ, ihm]
    rw [List.range_succ, List.foldl_append, List.foldl_cons, List.foldl_nil,
      List.getD_eq_getElem?_getD, List.getElem?_modify]
    rw [List.getD_eq_getElem?_getD] at ih
    by_cases e : k = j
    · subst e
      rw [List.getElem?_eq_getElem (by rw [hlen]; omega)] at ih ⊢
      rw [if_neg (Nat.lt_irrefl k)] at ih
      simp only [Option.getD_some] at ih
      simp [ih]
    · have hlt : (if j < k + 1 then f j else []) = if j < k then f j else [] :=
        if_congr (by omega) rfl rfl
      rw [hlt, ← ih]
      cases ((List.range k).foldl (fun table i => table.modify i (· ++ f i))
        (List.replicate n []))[j]? <;> simp [e]

theorem map_getD_range (l : List Nat) (f : Nat → Link) :
    (List.range l.length).map (fun i => f (l.getD i 0)) = l.map f := by
  refine List.ext_getElem (by simp) fun i h1 h2 => ?_
  rw [List.length_map] at h2
  simp only [List.getElem_map, List.getElem_range]
  rw [List.getD_eq_getElem _ _ h2]

theorem channelRoles_get (r : Nat) (hid : id < w.nChannels) :
    (w.tree r).channelRoles.getD id [] = treeRoles (w.comm r) (treeOf (w.comm r) id) := by
  have e : (w.tree r).channelRoles = (List.range w.nChannels).foldl
      (fun table i => table.modify i (· ++ treeRoles (w.comm r) (treeOf (w.comm r) i)))
      (List.replicate w.nChannels []) := by
    simp only [World.tree, World.shaped, fillChannels, TopologyRing.fillChannels, List.map_map,
      List.foldl_map, List.length_map, List.length_range]
    rfl
  rw [e, table_get (fun i => treeRoles (w.comm r) (treeOf (w.comm r) i)) _ (Nat.le_refl _),
    if_pos hid]

/-- **The roles the code looks up** are those of the seat. -/
theorem rolesOf_task (hid : id < w.nChannels) :
    (w.tree r).rolesOf (p.task w id r) = (seatOf w id r).roles := by
  rw [rolesOf, Collective.task_channelId, Int.toNat_natCast, channelRoles_get r hid]
  rfl

theorem isLeader_task (hr : r < w.size) : (w.tree r).isLeader = (seatOf w id r).isLeader := by
  have e : (w.tree r).isLeader = decide ((w.comm r).localRank = 0) := rfl
  rw [e]
  exact decide_eq_decide.mpr (localRank_zero hr)

/-- **The connections of a channel's tree**, in the order of the neighbours. -/
theorem links_fillTransports (id : Nat) (hr : r < w.size) (task : PlanTask) :
    (fillTransports (initChannels r (w.shapedChannel id r)) task).sendTransports =
        (nbrsOf w id r).map (channelLink id r) ∧
      (fillTransports (initChannels r (w.shapedChannel id r)) task).recvTransports =
        (nbrsOf w id r).map fun q => channelLink id q r := by
  have hpeers : peers (initChannels r (w.shapedChannel id r)).tree =
      (nbrsOf w id r).map Nat.cast := peers_treeOf hr
  have hwant : ∀ q ∈ nbrsOf w id r, ∀ b, ((q : Int), b) ∈ channelPeers (w.shapedChannel id r) := by
    intro q hq b
    have hq : (q : Int) ∈ peers (w.shapedChannel id r).tree := by
      have e : peers (w.shapedChannel id r).tree = (nbrsOf w id r).map Nat.cast := peers_treeOf hr
      rw [e]
      exact List.mem_map_of_mem hq
    refine List.mem_append_right _ (List.mem_flatMap.mpr ⟨q, hq, ?_⟩)
    cases b <;> simp
  constructor
  · change (peers (initChannels r (w.shapedChannel id r)).tree).flatMap _ = _
    rw [hpeers, List.flatMap_map, List.map_eq_flatMap]
    refine List.flatMap_congr fun q hq => ?_
    obtain ⟨h1, h2⟩ := nbrsOf_lt hr hq
    exact transportOf_send h1 h2 (hwant q hq true)
  · change (peers (initChannels r (w.shapedChannel id r)).tree).flatMap _ = _
    rw [hpeers, List.flatMap_map, List.map_eq_flatMap]
    refine List.flatMap_congr fun q hq => ?_
    obtain ⟨h1, h2⟩ := nbrsOf_lt hr hq
    exact transportOf_recv h1 h2 (hwant q hq false)

/-- **A tree task sits in its rank's seat.** -/
theorem tree_onTree (hid : id < w.nChannels) (htree : p.onTree = true) (hN : 2 ≤ w.size)
    (hr : r < w.size) (hchunk : 1 ≤ p.chunkSize) :
    OnTree (p.task w id r) (seatOf w id r) := by
  have htask : p.task w id r =
      fillTransports (initChannels r (w.shapedChannel id r)) (p.plain w id r) := by
    rw [Collective.task, w.channels_get hid]
    simp only [htree, if_true]
  obtain ⟨hsends, hrecvs⟩ := links_fillTransports id hr (p.plain w id r)
  refine ⟨?_, ?_, fun i hi j hj h => ?_, fun i hi j hj h => ?_, nbrsOf_pos hN hr, ?_, ?_, ?_, ?_, ?_,
    ?_, ?_, by rw [Collective.task_chunkSize]; exact hchunk⟩
  · rw [htask, hsends]
    exact (map_getD_range _ _).symm
  · rw [htask, hrecvs]
    exact (map_getD_range _ fun q => channelLink id q r).symm
  · exact nbr_inj hr hi hj (congrArg Link.dst h)
  · exact nbr_inj hr hi hj (congrArg Link.src h)
  · change (kidsOf w id r).length ≤ (nbrsOf w id r).length
    rw [nbrsOf, List.length_append]
    omega
  · have := parentOf_length w id r
    change (nbrsOf w id r).length ≤ (kidsOf w id r).length + 1
    rw [nbrsOf, List.length_append]
    omega
  · by_cases hl : leaderOf w r = r
    · exact (treeRoles_children id hr hl).2
    · have h0 := mt (localRank_zero hr).mp hl
      have e := (leaf_seat id hr hl).2
      change (treeRoles (w.comm r) (treeOf (w.comm r) id)).length = (seatOf w id r).edges
      rw [e, treeRoles, if_neg h0]
      rfl
  · intro hl i hi
    have h := treeRoles_children id hr (of_decide_eq_true hl)
    have hi : i < (nbrsOf w id r).length := hi
    exact (h.1.input (by rw [h.2]; exact hi)).1
  · intro hl i hi
    have h := treeRoles_children id hr (of_decide_eq_true hl)
    have hi : i < (nbrsOf w id r).length := hi
    exact (h.1.input (by rw [h.2]; exact hi)).2
  · intro hl
    have h := treeRoles_children id hr (of_decide_eq_true hl)
    have e := h.1.parentEdge
    rw [h.2] at e
    exact e
  · intro hl
    exact leaf_seat id hr (of_decide_eq_false hl)

end Tasks

end OriginCCL.TopologyTree
