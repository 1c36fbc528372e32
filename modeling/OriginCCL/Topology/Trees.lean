/-
  File:      OriginCCL/Topology/Trees.lean
  Subject:   THE TWO TREES OF A WORLD ARE SPANNING TREES (`TopologyTree::FillChannels`).

  * `treeGraph` -- the ranks and the connections of a channel's tree.
  * `SpanningTree` -- what the ranks' own computations have to agree on, channel by channel.
  * `trees_span` -- **they agree**: on every channel the connections are one tree of all ranks, and
    no machine has children on an even and on an odd channel.
-/
import OriginCCL.Base.ForestGraph
import OriginCCL.Topology.TreeShape

namespace OriginCCL.TopologyTree

open Net Base

section Trees

variable {H : Type} [DecidableEq H] (w : World H) (id : Nat)

/-- The tree of a channel, as rank `r` works it out. -/
def treeAt (r : Nat) : Tree := treeOf (w.comm r) id

/-- The parent of a rank: the leader's in the tree of leaders, for all others their leader. -/
def IsParent (q p : Nat) : Prop :=
  (treeAt w id q).parent = p ∨ ((w.comm q).localRank ≠ 0 ∧ (treeAt w id q).starPeers = [(p : Int)])

/-- A role says what a peer of rank `r` is. -/
def RoleOf (r : Nat) (role peer : Int) : Prop :=
  (role = kRoleStar ∧ peer ∈ (treeAt w id r).starPeers) ∨
    (role = kRoleTreeDown ∧ peer ∈ (treeAt w id r).children) ∨
    (role = kRoleTreeUp ∧ peer = (treeAt w id r).parent)

variable {w id} {r p q : Nat}

/-! ## 1. Stars and children -/

theorem mem_starPeers (hp : p < w.size) (hq : q < w.size) :
    (q : Int) ∈ (treeAt w id p).starPeers ↔
      p ≠ q ∧ (leaderOf w q = p ∨ leaderOf w p = q) := by
  have e : (treeAt w id p).starPeers = starPeers (w.comm p) := by
    unfold treeAt treeOf
    split <;> rfl
  rw [e, starPeers]
  by_cases hl : leaderOf w p = p
  · rw [if_pos ((localRank_zero hp).mpr hl), List.mem_map]
    constructor
    · rintro ⟨a, ha, he⟩
      obtain rfl : a = q := Int.ofNat_inj.mp he
      obtain ⟨-, hhost, hne⟩ := (Machines.mem_tail_localRanks hp).mp ha
      refine ⟨fun h => hne (h ▸ hl.symm), Or.inl ((Machines.leader_congr hhost).trans hl)⟩
    · rintro ⟨hne, h⟩
      have h : leaderOf w q = p := h.resolve_right fun h => hne (hl.symm.trans h)
      have hhost := (Machines.leader_spec w.hosts hq).2
      change Machines.leader w.hosts w.size q = p at h
      rw [h] at hhost
      refine ⟨q, (Machines.mem_tail_localRanks hp).mpr ⟨hq, hhost.symm, ?_⟩, rfl⟩
      change q ≠ leaderOf w p
      rw [hl]
      exact Ne.symm hne
  · rw [if_neg (mt (localRank_zero hp).mp hl), List.mem_singleton]
    have e : ((w.comm p).localRanks.headD 0 : Nat) = leaderOf w p := rfl
    rw [e, Int.ofNat_inj]
    constructor
    · rintro rfl
      exact ⟨Ne.symm hl, Or.inr rfl⟩
    · rintro ⟨hne, h | h⟩
      · -- the leader of another rank leads its own machine
        exact absurd (h ▸ leaderOf_leaderOf hq) hl
      · exact h.symm

/-- Only leaders have parents and children in the tree of leaders. -/
theorem treeAt_leaf (id : Nat) (hr : r < w.size) (hl : ¬ leaderOf w r = r) :
    (treeAt w id r).parent = -1 ∧ (treeAt w id r).children = [] ∧
      (treeAt w id r).starPeers = [(leaderOf w r : Int)] := by
  have h0 := mt (localRank_zero hr).mp hl
  rw [treeAt, treeOf, if_neg h0]
  refine ⟨rfl, rfl, ?_⟩
  rw [starPeers, if_neg h0]
  rfl

theorem treeAt_leader (id : Nat) (hr : r < w.size) (hl : leaderOf w r = r) :
    (treeAt w id r).parent = treeParent (w.comm r) id ∧
      (treeAt w id r).children = treeChildren (w.comm r) id := by
  rw [treeAt, treeOf, if_pos ((localRank_zero hr).mpr hl)]
  exact ⟨rfl, rfl⟩

theorem treeParent_iff (hq : q < w.size) (hl : leaderOf w q = q) (p : Nat) :
    treeParent (w.comm q) id = p ↔ parentOf w id q = some p := by
  have e : treeParent (w.comm q) id =
    if nodeOf w id q = 0 then -1 else nodeLeader (w.comm q) id ((nodeOf w id q - 1) / 2) := rfl
  rw [e, parentOf, if_pos hq, if_pos hl]
  by_cases hz : nodeOf w id q = 0
  · rw [if_pos hz, if_pos hz]
    constructor
    · intro h
      omega
    · intro h
      cases h
  · have hlt := nodeOf_lt id hq
    have hp := (leaderAt_spec id q (show (nodeOf w id q - 1) / 2 < machines w by omega)).2.2.2
    rw [if_neg hz, if_neg hz, hp, Int.ofNat_inj, Option.some.injEq]

/-- **A rank's children are those whose parent it is.** -/
theorem mem_children (hp : p < w.size) (hq : q < w.size) :
    (q : Int) ∈ (treeAt w id p).children ↔ (treeAt w id q).parent = p := by
  have hlast : ∀ r, leaderOf w r = r → leaderOf w p = p → p ≠ r → leaderOf w r ≠ p :=
    fun r hr _ hne h => hne (h.symm.trans hr)
  constructor
  · intro h
    by_cases hl : leaderOf w p = p
    · rw [(treeAt_leader id hp hl).2] at h
      -- the children are leaders of other places
      have hkid : q ∈ kidsOf w id p := by
        have := List.mem_append_right (starPeers (w.comm p)) h
        rw [treeChildren_eq id hp hl] at this
        obtain ⟨a, ha, he⟩ := List.mem_map.mp this
        obtain rfl : a = q := Int.ofNat_inj.mp he
        exact ha
      have hlq : leaderOf w q = q := by
        obtain ⟨n, hn, he⟩ := List.mem_map.mp h
        have hn : n < (w.comm p).machineCount := by simpa using (List.mem_filter.mp hn).2
        obtain ⟨-, h2, -, h4⟩ := leaderAt_spec id p hn
        obtain rfl : leaderAt w id n = q := Int.ofNat_inj.mp (h4.symm.trans he)
        exact h2
      rw [(treeAt_leader id hq hlq).1, treeParent_iff hq hlq]
      exact (mem_kidsOf hp).mp hkid
    · rw [(treeAt_leaf id hp hl).2.1] at h
      exact absurd h List.not_mem_nil
  · intro h
    by_cases hlq : leaderOf w q = q
    · rw [(treeAt_leader id hq hlq).1, treeParent_iff hq hlq] at h
      have hl := (parentOf_spec h).2.2.1
      have hkid := (mem_kidsOf hp).mpr h
      have hmem : (q : Int) ∈ starPeers (w.comm p) ++ treeChildren (w.comm p) id := by
        rw [treeChildren_eq id hp hl]
        exact List.mem_map_of_mem hkid
      rw [(treeAt_leader id hp hl).2]
      refine (List.mem_append.mp hmem).resolve_left fun hstar => ?_
      have e : (treeAt w id p).starPeers = starPeers (w.comm p) := by
        unfold treeAt treeOf
        split <;> rfl
      rw [← e, mem_starPeers hp hq] at hstar
      obtain ⟨hne, h | h⟩ := hstar
      · exact hlast q hlq hl hne h
      · exact hne (hl.symm.trans h)
    · have := (treeAt_leaf id hq hlq).1
      omega

/-! ## 2. One tree of all ranks -/

theorem mem_peers (hr : r < w.size) :
    (q : Int) ∈ peers (treeAt w id r) ↔ q ∈ nbrsOf w id r := by
  have e : peers (treeAt w id r) = (nbrsOf w id r).map Nat.cast := peers_treeOf hr
  rw [e, List.mem_map]
  constructor
  · rintro ⟨a, ha, he⟩
    obtain rfl : a = q := Int.ofNat_inj.mp he
    exact ha
  · intro h
    exact ⟨q, h, rfl⟩

variable (w id)

/-- **The connections of a tree**: a rank and its peers. -/
def treeGraph : SimpleGraph (Fin w.size) where
  Adj p q := ((q : Nat) : Int) ∈ peers (treeAt w id p)
  symm := ⟨fun p q h => by
    rw [mem_peers p.2] at h
    rw [mem_peers q.2]
    exact (mem_nbrsOf q.2).mpr ((mem_nbrsOf p.2).mp h).symm⟩
  loopless := ⟨fun p h => (nbrsOf_lt p.2 ((mem_peers p.2).mp h)).2 rfl⟩

/-- The forest of a channel, on the ranks alone. -/
def rankForest : Forest (Fin w.size) where
  parent q :=
    match h : parentOf w id q with
    | some p => some ⟨p, (parentOf_spec h).2.1⟩
    | none => none
  depth q := depthOf w id q
  depth_lt q p h := by
    split at h
    · rename_i p' hp
      obtain rfl := Option.some.inj h
      exact (parentOf_spec hp).2.2.2
    · cases h

variable {w id}

theorem rankForest_parent {q p : Fin w.size} :
    (rankForest w id).parent q = some p ↔ parentOf w id q = some (p : Nat) := by
  simp only [rankForest]
  split
  · rename_i p' hp
    simp only [hp, Option.some.injEq, Fin.ext_iff]
  · rename_i hp
    rw [hp]
    simp

theorem rankForest_none {q : Fin w.size} :
    (rankForest w id).parent q = none ↔ parentOf w id q = none := by
  simp only [rankForest]
  split
  · rename_i p' hp
    simp [hp]
  · rename_i hp
    simp [hp]

theorem treeGraph_eq : treeGraph w id = (rankForest w id).graph := by
  refine SimpleGraph.ext (funext fun p => funext fun q => propext ?_)
  change ((q : Nat) : Int) ∈ peers (treeAt w id p) ↔ _ ∨ _
  rw [mem_peers p.2, mem_nbrsOf p.2, rankForest_parent, rankForest_parent]
  exact or_comm

/-- The parent of a rank, one step up. -/
theorem isParent_of (h : parentOf w id q = some p) : IsParent w id q p := by
  obtain ⟨hq, -, -, -⟩ := parentOf_spec h
  by_cases hl : leaderOf w q = q
  · left
    rw [(treeAt_leader id hq hl).1]
    exact (treeParent_iff hq hl p).mpr h
  · right
    rw [parentOf, if_pos hq, if_neg hl] at h
    obtain rfl := Option.some.inj h
    exact ⟨mt (localRank_zero hq).mp hl, (treeAt_leaf id hq hl).2.2⟩

/-- The root is a rank that leads a machine and has no parent. -/
theorem rootOf_spec (w : World H) (id : Nat) (hN : 1 ≤ w.size) : rootOf w id < w.size ∧
    leaderOf w (rootOf w id) = rootOf w id ∧ parentOf w id (rootOf w id) = none := by
  have h0 : 0 < machines w := Nat.lt_of_le_of_lt (Nat.zero_le _) (nodeOf_lt (w := w) (r := 0) id hN)
  obtain ⟨h1, h2, h3, -⟩ := leaderAt_spec id 0 h0
  refine ⟨h1, h2, ?_⟩
  change parentOf w id (leaderAt w id 0) = none
  rw [parentOf, if_pos h1, if_pos h2, if_pos h3]

/-- **The connections of a channel's tree are one tree of all ranks.** -/
theorem treeGraph_isTree (hN : 1 ≤ w.size) : (treeGraph w id).IsTree := by
  obtain ⟨hlt, -, hnone⟩ := rootOf_spec w id hN
  rw [treeGraph_eq]
  have honly : ∀ q, (rankForest w id).parent q = none → q = ⟨rootOf w id, hlt⟩ := fun q hq =>
    Fin.ext (treeForest_rooted.only q q.2 (rankForest_none.mp hq))
  exact Forest.graph_isTree honly (rankForest_none.mpr hnone)

/-- **Every rank reaches the root by its parents.** -/
theorem reaches_rootOf (hN : 1 ≤ w.size) (hq : q < w.size) :
    Relation.ReflTransGen (IsParent w id) q (rootOf w id) := by
  have hlt := (rootOf_spec w id hN).1
  have honly : ∀ q, (rankForest w id).parent q = none → q = ⟨rootOf w id, hlt⟩ := fun q hq =>
    Fin.ext (treeForest_rooted.only q q.2 (rankForest_none.mp hq))
  have h := Forest.reaches_root honly ⟨q, hq⟩
  exact h.lift (fun a : Fin w.size => (a : Nat)) fun a b hab =>
    isParent_of (rankForest_parent.mp hab)

/-! ## 3. Roles -/

/-- The roles a rank keeps for a channel, one for every peer. -/
theorem roles_describe (hr : r < w.size) :
    List.Forall₂ (RoleOf w id r) (treeRoles (w.comm r) (treeAt w id r))
      (peers (treeAt w id r)) := by
  have same : ∀ (role : Int) (l : List Int), (∀ x ∈ l, RoleOf w id r role x) →
      List.Forall₂ (RoleOf w id r) (List.replicate l.length role) l := by
    intro role l h
    induction l with
    | nil => exact .nil
    | cons x l ih =>
      exact .cons (h x List.mem_cons_self) (ih fun y hy => h y (List.mem_cons_of_mem _ hy))
  by_cases hl : leaderOf w r = r
  · rw [treeRoles, if_pos ((localRank_zero hr).mpr hl), peers]
    refine List.rel_append (List.rel_append (same _ _ fun x hx => Or.inl ⟨rfl, hx⟩)
      (same _ _ fun x hx => Or.inr (Or.inl ⟨rfl, hx⟩))) ?_
    split
    · exact .cons (Or.inr (Or.inr ⟨rfl, rfl⟩)) .nil
    · exact .nil
  · obtain ⟨h1, h2, h3⟩ := treeAt_leaf id hr hl
    rw [treeRoles, if_neg (mt (localRank_zero hr).mp hl), peers, h1, h2, h3, if_neg (by decide)]
    refine .cons (Or.inl ⟨rfl, ?_⟩) .nil
    rw [h3]
    exact List.mem_cons_self

/-! ## 4. Inner nodes -/

/-- A machine with a child lies in the upper half of the heap. -/
theorem inner_node (hp : p < w.size) (h : (treeAt w id p).children ≠ []) :
    2 * nodeOf w id p + 1 < machines w := by
  by_cases hl : leaderOf w p = p
  · rw [(treeAt_leader id hp hl).2] at h
    by_contra hge
    refine h ?_
    have e : treeChildren (w.comm p) id =
        ([2 * nodeOf w id p + 1, 2 * nodeOf w id p + 2].filter fun n => n < machines w).map
          (nodeLeader (w.comm p) id) := rfl
    rw [e, List.filter_eq_nil_iff.mpr]
    · rfl
    · intro a ha
      have ha : a = 2 * nodeOf w id p + 1 ∨ a = 2 * nodeOf w id p + 2 := by simpa using ha
      rw [decide_eq_true_eq]
      omega
  · exact absurd (treeAt_leaf id hp hl).2.1 h

theorem nodeOf_even (heven : id % 2 = 0) (p : Nat) :
    nodeOf w id p = Machines.machineIndex w.hosts w.size p := by
  have e : mirrored (id : Int) = false := by
    unfold mirrored
    rw [decide_eq_false_iff_not, not_not, Int.tmod_eq_emod_of_nonneg (Int.natCast_nonneg id)]
    omega
  unfold nodeOf treeNode
  rw [e]
  rfl

theorem nodeOf_odd (hodd : id % 2 = 1) (p : Nat) :
    nodeOf w id p = machines w - 1 - Machines.machineIndex w.hosts w.size p := by
  have e : mirrored (id : Int) = true := by
    unfold mirrored
    rw [decide_eq_true_iff, Int.tmod_eq_emod_of_nonneg (Int.natCast_nonneg id)]
    omega
  unfold nodeOf treeNode
  rw [e]
  rfl

/-- **No machine has children on an even and on an odd channel.** -/
theorem inner_apart {id' p' : Nat} (heven : id % 2 = 0) (hodd : id' % 2 = 1) (hp : p < w.size)
    (hp' : p' < w.size) (hhost : w.hosts p = w.hosts p') :
    (treeAt w id p).children = [] ∨ (treeAt w id' p').children = [] := by
  by_contra hne
  rw [not_or] at hne
  have h1 := inner_node hp hne.1
  have h2 := inner_node hp' hne.2
  have hidx := (Machines.machineIndex_inj hp hp').mpr hhost.symm
  have hlt := Machines.machineIndex_lt w.hosts hp
  have e : machines w = (Machines.machineHosts w.hosts w.size).length := rfl
  rw [nodeOf_even heven] at h1
  rw [nodeOf_odd hodd, hidx] at h2
  omega

/-! ## 5. What the ranks agree on -/

variable (w id)

/-- **The ranks agree on one spanning tree of a channel**, each from its own computation. -/
structure SpanningTree : Prop where
  kept : ∀ r, (w.channels r)[id]?.map Channel.tree = some (treeAt w id r)
  ranks : ∀ p < w.size, (peers (treeAt w id p)).Nodup ∧
    ∀ x ∈ peers (treeAt w id p), ∃ q < w.size, x = (q : Int)
  child : ∀ p < w.size, ∀ q < w.size,
    (q : Int) ∈ (treeAt w id p).children ↔ (treeAt w id q).parent = p
  star : ∀ p < w.size, ∀ q < w.size,
    (q : Int) ∈ (treeAt w id p).starPeers ↔ (p : Int) ∈ (treeAt w id q).starPeers
  tree : (treeGraph w id).IsTree
  rooted : ∃ root < w.size, (w.comm root).localRank = 0 ∧ (treeAt w id root).parent = -1 ∧
    ∀ q < w.size, Relation.ReflTransGen (IsParent w id) q root
  two : ∀ p < w.size, (treeAt w id p).children.length ≤ 2
  roles : ∀ p < w.size, List.Forall₂ (RoleOf w id p) ((w.tree p).channelRoles.getD id [])
    (peers (treeAt w id p))
  links : ∀ p < w.size, ∀ channel, (w.channels p)[id]? = some channel → ∀ task,
    (fillTransports channel task).sendTransports.map (fun l => (l.dst : Int)) =
        peers (treeAt w id p) ∧
      (fillTransports channel task).recvTransports.map (fun l => (l.src : Int)) =
        peers (treeAt w id p)

variable {w id}

theorem children_le (r : Nat) : (treeAt w id r).children.length ≤ 2 := by
  unfold treeAt treeOf
  split
  · refine Nat.le_trans (Nat.le_of_eq (List.length_map _)) ?_
    exact List.length_filter_le _ _
  · exact Nat.zero_le 2

/-- **The two trees are spanning trees with disjoint inner nodes**, on every channel. -/
theorem trees_span (w : World H) (hN : 2 ≤ w.size) :
    (∀ id < w.nChannels, SpanningTree w id) ∧
      ∀ id < w.nChannels, ∀ id' < w.nChannels, id % 2 = 0 → id' % 2 = 1 →
        ∀ p < w.size, ∀ p' < w.size, w.hosts p = w.hosts p' →
          (treeAt w id p).children = [] ∨ (treeAt w id' p').children = [] := by
  refine ⟨fun id hid => ?_, fun id _ id' _ heven hodd p hp p' hp' => inner_apart heven hodd hp hp'⟩
  have hpeers : ∀ p < w.size, peers (treeAt w id p) = (nbrsOf w id p).map Nat.cast :=
    fun p hp => peers_treeOf hp
  refine ⟨fun r => ?_, fun p hp => ⟨?_, fun x hx => ?_⟩, fun p hp q hq => mem_children hp hq,
    fun p hp q hq => ?_, treeGraph_isTree (by omega), ⟨rootOf w id, ?_⟩, fun p _ => children_le p,
    fun p hp => ?_, fun p hp channel hchannel task => ?_⟩
  · rw [w.channels_get hid]
    rfl
  · rw [hpeers p hp]
    exact (nbrsOf_nodup hp).map Nat.cast_injective
  · rw [hpeers p hp] at hx
    obtain ⟨q, hq, rfl⟩ := List.mem_map.mp hx
    exact ⟨q, (nbrsOf_lt hp hq).1, rfl⟩
  · rw [mem_starPeers hp hq, mem_starPeers hq hp, ne_comm, or_comm]
  · obtain ⟨h1, h2, h3⟩ := rootOf_spec w id (by omega)
    have hz : nodeOf w id (rootOf w id) = 0 :=
      (leaderAt_spec id 0 (Nat.lt_of_le_of_lt (Nat.zero_le _) (nodeOf_lt id h1))).2.2.1
    refine ⟨h1, (localRank_zero h1).mpr h2, ?_, fun q hq => reaches_rootOf (by omega) hq⟩
    rw [(treeAt_leader id h1 h2).1]
    exact if_pos hz
  · rw [channelRoles_get p hid]
    exact roles_describe hp
  · rw [w.channels_get hid] at hchannel
    obtain rfl := Option.some.inj hchannel
    obtain ⟨hs, hr⟩ := links_fillTransports id hp task
    rw [hs, hr, hpeers p hp, List.map_map, List.map_map]
    exact ⟨rfl, rfl⟩

end Trees

/-- Five ranks on three machines, two channels. -/
def threeMachines : World Nat := ⟨5, fun r => r % 3, 2⟩

theorem trees_span_three : (treeGraph threeMachines 0).IsTree ∧ (treeGraph threeMachines 1).IsTree :=
  have h := (trees_span threeMachines (by decide)).1
  ⟨(h 0 (by decide)).tree, (h 1 (by decide)).tree⟩

end OriginCCL.TopologyTree
