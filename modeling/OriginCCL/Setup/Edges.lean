/-
  File:      OriginCCL/Setup/Edges.lean
  Subject:   THE EDGES A RANK CONNECTS (`Communicator::InitChannels`, `src/communicator.cpp`).

  Every rank collects the edges its ring and its trees want, once each, and divides them: it connects
  to the ranks above it and waits for those below.

  * `channelEdges` -- the edges of a channel, sorted and without repetition.
  * `mem_edges` -- a rank's edges are those to the other ranks its channels want.
  * `edges_back` -- **an edge is one rank's exactly when its other end is the other rank's**.
  * `connect_accept_perm` -- so what one rank connects to another is what that one waits for.
-/
import Mathlib.Data.List.Destutter
import Mathlib.Data.List.Sort
import OriginCCL.Topology.TreeShape

namespace OriginCCL

open Net Base

/-! ## 1. Collecting edges -/

/-- `ChannelEdge`: a connector of a rank. -/
structure ChannelEdge where
  channelId : Int
  peer : Int
  isSend : Bool
deriving DecidableEq

/-- The connector at the other end of an edge of rank `r`. -/
def ChannelEdge.back (e : ChannelEdge) (r : Nat) : ChannelEdge := ⟨e.channelId, r, !e.isSend⟩

@[simp] theorem ChannelEdge.back_back (e : ChannelEdge) {r q : Nat} (h : e.peer = q) :
    (e.back r).back q = e := by
  cases e
  simp only [back, Bool.not_not, ChannelEdge.mk.injEq, true_and, and_true]
  exact h.symm

/-- Edges in the order of their peers, receiving before sending. -/
def edgeLe (a b : Int × Bool) : Prop := a.1 < b.1 ∨ (a.1 = b.1 ∧ a.2 ≤ b.2)

instance : DecidableRel edgeLe := fun a b =>
  inferInstanceAs (Decidable (a.1 < b.1 ∨ (a.1 = b.1 ∧ a.2 ≤ b.2)))

instance : Std.Antisymm edgeLe where
  antisymm a b h1 h2 := by
    unfold edgeLe at h1 h2
    have hfst : a.1 = b.1 := by omega
    have h1 := (h1.resolve_left (by omega)).2
    have h2 := (h2.resolve_left (by omega)).2
    exact Prod.ext hfst (le_antisymm h1 h2)

instance : IsTrans (Int × Bool) edgeLe where
  trans a b c h1 h2 := by
    rcases h1 with h1 | ⟨h1, h1'⟩ <;> rcases h2 with h2 | ⟨h2, h2'⟩
    · exact Or.inl (by omega)
    · exact Or.inl (by omega)
    · exact Or.inl (by omega)
    · exact Or.inr ⟨by omega, le_trans h1' h2'⟩

instance : Std.Total edgeLe where
  total a b := by
    rcases Int.lt_trichotomy a.1 b.1 with h | h | h
    · exact Or.inl (Or.inl h)
    · rcases le_total a.2 b.2 with h2 | h2
      · exact Or.inl (Or.inr ⟨h, h2⟩)
      · exact Or.inr (Or.inr ⟨h.symm, h2⟩)
    · exact Or.inr (Or.inl h)

/-- The wanted edges of a channel, sorted, one of each (`std::sort`, `std::unique`). -/
def sortedPeers (channel : Channel) : List (Int × Bool) :=
  ((channelPeers channel).insertionSort edgeLe).destutter (· ≠ ·)

/-- The edges of a channel to other ranks. -/
def channelEdges (rank worldSize : Nat) (channel : Channel) : List ChannelEdge :=
  ((sortedPeers channel).filter fun (peer : Int × Bool) =>
    ¬ (peer.1 < 0 ∨ (worldSize : Int) ≤ peer.1 ∨ peer.1 = (rank : Int))).map
      fun (peer : Int × Bool) => ChannelEdge.mk channel.id peer.1 peer.2

theorem sortedPeers_eq (channel : Channel) :
    sortedPeers channel = ((channelPeers channel).insertionSort edgeLe).dedup :=
  (List.pairwise_insertionSort edgeLe _).destutter_eq_dedup

theorem mem_channelEdges {rank N : Nat} {channel : Channel} {e : ChannelEdge} :
    e ∈ channelEdges rank N channel ↔ e.channelId = channel.id ∧
      (e.peer, e.isSend) ∈ channelPeers channel ∧ 0 ≤ e.peer ∧ e.peer < N ∧ e.peer ≠ rank := by
  have hmem : ∀ x, x ∈ sortedPeers channel ↔ x ∈ channelPeers channel := by
    intro x
    rw [sortedPeers_eq, List.mem_dedup, List.mem_insertionSort]
  simp only [channelEdges, List.mem_map, List.mem_filter, hmem, decide_eq_true_eq, not_or, not_lt,
    not_le]
  constructor
  · rintro ⟨x, ⟨hx, h1, h2, h3⟩, rfl⟩
    exact ⟨rfl, hx, h1, h2, h3⟩
  · rintro ⟨hid, hx, h1, h2, h3⟩
    exact ⟨_, ⟨hx, h1, h2, h3⟩, by rw [← hid]⟩

theorem channelEdges_nodup (rank N : Nat) (channel : Channel) :
    (channelEdges rank N channel).Nodup := by
  refine List.Nodup.map_on (fun a _ b _ hab => ?_) (List.Nodup.filter _ ?_)
  · simp only [ChannelEdge.mk.injEq, true_and] at hab
    exact Prod.ext hab.1 hab.2
  · rw [sortedPeers_eq]
    exact List.nodup_dedup _

/-! ## 2. The edges of a world -/

section Worlds

variable {H : Type} [DecidableEq H] (w : World H)

namespace World

/-- All edges of a rank, channel by channel. -/
def edges (r : Nat) : List ChannelEdge := (w.shaped r).2.flatMap (channelEdges r w.size)

/-- The edges a rank connects. -/
def connectEdges (r : Nat) : List ChannelEdge := (w.edges r).filter fun e => (r : Int) < e.peer

/-- The edges a rank waits for. -/
def acceptEdges (r : Nat) : List ChannelEdge := (w.edges r).filter fun e => ¬ (r : Int) < e.peer

theorem shaped_eq (r : Nat) : (w.shaped r).2 =
    (List.range w.nChannels).map fun id => w.shapedChannel id r := by
  simp only [shaped, TopologyTree.fillChannels, TopologyRing.fillChannels, List.map_map]
  rfl

variable {w} {id r q : Nat} {b : Bool} {e : ChannelEdge}

theorem mem_edges : e ∈ w.edges r ↔ ∃ id < w.nChannels, ∃ q < w.size, q ≠ r ∧
    e = ⟨id, q, e.isSend⟩ ∧ ((q : Int), e.isSend) ∈ channelPeers (w.shapedChannel id r) := by
  rw [edges, shaped_eq, List.mem_flatMap]
  constructor
  · rintro ⟨channel, hchannel, he⟩
    obtain ⟨id, hid, rfl⟩ := List.mem_map.mp hchannel
    obtain ⟨h1, h2, h3, h4, h5⟩ := mem_channelEdges.mp he
    obtain ⟨channelId, peer, isSend⟩ := e
    obtain ⟨q, rfl⟩ := Int.eq_ofNat_of_zero_le h3
    obtain rfl : channelId = id := h1
    refine ⟨id, List.mem_range.mp hid, q, by simpa using h4, fun h => h5 (by rw [h]), rfl, h2⟩
  · rintro ⟨id, hid, q, hq, hne, he, hmem⟩
    refine ⟨_, List.mem_map.mpr ⟨id, List.mem_range.mpr hid, rfl⟩, mem_channelEdges.mpr ?_⟩
    rw [he]
    refine ⟨rfl, hmem, Int.natCast_nonneg _, ?_, ?_⟩
    · exact Int.ofNat_lt.mpr hq
    · intro h
      exact hne (Int.ofNat_inj.mp h)

theorem edges_nodup (r : Nat) : (w.edges r).Nodup := by
  rw [edges, shaped_eq, List.nodup_flatMap]
  refine ⟨fun channel _ => channelEdges_nodup _ _ _, ?_⟩
  rw [List.pairwise_map]
  refine List.nodup_range.imp fun {a b} hab => ?_
  intro e ha hb
  have ha : e.channelId = a := (mem_channelEdges.mp ha).1
  have hb : e.channelId = b := (mem_channelEdges.mp hb).1
  exact hab (Int.ofNat_inj.mp (ha.symm.trans hb))

/-- The edges the ring and the tree of a channel want. -/
theorem mem_channelPeers (hN : 1 ≤ w.size) (hr : r < w.size) :
    ((q : Int), b) ∈ channelPeers (w.shapedChannel id r) ↔
      (q = if b then (r + 1) % w.size else back w.size r 1) ∨ q ∈ TopologyTree.nbrsOf w id r := by
  have hpeers : TopologyTree.peers (w.shapedChannel id r).tree =
      (TopologyTree.nbrsOf w id r).map Nat.cast := TopologyTree.peers_treeOf hr
  have hring : TopologyRing.fillPeers (w.shapedChannel id r) =
      [((((r + 1) % w.size : Nat) : Int), true), (((back w.size r 1 : Nat) : Int), false)] := by
    rw [← getPrevRank_eq hN r]
    rfl
  rw [channelPeers, hring, TopologyTree.fillPeers, hpeers, List.mem_append, List.mem_flatMap]
  refine or_congr ?_ ?_
  · generalize (r + 1) % w.size = next
    generalize back w.size r 1 = prev
    cases b <;> simp
  · constructor
    · rintro ⟨x, hx, h⟩
      obtain ⟨a, ha, rfl⟩ := List.mem_map.mp hx
      have h : q = a := by cases b <;> simpa using h
      exact h ▸ ha
    · intro h
      refine ⟨q, List.mem_map_of_mem h, ?_⟩
      cases b <;> simp

/-- **An edge is one rank's exactly when its other end is the other rank's.** -/
theorem edges_back {a q : Nat} (ha : a < w.size) (hq : q < w.size) (he : e.peer = q) :
    e ∈ w.edges a ↔ e.back a ∈ w.edges q := by
  have key : ∀ {a q : Nat} {e : ChannelEdge}, a < w.size → q < w.size → e.peer = q →
      e ∈ w.edges a → e.back a ∈ w.edges q := by
    intro a q e ha hq he hmem
    obtain ⟨id, hid, q', hq', hne, hshape, hwant⟩ := mem_edges.mp hmem
    obtain rfl : q' = q := by
      rw [hshape] at he
      exact Int.ofNat_inj.mp he
    refine mem_edges.mpr ⟨id, hid, a, ha, Ne.symm hne, ?_, ?_⟩
    · rw [hshape]
      rfl
    · rw [mem_channelPeers (by omega) ha] at hwant
      rw [ChannelEdge.back, mem_channelPeers (by omega) hq]
      rcases hwant with h | h
      · left
        cases hs : e.isSend with
        | true =>
          rw [hs, if_pos rfl] at h
          rw [h]
          exact (back_of_next ha).symm
        | false =>
          rw [hs, if_neg (by decide)] at h
          rw [h]
          exact (next_of_back ha).symm
      · right
        exact (TopologyTree.mem_nbrsOf hq).mpr ((TopologyTree.mem_nbrsOf ha).mp h).symm
  refine ⟨key ha hq he, fun h => ?_⟩
  have := key hq ha rfl h
  rwa [ChannelEdge.back_back e he] at this

theorem mem_connectEdges : e ∈ w.connectEdges r ↔ e ∈ w.edges r ∧ (r : Int) < e.peer := by
  rw [connectEdges, List.mem_filter, decide_eq_true_eq]

theorem mem_acceptEdges : e ∈ w.acceptEdges r ↔ e ∈ w.edges r ∧ ¬ (r : Int) < e.peer := by
  rw [acceptEdges, List.mem_filter, decide_eq_true_eq]

theorem connectEdges_nodup (r : Nat) : (w.connectEdges r).Nodup := (edges_nodup r).filter _

theorem acceptEdges_nodup (r : Nat) : (w.acceptEdges r).Nodup := (edges_nodup r).filter _

/-- A connected edge leads to a rank above, which waits for its other end. -/
theorem connect_spec (hr : r < w.size) (h : e ∈ w.connectEdges r) :
    ∃ q : Nat, e.peer = q ∧ r < q ∧ q < w.size ∧ e.back r ∈ w.acceptEdges q := by
  obtain ⟨hmem, hlt⟩ := mem_connectEdges.mp h
  obtain ⟨id, -, q, hq, -, hshape, -⟩ := mem_edges.mp hmem
  have he : e.peer = q := by rw [hshape]
  have hrq : r < q := by omega
  refine ⟨q, he, hrq, hq, mem_acceptEdges.mpr ⟨(edges_back hr hq he).mp hmem, ?_⟩⟩
  change ¬ (q : Int) < (r : Int)
  omega

/-- An edge that is waited for is one that a rank below connects. -/
theorem accept_spec (hr : r < w.size) (h : e ∈ w.acceptEdges r) :
    ∃ q : Nat, e.peer = q ∧ q < r ∧ e.back r ∈ w.connectEdges q := by
  obtain ⟨hmem, hlt⟩ := mem_acceptEdges.mp h
  obtain ⟨id, -, q, hq, hne, hshape, -⟩ := mem_edges.mp hmem
  have he : e.peer = q := by rw [hshape]
  have hqr : q < r := by omega
  refine ⟨q, he, hqr, mem_connectEdges.mpr ⟨(edges_back hr hq he).mp hmem, ?_⟩⟩
  change (q : Int) < (r : Int)
  omega

/-- **What a rank connects to another is what that one waits for.** -/
theorem connect_accept_perm {a q : Nat} (ha : a < w.size) (hq : q < w.size) :
    (((w.connectEdges a).filter fun e => e.peer = (q : Int)).map fun e => e.back a).Perm
      ((w.acceptEdges q).filter fun e => e.peer = (a : Int)) := by
  rw [List.perm_ext_iff_of_nodup]
  · intro e
    simp only [List.mem_map, List.mem_filter, decide_eq_true_eq]
    constructor
    · rintro ⟨e', ⟨hc, hp⟩, rfl⟩
      obtain ⟨q', hq', -, -, hback⟩ := connect_spec ha hc
      obtain rfl : q' = q := Int.ofNat_inj.mp (hq'.symm.trans hp)
      exact ⟨hback, rfl⟩
    · rintro ⟨hmem, hp⟩
      obtain ⟨a', ha', -, hback⟩ := accept_spec hq hmem
      obtain rfl : a' = a := Int.ofNat_inj.mp (ha'.symm.trans hp)
      exact ⟨e.back q, ⟨hback, rfl⟩, ChannelEdge.back_back e hp⟩
  · refine List.Nodup.map_on (fun x hx y hy hxy => ?_) ((connectEdges_nodup a).filter _)
    have hx : x.peer = q := by simpa using (List.mem_filter.mp hx).2
    have hy : y.peer = q := by simpa using (List.mem_filter.mp hy).2
    rw [← ChannelEdge.back_back x hx, hxy, ChannelEdge.back_back y hy]
  · exact (acceptEdges_nodup q).filter _

end World

end Worlds

end OriginCCL
