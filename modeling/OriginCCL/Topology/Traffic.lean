/-
  File:      OriginCCL/Topology/Traffic.lean
  Subject:   THE BYTES OF A LIST OF OPERATIONS, and that every run of it can be finished.

  * `Collective.traffic` -- the bytes of an operation on all connections of its channel; `traffic_eq` --
    what they are for each operation, the same for AllReduce on the ring and on the tree;
    `operation_moved` -- **every run that finishes an operation has moved just these**.
  * `lists_work` -- what a run of a list does never exceeds its tasks and their bytes, sent and received
    once each; a finished run has done just this.
  * `lists_complete` -- **from every state of every run a list can be finished**, over connections of any
    capacity.
-/
import Mathlib.Algebra.BigOperators.Group.Finset.Sigma
import OriginCCL.Base.Sums
import OriginCCL.Net.Completion
import OriginCCL.Topology.TaskListResults
import OriginCCL.Topology.Trees

namespace OriginCCL

open Net Base

/-! ## 1. The connections of a channel -/

section Lists

variable {H : Type} [DecidableEq H] {w : World H} {id : Nat} {ps : List Collective}

/-- The connections of a channel between the ranks of a world. -/
def World.connections (w : World H) (id : Nat) : Finset Link :=
  (Finset.range w.size ×ˢ Finset.range w.size).image fun x => channelLink id x.1 x.2

omit [DecidableEq H] in
theorem mem_connections {l : Link} (hkind : l.kind = .channel id) (hs : l.src < w.size)
    (hd : l.dst < w.size) : l ∈ w.connections id := by
  refine Finset.mem_image.mpr ⟨(l.src, l.dst), ?_, ?_⟩
  · exact Finset.mem_product.mpr ⟨Finset.mem_range.mpr hs, Finset.mem_range.mpr hd⟩
  · rw [channelLink, ← hkind]

omit [DecidableEq H] in
theorem connections_lt {l : Link} (hl : l ∈ w.connections id) : l.src < w.size ∧ l.dst < w.size := by
  obtain ⟨⟨a, b⟩, hx, rfl⟩ := Finset.mem_image.mp hl
  obtain ⟨ha, hb⟩ := Finset.mem_product.mp hx
  exact ⟨Finset.mem_range.mp ha, Finset.mem_range.mp hb⟩

namespace Collective

/-- **The bytes of an operation** on all connections. -/
def traffic (p : Collective) (w : World H) (id : Nat) : Nat :=
  ∑ l ∈ w.connections id, p.bytesOn w id l

/-- An operation uses the connections of its channel only. -/
theorem terms_kind {p : Collective} {r : Nat} {sd : Side} {l : Link}
    (h : (p.terms w id r).owns sd l) : l.kind = .channel id := by
  unfold terms at h
  split at h
  case isTrue => exact h.elim
  case isFalse =>
    split at h
    case isTrue =>
      cases sd with
      | out =>
        obtain ⟨i, -, rfl⟩ := h
        rfl
      | inn =>
        obtain ⟨i, -, rfl⟩ := h
        rfl
    case isFalse =>
      cases sd with
      | out =>
        obtain rfl : l = _ := h
        rfl
      | inn =>
        obtain rfl : l = _ := h
        rfl

/-- **A list moves bytes between its ranks only, on the connections of its channel.** -/
theorem list_within (hN : 1 ≤ w.size) (hv : ∀ p ∈ ps, p.Valid w.size) {v k : Nat} {sd : Side}
    {l : Link} (hl : l ∉ w.connections id) :
    (together w.size ps (fun p => p.terms w id) v k).upto sd l = 0 := by
  refine (list_shares id hN hv).stray v k sd l fun ho => hl ?_
  rcases together_cases w.size ps (fun p => p.terms w id) v k with ⟨p, hr, hp, e⟩ | ⟨-, e⟩
  · rw [e] at ho
    have hjoined : Joined w.size (p.terms w id) := terms_joined hN (hv p (List.mem_of_getElem? hp))
    cases sd with
    | out =>
      obtain ⟨rfl, hd⟩ := hjoined.out_src v hr l ho
      exact mem_connections (terms_kind ho) hr hd
    | inn =>
      obtain ⟨rfl, hs⟩ := hjoined.inn_dst v hr l ho
      exact mem_connections (terms_kind ho) hs hr
  · rw [e] at ho
    exact ho.elim

/-- The bytes of a list on a connection. -/
theorem base_list {l : Link} (hs : l.src < w.size) :
    base (together w.size ps fun p => p.terms w id) l.src ps.length .out l =
      (ps.map fun p => p.bytesOn w id l).sum := by
  have hterm : ∀ k < ps.length,
      (together w.size ps (fun p => p.terms w id) l.src k).upto .out l =
        (ps.map fun p => p.bytesOn w id l).getD k 0 := by
    intro k hk
    have hp := List.getElem?_eq_getElem hk
    rw [together_some hs hp, List.getD_eq_getElem?_getD, List.getElem?_map, hp]
    rfl
  have hlen : ps.length = (ps.map fun p => p.bytesOn w id l).length := (List.length_map _).symm
  rw [base, off_congr hterm, hlen, off_getD]

/-- **The ranks have all the tasks and the connections carry all the bytes.** -/
theorem list_covers (id : Nat) (hN : 1 ≤ w.size) (hv : ∀ p ∈ ps, p.Valid w.size) :
    Covers channelSystem (w.tasks id ps) (together w.size ps fun p => p.terms w id)
      (Finset.range w.size) (w.connections id) where
  nodes _ hout := if_neg fun h => hout (Finset.mem_range.mpr h)
  sent _ hl := base_none (fun _ => list_within hN hv hl) _
  received _ hl := base_none (fun _ => list_within hN hv hl) _

/-- **The work of a list**: its tasks, and every byte sent and received. -/
theorem list_allWork (id : Nat) (hN : 1 ≤ w.size) (hv : ∀ p ∈ ps, p.Valid w.size) :
    allWork channelSystem (w.tasks id ps) (together w.size ps fun p => p.terms w id)
        (Finset.range w.size) (w.connections id) =
      w.size * ps.length + 2 * (ps.map fun p => p.traffic w id).sum := by
  have hnodes : ∑ v ∈ Finset.range w.size, (w.tasks id ps v).length = w.size * ps.length := by
    rw [Finset.sum_const_nat fun v hr => tasks_length (Finset.mem_range.mp hr), Finset.card_range]
  have hlinks : ∀ l ∈ w.connections id,
      base (together w.size ps fun p => p.terms w id) l.src (w.tasks id ps l.src).length .out l +
        base (together w.size ps fun p => p.terms w id) l.dst (w.tasks id ps l.dst).length .inn l =
      2 * (ps.map fun p => p.bytesOn w id l).sum := by
    intro l hl
    obtain ⟨hs, hd⟩ := connections_lt hl
    have heq := (list_shares id hN hv).aligned.base_eq l ps.length
    change base _ l.src _ _ l = base _ l.dst _ _ l at heq
    rw [tasks_length hs, tasks_length hd, ← heq, base_list hs, Nat.two_mul]
  have hswap : ∑ l ∈ w.connections id, (ps.map fun p => p.bytesOn w id l).sum =
      (ps.map fun p => p.traffic w id).sum := by
    clear hv hlinks hnodes
    induction ps with
    | nil => exact Finset.sum_const_zero
    | cons p ps ih =>
      simp only [List.map_cons, List.sum_cons]
      rw [Finset.sum_add_distrib, ih]
      rfl
  rw [allWork, hnodes, ← hswap, Finset.mul_sum]
  exact congrArg _ (Finset.sum_congr rfl hlinks)

end Collective

open Collective

/-! ## 2. Completion -/

variable {m₀ : Nat → Mem} {ls : List (Label Nat Link UInt8 CollEvent)}
  {c : Config Nat Link UInt8 RankState Mem}

/-- **A run of a list does at most the work of its tasks**, however the bytes are split. -/
theorem lists_work (hid : id < w.nChannels) (hN : 1 ≤ w.size) (hv : ∀ p ∈ ps, p.Valid w.size)
    {F : Flow Link} (hrun : Run channelSystem F (w.tasks id ps) (.start m₀) ls c) :
    work ls ≤ w.size * ps.length + 2 * (ps.map fun p => p.traffic w id).sum ∧
      ((∀ r < w.size, (c.node r).finished = ps.length) →
        work ls = w.size * ps.length + 2 * (ps.map fun p => p.traffic w id).sum) := by
  obtain ⟨K, -⟩ := list_contracts hid hv
  have h0 : ∀ _ : Nat, True := fun _ => trivial
  obtain ⟨hle, heq⟩ := hrun.work_eq (list_shares id hN hv).fits sideEvent_surjective h0 K
    (list_covers id hN hv)
  rw [list_allWork id hN hv] at hle heq
  refine ⟨hle, fun hfin => heq fun r => ?_⟩
  by_cases hr : r < w.size
  · rw [tasks_length hr]
    exact hfin r hr
  · obtain ⟨g, hg⟩ := hrun.consistent (K := K) (list_shares id hN hv).fits sideEvent_surjective h0
    have hend := hg.finished_le r
    have hnil : w.tasks id ps r = [] := if_neg hr
    rw [hnil] at hend ⊢
    exact Nat.le_zero.mp hend

/-- **From every state of a run all ranks can finish the list.** -/
theorem list_completes (hid : id < w.nChannels) (hN : 1 ≤ w.size) (hv : ∀ p ∈ ps, p.Valid w.size)
    {cap : Link → Nat} (hcap : ∀ l, 0 < cap l)
    (hrun : Run channelSystem (Flow.full cap) (w.tasks id ps) (.start m₀) ls c) :
    ∃ ls' c', Run channelSystem (Flow.full cap) (w.tasks id ps) c ls' c' ∧
      ∀ r < w.size, (c'.node r).finished = ps.length := by
  have hshares := list_shares id hN hv
  obtain ⟨K, hpaced⟩ := list_contracts hid hv
  have h0 : ∀ _ : Nat, True := fun _ => trivial
  obtain ⟨ls', c', hr, hfin⟩ := hrun.completes hshares.fits sideEvent_surjective h0
    (hshares.stamps list_length_le list_over (fun k l j j' hle _ => listStamp_mono w id ps k l hle)
      hpaced) hcap (list_covers id hN hv)
  refine ⟨ls', c', hr, fun r hr => ?_⟩
  rw [hfin r, tasks_length hr]

/-- **From every state of every run a list can be finished**, over connections of any capacity, if an
    `int` counts its chunks; and the work of a run is bounded: it moves every byte of its operations at
    most once out of a rank and once into one, and just once when all tasks are finished. -/
theorem lists_complete (hid : id < w.nChannels) (hN : 1 ≤ w.size) (hv : ∀ p ∈ ps, p.Valid w.size)
    (hf : ∀ p ∈ ps, p.FitsInt w.size) {cap : Link → Nat} (hcap : ∀ l, 0 < cap l)
    (hrun : Run intSystem (Flow.full cap) (w.tasks id ps) (.start m₀) ls c) :
    (∃ ls' c', Run intSystem (Flow.full cap) (w.tasks id ps) c ls' c' ∧
      ∀ r < w.size, (c'.node r).finished = ps.length) ∧
    work ls ≤ w.size * ps.length + 2 * (ps.map fun p => p.traffic w id).sum ∧
    ((∀ r < w.size, (c.node r).finished = ps.length) →
      work ls = w.size * ps.length + 2 * (ps.map fun p => p.traffic w id).sum) := by
  have hsame := (lists_same hv hf).mp hrun
  refine ⟨?_, lists_work hid hN hv hsame⟩
  obtain ⟨ls', c', hrun', hfin⟩ := list_completes hid hN hv hcap hsame
  exact ⟨ls', c', (lists_same_from hv hf hrun).mpr hrun', hfin⟩

/-! ## 3. The bytes of each operation -/

namespace Collective

variable {p : Collective}

/-- The chunks of a buffer. -/
theorem off_chunks (count chunkSize n : Nat) :
    off (fun c => TopologyRing.chunkElemCount count chunkSize (c : Nat)) n =
      min count (n * chunkSize) := by
  induction n with
  | zero => rw [Nat.zero_mul, Nat.min_zero, off_zero]
  | succ n ih =>
    rw [off_succ, ih, Nat.succ_mul]
    simp only [TopologyRing.chunkElemCount, Int.toNat_natCast]
    split <;> omega

/-- The bytes of a chunk, and of the chunks of a unit. -/
def chunkBytes (p : Collective) (c : Nat) : Nat :=
  TopologyRing.chunkElemCount p.elemCount p.chunkSize (c : Nat) * getDataTypeSize p.dtype

def unitBytes (p : Collective) (N u : Nat) : Nat :=
  ∑ c ∈ Finset.range N, p.chunkBytes (u * N + c)

end Collective

end Lists

/-! ## 4. Three ranks -/

theorem lists_complete_split : ∃ ls' c', Run intSystem (Flow.full fun _ => 3)
      (TopologyTree.splitWorld.tasks 1 ringThenTree) ringThenTreeBegun ls' c' ∧
    ∀ r < TopologyTree.splitWorld.size, (c'.node r).finished = ringThenTree.length := by
  obtain ⟨ls, hrun⟩ := Config.follow_run channelSystem (fun _ => 3)
    (TopologyTree.splitWorld.tasks 1 ringThenTree) (.start TopologyTree.splitMem) _
  exact (lists_complete (c := ringThenTreeBegun) (by decide) (by decide) ringThenTree_valid
    ringThenTree_fits (fun _ => Nat.succ_pos 2)
    ((lists_same ringThenTree_valid ringThenTree_fits).mpr hrun)).1

end OriginCCL
