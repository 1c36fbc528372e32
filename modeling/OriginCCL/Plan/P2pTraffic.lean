/-
  File:      OriginCCL/Plan/P2pTraffic.lean
  Subject:   THE BYTES OF P2P BATCHES, and that every run of them can be finished.

  * `Valid.tasks_length` -- the two queues of a rank hold its batch, every task once.
  * `p2p_complete` -- **from every state of every run matched batches can be finished**, over
    connections of any capacity, and a run does at most their tasks and their bytes.
-/
import Mathlib.Algebra.BigOperators.Group.Finset.Sigma
import Mathlib.Algebra.BigOperators.Ring.Finset
import OriginCCL.Net.Completion
import OriginCCL.Plan.P2pRuns

namespace OriginCCL

open Net Base Planner

namespace P2pBatches

variable {B : P2pBatches} {net : Nat → Int → RoundOutcome} {m₀ : Nat × Side → Mem}

/-! ## 1. The work of the queues -/

/-- The queues of the ranks. -/
def ends (B : P2pBatches) : Finset (Nat × Side) := Finset.range B.size ×ˢ {.out, .inn}

/-- The connections between the ranks. -/
def connections (B : P2pBatches) : Finset Link :=
  (Finset.range B.size ×ˢ Finset.range B.size).image fun x => ⟨.p2p, x.1, x.2⟩

theorem mem_ends {v : Nat × Side} (hv : v.1 < B.size) : v ∈ B.ends := by
  obtain ⟨r, sd⟩ := v
  refine Finset.mem_product.mpr ⟨Finset.mem_range.mpr hv, ?_⟩
  cases sd with
  | out => exact Finset.mem_insert_self ..
  | inn => exact Finset.mem_insert_of_mem (Finset.mem_singleton.mpr rfl)

theorem mem_connections {l : Link} (hkind : l.kind = .p2p) (hs : l.src < B.size)
    (hd : l.dst < B.size) : l ∈ B.connections := by
  refine Finset.mem_image.mpr ⟨(l.src, l.dst), ?_, ?_⟩
  · exact Finset.mem_product.mpr ⟨Finset.mem_range.mpr hs, Finset.mem_range.mpr hd⟩
  · rw [← hkind]

/-- The queues move bytes on the connections between the ranks only. -/
theorem Valid.terms_within (hB : B.Valid) {l : Link} (hl : l ∉ B.connections) (v : Nat × Side)
    (k : Nat) (sd : Side) : (B.terms m₀ v k).upto sd l = 0 := by
  by_contra hne
  obtain ⟨-, t, hk, -, rfl, -⟩ := terms_left (Nat.pos_of_ne_zero hne)
  have hitem : t ∈ B.items v.2 (linkOf v t) := by
    rw [items, endOf_linkOf]
    exact List.mem_filter.mpr ⟨List.mem_of_getElem? hk, decide_eq_true rfl⟩
  obtain ⟨hkind, hs, hd⟩ := hB.mem_items hitem
  exact hl (mem_connections hkind hs hd)

/-- **The queues have all the tasks and the connections carry all the bytes.** -/
theorem Valid.covers (hB : B.Valid) (net : Nat → Int → RoundOutcome) (m₀ : Nat × Side → Mem) :
    Covers p2pSystem (B.tasks net) (B.terms m₀) B.ends B.connections where
  nodes _ hout := if_neg fun h => hout (mem_ends h)
  sent _ hl := base_none (fun k => hB.terms_within hl _ k _) _
  received _ hl := base_none (fun k => hB.terms_within hl _ k _) _

/-- **The two queues of a rank hold its batch**, every task once. -/
theorem Valid.tasks_length (hB : B.Valid) (net : Nat → Int → RoundOutcome) {r : Nat} (hr : r < B.size) :
    (B.tasks net (r, .out)).length + (B.tasks net (r, .inn)).length = (B.batch r).length := by
  rw [hB.tasks_eq, hB.tasks_eq, List.length_map, List.length_map, (hB.queueOf hr .out).perm.length_eq,
    (hB.queueOf hr .inn).perm.length_eq, (B.batch r).length_eq_length_filter_add fun t => t.func == .send]
  congr 2
  refine List.filter_congr fun t ht => ?_
  have hp2p := hB.p2p r hr t ht
  rw [isP2p, Bool.or_eq_true, beq_iff_eq, beq_iff_eq] at hp2p
  rcases hp2p with h | h
  · rw [h]
    rfl
  · rw [h]
    rfl

/-- The bytes that one rank sends to another. -/
def bytesBetween (B : P2pBatches) (a b : Nat) : Nat := ((B.between .send a b).map bytesOf).sum

/-- **The work of matched batches**: their tasks, and every byte sent and received. -/
theorem Valid.allWork_eq (hB : B.Valid) {K : Contracts p2pSystem (B.tasks net) (B.terms m₀) (B.Left m₀)}
    (St : Stamps K (fun l _ => B.roundOf l) fun l => ((B.items .out l).map bytesOf).sum) :
    allWork p2pSystem (B.tasks net) (B.terms m₀) B.ends B.connections =
      ∑ r ∈ Finset.range B.size, (B.batch r).length +
        2 * ∑ a ∈ Finset.range B.size, ∑ b ∈ Finset.range B.size, B.bytesBetween a b := by
  have hnodes : ∑ v ∈ B.ends, (B.tasks net v).length =
      ∑ r ∈ Finset.range B.size, (B.batch r).length := by
    rw [ends, Finset.sum_product]
    refine Finset.sum_congr rfl fun r hr => ?_
    rw [Finset.sum_pair (by decide)]
    exact hB.tasks_length net (Finset.mem_range.mp hr)
  have hinj : Set.InjOn (fun x : Nat × Nat => (⟨.p2p, x.1, x.2⟩ : Link))
      (Finset.range B.size ×ˢ Finset.range B.size : Finset (Nat × Nat)) := by
    intro x _ y _ h
    simp only [Link.mk.injEq, true_and] at h
    exact Prod.ext h.1 h.2
  rw [allWork, hnodes]
  refine congrArg _ ?_
  rw [connections, Finset.sum_image hinj, Finset.sum_product, Finset.mul_sum]
  refine Finset.sum_congr rfl fun a ha => ?_
  rw [Finset.mul_sum]
  refine Finset.sum_congr rfl fun b _ => ?_
  rw [St.out_total, St.inn_total, ← Nat.two_mul,
    hB.items_eq .out ⟨.p2p, a, b⟩ rfl (Finset.mem_range.mp ha)]
  rfl

/-! ## 2. Completion -/

section Completion

variable {m₀ : Nat → Mem}

/-- **Every Recv has left the bytes of its Send** in its buffer. -/
def Delivered (B : P2pBatches) (m₀ : Nat → Mem)
    (c : Shared (Nat × Side) Nat Link UInt8 RankState CollOpState Mem) : Prop :=
  ∀ a < B.size, ∀ b < B.size, ∀ (i : Nat) (t t' : CollTask), (B.between .send a b)[i]? = some t →
    (B.between .recv b a)[i]? = some t' →
    ∃ k : Nat, (B.calls (b, .inn))[k]? = some t' ∧ ∃ m : Mem, (c.thread (b, .inn)).past[k]? = some m ∧
      ∀ j < bytesOf t, m (t'.recvBuf + j) = m₀ a (t.sendBuf + j)

/-- **Matched P2P batches can be finished from every state of every run**, the two queues of a rank over
    its one memory and the connections of any capacity, with every Recv ending with the bytes of its Send.
    The work of a run is bounded, and is the whole work once all queues are finished: every task is done
    once, and every byte of a Send leaves its rank once and arrives once. -/
theorem p2p_complete (hB : B.Valid) (hapart : B.Apart) (net : Nat → Int → RoundOutcome)
    {cap : Link → Nat} (hcap : ∀ l, 0 < cap l)
    {ls : List (Label (Nat × Side) Link UInt8 CollEvent)}
    {c : Shared (Nat × Side) Nat Link UInt8 RankState CollOpState Mem}
    (hrun : Shared.Run p2pThreads (Flow.full cap) (B.tasks net) (.start m₀) ls c) :
    (∃ ls' c', Shared.Run p2pThreads (Flow.full cap) (B.tasks net) c ls' c' ∧
      (∀ r < B.size, ∀ sd, (c'.thread (r, sd)).finished = (B.calls (r, sd)).length) ∧
      B.Delivered m₀ c') ∧
    work ls ≤ ∑ r ∈ Finset.range B.size, (B.batch r).length +
      2 * ∑ a ∈ Finset.range B.size, ∑ b ∈ Finset.range B.size, B.bytesBetween a b ∧
    ((∀ v, (c.thread v).finished = (B.tasks net v).length) →
      work ls = ∑ r ∈ Finset.range B.size, (B.batch r).length +
        2 * ∑ a ∈ Finset.range B.size, ∑ b ∈ Finset.range B.size, B.bytesBetween a b) := by
  obtain ⟨p, hown, hview⟩ := hB.own_run hapart hrun
  obtain ⟨K, hpaced⟩ := hB.contracts B.roundOf net fun v => m₀ v.1
  have St := hB.stamps hpaced
  have hcov := hB.covers net fun v => m₀ v.1
  have hfit := terms_fit B fun v => m₀ v.1
  have h0 := B.left_start fun v => m₀ v.1
  obtain ⟨ls', p', hown', hfin⟩ := hown.completes hfit sideEvent_surjective h0 St hcap hcov
  obtain ⟨c', hrun', hview'⟩ := hview.back_run (hB.tame hapart net) hown'
  have hcalls : ∀ v, (p'.node v).finished = (B.calls v).length := fun v => by
    rw [hfin, hB.tasks_eq, List.length_map]
  refine ⟨⟨ls', c', hrun', fun r _ sd => ?_, fun a ha b hb i t t' hsend hrecv => ?_⟩, ?_⟩
  · rw [hview'.finished]
    exact hcalls (r, sd)
  · obtain ⟨k, hk, -, hdone⟩ := hB.received (hown.trans hown') ha hb hsend hrecv
    obtain ⟨m, hm, hbytes, -⟩ :=
      hdone (by rw [hcalls]; exact (List.getElem?_eq_some_iff.mp hk).1)
    exact ⟨k, hk, m, by rw [past_eq hview']; exact hm, hbytes⟩
  · have hwork := hown.work_eq hfit sideEvent_surjective h0 K hcov
    rw [hB.allWork_eq St] at hwork
    simpa only [hview.finished] using hwork

/-- The circle after five turns. -/
theorem p2p_complete_circle : ∃ ls c, Shared.Run p2pThreads (Flow.full fun _ => 3)
      (circle.tasks fun _ _ => ⟨[], [], true⟩) (.start circleMem) ls c ∧
    (∀ v, (c.thread v).finished = ((circleAt 5).node v).finished) ∧
    ∃ ls' c', Shared.Run p2pThreads (Flow.full fun _ => 3)
        (circle.tasks fun _ _ => ⟨[], [], true⟩) c ls' c' ∧
      (∀ r < circle.size, ∀ sd, (c'.thread (r, sd)).finished = (circle.calls (r, sd)).length) ∧
      circle.Delivered circleMem c' := by
  obtain ⟨ls, c, hrun, hnode⟩ := circle_run (fun _ _ => ⟨[], [], true⟩) 5
  have hcomplete := p2p_complete circle_valid circle_apart (fun _ _ => ⟨[], [], true⟩)
    (fun _ => Nat.succ_pos 2) hrun
  exact ⟨ls, c, hrun, hnode, hcomplete.1⟩

end Completion

end P2pBatches

end OriginCCL
