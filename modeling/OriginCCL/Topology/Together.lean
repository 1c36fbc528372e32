/-
  File:      OriginCCL/Topology/Together.lean
  Subject:   THE TASKS OF A WORLD, RUN TOGETHER.

  All ranks run the same operations in the same order. What has to be proved is per operation: the
  terms of the ranks join (`Joined`) and each rank keeps its contract.

  * `together` -- the terms of all ranks over the whole list.
  * `Joined.shares` -- joined terms match task by task.
  * `contracts_together`, `paced_together` -- the contracts of the whole list.
  * `single_post`, `single_moment` -- **one operation under every schedule**: when a rank has
    finished it, and at any moment before.
-/
import OriginCCL.Net.Sequence
import OriginCCL.Topology.World

namespace OriginCCL

open Net Base

/-- **The terms of the ranks in one operation join**: every rank uses only its own ends of links
    between ranks, and both ends of a link agree. -/
structure Joined (N : Nat) (C : Nat → Terms Link UInt8) : Prop where
  out_src : ∀ r < N, ∀ l, (C r).owns .out l → l.src = r ∧ l.dst < N
  inn_dst : ∀ r < N, ∀ l, (C r).owns .inn l → l.dst = r ∧ l.src < N
  stray : ∀ r < N, ∀ sd l, ¬ (C r).owns sd l → (C r).upto sd l = 0
  aligned : ∀ l : Link, l.src < N → l.dst < N → (C l.src).upto .out l = (C l.dst).upto .inn l
  carried : ∀ l : Link, l.src < N → l.dst < N → ∀ j b, j < (C l.dst).upto .inn l →
    (C l.src).byteOk .out l j b → (C l.dst).byteOk .inn l j b

/-- The terms of rank `v` in the `k`-th operation. -/
def together (N : Nat) (ps : List Collective) (C : Collective → Nat → Terms Link UInt8)
    (v k : Nat) : Terms Link UInt8 :=
  if v < N then
    match ps[k]? with
    | some p => C p v
    | none => Terms.none
  else Terms.none

/-- **The terms of a ring operation join** if what every rank sends is what the next one receives. -/
theorem ring_joined {N : Nat} (id : Nat) (total : Nat → Side → Nat)
    (ok : Nat → Side → Nat → UInt8 → Prop) (hN : 2 ≤ N)
    (htotal : ∀ r < N, total r .out = total ((r + 1) % N) .inn)
    (hok : ∀ r < N, ∀ j b, j < total r .out → ok r .out j b → ok ((r + 1) % N) .inn j b) :
    Joined N fun r => TopologyRing.ringTerms (channelLink id r ((r + 1) % N))
      (channelLink id (back N r 1) r) (total r) (ok r) := by
  have hnext : ∀ r, (r + 1) % N < N := fun r => Nat.mod_lt _ (by omega)
  -- a link of the ring is the sending one of its source and the receiving one of its destination
  have hlink : ∀ l : Link, l.src < N → l.dst < N →
      (l = channelLink id l.src ((l.src + 1) % N) ↔ l = channelLink id (back N l.dst 1) l.dst) := by
    rintro ⟨kind, a, b⟩ ha hb
    simp only [channelLink, Link.mk.injEq, true_and, and_true]
    refine and_congr_right fun _ => ⟨?_, ?_⟩
    · rintro rfl
      exact (back_of_next ha).symm
    · rintro rfl
      exact (next_of_back hb).symm
  refine ⟨?_, ?_, ?_, ?_, ?_⟩
  · rintro r - l rfl
    exact ⟨rfl, hnext r⟩
  · rintro r hr l rfl
    exact ⟨rfl, back_lt hr⟩
  · intro r _ sd l ho
    cases sd <;> exact if_neg ho
  · intro l hs hd
    simp only [TopologyRing.ringTerms, hlink l hs hd]
    split
    · rename_i h
      have e := (hlink l hs hd).mpr h
      have e' : l.dst = (l.src + 1) % N := congrArg Link.dst e
      rw [htotal _ hs, ← e']
    · rfl
  · intro l hs hd j b hj hb
    simp only [TopologyRing.ringTerms] at hj hb ⊢
    split at hj
    · rename_i h
      have e := (hlink l hs hd).mpr h
      have e' : l.dst = (l.src + 1) % N := congrArg Link.dst e
      rw [e', ← htotal _ hs] at hj
      rw [e']
      exact hok _ hs j b hj hb
    · exact absurd hj (Nat.not_lt_zero j)

/-- Operations without a transfer join. -/
theorem joined_none (N : Nat) : Joined N fun _ => (Terms.none : Terms Link UInt8) where
  out_src _ _ _ h := h.elim
  inn_dst _ _ _ h := h.elim
  stray _ _ _ _ _ := rfl
  aligned _ _ _ := rfl
  carried _ _ _ _ _ _ _ := trivial

section Lists

variable {N : Nat} {ps : List Collective} {C : Collective → Nat → Terms Link UInt8}

theorem together_some {v k : Nat} {p : Collective} (hv : v < N) (hp : ps[k]? = some p) :
    together N ps C v k = C p v := by
  rw [together, if_pos hv, hp]

theorem together_none {v k : Nat} (h : ¬ (v < N ∧ k < ps.length)) :
    together N ps C v k = Terms.none := by
  unfold together
  split
  · rename_i hv
    rw [List.getElem?_eq_none (by omega)]
  · rfl

/-- Either the rank takes part in the operation, or nothing moves. -/
theorem together_cases (N : Nat) (ps : List Collective) (C : Collective → Nat → Terms Link UInt8)
    (v k : Nat) : (∃ p, v < N ∧ ps[k]? = some p ∧ together N ps C v k = C p v) ∨
      ((v < N → ps[k]? = none) ∧ together N ps C v k = Terms.none) := by
  by_cases hv : v < N
  · cases hp : ps[k]? with
    | none => exact Or.inr ⟨fun _ => rfl, by rw [together, if_pos hv, hp]⟩
    | some p => exact Or.inl ⟨p, hv, rfl, together_some hv hp⟩
  · exact Or.inr ⟨fun h => absurd h hv, by rw [together, if_neg hv]⟩

/-- **Joined terms match task by task.** -/
theorem Joined.shares (h : ∀ p ∈ ps, Joined N (C p)) : Shares channelSystem (together N ps C) where
  out_src v k l ho := by
    rcases together_cases N ps C v k with ⟨p, hv, hp, e⟩ | ⟨-, e⟩
    · rw [e] at ho
      exact ((h p (List.mem_of_getElem? hp)).out_src v hv l ho).1
    · rw [e] at ho
      exact ho.elim
  inn_dst v k l ho := by
    rcases together_cases N ps C v k with ⟨p, hv, hp, e⟩ | ⟨-, e⟩
    · rw [e] at ho
      exact ((h p (List.mem_of_getElem? hp)).inn_dst v hv l ho).1
    · rw [e] at ho
      exact ho.elim
  stray v k sd l ho := by
    rcases together_cases N ps C v k with ⟨p, hv, hp, e⟩ | ⟨-, e⟩
    · rw [e] at ho ⊢
      exact (h p (List.mem_of_getElem? hp)).stray v hv sd l ho
    · rw [e]
      rfl
  aligned l k := by
    change (together N ps C l.src k).upto .out l = (together N ps C l.dst k).upto .inn l
    rcases together_cases N ps C l.src k with ⟨p, hv, hp, e⟩ | ⟨hn, e⟩ <;>
      rcases together_cases N ps C l.dst k with ⟨p', hv', hp', e'⟩ | ⟨hn', e'⟩
    · rw [e, e']
      obtain rfl : p = p' := by rw [hp] at hp'; exact Option.some.inj hp'
      exact (h p (List.mem_of_getElem? hp)).aligned l hv hv'
    · -- the receiver is no rank of the world
      have hdst : ¬ l.dst < N := fun hlt => by rw [hn' hlt] at hp; cases hp
      rw [e, e']
      refine (h p (List.mem_of_getElem? hp)).stray _ hv _ _ fun ho => hdst ?_
      exact ((h p (List.mem_of_getElem? hp)).out_src _ hv l ho).2
    · have hsrc : ¬ l.src < N := fun hlt => by rw [hn hlt] at hp'; cases hp'
      rw [e, e']
      refine ((h p' (List.mem_of_getElem? hp')).stray _ hv' _ _ fun ho => hsrc ?_).symm
      exact ((h p' (List.mem_of_getElem? hp')).inn_dst _ hv' l ho).2
    · rw [e, e']
      rfl
  carried l k j b hj hb := by
    change j < (together N ps C l.dst k).upto .inn l at hj
    change (together N ps C l.src k).byteOk .out l j b at hb
    change (together N ps C l.dst k).byteOk .inn l j b
    rcases together_cases N ps C l.dst k with ⟨p, hv, hp, e⟩ | ⟨-, e⟩
    · have hp' := h p (List.mem_of_getElem? hp)
      have hsrc : l.src < N := by
        by_contra hlt
        refine absurd hj (Nat.not_lt.mpr ?_)
        rw [e, hp'.stray _ hv _ _ fun ho => hlt (hp'.inn_dst _ hv l ho).2]
        exact Nat.zero_le _
      rw [together_some hsrc hp] at hb
      rw [e] at hj ⊢
      exact hp'.carried l hsrc hv j b hj hb
    · rw [e]
      trivial

variable {H : Type} [DecidableEq H] {w : World H} {id : Nat} {At : Nat → Nat → Mem → Prop}

theorem tasks_get {v k : Nat} {t : PlanTask} (h : (w.tasks id ps v)[k]? = some t) :
    v < w.size ∧ ∃ p, ps[k]? = some p ∧ t = p.task w id v := by
  unfold World.tasks at h
  split at h
  · rename_i hv
    rw [List.getElem?_map, Option.map_eq_some_iff] at h
    obtain ⟨p, hp, rfl⟩ := h
    exact ⟨hv, p, hp, rfl⟩
  · simp at h

theorem tasks_length {v : Nat} (hv : v < w.size) : (w.tasks id ps v).length = ps.length := by
  rw [World.tasks, if_pos hv, List.length_map]

/-- **The contracts of the whole list**, one for every rank and operation. -/
theorem contracts_together (h : ∀ k p, ps[k]? = some p → ∀ r < w.size,
    Nonempty (Contract channelSystem (p.task w id r) (C p r) (At r k) (At r (k + 1)))) :
    Nonempty (Contracts channelSystem (w.tasks id ps) (together w.size ps C) At) := by
  have key : ∀ v k t, (w.tasks id ps v)[k]? = some t →
      Nonempty (Contract channelSystem t (together w.size ps C v k) (At v k) (At v (k + 1))) := by
    intro v k t ht
    obtain ⟨hv, p, hp, rfl⟩ := tasks_get ht
    rw [together_some hv hp]
    exact h k p hp v hv
  exact ⟨fun v k t ht => (key v k t ht).some⟩

/-- The same with the order in which every rank serves its connections. -/
theorem paced_together {ι : Type} [LinearOrder ι] {σ : Nat → Nat → Side → Link → Nat → ι}
    (h : ∀ k p, ps[k]? = some p → ∀ r < w.size,
      ∃ K : Contract channelSystem (p.task w id r) (C p r) (At r k) (At r (k + 1)),
        K.Paced (σ r k)) :
    ∃ K : Contracts channelSystem (w.tasks id ps) (together w.size ps C) At,
      ∀ v k t ht, (K v k t ht).Paced (σ v k) := by
  have key : ∀ v k t, (w.tasks id ps v)[k]? = some t →
      ∃ K : Contract channelSystem t (together w.size ps C v k) (At v k) (At v (k + 1)),
        K.Paced (σ v k) := by
    intro v k t ht
    obtain ⟨hv, p, hp, rfl⟩ := tasks_get ht
    rw [together_some hv hp]
    exact h k p hp v hv
  exact ⟨fun v k t ht => (key v k t ht).choose, fun v k t ht => (key v k t ht).choose_spec⟩

/-- **One operation under every schedule**: a rank that has finished it has kept its contract. -/
theorem single_post (C : Collective → Nat → Terms Link UInt8) (At : Nat → Nat → Mem → Prop)
    {p : Collective} (hjoin : Joined w.size (C p))
    (hcontract : ∀ r < w.size,
      Nonempty (Contract channelSystem (p.task w id r) (C p r) (At r 0) (At r 1)))
    {m₀ : Nat → Mem} (h0 : ∀ r, At r 0 (m₀ r)) {F : Flow Link}
    {ls : List (Label Nat Link UInt8 CollEvent)} {c : Config Nat Link UInt8 RankState Mem}
    (hrun : Run channelSystem F (w.tasks id [p]) (.start m₀) ls c) {r : Nat} (hr : r < w.size)
    (hdone : (c.node r).finished = 1) : ∃ m, (c.node r).mode = .fresh m ∧ At r 1 m := by
  have hshares : Shares channelSystem (together w.size [p] C) :=
    Joined.shares fun q hq => by
      rw [List.mem_singleton.mp hq]
      exact hjoin
  have hfits := hshares.fits
  obtain ⟨K⟩ : Nonempty (Contracts channelSystem (w.tasks id [p]) (together w.size [p] C) At) :=
    contracts_together fun k q hq r hr => by
      obtain ⟨rfl, rfl⟩ : k = 0 ∧ q = p := by
        cases k with
        | zero => exact ⟨rfl, (Option.some.inj hq).symm⟩
        | succ k => cases hq
      exact hcontract r hr
  obtain ⟨g, hg⟩ := hrun.consistent (K := K) hfits sideEvent_surjective h0
  obtain ⟨m, hm⟩ := hg.resting (by rw [hdone, tasks_length hr]; rfl)
  have hpost := hrun.post hfits sideEvent_surjective h0 K hm
  rw [hdone] at hpost
  exact ⟨m, hm, hpost⟩

/-- **One operation at any moment**: what the contract of a rank says of its counts and its memory
    holds of the bytes it has moved so far, and it has moved no more than its terms say. -/
theorem single_moment (C : Collective → Nat → Terms Link UInt8) (At : Nat → Nat → Mem → Prop)
    {p : Collective} (hjoin : Joined w.size (C p)) {Q : Nat → (Side → Link → Nat) → Mem → Prop}
    (hcontract : ∀ r < w.size,
      ∃ K : Contract channelSystem (p.task w id r) (C p r) (At r 0) (At r 1),
        ∀ s n, K.Inv s n → Q r n s.mem)
    (hstart : ∀ r < w.size, ∀ n m, At r 0 m → (∀ sd l, n sd l = 0) → Q r n m)
    (hend : ∀ r < w.size, ∀ n m, At r 1 m → (C p r).spent n → Q r n m)
    {m₀ : Nat → Mem} (h0 : ∀ r, At r 0 (m₀ r)) {F : Flow Link}
    {ls : List (Label Nat Link UInt8 CollEvent)} {c : Config Nat Link UInt8 RankState Mem}
    (hrun : Run channelSystem F (w.tasks id [p]) (.start m₀) ls c) {r : Nat} (hr : r < w.size) :
    ∃ n m, (c.node r).mode.memory channelSystem = some m ∧ Q r n m ∧
      (∀ sd l, n sd l ≤ (C p r).upto sd l) ∧ (∀ l : Link, l.src = r → (sent ls l).length = n .out l) ∧
      ∀ l : Link, l.dst = r → (got ls l).length = n .inn l := by
  have hfits : Net.Fits channelSystem (together w.size [p] C) _ :=
    (Joined.shares fun q hq => by
      rw [List.mem_singleton.mp hq]
      exact hjoin).fits
  have hself : ∀ v < w.size, together w.size [p] C v 0 = C p v := fun v hv => together_some hv rfl
  obtain ⟨K, hK⟩ : ∃ K : Contracts channelSystem (w.tasks id [p]) (together w.size [p] C) At,
      ∀ v k t ht s n, (K v k t ht).Inv s n → Q v n s.mem := by
    have key : ∀ v k t, (w.tasks id [p] v)[k]? = some t →
        ∃ K : Contract channelSystem t (together w.size [p] C v k) (At v k) (At v (k + 1)),
          ∀ s n, K.Inv s n → Q v n s.mem := by
      intro v k t ht
      obtain ⟨hv, q, hq, rfl⟩ := tasks_get ht
      obtain ⟨rfl, rfl⟩ : k = 0 ∧ q = p := by
        cases k with
        | zero => exact ⟨rfl, (Option.some.inj hq).symm⟩
        | succ k => cases hq
      rw [hself v hv]
      exact hcontract v hv
    exact ⟨fun v k t ht => (key v k t ht).choose, fun v k t ht => (key v k t ht).choose_spec⟩
  obtain ⟨g, hg, hcnt⟩ := hrun.counted hfits sideEvent_surjective h0 K
  have hlen : (w.tasks id [p] r).length = 1 := tasks_length hr
  have hbound := hg.bound r
  refine ⟨reached (together w.size [p] C) c g r, ?_⟩
  have hmoved : (∀ l : Link, l.src = r →
      (sent ls l).length = reached (together w.size [p] C) c g r .out l) ∧
      ∀ l : Link, l.dst = r →
        (got ls l).length = reached (together w.size [p] C) c g r .inn l := by
    refine ⟨fun l hl => ?_, fun l hl => ?_⟩
    · rw [(hcnt l).1.all_length, ← hl]
      rfl
    · rw [(hcnt l).2.all_length, ← hl]
      rfl
  -- before the end of the task the place is the count, after it the whole budget
  have hopen : (c.node r).finished = 0 →
      reached (together w.size [p] C) c g r = (g r).count ∧
        ∀ sd l, reached (together w.size [p] C) c g r sd l ≤ (C p r).upto sd l := by
    intro hfin
    have e : reached (together w.size [p] C) c g r = (g r).count := by
      funext sd l
      rw [reached, hfin, base, off_zero, Nat.zero_add]
    refine ⟨e, fun sd l => ?_⟩
    have hb := hbound sd l
    rw [hfin, hself r hr] at hb
    rw [e]
    exact hb
  rcases (hg.node r).moment with ⟨m, hm, hfin, hat, hzero⟩ | ⟨t, ht, s, hm, hset⟩
  · rw [hlen] at hfin
    by_cases h1 : (c.node r).finished = 0
    · obtain ⟨e, hle⟩ := hopen h1
      rw [h1] at hat
      refine ⟨m, hm, hstart r hr _ m hat fun sd l => ?_, hle, hmoved⟩
      rw [e]
      exact hzero sd l
    · have h1 : (c.node r).finished = 1 := by omega
      have e : ∀ sd l, reached (together w.size [p] C) c g r sd l = (C p r).upto sd l := by
        intro sd l
        rw [reached, h1, hzero, base_succ, base, off_zero, Nat.zero_add, Nat.add_zero, hself r hr]
      rw [h1] at hat
      exact ⟨m, hm, hend r hr _ m hat fun sd l _ => e sd l, fun sd l => Nat.le_of_eq (e sd l), hmoved⟩
  · have h1 : (c.node r).finished = 0 := by
      have hlt := (List.getElem?_eq_some_iff.mp ht).1
      omega
    obtain ⟨e, hle⟩ := hopen h1
    refine ⟨s.mem, hm, ?_, hle, hmoved⟩
    rw [e]
    rcases hset with ⟨hs, hat⟩ | hI
    · rw [h1] at hs hat
      rw [hself r hr] at hs
      exact hend r hr _ _ hat hs
    · exact hK _ _ _ _ _ _ hI

end Lists

end OriginCCL
