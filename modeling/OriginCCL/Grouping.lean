/-
  File:      OriginCCL/Grouping.lean
  Subject:   WHAT THE GROUPING INTO MACHINES MEANS.

  * `Machines.leader` -- the first rank of a rank's machine.
  * `localRank_eq_zero` -- the ranks with local rank 0 are the leaders.
  * `machineLeaders_get` -- **the table of leaders** holds every machine's leader at its index.
  * `exists_machine` -- every index below the number of machines is a machine's.
-/
import Mathlib.Data.Nat.Find
import OriginCCL.Communicator

namespace OriginCCL.Machines

variable {H : Type} [DecidableEq H] {hosts : Nat → H} {N r q : Nat}

/-! ## 1. The ranks of a machine -/

/-- The first rank of a rank's machine. -/
def leader (hosts : Nat → H) (N r : Nat) : Nat := (localRanks hosts N r).headD 0

theorem mem_localRanks : q ∈ localRanks hosts N r ↔ q < N ∧ hosts q = hosts r := by
  simp [localRanks]

theorem localRanks_sorted (hosts : Nat → H) (N r : Nat) : (localRanks hosts N r).Pairwise (· < ·) :=
  List.Pairwise.filter _ List.pairwise_lt_range

theorem localRanks_congr (h : hosts q = hosts r) : localRanks hosts N q = localRanks hosts N r := by
  unfold localRanks
  rw [h]

/-- The leader comes first. -/
theorem localRanks_eq (hr : r < N) :
    localRanks hosts N r = leader hosts N r :: (localRanks hosts N r).tail := by
  cases h : localRanks hosts N r with
  | nil =>
    have := mem_localRanks.mpr (⟨hr, rfl⟩ : r < N ∧ hosts r = hosts r)
    rw [h] at this
    exact absurd this List.not_mem_nil
  | cons a l => rw [leader, h]; rfl

theorem leader_spec (hosts : Nat → H) (hr : r < N) : leader hosts N r < N ∧ hosts (leader hosts N r) = hosts r := by
  apply mem_localRanks.mp
  rw [localRanks_eq hr]
  exact List.mem_cons_self

theorem leader_congr (h : hosts q = hosts r) : leader hosts N q = leader hosts N r := by
  rw [leader, leader, localRanks_congr h]

@[simp] theorem leader_leader (hr : r < N) :
    leader hosts N (leader hosts N r) = leader hosts N r :=
  leader_congr (leader_spec hosts hr).2

theorem leader_le (hr : r < N) (hq : q < N) (h : hosts q = hosts r) : leader hosts N r ≤ q := by
  have hmem := mem_localRanks.mpr ⟨hq, h⟩
  have hsort := localRanks_sorted hosts N r
  rw [localRanks_eq hr] at hmem hsort
  rcases List.mem_cons.mp hmem with rfl | hmem
  · exact Nat.le_refl _
  · exact Nat.le_of_lt ((List.pairwise_cons.mp hsort).1 q hmem)

/-- The others of a machine. -/
theorem mem_tail_localRanks (hr : r < N) :
    q ∈ (localRanks hosts N r).tail ↔ q < N ∧ hosts q = hosts r ∧ q ≠ leader hosts N r := by
  have hsort := localRanks_sorted hosts N r
  have hmem : q ∈ localRanks hosts N r ↔ q < N ∧ hosts q = hosts r := mem_localRanks
  rw [localRanks_eq hr] at hmem hsort
  rw [List.mem_cons] at hmem
  constructor
  · intro h
    obtain ⟨h1, h2⟩ := hmem.mp (Or.inr h)
    have h3 := (List.pairwise_cons.mp hsort).1 q h
    exact ⟨h1, h2, by omega⟩
  · rintro ⟨h1, h2, h3⟩
    exact (hmem.mpr ⟨h1, h2⟩).resolve_left h3

/-- **Local rank 0 is the leader's.** -/
theorem localRank_eq_zero (hr : r < N) :
    (Communicator.group hosts N r).localRank = 0 ↔ leader hosts N r = r := by
  have e : (Communicator.group hosts N r).localRank = (localRanks hosts N r).idxOf r := rfl
  rw [e, localRanks_eq hr, List.idxOf_cons]
  by_cases h : leader hosts N r = r
  · simp [h]
  · rw [beq_eq_false_iff_ne.mpr h]
    exact iff_of_false (Nat.succ_ne_zero _) h

/-! ## 2. The machines -/

theorem hosts_among (hosts : Nat → H) (k : Nat) :
    let hs := (List.range k).foldl (fun hs q => if hosts q ∈ hs then hs else hs ++ [hosts q]) []
    hs.Nodup ∧ ∀ h, h ∈ hs ↔ ∃ q < k, hosts q = h := by
  induction k with
  | zero => simp
  | succ k ih =>
    obtain ⟨hnd, hmem⟩ := ih
    simp only [List.range_succ, List.foldl_append, List.foldl_cons, List.foldl_nil]
    split
    · rename_i hin
      refine ⟨hnd, fun h => ?_⟩
      rw [hmem]
      constructor
      · rintro ⟨q, hq, rfl⟩
        exact ⟨q, by omega, rfl⟩
      · rintro ⟨q, hq, rfl⟩
        rcases Nat.lt_succ_iff_lt_or_eq.mp hq with hq | rfl
        · exact ⟨q, hq, rfl⟩
        · exact (hmem _).mp hin
    · rename_i hin
      refine ⟨?_, fun h => ?_⟩
      · rw [List.nodup_append]
        refine ⟨hnd, List.pairwise_singleton _ _, fun a ha b hb => ?_⟩
        rw [List.mem_singleton] at hb
        rintro rfl
        exact hin (hb ▸ ha)
      · rw [List.mem_append, List.mem_singleton, hmem]
        constructor
        · rintro (⟨q, hq, rfl⟩ | rfl)
          · exact ⟨q, by omega, rfl⟩
          · exact ⟨k, Nat.lt_succ_self k, rfl⟩
        · rintro ⟨q, hq, rfl⟩
          rcases Nat.lt_succ_iff_lt_or_eq.mp hq with hq | rfl
          · exact Or.inl ⟨q, hq, rfl⟩
          · exact Or.inr rfl

theorem machineHosts_nodup : (machineHosts hosts N).Nodup := (hosts_among hosts N).1

theorem mem_machineHosts {h : H} : h ∈ machineHosts hosts N ↔ ∃ q < N, hosts q = h :=
  (hosts_among hosts N).2 h

theorem machineIndex_lt (hosts : Nat → H) (hr : r < N) :
    machineIndex hosts N r < (machineHosts hosts N).length :=
  List.idxOf_lt_length_of_mem (mem_machineHosts.mpr ⟨r, hr, rfl⟩)

/-- Two ranks have the same index if they are on one machine. -/
theorem machineIndex_inj (hr : r < N) (hq : q < N) :
    machineIndex hosts N q = machineIndex hosts N r ↔ hosts q = hosts r := by
  refine ⟨fun h => ?_, fun h => by rw [machineIndex, machineIndex, h]⟩
  have h1 := List.getElem_idxOf (machineIndex_lt hosts hq)
  have h2 := List.getElem_idxOf (machineIndex_lt hosts hr)
  rw [← h1, ← h2]
  congr 1

/-- Every index below the number of machines is a machine's. -/
theorem exists_machine {m : Nat} (hm : m < (machineHosts hosts N).length) :
    ∃ r < N, machineIndex hosts N r = m := by
  obtain ⟨r, hr, he⟩ := mem_machineHosts.mp (List.getElem_mem hm)
  refine ⟨r, hr, ?_⟩
  rw [machineIndex, he, machineHosts_nodup.idxOf_getElem]

/-! ## 3. The table of leaders -/

/-- A table filled with the first number of every class. -/
theorem first_of_class (idx : Nat → Nat) (count : Nat) (k : Nat) (hidx : ∀ q < k, idx q < count) :
    let table := (List.range k).foldl (fun table q =>
      if table.getD (idx q) 0 < 0 then table.set (idx q) (q : Int) else table)
      (List.replicate count (-1))
    table.length = count ∧ (∀ m < count, (∀ q < k, idx q ≠ m) → table.getD m 0 = -1) ∧
      ∀ q < k, (∀ q' < q, idx q' ≠ idx q) → table.getD (idx q) 0 = q := by
  induction k with
  | zero =>
    refine ⟨by simp, fun m hm _ => ?_, fun q hq => absurd hq (Nat.not_lt_zero q)⟩
    simp [List.getD_eq_getElem?_getD, hm]
  | succ k ih =>
    obtain ⟨hlen, hnone, hfirst⟩ := ih fun q hq => hidx q (by omega)
    have hk := hidx k (Nat.lt_succ_self k)
    simp only [List.range_succ, List.foldl_append, List.foldl_cons, List.foldl_nil]
    generalize (List.range k).foldl (fun table q =>
      if table.getD (idx q) 0 < 0 then table.set (idx q) (q : Int) else table)
      (List.replicate count (-1)) = table at hlen hnone hfirst ⊢
    have hset : ∀ m, (table.set (idx k) (k : Int)).getD m 0 =
        if m = idx k then (k : Int) else table.getD m 0 := by
      intro m
      rw [List.getD_eq_getElem?_getD, List.getD_eq_getElem?_getD, List.getElem?_set]
      by_cases e : idx k = m
      · rw [if_pos e, if_pos (by omega), if_pos e.symm]
        rfl
      · rw [if_neg e, if_neg (Ne.symm e)]
    by_cases hnew : ∀ q < k, idx q ≠ idx k
    · rw [if_pos (by rw [hnone _ hk hnew]; decide)]
      refine ⟨by rw [List.length_set, hlen], fun m hm hall => ?_, fun q hq hall => ?_⟩
      · rw [hset, if_neg (hall k (Nat.lt_succ_self k)).symm]
        exact hnone m hm fun q hq => hall q (by omega)
      · rw [hset]
        rcases Nat.lt_succ_iff_lt_or_eq.mp hq with hq | rfl
        · rw [if_neg (hnew q hq)]
          exact hfirst q hq hall
        · rw [if_pos rfl]
    · -- the first number of the class of `k` is in the table already
      have hmin : ∃ q < k, idx q = idx k ∧ ∀ q' < q, idx q' ≠ idx q := by
        push Not at hnew
        have hex : ∃ q, q < k ∧ idx q = idx k := by
          obtain ⟨q, hq, he⟩ := hnew
          exact ⟨q, hq, he⟩
        refine ⟨Nat.find hex, (Nat.find_spec hex).1, (Nat.find_spec hex).2, fun q' hq' he => ?_⟩
        have hlt := (Nat.find_spec hex).1
        exact Nat.find_min hex hq' ⟨by omega, he.trans (Nat.find_spec hex).2⟩
      obtain ⟨q₀, hq₀, he₀, hmin₀⟩ := hmin
      have hval := hfirst q₀ hq₀ hmin₀
      rw [he₀] at hval
      rw [if_neg (by rw [hval]; omega)]
      refine ⟨hlen, fun m hm hall => hnone m hm fun q hq => hall q (by omega), fun q hq hall => ?_⟩
      rcases Nat.lt_succ_iff_lt_or_eq.mp hq with hq | rfl
      · exact hfirst q hq hall
      · exact absurd he₀ (hall q₀ hq₀)

/-- **The table of leaders** holds every machine's leader. -/
theorem machineLeaders_get (hr : r < N) :
    (machineLeaders hosts N).getD (machineIndex hosts N r) 0 = leader hosts N r := by
  obtain ⟨hlt, hhost⟩ := leader_spec hosts hr
  have h := (first_of_class (machineIndex hosts N) (machineHosts hosts N).length N
    fun q hq => machineIndex_lt hosts hq).2.2 (leader hosts N r) hlt fun q' hq' he => by
      have := leader_le hr (q := q') (by omega) (((machineIndex_inj hlt (by omega)).mp he).trans hhost)
      omega
  rw [← (machineIndex_inj hr hlt).mpr hhost]
  exact h

end OriginCCL.Machines
