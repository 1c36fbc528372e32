/-
  File:      OriginCCL/Base/Sorting.lean
  Subject:   STABLE SORTING BY A KEY.

  * `SortedBy` -- a list in the order of its keys, with equal keys in the order they came in.
  * `sortedBy_mergeSort` -- a merge sort whose comparison reads a key is one.
  * `SortedBy.keys_eq` -- **the keys of the result depend on the multiset of the keys only**.
  * `byKeys` -- the elements with some keys, one key after the other: `byKeys_perm`, `byKeys_sorted`,
    `byKeys_filter`.
-/
import Mathlib.Data.List.Induction
import Mathlib.Data.List.Sort
import Mathlib.Order.Lattice
import OriginCCL.Base.Tables

namespace OriginCCL.Base

variable {α κ : Type} [LinearOrder κ] {key : α → κ} {xs xs' ys ys' : List α}

/-! ## 1. Sorted lists -/

/-- `ys` is `xs` in the order of the keys; what has the same key stays in its order. -/
structure SortedBy (key : α → κ) (xs ys : List α) : Prop where
  perm : ys.Perm xs
  sorted : ys.Pairwise fun a b => key a ≤ key b
  stable : ∀ k, (ys.filter fun a => key a = k) = xs.filter fun a => key a = k

/-- **A merge sort by a key is stable.** -/
theorem sortedBy_mergeSort {le : α → α → Bool} (h : ∀ a b, le a b = decide (key a ≤ key b))
    (xs : List α) : SortedBy key xs (xs.mergeSort le) := by
  have htrans : ∀ a b c, le a b = true → le b c = true → le a c = true := by
    intro a b c hab hbc
    rw [h, decide_eq_true_eq] at hab hbc ⊢
    exact le_trans hab hbc
  have htotal : ∀ a b, (le a b || le b a) = true := by
    intro a b
    rw [h, h, Bool.or_eq_true, decide_eq_true_eq, decide_eq_true_eq]
    exact le_total (key a) (key b)
  have hperm := List.mergeSort_perm xs le
  refine ⟨hperm, ?_, fun k => ?_⟩
  · refine (List.pairwise_mergeSort htrans htotal xs).imp fun hab => ?_
    rw [h, decide_eq_true_eq] at hab
    exact hab
  · -- the elements of one key are a sorted part of the list, and a merge sort keeps these
    have hpart : (xs.filter fun a => key a = k).Pairwise fun a b => le a b = true := by
      refine List.pairwise_of_forall_mem_list fun a ha b hb => ?_
      have hka := of_decide_eq_true (List.mem_filter.mp ha).2
      have hkb := of_decide_eq_true (List.mem_filter.mp hb).2
      rw [h, decide_eq_true_eq, hka, hkb]
    have hsub := (List.sublist_mergeSort htrans htotal hpart List.filter_sublist).filter
      fun a => key a = k
    rw [List.filter_filter] at hsub
    simp only [Bool.and_self] at hsub
    refine (hsub.eq_of_length ?_).symm
    exact (hperm.filter fun a => key a = k).length_eq.symm

/-- **Two lists with the same keys** have the same keys in order when they are sorted. -/
theorem SortedBy.keys_eq (h : SortedBy key xs ys) (h' : SortedBy key xs' ys')
    (hkeys : (xs.map key).Perm (xs'.map key)) : ys.map key = ys'.map key := by
  have hperm : (ys.map key).Perm (ys'.map key) :=
    (h.perm.map key).trans (hkeys.trans (h'.perm.map key).symm)
  exact hperm.eq_of_pairwise (fun _ _ _ _ => le_antisymm) (List.pairwise_map.mpr h.sorted)
    (List.pairwise_map.mpr h'.sorted)

/-- What has one key comes in the order it came in, also what is picked from it. -/
theorem SortedBy.filter_eq (h : SortedBy key xs ys) {q : α → Bool} {k : κ}
    (hq : ∀ a, q a = true → key a = k) : ys.filter q = xs.filter q := by
  have hpart : ∀ zs : List α, zs.filter q = (zs.filter fun a => key a = k).filter q := by
    intro zs
    rw [List.filter_filter]
    refine List.filter_congr fun a _ => ?_
    cases hqa : q a with
    | false => rfl
    | true => rw [decide_eq_true (hq a hqa)]; rfl
  rw [hpart ys, h.stable k, ← hpart xs]

/-! ## 2. One key after the other -/

/-- The elements with the keys `keys`, one key after the other. -/
def byKeys (key : α → κ) (keys : List κ) (xs : List α) : List α :=
  keys.flatMap fun k => xs.filter fun a => key a = k

/-- **Every element once.** -/
theorem byKeys_perm {keys : List κ} (hnodup : keys.Nodup) (hkeys : ∀ a ∈ xs, key a ∈ keys) :
    (byKeys key keys xs).Perm xs := by
  induction xs using List.reverseRecOn with
  | nil => simp [byKeys]
  | append_singleton xs x ih =>
    have hx := hkeys x (List.mem_append_right _ (List.mem_singleton_self x))
    have hchange : (byKeys key keys (xs ++ [x])).Perm (byKeys key keys xs ++ [x]) := by
      refine flatMap_change hnodup hx (fun k hk => ?_) ?_
      · rw [List.filter_append, List.filter_cons_of_neg (by simpa using Ne.symm hk), List.filter_nil,
          List.append_nil]
      · rw [List.filter_append, List.filter_cons_of_pos (by simp), List.filter_nil]
    exact hchange.trans ((ih fun a ha => hkeys a (List.mem_append_left _ ha)).append_right [x])

/-- **In the order of the keys.** -/
theorem byKeys_sorted {keys : List κ} (hkeys : keys.Pairwise (· ≤ ·)) :
    (byKeys key keys xs).Pairwise fun a b => key a ≤ key b := by
  refine List.pairwise_flatMap.mpr ⟨fun k _ => ?_, hkeys.imp fun {k l} hkl a ha b hb => ?_⟩
  · refine List.pairwise_of_forall_mem_list fun a ha b hb => ?_
    rw [of_decide_eq_true (List.mem_filter.mp ha).2, of_decide_eq_true (List.mem_filter.mp hb).2]
  · rw [of_decide_eq_true (List.mem_filter.mp ha).2, of_decide_eq_true (List.mem_filter.mp hb).2]
    exact hkl

/-- **What has one key** stays in its order. -/
theorem byKeys_filter {keys : List κ} (hnodup : keys.Nodup) {q : α → Bool} {k : κ} (hk : k ∈ keys)
    (hq : ∀ a, q a = true → key a = k) : (byKeys key keys xs).filter q = xs.filter q := by
  unfold byKeys
  induction keys with
  | nil => cases hk
  | cons l keys ih =>
    obtain ⟨hl, hnodup⟩ := List.nodup_cons.mp hnodup
    rw [List.flatMap_cons, List.filter_append, List.filter_filter]
    by_cases hlk : l = k
    · subst hlk
      have hrest : (keys.flatMap fun k => xs.filter fun a => key a = k).filter q = [] := by
        refine List.filter_eq_nil_iff.mpr fun a ha hqa => ?_
        obtain ⟨m, hm, ha⟩ := List.mem_flatMap.mp ha
        exact hl ((hq a hqa).symm.trans (of_decide_eq_true (List.mem_filter.mp ha).2) ▸ hm)
      rw [hrest, List.append_nil]
      refine List.filter_congr fun a _ => ?_
      cases hqa : q a with
      | false => rfl
      | true => rw [decide_eq_true (hq a hqa)]; rfl
    · rw [ih hnodup ((List.mem_cons.mp hk).resolve_left (Ne.symm hlk)),
        List.filter_eq_nil_iff.mpr, List.nil_append]
      intro a _ h
      rw [Bool.and_eq_true] at h
      exact hlk ((of_decide_eq_true h.2).symm.trans (hq a h.1))

end OriginCCL.Base
