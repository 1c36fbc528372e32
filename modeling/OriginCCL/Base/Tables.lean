/-
  File:      OriginCCL/Base/Tables.lean
  Subject:   TABLES of which one entry changes.

  * `countP_change` -- how many entries have a property.
  * `flatMap_change` -- what all entries hold together, up to order.
  * `update₂` -- a table with two keys.
-/
import Mathlib.Data.List.Nodup
import Mathlib.Data.List.Perm.Basic
import Mathlib.Logic.Function.Basic

namespace OriginCCL.Base

section Tables

variable {ι α : Type} {keys : List ι} {k : ι}

/-- **A count over the entries**: only the entry that changes counts differently. -/
theorem countP_change {p q : ι → Bool} (hkeys : keys.Nodup) (hk : k ∈ keys) (h : ∀ i ≠ k, q i = p i) :
    keys.countP q + (if p k then 1 else 0) = keys.countP p + if q k then 1 else 0 := by
  induction keys with
  | nil => exact absurd hk List.not_mem_nil
  | cons i keys ih =>
    obtain ⟨hi, hkeys⟩ := List.nodup_cons.mp hkeys
    rw [List.countP_cons, List.countP_cons]
    by_cases hik : i = k
    · subst hik
      have hrest : keys.countP q = keys.countP p :=
        List.countP_congr fun j hj => by rw [h j fun e => hi (e ▸ hj)]
      rw [hrest]
      omega
    · have := ih hkeys ((List.mem_cons.mp hk).resolve_left (Ne.symm hik))
      rw [h i hik]
      omega

/-- **What all entries hold**, when one of them gets more at its end. -/
theorem flatMap_change {f g : ι → List α} {more : List α} (hkeys : keys.Nodup) (hk : k ∈ keys)
    (h : ∀ i ≠ k, g i = f i) (hmore : g k = f k ++ more) :
    (keys.flatMap g).Perm (keys.flatMap f ++ more) := by
  induction keys with
  | nil => exact absurd hk List.not_mem_nil
  | cons i keys ih =>
    obtain ⟨hi, hkeys⟩ := List.nodup_cons.mp hkeys
    rw [List.flatMap_cons, List.flatMap_cons]
    by_cases hik : i = k
    · subst hik
      have hrest : keys.flatMap g = keys.flatMap f :=
        List.flatMap_congr fun j hj => h j fun e => hi (e ▸ hj)
      rw [hrest, hmore, List.append_assoc, List.append_assoc]
      exact List.perm_append_comm.append_left (f i)
    · rw [h i hik, List.append_assoc]
      exact (ih hkeys ((List.mem_cons.mp hk).resolve_left (Ne.symm hik))).append_left (f i)

end Tables

/-- The table with another entry at `a` and `b`. -/
def update₂ {α β γ : Type} [DecidableEq α] [DecidableEq β] (f : α → β → γ) (a : α) (b : β) (v : γ) :
    α → β → γ :=
  Function.update f a (Function.update (f a) b v)

@[simp] theorem update₂_apply {α β γ : Type} [DecidableEq α] [DecidableEq β] (f : α → β → γ) (a : α) (b : β)
    (v : γ) (x : α) (y : β) : update₂ f a b v x y = if x = a ∧ y = b then v else f x y := by
  unfold update₂
  by_cases hx : x = a
  · subst hx
    rw [Function.update_self, Function.update_apply]
    by_cases hy : y = b
    · rw [if_pos hy, if_pos ⟨rfl, hy⟩]
    · rw [if_neg hy, if_neg fun h => hy h.2]
  · rw [Function.update_of_ne hx, if_neg fun h => hx h.1]

end OriginCCL.Base
