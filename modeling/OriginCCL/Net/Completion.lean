/-
  File:      OriginCCL/Net/Completion.lean
  Subject:   COMPLETION: every run can be brought to its end, and what a run does is bounded.

  Finitely many nodes have tasks and finitely many links carry bytes. What is left to do is then a
  number: the tasks not finished, the bytes not sent and the bytes not received.

  * `Act.work` -- the bytes a step moves, and 1 for a finished task.
  * `Consistent.run_todo` -- **every step takes its work off what is left to do.**
  * `Run.work_eq` -- so a run does at most the work of its tasks, and all of it when they are finished.
  * `Run.completes` -- **from every configuration a run reaches over bounded pipes there is a way on to
    the end of all tasks**: end the calls in progress, let a node move that `Run.progress` names, and
    so on until nothing is left.
-/
import Mathlib.Algebra.BigOperators.Group.Finset.Piecewise
import Mathlib.Algebra.BigOperators.Ring.Finset
import OriginCCL.Net.InOrder

namespace OriginCCL.Net

open Base

variable {V τ β T S M E : Type} [DecidableEq V] [DecidableEq τ] {sys : System V τ β T S M E}
  {tasks : V → List T}

/-! ## 1. Work -/

/-- The tasks an action finishes. -/
def Act.ends : Act τ β E → Nat
  | .finish => 1
  | _ => 0

/-- **The work of an action**: the bytes it moves, and 1 for a finished task. -/
def Act.work : Act τ β E → Nat
  | .push _ bs => bs.length
  | .pull _ bs => bs.length
  | .finish => 1
  | _ => 0

/-- The work of a run. -/
def work (ls : List (Label V τ β E)) : Nat := (ls.map fun a => a.act.work).sum

omit [DecidableEq V] [DecidableEq τ] in
theorem work_append (ls ls' : List (Label V τ β E)) : work (ls ++ ls') = work ls + work ls' := by
  rw [work, List.map_append, List.sum_append, work, work]

omit [DecidableEq τ] in
/-- The productive steps are those that work. -/
theorem Act.productive_iff (a : Act τ β E) : a.productive ↔ 0 < a.work := by
  cases a with
  | push l bs => exact List.length_pos_iff.symm
  | pull l bs => exact List.length_pos_iff.symm
  | finish => exact iff_of_true trivial Nat.one_pos
  | call => exact iff_of_false id (Nat.lt_irrefl 0)
  | step e => exact iff_of_false id (Nat.lt_irrefl 0)
  | ret => exact iff_of_false id (Nat.lt_irrefl 0)

omit [DecidableEq V] [DecidableEq τ] in
theorem work_pos {ls : List (Label V τ β E)} {a : Label V τ β E} (ha : a ∈ ls)
    (hp : a.act.productive) : 0 < work ls :=
  List.sum_pos_iff_exists_pos_nat.mpr
    ⟨_, List.mem_map_of_mem ha, (Act.productive_iff a.act).mp hp⟩

/-- The work of an action on a finite set of links that includes its own. -/
theorem Act.work_eq (a : Act τ β E) {L : Finset τ}
    (h : ∀ l, l ∉ L → a.pushed l = [] ∧ a.pulled l = []) :
    a.work = a.ends + ∑ l ∈ L, ((a.pushed l).length + (a.pulled l).length) := by
  have hnone : ∀ b : Act τ β E, (∀ l, b.pushed l = [] ∧ b.pulled l = []) →
      ∑ l ∈ L, ((b.pushed l).length + (b.pulled l).length) = 0 := by
    intro b hb
    refine Finset.sum_eq_zero fun l _ => ?_
    rw [(hb l).1, (hb l).2]
    rfl
  cases a with
  | push l bs =>
    rw [Finset.sum_eq_single l]
    · simp [work, ends, pushed, pulled]
    · intro l' _ hne
      simp [pushed, pulled, Ne.symm hne]
    · intro hl
      rw [(h l hl).1, (h l hl).2]
      rfl
  | pull l bs =>
    rw [Finset.sum_eq_single l]
    · simp [work, ends, pushed, pulled]
    · intro l' _ hne
      simp [pushed, pulled, Ne.symm hne]
    · intro hl
      rw [(h l hl).1, (h l hl).2]
      rfl
  | finish => rw [hnone _ fun _ => ⟨rfl, rfl⟩]; rfl
  | call => rw [hnone _ fun _ => ⟨rfl, rfl⟩]; rfl
  | step e => rw [hnone _ fun _ => ⟨rfl, rfl⟩]; rfl
  | ret => rw [hnone _ fun _ => ⟨rfl, rfl⟩]; rfl

/-! ## 2. Steps of other nodes -/

theorem Run.trans {F : Flow τ} {c c' c'' : Config V τ β S M} {ls ls' : List (Label V τ β E)}
    (h : Run sys F tasks c ls c') (h' : Run sys F tasks c' ls' c'') :
    Run sys F tasks c (ls ++ ls') c'' := by
  induction h' with
  | nil => rw [List.append_nil]; exact h
  | snoc _ hs ih => rw [← List.append_assoc]; exact .snoc ih hs

/-- A step changes its own node only. -/
theorem Step.other {F : Flow τ} {c c' : Config V τ β S M} {a : Label V τ β E}
    (h : Step sys F tasks c a c') {v : V} (hv : v ≠ a.node) : c'.node v = c.node v := by
  cases h with
  | call w t m ht hm => exact Config.setNode_ne _ _ hv
  | step w t s e ht hm => exact Config.setNode_ne _ _ hv
  | push w l data k n hm hn _ => exact Config.setNode_ne _ _ hv
  | pull w l size k n hm hn hq _ => exact Config.setNode_ne _ _ hv
  | ret w t s ht hm hd => exact Config.setNode_ne _ _ hv
  | finish w t s ht hm hd => exact Config.setNode_ne _ _ hv

theorem Run.other {F : Flow τ} {c c' : Config V τ β S M} {ls : List (Label V τ β E)} {v w : V}
    (h : Run sys F tasks c ls c') (hall : ∀ a ∈ ls, a.node = v) (hw : w ≠ v) :
    c'.node w = c.node w := by
  induction h with
  | nil => rfl
  | @snoc ls c c' a _ hs ih =>
    rw [hs.other (hall a (List.mem_append_right _ (List.mem_singleton.mpr rfl)) ▸ hw)]
    exact ih fun b hb => hall b (List.mem_append_left _ hb)

/-- A node's tasks are finished one by one, by its own steps. -/
theorem Step.finished_eq {F : Flow τ} {c c' : Config V τ β S M} {a : Label V τ β E}
    (h : Step sys F tasks c a c') (v : V) :
    (c'.node v).finished = (c.node v).finished + if v = a.node then a.act.ends else 0 := by
  split
  case isFalse hv => rw [h.other hv]; rfl
  case isTrue hv =>
    subst hv
    cases h with
    | call w t m ht hm => exact Config.setMode_finished _ _ _ _
    | step w t s e ht hm => exact Config.setMode_finished _ _ _ _
    | push w l data k n hm hn _ => exact Config.setMode_finished _ _ _ _
    | pull w l size k n hm hn hq _ => exact Config.setMode_finished _ _ _ _
    | ret w t s ht hm hd => exact Config.setMode_finished _ _ _ _
    | finish w t s ht hm hd => rw [Config.setNode_self]; rfl

/-! ## 3. What is left to do -/

section Todo

variable {C : V → Nat → Terms τ β} {At : V → Nat → M → Prop} {B : τ → Nat → β → Prop}
  {K : Contracts sys tasks C At} {c c' : Config V τ β S M} {g : V → Acct τ}

omit [DecidableEq V] in
theorem Consistent.finished_le (hc : Consistent K B c g) (v : V) :
    (c.node v).finished ≤ (tasks v).length := by
  have hn := hc.node v
  cases hm : (c.node v).mode with
  | fresh m =>
    simp only [NodeOk, hm] at hn
    exact hn.1
  | idle s =>
    simp only [NodeOk, hm] at hn
    obtain ⟨t, ht, -⟩ := hn
    exact Nat.le_of_lt (List.getElem?_eq_some_iff.mp ht).1
  | busy p =>
    simp only [NodeOk, hm] at hn
    obtain ⟨t, ht, -⟩ := hn
    exact Nat.le_of_lt (List.getElem?_eq_some_iff.mp ht).1

omit [DecidableEq V] in
/-- A node that has finished its tasks has moved all their bytes. -/
theorem Consistent.reached_end (hc : Consistent K B c g) {v : V}
    (hv : (c.node v).finished = (tasks v).length) (sd : Side) (l : τ) :
    reached C c g v sd l = base C v (tasks v).length sd l := by
  obtain ⟨m, hm⟩ := hc.resting hv
  have hn := hc.node v
  simp only [NodeOk, hm] at hn
  rw [reached, hn.2.1, Nat.add_zero, hv]

omit [DecidableEq V] in
/-- No node moves more than the bytes of its tasks. -/
theorem Consistent.reached_le (hc : Consistent K B c g) (v : V) (sd : Side) (l : τ) :
    reached C c g v sd l ≤ base C v (tasks v).length sd l := by
  rcases Nat.lt_or_eq_of_le (hc.finished_le v) with hlt | heq
  · have hm := base_mono C v sd l (Nat.succ_le_of_lt hlt)
    have hb := hc.bound v sd l
    rw [Nat.succ_eq_add_one, base_succ] at hm
    unfold reached
    omega
  · exact Nat.le_of_eq (hc.reached_end heq sd l)

omit [DecidableEq V] [DecidableEq τ] in
theorem base_none {v : V} {sd : Side} {l : τ} (h : ∀ k, (C v k).upto sd l = 0) (n : Nat) :
    base C v n sd l = 0 := by
  rw [base, off]
  exact Finset.sum_eq_zero fun k _ => h k

/-- **What is left to do** on a set of nodes and of links: tasks to finish, bytes to send, bytes to
    receive. -/
def todo (sys : System V τ β T S M E) (tasks : V → List T) (C : V → Nat → Terms τ β) (W : Finset V)
    (L : Finset τ) (c : Config V τ β S M) (g : V → Acct τ) : Nat :=
  ∑ v ∈ W, ((tasks v).length - (c.node v).finished) +
    ∑ l ∈ L, ((base C (sys.src l) (tasks (sys.src l)).length .out l -
        reached C c g (sys.src l) .out l) +
      (base C (sys.dst l) (tasks (sys.dst l)).length .inn l - reached C c g (sys.dst l) .inn l))

/-- **These nodes have all the tasks and these links carry all the bytes.** -/
structure Covers (sys : System V τ β T S M E) (tasks : V → List T) (C : V → Nat → Terms τ β)
    (W : Finset V) (L : Finset τ) : Prop where
  nodes : ∀ v, v ∉ W → tasks v = []
  sent : ∀ l, l ∉ L → base C (sys.src l) (tasks (sys.src l)).length .out l = 0
  received : ∀ l, l ∉ L → base C (sys.dst l) (tasks (sys.dst l)).length .inn l = 0

variable {W : Finset V} {L : Finset τ}

/-- **Every step takes its work off what is left to do.** -/
theorem Consistent.step_todo (hF : Fits sys C B) (hev : ∀ e : E, ∃ sd, sys.event sd = e)
    (hcov : Covers sys tasks C W L) (hc : Consistent K B c g) {F : Flow τ} {a : Label V τ β E}
    (hs : Step sys F tasks c a c') :
    ∃ g', Consistent K B c' g' ∧ a.act.work + todo sys tasks C W L c' g' = todo sys tasks C W L c g := by
  obtain ⟨g', hg', hadv⟩ := hc.step hF hev hs
  refine ⟨g', hg', ?_⟩
  have hstill : ∀ l, l ∉ L → a.act.pushed l = [] ∧ a.act.pulled l = [] := by
    intro l hl
    have hout := hg'.reached_le (sys.src l) .out l
    have hinn := hg'.reached_le (sys.dst l) .inn l
    rw [hcov.sent l hl, (hadv l).1] at hout
    rw [hcov.received l hl, (hadv l).2] at hinn
    exact ⟨List.length_eq_zero_iff.mp (by omega), List.length_eq_zero_iff.mp (by omega)⟩
  have hends : a.act.ends = ∑ v ∈ W, if v = a.node then a.act.ends else 0 := by
    rw [Finset.sum_ite_eq']
    split
    case isTrue => rfl
    case isFalse hW =>
      have hle := hg'.finished_le a.node
      rw [hs.finished_eq, if_pos rfl, hcov.nodes _ hW, List.length_nil] at hle
      omega
  have hnodes : ∑ v ∈ W, ((tasks v).length - (c.node v).finished) =
      ∑ v ∈ W, ((tasks v).length - (c'.node v).finished) +
        ∑ v ∈ W, if v = a.node then a.act.ends else 0 := by
    rw [← Finset.sum_add_distrib]
    refine Finset.sum_congr rfl fun v _ => ?_
    have hle := hg'.finished_le v
    have hfin := hs.finished_eq v
    omega
  have hlinks : ∑ l ∈ L, ((base C (sys.src l) (tasks (sys.src l)).length .out l -
        reached C c g (sys.src l) .out l) +
      (base C (sys.dst l) (tasks (sys.dst l)).length .inn l - reached C c g (sys.dst l) .inn l)) =
      ∑ l ∈ L, ((base C (sys.src l) (tasks (sys.src l)).length .out l -
        reached C c' g' (sys.src l) .out l) +
      (base C (sys.dst l) (tasks (sys.dst l)).length .inn l - reached C c' g' (sys.dst l) .inn l)) +
      ∑ l ∈ L, ((a.act.pushed l).length + (a.act.pulled l).length) := by
    rw [← Finset.sum_add_distrib]
    refine Finset.sum_congr rfl fun l _ => ?_
    have hout := hg'.reached_le (sys.src l) .out l
    have hinn := hg'.reached_le (sys.dst l) .inn l
    have h1 := (hadv l).1
    have h2 := (hadv l).2
    omega
  rw [todo, todo, hnodes, hlinks, ← hends, a.act.work_eq hstill]
  omega

/-- **The work of a run is what it takes off.** -/
theorem Consistent.run_todo (hF : Fits sys C B) (hev : ∀ e : E, ∃ sd, sys.event sd = e)
    (hcov : Covers sys tasks C W L) (hc : Consistent K B c g) {F : Flow τ}
    {ls : List (Label V τ β E)} (h : Run sys F tasks c ls c') :
    ∃ g', Consistent K B c' g' ∧ work ls + todo sys tasks C W L c' g' = todo sys tasks C W L c g := by
  induction h with
  | nil => exact ⟨g, hc, Nat.zero_add _⟩
  | @snoc ls c₁ c₂ a _ hs ih =>
    obtain ⟨g₁, hg₁, h₁⟩ := ih
    obtain ⟨g₂, hg₂, h₂⟩ := hg₁.step_todo hF hev hcov hs
    refine ⟨g₂, hg₂, ?_⟩
    rw [work_append]
    change work ls + (a.act.work + 0) + _ = _
    omega

/-- The work of all tasks. -/
def allWork (sys : System V τ β T S M E) (tasks : V → List T) (C : V → Nat → Terms τ β) (W : Finset V)
    (L : Finset τ) : Nat :=
  ∑ v ∈ W, (tasks v).length + ∑ l ∈ L, (base C (sys.src l) (tasks (sys.src l)).length .out l +
    base C (sys.dst l) (tasks (sys.dst l)).length .inn l)

/-- **A run does at most the work of its tasks**, and just this when all of them are finished. -/
theorem Run.work_eq (hF : Fits sys C B) (hev : ∀ e : E, ∃ sd, sys.event sd = e) {m₀ : V → M}
    (h0 : ∀ v, At v 0 (m₀ v)) (K : Contracts sys tasks C At) (hcov : Covers sys tasks C W L)
    {F : Flow τ} {ls : List (Label V τ β E)} (h : Run sys F tasks (.start m₀) ls c) :
    work ls ≤ allWork sys tasks C W L ∧
      ((∀ v, (c.node v).finished = (tasks v).length) → work ls = allWork sys tasks C W L) := by
  obtain ⟨g, hg, hwork⟩ := (Consistent.start (K := K) (B := B) h0).run_todo hF hev hcov h
  have hall : todo sys tasks C W L (.start m₀) (fun _ => Acct.zero) = allWork sys tasks C W L := by
    unfold todo allWork
    simp [Config.start, reached, base]
  refine ⟨by omega, fun hfin => ?_⟩
  have hnone : todo sys tasks C W L c g = 0 := by
    have hnodes : ∀ v ∈ W, (tasks v).length - (c.node v).finished = 0 := fun v _ => by
      rw [hfin v, Nat.sub_self]
    rw [todo, Finset.sum_eq_zero hnodes, Nat.zero_add]
    refine Finset.sum_eq_zero fun l _ => ?_
    rw [hg.reached_end (hfin _), hg.reached_end (hfin _), Nat.sub_self, Nat.sub_self, Nat.add_zero]
  omega

/-! ## 4. The way to the end -/

/-- **All calls in progress can be brought to their ends.** -/
theorem Consistent.settles (hF : Fits sys C B) (hev : ∀ e : E, ∃ sd, sys.event sd = e)
    (hcov : Covers sys tasks C W L) (cap : τ → Nat) (hc : Consistent K B c g) (s : Finset V) :
    ∃ ls c', Run sys (Flow.full cap) tasks c ls c' ∧ ∀ v ∈ s, ∀ p, (c'.node v).mode ≠ .busy p := by
  induction s using Finset.induction_on with
  | empty => exact ⟨[], c, .nil, fun v hv => absurd hv (Finset.notMem_empty v)⟩
  | insert v s hv ih =>
    obtain ⟨ls, c₁, hr, hs⟩ := ih
    by_cases hb : ∃ p, (c₁.node v).mode = .busy p
    · obtain ⟨p, hp⟩ := hb
      obtain ⟨g₁, hg₁, -⟩ := hc.run_todo hF hev hcov hr
      obtain ⟨ls', c₂, hr', hall, hq⟩ := hg₁.call_ends hF hev cap p hp
      refine ⟨_, c₂, hr.trans hr', fun w hw => ?_⟩
      by_cases e : w = v
      · rw [e]
        exact hq
      · rw [hr'.other (fun a ha => (hall a ha).1) e]
        exact hs w ((Finset.mem_insert.mp hw).resolve_left e)
    · refine ⟨ls, c₁, hr, fun w hw p hp => ?_⟩
      rcases Finset.mem_insert.mp hw with rfl | hw
      · exact hb ⟨p, hp⟩
      · exact hs w hw p hp

/-- **From every configuration a run reaches there is a way on to the end of all tasks**, over pipes of
    any capacity. -/
theorem Run.completes {ι : Type} [LinearOrder ι] [WellFoundedLT ι] (hF : Fits sys C B)
    (hev : ∀ e : E, ∃ sd, sys.event sd = e) {m₀ : V → M} (h0 : ∀ v, At v 0 (m₀ v)) {σ : τ → Nat → ι}
    {total : τ → Nat} (St : Stamps K σ total) {cap : τ → Nat} (hcap : ∀ l, 0 < cap l)
    (hcov : Covers sys tasks C W L) {ls : List (Label V τ β E)}
    (h : Run sys (Flow.full cap) tasks (.start m₀) ls c) :
    ∃ ls' c', Run sys (Flow.full cap) tasks c ls' c' ∧
      ∀ v, (c'.node v).finished = (tasks v).length := by
  obtain ⟨g, hc⟩ := h.consistent (K := K) hF hev h0
  -- by induction on what is left to do
  induction hn : todo sys tasks C W L c g using Nat.strong_induction_on generalizing ls c g with
  | _ n ih =>
    obtain ⟨ls₁, c₁, hr₁, hidle⟩ := hc.settles hF hev hcov cap W
    obtain ⟨g₁, hc₁, -⟩ := hc.run_todo hF hev hcov hr₁
    by_cases hleft : ∃ v, (c₁.node v).finished < (tasks v).length
    · have hbusy : ∀ v p, (c₁.node v).mode ≠ .busy p := by
        intro v p hm
        have hv : v ∈ W := by
          by_contra hout
          have hnode := hc₁.node v
          simp only [NodeOk, hm] at hnode
          obtain ⟨t, ht, -⟩ := hnode
          rw [hcov.nodes v hout] at ht
          cases ht
        exact hidle v hv p hm
      rcases (h.trans hr₁).progress hF hev h0 St hcap hleft with ⟨v, p, hm, -⟩ | ⟨v, -, hmoves⟩
      · exact absurd hm (hbusy v p)
      · obtain ⟨a, c₂, hs, -, -, ls₃, c₃, hr₃, -, b, hb, hprod⟩ := hmoves
        have hrun := (hr₁.snoc hs).trans hr₃
        obtain ⟨g₃, hc₃, hwork⟩ := hc.run_todo hF hev hcov hrun
        have hpos := work_pos (List.mem_append_right (ls₁ ++ [a]) hb) hprod
        obtain ⟨ls', c', hr', hfin⟩ := ih _ (by omega) (h.trans hrun) g₃ hc₃ rfl
        exact ⟨_, c', hrun.trans hr', hfin⟩
    · refine ⟨ls₁, c₁, hr₁, fun v => ?_⟩
      have hle := hc₁.finished_le v
      by_contra hne
      exact hleft ⟨v, by omega⟩

end Todo

end OriginCCL.Net
