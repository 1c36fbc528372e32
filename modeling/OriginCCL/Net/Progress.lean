/-
  File:      OriginCCL/Net/Progress.lean
  Subject:   NO DEADLOCK over bounded pipes.

  Nodes that exchange bytes over bounded pipes can wait for each other in a circle. What excludes it
  is an order: every byte of every link carries a STAMP, the same for its sender and its receiver,
  and a node that does not yet serve a link end serves one with a smaller stamp first.

  * `Contract.Paced` -- the rule for one task: an end with bytes left is served, or an end with a
    smaller stamp is.
  * `Stamps` -- the stamps of a whole task list, over any well-founded linear order.
  * `Run.progress` -- **while some node has an unfinished task, a call in progress can go on, or there
    is a node whose next call moves a byte or finishes its task**, whatever the capacities: take the
    link whose first byte not received has the least stamp. If the byte is queued its receiver takes
    it, otherwise its sender has room to send it; a node that does neither serves a smaller stamp.
-/
import Mathlib.Order.WellFounded
import OriginCCL.Net.System

namespace OriginCCL.Net

section Calls

variable {V τ β T S M E : Type} [DecidableEq V] [DecidableEq τ]

/-! ## 1. What the next call of a node does -/

/-- A step inside a call. -/
def Act.inside : Act τ β E → Prop
  | .call => False
  | .step _ => False
  | _ => True

/-- A step that moves at least one byte or finishes the task. -/
def Act.productive : Act τ β E → Prop
  | .push _ bs => bs ≠ []
  | .pull _ bs => bs ≠ []
  | .finish => True
  | _ => False

variable (sys : System V τ β T S M E) (F : Flow τ) (tasks : V → List T)

/-- Running only the call `v` is in, a byte moves or the task is finished. -/
def CallMoves (c : Config V τ β S M) (v : V) : Prop :=
  ∃ ls c', Run sys F tasks c ls c' ∧ (∀ a ∈ ls, a.node = v ∧ a.act.inside) ∧
    ∃ a ∈ ls, a.act.productive

/-- **The next call of `v`** -- its first one of a task, or one for a direction that is still
    pending -- moves a byte or finishes the task. -/
def NextCallMoves (c : Config V τ β S M) (v : V) : Prop :=
  ∃ a c', Step sys F tasks c a c' ∧ a.node = v ∧
    (a.act = .call ∨ ∃ t s sd l, (tasks v)[(c.node v).finished]? = some t ∧
      (c.node v).mode = .idle s ∧ sys.waits t s sd l ∧ a.act = .step (sys.event sd)) ∧
    CallMoves sys F tasks c' v

variable {sys F tasks}

theorem Run.cons {c c' c'' : Config V τ β S M} {a : Label V τ β E} {ls : List (Label V τ β E)}
    (h : Step sys F tasks c a c') (hr : Run sys F tasks c' ls c'') :
    Run sys F tasks c (a :: ls) c'' := by
  induction hr with
  | nil => exact .snoc .nil h
  | snoc _ hs ih => exact .snoc ih hs

/-- One step that moves a byte is enough. -/
theorem CallMoves.here {c c' : Config V τ β S M} {a : Label V τ β E}
    (h : Step sys F tasks c a c') (hi : a.act.inside) (hp : a.act.productive) :
    CallMoves sys F tasks c a.node :=
  ⟨[a], c', .snoc .nil h, fun b hb => by rw [List.mem_singleton.mp hb]; exact ⟨rfl, hi⟩,
    a, List.mem_singleton.mpr rfl, hp⟩

theorem CallMoves.later {c c' : Config V τ β S M} {a : Label V τ β E}
    (h : Step sys F tasks c a c') (hi : a.act.inside) (hp : CallMoves sys F tasks c' a.node) :
    CallMoves sys F tasks c a.node := by
  obtain ⟨ls, c'', hr, hall, b, hb, hprod⟩ := hp
  refine ⟨a :: ls, c'', .cons h hr, fun x hx => ?_, b, List.mem_cons_of_mem _ hb, hprod⟩
  rcases List.mem_cons.mp hx with rfl | hx
  · exact ⟨rfl, hi⟩
  · exact hall x hx

/-- There is something to move at a link end: room to send, or a byte to receive. -/
def Room (cap : τ → Nat) (c : Config V τ β S M) : Side → τ → Prop
  | .out, l => (c.link l).length < cap l
  | .inn, l => 0 < (c.link l).length

/-- What the run of a call reaches if no link has anything to move: an offer at an end with room, or
    the end of the task. -/
def Prog.wins (done : S → Bool) (room : Side → τ → Prop) (p : Prog τ β S) : Prop :=
  (∃ s, p.zeroRun = some s ∧ done s = true) ∨ ∃ sd l, p.offers sd l ∧ room sd l

/-- **A call that offers a transfer where there is room, or ends its task, moves a byte or finishes
    the task**, also when other transfers of the same call come first. -/
theorem CallMoves.of_wins {cap : τ → Nat} {v : V} {t : T} {p : Prog τ β S} :
    ∀ {c : Config V τ β S M}, (tasks v)[(c.node v).finished]? = some t →
      (c.node v).mode = .busy p → p.wins (sys.done t) (Room cap c) →
      CallMoves sys (Flow.full cap) tasks c v := by
  induction p with
  | ret s =>
    intro c ht hm hw
    rcases hw with ⟨s', hz, hd⟩ | ⟨_, _, hoff, _⟩
    · cases hz
      exact .here (Step.finish c v t s ht hm hd) trivial trivial
    · exact hoff.elim
  | fail e =>
    intro c ht hm hw
    rcases hw with ⟨s', hz, _⟩ | ⟨_, _, hoff, _⟩
    · cases hz
    · exact hoff.elim
  | send l data k ih =>
    intro c ht hm hw
    have hs : Step sys (Flow.full cap) tasks c _ _ := .push c v l data k
      (min data.length (cap l - (c.link l).length)) hm (Nat.min_le_left ..) rfl
    by_cases hn : min data.length (cap l - (c.link l).length) = 0
    · rw [hn] at hs
      refine .later hs trivial (ih (some 0) ?_ ?_ ?_)
      · rw [Config.setLink_node, Config.setMode_finished]
        exact ht
      · rw [Config.setLink_node, Config.setMode, Config.setNode_self]
      · have hlink : ∀ l', ((c.setMode v (.busy (k (some 0)))).setLink l
            (c.link l ++ data.take 0)).link l' = c.link l' := by
          intro l'
          by_cases e : l' = l
          · subst e; rw [Config.setLink_self, List.take_zero, List.append_nil]
          · rw [Config.setLink_ne _ _ e]; rfl
        have hroom : ∀ sd l', Room cap ((c.setMode v (.busy (k (some 0)))).setLink l
            (c.link l ++ data.take 0)) sd l' ↔ Room cap c sd l' := by
          intro sd l'
          cases sd <;> simp only [Room, hlink]
        rcases hw with hz | ⟨sd, l', (⟨rfl, rfl, hne⟩ | hoff), hr⟩
        · exact Or.inl hz
        · -- an offer with room cannot move nothing
          have : 0 < data.length := List.length_pos_of_ne_nil hne
          simp only [Room] at hr
          omega
        · exact Or.inr ⟨sd, l', hoff, (hroom sd l').mpr hr⟩
    · refine .here hs trivial fun hnil => hn ?_
      have := congrArg List.length hnil
      rw [List.length_take, List.length_nil] at this
      omega
  | recv l size k ih =>
    intro c ht hm hw
    have hs : Step sys (Flow.full cap) tasks c _ _ := .pull c v l size k
      (min size (c.link l).length) hm (Nat.min_le_left ..) (Nat.min_le_right ..) rfl
    by_cases hn : min size (c.link l).length = 0
    · rw [hn, List.take_zero, List.drop_zero] at hs
      refine .later hs trivial (ih (some []) ?_ ?_ ?_)
      · rw [Config.setLink_node, Config.setMode_finished]
        exact ht
      · rw [Config.setLink_node, Config.setMode, Config.setNode_self]
      · have hlink : ∀ l', ((c.setMode v (.busy (k (some [])))).setLink l (c.link l)).link l' =
            c.link l' := by
          intro l'
          by_cases e : l' = l
          · subst e; rw [Config.setLink_self]
          · rw [Config.setLink_ne _ _ e]; rfl
        have hroom : ∀ sd l', Room cap ((c.setMode v (.busy (k (some [])))).setLink l (c.link l))
            sd l' ↔ Room cap c sd l' := by
          intro sd l'
          cases sd <;> simp only [Room, hlink]
        rcases hw with hz | ⟨sd, l', (⟨rfl, rfl, hpos⟩ | hoff), hr⟩
        · exact Or.inl hz
        · simp only [Room] at hr
          omega
        · exact Or.inr ⟨sd, l', hoff, (hroom sd l').mpr hr⟩
    · refine .here hs trivial fun hnil => hn ?_
      have := congrArg List.length hnil
      rw [List.length_take, List.length_nil] at this
      omega

end Calls

/-! ## 2. Stamps -/

section Stamped

variable {V τ β T S M E ι : Type} [DecidableEq V] [DecidableEq τ] [LinearOrder ι]

/-- **The rule for one task**: a state that is not done waits for some end; it waits only for ends
    with bytes left; and for every end with bytes left it waits for that end, or for one whose next
    byte has a smaller stamp. -/
structure Contract.Paced {sys : System V τ β T S M E} {t : T} {C : Terms τ β} {Pre Post : M → Prop}
    (K : Contract sys t C Pre Post) (σ : Side → τ → Nat → ι) : Prop where
  waits_left : ∀ s n sd l, K.Inv s n → sys.done t s = false → sys.waits t s sd l →
    C.owns sd l ∧ n sd l < C.upto sd l
  waits_some : ∀ s n, K.Inv s n → sys.done t s = false → ∃ sd l, sys.waits t s sd l
  serves : ∀ s n sd l, K.Inv s n → sys.done t s = false → C.owns sd l → n sd l < C.upto sd l →
    sys.waits t s sd l ∨
      ∃ sd' l', sys.waits t s sd' l' ∧ σ sd' l' (n sd' l') < σ sd l (n sd l)

variable {sys : System V τ β T S M E} {tasks : V → List T} {C : V → Nat → Terms τ β}
  {At : V → Nat → M → Prop} {B : τ → Nat → β → Prop}

/-- **The stamps of the task lists**: `σ l p` belongs to the byte at place `p` of link `l`. -/
structure Stamps (K : Contracts sys tasks C At) (σ : τ → Nat → ι) (total : τ → Nat) : Prop where
  mono : ∀ l p p', p ≤ p' → p' < total l → σ l p ≤ σ l p'
  out_total : ∀ l, base C (sys.src l) (tasks (sys.src l)).length .out l = total l
  inn_total : ∀ l, base C (sys.dst l) (tasks (sys.dst l)).length .inn l = total l
  paced : ∀ v k t ht, (K v k t ht).Paced fun sd l j => σ l (base C v k sd l + j)
  later : ∀ v k k' sd sd' l l' j j', k < k' → k' < (tasks v).length →
    (C v k).owns sd l → j < (C v k).upto sd l → (C v k').owns sd' l' → j' < (C v k').upto sd' l' →
    σ l (base C v k sd l + j) < σ l' (base C v k' sd' l' + j') ∨ (sd = sd' ∧ l = l')

/-! ## 3. Progress -/

variable {K : Contracts sys tasks C At} {c : Config V τ β S M} {g : V → Acct τ} {cap : τ → Nat}

/-- **What an unfinished node between two calls can do**: its next call moves something, or shows a
    state of its contract in which every end it waits on has nothing to move. -/
theorem Consistent.view (hc : Consistent K B c g) (cap : τ → Nat) {v : V}
    (hv : (c.node v).finished < (tasks v).length) (hb : ∀ p, (c.node v).mode ≠ .busy p) :
    ∃ t, ∃ ht : (tasks v)[(c.node v).finished]? = some t,
      NextCallMoves sys (Flow.full cap) tasks c v ∨
      ∃ s, (K v _ t ht).Inv s (g v).count ∧ sys.done t s = false ∧
        ∀ sd l, sys.waits t s sd l → Room cap c sd l →
          NextCallMoves sys (Flow.full cap) tasks c v := by
  have hn := hc.node v
  cases hm : (c.node v).mode with
  | busy p => exact absurd hm (hb p)
  | fresh m =>
    simp only [NodeOk, hm] at hn
    obtain ⟨-, hz, hat⟩ := hn
    have ht := List.getElem?_eq_getElem hv
    have hcount : (Acct.zero : Acct τ).count = (g v).count := by funext sd l; rw [hz]; rfl
    have hcall : Step sys (Flow.full cap) tasks c _ _ := .call c v _ m ht hm
    have hnext : ((c.setMode v (.busy (sys.init ((tasks v)[(c.node v).finished]) m))).node v).mode =
        .busy (sys.init ((tasks v)[(c.node v).finished]) m) := by
      rw [Config.setMode, Config.setNode_self]
    have hwin : (sys.init ((tasks v)[(c.node v).finished]) m).wins
        (sys.done ((tasks v)[(c.node v).finished])) (Room cap c) →
        NextCallMoves sys (Flow.full cap) tasks c v := fun hw =>
      ⟨_, _, hcall, rfl, Or.inl rfl, .of_wins (by rw [Config.setMode_finished]; exact ht) hnext hw⟩
    obtain ⟨s, g', hrun, ⟨hset, htried⟩, hc', hoff⟩ :=
      Prog.wp_zero ((K v _ _ ht).init m hat)
    refine ⟨_, ht, ?_⟩
    cases hd : sys.done ((tasks v)[(c.node v).finished]) s with
    | true => exact Or.inl (hwin (Or.inl ⟨s, hrun, hd⟩))
    | false =>
      rw [hd] at hset
      rw [if_neg Bool.false_ne_true, hc', hcount] at hset
      refine Or.inr ⟨s, hset, hd, fun sd l hw hr => hwin (Or.inr ⟨sd, l, ?_, hr⟩)⟩
      exact (hoff sd l (htried hd sd l hw)).resolve_left id
  | idle s =>
    simp only [NodeOk, hm] at hn
    obtain ⟨t, ht, hd, hI⟩ := hn
    refine ⟨t, ht, Or.inr ⟨s, hI, hd, fun sd l hw hr => ?_⟩⟩
    have hstep : Step sys (Flow.full cap) tasks c _ _ := .step c v t s (sys.event sd) ht hm
    obtain ⟨s', g', hrun, ⟨hset, htried⟩, -, hoff⟩ :=
      Prog.wp_zero ((K v _ t ht).step s (g v) sd hI hd)
    refine ⟨_, _, hstep, rfl, Or.inr ⟨t, s, sd, l, ht, hm, hw, rfl⟩,
      .of_wins (t := t) (p := sys.step t (sys.event sd) s) (by rw [Config.setMode_finished]; exact ht)
        (by rw [Config.setMode, Config.setNode_self]) (Or.inr ⟨sd, l, ?_, hr⟩)⟩
    exact (hoff sd l (htried l hw)).resolve_left id

omit [DecidableEq V] in
/-- An end a node waits on has an unreceived byte, whose stamp is at most that of the node's own
    place. -/
theorem Consistent.unreceived (hF : Fits sys C B) (hc : Consistent K B c g)
    {σ : τ → Nat → ι} {total : τ → Nat} (St : Stamps K σ total) {v : V} {sd : Side} {l : τ}
    (hv : (c.node v).finished < (tasks v).length) (ho : (C v (c.node v).finished).owns sd l)
    (hl : (g v).count sd l < (C v (c.node v).finished).upto sd l) :
    reached C c g (sys.dst l) .inn l < total l ∧
      σ l (reached C c g (sys.dst l) .inn l) ≤ σ l (reached C c g v sd l) := by
  have hplace := hc.place l
  have htop : reached C c g v sd l < base C v (tasks v).length sd l := by
    have hm := base_mono C v sd l (Nat.succ_le_of_lt hv)
    rw [Nat.succ_eq_add_one, base_succ] at hm
    unfold reached
    omega
  cases sd with
  | out =>
    obtain rfl := hF.out_src _ _ _ ho
    rw [St.out_total] at htop
    exact ⟨by omega, St.mono _ _ _ (by omega) htop⟩
  | inn =>
    obtain rfl := hF.inn_dst _ _ _ ho
    rw [St.inn_total] at htop
    exact ⟨htop, le_refl _⟩

/-- **The least unreceived byte moves**: if the first unreceived byte of `l` has the least stamp, the
    node at the end `sd` of `l` that is next to move it makes progress. -/
theorem Consistent.least_moves (hF : Fits sys C B) (hc : Consistent K B c g)
    {σ : τ → Nat → ι} {total : τ → Nat} (St : Stamps K σ total)
    (hb : ∀ w p, (c.node w).mode ≠ .busy p) {l : τ} {v : V} (sd : Side)
    (hplace : reached C c g v sd l = reached C c g (sys.dst l) .inn l)
    (htotal : base C v (tasks v).length sd l = total l)
    (hleft : reached C c g (sys.dst l) .inn l < total l) (hroom : Room cap c sd l)
    (hmin : ∀ l', reached C c g (sys.dst l') .inn l' < total l' →
      ¬ σ l' (reached C c g (sys.dst l') .inn l') < σ l (reached C c g (sys.dst l) .inn l)) :
    (c.node v).finished < (tasks v).length ∧ NextCallMoves sys (Flow.full cap) tasks c v := by
  have hbound := hc.bound v sd l
  have hv : (c.node v).finished < (tasks v).length := by
    by_contra hge
    have hm := base_mono C v sd l (Nat.le_of_not_lt hge)
    unfold reached at hplace hleft
    omega
  refine ⟨hv, ?_⟩
  obtain ⟨t, ht, hmoves | ⟨s, hI, hd, hserve⟩⟩ := hc.view cap hv (hb v)
  · exact hmoves
  have hpaced := St.paced v _ t ht
  -- an end the node waits on cannot have a smaller stamp than `l`
  have hno : ∀ sd' l', sys.waits t s sd' l' →
      ¬ σ l' (reached C c g v sd' l') < σ l (reached C c g v sd l) := by
    intro sd' l' hw hlt
    obtain ⟨ho, hn⟩ := hpaced.waits_left s _ sd' l' hI hd hw
    obtain ⟨h1, h2⟩ := hc.unreceived hF St hv ho hn
    rw [hplace] at hlt
    exact hmin l' h1 (lt_of_le_of_lt h2 hlt)
  by_cases hnow : (g v).count sd l < (C v (c.node v).finished).upto sd l
  · have ho : (C v (c.node v).finished).owns sd l := by
      by_contra ho
      rw [hF.stray _ _ _ _ ho] at hnow
      omega
    rcases hpaced.serves s _ sd l hI hd ho hnow with hw | ⟨sd', l', hw, hlt⟩
    · exact hserve sd l hw hroom
    · exact absurd hlt (hno sd' l' hw)
  · -- the byte belongs to a later task: the node must first serve the current one
    obtain ⟨sd', l', hw⟩ := hpaced.waits_some s _ hI hd
    obtain ⟨ho', hn'⟩ := hpaced.waits_left s _ sd' l' hI hd hw
    have hcur : base C v ((c.node v).finished + 1) sd l ≤ reached C c g v sd l := by
      rw [base_succ]
      unfold reached
      omega
    obtain ⟨k', hk', hlt', h1, h2⟩ := Base.exists_slot _ hcur (by
      change reached C c g v sd l < base C v (tasks v).length sd l
      omega)
    change base C v k' sd l ≤ _ at h1
    change _ < base C v k' sd l + (C v k').upto sd l at h2
    have ho : (C v k').owns sd l := by
      by_contra ho
      rw [hF.stray _ _ _ _ ho] at h2
      omega
    have hstamp := St.later v (c.node v).finished k' sd' sd l' l ((g v).count sd' l')
      (reached C c g v sd l - base C v k' sd l) (by omega) hlt' ho' hn' ho (by omega)
    rw [Nat.add_sub_cancel' h1] at hstamp
    rcases hstamp with hlt | ⟨rfl, rfl⟩
    · exact absurd hlt (hno sd' l' hw)
    · exact absurd hn' hnow

/-- A call in progress can always take its next step. -/
theorem Consistent.busy_step (hc : Consistent K B c g) {v : V} {p : Prog τ β S}
    (hm : (c.node v).mode = .busy p) :
    ∃ a c', Step sys (Flow.full cap) tasks c a c' ∧ a.node = v := by
  have hn := hc.node v
  simp only [NodeOk, hm] at hn
  obtain ⟨t, ht, hwp⟩ := hn
  cases p with
  | fail e => exact hwp.elim
  | ret s =>
    cases hd : sys.done t s with
    | true => exact ⟨_, _, .finish c v t s ht hm hd, rfl⟩
    | false => exact ⟨_, _, .ret c v t s ht hm hd, rfl⟩
  | send l data k => exact ⟨_, _, .push c v l data k _ hm (Nat.min_le_left ..) rfl, rfl⟩
  | recv l size k =>
    exact ⟨_, _, .pull c v l size k _ hm (Nat.min_le_left ..) (Nat.min_le_right ..) rfl, rfl⟩

/-- **No deadlock.** In every configuration a run reaches over pipes of capacity at least 1, while
    some node has an unfinished task: a call in progress can take its next step, or some unfinished
    node's next call moves a byte or finishes its task. -/
theorem Run.progress [WellFoundedLT ι] (hF : Fits sys C B) (hev : ∀ e : E, ∃ sd, sys.event sd = e)
    {m₀ : V → M} (h0 : ∀ v, At v 0 (m₀ v)) {σ : τ → Nat → ι} {total : τ → Nat}
    (St : Stamps K σ total) (hcap : ∀ l, 0 < cap l) {ls : List (Label V τ β E)}
    (h : Run sys (Flow.full cap) tasks (.start m₀) ls c)
    (hv : ∃ v, (c.node v).finished < (tasks v).length) :
    (∃ v p, (c.node v).mode = .busy p ∧
      ∃ a c', Step sys (Flow.full cap) tasks c a c' ∧ a.node = v) ∨
    ∃ v, (c.node v).finished < (tasks v).length ∧ NextCallMoves sys (Flow.full cap) tasks c v := by
  obtain ⟨g, hc⟩ := h.consistent (K := K) hF hev h0
  by_cases hbusy : ∃ v p, (c.node v).mode = .busy p
  · obtain ⟨v, p, hm⟩ := hbusy
    exact Or.inl ⟨v, p, hm, hc.busy_step hm⟩
  right
  have hb : ∀ w p, (c.node w).mode ≠ .busy p := fun w p hm => hbusy ⟨w, p, hm⟩
  let left : Set τ := {l | reached C c g (sys.dst l) .inn l < total l}
  by_cases hleft : left.Nonempty
  · -- the link whose first unreceived byte has the least stamp
    let key : τ → ι := fun l => σ l (reached C c g (sys.dst l) .inn l)
    have hwf : WellFounded fun l l' => key l < key l' := InvImage.wf key wellFounded_lt
    obtain ⟨l, hl, hmin⟩ := hwf.has_min left hleft
    have hp := hc.place l
    by_cases hq : (c.link l).length = 0
    · exact ⟨_, hc.least_moves hF St hb .out (by omega) (St.out_total l) hl
        (by simp only [Room]; have := hcap l; omega) hmin⟩
    · exact ⟨_, hc.least_moves hF St hb .inn rfl (St.inn_total l) hl
        (by simp only [Room]; omega) hmin⟩
  · obtain ⟨v, hv⟩ := hv
    refine ⟨v, hv, ?_⟩
    obtain ⟨t, ht, hmoves | ⟨s, hI, hd, -⟩⟩ := hc.view cap hv (hb v)
    · exact hmoves
    · -- a node that waits for some end has an unreceived byte there
      obtain ⟨sd, l, hw⟩ := (St.paced v _ t ht).waits_some s _ hI hd
      obtain ⟨ho, hn⟩ := (St.paced v _ t ht).waits_left s _ sd l hI hd hw
      exact absurd ⟨l, (hc.unreceived hF St hv ho hn).1⟩ hleft

end Stamped

end OriginCCL.Net
