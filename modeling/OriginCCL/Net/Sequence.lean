/-
  File:      OriginCCL/Net/Sequence.lean
  Subject:   TASKS IN SEQUENCE do not mix their bytes.

  The links carry no framing: where the bytes of one task end and those of the next begin is known
  to the two nodes by counting only. If the budgets of the two ends of every link agree task by task
  (`Aligned`), counting is enough.

  * `Run.balanced` -- when the receiver has finished a task it has taken exactly the bytes the
    sender put on the link for that task.
  * `NodeOk.moment` -- the counts and the memory of a node at any moment, also during a call.
  * `Run.alone` -- **the steps of one task, taken out of the run, are a run of that task alone** from
    the memories its nodes started it with.
-/
import OriginCCL.Net.System

namespace OriginCCL.Net

/-! ## 1. Segments of a stream -/

section Segments

variable {β : Type}

/-- The `n` bytes of a stream from place `b` on, as far as the stream has got. -/
def segment (b n : Nat) (xs : List β) : List β := (xs.drop b).take n

theorem segment_prefix {b n : Nat} {xs ys : List β} (h : xs <+: ys) :
    segment b n xs <+: segment b n ys := by
  obtain ⟨zs, rfl⟩ := h
  unfold segment
  rw [List.drop_append, List.take_append]
  exact List.prefix_append ..

theorem segment_length_of_le {b n : Nat} {xs : List β} (h : b + n ≤ xs.length) :
    (segment b n xs).length = n := by
  unfold segment
  rw [List.length_take, List.length_drop]
  omega

/-- New bytes after the end of a segment do not change it. -/
theorem segment_append_before {b n : Nat} {xs : List β} (bs : List β) (h : b + n ≤ xs.length) :
    segment b n (xs ++ bs) = segment b n xs := by
  have := segment_prefix (b := b) (n := n) (List.prefix_append xs bs)
  refine (this.eq_of_length ?_).symm
  rw [segment_length_of_le h, segment_length_of_le (by rw [List.length_append]; omega)]

/-- New bytes before the start of a segment leave it empty. -/
theorem segment_append_after {b n : Nat} {xs bs : List β} (h : xs.length + bs.length ≤ b) :
    segment b n (xs ++ bs) = segment b n xs := by
  unfold segment
  rw [List.drop_eq_nil_of_le (by rw [List.length_append]; omega),
    List.drop_eq_nil_of_le (by omega)]

/-- New bytes inside a segment extend it. -/
theorem segment_append_inside {b n : Nat} {xs bs : List β} (hb : b ≤ xs.length)
    (hn : xs.length + bs.length ≤ b + n) : segment b n (xs ++ bs) = segment b n xs ++ bs := by
  unfold segment
  rw [List.drop_append_of_le_length hb, List.take_of_length_le, List.take_of_length_le]
  · rw [List.length_drop]; omega
  · rw [List.length_append, List.length_drop]; omega

end Segments

/-! ## 2. What a run moved, and what it moved for one task -/

section History

variable {V τ β T S M E : Type} [DecidableEq V] [DecidableEq τ]

/-- The bytes a run put on a link. -/
def sent (ls : List (Label V τ β E)) (l : τ) : List β := ls.flatMap fun a => a.act.pushed l

/-- The bytes a run took off a link. -/
def got (ls : List (Label V τ β E)) (l : τ) : List β := ls.flatMap fun a => a.act.pulled l

/-- The steps of a run that belong to the `k`-th task of their node. -/
def ofTask (k : Nat) (ls : List (Label V τ β E)) : List (Label V τ β E) :=
  ls.filter fun a => decide (a.task = k)

omit [DecidableEq V] in
theorem sent_snoc (ls : List (Label V τ β E)) (a : Label V τ β E) (l : τ) :
    sent (ls ++ [a]) l = sent ls l ++ a.act.pushed l := by
  simp [sent]

omit [DecidableEq V] in
theorem got_snoc (ls : List (Label V τ β E)) (a : Label V τ β E) (l : τ) :
    got (ls ++ [a]) l = got ls l ++ a.act.pulled l := by
  simp [got]

omit [DecidableEq V] [DecidableEq τ] in
theorem ofTask_snoc_self {k : Nat} (ls : List (Label V τ β E)) {a : Label V τ β E}
    (h : a.task = k) : ofTask k (ls ++ [a]) = ofTask k ls ++ [a] := by
  simp [ofTask, h]

omit [DecidableEq V] [DecidableEq τ] in
theorem ofTask_snoc_ne {k : Nat} (ls : List (Label V τ β E)) {a : Label V τ β E}
    (h : a.task ≠ k) : ofTask k (ls ++ [a]) = ofTask k ls := by
  simp [ofTask, h]

variable {sys : System V τ β T S M E} {tasks : V → List T} {C : V → Nat → Terms τ β}
  {At : V → Nat → M → Prop} {B : τ → Nat → β → Prop} {F : Flow τ} {m₀ : V → M}

/-- A link is a FIFO: what was sent is what was received and what is still queued. -/
theorem Run.fifo {ls : List (Label V τ β E)} {c : Config V τ β S M}
    (h : Run sys F tasks (.start m₀) ls c) (l : τ) : sent ls l = got ls l ++ c.link l := by
  induction h with
  | nil => rfl
  | snoc _ hs ih =>
    rw [sent_snoc, got_snoc, ih]
    cases hs with
    | call v t m ht hm => simp [Act.pushed, Act.pulled, Config.setMode]
    | step v t s e ht hm => simp [Act.pushed, Act.pulled, Config.setMode]
    | ret v t s ht hm hd => simp [Act.pushed, Act.pulled, Config.setMode]
    | finish v t s ht hm hd => simp [Act.pushed, Act.pulled]
    | push v l' data k n hm hn _ =>
      by_cases e : l = l'
      · subst e; simp [Act.pushed, Act.pulled]
      · rw [Config.setLink_ne _ _ e]
        simp [Act.pushed, Act.pulled, Ne.symm e, Config.setMode]
    | pull v l' size k n hm hn hq _ =>
      by_cases e : l = l'
      · subst e; simp [Act.pushed, Act.pulled]
      · rw [Config.setLink_ne _ _ e]
        simp [Act.pushed, Act.pulled, Ne.symm e, Config.setMode]

/-- Every label carries the number of the task its node is in. -/
theorem Step.task_eq {c c' : Config V τ β S M} {a : Label V τ β E} (h : Step sys F tasks c a c') :
    a.task = (c.node a.node).finished := by
  cases h <;> rfl

/-- The state of the history at one link end: all bytes moved so far are counted by the place, and
    the bytes of each task are its segment of the stream. -/
structure Counted (C : V → Nat → Terms τ β) (v : V) (sd : Side) (l : τ) (place : Nat)
    (all : List β) (of : Nat → List β) : Prop where
  all_length : all.length = place
  segments : ∀ k, of k = segment (base C v k sd l) ((C v k).upto sd l) all

omit [DecidableEq V] [DecidableEq τ] in
/-- Moving bytes inside the budget of the current task keeps the history counted. -/
theorem Counted.move {v : V} {sd : Side} {l : τ} {place : Nat} {all bs : List β}
    {of of' : Nat → List β} (h : Counted C v sd l place all of) (k₀ n₀ : Nat)
    (hp : place = base C v k₀ sd l + n₀) (hb : n₀ + bs.length ≤ (C v k₀).upto sd l)
    (hself : of' k₀ = of k₀ ++ bs) (hne : ∀ k, k ≠ k₀ → of' k = of k) :
    Counted C v sd l (place + bs.length) (all ++ bs) of' := by
  have hlen := h.all_length
  refine ⟨by rw [List.length_append, hlen], fun k => ?_⟩
  rcases lt_trichotomy k k₀ with hlt | rfl | hgt
  · have hm := base_mono C v sd l (Nat.succ_le_of_lt hlt)
    rw [Nat.succ_eq_add_one, base_succ] at hm
    rw [hne k (by omega), h.segments, segment_append_before _ (by omega)]
  · rw [hself, h.segments, segment_append_inside (by omega) (by omega)]
  · have hm := base_mono C v sd l (Nat.succ_le_of_lt hgt)
    rw [Nat.succ_eq_add_one, base_succ] at hm
    rw [hne k (by omega), h.segments, segment_append_after (by omega)]

omit [DecidableEq V] [DecidableEq τ] in
theorem Counted.stay {v : V} {sd : Side} {l : τ} {place : Nat} {all : List β}
    {of of' : Nat → List β} (h : Counted C v sd l place all of) (he : ∀ k, of' k = of k) :
    Counted C v sd l place all of' :=
  ⟨h.all_length, fun k => by rw [he, h.segments]⟩

omit [DecidableEq V] [DecidableEq τ] in
/-- A transfer by the node in its current task extends that task's bytes, and no other task's. -/
theorem Counted.snoc {v : V} {sd : Side} {l : τ} {c c' : Config V τ β S M} {g g' : V → Acct τ}
    {ls : List (Label V τ β E)} {a : Label V τ β E} (moved : Act τ β E → List β)
    (h : Counted C v sd l (reached C c g v sd l) (ls.flatMap fun b => moved b.act)
      fun k => (ofTask k ls).flatMap fun b => moved b.act)
    (hb : (g' v).count sd l ≤ (C v (c'.node v).finished).upto sd l)
    (hadv : reached C c' g' v sd l = reached C c g v sd l + (moved a.act).length)
    (hstay : moved a.act ≠ [] → a.task = (c.node v).finished ∧
      (c'.node v).finished = (c.node v).finished) :
    Counted C v sd l (reached C c' g' v sd l) ((ls ++ [a]).flatMap fun b => moved b.act)
      fun k => (ofTask k (ls ++ [a])).flatMap fun b => moved b.act := by
  rw [List.flatMap_append, hadv]
  by_cases hm : moved a.act = []
  · have e : ([a] : List (Label V τ β E)).flatMap (fun b => moved b.act) = [] := by simp [hm]
    rw [e, List.append_nil, hm, List.length_nil, Nat.add_zero]
    refine h.stay fun k => ?_
    by_cases hk : a.task = k
    · rw [ofTask_snoc_self _ hk, List.flatMap_append, e, List.append_nil]
    · rw [ofTask_snoc_ne _ hk]
  · obtain ⟨ht, hf⟩ := hstay hm
    have e : ([a] : List (Label V τ β E)).flatMap (fun b => moved b.act) = moved a.act := by simp
    rw [e]
    refine h.move (c.node v).finished ((g v).count sd l) rfl ?_ ?_ ?_
    · unfold reached at hadv
      rw [hf] at hadv hb
      omega
    · rw [ofTask_snoc_self _ ht, List.flatMap_append, e]
    · intro k hk
      rw [ofTask_snoc_ne _ (by omega)]

/-- A step that moves bytes is a step of the node at the link's end and finishes no task. -/
theorem Step.moved (hF : Fits sys C B) {K : Contracts sys tasks C At} {c c' : Config V τ β S M}
    {g : V → Acct τ} {a : Label V τ β E} (hc : Consistent K B c g) (hs : Step sys F tasks c a c')
    (l : τ) :
    (a.act.pushed l ≠ [] → a.node = sys.src l ∧ ∀ w, (c'.node w).finished = (c.node w).finished) ∧
    (a.act.pulled l ≠ [] → a.node = sys.dst l ∧
      ∀ w, (c'.node w).finished = (c.node w).finished) := by
  cases hs with
  | call | step | ret | finish => simp [Act.pushed, Act.pulled]
  | push v l' data k n hm hn _ =>
    have hnode := hc.node v
    simp only [NodeOk, hm] at hnode
    obtain ⟨_, _, hown, -⟩ := hnode
    refine ⟨fun h => ?_, fun h => (h rfl).elim⟩
    obtain rfl : l' = l := by
      by_contra e
      exact h (by simp [Act.pushed, e])
    exact ⟨(hF.out_src _ _ _ hown).symm, fun w => Config.setMode_finished c v _ w⟩
  | pull v l' size k n hm hn hq _ =>
    have hnode := hc.node v
    simp only [NodeOk, hm] at hnode
    obtain ⟨_, _, hown, -⟩ := hnode
    refine ⟨fun h => (h rfl).elim, fun h => ?_⟩
    obtain rfl : l' = l := by
      by_contra e
      exact h (by simp [Act.pulled, e])
    exact ⟨(hF.inn_dst _ _ _ hown).symm, fun w => Config.setMode_finished c v _ w⟩

/-- **The history of a run is counted**: at both ends of every link the bytes of each task are its
    segment of the stream. -/
theorem Run.counted (hF : Fits sys C B) (hev : ∀ e : E, ∃ sd, sys.event sd = e)
    (h0 : ∀ v, At v 0 (m₀ v)) (K : Contracts sys tasks C At) {ls : List (Label V τ β E)}
    {c : Config V τ β S M} (h : Run sys F tasks (.start m₀) ls c) :
    ∃ g, Consistent K B c g ∧ ∀ l,
      Counted C (sys.src l) .out l (reached C c g (sys.src l) .out l) (sent ls l)
        (fun k => sent (ofTask k ls) l) ∧
      Counted C (sys.dst l) .inn l (reached C c g (sys.dst l) .inn l) (got ls l)
        (fun k => got (ofTask k ls) l) := by
  induction h with
  | nil =>
    refine ⟨_, .start h0, fun l => ⟨⟨?_, fun k => ?_⟩, ⟨?_, fun k => ?_⟩⟩⟩ <;>
      simp [sent, got, ofTask, segment, reached, base, Config.start]
  | snoc _ hs ih =>
    obtain ⟨g, hg, hcnt⟩ := ih
    obtain ⟨g', hg', hadv⟩ := hg.step hF hev hs
    refine ⟨g', hg', fun l => ⟨?_, ?_⟩⟩
    · refine (hcnt l).1.snoc (fun x => x.pushed l) (hg'.bound _ _ _) (hadv l).1 ?_
      intro hm
      obtain ⟨hnode, hfin⟩ := (hs.moved hF hg l).1 hm
      exact ⟨by rw [hs.task_eq, hnode], hfin _⟩
    · refine (hcnt l).2.snoc (fun x => x.pulled l) (hg'.bound _ _ _) (hadv l).2 ?_
      intro hm
      obtain ⟨hnode, hfin⟩ := (hs.moved hF hg l).2 hm
      exact ⟨by rw [hs.task_eq, hnode], hfin _⟩

/-- The bytes received for a task are the first of those sent for it. -/
theorem Run.got_initial (hF : Fits sys C B) (hev : ∀ e : E, ∃ sd, sys.event sd = e)
    (h0 : ∀ v, At v 0 (m₀ v)) (K : Contracts sys tasks C At) (ha : Aligned sys C)
    {ls : List (Label V τ β E)} {c : Config V τ β S M} (h : Run sys F tasks (.start m₀) ls c)
    (k : Nat) (l : τ) : got (ofTask k ls) l <+: sent (ofTask k ls) l := by
  obtain ⟨g, -, hcnt⟩ := h.counted hF hev h0 K
  have hs := (hcnt l).1.segments k
  have hg := (hcnt l).2.segments k
  beta_reduce at hs hg
  rw [hs, hg, ha.base_eq, ha]
  apply segment_prefix
  rw [h.fifo l]
  exact List.prefix_append ..

/-- **Balance**: a receiver that has finished a task has taken exactly the bytes its neighbour put
    on the link for that task, and they are as many as the terms say. -/
theorem Run.balanced (hF : Fits sys C B) (hev : ∀ e : E, ∃ sd, sys.event sd = e)
    (h0 : ∀ v, At v 0 (m₀ v)) (K : Contracts sys tasks C At) (ha : Aligned sys C)
    {ls : List (Label V τ β E)} {c : Config V τ β S M} (h : Run sys F tasks (.start m₀) ls c)
    {k : Nat} {l : τ} (hk : k < (c.node (sys.dst l)).finished) :
    got (ofTask k ls) l = sent (ofTask k ls) l ∧
      (got (ofTask k ls) l).length = (C (sys.dst l) k).upto .inn l := by
  have hpre := h.got_initial hF hev h0 K ha k l
  obtain ⟨g, -, hcnt⟩ := h.counted hF hev h0 K
  have hs := (hcnt l).1.segments k
  have hg := (hcnt l).2.segments k
  beta_reduce at hs hg
  have hlen : (got (ofTask k ls) l).length = (C (sys.dst l) k).upto .inn l := by
    rw [hg, segment_length_of_le]
    have hm := base_mono C (sys.dst l) .inn l (Nat.succ_le_of_lt hk)
    rw [Nat.succ_eq_add_one, base_succ] at hm
    have hl := (hcnt l).2.all_length
    unfold reached at hl
    omega
  refine ⟨hpre.eq_of_length_le ?_, hlen⟩
  rw [hlen, hs, ha]
  unfold segment
  rw [List.length_take]
  exact Nat.min_le_left ..

/-! ## 3. A node at any moment -/

omit [DecidableEq V] [DecidableEq τ] in
/-- The memory of a node; during a call, the one the call leaves if nothing more moves. -/
def Mode.memory (sys : System V τ β T S M E) : Mode τ β S M → Option M
  | .fresh m => some m
  | .idle s => some (sys.mem s)
  | .busy p => p.zeroRun.map sys.mem

omit [DecidableEq V] in
/-- **At any moment**, also during a call, a node is between two tasks, or its counts and its memory
    are those of a state in which a call of its task may end. -/
theorem NodeOk.moment {K : Contracts sys tasks C At} {v : V} {n : Node τ β S M} {g : Acct τ}
    (h : NodeOk K v n g) :
    (∃ m, n.mode.memory sys = some m ∧ n.finished ≤ (tasks v).length ∧ At v n.finished m ∧
      ∀ sd l, g.count sd l = 0) ∨
    ∃ t, ∃ ht : (tasks v)[n.finished]? = some t, ∃ s, n.mode.memory sys = some (sys.mem s) ∧
      (((C v n.finished).spent g.count ∧ At v (n.finished + 1) (sys.mem s)) ∨
        (K v n.finished t ht).Inv s g.count) := by
  unfold NodeOk at h
  cases hm : n.mode with
  | fresh m =>
    rw [hm] at h
    exact Or.inl ⟨m, rfl, h.1, h.2.2, h.2.1⟩
  | idle s =>
    rw [hm] at h
    obtain ⟨t, ht, -, hI⟩ := h
    exact Or.inr ⟨t, ht, s, rfl, Or.inr hI⟩
  | busy p =>
    rw [hm] at h
    obtain ⟨t, ht, hwp⟩ := h
    obtain ⟨s, g', hrun, hset, hcount, -⟩ := Prog.wp_zero hwp
    refine Or.inr ⟨t, ht, s, by rw [Mode.memory, hrun]; rfl, ?_⟩
    unfold Contract.Settled at hset
    rw [hcount] at hset
    split at hset
    · exact Or.inl hset
    · exact Or.inr hset

end History

/-! ## 4. One task, taken out of a run -/

section Alone

variable {V τ β T S M E : Type} [DecidableEq V] [DecidableEq τ]

/-- The task lists in which every node has only its `k`-th task. -/
def onlyTask (tasks : V → List T) (k : Nat) (v : V) : List T := ((tasks v)[k]?).toList

omit [DecidableEq V] in
theorem onlyTask_zero (tasks : V → List T) (k : Nat) (v : V) :
    (onlyTask tasks k v)[0]? = (tasks v)[k]? := by
  unfold onlyTask
  cases (tasks v)[k]? <;> rfl

/-- A node as the `k`-th task sees it, started from the memory `m`. -/
def Node.alone (k : Nat) (m : M) (n : Node τ β S M) : Node τ β S M :=
  if n.finished < k then ⟨0, .fresh m, []⟩
  else if n.finished = k then ⟨0, n.mode, []⟩
  else ⟨1, .fresh (n.past[k]?.getD m), [n.past[k]?.getD m]⟩

/-- A configuration as the `k`-th task sees it: the nodes before, in and after the task, and on the
    links the bytes sent for it and not yet received. -/
def Config.alone (k : Nat) (m : V → M) (ls : List (Label V τ β E)) (c : Config V τ β S M) :
    Config V τ β S M where
  node v := (c.node v).alone k (m v)
  link l := (sent (ofTask k ls) l).drop (got (ofTask k ls) l).length

/-- The memories the nodes started their tasks with are the first one and those their finished
    tasks left behind. -/
def Node.starts (m : M) (n : Node τ β S M) (k : Nat) : Option M := (m :: n.past)[k]?

/-- A node keeps the memory of every finished task, and works on from the last one. -/
structure Node.Kept (m : M) (n : Node τ β S M) : Prop where
  length : n.past.length = n.finished
  fresh : ∀ x, n.mode = .fresh x → n.starts m n.finished = some x

variable {sys : System V τ β T S M E} {tasks : V → List T} {F : Flow τ} {m₀ : V → M}

theorem Run.kept {ls : List (Label V τ β E)} {c : Config V τ β S M}
    (h : Run sys F tasks (.start m₀) ls c) (v : V) : (c.node v).Kept (m₀ v) := by
  induction h with
  | nil => exact ⟨rfl, fun x hx => by cases hx; rfl⟩
  | @snoc ls c c' a h hs ih =>
    have hmode : ∀ w (x : Mode τ β S M), (∀ m, x ≠ .fresh m) →
        ((c.setMode w x).node v).Kept (m₀ v) := by
      intro w x hx
      by_cases e : v = w
      · subst e
        rw [Config.setMode, Config.setNode_self]
        exact ⟨ih.length, fun m hm => absurd hm (hx m)⟩
      · rw [Config.setMode, Config.setNode_ne _ _ e]
        exact ih
    cases hs with
    | call w t m ht hm => exact hmode w _ (by simp)
    | step w t s e ht hm => exact hmode w _ (by simp)
    | push w l data k n hm hn _ => rw [Config.setLink_node]; exact hmode w _ (by simp)
    | pull w l size k n hm hn hq _ => rw [Config.setLink_node]; exact hmode w _ (by simp)
    | ret w t s ht hm hd => exact hmode w _ (by simp)
    | finish w t s ht hm hd =>
      by_cases e : v = w
      · subst e
        rw [Config.setNode_self]
        have hl := ih.length
        refine ⟨by simp [hl], fun x hx => ?_⟩
        cases hx
        simp [Node.starts, ← hl]
      · rw [Config.setNode_ne _ _ e]
        exact ih

/-- Finished tasks are not taken back, and their memories stay. -/
theorem Step.starts {c c' : Config V τ β S M} {a : Label V τ β E} (h : Step sys F tasks c a c')
    {v : V} {m x : M} {k : Nat} (hx : (c.node v).starts m k = some x) :
    (c'.node v).starts m k = some x := by
  have hmode : ∀ w (y : Mode τ β S M), ((c.setMode w y).node v).starts m k = some x := by
    intro w y
    by_cases e : v = w
    · subst e; rw [Config.setMode, Config.setNode_self]; exact hx
    · rw [Config.setMode, Config.setNode_ne _ _ e]; exact hx
  cases h with
  | call w t m ht hm => exact hmode w _
  | step w t s e ht hm => exact hmode w _
  | push w l data k n hm hn _ => rw [Config.setLink_node]; exact hmode w _
  | pull w l size k n hm hn hq _ => rw [Config.setLink_node]; exact hmode w _
  | ret w t s ht hm hd => exact hmode w _
  | finish w t s ht hm hd =>
    by_cases e : v = w
    · subst e
      rw [Config.setNode_self]
      unfold Node.starts at hx ⊢
      rw [← List.cons_append, List.getElem?_append_left (List.getElem?_eq_some_iff.mp hx).1]
      exact hx
    · rw [Config.setNode_ne _ _ e]
      exact hx

omit [DecidableEq V] [DecidableEq τ] in
theorem Node.alone_mode {n : Node τ β S M} {k : Nat} (h : n.finished ≠ k) (m : M)
    (x : Mode τ β S M) : ({ n with mode := x } : Node τ β S M).alone k m = n.alone k m := by
  simp [Node.alone, h]

omit [DecidableEq V] [DecidableEq τ] in
theorem Node.alone_self {n : Node τ β S M} {k : Nat} (h : n.finished = k) (m : M) :
    n.alone k m = ⟨0, n.mode, []⟩ := by
  simp [Node.alone, h]

/-- A step of another task is not seen by the `k`-th task. -/
theorem Step.alone_ne {c c' : Config V τ β S M} {a : Label V τ β E} (h : Step sys F tasks c a c')
    {k : Nat} (hk : a.task ≠ k) {v : V} {x m : M} (hkept : (c.node v).Kept x)
    (hm : ∀ y, (c'.node v).starts x k = some y → m = y) :
    (c'.node v).alone k m = (c.node v).alone k m := by
  have hmode : ∀ w (y : Mode τ β S M), (c.node w).finished ≠ k →
      ((c.setMode w y).node v).alone k m = (c.node v).alone k m := by
    intro w y hw
    by_cases e : v = w
    · subst e; rw [Config.setMode, Config.setNode_self]; exact Node.alone_mode hw m y
    · rw [Config.setMode, Config.setNode_ne _ _ e]
  cases h with
  | call w t m ht _ => exact hmode w _ hk
  | step w t s e ht _ => exact hmode w _ hk
  | push w l data k n _ hn _ => rw [Config.setLink_node]; exact hmode w _ hk
  | pull w l size k n _ hn hq _ => rw [Config.setLink_node]; exact hmode w _ hk
  | ret w t s ht _ hd => exact hmode w _ hk
  | finish w t s ht _ hd =>
    by_cases e : v = w
    · subst e
      rw [Config.setNode_self] at hm ⊢
      have hl := hkept.length
      rcases lt_trichotomy (c.node v).finished k with hlt | he | hgt
      · by_cases hs : (c.node v).finished + 1 = k
        · -- the node has just come to the task, with the memory it starts it with
          have hx : m = sys.mem s := by
            apply hm
            simp [Node.starts, ← hs, ← hl]
          simp [Node.alone, hs, hlt, hx]
        · simp [Node.alone, hlt, show (c.node v).finished + 1 < k by omega]
      · exact absurd he hk
      · have hget : ((c.node v).past ++ [sys.mem s])[k]? = (c.node v).past[k]? :=
          List.getElem?_append_left (by omega)
        simp [Node.alone, hget, show ¬ (c.node v).finished + 1 < k by omega,
          show (c.node v).finished + 1 ≠ k by omega, show ¬ (c.node v).finished < k by omega,
          show (c.node v).finished ≠ k by omega]
    · rw [Config.setNode_ne _ _ e]

omit [DecidableEq τ] in
theorem Config.alone_setMode {c : Config V τ β S M} {k : Nat} {m : V → M} {v : V}
    (hv : (c.node v).finished = k) (x : Mode τ β S M) (w : V) :
    ((c.setMode v x).node w).alone k (m w) =
      Function.update (fun u => (c.node u).alone k (m u)) v
        { (c.node v).alone k (m v) with mode := x } w := by
  by_cases e : w = v
  · subst e
    rw [Config.setMode, Config.setNode_self, Function.update_self, Node.alone_self hv,
      Node.alone_self (by exact hv)]
  · rw [Config.setMode, Config.setNode_ne _ _ e, Function.update_of_ne e]

/-- **A step of the `k`-th task is a step of that task alone.** -/
theorem Step.alone_self {c c' : Config V τ β S M} {a : Label V τ β E} (h : Step sys F tasks c a c')
    {k : Nat} (hk : a.task = k) {m : V → M} {ls : List (Label V τ β E)}
    (hkept : ∀ v, (c.node v).Kept (m₀ v))
    (hpre : ∀ l, got (ofTask k ls) l <+: sent (ofTask k ls) l)
    (hpre' : ∀ l, got (ofTask k (ls ++ [a])) l <+: sent (ofTask k (ls ++ [a])) l) :
    Step sys (Flow.any τ) (onlyTask tasks k) (c.alone k m ls) ⟨a.node, 0, a.act⟩
      (c'.alone k m (ls ++ [a])) := by
  have hquiet : (∀ l, a.act.pushed l = []) → (∀ l, a.act.pulled l = []) → ∀ l,
      (c'.alone k m (ls ++ [a])).link l = (c.alone k m ls).link l := by
    intro h1 h2 l
    simp only [Config.alone, ofTask_snoc_self _ hk, sent_snoc, got_snoc, h1, h2, List.append_nil]
  have hmode : ∀ v (x : Mode τ β S M), (c.node v).finished = k → c' = c.setMode v x →
      (∀ l, a.act.pushed l = []) → (∀ l, a.act.pulled l = []) →
      c'.alone k m (ls ++ [a]) = (c.alone k m ls).setMode v x := by
    intro v x hv hc h1 h2
    refine Config.ext ?_ (funext (hquiet h1 h2))
    subst hc
    funext w
    exact Config.alone_setMode hv x w
  have hnode : ∀ v, (c.node v).finished = k →
      (c.alone k m ls).node v = ⟨0, (c.node v).mode, []⟩ := fun v hv => Node.alone_self hv _
  cases h with
  | call v t x ht hm =>
    rw [hmode v _ hk rfl (fun _ => rfl) fun _ => rfl]
    have hv := hnode v hk
    have : Step sys (Flow.any τ) (onlyTask tasks k) (c.alone k m ls) _ _ := .call
      (c.alone k m ls) v t x (by rw [hv, onlyTask_zero, ← hk]; exact ht) (by rw [hv]; exact hm)
    rwa [hv] at this
  | step v t s e ht hm =>
    rw [hmode v _ hk rfl (fun _ => rfl) fun _ => rfl]
    have hv := hnode v hk
    have : Step sys (Flow.any τ) (onlyTask tasks k) (c.alone k m ls) _ _ := .step
      (c.alone k m ls) v t s e (by rw [hv, onlyTask_zero, ← hk]; exact ht) (by rw [hv]; exact hm)
    rwa [hv] at this
  | ret v t s ht hm hd =>
    rw [hmode v _ hk rfl (fun _ => rfl) fun _ => rfl]
    have hv := hnode v hk
    have : Step sys (Flow.any τ) (onlyTask tasks k) (c.alone k m ls) _ _ := .ret
      (c.alone k m ls) v t s (by rw [hv, onlyTask_zero, ← hk]; exact ht) (by rw [hv]; exact hm) hd
    rwa [hv] at this
  | finish v t s ht hm hd =>
    have hv := hnode v hk
    have : Step sys (Flow.any τ) (onlyTask tasks k) (c.alone k m ls) _ _ := .finish
      (c.alone k m ls) v t s (by rw [hv, onlyTask_zero, ← hk]; exact ht) (by rw [hv]; exact hm) hd
    rw [hv] at this
    have e : (c.setNode v ⟨(c.node v).finished + 1, .fresh (sys.mem s),
        (c.node v).past ++ [sys.mem s]⟩).alone k m (ls ++ [⟨v, (c.node v).finished, .finish⟩]) =
        (c.alone k m ls).setNode v ⟨0 + 1, .fresh (sys.mem s), [] ++ [sys.mem s]⟩ := by
      refine Config.ext ?_ (funext (hquiet (fun _ => rfl) fun _ => rfl))
      funext w
      by_cases e : w = v
      · subst e
        have hl := (hkept w).length
        have hget : ((c.node w).past ++ [sys.mem s])[k]? = some (sys.mem s) := by
          rw [← hk, ← hl]; simp
        have hk' : (c.node w).finished = k := hk
        simp [Config.alone, Node.alone, Config.setNode_self, hget, hk']
      · rw [Config.setNode_ne _ _ e]
        simp only [Config.alone, Config.setNode_ne _ _ e]
    rw [e]
    exact this
  | push v l data p n hm hn hF =>
    have hv := hnode v hk
    have : Step sys (Flow.any τ) (onlyTask tasks k) (c.alone k m ls) _ _ := .push
      (c.alone k m ls) v l data p n (by rw [hv]; exact hm) hn trivial
    rw [hv] at this
    have e : ((c.setMode v (.busy (p (some n)))).setLink l (c.link l ++ data.take n)).alone k m
          (ls ++ [⟨v, (c.node v).finished, .push l (data.take n)⟩]) =
        ((c.alone k m ls).setMode v (.busy (p (some n)))).setLink l
          ((c.alone k m ls).link l ++ data.take n) := by
      refine Config.ext ?_ (funext fun l' => ?_)
      · funext w
        exact Config.alone_setMode hk _ w
      · simp only [Config.alone, ofTask_snoc_self _ hk, sent_snoc, got_snoc, Act.pulled,
          List.append_nil]
        by_cases e : l' = l
        · subst e
          rw [Config.setLink_self, Act.pushed, if_pos rfl,
            List.drop_append_of_le_length (hpre l').length_le]
        · rw [Config.setLink_ne _ _ e, Act.pushed, if_neg (Ne.symm e), List.append_nil]
          rfl
    rw [e]
    exact this
  | pull v l size p n hm hn hq hF =>
    have hv := hnode v hk
    have hlen : ((c.link l).take n).length = n := by rw [List.length_take]; omega
    -- the bytes at the head of the queue are the next ones sent for this task
    have hhead : (c.link l).take n <+: (c.alone k m ls).link l := by
      have h' := hpre' l
      simp only [ofTask_snoc_self _ hk, got_snoc, sent_snoc, Act.pushed, Act.pulled, if_true,
        List.append_nil] at h'
      obtain ⟨zs, hz⟩ := h'
      refine ⟨zs, ?_⟩
      simp only [Config.alone]
      rw [← hz, List.append_assoc, List.drop_left]
    have htake : ((c.alone k m ls).link l).take n = (c.link l).take n := by
      have := List.prefix_iff_eq_take.mp hhead
      rw [hlen] at this
      exact this.symm
    have hle : n ≤ ((c.alone k m ls).link l).length := by
      have := hhead.length_le
      omega
    have : Step sys (Flow.any τ) (onlyTask tasks k) (c.alone k m ls) _ _ := .pull
      (c.alone k m ls) v l size p n (by rw [hv]; exact hm) hn hle trivial
    rw [hv, htake] at this
    have e : ((c.setMode v (.busy (p (some ((c.link l).take n))))).setLink l
          ((c.link l).drop n)).alone k m
          (ls ++ [⟨v, (c.node v).finished, .pull l ((c.link l).take n)⟩]) =
        ((c.alone k m ls).setMode v (.busy (p (some ((c.link l).take n))))).setLink l
          (((c.alone k m ls).link l).drop n) := by
      refine Config.ext ?_ (funext fun l' => ?_)
      · funext w
        exact Config.alone_setMode hk _ w
      · simp only [Config.alone, ofTask_snoc_self _ hk, sent_snoc, got_snoc, Act.pushed,
          List.append_nil]
        by_cases e : l' = l
        · subst e
          rw [Config.setLink_self, Act.pulled, if_pos rfl, List.drop_drop, List.length_append, hlen]
        · rw [Config.setLink_ne _ _ e, Act.pulled, if_neg (Ne.symm e), List.append_nil]
          rfl
    rw [e]
    exact this

variable {C : V → Nat → Terms τ β} {At : V → Nat → M → Prop} {B : τ → Nat → β → Prop}

/-- **The steps of the `k`-th task, taken out of a run, are a run of that task alone**, from the
    memories the nodes start it with, to the same states, memories and queued bytes. -/
theorem Run.alone (hF : Fits sys C B) (hev : ∀ e : E, ∃ sd, sys.event sd = e)
    (h0 : ∀ v, At v 0 (m₀ v)) (K : Contracts sys tasks C At) (ha : Aligned sys C)
    {ls : List (Label V τ β E)} {c : Config V τ β S M} (h : Run sys F tasks (.start m₀) ls c)
    (k : Nat) (m : V → M) (hm : ∀ v x, (c.node v).starts (m₀ v) k = some x → m v = x) :
    Run sys (Flow.any τ) (onlyTask tasks k) (.start m)
      ((ofTask k ls).map fun a => ⟨a.node, 0, a.act⟩) (c.alone k m ls) := by
  induction h with
  | nil =>
    have e : (Config.start m₀ : Config V τ β S M).alone k m ([] : List (Label V τ β E)) =
        .start m := by
      refine Config.ext (funext fun v => ?_) rfl
      have hv := hm v
      cases k with
      | zero =>
        simp only [Config.alone, Config.start, Node.alone, hv (m₀ v) rfl]
        rfl
      | succ k => rfl
    rw [e]
    exact .nil
  | @snoc ls c c' a hrun hs ih =>
    have ih := ih fun v x hx => hm v x (hs.starts hx)
    by_cases hk : a.task = k
    · rw [ofTask_snoc_self _ hk, List.map_append]
      exact .snoc ih (hs.alone_self hk hrun.kept (fun l => hrun.got_initial hF hev h0 K ha k l)
        fun l => (hrun.snoc hs).got_initial hF hev h0 K ha k l)
    · rw [ofTask_snoc_ne _ hk]
      have e : c'.alone k m (ls ++ [a]) = c.alone k m ls := by
        refine Config.ext (funext fun v => ?_) ?_
        · exact hs.alone_ne hk (hrun.kept v) (hm v)
        · simp only [Config.alone, ofTask_snoc_ne _ hk]
      rw [e]
      exact ih

end Alone

end OriginCCL.Net
