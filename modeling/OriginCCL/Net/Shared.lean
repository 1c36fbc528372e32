/-
  File:      OriginCCL/Net/Shared.lean
  Subject:   THREADS OVER SHARED MEMORIES.

  In `Net.System` every node has a memory of its own. Here the nodes are the threads of processes: all
  threads with one `home` work on one memory. A thread that is inside a call keeps the call as a function of
  the memory, so that a transfer reads the memory, and writes it, at the moment it takes place. A call makes
  at most one transfer.

  * `Threads`, `Shared`, `Shared.Step`, `Shared.Run` -- the machine. Its labels are those of `Net.Run`.
  * `Same`, `Turn`, `Tame` -- a thread that behaves alike over two memories that look alike to it, and leaves
    them alike to the other threads of its home.
  * `View` -- a shared state seen as one of nodes with memories of their own.
  * `View.forth`, `View.back` -- **if the tasks are tame, every step over shared memories is a step over own
    memories, and the other way round**; `View.forth_run`, `View.back_run` for runs.
  * `View.call_ends`, `View.next_call_moves` -- so progress over own memories is progress over shared ones.
-/
import OriginCCL.Net.InOrder

namespace OriginCCL.Net

/-- Threads `V` of processes `P`. A state is the state `O` of an operation over a memory; whether it is done
    and what it waits for does not depend on the memory. -/
structure Threads (V P τ β T S O M E : Type) extends System V τ β T S M E where
  home : V → P
  op : S → O
  state : O → M → S
  op_state : ∀ o m, op (state o m) = o
  mem_state : ∀ o m, mem (state o m) = m
  state_op : ∀ s, state (op s) (mem s) = s
  done_state : ∀ t o m m', done t (state o m) = done t (state o m')
  waits_state : ∀ t o m m' sd l, waits t (state o m) sd l ↔ waits t (state o m') sd l

/-- Where a thread stands in its current task. -/
inductive Stage (τ β S O M : Type) where
  | fresh
  | idle (o : O)
  | busy (call : M → Prog τ β S)

/-- A thread: how many tasks it has finished, where it stands in the next one, and the memory that each
    finished task has left. -/
structure Thread (τ β S O M : Type) where
  finished : Nat
  stage : Stage τ β S O M
  past : List M

structure Shared (V P τ β S O M : Type) where
  thread : V → Thread τ β S O M
  mem : P → M
  link : τ → List β

namespace Shared

variable {V P τ β T S O M E : Type} [DecidableEq V] [DecidableEq P] [DecidableEq τ]

def setThread (c : Shared V P τ β S O M) (v : V) (th : Thread τ β S O M) : Shared V P τ β S O M :=
  { c with thread := Function.update c.thread v th }

def setStage (c : Shared V P τ β S O M) (v : V) (x : Stage τ β S O M) : Shared V P τ β S O M :=
  c.setThread v { c.thread v with stage := x }

def setMem (c : Shared V P τ β S O M) (p : P) (m : M) : Shared V P τ β S O M :=
  { c with mem := Function.update c.mem p m }

def setLink (c : Shared V P τ β S O M) (l : τ) (q : List β) : Shared V P τ β S O M :=
  { c with link := Function.update c.link l q }

omit [DecidableEq V] [DecidableEq τ] in
theorem setMem_self (c : Shared V P τ β S O M) (p : P) : c.setMem p (c.mem p) = c := by
  rw [setMem, Function.update_eq_self]

/-- Every thread before its first task, every link empty. -/
def start (m : P → M) : Shared V P τ β S O M := ⟨fun _ => ⟨0, .fresh, []⟩, m, fun _ => []⟩

variable (thr : Threads V P τ β T S O M E) (F : Flow τ) (tasks : V → List T)

/-- A call whose transfer has taken place. -/
def back (s : S) : Stage τ β S O M := .busy fun m => .ret (thr.state (thr.op s) m)

/-- **One step of one thread.** A call looks at the memory of its home when it moves bytes or returns, and
    what it leaves there is seen by all threads of the home from then on. -/
inductive Step : Shared V P τ β S O M → Label V τ β E → Shared V P τ β S O M → Prop where
  | call (c : Shared V P τ β S O M) (v : V) (t : T)
      (ht : (tasks v)[(c.thread v).finished]? = some t) (hx : (c.thread v).stage = .fresh) :
      Step c ⟨v, (c.thread v).finished, .call⟩ (c.setStage v (.busy (thr.init t)))
  | step (c : Shared V P τ β S O M) (v : V) (t : T) (o : O) (e : E)
      (ht : (tasks v)[(c.thread v).finished]? = some t) (hx : (c.thread v).stage = .idle o) :
      Step c ⟨v, (c.thread v).finished, .step e⟩
        (c.setStage v (.busy fun m => thr.step t e (thr.state o m)))
  | push (c : Shared V P τ β S O M) (v : V) (call : M → Prog τ β S) (l : τ) (data : List β)
      (k : Option Nat → Prog τ β S) (n : Nat) (s : S) (hx : (c.thread v).stage = .busy call)
      (hp : call (c.mem (thr.home v)) = .send l data k) (hn : n ≤ data.length)
      (hF : F.push l (c.link l).length data.length n) (hk : k (some n) = .ret s) :
      Step c ⟨v, (c.thread v).finished, .push l (data.take n)⟩
        (((c.setStage v (back thr s)).setMem (thr.home v) (thr.mem s)).setLink l
          (c.link l ++ data.take n))
  | pull (c : Shared V P τ β S O M) (v : V) (call : M → Prog τ β S) (l : τ) (size : Nat)
      (k : Option (List β) → Prog τ β S) (n : Nat) (s : S) (hx : (c.thread v).stage = .busy call)
      (hp : call (c.mem (thr.home v)) = .recv l size k) (hn : n ≤ size)
      (hq : n ≤ (c.link l).length) (hF : F.pull l (c.link l).length size n)
      (hk : k (some ((c.link l).take n)) = .ret s) :
      Step c ⟨v, (c.thread v).finished, .pull l ((c.link l).take n)⟩
        (((c.setStage v (back thr s)).setMem (thr.home v) (thr.mem s)).setLink l
          ((c.link l).drop n))
  | ret (c : Shared V P τ β S O M) (v : V) (t : T) (call : M → Prog τ β S) (s : S)
      (ht : (tasks v)[(c.thread v).finished]? = some t) (hx : (c.thread v).stage = .busy call)
      (hp : call (c.mem (thr.home v)) = .ret s) (hd : thr.done t s = false) :
      Step c ⟨v, (c.thread v).finished, .ret⟩
        ((c.setStage v (.idle (thr.op s))).setMem (thr.home v) (thr.mem s))
  | finish (c : Shared V P τ β S O M) (v : V) (t : T) (call : M → Prog τ β S) (s : S)
      (ht : (tasks v)[(c.thread v).finished]? = some t) (hx : (c.thread v).stage = .busy call)
      (hp : call (c.mem (thr.home v)) = .ret s) (hd : thr.done t s = true) :
      Step c ⟨v, (c.thread v).finished, .finish⟩
        ((c.setThread v ⟨(c.thread v).finished + 1, .fresh, (c.thread v).past ++ [thr.mem s]⟩).setMem
          (thr.home v) (thr.mem s))

/-- The runs from `c₀`, with the steps they take. -/
inductive Run (c₀ : Shared V P τ β S O M) : List (Label V τ β E) → Shared V P τ β S O M → Prop where
  | nil : Run c₀ [] c₀
  | snoc {ls : List (Label V τ β E)} {c c' : Shared V P τ β S O M} {a : Label V τ β E}
      (h : Run c₀ ls c) (hs : Step thr F tasks c a c') : Run c₀ (ls ++ [a]) c'

/-- Running only the call `v` is in, the call comes to its end. -/
def CallEnds (c : Shared V P τ β S O M) (v : V) : Prop :=
  ∃ ls c', Run thr F tasks c ls c' ∧ (∀ a ∈ ls, a.node = v ∧ a.act.inside) ∧
    ∀ call, (c'.thread v).stage ≠ .busy call

/-- Running only the call `v` is in, a byte moves or the task is finished. -/
def CallMoves (c : Shared V P τ β S O M) (v : V) : Prop :=
  ∃ ls c', Run thr F tasks c ls c' ∧ (∀ a ∈ ls, a.node = v ∧ a.act.inside) ∧
    ∃ a ∈ ls, a.act.productive

/-- **The next call of `v`** -- its first one of a task, or one for a direction that is still pending --
    moves a byte or finishes the task. -/
def NextCallMoves (c : Shared V P τ β S O M) (v : V) : Prop :=
  ∃ a c', Step thr F tasks c a c' ∧ a.node = v ∧
    (a.act = .call ∨ ∃ t o sd l, (tasks v)[(c.thread v).finished]? = some t ∧
      (c.thread v).stage = .idle o ∧ thr.waits t (thr.state o (c.mem (thr.home v))) sd l ∧
      a.act = .step (thr.event sd)) ∧
    CallMoves thr F tasks c' v

end Shared

/-! ## 1. Memories that look alike -/

section Views

variable {V P τ β T S O M E : Type} (thr : Threads V P τ β T S O M E) (R : V → M → M → Prop)

/-- Two results of the thread `v`, over its own memory and over the memory `m` of its home: the operations
    are the same, the memories look alike to `v`, and no other thread of the home sees a difference. -/
structure Same (v : V) (m : M) (s s' : S) : Prop where
  op : thr.op s' = thr.op s
  mem : R v (thr.mem s) (thr.mem s')
  frame : ∀ w, w ≠ v → thr.home w = thr.home v → ∀ a, R w a m → R w a (thr.mem s')

/-- Two calls of the thread `v` that take the same turn: the same transfer, with the same results. -/
inductive Turn (v : V) (m : M) : Prog τ β S → Prog τ β S → Prop where
  | ret {s s' : S} (h : Same thr R v m s s') : Turn v m (.ret s) (.ret s')
  | fail (e : Fault) : Turn v m (.fail e) (.fail e)
  | send (l : τ) (data : List β) {k k' : Option Nat → Prog τ β S}
      (h : ∀ n ≤ data.length, ∃ s s', k (some n) = .ret s ∧ k' (some n) = .ret s' ∧
        Same thr R v m s s') : Turn v m (.send l data k) (.send l data k')
  | recv (l : τ) (size : Nat) {k k' : Option (List β) → Prog τ β S}
      (h : ∀ bs : List β, bs.length ≤ size → ∃ s s', k (some bs) = .ret s ∧ k' (some bs) = .ret s' ∧
        Same thr R v m s s') : Turn v m (.recv l size k) (.recv l size k')

/-- A call that takes the same turn over memories that look alike. -/
def Tame (v : V) (call : M → Prog τ β S) : Prop :=
  ∀ m m', R v m m' → Turn thr R v m' (call m) (call m')

/-- All calls of all tasks are tame. -/
structure TameTasks (tasks : V → List T) : Prop where
  init : ∀ v, ∀ t ∈ tasks v, Tame thr R v (thr.init t)
  step : ∀ v, ∀ t ∈ tasks v, ∀ e o, Tame thr R v fun m => thr.step t e (thr.state o m)

/-- A stage over the memory `m` of the home, seen as the mode of a node with a memory of its own. -/
inductive Seen (v : V) (m : M) : Stage τ β S O M → Mode τ β S M → Prop where
  | fresh (a : M) (h : R v a m) : Seen v m .fresh (.fresh a)
  | idle (s : S) (h : R v (thr.mem s) m) : Seen v m (.idle (thr.op s)) (.idle s)
  | busy (call : M → Prog τ β S) (ht : Tame thr R v call) (a : M) (h : R v a m) :
      Seen v m (.busy call) (.busy (call a))

/-- **A shared state seen as one of nodes with memories of their own.** -/
structure View (c : Shared V P τ β S O M) (p : Config V τ β S M) : Prop where
  finished : ∀ v, (c.thread v).finished = (p.node v).finished
  past : ∀ v, List.Forall₂ (R v) (p.node v).past (c.thread v).past
  stage : ∀ v, Seen thr R v (c.mem (thr.home v)) (c.thread v).stage (p.node v).mode
  link : c.link = p.link

variable {thr R} {v : V} {m : M}

theorem Seen.of_fresh {x : Stage τ β S O M} {y : Mode τ β S M} (h : Seen thr R v m x y)
    (hx : x = .fresh) : ∃ a, y = .fresh a ∧ R v a m := by
  cases h with
  | fresh a h => exact ⟨a, rfl, h⟩
  | idle | busy => cases hx

theorem Seen.of_idle {x : Stage τ β S O M} {y : Mode τ β S M} (h : Seen thr R v m x y) {o : O}
    (hx : x = .idle o) : ∃ s, y = .idle s ∧ thr.op s = o ∧ R v (thr.mem s) m := by
  cases h with
  | idle s h => exact ⟨s, rfl, Stage.idle.inj hx, h⟩
  | fresh | busy => cases hx

theorem Seen.of_busy {x : Stage τ β S O M} {y : Mode τ β S M} (h : Seen thr R v m x y)
    {call : M → Prog τ β S} (hx : x = .busy call) :
    ∃ a, y = .busy (call a) ∧ Turn thr R v m (call a) (call m) := by
  cases h with
  | busy _ ht a h =>
    obtain rfl := Stage.busy.inj hx
    exact ⟨a, rfl, ht a m h⟩
  | fresh | idle => cases hx

theorem Seen.fresh_of {x : Stage τ β S O M} {y : Mode τ β S M} (h : Seen thr R v m x y) {a : M}
    (hy : y = .fresh a) : x = .fresh ∧ R v a m := by
  cases h with
  | fresh b h =>
    obtain rfl := Mode.fresh.inj hy
    exact ⟨rfl, h⟩
  | idle | busy => cases hy

theorem Seen.idle_of {x : Stage τ β S O M} {y : Mode τ β S M} (h : Seen thr R v m x y) {s : S}
    (hy : y = .idle s) : x = .idle (thr.op s) ∧ R v (thr.mem s) m := by
  cases h with
  | idle s' h =>
    obtain rfl := Mode.idle.inj hy
    exact ⟨rfl, h⟩
  | fresh | busy => cases hy

theorem Seen.busy_of {x : Stage τ β S O M} {y : Mode τ β S M} (h : Seen thr R v m x y) {p : Prog τ β S}
    (hy : y = .busy p) : ∃ call, x = .busy call ∧ Turn thr R v m p (call m) := by
  cases h with
  | busy call ht a h =>
    obtain rfl := Mode.busy.inj hy
    exact ⟨call, rfl, ht a m h⟩
  | fresh | idle => cases hy

/-- What the other threads of the home do is not seen. -/
theorem Seen.framed {m' : M} (hframe : ∀ a, R v a m → R v a m') {x : Stage τ β S O M}
    {y : Mode τ β S M} (h : Seen thr R v m x y) : Seen thr R v m' x y := by
  cases h with
  | fresh a h => exact .fresh a (hframe a h)
  | idle s h => exact .idle s (hframe _ h)
  | busy call ht a h => exact .busy call ht a (hframe a h)

theorem Same.done {s s' : S} (h : Same thr R v m s s') (t : T) : thr.done t s' = thr.done t s := by
  rw [← thr.state_op s', ← thr.state_op s, h.op]
  exact thr.done_state ..

/-- A call whose transfer has taken place only has to return. -/
theorem Same.back {s s' : S} (h : Same thr R v m s s') :
    Seen thr R v (thr.mem s') (Shared.back thr s') (.busy (.ret s)) := by
  have htame : Tame thr R v fun a => .ret (thr.state (thr.op s') a) := fun a a' ha => by
    refine .ret ⟨?_, ?_, fun w _ _ b hb => ?_⟩
    · rw [thr.op_state, thr.op_state]
    · rw [thr.mem_state, thr.mem_state]
      exact ha
    · rw [thr.mem_state]
      exact hb
  have hseen := Seen.busy (τ := τ) (β := β) (m := thr.mem s') _ htame (thr.mem s) h.mem
  rw [h.op, thr.state_op] at hseen
  rw [Shared.back, h.op]
  exact hseen

end Views

/-! ## 2. A step of one machine is a step of the other -/

section Steps

variable {V P τ β T S O M E : Type} [DecidableEq V] [DecidableEq P] [DecidableEq τ]
  {thr : Threads V P τ β T S O M E} {R : V → M → M → Prop} {F : Flow τ} {tasks : V → List T}
  {c c' : Shared V P τ β S O M} {p p' : Config V τ β S M} {v : V}

omit [DecidableEq V] [DecidableEq P] [DecidableEq τ] in
/-- At the start the threads have copies of the memory of their home. -/
theorem View.start (hR : ∀ v m, R v m m) (m : P → M) :
    View thr R (.start m) (.start fun v => m (thr.home v)) where
  finished _ := rfl
  past _ := .nil
  stage v := .fresh _ (hR v _)
  link := rfl

omit [DecidableEq τ] in
/-- A thread moves on, and leaves `m` in the memory of its home. -/
theorem View.thread (h : View thr R c p) (x : Thread τ β S O M) (n : Node τ β S M) {m : M}
    (hfin : x.finished = n.finished) (hpast : List.Forall₂ (R v) n.past x.past)
    (hstage : Seen thr R v m x.stage n.mode)
    (hframe : ∀ w, w ≠ v → thr.home w = thr.home v → ∀ a, R w a (c.mem (thr.home v)) → R w a m) :
    View thr R ((c.setThread v x).setMem (thr.home v) m) (p.setNode v n) := by
  have hthread : ((c.setThread v x).setMem (thr.home v) m).thread = Function.update c.thread v x := rfl
  have hmem : ((c.setThread v x).setMem (thr.home v) m).mem = Function.update c.mem (thr.home v) m := rfl
  refine ⟨fun w => ?_, fun w => ?_, fun w => ?_, h.link⟩
  · rw [hthread]
    by_cases e : w = v
    · subst e; rw [Function.update_self, Config.setNode_self]; exact hfin
    · rw [Function.update_of_ne e, Config.setNode_ne _ _ e]; exact h.finished w
  · rw [hthread]
    by_cases e : w = v
    · subst e; rw [Function.update_self, Config.setNode_self]; exact hpast
    · rw [Function.update_of_ne e, Config.setNode_ne _ _ e]; exact h.past w
  · rw [hthread, hmem]
    by_cases e : w = v
    · subst e; rw [Function.update_self, Function.update_self, Config.setNode_self]; exact hstage
    · rw [Function.update_of_ne e, Config.setNode_ne _ _ e]
      by_cases e' : thr.home w = thr.home v
      · -- another thread of the same home
        rw [e', Function.update_self]
        have hseen := h.stage w
        rw [e'] at hseen
        exact hseen.framed (hframe w e e')
      · rw [Function.update_of_ne e']; exact h.stage w

omit [DecidableEq V] [DecidableEq P] in
theorem View.setLink (h : View thr R c p) (l : τ) (q : List β) :
    View thr R (c.setLink l q) (p.setLink l q) :=
  ⟨h.finished, h.past, h.stage, by rw [Shared.setLink, Config.setLink, h.link]⟩

omit [DecidableEq τ] in
/-- A call begins. -/
theorem View.begun (h : View thr R c p) {call : M → Prog τ β S} (ht : Tame thr R v call) {a : M}
    (ha : R v a (c.mem (thr.home v))) :
    View thr R (c.setStage v (.busy call)) (p.setMode v (.busy (call a))) := by
  rw [← Shared.setMem_self (c.setStage v (.busy call)) (thr.home v)]
  exact h.thread { c.thread v with stage := .busy call } { p.node v with mode := .busy (call a) }
    (h.finished v) (h.past v) (.busy call ht a ha) fun _ _ _ _ hb => hb

/-- A call has moved some bytes. -/
theorem View.moved (h : View thr R c p) {s s' : S} (hs : Same thr R v (c.mem (thr.home v)) s s') (l : τ)
    (q : List β) :
    View thr R (((c.setStage v (Shared.back thr s')).setMem (thr.home v) (thr.mem s')).setLink l q)
      ((p.setMode v (.busy (.ret s))).setLink l q) := by
  have hview := h.thread { c.thread v with stage := Shared.back thr s' }
    { p.node v with mode := .busy (.ret s) } (h.finished v) (h.past v) hs.back hs.frame
  exact hview.setLink l q

omit [DecidableEq τ] in
/-- A call has returned. -/
theorem View.returned (h : View thr R c p) {s s' : S} (hs : Same thr R v (c.mem (thr.home v)) s s') :
    View thr R ((c.setStage v (.idle (thr.op s'))).setMem (thr.home v) (thr.mem s'))
      (p.setMode v (.idle s)) := by
  have hseen := Seen.idle (τ := τ) (β := β) (R := R) s hs.mem
  rw [← hs.op] at hseen
  exact h.thread { c.thread v with stage := .idle (thr.op s') } { p.node v with mode := .idle s }
    (h.finished v) (h.past v) hseen hs.frame

omit [DecidableEq τ] in
/-- A task is finished. -/
theorem View.left (h : View thr R c p) {s s' : S} (hs : Same thr R v (c.mem (thr.home v)) s s') :
    View thr R
      ((c.setThread v ⟨(c.thread v).finished + 1, .fresh, (c.thread v).past ++ [thr.mem s']⟩).setMem
        (thr.home v) (thr.mem s'))
      (p.setNode v ⟨(p.node v).finished + 1, .fresh (thr.mem s), (p.node v).past ++ [thr.mem s]⟩) :=
  h.thread _ _ (congrArg (· + 1) (h.finished v)) (List.rel_append (h.past v) (.cons hs.mem .nil))
    (.fresh _ hs.mem) hs.frame

/-- **A step over shared memories is a step over own memories.** -/
theorem View.forth (ht : TameTasks thr R tasks) (h : View thr R c p) {a : Label V τ β E}
    (hs : Shared.Step thr F tasks c a c') :
    ∃ p', Step thr.toSystem F tasks p a p' ∧ View thr R c' p' := by
  cases hs with
  | call v t htask hx =>
    obtain ⟨m, hm, hR⟩ := (h.stage v).of_fresh hx
    rw [h.finished] at htask ⊢
    exact ⟨_, .call p v t m htask hm, h.begun (ht.init v t (List.mem_of_getElem? htask)) hR⟩
  | step v t o e htask hx =>
    obtain ⟨s, hm, rfl, hR⟩ := (h.stage v).of_idle hx
    rw [h.finished] at htask ⊢
    have hview := h.begun (ht.step v t (List.mem_of_getElem? htask) e (thr.op s)) hR
    rw [thr.state_op] at hview
    exact ⟨_, .step p v t s e htask hm, hview⟩
  | push v call l data k n s' hx hp hn hF hk =>
    obtain ⟨m, hm, hturn⟩ := (h.stage v).of_busy hx
    rw [hp] at hturn
    generalize call m = q at hm hturn
    cases hturn with
    | send _ _ hends =>
      obtain ⟨s, s'', hks, hks', hsame⟩ := hends n hn
      obtain rfl : s' = s'' := Prog.ret.inj (hk.symm.trans hks')
      have hpush : Step thr.toSystem F tasks p _ _ :=
        .push p v l data _ n hm hn (by rw [← h.link]; exact hF)
      rw [hks, ← h.link] at hpush
      rw [h.finished]
      exact ⟨_, hpush, h.moved hsame l _⟩
  | pull v call l size k n s' hx hp hn hq hF hk =>
    obtain ⟨m, hm, hturn⟩ := (h.stage v).of_busy hx
    rw [hp] at hturn
    generalize call m = q at hm hturn
    cases hturn with
    | recv _ _ hends =>
      obtain ⟨s, s'', hks, hks', hsame⟩ := hends ((c.link l).take n) (by rw [List.length_take]; omega)
      obtain rfl : s' = s'' := Prog.ret.inj (hk.symm.trans hks')
      have hpull : Step thr.toSystem F tasks p _ _ :=
        .pull p v l size _ n hm hn (by rw [← h.link]; exact hq) (by rw [← h.link]; exact hF)
      rw [← h.link, hks] at hpull
      rw [h.finished]
      exact ⟨_, hpull, h.moved hsame l _⟩
  | ret v t call s' htask hx hp hd =>
    obtain ⟨m, hm, hturn⟩ := (h.stage v).of_busy hx
    rw [hp] at hturn
    generalize call m = q at hm hturn
    cases hturn with
    | @ret s _ hsame =>
      rw [h.finished] at htask ⊢
      rw [hsame.done] at hd
      exact ⟨_, .ret p v t s htask hm hd, h.returned hsame⟩
  | finish v t call s' htask hx hp hd =>
    obtain ⟨m, hm, hturn⟩ := (h.stage v).of_busy hx
    rw [hp] at hturn
    generalize call m = q at hm hturn
    cases hturn with
    | @ret s _ hsame =>
      have hview := h.left hsame
      rw [h.finished] at htask hview ⊢
      rw [hsame.done] at hd
      exact ⟨_, .finish p v t s htask hm hd, hview⟩

/-- **A step over own memories is a step over shared memories.** -/
theorem View.back (ht : TameTasks thr R tasks) (h : View thr R c p) {a : Label V τ β E}
    (hs : Step thr.toSystem F tasks p a p') :
    ∃ c', Shared.Step thr F tasks c a c' ∧ View thr R c' p' := by
  cases hs with
  | call v t m htask hm =>
    obtain ⟨hx, hR⟩ := (h.stage v).fresh_of hm
    rw [← h.finished] at htask ⊢
    exact ⟨_, .call c v t htask hx, h.begun (ht.init v t (List.mem_of_getElem? htask)) hR⟩
  | step v t s e htask hm =>
    obtain ⟨hx, hR⟩ := (h.stage v).idle_of hm
    rw [← h.finished] at htask ⊢
    have hview := h.begun (ht.step v t (List.mem_of_getElem? htask) e (thr.op s)) hR
    rw [thr.state_op] at hview
    exact ⟨_, .step c v t _ e htask hx, hview⟩
  | push v l data k n hm hn hF =>
    obtain ⟨call, hx, hturn⟩ := (h.stage v).busy_of hm
    generalize hp : call (c.mem (thr.home v)) = q at hturn
    cases hturn with
    | send _ _ hends =>
      obtain ⟨s, s', hks, hks', hsame⟩ := hends n hn
      have hpush : Shared.Step thr F tasks c _ _ :=
        .push c v call l data _ n s' hx hp hn (by rw [h.link]; exact hF) hks'
      rw [h.finished, h.link] at hpush
      rw [hks]
      exact ⟨_, hpush, h.moved hsame l _⟩
  | pull v l size k n hm hn hq hF =>
    obtain ⟨call, hx, hturn⟩ := (h.stage v).busy_of hm
    generalize hp : call (c.mem (thr.home v)) = q at hturn
    cases hturn with
    | recv _ _ hends =>
      obtain ⟨s, s', hks, hks', hsame⟩ := hends ((p.link l).take n) (by rw [List.length_take]; omega)
      rw [← h.link] at hks'
      have hpull : Shared.Step thr F tasks c _ _ :=
        .pull c v call l size _ n s' hx hp hn (by rw [h.link]; exact hq) (by rw [h.link]; exact hF) hks'
      rw [h.finished, h.link] at hpull
      rw [hks]
      exact ⟨_, hpull, h.moved hsame l _⟩
  | ret v t s htask hm hd =>
    obtain ⟨call, hx, hturn⟩ := (h.stage v).busy_of hm
    generalize hp : call (c.mem (thr.home v)) = q at hturn
    cases hturn with
    | @ret _ s' hsame =>
      rw [← h.finished] at htask ⊢
      rw [← hsame.done] at hd
      exact ⟨_, .ret c v t call s' htask hx hp hd, h.returned hsame⟩
  | finish v t s htask hm hd =>
    obtain ⟨call, hx, hturn⟩ := (h.stage v).busy_of hm
    generalize hp : call (c.mem (thr.home v)) = q at hturn
    cases hturn with
    | @ret _ s' hsame =>
      have hview := h.left hsame
      rw [← h.finished] at htask hview ⊢
      rw [← hsame.done] at hd
      exact ⟨_, .finish c v t call s' htask hx hp hd, hview⟩

/-! ## 3. Runs and progress -/

/-- **A run over shared memories is a run over own memories**, with the same steps. -/
theorem View.forth_run (ht : TameTasks thr R tasks) (h : View thr R c p) {ls : List (Label V τ β E)}
    (hr : Shared.Run thr F tasks c ls c') :
    ∃ p', Run thr.toSystem F tasks p ls p' ∧ View thr R c' p' := by
  induction hr with
  | nil => exact ⟨p, .nil, h⟩
  | snoc _ hs ih =>
    obtain ⟨p₁, hr₁, h₁⟩ := ih
    obtain ⟨p', hs', h'⟩ := h₁.forth ht hs
    exact ⟨p', hr₁.snoc hs', h'⟩

/-- **A run over own memories is a run over shared memories**, with the same steps. -/
theorem View.back_run (ht : TameTasks thr R tasks) (h : View thr R c p) {ls : List (Label V τ β E)}
    (hr : Run thr.toSystem F tasks p ls p') :
    ∃ c', Shared.Run thr F tasks c ls c' ∧ View thr R c' p' := by
  induction hr with
  | nil => exact ⟨c, .nil, h⟩
  | snoc _ hs ih =>
    obtain ⟨c₁, hr₁, h₁⟩ := ih
    obtain ⟨c', hs', h'⟩ := h₁.back ht hs
    exact ⟨c', hr₁.snoc hs', h'⟩

omit [DecidableEq V] [DecidableEq P] [DecidableEq τ] in
/-- A thread is inside a call if and only if its node is. -/
theorem View.busy_iff (h : View thr R c p) (v : V) :
    (∃ call, (c.thread v).stage = .busy call) ↔ ∃ q, (p.node v).mode = .busy q := by
  constructor
  · intro ⟨call, hx⟩
    obtain ⟨a, hm, -⟩ := (h.stage v).of_busy hx
    exact ⟨_, hm⟩
  · intro ⟨q, hm⟩
    obtain ⟨call, hx, -⟩ := (h.stage v).busy_of hm
    exact ⟨call, hx⟩

theorem View.call_ends (ht : TameTasks thr R tasks) (h : View thr R c p)
    (hc : CallEnds thr.toSystem F tasks p v) : Shared.CallEnds thr F tasks c v := by
  obtain ⟨ls, p', hr, hall, hidle⟩ := hc
  obtain ⟨c', hr', h'⟩ := h.back_run ht hr
  refine ⟨ls, c', hr', hall, fun call hx => ?_⟩
  obtain ⟨q, hm⟩ := (h'.busy_iff v).mp ⟨call, hx⟩
  exact hidle q hm

theorem View.call_moves (ht : TameTasks thr R tasks) (h : View thr R c p)
    (hc : CallMoves thr.toSystem F tasks p v) : Shared.CallMoves thr F tasks c v := by
  obtain ⟨ls, p', hr, hall, hmoves⟩ := hc
  obtain ⟨c', hr', -⟩ := h.back_run ht hr
  exact ⟨ls, c', hr', hall, hmoves⟩

theorem View.next_call_moves (ht : TameTasks thr R tasks) (h : View thr R c p)
    (hc : NextCallMoves thr.toSystem F tasks p v) : Shared.NextCallMoves thr F tasks c v := by
  obtain ⟨a, p', hs, hnode, hfirst, hmoves⟩ := hc
  obtain ⟨c', hs', h'⟩ := h.back ht hs
  refine ⟨a, c', hs', hnode, ?_, h'.call_moves ht hmoves⟩
  rcases hfirst with hcall | ⟨t, s, sd, l, htask, hm, hw, hstep⟩
  · exact Or.inl hcall
  · obtain ⟨hx, -⟩ := (h.stage v).idle_of hm
    refine Or.inr ⟨t, thr.op s, sd, l, by rw [h.finished]; exact htask, hx, ?_, hstep⟩
    rw [← thr.state_op s] at hw
    exact (thr.waits_state ..).mp hw

end Steps

end OriginCCL.Net
