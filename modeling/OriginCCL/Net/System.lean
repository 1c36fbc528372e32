/-
  File:      OriginCCL/Net/System.lean
  Subject:   NODES THAT RUN LISTS OF TASKS over FIFO byte links.

  Every node works through its own list of tasks. A task is started by one `init` call and driven
  by `step` calls until it is `done`; a call is a `Prog`, and between two transfers of one call any
  other node may act. A link is a byte queue from `src` to `dst` without any framing.

  * `System`, `Config`, `Step`, `Run` -- the machine. `Flow` says how much one transfer may move:
    `Flow.any` is every split of the bytes, `Flow.full cap` moves as much as a pipe of capacity
    `cap` takes or holds.
  * `Contract` -- what one task on one node guarantees under its `Terms`, proved call by call.
  * `Fits` -- the terms of all nodes agree on every stream.
  * `Run.consistent` -- **assume-guarantee**: if every task keeps its contract, then in every
    reachable configuration every node is inside its contract and every queue holds the bytes
    between the place its sender and the place its receiver have reached. The circularity (each
    node relies on the bytes of the others) is resolved by induction on the run.
-/
import OriginCCL.Base.Offsets
import OriginCCL.Net.Prog

namespace OriginCCL.Net

open Base

/-- Nodes `V`, links `τ` with bytes `β`, tasks `T` with states `S` over a memory `M`, and the
    events `E` a step is called with. `waits t s sd l`: the state shows an unfinished transfer at
    this link end; `event sd` is the event that drives it. -/
structure System (V τ β T S M E : Type) where
  src : τ → V
  dst : τ → V
  init : T → M → Prog τ β S
  step : T → E → S → Prog τ β S
  done : T → S → Bool
  mem : S → M
  waits : T → S → Side → τ → Prop
  event : Side → E

/-- Where a node stands in its current task: not started, between two calls, or inside a call. -/
inductive Mode (τ β S M : Type) where
  | fresh (m : M)
  | idle (s : S)
  | busy (p : Prog τ β S)

/-- A node: how many tasks it has finished, where it stands in the next one, and the memory each
    finished task left behind. -/
structure Node (τ β S M : Type) where
  finished : Nat
  mode : Mode τ β S M
  past : List M

@[ext]
structure Config (V τ β S M : Type) where
  node : V → Node τ β S M
  link : τ → List β

/-- What a node does in one step. -/
inductive Act (τ β E : Type) where
  | call
  | step (e : E)
  | push (l : τ) (bs : List β)
  | pull (l : τ) (bs : List β)
  | ret
  | finish

/-- The bytes an action puts on a link. -/
def Act.pushed {τ β E : Type} [DecidableEq τ] (l : τ) : Act τ β E → List β
  | .push l' bs => if l' = l then bs else []
  | _ => []

/-- The bytes an action takes off a link. -/
def Act.pulled {τ β E : Type} [DecidableEq τ] (l : τ) : Act τ β E → List β
  | .pull l' bs => if l' = l then bs else []
  | _ => []

/-- A step of a run: the acting node, the number of its current task, and what it does. -/
structure Label (V τ β E : Type) where
  node : V
  task : Nat
  act : Act τ β E

/-- Which amounts a transfer may move, given the bytes queued on the link and the bytes wanted. -/
structure Flow (τ : Type) where
  push : τ → (queued want n : Nat) → Prop
  pull : τ → (queued want n : Nat) → Prop

/-- Any split of the bytes. -/
def Flow.any (τ : Type) : Flow τ := ⟨fun _ _ _ _ => True, fun _ _ _ _ => True⟩

/-- As much as a pipe of this capacity takes or holds. -/
def Flow.full {τ : Type} (cap : τ → Nat) : Flow τ where
  push l queued want n := n = min want (cap l - queued)
  pull _ queued want n := n = min want queued

section Machine

variable {V τ β T S M E : Type} [DecidableEq V] [DecidableEq τ]

def Config.setNode (c : Config V τ β S M) (v : V) (n : Node τ β S M) : Config V τ β S M :=
  { c with node := Function.update c.node v n }

def Config.setMode (c : Config V τ β S M) (v : V) (m : Mode τ β S M) : Config V τ β S M :=
  c.setNode v { c.node v with mode := m }

def Config.setLink (c : Config V τ β S M) (l : τ) (q : List β) : Config V τ β S M :=
  { c with link := Function.update c.link l q }

omit [DecidableEq τ] in
@[simp] theorem Config.setNode_self (c : Config V τ β S M) (v : V) (n : Node τ β S M) :
    (c.setNode v n).node v = n := Function.update_self ..

omit [DecidableEq τ] in
theorem Config.setNode_ne (c : Config V τ β S M) {v w : V} (n : Node τ β S M) (h : w ≠ v) :
    (c.setNode v n).node w = c.node w := Function.update_of_ne h ..

omit [DecidableEq τ] in
@[simp] theorem Config.setNode_link (c : Config V τ β S M) (v : V) (n : Node τ β S M) :
    (c.setNode v n).link = c.link := rfl

omit [DecidableEq V] in
@[simp] theorem Config.setLink_node (c : Config V τ β S M) (l : τ) (q : List β) :
    (c.setLink l q).node = c.node := rfl

omit [DecidableEq V] in
@[simp] theorem Config.setLink_self (c : Config V τ β S M) (l : τ) (q : List β) :
    (c.setLink l q).link l = q := Function.update_self ..

omit [DecidableEq V] in
theorem Config.setLink_ne (c : Config V τ β S M) {l l' : τ} (q : List β) (h : l' ≠ l) :
    (c.setLink l q).link l' = c.link l' := Function.update_of_ne h ..

/-- Every node before its first task, every link empty. -/
def Config.start (m : V → M) : Config V τ β S M :=
  ⟨fun v => ⟨0, .fresh (m v), []⟩, fun _ => []⟩

variable (sys : System V τ β T S M E) (F : Flow τ) (tasks : V → List T)

/-- One step of one node. A node without a next task, or whose call ended in a fault, does not
    move any more. -/
inductive Step : Config V τ β S M → Label V τ β E → Config V τ β S M → Prop where
  | call (c : Config V τ β S M) (v : V) (t : T) (m : M)
      (ht : (tasks v)[(c.node v).finished]? = some t) (hm : (c.node v).mode = .fresh m) :
      Step c ⟨v, (c.node v).finished, .call⟩ (c.setMode v (.busy (sys.init t m)))
  | step (c : Config V τ β S M) (v : V) (t : T) (s : S) (e : E)
      (ht : (tasks v)[(c.node v).finished]? = some t) (hm : (c.node v).mode = .idle s) :
      Step c ⟨v, (c.node v).finished, .step e⟩ (c.setMode v (.busy (sys.step t e s)))
  | push (c : Config V τ β S M) (v : V) (l : τ) (data : List β) (k : Option Nat → Prog τ β S)
      (n : Nat) (hm : (c.node v).mode = .busy (.send l data k)) (hn : n ≤ data.length)
      (hF : F.push l (c.link l).length data.length n) :
      Step c ⟨v, (c.node v).finished, .push l (data.take n)⟩
        ((c.setMode v (.busy (k (some n)))).setLink l (c.link l ++ data.take n))
  | pull (c : Config V τ β S M) (v : V) (l : τ) (size : Nat)
      (k : Option (List β) → Prog τ β S) (n : Nat)
      (hm : (c.node v).mode = .busy (.recv l size k)) (hn : n ≤ size)
      (hq : n ≤ (c.link l).length) (hF : F.pull l (c.link l).length size n) :
      Step c ⟨v, (c.node v).finished, .pull l ((c.link l).take n)⟩
        ((c.setMode v (.busy (k (some ((c.link l).take n))))).setLink l ((c.link l).drop n))
  | ret (c : Config V τ β S M) (v : V) (t : T) (s : S)
      (ht : (tasks v)[(c.node v).finished]? = some t)
      (hm : (c.node v).mode = .busy (.ret s)) (hd : sys.done t s = false) :
      Step c ⟨v, (c.node v).finished, .ret⟩ (c.setMode v (.idle s))
  | finish (c : Config V τ β S M) (v : V) (t : T) (s : S)
      (ht : (tasks v)[(c.node v).finished]? = some t)
      (hm : (c.node v).mode = .busy (.ret s)) (hd : sys.done t s = true) :
      Step c ⟨v, (c.node v).finished, .finish⟩
        (c.setNode v ⟨(c.node v).finished + 1, .fresh (sys.mem s), (c.node v).past ++ [sys.mem s]⟩)

/-- The runs from `c₀`, with the steps they take. -/
inductive Run (c₀ : Config V τ β S M) : List (Label V τ β E) → Config V τ β S M → Prop where
  | nil : Run c₀ [] c₀
  | snoc {ls : List (Label V τ β E)} {c c' : Config V τ β S M} {a : Label V τ β E}
      (h : Run c₀ ls c) (hs : Step sys F tasks c a c') : Run c₀ (ls ++ [a]) c'

variable {sys F tasks}

/-- A run under a restricted flow is a run under every split of the bytes. -/
theorem Run.any {c₀ c : Config V τ β S M} {ls : List (Label V τ β E)}
    (h : Run sys F tasks c₀ ls c) : Run sys (Flow.any τ) tasks c₀ ls c := by
  induction h with
  | nil => exact .nil
  | snoc _ hs ih =>
    refine .snoc ih ?_
    cases hs with
    | call v t m ht hm => exact .call _ v t m ht hm
    | step v t s e ht hm => exact .step _ v t s e ht hm
    | push v l data k n hm hn _ => exact .push _ v l data k n hm hn trivial
    | pull v l size k n hm hn hq _ => exact .pull _ v l size k n hm hn hq trivial
    | ret v t s ht hm hd => exact .ret _ v t s ht hm hd
    | finish v t s ht hm hd => exact .finish _ v t s ht hm hd

end Machine

/-! ## 1. The contract of one task -/

section Contracts

variable {V τ β T S M E : Type} [DecidableEq V] [DecidableEq τ]

/-- Every byte the terms speak of has been moved. -/
def Terms.spent (C : Terms τ β) (count : Side → τ → Nat) : Prop :=
  ∀ sd l, C.owns sd l → count sd l = C.upto sd l

/-- **The contract of one task**: from `Pre` the first call, and from `Inv` every later call, keeps
    the terms and ends in `Inv` again, or with the task done, all its bytes moved and `Post`. An
    end the new state waits on was tried by the first call; an end a state waits on is tried by the
    step that drives it. -/
structure Contract (sys : System V τ β T S M E) (t : T) (C : Terms τ β) (Pre Post : M → Prop) where
  Inv : S → (Side → τ → Nat) → Prop
  init : ∀ m, Pre m → (sys.init t m).wp C (fun s g =>
    (if sys.done t s then C.spent g.count ∧ Post (sys.mem s) else Inv s g.count) ∧
    (sys.done t s = false → ∀ sd l, sys.waits t s sd l → g.tried sd l)) Acct.zero
  step : ∀ s (g : Acct τ) sd₀, Inv s g.count → sys.done t s = false →
    (sys.step t (sys.event sd₀) s).wp C (fun s' g' =>
      (if sys.done t s' then C.spent g'.count ∧ Post (sys.mem s') else Inv s' g'.count) ∧
      ∀ l, sys.waits t s sd₀ l → g'.tried sd₀ l) g.restart

/-- How a call of the task may end. -/
def Contract.Settled {sys : System V τ β T S M E} {t : T} {C : Terms τ β} {Pre Post : M → Prop}
    (K : Contract sys t C Pre Post) (s : S) (g : Acct τ) : Prop :=
  if sys.done t s then C.spent g.count ∧ Post (sys.mem s) else K.Inv s g.count

/-- **The contract of a task that is done at once**, without a transfer. -/
def Contract.atOnce {sys : System V τ β T S M E} {t : T} {Pre Post : M → Prop} (f : M → S)
    (hinit : ∀ m, Pre m → sys.init t m = .ret (f m)) (hdone : ∀ m, Pre m → sys.done t (f m) = true)
    (hpost : ∀ m, Pre m → Post (sys.mem (f m))) :
    Contract sys t (Terms.none : Terms τ β) Pre Post where
  Inv _ _ := False
  init m hm := by
    rw [hinit m hm]
    change (if sys.done t (f m) = true then _ else _) ∧ _
    rw [if_pos (hdone m hm)]
    refine ⟨⟨fun _ _ h => h.elim, hpost m hm⟩, fun h => ?_⟩
    rw [hdone m hm] at h
    cases h
  step _ _ _ h _ := h.elim

variable (sys : System V τ β T S M E) (tasks : V → List T)

/-- The place a node's stream has reached when it starts its `k`-th task. -/
def base (C : V → Nat → Terms τ β) (v : V) (k : Nat) (sd : Side) (l : τ) : Nat :=
  off (fun j => (C v j).upto sd l) k

omit [DecidableEq V] [DecidableEq τ] in
theorem base_succ (C : V → Nat → Terms τ β) (v : V) (k : Nat) (sd : Side) (l : τ) :
    base C v (k + 1) sd l = base C v k sd l + (C v k).upto sd l :=
  off_succ ..

omit [DecidableEq V] [DecidableEq τ] in
/-- Budgets do not run out before a later task's. -/
theorem base_mono (C : V → Nat → Terms τ β) (v : V) (sd : Side) (l : τ) {j k : Nat} (h : j ≤ k) :
    base C v j sd l ≤ base C v k sd l :=
  off_mono _ h

/-- The place a node has reached in its stream at one link end. -/
def reached (C : V → Nat → Terms τ β) (c : Config V τ β S M) (g : V → Acct τ) (v : V) (sd : Side)
    (l : τ) : Nat :=
  base C v (c.node v).finished sd l + (g v).count sd l

/-- **The terms of all nodes fit together**: a node uses only its own link ends, what it may send
    is what `B` says of the whole stream, and what it may receive is allowed by its terms. -/
structure Fits (C : V → Nat → Terms τ β) (B : τ → Nat → β → Prop) : Prop where
  out_src : ∀ v k l, (C v k).owns .out l → sys.src l = v
  inn_dst : ∀ v k l, (C v k).owns .inn l → sys.dst l = v
  stray : ∀ v k sd l, ¬ (C v k).owns sd l → (C v k).upto sd l = 0
  sent : ∀ k l j b, j < (C (sys.src l) k).upto .out l → (C (sys.src l) k).byteOk .out l j b →
    B l (base C (sys.src l) k .out l + j) b
  got : ∀ k l j b, j < (C (sys.dst l) k).upto .inn l → B l (base C (sys.dst l) k .inn l + j) b →
    (C (sys.dst l) k).byteOk .inn l j b

/-- For every task the sender of a link puts as many bytes on it as the receiver takes off. -/
def Aligned (sys : System V τ β T S M E) (C : V → Nat → Terms τ β) : Prop :=
  ∀ l k, (C (sys.src l) k).upto .out l = (C (sys.dst l) k).upto .inn l

omit [DecidableEq V] [DecidableEq τ] in
theorem Aligned.base_eq {sys : System V τ β T S M E} {C : V → Nat → Terms τ β}
    (ha : Aligned sys C) (l : τ) (k : Nat) :
    base C (sys.src l) k .out l = base C (sys.dst l) k .inn l :=
  off_congr fun j _ => ha l j

/-- **Terms that match task by task**: a node uses only its own link ends, both ends of a link speak
    of as many bytes, and what may be sent may be received. -/
structure Shares (sys : System V τ β T S M E) (C : V → Nat → Terms τ β) : Prop where
  out_src : ∀ v k l, (C v k).owns .out l → sys.src l = v
  inn_dst : ∀ v k l, (C v k).owns .inn l → sys.dst l = v
  stray : ∀ v k sd l, ¬ (C v k).owns sd l → (C v k).upto sd l = 0
  aligned : Aligned sys C
  carried : ∀ l k j b, j < (C (sys.dst l) k).upto .inn l → (C (sys.src l) k).byteOk .out l j b →
    (C (sys.dst l) k).byteOk .inn l j b

/-- What the tasks of its sender say of the byte at each place of a link. -/
def carriedBy (sys : System V τ β T S M E) (C : V → Nat → Terms τ β) (l : τ) (pos : Nat) (b : β) :
    Prop :=
  ∀ k j, j < (C (sys.src l) k).upto .out l → pos = base C (sys.src l) k .out l + j →
    (C (sys.src l) k).byteOk .out l j b

omit [DecidableEq V] [DecidableEq τ] in
/-- **Terms that match task by task fit together over the whole stream.** -/
theorem Shares.fits {sys : System V τ β T S M E} {C : V → Nat → Terms τ β} (h : Shares sys C) :
    Fits sys C (carriedBy sys C) where
  out_src := h.out_src
  inn_dst := h.inn_dst
  stray := h.stray
  sent k l j b hj hb := by
    intro k' j' hj' he
    obtain ⟨rfl, rfl⟩ := off_add_inj (fun i => (C (sys.src l) i).upto .out l) hj hj' he
    exact hb
  got k l j b hj hb := by
    refine h.carried l k j b hj (hb k j ?_ ?_)
    · rw [h.aligned]
      exact hj
    · rw [h.aligned.base_eq]

/-- A contract for every task of every node: `At v k` holds of the memory of `v` when it starts its
    `k`-th task. -/
abbrev Contracts (C : V → Nat → Terms τ β) (At : V → Nat → M → Prop) :=
  ∀ v k t, (tasks v)[k]? = some t → Contract sys t (C v k) (At v k) (At v (k + 1))

variable {sys tasks} {C : V → Nat → Terms τ β} {At : V → Nat → M → Prop} {B : τ → Nat → β → Prop}

/-- A node is inside the contract of its current task. -/
def NodeOk (K : Contracts sys tasks C At) (v : V) (n : Node τ β S M) (g : Acct τ) : Prop :=
  match n.mode with
  | .fresh m => n.finished ≤ (tasks v).length ∧ (∀ sd l, g.count sd l = 0) ∧ At v n.finished m
  | .idle s => ∃ t, ∃ ht : (tasks v)[n.finished]? = some t,
      sys.done t s = false ∧ (K v n.finished t ht).Inv s g.count
  | .busy p => ∃ t, ∃ ht : (tasks v)[n.finished]? = some t,
      p.wp (C v n.finished) (K v n.finished t ht).Settled g

/-- **The global invariant**: every node is inside its contract, its counts respect its terms, and
    every queue holds exactly the bytes between its receiver's and its sender's place. -/
structure Consistent (K : Contracts sys tasks C At) (B : τ → Nat → β → Prop)
    (c : Config V τ β S M) (g : V → Acct τ) : Prop where
  node : ∀ v, NodeOk K v (c.node v) (g v)
  bound : ∀ v sd l, (g v).count sd l ≤ (C v (c.node v).finished).upto sd l
  place : ∀ l, reached C c g (sys.src l) .out l = reached C c g (sys.dst l) .inn l + (c.link l).length
  queue : ∀ l j (h : j < (c.link l).length), B l (reached C c g (sys.dst l) .inn l + j) (c.link l)[j]

/-! ## 2. Every step keeps the global invariant -/

variable {K : Contracts sys tasks C At}

omit [DecidableEq τ] in
theorem Config.setMode_finished (c : Config V τ β S M) (v : V) (m : Mode τ β S M) (w : V) :
    ((c.setMode v m).node w).finished = (c.node w).finished := by
  by_cases e : w = v
  · subst e; rw [Config.setMode, Config.setNode_self]
  · rw [Config.setMode, Config.setNode_ne _ _ e]

omit [DecidableEq τ] in
theorem reached_setMode {c : Config V τ β S M} {g : V → Acct τ} {v : V} (m : Mode τ β S M)
    {a : Acct τ} (ha : a.count = (g v).count) (w : V) (sd : Side) (l : τ) :
    reached C (c.setMode v m) (Function.update g v a) w sd l = reached C c g w sd l := by
  unfold reached
  rw [Config.setMode_finished]
  by_cases e : w = v
  · subst e; rw [Function.update_self, ha]
  · rw [Function.update_of_ne e]

/-- One transfer advances the place of its own link end and no other. -/
theorem reached_move (c : Config V τ β S M) (g : V → Acct τ) (v : V) (m : Mode τ β S M) (sd : Side)
    (l : τ) (want n : Nat) (q : List β) (w : V) (sd' : Side) (l' : τ) :
    reached C ((c.setMode v m).setLink l q) (Function.update g v ((g v).move sd l want n)) w sd' l' =
      reached C c g w sd' l' + if w = v ∧ sd' = sd ∧ l' = l then n else 0 := by
  unfold reached
  rw [Config.setLink_node, Config.setMode_finished]
  by_cases e : w = v
  · subst e
    rw [Function.update_self]
    by_cases e' : sd' = sd ∧ l' = l
    · obtain ⟨rfl, rfl⟩ := e'
      rw [Acct.move_count_self, if_pos ⟨rfl, rfl, rfl⟩, Nat.add_assoc]
    · rw [Acct.move_count_ne _ _ _ e', if_neg fun x => e' x.2, Nat.add_zero]
  · rw [Function.update_of_ne e, if_neg fun x => e x.1, Nat.add_zero]

/-- A step that moves no byte and finishes no task only has to bring its own node back inside its
    contract. -/
theorem Consistent.setMode {c : Config V τ β S M} {g : V → Acct τ} (h : Consistent K B c g) {v : V}
    {m : Mode τ β S M} {a : Acct τ} (ha : a.count = (g v).count)
    (hn : NodeOk K v { c.node v with mode := m } a) :
    Consistent K B (c.setMode v m) (Function.update g v a) := by
  refine ⟨fun w => ?_, fun w sd l => ?_, fun l => ?_, fun l j hj => ?_⟩
  · by_cases e : w = v
    · subst e; rw [Config.setMode, Config.setNode_self, Function.update_self]; exact hn
    · rw [Config.setMode, Config.setNode_ne _ _ e, Function.update_of_ne e]; exact h.node w
  · rw [Config.setMode_finished]
    by_cases e : w = v
    · subst e; rw [Function.update_self, ha]; exact h.bound w sd l
    · rw [Function.update_of_ne e]; exact h.bound w sd l
  · rw [reached_setMode m ha, reached_setMode m ha]; exact h.place l
  · rw [reached_setMode m ha]; exact h.queue l j hj

/-- After a transfer that brings its node back inside its contract all nodes are inside theirs. -/
theorem Consistent.node_move {c : Config V τ β S M} {g : V → Acct τ} (h : Consistent K B c g)
    {v : V} {p : Prog τ β S} {sd : Side} {l : τ} {want n : Nat} {q : List β}
    (hn : NodeOk K v { c.node v with mode := .busy p } ((g v).move sd l want n)) (w : V) :
    NodeOk K w (((c.setMode v (.busy p)).setLink l q).node w)
      (Function.update g v ((g v).move sd l want n) w) := by
  rw [Config.setLink_node]
  by_cases e : w = v
  · subst e; rw [Config.setMode, Config.setNode_self, Function.update_self]; exact hn
  · rw [Config.setMode, Config.setNode_ne _ _ e, Function.update_of_ne e]; exact h.node w

/-- A transfer within the budget of its link end keeps every count within its budget. -/
theorem Consistent.bound_move {c : Config V τ β S M} {g : V → Acct τ} (h : Consistent K B c g)
    {v : V} (m : Mode τ β S M) {sd : Side} {l : τ} (want : Nat) {n : Nat} (q : List β)
    (hn : (g v).count sd l + n ≤ (C v (c.node v).finished).upto sd l) (w : V) (sd' : Side) (l' : τ) :
    (Function.update g v ((g v).move sd l want n) w).count sd' l' ≤
      (C w (((c.setMode v m).setLink l q).node w).finished).upto sd' l' := by
  have hp := reached_move (C := C) c g v m sd l want n q w sd' l'
  have hb := h.bound w sd' l'
  unfold reached at hp
  rw [Config.setLink_node, Config.setMode_finished] at hp ⊢
  split at hp
  · rename_i e
    obtain ⟨rfl, rfl, rfl⟩ := e
    omega
  · omega

theorem Consistent.push (hF : Fits sys C B) {c : Config V τ β S M} {g : V → Acct τ}
    (h : Consistent K B c g) {v : V} {l : τ} {data : List β} {k : Option Nat → Prog τ β S} {n : Nat}
    (hm : (c.node v).mode = .busy (.send l data k)) (hn : n ≤ data.length) :
    Consistent K B ((c.setMode v (.busy (k (some n)))).setLink l (c.link l ++ data.take n))
      (Function.update g v ((g v).move .out l data.length n)) := by
  have hnode := h.node v
  simp only [NodeOk, hm] at hnode
  obtain ⟨t, ht, hown, hle, hrun, hk⟩ := hnode
  have hsrc : sys.src l = v := hF.out_src _ _ _ hown
  refine ⟨h.node_move ⟨t, ht, hk n hn⟩, h.bound_move _ _ _ (by omega), fun l' => ?_,
    fun l' j hj => ?_⟩
  · have hp := h.place l'
    rw [reached_move, reached_move, if_neg (c := _ ∧ Side.inn = Side.out ∧ _) (by simp)]
    by_cases e : l' = l
    · subst e
      rw [if_pos ⟨hsrc, rfl, rfl⟩, Config.setLink_self, List.length_append, List.length_take]
      omega
    · rw [if_neg fun x => e x.2.2, Config.setLink_ne _ _ e, Config.setMode, Config.setNode_link]
      exact hp
  · have hp := h.place l'
    have hq := h.queue l'
    rw [reached_move, if_neg (c := _ ∧ Side.inn = Side.out ∧ _) (by simp), Nat.add_zero]
    by_cases e : l' = l
    · subst e
      simp only [Config.setLink_self] at hj ⊢
      by_cases hj' : j < (c.link l').length
      · rw [List.getElem_append_left hj']
        exact hq j hj'
      · -- the byte was sent just now: its place is the sender's
        have hlt : j - (c.link l').length < data.length := by
          simp only [List.length_append, List.length_take] at hj
          omega
        rw [List.getElem_append_right (by omega), List.getElem_take]
        have hb := hF.sent (c.node (sys.src l')).finished l'
          ((g v).count .out l' + (j - (c.link l').length)) _
          (by rw [hsrc]; omega) (by rw [hsrc]; exact hrun _ hlt)
        have hpl : base C (sys.src l') (c.node (sys.src l')).finished .out l' +
            ((g v).count .out l' + (j - (c.link l').length)) =
          reached C c g (sys.dst l') .inn l' + j := by
          have hp' : reached C c g (sys.src l') .out l' =
            base C (sys.src l') (c.node (sys.src l')).finished .out l' +
              (g v).count .out l' := by rw [reached, hsrc]
          omega
        rw [hpl] at hb
        exact hb
    · simp only [Config.setLink_ne _ _ e, Config.setMode, Config.setNode_link] at hj ⊢
      exact hq j hj

theorem Consistent.pull (hF : Fits sys C B) {c : Config V τ β S M} {g : V → Acct τ}
    (h : Consistent K B c g) {v : V} {l : τ} {size : Nat} {k : Option (List β) → Prog τ β S}
    {n : Nat} (hm : (c.node v).mode = .busy (.recv l size k)) (hn : n ≤ size)
    (hq : n ≤ (c.link l).length) :
    Consistent K B
      ((c.setMode v (.busy (k (some ((c.link l).take n))))).setLink l ((c.link l).drop n))
      (Function.update g v ((g v).move .inn l size n)) := by
  have hnode := h.node v
  simp only [NodeOk, hm] at hnode
  obtain ⟨t, ht, hown, hle, hk⟩ := hnode
  have hdst : sys.dst l = v := hF.inn_dst _ _ _ hown
  have hlen : ((c.link l).take n).length = n := by rw [List.length_take]; omega
  refine ⟨h.node_move ?_, h.bound_move _ _ _ (by omega), fun l' => ?_, fun l' j hj => ?_⟩
  · refine ⟨t, ht, ?_⟩
    have hk' := hk ((c.link l).take n) (by omega) ?_
    · rwa [hlen] at hk'
    · intro j hj
      have hj' : j < (c.link l).length := by omega
      have hb := h.queue l j hj'
      rw [List.getElem_take]
      have hg := hF.got (c.node (sys.dst l)).finished l ((g v).count .inn l + j) (c.link l)[j]
        (by rw [hdst]; omega) (by rw [reached, hdst] at hb; rw [hdst, ← Nat.add_assoc]; exact hb)
      rw [hdst] at hg
      exact hg
  · have hp := h.place l'
    rw [reached_move, reached_move, if_neg (c := _ ∧ Side.out = Side.inn ∧ _) (by simp)]
    by_cases e : l' = l
    · subst e
      rw [if_pos ⟨hdst, rfl, rfl⟩, Config.setLink_self, List.length_drop]
      omega
    · rw [if_neg fun x => e x.2.2, Config.setLink_ne _ _ e, Config.setMode, Config.setNode_link]
      exact hp
  · have hb := h.queue l'
    rw [reached_move]
    by_cases e : l' = l
    · subst e
      simp only [Config.setLink_self] at hj ⊢
      rw [if_pos (by simp [hdst]), List.getElem_drop]
      have hj' : n + j < (c.link l').length := by
        simp only [List.length_drop] at hj
        omega
      have := hb (n + j) hj'
      rwa [← Nat.add_assoc] at this
    · simp only [Config.setLink_ne _ _ e, Config.setMode, Config.setNode_link] at hj ⊢
      rw [if_neg fun x => e x.2.2, Nat.add_zero]
      exact hb j hj

/-- A finished task has moved all its bytes, so finishing it does not move the node's place. -/
theorem Consistent.reached_finish (hF : Fits sys C B) {c : Config V τ β S M} {g : V → Acct τ}
    (h : Consistent K B c g) {v : V} (hs : (C v (c.node v).finished).spent (g v).count)
    (m : Mode τ β S M) (past : List M) (w : V) (sd : Side) (l : τ) :
    reached C (c.setNode v ⟨(c.node v).finished + 1, m, past⟩) (Function.update g v Acct.zero) w sd l =
      reached C c g w sd l := by
  unfold reached
  by_cases e : w = v
  · subst e
    rw [Config.setNode_self, Function.update_self, base_succ, Acct.zero_count]
    by_cases ho : (C w (c.node w).finished).owns sd l
    · rw [hs sd l ho]; rfl
    · have hb := h.bound w sd l
      rw [hF.stray _ _ _ _ ho] at hb ⊢
      omega
  · rw [Config.setNode_ne _ _ e, Function.update_of_ne e]

theorem Consistent.finish (hF : Fits sys C B) {c : Config V τ β S M} {g : V → Acct τ}
    (h : Consistent K B c g) {v : V} {t : T} {m : M} (ht : (tasks v)[(c.node v).finished]? = some t)
    (hs : (C v (c.node v).finished).spent (g v).count) (hm : At v ((c.node v).finished + 1) m)
    (past : List M) :
    Consistent K B (c.setNode v ⟨(c.node v).finished + 1, .fresh m, past⟩)
      (Function.update g v Acct.zero) := by
  refine ⟨fun w => ?_, fun w sd l => ?_, fun l => ?_, fun l j hj => ?_⟩
  · by_cases e : w = v
    · subst e
      rw [Config.setNode_self, Function.update_self]
      exact ⟨(List.getElem?_eq_some_iff.mp ht).1, fun _ _ => rfl, hm⟩
    · rw [Config.setNode_ne _ _ e, Function.update_of_ne e]
      exact h.node w
  · by_cases e : w = v
    · subst e; rw [Function.update_self]; exact Nat.zero_le _
    · rw [Config.setNode_ne _ _ e, Function.update_of_ne e]; exact h.bound w sd l
  · rw [h.reached_finish hF hs, h.reached_finish hF hs]; exact h.place l
  · rw [h.reached_finish hF hs]; exact h.queue l j hj

/-- What a step does to the places of a link: they advance by the bytes it moves there. -/
def Advances (sys : System V τ β T S M E) (C : V → Nat → Terms τ β) (c c' : Config V τ β S M)
    (g g' : V → Acct τ) (a : Act τ β E) : Prop :=
  ∀ l, reached C c' g' (sys.src l) .out l = reached C c g (sys.src l) .out l + (a.pushed l).length ∧
    reached C c' g' (sys.dst l) .inn l = reached C c g (sys.dst l) .inn l + (a.pulled l).length

/-- **Every step keeps the global invariant**, and advances the places by what it moves. -/
theorem Consistent.step (hF : Fits sys C B) {c c' : Config V τ β S M} {g : V → Acct τ}
    {a : Label V τ β E} {F : Flow τ} (hev : ∀ e : E, ∃ sd, sys.event sd = e)
    (h : Consistent K B c g) (hs : Step sys F tasks c a c') :
    ∃ g', Consistent K B c' g' ∧ Advances sys C c c' g g' a.act := by
  cases hs with
  | call v t m ht hm =>
    have hn := h.node v
    simp only [NodeOk, hm] at hn
    obtain ⟨-, hz, hat⟩ := hn
    have ha : (Acct.zero : Acct τ).count = (g v).count := by funext sd l; rw [hz]; rfl
    refine ⟨_, h.setMode ha ⟨t, ht, ?_⟩, fun l => ⟨reached_setMode _ ha .., reached_setMode _ ha ..⟩⟩
    exact Prog.wp_mono (fun _ _ x => x.1) ((K v _ t ht).init m hat)
  | step v t s e ht hm =>
    have hn := h.node v
    simp only [NodeOk, hm] at hn
    obtain ⟨t', ht', hd, hI⟩ := hn
    obtain rfl : t' = t := by rw [ht] at ht'; exact (Option.some.inj ht').symm
    obtain ⟨sd, rfl⟩ := hev e
    have ha : (g v).restart.count = (g v).count := rfl
    refine ⟨_, h.setMode ha ⟨t', ht, ?_⟩, fun l => ⟨reached_setMode _ ha .., reached_setMode _ ha ..⟩⟩
    exact Prog.wp_mono (fun _ _ x => x.1) ((K v _ t' ht).step s (g v) sd hI hd)
  | push v l data k n hm hn _ =>
    have hsrc : sys.src l = v := by
      have hnode := h.node v
      simp only [NodeOk, hm] at hnode
      obtain ⟨_, _, hown, -⟩ := hnode
      exact hF.out_src _ _ _ hown
    refine ⟨_, h.push hF hm hn, fun l' => ?_⟩
    rw [reached_move, reached_move]
    by_cases e : l' = l
    · subst e
      simp [Act.pushed, Act.pulled, hsrc, hn]
    · simp [Act.pushed, Act.pulled, e, Ne.symm e]
  | pull v l size k n hm hn hq _ =>
    have hdst : sys.dst l = v := by
      have hnode := h.node v
      simp only [NodeOk, hm] at hnode
      obtain ⟨_, _, hown, -⟩ := hnode
      exact hF.inn_dst _ _ _ hown
    refine ⟨_, h.pull hF hm hn hq, fun l' => ?_⟩
    rw [reached_move, reached_move]
    by_cases e : l' = l
    · subst e
      simp [Act.pushed, Act.pulled, hdst, hq]
    · simp [Act.pushed, Act.pulled, e, Ne.symm e]
  | ret v t s ht hm hd =>
    have hn := h.node v
    simp only [NodeOk, hm] at hn
    obtain ⟨t', ht', hI⟩ := hn
    obtain rfl : t' = t := by rw [ht] at ht'; exact (Option.some.inj ht').symm
    simp only [Prog.wp_ret, Contract.Settled, hd, Bool.false_eq_true, if_false] at hI
    exact ⟨_, h.setMode (a := g v) rfl ⟨t', ht, hd, hI⟩,
      fun l => ⟨reached_setMode _ rfl .., reached_setMode _ rfl ..⟩⟩
  | finish v t s ht hm hd =>
    have hn := h.node v
    simp only [NodeOk, hm] at hn
    obtain ⟨t', ht', hI⟩ := hn
    obtain rfl : t' = t := by rw [ht] at ht'; exact (Option.some.inj ht').symm
    simp only [Prog.wp_ret, Contract.Settled, hd, if_true] at hI
    exact ⟨_, h.finish hF ht hI.1 hI.2 _,
      fun l => ⟨h.reached_finish hF hI.1 .., h.reached_finish hF hI.1 ..⟩⟩

omit [DecidableEq V] in
/-- The global invariant holds before the first step, with every place at 0. -/
theorem Consistent.start {m : V → M} (h0 : ∀ v, At v 0 (m v)) :
    Consistent K B (Config.start m) fun _ => Acct.zero := by
  refine ⟨fun v => ⟨Nat.zero_le _, fun _ _ => rfl, h0 v⟩, fun _ _ _ => Nat.zero_le _, fun l => ?_,
    fun l j hj => absurd hj (Nat.not_lt_zero j)⟩
  simp [Config.start, reached, base]

/-- **Assume-guarantee**: in every configuration a run reaches from empty links, every node is
    inside its contract and every queue holds the bytes between the two places of its link. -/
theorem Run.consistent (hF : Fits sys C B) (hev : ∀ e : E, ∃ sd, sys.event sd = e) {m : V → M}
    (h0 : ∀ v, At v 0 (m v)) {F : Flow τ} {ls : List (Label V τ β E)} {c : Config V τ β S M}
    (h : Run sys F tasks (.start m) ls c) : ∃ g, Consistent K B c g := by
  induction h with
  | nil => exact ⟨_, .start h0⟩
  | snoc _ hs ih =>
    obtain ⟨g, hg⟩ := ih
    obtain ⟨g', hg', -⟩ := hg.step hF hev hs
    exact ⟨g', hg'⟩

omit [DecidableEq V] in
/-- A node that has finished all its tasks is between two tasks. -/
theorem Consistent.resting {c : Config V τ β S M} {g : V → Acct τ} (h : Consistent K B c g) {v : V}
    (hv : (c.node v).finished = (tasks v).length) : ∃ m, (c.node v).mode = .fresh m := by
  have hn := h.node v
  have hnone : ∀ t, ¬ (tasks v)[(c.node v).finished]? = some t := by
    intro t ht
    have := (List.getElem?_eq_some_iff.mp ht).1
    omega
  cases hm : (c.node v).mode with
  | fresh m => exact ⟨m, rfl⟩
  | idle s =>
    simp only [NodeOk, hm] at hn
    obtain ⟨t, ht, -⟩ := hn
    exact absurd ht (hnone t)
  | busy p =>
    simp only [NodeOk, hm] at hn
    obtain ⟨t, ht, -⟩ := hn
    exact absurd ht (hnone t)

/-- When a node has finished all its tasks, what its last contract promises holds of its memory. -/
theorem Run.post (hF : Fits sys C B) (hev : ∀ e : E, ∃ sd, sys.event sd = e) {m : V → M}
    (h0 : ∀ v, At v 0 (m v)) (K : Contracts sys tasks C At) {F : Flow τ}
    {ls : List (Label V τ β E)} {c : Config V τ β S M} (h : Run sys F tasks (.start m) ls c)
    {v : V} {m' : M} (hm : (c.node v).mode = .fresh m') : At v (c.node v).finished m' := by
  obtain ⟨g, hg⟩ := h.consistent (K := K) hF hev h0
  have hn := hg.node v
  simp only [NodeOk, hm] at hn
  exact hn.2.2

end Contracts

end OriginCCL.Net
