/-
  File:      OriginCCL/Plan/P2pRuns.lean
  Subject:   MATCHED P2P BATCHES, run by the Send and the Recv queue of every rank.

  * `P2pBatches.Valid` -- accepted batches whose connections are there, in which the `k`-th Send from one
    rank to another has the size of the `k`-th Recv there from it.
  * `P2pBatches.terms` -- what a task moves; `streamOf` -- the bytes of a connection.
  * `Valid.received`, `Valid.never_stuck` -- what the queues do, each over a memory of its own.
  * `P2pBatches.Apart` -- the operations of a group are independent of each other; `Valid.own_run` -- **then
    the queues do the same over the one memory of their rank.**
  * `p2p_delivers` -- **the queues never get stuck, and the `k`-th Recv ends with the bytes of the `k`-th
    Send**.
-/
import OriginCCL.Base.Selections
import OriginCCL.Base.Slices
import OriginCCL.Net.InOrder
import OriginCCL.Net.Schedule
import OriginCCL.Plan.P2pQueues
import OriginCCL.Topology.P2pShared

namespace OriginCCL

open Net Base Planner

/-! ## 1. Batches -/

/-- The P2P batches of all ranks, as their callers have queued them. -/
structure P2pBatches where
  size : Nat
  comm : Nat → CommunicatorState
  batch : Nat → List CollTask

namespace P2pBatches

/-- The tasks that a queue is for. -/
def funcOf : Side → CollFunc
  | .out => .send
  | .inn => .recv

/-- The channel of a queue. -/
def channelOf : Side → Nat
  | .out => kP2pSendChannel
  | .inn => kP2pRecvChannel

variable (B : P2pBatches)

/-- The batch of a rank after `SortTasks`. -/
def sorted (r : Nat) : List CollTask := (sortTasks (B.batch r) r B.size).getD []

/-- The Sends, or the Recvs, of a rank in the order of its plan. -/
def calls (v : Nat × Side) : List CollTask :=
  if v.1 < B.size then roundQueue (B.comm v.1) (B.sorted v.1) (funcOf v.2) else []

/-- The plan of a rank. -/
def planOf (net : Int → RoundOutcome) (r : Nat) : Option CollPlan :=
  match (plan (B.comm r) (B.sorted r) false net).2 with
  | .ok p => some p
  | .error _ => none

/-- **The queues of all ranks**: those of their plans. -/
def tasks (net : Nat → Int → RoundOutcome) (v : Nat × Side) : List PlanTask :=
  if v.1 < B.size then ((B.planOf (net v.1) v.1).map fun p => queue p (channelOf v.2)).getD [] else []

/-- The Sends of a rank to a peer, or its Recvs from it, in the order of the caller. -/
def between (func : CollFunc) (r peer : Nat) : List CollTask := (B.batch r).filter (withPeer func peer)

/-- **Accepted and matched batches**: the connections are there, and the `k`-th Send from one rank to
    another has the count and the type of the `k`-th Recv there from it. -/
structure Valid : Prop where
  comm : ∀ r < B.size, (B.comm r).rank = r ∧ (B.comm r).worldSize = B.size ∧ 2 ≤ (B.comm r).getNChannels
  p2p : ∀ r < B.size, ∀ t ∈ B.batch r, isP2p t.func = true
  accepted : ∀ r < B.size, (B.batch r).all (plannable (B.comm r)) = true
  ready : ∀ r < B.size, P2pReady (B.comm r) r (B.batch r)
  matched : ∀ a < B.size, ∀ b < B.size,
    (B.between .send a b).map (fun t => (t.count, t.dtype)) =
      (B.between .recv b a).map fun t => (t.count, t.dtype)

variable {B}

/-- A P2P task has another rank as its peer. -/
theorem Valid.peer (hB : B.Valid) {r : Nat} (hr : r < B.size) {t : CollTask} (ht : t ∈ B.batch r) :
    0 ≤ t.peer ∧ t.peer < B.size ∧ t.peer ≠ (r : Int) := by
  have hplan := List.all_eq_true.mp (hB.accepted r hr) t ht
  obtain ⟨hrank, hworld, -⟩ := hB.comm r hr
  rw [plannable, if_pos (hB.p2p r hr t ht), validateP2p, hrank, hworld] at hplan
  by_contra hpeer
  rw [if_pos (by omega)] at hplan
  cases hplan

/-- **Every batch is sorted.** -/
theorem Valid.sorts (hB : B.Valid) {r : Nat} (hr : r < B.size) :
    sortTasks (B.batch r) r B.size = some (B.sorted r) := by
  have hall : (B.batch r).all (sortable r B.size) = true := by
    refine List.all_eq_true.mpr fun t ht => ?_
    obtain ⟨h1, h2, h3⟩ := hB.peer hr ht
    rw [sortable, if_pos (hB.p2p r hr t ht)]
    simp only [ge_iff_le, Bool.not_eq_true', Bool.or_eq_false_iff, decide_eq_false_iff_not,
      beq_eq_false_iff_ne]
    omega
  have hsome : (sortTasks (B.batch r) r B.size).isSome = true := by
    rw [sortTasks, if_neg (by omega), if_pos hall]
    rfl
  rw [sorted, Option.getD_of_ne_none (Option.isSome_iff_ne_none.mp hsome)]

theorem Valid.mem_sorted (hB : B.Valid) {r : Nat} (hr : r < B.size) {t : CollTask} :
    t ∈ B.sorted r ↔ t ∈ B.batch r := (arranged_sortTasks (hB.sorts hr)).perm.mem_iff

/-- **The queue of a rank and a side.** -/
theorem Valid.queueOf (hB : B.Valid) {r : Nat} (hr : r < B.size) (sd : Side) :
    QueueOf (B.batch r) (B.calls (r, sd)) B.size r (funcOf sd) := by
  obtain ⟨hrank, hworld, -⟩ := hB.comm r hr
  rw [calls, if_pos hr]
  exact roundQueue_batch hrank hworld hr (hB.p2p r hr) (hB.sorts hr)

/-- **The plans are made**, and their queues are the calls. -/
theorem Valid.tasks_eq (hB : B.Valid) (net : Nat → Int → RoundOutcome) (v : Nat × Side) :
    B.tasks net v = (B.calls v).map (p2pTask (B.comm v.1) v.1) := by
  unfold tasks calls
  split
  case isTrue hr =>
    have hmem := fun t => hB.mem_sorted hr (t := t)
    obtain ⟨hsends, hrecvs⟩ := hB.ready v.1 hr
    have hready : P2pReady (B.comm v.1) v.1 (B.sorted v.1) := by
      obtain ⟨channel, hchannel, hsent⟩ := hsends
      obtain ⟨channel', hchannel', hreceived⟩ := hrecvs
      exact ⟨⟨channel, hchannel, fun t ht => hsent t ((hmem t).mp ht)⟩, channel', hchannel',
        fun t ht => hreceived t ((hmem t).mp ht)⟩
    obtain ⟨p, hp, hsend, hrecv⟩ := plan_p2p hready (hB.comm v.1 hr).2.2
      (fun t ht => hB.p2p v.1 hr t ((hmem t).mp ht))
      (List.all_eq_true.mpr fun t ht => List.all_eq_true.mp (hB.accepted v.1 hr) t ((hmem t).mp ht))
      (net v.1)
    rw [planOf, hp]
    obtain ⟨r, sd⟩ := v
    cases sd with
    | out => exact hsend
    | inn => exact hrecv
  case isFalse => rfl

/-! ## 2. The bytes of a connection -/

/-- The connection of a task of a queue. -/
def linkOf (v : Nat × Side) (t : CollTask) : Link :=
  match v.2 with
  | .out => ⟨.p2p, v.1, t.peer.toNat⟩
  | .inn => ⟨.p2p, t.peer.toNat, v.1⟩

/-- The size of a task in bytes. -/
def bytesOf (t : CollTask) : Nat := t.count * getDataTypeSize t.dtype

/-- The queue at an end of a connection. -/
def endOf : Side → Link → Nat × Side
  | .out, l => (l.src, .out)
  | .inn, l => (l.dst, .inn)

/-- The task is for the connection. -/
def onLink (v : Nat × Side) (l : Link) (t : CollTask) : Bool := decide (linkOf v t = l)

variable (B) in
/-- The tasks for a connection at one of its ends, in the order of the queue. -/
def items (sd : Side) (l : Link) : List CollTask :=
  (B.calls (endOf sd l)).filter (onLink (endOf sd l) l)

variable (B) in
/-- The bytes that the first `k` tasks of a queue move over a connection. -/
def place (v : Nat × Side) (l : Link) (k : Nat) : Nat :=
  ((((B.calls v).take k).filter (onLink v l)).map bytesOf).sum

variable (B) in
/-- **The bytes of a connection**: the buffers of its Sends, one after the other. -/
def streamOf (m₀ : Nat × Side → Mem) (l : Link) : List UInt8 :=
  (B.items .out l).flatMap fun t => slice (m₀ (endOf .out l)) t.sendBuf (bytesOf t)

theorem endOf_linkOf (v : Nat × Side) (t : CollTask) : endOf v.2 (linkOf v t) = v := by
  obtain ⟨r, sd⟩ := v
  cases sd <;> rfl

theorem linkOf_kind (v : Nat × Side) (t : CollTask) : (linkOf v t).kind = .p2p := by
  obtain ⟨r, sd⟩ := v
  cases sd <;> rfl

theorem place_succ (v : Nat × Side) (l : Link) (k : Nat) : B.place v l (k + 1) = B.place v l k +
    match (B.calls v)[k]? with
    | some t => if linkOf v t = l then bytesOf t else 0
    | none => 0 := by
  unfold place
  rw [List.take_add_one, List.filter_append, List.map_append, List.sum_append]
  congr 1
  cases (B.calls v)[k]? with
  | none => rfl
  | some t =>
    by_cases h : linkOf v t = l
    · simp [onLink, h]
    · simp [onLink, h]

/-- **The place of a task** among those for its connection. -/
theorem place_of_item {v : Nat × Side} {k : Nat} {t : CollTask} (hk : (B.calls v)[k]? = some t) :
    ∃ i, (B.items v.2 (linkOf v t))[i]? = some t ∧
      B.place v (linkOf v t) k = (((B.items v.2 (linkOf v t)).take i).map bytesOf).sum := by
  refine ⟨before (onLink v (linkOf v t)) (B.calls v) k, ?_, ?_⟩
  · rw [items, endOf_linkOf]
    exact getElem?_before hk (decide_eq_true rfl)
  · rw [items, endOf_linkOf, take_before]
    rfl

theorem place_end {v : Nat × Side} (l : Link) (hv : v = endOf v.2 l) :
    B.place v l (B.calls v).length = ((B.items v.2 l).map bytesOf).sum := by
  rw [place, List.take_length, items, ← hv]

/-- A byte of a Send in the stream of its connection. -/
theorem streamOf_at {m₀ : Nat × Side → Mem} {l : Link} {i : Nat} {t : CollTask}
    (h : (B.items .out l)[i]? = some t) {j : Nat} (hj : j < bytesOf t) :
    (B.streamOf m₀ l)[(((B.items .out l).take i).map bytesOf).sum + j]? =
      some (m₀ (endOf .out l) (t.sendBuf + j)) := by
  have hget := getElem?_flatMap (fun t => slice (m₀ (endOf .out l)) t.sendBuf (bytesOf t)) h (j := j)
    (by rw [length_slice]; exact hj)
  simp only [length_slice] at hget
  rw [streamOf, hget, getElem?_slice hj]

/-- A task of a queue is of the rank's batch. -/
theorem Valid.mem_calls (hB : B.Valid) {v : Nat × Side} {t : CollTask} (ht : t ∈ B.calls v) :
    v.1 < B.size ∧ t ∈ B.batch v.1 ∧ t.func = funcOf v.2 := by
  have hr : v.1 < B.size := by
    by_contra hge
    rw [calls, if_neg hge] at ht
    cases ht
  obtain ⟨hbatch, hfunc⟩ := List.mem_filter.mp ((hB.queueOf hr v.2).perm.mem_iff.mp ht)
  exact ⟨hr, hbatch, eq_of_beq hfunc⟩

/-- The peer at the other end of a connection. -/
def farOf : Side → Link → Nat
  | .out, l => l.dst
  | .inn, l => l.src

/-- The tasks for a connection are the ones with the peer at its other end. -/
theorem Valid.onLink_eq (hB : B.Valid) (sd : Side) {l : Link} (hl : l.kind = .p2p) {t : CollTask}
    (ht : t ∈ B.calls (endOf sd l)) :
    onLink (endOf sd l) l t = withPeer (funcOf sd) (farOf sd l) t := by
  obtain ⟨hr, hbatch, hfunc⟩ := hB.mem_calls ht
  have hpeer := (hB.peer hr hbatch).1
  have hfunc : t.func = funcOf sd := by cases sd <;> exact hfunc
  rw [onLink, withPeer, hfunc, beq_self_eq_true, Bool.true_and, Bool.eq_iff_iff, decide_eq_true_iff,
    beq_iff_eq]
  obtain ⟨kind, a, b⟩ := l
  obtain rfl : kind = .p2p := hl
  cases sd <;> simp only [linkOf, endOf, farOf, Link.mk.injEq, true_and, and_true] <;> omega

/-- **The tasks for a connection are those of the caller, in the caller's order.** -/
theorem Valid.items_eq (hB : B.Valid) (sd : Side) (l : Link) (hl : l.kind = .p2p)
    (hr : (endOf sd l).1 < B.size) :
    B.items sd l = B.between (funcOf sd) (endOf sd l).1 (farOf sd l) := by
  rw [between, ← (hB.queueOf hr sd).order (farOf sd l), items]
  have hend : endOf sd l = ((endOf sd l).1, sd) := by cases sd <;> rfl
  rw [← hend]
  exact List.filter_congr fun t ht => hB.onLink_eq sd hl ht

/-- A task for a connection is one of the batch at its end, and the connection leads to its peer. -/
theorem Valid.mem_items (hB : B.Valid) {sd : Side} {l : Link} {t : CollTask} (h : t ∈ B.items sd l) :
    l.kind = .p2p ∧ l.src < B.size ∧ l.dst < B.size := by
  obtain ⟨hcalls, hlink⟩ := List.mem_filter.mp h
  have hl := of_decide_eq_true hlink
  generalize endOf sd l = v at hcalls hl
  subst hl
  rw [linkOf_kind]
  obtain ⟨hr, hbatch, -⟩ := hB.mem_calls hcalls
  obtain ⟨h1, h2, -⟩ := hB.peer hr hbatch
  obtain ⟨r, sd'⟩ := v
  refine ⟨rfl, ?_⟩
  cases sd' with
  | out => exact ⟨hr, by simp only [linkOf]; omega⟩
  | inn => exact ⟨by simp only [linkOf]; omega, hr⟩

/-- **Both ends of a connection have the same messages.** -/
theorem Valid.items_matched (hB : B.Valid) (l : Link) :
    (B.items .out l).map (fun t => (t.count, t.dtype)) =
      (B.items .inn l).map fun t => (t.count, t.dtype) := by
  by_cases h : l.kind = .p2p ∧ l.src < B.size ∧ l.dst < B.size
  · obtain ⟨kind, a, b⟩ := l
    obtain ⟨rfl, ha, hb⟩ := h
    rw [hB.items_eq .out ⟨.p2p, a, b⟩ rfl ha, hB.items_eq .inn ⟨.p2p, a, b⟩ rfl hb]
    exact hB.matched a ha b hb
  · have hnil : ∀ sd, B.items sd l = [] := fun sd =>
      List.eq_nil_iff_forall_not_mem.mpr fun t ht => h (hB.mem_items ht)
    rw [hnil, hnil]

theorem Valid.bytes_matched (hB : B.Valid) (l : Link) :
    (B.items .out l).map bytesOf = (B.items .inn l).map bytesOf := by
  have h := congrArg (List.map fun x : Nat × DataType => x.1 * getDataTypeSize x.2) (hB.items_matched l)
  rw [List.map_map, List.map_map] at h
  exact h

/-! ## 3. The terms of the tasks -/

section Terms

variable {m₀ : Nat × Side → Mem}

variable (B) in
/-- What a task may move: a Send its buffer, a Recv the next bytes of its connection. -/
def mayMove (m₀ : Nat × Side → Mem) (v : Nat × Side) (k : Nat) (t : CollTask) (j : Nat) (b : UInt8) :
    Prop :=
  match v.2 with
  | .out => b = m₀ v (t.sendBuf + j)
  | .inn => (B.streamOf m₀ (linkOf v t))[B.place v (linkOf v t) k + j]? = some b

variable (B) in
/-- **The terms of a task.** -/
def terms (m₀ : Nat × Side → Mem) (v : Nat × Side) (k : Nat) : Net.Terms Link UInt8 :=
  match (B.calls v)[k]? with
  | some t =>
    if t.count = 0 then Terms.none
    else TopologyP2p.terms v.2 (linkOf v t) (bytesOf t) (B.mayMove m₀ v k t)
  | none => Terms.none

theorem terms_some {v : Nat × Side} {k : Nat} {t : CollTask} (hk : (B.calls v)[k]? = some t)
    (hcount : t.count ≠ 0) :
    B.terms m₀ v k = TopologyP2p.terms v.2 (linkOf v t) (bytesOf t) (B.mayMove m₀ v k t) := by
  rw [terms, hk]
  exact if_neg hcount

/-- Whoever moves bytes has a task for the connection. -/
theorem terms_owns {v : Nat × Side} {k : Nat} {sd : Side} {l : Link}
    (ho : (B.terms m₀ v k).owns sd l) : sd = v.2 ∧ ∃ t, (B.calls v)[k]? = some t ∧ t.count ≠ 0 ∧
      l = linkOf v t := by
  cases hk : (B.calls v)[k]? with
  | none =>
    rw [terms, hk] at ho
    exact ho.elim
  | some t =>
    by_cases hcount : t.count = 0
    · rw [terms, hk] at ho
      dsimp only at ho
      rw [if_pos hcount] at ho
      exact ho.elim
    · rw [terms_some hk hcount] at ho
      exact ⟨ho.1, t, rfl, hcount, ho.2⟩

theorem terms_upto (v : Nat × Side) (k : Nat) (sd : Side) (l : Link) :
    (B.terms m₀ v k).upto sd l = if sd = v.2 then
      match (B.calls v)[k]? with
      | some t => if linkOf v t = l then bytesOf t else 0
      | none => 0
    else 0 := by
  unfold terms
  cases (B.calls v)[k]? with
  | none => exact (ite_self 0).symm
  | some t =>
    dsimp only
    by_cases hcount : t.count = 0
    · have hbytes : bytesOf t = 0 := by rw [bytesOf, hcount, Nat.zero_mul]
      rw [if_pos hcount, hbytes, ite_self, ite_self]
      rfl
    · rw [if_neg hcount]
      change (if sd = v.2 ∧ l = linkOf v t then bytesOf t else 0) = _
      by_cases hsd : sd = v.2
      · by_cases hl : linkOf v t = l
        · rw [if_pos ⟨hsd, hl.symm⟩, if_pos hsd, if_pos hl]
        · rw [if_neg fun h => hl h.2.symm, if_pos hsd, if_neg hl]
      · rw [if_neg fun h => hsd h.1, if_neg hsd]

/-- **Where a queue is when it starts a task.** -/
theorem base_terms (m₀ : Nat × Side → Mem) (v : Nat × Side) (l : Link) (k : Nat) :
    base (B.terms m₀) v k v.2 l = B.place v l k := by
  induction k with
  | zero => rfl
  | succ k ih => rw [base_succ, ih, terms_upto, if_pos rfl, place_succ]

/-- A task with bytes left is for the connection. -/
theorem terms_left {v : Nat × Side} {k : Nat} {sd : Side} {l : Link} {j : Nat}
    (hj : j < (B.terms m₀ v k).upto sd l) : sd = v.2 ∧ ∃ t, (B.calls v)[k]? = some t ∧
      t.count ≠ 0 ∧ l = linkOf v t ∧ j < bytesOf t := by
  rw [terms_upto] at hj
  split at hj
  case isFalse => exact absurd hj (Nat.not_lt_zero j)
  case isTrue hsd =>
    refine ⟨hsd, ?_⟩
    cases hk : (B.calls v)[k]? with
    | none =>
      rw [hk] at hj
      exact absurd hj (Nat.not_lt_zero j)
    | some t =>
      rw [hk] at hj
      dsimp only at hj
      split at hj
      case isFalse => exact absurd hj (Nat.not_lt_zero j)
      case isTrue hl =>
        refine ⟨t, rfl, fun h => ?_, hl.symm, hj⟩
        rw [bytesOf, h, Nat.zero_mul] at hj
        exact Nat.not_lt_zero j hj

/-- **The terms of all queues fit together**: what is at a place of a connection is what its Sends put
    there. -/
theorem terms_fit (B : P2pBatches) (m₀ : Nat × Side → Mem) : Net.Fits p2pSystem (B.terms m₀)
    fun l pos b => (B.streamOf m₀ l)[pos]? = some b where
  out_src v k l ho := by
    obtain ⟨hsd, t, -, -, rfl⟩ := terms_owns ho
    have hend := endOf_linkOf v t
    rw [← hsd] at hend
    exact hend
  inn_dst v k l ho := by
    obtain ⟨hsd, t, -, -, rfl⟩ := terms_owns ho
    have hend := endOf_linkOf v t
    rw [← hsd] at hend
    exact hend
  stray v k sd l ho := by
    by_contra hne
    obtain ⟨rfl, t, hk, hcount, rfl, -⟩ := terms_left (Nat.pos_of_ne_zero hne)
    rw [terms_some hk hcount] at ho
    exact ho ⟨rfl, rfl⟩
  sent k l j b hj hb := by
    change j < (B.terms m₀ (endOf .out l) k).upto .out l at hj
    change (B.terms m₀ (endOf .out l) k).byteOk .out l j b at hb
    change (B.streamOf m₀ l)[base (B.terms m₀) (endOf .out l) k .out l + j]? = some b
    obtain ⟨-, t, hk, hcount, hl, hlt⟩ := terms_left hj
    rw [terms_some hk hcount] at hb
    obtain rfl : b = m₀ (endOf .out l) (t.sendBuf + j) := hb
    have hbase := base_terms (B := B) m₀ (endOf .out l) l k
    obtain ⟨i, hi, hplace⟩ := place_of_item hk
    rw [← hl] at hi hplace
    change base (B.terms m₀) (endOf .out l) k .out l = _ at hbase
    rw [hbase, hplace]
    exact streamOf_at hi hlt
  got k l j b hj hb := by
    change j < (B.terms m₀ (endOf .inn l) k).upto .inn l at hj
    change (B.terms m₀ (endOf .inn l) k).byteOk .inn l j b
    change (B.streamOf m₀ l)[base (B.terms m₀) (endOf .inn l) k .inn l + j]? = some b at hb
    obtain ⟨-, t, hk, hcount, hl, -⟩ := terms_left hj
    have hbase := base_terms (B := B) m₀ (endOf .inn l) l k
    change base (B.terms m₀) (endOf .inn l) k .inn l = _ at hbase
    rw [hbase] at hb
    rw [terms_some hk hcount]
    change (B.streamOf m₀ (linkOf (endOf .inn l) t))[
      B.place (endOf .inn l) (linkOf (endOf .inn l) t) k + j]? = some b
    rw [← hl]
    exact hb

end Terms

/-! ## 4. The contracts of the tasks -/

section Contracts

variable {m₀ : Nat × Side → Mem} {v : Nat × Side} {k : Nat} {t : CollTask} {m : Mem}

/-- **The memory of a queue after `k` tasks**: Sends change nothing; Recvs change only their buffers, and
    the last one has filled its own. -/
structure Left (B : P2pBatches) (m₀ : Nat × Side → Mem) (v : Nat × Side) (k : Nat) (m : Mem) : Prop where
  sends : v.2 = .out → m = m₀ v
  kept : ∀ x, (∀ t ∈ (B.calls v).take k, x < t.recvBuf ∨ t.recvBuf + bytesOf t ≤ x) → m x = m₀ v x
  last : v.2 = .inn → ∀ i t, k = i + 1 → (B.calls v)[i]? = some t → ∀ j < bytesOf t,
    (B.streamOf m₀ (linkOf v t))[B.place v (linkOf v t) i + j]? = some (m (t.recvBuf + j))

theorem left_start (B : P2pBatches) (m₀ : Nat × Side → Mem) (v : Nat × Side) : B.Left m₀ v 0 (m₀ v) :=
  ⟨fun _ => rfl, fun _ _ => rfl, fun _ i _ h => absurd h.symm (Nat.succ_ne_zero i)⟩

theorem take_calls (hk : (B.calls v)[k]? = some t) :
    (B.calls v).take (k + 1) = (B.calls v).take k ++ [t] := by
  rw [List.take_add_one, hk]
  rfl

/-- A task of no elements leaves the memory alone. -/
theorem Left.skip (h : B.Left m₀ v k m) (hk : (B.calls v)[k]? = some t) (hcount : t.count = 0) :
    B.Left m₀ v (k + 1) m where
  sends := h.sends
  kept x hx := h.kept x fun u hu => hx u (by rw [take_calls hk]; exact List.mem_append_left _ hu)
  last _ i u hi hu j hj := by
    obtain rfl : i = k := by omega
    obtain rfl : u = t := Option.some.inj (hu.symm.trans hk)
    rw [bytesOf, hcount, Nat.zero_mul] at hj
    exact absurd hj (Nat.not_lt_zero j)

/-- A Send leaves the memory alone. -/
theorem left_of_send (hsd : v.2 = .out) : B.Left m₀ v k (m₀ v) where
  sends _ := rfl
  kept _ _ := rfl
  last h := by
    rw [hsd] at h
    cases h

/-- A Recv fills its buffer. -/
theorem left_of_recv (hk : (B.calls v)[k]? = some t) (hsd : v.2 = .inn)
    (hgot : ∀ j < bytesOf t, B.mayMove m₀ v k t j (m (t.recvBuf + j))) {m' : Mem}
    (hleft : B.Left m₀ v k m')
    (hkept : ∀ x, (x < t.recvBuf ∨ t.recvBuf + bytesOf t ≤ x) → m x = m' x) :
    B.Left m₀ v (k + 1) m where
  sends h := by
    rw [hsd] at h
    cases h
  kept x hx := by
    rw [take_calls hk] at hx
    rw [hkept x (hx t (List.mem_append_right _ (List.mem_singleton.mpr rfl))),
      hleft.kept x fun u hu => hx u (List.mem_append_left _ hu)]
  last _ i u hi hu j hj := by
    obtain rfl : i = k := by omega
    obtain rfl : u = t := Option.some.inj (hu.symm.trans hk)
    have h := hgot j hj
    rw [mayMove, hsd] at h
    exact h

/-- **Every task keeps its terms**, and serves its connection in any order of stamps. -/
theorem Valid.task_contract (hB : B.Valid) {ι : Type} [LinearOrder ι] (σ : Side → Link → Nat → ι)
    (m₀ : Nat × Side → Mem) (hk : (B.calls v)[k]? = some t) :
    ∃ K : Contract p2pSystem (p2pTask (B.comm v.1) v.1 t) (B.terms m₀ v k) (B.Left m₀ v k)
        (B.Left m₀ v (k + 1)), K.Paced σ := by
  obtain ⟨hr, hbatch, hfunc⟩ := hB.mem_calls (List.mem_of_getElem? hk)
  by_cases hcount : t.count = 0
  · have hnone : B.terms m₀ v k = Terms.none := by
      rw [terms, hk]
      exact if_pos hcount
    rw [hnone]
    have hdone := TopologyP2p.empty_done (p2pTask (B.comm v.1) v.1 t) rfl hcount
    exact ⟨_, Contract.atOnce_paced
      (f := fun m => (TopologyP2p.opened (p2pTask (B.comm v.1) v.1 t) m).setPhase 1)
      (fun m _ => (hdone m).1) (fun m _ => (hdone m).2) (fun m hm => hm.skip hk hcount) σ⟩
  rw [terms_some hk hcount]
  obtain ⟨r, sd⟩ := v
  cases sd with
  | out =>
    have hT : TopologyP2p.IsSend (p2pTask (B.comm r) r t) (linkOf (r, .out) t) :=
      ⟨rfl, hfunc, hcount, if_pos ⟨hfunc, hcount⟩, if_neg fun h => h.1 hfunc⟩
    exact ⟨_, TopologyP2p.sendContract_paced hT (m₀ (r, .out)) (B.Left m₀ (r, .out) k)
      (B.Left m₀ (r, .out) (k + 1)) (fun m hm => hm.sends rfl) (left_of_send rfl) σ⟩
  | inn =>
    have hne : t.func ≠ .send := by
      rw [hfunc]
      exact CollFunc.noConfusion
    have hT : TopologyP2p.IsRecv (p2pTask (B.comm r) r t) (linkOf (r, .inn) t) :=
      ⟨rfl, hne, hcount, if_neg fun h => hne h.1, if_pos ⟨hne, hcount⟩⟩
    refine ⟨_, TopologyP2p.recvContract_paced hT (B.mayMove m₀ (r, .inn) k t) (fun m hm => ?_) σ⟩
    obtain ⟨m', hleft, hkept⟩ := hm.kept
    exact left_of_recv hk rfl hm.got hleft hkept

/-- **The contracts of all queues.** -/
theorem Valid.contracts (hB : B.Valid) {ι : Type} [LinearOrder ι] (σ : Link → ι)
    (net : Nat → Int → RoundOutcome) (m₀ : Nat × Side → Mem) :
    ∃ K : Contracts p2pSystem (B.tasks net) (B.terms m₀) (B.Left m₀),
      ∀ v k t ht, (K v k t ht).Paced fun _ l _ => σ l := by
  have key : ∀ v k task, (B.tasks net v)[k]? = some task →
      ∃ K : Contract p2pSystem task (B.terms m₀ v k) (B.Left m₀ v k) (B.Left m₀ v (k + 1)),
        K.Paced fun _ l _ => σ l := by
    intro v k task ht
    rw [hB.tasks_eq, List.getElem?_map, Option.map_eq_some_iff] at ht
    obtain ⟨t, hk, rfl⟩ := ht
    exact hB.task_contract _ m₀ hk
  exact ⟨fun v k t ht => (key v k t ht).choose, fun v k t ht => (key v k t ht).choose_spec⟩

end Contracts

/-! ## 5. The order of the messages -/

section Order

/-- Different peers have different rounds. -/
theorem p2pRoundOf_inj {func : CollFunc} {N r p p' : Int} (hr : 0 ≤ r ∧ r < N) (hp : 0 ≤ p ∧ p < N)
    (hp' : 0 ≤ p' ∧ p' < N) (h : p2pRoundOf func r p N = p2pRoundOf func r p' N) : p = p' := by
  have hmod : ∀ x y : Int, 0 ≤ x → x < N → 0 ≤ y → y < N →
      (x - y + N).tmod N = if x < y then x - y + N else x - y := by
    intro x y hx hx' hy hy'
    rw [Int.tmod_eq_emod_of_nonneg (by omega)]
    split
    · exact Int.emod_eq_of_lt (by omega) (by omega)
    · rw [Int.add_emod_right]
      exact Int.emod_eq_of_lt (by omega) (by omega)
  unfold p2pRoundOf at h
  dsimp only at h
  rw [hmod p r (by omega) (by omega) (by omega) (by omega),
    hmod p' r (by omega) (by omega) (by omega) (by omega),
    hmod r p (by omega) (by omega) (by omega) (by omega),
    hmod r p' (by omega) (by omega) (by omega) (by omega)] at h
  split at h <;> split at h <;> split at h <;> omega

variable (B) in
/-- The round of a connection. -/
def roundOf (l : Link) : Nat := (p2pRoundOf .send l.src l.dst B.size).toNat

/-- **Both ends have a message in the same round.** -/
theorem Valid.roundOf_linkOf (hB : B.Valid) {v : Nat × Side} {t : CollTask} (ht : t ∈ B.calls v) :
    (B.roundOf (linkOf v t) : Int) = p2pRoundOf (funcOf v.2) v.1 t.peer B.size := by
  obtain ⟨hr, hbatch, -⟩ := hB.mem_calls ht
  obtain ⟨h1, h2, h3⟩ := hB.peer hr hbatch
  have hbounds : 1 ≤ p2pRoundOf (funcOf v.2) v.1 t.peer B.size ∧ _ :=
    p2pRoundOf_bounds ⟨by omega, by omega⟩ ⟨h1, h2⟩ h3 (funcOf v.2)
  have hpeer := Int.toNat_of_nonneg h1
  obtain ⟨r, sd⟩ := v
  cases sd with
  | out =>
    have hround : p2pRoundOf .send (r : Int) (t.peer.toNat : Int) B.size =
        p2pRoundOf (funcOf .out) r t.peer B.size := by rw [hpeer, funcOf]
    change ((p2pRoundOf .send (r : Int) (t.peer.toNat : Int) B.size).toNat : Int) = _
    rw [hround]
    exact Int.toNat_of_nonneg (Int.le_trans (by decide) hbounds.1)
  | inn =>
    have hround : p2pRoundOf .send (t.peer.toNat : Int) (r : Int) B.size =
        p2pRoundOf (funcOf .inn) r t.peer B.size := by rw [hpeer]; rfl
    change ((p2pRoundOf .send (t.peer.toNat : Int) (r : Int) B.size).toNat : Int) = _
    rw [hround]
    exact Int.toNat_of_nonneg (Int.le_trans (by decide) hbounds.1)

/-- **The rounds are stamps of the queues**: a later task of a queue is of a later round, or for the same
    connection. -/
theorem Valid.stamps (hB : B.Valid) {net : Nat → Int → RoundOutcome} {m₀ : Nat × Side → Mem}
    {K : Contracts p2pSystem (B.tasks net) (B.terms m₀) (B.Left m₀)}
    (hpaced : ∀ v k t ht, (K v k t ht).Paced fun _ l _ => B.roundOf l) :
    Stamps K (fun l _ => B.roundOf l) fun l => ((B.items .out l).map bytesOf).sum where
  mono _ _ _ _ _ := Nat.le_refl _
  out_total l := by
    have hlen : (B.tasks net (endOf .out l)).length = (B.calls (endOf .out l)).length := by
      rw [hB.tasks_eq, List.length_map]
    have hbase := base_terms (B := B) m₀ (endOf .out l) l (B.calls (endOf .out l)).length
    change base (B.terms m₀) (endOf .out l) (B.tasks net (endOf .out l)).length .out l = _
    rw [hlen]
    exact hbase.trans (place_end l rfl)
  inn_total l := by
    have hlen : (B.tasks net (endOf .inn l)).length = (B.calls (endOf .inn l)).length := by
      rw [hB.tasks_eq, List.length_map]
    have hbase := base_terms (B := B) m₀ (endOf .inn l) l (B.calls (endOf .inn l)).length
    change base (B.terms m₀) (endOf .inn l) (B.tasks net (endOf .inn l)).length .inn l = _
    rw [hlen, hB.bytes_matched]
    exact hbase.trans (place_end l rfl)
  paced := hpaced
  later v k k' sd sd' l l' j j' hlt _ _ hj _ hj' := by
    obtain ⟨rfl, t, hk, -, rfl, -⟩ := terms_left hj
    obtain ⟨rfl, t', hk', -, rfl, -⟩ := terms_left hj'
    have ht := List.mem_of_getElem? hk
    have ht' := List.mem_of_getElem? hk'
    obtain ⟨hr, hbatch, -⟩ := hB.mem_calls ht
    obtain ⟨-, hbatch', -⟩ := hB.mem_calls ht'
    obtain ⟨h1, h2, -⟩ := hB.peer hr hbatch
    obtain ⟨h1', h2', -⟩ := hB.peer hr hbatch'
    have hround := hB.roundOf_linkOf ht
    have hround' := hB.roundOf_linkOf ht'
    have hle : p2pRoundOf (funcOf v.2) v.1 t.peer B.size ≤ p2pRoundOf (funcOf v.2) v.1 t'.peer B.size := by
      obtain ⟨hlen, rfl⟩ := List.getElem?_eq_some_iff.mp hk
      obtain ⟨hlen', rfl⟩ := List.getElem?_eq_some_iff.mp hk'
      exact List.pairwise_iff_getElem.mp (hB.queueOf hr v.2).sorted k k' hlen hlen' hlt
    rcases Int.lt_or_eq_of_le hle with hlt | heq
    · exact Or.inl (by omega)
    · -- tasks of one round have one peer
      have hpeer := p2pRoundOf_inj ⟨by omega, by omega⟩ ⟨h1, h2⟩ ⟨h1', h2'⟩ heq
      refine Or.inr ⟨rfl, ?_⟩
      unfold linkOf
      rw [hpeer]

end Order

/-! ## 6. Delivery, over memories of their own -/

section Delivery

variable {net : Nat → Int → RoundOutcome} {m₀ : Nat × Side → Mem} {a b i : Nat} {t t' : CollTask}

/-- **A Send and its Recv** have one size and are put into the same round. -/
theorem Valid.same_round (hB : B.Valid) (ha : a < B.size) (hb : b < B.size)
    (hsend : (B.between .send a b)[i]? = some t) (hrecv : (B.between .recv b a)[i]? = some t') :
    t.count = t'.count ∧ t.dtype = t'.dtype ∧ ∃ round ∈ rounds B.size,
      t ∈ roundTasks (B.comm a) (B.sorted a) .send round ∧
      t' ∈ roundTasks (B.comm b) (B.sorted b) .recv round := by
  have hshape := congrArg (fun xs : List (Nat × DataType) => xs[i]?) (hB.matched a ha b hb)
  rw [List.getElem?_map, List.getElem?_map, hsend, hrecv] at hshape
  obtain ⟨hcount, hdtype⟩ := Prod.mk.inj (Option.some.inj hshape)
  obtain ⟨hmem, hwith⟩ := List.mem_filter.mp (List.mem_of_getElem? hsend)
  obtain ⟨hmem', hwith'⟩ := List.mem_filter.mp (List.mem_of_getElem? hrecv)
  rw [withPeer, Bool.and_eq_true, beq_iff_eq, beq_iff_eq] at hwith hwith'
  obtain ⟨h1, h2, h3⟩ := hB.peer ha hmem
  have hround : 1 ≤ p2pRoundOf .send a t.peer B.size ∧ _ :=
    p2pRoundOf_bounds ⟨by omega, by omega⟩ ⟨h1, h2⟩ h3 .send
  refine ⟨hcount, hdtype, p2pRoundOf .send a t.peer B.size, mem_rounds.mpr hround, ?_, ?_⟩
  · obtain ⟨hrank, hworld, -⟩ := hB.comm a ha
    refine List.mem_filter.mpr ⟨(hB.mem_sorted ha).mpr hmem, ?_⟩
    rw [hwith.1, hrank, hworld, beq_self_eq_true, beq_self_eq_true, Bool.and_self]
  · obtain ⟨hrank, hworld, -⟩ := hB.comm b hb
    have hsame : p2pRoundOf .recv b t'.peer B.size = p2pRoundOf .send a t.peer B.size := by
      rw [hwith.2, hwith'.2]
      rfl
    refine List.mem_filter.mpr ⟨(hB.mem_sorted hb).mpr hmem', ?_⟩
    rw [hwith'.1, hrank, hworld, hsame, beq_self_eq_true, beq_self_eq_true, Bool.and_self]

/-- **What a Recv has received**: it has a place in its queue, after the Recvs from the same rank that the
    caller has queued before it, and once it is done its buffer holds the buffer of its Send; outside the
    buffers of the Recvs done so far the memory is that of the start. -/
theorem Valid.received (hB : B.Valid) {F : Flow Link} {ls : List (Label (Nat × Side) Link UInt8 CollEvent)}
    {c : Config (Nat × Side) Link UInt8 RankState Mem}
    (hrun : Run p2pSystem F (B.tasks net) (.start m₀) ls c) (ha : a < B.size) (hb : b < B.size)
    (hsend : (B.between .send a b)[i]? = some t) (hrecv : (B.between .recv b a)[i]? = some t') :
    ∃ k, (B.calls (b, .inn))[k]? = some t' ∧ before (withPeer .recv a) (B.calls (b, .inn)) k = i ∧
      (k < (c.node (b, .inn)).finished → ∃ m, (c.node (b, .inn)).past[k]? = some m ∧
        (∀ j < bytesOf t, m (t'.recvBuf + j) = m₀ (a, .out) (t.sendBuf + j)) ∧
        ∀ x, (∀ u ∈ (B.calls (b, .inn)).take (k + 1), x < u.recvBuf ∨ u.recvBuf + bytesOf u ≤ x) →
          m x = m₀ (b, .inn) x) := by
  obtain ⟨K, -⟩ := hB.contracts (fun _ => (0 : Nat)) net m₀
  let l : Link := ⟨.p2p, a, b⟩
  have hout : (B.items .out l)[i]? = some t := by rw [hB.items_eq .out l rfl ha]; exact hsend
  have hinn : (B.items .inn l)[i]? = some t' := by rw [hB.items_eq .inn l rfl hb]; exact hrecv
  obtain ⟨k, hk, hbefore, hlink⟩ := exists_before hinn
  have hl : linkOf (b, .inn) t' = l := of_decide_eq_true hlink
  have hcongr : ((B.calls (b, .inn)).take k).filter (onLink (b, .inn) l) =
      ((B.calls (b, .inn)).take k).filter (withPeer .recv a) :=
    List.filter_congr fun u hu => hB.onLink_eq .inn (l := l) rfl (List.mem_of_mem_take hu)
  refine ⟨k, hk, ?_, fun hfin => ?_⟩
  · rw [before, ← hcongr]
    exact hbefore
  · have hpast := (hrun.kept (b, .inn)).length
    obtain ⟨m, hget⟩ : ∃ m, (c.node (b, .inn)).past[k]? = some m :=
      ⟨_, List.getElem?_eq_getElem (by omega)⟩
    have hleft := hrun.past (terms_fit B m₀) sideEvent_surjective (B.left_start m₀) K (v := (b, .inn))
      (k := k + 1) (by rw [Node.starts, List.getElem?_cons_succ]; exact hget)
    refine ⟨_, hget, fun j hj => ?_, hleft.kept⟩
    have hshape := congrArg (fun xs : List Nat => xs[i]?) (hB.bytes_matched l)
    rw [List.getElem?_map, List.getElem?_map, hout, hinn] at hshape
    have hbytes : bytesOf t = bytesOf t' := Option.some.inj hshape
    have hlast := hleft.last rfl k t' rfl hk j (by omega)
    have hplace : B.place (b, .inn) l k = (((B.items .out l).take i).map bytesOf).sum := by
      rw [List.map_take, hB.bytes_matched, ← List.map_take, ← hbefore]
      exact congrArg (fun us : List CollTask => (us.map bytesOf).sum) (take_before ..).symm
    rw [hl, hplace, streamOf_at hout hj] at hlast
    exact (Option.some.inj hlast).symm

/-- **The queues never get stuck.** -/
theorem Valid.never_stuck (hB : B.Valid) {cap : Link → Nat} (hcap : ∀ l, 0 < cap l)
    {ls : List (Label (Nat × Side) Link UInt8 CollEvent)}
    {c : Config (Nat × Side) Link UInt8 RankState Mem}
    (hrun : Run p2pSystem (Flow.full cap) (B.tasks net) (.start m₀) ls c)
    (hleft : ∃ v, (c.node v).finished < (B.tasks net v).length) :
    (∀ v p, (c.node v).mode = .busy p → CallEnds p2pSystem (Flow.full cap) (B.tasks net) c v) ∧
    ((∀ v p, (c.node v).mode ≠ .busy p) → ∃ v, (c.node v).finished < (B.tasks net v).length ∧
      NextCallMoves p2pSystem (Flow.full cap) (B.tasks net) c v) := by
  obtain ⟨K, hpaced⟩ := hB.contracts B.roundOf net m₀
  obtain ⟨g, hg⟩ := hrun.consistent (K := K) (terms_fit B m₀) sideEvent_surjective (B.left_start m₀)
  refine ⟨fun v p hm => hg.call_ends (terms_fit B m₀) sideEvent_surjective cap p hm, fun hb => ?_⟩
  rcases hrun.progress (terms_fit B m₀) sideEvent_surjective (B.left_start m₀) (hB.stamps hpaced) hcap
    hleft with ⟨v, p, hm, -⟩ | hmoves
  · exact absurd hm (hb v p)
  · exact hmoves

end Delivery

/-! ## 7. One memory for both queues of a rank -/

section Memory

variable {net : Nat → Int → RoundOutcome} {m₀ : Nat → Mem} {a b i : Nat} {t t' : CollTask}

/-- **The operations of a group are independent of each other**: no rank sends a byte from where one of its
    Recvs puts a byte. -/
def Apart (B : P2pBatches) : Prop :=
  ∀ r < B.size, ∀ t ∈ B.batch r, ∀ t' ∈ B.batch r, t.func = .send → t'.func = .recv →
    ∀ j < bytesOf t, ∀ j' < bytesOf t', t.sendBuf + j ≠ t'.recvBuf + j'

/-- What the queues of a rank see of its memory. -/
abbrev Sees (B : P2pBatches) (net : Nat → Int → RoundOutcome) : Nat × Side → Mem → Mem → Prop :=
  TopologyP2p.Sees (B.tasks net)

/-- The queues do not notice each other. -/
theorem Valid.tame (hB : B.Valid) (hapart : B.Apart) (net : Nat → Int → RoundOutcome) :
    TameTasks p2pThreads (B.Sees net) (B.tasks net) := by
  have hmem : ∀ v, ∀ task ∈ B.tasks net v, ∃ t ∈ B.calls v, p2pTask (B.comm v.1) v.1 t = task := by
    intro v task htask
    rw [hB.tasks_eq] at htask
    exact List.mem_map.mp htask
  refine TopologyP2p.tame ⟨fun v task htask => ?_, fun v task htask => ?_⟩ fun r task htask task' htask' => ?_
  · obtain ⟨t, -, rfl⟩ := hmem v task htask
    rfl
  · obtain ⟨t, ht, rfl⟩ := hmem v task htask
    obtain ⟨-, -, hfunc⟩ := hB.mem_calls ht
    change t.func = .send ↔ _
    obtain ⟨r, sd⟩ := v
    cases sd with
    | out => exact iff_of_true hfunc rfl
    | inn =>
      rw [hfunc]
      exact iff_of_false CollFunc.noConfusion Side.noConfusion
  · obtain ⟨t, ht, rfl⟩ := hmem _ task htask
    obtain ⟨t', ht', rfl⟩ := hmem _ task' htask'
    obtain ⟨hr, hbatch, hfunc⟩ := hB.mem_calls ht
    obtain ⟨-, hbatch', hfunc'⟩ := hB.mem_calls ht'
    exact hapart r hr t hbatch t' hbatch' hfunc hfunc'

/-- **A run over the memories of the ranks is one of queues with memories of their own.** -/
theorem Valid.own_run (hB : B.Valid) (hapart : B.Apart) {F : Flow Link}
    {ls : List (Label (Nat × Side) Link UInt8 CollEvent)}
    {c : Shared (Nat × Side) Nat Link UInt8 RankState CollOpState Mem}
    (hrun : Shared.Run p2pThreads F (B.tasks net) (.start m₀) ls c) :
    ∃ p, Run p2pSystem F (B.tasks net) (.start fun v => m₀ v.1) ls p ∧
      View p2pThreads (B.Sees net) c p :=
  (View.start TopologyP2p.sees_refl m₀).forth_run (hB.tame hapart net) hrun

/-- A Recv queue has left the same memories. -/
theorem past_eq {c : Shared (Nat × Side) Nat Link UInt8 RankState CollOpState Mem}
    {p : Config (Nat × Side) Link UInt8 RankState Mem} (h : View p2pThreads (B.Sees net) c p) (r : Nat) :
    (c.thread (r, .inn)).past = (p.node (r, .inn)).past := by
  have hpast := h.past (r, .inn)
  change List.Forall₂ (fun m m' : Mem => m = m') _ _ at hpast
  rw [List.forall₂_eq_eq_eq] at hpast
  exact hpast.symm

/-- **Matched P2P batches are delivered in order and never get stuck.** The queues of a plan hold every
    task once, by rounds, and the tasks with one peer in the order of the caller. A Send and its Recv are
    in the same round. In every run of the queues, the two of a rank over its one memory, and over
    connections that move their bytes in any pieces, a Recv that is done holds the bytes of its Send; and
    over connections of any capacity every call in progress comes to its end, and while a task is unfinished
    and no call is in progress, the next call of some queue moves a byte or finishes its task. -/
theorem p2p_delivers (hB : B.Valid) (hapart : B.Apart) (net : Nat → Int → RoundOutcome)
    (m₀ : Nat → Mem) :
    (∀ r < B.size, ∀ sd, B.tasks net (r, sd) = (B.calls (r, sd)).map (p2pTask (B.comm r) r) ∧
      QueueOf (B.batch r) (B.calls (r, sd)) B.size r (funcOf sd)) ∧
    (∀ a < B.size, ∀ b < B.size, ∀ i t t', (B.between .send a b)[i]? = some t →
      (B.between .recv b a)[i]? = some t' →
      (t.count = t'.count ∧ t.dtype = t'.dtype ∧ ∃ round ∈ rounds B.size,
        t ∈ roundTasks (B.comm a) (B.sorted a) .send round ∧
        t' ∈ roundTasks (B.comm b) (B.sorted b) .recv round) ∧
      ∀ F ls c, Shared.Run p2pThreads F (B.tasks net) (.start m₀) ls c →
        ∃ k, (B.calls (b, .inn))[k]? = some t' ∧
          before (withPeer .recv a) (B.calls (b, .inn)) k = i ∧
          (k < (c.thread (b, .inn)).finished → ∃ m, (c.thread (b, .inn)).past[k]? = some m ∧
            (∀ j < bytesOf t, m (t'.recvBuf + j) = m₀ a (t.sendBuf + j)) ∧
            ∀ x, (∀ u ∈ (B.calls (b, .inn)).take (k + 1),
              x < u.recvBuf ∨ u.recvBuf + bytesOf u ≤ x) → m x = m₀ b x)) ∧
    ∀ cap : Link → Nat, (∀ l, 0 < cap l) → ∀ ls c,
      Shared.Run p2pThreads (Flow.full cap) (B.tasks net) (.start m₀) ls c →
      (∃ v, (c.thread v).finished < (B.tasks net v).length) →
      (∀ v call, (c.thread v).stage = .busy call →
        Shared.CallEnds p2pThreads (Flow.full cap) (B.tasks net) c v) ∧
      ((∀ v call, (c.thread v).stage ≠ .busy call) →
        ∃ v, (c.thread v).finished < (B.tasks net v).length ∧
          Shared.NextCallMoves p2pThreads (Flow.full cap) (B.tasks net) c v) := by
  have htame := hB.tame hapart net
  refine ⟨fun r hr sd => ⟨hB.tasks_eq net (r, sd), hB.queueOf hr sd⟩,
    fun a ha b hb i t t' hsend hrecv => ⟨hB.same_round ha hb hsend hrecv, fun F ls c hrun => ?_⟩,
    fun cap hcap ls c hrun hleft => ?_⟩
  · obtain ⟨p, hown, hview⟩ := hB.own_run hapart hrun
    obtain ⟨k, hk, hbefore, hdone⟩ := hB.received hown ha hb hsend hrecv
    rw [← hview.finished, ← past_eq hview] at hdone
    exact ⟨k, hk, hbefore, hdone⟩
  · obtain ⟨p, hown, hview⟩ := hB.own_run hapart hrun
    obtain ⟨hends, hmoves⟩ := hB.never_stuck hcap hown (by simpa only [hview.finished] using hleft)
    refine ⟨fun v call hx => ?_, fun hidle => ?_⟩
    · obtain ⟨q, hm⟩ := (hview.busy_iff v).mp ⟨call, hx⟩
      exact hview.call_ends htame (hends v q hm)
    · obtain ⟨v, hlt, hnext⟩ := hmoves fun v q hm => by
        obtain ⟨call, hx⟩ := (hview.busy_iff v).mpr ⟨q, hm⟩
        exact hidle v call hx
      exact ⟨v, by rw [hview.finished]; exact hlt, hview.next_call_moves htame hnext⟩

end Memory

/-! ## 8. Three ranks in a circle -/

/-- The communicator of a rank of three, with a connection to every other rank. -/
def circleComm (r : Nat) : CommunicatorState where
  rank := r
  worldSize := 3
  nChannels := 2
  channels := [
    { sendP2p := (List.range 3).map fun (peer : Nat) =>
        { peer := peer, isSend := true, transport := some ⟨.p2p, r, peer⟩ } },
    { recvP2p := (List.range 3).map fun (peer : Nat) =>
        { peer := peer, transport := some ⟨.p2p, peer, r⟩ } }]
  ringTopology := { rank := r, worldSize := 3 }
  treeTopology := {}
  sameMachine _ := false
  useShm := false
  rdmaReady := false
  dynamicAvailable := false

/-- Every rank sends two messages to the next rank, and an empty one back. -/
def circle : P2pBatches where
  size := 3
  comm := circleComm
  batch r := [
    { func := .send, count := 0, peer := (r + 2) % 3 },
    { func := .recv, count := 0, peer := (r + 1) % 3 },
    { func := .send, sendBuf := 8, count := 1, dtype := .int64, peer := (r + 1) % 3 },
    { func := .send, sendBuf := 16, count := 1, dtype := .int32, peer := (r + 1) % 3 },
    { func := .recv, recvBuf := 64, count := 1, dtype := .int64, peer := (r + 2) % 3 },
    { func := .recv, recvBuf := 80, count := 1, dtype := .int32, peer := (r + 2) % 3 }]

theorem circle_valid : circle.Valid where
  comm r _ := ⟨rfl, rfl, Nat.le_refl 2⟩
  p2p := by decide
  accepted := by decide
  ready r hr := by
    refine ⟨⟨_, rfl, ?_⟩, _, rfl, ?_⟩
    · revert r
      decide
    · revert r
      decide
  matched := by decide

/-- The batches are in the order of the rounds. -/
theorem circle_sorted {r : Nat} (hr : r < 3) : circle.sorted r = circle.batch r := by
  have hsorted : ∀ r < 3, (circle.batch r).Pairwise fun a b => (!p2pLess r 3 b a) = true := by decide
  have hp2p : ∀ r < 3, (circle.batch r).filter (fun task => isP2p task.func) = circle.batch r ∧
      ((circle.batch r).filter fun task => !isP2p task.func) = [] := by decide
  have hsort := circle_valid.sorts hr
  rw [sortTasks] at hsort
  split at hsort
  case isTrue => cases hsort
  case isFalse =>
    split at hsort
    case isFalse => cases hsort
    case isTrue =>
      rw [(hp2p r hr).1, (hp2p r hr).2] at hsort
      have hself : stableSort (p2pLess r 3) (circle.batch r) = circle.batch r :=
        List.mergeSort_of_pairwise (hsorted r hr)
      have hnil : stableSort collectiveLess [] = [] := List.mergeSort_nil
      rw [hnil, List.nil_append] at hsort
      rw [← Option.some.inj hsort]
      exact hself

theorem circle_apart : circle.Apart := by
  unfold Apart
  decide

/-- Rank `r` holds `16 r + a` at `a`. -/
def circleMem (r a : Nat) : UInt8 := (16 * r + a).toUInt8

/-- The tasks of all queues. -/
def circleTasks (v : Nat × Side) : List PlanTask :=
  if v.1 < 3 then
    (roundQueue (circleComm v.1) (circle.batch v.1) (funcOf v.2)).map (p2pTask (circleComm v.1) v.1)
  else []

theorem circle_tasks (net : Nat → Int → RoundOutcome) : circle.tasks net = circleTasks := by
  funext v
  rw [circle_valid.tasks_eq, calls, circleTasks]
  split
  case isTrue hr =>
    rw [circle_sorted hr]
    exact (if_pos hr).symm
  case isFalse hr => exact (if_neg hr).symm

/-- All queues after `n` turns over connections of three bytes, each over a memory of its own. -/
def circleAt (n : Nat) : Config (Nat × Side) Link UInt8 RankState Mem :=
  (Config.start fun v => circleMem v.1).follow p2pSystem (fun _ => 3) circleTasks
    (List.replicate n ((List.range 3).flatMap fun r =>
      [((r, .out), .writable), ((r, .inn), .readable)])).flatten

/-- All queues after `n` turns. -/
theorem circle_run (net : Nat → Int → RoundOutcome) (n : Nat) :
    ∃ ls c, Shared.Run p2pThreads (Flow.full fun _ => 3) (circle.tasks net) (.start circleMem) ls c ∧
      ∀ v, (c.thread v).finished = ((circleAt n).node v).finished := by
  obtain ⟨ls, hown⟩ := Config.follow_run p2pSystem (fun _ => 3) circleTasks
    (.start fun v => circleMem v.1) (List.replicate n ((List.range 3).flatMap fun r =>
      [((r, .out), .writable), ((r, .inn), .readable)])).flatten
  rw [← circle_tasks net] at hown
  have hstart : View p2pThreads (circle.Sees net) (.start circleMem) (.start fun v => circleMem v.1) :=
    .start TopologyP2p.sees_refl circleMem
  obtain ⟨c, hrun, hview⟩ := hstart.back_run (circle_valid.tame circle_apart net) hown
  refine ⟨ls, c, hrun, fun v => ?_⟩
  rw [hview.finished, circle_tasks net]
  rfl

theorem p2p_delivers_circle : ∃ ls c, Shared.Run p2pThreads (Flow.full fun _ => 3)
      (circle.tasks fun _ _ => ⟨[], [], true⟩) (.start circleMem) ls c ∧
    ∃ k : Nat, ∃ m : Mem, (c.thread (1, .inn)).past[k]? = some m ∧
      ∀ j < 4, m (80 + j) = circleMem 0 (16 + j) := by
  have hfin : ((circleAt 30).node (1, .inn)).finished = 3 := by decide +kernel
  obtain ⟨ls, c, hrun, hnode⟩ := circle_run (fun _ _ => ⟨[], [], true⟩) 30
  rw [← hnode] at hfin
  obtain ⟨-, hpairs, -⟩ := p2p_delivers circle_valid circle_apart (fun _ _ => ⟨[], [], true⟩) circleMem
  obtain ⟨k, hk, -, hdone⟩ := (hpairs 0 (by decide) 1 (by decide) 1 _ _ rfl rfl).2 _ ls c hrun
  have hlen : (circle.calls (1, .inn)).length = 3 := by
    have h := congrArg List.length (congrFun (circle_tasks fun _ _ => ⟨[], [], true⟩) (1, .inn))
    rw [circle_valid.tasks_eq, List.length_map] at h
    exact h
  have hlt := (List.getElem?_eq_some_iff.mp hk).1
  obtain ⟨m, hm, hbytes, -⟩ := hdone (by rw [hfin, ← hlen]; exact hlt)
  exact ⟨ls, c, hrun, k, m, hm, hbytes⟩

end P2pBatches

end OriginCCL
