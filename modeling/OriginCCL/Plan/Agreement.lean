/-
  File:      OriginCCL/Plan/Agreement.lean
  Subject:   MATCHING PLANS (`Planner::SortTasks`, `Planner::Plan` on two ranks).

  * `collectiveLess_eq`, `p2pLess_eq` -- the two comparisons read a key; so they are orders.
  * `sortInPlace` -- `SortTasks` on the caller's vector; `sortInPlace_eq` -- it is `sortTasks`.
  * `Arranged` -- what becomes of a batch: a permutation, collectives first, stable.
  * `Agree` -- two tasks of two plans that are the same slice of matching collectives.
  * `matching_plans` -- **from the same collectives all ranks plan the same slices on every channel.**
-/
import OriginCCL.Base.Sorting
import OriginCCL.Plan.Accesses
import OriginCCL.Plan.Paths
import Mathlib.Data.Prod.Lex
import Mathlib.Data.Int.Order.Basic

namespace OriginCCL.Planner

open Base CommunicatorState

/-! ## 1. Sort keys -/

section Keys

theorem funcIndex_inj {f g : CollFunc} (h : funcIndex f = funcIndex g) : f = g := by
  cases f <;> cases g <;> first | rfl | exact absurd h (by decide)

theorem dtypeIndex_inj {d e : DataType} (h : dtypeIndex d = dtypeIndex e) : d = e := by
  cases d <;> cases e <;> first | rfl | exact absurd h (by decide)

/-- What decides the place of a collective in its batch. -/
def sortKey (task : CollTask) : ℤ ×ₗ ℕ ×ₗ ℤ ×ₗ ℤ ×ₗ ℤ :=
  toLex (funcIndex task.func, toLex (totalBytes task, toLex (dtypeIndex task.dtype,
    toLex (effectiveOp task, effectiveRoot task))))

/-- What decides the place of a P2P task. -/
def p2pKey (rank worldSize : Int) (task : CollTask) : ℤ ×ₗ ℤ :=
  toLex (p2pRoundOf task.func rank task.peer worldSize, funcIndex task.func)

/-- One level of a lexicographic comparison. -/
theorem lex_lt_iff {α β : Type} [LinearOrder α] [LinearOrder β] (x y : α) (u v : β) :
    toLex (x, u) < toLex (y, v) ↔ if x ≠ y then x < y else u < v := by
  rw [Prod.Lex.toLex_lt_toLex]
  by_cases h : x = y
  · rw [if_neg (not_not.mpr h)]
    exact ⟨fun hlt => hlt.elim (fun hx => absurd h hx.ne) And.right, fun hu => Or.inr ⟨h, hu⟩⟩
  · rw [if_pos h]
    exact ⟨fun hlt => hlt.elim id fun hu => absurd hu.1 h, Or.inl⟩

/-- **The comparison of collectives** is the lexicographic order of their keys. -/
theorem collectiveLess_eq (a b : CollTask) :
    collectiveLess a b = decide (sortKey a < sortKey b) := by
  have hfunc : a.func ≠ b.func ↔ funcIndex a.func ≠ funcIndex b.func :=
    not_congr ⟨congrArg funcIndex, funcIndex_inj⟩
  have hdtype : a.dtype ≠ b.dtype ↔ dtypeIndex a.dtype ≠ dtypeIndex b.dtype :=
    not_congr ⟨congrArg dtypeIndex, dtypeIndex_inj⟩
  rw [Bool.eq_iff_iff, decide_eq_true_iff, sortKey, sortKey, lex_lt_iff, lex_lt_iff, lex_lt_iff,
    lex_lt_iff]
  unfold collectiveLess totalBytes
  dsimp only
  simp only [hfunc, hdtype]
  split_ifs <;> exact decide_eq_true_iff

/-- The comparison of P2P tasks is the order of their keys. -/
theorem p2pLess_eq (rank worldSize : Int) (a b : CollTask) :
    p2pLess rank worldSize a b = decide (p2pKey rank worldSize a < p2pKey rank worldSize b) := by
  rw [Bool.eq_iff_iff, decide_eq_true_iff, p2pKey, p2pKey, lex_lt_iff]
  unfold p2pLess
  dsimp only
  split_ifs <;> exact decide_eq_true_iff

/-- A stable sort by a comparison that reads a key. -/
theorem sortedBy_stableSort {α κ : Type} [LinearOrder κ] {key : α → κ} {less : α → α → Bool}
    (h : ∀ a b, less a b = decide (key a < key b)) (xs : List α) :
    SortedBy key xs (stableSort less xs) := by
  refine sortedBy_mergeSort (fun a b => ?_) xs
  rw [h, ← decide_not]
  exact decide_eq_decide.mpr not_lt

end Keys

/-! ## 2. `SortTasks` -/

section Order

variable {rank worldSize : Int} {tasks batch : List CollTask}

/-- The first loop of `SortTasks`: the collectives and the P2P tasks of a batch, unless a task fails its
    check. -/
def splitTasks (rank worldSize : Int) :
    List CollTask → List CollTask → List CollTask → Option (List CollTask × List CollTask)
  | [], collectives, p2p => some (collectives, p2p)
  | task :: tasks, collectives, p2p =>
    if isP2p task.func then
      if task.peer < 0 ∨ task.peer ≥ worldSize ∨ task.peer = rank then none
      else splitTasks rank worldSize tasks collectives (p2p ++ [task])
    else if validateCollectiveTask task rank worldSize then
      splitTasks rank worldSize tasks (collectives ++ [task]) p2p
    else none

/-- `SortTasks` on the caller's vector: what it returns, and the vector afterwards. -/
def sortInPlace (tasks : List CollTask) (rank worldSize : Int) : Bool × List CollTask :=
  if worldSize ≤ 0 ∨ rank < 0 ∨ rank ≥ worldSize then (false, tasks)
  else
    match splitTasks rank worldSize tasks [] [] with
    | none => (false, tasks)
    | some (collectives, p2p) =>
      (true, stableSort collectiveLess collectives ++ stableSort (p2pLess rank worldSize) p2p)

/-- The loop ends with the two parts of the batch if every task passes its check. -/
theorem splitTasks_eq (collectives p2p : List CollTask) :
    splitTasks rank worldSize tasks collectives p2p =
      if tasks.all (sortable rank worldSize) then
        some (collectives ++ tasks.filter fun task => !isP2p task.func,
          p2p ++ tasks.filter fun task => isP2p task.func)
      else none := by
  induction tasks generalizing collectives p2p with
  | nil => simp [splitTasks]
  | cons task tasks ih =>
    rw [splitTasks, List.all_cons, sortable]
    cases hfunc : isP2p task.func with
    | true =>
      rw [if_pos rfl, if_pos rfl, List.filter_cons_of_neg (by simp [hfunc]),
        List.filter_cons_of_pos (by simp [hfunc])]
      by_cases hpeer : task.peer < 0 ∨ task.peer ≥ worldSize ∨ task.peer = rank
      · rw [if_pos hpeer]
        have hno : (!(decide (task.peer < 0) || decide (task.peer ≥ worldSize) || task.peer == rank)) =
            false := by
          rw [Bool.not_eq_false', Bool.or_eq_true, Bool.or_eq_true, decide_eq_true_iff,
            decide_eq_true_iff, beq_iff_eq, or_assoc]
          exact hpeer
        rw [hno, Bool.false_and, if_neg Bool.false_ne_true]
      · rw [if_neg hpeer, ih]
        have hyes : (!(decide (task.peer < 0) || decide (task.peer ≥ worldSize) || task.peer == rank)) =
            true := by
          simpa [not_or, and_assoc] using hpeer
        rw [hyes, Bool.true_and, List.append_assoc, List.singleton_append]
    | false =>
      rw [if_neg Bool.false_ne_true, if_neg Bool.false_ne_true, List.filter_cons_of_pos (by simp [hfunc]),
        List.filter_cons_of_neg (by simp [hfunc])]
      cases hvalid : validateCollectiveTask task rank worldSize with
      | true => rw [if_pos rfl, ih, Bool.true_and, List.append_assoc, List.singleton_append]
      | false => rw [if_neg Bool.false_ne_true, Bool.false_and, if_neg Bool.false_ne_true]

/-- **`SortTasks` returns the sorted batch**, or false and leaves the vector as it was. -/
theorem sortInPlace_eq (tasks : List CollTask) (rank worldSize : Int) :
    sortInPlace tasks rank worldSize =
      match sortTasks tasks rank worldSize with
      | some batch => (true, batch)
      | none => (false, tasks) := by
  unfold sortInPlace sortTasks
  rw [splitTasks_eq]
  split_ifs <;> rfl

/-- **What becomes of a batch**: a permutation, the collectives first in the order of their keys, then
    the P2P tasks in the order of theirs; tasks with the same key stay in their order. -/
structure Arranged (rank worldSize : Int) (tasks batch : List CollTask) : Prop where
  perm : batch.Perm tasks
  parts : batch = collectives batch ++ batch.filter fun task => isP2p task.func
  collectives : SortedBy sortKey (collectives tasks) (collectives batch)
  p2p : SortedBy (p2pKey rank worldSize) (tasks.filter fun task => isP2p task.func)
    (batch.filter fun task => isP2p task.func)

/-- The parts of a batch made of two such parts. -/
theorem parts_append {cs ps : List CollTask} (hcs : ∀ t ∈ cs, isP2p t.func = false)
    (hps : ∀ t ∈ ps, isP2p t.func = true) :
    collectives (cs ++ ps) = cs ∧ ((cs ++ ps).filter fun task => isP2p task.func) = ps := by
  have h1 : (cs.filter fun task => !isP2p task.func) = cs :=
    List.filter_eq_self.mpr fun t ht => by rw [hcs t ht]; rfl
  have h2 : (ps.filter fun task => !isP2p task.func) = [] :=
    List.filter_eq_nil_iff.mpr fun t ht => by rw [hps t ht]; exact Bool.false_ne_true
  have h3 : (cs.filter fun task => isP2p task.func) = [] :=
    List.filter_eq_nil_iff.mpr fun t ht => by rw [hcs t ht]; exact Bool.false_ne_true
  have h4 : (ps.filter fun task => isP2p task.func) = ps := List.filter_eq_self.mpr hps
  rw [CommunicatorState.collectives, List.filter_append, List.filter_append, h1, h2, h3, h4]
  exact ⟨List.append_nil cs, List.nil_append ps⟩

/-- **The batch that `SortTasks` leaves.** -/
theorem arranged_sortTasks (h : sortTasks tasks rank worldSize = some batch) :
    Arranged rank worldSize tasks batch := by
  unfold sortTasks at h
  split at h
  · cases h
  · split at h
    · obtain rfl := Option.some.inj h
      have hc := sortedBy_stableSort collectiveLess_eq (tasks.filter fun task => !isP2p task.func)
      have hp := sortedBy_stableSort (p2pLess_eq rank worldSize)
        (tasks.filter fun task => isP2p task.func)
      obtain ⟨h1, h2⟩ := parts_append
        (fun t ht => by simpa using (List.mem_filter.mp (hc.perm.mem_iff.mp ht)).2)
        (fun t ht => (List.mem_filter.mp (hp.perm.mem_iff.mp ht)).2)
      have hsplit := List.filter_append_perm (fun task : CollTask => !isP2p task.func) tasks
      simp only [Bool.not_not] at hsplit
      refine ⟨(hc.perm.append hp.perm).trans hsplit, ?_, ?_, ?_⟩
      · rw [h1, h2]
      · rw [h1]
        exact hc
      · rw [h2]
        exact hp
    · cases h

end Order

/-! ## 3. Signatures -/

section Signatures

variable {rank rank' worldSize : Int} {t t' : CollTask} {cs cs' : List CollTask}

/-- What a collective has in common on all ranks. -/
structure Signature where
  func : CollFunc
  count : Nat
  dtype : DataType
  op : Int
  root : Int
  deriving DecidableEq

def signature (task : CollTask) : Signature :=
  ⟨task.func, task.count, task.dtype, effectiveOp task, effectiveRoot task⟩

/-- The key of a collective with the signature. -/
def Signature.key (s : Signature) : ℤ ×ₗ ℕ ×ₗ ℤ ×ₗ ℤ ×ₗ ℤ :=
  toLex (funcIndex s.func, toLex (sizeT (s.count * getDataTypeSize s.dtype),
    toLex (dtypeIndex s.dtype, toLex (s.op, s.root))))

/-- Tasks with the same signature may change places. -/
theorem key_signature (t : CollTask) : (signature t).key = sortKey t := rfl

/-- **Valid tasks with the same key have the same signature**: their bytes have not overflowed. -/
theorem signature_of_key (h : Valid t rank worldSize) (h' : Valid t' rank' worldSize)
    (hkey : sortKey t = sortKey t') : signature t = signature t' := by
  obtain ⟨hfunc, hrest⟩ := Prod.mk.inj (toLex_inj.mp hkey)
  obtain ⟨hbytes, hrest⟩ := Prod.mk.inj (toLex_inj.mp hrest)
  obtain ⟨hdtype, hrest⟩ := Prod.mk.inj (toLex_inj.mp hrest)
  obtain ⟨hop, hroot⟩ := Prod.mk.inj (toLex_inj.mp hrest)
  have hfunc := funcIndex_inj hfunc
  have hdtype := dtypeIndex_inj hdtype
  rw [totalBytes_eq h, totalBytes_eq h', hdtype] at hbytes
  have hcount := Nat.eq_of_mul_eq_mul_right (getDataTypeSize_pos t'.dtype) hbytes
  rw [signature, signature, hfunc, hcount, hdtype, hop, hroot]

/-- So the order of the keys is the order of the signatures. -/
theorem signatures_of_keys (h : ∀ t ∈ cs, Valid t rank worldSize) (h' : ∀ t ∈ cs', Valid t rank' worldSize)
    (hkeys : cs.map sortKey = cs'.map sortKey) : cs.map signature = cs'.map signature := by
  induction cs generalizing cs' with
  | nil =>
    rw [List.map_nil] at hkeys
    rw [List.map_eq_nil_iff.mp hkeys.symm]
  | cons t cs ih =>
    cases cs' with
    | nil => cases hkeys
    | cons t' cs' =>
      rw [List.map_cons, List.map_cons] at hkeys
      obtain ⟨hkey, hkeys⟩ := List.cons.inj hkeys
      rw [List.map_cons, List.map_cons,
        signature_of_key (h t List.mem_cons_self) (h' t' List.mem_cons_self) hkey,
        ih (fun x hx => h x (List.mem_cons_of_mem _ hx)) (fun x hx => h' x (List.mem_cons_of_mem _ hx))
          hkeys]

/-- The cuts of a collective into slices depend on its signature. -/
theorem slices_congr (worldSize : Int) (n : Nat) (h : signature t = signature t') (k : Nat) :
    nUsed worldSize n t = nUsed worldSize n t' ∧ useTree t = useTree t' ∧
      sliceElems worldSize n t k = sliceElems worldSize n t' k ∧
      (∀ m, sliceChunk worldSize t m = sliceChunk worldSize t' m) ∧
      sliceOffset worldSize n t k = sliceOffset worldSize n t' k := by
  obtain ⟨hfunc, hcount, hdtype, -, -⟩ := Signature.mk.inj h
  have hsame : ∀ t : CollTask, ∀ k, sliceElems worldSize n t k = sliceElems worldSize n
      { func := t.func, count := t.count, dtype := t.dtype } k := fun _ _ => rfl
  have hoffset : ∀ t : CollTask, sliceOffset worldSize n t k = sliceOffset worldSize n
      { func := t.func, count := t.count, dtype := t.dtype } k := by
    intro t
    induction k with
    | zero => rfl
    | succ k ih => rw [sliceOffset, sliceOffset, ih, hsame t k]
  have hused : ∀ t : CollTask, nUsed worldSize n t = nUsed worldSize n
      { func := t.func, count := t.count, dtype := t.dtype } := fun _ => rfl
  have htree : ∀ t : CollTask, useTree t = useTree
      { func := t.func, count := t.count, dtype := t.dtype } := fun _ => rfl
  have hchunk : ∀ t : CollTask, ∀ m, sliceChunk worldSize t m = sliceChunk worldSize
      { func := t.func, count := t.count, dtype := t.dtype } m := fun _ _ => rfl
  refine ⟨?_, ?_, ?_, fun m => ?_, ?_⟩
  · rw [hused t, hused t', hfunc, hcount, hdtype]
  · rw [htree t, htree t', hfunc, hcount, hdtype]
  · rw [hsame t, hsame t', hfunc, hcount, hdtype]
  · rw [hchunk t, hchunk t', hfunc, hcount, hdtype]
  · rw [hoffset t, hoffset t', hfunc, hcount, hdtype]

end Signatures

/-! ## 4. Slices that agree -/

/-- `EffectiveOp` and `EffectiveRoot` of a planned task. -/
def plannedOp (task : PlanTask) : Int := if reduces task.func then opIndex task.reduceOp else 0

def plannedRoot (task : PlanTask) : Int := if hasRoot task.func then task.root else 0

/-- **Two tasks that are the same slice** of collectives which stand at the same place of two batches.
    The buffers are those of the collectives, from the same element on. -/
structure Agree (comm comm' : CommunicatorState) (batch batch' : List CollTask) (task task' : PlanTask) :
    Prop where
  func : task.func = task'.func
  elemCount : task.elemCount = task'.elemCount
  chunkSize : task.chunkSize = task'.chunkSize
  rankStride : task.rankStride = task'.rankStride
  dtype : task.dtype = task'.dtype
  op : plannedOp task = plannedOp task'
  root : plannedRoot task = plannedRoot task'
  ring : (∃ ring, task.topology = some (.ring ring)) ↔ ∃ ring, task'.topology = some (.ring ring)
  tree : (∃ tree, task.topology = some (.tree tree)) ↔ ∃ tree, task'.topology = some (.tree tree)
  offset : ∃ t t' k, (t, t') ∈ (collectives batch).zip (collectives batch') ∧
    SliceOf comm t k task ∧ SliceOf comm' t' k task' ∧
    sliceOffset comm.worldSize (max comm.getNChannels 1) t k =
      sliceOffset comm'.worldSize (max comm'.getNChannels 1) t' k

section Agree

variable {comm comm' : CommunicatorState} {batch batch' : List CollTask} {t t' : CollTask} {k : Nat}

/-- A slice is for the ring or for the tree. -/
theorem slice_choice (comm : CommunicatorState) (t : CollTask) (k : Nat) :
    ((∃ ring, (slice comm t k).topology = some (.ring ring)) ↔ useTree t = false) ∧
      ((∃ tree, (slice comm t k).topology = some (.tree tree)) ↔ useTree t = true) := by
  have htop : (slice comm t k).topology =
      some (if useTree t then .tree comm.treeTopology else .ring comm.ringTopology) := rfl
  rw [htop]
  have hno : ∀ ring, some (Topology.tree comm.treeTopology) ≠ some (.ring ring) := by
    intro ring h
    cases h
  have hno' : ∀ tree, some (Topology.ring comm.ringTopology) ≠ some (.tree tree) := by
    intro tree h
    cases h
  cases useTree t with
  | true =>
    rw [if_pos rfl]
    refine ⟨⟨fun h => ?_, (fun h => by cases h)⟩, ⟨fun _ => rfl, fun _ => ⟨_, rfl⟩⟩⟩
    obtain ⟨ring, h⟩ := h
    exact absurd h (hno ring)
  | false =>
    rw [if_neg Bool.false_ne_true]
    refine ⟨⟨fun _ => rfl, fun _ => ⟨_, rfl⟩⟩, ⟨fun h => ?_, (fun h => by cases h)⟩⟩
    obtain ⟨tree, h⟩ := h
    exact absurd h (hno' tree)

/-- **A slice on two channels**, bound or not. -/
theorem agree_slice (hworld : comm'.worldSize = comm.worldSize)
    (hchannels : comm'.getNChannels = comm.getNChannels) (hsig : signature t = signature t')
    (hmem : (t, t') ∈ (collectives batch).zip (collectives batch')) (k : Nat) :
    Agree comm comm' batch batch' (slice comm t k) (slice comm' t' k) := by
  obtain ⟨hfunc, hcount, hdtype, hop, hroot⟩ := Signature.mk.inj hsig
  obtain ⟨-, htree, helems, hchunk, hoffset⟩ := slices_congr comm.worldSize (max comm.getNChannels 1) hsig k
  have helems' : (slice comm t k).elemCount = (slice comm' t' k).elemCount := by
    show sliceElems comm.worldSize _ t k = sliceElems comm'.worldSize _ t' k
    rw [hworld, hchannels]
    exact helems
  obtain ⟨hr, ht⟩ := slice_choice comm t k
  obtain ⟨hr', ht'⟩ := slice_choice comm' t' k
  refine ⟨hfunc, helems', ?_, hcount, hdtype, hop, hroot, ?_, ?_, t, t', k, hmem,
    ⟨rfl, rfl, rfl, rfl, rfl, rfl, rfl, rfl, rfl, rfl⟩,
    ⟨rfl, rfl, rfl, rfl, rfl, rfl, rfl, rfl, rfl, rfl⟩, ?_⟩
  · show sliceChunk comm.worldSize t (slice comm t k).elemCount =
      sliceChunk comm'.worldSize t' (slice comm' t' k).elemCount
    rw [helems', hworld]
    exact hchunk _
  · rw [hr, hr', htree]
  · rw [ht, ht', htree]
  · rw [hworld, hchannels]
    exact hoffset

/-- Binding changes nothing of this. -/
theorem Agree.bindTo (h : Agree comm comm' batch batch' (slice comm t k) (slice comm' t' k)) (c : Nat) :
    Agree comm comm' batch batch' (bindTo comm c (slice comm t k)) (bindTo comm' c (slice comm' t' k)) := by
  obtain ⟨topology, htop, -, hkind⟩ := slice_topology comm t k
  obtain ⟨sends, recvs, e⟩ := bindTask_eq hkind (comm.channels.getD c {})
  obtain ⟨topology', htop', -, hkind'⟩ := slice_topology comm' t' k
  obtain ⟨sends', recvs', e'⟩ := bindTask_eq hkind' (comm'.channels.getD c {})
  obtain ⟨u, u', m, hmem, hslice, hslice', hoffset⟩ := h.offset
  rw [Planner.bindTo, Planner.bindTo, e _ _ htop, e' _ _ htop']
  exact ⟨h.func, h.elemCount, h.chunkSize, h.rankStride, h.dtype, h.op, h.root, h.ring, h.tree, u, u', m,
    hmem, ⟨hslice.func, hslice.sendBuf, hslice.recvBuf, hslice.elemCount, hslice.chunkSize,
      hslice.rankStride, hslice.dtype, hslice.root, hslice.rank, hslice.worldSize⟩,
    ⟨hslice'.func, hslice'.sendBuf, hslice'.recvBuf, hslice'.elemCount, hslice'.chunkSize,
      hslice'.rankStride, hslice'.dtype, hslice'.root, hslice'.rank, hslice'.worldSize⟩, hoffset⟩

/-- The slices of two collectives with the same signature. -/
theorem agree_slices (hworld : comm'.worldSize = comm.worldSize)
    (hchannels : comm'.getNChannels = comm.getNChannels) (hsig : signature t = signature t')
    (hmem : (t, t') ∈ (collectives batch).zip (collectives batch')) :
    List.Forall₂ (fun x y => x.2 = y.2 ∧ Agree comm comm' batch batch' x.1 y.1 ∧
      Agree comm comm' batch batch' (Planner.bindTo comm x.2 x.1) (Planner.bindTo comm' y.2 y.1))
      (slices comm t).zipIdx (slices comm' t').zipIdx := by
  have hzip : ∀ (comm : CommunicatorState) (t : CollTask), (slices comm t).zipIdx =
      (List.range (nUsed comm.worldSize (max comm.getNChannels 1) t)).map fun k => (slice comm t k, k) := by
    intro comm t
    refine List.ext_getElem (by simp [slices]) fun i hi hi' => ?_
    simp [slices]
  have hused := (slices_congr comm.worldSize (max comm.getNChannels 1) hsig 0).1
  rw [hzip, hzip, hworld, hchannels, ← hused, List.forall₂_map_left_iff, List.forall₂_map_right_iff,
    List.forall₂_same]
  intro k _
  have h := agree_slice hworld hchannels hsig hmem k
  exact ⟨rfl, h, h.bindTo k⟩

end Agree

/-! ## 5. The collectives of a plan -/

/-- The collective tasks of channel `c`, in order. -/
def collectiveQueue (p : CollPlan) (c : Nat) : List PlanTask :=
  ((p.channels[c]?.map ChannelPlan.tasks).getD []).filter fun task => !isP2p task.func

section Queues

variable {comm comm' : CommunicatorState} {p p' : CollPlan} {tasks batch : List CollTask}

/-- A task at the end of a channel. -/
theorem collectiveQueue_push (id c : Nat) {task : PlanTask} (h : isP2p task.func = true) :
    collectiveQueue (p.push id task) c = collectiveQueue p c := by
  rw [collectiveQueue, push_getElem?, collectiveQueue]
  cases p.channels[c]? with
  | none => rfl
  | some queue =>
    show ((queue.tasks ++ if id = c then [task] else []).filter _) = queue.tasks.filter _
    rw [List.filter_append]
    split
    · rw [List.filter_cons_of_neg (by rw [h]; exact Bool.false_ne_true), List.filter_nil, List.append_nil]
    · rw [List.filter_nil, List.append_nil]

theorem collectiveQueue_appendP2p {id : Nat} {t : CollTask} (ht : isP2p t.func = true)
    (h : appendP2p comm id p t = .ok p') (c : Nat) : collectiveQueue p' c = collectiveQueue p c := by
  unfold appendP2p at h
  cases hch : comm.getChannel id with
  | error e =>
    rw [hch] at h
    cases h
  | ok channel =>
    rw [hch] at h
    obtain rfl := Except.ok.inj h
    refine collectiveQueue_push id c ?_
    unfold TopologyP2p.fillTransports
    split
    · exact ht
    · split <;> exact ht

theorem collectiveQueue_appends {id : Nat} {ts : List CollTask} (hts : ∀ t ∈ ts, isP2p t.func = true)
    (h : ts.foldlM (appendP2p comm id) p = .ok p') (c : Nat) :
    collectiveQueue p' c = collectiveQueue p c := by
  induction ts generalizing p with
  | nil =>
    obtain rfl := Except.ok.inj h
    rfl
  | cons t ts ih =>
    rw [List.foldlM_cons] at h
    cases ht : appendP2p comm id p t with
    | error e =>
      rw [ht] at h
      cases h
    | ok next =>
      rw [ht] at h
      rw [ih (fun x hx => hts x (List.mem_cons_of_mem _ hx)) h,
        collectiveQueue_appendP2p (hts t List.mem_cons_self) ht]

/-- The tasks of a round are P2P tasks. -/
theorem roundTasks_p2p {func : CollFunc} {round : Int} (hfunc : isP2p func = true) :
    ∀ t ∈ roundTasks comm tasks func round, isP2p t.func = true := by
  intro t ht
  have h := (List.mem_filter.mp ht).2
  rw [Bool.and_eq_true] at h
  rw [eq_of_beq h.1]
  exact hfunc

theorem collectiveQueue_planP2pRound {round : Int} {outcome : RoundOutcome}
    (h : planP2pRound comm tasks round p outcome = (comm', .ok p')) (c : Nat) :
    collectiveQueue p' c = collectiveQueue p c := by
  unfold planP2pRound at h
  dsimp only at h
  split at h
  · obtain ⟨-, h⟩ := Prod.mk.inj h
    obtain rfl := Except.ok.inj h
    rfl
  · split at h
    · rename_i comm1 _ _
      obtain ⟨-, h⟩ := Prod.mk.inj h
      cases hs : (roundTasks comm tasks .send round).foldlM (appendP2p comm1 kP2pSendChannel) p with
      | error e =>
        rw [hs] at h
        cases h
      | ok next =>
        rw [hs] at h
        rw [collectiveQueue_appends (roundTasks_p2p rfl) h, collectiveQueue_appends (roundTasks_p2p rfl) hs]
    · cases (Prod.mk.inj h).2

/-- **The P2P rounds leave the collectives of every channel as they are.** -/
theorem collectiveQueue_planRounds {net : Int → RoundOutcome} {rounds : List Int}
    (h : planRounds tasks net rounds comm p = (comm', .ok p')) (c : Nat) :
    collectiveQueue p' c = collectiveQueue p c := by
  induction rounds generalizing comm p with
  | nil =>
    obtain ⟨-, h⟩ := Prod.mk.inj h
    obtain rfl := Except.ok.inj h
    rfl
  | cons round rounds ih =>
    rw [planRounds] at h
    split at h
    · rename_i e
      rw [ih h, collectiveQueue_planP2pRound e]
    · cases (Prod.mk.inj h).2

/-- **The collectives on a channel of a static plan**: the slices assigned to it. -/
theorem collectiveQueue_static {net : Int → RoundOutcome} (hn : 1 ≤ comm.getNChannels)
    (hplan : (plan comm batch false net).2 = .ok p) (c : Nat) : collectiveQueue p c =
      if c < comm.getNChannels then
        ((assigned comm (collectives batch)).filter fun x => x.2 = c).map fun x => bindTo comm c x.1
      else [] := by
  unfold plan at hplan
  split at hplan
  · dsimp only at hplan
    rw [if_neg Bool.false_ne_true, planCollectives hn] at hplan
    rw [collectiveQueue_planRounds (Prod.ext rfl hplan), collectiveQueue, pushAll_getElem?,
      ofChannels_getElem?]
    split
    · show (([] ++ _ : List PlanTask).filter _) = _
      rw [List.nil_append]
      refine List.filter_eq_self.mpr fun task htask => ?_
      obtain ⟨x, hx, rfl⟩ := List.mem_map.mp htask
      obtain ⟨t, ht, hslice, -⟩ := mem_assigned (List.mem_filter.mp hx).1
      rw [hslice, (sliceOf_bindTo comm t x.2 c).func]
      exact (List.mem_filter.mp ht).2
    · rfl
  · cases hplan

/-- **The collectives of a dynamic plan.** -/
theorem collectives_dynamic {net : Int → RoundOutcome} (hn : 1 ≤ comm.getNChannels)
    (hparts : batch = collectives batch ++ batch.filter fun task => isP2p task.func)
    (hplan : (plan comm batch true net).2 = .ok p) :
    (p.slices.filter fun task => !isP2p task.func) = (collectives batch).flatMap (slices comm) := by
  have hall : batch.all (plannable comm) = true := by
    by_contra hno
    rw [plan, if_neg hno] at hplan
    cases hplan
  rw [plan_dynamic hn hall] at hplan
  obtain rfl := Except.ok.inj hplan
  show ((batch.flatMap (slices comm)).filter _) = _
  have hfunc : ∀ t, ∀ task ∈ slices comm t, task.func = t.func := by
    intro t task htask
    obtain ⟨k, -, rfl⟩ := mem_slices htask
    rfl
  rw [hparts, List.flatMap_append, List.filter_append, ← hparts]
  have hcoll : (((collectives batch).flatMap (slices comm)).filter fun task => !isP2p task.func) =
      (collectives batch).flatMap (slices comm) := by
    refine List.filter_eq_self.mpr fun task htask => ?_
    obtain ⟨t, ht, hmem⟩ := List.mem_flatMap.mp htask
    rw [hfunc t task hmem]
    exact (List.mem_filter.mp ht).2
  have hp2p : (((batch.filter fun task => isP2p task.func).flatMap (slices comm)).filter
      fun task => !isP2p task.func) = [] := by
    refine List.filter_eq_nil_iff.mpr fun task htask => ?_
    obtain ⟨t, ht, hmem⟩ := List.mem_flatMap.mp htask
    rw [hfunc t task hmem, (List.mem_filter.mp ht).2]
    exact Bool.false_ne_true
  rw [hcoll, hp2p, List.append_nil]

end Queues

/-! ## 6. Two ranks -/

section Ranks

variable {comm comm' : CommunicatorState} {tasks tasks' batch batch' : List CollTask}

/-- The collectives at the same place of two batches. -/
theorem forall₂_collectives {cs cs' : List CollTask} (h : cs.map signature = cs'.map signature) :
    List.Forall₂ (fun t t' => signature t = signature t' ∧ (t, t') ∈ cs.zip cs') cs cs' := by
  have hsig : List.Forall₂ (fun t t' => signature t = signature t') cs cs' := by
    rw [← List.forall₂_map_left_iff (R := fun s t' => s = signature t'),
      ← List.forall₂_map_right_iff (R := fun s s' => s = s'), h]
    exact List.forall₂_refl _
  obtain ⟨hlen, hzip⟩ := List.forall₂_iff_zip.mp hsig
  exact List.forall₂_iff_zip.mpr ⟨hlen, fun hmem => ⟨hzip hmem, hmem⟩⟩

/-- **The plans of two ranks whose batches have the same signatures in order.** -/
theorem plans_match (hworld : comm'.worldSize = comm.worldSize)
    (hchannels : comm'.getNChannels = comm.getNChannels) (hn : 1 ≤ comm.getNChannels)
    (hparts : batch = collectives batch ++ batch.filter fun task => isP2p task.func)
    (hparts' : batch' = collectives batch' ++ batch'.filter fun task => isP2p task.func)
    (hsig : (collectives batch).map signature = (collectives batch').map signature)
    (net net' : Int → RoundOutcome) (p p' : CollPlan) :
    ((plan comm batch false net).2 = .ok p → (plan comm' batch' false net').2 = .ok p' → ∀ c,
      List.Forall₂ (Agree comm comm' batch batch') (collectiveQueue p c) (collectiveQueue p' c)) ∧
    ((plan comm batch true net).2 = .ok p → (plan comm' batch' true net').2 = .ok p' →
      List.Forall₂ (Agree comm comm' batch batch') (p.slices.filter fun task => !isP2p task.func)
        (p'.slices.filter fun task => !isP2p task.func)) := by
  have hcs := forall₂_collectives hsig
  have hassigned : List.Forall₂ (fun x y => x.2 = y.2 ∧ Agree comm comm' batch batch' x.1 y.1 ∧
      Agree comm comm' batch batch' (bindTo comm x.2 x.1) (bindTo comm' y.2 y.1))
      (assigned comm (collectives batch)) (assigned comm' (collectives batch')) :=
    List.rel_flatMap hcs fun _ _ h => agree_slices hworld hchannels h.1 h.2
  refine ⟨fun h h' c => ?_, fun h h' => ?_⟩
  · rw [collectiveQueue_static hn h, collectiveQueue_static (hchannels ▸ hn) h', hchannels]
    split
    · have hchannel : ∀ (comm : CommunicatorState) (xs : List (PlanTask × Nat)),
          ((xs.filter fun x => x.2 = c).map fun x => bindTo comm c x.1) =
            (xs.filter fun x => x.2 = c).map fun x => bindTo comm x.2 x.1 := by
        intro comm xs
        refine List.map_congr_left fun x hx => ?_
        rw [of_decide_eq_true (List.mem_filter.mp hx).2]
      rw [hchannel, hchannel]
      refine List.rel_map (fun _ _ hxy => hxy.2.2) (List.rel_filter (fun x y hxy => ?_) hassigned)
      show decide (x.2 = c) = true ↔ decide (y.2 = c) = true
      rw [hxy.1]
    · exact List.Forall₂.nil
  · have hfst : ∀ (comm : CommunicatorState) (ts : List CollTask),
        ts.flatMap (slices comm) = (assigned comm ts).map Prod.fst := by
      intro comm ts
      rw [assigned, List.map_flatMap]
      exact congrArg (ts.flatMap ·) (funext fun t => (List.zipIdx_map_fst 0 (slices comm t)).symm)
    rw [collectives_dynamic hn hparts h, collectives_dynamic (hchannels ▸ hn) hparts' h', hfst, hfst]
    exact List.rel_map (fun _ _ hxy => hxy.2.1) hassigned

/-- Without a Send or a Recv there is no connection to make, and the plans are made. -/
theorem plans_made (hn : 1 ≤ comm.getNChannels) (hcoll : isCollectiveBatch tasks = true)
    (hvalid : ∀ t ∈ tasks, sortable comm.rank comm.worldSize t = true) (hperm : batch.Perm tasks)
    (net : Int → RoundOutcome) (dynamic : Bool) : ∃ p, (plan comm batch dynamic net).2 = .ok p := by
  have hbatch : isCollectiveBatch batch = true := (isCollectiveBatch_perm hperm).trans hcoll
  have hplan : batch.all (plannable comm) = true := by
    refine List.all_eq_true.mpr fun t ht => ?_
    have hno := List.all_eq_true.mp hbatch t ht
    rw [Bool.not_eq_true'] at hno
    rw [plannable, hno]
    exact valid_of_sortable hcoll hvalid t (hperm.mem_iff.mp ht)
  cases dynamic with
  | true => exact ⟨_, congrArg Prod.snd (plan_dynamic hn hplan net)⟩
  | false => exact ⟨_, congrArg Prod.snd (plan_static hn hbatch hplan net)⟩

/-- **All ranks build matching plans from the same collectives**, in whatever order they are queued and
    with whatever P2P tasks beside them. Without a P2P task the plans are made; with one, if the connections
    of its rounds are. -/
theorem matching_plans (hworld : comm'.worldSize = comm.worldSize)
    (hchannels : comm'.getNChannels = comm.getNChannels) (hn : 1 ≤ comm.getNChannels)
    (hr : 0 ≤ comm.rank ∧ comm.rank < comm.worldSize) (hr' : 0 ≤ comm'.rank ∧ comm'.rank < comm'.worldSize)
    (hvalid : ∀ t ∈ tasks, sortable comm.rank comm.worldSize t = true)
    (hvalid' : ∀ t ∈ tasks', sortable comm'.rank comm'.worldSize t = true)
    (hsame : ((collectives tasks).map signature).Perm ((collectives tasks').map signature)) :
    (∃ batch batch', sortInPlace tasks comm.rank comm.worldSize = (true, batch) ∧
      sortInPlace tasks' comm'.rank comm'.worldSize = (true, batch') ∧
      Arranged comm.rank comm.worldSize tasks batch ∧ Arranged comm'.rank comm'.worldSize tasks' batch' ∧
      (∀ net dynamic,
        (isCollectiveBatch tasks = true → ∃ p, (plan comm batch dynamic net).2 = .ok p) ∧
        (isCollectiveBatch tasks' = true → ∃ p, (plan comm' batch' dynamic net).2 = .ok p)) ∧
      ∀ (net net' : Int → RoundOutcome) (p p' : CollPlan),
        ((plan comm batch false net).2 = .ok p → (plan comm' batch' false net').2 = .ok p' → ∀ c,
          List.Forall₂ (Agree comm comm' batch batch') (collectiveQueue p c) (collectiveQueue p' c)) ∧
        ((plan comm batch true net).2 = .ok p → (plan comm' batch' true net').2 = .ok p' →
          List.Forall₂ (Agree comm comm' batch batch') (p.slices.filter fun task => !isP2p task.func)
            (p'.slices.filter fun task => !isP2p task.func))) ∧
    ∀ (tasks : List CollTask) (rank worldSize : Int), (sortInPlace tasks rank worldSize).1 = false →
      (sortInPlace tasks rank worldSize).2 = tasks := by
  refine ⟨?_, fun tasks rank worldSize h => ?_⟩
  · obtain ⟨batch, hsort⟩ := sortTasks_some hr (List.all_eq_true.mpr hvalid)
    obtain ⟨batch', hsort'⟩ := sortTasks_some hr' (List.all_eq_true.mpr hvalid')
    have hbatch := arranged_sortTasks hsort
    have hbatch' := arranged_sortTasks hsort'
    have hcoll : ∀ (comm : CommunicatorState) (tasks batch : List CollTask),
        (∀ t ∈ tasks, sortable comm.rank comm.worldSize t = true) → batch.Perm tasks →
        ∀ t ∈ collectives batch, Valid t comm.rank comm.worldSize := by
      intro comm tasks batch hvalid hperm t ht
      have hsortable := hvalid t (hperm.mem_iff.mp (List.mem_filter.mp ht).1)
      have hno : isP2p t.func = false := by simpa using (List.mem_filter.mp ht).2
      rw [sortable, hno, if_neg Bool.false_ne_true] at hsortable
      exact valid_of_validate hsortable
    have hkeys : (collectives batch).map sortKey = (collectives batch').map sortKey := by
      refine hbatch.collectives.keys_eq hbatch'.collectives ?_
      have h := hsame.map Signature.key
      rw [List.map_map, List.map_map] at h
      exact h
    have hsig := signatures_of_keys (hcoll comm tasks batch hvalid hbatch.perm)
      (fun t ht => hworld ▸ hcoll comm' tasks' batch' hvalid' hbatch'.perm t ht) hkeys
    refine ⟨batch, batch', ?_, ?_, hbatch, hbatch', fun net dynamic =>
      ⟨fun hcoll => plans_made hn hcoll hvalid hbatch.perm net dynamic,
        fun hcoll => plans_made (hchannels ▸ hn) hcoll hvalid' hbatch'.perm net dynamic⟩,
      plans_match hworld hchannels hn hbatch.parts hbatch'.parts hsig⟩
    · rw [sortInPlace_eq, hsort]
    · rw [sortInPlace_eq, hsort']
  · rw [sortInPlace_eq] at h ⊢
    cases hsort : sortTasks tasks rank worldSize with
    | some batch =>
      rw [hsort] at h
      cases h
    | none => rfl

/-- A Broadcast of 64 KiB from rank 1. -/
def largeBroadcast : CollTask := { func := .broadcast, sendBuf := 8, recvBuf := 8, count := 16384, root := 1 }

/-- The tasks of rank 0 or 1 with the Broadcast, in the order of the planner. -/
def sortedTasks (r : Nat) : List CollTask :=
  [smallReduce, smallReduce, smallReduce, largeBroadcast] ++ (mixedTasks r).drop 3

/-- Rank 0 connects to rank 1, which accepts. -/
def messageNet (_ : Int) : RoundOutcome := ⟨[1], [0], true⟩

theorem sorted_tasks : sortInPlace (largeBroadcast :: mixedTasks 0) 0 3 = (true, sortedTasks 0) ∧
    sortInPlace (mixedTasks 1 ++ [largeBroadcast]) 1 3 = (true, sortedTasks 1) := by
  have h1 : collectiveLess smallReduce largeBroadcast = true := by decide
  have h2 : collectiveLess smallReduce smallReduce = false := by decide
  have hsort0 : stableSort collectiveLess [largeBroadcast, smallReduce, smallReduce, smallReduce] =
      [smallReduce, smallReduce, smallReduce, largeBroadcast] := by
    simp [stableSort, List.mergeSort, List.MergeSort.Internal.splitInTwo, h1, h2]
  have hsort1 : stableSort collectiveLess [smallReduce, smallReduce, smallReduce, largeBroadcast] =
      [smallReduce, smallReduce, smallReduce, largeBroadcast] :=
    List.mergeSort_of_pairwise (by decide)
  have hsingle : ∀ r (t : CollTask), stableSort (p2pLess r 3) [t] = [t] := fun _ _ =>
    List.mergeSort_singleton _
  constructor
  · rw [sortInPlace_eq, sortTasks, if_neg (by decide), if_pos (by decide)]
    exact congrArg₂ (fun xs ys : List CollTask => (true, xs ++ ys)) hsort0 (hsingle 0 _)
  · rw [sortInPlace_eq, sortTasks, if_neg (by decide), if_pos (by decide)]
    exact congrArg₂ (fun xs ys : List CollTask => (true, xs ++ ys)) hsort1 (hsingle 1 _)

/-- The plan of a rank for `sortedTasks` is made, with four slices on channel 0. -/
theorem sorted_planned : ∀ r < 2, ∃ p, (plan (threeRanks r) (sortedTasks r) false messageNet).2 = .ok p ∧
    (collectiveQueue p 0).length = 4 := by
  have hlen : ∀ r < 2, (plan (threeRanks r) (sortedTasks r) false messageNet).2.toOption.map
      (fun p => (collectiveQueue p 0).length) = some 4 := by decide +kernel
  intro r hr
  have h := hlen r hr
  cases hp : (plan (threeRanks r) (sortedTasks r) false messageNet).2 with
  | error e =>
    rw [hp] at h
    cases h
  | ok p =>
    rw [hp] at h
    exact ⟨p, rfl, Option.some.inj h⟩

/-- Both plans are made, with four slices on channel 0, the same on both ranks. -/
theorem matching_plans_reordered : ∃ p p',
    (plan (threeRanks 0) (sortedTasks 0) false messageNet).2 = .ok p ∧
    (plan (threeRanks 1) (sortedTasks 1) false messageNet).2 = .ok p' ∧
    (collectiveQueue p 0).length = 4 ∧
    ∀ c, List.Forall₂ (Agree (threeRanks 0) (threeRanks 1) (sortedTasks 0) (sortedTasks 1))
      (collectiveQueue p c) (collectiveQueue p' c) := by
  obtain ⟨⟨batch, batch', hsort, hsort', -, -, -, hagree⟩, -⟩ := @matching_plans (threeRanks 0) (threeRanks 1)
    (largeBroadcast :: mixedTasks 0) (mixedTasks 1 ++ [largeBroadcast]) (by decide) (by decide) (by decide)
    (by decide) (by decide) (by decide) (by decide) (by decide)
  obtain ⟨h0, h1⟩ := sorted_tasks
  obtain rfl : sortedTasks 0 = batch := (Prod.mk.inj (h0.symm.trans hsort)).2
  obtain rfl : sortedTasks 1 = batch' := (Prod.mk.inj (h1.symm.trans hsort')).2
  obtain ⟨p, hp, hlen⟩ := sorted_planned 0 (by decide)
  obtain ⟨p', hp', -⟩ := sorted_planned 1 (by decide)
  exact ⟨p, p', hp, hp', hlen, (hagree messageNet messageNet p p').1 hp hp'⟩

end Ranks

end OriginCCL.Planner
