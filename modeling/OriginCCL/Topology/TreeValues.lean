/-
  File:      OriginCCL/Topology/TreeValues.lean
  Subject:   WHAT THE BYTES OF A TREE ALLREDUCE ARE.

  On the way up a chunk holds the sum over the rank itself and the subtrees of the children that have
  sent it; on the way down the chunks that have arrived hold the result.

  * `Hangs` -- a seat is a vertex of a forest of ranks, `Rooted` -- the forest is one tree.
  * `linkOk` -- the byte at each place of a connection: the sum of a subtree on the way up, the result
    on the way down.
  * `treeBytes_claimed` -- **every transfer keeps this**, whatever the order the children's chunks
    come in, and at the end the receive buffer holds the result.
-/
import OriginCCL.Base.Forest
import OriginCCL.Topology.RingAllreduceValues
import OriginCCL.Topology.TreeRounds

namespace OriginCCL.TopologyTree

open Net Base
open TopologyRing (sumFirst averaged allreduceResult)

/-! ## 1. Seats in a tree of ranks -/

/-- The seat of rank `r` is its place in the forest: `nbr i` is the rank at connection `i`. -/
structure Hangs (T : Seat) (F : Forest Nat) (N r : Nat) (nbr : Nat → Nat) : Prop where
  rank_lt : r < N
  nbr_lt : ∀ i < T.edges, nbr i < N
  inj : ∀ i < T.edges, ∀ j < T.edges, nbr i = nbr j → i = j
  out_link : ∀ i < T.edges, (T.out i).src = r ∧ (T.out i).dst = nbr i
  inn_link : ∀ i < T.edges, (T.inn i).src = nbr i ∧ (T.inn i).dst = r
  kid : ∀ i < T.kids, F.parent (nbr i) = some r
  all_kids : ∀ q < N, F.parent q = some r → ∃ i < T.kids, nbr i = q
  parent : T.kids < T.edges → F.parent r = some (nbr T.kids)
  root : T.edges ≤ T.kids → F.parent r = none

/-- The ranks below `N` are one tree. -/
structure Rooted (F : Forest Nat) (N root : Nat) : Prop where
  closed : ∀ q < N, ∀ p, F.parent q = some p → p < N
  only : ∀ q < N, F.parent q = none → q = root

section Values

variable {dt : DataType} (op : ReduceOp) (e : Elem dt) (F : Forest Nat) (N : Nat)
  (X : Nat → Nat → Elem dt) [Std.Commutative (reduceElem dt (sumFirst op))]
  [Std.Associative (reduceElem dt (sumFirst op))]

/-- The sum of the inputs in the subtree of `q`, element `i`. -/
noncomputable def subtotal (q i : Nat) : Elem dt :=
  (F.subtree (Finset.range N) q).fold (reduceElem dt (sumFirst op)) e fun p => X p i

/-- The sum of the inputs of `r` and of the subtrees of the children in `done`. -/
noncomputable def partialSum (r : Nat) (done : Finset Nat) (i : Nat) : Elem dt :=
  (F.gathered (Finset.range N) r done).fold (reduceElem dt (sumFirst op)) e fun p => X p i

/-- What the byte at a place of a connection is. -/
noncomputable def linkOk (l : Link) (pos : Nat) (b : UInt8) : Prop :=
  b = if F.parent l.src = some l.dst then elemByte dt (subtotal op e F N X l.src) pos
    else elemByte dt (allreduceResult op N X) pos

variable {op e F N X}

theorem partialSum_empty (he : ∀ x, reduceElem dt (sumFirst op) e x = x) (r i : Nat) :
    partialSum op e F N X r ∅ i = X r i := by
  have hcomm : ∀ a b, reduceElem dt (sumFirst op) a b = reduceElem dt (sumFirst op) b a :=
    Std.Commutative.comm
  rw [partialSum, Forest.gathered_empty, Finset.fold_singleton, hcomm, he]

/-- **A child's chunk brings the sum of its subtree.** -/
theorem partialSum_insert (he : ∀ x, reduceElem dt (sumFirst op) e x = x) {r c : Nat}
    {done : Finset Nat} (hdone : ∀ d ∈ done, F.parent d = some r) (hc : F.parent c = some r)
    (hnew : c ∉ done) (i : Nat) : partialSum op e F N X r (insert c done) i =
      reduceElem dt (sumFirst op) (partialSum op e F N X r done i) (subtotal op e F N X c i) :=
  Forest.fold_gathered_insert he hdone hc hnew _

/-- With all children the sum is that of the subtree. -/
theorem partialSum_all {root r : Nat} (hF : Rooted F N root) (hr : r < N) {kids : Finset Nat}
    (hk : ∀ c, c ∈ kids ↔ c < N ∧ F.parent c = some r) (i : Nat) :
    partialSum op e F N X r kids i = subtotal op e F N X r i := by
  have hclosed : ∀ q ∈ Finset.range N, ∀ p, F.parent q = some p → p ∈ Finset.range N := by
    intro q hq p hp
    rw [Finset.mem_range] at hq ⊢
    exact hF.closed q hq p hp
  have hkids : ∀ c, c ∈ kids ↔ c ∈ Finset.range N ∧ F.parent c = some r := by
    intro c
    rw [hk, Finset.mem_range]
  rw [partialSum, subtotal, Forest.subtree_eq hclosed (Finset.mem_range.mpr hr) hkids]

/-- **The sum of the root's subtree is the sum over all ranks.** -/
theorem averaged_root (he : ∀ x, reduceElem dt (sumFirst op) e x = x) {root : Nat}
    (hF : Rooted F N root) (hr : root < N) (i : Nat) :
    averaged op N (subtotal op e F N X root i) = allreduceResult op N X i := by
  have hroot : F.subtree (Finset.range N) root = Finset.range N := by
    refine Forest.subtree_root (fun q hq p hp => ?_) fun q hq hp => ?_
    · rw [Finset.mem_range] at hq ⊢
      exact hF.closed q hq p hp
    · exact hF.only q (Finset.mem_range.mp hq) hp
  rw [allreduceResult, reduceRange_eq_fold he (by omega), subtotal, hroot]

end Values

/-! ## 2. Chunks of a buffer -/

section Chunks

variable {task : PlanTask}

theorem chunkBytes_le (task : PlanTask) (c : Nat) :
    chunkBytes task c ≤ task.chunkSize * typeSize task := by
  apply Nat.mul_le_mul_right
  simp only [chunkElems]
  split <;> omega

theorem chunkOffset_lt {c c' : Nat} (h : c < c') :
    chunkOffset task c + task.chunkSize * typeSize task ≤ chunkOffset task c' := by
  have hmul : (c + 1) * task.chunkSize * typeSize task ≤ c' * task.chunkSize * typeSize task :=
    Nat.mul_le_mul_right _ (Nat.mul_le_mul_right _ h)
  rw [Nat.succ_mul, Nat.add_mul] at hmul
  exact hmul

/-- Different chunks of a buffer do not overlap. -/
theorem chunk_apart (a : Nat) {c c' : Nat} (h : c ≠ c') :
    Apart ((user a).shift (chunkOffset task c)) (chunkBytes task c)
      ((user a).shift (chunkOffset task c')) (chunkBytes task c') := by
  have h1 := chunkBytes_le task c
  have h2 := chunkBytes_le task c'
  rcases Nat.lt_or_gt_of_ne h with hlt | hgt
  · have h : chunkOffset task c + task.chunkSize * typeSize task ≤ chunkOffset task c' :=
      chunkOffset_lt hlt
    right; left
    simp only [Loc.shift_addr]
    omega
  · have h : chunkOffset task c' + task.chunkSize * typeSize task ≤ chunkOffset task c :=
      chunkOffset_lt hgt
    right; right
    simp only [Loc.shift_addr]
    omega

/-- Places of the parts of different connections do not overlap. -/
theorem temp_apart {i i' : Nat} (h : i ≠ i') :
    Apart (temp (i * task.chunkSize * typeSize task)) (task.chunkSize * typeSize task)
      (temp (i' * task.chunkSize * typeSize task)) (task.chunkSize * typeSize task) := by
  have key : ∀ a b : Nat, a < b → a * task.chunkSize * typeSize task +
      task.chunkSize * typeSize task ≤ b * task.chunkSize * typeSize task :=
    fun _ _ hlt => chunkOffset_lt hlt
  rcases Nat.lt_or_gt_of_ne h with hlt | hgt
  · exact Or.inr (Or.inl (key _ _ hlt))
  · exact Or.inr (Or.inr (key _ _ hgt))

/-- A buffer holds a sequence if its chunks do. -/
theorem holds_chunks (hc : 1 ≤ task.chunkSize) {m : Loc → UInt8} {a : Nat}
    {f : Nat → Elem task.dtype} (h : ∀ c < chunkCount task,
      Holds m task.dtype ((user a).shift (chunkOffset task c)) (chunkElems task c)
        fun i => f (c * task.chunkSize + i)) :
    Holds m task.dtype (user a) task.elemCount f := by
  intro j hj
  have hts : typeSize task = getDataTypeSize task.dtype := rfl
  obtain ⟨c, -, hlt, h1, h2⟩ := exists_slot (chunkBytes task) (k := 0) (n := chunkCount task)
    (p := j) (Nat.zero_le j) (by rw [off_chunkCount hc]; exact hj)
  rw [off_chunk hc hlt] at h1 h2
  have hb := h c hlt (j - chunkOffset task c) (by
    change j - chunkOffset task c < chunkBytes task c
    omega)
  rw [Loc.shift_shift, Nat.add_sub_cancel' h1, elemByte_shift] at hb
  rw [hb]
  congr 1
  have e : c * task.chunkSize * getDataTypeSize task.dtype = chunkOffset task c := rfl
  omega

/-- And its chunks do if the buffer does. -/
theorem chunk_holds (hc : 1 ≤ task.chunkSize) {m : Loc → UInt8} {a : Nat}
    {f : Nat → Elem task.dtype} (h : Holds m task.dtype (user a) task.elemCount f) {c : Nat}
    (hlt : c < chunkCount task) :
    Holds m task.dtype ((user a).shift (chunkOffset task c)) (chunkElems task c)
      fun i => f (c * task.chunkSize + i) := by
  intro j hj
  have hj : j < chunkBytes task c := hj
  have hoff := off_succ_le (chunkBytes task) hlt
  rw [off_chunk hc hlt, off_chunkCount hc] at hoff
  rw [Loc.shift_shift, elemByte_shift]
  refine h _ ?_
  change chunkOffset task c + j < task.elemCount * typeSize task
  omega

end Chunks

/-! ## 3. The claim about the bytes -/

section Bytes

variable {dt : DataType} (op : ReduceOp) (e : Elem dt) (F : Forest Nat) (N : Nat)
  (X : Nat → Nat → Elem dt) [Std.Commutative (reduceElem dt (sumFirst op))]
  [Std.Associative (reduceElem dt (sumFirst op))] (task : PlanTask) (T : Seat) (r : Nat)
  (nbr : Nat → Nat)

/-- Where a rank sums up, and sends from on the way up. -/
def summed : Loc := if T.isLeader then user task.recvBuf else user task.sendBuf

/-- The children that have sent chunk `c`. -/
def arrived (rc : Nat → Nat) (c : Nat) : Finset Nat :=
  ((Finset.range T.kids).filter fun i => c < rc i).image nbr

/-- The bytes on the way up: every chunk holds the sum over the children that have sent it, and the
    parts of incomplete chunks are in `temp_buffer`. -/
structure UpBytes (rc rp : Nat → Nat) (m : Loc → UInt8) : Prop where
  sums : ∀ c < chunkCount task,
    Holds m dt ((summed task T).shift (chunkOffset task c)) (chunkElems task c)
      fun i => partialSum op e F N X r (arrived T nbr rc c) (c * task.chunkSize + i)
  part_le : ∀ i < T.kids, rc i < chunkCount task → rp i ≤ chunkBytes task (rc i)
  parts : ∀ i < T.kids, rc i < chunkCount task → ∀ x < rp i,
    m ((temp (i * task.chunkSize * typeSize task)).shift x) =
      elemByte dt (subtotal op e F N X (nbr i)) (chunkOffset task (rc i) + x)

/-- The bytes on the way down: every chunk that has arrived holds the result. -/
structure DownBytes (rc rp : Nat → Nat) (m : Loc → UInt8) : Prop where
  chunks : ∀ c < chunkCount task, (T.kids < T.edges → c < rc T.kids) →
    Holds m dt ((user task.recvBuf).shift (chunkOffset task c)) (chunkElems task c)
      fun i => allreduceResult op N X (c * task.chunkSize + i)
  part : T.kids < T.edges → rc T.kids < chunkCount task → ∀ x < rp T.kids,
    m ((user task.recvBuf).shift (chunkOffset task (rc T.kids) + x)) =
      elemByte dt (allreduceResult op N X) (chunkOffset task (rc T.kids) + x)

/-- **The claim about the bytes.** -/
def treeBytes : Claim
  | .up, rc, rp, m => UpBytes op e F N X task T r nbr rc rp m
  | .down, rc, rp, m => DownBytes op N X task T rc rp m

end Bytes

section Claims

variable {task : PlanTask} {op : ReduceOp} {e : Elem task.dtype} {F : Forest Nat} {N r root : Nat}
  {X : Nat → Nat → Elem task.dtype} [Std.Commutative (reduceElem task.dtype (sumFirst op))]
  [Std.Associative (reduceElem task.dtype (sumFirst op))] {T : Seat} {nbr : Nat → Nat}
  {rc rp : Nat → Nat}

/-- A seat with children is a leader's. -/
theorem leader_of_kid (W : OnTree task T) {i : Nat} (hi : i < T.kids) : T.isLeader = true := by
  by_contra hl
  have := (W.leaf (Bool.eq_false_iff.mpr hl)).1
  omega

theorem target_up (W : OnTree task T) {i : Nat} (hi : i < T.kids) (c : Nat) :
    target task T i c = temp (i * task.chunkSize * typeSize task) := by
  have hi' : i < T.edges := by have := W.kids_le; omega
  have hred := W.reduces (w := .up) hi' hi
  rw [target, recvTarget, hred, if_pos (by decide)]

theorem target_down (W : OnTree task T) (he : T.kids < T.edges) (c : Nat) :
    target task T T.kids c = (user task.recvBuf).shift (chunkOffset task c) := by
  have hred := W.reduces (w := .down) he rfl
  rw [target, recvTarget, hred, if_neg (by decide)]

/-- The connection to the parent is one of the way up, from both sides. -/
theorem up_out (h : Hangs T F N r nbr) (he : T.kids < T.edges) :
    F.parent (T.out T.kids).src = some (T.out T.kids).dst := by
  obtain ⟨h1, h2⟩ := h.out_link _ he
  rw [h1, h2]
  exact h.parent he

theorem up_inn (W : OnTree task T) (h : Hangs T F N r nbr) {i : Nat} (hi : i < T.kids) :
    F.parent (T.inn i).src = some (T.inn i).dst := by
  have := W.kids_le
  obtain ⟨h1, h2⟩ := h.inn_link i (by omega)
  rw [h1, h2]
  exact h.kid i hi

theorem down_out (W : OnTree task T) (h : Hangs T F N r nbr) {j : Nat} (hj : j < T.kids) :
    F.parent (T.out j).src ≠ some (T.out j).dst := by
  have := W.kids_le
  obtain ⟨h1, h2⟩ := h.out_link j (by omega)
  rw [h1, h2]
  intro hp
  have h3 := F.depth_lt _ _ hp
  have h4 := F.depth_lt _ _ (h.kid j hj)
  omega

theorem down_inn (h : Hangs T F N r nbr) (he : T.kids < T.edges) :
    F.parent (T.inn T.kids).src ≠ some (T.inn T.kids).dst := by
  obtain ⟨h1, h2⟩ := h.inn_link _ he
  rw [h1, h2]
  intro hp
  have h3 := F.depth_lt _ _ hp
  have h4 := F.depth_lt _ _ (h.parent he)
  omega

theorem mem_arrived {c q : Nat} : q ∈ arrived T nbr rc c ↔ ∃ i < T.kids, c < rc i ∧ nbr i = q := by
  simp only [arrived, Finset.mem_image, Finset.mem_filter, Finset.mem_range, and_assoc]

/-- When all children have sent a chunk it holds the sum of the whole subtree. -/
theorem partialSum_arrived (W : OnTree task T) (h : Hangs T F N r nbr) (hF : Rooted F N root)
    {c : Nat} (hall : ∀ i < T.kids, c < rc i) (i : Nat) :
    partialSum op e F N X r (arrived T nbr rc c) i = subtotal op e F N X r i := by
  have hle := W.kids_le
  refine partialSum_all hF h.rank_lt (fun q => ?_) i
  rw [mem_arrived]
  constructor
  · rintro ⟨i, hi, -, rfl⟩
    exact ⟨h.nbr_lt i (by omega), h.kid i hi⟩
  · rintro ⟨hq, hp⟩
    obtain ⟨i, hi, rfl⟩ := h.all_kids q hq hp
    exact ⟨i, hi, hall i hi, rfl⟩

/-- One more chunk of a child: it has sent that chunk, and no other one changes. -/
theorem arrived_update (rc : Nat → Nat) (W : OnTree task T) (h : Hangs T F N r nbr) {i : Nat} (hi : i < T.kids) :
    arrived T nbr (Function.update rc i (rc i + 1)) (rc i) =
        insert (nbr i) (arrived T nbr rc (rc i)) ∧
      nbr i ∉ arrived T nbr rc (rc i) ∧
      ∀ c, c ≠ rc i → arrived T nbr (Function.update rc i (rc i + 1)) c = arrived T nbr rc c := by
  have hle := W.kids_le
  have hupd : ∀ i' c, c < Function.update rc i (rc i + 1) i' ↔ c < rc i' ∨ i' = i ∧ c = rc i := by
    intro i' c
    by_cases e : i' = i
    · subst e
      rw [Function.update_self]
      omega
    · rw [Function.update_of_ne e]
      simp [e]
  refine ⟨?_, ?_, fun c hc => ?_⟩
  · ext q
    rw [Finset.mem_insert, mem_arrived, mem_arrived]
    constructor
    · rintro ⟨i', hi', hlt, rfl⟩
      rcases (hupd i' _).mp hlt with hlt | ⟨rfl, -⟩
      · exact Or.inr ⟨i', hi', hlt, rfl⟩
      · exact Or.inl rfl
    · rintro (rfl | ⟨i', hi', hlt, rfl⟩)
      · exact ⟨i, hi, (hupd i _).mpr (Or.inr ⟨rfl, rfl⟩), rfl⟩
      · exact ⟨i', hi', (hupd i' _).mpr (Or.inl hlt), rfl⟩
  · rw [mem_arrived]
    rintro ⟨i', hi', hlt, he⟩
    obtain rfl := h.inj i' (by omega) i (by omega) he
    exact absurd hlt (Nat.lt_irrefl _)
  · ext q
    rw [mem_arrived, mem_arrived]
    refine exists_congr fun i' => and_congr_right fun _ => and_congr_left fun _ => ?_
    rw [hupd]
    exact ⟨fun hlt => hlt.resolve_right fun hx => hc hx.2, Or.inl⟩

theorem shift_inside_chunk {p : Loc} {a b x : Nat} (h : (p.shift x).inside (p.shift a) b) :
    a ≤ x ∧ x < a + b := by
  obtain ⟨-, h1, h2⟩ := h
  simp only [Loc.shift_addr] at h1 h2
  omega

/-- **What comes in from a child keeps the claim.** -/
theorem UpBytes.receives (W : OnTree task T) (h : Hangs T F N r nbr) {m m' : Loc → UInt8}
    {i p : Nat} (hi : i < T.kids) (hd : UpBytes op e F N X task T r nbr rc rp m)
    (hlt : rc i < chunkCount task) (hle : rp i ≤ p) (hp : p ≤ chunkBytes task (rc i))
    (hnew : ∀ x, rp i ≤ x → x < p → linkOk op e F N X (T.inn i)
      (off (chunkBytes task) (rc i) + x) (m' ((target task T i (rc i)).shift x)))
    (hm : ∀ q : Loc, ¬ q.inside ((target task T i (rc i)).shift (rp i)) (p - rp i) → m' q = m q) :
    UpBytes op e F N X task T r nbr rc (Function.update rp i p) m' := by
  have hup := up_inn W h hi
  have hsrc := (h.inn_link i (by have := W.kids_le; omega)).1
  rw [target_up W hi] at hnew hm
  refine ⟨fun c hc => ?_, fun i' hi' hlt' => ?_, fun i' hi' hlt' x hx => ?_⟩
  · refine (hd.sums c hc).congr (fun j _ => hm _ ?_) fun _ _ => rfl
    rintro ⟨hs, -⟩
    unfold summed at hs
    split at hs <;> cases hs
  · by_cases e : i' = i
    · subst e; rw [Function.update_self]; exact hp
    · rw [Function.update_of_ne e]; exact hd.part_le i' hi' hlt'
  · by_cases he : i' = i
    · subst he
      rw [Function.update_self] at hx
      by_cases hx' : x < rp i'
      · rw [hm _ fun hin => absurd (shift_inside_chunk hin).1 (by omega)]
        exact hd.parts i' hi' hlt' x hx'
      · have hb := hnew x (by omega) hx
        rw [linkOk, if_pos hup, hsrc, off_chunk W.chunk_pos hlt] at hb
        exact hb
    · rw [Function.update_of_ne he] at hx
      have hpart := hd.part_le i' hi' hlt'
      have hsize := chunkBytes_le task (rc i')
      have hsize' := chunkBytes_le task (rc i)
      rw [hm _ fun hin => ?_]
      · exact hd.parts i' hi' hlt' x hx
      · have hx : x < task.chunkSize * typeSize task := by omega
        exact (temp_apart he).not_inside hx (Loc.inside_part hin (by omega))

/-- **A complete chunk of a child is summed up.** -/
theorem UpBytes.completes (he : ∀ x, reduceElem task.dtype (sumFirst op) e x = x)
    (hop : task.reduceOp = op) (W : OnTree task T) (h : Hangs T F N r nbr) {s : RankState} {i : Nat}
    (hi : i < T.kids) (hd : UpBytes op e F N X task T r nbr rc rp s.byteAt)
    (hlt : rc i < chunkCount task) (hp : rp i = chunkBytes task (rc i)) :
    UpBytes op e F N X task T r nbr (Function.update rc i (rc i + 1)) (Function.update rp i 0)
      (reduceChunk task i (rc i) s).byteAt := by
  have hleader := leader_of_kid W hi
  have hsummed : summed task T = user task.recvBuf := if_pos hleader
  obtain ⟨hins, hnew, hsame⟩ := arrived_update rc W h hi
  have hapart : Apart (temp (i * task.chunkSize * typeSize task))
      (chunkElems task (rc i) * getDataTypeSize task.dtype)
      ((user task.recvBuf).shift (chunkOffset task (rc i)))
      (chunkElems task (rc i) * getDataTypeSize task.dtype) := Or.inl (by simp [temp, user])
  have hframe : ∀ q : Loc, ¬ q.inside ((user task.recvBuf).shift (chunkOffset task (rc i)))
      (chunkElems task (rc i) * getDataTypeSize task.dtype) →
      (reduceChunk task i (rc i) s).byteAt q = s.byteAt q := by
    intro q hq
    exact RankState.performReduce_frame _ hapart hq
  refine ⟨fun c hc => ?_, fun i' hi' hlt' => ?_, fun i' hi' hlt' x hx => ?_⟩
  · rw [hsummed]
    by_cases hcc : c = rc i
    · subst hcc
      have hacc := hd.sums _ hlt
      rw [hsummed] at hacc
      have hpart : Holds s.byteAt task.dtype (temp (i * task.chunkSize * typeSize task))
          (chunkElems task (rc i))
          fun y => subtotal op e F N X (nbr i) (rc i * task.chunkSize + y) := by
        intro j hj
        rw [hd.parts i hi hlt j (by rw [hp]; exact hj), elemByte_shift]
        rfl
      refine (RankState.performReduce_holds (sumFirst op) hapart hacc hpart).congr
        (fun j _ => ?_) fun y _ => ?_
      · rw [reduceChunk, hop]
      · rw [hins]
        refine (partialSum_insert he (fun d hd => ?_) (h.kid i hi) hnew _).symm
        obtain ⟨i', hi', -, rfl⟩ := mem_arrived.mp hd
        exact h.kid i' hi'
    · rw [hsame c hcc]
      have hacc := hd.sums c hc
      rw [hsummed] at hacc
      refine hacc.congr (fun j hj => hframe _ ?_) fun _ _ => rfl
      exact (chunk_apart task.recvBuf hcc).not_inside hj
  · by_cases e : i' = i
    · subst e
      rw [Function.update_self]
      exact Nat.zero_le _
    · rw [Function.update_of_ne e] at hlt' ⊢
      rw [Function.update_of_ne e]
      exact hd.part_le i' hi' hlt'
  · by_cases e : i' = i
    · subst e
      rw [Function.update_self] at hx
      exact absurd hx (Nat.not_lt_zero x)
    · rw [Function.update_of_ne e] at hlt' hx ⊢
      rw [hframe _ fun hin => absurd hin.1 (by simp [temp, user])]
      exact hd.parts i' hi' hlt' x hx

/-- **What comes in from the parent keeps the claim.** -/
theorem DownBytes.receives (W : OnTree task T) (h : Hangs T F N r nbr) {m m' : Loc → UInt8}
    {p : Nat} (hpar : T.kids < T.edges) (hd : DownBytes op N X task T rc rp m)
    (hlt : rc T.kids < chunkCount task) (hle : rp T.kids ≤ p)
    (hp : p ≤ chunkBytes task (rc T.kids))
    (hnew : ∀ x, rp T.kids ≤ x → x < p → linkOk op e F N X (T.inn T.kids)
      (off (chunkBytes task) (rc T.kids) + x)
      (m' ((target task T T.kids (rc T.kids)).shift x)))
    (hm : ∀ q : Loc, ¬ q.inside ((target task T T.kids (rc T.kids)).shift (rp T.kids))
      (p - rp T.kids) → m' q = m q) :
    DownBytes op N X task T rc (Function.update rp T.kids p) m' := by
  have hdown := down_inn h hpar
  rw [target_down W hpar] at hnew hm
  refine ⟨fun c hc hready => ?_, fun _ _ x hx => ?_⟩
  · have hne : c ≠ rc T.kids := Nat.ne_of_lt (hready hpar)
    refine (hd.chunks c hc hready).congr (fun j hj => hm _ fun hin => ?_) fun _ _ => rfl
    refine (chunk_apart task.recvBuf hne).not_inside hj ?_
    obtain ⟨hs, h1, h2⟩ := hin
    simp only [Loc.shift_addr] at h1 h2
    exact ⟨hs, by simp only [Loc.shift_addr]; omega, by simp only [Loc.shift_addr]; omega⟩
  · rw [Function.update_self] at hx
    rw [← Loc.shift_shift]
    by_cases hx' : x < rp T.kids
    · rw [hm _ fun hin => absurd (shift_inside_chunk hin).1 (by omega), Loc.shift_shift]
      exact hd.part hpar hlt x hx'
    · have hb := hnew x (by omega) hx
      rw [linkOk, if_neg hdown, off_chunk W.chunk_pos hlt] at hb
      exact hb

omit [Std.Commutative (reduceElem task.dtype (sumFirst op))]
  [Std.Associative (reduceElem task.dtype (sumFirst op))] in
/-- A complete chunk from the parent is in place. -/
theorem DownBytes.completes {m : Loc → UInt8} (hpar : T.kids < T.edges)
    (hd : DownBytes op N X task T rc rp m) (hlt : rc T.kids < chunkCount task)
    (hp : rp T.kids = chunkBytes task (rc T.kids)) :
    DownBytes op N X task T (Function.update rc T.kids (rc T.kids + 1))
      (Function.update rp T.kids 0) m := by
  refine ⟨fun c hc hready => ?_, fun _ _ x hx => ?_⟩
  · have hready := hready hpar
    rw [Function.update_self] at hready
    by_cases e : c = rc T.kids
    · subst e
      intro j hj
      rw [Loc.shift_shift, hd.part hpar hlt j (by rw [hp]; exact hj), elemByte_shift]
      rfl
    · exact hd.chunks c hc fun _ => by omega
  · rw [Function.update_self] at hx
    exact absurd hx (Nat.not_lt_zero x)

/-- **Turning at the root** divides an average once; everywhere else nothing happens. -/
theorem UpBytes.turns (he : ∀ x, reduceElem task.dtype (sumFirst op) e x = x)
    (hop : task.reduceOp = op) (hsize : task.worldSize = N) (W : OnTree task T)
    (h : Hangs T F N r nbr) (hF : Rooted F N root) {s : RankState}
    (hd : UpBytes op e F N X task T r nbr rc rp s.byteAt)
    (hall : ∀ i < T.kids, rc i = chunkCount task) :
    DownBytes op N X task T (fun _ => 0) (fun _ => 0)
      (enterDown task T.roles T.isLeader s).byteAt := by
  by_cases hpar : T.kids < T.edges
  · exact ⟨fun c _ hready => absurd (hready hpar) (Nat.not_lt_zero c),
      fun _ _ x hx => absurd hx (Nat.not_lt_zero x)⟩
  · have hedges := W.edges_pos
    have hleader := leader_of_kid W (i := 0) (by omega)
    have hNpos := h.rank_lt
    have hroot : r = root := hF.only r h.rank_lt (h.root (by omega))
    have hsummed : summed task T = user task.recvBuf := if_pos hleader
    have hsum : Holds s.byteAt task.dtype (user task.recvBuf) task.elemCount
        (subtotal op e F N X root) := by
      refine holds_chunks W.chunk_pos fun c hc => ?_
      have hacc := hd.sums c hc
      rw [hsummed] at hacc
      refine hacc.congr (fun _ _ => rfl) fun i _ => ?_
      rw [partialSum_arrived W h hF (fun i hi => by rw [hall i hi]; exact hc), hroot]
    have hres : Holds (enterDown task T.roles T.isLeader s).byteAt task.dtype (user task.recvBuf)
        task.elemCount (allreduceResult op N X) := by
      have hedge := W.parent_edge hleader
      rw [if_neg hpar] at hedge
      unfold enterDown
      dsimp only
      rw [hedge, hop]
      by_cases havg : op = .avg
      · rw [if_pos ⟨hleader, by decide, havg⟩]
        have hpos : 0 < task.worldSize := by omega
        refine Holds.congr (f := fun i => averageElem task.dtype task.worldSize
          (subtotal op e F N X root i)) ?_ (fun _ _ => rfl) fun i _ => ?_
        · exact RankState.applyAverage_holds hpos hsum
        rw [← averaged_root he hF (hroot ▸ h.rank_lt), averaged, if_pos havg, hsize]
      · rw [if_neg fun hx => havg hx.2.2]
        refine hsum.congr (fun _ _ => rfl) fun i _ => ?_
        rw [← averaged_root he hF (hroot ▸ h.rank_lt), averaged, if_neg havg]
    exact ⟨fun c hc _ => chunk_holds W.chunk_pos hres hc, fun hx => absurd hx hpar⟩

/-- **The claim about the bytes holds** in every transfer of a tree AllReduce. -/
theorem treeBytes_claimed (he : ∀ x, reduceElem task.dtype (sumFirst op) e x = x)
    (hop : task.reduceOp = op) (hsize : task.worldSize = N) (W : OnTree task T)
    (h : Hangs T F N r nbr) (hF : Rooted F N root) :
    Claimed task T (fun _ => linkOk op e F N X) (treeBytes op e F N X task T r nbr)
      (TopologyRing.AllreduceDone task task.dtype N X) where
  sends w j hj hw rc rp m c hd hready x hx := by
    cases w with
    | up =>
      obtain rfl : j = T.kids := hw
      have hd : UpBytes op e F N X task T r nbr rc rp m := hd
      have hb := hd.sums c hready.lt x hx
      rw [linkOk, if_pos (up_out h hj), (h.out_link _ hj).1, off_chunk W.chunk_pos hready.lt]
      have hval : ∀ i < chunkElems task c,
          partialSum op e F N X r (arrived T nbr rc c) (c * task.chunkSize + i) =
            subtotal op e F N X r (c * task.chunkSize + i) :=
        fun i _ => partialSum_arrived W h hF hready.2 _
      rw [elemByte_congr hval hx, elemByte_shift] at hb
      unfold sendSource
      exact hb
    | down =>
      have hw : j < T.kids := hw
      have hd : DownBytes op N X task T rc rp m := hd
      have hb := hd.chunks c hready.lt hready.2 x hx
      rw [linkOk, if_neg (down_out W h hw), off_chunk W.chunk_pos hready.lt, sendSource,
        leader_of_kid W hw, if_pos rfl]
      rw [elemByte_shift] at hb
      exact hb
  receives w i hi hw rc rp m m' p hd hlt hle hp hnew hm := by
    cases w with
    | up => exact UpBytes.receives W h hw hd hlt hle hp hnew hm
    | down =>
      obtain rfl : i = T.kids := hw
      exact DownBytes.receives W h hi hd hlt hle hp hnew hm
  completes w i hi hw rc rp s hd hlt hp := by
    cases w with
    | up =>
      rw [settle, if_pos rfl]
      exact UpBytes.completes he hop W h hw hd hlt hp
    | down =>
      obtain rfl : i = T.kids := hw
      exact DownBytes.completes hi hd hlt hp
  turns rc rp s hd hall := UpBytes.turns he hop hsize W h hF hd hall
  ends rc rp s hd hall i hi := by
    have hd : DownBytes op N X task T rc rp s.byteAt := hd
    have hres := holds_chunks W.chunk_pos fun c hc => hd.chunks c hc fun hpar => by
      rw [hall hpar]
      exact hc
    rw [hop]
    exact (RankState.load_congr fun _ _ => rfl).trans (hres.load hi)

/-- A rank sums up where its input is. -/
theorem treePrep_byteAt (task : PlanTask) (T : Seat) (m : Mem) {j : Nat}
    (hj : j < task.elemCount * typeSize task) :
    (treePrep task T m).byteAt ((summed task T).shift j) = m (task.sendBuf + j) := by
  unfold treePrep summed
  dsimp only
  by_cases hl : T.isLeader = true
  · rw [if_pos hl, if_pos hl]
    by_cases hsame : task.sendBuf = task.recvBuf
    · rw [if_neg (not_not.mpr hsame), hsame]
      rfl
    · rw [if_pos hsame]
      have h := RankState.byteAt_memcpy ((start task (freshState m)).resizeTemp
        (T.roles.countP isInputRole * task.chunkSize * typeSize task)) (user task.recvBuf)
        (user task.sendBuf) (task.elemCount * typeSize task) ((user task.recvBuf).shift j)
      rw [if_pos (Loc.shift_inside _ hj), Loc.shift_addr, Nat.add_sub_cancel_left] at h
      exact h
  · rw [if_neg hl, if_neg hl]
    rfl

/-- **The first call starts from the inputs.** -/
theorem treeBytes_start (he : ∀ x, reduceElem task.dtype (sumFirst op) e x = x)
    (W : OnTree task T) {m : Mem}
    (hX : ∀ i, X r i = (freshState m).load task.dtype (user task.sendBuf) i) :
    treeBytes op e F N X task T r nbr .up (fun _ => 0) (fun _ => 0)
      (treePrep task T m).byteAt := by
  have hinput : Holds (treePrep task T m).byteAt task.dtype (summed task T) task.elemCount
      (X r) := by
    intro j hj
    rw [treePrep_byteAt task T m hj, elemByte_congr (fun i _ => hX i) hj]
    exact holds_load task.dtype (freshState m) (user task.sendBuf) task.elemCount j hj
  have hbuf : ∃ a, summed task T = user a := by
    unfold summed
    split <;> exact ⟨_, rfl⟩
  obtain ⟨a, ha⟩ := hbuf
  rw [ha] at hinput
  refine ⟨fun c hc => ?_, fun _ _ _ => Nat.zero_le _, fun _ _ _ x hx => absurd hx (Nat.not_lt_zero x)⟩
  have hnone : arrived T nbr (fun _ => 0) c = ∅ := by
    rw [Finset.eq_empty_iff_forall_notMem]
    intro q hq
    obtain ⟨i, -, hlt, -⟩ := mem_arrived.mp hq
    exact absurd hlt (Nat.not_lt_zero c)
  rw [ha]
  refine (chunk_holds W.chunk_pos hinput hc).congr (fun _ _ => rfl) fun i _ => ?_
  rw [hnone, partialSum_empty he]

end Claims

end OriginCCL.TopologyTree
