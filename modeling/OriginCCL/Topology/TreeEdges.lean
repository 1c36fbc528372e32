/-
  File:      OriginCCL/Topology/TreeEdges.lean
  Subject:   THE CONNECTIONS OF A TREE TASK and their cursors.

  A rank sits in the tree with connections to its children first and at most one to its parent
  (`Seat`). On the way up data comes in from the children and goes out to the parent, on the way down
  the other way round. Every connection has a cursor of its own: a chunk and a place in it.

  * `OnTree` -- a task's connections and roles are those of a seat.
  * `Place` -- the cursors of a rank agree with the bytes it has moved.
  * `Claimed` -- what an operation claims of its bytes, and that every transfer keeps it.
  * `edgeRecv_wp`, `edgeSend_wp` -- the inner loops of `PushRecvs` and `PushSends` keep the place.
-/
import OriginCCL.Net.Progress
import OriginCCL.Topology.Channel

namespace OriginCCL.TopologyTree

open Net Base

/-! ## 1. Seats -/

/-- The two phases of a tree task. -/
inductive Way where
  | up
  | down
  deriving DecidableEq, Repr

namespace Way

def phase : Way → Int
  | up => kPhaseUp
  | down => kPhaseDown

/-- The connections data comes in on, with `k` children. -/
def receives (k : Nat) : Way → Nat → Prop
  | up, i => i < k
  | down, i => i = k

/-- The connections data goes out on. -/
def sends (k : Nat) : Way → Nat → Prop
  | up, i => i = k
  | down, i => i < k

/-- The bytes moved at a link end that the phase does not serve, of `total`. -/
def rest (total : Nat) : Way → Nat
  | up => 0
  | down => total

end Way

/-- The place of a rank in a tree: its role, the number of its children and of its connections, and
    the two directions of each. -/
structure Seat where
  isLeader : Bool
  roles : List Int
  kids : Nat
  edges : Nat
  out : Nat → Link
  inn : Nat → Link

/-- **A task sits in its seat**: its connections and roles are the seat's, children first. -/
structure OnTree (task : PlanTask) (T : Seat) : Prop where
  sends : task.sendTransports = (List.range T.edges).map T.out
  recvs : task.recvTransports = (List.range T.edges).map T.inn
  out_inj : ∀ i < T.edges, ∀ j < T.edges, T.out i = T.out j → i = j
  inn_inj : ∀ i < T.edges, ∀ j < T.edges, T.inn i = T.inn j → i = j
  edges_pos : 0 < T.edges
  kids_le : T.kids ≤ T.edges
  le_kids : T.edges ≤ T.kids + 1
  length : T.roles.length = T.edges
  input : T.isLeader = true → ∀ i < T.edges,
    isInputRole (T.roles.getD i 0) = decide (i < T.kids)
  parent : T.isLeader = true → ∀ i < T.edges, isUpRole (T.roles.getD i 0) = decide (i = T.kids)
  parent_edge : T.isLeader = true →
    parentEdge T.roles = if T.kids < T.edges then (T.kids : Int) else -1
  leaf : T.isLeader = false → T.kids = 0 ∧ T.edges = 1
  chunk_pos : 1 ≤ task.chunkSize

section Seats

variable {task : PlanTask} {T : Seat}

theorem OnTree.recvEligible (W : OnTree task T) (w : Way) {i : Nat} (hi : i < T.edges) :
    TopologyTree.recvEligible T.isLeader (T.roles.getD i 0) w.phase = true ↔
      w.receives T.kids i := by
  cases hl : T.isLeader with
  | true =>
    cases w with
    | up =>
      simp only [TopologyTree.recvEligible, Way.phase, if_true, W.input hl i hi, decide_eq_true_eq]
      rfl
    | down =>
      simp only [TopologyTree.recvEligible, Way.phase, if_true, W.parent hl i hi]
      rw [if_neg (by decide), decide_eq_true_eq]
      rfl
  | false =>
    obtain ⟨hk, he⟩ := W.leaf hl
    cases w with
    | up => simp [TopologyTree.recvEligible, Way.phase, Way.receives, kPhaseUp, kPhaseDown, hk]
    | down =>
      simp only [TopologyTree.recvEligible, Way.phase, Way.receives, Bool.false_eq_true, if_false,
        BEq.rfl, true_iff]
      omega

theorem OnTree.sendEligible (W : OnTree task T) (w : Way) {i : Nat} (hi : i < T.edges) :
    TopologyTree.sendEligible T.isLeader (T.roles.getD i 0) w.phase = true ↔
      w.sends T.kids i := by
  cases hl : T.isLeader with
  | true =>
    cases w with
    | up =>
      simp only [TopologyTree.sendEligible, Way.phase, if_true, W.parent hl i hi, decide_eq_true_eq]
      rfl
    | down =>
      simp only [TopologyTree.sendEligible, Way.phase, if_true, W.input hl i hi]
      rw [if_neg (by decide), decide_eq_true_eq]
      rfl
  | false =>
    obtain ⟨hk, he⟩ := W.leaf hl
    cases w with
    | up =>
      simp only [TopologyTree.sendEligible, Way.phase, Way.sends, Bool.false_eq_true, if_false,
        BEq.rfl, true_iff]
      omega
    | down => simp [TopologyTree.sendEligible, Way.phase, Way.sends, kPhaseUp, kPhaseDown, hk]

/-- Only what comes in from a child is reduced. -/
theorem OnTree.reduces (W : OnTree task T) {w : Way} {i : Nat} (hi : i < T.edges)
    (hw : w.receives T.kids i) :
    (T.isLeader && isInputRole (T.roles.getD i 0)) = decide (w = .up) := by
  cases hl : T.isLeader with
  | true =>
    rw [W.input hl i hi, Bool.true_and]
    cases w with
    | up => exact decide_eq_decide.mpr (iff_of_true hw rfl)
    | down =>
      refine decide_eq_decide.mpr (iff_of_false ?_ (by decide))
      have hw : i = T.kids := hw
      omega
  | false =>
    obtain ⟨hk, he⟩ := W.leaf hl
    cases w with
    | up =>
      have hw : i < T.kids := hw
      omega
    | down => rfl

end Seats

/-! ## 2. Chunks -/

section Chunks

variable {task : PlanTask} (hc : 1 ≤ task.chunkSize)

include hc

theorem lt_chunkCount {c : Nat} :
    c < chunkCount task ↔ c * task.chunkSize < task.elemCount := by
  rw [chunkCount, if_neg (by omega), ← Nat.succ_le_iff, Nat.le_div_iff_mul_le (by omega),
    Nat.succ_eq_add_one, Nat.succ_mul]
  omega

theorem chunkBytes_pos {c : Nat} (h : c < chunkCount task) : 0 < chunkBytes task c := by
  have h := (lt_chunkCount hc).mp h
  refine Nat.mul_pos ?_ (getDataTypeSize_pos _)
  simp only [chunkElems]
  rw [if_neg (by omega)]
  omega

omit hc in
/-- The chunks follow each other in the buffer. -/
theorem off_chunks (c : Nat) : off (chunkBytes task) c =
    min (c * task.chunkSize) task.elemCount * typeSize task := by
  induction c with
  | zero => simp
  | succ c ih =>
    rw [off_succ, ih, chunkBytes, ← Nat.add_mul]
    congr 1
    rw [Nat.succ_mul]
    simp only [chunkElems]
    split <;> omega

theorem off_chunk {c : Nat} (h : c < chunkCount task) :
    off (chunkBytes task) c = chunkOffset task c := by
  have h := (lt_chunkCount hc).mp h
  rw [off_chunks, Nat.min_eq_left (by omega), chunkOffset]

theorem off_chunkCount : off (chunkBytes task) (chunkCount task) =
    task.elemCount * typeSize task := by
  have h := mt (lt_chunkCount hc).mpr (Nat.lt_irrefl _)
  rw [off_chunks, Nat.min_eq_right (by omega)]

end Chunks

/-! ## 3. Cursors and counts -/

/-- The bytes moved of the chunk a cursor is in. -/
def recvPart (s : RankState) (i : Nat) : Nat :=
  if s.op.recvDone.get i then 0 else s.op.recvProgress.get i

def sendPart (s : RankState) (j : Nat) : Nat :=
  if s.op.sendDone.get j then 0 else s.op.sendProgress.get j

/-- A cursor in chunk `chunk`, `part` bytes of it moved, after `pos` bytes of the stream. -/
structure Cursor (len : Nat → Nat) (count chunk part : Nat) (done : Bool) (pos : Nat) : Prop where
  le : chunk ≤ count
  opened : done = false → chunk < count ∧ part < len chunk
  pos : pos = off len chunk + part

/-- Chunk `c` may go out: it has come in from every child, or from the parent. -/
def Ready (task : PlanTask) (T : Seat) : Way → (Nat → Nat) → Nat → Prop
  | .up, rc, c => c < chunkCount task ∧ ∀ i < T.kids, c < rc i
  | .down, rc, c => c < chunkCount task ∧ (T.kids < T.edges → c < rc T.kids)

theorem Ready.lt {task : PlanTask} {T : Seat} {w : Way} {rc : Nat → Nat} {c : Nat}
    (h : Ready task T w rc c) : c < chunkCount task := by
  cases w <;> exact h.1

theorem Ready.mono {task : PlanTask} {T : Seat} {w : Way} {rc rc' : Nat → Nat} {c c' : Nat}
    (h : Ready task T w rc c) (hrc : ∀ i, rc i ≤ rc' i) (hc : c' ≤ c) : Ready task T w rc' c' := by
  have hlt := h.lt
  cases w with
  | up => exact ⟨by omega, fun i hi => Nat.lt_of_le_of_lt hc (Nat.lt_of_lt_of_le (h.2 i hi) (hrc i))⟩
  | down => exact ⟨by omega, fun he => Nat.lt_of_le_of_lt hc (Nat.lt_of_lt_of_le (h.2 he) (hrc _))⟩

/-- What is claimed of the bytes, given the chunks and parts received. -/
abbrev Claim : Type := Way → (Nat → Nat) → (Nat → Nat) → (Loc → UInt8) → Prop

/-- **The place of a rank in its task**: its cursors agree with the bytes it has moved. -/
structure Place (task : PlanTask) (T : Seat) (Data : Claim) (w : Way) (s : RankState)
    (n : Side → Link → Nat) : Prop where
  phase : s.op.phase = w.phase
  recv : ∀ i < T.edges, w.receives T.kids i → Cursor (chunkBytes task) (chunkCount task)
    (s.recvChunk i) (recvPart s i) (s.op.recvDone.get i) (n .inn (T.inn i))
  send : ∀ j < T.edges, w.sends T.kids j → Cursor (chunkBytes task) (chunkCount task)
    (s.sendChunk j) (sendPart s j) (s.op.sendDone.get j) (n .out (T.out j))
  ready : ∀ j < T.edges, w.sends T.kids j → ∀ c,
    (c < s.sendChunk j ∨ c = s.sendChunk j ∧ s.op.sendDone.get j = false) →
    Ready task T w s.recvChunk c
  recv_rest : ∀ i < T.edges, ¬ w.receives T.kids i →
    s.op.recvDone.get i = true ∧ n .inn (T.inn i) = w.rest (off (chunkBytes task) (chunkCount task))
  send_rest : ∀ j < T.edges, ¬ w.sends T.kids j →
    s.op.sendDone.get j = true ∧ n .out (T.out j) = w.rest (off (chunkBytes task) (chunkCount task))
  data : Data w s.recvChunk (recvPart s) s.byteAt

/-- The terms of a rank that moves all chunks both ways on every connection. -/
def treeTerms (task : PlanTask) (T : Seat) (ok : Side → Link → Nat → UInt8 → Prop) :
    Terms Link UInt8 where
  owns
    | .out, l => ∃ i < T.edges, l = T.out i
    | .inn, l => ∃ i < T.edges, l = T.inn i
  upto
    | .out, l => if ∃ i < T.edges, l = T.out i then task.elemCount * typeSize task else 0
    | .inn, l => if ∃ i < T.edges, l = T.inn i then task.elemCount * typeSize task else 0
  byteOk := ok

/-- Where the bytes of a chunk from connection `i` go. -/
def target (task : PlanTask) (T : Seat) (i c : Nat) : Loc :=
  recvTarget task T.isLeader T.roles i c

/-- What a complete chunk from connection `i` does to the state. -/
def settle (task : PlanTask) (w : Way) (i c : Nat) (s : RankState) : RankState :=
  if w = .up then reduceChunk task i c s else s

/-- **The bytes keep a claim**: what is sent and received is as claimed, and so it stays when a chunk
    is complete, when the rank turns from the way up to the way down, and at the end. -/
structure Claimed (task : PlanTask) (T : Seat) (ok : Side → Link → Nat → UInt8 → Prop)
    (Data : Claim) (Post : Mem → Prop) : Prop where
  sends : ∀ w, ∀ j < T.edges, w.sends T.kids j → ∀ rc rp m c, Data w rc rp m →
    Ready task T w rc c → ∀ x < chunkBytes task c,
    ok .out (T.out j) (off (chunkBytes task) c + x)
      (m ((sendSource task T.isLeader c).shift x))
  receives : ∀ w, ∀ i < T.edges, w.receives T.kids i → ∀ rc rp m m' p, Data w rc rp m →
    rc i < chunkCount task → rp i ≤ p → p ≤ chunkBytes task (rc i) →
    (∀ x, rp i ≤ x → x < p →
      ok .inn (T.inn i) (off (chunkBytes task) (rc i) + x) (m' ((target task T i (rc i)).shift x))) →
    (∀ q : Loc, ¬ q.inside ((target task T i (rc i)).shift (rp i)) (p - rp i) → m' q = m q) →
    Data w rc (Function.update rp i p) m'
  completes : ∀ w, ∀ i < T.edges, w.receives T.kids i → ∀ rc rp, ∀ s : RankState,
    Data w rc rp s.byteAt → rc i < chunkCount task → rp i = chunkBytes task (rc i) →
    Data w (Function.update rc i (rc i + 1)) (Function.update rp i 0)
      (settle task w i (rc i) s).byteAt
  turns : ∀ rc rp, ∀ s : RankState, Data .up rc rp s.byteAt →
    (∀ i < T.kids, rc i = chunkCount task) →
    Data .down (fun _ => 0) (fun _ => 0) (enterDown task T.roles T.isLeader s).byteAt
  ends : ∀ rc rp, ∀ s : RankState, Data .down rc rp s.byteAt →
    (T.kids < T.edges → rc T.kids = chunkCount task) → Post s.mem

/-- The accounting of bytes claims nothing of them. -/
theorem Claimed.account (task : PlanTask) (T : Seat) :
    Claimed task T (fun _ _ _ _ => True) (fun _ _ _ _ => True) (fun _ => True) where
  sends _ _ _ _ _ _ _ _ _ _ _ _ := trivial
  receives _ _ _ _ _ _ _ _ _ _ _ _ _ _ _ := trivial
  completes _ _ _ _ _ _ _ _ _ _ := trivial
  turns _ _ _ _ _ := trivial
  ends _ _ _ _ _ := trivial

/-! ## 4. One connection -/

/-- Between the two states nothing has happened but receiving on connection `i`. -/
structure OnlyRecv (i : Nat) (s s' : RankState) : Prop where
  phase : s'.op.phase = s.op.phase
  send_done : s'.op.sendDone = s.op.sendDone
  send_progress : s'.op.sendProgress = s.op.sendProgress
  send_chunk : s'.sendChunk = s.sendChunk
  chunk_ne : ∀ i', i' ≠ i → s'.recvChunk i' = s.recvChunk i'
  done_ne : ∀ i', i' ≠ i → s'.op.recvDone.get i' = s.op.recvDone.get i'
  progress_ne : ∀ i', i' ≠ i → s'.op.recvProgress.get i' = s.op.recvProgress.get i'

namespace OnlyRecv

variable {i : Nat} {s s' s'' : RankState}

theorem trans (h : OnlyRecv i s s') (h' : OnlyRecv i s' s'') : OnlyRecv i s s'' where
  phase := h'.phase.trans h.phase
  send_done := h'.send_done.trans h.send_done
  send_progress := h'.send_progress.trans h.send_progress
  send_chunk := h'.send_chunk.trans h.send_chunk
  chunk_ne i' hi := (h'.chunk_ne i' hi).trans (h.chunk_ne i' hi)
  done_ne i' hi := (h'.done_ne i' hi).trans (h.done_ne i' hi)
  progress_ne i' hi := (h'.progress_ne i' hi).trans (h.progress_ne i' hi)

theorem setRecv (i : Nat) (s : RankState) (p : Nat) (d : Bool) : OnlyRecv i s (s.setRecv i p d) where
  phase := rfl
  send_done := rfl
  send_progress := rfl
  send_chunk := rfl
  chunk_ne _ _ := rfl
  done_ne _ hi := Vec.set_get_ne _ _ hi
  progress_ne _ hi := Vec.set_get_ne _ _ hi

theorem nextRecvChunk (i : Nat) (s : RankState) : OnlyRecv i s (s.nextRecvChunk i) where
  phase := rfl
  send_done := rfl
  send_progress := rfl
  send_chunk := rfl
  chunk_ne _ hi := Vec.set_get_ne _ _ hi
  done_ne _ _ := rfl
  progress_ne _ _ := rfl

/-- A change of bytes alone. -/
theorem of_control (i : Nat) (h : s'.control = s.control) : OnlyRecv i s s' where
  phase := (congrArg (fun o => o.phase) h :)
  send_done := (congrArg (fun o => o.sendDone) h :)
  send_progress := (congrArg (fun o => o.sendProgress) h :)
  send_chunk := congrArg (fun o j => o.algo.tree.sendChunk.get j) h
  chunk_ne i' _ := congrArg (fun o => o.algo.tree.recvChunk.get i') h
  done_ne i' _ := congrArg (fun o => o.recvDone.get i') h
  progress_ne i' _ := congrArg (fun o => o.recvProgress.get i') h

theorem part_ne (h : OnlyRecv i s s') {i' : Nat} (hi : i' ≠ i) : recvPart s' i' = recvPart s i' := by
  rw [recvPart, recvPart, h.done_ne i' hi, h.progress_ne i' hi]

end OnlyRecv

theorem recvChunk_of_control {s s' : RankState} (h : s'.control = s.control) :
    s'.recvChunk = s.recvChunk :=
  congrArg (fun o j => o.algo.tree.recvChunk.get j) h

section Edges

variable {task : PlanTask} {T : Seat} {Data : Claim} {Post : Mem → Prop}
  {ok : Side → Link → Nat → UInt8 → Prop} {w : Way} {i : Nat} {s s' : RankState}
  {n n' : Side → Link → Nat}

/-- Receiving on a connection keeps the place of the others. -/
theorem Place.received (W : OnTree task T) (h : Place task T Data w s n) (hi : i < T.edges)
    (hw : w.receives T.kids i) (ho : OnlyRecv i s s')
    (hcur : Cursor (chunkBytes task) (chunkCount task) (s'.recvChunk i) (recvPart s' i)
      (s'.op.recvDone.get i) (n' .inn (T.inn i)))
    (hle : s.recvChunk i ≤ s'.recvChunk i)
    (hn : ∀ sd l, ¬ (sd = .inn ∧ l = T.inn i) → n' sd l = n sd l)
    (hdata : Data w s'.recvChunk (recvPart s') s'.byteAt) : Place task T Data w s' n' := by
  have hout : ∀ l, n' .out l = n .out l := fun l => hn _ _ (by simp)
  have hinn : ∀ i' < T.edges, i' ≠ i → n' .inn (T.inn i') = n .inn (T.inn i') := by
    intro i' hi' hne
    exact hn _ _ fun e => hne (W.inn_inj i' hi' i hi e.2)
  have hchunk : ∀ i', s.recvChunk i' ≤ s'.recvChunk i' := by
    intro i'
    by_cases e : i' = i
    · rw [e]; exact hle
    · rw [ho.chunk_ne i' e]
  refine ⟨ho.phase.trans h.phase, fun i' hi' hw' => ?_, fun j hj hw' => ?_,
    fun j hj hw' c hc => ?_, fun i' hi' hw' => ?_, fun j hj hw' => ?_, hdata⟩
  · by_cases e : i' = i
    · rw [e]; exact hcur
    · rw [ho.chunk_ne i' e, ho.part_ne e, ho.done_ne i' e, hinn i' hi' e]
      exact h.recv i' hi' hw'
  · rw [ho.send_chunk, sendPart, ho.send_done, ho.send_progress, hout]
    exact h.send j hj hw'
  · rw [ho.send_chunk, ho.send_done] at hc
    exact (h.ready j hj hw' c hc).mono hchunk (Nat.le_refl _)
  · have e : i' ≠ i := fun e => hw' (e ▸ hw)
    rw [ho.done_ne i' e, hinn i' hi' e]
    exact h.recv_rest i' hi' hw'
  · rw [ho.send_done, hout]
    exact h.send_rest j hj hw'

/-- The state in which a connection's next transfer starts. -/
def openRecv (s : RankState) (i : Nat) : RankState :=
  if s.op.recvDone.get i then s.setRecv i 0 false else s

theorem openRecv_only (s : RankState) (i : Nat) : OnlyRecv i s (openRecv s i) := by
  unfold openRecv
  split
  · exact .setRecv ..
  · exact .of_control i rfl

theorem openRecv_progress (s : RankState) (i : Nat) :
    (openRecv s i).op.recvProgress.get i = recvPart s i := by
  unfold openRecv recvPart
  split
  · exact Vec.set_get_self ..
  · rfl

theorem openRecv_same (s : RankState) (i : Nat) :
    (openRecv s i).recvChunk = s.recvChunk ∧ (openRecv s i).byteAt = s.byteAt := by
  unfold openRecv
  split <;> exact ⟨rfl, rfl⟩

theorem openRecv_done (s : RankState) (i : Nat) : (openRecv s i).op.recvDone.get i = false := by
  unfold openRecv
  by_cases h : s.op.recvDone.get i = true
  · rw [if_pos h]
    exact Vec.set_get_self ..
  · rw [if_neg h]
    exact Bool.eq_false_iff.mpr h

/-- The state after `bs` has come in on a connection. -/
def takeIn (task : PlanTask) (T : Seat) (i : Nat) (s : RankState) (bs : List UInt8) : RankState :=
  ((openRecv s i).write ((target task T i (s.recvChunk i)).shift (recvPart s i)) bs).setRecv i
    (recvPart s i + bs.length) (recvPart s i + bs.length == chunkBytes task (s.recvChunk i))

theorem takeIn_only (s : RankState) (bs : List UInt8) : OnlyRecv i s (takeIn task T i s bs) :=
  ((openRecv_only s i).trans (.of_control i (RankState.control_write ..))).trans (.setRecv ..)

theorem takeIn_recvChunk (task : PlanTask) (T : Seat) (i : Nat) (s : RankState)
    (bs : List UInt8) : (takeIn task T i s bs).recvChunk = s.recvChunk := by
  have h := recvChunk_of_control (RankState.control_write (openRecv s i)
    ((target task T i (s.recvChunk i)).shift (recvPart s i)) bs)
  rw [(openRecv_same s i).1] at h
  exact h

/-- **What comes in keeps the claim.** -/
theorem takeIn_data (H : Claimed task T ok Data Post) (h : Place task T Data w s n)
    (hi : i < T.edges) (hw : w.receives T.kids i) (hlt : s.recvChunk i < chunkCount task)
    {bs : List UInt8} (hbs : recvPart s i + bs.length ≤ chunkBytes task (s.recvChunk i))
    (hrun : (treeTerms task T ok).run .inn (T.inn i) (n .inn (T.inn i)) bs) :
    Data w s.recvChunk (Function.update (recvPart s) i (recvPart s i + bs.length))
      (takeIn task T i s bs).byteAt := by
  have hcur := h.recv i hi hw
  have hbytes : (takeIn task T i s bs).byteAt = ((openRecv s i).write
      ((target task T i (s.recvChunk i)).shift (recvPart s i)) bs).byteAt := rfl
  refine H.receives w i hi hw _ _ _ _ _ h.data hlt (Nat.le_add_right ..) hbs ?_ ?_
  · intro x hx1 hx2
    have hin : ((target task T i (s.recvChunk i)).shift x).inside
        ((target task T i (s.recvChunk i)).shift (recvPart s i)) bs.length := by
      refine ⟨rfl, ?_, ?_⟩ <;> simp only [Loc.shift_addr] <;> omega
    have hidx : ((target task T i (s.recvChunk i)).shift x).addr -
        ((target task T i (s.recvChunk i)).shift (recvPart s i)).addr = x - recvPart s i := by
      simp only [Loc.shift_addr]
      omega
    have hlen : x - recvPart s i < bs.length := by omega
    rw [hbytes, RankState.byteAt_write, if_pos hin, hidx, List.getD_eq_getElem _ _ hlen]
    have hb := hrun (x - recvPart s i) hlen
    rw [hcur.pos, Nat.add_assoc, Nat.add_sub_cancel' hx1] at hb
    exact hb
  · intro q hq
    rw [Nat.add_sub_cancel_left] at hq
    rw [hbytes, RankState.byteAt_write, if_neg hq, (openRecv_same s i).2]

theorem takeIn_progress (s : RankState) (bs : List UInt8) :
    (takeIn task T i s bs).op.recvProgress.get i = recvPart s i + bs.length :=
  Vec.set_get_self ..

theorem takeIn_done (s : RankState) (bs : List UInt8) : (takeIn task T i s bs).op.recvDone.get i =
    (recvPart s i + bs.length == chunkBytes task (s.recvChunk i)) :=
  Vec.set_get_self ..

/-- The state after a chunk has come in completely. -/
def finishIn (task : PlanTask) (T : Seat) (w : Way) (i : Nat) (s : RankState) (bs : List UInt8) :
    RankState :=
  (settle task w i (s.recvChunk i) (takeIn task T i s bs)).nextRecvChunk i

theorem settle_control (task : PlanTask) (w : Way) (i c : Nat) (s : RankState) :
    (settle task w i c s).control = s.control := by
  unfold settle
  split
  · exact RankState.control_performReduce ..
  · rfl

theorem finishIn_only (s : RankState) (bs : List UInt8) : OnlyRecv i s (finishIn task T w i s bs) :=
  ((takeIn_only s bs).trans (.of_control i (settle_control ..))).trans (.nextRecvChunk ..)

theorem finishIn_recvChunk (task : PlanTask) (T : Seat) (w : Way) (i : Nat) (s : RankState)
    (bs : List UInt8) : (finishIn task T w i s bs).recvChunk =
      Function.update s.recvChunk i (s.recvChunk i + 1) := by
  have h := recvChunk_of_control (settle_control task w i (s.recvChunk i)
    (takeIn task T i s bs))
  rw [takeIn_recvChunk] at h
  change Function.update (settle task w i (s.recvChunk i) (takeIn task T i s bs)).recvChunk i
    ((settle task w i (s.recvChunk i) (takeIn task T i s bs)).recvChunk i + 1) = _
  rw [h]

theorem finishIn_done (s : RankState) (bs : List UInt8) :
    (finishIn task T w i s bs).op.recvDone.get i =
      (recvPart s i + bs.length == chunkBytes task (s.recvChunk i)) := by
  have h := congrArg (fun o => o.recvDone.get i) (settle_control task w i (s.recvChunk i)
    (takeIn task T i s bs))
  rw [← takeIn_done (T := T)]
  exact h

/-- One round of the loop of `PushRecvs`. -/
theorem edgeRecv_succ (W : OnTree task T) (hi : i < T.edges) (hw : w.receives T.kids i) (l : Link)
    (fuel : Nat) (s : RankState) : edgeRecv task T.roles T.isLeader l i (fuel + 1) s =
      if s.recvChunk i < chunkCount task then
        .recv l (chunkBytes task (s.recvChunk i) - recvPart s i) fun
          | none => .fail .error
          | some bs =>
            if recvPart s i + bs.length = chunkBytes task (s.recvChunk i) then
              edgeRecv task T.roles T.isLeader l i fuel (finishIn task T w i s bs)
            else pure (takeIn task T i s bs)
      else pure s := by
  rw [edgeRecv]
  split
  · dsimp only
    rw [W.reduces hi hw]
    change (tryRecv l (openRecv s i) _ _ ((openRecv s i).op.recvProgress.get i)) >>= _ = _
    rw [openRecv_progress, tryRecv, Prog.recv_bind]
    congr 1
    funext r
    cases r with
    | none => rfl
    | some bs =>
      simp only [Prog.ret_bind]
      by_cases hdone : recvPart s i + bs.length = chunkBytes task (s.recvChunk i)
      · rw [if_pos hdone, if_neg (by simp [hdone])]
        unfold finishIn settle
        simp only [decide_eq_true_eq]
        rfl
      · rw [if_neg hdone, if_pos (by simp [hdone])]
        rfl
  · rfl

theorem recvPart_lt (W : OnTree task T) (h : Place task T Data w s n) (hi : i < T.edges)
    (hw : w.receives T.kids i) (hlt : s.recvChunk i < chunkCount task) :
    recvPart s i < chunkBytes task (s.recvChunk i) := by
  cases hd : s.op.recvDone.get i with
  | true =>
    rw [recvPart, hd, if_pos rfl]
    exact chunkBytes_pos W.chunk_pos hlt
  | false => exact ((h.recv i hi hw).opened hd).2

theorem inn_room (W : OnTree task T) (h : Place task T Data w s n) (hi : i < T.edges)
    (hw : w.receives T.kids i) (hlt : s.recvChunk i < chunkCount task) :
    n .inn (T.inn i) + (chunkBytes task (s.recvChunk i) - recvPart s i) ≤
      (treeTerms task T ok).upto .inn (T.inn i) := by
  have hpart := recvPart_lt W h hi hw hlt
  have hpos := (h.recv i hi hw).pos
  have hoff := off_succ_le (chunkBytes task) hlt
  rw [off_chunkCount W.chunk_pos] at hoff
  simp only [treeTerms]
  rw [if_pos ⟨i, hi, rfl⟩]
  omega

theorem recvPart_takeIn (s : RankState) {bs : List UInt8}
    (hbs : recvPart s i + bs.length ≠ chunkBytes task (s.recvChunk i)) :
    recvPart (takeIn task T i s bs) =
      Function.update (recvPart s) i (recvPart s i + bs.length) := by
  funext i'
  by_cases e : i' = i
  · subst e
    rw [Function.update_self, recvPart, takeIn_done, takeIn_progress, if_neg (by simpa using hbs)]
  · rw [Function.update_of_ne e, (takeIn_only s bs).part_ne e]

theorem recvPart_finishIn (s : RankState) {bs : List UInt8}
    (hbs : recvPart s i + bs.length = chunkBytes task (s.recvChunk i)) :
    recvPart (finishIn task T w i s bs) = Function.update (recvPart s) i 0 := by
  funext i'
  by_cases e : i' = i
  · subst e
    rw [Function.update_self, recvPart, finishIn_done, if_pos (by simpa using hbs)]
  · rw [Function.update_of_ne e, (finishIn_only s bs).part_ne e]

/-- Bytes of an incomplete chunk keep the place. -/
theorem Place.takeIn (W : OnTree task T) (H : Claimed task T ok Data Post)
    (h : Place task T Data w s n) (hi : i < T.edges) (hw : w.receives T.kids i)
    (hlt : s.recvChunk i < chunkCount task) {bs : List UInt8}
    (hbs : recvPart s i + bs.length < chunkBytes task (s.recvChunk i))
    (hrun : (treeTerms task T ok).run .inn (T.inn i) (n .inn (T.inn i)) bs)
    (hself : n' .inn (T.inn i) = n .inn (T.inn i) + bs.length)
    (hn : ∀ sd l, ¬ (sd = .inn ∧ l = T.inn i) → n' sd l = n sd l) :
    Place task T Data w (TopologyTree.takeIn task T i s bs) n' := by
  have hpart := recvPart_takeIn (T := T) s (Nat.ne_of_lt hbs)
  have hchunk := takeIn_recvChunk task T i s bs
  have hpos := (h.recv i hi hw).pos
  refine h.received W hi hw (takeIn_only s bs) ?_ (by rw [hchunk]) hn ?_
  · rw [hchunk, hpart, Function.update_self]
    exact ⟨Nat.le_of_lt hlt, fun _ => ⟨hlt, hbs⟩, by omega⟩
  · rw [hchunk, hpart]
    exact takeIn_data H h hi hw hlt (Nat.le_of_lt hbs) hrun

/-- The last bytes of a chunk keep the place. -/
theorem Place.finishIn (W : OnTree task T) (H : Claimed task T ok Data Post)
    (h : Place task T Data w s n) (hi : i < T.edges) (hw : w.receives T.kids i)
    (hlt : s.recvChunk i < chunkCount task) {bs : List UInt8}
    (hbs : recvPart s i + bs.length = chunkBytes task (s.recvChunk i))
    (hrun : (treeTerms task T ok).run .inn (T.inn i) (n .inn (T.inn i)) bs)
    (hself : n' .inn (T.inn i) = n .inn (T.inn i) + bs.length)
    (hn : ∀ sd l, ¬ (sd = .inn ∧ l = T.inn i) → n' sd l = n sd l) :
    Place task T Data w (TopologyTree.finishIn task T w i s bs) n' := by
  have hpart := recvPart_finishIn (T := T) (w := w) s hbs
  have hchunk := finishIn_recvChunk task T w i s bs
  have hpos := (h.recv i hi hw).pos
  have hsucc := off_succ (chunkBytes task) (s.recvChunk i)
  refine h.received W hi hw (finishIn_only s bs) ?_ ?_ hn ?_
  · rw [hchunk, hpart, Function.update_self, Function.update_self, finishIn_done]
    exact ⟨hlt, fun hd => absurd hbs (by simpa using hd), by omega⟩
  · rw [hchunk, Function.update_self]
    exact Nat.le_succ _
  · have hdata := H.completes w i hi hw _ _ _
      (takeIn_data H h hi hw hlt (Nat.le_of_eq hbs) hrun) hlt (by rw [Function.update_self, hbs])
    rw [Function.update_idem] at hdata
    rw [hchunk, hpart]
    exact hdata

/-- What receiving on a connection leaves: all chunks are there, or the rest has been asked for. -/
structure Received (task : PlanTask) (T : Seat) (i : Nat) (s s' : RankState) (g' : Acct Link) :
    Prop where
  only : OnlyRecv i s s'
  le : s.recvChunk i ≤ s'.recvChunk i
  settled : s'.op.recvDone.get i = false ∨ s'.recvChunk i = chunkCount task
  tried : s.recvChunk i < chunkCount task → g'.tried .inn (T.inn i)

/-- **The loop of `PushRecvs` on one connection** keeps the place. -/
theorem edgeRecv_wp (W : OnTree task T) (H : Claimed task T ok Data Post) (hi : i < T.edges)
    (hw : w.receives T.kids i) (fuel : Nat) {s : RankState} {g : Acct Link}
    (h : Place task T Data w s g.count) (hf : chunkCount task < s.recvChunk i + fuel) :
    (edgeRecv task T.roles T.isLeader (T.inn i) i fuel s).wp (treeTerms task T ok)
      (fun s' g' => Place task T Data w s' g'.count ∧ Received task T i s s' g') g := by
  induction fuel generalizing s g with
  | zero =>
    have := (h.recv i hi hw).le
    omega
  | succ fuel ih =>
    rw [edgeRecv_succ W hi hw]
    by_cases hlt : s.recvChunk i < chunkCount task
    · rw [if_pos hlt]
      have hpart := recvPart_lt W h hi hw hlt
      refine ⟨⟨i, hi, rfl⟩, inn_room W h hi hw hlt, fun bs hbs hrun => ?_⟩
      have hself := Acct.move_count_self g .inn (T.inn i)
        (chunkBytes task (s.recvChunk i) - recvPart s i) bs.length
      have hn : ∀ sd l, ¬ (sd = .inn ∧ l = T.inn i) → (g.move .inn (T.inn i)
          (chunkBytes task (s.recvChunk i) - recvPart s i) bs.length).count sd l = g.count sd l :=
        fun sd l hne => Acct.move_count_ne g _ _ hne
      have htried : (g.move .inn (T.inn i) (chunkBytes task (s.recvChunk i) - recvPart s i)
          bs.length).tried .inn (T.inn i) := Acct.move_tried_self _ _ _ _ (by omega)
      dsimp only
      by_cases hdone : recvPart s i + bs.length = chunkBytes task (s.recvChunk i)
      · rw [if_pos hdone]
        have hchunk := finishIn_recvChunk task T w i s bs
        have hplace := h.finishIn W H hi hw hlt hdone hrun hself hn
        refine Prog.wp_mono ?_ (Prog.wp_tried htried (ih hplace ?_))
        · rintro s' g' ⟨⟨hp, hr⟩, hk⟩
          refine ⟨hp, (finishIn_only s bs).trans hr.only, ?_, hr.settled, fun _ => hk⟩
          have hle := hr.le
          rw [hchunk, Function.update_self] at hle
          omega
        · rw [hchunk, Function.update_self]
          omega
      · rw [if_neg hdone]
        have hchunk := takeIn_recvChunk task T i s bs
        refine ⟨h.takeIn W H hi hw hlt (by omega) hrun hself hn, takeIn_only s bs, ?_, Or.inl ?_,
          fun _ => htried⟩
        · rw [hchunk]
        · rw [takeIn_done]
          simpa using hdone
    · rw [if_neg hlt]
      have hle := (h.recv i hi hw).le
      exact ⟨h, .of_control i rfl, Nat.le_refl _, Or.inr (by omega), fun hc => absurd hc hlt⟩

end Edges

/-! ## 5. The same for sending -/

/-- Between the two states nothing has happened but sending on connection `j`. -/
structure OnlySend (j : Nat) (s s' : RankState) : Prop where
  phase : s'.op.phase = s.op.phase
  recv_done : s'.op.recvDone = s.op.recvDone
  recv_progress : s'.op.recvProgress = s.op.recvProgress
  recv_chunk : s'.recvChunk = s.recvChunk
  bytes : s'.byteAt = s.byteAt
  chunk_ne : ∀ j', j' ≠ j → s'.sendChunk j' = s.sendChunk j'
  done_ne : ∀ j', j' ≠ j → s'.op.sendDone.get j' = s.op.sendDone.get j'
  progress_ne : ∀ j', j' ≠ j → s'.op.sendProgress.get j' = s.op.sendProgress.get j'

namespace OnlySend

variable {j : Nat} {s s' s'' : RankState}

theorem refl (j : Nat) (s : RankState) : OnlySend j s s :=
  ⟨rfl, rfl, rfl, rfl, rfl, fun _ _ => rfl, fun _ _ => rfl, fun _ _ => rfl⟩

theorem trans (h : OnlySend j s s') (h' : OnlySend j s' s'') : OnlySend j s s'' where
  phase := h'.phase.trans h.phase
  recv_done := h'.recv_done.trans h.recv_done
  recv_progress := h'.recv_progress.trans h.recv_progress
  recv_chunk := h'.recv_chunk.trans h.recv_chunk
  bytes := h'.bytes.trans h.bytes
  chunk_ne j' hj := (h'.chunk_ne j' hj).trans (h.chunk_ne j' hj)
  done_ne j' hj := (h'.done_ne j' hj).trans (h.done_ne j' hj)
  progress_ne j' hj := (h'.progress_ne j' hj).trans (h.progress_ne j' hj)

theorem setSend (j : Nat) (s : RankState) (p : Nat) (d : Bool) : OnlySend j s (s.setSend j p d) where
  phase := rfl
  recv_done := rfl
  recv_progress := rfl
  recv_chunk := rfl
  bytes := rfl
  chunk_ne _ _ := rfl
  done_ne _ hj := Vec.set_get_ne _ _ hj
  progress_ne _ hj := Vec.set_get_ne _ _ hj

theorem nextSendChunk (j : Nat) (s : RankState) : OnlySend j s (s.nextSendChunk j) where
  phase := rfl
  recv_done := rfl
  recv_progress := rfl
  recv_chunk := rfl
  bytes := rfl
  chunk_ne _ hj := Vec.set_get_ne _ _ hj
  done_ne _ _ := rfl
  progress_ne _ _ := rfl

theorem part_ne (h : OnlySend j s s') {j' : Nat} (hj : j' ≠ j) : sendPart s' j' = sendPart s j' := by
  rw [sendPart, sendPart, h.done_ne j' hj, h.progress_ne j' hj]

theorem recv_part (h : OnlySend j s s') : recvPart s' = recvPart s := by
  funext i
  rw [recvPart, recvPart, h.recv_done, h.recv_progress]

end OnlySend

section Sends

variable {task : PlanTask} {T : Seat} {Data : Claim} {Post : Mem → Prop}
  {ok : Side → Link → Nat → UInt8 → Prop} {w : Way} {j gate : Nat} {s s' : RankState}
  {n n' : Side → Link → Nat}

/-- Sending on a connection keeps the place of the others. -/
theorem Place.sent (W : OnTree task T) (h : Place task T Data w s n) (hj : j < T.edges)
    (hw : w.sends T.kids j) (ho : OnlySend j s s')
    (hcur : Cursor (chunkBytes task) (chunkCount task) (s'.sendChunk j) (sendPart s' j)
      (s'.op.sendDone.get j) (n' .out (T.out j)))
    (hready : ∀ c, (c < s'.sendChunk j ∨ c = s'.sendChunk j ∧ s'.op.sendDone.get j = false) →
      Ready task T w s.recvChunk c)
    (hn : ∀ sd l, ¬ (sd = .out ∧ l = T.out j) → n' sd l = n sd l) :
    Place task T Data w s' n' := by
  have hinn : ∀ l, n' .inn l = n .inn l := fun l => hn _ _ (by simp)
  have hout : ∀ j' < T.edges, j' ≠ j → n' .out (T.out j') = n .out (T.out j') := by
    intro j' hj' hne
    exact hn _ _ fun e => hne (W.out_inj j' hj' j hj e.2)
  refine ⟨ho.phase.trans h.phase, fun i hi hw' => ?_, fun j' hj' hw' => ?_,
    fun j' hj' hw' c hc => ?_, fun i hi hw' => ?_, fun j' hj' hw' => ?_, ?_⟩
  · rw [ho.recv_chunk, ho.recv_part, ho.recv_done, hinn]
    exact h.recv i hi hw'
  · by_cases e : j' = j
    · rw [e]; exact hcur
    · rw [ho.chunk_ne j' e, ho.part_ne e, ho.done_ne j' e, hout j' hj' e]
      exact h.send j' hj' hw'
  · rw [ho.recv_chunk]
    by_cases e : j' = j
    · rw [e] at hc
      exact hready c hc
    · rw [ho.chunk_ne j' e, ho.done_ne j' e] at hc
      exact h.ready j' hj' hw' c hc
  · rw [ho.recv_done, hinn]
    exact h.recv_rest i hi hw'
  · have e : j' ≠ j := fun e => hw' (e ▸ hw)
    rw [ho.done_ne j' e, hout j' hj' e]
    exact h.send_rest j' hj' hw'
  · rw [ho.recv_chunk, ho.recv_part, ho.bytes]
    exact h.data

def openSend (s : RankState) (j : Nat) : RankState :=
  if s.op.sendDone.get j then s.setSend j 0 false else s

/-- The state after `m` bytes have gone out on a connection. -/
def giveOut (task : PlanTask) (j : Nat) (s : RankState) (m : Nat) : RankState :=
  (openSend s j).setSend j (sendPart s j + m) (sendPart s j + m == chunkBytes task (s.sendChunk j))

/-- The state after a chunk has gone out completely. -/
def finishOut (task : PlanTask) (j : Nat) (s : RankState) (m : Nat) : RankState :=
  (giveOut task j s m).nextSendChunk j

theorem openSend_only (s : RankState) (j : Nat) : OnlySend j s (openSend s j) := by
  unfold openSend
  split
  · exact .setSend ..
  · exact .refl ..

theorem openSend_progress (s : RankState) (j : Nat) :
    (openSend s j).op.sendProgress.get j = sendPart s j := by
  unfold openSend sendPart
  split
  · exact Vec.set_get_self ..
  · rfl

theorem giveOut_only (task : PlanTask) (j : Nat) (s : RankState) (m : Nat) :
    OnlySend j s (giveOut task j s m) :=
  (openSend_only s j).trans (.setSend ..)

theorem finishOut_only (task : PlanTask) (j : Nat) (s : RankState) (m : Nat) :
    OnlySend j s (finishOut task j s m) :=
  (giveOut_only task j s m).trans (.nextSendChunk ..)

theorem giveOut_sendChunk (task : PlanTask) (j : Nat) (s : RankState) (m : Nat) :
    (giveOut task j s m).sendChunk = s.sendChunk := by
  unfold giveOut openSend
  split <;> rfl

theorem finishOut_sendChunk (task : PlanTask) (j : Nat) (s : RankState) (m : Nat) :
    (finishOut task j s m).sendChunk j = s.sendChunk j + 1 := by
  have h := congrFun (giveOut_sendChunk task j s m) j
  rw [← h]
  exact Vec.set_get_self ..

theorem giveOut_done (s : RankState) (m : Nat) : (giveOut task j s m).op.sendDone.get j =
    (sendPart s j + m == chunkBytes task (s.sendChunk j)) :=
  Vec.set_get_self ..

theorem finishOut_done (s : RankState) {m : Nat}
    (hm : sendPart s j + m = chunkBytes task (s.sendChunk j)) :
    (finishOut task j s m).op.sendDone.get j = true := by
  change (giveOut task j s m).op.sendDone.get j = true
  rw [giveOut_done, beq_iff_eq]
  exact hm

theorem giveOut_part (s : RankState) {m : Nat}
    (hm : sendPart s j + m ≠ chunkBytes task (s.sendChunk j)) :
    sendPart (giveOut task j s m) j = sendPart s j + m := by
  rw [sendPart, giveOut_done, if_neg (by simpa using hm)]
  exact Vec.set_get_self ..

theorem finishOut_part (s : RankState) {m : Nat}
    (hm : sendPart s j + m = chunkBytes task (s.sendChunk j)) :
    sendPart (finishOut task j s m) j = 0 := by
  rw [sendPart, finishOut_done s hm, if_pos rfl]

/-- One round of the loop of `PushSends`. -/
theorem edgeSend_succ (task : PlanTask) (T : Seat) (gate : Nat) (l : Link) (j fuel : Nat)
    (s : RankState) : edgeSend task T.isLeader gate l j (fuel + 1) s =
      if s.sendChunk j < gate then
        .send l (s.read ((sendSource task T.isLeader (s.sendChunk j)).shift (sendPart s j))
          (chunkBytes task (s.sendChunk j) - sendPart s j)) fun
          | none => .fail .error
          | some m =>
            if sendPart s j + m = chunkBytes task (s.sendChunk j) then
              edgeSend task T.isLeader gate l j fuel (finishOut task j s m)
            else pure (giveOut task j s m)
      else pure s := by
  rw [edgeSend]
  split
  · dsimp only
    change (trySend l (openSend s j) _ _ ((openSend s j).op.sendProgress.get j)) >>= _ = _
    have hread : ∀ p k, (openSend s j).read p k = s.read p k := by
      intro p k
      rw [RankState.read, RankState.read, (openSend_only s j).bytes]
    rw [openSend_progress, trySend, Prog.send_bind, hread]
    congr 1
    funext r
    cases r with
    | none => rfl
    | some m =>
      simp only [Prog.ret_bind]
      by_cases hdone : sendPart s j + m = chunkBytes task (s.sendChunk j)
      · rw [if_pos hdone, if_neg (by simp [hdone])]
        rfl
      · rw [if_neg hdone, if_pos (by simp [hdone])]
        rfl
  · rfl

theorem sendPart_lt (W : OnTree task T) (h : Place task T Data w s n) (hj : j < T.edges)
    (hw : w.sends T.kids j) (hlt : s.sendChunk j < chunkCount task) :
    sendPart s j < chunkBytes task (s.sendChunk j) := by
  cases hd : s.op.sendDone.get j with
  | true =>
    rw [sendPart, hd, if_pos rfl]
    exact chunkBytes_pos W.chunk_pos hlt
  | false => exact ((h.send j hj hw).opened hd).2

theorem out_room (W : OnTree task T) (h : Place task T Data w s n) (hj : j < T.edges)
    (hw : w.sends T.kids j) (hlt : s.sendChunk j < chunkCount task) :
    n .out (T.out j) + (chunkBytes task (s.sendChunk j) - sendPart s j) ≤
      (treeTerms task T ok).upto .out (T.out j) := by
  have hpart := sendPart_lt W h hj hw hlt
  have hpos := (h.send j hj hw).pos
  have hoff := off_succ_le (chunkBytes task) hlt
  rw [off_chunkCount W.chunk_pos] at hoff
  simp only [treeTerms]
  rw [if_pos ⟨j, hj, rfl⟩]
  omega

/-- What sending on a connection leaves: every chunk up to the gate is out, or the rest has been
    offered. -/
structure Sent (T : Seat) (gate j : Nat) (s s' : RankState) (g' : Acct Link) : Prop where
  only : OnlySend j s s'
  le : s.sendChunk j ≤ s'.sendChunk j
  settled : s'.op.sendDone.get j = false ∨ gate ≤ s'.sendChunk j
  tried : s.sendChunk j < gate → g'.tried .out (T.out j)

/-- **The loop of `PushSends` on one connection** keeps the place. -/
theorem edgeSend_wp (W : OnTree task T) (H : Claimed task T ok Data Post) (hj : j < T.edges)
    (hw : w.sends T.kids j) (fuel : Nat) {s : RankState} {g : Acct Link}
    (h : Place task T Data w s g.count) (hgate : ∀ c, c < gate ↔ Ready task T w s.recvChunk c)
    (hf : gate < s.sendChunk j + fuel) :
    (edgeSend task T.isLeader gate (T.out j) j fuel s).wp (treeTerms task T ok)
      (fun s' g' => Place task T Data w s' g'.count ∧ Sent T gate j s s' g') g := by
  induction fuel generalizing s g with
  | zero =>
    -- no more chunks are out than may go out
    exact absurd ((hgate gate).mpr (h.ready j hj hw gate (Or.inl hf))) (Nat.lt_irrefl _)
  | succ fuel ih =>
    rw [edgeSend_succ]
    by_cases hlt : s.sendChunk j < gate
    · rw [if_pos hlt]
      have hready := (hgate _).mp hlt
      have hpart := sendPart_lt W h hj hw hready.lt
      have hpos := (h.send j hj hw).pos
      have hlen := s.read_length ((sendSource task T.isLeader (s.sendChunk j)).shift (sendPart s j))
        (chunkBytes task (s.sendChunk j) - sendPart s j)
      rw [Prog.wp, hlen]
      refine ⟨⟨j, hj, rfl⟩, out_room W h hj hw hready.lt, fun x hx => ?_, fun m hm => ?_⟩
      · rw [hlen] at hx
        rw [RankState.read_getElem, Loc.shift_shift, hpos, Nat.add_assoc]
        exact H.sends w j hj hw _ _ _ _ h.data hready _ (by omega)
      have hself := Acct.move_count_self g .out (T.out j)
        (chunkBytes task (s.sendChunk j) - sendPart s j) m
      have hn : ∀ sd l, ¬ (sd = .out ∧ l = T.out j) → (g.move .out (T.out j)
          (chunkBytes task (s.sendChunk j) - sendPart s j) m).count sd l = g.count sd l :=
        fun sd l hne => Acct.move_count_ne g _ _ hne
      have htried : (g.move .out (T.out j) (chunkBytes task (s.sendChunk j) - sendPart s j)
          m).tried .out (T.out j) := Acct.move_tried_self _ _ _ _ (by omega)
      have hbelow : ∀ c, c < s.sendChunk j → Ready task T w s.recvChunk c :=
        fun c hc => h.ready j hj hw c (Or.inl hc)
      dsimp only
      by_cases hdone : sendPart s j + m = chunkBytes task (s.sendChunk j)
      · rw [if_pos hdone]
        have hchunk := finishOut_sendChunk task j s m
        have honly := finishOut_only task j s m
        have hsucc := off_succ (chunkBytes task) (s.sendChunk j)
        have hdone' := finishOut_done s hdone
        have hplace : Place task T Data w (finishOut task j s m) (g.move .out (T.out j)
            (chunkBytes task (s.sendChunk j) - sendPart s j) m).count := by
          refine h.sent W hj hw honly ?_ ?_ hn
          · rw [hchunk, finishOut_part s hdone, hself]
            exact ⟨hready.lt, fun hd => absurd hd (by rw [hdone']; decide), by omega⟩
          · rintro c (hc | ⟨-, hc⟩)
            · rw [hchunk] at hc
              rcases Nat.lt_succ_iff_lt_or_eq.mp hc with hc | rfl
              · exact hbelow c hc
              · exact hready
            · rw [hdone'] at hc
              exact absurd hc (by decide)
        refine Prog.wp_mono ?_ (Prog.wp_tried htried (ih hplace ?_ ?_))
        · rintro s' g' ⟨⟨hp, hr⟩, hk⟩
          refine ⟨hp, honly.trans hr.only, ?_, hr.settled, fun _ => hk⟩
          have hle := hr.le
          omega
        · rw [honly.recv_chunk]
          exact hgate
        · omega
      · rw [if_neg hdone]
        have hchunk := giveOut_sendChunk task j s m
        have hpart' := giveOut_part s hdone
        have honly := giveOut_only task j s m
        refine ⟨h.sent W hj hw honly ?_ ?_ hn, honly, ?_, Or.inl ?_, fun _ => htried⟩
        · rw [hchunk, hpart', hself]
          exact ⟨Nat.le_of_lt hready.lt, fun _ => ⟨hready.lt, by omega⟩, by omega⟩
        · rintro c (hc | ⟨hc, -⟩)
          · rw [hchunk] at hc
            exact hbelow c hc
          · rw [hchunk] at hc
            rw [hc]
            exact hready
        · rw [hchunk]
        · rw [giveOut_done]
          simpa using hdone
    · rw [if_neg hlt]
      exact ⟨h, .refl j s, Nat.le_refl _, Or.inr (by omega), fun hc => absurd hc hlt⟩

end Sends

end OriginCCL.TopologyTree
