/-
  File:      OriginCCL/Topology/TreeRanges.lean
  Subject:   A TREE TASK STAYS INSIDE ITS BUFFERS.

  * `RoleTable` -- the role tables of the code: the inputs first, then at most one parent.
  * `Moves` -- the connections that move bytes at given chunks: on the way down a leader sends only chunks
    its parent has passed on.
  * `Kept` -- the log of a task that has stayed inside, with the ranges it is moving.
  * `init_ranges`, `step_ranges` -- **every call keeps it**.
-/
import OriginCCL.Topology.Ranges
import OriginCCL.Topology.TreeIdle
import OriginCCL.Topology.TreeShape

namespace OriginCCL.TopologyTree

open Net

/-! ## 1. Ranges of chunks -/

/-- **The role tables of the code**: a leader has its inputs first and at most one parent, last. -/
def RoleTable (isLeader : Bool) (roles : List Int) : Prop :=
  isLeader = true → ∃ kids, ChildrenFirst kids roles

theorem roleTable_treeRoles (comm : Communicator) (tree : Tree) :
    RoleTable (comm.localRank = 0) (treeRoles comm tree) := by
  intro hl
  rw [treeRoles, if_pos (of_decide_eq_true hl)]
  refine ⟨_, childrenFirst_append (fun x hx => ?_) ?_⟩
  · rcases List.mem_append.mp hx with hx | hx
    · rw [List.eq_of_mem_replicate hx]
      decide
    · rw [List.eq_of_mem_replicate hx]
      decide
  · split
    · exact Or.inr rfl
    · exact Or.inl rfl

/-- The bytes of `temp_buffer` a leader asks for: a chunk for every input. -/
def scratchBytes (task : PlanTask) (roles : List Int) (isLeader : Bool) : Nat :=
  if task.elemCount = 0 then 0
  else if isLeader then roles.countP isInputRole * task.chunkSize * typeSize task else 0

/-- **The connections that move bytes** in a phase, at these chunks. -/
def Moves (roles : List Int) (isLeader : Bool) (phase : Int) (chunk : Side → Nat → Nat) :
    Side → Nat → Prop
  | .inn, i => i < roles.length ∧ recvEligible isLeader (roles.getD i 0) phase = true
  | .out, j => j < roles.length ∧ sendEligible isLeader (roles.getD j 0) phase = true ∧
      (isLeader = true → phase ≠ kPhaseUp →
        ∀ k < roles.length, isUpRole (roles.getD k 0) = true → chunk .out j < chunk .inn k)

section Chunks

variable {task : PlanTask} {roles : List Int} {isLeader : Bool}

theorem chunk_range (task : PlanTask) (buf chunk : Nat) :
    ((user buf).shift (chunkOffset task chunk), chunkBytes task chunk) =
      (user (buf + ((chunk : Int)).toNat * task.chunkSize * getDataTypeSize task.dtype),
        TopologyRing.chunkElemCount task.elemCount task.chunkSize chunk * getDataTypeSize task.dtype) := rfl

theorem writable_chunk (hf : task.func = .allReduce) {scratch : Nat} (chunk : Nat) :
    Writable task scratch ((user task.recvBuf).shift (chunkOffset task chunk), chunkBytes task chunk) := by
  rw [chunk_range]
  refine writable_recvBuf ?_ (chunk_within ..)
  unfold recvBlocks
  rw [hf]
  exact Nat.zero_lt_one

theorem readable_chunk (hf : task.func = .allReduce) {scratch : Nat} (chunk : Nat) :
    Readable task scratch ((user task.sendBuf).shift (chunkOffset task chunk), chunkBytes task chunk) := by
  rw [chunk_range]
  refine readable_sendBuf ?_ (chunk_within ..)
  unfold sendBlocks
  rw [hf]
  exact Nat.zero_lt_one

theorem kids_le_countP {kids : Nat} (h : ChildrenFirst kids roles) : kids ≤ roles.countP isInputRole := by
  have hsplit : roles.countP isInputRole =
      (roles.take kids).countP isInputRole + (roles.drop kids).countP isInputRole := by
    rw [← List.countP_append, List.take_append_drop]
  have hall : (roles.take kids).countP isInputRole = (roles.take kids).length := by
    rw [List.countP_eq_length]
    intro x hx
    obtain ⟨i, hi, rfl⟩ := List.getElem_of_mem hx
    rw [List.getElem_take]
    have hk := h.kids_le
    rw [List.length_take] at hi
    have hin := (h.child i (by omega)).1
    rw [List.getD_eq_getElem _ _ (by omega)] at hin
    exact hin
  have hk := h.kids_le
  rw [hsplit, hall, List.length_take]
  omega

/-- The slot of an input in `temp_buffer`. -/
theorem writable_slot (hne : task.elemCount ≠ 0) (hroles : RoleTable true roles) {i chunk : Nat}
    (hi : i < roles.length) (hin : isInputRole (roles.getD i 0) = true) :
    Writable task (scratchBytes task roles true)
      (temp (i * task.chunkSize * typeSize task), chunkBytes task chunk) := by
  obtain ⟨kids, hk⟩ := hroles rfl
  have hlt : i < kids := by
    rw [(hk.input hi).1, decide_eq_true_eq] at hin
    exact hin
  have hle := kids_le_countP hk
  refine writable_temp ?_
  rw [scratchBytes, if_neg hne, if_pos rfl]
  have hbytes := chunkBytes_le task chunk
  have hmul : (i + 1) * task.chunkSize * typeSize task ≤
      roles.countP isInputRole * task.chunkSize * typeSize task :=
    Nat.mul_le_mul_right _ (Nat.mul_le_mul_right _ (by omega))
  rw [Nat.add_mul, Nat.one_mul, Nat.add_mul] at hmul
  omega

/-- **What a connection moves lies inside.** -/
theorem inside_chunk (hf : task.func = .allReduce) (hne : task.elemCount ≠ 0) (hroles : RoleTable isLeader roles)
    {phase : Int} {chunk : Side → Nat → Nat} {sd : Side} {i : Nat} (h : Moves roles isLeader phase chunk sd i)
    (c : Nat) (done : Bool) :
    (Effect.transfer sd i (bufferAt task roles isLeader c sd i).1 (bufferAt task roles isLeader c sd i).2
      done).Inside task (scratchBytes task roles isLeader) := by
  cases sd with
  | out =>
    refine inside_send ?_
    change Readable task _ (sendSource task isLeader c, chunkBytes task c)
    unfold sendSource
    split
    · exact (writable_chunk hf c).readable
    · exact readable_chunk hf c
  | inn =>
    refine inside_transfer ?_
    change Writable task _ (recvTarget task isLeader roles i c, chunkBytes task c)
    unfold recvTarget
    split
    · rename_i hin
      rw [Bool.and_eq_true] at hin
      obtain ⟨rfl, hin⟩ := hin
      exact writable_slot hne hroles h.1 hin
    · exact writable_chunk hf c

/-- **What is sent and what is received at the same time is apart.** -/
theorem apart_chunks (hroles : RoleTable isLeader roles) {phase : Int} {chunk : Side → Nat → Nat} {i j : Nat}
    (hi : Moves roles isLeader phase chunk .inn i) (hj : Moves roles isLeader phase chunk .out j) :
    Apart (bufferAt task roles isLeader (chunk .out j) .out j).1
      (bufferAt task roles isLeader (chunk .out j) .out j).2
      (bufferAt task roles isLeader (chunk .inn i) .inn i).1
      (bufferAt task roles isLeader (chunk .inn i) .inn i).2 := by
  cases isLeader with
  | true =>
    change Apart ((user task.recvBuf).shift (chunkOffset task (chunk .out j))) _
      (recvTarget task true roles i (chunk .inn i)) _
    unfold recvTarget
    split
    · exact Or.inl (show Space.user ≠ Space.temp by decide)
    · rename_i hin
      have hno : ¬ isInputRole (roles.getD i 0) = true := by simpa using hin
      obtain ⟨kids, hk⟩ := hroles rfl
      have hup : isUpRole (roles.getD i 0) = true := by
        rw [(hk.input hi.1).1, decide_eq_true_eq] at hno
        rw [(hk.input hi.1).2, decide_eq_true_eq]
        have := hk.le_kids
        have := hi.1
        omega
      have hphase : phase ≠ kPhaseUp := by
        intro hp
        have he := hi.2
        rw [recvEligible, if_pos rfl, if_pos hp] at he
        exact hno he
      have hlt := hj.2.2 rfl hphase i hi.1 hup
      exact chunk_apart _ (Nat.ne_of_lt hlt)
  | false =>
    have he := hi.2
    have hs := hj.2.1
    rw [recvEligible, if_neg (by decide)] at he
    rw [sendEligible, if_neg (by decide)] at hs
    rw [beq_iff_eq] at he hs
    rw [he] at hs
    exact absurd hs (by decide)

end Chunks

/-! ## 2. Logs of chunks -/

/-- What the calls rely on: an AllReduce with elements, and the code's role tables. -/
structure Served (task : PlanTask) (roles : List Int) (isLeader : Bool) : Prop where
  func : task.func = .allReduce
  count : task.elemCount ≠ 0
  roles : RoleTable isLeader roles

/-- **The log of a task that has stayed inside**, with the ranges it is moving at these chunks. -/
structure Kept (task : PlanTask) (roles : List Int) (isLeader : Bool) (fit : Int → Int → Prop)
    (phase : Int) (chunk : Side → Nat → Nat) (log : List Effect) : Prop where
  clean : Clean task fit (scratchBytes task roles isLeader) log
  opens : Opens (fun sd i => bufferAt task roles isLeader (chunk sd i) sd i)
    (Moves roles isLeader phase chunk) log

section Logs

variable {task : PlanTask} {roles : List Int} {isLeader : Bool} {fit : Int → Int → Prop} {phase : Int}
  {chunk : Side → Nat → Nat} {log : List Effect}

/-- Entries that concern no flag. -/
theorem Kept.append {as : List Effect} (h : Kept task roles isLeader fit phase chunk log)
    (has : ∀ a ∈ as, Harmless task fit (scratchBytes task roles isLeader) a)
    (hno : ∀ a ∈ as, ∀ sd i, a.concerns sd i = false) :
    Kept task roles isLeader fit phase chunk (log ++ as) :=
  ⟨h.clean.append has, opens_of_latest h.opens fun sd i => latest_append as fun a ha => hno a ha sd i⟩

/-- A connection is cleared. -/
theorem Kept.clear (h : Kept task roles isLeader fit phase chunk log) (sd : Side) (i : Nat) :
    Kept task roles isLeader fit phase chunk (log ++ [.clear sd i]) := by
  refine ⟨h.clean.snoc ⟨inside_of_none rfl rfl, trivial, nofun⟩, fun sd' j p n hx => ?_⟩
  by_cases hsame : sd = sd' ∧ i = j
  · rw [latest_snoc (show Effect.concerns sd' j (.clear sd i) = true from decide_eq_true hsame)] at hx
    cases hx
  · rw [latest_snoc_ne (show Effect.concerns sd' j (.clear sd i) = false from decide_eq_false hsame)] at hx
    exact h.opens sd' j p n hx

/-- **A chunk is tried.** -/
theorem Kept.tried (H : Served task roles isLeader) (h : Kept task roles isLeader fit phase chunk log)
    {sd : Side} {i : Nat} (hm : Moves roles isLeader phase chunk sd i) (done : Bool) :
    Kept task roles isLeader fit phase chunk (log ++ [.transfer sd i
      (bufferAt task roles isLeader (chunk sd i) sd i).1
        (bufferAt task roles isLeader (chunk sd i) sd i).2 done]) := by
  have hapart : ∀ sd' j, sd' ≠ sd → Moves roles isLeader phase chunk sd' j →
      Apart (bufferAt task roles isLeader (chunk sd i) sd i).1
        (bufferAt task roles isLeader (chunk sd i) sd i).2
        (bufferAt task roles isLeader (chunk sd' j) sd' j).1
        (bufferAt task roles isLeader (chunk sd' j) sd' j).2 := by
    intro sd' j hne hj
    cases sd with
    | out => cases sd' with
      | out => exact absurd rfl hne
      | inn => exact apart_chunks H.roles hj hm
    | inn => cases sd' with
      | out => exact (apart_chunks H.roles hm hj).symm
      | inn => exact absurd rfl hne
  obtain ⟨hsep, hopens⟩ := tried_log (b := fun sd i => bufferAt task roles isLeader (chunk sd i) sd i)
    h.clean.separated h.opens hm hapart done
  refine ⟨⟨fun a ha => ?_, hsep⟩, hopens⟩
  rcases List.mem_append.mp ha with ha | ha
  · exact h.clean.inside a ha
  · rw [List.mem_singleton.mp ha]
    exact ⟨inside_chunk H.func H.count H.roles hm _ done, trivial⟩

/-- **A connection that is done goes on to its next chunk.** -/
theorem Kept.next (h : Kept task roles isLeader fit phase chunk log) {sd : Side} {i : Nat}
    (hdone : ∀ p n, latest sd i log ≠ some (.transfer sd i p n false))
    {chunk' : Side → Nat → Nat} (hsame : ∀ sd' j, ¬ (sd' = sd ∧ j = i) → chunk' sd' j = chunk sd' j)
    (hle : ∀ j, chunk .inn j ≤ chunk' .inn j) : Kept task roles isLeader fit phase chunk' log := by
  refine ⟨h.clean, fun sd' j p n hx => ?_⟩
  have hne : ¬ (sd' = sd ∧ j = i) := by
    rintro ⟨rfl, rfl⟩
    exact hdone p n hx
  obtain ⟨hb, hm⟩ := h.opens sd' j p n hx
  dsimp only
  rw [hsame sd' j hne]
  refine ⟨hb, ?_⟩
  cases sd' with
  | inn => exact hm
  | out =>
    refine ⟨hm.1, hm.2.1, fun hl hp k hk hup => ?_⟩
    rw [hsame .out j hne]
    exact Nat.lt_of_lt_of_le (hm.2.2 hl hp k hk hup) (hle k)

end Logs

/-! ## 3. The loops -/

/-- **A task that has stayed inside.** -/
def Inbounds (task : PlanTask) (roles : List Int) (isLeader : Bool) (fit : Int → Int → Prop) (t : Traced) : Prop :=
  Kept task roles isLeader fit t.1.op.phase (chunkAt t.1) t.2 ∧
    t.1.op.tempBuffer.size = scratchBytes task roles isLeader

section Loops

variable {task : PlanTask} {roles : List Int} {isLeader : Bool} {fit : Int → Int → Prop} {t t' : Traced}

theorem chunkAt_of_control {s s' : RankState} (h : s'.control = s.control) : chunkAt s' = chunkAt s := by
  funext sd i
  cases sd with
  | out => exact congrArg (fun c => c.algo.tree.sendChunk.get i) h
  | inn => exact congrArg (fun c => c.algo.tree.recvChunk.get i) h

theorem phase_of_control {s s' : RankState} (h : s'.control = s.control) : s'.op.phase = s.op.phase :=
  congrArg (fun c => c.phase) h

theorem temp_of_control {s s' : RankState} (h : s'.control = s.control) :
    s'.op.tempBuffer.size = s.op.tempBuffer.size :=
  congrArg (fun c => c.tempBuffer.size) h

/-- A change of bytes, with entries that are harmless. -/
theorem Inbounds.bytes (h : Inbounds task roles isLeader fit t) {s : RankState} (hs : s.control = t.1.control)
    {as : List Effect} (has : ∀ a ∈ as, Harmless task fit (scratchBytes task roles isLeader) a)
    (hno : ∀ a ∈ as, ∀ sd i, a.concerns sd i = false) : Inbounds task roles isLeader fit (s, t.2 ++ as) := by
  refine ⟨?_, (temp_of_control hs).trans h.2⟩
  rw [chunkAt_of_control hs, phase_of_control hs]
  exact h.1.append has hno

theorem inbounds_clearRecv (h : Inbounds task roles isLeader fit t) (i : Nat) :
    Inbounds task roles isLeader fit (Traced.clearRecv i t) ∧
      (Traced.clearRecv i t).1.op.phase = t.1.op.phase := by
  unfold Traced.clearRecv
  split
  · exact ⟨⟨h.1.clear .inn i, h.2⟩, rfl⟩
  · exact ⟨h, rfl⟩

theorem inbounds_clearSend (h : Inbounds task roles isLeader fit t) (j : Nat) :
    Inbounds task roles isLeader fit (Traced.clearSend j t) ∧
      (Traced.clearSend j t).1.op.phase = t.1.op.phase := by
  unfold Traced.clearSend
  split
  · exact ⟨⟨h.1.clear .out j, h.2⟩, rfl⟩
  · exact ⟨h, rfl⟩

/-- The reduction of a chunk that has come in. -/
theorem inbounds_takeChunk (H : Served task roles isLeader) (h : Inbounds task roles isLeader fit t) {i : Nat}
    (hi : i < roles.length) (chunk : Nat) :
    Inbounds task roles isLeader fit (Traced.takeChunk task roles isLeader i chunk t) := by
  unfold Traced.takeChunk
  split
  · rename_i hin
    rw [Bool.and_eq_true] at hin
    obtain ⟨rfl, hin⟩ := hin
    refine h.bytes (Effect.control_runAll task _ t.1) (fun a ha => ?_) fun a ha sd j => ?_
    · rw [List.mem_singleton.mp ha]
      exact ⟨inside_performReduce (writable_slot H.count H.roles hi hin).readable (writable_chunk H.func chunk),
        trivial, nofun⟩
    · rw [List.mem_singleton.mp ha]
      rfl
  · exact h

/-- The next chunk of a connection whose latest transfer was done. -/
theorem inbounds_nextRecvChunk (h : Inbounds task roles isLeader fit t) {i : Nat}
    (hdone : ∀ p n, latest .inn i t.2 ≠ some (.transfer .inn i p n false)) :
    Inbounds task roles isLeader fit (t.1.nextRecvChunk i, t.2) := by
  have hself : chunkAt (t.1.nextRecvChunk i) .inn i = chunkAt t.1 .inn i + 1 := Vec.set_get_self ..
  have hsame : ∀ sd j, ¬ (sd = .inn ∧ j = i) → chunkAt (t.1.nextRecvChunk i) sd j = chunkAt t.1 sd j :=
    fun sd j hne => ((only_nextRecvChunk (t := t) i).same sd j hne).2.1
  refine ⟨h.1.next hdone hsame fun j => ?_, h.2⟩
  by_cases hj : j = i
  · rw [hj, hself]
    exact Nat.le_succ _
  · rw [hsame .inn j fun hx => hj hx.2]

theorem inbounds_nextSendChunk (h : Inbounds task roles isLeader fit t) {j : Nat}
    (hdone : ∀ p n, latest .out j t.2 ≠ some (.transfer .out j p n false)) :
    Inbounds task roles isLeader fit (t.1.nextSendChunk j, t.2) := by
  have hsame : ∀ sd i, ¬ (sd = .out ∧ i = j) → chunkAt (t.1.nextSendChunk j) sd i = chunkAt t.1 sd i :=
    fun sd i hne => ((only_nextSendChunk (t := t) j).same sd i hne).2.1
  refine ⟨h.1.next hdone hsame fun i => ?_, h.2⟩
  rw [hsame .inn i fun hx => by cases hx.1]

/-- The latest entry about a connection right after a transfer on it that was done. -/
theorem not_open_of_done {sd : Side} {i : Nat} {log : List Effect} {q : Loc} {m : Nat} (p : Loc) (n : Nat) :
    latest sd i (log ++ [.transfer sd i q m true]) ≠ some (.transfer sd i p n false) := by
  have hc : (Effect.transfer sd i q m true).concerns sd i = true := by simp [Effect.concerns]
  rw [latest_snoc hc]
  simp

/-- **The `while` loop of `PushRecvs` stays inside.** -/
theorem edgeRecv_ranges (H : Served task roles isLeader) (l : Link) {i : Nat} (hi : i < roles.length)
    (fuel : Nat) (t : Traced) (he : recvEligible isLeader (roles.getD i 0) t.1.op.phase = true)
    (h : Inbounds task roles isLeader fit t) :
    (Traced.edgeRecv task roles isLeader l i fuel t).Ensures fun t' =>
      Inbounds task roles isLeader fit t' ∧ t'.1.op.phase = t.1.op.phase := by
  induction fuel generalizing t with
  | zero => trivial
  | succ fuel ih =>
    rw [Traced.edgeRecv]
    split
    · dsimp only
      rw [Prog.ensures_bind]
      have hat := chunkAt_clearRecv i t
      obtain ⟨h₁, hphase⟩ := inbounds_clearRecv h i
      generalize Traced.clearRecv i t = t₁ at h₁ hat hphase ⊢
      refine (tryRecv_always fun s progress done hs => ?_).ensures
      have hs₁ : (s.setRecv i progress done).op.phase = t.1.op.phase := (phase_of_control hs).trans hphase
      have hm : Moves roles isLeader t₁.1.op.phase (chunkAt t₁.1) .inn i := ⟨hi, by rw [hphase]; exact he⟩
      have h₂ : Inbounds task roles isLeader fit (s.setRecv i progress done, t₁.2 ++ [.transfer .inn i
          (recvTarget task isLeader roles i (t.1.recvChunk i)) (chunkBytes task (t.1.recvChunk i)) done]) := by
        have hlog := h₁.1.tried H hm done
        refine ⟨?_, (temp_of_control hs).trans h₁.2⟩
        have hchunk : chunkAt (s.setRecv i progress done) = chunkAt t₁.1 := by
          rw [← chunkAt_of_control hs]
          funext sd j
          cases sd <;> rfl
        dsimp only
        rw [hchunk, hs₁, ← hphase, ← hat]
        exact hlog
      cases done with
      | false => exact ⟨h₂, hs₁⟩
      | true =>
        dsimp only
        generalize ht₂ : ((s.setRecv i progress true, t₁.2 ++ [.transfer .inn i (recvTarget task isLeader
          roles i (t.1.recvChunk i)) (chunkBytes task (t.1.recvChunk i)) true]) : Traced) = t₂ at h₂ ⊢
        obtain ⟨t₃, ht₃⟩ : ∃ t₃, t₃ = Traced.takeChunk task roles isLeader i (t.1.recvChunk i) t₂ := ⟨_, rfl⟩
        have h₃ : Inbounds task roles isLeader fit t₃ := by
          rw [ht₃]
          exact inbounds_takeChunk H h₂ hi _
        have hphase₃ : t₃.1.op.phase = t.1.op.phase := by
          rw [ht₃]
          refine (phase_of_control (control_takeChunk ..)).trans ?_
          subst ht₂
          exact hs₁
        have hdone : ∀ p n, latest .inn i t₃.2 ≠ some (.transfer .inn i p n false) := by
          intro p n
          have hlast : latest .inn i t₃.2 = latest .inn i t₂.2 := by
            rw [ht₃]
            exact (show Only (fun _ _ => False) t₂ _ from only_takeChunk i _ t₂).same .inn i id |>.2.2
          rw [hlast]
          subst ht₂
          exact not_open_of_done p n
        rw [← ht₃]
        refine Prog.ensures_mono (fun t' h' => ⟨h'.1, h'.2.trans hphase₃⟩)
          (ih _ ?_ (inbounds_nextRecvChunk h₃ hdone))
        change recvEligible isLeader (roles.getD i 0) t₃.1.op.phase = true
        rw [hphase₃]
        exact he
    · exact ⟨h, rfl⟩

/-- What a pass of sends keeps. -/
def Sending (task : PlanTask) (roles : List Int) (isLeader : Bool) (fit : Int → Int → Prop)
    (t t' : Traced) : Prop :=
  Inbounds task roles isLeader fit t' ∧ t'.1.op.phase = t.1.op.phase ∧
    ∀ k, t'.1.recvChunk k = t.1.recvChunk k

/-- The gate is open for chunks that every parent has passed on. -/
def Gated (roles : List Int) (isLeader : Bool) (gate : Nat) (s : RankState) : Prop :=
  isLeader = true → s.op.phase ≠ kPhaseUp →
    ∀ k < roles.length, isUpRole (roles.getD k 0) = true → gate ≤ s.recvChunk k

theorem recvChunk_clearSend (j : Nat) (t : Traced) (k : Nat) :
    (Traced.clearSend j t).1.recvChunk k = t.1.recvChunk k := by
  unfold Traced.clearSend
  split <;> rfl

/-- **So does the loop of `PushSends`**, below the gate. -/
theorem edgeSend_ranges (H : Served task roles isLeader) {gate : Nat} (l : Link) {j : Nat}
    (hj : j < roles.length) (fuel : Nat) (t : Traced)
    (he : sendEligible isLeader (roles.getD j 0) t.1.op.phase = true)
    (hgate : Gated roles isLeader gate t.1) (h : Inbounds task roles isLeader fit t) :
    (Traced.edgeSend task isLeader gate l j fuel t).Ensures (Sending task roles isLeader fit t) := by
  induction fuel generalizing t with
  | zero => trivial
  | succ fuel ih =>
    rw [Traced.edgeSend]
    split
    · rename_i hmore
      dsimp only
      rw [Prog.ensures_bind]
      have hat := chunkAt_clearSend j t
      have hrecv := recvChunk_clearSend j t
      obtain ⟨h₁, hphase⟩ := inbounds_clearSend h j
      generalize Traced.clearSend j t = t₁ at h₁ hat hrecv hphase ⊢
      refine (trySend_always fun progress done => ?_).ensures
      have hm : Moves roles isLeader t₁.1.op.phase (chunkAt t₁.1) .out j := by
        refine ⟨hj, by rw [hphase]; exact he, fun hl hp k hk hup => ?_⟩
        rw [hphase] at hp
        have hle := hgate hl hp k hk hup
        change t₁.1.sendChunk j < t₁.1.recvChunk k
        rw [hat, hrecv k]
        omega
      have h₂ : Inbounds task roles isLeader fit (t₁.1.setSend j progress done, t₁.2 ++ [.transfer .out j
          (sendSource task isLeader (t.1.sendChunk j)) (chunkBytes task (t.1.sendChunk j)) done]) := by
        have hlog := h₁.1.tried H hm done
        refine ⟨?_, h₁.2⟩
        have hchunk : chunkAt (t₁.1.setSend j progress done) = chunkAt t₁.1 := by
          funext sd k
          cases sd <;> rfl
        dsimp only
        rw [hchunk, ← hat]
        exact hlog
      cases done with
      | false => exact ⟨h₂, hphase, hrecv⟩
      | true =>
        have hnext := inbounds_nextSendChunk h₂ (j := j) (not_open_of_done)
        refine Prog.ensures_mono (fun t' h' => ⟨h'.1, h'.2.1.trans hphase, fun k => ?_⟩)
          (ih _ ?_ ?_ hnext)
        · exact (h'.2.2 k).trans (hrecv k)
        · change sendEligible isLeader (roles.getD j 0) t₁.1.op.phase = true
          rw [hphase]
          exact he
        · intro hl hp k hk hup
          have hp : t₁.1.op.phase ≠ kPhaseUp := hp
          rw [hphase] at hp
          change gate ≤ t₁.1.recvChunk k
          rw [hrecv k]
          exact hgate hl hp k hk hup
    · exact ⟨h, rfl, fun _ => rfl⟩

/-! ## 4. The passes and the calls -/

theorem pushRecvsFrom_ranges (H : Served task roles isLeader) (ls : List (Link × Nat))
    (hls : ∀ x ∈ ls, x.2 < roles.length) (t : Traced) (h : Inbounds task roles isLeader fit t) :
    (Traced.pushRecvsFrom task roles isLeader ls t).Ensures fun t' =>
      Inbounds task roles isLeader fit t' ∧ t'.1.op.phase = t.1.op.phase := by
  induction ls generalizing t with
  | nil => exact ⟨h, rfl⟩
  | cons x rest ih =>
    obtain ⟨l, i⟩ := x
    have hrest : ∀ x ∈ rest, x.2 < roles.length := fun x hx => hls x (List.mem_cons_of_mem _ hx)
    rw [Traced.pushRecvsFrom]
    split
    · rename_i he
      rw [Prog.ensures_bind]
      refine Prog.ensures_mono (fun t₁ h₁ => ?_)
        (edgeRecv_ranges H l (hls (l, i) List.mem_cons_self) _ t he h)
      exact Prog.ensures_mono (fun t' h' => ⟨h'.1, h'.2.trans h₁.2⟩) (ih hrest t₁ h₁.1)
    · exact ih hrest t h

theorem pushSendsFrom_ranges (H : Served task roles isLeader) {gate : Nat} (ls : List (Link × Nat))
    (hls : ∀ x ∈ ls, x.2 < roles.length) (t : Traced) (hgate : Gated roles isLeader gate t.1)
    (h : Inbounds task roles isLeader fit t) :
    (Traced.pushSendsFrom task roles isLeader gate ls t).Ensures (Sending task roles isLeader fit t) := by
  induction ls generalizing t with
  | nil => exact ⟨h, rfl, fun _ => rfl⟩
  | cons x rest ih =>
    obtain ⟨l, j⟩ := x
    have hrest : ∀ x ∈ rest, x.2 < roles.length := fun x hx => hls x (List.mem_cons_of_mem _ hx)
    rw [Traced.pushSendsFrom]
    split
    · rename_i he
      rw [Prog.ensures_bind]
      refine Prog.ensures_mono (fun t₁ h₁ => ?_)
        (edgeSend_ranges H l (hls (l, j) List.mem_cons_self) _ t he hgate h)
      have hgate₁ : Gated roles isLeader gate t₁.1 := by
        intro hl hp k hk hup
        rw [h₁.2.1] at hp
        rw [h₁.2.2 k]
        exact hgate hl hp k hk hup
      exact Prog.ensures_mono (fun t' h' => ⟨h'.1, h'.2.1.trans h₁.2.1,
        fun k => (h'.2.2 k).trans (h₁.2.2 k)⟩) (ih hrest t₁ hgate₁ h₁.1)
    · exact ih hrest t hgate h

/-- **The gate of `PushSends`** is open for no more chunks than the parent has passed on. -/
theorem gated_sendGate (hroles : RoleTable isLeader roles) (s : RankState) :
    Gated roles isLeader (sendGate task roles isLeader s) s := by
  intro hl hp k hk hup
  subst hl
  obtain ⟨kids, hkids⟩ := hroles rfl
  have hkk : k = kids := by
    rw [(hkids.input hk).2, decide_eq_true_eq] at hup
    exact hup
  subst hkk
  rw [sendGate, if_pos rfl, if_neg hp]
  dsimp only
  rw [hkids.parentEdge, if_pos hk, if_neg (by omega), Int.toNat_natCast]

theorem mem_zipIdx_lt {ls : List Link} {n : Nat} (h : ls.length = n) : ∀ x ∈ ls.zipIdx, x.2 < n := by
  intro x hx
  obtain ⟨l, i⟩ := x
  have := (List.mem_zipIdx hx).2.1
  dsimp only
  omega

/-- **The two passes stay inside.** -/
theorem passes_ranges (H : Served task roles isLeader) (hcon : Connected task roles)
    (h : Inbounds task roles isLeader fit t) {f : Traced → Call Traced} {Q : Traced → Prop}
    (hf : ∀ t', Inbounds task roles isLeader fit t' → t'.1.op.phase = t.1.op.phase → (f t').Ensures Q) :
    (Traced.pushRecvs task roles isLeader t >>= fun t => Traced.pushSends task roles isLeader t >>= f).Ensures
      Q := by
  rw [Prog.ensures_bind]
  refine Prog.ensures_mono (fun t₁ h₁ => ?_)
    (pushRecvsFrom_ranges H task.recvTransports.zipIdx (mem_zipIdx_lt hcon.2) t h)
  rw [Prog.ensures_bind]
  refine Prog.ensures_mono (fun t₂ h₂ => hf t₂ h₂.1 (h₂.2.1.trans h₁.2))
    (pushSendsFrom_ranges H task.sendTransports.zipIdx (mem_zipIdx_lt hcon.1) t₁
      (gated_sendGate H.roles t₁.1) h₁.1)

/-! ## 5. Starts and later calls -/

/-- **A task between two calls that has stayed inside.** -/
def Safe (task : PlanTask) (roles : List Int) (isLeader : Bool) (fit : Int → Int → Prop) (t : Traced) : Prop :=
  Clean task fit (scratchBytes task roles isLeader) t.2 ∧
    t.1.op.tempBuffer.size = scratchBytes task roles isLeader ∧
    (t.1.op.phase = kPhaseDone ∨ (task.elemCount ≠ 0 ∧ Inbounds task roles isLeader fit t))

theorem Inbounds.safe (hne : task.elemCount ≠ 0) (h : Inbounds task roles isLeader fit t) :
    Safe task roles isLeader fit t := ⟨h.1.clean, h.2, Or.inr ⟨hne, h⟩⟩

theorem harmless_recvBuf_average (hf : task.func = .allReduce) {scratch : Nat} :
    Harmless task fit scratch (.applyAverage (user task.recvBuf) task.elemCount) := by
  refine ⟨inside_applyAverage (writable_recvBuf ?_ (Within.refl _)), trivial, nofun⟩
  unfold recvBlocks
  rw [hf]
  exact Nat.zero_lt_one

/-- Flags that have been set anew, and entries that are no transfers. -/
theorem kept_assign {log as : List Effect} (h : Clean task fit (scratchBytes task roles isLeader) log)
    (has : ∀ a ∈ as, Harmless task fit (scratchBytes task roles isLeader) a)
    (hno : ∀ a ∈ as, ∀ sd i, a.concerns sd i = false) (phase : Int) (chunk : Side → Nat → Nat) :
    Kept task roles isLeader fit phase chunk (log ++ .assign :: as) := by
  rw [List.append_cons]
  exact Kept.append ⟨h.snoc harmless_assign, opens_assign log⟩ has hno

/-- **The way down** starts inside. -/
theorem inbounds_enterDown (H : Served task roles isLeader) (h : Inbounds task roles isLeader fit t) :
    Inbounds task roles isLeader fit (Traced.enterDown task roles isLeader t) := by
  refine ⟨kept_assign h.1.clean (fun a ha => ?_) (fun a ha sd i => ?_) _ _, ?_⟩
  · unfold Traced.downAverage at ha
    split at ha
    · rw [List.mem_singleton.mp ha]
      exact harmless_recvBuf_average H.func
    · exact absurd ha List.not_mem_nil
  · unfold Traced.downAverage at ha
    split at ha
    · rw [List.mem_singleton.mp ha]
      rfl
    · exact absurd ha List.not_mem_nil
  · exact (enterDown_control task roles isLeader t (fun c => c.tempBuffer.size) fun _ => rfl).trans h.2

/-- **`Advance` stays inside.** -/
theorem advance_ranges (H : Served task roles isLeader) (hcon : Connected task roles) (fuel : Nat)
    (t : Traced) (h : Inbounds task roles isLeader fit t) :
    (Traced.advance task roles isLeader fuel t).Ensures (Safe task roles isLeader fit) := by
  induction fuel generalizing t with
  | zero => trivial
  | succ fuel ih =>
    rw [Traced.advance]
    split
    · split
      · exact h.safe H.count
      · exact passes_ranges H hcon (inbounds_enterDown H h) fun t' h' _ => ih t' h'
    · split
      · split
        · exact h.safe H.count
        · exact ⟨h.1.clean, h.2, Or.inl rfl⟩
      · exact h.safe H.count

/-- The copy of a leader's input. -/
theorem harmless_copyInput (hf : task.func = .allReduce) {scratch : Nat} :
    ∀ a ∈ Traced.copyInput task, Harmless task fit scratch a := by
  intro a ha
  unfold Traced.copyInput at ha
  split at ha
  · rw [List.mem_singleton.mp ha]
    refine ⟨inside_memcpy (writable_recvBuf ?_ (Within.refl _)) (readable_sendBuf ?_ (Within.refl _)), trivial,
      nofun⟩
    · unfold recvBlocks
      rw [hf]
      exact Nat.zero_lt_one
    · unfold sendBlocks
      rw [hf]
      exact Nat.zero_lt_one
  · exact absurd ha List.not_mem_nil

theorem copyInput_concerns (a : Effect) (ha : a ∈ Traced.copyInput task) (sd : Side) (i : Nat) :
    a.concerns sd i = false := by
  unfold Traced.copyInput at ha
  split at ha
  · rw [List.mem_singleton.mp ha]
    rfl
  · exact absurd ha List.not_mem_nil

/-- What a task with elements starts with on the way up. -/
theorem inbounds_start (H : Served task roles isLeader)
    (h : Clean task fit (scratchBytes task roles isLeader) t.2) :
    Inbounds task roles isLeader fit
      ((if isLeader then (Traced.scratch task roles (start task t.1, t.2 ++ [.assign])).perform task
        (Traced.copyInput task) else (start task t.1, t.2 ++ [.assign])).1.setPhase kPhaseUp,
      (if isLeader then (Traced.scratch task roles (start task t.1, t.2 ++ [.assign])).perform task
        (Traced.copyInput task) else (start task t.1, t.2 ++ [.assign])).2) := by
  cases isLeader with
  | true =>
    refine ⟨?_, ?_⟩
    · change Kept task roles true fit _ _ (t.2 ++ [.assign] ++ Traced.copyInput task)
      rw [← List.append_cons]
      exact kept_assign h (harmless_copyInput H.func) copyInput_concerns _ _
    · have hcontrol := Effect.control_runAll task (Traced.copyInput task)
        (Traced.scratch task roles (start task t.1, t.2 ++ [.assign])).1
      refine (temp_of_control hcontrol).trans ?_
      rw [scratchBytes, if_neg H.count, if_pos rfl]
      rfl
  | false =>
    refine ⟨kept_assign h (fun _ ha => absurd ha List.not_mem_nil)
      (fun _ ha => absurd ha List.not_mem_nil) _ _, ?_⟩
    rw [scratchBytes, if_neg H.count, if_neg (by decide)]
    rfl

/-- **A start stays inside**, from any state with a clean log. -/
theorem treeInit_ranges (hroles : RoleTable isLeader roles) (htwo : 2 ≤ task.worldSize)
    (hcon : Connected task roles) (t : Traced)
    (h : Clean task fit (scratchBytes task roles isLeader) t.2) :
    (Traced.treeInit task roles isLeader t).Ensures (Safe task roles isLeader fit) := by
  unfold Traced.treeInit
  dsimp only
  split
  · trivial
  · rename_i hf
    split
    · trivial
    · split
      · rename_i hzero
        refine ⟨h.snoc harmless_assign, ?_, Or.inl rfl⟩
        rw [scratchBytes, if_pos hzero]
        rfl
      · rename_i hne
        split
        · trivial
        · split
          · rename_i hone
            omega
          · split
            · trivial
            · have H : Served task roles isLeader := ⟨Decidable.of_not_not hf, hne, hroles⟩
              exact passes_ranges H hcon (inbounds_start H h) fun t' h' _ => advance_ranges H hcon 2 t' h'

theorem init_ranges (T : TopologyTree) (hroles : RoleTable T.isLeader (T.rolesOf task))
    (htwo : 2 ≤ task.worldSize) (hcon : Connected task (T.rolesOf task)) (t : Traced)
    (h : Clean task fit (scratchBytes task (T.rolesOf task) T.isLeader) t.2) :
    (Traced.collectiveInit T task t).Ensures (Safe task (T.rolesOf task) T.isLeader fit) := by
  unfold Traced.collectiveInit
  split
  · trivial
  · exact treeInit_ranges hroles htwo hcon t h

theorem drive_ranges (hf : task.func = .allReduce) (hroles : RoleTable isLeader roles)
    (hcon : Connected task roles) (t : Traced) (h : Safe task roles isLeader fit t) :
    (Traced.drive task roles isLeader t).Ensures (Safe task roles isLeader fit) := by
  unfold Traced.drive
  split
  · exact h
  · rename_i hdone
    obtain ⟨hne, hin⟩ := h.2.2.resolve_left hdone
    have H : Served task roles isLeader := ⟨hf, hne, hroles⟩
    exact passes_ranges H hcon hin fun t' h' _ => advance_ranges H hcon 2 t' h'

/-- **So does a later call**, also the first of a task that was not started. -/
theorem step_ranges (T : TopologyTree) (hf : task.func = .allReduce)
    (hroles : RoleTable T.isLeader (T.rolesOf task)) (htwo : 2 ≤ task.worldSize)
    (hcon : Connected task (T.rolesOf task)) (event : CollEvent) (t : Traced)
    (h : Safe task (T.rolesOf task) T.isLeader fit t ∨ (t.1.op.phase = kPhaseUnstarted ∧
      Clean task fit (scratchBytes task (T.rolesOf task) T.isLeader) t.2)) :
    (Traced.collectiveStep T task event t).Ensures (Safe task (T.rolesOf task) T.isLeader fit) := by
  unfold Traced.collectiveStep
  split
  · rw [Prog.ensures_bind]
    exact Prog.ensures_mono (drive_ranges hf hroles hcon)
      (treeInit_ranges hroles htwo hcon t (h.elim (·.1) (·.2)))
  · rename_i hne
    exact drive_ranges hf hroles hcon t (h.resolve_right fun hx => hne hx.1)

end Loops

end OriginCCL.TopologyTree
