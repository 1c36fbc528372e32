/-
  File:      OriginCCL/Topology/TreeIdle.lean
  Subject:   A TREE OR P2P TASK NEVER IDLES, whatever its connections answer.

  * `Only` -- what a part of a call changes: the cursors of some connections.
  * `Driven` -- what `PushRecvs` and `PushSends` leave: every connection they visit has reached its
    bound, or a transfer of its current chunk was not done.
  * `Resting` -- a tree task between two calls: done, or some flag is not set and all such are attended
    to; `init_always`, `step_always` -- **every call ends, and ends so**.
  * `TopologyP2p.Resting` -- the same of a P2P task.
-/
import OriginCCL.Topology.TreeRounds
import OriginCCL.Topology.TreeTrace

namespace OriginCCL

open Net

namespace TopologyTree

/-! ## 1. What a part of a call changes -/

/-- The chunk a connection is at. -/
def chunkAt (s : RankState) : Side → Nat → Nat
  | .out, j => s.sendChunk j
  | .inn, i => s.recvChunk i

/-- The buffer and the size of a chunk on a connection. -/
def bufferAt (task : PlanTask) (roles : List Int) (isLeader : Bool) (chunk : Nat) : Side → Nat → Loc × Nat
  | .out, _ => (sendSource task isLeader chunk, chunkBytes task chunk)
  | .inn, i => (recvTarget task isLeader roles i chunk, chunkBytes task chunk)

/-- **Only these connections have been touched.** -/
structure Only (touched : Side → Nat → Prop) (t t' : Traced) : Prop where
  phase : t'.1.op.phase = t.1.op.phase
  size : ∀ sd, (t'.1.flags sd).size = (t.1.flags sd).size
  same : ∀ sd i, ¬ touched sd i → (t'.1.flags sd).get i = (t.1.flags sd).get i ∧
    chunkAt t'.1 sd i = chunkAt t.1 sd i ∧ latest sd i t'.2 = latest sd i t.2

section Parts

variable {touched touched' : Side → Nat → Prop} {t t' t'' : Traced} {sd : Side} {i : Nat}

theorem Only.refl (touched : Side → Nat → Prop) (t : Traced) : Only touched t t :=
  ⟨rfl, fun _ => rfl, fun _ _ _ => ⟨rfl, rfl, rfl⟩⟩

theorem Only.trans (h : Only touched t t') (h' : Only touched t' t'') : Only touched t t'' := by
  refine ⟨h'.phase.trans h.phase, fun sd => (h'.size sd).trans (h.size sd), fun sd i hi => ?_⟩
  obtain ⟨hflag, hchunk, hlast⟩ := h.same sd i hi
  obtain ⟨hflag', hchunk', hlast'⟩ := h'.same sd i hi
  exact ⟨hflag'.trans hflag, hchunk'.trans hchunk, hlast'.trans hlast⟩

theorem Only.mono (h : Only touched t t') (hsub : ∀ sd i, touched sd i → touched' sd i) :
    Only touched' t t' :=
  ⟨h.phase, h.size, fun sd i hi => h.same sd i fun ht => hi (hsub sd i ht)⟩

/-- The cursor of one connection. -/
def One (sd : Side) (i : Nat) : Side → Nat → Prop := fun sd' i' => sd' = sd ∧ i' = i

/-- A change of bytes, with entries about no flag. -/
theorem only_of_control {s : RankState} {as : List Effect} (h : s.control = t.1.control)
    (has : ∀ a ∈ as, ∀ sd i, a.concerns sd i = false) : Only touched t (s, t.2 ++ as) := by
  have hop : ∀ {β : Type} (f : CollOpState → β), f s.control = f t.1.control := fun f => congrArg f h
  refine ⟨hop CollOpState.phase, fun sd => ?_, fun sd i _ => ⟨?_, ?_, latest_append as fun a ha => has a ha sd i⟩⟩
  · cases sd with
    | out => exact hop fun c => c.sendDone.size
    | inn => exact hop fun c => c.recvDone.size
  · cases sd with
    | out => exact hop fun c => c.sendDone.get i
    | inn => exact hop fun c => c.recvDone.get i
  · cases sd with
    | out => exact hop fun c => c.algo.tree.sendChunk.get i
    | inn => exact hop fun c => c.algo.tree.recvChunk.get i

theorem only_setRecv (i progress : Nat) (done : Bool) {as : List Effect}
    (has : ∀ a ∈ as, ∀ sd' i', ¬ One .inn i sd' i' → a.concerns sd' i' = false) :
    Only (One .inn i) t (t.1.setRecv i progress done, t.2 ++ as) := by
  refine ⟨rfl, fun sd => ?_, fun sd i' hne => ⟨?_, ?_, latest_append as fun a ha => has a ha sd i' hne⟩⟩
  · cases sd <;> rfl
  · cases sd with
    | out => rfl
    | inn => exact Vec.set_get_ne _ _ fun he => hne ⟨rfl, he⟩
  · cases sd <;> rfl

theorem only_setSend (j progress : Nat) (done : Bool) {as : List Effect}
    (has : ∀ a ∈ as, ∀ sd' i', ¬ One .out j sd' i' → a.concerns sd' i' = false) :
    Only (One .out j) t (t.1.setSend j progress done, t.2 ++ as) := by
  refine ⟨rfl, fun sd => ?_, fun sd i' hne => ⟨?_, ?_, latest_append as fun a ha => has a ha sd i' hne⟩⟩
  · cases sd <;> rfl
  · cases sd with
    | out => exact Vec.set_get_ne _ _ fun he => hne ⟨rfl, he⟩
    | inn => rfl
  · cases sd <;> rfl

theorem only_nextRecvChunk (i : Nat) : Only (One .inn i) t (t.1.nextRecvChunk i, t.2) := by
  refine ⟨rfl, fun sd => ?_, fun sd i' hne => ⟨?_, ?_, rfl⟩⟩
  · cases sd <;> rfl
  · cases sd <;> rfl
  · cases sd with
    | out => rfl
    | inn => exact Vec.set_get_ne _ _ fun he => hne ⟨rfl, he⟩

theorem only_nextSendChunk (j : Nat) : Only (One .out j) t (t.1.nextSendChunk j, t.2) := by
  refine ⟨rfl, fun sd => ?_, fun sd i' hne => ⟨?_, ?_, rfl⟩⟩
  · cases sd <;> rfl
  · cases sd <;> rfl
  · cases sd with
    | out => exact Vec.set_get_ne _ _ fun he => hne ⟨rfl, he⟩
    | inn => rfl

end Parts

/-! ## 2. The loops of one connection -/

section Edges

variable (task : PlanTask) (roles : List Int) (isLeader : Bool)

/-- Every flag that is not set is attended to with the connection's current chunk. -/
def Attends (t : Traced) : Prop :=
  ∀ sd i, Unset t.1 sd i → Attended (bufferAt task roles isLeader (chunkAt t.1 sd i) sd i) sd i t.2

/-- A connection has reached its bound, or a transfer on it is open. -/
def Reached (bound : Nat) (s : RankState) (sd : Side) (i : Nat) : Prop :=
  bound ≤ chunkAt s sd i ∨ (s.flags sd).get i = false

variable {task roles isLeader} {t t' t'' : Traced} {sd : Side} {i : Nat}

/-- What is not touched stays attended to. -/
theorem Only.attends {touched : Side → Nat → Prop} (h : Only touched t t') (ht : Attends task roles isLeader t)
    (hhere : ∀ sd i, touched sd i → (t'.1.flags sd).get i = false →
      Attended (bufferAt task roles isLeader (chunkAt t'.1 sd i) sd i) sd i t'.2) :
    Attends task roles isLeader t' := by
  intro sd i ⟨hi, hflag⟩
  by_cases hin : touched sd i
  · exact hhere sd i hin hflag
  · obtain ⟨hflag', hchunk, hlast⟩ := h.same sd i hin
    rw [Attended, hlast, hchunk]
    exact ht sd i ⟨by rw [← h.size]; exact hi, by rw [← hflag']; exact hflag⟩

theorem Only.reached {touched : Side → Nat → Prop} (h : Only touched t t') {bound : Nat}
    (hi : ¬ touched sd i) (hr : Reached bound t.1 sd i) : Reached bound t'.1 sd i := by
  obtain ⟨hflag, hchunk, -⟩ := h.same sd i hi
  rw [Reached, hflag, hchunk]
  exact hr

/-- **Connections of a side have been driven** to a bound. -/
structure Driven (task : PlanTask) (roles : List Int) (isLeader : Bool) (sd : Side) (visited : Nat → Prop)
    (bound : Nat) (t t' : Traced) : Prop where
  only : Only (fun sd' i => sd' = sd ∧ visited i) t t'
  attends : Attends task roles isLeader t → Attends task roles isLeader t'
  reached : ∀ i, visited i → Reached bound t'.1 sd i

theorem only_clearRecv (i : Nat) (t : Traced) : Only (One .inn i) t (Traced.clearRecv i t) := by
  unfold Traced.clearRecv
  split
  · refine only_setRecv i 0 false fun a ha sd' i' hne => ?_
    obtain rfl := List.mem_singleton.mp ha
    exact decide_eq_false fun he => hne ⟨he.1.symm, he.2.symm⟩
  · exact Only.refl ..

theorem only_clearSend (j : Nat) (t : Traced) : Only (One .out j) t (Traced.clearSend j t) := by
  unfold Traced.clearSend
  split
  · refine only_setSend j 0 false fun a ha sd' i' hne => ?_
    obtain rfl := List.mem_singleton.mp ha
    exact decide_eq_false fun he => hne ⟨he.1.symm, he.2.symm⟩
  · exact Only.refl ..

theorem only_takeChunk (i chunk : Nat) (t : Traced) {touched : Side → Nat → Prop} :
    Only touched t (Traced.takeChunk task roles isLeader i chunk t) := by
  unfold Traced.takeChunk
  split
  · refine only_of_control (Effect.control_runAll task _ t.1) fun a ha sd' i' => ?_
    obtain rfl := List.mem_singleton.mp ha
    rfl
  · exact Only.refl ..

theorem control_takeChunk (i chunk : Nat) (t : Traced) :
    (Traced.takeChunk task roles isLeader i chunk t).1.control = t.1.control := by
  unfold Traced.takeChunk
  split
  · exact Effect.control_runAll task _ t.1
  · rfl

theorem chunkAt_clearRecv (i : Nat) (t : Traced) : (Traced.clearRecv i t).1.recvChunk i = t.1.recvChunk i := by
  unfold Traced.clearRecv
  split <;> rfl

theorem chunkAt_clearSend (j : Nat) (t : Traced) : (Traced.clearSend j t).1.sendChunk j = t.1.sendChunk j := by
  unfold Traced.clearSend
  split <;> rfl

/-- A part that changes one connection, then its loop. -/
theorem Driven.after {bound : Nat} (h : Only (One sd i) t t')
    (hhere : (t'.1.flags sd).get i = false →
      Attended (bufferAt task roles isLeader (chunkAt t'.1 sd i) sd i) sd i t'.2)
    (h' : Driven task roles isLeader sd (fun i' => i' = i) bound t' t'') :
    Driven task roles isLeader sd (fun i' => i' = i) bound t t'' := by
  refine ⟨h.trans h'.only, fun ht => h'.attends (h.attends ht fun sd' i' hi' hflag => ?_), h'.reached⟩
  obtain ⟨rfl, rfl⟩ := hi'
  exact hhere hflag

/-- A loop that ends here. -/
theorem Driven.stop {bound : Nat} (h : Reached bound t.1 sd i) :
    Driven task roles isLeader sd (fun i' => i' = i) bound t t :=
  ⟨Only.refl .., id, fun i' hi' => by rw [hi']; exact h⟩

/-- A transfer on a connection, with its entry. -/
theorem only_received (i progress : Nat) (done : Bool) (s : RankState) (hs : s.control = t.1.control)
    (data : Loc) (size : Nat) :
    Only (One .inn i) t (s.setRecv i progress done, t.2 ++ [.transfer .inn i data size done]) := by
  have hbytes : Only (One .inn i) t (s, t.2 ++ []) := only_of_control hs nofun
  rw [List.append_nil] at hbytes
  refine hbytes.trans (only_setRecv (t := (s, t.2)) i progress done fun a ha sd' i' hne => ?_)
  obtain rfl := List.mem_singleton.mp ha
  exact decide_eq_false fun he => hne ⟨he.1.symm, he.2.symm⟩

theorem only_sent (j progress : Nat) (done : Bool) (data : Loc) (size : Nat) :
    Only (One .out j) t (t.1.setSend j progress done, t.2 ++ [.transfer .out j data size done]) := by
  refine only_setSend j progress done fun a ha sd' i' hne => ?_
  obtain rfl := List.mem_singleton.mp ha
  exact decide_eq_false fun he => hne ⟨he.1.symm, he.2.symm⟩

/-- **The `while` loop of `PushRecvs` ends**: all chunks are there, or a transfer of the current one was
    not done. -/
theorem edgeRecv_always (l : Link) (i fuel : Nat) (t : Traced)
    (hfuel : chunkCount task - t.1.recvChunk i < fuel) :
    (Traced.edgeRecv task roles isLeader l i fuel t).Always
      (Driven task roles isLeader .inn (fun i' => i' = i) (chunkCount task) t) := by
  induction fuel generalizing t with
  | zero => exact absurd hfuel (Nat.not_lt_zero _)
  | succ fuel ih =>
    rw [Traced.edgeRecv]
    split
    · rename_i hmore
      dsimp only
      rw [Prog.always_bind]
      have hclear := only_clearRecv i t
      have hat := chunkAt_clearRecv i t
      generalize Traced.clearRecv i t = t₁ at hclear hat ⊢
      refine tryRecv_always fun s progress done hs => ?_
      have hstep := hclear.trans (only_received i progress done s hs
        (recvTarget task isLeader roles i (t.1.recvChunk i)) (chunkBytes task (t.1.recvChunk i)))
      have hchunk : s.recvChunk i = t.1.recvChunk i :=
        (congrArg (fun c => c.algo.tree.recvChunk.get i) hs).trans hat
      cases done with
      | false =>
        refine Driven.after hstep (fun _ => ?_) (Driven.stop (Or.inr (Vec.set_get_self ..)))
        have hchunk' : chunkAt (s.setRecv i progress false) .inn i = t.1.recvChunk i := hchunk
        dsimp only
        rw [hchunk']
        exact attended_snoc ..
      | true =>
        dsimp only
        generalize ht₂ : ((s.setRecv i progress true, t₁.2 ++ [.transfer .inn i (recvTarget task isLeader
          roles i (t.1.recvChunk i)) (chunkBytes task (t.1.recvChunk i)) true]) : Traced) = t₂ at hstep ⊢
        obtain ⟨t₃, ht₃⟩ : ∃ t₃, t₃ = Traced.takeChunk task roles isLeader i (t.1.recvChunk i) t₂ := ⟨_, rfl⟩
        have htake : t₃.1.control = t₂.1.control := by
          rw [ht₃]
          exact control_takeChunk ..
        have hall : Only (One .inn i) t (t₃.1.nextRecvChunk i, t₃.2) := by
          refine (hstep.trans ?_).trans (only_nextRecvChunk i)
          rw [ht₃]
          exact only_takeChunk ..
        rw [← ht₃]
        have hflag : (t₃.1.flags .inn).get i = true := by
          refine (congrArg (fun c => c.recvDone.get i) htake).trans ?_
          subst ht₂
          exact Vec.set_get_self ..
        have hnext : (t₃.1.nextRecvChunk i).recvChunk i = t.1.recvChunk i + 1 := by
          have h₃ : t₃.1.recvChunk i = t.1.recvChunk i := by
            refine (congrArg (fun c => c.algo.tree.recvChunk.get i) htake).trans ?_
            subst ht₂
            exact hchunk
          refine (Vec.set_get_self ..).trans ?_
          rw [h₃]
        refine Prog.always_mono (fun t' h' => Driven.after hall (fun hf => ?_) h') (ih _ ?_)
        · exact absurd (hflag.symm.trans hf) (by decide)
        · dsimp only
          rw [hnext]
          omega
    · rename_i hmore
      exact Driven.stop (Or.inl (Nat.le_of_not_lt hmore))

/-- **So does the loop of `PushSends`**, at the gate. -/
theorem edgeSend_always {gate : Nat} (l : Link) (j fuel : Nat) (t : Traced)
    (hfuel : gate - t.1.sendChunk j < fuel) : (Traced.edgeSend task isLeader gate l j fuel t).Always
      (Driven task roles isLeader .out (fun j' => j' = j) gate t) := by
  induction fuel generalizing t with
  | zero => exact absurd hfuel (Nat.not_lt_zero _)
  | succ fuel ih =>
    rw [Traced.edgeSend]
    split
    · rename_i hmore
      dsimp only
      rw [Prog.always_bind]
      have hclear := only_clearSend j t
      have hat := chunkAt_clearSend j t
      generalize Traced.clearSend j t = t₁ at hclear hat ⊢
      refine trySend_always fun progress done => ?_
      have hstep := hclear.trans (only_sent j progress done (sendSource task isLeader (t.1.sendChunk j))
        (chunkBytes task (t.1.sendChunk j)))
      cases done with
      | false =>
        refine Driven.after hstep (fun _ => ?_) (Driven.stop (Or.inr (Vec.set_get_self ..)))
        have hchunk : chunkAt (t₁.1.setSend j progress false) .out j = t.1.sendChunk j := hat
        dsimp only
        rw [hchunk]
        exact attended_snoc ..
      | true =>
        have hall := hstep.trans (only_nextSendChunk j)
        refine Prog.always_mono (fun t' h' => Driven.after hall (fun hf => ?_) h') (ih _ ?_)
        · have hflag : ((t₁.1.setSend j progress true).flags .out).get j = true := Vec.set_get_self ..
          exact absurd (hflag.symm.trans hf) (by decide)
        · have hnext : ((t₁.1.setSend j progress true).nextSendChunk j).sendChunk j =
              t.1.sendChunk j + 1 := by
            refine (Vec.set_get_self ..).trans ?_
            exact congrArg (· + 1) hat
          dsimp only
          rw [hnext]
          omega
    · rename_i hmore
      exact Driven.stop (Or.inl (Nat.le_of_not_lt hmore))

/-! ## 3. The passes over all connections -/

/-- The first connection is passed over. -/
theorem Driven.skip {bound : Nat} {ls : List (Link × Nat)} {l : Link}
    {eligible : Nat → Bool} (hno : ¬ eligible i = true)
    (h : Driven task roles isLeader sd (fun i' => i' ∈ ls.map Prod.snd ∧ eligible i' = true) bound t t') :
    Driven task roles isLeader sd (fun i' => i' ∈ ((l, i) :: ls).map Prod.snd ∧ eligible i' = true)
      bound t t' := by
  refine ⟨h.only.mono fun sd' i' ⟨hsd, hin, he⟩ => ⟨hsd, List.mem_cons_of_mem _ hin, he⟩, h.attends,
    fun i' ⟨hin, he⟩ => ?_⟩
  rcases List.mem_cons.mp hin with rfl | hin
  · exact absurd he hno
  · exact h.reached i' ⟨hin, he⟩

/-- The first connection is driven, then the others. -/
theorem Driven.cons {bound : Nat} {ls : List (Link × Nat)} {l : Link} {eligible : Nat → Bool}
    (hyes : eligible i = true) (h : Driven task roles isLeader sd (fun i' => i' = i) bound t t')
    (h' : Driven task roles isLeader sd (fun i' => i' ∈ ls.map Prod.snd ∧ eligible i' = true) bound t' t'') :
    Driven task roles isLeader sd (fun i' => i' ∈ ((l, i) :: ls).map Prod.snd ∧ eligible i' = true)
      bound t t'' := by
  refine ⟨(h.only.mono ?_).trans (h'.only.mono ?_), fun ht => h'.attends (h.attends ht),
    fun i' ⟨hin, he⟩ => ?_⟩
  · intro sd' i' ⟨hsd, hi⟩
    subst hi
    exact ⟨hsd, List.mem_cons_self, hyes⟩
  · exact fun sd' i' ⟨hsd, hin, he⟩ => ⟨hsd, List.mem_cons_of_mem _ hin, he⟩
  · by_cases hlater : i' ∈ ls.map Prod.snd
    · exact h'.reached i' ⟨hlater, he⟩
    · rcases List.mem_cons.mp hin with rfl | hin
      · exact h'.only.reached (fun hx => hlater hx.2.1) (h.reached _ rfl)
      · exact absurd hin hlater

theorem pushRecvsFrom_always (ls : List (Link × Nat)) (t : Traced) :
    (Traced.pushRecvsFrom task roles isLeader ls t).Always
      (Driven task roles isLeader .inn (fun i => i ∈ ls.map Prod.snd ∧
        recvEligible isLeader (roles.getD i 0) t.1.op.phase = true) (chunkCount task) t) := by
  induction ls generalizing t with
  | nil => exact ⟨Only.refl .., id, fun i ⟨hin, _⟩ => absurd hin List.not_mem_nil⟩
  | cons x rest ih =>
    obtain ⟨l, i⟩ := x
    rw [Traced.pushRecvsFrom]
    split
    · rename_i hyes
      rw [Prog.always_bind]
      refine Prog.always_mono (fun t₁ h₁ => ?_) (edgeRecv_always l i _ t (by omega))
      refine Prog.always_mono (fun t' h' => ?_) (ih t₁)
      rw [h₁.only.phase] at h'
      exact Driven.cons hyes h₁ h'
    · rename_i hno
      exact Prog.always_mono (fun t' h' => Driven.skip hno h') (ih t)

theorem pushSendsFrom_always {gate : Nat} (ls : List (Link × Nat)) (t : Traced) :
    (Traced.pushSendsFrom task roles isLeader gate ls t).Always
      (Driven task roles isLeader .out (fun j => j ∈ ls.map Prod.snd ∧
        sendEligible isLeader (roles.getD j 0) t.1.op.phase = true) gate t) := by
  induction ls generalizing t with
  | nil => exact ⟨Only.refl .., id, fun i ⟨hin, _⟩ => absurd hin List.not_mem_nil⟩
  | cons x rest ih =>
    obtain ⟨l, j⟩ := x
    rw [Traced.pushSendsFrom]
    split
    · rename_i hyes
      rw [Prog.always_bind]
      refine Prog.always_mono (fun t₁ h₁ => ?_) (@edgeSend_always task roles isLeader _ l j _ t (by omega))
      refine Prog.always_mono (fun t' h' => ?_) (ih t₁)
      rw [h₁.only.phase] at h'
      exact Driven.cons hyes h₁ h'
    · rename_i hno
      exact Prog.always_mono (fun t' h' => Driven.skip hno h') (ih t)

end Edges

/-! ## 4. The calls -/

section Calls

variable (task : PlanTask) (roles : List Int) (isLeader : Bool)

/-- A connection for every role, both ways. -/
def Connected : Prop :=
  task.sendTransports.length = roles.length ∧ task.recvTransports.length = roles.length

/-- **A started task** inside a call: in one of its phases, its flags attended to. -/
structure Live (t : Traced) : Prop where
  phase : t.1.op.phase = kPhaseUp ∨ t.1.op.phase = kPhaseDown
  sends : (t.1.flags .out).size = roles.length
  recvs : (t.1.flags .inn).size = roles.length
  attends : Attends task roles isLeader t

/-- What the two passes of a call leave. -/
structure Passed (t : Traced) : Prop extends Live task roles isLeader t where
  recvReached : ∀ i < roles.length, recvEligible isLeader (roles.getD i 0) t.1.op.phase = true →
    Reached (chunkCount task) t.1 .inn i
  sendReached : ∀ j < roles.length, sendEligible isLeader (roles.getD j 0) t.1.op.phase = true →
    Reached (sendGate task roles isLeader t.1) t.1 .out j

/-- **A task between two calls**: done, or some flag is not set and all such are attended to. -/
def AtRest (t : Traced) : Prop :=
  t.1.op.phase = kPhaseDone ∨ (Live task roles isLeader t ∧ ∃ sd i, Unset t.1 sd i)

variable {task roles isLeader} {t t' : Traced}

/-- A pass keeps the task live. -/
theorem Live.driven {sd : Side} {visited : Nat → Prop} {bound : Nat} (h : Live task roles isLeader t)
    (h' : Driven task roles isLeader sd visited bound t t') : Live task roles isLeader t' :=
  ⟨by rw [h'.only.phase]; exact h.phase, (h'.only.size .out).trans h.sends,
    (h'.only.size .inn).trans h.recvs, h'.attends h.attends⟩

theorem sendGate_congr {s s' : RankState} (hphase : s'.op.phase = s.op.phase)
    (hrecv : ∀ i, s'.recvChunk i = s.recvChunk i) :
    sendGate task roles isLeader s' = sendGate task roles isLeader s := by
  have hmin : minInputPrefix task roles s' = minInputPrefix task roles s := by
    simp only [minInputPrefix, hrecv]
  simp only [sendGate, hphase, hmin, hrecv]

theorem mem_zipIdx_snd {ls : List Link} {i : Nat} (h : i < ls.length) : i ∈ ls.zipIdx.map Prod.snd := by
  rw [List.zipIdx_map_snd, List.mem_range'_1]
  exact ⟨Nat.zero_le _, by rw [Nat.zero_add]; exact h⟩

/-- **The two passes** drive every connection of the phase to its bound. -/
theorem passes_always (hcon : Connected task roles) (h : Live task roles isLeader t) :
    (Traced.pushRecvs task roles isLeader t).Always fun t₁ =>
      (Traced.pushSends task roles isLeader t₁).Always fun t' =>
        Passed task roles isLeader t' ∧ t'.1.op.phase = t.1.op.phase := by
  refine Prog.always_mono (fun t₁ h₁ => ?_) (pushRecvsFrom_always task.recvTransports.zipIdx t)
  refine Prog.always_mono (fun t₂ h₂ => ?_) (pushSendsFrom_always task.sendTransports.zipIdx t₁)
  have hphase : t₂.1.op.phase = t.1.op.phase := h₂.only.phase.trans h₁.only.phase
  have hgate : sendGate task roles isLeader t₂.1 = sendGate task roles isLeader t₁.1 :=
    sendGate_congr h₂.only.phase fun i => (h₂.only.same .inn i fun hx => by cases hx.1).2.1
  refine ⟨⟨(h.driven h₁).driven h₂, fun i hi he => ?_, fun j hj he => ?_⟩, hphase⟩
  · rw [hphase] at he
    refine h₂.only.reached (fun hx => by cases hx.1) (h₁.reached i ⟨mem_zipIdx_snd ?_, he⟩)
    rw [hcon.2]
    exact hi
  · rw [h₂.only.phase] at he
    rw [hgate]
    refine h₂.reached j ⟨mem_zipIdx_snd ?_, he⟩
    rw [hcon.1]
    exact hj

/-- The connections that lead to a parent. -/
theorem parentEdge_spec (h : ¬ parentEdge roles < 0) :
    (parentEdge roles).toNat < roles.length ∧ isUpRole (roles.getD (parentEdge roles).toNat 0) = true := by
  unfold parentEdge at h ⊢
  cases hfind : roles.findIdx? (· == kRoleTreeUp) with
  | none =>
    rw [hfind] at h
    exact absurd (by decide) h
  | some i =>
    obtain ⟨hi, hrole, -⟩ := List.findIdx?_eq_some_iff_getElem.mp hfind
    dsimp only
    rw [Int.toNat_natCast]
    refine ⟨hi, ?_⟩
    rw [List.getD_eq_getElem _ _ hi]
    exact hrole

theorem exists_chunksLeft {p : Int → Bool} {cursor : Nat → Nat} (h : chunksLeft task roles p cursor = true) :
    ∃ i < roles.length, p (roles.getD i 0) = true ∧ cursor i < chunkCount task := by
  rw [chunksLeft, List.any_eq_true] at h
  obtain ⟨i, hi, hp⟩ := h
  rw [Bool.and_eq_true, decide_eq_true_eq] at hp
  exact ⟨i, List.mem_range.mp hi, hp⟩

/-- A connection that has not reached its bound is open. -/
theorem Reached.unset {bound : Nat} {s : RankState} {sd : Side} {i : Nat} (h : Reached bound s sd i)
    (hi : i < (s.flags sd).size) (hlt : chunkAt s sd i < bound) : Unset s sd i :=
  ⟨hi, h.resolve_left (Nat.not_le_of_lt hlt)⟩

/-- **A way up that is not complete has an open connection**: an input, or the one to the parent, whose
    gate is open then. -/
theorem exists_unset_up (h : Passed task roles isLeader t) (hphase : t.1.op.phase = kPhaseUp)
    (hmore : ¬ upComplete task roles isLeader t.1 = true) : ∃ sd i, Unset t.1 sd i := by
  cases isLeader with
  | true =>
    rw [upComplete, if_pos rfl] at hmore
    cases hin : chunksLeft task roles isInputRole t.1.recvChunk with
    | true =>
      obtain ⟨i, hi, hrole, hlt⟩ := exists_chunksLeft hin
      refine ⟨.inn, i, (h.recvReached i hi ?_).unset (by rw [h.recvs]; exact hi) hlt⟩
      rw [recvEligible, if_pos rfl, if_pos hphase]
      exact hrole
    | false =>
      rw [hin] at hmore
      obtain ⟨j, hj, hrole, hlt⟩ := exists_chunksLeft (by simpa using hmore)
      refine ⟨.out, j, (h.sendReached j hj ?_).unset (by rw [h.sends]; exact hj) ?_⟩
      · rw [sendEligible, if_pos rfl, if_pos hphase]
        exact hrole
      · rw [sendGate, if_pos rfl, if_pos hphase, minInputPrefix,
          foldl_min_lt (fun i => isInputRole (roles.getD i 0)) t.1.recvChunk]
        refine ⟨hlt, fun i hi hp => Nat.lt_of_lt_of_le hlt ?_⟩
        exact chunksLeft_eq_false.mp hin i (List.mem_range.mp hi) hp
  | false =>
    rw [upComplete, if_neg (by decide)] at hmore
    obtain ⟨j, hj, -, hlt⟩ := exists_chunksLeft (by simpa using hmore)
    refine ⟨.out, j, (h.sendReached j hj ?_).unset (by rw [h.sends]; exact hj) hlt⟩
    rw [sendEligible, if_neg (by decide), hphase]
    rfl

/-- **So has a way down**: the connection to the parent, or one to a child, whose gate is open then. -/
theorem exists_unset_down (h : Passed task roles isLeader t) (hphase : t.1.op.phase = kPhaseDown)
    (hmore : ¬ downComplete task roles isLeader t.1 = true) : ∃ sd i, Unset t.1 sd i := by
  have hne : ¬ t.1.op.phase = kPhaseUp := by rw [hphase]; decide
  cases isLeader with
  | true =>
    rw [downComplete, if_pos rfl] at hmore
    cases hin : chunksLeft task roles isUpRole t.1.recvChunk with
    | true =>
      obtain ⟨i, hi, hrole, hlt⟩ := exists_chunksLeft hin
      refine ⟨.inn, i, (h.recvReached i hi ?_).unset (by rw [h.recvs]; exact hi) hlt⟩
      rw [recvEligible, if_pos rfl, if_neg hne]
      exact hrole
    | false =>
      rw [hin] at hmore
      obtain ⟨j, hj, hrole, hlt⟩ := exists_chunksLeft (by simpa using hmore)
      refine ⟨.out, j, (h.sendReached j hj ?_).unset (by rw [h.sends]; exact hj) ?_⟩
      · rw [sendEligible, if_pos rfl, if_neg hne]
        exact hrole
      · refine Nat.lt_of_lt_of_le hlt ?_
        rw [sendGate, if_pos rfl, if_neg hne]
        dsimp only
        split
        · exact Nat.le_refl _
        · rename_i hparent
          obtain ⟨hp, hup⟩ := parentEdge_spec hparent
          exact chunksLeft_eq_false.mp hin _ hp hup
  | false =>
    rw [downComplete, if_neg (by decide)] at hmore
    obtain ⟨i, hi, -, hlt⟩ := exists_chunksLeft (by simpa using hmore)
    refine ⟨.inn, i, (h.recvReached i hi ?_).unset (by rw [h.recvs]; exact hi) hlt⟩
    rw [recvEligible, if_neg (by decide), hphase]
    rfl

/-- Flags that are all set need no attention. -/
theorem attends_of_set (h : ∀ sd i, (t.1.flags sd).get i = true) : Attends task roles isLeader t := by
  rintro sd i ⟨-, hflag⟩
  rw [h sd i] at hflag
  cases hflag

/-- What the way down starts with, but for the bytes. -/
theorem enterDown_control (task : PlanTask) (roles : List Int) (isLeader : Bool) (t : Traced)
    {β : Type} (f : CollOpState → β) (hf : ∀ s : RankState, f s.control = f s.op) :
    f (Traced.enterDown task roles isLeader t).1.op = f ({ t.1.op with
      phase := kPhaseDown
      algo := { t.1.op.algo with tree :=
        { recvChunk := .assign task.recvTransports.length 0
          sendChunk := .assign task.sendTransports.length 0 } }
      recvProgress := .assign task.recvTransports.length 0
      sendProgress := .assign task.sendTransports.length 0
      recvDone := .assign task.recvTransports.length true
      sendDone := .assign task.sendTransports.length true }) := by
  change f (TopologyTree.enterDown task roles isLeader t.1).op = _
  unfold enterDown
  split
  · rw [← hf, RankState.control_applyAverage, hf]
  · rfl

/-- The way down starts with all flags set. -/
theorem live_enterDown (hcon : Connected task roles) :
    Live task roles isLeader (Traced.enterDown task roles isLeader t) ∧
      (Traced.enterDown task roles isLeader t).1.op.phase = kPhaseDown := by
  have hphase := enterDown_control task roles isLeader t CollOpState.phase fun _ => rfl
  have hsend := enterDown_control task roles isLeader t CollOpState.sendDone fun _ => rfl
  have hrecv := enterDown_control task roles isLeader t CollOpState.recvDone fun _ => rfl
  refine ⟨⟨Or.inr hphase, ?_, ?_, attends_of_set fun sd i => ?_⟩, hphase⟩
  · exact (congrArg Vec.size hsend).trans hcon.1
  · exact (congrArg Vec.size hrecv).trans hcon.2
  · cases sd with
    | out => exact congrArg (fun v => Vec.get v i) hsend
    | inn => exact congrArg (fun v => Vec.get v i) hrecv

/-- **`Advance` ends**, and leaves the task done or resting. -/
theorem advance_always (hcon : Connected task roles) (fuel : Nat) (t : Traced)
    (h : Passed task roles isLeader t) (hfuel : 0 < fuel) (hup : t.1.op.phase = kPhaseUp → 1 < fuel) :
    (Traced.advance task roles isLeader fuel t).Always (AtRest task roles isLeader) := by
  induction fuel generalizing t with
  | zero => exact absurd hfuel (Nat.lt_irrefl _)
  | succ fuel ih =>
    rw [Traced.advance]
    split
    · rename_i hphase
      split
      · rename_i hmore
        exact Or.inr ⟨h.toLive, exists_unset_up h hphase (by simpa using hmore)⟩
      · obtain ⟨hlive, hdown⟩ : Live task roles isLeader (Traced.enterDown task roles isLeader t) ∧ _ :=
          live_enterDown hcon
        rw [Prog.always_bind]
        refine Prog.always_mono (fun t₁ h₁ => ?_) (passes_always hcon hlive)
        rw [Prog.always_bind]
        refine Prog.always_mono (fun t' h' => ?_) h₁
        refine ih t' h'.1 (Nat.lt_of_succ_lt_succ (hup hphase)) fun hx => ?_
        rw [h'.2, hdown] at hx
        exact absurd hx (by decide)
    · rename_i hne
      have hphase := h.phase.resolve_left hne
      rw [if_pos hphase]
      split
      · rename_i hmore
        exact Or.inr ⟨h.toLive, exists_unset_down h hphase (by simpa using hmore)⟩
      · exact Or.inl rfl

/-- The passes of a call and what follows. -/
theorem round_always (hcon : Connected task roles) (h : Live task roles isLeader t) :
    (Traced.pushRecvs task roles isLeader t >>= fun t => Traced.pushSends task roles isLeader t >>=
      Traced.advance task roles isLeader 2).Always (AtRest task roles isLeader) := by
  rw [Prog.always_bind]
  refine Prog.always_mono (fun t₁ h₁ => ?_) (passes_always hcon h)
  rw [Prog.always_bind]
  exact Prog.always_mono (fun t' h' => advance_always hcon 2 t' h'.1 (by decide) fun _ => by decide) h₁

/-- The way up starts with all flags set. -/
theorem live_start (hcon : Connected task roles) {s : RankState} {log : List Effect}
    (hs : s.op.sendDone = .assign task.sendTransports.length true)
    (hr : s.op.recvDone = .assign task.recvTransports.length true) :
    Live task roles isLeader (s.setPhase kPhaseUp, log) := by
  refine ⟨Or.inl rfl, ?_, ?_, attends_of_set fun sd i => ?_⟩
  · exact (congrArg Vec.size hs).trans hcon.1
  · exact (congrArg Vec.size hr).trans hcon.2
  · cases sd with
    | out => exact congrArg (fun v => Vec.get v i) hs
    | inn => exact congrArg (fun v => Vec.get v i) hr

/-- **A start ends**, and leaves the task done or resting. -/
theorem treeInit_always (hcon : Connected task roles) (t : Traced) :
    (Traced.treeInit task roles isLeader t).Always (AtRest task roles isLeader) := by
  unfold Traced.treeInit
  dsimp only
  split_ifs
  · exact Prog.always_error
  · exact Prog.always_error
  · exact Or.inl rfl
  · exact Prog.always_error
  · exact Or.inl rfl
  · exact Prog.always_error
  · have hcontrol := Effect.control_runAll task (Traced.copyInput task)
      (Traced.scratch task roles (start task t.1, t.2 ++ [.assign])).1
    exact round_always hcon (live_start hcon (congrArg CollOpState.sendDone hcontrol)
      (congrArg CollOpState.recvDone hcontrol))
  · exact round_always hcon (live_start hcon rfl rfl)

theorem drive_always (hcon : Connected task roles) (t : Traced) (h : AtRest task roles isLeader t) :
    (Traced.drive task roles isLeader t).Always (AtRest task roles isLeader) := by
  unfold Traced.drive
  split
  · exact h
  · rename_i hdone
    exact round_always hcon (h.resolve_left hdone).1

variable {T : TopologyTree}

/-- **A first call of a tree task ends**, and leaves the task done or resting. -/
theorem init_always (hcon : Connected task (T.rolesOf task)) (t : Traced) :
    (Traced.collectiveInit T task t).Always (AtRest task (T.rolesOf task) T.isLeader) := by
  unfold Traced.collectiveInit
  split
  · exact Prog.always_error
  · exact treeInit_always hcon t

/-- **So does a later call**, also the first of a task that was not started. -/
theorem step_always (hcon : Connected task (T.rolesOf task)) (event : CollEvent) (t : Traced)
    (h : AtRest task (T.rolesOf task) T.isLeader t ∨ t.1.op.phase = kPhaseUnstarted) :
    (Traced.collectiveStep T task event t).Always (AtRest task (T.rolesOf task) T.isLeader) := by
  unfold Traced.collectiveStep
  split
  · rw [Prog.always_bind]
    exact Prog.always_mono (drive_always hcon) (treeInit_always hcon t)
  · rename_i hne
    exact drive_always hcon t (h.resolve_right hne)

end Calls

end TopologyTree

/-! ## 5. P2P -/

namespace TopologyP2p

/-- **A P2P task has one connection**, in its direction, or none if it has nothing to transfer. -/
def Connected (task : PlanTask) : Prop :=
  if task.elemCount = 0 then True
  else if task.func = .send then task.sendTransports.length = 1 ∧ task.recvTransports = []
  else task.sendTransports = [] ∧ task.recvTransports.length = 1

/-- The buffer of a P2P task. -/
def buffer (task : PlanTask) : Side → Loc × Nat
  | .out => (user task.sendBuf, task.elemCount * getDataTypeSize task.dtype)
  | .inn => (user task.recvBuf, task.elemCount * getDataTypeSize task.dtype)

/-- A P2P task inside its first call or between two calls: the flags of its connection are there. -/
def Sized (task : PlanTask) (t : Traced) : Prop :=
  (t.1.flags .out).size = task.sendTransports.length ∧ (t.1.flags .inn).size = task.recvTransports.length

/-- **A P2P task between two calls**: done, or its flag is not set and attended to. -/
def AtRest (task : PlanTask) (t : Traced) : Prop :=
  collectiveDone t.1 = true ∨ (task.elemCount ≠ 0 ∧ Sized task t ∧ (∃ sd i, Unset t.1 sd i) ∧
    ∀ sd i, Unset t.1 sd i → Attended (buffer task sd) sd i t.2)

variable {task : PlanTask} {t : Traced}

/-- A task whose one open connection has just been tried. -/
theorem atRest_of_tried {sd : Side} {data : Loc} {size : Nat} {s : RankState} {log : List Effect}
    (hne : task.elemCount ≠ 0) (hsized : Sized task (s, log ++ [.transfer sd 0 data size false]))
    (hbuffer : (data, size) = buffer task sd) (hone : (s.flags sd).size = 1)
    (hother : ∀ sd', sd' ≠ sd → (s.flags sd').size = 0) (hflag : (s.flags sd).get 0 = false) :
    AtRest task (s, log ++ [.transfer sd 0 data size false]) := by
  refine Or.inr ⟨hne, hsized, ⟨sd, 0, by rw [hone]; decide, hflag⟩, fun sd' i ⟨hi, _⟩ => ?_⟩
  by_cases hsd : sd' = sd
  · subst hsd
    rw [hone] at hi
    obtain rfl := Nat.lt_one_iff.mp hi
    rw [← hbuffer]
    exact attended_snoc ..
  · rw [hother sd' hsd] at hi
    exact absurd hi (Nat.not_lt_zero _)

/-- **A transfer** leaves the task done or attended to. -/
theorem transfer_always (hcon : Connected task) (hne : task.elemCount ≠ 0) (h : Sized task t) :
    (Traced.transfer task t).Always (AtRest task) := by
  rw [Connected, if_neg hne] at hcon
  obtain ⟨hout, hinn⟩ := h
  unfold Traced.transfer
  dsimp only
  split
  · rename_i hsend
    rw [if_pos hsend] at hcon
    obtain ⟨l, hl⟩ := List.length_eq_one_iff.mp hcon.1
    rw [hl]
    dsimp only
    rw [Prog.always_bind]
    refine trySend_always fun progress done => ?_
    cases done with
    | true => exact Or.inl rfl
    | false =>
      refine atRest_of_tried hne ⟨hout, hinn⟩ rfl (hout.trans hcon.1) (fun sd' hsd => ?_) (Vec.set_get_self ..)
      cases sd' with
      | out => exact absurd rfl hsd
      | inn => exact hinn.trans (congrArg List.length hcon.2)
  · rename_i hrecv
    rw [if_neg hrecv] at hcon
    obtain ⟨l, hl⟩ := List.length_eq_one_iff.mp hcon.2
    rw [hl]
    dsimp only
    rw [Prog.always_bind]
    refine tryRecv_always fun s progress done hs => ?_
    have hout' : s.op.sendDone.size = task.sendTransports.length :=
      (congrArg (fun c => c.sendDone.size) hs).trans hout
    have hinn' : s.op.recvDone.size = task.recvTransports.length :=
      (congrArg (fun c => c.recvDone.size) hs).trans hinn
    cases done with
    | true => exact Or.inl rfl
    | false =>
      refine atRest_of_tried hne ⟨hout', hinn'⟩ rfl (hinn'.trans hcon.2) (fun sd' hsd => ?_)
        (Vec.set_get_self ..)
      cases sd' with
      | out => exact hout'.trans (congrArg List.length hcon.1)
      | inn => exact absurd rfl hsd

/-- **A first call of a P2P task ends**, and leaves the task done or resting. -/
theorem init_always (hcon : Connected task) (t : Traced) :
    (Traced.collectiveInit task t).Always (AtRest task) := by
  unfold Traced.collectiveInit
  dsimp only
  split
  · exact Or.inl rfl
  · rename_i hne
    unfold Traced.collectiveStep
    rw [if_neg (by change ¬ ((0 : Int) == 1) = true; decide)]
    have hevent : ¬ ((if task.func = .send then CollEvent.writable else .readable) = .writable) ≠
        (task.func = .send) := by
      by_cases hsend : task.func = .send
      · simp [hsend]
      · simp [hsend]
    rw [if_neg hevent]
    exact transfer_always hcon hne ⟨rfl, rfl⟩

/-- **So does a later call.** -/
theorem step_always (hcon : Connected task) (event : CollEvent) (t : Traced) (h : AtRest task t) :
    (Traced.collectiveStep task event t).Always (AtRest task) := by
  unfold Traced.collectiveStep
  split
  · exact h
  · rename_i hdone
    obtain ⟨hne, hsized, -⟩ := h.resolve_left hdone
    split
    · exact h
    · exact transfer_always hcon hne hsized

end TopologyP2p

end OriginCCL
