/-
  File:      OriginCCL/Topology/RingIdle.lean
  Subject:   A RING TASK NEVER IDLES, whatever its connections answer.

  * `Pushed` -- what a half of `PushBuffer` leaves: every flag of its side that is not set was tried.
  * `RingOp.Steady` -- an operation whose pointers depend on its cursor only, and whose cursor comes to
    an end; `ringOp_steady` -- all five are.
  * `RingOp.Resting` -- a task between two calls: done, or some flag is not set and all such are
    attended to.
  * `init_always`, `step_always` -- **every call ends, and ends so**.
-/
import OriginCCL.Topology.RingAllreduce
import OriginCCL.Topology.RingExchange
import OriginCCL.Topology.RingTrace

namespace OriginCCL.TopologyRing

open Net

/-! ## 1. Pushing -/

/-- The buffer and the size of a side, as an operation computes them. -/
def Operation.buffer (op : Operation) (task : PlanTask) (s : RankState) : Side → Loc × Nat
  | .out => (op.sendPtr task s, op.sendBytes task s)
  | .inn => (op.recvPtr task s, op.recvBytes task s)

/-- **A side has been pushed**: only transfers of its buffer were tried, and what is not set on it was
    tried or is not among its connections. -/
structure Pushed (sd : Side) (buffer : Loc × Nat) (ls : List (Link × Nat)) (t t' : Traced) : Prop where
  phase : t'.1.op.phase = t.1.op.phase
  step : t'.1.step = t.1.step
  temp : t'.1.op.tempBuffer.size = t.1.op.tempBuffer.size
  size : (t'.1.flags sd).size = (t.1.flags sd).size
  other : ∀ sd', sd' ≠ sd → t'.1.flags sd' = t.1.flags sd'
  log : ∃ as, t'.2 = t.2 ++ as ∧ ∀ a ∈ as, ∃ i done,
    a = .transfer sd i buffer.1 buffer.2 done ∧ (t.1.flags sd).get i = false
  kept : ∀ i, (t.1.flags sd).get i = true → (t'.1.flags sd).get i = true
  tried : ∀ i, (t'.1.flags sd).get i = false → Attended buffer sd i t'.2 ∨
    (i ∉ ls.map Prod.snd ∧ (t.1.flags sd).get i = false ∧ latest sd i t'.2 = latest sd i t.2)

section Pushing

variable {sd : Side} {buffer : Loc × Nat} {t t' t'' : Traced}

theorem Pushed.refl (sd : Side) (buffer : Loc × Nat) (t : Traced) : Pushed sd buffer [] t t :=
  ⟨rfl, rfl, rfl, rfl, fun _ _ => rfl, ⟨[], (List.append_nil _).symm, nofun⟩, fun _ hi => hi,
    fun _ hi => Or.inr ⟨List.not_mem_nil, hi, rfl⟩⟩

/-- The other side has not been tried. -/
theorem Pushed.latest_other {ls : List (Link × Nat)} (h : Pushed sd buffer ls t t') {sd' : Side}
    (hne : sd' ≠ sd) (i : Nat) : latest sd' i t'.2 = latest sd' i t.2 := by
  obtain ⟨as, hlog, has⟩ := h.log
  rw [hlog]
  refine latest_append as fun a ha => ?_
  obtain ⟨j, done, rfl, -⟩ := has a ha
  exact decide_eq_false fun he => hne he.1.symm

/-- A connection that is done is passed over. -/
theorem Pushed.skip {ls : List (Link × Nat)} {l : Link} {i : Nat} (hi : (t.1.flags sd).get i = true)
    (h : Pushed sd buffer ls t t') : Pushed sd buffer ((l, i) :: ls) t t' := by
  refine { h with tried := fun j hj => ?_ }
  rcases h.tried j hj with hatt | ⟨hmem, hflag, hlast⟩
  · exact Or.inl hatt
  · refine Or.inr ⟨fun hin => ?_, hflag, hlast⟩
    rcases List.mem_cons.mp hin with rfl | hin
    · rw [hi] at hflag
      cases hflag
    · exact hmem hin

/-- A connection that is not done is tried, then the others. -/
theorem Pushed.cons {ls : List (Link × Nat)} {l : Link} {i : Nat} {done : Bool}
    (h : Pushed sd buffer ls t' t'') (hopen : ¬ (t.1.flags sd).get i = true)
    (hphase : t'.1.op.phase = t.1.op.phase) (hstep : t'.1.step = t.1.step)
    (htemp : t'.1.op.tempBuffer.size = t.1.op.tempBuffer.size)
    (hflags : t'.1.flags sd = (t.1.flags sd).set i done)
    (hother : ∀ sd', sd' ≠ sd → t'.1.flags sd' = t.1.flags sd')
    (hlog : t'.2 = t.2 ++ [.transfer sd i buffer.1 buffer.2 done]) : Pushed sd buffer ((l, i) :: ls) t t'' := by
  have hset : ∀ j, (t.1.flags sd).get j = true → (t'.1.flags sd).get j = true := by
    intro j hj
    have hji : j ≠ i := fun he => hopen (he ▸ hj)
    rw [hflags, Vec.set_get_ne _ _ hji]
    exact hj
  refine ⟨h.phase.trans hphase, h.step.trans hstep, h.temp.trans htemp, ?_,
    fun sd' hne => (h.other sd' hne).trans (hother sd' hne), ?_, fun j hj => h.kept j (hset j hj),
    fun j hj => ?_⟩
  · rw [h.size, hflags, Vec.set_size]
  · obtain ⟨as, has, hall⟩ := h.log
    refine ⟨.transfer sd i buffer.1 buffer.2 done :: as, ?_, fun a ha => ?_⟩
    · rw [has, hlog, List.append_assoc]
      rfl
    · rcases List.mem_cons.mp ha with rfl | ha
      · exact ⟨i, done, rfl, Bool.eq_false_of_not_eq_true hopen⟩
      · obtain ⟨j, d, hx, hj⟩ := hall a ha
        refine ⟨j, d, hx, Bool.eq_false_of_not_eq_true fun ht => ?_⟩
        rw [hset j ht] at hj
        cases hj
  · rcases h.tried j hj with hatt | ⟨hmem, hflag, hlast⟩
    · exact Or.inl hatt
    · rw [hflags] at hflag
      by_cases hji : j = i
      · subst hji
        rw [Vec.set_get_self] at hflag
        rw [hflag] at hlog
        refine Or.inl ?_
        rw [Attended, hlast, hlog]
        exact attended_snoc ..
      · rw [Vec.set_get_ne _ _ hji] at hflag
        refine Or.inr ⟨fun hin => ?_, hflag, ?_⟩
        · rcases List.mem_cons.mp hin with he | hin
          · exact hji he
          · exact hmem hin
        · rw [hlast, hlog]
          exact latest_transfer_ne _ _ _ fun he => hji he.2.symm

namespace Traced

theorem pushSends_always (data : Loc) (bytes : Nat) (ls : List (Link × Nat)) (t : Traced) :
    (pushSends data bytes ls t).Always (Pushed .out (data, bytes) ls t) := by
  induction ls generalizing t with
  | nil => exact Pushed.refl ..
  | cons x rest ih =>
    obtain ⟨l, i⟩ := x
    rw [pushSends]
    split
    · rename_i hi
      exact Prog.always_mono (fun t' h => Pushed.skip hi h) (ih t)
    · rename_i hopen
      rw [Prog.always_bind]
      intro n
      cases n with
      | none => exact Prog.always_error
      | some n =>
        change (pushSends data bytes rest (t.1.setSend i (t.1.op.sendProgress.get i + n)
          (t.1.op.sendProgress.get i + n == bytes), t.2 ++ [.transfer .out i data bytes _])).Always _
        refine Prog.always_mono (fun t' h => ?_) (ih _)
        refine h.cons hopen rfl rfl rfl rfl (fun sd' hne => ?_) rfl
        cases sd' with
        | out => exact absurd rfl hne
        | inn => rfl

theorem pushRecvs_always (data : Loc) (bytes : Nat) (ls : List (Link × Nat)) (t : Traced) :
    (pushRecvs data bytes ls t).Always (Pushed .inn (data, bytes) ls t) := by
  induction ls generalizing t with
  | nil => exact Pushed.refl ..
  | cons x rest ih =>
    obtain ⟨l, i⟩ := x
    rw [pushRecvs]
    split
    · rename_i hi
      exact Prog.always_mono (fun t' h => Pushed.skip hi h) (ih t)
    · rename_i hopen
      rw [Prog.always_bind]
      intro bs
      cases bs with
      | none => exact Prog.always_error
      | some bs =>
        change (pushRecvs data bytes rest ((t.1.write (data.shift (t.1.op.recvProgress.get i)) bs).setRecv
          i (t.1.op.recvProgress.get i + bs.length) (t.1.op.recvProgress.get i + bs.length == bytes),
            t.2 ++ [.transfer .inn i data bytes _])).Always _
        refine Prog.always_mono (fun t' h => ?_) (ih _)
        have hop := RankState.write_op t.1 (data.shift (t.1.op.recvProgress.get i)) bs
        have hsize := RankState.write_temp_size t.1 (data.shift (t.1.op.recvProgress.get i)) bs
        refine h.cons hopen ?_ ?_ hsize ?_ (fun sd' hne => ?_) rfl
        · change (t.1.write _ bs).op.phase = _
          rw [hop]
        · change (t.1.write _ bs).op.algo.ring.step = _
          rw [hop]
          rfl
        · change (t.1.write _ bs).op.recvDone.set i _ = _
          rw [hop]
          rfl
        · cases sd' with
          | out =>
            change (t.1.write _ bs).op.sendDone = _
            rw [hop]
            rfl
          | inn => exact absurd rfl hne

/-- The side an event drives. -/
def eventSide : CollEvent → Side
  | .writable => .out
  | .readable => .inn

/-- The connections of a side with their numbers. -/
def connections (task : PlanTask) : Side → List (Link × Nat)
  | .out => task.sendTransports.zipIdx
  | .inn => task.recvTransports.zipIdx

/-- **Pushing a side tries what is not done on it.** -/
theorem pushBuffer_always (task : PlanTask) (event : CollEvent) (b : Side → Loc × Nat) (t : Traced) :
    (pushBuffer task event (b .out).1 (b .inn).1 (b .out).2 (b .inn).2 t).Always
      (Pushed (eventSide event) (b (eventSide event)) (connections task (eventSide event)) t) := by
  cases event with
  | writable => exact pushSends_always ..
  | readable => exact pushRecvs_always ..

end Traced

end Pushing

/-! ## 2. Operations that come to an end -/

/-- **The cursor of an operation comes to an end**: `left` bounds the rounds that are left at a cursor.
    Its pointers depend on the cursor only, also in the phase that is about to begin. -/
structure RingOp.Steady (o : RingOp) (task : PlanTask) (left : Int → Int → Nat)
    (valid : Int → Int → Prop) : Prop where
  buffer : ∀ s s' : RankState, s.op.phase = s'.op.phase → s.step = s'.step →
    o.op.buffer task s = o.op.buffer task s'
  ends : ∀ s : RankState, valid s.op.phase s.step → s.op.phase ≠ kPhaseDone →
    (o.op.settle task s).2 = none → (o.op.settle task s).1.op.phase = kPhaseDone
  goes : ∀ (s : RankState) (phase : Int), valid s.op.phase s.step → s.op.phase ≠ kPhaseDone →
    (o.op.settle task s).2 = some phase →
      valid phase (o.op.settle task s).1.step ∧
      left phase (o.op.settle task s).1.step < left s.op.phase s.step ∧
      o.op.buffer task (o.op.settle task s).1 =
        o.op.buffer task ((o.op.settle task s).1.setPhase phase)
  finishes : ∀ t t', o.start task t = .finished t' → t'.1.op.phase = kPhaseDone
  begins : ∀ t t' phase, o.start task t = .begins t' phase →
    valid phase t'.1.step ∧ left phase t'.1.step < o.rounds task ∧
      o.op.buffer task t'.1 = o.op.buffer task (t'.1.setPhase phase)

section Steady

variable {o : RingOp} {task : PlanTask} {left : Int → Int → Nat} {valid : Int → Int → Prop}

/-- Every flag of the task that is not set is attended to. -/
def RingOp.Attends (o : RingOp) (task : PlanTask) (t : Traced) : Prop :=
  ∀ sd i, Unset t.1 sd i → Attended (o.op.buffer task t.1 sd) sd i t.2

/-- **A task inside a call**, between two pushes: done, or at a valid cursor with its flags attended
    to. -/
def RingOp.Moving (o : RingOp) (task : PlanTask) (valid : Int → Int → Prop) (t : Traced) : Prop :=
  t.1.op.phase = kPhaseDone ∨ (valid t.1.op.phase t.1.step ∧ o.Attends task t)

/-- **A task between two calls**: done, or at a valid cursor with rounds left, and some flag is not set
    and all such are attended to. -/
def RingOp.Resting (o : RingOp) (task : PlanTask) (left : Int → Int → Nat)
    (valid : Int → Int → Prop) (t : Traced) : Prop :=
  t.1.op.phase = kPhaseDone ∨ (valid t.1.op.phase t.1.step ∧
    left t.1.op.phase t.1.step < o.rounds task ∧ (∃ sd i, Unset t.1 sd i) ∧ o.Attends task t)

/-- A push keeps every flag attended to, if it is one of the current buffer. -/
theorem Pushed.attends (H : o.Steady task left valid) {sd : Side} {b : Loc × Nat}
    {ls : List (Link × Nat)} {t t' : Traced} (h : Pushed sd b ls t t') (hb : b = o.op.buffer task t.1 sd)
    (ht : o.Attends task t) : o.Attends task t' := by
  intro sd' i ⟨hi, hflag⟩
  rw [H.buffer t'.1 t.1 h.phase h.step]
  by_cases hsd : sd' = sd
  · subst hsd
    rcases h.tried i hflag with hatt | ⟨-, hflag', hlast⟩
    · rw [← hb]
      exact hatt
    · rw [Attended, hlast]
      exact ht sd' i ⟨by rw [← h.size]; exact hi, hflag'⟩
  · rw [Attended, h.latest_other hsd]
    rw [h.other sd' hsd] at hi hflag
    exact ht sd' i ⟨hi, hflag⟩

theorem mem_connections {i : Nat} {sd : Side}
    (h : i < (match sd with
      | .out => task.sendTransports.length
      | .inn => task.recvTransports.length)) : i ∈ (Traced.connections task sd).map Prod.snd := by
  cases sd with
  | out =>
    change i ∈ (task.sendTransports.zipIdx).map Prod.snd
    rw [List.zipIdx_map_snd, List.mem_range'_1]
    exact ⟨Nat.zero_le _, by rw [Nat.zero_add]; exact h⟩
  | inn =>
    change i ∈ (task.recvTransports.zipIdx).map Prod.snd
    rw [List.zipIdx_map_snd, List.mem_range'_1]
    exact ⟨Nat.zero_le _, by rw [Nat.zero_add]; exact h⟩

/-- **Beginning a phase** tries every connection that is not skipped. -/
theorem begin_always (H : o.Steady task left valid) (phase : Int) (t : Traced)
    (hbuffer : o.op.buffer task t.1 = o.op.buffer task (t.1.setPhase phase)) :
    (Traced.begin o.op task phase t).Always fun t' =>
      t'.1.op.phase = phase ∧ t'.1.step = t.1.step ∧ o.Attends task t' := by
  rw [Traced.begin, Traced.beginPhase, Prog.always_bind]
  refine Prog.always_mono (fun t₁ h₁ => ?_)
    (Traced.pushBuffer_always task .writable (o.op.buffer task t.1) _)
  refine Prog.always_mono (fun t₂ h₂ => ?_)
    (Traced.pushBuffer_always task .readable (o.op.buffer task t.1) t₁)
  have hphase : t₂.1.op.phase = phase := h₂.phase.trans h₁.phase
  have hstep : t₂.1.step = t.1.step := h₂.step.trans h₁.step
  refine ⟨hphase, hstep, fun sd i ⟨hi, hflag⟩ => ?_⟩
  have hb : o.op.buffer task t₂.1 = o.op.buffer task t.1 :=
    (H.buffer t₂.1 (t.1.setPhase phase) hphase hstep).trans hbuffer.symm
  rw [hb]
  cases sd with
  | out =>
    rw [h₂.other .out (by decide)] at hi hflag
    rw [Attended, h₂.latest_other (by decide)]
    rcases h₁.tried i hflag with hatt | ⟨hmem, -⟩
    · exact hatt
    · have hsize : (t₁.1.flags .out).size = task.sendTransports.length := h₁.size.trans (Vec.assign_size ..)
      rw [hsize] at hi
      exact absurd (mem_connections hi) hmem
  | inn =>
    rcases h₂.tried i hflag with hatt | ⟨hmem, -⟩
    · exact hatt
    · have hsize : (t₂.1.flags .inn).size = task.recvTransports.length :=
        h₂.size.trans ((congrArg Vec.size (h₁.other .inn (by decide))).trans (Vec.assign_size ..))
      rw [hsize] at hi
      exact absurd (mem_connections hi) hmem

/-- A side that is not done has a flag that is not set. -/
theorem exists_unset {s : RankState} (h : ¬ (sideDone s.op.sendDone && sideDone s.op.recvDone) = true) :
    ∃ sd i, Unset s sd i := by
  have key : ∀ {v : Vec Bool}, ¬ sideDone v = true → ∃ i < v.size, v.get i = false := by
    intro v hv
    by_contra hno
    refine hv ((Vec.all_iff v id).mpr fun i hi => ?_)
    by_contra hf
    exact hno ⟨i, hi, Bool.not_eq_true _ ▸ hf⟩
  rw [Bool.and_eq_true, not_and_or] at h
  rcases h with h | h
  · obtain ⟨i, hi, hf⟩ := key h
    exact ⟨.out, i, hi, hf⟩
  · obtain ⟨i, hi, hf⟩ := key h
    exact ⟨.inn, i, hi, hf⟩

/-- **The `Complete*` loops end**: done, or in a round that is not complete. -/
theorem completeLoop_always (H : o.Steady task left valid) (fuel : Nat) (t : Traced) (ht : o.Moving task valid t)
    (hleft : left t.1.op.phase t.1.step < fuel) (hfuel : fuel ≤ o.rounds task) :
    (Traced.completeLoop o task fuel t).Always (o.Resting task left valid) := by
  induction fuel generalizing t with
  | zero => exact absurd hleft (Nat.not_lt_zero _)
  | succ fuel ih =>
    rw [Traced.completeLoop]
    split
    · rename_i hcond
      rw [Bool.and_eq_true, bne_iff_ne] at hcond
      obtain ⟨hv, hatt⟩ := ht.resolve_left hcond.2
      cases hset : o.op.settle task t.1 with
      | mk s next =>
        cases next with
        | none =>
          have hend := H.ends t.1 hv hcond.2 (by rw [hset])
          rw [hset] at hend
          exact Or.inl hend
        | some phase =>
          have hgo := H.goes t.1 phase hv hcond.2 (by rw [hset])
          rw [hset] at hgo
          obtain ⟨hv', hless, hb⟩ := hgo
          dsimp only
          rw [Prog.always_bind]
          refine Prog.always_mono (fun t' ht' => ?_) (begin_always H phase (s, _) hb)
          obtain ⟨hp, hs, hatt'⟩ := ht'
          refine ih t' (Or.inr ⟨?_, hatt'⟩) ?_ (by omega)
          · rw [hp, hs]
            exact hv'
          · rw [hp, hs]
            exact Nat.lt_of_lt_of_le hless (Nat.le_of_lt_succ hleft)
    · rename_i hcond
      rcases ht with hdone | ⟨hv, hatt⟩
      · exact Or.inl hdone
      · by_cases hdone : t.1.op.phase = kPhaseDone
        · exact Or.inl hdone
        · refine Or.inr ⟨hv, Nat.lt_of_lt_of_le hleft hfuel, exists_unset fun hboth => hcond ?_, hatt⟩
          rw [hboth, Bool.true_and]
          exact bne_iff_ne.mpr hdone

/-- **A first call ends**, and leaves the task done or resting. -/
theorem init_always (H : o.Steady task left valid) (t : Traced) :
    (Traced.init o task t).Always (o.Resting task left valid) := by
  rw [Traced.init]
  cases hstart : o.start task t with
  | rejected => exact Prog.always_error
  | finished t' => exact Or.inl (H.finishes t t' hstart)
  | begins t' phase =>
    obtain ⟨hv, hless, hb⟩ := H.begins t t' phase hstart
    dsimp only
    rw [Prog.always_bind]
    refine Prog.always_mono (fun t₁ h₁ => ?_) (begin_always H phase t' hb)
    obtain ⟨hp, hs, hatt⟩ := h₁
    refine completeLoop_always H _ t₁ (Or.inr ⟨?_, hatt⟩) ?_ (Nat.le_refl _)
    · rw [hp, hs]
      exact hv
    · rw [hp, hs]
      exact hless

theorem drive_always (H : o.Steady task left valid) (event : CollEvent) (t : Traced)
    (ht : o.Resting task left valid t) :
    (Traced.drive o task event t).Always (o.Resting task left valid) := by
  rw [Traced.drive]
  split
  · exact ht
  · rename_i hdone
    obtain ⟨hv, hless, -, hatt⟩ := ht.resolve_left hdone
    rw [Prog.always_bind]
    refine Prog.always_mono (fun t₁ h₁ => ?_)
      (Traced.pushBuffer_always task event (o.op.buffer task t.1) (Traced.noteCursor t))
    have hnote : o.Attends task (Traced.noteCursor t) := by
      intro sd i hi
      change Attended _ sd i (t.2 ++ [_])
      rw [Attended, latest_snoc_ne rfl]
      exact hatt sd i hi
    refine completeLoop_always H _ t₁
      (Or.inr ⟨?_, h₁.attends H rfl hnote⟩) ?_ (Nat.le_refl _)
    · rw [h₁.phase, h₁.step]
      exact hv
    · rw [h₁.phase, h₁.step]
      exact hless

/-- **So does a later call**, also the first of a task that was not started. -/
theorem step_always (H : o.Steady task left valid) (event : CollEvent) (t : Traced)
    (ht : o.Resting task left valid t ∨ t.1.op.phase = kPhaseUnstarted) :
    (Traced.step o task event t).Always (o.Resting task left valid) := by
  rw [Traced.step]
  split
  · rw [Prog.always_bind]
    exact Prog.always_mono (drive_always H event) (init_always H t)
  · rename_i hne
    exact drive_always H event t (ht.resolve_right hne)

end Steady

/-! ## 3. The five operations -/

section Operations

variable (task : PlanTask)

/-- The rounds that are left of an operation whose connections turn once: `Recv`, `Send`, done. -/
def chainLeft (phase _step : Int) : Nat :=
  if phase = kPhaseDone then 0 else if phase = kPhaseRecv then 2 else 1

/-- The rounds that are left of an exchange of blocks. -/
def exchangeLeft (phase step : Int) : Nat :=
  if phase = kPhaseDone then 0 else max 1 (task.worldSize - 1 - step).toNat

/-- The rounds that are left of AllReduce. -/
def allreduceLeft (phase step : Int) : Nat :=
  if phase = kPhaseDone then 0
  else if phase = kPhaseReduceScatter then
    max 1 (totalOps task - step.toNat) + max 1 (totalOps task)
  else max 1 (totalOps task - step.toNat)

/-- Two cursors at which an operation that does not look at the phase has the same buffers. -/
theorem buffer_setPhase {op : Operation} (phase : Int)
    (h : ∀ s s' : RankState, s.step = s'.step → op.buffer task s = op.buffer task s') (s : RankState) :
    op.buffer task s = op.buffer task (s.setPhase phase) :=
  h s (s.setPhase phase) rfl

theorem broadcast_steady : broadcastOp.Steady task chainLeft fun _ _ => True where
  buffer _ _ _ _ := rfl
  ends s _ _ h := by
    change (broadcastSettle task s).2 = none at h
    unfold broadcastSettle at h
    split at h <;> cases h
  goes s phase _ hne h := by
    change (broadcastSettle task s).2 = some phase at h
    change _ ∧ chainLeft phase (broadcastSettle task s).1.step < chainLeft s.op.phase s.step ∧ _
    refine ⟨trivial, ?_, rfl⟩
    unfold broadcastSettle at h ⊢
    split at h
    · rename_i hrecv
      cases h
      rw [if_pos hrecv, hrecv.1]
      exact (by decide : chainLeft kPhaseSend 0 < chainLeft kPhaseRecv 0)
    · cases h
      rw [chainLeft, if_pos rfl, chainLeft, if_neg hne]
      split <;> decide
  finishes t t' h := by
    change broadcastStart task t = .finished t' at h
    unfold broadcastStart at h
    split_ifs at h <;> cases h <;> rfl
  begins t t' phase h := by
    change broadcastStart task t = .begins t' phase at h
    change _ ∧ chainLeft phase t'.1.step < 3 ∧ _
    refine ⟨trivial, ?_, rfl⟩
    rw [chainLeft]
    split_ifs <;> decide

theorem reduce_steady : reduceOp.Steady task chainLeft fun _ _ => True where
  buffer _ _ _ _ := rfl
  ends s _ _ h := by
    change (reduceSettle task s).2 = none at h
    unfold reduceSettle at h
    split_ifs at h
  goes s phase _ hne h := by
    change (reduceSettle task s).2 = some phase at h
    change _ ∧ chainLeft phase (reduceSettle task s).1.step < chainLeft s.op.phase s.step ∧ _
    refine ⟨trivial, ?_, rfl⟩
    unfold reduceSettle at h
    by_cases hrecv : s.op.phase = kPhaseRecv
    · rw [if_pos hrecv] at h
      rw [hrecv]
      split_ifs at h <;> cases h
      · exact (by decide : chainLeft kPhaseDone 0 < chainLeft kPhaseRecv 0)
      · exact (by decide : chainLeft kPhaseDone 0 < chainLeft kPhaseRecv 0)
      · exact (by decide : chainLeft kPhaseSend 0 < chainLeft kPhaseRecv 0)
    · rw [if_neg hrecv] at h
      cases h
      rw [chainLeft, if_pos rfl, chainLeft, if_neg hne]
      split <;> decide
  finishes t t' h := by
    change reduceStart task t = .finished t' at h
    unfold reduceStart at h
    split_ifs at h <;> cases h <;> rfl
  begins t t' phase h := by
    change reduceStart task t = .begins t' phase at h
    change _ ∧ chainLeft phase t'.1.step < 3 ∧ _
    refine ⟨trivial, ?_, rfl⟩
    rw [chainLeft]
    split_ifs <;> decide

/-- An exchange goes on with the next block, or is done. -/
theorem exchangeLeft_next {phase step : Int} (h : phase ≠ kPhaseDone) :
    exchangeLeft task (if step + 1 < task.worldSize - 1 then kPhaseExchange else kPhaseDone) (step + 1) <
      exchangeLeft task phase step := by
  rw [exchangeLeft, exchangeLeft, if_neg h]
  by_cases hmore : step + 1 < task.worldSize - 1
  · rw [if_pos hmore, if_neg (by decide)]
    omega
  · rw [if_neg hmore, if_pos rfl]
    omega

theorem exchangeLeft_start (h : ¬ task.worldSize ≤ 0) :
    exchangeLeft task kPhaseExchange 0 < task.worldSize.toNat + 1 := by
  rw [exchangeLeft, if_neg (by decide)]
  omega

theorem allGather_steady : allGatherOp.Steady task (exchangeLeft task) fun _ _ => True where
  buffer s s' _ hstep := by
    funext sd
    cases sd with
    | out =>
      change (allGatherSendPtr task s, blockBytes task) = (allGatherSendPtr task s', blockBytes task)
      rw [allGatherSendPtr, allGatherSendPtr, hstep]
    | inn =>
      change (allGatherRecvPtr task s, blockBytes task) = (allGatherRecvPtr task s', blockBytes task)
      rw [allGatherRecvPtr, allGatherRecvPtr, hstep]
  ends s _ _ h := by cases h
  goes s phase _ hne h := by
    refine ⟨trivial, ?_, rfl⟩
    obtain rfl := Option.some.inj h
    exact exchangeLeft_next task hne
  finishes t t' h := by
    change allGatherStart task t = .finished t' at h
    unfold allGatherStart at h
    simp only at h
    split_ifs at h <;> cases h <;> rfl
  begins t t' phase h := by
    change allGatherStart task t = .begins t' phase at h
    change _ ∧ exchangeLeft task phase t'.1.step < task.worldSize.toNat + 1 ∧ _
    refine ⟨trivial, ?_, rfl⟩
    unfold allGatherStart at h
    simp only at h
    split_ifs at h with hN
    cases h
    have hstep : (Traced.perform task [.memcpy (outputBlock task task.rank) (user task.sendBuf)
        (blockBytes task)] (Traced.cleared t)).1.step = 0 :=
      step_eq_of_control (Effect.control_runAll task _ (clear t.1))
    rw [hstep]
    exact exchangeLeft_start task hN

theorem reduceScatter_steady : reduceScatterOp.Steady task (exchangeLeft task) fun _ _ => True where
  buffer s s' _ hstep := by
    funext sd
    cases sd with
    | out =>
      change (reduceScatterSendPtr task s, blockBytes task) =
        (reduceScatterSendPtr task s', blockBytes task)
      rw [reduceScatterSendPtr, reduceScatterSendPtr, hstep]
    | inn =>
      change (reduceScatterRecvPtr task s, blockBytes task) =
        (reduceScatterRecvPtr task s', blockBytes task)
      rw [reduceScatterRecvPtr, reduceScatterRecvPtr, hstep]
  ends s _ _ h := by
    change (reduceScatterSettle task s).2 = none at h
    unfold reduceScatterSettle at h
    simp only at h
    split_ifs at h
  goes s phase _ hne h := by
    refine ⟨trivial, ?_, rfl⟩
    obtain ⟨hstep, hphase⟩ := reduceScatterSettle_eq task s
    change (reduceScatterSettle task s).2 = some phase at h
    change exchangeLeft task phase (reduceScatterSettle task s).1.step < _
    rw [hphase] at h
    obtain rfl := Option.some.inj h
    rw [hstep]
    exact exchangeLeft_next task hne
  finishes t t' h := by
    change reduceScatterStart task t = .finished t' at h
    unfold reduceScatterStart at h
    simp only at h
    split_ifs at h <;> cases h <;> rfl
  begins t t' phase h := by
    change reduceScatterStart task t = .begins t' phase at h
    change _ ∧ exchangeLeft task phase t'.1.step < task.worldSize.toNat + 1 ∧ _
    refine ⟨trivial, ?_, rfl⟩
    unfold reduceScatterStart at h
    simp only at h
    split_ifs at h with hN
    cases h
    have hstep : ∀ as : List Effect, (Traced.perform task as
        ((Traced.cleared t).1.resizeTemp (blockBytes task), (Traced.cleared t).2)).1.step = 0 := fun as =>
      step_eq_of_control (Effect.control_runAll task as ((clear t.1).resizeTemp (blockBytes task)))
    rw [hstep]
    exact exchangeLeft_start task hN

/-- The phases of AllReduce. -/
def AllreduceCursor (phase step : Int) : Prop :=
  0 ≤ step ∧ (phase = kPhaseReduceScatter ∨ phase = kPhaseAllGather)

theorem RankState.setPhase_self {s : RankState} {phase : Int} (h : s.op.phase = phase) :
    s.setPhase phase = s := by
  subst h
  rfl

theorem allreduceLeft_first (step : Int) : allreduceLeft task kPhaseReduceScatter step =
    max 1 (totalOps task - step.toNat) + max 1 (totalOps task) := by
  rw [allreduceLeft, if_neg (by decide), if_pos rfl]

theorem allreduceLeft_second (step : Int) :
    allreduceLeft task kPhaseAllGather step = max 1 (totalOps task - step.toNat) := by
  rw [allreduceLeft, if_neg (by decide), if_neg (by decide)]

/-- **What a round of AllReduce turns to**: the second half, the end, or the next round. -/
theorem allreduceSettle_cases {s : RankState} (h : AllreduceCursor s.op.phase s.step) :
    ∃ s', (allreduceSettle task s = (s', some kPhaseAllGather) ∧ s.op.phase = kPhaseReduceScatter ∧
        s'.op.phase = kPhaseAllGather ∧ s'.step = 0) ∨
      (allreduceSettle task s = (s', none) ∧ s'.op.phase = kPhaseDone) ∨
      (allreduceSettle task s = (s', some s.op.phase) ∧ s'.op.phase = s.op.phase ∧
        s'.step = s.step + 1 ∧ (s.step + 1).toNat < totalOps task) := by
  obtain ⟨hstep, hphase | hphase⟩ := h
  · have hr : (allreduceReduce task s).op.phase = kPhaseReduceScatter := by
      rw [allreduceReduce_phase, hphase]
    have hag : kPhaseReduceScatter ≠ kPhaseAllGather := by decide
    unfold allreduceSettle
    simp only [if_pos hphase]
    by_cases hlast : (s.step + 1).toNat ≥ totalOps task
    · refine ⟨_, Or.inl ⟨if_pos ⟨hr, ?_⟩, hphase, rfl, rfl⟩⟩
      change ((allreduceReduce task s).step + 1).toNat ≥ totalOps task
      rw [allreduceReduce_step]
      exact hlast
    · refine ⟨(allreduceReduce task s).setStep ((allreduceReduce task s).step + 1),
        Or.inr (Or.inr ⟨?_, hr.trans hphase.symm, ?_, Nat.lt_of_not_le hlast⟩)⟩
      · rw [if_neg, if_neg fun hx => hag (hr.symm.trans hx.1)]
        · rw [hphase]
          exact congrArg (fun x => (_, some x)) hr
        · intro hx
          have hge : ((allreduceReduce task s).step + 1).toNat ≥ totalOps task := hx.2
          rw [allreduceReduce_step] at hge
          exact hlast hge
      · change (allreduceReduce task s).step + 1 = _
        rw [allreduceReduce_step]
  · have hne : ¬ s.op.phase = kPhaseReduceScatter := by rw [hphase]; decide
    unfold allreduceSettle
    simp only [if_neg hne]
    rw [if_neg fun hx => hne hx.1]
    by_cases hlast : (s.step + 1).toNat ≥ totalOps task
    · exact ⟨_, Or.inr (Or.inl ⟨if_pos ⟨hphase, hlast⟩, rfl⟩)⟩
    · exact ⟨s.setStep (s.step + 1), Or.inr (Or.inr ⟨if_neg fun hx => hlast hx.2, rfl, rfl,
        Nat.lt_of_not_le hlast⟩)⟩

theorem allreduce_steady : allreduceOp.Steady task (allreduceLeft task) AllreduceCursor where
  buffer s s' hphase hstep := by
    have hsend : allreduceSendChunk task s = allreduceSendChunk task s' := by
      simp only [allreduceSendChunk, allreduceUnit, allreduceStepInUnit, hphase, hstep]
    have hrecv : allreduceRecvChunk task s = allreduceRecvChunk task s' := by
      simp only [allreduceRecvChunk, allreduceUnit, allreduceStepInUnit, hphase, hstep]
    funext sd
    cases sd with
    | out =>
      change (allreduceSendPtr task s, allreduceSendBytes task s) =
        (allreduceSendPtr task s', allreduceSendBytes task s')
      rw [allreduceSendPtr, allreduceSendPtr, allreduceSendBytes, allreduceSendBytes, hsend]
    | inn =>
      change (allreduceRecvPtr task s, allreduceRecvBytes task s) =
        (allreduceRecvPtr task s', allreduceRecvBytes task s')
      rw [allreduceRecvPtr, allreduceRecvPtr, allreduceRecvBytes, allreduceRecvBytes, hrecv, hphase]
  ends s hv _ h := by
    change (allreduceSettle task s).2 = none at h
    change (allreduceSettle task s).1.op.phase = kPhaseDone
    obtain ⟨s', ⟨hset, -⟩ | ⟨hset, hdone⟩ | ⟨hset, -⟩⟩ := allreduceSettle_cases task hv
    · rw [hset] at h
      cases h
    · rw [hset]
      exact hdone
    · rw [hset] at h
      cases h
  goes s phase hv _ h := by
    change (allreduceSettle task s).2 = some phase at h
    change AllreduceCursor phase (allreduceSettle task s).1.step ∧
      allreduceLeft task phase (allreduceSettle task s).1.step < allreduceLeft task s.op.phase s.step ∧
        allreduceOp.op.buffer task (allreduceSettle task s).1 =
          allreduceOp.op.buffer task ((allreduceSettle task s).1.setPhase phase)
    obtain ⟨s', ⟨hset, hfrom, hphase, hstep⟩ | ⟨hset, -⟩ | ⟨hset, hphase, hstep, hmore⟩⟩ :=
      allreduceSettle_cases task hv
    · rw [hset] at h ⊢
      obtain rfl := Option.some.inj h
      refine ⟨⟨Int.le_of_eq hstep.symm, Or.inr rfl⟩, ?_, congrArg _ (RankState.setPhase_self hphase).symm⟩
      dsimp only
      rw [hstep, hfrom, allreduceLeft_first, allreduceLeft_second]
      simp only [Int.toNat_zero]
      omega
    · rw [hset] at h
      cases h
    · rw [hset] at h ⊢
      obtain rfl := Option.some.inj h
      refine ⟨⟨?_, hv.2⟩, ?_, congrArg _ (RankState.setPhase_self hphase).symm⟩
      · have hnonneg := hv.1
        dsimp only
        omega
      · have hnonneg := hv.1
        dsimp only
        rw [hstep]
        rcases hv.2 with hp | hp
        · rw [hp, allreduceLeft_first, allreduceLeft_first]
          omega
        · rw [hp, allreduceLeft_second, allreduceLeft_second]
          omega
  finishes t t' h := by
    change allreduceStart task t = .finished t' at h
    unfold allreduceStart at h
    simp only at h
    split_ifs at h <;> cases h <;> rfl
  begins t t' phase h := by
    change allreduceStart task t = .begins t' phase at h
    change _ ∧ allreduceLeft task phase t'.1.step < 2 * totalOps task + 3 ∧ _
    unfold allreduceStart at h
    simp only at h
    split_ifs at h <;> cases h
    all_goals
      refine ⟨⟨Int.le_refl _, Or.inl rfl⟩, ?_, rfl⟩
      change allreduceLeft task kPhaseReduceScatter 0 < _
      rw [allreduceLeft_first]
      simp only [Int.toNat_zero]
      omega

/-- **All five operations come to an end.** -/
theorem ringOp_steady {f : CollFunc} {o : RingOp} (h : ringOp f = some o) :
    ∃ left valid, o.Steady task left valid := by
  cases f with
  | allReduce =>
    obtain rfl := Option.some.inj h
    exact ⟨_, _, allreduce_steady task⟩
  | broadcast =>
    obtain rfl := Option.some.inj h
    exact ⟨_, _, broadcast_steady task⟩
  | allGather =>
    obtain rfl := Option.some.inj h
    exact ⟨_, _, allGather_steady task⟩
  | reduce =>
    obtain rfl := Option.some.inj h
    exact ⟨_, _, reduce_steady task⟩
  | reduceScatter =>
    obtain rfl := Option.some.inj h
    exact ⟨_, _, reduceScatter_steady task⟩
  | send | recv => cases h

end Operations

end OriginCCL.TopologyRing
