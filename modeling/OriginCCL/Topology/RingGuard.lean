/-
  File:      OriginCCL/Topology/RingGuard.lean
  Subject:   RING OPERATIONS THAT STAY INSIDE THEIR BUFFERS, call by call.

  * `RingOp.Guarded`, `RingOp.Starts` -- an operation whose buffers lie inside at every cursor of its
    run, and which starts and settles inside.
  * `RingOp.Guard` -- what its calls keep; `init_guard`, `step_guard` -- **every call keeps it**.
-/
import OriginCCL.Topology.Ranges
import OriginCCL.Topology.RingIdle

namespace OriginCCL.TopologyRing

open Net

/-! ## 1. Guarded operations -/

/-- The side moves bytes in a phase. -/
def Active (phase : Int) : Side → Prop
  | .out => phase ≠ kPhaseRecv ∧ phase ≠ kPhaseDone
  | .inn => phase ≠ kPhaseSend ∧ phase ≠ kPhaseDone

/-- **An operation is guarded** at the cursors `valid`: its buffers lie inside and apart, what it settles
    stays inside, and pointers are only computed at cursors that fit. -/
structure RingOp.Guarded (o : RingOp) (task : PlanTask) (valid fit : Int → Int → Prop)
    (scratch : Nat) : Prop where
  buffer : ∀ s s' : RankState, s.op.phase = s'.op.phase → s.step = s'.step →
    o.op.buffer task s = o.op.buffer task s'
  cursor : ∀ phase step, valid phase step → fit phase step
  moves : ∀ s sd i done, valid s.op.phase s.step → Active s.op.phase sd →
    (Effect.transfer sd i (o.op.buffer task s sd).1 (o.op.buffer task s sd).2 done).Inside task scratch
  apart : ∀ s sd sd', valid s.op.phase s.step → Active s.op.phase sd → Active s.op.phase sd' → sd' ≠ sd →
    Apart (o.op.buffer task s sd).1 (o.op.buffer task s sd).2 (o.op.buffer task s sd').1
      (o.op.buffer task s sd').2
  settled : ∀ s, valid s.op.phase s.step → s.op.phase ≠ kPhaseDone → ∀ a ∈ o.settled task s,
    Harmless task fit scratch a
  keeps : ∀ s, valid s.op.phase s.step → s.op.phase ≠ kPhaseDone →
    (o.op.settle task s).1.op.tempBuffer.size = s.op.tempBuffer.size
  ends : ∀ s, valid s.op.phase s.step → s.op.phase ≠ kPhaseDone →
    (o.op.settle task s).2 = none → (o.op.settle task s).1.op.phase = kPhaseDone
  goes : ∀ s phase, valid s.op.phase s.step → s.op.phase ≠ kPhaseDone →
    (o.op.settle task s).2 = some phase →
      valid phase (o.op.settle task s).1.step ∧
      fit (o.op.settle task s).1.op.phase (o.op.settle task s).1.step ∧
      o.op.buffer task (o.op.settle task s).1 =
        o.op.buffer task ((o.op.settle task s).1.setPhase phase)

/-- What has been noted since then is harmless. -/
def Noted (task : PlanTask) (fit : Int → Int → Prop) (scratch : Nat) (t t' : Traced) : Prop :=
  ∃ as, t'.2 = t.2 ++ as ∧ ∀ a ∈ as, Harmless task fit scratch a

/-- **A start is guarded**: it stays inside, leaves `scratch` bytes of `temp_buffer`, and ends at a valid
    cursor. -/
structure RingOp.Starts (o : RingOp) (task : PlanTask) (valid fit : Int → Int → Prop)
    (scratch : Nat) : Prop where
  finishes : ∀ t t', o.start task t = .finished t' →
    Noted task fit scratch t t' ∧ t'.1.op.tempBuffer.size = scratch ∧ t'.1.op.phase = kPhaseDone
  begins : ∀ t t' phase, o.start task t = .begins t' phase →
    Noted task fit scratch t t' ∧ t'.1.op.tempBuffer.size = scratch ∧ valid phase t'.1.step ∧
      fit t'.1.op.phase t'.1.step ∧ o.op.buffer task t'.1 = o.op.buffer task (t'.1.setPhase phase)

/-! ## 2. What the calls keep -/

/-- **What the calls of a guarded operation keep**: a clean log, and of a task that is not done a valid
    cursor, flags that are set on the sides that move nothing, and current ranges. -/
structure RingOp.Guard (o : RingOp) (task : PlanTask) (valid fit : Int → Int → Prop) (scratch : Nat)
    (t : Traced) : Prop where
  clean : Clean task fit scratch t.2
  temp : t.1.op.tempBuffer.size = scratch
  state : t.1.op.phase = kPhaseDone ∨ (valid t.1.op.phase t.1.step ∧
    (∀ sd, ¬ Active t.1.op.phase sd → ∀ i, (t.1.flags sd).get i = true) ∧
    Opens (fun sd _ => o.op.buffer task t.1 sd) (fun sd _ => Active t.1.op.phase sd) t.2)

section Guards

variable {o : RingOp} {task : PlanTask} {valid fit : Int → Int → Prop} {scratch : Nat} {t t' : Traced}

theorem Noted.clean (hn : Noted task fit scratch t t') (h : Clean task fit scratch t.2) :
    Clean task fit scratch t'.2 := by
  obtain ⟨as, hlog, has⟩ := hn
  rw [hlog]
  exact h.append has

/-- A task after a push of a side: what a guard says of it. -/
structure Pushing (o : RingOp) (task : PlanTask) (valid fit : Int → Int → Prop) (scratch : Nat)
    (t : Traced) : Prop where
  clean : Clean task fit scratch t.2
  temp : t.1.op.tempBuffer.size = scratch
  valid : valid t.1.op.phase t.1.step
  quiet : ∀ sd, ¬ Active t.1.op.phase sd → ∀ i, (t.1.flags sd).get i = true
  opens : Opens (fun sd _ => o.op.buffer task t.1 sd) (fun sd _ => Active t.1.op.phase sd) t.2

theorem Pushing.guard (h : Pushing o task valid fit scratch t) : o.Guard task valid fit scratch t :=
  ⟨h.clean, h.temp, Or.inr ⟨h.valid, h.quiet, h.opens⟩⟩

/-- Transfers of the current buffer of an active side keep the log clean. -/
theorem transfers_log (G : o.Guarded task valid fit scratch) {s : RankState} {sd : Side}
    (hv : valid s.op.phase s.step) {log as : List Effect} (hclean : Clean task fit scratch log)
    (hopen : Opens (fun sd _ => o.op.buffer task s sd) (fun sd _ => Active s.op.phase sd) log)
    (has : ∀ a ∈ as, ∃ i done,
      a = .transfer sd i (o.op.buffer task s sd).1 (o.op.buffer task s sd).2 done ∧ Active s.op.phase sd) :
    Clean task fit scratch (log ++ as) ∧
      Opens (fun sd _ => o.op.buffer task s sd) (fun sd _ => Active s.op.phase sd) (log ++ as) := by
  induction as generalizing log with
  | nil =>
    rw [List.append_nil]
    exact ⟨hclean, hopen⟩
  | cons a as ih =>
    obtain ⟨i, done, rfl, hact⟩ := has a List.mem_cons_self
    obtain ⟨hsep, hopen'⟩ := tried_log hclean.separated hopen hact
      (fun sd' _ hne hact' => G.apart s sd sd' hv hact hact' hne) done
    rw [List.append_cons]
    refine ih ⟨fun b hb => ?_, hsep⟩ hopen' fun b hb => has b (List.mem_cons_of_mem _ hb)
    rcases List.mem_append.mp hb with hb | hb
    · exact hclean.inside b hb
    · obtain rfl := List.mem_singleton.mp hb
      exact ⟨G.moves s sd i done hv hact, trivial⟩

/-- **A push of the current buffers** keeps everything. -/
theorem Pushing.push (G : o.Guarded task valid fit scratch) (h : Pushing o task valid fit scratch t)
    {sd : Side} {b : Loc × Nat} {ls : List (Link × Nat)} (hb : b = o.op.buffer task t.1 sd)
    (hp : Pushed sd b ls t t') : Pushing o task valid fit scratch t' := by
  subst hb
  obtain ⟨as, hlog, has⟩ := hp.log
  have hbuffer : o.op.buffer task t'.1 = o.op.buffer task t.1 := G.buffer t'.1 t.1 hp.phase hp.step
  obtain ⟨hclean, hopens⟩ := transfers_log G h.valid h.clean h.opens fun a ha => by
    obtain ⟨i, done, hx, hflag⟩ := has a ha
    refine ⟨i, done, hx, ?_⟩
    by_contra hno
    rw [h.quiet sd hno i] at hflag
    cases hflag
  refine ⟨by rw [hlog]; exact hclean, hp.temp.trans h.temp, ?_, fun sd' hno i => ?_, ?_⟩
  · rw [hp.phase, hp.step]
    exact h.valid
  · rw [hp.phase] at hno
    by_cases hsd : sd' = sd
    · subst hsd
      exact hp.kept i (h.quiet sd' hno i)
    · rw [hp.other sd' hsd]
      exact h.quiet sd' hno i
  · rw [hbuffer, hp.phase, hlog]
    exact hopens

/-- **A phase begins inside.** -/
theorem begin_guard (G : o.Guarded task valid fit scratch) (phase : Int) (t : Traced)
    (hclean : Clean task fit scratch t.2) (htemp : t.1.op.tempBuffer.size = scratch)
    (hv : valid phase t.1.step) (hfit : fit t.1.op.phase t.1.step)
    (hbuffer : o.op.buffer task t.1 = o.op.buffer task (t.1.setPhase phase)) :
    (Traced.begin o.op task phase t).Ensures (o.Guard task valid fit scratch) := by
  have hstart : Pushing o task valid fit scratch
      (enterPhase task phase (o.op.sendBytes task t.1) (o.op.recvBytes task t.1) t.1,
        (Traced.noteCursor t).2 ++ [.assign]) := by
    refine ⟨(hclean.snoc (harmless_cursor hfit)).snoc harmless_assign, htemp, hv, fun sd hno i => ?_,
      opens_assign _⟩
    have hno' : ¬ Active phase sd := hno
    cases sd with
    | out =>
      change ((phase == kPhaseRecv || phase == kPhaseDone) || _) = true
      rw [Active, not_and_or, not_not, not_not] at hno'
      rcases hno' with rfl | rfl <;> rfl
    | inn =>
      change ((phase == kPhaseSend || phase == kPhaseDone) || _) = true
      rw [Active, not_and_or, not_not, not_not] at hno'
      rcases hno' with rfl | rfl <;> rfl
  have hsame : o.op.buffer task (enterPhase task phase (o.op.sendBytes task t.1)
      (o.op.recvBytes task t.1) t.1) = o.op.buffer task t.1 :=
    (G.buffer (enterPhase task phase (o.op.sendBytes task t.1) (o.op.recvBytes task t.1) t.1)
      (t.1.setPhase phase) rfl rfl).trans hbuffer.symm
  rw [Traced.begin, Traced.beginPhase, Prog.ensures_bind]
  refine Prog.ensures_mono (fun t₁ h₁ => ?_)
    (Traced.pushBuffer_always task .writable (o.op.buffer task t.1) _).ensures
  have hpush := hstart.push G (congrFun hsame.symm .out) h₁
  refine Prog.ensures_mono (fun t₂ h₂ => ?_)
    (Traced.pushBuffer_always task .readable (o.op.buffer task t.1) t₁).ensures
  exact (hpush.push G (congrFun ((G.buffer t₁.1 _ h₁.phase h₁.step).trans hsame).symm .inn) h₂).guard

/-- **The `Complete*` loops stay inside.** -/
theorem completeLoop_guard (G : o.Guarded task valid fit scratch) (fuel : Nat) (t : Traced)
    (ht : o.Guard task valid fit scratch t) :
    (Traced.completeLoop o task fuel t).Ensures (o.Guard task valid fit scratch) := by
  induction fuel generalizing t with
  | zero => trivial
  | succ fuel ih =>
    rw [Traced.completeLoop]
    split
    · rename_i hcond
      rw [Bool.and_eq_true, bne_iff_ne] at hcond
      obtain ⟨hv, -, -⟩ := ht.state.resolve_left hcond.2
      have hclean := ht.clean.append (G.settled t.1 hv hcond.2)
      have htemp := (G.keeps t.1 hv hcond.2).trans ht.temp
      cases hset : o.op.settle task t.1 with
      | mk s next =>
        rw [hset] at htemp
        cases next with
        | none =>
          have hend := G.ends t.1 hv hcond.2 (by rw [hset])
          rw [hset] at hend
          exact ⟨hclean, htemp, Or.inl hend⟩
        | some phase =>
          have hgo := G.goes t.1 phase hv hcond.2 (by rw [hset])
          rw [hset] at hgo
          obtain ⟨hv', hfit, hb⟩ := hgo
          dsimp only
          rw [Prog.ensures_bind]
          exact Prog.ensures_mono (fun t' ht' => ih t' ht')
            (begin_guard G phase (s, _) hclean htemp hv' hfit hb)
    · exact ht

/-- **A first call stays inside**, from any state with a clean log. -/
theorem init_guard (G : o.Guarded task valid fit scratch) (S : o.Starts task valid fit scratch) (t : Traced)
    (ht : Clean task fit scratch t.2) :
    (Traced.init o task t).Ensures (o.Guard task valid fit scratch) := by
  rw [Traced.init]
  cases hstart : o.start task t with
  | rejected => trivial
  | finished t' =>
    obtain ⟨hnoted, htemp, hdone⟩ := S.finishes t t' hstart
    exact ⟨hnoted.clean ht, htemp, Or.inl hdone⟩
  | begins t' phase =>
    obtain ⟨hnoted, htemp, hv, hfit, hb⟩ := S.begins t t' phase hstart
    dsimp only
    rw [Prog.ensures_bind]
    exact Prog.ensures_mono (fun t₁ h₁ => completeLoop_guard G _ t₁ h₁)
      (begin_guard G phase t' (hnoted.clean ht) htemp hv hfit hb)

theorem drive_guard (G : o.Guarded task valid fit scratch) (event : CollEvent) (t : Traced)
    (ht : o.Guard task valid fit scratch t) :
    (Traced.drive o task event t).Ensures (o.Guard task valid fit scratch) := by
  rw [Traced.drive]
  split
  · exact ht
  · rename_i hdone
    obtain ⟨hv, hquiet, hopens⟩ := ht.state.resolve_left hdone
    rw [Prog.ensures_bind]
    refine Prog.ensures_mono (fun t₁ h₁ => ?_)
      (Traced.pushBuffer_always task event (o.op.buffer task t.1) (Traced.noteCursor t)).ensures
    have hnote : Pushing o task valid fit scratch (Traced.noteCursor t) :=
      ⟨ht.clean.snoc (harmless_cursor (G.cursor _ _ hv)), ht.temp, hv, hquiet,
        opens_of_latest hopens fun sd i => latest_snoc_ne rfl⟩
    exact completeLoop_guard G _ t₁ (hnote.push G rfl h₁).guard

/-- **So does a later call**, also the first of a task that was not started. -/
theorem step_guard (G : o.Guarded task valid fit scratch) (S : o.Starts task valid fit scratch)
    (event : CollEvent) (t : Traced) (ht : o.Guard task valid fit scratch t ∨
      (t.1.op.phase = kPhaseUnstarted ∧ Clean task fit scratch t.2)) :
    (Traced.step o task event t).Ensures (o.Guard task valid fit scratch) := by
  rw [Traced.step]
  split
  · rw [Prog.ensures_bind]
    exact Prog.ensures_mono (drive_guard G event) (init_guard G S t (ht.elim (·.clean) (·.2)))
  · rename_i hne
    exact drive_guard G event t (ht.resolve_right fun hx => hne hx.1)

end Guards

end OriginCCL.TopologyRing
