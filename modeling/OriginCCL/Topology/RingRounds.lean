/-
  File:      OriginCCL/Topology/RingRounds.lean
  Subject:   A RING TASK AS A SEQUENCE OF ROUNDS.

  Every ring operation runs through rounds: in each it sends a range of bytes to the next rank and
  receives one from the previous rank, then settles and begins the next. `Rounds` lists these ranges
  for one rank, `Obeys` states that an operation of the code goes through them, and this file proves
  from it, once for all five operations,

  * `completeLoop_wp`, `stepWith_wp` -- every call keeps the rank at a place of its rounds, offers
    only bytes of the current round, and ends with all rounds served and what the operation promises;
  * `RingTask.contract` -- the contract of the task, and `RingTask.paced` that it serves its
    connections in the order of its rounds.

  `Data t rp m` is what the operation claims of the bytes in round `t` after `rp` received bytes; the
  claim `fun _ _ _ => True` leaves the accounting of bytes alone.
-/
import OriginCCL.Base.Reduction
import OriginCCL.Net.Progress
import OriginCCL.Topology.Channel

namespace OriginCCL.TopologyRing

open Net Base

/-- A task on rank `r` of a ring of `N`, with its two connections. -/
structure OnRing (task : PlanTask) (N r : Nat) (lo li : Link) : Prop where
  rank : task.rank = r
  worldSize : task.worldSize = N
  two_le : 2 ≤ N
  lt : r < N
  sends : task.sendTransports = [lo]
  recvs : task.recvTransports = [li]

/-- A difference of ring positions, as the code computes it. -/
theorem tmod_back {a : Int} {N r k : Nat} (h : a = ((r + N - k : Nat) : Int)) :
    a.tmod N = (back N r k : Nat) := by
  rw [h, back]
  rfl

/-- The rounds of one rank. -/
structure Rounds where
  total : Nat
  phase : Nat → Int
  step : Nat → Int
  sendLen : Nat → Nat
  recvLen : Nat → Nat
  sendLoc : Nat → Loc
  recvLoc : Nat → Loc

/-- The lengths of the rounds at one end. -/
def Rounds.len (R : Rounds) : Side → Nat → Nat
  | .out => R.sendLen
  | .inn => R.recvLen

/-- The terms of a rank that moves the given bytes to its next and from its previous rank. -/
def ringTerms (lo li : Link) (total : Side → Nat) (ok : Side → Nat → UInt8 → Prop) :
    Terms Link UInt8 where
  owns
    | .out, l => l = lo
    | .inn, l => l = li
  upto
    | .out, l => if l = lo then total .out else 0
    | .inn, l => if l = li then total .inn else 0
  byteOk sd _ := ok sd

/-- The terms of the rounds. -/
def Rounds.terms (R : Rounds) (lo li : Link) (ok : Side → Nat → UInt8 → Prop) : Terms Link UInt8 :=
  ringTerms lo li (fun sd => off (R.len sd) R.total) ok

/-- What `BeginPhase` finds when round `t` begins: the sides without bytes are skipped, the others
    have the buffers of the round. -/
structure Begins (op : Operation) (task : PlanTask) (R : Rounds) (t : Nat) (s : RankState) :
    Prop where
  send_skip : ((R.phase t == kPhaseRecv || R.phase t == kPhaseDone) || op.sendBytes task s == 0) =
    decide (R.sendLen t = 0)
  recv_skip : ((R.phase t == kPhaseSend || R.phase t == kPhaseDone) || op.recvBytes task s == 0) =
    decide (R.recvLen t = 0)
  send : 0 < R.sendLen t → op.sendPtr task s = R.sendLoc t ∧ op.sendBytes task s = R.sendLen t
  recv : 0 < R.recvLen t → op.recvPtr task s = R.recvLoc t ∧ op.recvBytes task s = R.recvLen t

/-- **The cursors of an operation go through the rounds**: a round has the buffers the code computes
    in it, and settling it begins the next, or ends the task after the last. -/
structure Controls (op : Operation) (task : PlanTask) (R : Rounds) : Prop where
  phase_ne : ∀ t < R.total, R.phase t ≠ kPhaseUnstarted ∧ R.phase t ≠ kPhaseDone
  buffers : ∀ t < R.total, ∀ s : RankState, s.op.phase = R.phase t → s.step = R.step t →
    (0 < R.sendLen t → op.sendPtr task s = R.sendLoc t ∧ op.sendBytes task s = R.sendLen t) ∧
    (0 < R.recvLen t → op.recvPtr task s = R.recvLoc t ∧ op.recvBytes task s = R.recvLen t)
  next : ∀ t, t + 1 < R.total → ∀ s : RankState, s.op.phase = R.phase t → s.step = R.step t →
    (op.settle task s).2 = some (R.phase (t + 1)) ∧
      (op.settle task s).1.step = R.step (t + 1) ∧ Begins op task R (t + 1) (op.settle task s).1
  last : ∀ t, t + 1 = R.total → ∀ s : RankState, s.op.phase = R.phase t → s.step = R.step t →
    ((op.settle task s).2 = none ∧ (op.settle task s).1.op.phase = kPhaseDone) ∨
      (op.settle task s).2 = some kPhaseDone

/-- **The bytes keep a claim**: what is sent and what is received is as claimed, and settling a round
    leads to the claim of the next, or to what the operation promises. -/
structure Claimed (op : Operation) (task : PlanTask) (R : Rounds)
    (ok : Side → Nat → UInt8 → Prop) (Data : Nat → Nat → (Loc → UInt8) → Prop)
    (Post : Mem → Prop) : Prop where
  sends : ∀ t < R.total, ∀ rp ≤ R.recvLen t, ∀ m, Data t rp m → ∀ j < R.sendLen t,
    ok .out (off R.sendLen t + j) (m ((R.sendLoc t).shift j))
  receives : ∀ t < R.total, ∀ rp rp', rp ≤ rp' → rp' ≤ R.recvLen t → ∀ m m', Data t rp m →
    (∀ j, rp ≤ j → j < rp' → ok .inn (off R.recvLen t + j) (m' ((R.recvLoc t).shift j))) →
    (∀ q : Loc, ¬ q.inside ((R.recvLoc t).shift rp) (rp' - rp) → m' q = m q) → Data t rp' m'
  next : ∀ t, t + 1 < R.total → ∀ s : RankState, s.op.phase = R.phase t → s.step = R.step t →
    Data t (R.recvLen t) s.byteAt → Data (t + 1) 0 (op.settle task s).1.byteAt
  last : ∀ t, t + 1 = R.total → ∀ s : RankState, s.op.phase = R.phase t → s.step = R.step t →
    Data t (R.recvLen t) s.byteAt → Post (op.settle task s).1.mem

/-- The accounting of bytes claims nothing of them. -/
theorem Claimed.account (op : Operation) (task : PlanTask) (R : Rounds) :
    Claimed op task R (fun _ _ _ => True) (fun _ _ _ => True) (fun _ => True) where
  sends _ _ _ _ _ _ _ _ := trivial
  receives _ _ _ _ _ _ _ _ _ _ _ := trivial
  next _ _ _ _ _ _ := trivial
  last _ _ _ _ _ _ := trivial

/-- **An operation goes through the rounds and keeps its claim.** -/
structure Obeys (op : Operation) (task : PlanTask) (R : Rounds)
    (ok : Side → Nat → UInt8 → Prop) (Data : Nat → Nat → (Loc → UInt8) → Prop)
    (Post : Mem → Prop) : Prop where
  controls : Controls op task R
  claimed : Claimed op task R ok Data Post

theorem Obeys.next {op : Operation} {task : PlanTask} {R : Rounds} {ok : Side → Nat → UInt8 → Prop}
    {Data : Nat → Nat → (Loc → UInt8) → Prop} {Post : Mem → Prop}
    (H : Obeys op task R ok Data Post) {t : Nat} (ht : t + 1 < R.total) {s : RankState}
    (hp : s.op.phase = R.phase t) (hs : s.step = R.step t) (hd : Data t (R.recvLen t) s.byteAt) :
    ∃ s', op.settle task s = (s', some (R.phase (t + 1))) ∧ s'.step = R.step (t + 1) ∧
      Begins op task R (t + 1) s' ∧ Data (t + 1) 0 s'.byteAt := by
  obtain ⟨h1, h2, h3⟩ := H.controls.next t ht s hp hs
  exact ⟨(op.settle task s).1, Prod.ext rfl h1, h2, h3, H.claimed.next t ht s hp hs hd⟩

theorem Obeys.last {op : Operation} {task : PlanTask} {R : Rounds} {ok : Side → Nat → UInt8 → Prop}
    {Data : Nat → Nat → (Loc → UInt8) → Prop} {Post : Mem → Prop}
    (H : Obeys op task R ok Data Post) {t : Nat} (ht : t + 1 = R.total) {s : RankState}
    (hp : s.op.phase = R.phase t) (hs : s.step = R.step t) (hd : Data t (R.recvLen t) s.byteAt) :
    ∃ s', Post s'.mem ∧ ((op.settle task s = (s', none) ∧ s'.op.phase = kPhaseDone) ∨
      op.settle task s = (s', some kPhaseDone)) := by
  refine ⟨(op.settle task s).1, H.claimed.last t ht s hp hs hd, ?_⟩
  rcases H.controls.last t ht s hp hs with ⟨h1, h2⟩ | h
  · exact Or.inl ⟨Prod.ext rfl h1, h2⟩
  · exact Or.inr (Prod.ext rfl h)

/-! ## 1. A rank at a place of its rounds -/

/-- The cursors in round `t` with `sp` bytes sent and `rp` received. -/
structure AtRound (R : Rounds) (Data : Nat → Nat → (Loc → UInt8) → Prop) (t sp rp : Nat)
    (s : RankState) : Prop where
  phase : s.op.phase = R.phase t
  step : s.step = R.step t
  send_size : s.op.sendDone.size = 1
  recv_size : s.op.recvDone.size = 1
  send_progress : s.op.sendProgress.get 0 = sp
  recv_progress : s.op.recvProgress.get 0 = rp
  send_done : s.op.sendDone.get 0 = decide (sp = R.sendLen t)
  recv_done : s.op.recvDone.get 0 = decide (rp = R.recvLen t)
  send_le : sp ≤ R.sendLen t
  recv_le : rp ≤ R.recvLen t
  data : Data t rp s.byteAt

/-- The place of a rank in its rounds, cursors and counts alike. -/
structure Place (R : Rounds) (Data : Nat → Nat → (Loc → UInt8) → Prop) (lo li : Link)
    (t sp rp : Nat) (s : RankState) (n : Side → Link → Nat) : Prop where
  lt : t < R.total
  state : AtRound R Data t sp rp s
  sent : n .out lo = off R.sendLen t + sp
  received : n .inn li = off R.recvLen t + rp

/-- Between two calls the current round is not complete. -/
def Between (R : Rounds) (Data : Nat → Nat → (Loc → UInt8) → Prop) (lo li : Link) (s : RankState)
    (n : Side → Link → Nat) : Prop :=
  ∃ t sp rp, Place R Data lo li t sp rp s n ∧ ¬ (sp = R.sendLen t ∧ rp = R.recvLen t)

/-- Every side that is not done has been tried. -/
def Tried (lo li : Link) (s : RankState) (g : Acct Link) : Prop :=
  (s.op.sendDone.get 0 = false → g.tried .out lo) ∧
    (s.op.recvDone.get 0 = false → g.tried .inn li)

section Calls

variable {op : Operation} {task : PlanTask} {R : Rounds} {ok : Side → Nat → UInt8 → Prop}
  {Data : Nat → Nat → (Loc → UInt8) → Prop} {Post : Mem → Prop} {lo li : Link}

theorem Place.send_room {t sp rp : Nat} {s : RankState} {n : Side → Link → Nat}
    (h : Place R Data lo li t sp rp s n) (ok : Side → Nat → UInt8 → Prop) :
    n .out lo + (R.sendLen t - sp) ≤ (R.terms lo li ok).upto .out lo := by
  have h1 := off_succ_le R.sendLen h.lt
  have h2 := h.state.send_le
  have h3 := h.sent
  simp only [Rounds.terms, ringTerms, if_true, Rounds.len]
  omega

theorem Place.recv_room {t sp rp : Nat} {s : RankState} {n : Side → Link → Nat}
    (h : Place R Data lo li t sp rp s n) (ok : Side → Nat → UInt8 → Prop) :
    n .inn li + (R.recvLen t - rp) ≤ (R.terms lo li ok).upto .inn li := by
  have h1 := off_succ_le R.recvLen h.lt
  have h2 := h.state.recv_le
  have h3 := h.received
  simp only [Rounds.terms, ringTerms, if_true, Rounds.len]
  omega

/-- **The sending half of `PushBuffer`** moves the rank forward in its round. -/
theorem pushSend_wp (H : Obeys op task R ok Data Post) (hl : task.sendTransports = [lo])
    {t sp rp : Nat} {s : RankState} {g : Acct Link} (h : Place R Data lo li t sp rp s g.count)
    {p q : Loc} {b c : Nat} (hp : 0 < R.sendLen t → p = R.sendLoc t ∧ b = R.sendLen t) :
    (pushBuffer task .writable p q b c s).wp (R.terms lo li ok)
      (fun s' g' => ∃ sp', sp ≤ sp' ∧ Place R Data lo li t sp' rp s' g'.count ∧
        s'.op.recvDone = s.op.recvDone ∧ (s.op.sendDone.get 0 = false → g'.tried .out lo)) g := by
  have hs := h.state
  have hroom := h.send_room ok
  simp only [pushBuffer, hl, List.zipIdx_cons, List.zipIdx_nil, pushSends]
  by_cases hd : sp = R.sendLen t
  · rw [hs.send_done, decide_eq_true hd, if_pos rfl]
    exact ⟨sp, Nat.le_refl _, h, rfl, fun hf => absurd hf (by simp)⟩
  · rw [hs.send_done, decide_eq_false hd, if_neg Bool.false_ne_true]
    have hle := hs.send_le
    obtain ⟨rfl, rfl⟩ := hp (by omega)
    rw [Prog.wp_bind]
    simp only [trySend, hs.send_progress, Prog.wp, RankState.read_length]
    refine ⟨rfl, hroom, fun j hj => ?_, fun n hn => ?_⟩
    · rw [RankState.read_length] at hj
      rw [RankState.read_getElem, Loc.shift_shift, h.sent, Nat.add_assoc]
      exact H.claimed.sends t h.lt rp hs.recv_le _ hs.data _ (by omega)
    · refine ⟨sp + n, Nat.le_add_right .., ⟨h.lt, ?_, ?_, ?_⟩, rfl, fun _ => ?_⟩
      · refine ⟨hs.phase, hs.step, hs.send_size, hs.recv_size, Vec.set_get_self .., hs.recv_progress,
          ?_, hs.recv_done, by omega, hs.recv_le, hs.data⟩
        exact Vec.set_get_self ..
      · rw [Acct.move_count_self, h.sent, Nat.add_assoc]
      · rw [Acct.move_count_ne _ _ _ (by simp), h.received]
      · exact Acct.move_tried_self _ _ _ _ (by omega)

/-- **The receiving half of `PushBuffer`.** -/
theorem pushRecv_wp (H : Obeys op task R ok Data Post) (hl : task.recvTransports = [li])
    {t sp rp : Nat} {s : RankState} {g : Acct Link} (h : Place R Data lo li t sp rp s g.count)
    {p q : Loc} {b c : Nat} (hq : 0 < R.recvLen t → q = R.recvLoc t ∧ c = R.recvLen t) :
    (pushBuffer task .readable p q b c s).wp (R.terms lo li ok)
      (fun s' g' => ∃ rp', rp ≤ rp' ∧ Place R Data lo li t sp rp' s' g'.count ∧
        s'.op.sendDone = s.op.sendDone ∧ (s.op.recvDone.get 0 = false → g'.tried .inn li)) g := by
  have hs := h.state
  have hroom := h.recv_room ok
  simp only [pushBuffer, hl, List.zipIdx_cons, List.zipIdx_nil, pushRecvs]
  by_cases hd : rp = R.recvLen t
  · rw [hs.recv_done, decide_eq_true hd, if_pos rfl]
    exact ⟨rp, Nat.le_refl _, h, rfl, fun hf => absurd hf (by simp)⟩
  · rw [hs.recv_done, decide_eq_false hd, if_neg Bool.false_ne_true]
    have hle := hs.recv_le
    obtain ⟨rfl, rfl⟩ := hq (by omega)
    rw [Prog.wp_bind]
    simp only [tryRecv, hs.recv_progress, Prog.wp]
    refine ⟨rfl, hroom, fun bs hbs hrun => ?_⟩
    have hop := RankState.write_op s ((R.recvLoc t).shift rp) bs
    refine ⟨rp + bs.length, Nat.le_add_right .., ⟨h.lt, ?_, ?_, ?_⟩, ?_, fun _ => ?_⟩
    · have hdata : Data t (rp + bs.length) (s.write ((R.recvLoc t).shift rp) bs).byteAt := by
        refine H.claimed.receives t h.lt rp _ (Nat.le_add_right ..) (by omega) _ _ hs.data ?_ ?_
        · intro j hj1 hj2
          have hin : ((R.recvLoc t).shift j).inside ((R.recvLoc t).shift rp) bs.length := by
            refine ⟨rfl, ?_, ?_⟩ <;> simp only [Loc.shift_addr] <;> omega
          have hidx : ((R.recvLoc t).shift j).addr - ((R.recvLoc t).shift rp).addr = j - rp := by
            simp only [Loc.shift_addr]; omega
          have hlt : j - rp < bs.length := by omega
          rw [RankState.byteAt_write, if_pos hin, hidx, List.getD_eq_getElem _ _ hlt]
          have hb := hrun (j - rp) hlt
          rw [h.received, Nat.add_assoc, Nat.add_sub_cancel' hj1] at hb
          exact hb
        · intro q hq
          rw [Nat.add_sub_cancel_left] at hq
          rw [RankState.byteAt_write, if_neg hq]
      refine ⟨?_, ?_, ?_, ?_, ?_, Vec.set_get_self .., ?_, Vec.set_get_self .., hs.send_le, by omega,
        hdata⟩
      · change (s.write _ bs).op.phase = _
        rw [hop]; exact hs.phase
      · change (s.write _ bs).op.algo.ring.step = _
        rw [hop]; exact hs.step
      · change (s.write _ bs).op.sendDone.size = _
        rw [hop]; exact hs.send_size
      · change ((s.write _ bs).op.recvDone.set 0 _).size = _
        rw [hop]; exact hs.recv_size
      · change (s.write _ bs).op.sendProgress.get 0 = _
        rw [hop]; exact hs.send_progress
      · change (s.write _ bs).op.sendDone.get 0 = _
        rw [hop]; exact hs.send_done
    · rw [Acct.move_count_ne _ _ _ (by simp), h.sent]
    · rw [Acct.move_count_self, h.received, Nat.add_assoc]
    · change (s.write _ bs).op.sendDone = _
      rw [hop]
    · exact Acct.move_tried_self _ _ _ _ (by omega)

/-! ## 2. Rounds follow each other -/

/-- The cursors right after a phase has been entered. -/
theorem enterPhase_place (hls : task.sendTransports = [lo]) (hlr : task.recvTransports = [li])
    {t : Nat} (ht : t < R.total) {s : RankState} {n : Side → Link → Nat}
    (hb : Begins op task R t s) (hstep : s.step = R.step t) (hdata : Data t 0 s.byteAt)
    (hs : n .out lo = off R.sendLen t) (hr : n .inn li = off R.recvLen t) :
    Place R Data lo li t 0 0
      (enterPhase task (R.phase t) (op.sendBytes task s) (op.recvBytes task s) s) n := by
  refine ⟨ht, ⟨rfl, hstep, ?_, ?_, rfl, rfl, ?_, ?_, Nat.zero_le _, Nat.zero_le _, hdata⟩, hs, hr⟩
  · simp [enterPhase, hls]
  · simp [enterPhase, hlr]
  · simp only [enterPhase, Vec.assign_get, hb.send_skip]
    exact decide_eq_decide.mpr eq_comm
  · simp only [enterPhase, Vec.assign_get, hb.recv_skip]
    exact decide_eq_decide.mpr eq_comm

/-- **`BeginPhase` begins a round** and tries every side that has bytes. -/
theorem begin_wp (H : Obeys op task R ok Data Post) (hls : task.sendTransports = [lo])
    (hlr : task.recvTransports = [li]) {t : Nat} (ht : t < R.total) {s : RankState} {g : Acct Link}
    (hb : Begins op task R t s) (hstep : s.step = R.step t) (hdata : Data t 0 s.byteAt)
    (hs : g.count .out lo = off R.sendLen t) (hr : g.count .inn li = off R.recvLen t) :
    (op.begin task (R.phase t) s).wp (R.terms lo li ok)
      (fun s' g' => (∃ sp rp, Place R Data lo li t sp rp s' g'.count) ∧ Tried lo li s' g') g := by
  have hp := enterPhase_place hls hlr ht hb hstep hdata hs hr
  rw [Operation.begin, beginPhase, Prog.wp_bind]
  refine Prog.wp_mono ?_ (pushSend_wp H hls hp hb.send)
  rintro s₁ g₁ ⟨sp, -, hp₁, -, htried⟩
  -- a side that is not done now was not done at the start either
  have hmono : s₁.op.sendDone.get 0 = false → g₁.tried .out lo := by
    intro hf
    apply htried
    have h0 := hp.state.send_done
    rw [h0, decide_eq_false_iff_not]
    intro h
    have h1 := hp₁.state.send_done
    have h2 := hp₁.state.send_le
    rw [hf, eq_comm, decide_eq_false_iff_not] at h1
    omega
  have hrecv : 0 < R.recvLen t → op.recvPtr task s = R.recvLoc t ∧
      op.recvBytes task s = R.recvLen t := hb.recv
  by_cases hf : s₁.op.sendDone.get 0 = false
  · refine Prog.wp_mono ?_ (Prog.wp_tried (hmono hf) (pushRecv_wp H hlr hp₁ hrecv))
    rintro s₂ g₂ ⟨⟨rp, -, hp₂, -, htried₂⟩, hkeep⟩
    refine ⟨⟨sp, rp, hp₂⟩, fun _ => hkeep, fun hf₂ => htried₂ ?_⟩
    rw [hp₁.state.recv_done, decide_eq_false_iff_not]
    intro h
    have h1 := hp₂.state.recv_done
    have h2 := hp₂.state.recv_le
    rw [hf₂, eq_comm, decide_eq_false_iff_not] at h1
    omega
  · refine Prog.wp_mono ?_ (pushRecv_wp H hlr hp₁ hrecv)
    rintro s₂ g₂ ⟨rp, -, hp₂, hsame, htried₂⟩
    refine ⟨⟨sp, rp, hp₂⟩, fun hf₂ => absurd hf₂ (by rw [hsame]; exact hf), fun hf₂ => htried₂ ?_⟩
    rw [hp₁.state.recv_done, decide_eq_false_iff_not]
    intro h
    have h1 := hp₂.state.recv_done
    have h2 := hp₂.state.recv_le
    rw [hf₂, eq_comm, decide_eq_false_iff_not] at h1
    omega

/-- Entering the final phase transfers nothing. -/
theorem begin_done (hls : task.sendTransports = [lo]) (hlr : task.recvTransports = [li])
    (s : RankState) : op.begin task kPhaseDone s =
      pure (enterPhase task kPhaseDone (op.sendBytes task s) (op.recvBytes task s) s) := by
  simp only [Operation.begin, beginPhase, pushBuffer, hls, hlr, List.zipIdx_cons, List.zipIdx_nil,
    pushSends, pushRecvs, enterPhase, Vec.assign_get, BEq.rfl, Bool.or_true, Bool.true_or, if_true,
    Prog.pure_eq, Prog.ret_bind]

/-- How a call of a ring task ends: done, with all bytes moved and the promise kept, or between two
    calls at a place of its rounds. -/
def Ends (R : Rounds) (Data : Nat → Nat → (Loc → UInt8) → Prop) (Post : Mem → Prop) (lo li : Link)
    (ok : Side → Nat → UInt8 → Prop) (s : RankState) (g : Acct Link) : Prop :=
  if collectiveDone s then (R.terms lo li ok).spent g.count ∧ Post s.mem
  else Between R Data lo li s g.count

theorem collectiveDone_iff (s : RankState) : collectiveDone s = true ↔ s.op.phase = kPhaseDone := by
  simp [collectiveDone]

/-- **The `Complete*` loop** runs through the complete rounds and stops in the first one that is
    not. It returns the state it was given, or one whose open sides it has tried. -/
theorem completeLoop_wp (H : Obeys op task R ok Data Post) (hls : task.sendTransports = [lo])
    (hlr : task.recvTransports = [li]) (fuel : Nat) {t sp rp : Nat} {s : RankState}
    {g : Acct Link} (h : Place R Data lo li t sp rp s g.count) (hf : R.total < t + fuel) :
    (op.completeLoop task fuel s).wp (R.terms lo li ok)
      (fun s' g' => Ends R Data Post lo li ok s' g' ∧
        ((s' = s ∧ g' = g) ∨ collectiveDone s' = true ∨ Tried lo li s' g')) g := by
  induction fuel generalizing t sp rp s g with
  | zero => exact absurd h.lt (by omega)
  | succ fuel ih =>
    have hs := h.state
    have hphase := (H.controls.phase_ne t h.lt).2
    have hnd : s.op.phase ≠ kPhaseDone := by rw [hs.phase]; exact hphase
    have hside : (sideDone s.op.sendDone && sideDone s.op.recvDone && s.op.phase != kPhaseDone) =
        decide (sp = R.sendLen t ∧ rp = R.recvLen t) := by
      have h1 : sideDone s.op.sendDone = decide (sp = R.sendLen t) := by
        simp [sideDone, Vec.all, hs.send_size, hs.send_done]
      have h2 : sideDone s.op.recvDone = decide (rp = R.recvLen t) := by
        simp [sideDone, Vec.all, hs.recv_size, hs.recv_done]
      rw [h1, h2, bne_iff_ne.mpr hnd, Bool.and_true, Bool.decide_and]
    rw [Operation.completeLoop, hside]
    by_cases hboth : sp = R.sendLen t ∧ rp = R.recvLen t
    · obtain ⟨rfl, rfl⟩ := hboth
      rw [decide_eq_true ⟨rfl, rfl⟩, if_pos rfl]
      by_cases hlast : t + 1 = R.total
      · -- the last round: everything is moved
        have hspent : (R.terms lo li ok).spent g.count := by
          intro sd l ho
          have e1 := off_succ R.sendLen t
          have e2 := off_succ R.recvLen t
          have hsent := h.sent
          have hrecv := h.received
          rw [hlast] at e1 e2
          cases sd with
          | out =>
            obtain rfl : l = lo := ho
            simp only [Rounds.terms, ringTerms, if_true, Rounds.len]
            omega
          | inn =>
            obtain rfl : l = li := ho
            simp only [Rounds.terms, ringTerms, if_true, Rounds.len]
            omega
        obtain ⟨s', hpost, ⟨hset, hd⟩ | hset⟩ := H.last hlast hs.phase hs.step hs.data
        · rw [hset]
          have hd' : collectiveDone s' = true := (collectiveDone_iff s').mpr hd
          refine ⟨?_, Or.inr (Or.inl hd')⟩
          rw [Ends, if_pos hd']
          exact ⟨hspent, hpost⟩
        · rw [hset]
          simp only [begin_done hls hlr, Prog.pure_eq, Prog.ret_bind]
          obtain ⟨fuel, rfl⟩ : ∃ f, fuel = f + 1 := ⟨fuel - 1, by omega⟩
          rw [Operation.completeLoop, if_neg (by simp [enterPhase])]
          have hd' : collectiveDone (enterPhase task kPhaseDone (op.sendBytes task s')
              (op.recvBytes task s') s') = true := (collectiveDone_iff _).mpr rfl
          refine ⟨?_, Or.inr (Or.inl hd')⟩
          rw [Ends, if_pos hd']
          exact ⟨hspent, hpost⟩
      · have hnext : t + 1 < R.total := by have := h.lt; omega
        obtain ⟨s', hset, hstep, hb, hdata⟩ := H.next hnext hs.phase hs.step hs.data
        rw [hset]
        simp only
        rw [Prog.wp_bind]
        refine Prog.wp_mono ?_ (begin_wp H hls hlr hnext hb hstep hdata
          (by rw [off_succ]; exact h.sent) (by rw [off_succ]; exact h.received))
        rintro s₁ g₁ ⟨⟨sp₁, rp₁, hp₁⟩, htried⟩
        refine Prog.wp_mono ?_ (ih hp₁ (by omega))
        rintro s₂ g₂ ⟨hends, ⟨rfl, rfl⟩ | hrest⟩
        · exact ⟨hends, Or.inr (Or.inr htried)⟩
        · exact ⟨hends, Or.inr hrest⟩
    · rw [decide_eq_false hboth, if_neg Bool.false_ne_true]
      have hd' : ¬ collectiveDone s = true := fun hd => hnd ((collectiveDone_iff s).mp hd)
      refine ⟨?_, Or.inl ⟨rfl, rfl⟩⟩
      rw [Ends, if_neg hd']
      exact ⟨t, sp, rp, h, hboth⟩

/-- **The first call of a task**, once its buffers are prepared: it begins round 0 and completes. -/
theorem beginComplete_wp (H : Obeys op task R ok Data Post) (hls : task.sendTransports = [lo])
    (hlr : task.recvTransports = [li]) {fuel : Nat} (hf : R.total < fuel) (ht : 0 < R.total)
    {s : RankState} (hb : Begins op task R 0 s) (hstep : s.step = R.step 0)
    (hdata : Data 0 0 s.byteAt) :
    (op.begin task (R.phase 0) s >>= op.completeLoop task fuel).wp (R.terms lo li ok)
      (fun s' g' => Ends R Data Post lo li ok s' g' ∧
        (collectiveDone s' = true ∨ Tried lo li s' g')) Acct.zero := by
  rw [Prog.wp_bind]
  refine Prog.wp_mono ?_ (begin_wp H hls hlr ht hb hstep hdata rfl rfl)
  rintro s₁ g₁ ⟨⟨sp, rp, hp⟩, htried⟩
  refine Prog.wp_mono ?_ (completeLoop_wp H hls hlr fuel hp (by omega))
  rintro s₂ g₂ ⟨hends, ⟨rfl, rfl⟩ | hrest⟩
  · exact ⟨hends, Or.inr htried⟩
  · exact ⟨hends, hrest⟩

/-- The side an event drives is not done. -/
def sideOpen (s : RankState) : Side → Prop
  | .out => s.op.sendDone.get 0 = false
  | .inn => s.op.recvDone.get 0 = false

/-- The link at a side. -/
def sideLink (lo li : Link) : Side → Link
  | .out => lo
  | .inn => li

/-- **A later call** drives the side of its event and completes. -/
theorem stepWith_wp (H : Obeys op task R ok Data Post) (hls : task.sendTransports = [lo])
    (hlr : task.recvTransports = [li]) {fuel : Nat} (hf : R.total < fuel)
    (init : RankState → Call RankState) (sd : Side) {s : RankState} {g : Acct Link}
    (h : Between R Data lo li s g.count) :
    (op.stepWith init (op.completeLoop task fuel) task (sideEvent sd) s).wp (R.terms lo li ok)
      (fun s' g' => Ends R Data Post lo li ok s' g' ∧
        (sideOpen s sd → g'.tried sd (sideLink lo li sd))) g := by
  obtain ⟨t, sp, rp, hp, -⟩ := h
  have hs := hp.state
  obtain ⟨hne0, hned⟩ := H.controls.phase_ne t hp.lt
  rw [← hs.phase] at hne0 hned
  obtain ⟨hbs, hbr⟩ := H.controls.buffers t hp.lt s hs.phase hs.step
  simp only [Operation.stepWith, if_neg hne0, Prog.pure_eq, Prog.ret_bind, if_neg hned]
  rw [Prog.wp_bind]
  -- after the push the side has been tried, and completing does not undo that
  have hfinish : ∀ s₁ g₁ sp₁ rp₁, Place R Data lo li t sp₁ rp₁ s₁ g₁.count →
      (sideOpen s sd → g₁.tried sd (sideLink lo li sd)) →
      (op.completeLoop task fuel s₁).wp (R.terms lo li ok)
        (fun s' g' => Ends R Data Post lo li ok s' g' ∧
          (sideOpen s sd → g'.tried sd (sideLink lo li sd))) g₁ := by
    intro s₁ g₁ sp₁ rp₁ hp₁ htried
    have hwp := completeLoop_wp H hls hlr fuel hp₁ (by omega)
    by_cases ho : sideOpen s sd
    · refine Prog.wp_mono ?_ (Prog.wp_tried (htried ho) hwp)
      rintro s₂ g₂ ⟨⟨hends, -⟩, hkeep⟩
      exact ⟨hends, fun _ => hkeep⟩
    · refine Prog.wp_mono ?_ hwp
      rintro s₂ g₂ ⟨hends, -⟩
      exact ⟨hends, fun h => absurd h ho⟩
  cases sd with
  | out =>
    refine Prog.wp_mono ?_ (pushSend_wp H hls hp hbs)
    rintro s₁ g₁ ⟨sp₁, -, hp₁, -, htried⟩
    exact hfinish s₁ g₁ sp₁ rp hp₁ htried
  | inn =>
    refine Prog.wp_mono ?_ (pushRecv_wp H hlr hp hbr)
    rintro s₁ g₁ ⟨rp₁, -, hp₁, -, htried⟩
    exact hfinish s₁ g₁ sp rp₁ hp₁ htried

/-! ## 3. The contract of a ring task -/

/-- What `channelSystem` does with a task of this operation. -/
structure Runs (op : Operation) (task : PlanTask) (fuel : Nat)
    (start : RankState → Call RankState) : Prop where
  init : ∀ m, channelSystem.init task m = start (freshState m)
  step : ∀ e s, channelSystem.step task e s =
    op.stepWith start (op.completeLoop task fuel) task e s
  done : ∀ s, channelSystem.done task s = collectiveDone s

/-- **A ring task that goes through rounds**: its cursors do, its first call prepares a state with
    `prep` and begins round 0, and all its calls are those of its operation. -/
structure RingTask (op : Operation) (task : PlanTask) (R : Rounds) (prep : Mem → RankState)
    (lo li : Link) : Prop where
  sends : task.sendTransports = [lo]
  recvs : task.recvTransports = [li]
  controls : Controls op task R
  pos : 0 < R.total
  step : ∀ m, (prep m).step = R.step 0
  begins : ∀ m, Begins op task R 0 (prep m)
  calls : ∃ fuel init, R.total < fuel ∧ Runs op task fuel init ∧ ∀ m, init (freshState m) =
    (op.begin task (R.phase 0) (prep m) >>= op.completeLoop task fuel)

/-- **The contract of a task that goes through rounds.** -/
def RingTask.contract {prep : Mem → RankState} (T : RingTask op task R prep lo li)
    (H : Claimed op task R ok Data Post) {Pre : Mem → Prop}
    (hpre : ∀ m, Pre m → Data 0 0 (prep m).byteAt) :
    Contract channelSystem task (R.terms lo li ok) Pre Post where
  Inv := Between R Data lo li
  init m hm := by
    obtain ⟨fuel, init, hf, hrun, hinit⟩ := T.calls
    rw [hrun.init, hinit]
    refine Prog.wp_mono ?_ (beginComplete_wp ⟨T.controls, H⟩ T.sends T.recvs hf T.pos (T.begins m)
      (T.step m) (hpre m hm))
    rintro s g ⟨hends, htried⟩
    rw [hrun.done]
    refine ⟨hends, fun hd sd l hw => ?_⟩
    have htried := htried.resolve_left (by rw [hd]; exact Bool.false_ne_true)
    cases sd with
    | out =>
      obtain ⟨rfl, hf⟩ := (pending_out_iff T.sends).mp hw
      exact htried.1 hf
    | inn =>
      obtain ⟨rfl, hf⟩ := (pending_inn_iff T.recvs).mp hw
      exact htried.2 hf
  step s g sd h _ := by
    obtain ⟨fuel, init, hf, hrun, -⟩ := T.calls
    change (channelSystem.step task (sideEvent sd) s).wp _ _ _
    rw [hrun.step]
    refine Prog.wp_mono ?_ (stepWith_wp ⟨T.controls, H⟩ T.sends T.recvs hf init sd h)
    rintro s' g' ⟨hends, htried⟩
    rw [hrun.done]
    refine ⟨hends, fun l hw => ?_⟩
    cases sd with
    | out =>
      obtain ⟨rfl, hf⟩ := (pending_out_iff T.sends).mp hw
      exact htried hf
    | inn =>
      obtain ⟨rfl, hf⟩ := (pending_inn_iff T.recvs).mp hw
      exact htried hf

/-- The contract of a task without a transfer: its first call is also its last. -/
def finishAtOnce_contract {task : PlanTask} {ring : TopologyRing} {Pre Post : Mem → Prop}
    (htopo : task.topology = some (.ring ring)) (prep : Mem → RankState)
    (hinit : ∀ m, Pre m → channelSystem.init task m = .ret (finishAtOnce task (prep m)))
    (hpost : ∀ m, Pre m → Post (prep m).mem) :
    Contract channelSystem task (Terms.none : Terms Link UInt8) Pre Post :=
  Contract.atOnce (fun m => finishAtOnce task (prep m)) hinit
    (fun m _ => by
      simp only [channelSystem, htopo, Topology.collectiveDone]
      rfl)
    hpost

/-- The stamp of a byte: the time of the round that moves it. -/
def Rounds.stamp (R : Rounds) (time : Nat → Nat) (sd : Side) (j : Nat) : Nat :=
  time (slot (R.len sd) R.total j)

/-- **A rank serves its rounds in order**: as long as a round is not complete it waits on a side of
    that round, and every later byte has a later stamp. -/
theorem RingTask.paced {prep : Mem → RankState} (T : RingTask op task R prep lo li)
    (H : Claimed op task R ok Data Post) {Pre : Mem → Prop}
    (hpre : ∀ m, Pre m → Data 0 0 (prep m).byteAt) {time : Nat → Nat}
    (htime : ∀ t u, t < u → u < R.total → time t < time u) :
    (T.contract H hpre).Paced fun sd _ j => R.stamp time sd j := by
  have hls := T.sends
  have hlr := T.recvs
  refine ⟨?_, ?_, ?_⟩
  · rintro s n sd l ⟨t, sp, rp, hp, -⟩ - hw
    have hs := hp.state
    cases sd with
    | out =>
      obtain ⟨rfl, hf⟩ := (pending_out_iff hls).mp hw
      have hroom := hp.send_room ok
      have hle := hs.send_le
      rw [hs.send_done, decide_eq_false_iff_not] at hf
      exact ⟨rfl, by omega⟩
    | inn =>
      obtain ⟨rfl, hf⟩ := (pending_inn_iff hlr).mp hw
      have hroom := hp.recv_room ok
      have hle := hs.recv_le
      rw [hs.recv_done, decide_eq_false_iff_not] at hf
      exact ⟨rfl, by omega⟩
  · rintro s n ⟨t, sp, rp, hp, hopen⟩ -
    have hs := hp.state
    by_cases hsend : sp = R.sendLen t
    · have hrecv : rp ≠ R.recvLen t := fun h => hopen ⟨hsend, h⟩
      exact ⟨.inn, li, (pending_inn_iff hlr).mpr ⟨rfl, by rw [hs.recv_done]; simpa using hrecv⟩⟩
    · exact ⟨.out, lo, (pending_out_iff hls).mpr ⟨rfl, by rw [hs.send_done]; simpa using hsend⟩⟩
  · rintro s n sd l ⟨t, sp, rp, hp, hopen⟩ - ho hleft
    have hs := hp.state
    have hsle := hs.send_le
    have hrle := hs.recv_le
    have hsent := hp.sent
    have hreceived := hp.received
    cases sd with
    | out =>
      obtain rfl : l = lo := ho
      by_cases hsend : sp = R.sendLen t
      · -- the round waits for its receive, the byte belongs to a later round
        have hrecv : rp ≠ R.recvLen t := fun h => hopen ⟨hsend, h⟩
        refine Or.inr ⟨.inn, li,
          (pending_inn_iff hlr).mpr ⟨rfl, by rw [hs.recv_done]; simpa using hrecv⟩, ?_⟩
        simp only [Rounds.terms, ringTerms, if_true, Rounds.len] at hleft
        obtain ⟨u, hu, hult, h1, h2⟩ := exists_slot R.sendLen (k := t + 1)
          (p := n .out l) (by rw [off_succ]; omega) hleft
        have e1 : slot R.recvLen R.total (n .inn li) = t :=
          slot_eq hp.lt (by omega) (by omega)
        have e2 : slot R.sendLen R.total (n .out l) = u := slot_eq hult h1 h2
        simp only [Rounds.stamp, Rounds.len, e1, e2]
        exact htime t u (by omega) hult
      · exact Or.inl ((pending_out_iff hls).mpr ⟨rfl, by rw [hs.send_done]; simpa using hsend⟩)
    | inn =>
      obtain rfl : l = li := ho
      by_cases hrecv : rp = R.recvLen t
      · have hsend : sp ≠ R.sendLen t := fun h => hopen ⟨h, hrecv⟩
        refine Or.inr ⟨.out, lo,
          (pending_out_iff hls).mpr ⟨rfl, by rw [hs.send_done]; simpa using hsend⟩, ?_⟩
        simp only [Rounds.terms, ringTerms, if_true, Rounds.len] at hleft
        obtain ⟨u, hu, hult, h1, h2⟩ := exists_slot R.recvLen (k := t + 1)
          (p := n .inn l) (by rw [off_succ]; omega) hleft
        have e1 : slot R.sendLen R.total (n .out lo) = t :=
          slot_eq hp.lt (by omega) (by omega)
        have e2 : slot R.recvLen R.total (n .inn l) = u := slot_eq hult h1 h2
        simp only [Rounds.stamp, Rounds.len, e1, e2]
        exact htime t u (by omega) hult
      · exact Or.inl ((pending_inn_iff hlr).mpr ⟨rfl, by rw [hs.recv_done]; simpa using hrecv⟩)

end Calls

end OriginCCL.TopologyRing
