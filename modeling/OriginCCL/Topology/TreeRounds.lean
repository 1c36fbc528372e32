/-
  File:      OriginCCL/Topology/TreeRounds.lean
  Subject:   A TREE TASK, CALL BY CALL.

  Every call receives on all connections of the current phase, sends on all, and turns to the way
  down, or ends, when the phase is complete.

  * `pushRecvs_wp`, `pushSends_wp`, `round_wp` -- the two passes keep the place and leave every
    connection settled.
  * `advance_wp` -- a complete phase leads to the next.
  * `TreeTask.contract`, `TreeTask.paced` -- the contract of a tree task, and the order in which it
    serves its connections.
-/
import OriginCCL.Topology.TreeEdges

namespace OriginCCL.TopologyTree

open Net Base

section Passes

variable {task : PlanTask} {T : Seat} {Data : Claim} {Post : Mem → Prop}
  {ok : Side → Link → Nat → UInt8 → Prop} {w : Way} {s s' : RankState} {n : Side → Link → Nat}

/-! ## 1. One pass over all connections -/

/-- All chunks of a connection are there, or a transfer is open. -/
def RecvSettled (task : PlanTask) (s : RankState) (i : Nat) : Prop :=
  s.op.recvDone.get i = false ∨ s.recvChunk i = chunkCount task

/-- Every chunk that may go out on a connection is out, or a transfer is open. -/
def SendSettled (task : PlanTask) (T : Seat) (w : Way) (s : RankState) (j : Nat) : Prop :=
  s.op.sendDone.get j = false ∨ ¬ Ready task T w s.recvChunk (s.sendChunk j)

/-- What a pass over the connections `xs` receives. -/
structure RecvPass (task : PlanTask) (T : Seat) (w : Way) (xs : List (Link × Nat))
    (s s' : RankState) (g' : Acct Link) : Prop where
  send_done : s'.op.sendDone = s.op.sendDone
  send_chunk : s'.sendChunk = s.sendChunk
  le : ∀ i, s.recvChunk i ≤ s'.recvChunk i
  stays : ∀ i, RecvSettled task s i → RecvSettled task s' i
  settles : ∀ x ∈ xs, w.receives T.kids x.2 → RecvSettled task s' x.2
  tries : ∀ x ∈ xs, w.receives T.kids x.2 → s.recvChunk x.2 < chunkCount task →
    g'.tried .inn (T.inn x.2)

theorem pushRecvsFrom_wp (W : OnTree task T) (H : Claimed task T ok Data Post)
    (xs : List (Link × Nat)) (hxs : ∀ x ∈ xs, x.2 < T.edges ∧ x.1 = T.inn x.2) {s : RankState}
    {g : Acct Link} (h : Place task T Data w s g.count) :
    (pushRecvsFrom task T.roles T.isLeader xs s).wp (treeTerms task T ok)
      (fun s' g' => Place task T Data w s' g'.count ∧ RecvPass task T w xs s s' g') g := by
  induction xs generalizing s g with
  | nil =>
    exact ⟨h, rfl, rfl, fun _ => Nat.le_refl _, fun _ => id, fun _ hx => absurd hx List.not_mem_nil,
      fun _ hx => absurd hx List.not_mem_nil⟩
  | cons x xs ih =>
    obtain ⟨l, i⟩ := x
    have hx := hxs (l, i) List.mem_cons_self
    obtain ⟨hi, rfl⟩ : i < T.edges ∧ l = T.inn i := hx
    have ih := fun {s} {g} => ih (fun y hy => hxs y (List.mem_cons_of_mem _ hy)) (s := s) (g := g)
    rw [pushRecvsFrom, h.phase]
    by_cases hw : w.receives T.kids i
    · rw [if_pos ((W.recvEligible w hi).mpr hw), Prog.wp_bind]
      refine Prog.wp_mono ?_ (edgeRecv_wp W H hi hw (chunkCount task + 1) h (by omega))
      rintro s₁ g₁ ⟨h₁, r₁⟩
      refine Prog.wp_mono ?_ (Prog.wp_kept (ih h₁))
      rintro s₂ g₂ ⟨⟨h₂, p⟩, hkeep⟩
      have ho := r₁.only
      have hstay : ∀ i', RecvSettled task s i' → RecvSettled task s₁ i' := by
        intro i' hs
        by_cases e : i' = i
        · rw [e]; exact r₁.settled
        · unfold RecvSettled
          rw [ho.done_ne i' e, ho.chunk_ne i' e]
          exact hs
      have hle : ∀ i', s.recvChunk i' ≤ s₁.recvChunk i' := by
        intro i'
        by_cases e : i' = i
        · rw [e]; exact r₁.le
        · rw [ho.chunk_ne i' e]
      refine ⟨h₂, p.send_done.trans ho.send_done, p.send_chunk.trans ho.send_chunk,
        fun i' => Nat.le_trans (hle i') (p.le i'), fun i' hs => p.stays i' (hstay i' hs), ?_, ?_⟩
      · intro y hy hwy
        rcases List.mem_cons.mp hy with rfl | hy
        · exact p.stays i r₁.settled
        · exact p.settles y hy hwy
      · intro y hy hwy hlt
        rcases List.mem_cons.mp hy with rfl | hy
        · exact hkeep _ _ (r₁.tried hlt)
        · by_cases e : y.2 = i
          · rw [e] at hlt ⊢
            exact hkeep _ _ (r₁.tried hlt)
          · refine p.tries y hy hwy ?_
            rw [ho.chunk_ne _ e]
            exact hlt
    · rw [if_neg (mt (W.recvEligible w hi).mp hw)]
      refine Prog.wp_mono ?_ (ih h)
      rintro s₂ g₂ ⟨h₂, p⟩
      refine ⟨h₂, p.send_done, p.send_chunk, p.le, p.stays, ?_, ?_⟩
      · intro y hy hwy
        rcases List.mem_cons.mp hy with rfl | hy
        · exact absurd hwy hw
        · exact p.settles y hy hwy
      · intro y hy hwy
        rcases List.mem_cons.mp hy with rfl | hy
        · exact absurd hwy hw
        · exact p.tries y hy hwy

/-- What a pass over the connections `xs` sends. -/
structure SendPass (T : Seat) (w : Way) (gate : Nat) (xs : List (Link × Nat))
    (s s' : RankState) (g' : Acct Link) : Prop where
  recv_done : s'.op.recvDone = s.op.recvDone
  recv_chunk : s'.recvChunk = s.recvChunk
  le : ∀ j, s.sendChunk j ≤ s'.sendChunk j
  stays : ∀ j, (s.op.sendDone.get j = false ∨ gate ≤ s.sendChunk j) →
    s'.op.sendDone.get j = false ∨ gate ≤ s'.sendChunk j
  settles : ∀ x ∈ xs, w.sends T.kids x.2 →
    s'.op.sendDone.get x.2 = false ∨ gate ≤ s'.sendChunk x.2
  tries : ∀ x ∈ xs, w.sends T.kids x.2 → s.sendChunk x.2 < gate → g'.tried .out (T.out x.2)

theorem pushSendsFrom_wp (W : OnTree task T) (H : Claimed task T ok Data Post) {gate : Nat}
    (xs : List (Link × Nat)) (hxs : ∀ x ∈ xs, x.2 < T.edges ∧ x.1 = T.out x.2) {s : RankState}
    {g : Acct Link} (h : Place task T Data w s g.count)
    (hgate : ∀ j < T.edges, w.sends T.kids j → ∀ c, c < gate ↔ Ready task T w s.recvChunk c) :
    (pushSendsFrom task T.roles T.isLeader gate xs s).wp (treeTerms task T ok)
      (fun s' g' => Place task T Data w s' g'.count ∧ SendPass T w gate xs s s' g') g := by
  induction xs generalizing s g with
  | nil =>
    exact ⟨h, rfl, rfl, fun _ => Nat.le_refl _, fun _ => id, fun _ hx => absurd hx List.not_mem_nil,
      fun _ hx => absurd hx List.not_mem_nil⟩
  | cons x xs ih =>
    obtain ⟨l, j⟩ := x
    have hx := hxs (l, j) List.mem_cons_self
    obtain ⟨hj, rfl⟩ : j < T.edges ∧ l = T.out j := hx
    have ih := fun {s} {g} => ih (fun y hy => hxs y (List.mem_cons_of_mem _ hy)) (s := s) (g := g)
    rw [pushSendsFrom, h.phase]
    by_cases hw : w.sends T.kids j
    · rw [if_pos ((W.sendEligible w hj).mpr hw), Prog.wp_bind]
      refine Prog.wp_mono ?_ (edgeSend_wp W H hj hw (gate + 1) h (hgate j hj hw) (by omega))
      rintro s₁ g₁ ⟨h₁, r₁⟩
      have ho := r₁.only
      refine Prog.wp_mono ?_ (Prog.wp_kept (ih h₁ (by rw [ho.recv_chunk]; exact hgate)))
      rintro s₂ g₂ ⟨⟨h₂, p⟩, hkeep⟩
      have hstay : ∀ j', (s.op.sendDone.get j' = false ∨ gate ≤ s.sendChunk j') →
          s₁.op.sendDone.get j' = false ∨ gate ≤ s₁.sendChunk j' := by
        intro j' hs
        by_cases e : j' = j
        · rw [e]; exact r₁.settled
        · rw [ho.done_ne j' e, ho.chunk_ne j' e]
          exact hs
      have hle : ∀ j', s.sendChunk j' ≤ s₁.sendChunk j' := by
        intro j'
        by_cases e : j' = j
        · rw [e]; exact r₁.le
        · rw [ho.chunk_ne j' e]
      refine ⟨h₂, p.recv_done.trans ho.recv_done, p.recv_chunk.trans ho.recv_chunk,
        fun j' => Nat.le_trans (hle j') (p.le j'), fun j' hs => p.stays j' (hstay j' hs), ?_, ?_⟩
      · intro y hy hwy
        rcases List.mem_cons.mp hy with rfl | hy
        · exact p.stays j r₁.settled
        · exact p.settles y hy hwy
      · intro y hy hwy hlt
        rcases List.mem_cons.mp hy with rfl | hy
        · exact hkeep _ _ (r₁.tried hlt)
        · by_cases e : y.2 = j
          · rw [e] at hlt ⊢
            exact hkeep _ _ (r₁.tried hlt)
          · refine p.tries y hy hwy ?_
            rw [ho.chunk_ne _ e]
            exact hlt
    · rw [if_neg (mt (W.sendEligible w hj).mp hw)]
      refine Prog.wp_mono ?_ (ih h hgate)
      rintro s₂ g₂ ⟨h₂, p⟩
      refine ⟨h₂, p.recv_done, p.recv_chunk, p.le, p.stays, ?_, ?_⟩
      · intro y hy hwy
        rcases List.mem_cons.mp hy with rfl | hy
        · exact absurd hwy hw
        · exact p.settles y hy hwy
      · intro y hy hwy
        rcases List.mem_cons.mp hy with rfl | hy
        · exact absurd hwy hw
        · exact p.tries y hy hwy

theorem mem_zipIdx_links {e : Nat} {f : Nat → Link} {x : Link × Nat} :
    x ∈ ((List.range e).map f).zipIdx ↔ x.2 < e ∧ x.1 = f x.2 := by
  rw [List.mem_zipIdx_iff_getElem?, List.getElem?_map]
  by_cases h : x.2 < e
  · rw [List.getElem?_range h, Option.map_some, Option.some.injEq, eq_comm]
    exact (and_iff_right h).symm
  · rw [List.getElem?_eq_none (by rw [List.length_range]; omega)]
    exact iff_of_false (by simp) fun hx => h hx.1

/-! ## 2. The two passes of a call -/

theorem foldl_min_lt (p : Nat → Bool) (f : Nat → Nat) (is : List Nat) (b c : Nat) :
    c < is.foldl (fun best i => if p i then min best (f i) else best) b ↔
      c < b ∧ ∀ i ∈ is, p i = true → c < f i := by
  induction is generalizing b with
  | nil => simp
  | cons i is ih =>
    rw [List.foldl_cons, ih, List.forall_mem_cons, ← and_assoc]
    refine and_congr_left fun _ => ?_
    by_cases hp : p i = true
    · rw [if_pos hp, Nat.lt_min]
      exact and_congr_right fun _ => ⟨fun h _ => h, fun h => h hp⟩
    · rw [if_neg hp]
      exact ⟨fun h => ⟨h, fun h' => absurd h' hp⟩, fun h => h.1⟩

/-- **The gate of `PushSends`**: the chunks that may go out. -/
theorem sendGate_iff (W : OnTree task T) (h : Place task T Data w s n) {j : Nat}
    (hj : j < T.edges) (hw : w.sends T.kids j) (c : Nat) :
    c < sendGate task T.roles T.isLeader s ↔ Ready task T w s.recvChunk c := by
  have hle := W.kids_le
  cases hl : T.isLeader with
  | true =>
    cases w with
    | up =>
      have hphase : s.op.phase = kPhaseUp := h.phase
      rw [sendGate, if_pos rfl, if_pos hphase, minInputPrefix,
        foldl_min_lt (fun i => isInputRole (T.roles.getD i 0)) s.recvChunk]
      refine and_congr_right fun _ => ⟨fun hall i hi => ?_, fun hall i hi hin => ?_⟩
      · have hi' : i < T.edges := by omega
        exact hall i (by rw [List.mem_range, W.length]; exact hi')
          (by rw [W.input hl i hi', decide_eq_true_eq]; exact hi)
      · rw [List.mem_range, W.length] at hi
        rw [W.input hl i hi, decide_eq_true_eq] at hin
        exact hall i hin
    | down =>
      have hphase : ¬ s.op.phase = kPhaseUp := by rw [h.phase]; decide
      rw [sendGate, if_pos rfl, if_neg hphase, W.parent_edge hl]
      by_cases he : T.kids < T.edges
      · have hcur := (h.recv T.kids he rfl).le
        simp only [if_pos he]
        rw [if_neg (by omega), Int.toNat_natCast]
        exact ⟨fun hc => ⟨by omega, fun _ => hc⟩, fun hc => hc.2 he⟩
      · simp only [if_neg he]
        exact ⟨fun hc => ⟨hc, fun he' => absurd he' he⟩, fun hc => hc.1⟩
  | false =>
    obtain ⟨hk, he⟩ := W.leaf hl
    rw [sendGate, if_neg Bool.false_ne_true]
    cases w with
    | up => exact ⟨fun hc => ⟨hc, fun i hi => by omega⟩, fun hc => hc.1⟩
    | down =>
      have hw : j < T.kids := hw
      omega

/-- Every connection of the phase is settled. -/
structure Resting (task : PlanTask) (T : Seat) (w : Way) (s : RankState) : Prop where
  recv : ∀ i < T.edges, w.receives T.kids i → RecvSettled task s i
  send : ∀ j < T.edges, w.sends T.kids j → SendSettled task T w s j

/-- Every open transfer of `s` has been tried. -/
structure Tried (T : Seat) (s : RankState) (g : Acct Link) : Prop where
  recv : ∀ i < T.edges, s.op.recvDone.get i = false → g.tried .inn (T.inn i)
  send : ∀ j < T.edges, s.op.sendDone.get j = false → g.tried .out (T.out j)

theorem Tried.keep {g g' : Acct Link} (h : Tried T s g)
    (hk : ∀ sd l, g.tried sd l → g'.tried sd l) : Tried T s g' :=
  ⟨fun i hi hd => hk _ _ (h.recv i hi hd), fun j hj hd => hk _ _ (h.send j hj hd)⟩

/-- An open transfer is one of the phase's. -/
theorem Place.receiving (h : Place task T Data w s n) {i : Nat} (hi : i < T.edges)
    (hd : s.op.recvDone.get i = false) : w.receives T.kids i ∧ s.recvChunk i < chunkCount task := by
  have hw : w.receives T.kids i := by
    by_contra hw
    rw [(h.recv_rest i hi hw).1] at hd
    exact absurd hd (by decide)
  exact ⟨hw, ((h.recv i hi hw).opened hd).1⟩

theorem Place.sending (h : Place task T Data w s n) {j : Nat} (hj : j < T.edges)
    (hd : s.op.sendDone.get j = false) :
    w.sends T.kids j ∧ Ready task T w s.recvChunk (s.sendChunk j) := by
  have hw : w.sends T.kids j := by
    by_contra hw
    rw [(h.send_rest j hj hw).1] at hd
    exact absurd hd (by decide)
  exact ⟨hw, h.ready j hj hw _ (Or.inr ⟨rfl, hd⟩)⟩

/-- **The two passes of a call** keep the place, leave every connection settled and try every
    transfer that was open before or is open now. -/
theorem round_wp (W : OnTree task T) (H : Claimed task T ok Data Post) {s : RankState}
    {g : Acct Link} (h : Place task T Data w s g.count) :
    (pushRecvs task T.roles T.isLeader s >>= pushSends task T.roles T.isLeader).wp
      (treeTerms task T ok) (fun s' g' => Place task T Data w s' g'.count ∧ Resting task T w s' ∧
        Tried T s' g' ∧ Tried T s g') g := by
  have hinn : ∀ x ∈ task.recvTransports.zipIdx, x.2 < T.edges ∧ x.1 = T.inn x.2 := by
    intro x hx
    rw [W.recvs] at hx
    exact mem_zipIdx_links.mp hx
  have hout : ∀ x ∈ task.sendTransports.zipIdx, x.2 < T.edges ∧ x.1 = T.out x.2 := by
    intro x hx
    rw [W.sends] at hx
    exact mem_zipIdx_links.mp hx
  have hinn' : ∀ i < T.edges, (T.inn i, i) ∈ task.recvTransports.zipIdx := by
    intro i hi
    rw [W.recvs]
    exact mem_zipIdx_links.mpr ⟨hi, rfl⟩
  have hout' : ∀ j < T.edges, (T.out j, j) ∈ task.sendTransports.zipIdx := by
    intro j hj
    rw [W.sends]
    exact mem_zipIdx_links.mpr ⟨hj, rfl⟩
  rw [Prog.wp_bind]
  refine Prog.wp_mono ?_ (pushRecvsFrom_wp W H _ hinn h)
  rintro s₁ g₁ ⟨h₁, p₁⟩
  have hgate := fun j hj hw => sendGate_iff (j := j) W h₁ hj hw
  refine Prog.wp_mono ?_ (Prog.wp_kept (pushSendsFrom_wp W H _ hout h₁ hgate))
  rintro s₂ g₂ ⟨⟨h₂, p₂⟩, hkeep⟩
  refine ⟨h₂, ⟨fun i hi hw => ?_, fun j hj hw => ?_⟩, ⟨fun i hi hd => ?_, fun j hj hd => ?_⟩,
    ⟨fun i hi hd => ?_, fun j hj hd => ?_⟩⟩
  · have := p₁.settles _ (hinn' i hi) hw
    unfold RecvSettled at this ⊢
    rw [p₂.recv_done, p₂.recv_chunk]
    exact this
  · rcases p₂.settles _ (hout' j hj) hw with hd | hd
    · exact Or.inl hd
    · right
      rw [p₂.recv_chunk, ← hgate j hj hw]
      exact Nat.not_lt.mpr hd
  · rw [p₂.recv_done] at hd
    obtain ⟨hw, hlt⟩ := h₁.receiving hi hd
    exact hkeep _ _ (p₁.tries _ (hinn' i hi) hw (Nat.lt_of_le_of_lt (p₁.le i) hlt))
  · obtain ⟨hw, hready⟩ := h₂.sending hj hd
    rw [p₂.recv_chunk, ← hgate j hj hw] at hready
    exact p₂.tries _ (hout' j hj) hw (Nat.lt_of_le_of_lt (p₂.le j) hready)
  · obtain ⟨hw, hlt⟩ := h.receiving hi hd
    exact hkeep _ _ (p₁.tries _ (hinn' i hi) hw hlt)
  · rw [← p₁.send_done] at hd
    obtain ⟨hw, hready⟩ := h₁.sending hj hd
    exact p₂.tries _ (hout' j hj) hw ((hgate j hj hw _).mpr hready)

/-! ## 3. The turn and the end -/

/-- The phase has moved all its chunks. -/
def Complete (task : PlanTask) (T : Seat) : Way → RankState → Prop
  | .up, s => (∀ i < T.kids, s.recvChunk i = chunkCount task) ∧
      (T.kids < T.edges → s.sendChunk T.kids = chunkCount task)
  | .down, s => (T.kids < T.edges → s.recvChunk T.kids = chunkCount task) ∧
      ∀ j < T.kids, s.sendChunk j = chunkCount task

theorem chunksLeft_eq_false {roles : List Int} {p : Int → Bool} {cursor : Nat → Nat} :
    chunksLeft task roles p cursor = false ↔
      ∀ i < roles.length, p (roles.getD i 0) = true → chunkCount task ≤ cursor i := by
  simp only [chunksLeft, List.any_eq_false, List.mem_range, Bool.and_eq_true, decide_eq_true_eq,
    not_and, Nat.not_lt]

theorem upComplete_iff (W : OnTree task T) (h : Place task T Data .up s n) :
    upComplete task T.roles T.isLeader s = true ↔ Complete task T .up s := by
  have hkids := W.kids_le
  have hrecv : ∀ i < T.kids, (chunkCount task ≤ s.recvChunk i ↔
      s.recvChunk i = chunkCount task) := by
    intro i hi
    have := (h.recv i (by omega) hi).le
    omega
  have hsend : T.kids < T.edges → (chunkCount task ≤ s.sendChunk T.kids ↔
      s.sendChunk T.kids = chunkCount task) := by
    intro he
    have := (h.send T.kids he rfl).le
    omega
  cases hl : T.isLeader with
  | true =>
    simp only [upComplete, if_true, Bool.and_eq_true, Bool.not_eq_true', chunksLeft_eq_false,
      W.length, Complete]
    refine and_congr ⟨fun hall i hi => ?_, fun hall i hi hin => ?_⟩
      ⟨fun hall he => ?_, fun hall i hi hup => ?_⟩
    · have hi' : i < T.edges := by omega
      exact (hrecv i hi).mp (hall i hi' (by rw [W.input hl i hi', decide_eq_true_eq]; exact hi))
    · rw [W.input hl i hi, decide_eq_true_eq] at hin
      exact (hrecv i hin).mpr (hall i hin)
    · exact (hsend he).mp (hall _ he (by rw [W.parent hl _ he, decide_eq_true_eq]))
    · rw [W.parent hl i hi, decide_eq_true_eq] at hup
      subst hup
      exact (hsend hi).mpr (hall hi)
  | false =>
    obtain ⟨hk, he⟩ := W.leaf hl
    simp only [upComplete, Bool.false_eq_true, if_false, Bool.not_eq_true', chunksLeft_eq_false,
      W.length, Complete]
    constructor
    · intro hall
      exact ⟨fun i hi => by omega, fun he' => (hsend he').mp (hall _ he' trivial)⟩
    · rintro ⟨-, hall⟩ i hi -
      obtain rfl : i = T.kids := by omega
      exact (hsend hi).mpr (hall hi)

theorem downComplete_iff (W : OnTree task T) (h : Place task T Data .down s n) :
    downComplete task T.roles T.isLeader s = true ↔ Complete task T .down s := by
  have hkids := W.kids_le
  have hsend : ∀ j < T.kids, (chunkCount task ≤ s.sendChunk j ↔
      s.sendChunk j = chunkCount task) := by
    intro j hj
    have := (h.send j (by omega) hj).le
    omega
  have hrecv : T.kids < T.edges → (chunkCount task ≤ s.recvChunk T.kids ↔
      s.recvChunk T.kids = chunkCount task) := by
    intro he
    have := (h.recv T.kids he rfl).le
    omega
  cases hl : T.isLeader with
  | true =>
    simp only [downComplete, if_true, Bool.and_eq_true, Bool.not_eq_true', chunksLeft_eq_false,
      W.length, Complete]
    refine and_congr ⟨fun hall he => ?_, fun hall i hi hup => ?_⟩
      ⟨fun hall j hj => ?_, fun hall j hj hin => ?_⟩
    · exact (hrecv he).mp (hall _ he (by rw [W.parent hl _ he, decide_eq_true_eq]))
    · rw [W.parent hl i hi, decide_eq_true_eq] at hup
      subst hup
      exact (hrecv hi).mpr (hall hi)
    · have hj' : j < T.edges := by omega
      exact (hsend j hj).mp (hall j hj' (by rw [W.input hl j hj', decide_eq_true_eq]; exact hj))
    · rw [W.input hl j hj, decide_eq_true_eq] at hin
      exact (hsend j hin).mpr (hall j hin)
  | false =>
    obtain ⟨hk, he⟩ := W.leaf hl
    simp only [downComplete, Bool.false_eq_true, if_false, Bool.not_eq_true', chunksLeft_eq_false,
      W.length, Complete]
    constructor
    · intro hall
      exact ⟨fun he' => (hrecv he').mp (hall _ he' trivial), fun j hj => by omega⟩
    · rintro ⟨hall, -⟩ i hi -
      obtain rfl : i = T.kids := by omega
      exact (hrecv hi).mpr (hall hi)

/-- A cursor past the last chunk has moved everything. -/
theorem Cursor.full {len : Nat → Nat} {count pos : Nat} {s : RankState} {i : Nat}
    (h : Cursor len count count (recvPart s i) (s.op.recvDone.get i) pos) :
    s.op.recvDone.get i = true ∧ pos = off len count := by
  have hd : s.op.recvDone.get i = true := by
    by_contra hd
    have := (h.opened (Bool.eq_false_iff.mpr hd)).1
    omega
  refine ⟨hd, ?_⟩
  rw [h.pos, recvPart, hd, if_pos rfl, Nat.add_zero]

theorem Cursor.full_send {len : Nat → Nat} {count pos : Nat} {s : RankState} {j : Nat}
    (h : Cursor len count count (sendPart s j) (s.op.sendDone.get j) pos) :
    s.op.sendDone.get j = true ∧ pos = off len count := by
  have hd : s.op.sendDone.get j = true := by
    by_contra hd
    have := (h.opened (Bool.eq_false_iff.mpr hd)).1
    omega
  refine ⟨hd, ?_⟩
  rw [h.pos, sendPart, hd, if_pos rfl, Nat.add_zero]

/-- The state right after a phase has been entered: every cursor at the start, nothing open. -/
structure Entered (T : Seat) (w : Way) (s : RankState) : Prop where
  phase : s.op.phase = w.phase
  recv_chunk : s.recvChunk = fun _ => 0
  send_chunk : s.sendChunk = fun _ => 0
  recv_done : ∀ i, s.op.recvDone.get i = true
  send_done : ∀ j, s.op.sendDone.get j = true

theorem Entered.recv_part (h : Entered T w s) : recvPart s = fun _ => 0 := by
  funext i
  rw [recvPart, h.recv_done, if_pos rfl]

/-- A phase begins at its place. -/
theorem Entered.place (h : Entered T w s)
    (hrecv : ∀ i < T.edges, (w.receives T.kids i → n .inn (T.inn i) = 0) ∧
      (¬ w.receives T.kids i →
        n .inn (T.inn i) = w.rest (off (chunkBytes task) (chunkCount task))))
    (hsend : ∀ j < T.edges, (w.sends T.kids j → n .out (T.out j) = 0) ∧
      (¬ w.sends T.kids j →
        n .out (T.out j) = w.rest (off (chunkBytes task) (chunkCount task))))
    (hdata : Data w (fun _ => 0) (fun _ => 0) s.byteAt) : Place task T Data w s n := by
  refine ⟨h.phase, fun i hi hw => ?_, fun j hj hw => ?_, fun j hj hw c hc => ?_,
    fun i hi hw => ⟨h.recv_done i, ?_⟩, fun j hj hw => ⟨h.send_done j, ?_⟩, ?_⟩
  · rw [(hrecv i hi).1 hw, h.recv_chunk, h.recv_part, h.recv_done]
    exact ⟨Nat.zero_le _, fun hd => absurd hd (by decide), rfl⟩
  · rw [(hsend j hj).1 hw, h.send_chunk, sendPart, h.send_done, if_pos rfl]
    exact ⟨Nat.zero_le _, fun hd => absurd hd (by decide), rfl⟩
  · rw [h.send_chunk, h.send_done] at hc
    rcases hc with hc | ⟨-, hc⟩
    · exact absurd hc (Nat.not_lt_zero c)
    · exact absurd hc (by decide)
  · exact (hrecv i hi).2 hw
  · exact (hsend j hj).2 hw
  · rw [h.recv_chunk, h.recv_part]
    exact hdata

theorem Entered.of_control (h : Entered T w s) (hc : s'.control = s.control) : Entered T w s' where
  phase := (congrArg (fun o => o.phase) hc :).trans h.phase
  recv_chunk := (recvChunk_of_control hc).trans h.recv_chunk
  send_chunk := (congrArg (fun o j => o.algo.tree.sendChunk.get j) hc :).trans h.send_chunk
  recv_done i := (congrArg (fun o => o.recvDone.get i) hc :).trans (h.recv_done i)
  send_done j := (congrArg (fun o => o.sendDone.get j) hc :).trans (h.send_done j)

/-- `EnterDown` enters the way down. -/
theorem enterDown_entered (task : PlanTask) (T : Seat) (s : RankState) :
    Entered T .down (enterDown task T.roles T.isLeader s) := by
  unfold enterDown
  dsimp only
  split
  · refine Entered.of_control ?_ (RankState.control_applyAverage ..)
    exact ⟨rfl, rfl, rfl, fun _ => rfl, fun _ => rfl⟩
  · exact ⟨rfl, rfl, rfl, fun _ => rfl, fun _ => rfl⟩

/-- **Turning**: when everything has come up, the way down begins. -/
theorem Place.turn (W : OnTree task T) (H : Claimed task T ok Data Post)
    (h : Place task T Data .up s n) (hc : Complete task T .up s) :
    Place task T Data .down (enterDown task T.roles T.isLeader s) n := by
  have hkids := W.kids_le
  have hle := W.le_kids
  refine (enterDown_entered task T s).place (fun i hi => ⟨fun hw => ?_, fun hw => ?_⟩)
    (fun j hj => ⟨fun hw => ?_, fun hw => ?_⟩) (H.turns _ _ s h.data hc.1)
  · have hw : i = T.kids := hw
    have hup : ¬ Way.up.receives T.kids i := fun hlt => absurd hlt (by rw [hw]; exact Nat.lt_irrefl _)
    exact (h.recv_rest i hi hup).2
  · have hw : ¬ i = T.kids := hw
    have hup : i < T.kids := by omega
    have hcur := h.recv i hi hup
    rw [hc.1 i hup] at hcur
    exact hcur.full.2
  · have hw : j < T.kids := hw
    have hup : ¬ Way.up.sends T.kids j := Nat.ne_of_lt hw
    exact (h.send_rest j hj hup).2
  · have hw : ¬ j < T.kids := hw
    obtain rfl : j = T.kids := by omega
    have hcur := h.send T.kids hj rfl
    rw [hc.2 hj] at hcur
    exact hcur.full_send.2

/-- A complete way down has moved everything. -/
theorem Place.spent (W : OnTree task T) (h : Place task T Data .down s n)
    (hc : Complete task T .down s) : (treeTerms task T ok).spent n := by
  have hkids := W.kids_le
  have htotal : off (chunkBytes task) (chunkCount task) = task.elemCount * typeSize task :=
    off_chunkCount W.chunk_pos
  intro sd l ho
  cases sd with
  | out =>
    obtain ⟨j, hj, rfl⟩ := ho
    simp only [treeTerms]
    rw [if_pos ⟨j, hj, rfl⟩, ← htotal]
    by_cases hw : j < T.kids
    · have hcur := h.send j hj hw
      rw [hc.2 j hw] at hcur
      exact hcur.full_send.2
    · exact (h.send_rest j hj hw).2
  | inn =>
    obtain ⟨i, hi, rfl⟩ := ho
    simp only [treeTerms]
    rw [if_pos ⟨i, hi, rfl⟩, ← htotal]
    by_cases hw : i = T.kids
    · subst hw
      have hcur := h.recv T.kids hi rfl
      rw [hc.1 hi] at hcur
      exact hcur.full.2
    · exact (h.recv_rest i hi hw).2

/-- How a call of a tree task ends: done, with all bytes moved and the promise kept, or at its place
    in an incomplete phase, with every connection settled. -/
def Ends (task : PlanTask) (T : Seat) (ok : Side → Link → Nat → UInt8 → Prop) (Data : Claim)
    (Post : Mem → Prop) (s : RankState) (n : Side → Link → Nat) : Prop :=
  if collectiveDone s then (treeTerms task T ok).spent n ∧ Post s.mem
  else ∃ w, Place task T Data w s n ∧ Resting task T w s ∧ ¬ Complete task T w s

theorem collectiveDone_iff (s : RankState) : collectiveDone s = true ↔ s.op.phase = kPhaseDone := by
  simp [collectiveDone]

theorem Place.not_done (h : Place task T Data w s n) : ¬ collectiveDone s = true := by
  rw [collectiveDone_iff, h.phase]
  cases w <;> decide

theorem advance_down_wp (W : OnTree task T) (H : Claimed task T ok Data Post) (fuel : Nat)
    {s : RankState} {g : Acct Link} (h : Place task T Data .down s g.count)
    (hr : Resting task T .down s) (ht : Tried T s g) :
    (advance task T.roles T.isLeader (fuel + 1) s).wp (treeTerms task T ok)
      (fun s' g' => Ends task T ok Data Post s' g'.count ∧
        (collectiveDone s' = false → Tried T s' g')) g := by
  have hphase : s.op.phase = kPhaseDown := h.phase
  rw [advance, if_neg (by rw [hphase]; decide), if_pos hphase]
  by_cases hc : Complete task T .down s
  · rw [(downComplete_iff W h).mpr hc, if_neg (by decide)]
    have hd : collectiveDone (s.setPhase kPhaseDone) = true := rfl
    refine ⟨?_, fun hf => absurd hf (by rw [hd]; decide)⟩
    rw [Ends, if_pos hd]
    exact ⟨h.spent W hc, H.ends _ _ s h.data hc.1⟩
  · have hb : downComplete task T.roles T.isLeader s = false :=
      Bool.eq_false_iff.mpr fun hb => hc ((downComplete_iff W h).mp hb)
    rw [hb, if_pos (by decide)]
    refine ⟨?_, fun _ => ht⟩
    rw [Ends, if_neg h.not_done]
    exact ⟨.down, h, hr, hc⟩

/-- **`Advance`** stays in an incomplete phase, and goes through a complete one. -/
theorem advance_wp (W : OnTree task T) (H : Claimed task T ok Data Post) {s : RankState}
    {g : Acct Link} (h : Place task T Data w s g.count) (hr : Resting task T w s)
    (ht : Tried T s g) :
    (advance task T.roles T.isLeader 2 s).wp (treeTerms task T ok)
      (fun s' g' => Ends task T ok Data Post s' g'.count ∧
        (collectiveDone s' = false → Tried T s' g')) g := by
  cases w with
  | down => exact advance_down_wp W H 1 h hr ht
  | up =>
    have hphase : s.op.phase = kPhaseUp := h.phase
    rw [advance, if_pos hphase]
    by_cases hc : Complete task T .up s
    · rw [(upComplete_iff W h).mpr hc, if_neg (by decide)]
      have hround := round_wp W H (h.turn W H hc)
      rw [Prog.wp_bind] at hround ⊢
      refine Prog.wp_mono ?_ hround
      intro s₁ g₁ h₁
      rw [Prog.wp_bind]
      refine Prog.wp_mono ?_ h₁
      rintro s₂ g₂ ⟨h₂, hr₂, ht₂, -⟩
      exact advance_down_wp W H 0 h₂ hr₂ ht₂
    · have hb : upComplete task T.roles T.isLeader s = false :=
        Bool.eq_false_iff.mpr fun hb => hc ((upComplete_iff W h).mp hb)
      rw [hb, if_pos (by decide)]
      refine ⟨?_, fun _ => ht⟩
      rw [Ends, if_neg h.not_done]
      exact ⟨.up, h, hr, hc⟩

/-- **A call of a tree task**: both passes, then `Advance`. -/
theorem call_wp (W : OnTree task T) (H : Claimed task T ok Data Post) {s : RankState}
    {g : Acct Link} (h : Place task T Data w s g.count) :
    (do
      let s ← pushRecvs task T.roles T.isLeader s
      let s ← pushSends task T.roles T.isLeader s
      advance task T.roles T.isLeader 2 s).wp (treeTerms task T ok)
      (fun s' g' => (Ends task T ok Data Post s' g'.count ∧
        (collectiveDone s' = false → Tried T s' g')) ∧ Tried T s g') g := by
  have hround := round_wp W H h
  rw [Prog.wp_bind] at hround ⊢
  refine Prog.wp_mono ?_ hround
  intro s₁ g₁ h₁
  rw [Prog.wp_bind]
  refine Prog.wp_mono ?_ h₁
  rintro s₂ g₂ ⟨h₂, hr₂, ht₂, ht⟩
  refine Prog.wp_mono ?_ (Prog.wp_kept (advance_wp W H h₂ hr₂ ht₂))
  rintro s₃ g₃ ⟨hends, hkeep⟩
  exact ⟨hends, ht.keep hkeep⟩

end Passes

/-! ## 4. The contract of a tree task -/

/-- **A tree task**: it sits in its seat, its first call prepares a state with `prep` and enters the
    way up, and its calls are those of the code. -/
structure TreeTask (task : PlanTask) (T : Seat) (prep : Mem → RankState) : Prop where
  seat : OnTree task T
  entered : ∀ m, Entered T .up (prep m)
  init : ∀ m, channelSystem.init task m = (do
    let s ← pushRecvs task T.roles T.isLeader (prep m)
    let s ← pushSends task T.roles T.isLeader s
    advance task T.roles T.isLeader 2 s)
  step : ∀ e s, s.op.phase ≠ kPhaseUnstarted → s.op.phase ≠ kPhaseDone →
    channelSystem.step task e s = (do
      let s ← pushRecvs task T.roles T.isLeader s
      let s ← pushSends task T.roles T.isLeader s
      advance task T.roles T.isLeader 2 s)
  done : ∀ s, channelSystem.done task s = collectiveDone s

section Tasks

variable {task : PlanTask} {T : Seat} {Data : Claim} {Post : Mem → Prop}
  {ok : Side → Link → Nat → UInt8 → Prop} {prep : Mem → RankState} {s : RankState}
  {n : Side → Link → Nat}

theorem pending_out_iff (W : OnTree task T) {l : Link} :
    pending task s .out l ↔ ∃ j < T.edges, l = T.out j ∧ s.op.sendDone.get j = false := by
  simp only [pending, W.sends, List.getElem?_map]
  constructor
  · rintro ⟨j, hj, hd⟩
    rw [Option.map_eq_some_iff] at hj
    obtain ⟨j', hj', rfl⟩ := hj
    obtain ⟨hlt, rfl⟩ := List.getElem?_eq_some_iff.mp hj'
    rw [List.length_range] at hlt
    rw [List.getElem_range]
    exact ⟨j, hlt, rfl, hd⟩
  · rintro ⟨j, hj, rfl, hd⟩
    exact ⟨j, by rw [List.getElem?_range hj]; rfl, hd⟩

theorem pending_inn_iff (W : OnTree task T) {l : Link} :
    pending task s .inn l ↔ ∃ i < T.edges, l = T.inn i ∧ s.op.recvDone.get i = false := by
  simp only [pending, W.recvs, List.getElem?_map]
  constructor
  · rintro ⟨i, hi, hd⟩
    rw [Option.map_eq_some_iff] at hi
    obtain ⟨i', hi', rfl⟩ := hi
    obtain ⟨hlt, rfl⟩ := List.getElem?_eq_some_iff.mp hi'
    rw [List.length_range] at hlt
    rw [List.getElem_range]
    exact ⟨i, hlt, rfl, hd⟩
  · rintro ⟨i, hi, rfl, hd⟩
    exact ⟨i, by rw [List.getElem?_range hi]; rfl, hd⟩

/-- What is tried covers what is waited for. -/
theorem Tried.waits (W : OnTree task T) {g : Acct Link} (h : Tried T s g) {sd : Side} {l : Link}
    (hw : channelSystem.waits task s sd l) : g.tried sd l := by
  cases sd with
  | out =>
    obtain ⟨j, hj, rfl, hd⟩ := (pending_out_iff W).mp hw
    exact h.send j hj hd
  | inn =>
    obtain ⟨i, hi, rfl, hd⟩ := (pending_inn_iff W).mp hw
    exact h.recv i hi hd

/-- **The contract of a tree task.** -/
def TreeTask.contract (K : TreeTask task T prep) (H : Claimed task T ok Data Post)
    {Pre : Mem → Prop} (hpre : ∀ m, Pre m → Data .up (fun _ => 0) (fun _ => 0) (prep m).byteAt) :
    Contract channelSystem task (treeTerms task T ok) Pre Post where
  Inv s n := ∃ w, Place task T Data w s n ∧ Resting task T w s ∧ ¬ Complete task T w s
  init m hm := by
    have hplace : Place task T Data .up (prep m) (Acct.zero : Acct Link).count :=
      (K.entered m).place (fun _ _ => ⟨fun _ => rfl, fun _ => rfl⟩)
        (fun _ _ => ⟨fun _ => rfl, fun _ => rfl⟩) (hpre m hm)
    rw [K.init]
    refine Prog.wp_mono ?_ (call_wp K.seat H hplace)
    rintro s g ⟨⟨hends, htried⟩, -⟩
    rw [K.done]
    exact ⟨hends, fun hd sd l hw => (htried hd).waits K.seat hw⟩
  step s g sd h _ := by
    obtain ⟨w, hplace, -, -⟩ := h
    have hphase := hplace.phase
    rw [K.step _ _ (by rw [hphase]; cases w <;> decide) (by rw [hphase]; cases w <;> decide)]
    have hplace' : Place task T Data w s g.restart.count := hplace
    refine Prog.wp_mono ?_ (call_wp K.seat H hplace')
    rintro s' g' ⟨⟨hends, -⟩, htried⟩
    rw [K.done]
    exact ⟨hends, fun l hw => htried.waits K.seat hw⟩

/-- A link end of the way up: from a child, or to the parent. -/
def Seat.upEnd (T : Seat) (l : Link) : Prop :=
  (∃ i < T.kids, l = T.inn i) ∨ (T.kids < T.edges ∧ l = T.out T.kids)

/-- A link end of the way down. -/
def Seat.downEnd (T : Seat) (l : Link) : Prop :=
  (∃ j < T.kids, l = T.out j) ∨ (T.kids < T.edges ∧ l = T.inn T.kids)

/-- **Times of the chunks on the connections of a seat**: up to the parent later than from the
    children, down to the children later than from the parent, the way down after the way up. -/
structure Timed (T : Seat) (count : Nat) (time : Link → Nat → Nat) : Prop where
  up : T.kids < T.edges → ∀ i < T.kids, ∀ c' c, c' ≤ c → c < count →
    time (T.inn i) c' < time (T.out T.kids) c
  down : T.kids < T.edges → ∀ j < T.kids, ∀ c' c, c' ≤ c → c < count →
    time (T.inn T.kids) c' < time (T.out j) c
  turn : ∀ u d, T.upEnd u → T.downEnd d → ∀ c < count, ∀ c' < count, time u c < time d c'

/-- The stamp of a byte: the time of its chunk. -/
def treeStamp (task : PlanTask) (time : Link → Nat → Nat) (l : Link) (j : Nat) : Nat :=
  time l (slot (chunkBytes task) (chunkCount task) j)

theorem Cursor.slot_eq {count chunk part pos : Nat} {done : Bool} {len : Nat → Nat}
    (h : Cursor len count chunk part done pos) (hlt : chunk < count) (hpart : part < len chunk) :
    slot len count pos = chunk := by
  have := h.pos
  exact Base.slot_eq hlt (by omega) (by omega)

/-- An incomplete way up has an open transfer. -/
theorem Place.open_up (h : Place task T Data .up s n) (W : OnTree task T)
    (hr : Resting task T .up s) (hc : ¬ Complete task T .up s) :
    (∃ i < T.kids, s.op.recvDone.get i = false) ∨
      (T.kids < T.edges ∧ s.op.sendDone.get T.kids = false) := by
  have hkids := W.kids_le
  by_cases hall : ∀ i < T.kids, s.recvChunk i = chunkCount task
  · right
    have hpar : ¬ (T.kids < T.edges → s.sendChunk T.kids = chunkCount task) :=
      fun hpar => hc ⟨hall, hpar⟩
    rw [Classical.not_imp] at hpar
    obtain ⟨he, hne⟩ := hpar
    refine ⟨he, (hr.send T.kids he rfl).resolve_right fun hready => hready ⟨?_, ?_⟩⟩
    · have := (h.send T.kids he rfl).le
      omega
    · intro i hi
      have := (h.send T.kids he rfl).le
      rw [hall i hi]
      omega
  · left
    push Not at hall
    obtain ⟨i, hi, hne⟩ := hall
    exact ⟨i, hi, (hr.recv i (by omega) hi).resolve_right hne⟩

/-- An incomplete way down has an open transfer. -/
theorem Place.open_down (h : Place task T Data .down s n) (W : OnTree task T)
    (hr : Resting task T .down s) (hc : ¬ Complete task T .down s) :
    (T.kids < T.edges ∧ s.op.recvDone.get T.kids = false) ∨
      ∃ j < T.kids, s.op.sendDone.get j = false := by
  have hkids := W.kids_le
  by_cases hpar : T.kids < T.edges → s.recvChunk T.kids = chunkCount task
  · right
    have hall : ¬ ∀ j < T.kids, s.sendChunk j = chunkCount task := fun hall => hc ⟨hpar, hall⟩
    push Not at hall
    obtain ⟨j, hj, hne⟩ := hall
    have hle := (h.send j (by omega) hj).le
    refine ⟨j, hj, (hr.send j (by omega) hj).resolve_right fun hready => hready ⟨by omega, ?_⟩⟩
    intro he
    rw [hpar he]
    omega
  · left
    rw [Classical.not_imp] at hpar
    obtain ⟨he, hne⟩ := hpar
    exact ⟨he, (hr.recv T.kids he rfl).resolve_right hne⟩

theorem upto_out (W : OnTree task T) {j : Nat} (hj : j < T.edges) :
    (treeTerms task T ok).upto .out (T.out j) = off (chunkBytes task) (chunkCount task) := by
  rw [off_chunkCount W.chunk_pos]
  exact if_pos ⟨j, hj, rfl⟩

theorem upto_inn (W : OnTree task T) {i : Nat} (hi : i < T.edges) :
    (treeTerms task T ok).upto .inn (T.inn i) = off (chunkBytes task) (chunkCount task) := by
  rw [off_chunkCount W.chunk_pos]
  exact if_pos ⟨i, hi, rfl⟩

variable {w : Way} {time : Link → Nat → Nat}

/-- The next byte of a receiving end with bytes left is one of its current chunk. -/
theorem Place.recv_stamp (h : Place task T Data w s n) (W : OnTree task T)
    (time : Link → Nat → Nat) {i : Nat} (hi : i < T.edges) (hw : w.receives T.kids i)
    (hleft : n .inn (T.inn i) < off (chunkBytes task) (chunkCount task)) :
    s.recvChunk i < chunkCount task ∧
      treeStamp task time (T.inn i) (n .inn (T.inn i)) = time (T.inn i) (s.recvChunk i) := by
  have hcur := h.recv i hi hw
  have hlt : s.recvChunk i < chunkCount task := by
    refine Nat.lt_of_le_of_ne hcur.le fun e => ?_
    rw [e] at hcur
    have := hcur.full.2
    omega
  exact ⟨hlt, by rw [treeStamp, hcur.slot_eq hlt (recvPart_lt W h hi hw hlt)]⟩

theorem Place.send_stamp (h : Place task T Data w s n) (W : OnTree task T)
    (time : Link → Nat → Nat) {j : Nat} (hj : j < T.edges) (hw : w.sends T.kids j)
    (hleft : n .out (T.out j) < off (chunkBytes task) (chunkCount task)) :
    s.sendChunk j < chunkCount task ∧
      treeStamp task time (T.out j) (n .out (T.out j)) = time (T.out j) (s.sendChunk j) := by
  have hcur := h.send j hj hw
  have hlt : s.sendChunk j < chunkCount task := by
    refine Nat.lt_of_le_of_ne hcur.le fun e => ?_
    rw [e] at hcur
    have := hcur.full_send.2
    omega
  exact ⟨hlt, by rw [treeStamp, hcur.slot_eq hlt (sendPart_lt W h hj hw hlt)]⟩

/-- An open transfer has bytes left. -/
theorem Place.recv_open (W : OnTree task T) (h : Place task T Data w s n) {i : Nat}
    (hi : i < T.edges) (hd : s.op.recvDone.get i = false) :
    w.receives T.kids i ∧ n .inn (T.inn i) < off (chunkBytes task) (chunkCount task) := by
  obtain ⟨hw, hlt⟩ := h.receiving hi hd
  have hpos := (h.recv i hi hw).pos
  have hpart := recvPart_lt W h hi hw hlt
  have hoff := off_succ_le (chunkBytes task) hlt
  exact ⟨hw, by omega⟩

theorem Place.send_open (W : OnTree task T) (h : Place task T Data w s n) {j : Nat}
    (hj : j < T.edges) (hd : s.op.sendDone.get j = false) :
    w.sends T.kids j ∧ n .out (T.out j) < off (chunkBytes task) (chunkCount task) := by
  obtain ⟨hw, hready⟩ := h.sending hj hd
  have hpos := (h.send j hj hw).pos
  have hpart := sendPart_lt W h hj hw hready.lt
  have hoff := off_succ_le (chunkBytes task) hready.lt
  exact ⟨hw, by omega⟩

/-- On the way up every end of the way down is at its first byte. -/
theorem start_stamp (W : OnTree task T) (time : Link → Nat → Nat)
    (hpos : 0 < off (chunkBytes task) (chunkCount task)) (l : Link) :
    0 < chunkCount task ∧ treeStamp task time l 0 = time l 0 := by
  have hcc : 0 < chunkCount task := by
    by_contra h
    rw [Nat.eq_zero_of_not_pos h] at hpos
    exact absurd hpos (Nat.lt_irrefl _)
  have hlen := chunkBytes_pos W.chunk_pos hcc
  rw [treeStamp, Base.slot_eq hcc (Nat.zero_le 0) (by rw [off_zero]; omega)]
  exact ⟨hcc, rfl⟩

/-- **On the way up** an end with bytes left is open, or one with an earlier stamp is. -/
theorem Place.serves_up (W : OnTree task T) (ht : Timed T (chunkCount task) time)
    (h : Place task T Data .up s n) (hr : Resting task T .up s) (hc : ¬ Complete task T .up s)
    {sd : Side} {l : Link} (ho : (treeTerms task T ok).owns sd l)
    (hleft : n sd l < (treeTerms task T ok).upto sd l) :
    pending task s sd l ∨ ∃ sd' l', pending task s sd' l' ∧
      treeStamp task time l' (n sd' l') < treeStamp task time l (n sd l) := by
  have hkids := W.kids_le
  have hle := W.le_kids
  -- some end of the way up is open, and earlier than every end of the way down
  have hdown : ∀ d, T.downEnd d → n sd l = 0 → l = d →
      0 < off (chunkBytes task) (chunkCount task) → ∃ sd' l', pending task s sd' l' ∧
        treeStamp task time l' (n sd' l') < treeStamp task time l (n sd l) := by
    rintro d hd h0 rfl hpos
    obtain ⟨hcc, hstart⟩ := start_stamp W time hpos l
    rw [h0, hstart]
    rcases h.open_up W hr hc with ⟨i, hi, hdone⟩ | ⟨he, hdone⟩
    · have hi' : i < T.edges := by omega
      obtain ⟨hlt, hst⟩ := h.recv_stamp W time hi' hi (h.recv_open W hi' hdone).2
      refine ⟨.inn, T.inn i, (pending_inn_iff W).mpr ⟨i, hi', rfl, hdone⟩, ?_⟩
      rw [hst]
      exact ht.turn _ _ (Or.inl ⟨i, hi, rfl⟩) hd _ hlt _ hcc
    · obtain ⟨hlt, hst⟩ := h.send_stamp W time he rfl (h.send_open W he hdone).2
      refine ⟨.out, T.out T.kids, (pending_out_iff W).mpr ⟨_, he, rfl, hdone⟩, ?_⟩
      rw [hst]
      exact ht.turn _ _ (Or.inr ⟨he, rfl⟩) hd _ hlt _ hcc
  cases sd with
  | out =>
    obtain ⟨j, hj, rfl⟩ := ho
    rw [upto_out W hj] at hleft
    by_cases hw : j = T.kids
    · subst hw
      obtain ⟨hlt, hst⟩ := h.send_stamp W time hj rfl hleft
      rcases hr.send T.kids hj rfl with hdone | hready
      · exact Or.inl ((pending_out_iff W).mpr ⟨_, hj, rfl, hdone⟩)
      · -- the next chunk for the parent waits for a child
        right
        have hkid : ∃ i < T.kids, s.recvChunk i ≤ s.sendChunk T.kids := by
          by_contra hall
          push Not at hall
          exact hready ⟨hlt, hall⟩
        obtain ⟨i, hi, hle'⟩ := hkid
        have hi' : i < T.edges := by omega
        have hdone : s.op.recvDone.get i = false :=
          (hr.recv i hi' hi).resolve_right (by omega)
        obtain ⟨-, hst'⟩ := h.recv_stamp W time hi' hi (h.recv_open W hi' hdone).2
        refine ⟨.inn, T.inn i, (pending_inn_iff W).mpr ⟨i, hi', rfl, hdone⟩, ?_⟩
        rw [hst, hst']
        exact ht.up hj i hi _ _ hle' hlt
    · have h0 : n .out (T.out j) = 0 := (h.send_rest j hj hw).2
      exact Or.inr (hdown _ (Or.inl ⟨j, by omega, rfl⟩) h0 rfl (by omega))
  | inn =>
    obtain ⟨i, hi, rfl⟩ := ho
    rw [upto_inn W hi] at hleft
    by_cases hw : i < T.kids
    · obtain ⟨hlt, -⟩ := h.recv_stamp W time hi hw hleft
      have hdone : s.op.recvDone.get i = false := (hr.recv i hi hw).resolve_right (by omega)
      exact Or.inl ((pending_inn_iff W).mpr ⟨i, hi, rfl, hdone⟩)
    · have h0 : n .inn (T.inn i) = 0 := (h.recv_rest i hi hw).2
      obtain rfl : i = T.kids := by omega
      exact Or.inr (hdown _ (Or.inr ⟨hi, rfl⟩) h0 rfl (by omega))

/-- **On the way down** likewise. -/
theorem Place.serves_down (W : OnTree task T) (ht : Timed T (chunkCount task) time)
    (h : Place task T Data .down s n) (hr : Resting task T .down s) {sd : Side} {l : Link}
    (ho : (treeTerms task T ok).owns sd l) (hleft : n sd l < (treeTerms task T ok).upto sd l) :
    pending task s sd l ∨ ∃ sd' l', pending task s sd' l' ∧
      treeStamp task time l' (n sd' l') < treeStamp task time l (n sd l) := by
  have hkids := W.kids_le
  cases sd with
  | out =>
    obtain ⟨j, hj, rfl⟩ := ho
    rw [upto_out W hj] at hleft
    by_cases hw : j < T.kids
    · obtain ⟨hlt, hst⟩ := h.send_stamp W time hj hw hleft
      rcases hr.send j hj hw with hdone | hready
      · exact Or.inl ((pending_out_iff W).mpr ⟨_, hj, rfl, hdone⟩)
      · -- the next chunk for a child waits for the parent
        right
        have hpar : T.kids < T.edges ∧ s.recvChunk T.kids ≤ s.sendChunk j := by
          by_contra hno
          exact hready ⟨hlt, fun he => by
            by_contra hle
            exact hno ⟨he, Nat.not_lt.mp hle⟩⟩
        obtain ⟨he, hle'⟩ := hpar
        have hdone : s.op.recvDone.get T.kids = false :=
          (hr.recv T.kids he rfl).resolve_right (by omega)
        obtain ⟨-, hst'⟩ := h.recv_stamp W time he rfl (h.recv_open W he hdone).2
        refine ⟨.inn, T.inn T.kids, (pending_inn_iff W).mpr ⟨_, he, rfl, hdone⟩, ?_⟩
        rw [hst, hst']
        exact ht.down he j hw _ _ hle' hlt
    · have hfull : n .out (T.out j) = off (chunkBytes task) (chunkCount task) :=
        (h.send_rest j hj hw).2
      omega
  | inn =>
    obtain ⟨i, hi, rfl⟩ := ho
    rw [upto_inn W hi] at hleft
    by_cases hw : i = T.kids
    · subst hw
      obtain ⟨hlt, -⟩ := h.recv_stamp W time hi rfl hleft
      have hdone : s.op.recvDone.get T.kids = false :=
        (hr.recv T.kids hi rfl).resolve_right (by omega)
      exact Or.inl ((pending_inn_iff W).mpr ⟨_, hi, rfl, hdone⟩)
    · have hfull : n .inn (T.inn i) = off (chunkBytes task) (chunkCount task) :=
        (h.recv_rest i hi hw).2
      omega

/-- **A rank of a tree serves its connections in the order of the times.** -/
theorem TreeTask.paced (K : TreeTask task T prep) (H : Claimed task T ok Data Post)
    {Pre : Mem → Prop} (hpre : ∀ m, Pre m → Data .up (fun _ => 0) (fun _ => 0) (prep m).byteAt)
    (ht : Timed T (chunkCount task) time) :
    (K.contract H hpre).Paced fun _ l j => treeStamp task time l j := by
  have W := K.seat
  have hkids := W.kids_le
  refine ⟨?_, ?_, ?_⟩
  · rintro s n sd l ⟨w, h, -, -⟩ - hw
    cases sd with
    | out =>
      obtain ⟨j, hj, rfl, hd⟩ := (pending_out_iff W).mp hw
      exact ⟨⟨j, hj, rfl⟩, by rw [upto_out W hj]; exact (h.send_open W hj hd).2⟩
    | inn =>
      obtain ⟨i, hi, rfl, hd⟩ := (pending_inn_iff W).mp hw
      exact ⟨⟨i, hi, rfl⟩, by rw [upto_inn W hi]; exact (h.recv_open W hi hd).2⟩
  · rintro s n ⟨w, h, hr, hc⟩ -
    cases w with
    | up =>
      rcases h.open_up W hr hc with ⟨i, hi, hd⟩ | ⟨he, hd⟩
      · exact ⟨.inn, T.inn i, (pending_inn_iff W).mpr ⟨i, by omega, rfl, hd⟩⟩
      · exact ⟨.out, _, (pending_out_iff W).mpr ⟨_, he, rfl, hd⟩⟩
    | down =>
      rcases h.open_down W hr hc with ⟨he, hd⟩ | ⟨j, hj, hd⟩
      · exact ⟨.inn, _, (pending_inn_iff W).mpr ⟨_, he, rfl, hd⟩⟩
      · exact ⟨.out, T.out j, (pending_out_iff W).mpr ⟨j, by omega, rfl, hd⟩⟩
  · rintro s n sd l ⟨w, h, hr, hc⟩ - ho hleft
    cases w with
    | up => exact h.serves_up W ht hr hc ho hleft
    | down => exact h.serves_down W ht hr ho hleft

end Tasks

/-! ## 5. The calls of the code -/

/-- The state in which the first call enters the way up: a leader has its input in the receive
    buffer. -/
def treePrep (task : PlanTask) (T : Seat) (m : Mem) : RankState :=
  let s := start task (freshState m)
  let s := if T.isLeader then
      let s := s.resizeTemp (T.roles.countP isInputRole * task.chunkSize * typeSize task)
      if task.sendBuf ≠ task.recvBuf then
        s.memcpy (user task.recvBuf) (user task.sendBuf) (task.elemCount * typeSize task)
      else s
    else s
  s.setPhase kPhaseUp

theorem treePrep_entered (task : PlanTask) (T : Seat) (m : Mem) :
    Entered T .up (treePrep task T m) := by
  unfold treePrep
  dsimp only
  have hstart : Entered T .up ((start task (freshState m)).setPhase kPhaseUp) :=
    ⟨rfl, rfl, rfl, fun _ => rfl, fun _ => rfl⟩
  split
  · have hsize : Entered T .up (((start task (freshState m)).resizeTemp
        (T.roles.countP isInputRole * task.chunkSize * typeSize task)).setPhase kPhaseUp) :=
      ⟨rfl, rfl, rfl, fun _ => rfl, fun _ => rfl⟩
    split
    · refine hsize.of_control ?_
      have h := RankState.control_memcpy ((start task (freshState m)).resizeTemp
        (T.roles.countP isInputRole * task.chunkSize * typeSize task)) (user task.recvBuf)
        (user task.sendBuf) (task.elemCount * typeSize task)
      exact congrArg (fun o => { o with phase := kPhaseUp }) h
    · exact hsize
  · exact hstart

/-- **A tree AllReduce is a tree task.** -/
theorem tree_task {task : PlanTask} {T : Seat} {t : TopologyTree} (W : OnTree task T)
    (hfunc : task.func = .allReduce) (htopo : task.topology = some (.tree t))
    (hroles : t.rolesOf task = T.roles) (hleader : t.isLeader = T.isLeader)
    (hworld : 2 ≤ task.worldSize) (hcount : task.elemCount ≠ 0)
    (hbuf : task.sendBuf ≠ 0 ∧ task.recvBuf ≠ 0) : TreeTask task T (treePrep task T) := by
  refine ⟨W, treePrep_entered task T, fun m => ?_, fun e s h0 hd => ?_, fun s => ?_⟩
  · have hlinks : ¬ (task.sendTransports.isEmpty = true ∨ task.recvTransports.isEmpty = true) := by
      have := W.edges_pos
      rw [W.sends, W.recvs]
      simp only [List.isEmpty_iff, List.map_eq_nil_iff, List.range_eq_nil]
      omega
    simp only [channelSystem, htopo, Topology.collectiveInit, collectiveInit]
    rw [if_neg (by rw [hfunc]; decide), hroles, hleader]
    unfold treeInit
    dsimp only
    rw [if_neg (by rw [hfunc]; decide), if_neg (by omega), if_neg hcount,
      if_neg (not_or.mpr hbuf), if_neg (by omega), if_neg hlinks]
    rfl
  · simp only [channelSystem, htopo, Topology.collectiveStep, collectiveStep]
    rw [if_neg h0, hroles, hleader]
    simp only [Prog.pure_eq, Prog.ret_bind]
    rw [if_neg hd]
  · simp only [channelSystem, htopo, Topology.collectiveDone]

end OriginCCL.TopologyTree
