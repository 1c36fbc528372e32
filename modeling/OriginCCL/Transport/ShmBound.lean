/-
  File:      OriginCCL/Transport/ShmBound.lean
  Subject:   SHARED-MEMORY CALLS DO NOT SPIN.

  The loop of `TrySend` and `TryRecv` goes on without progress only where the re-check after `Drain`
  sees room. It has then just loaded the peer's cursor, and nobody else moves its own, so its next
  iteration finds the same room and moves a byte.

  * `Moves`, `advance_moves` -- every branch of an access, with what it has seen.
  * `rounds`, `accesses` -- how many iterations a call still makes at most, two for every byte that is
    left and one fewer where room is known; and how many accesses.
  * `wakeups` -- how often the peer can still wake an endpoint that stands still. It bounds `Drain`.
  * `Round`, `round_moves` -- **an iteration moves a byte, ends the loop, or is followed by one that
    moves**.
  * `shm_never_spins` -- the iterations and the accesses of a call, whatever the peer does meanwhile.
-/
import OriginCCL.Transport.ShmWakeup

namespace OriginCCL.ShmSystem

open Base

/-! ## 1. The branches of an access -/

/-- What an access does, by where the call is and what it sees there. -/
inductive Moves (d : TransportDirection) (g : ShmRing) (e : TransportShm) (c : TryCall) :
    Access → Prop where
  /-- no known room: the peer's cursor is loaded -/
  | look (hpt : c.point = .loop) (hlt : c.progress < c.size)
      (hroom : available (g.cursor d) e.cached d = 0) :
      Moves d g e c ⟨g, e.resume { c with point := .refresh (g.cursor d) }, []⟩
  | known (hpt : c.point = .loop) (hlt : c.progress < c.size)
      (hroom : available (g.cursor d) e.cached d ≠ 0) :
      Moves d g e c ⟨g, e.resume { c with
        point := .copy (g.cursor d)
          (chunkLen (available (g.cursor d) e.cached d) (g.cursor d) c) 0 }, []⟩
  | complete (hpt : c.point = .loop) (hle : ¬ c.progress < c.size) :
      Moves d g e c ⟨g, e.resume { c with point := .finish }, []⟩
  | toDrain (own : Nat) (hpt : c.point = .refresh own)
      (hroom : available own (g.cursor d.peer) d = 0) (hmode : e.waitMode = .eventDriven) :
      Moves d g e c ⟨g, { e with cached := g.cursor d.peer }.resume { c with point := .drain }, []⟩
  | polled (own : Nat) (hpt : c.point = .refresh own)
      (hroom : available own (g.cursor d.peer) d = 0) (hmode : e.waitMode ≠ .eventDriven) :
      Moves d g e c ⟨g, { e with cached := g.cursor d.peer }.resume { c with point := .finish }, []⟩
  | fresh (own : Nat) (hpt : c.point = .refresh own)
      (hroom : available own (g.cursor d.peer) d ≠ 0) :
      Moves d g e c ⟨g, { e with cached := g.cursor d.peer }.resume { c with
        point := .copy own (chunkLen (available own (g.cursor d.peer) d) own c) 0 }, []⟩
  | byte (own chunk k : Nat) (hpt : c.point = .copy own chunk k) (hk : k < chunk) :
      Moves d g e c ⟨(copyByte g c own k d).1,
        e.resume { (copyByte g c own k d).2 with point := .copy own chunk (k + 1) }, []⟩
  | store (own chunk k : Nat) (hpt : c.point = .copy own chunk k) (hk : ¬ k < chunk) :
      Moves d g e c ⟨g.store (own + chunk) d,
        e.resume { c with progress := c.progress + chunk, moved := c.moved + chunk, point := .loop },
        c.slice c.progress chunk⟩
  | drained (hpt : c.point = .drain) (hcounter : 0 < g.counter d) : Moves d g e c ⟨g.drain d, e, []⟩
  | empty (hpt : c.point = .drain) (hcounter : ¬ 0 < g.counter d) :
      Moves d g e c ⟨g, e.resume { c with point := .available }, []⟩
  | check (hpt : c.point = .available) (hroom : available (g.cursor d) e.cached d = 0) :
      Moves d g e c ⟨g, e.resume { c with point := .recheck (g.cursor d) }, []⟩
  | seen (hpt : c.point = .available) (hroom : available (g.cursor d) e.cached d ≠ 0) :
      Moves d g e c ⟨g, e.resume { c with point := .loop }, []⟩
  | again (own : Nat) (hpt : c.point = .recheck own)
      (hroom : available own (g.cursor d.peer) d ≠ 0) :
      Moves d g e c ⟨g, { e with cached := g.cursor d.peer }.resume { c with point := .loop }, []⟩
  | stop (own : Nat) (hpt : c.point = .recheck own)
      (hroom : available own (g.cursor d.peer) d = 0) :
      Moves d g e c ⟨g, { e with cached := g.cursor d.peer }.resume { c with point := .finish }, []⟩
  | notify (hpt : c.point = .finish) (h : 0 < c.moved ∧ e.waitMode = .eventDriven) :
      Moves d g e c ⟨g.notify d.peer, e.finish c, []⟩
  | leave (hpt : c.point = .finish) (h : ¬ (0 < c.moved ∧ e.waitMode = .eventDriven)) :
      Moves d g e c ⟨g, e.finish c, []⟩

/-- **Every access is one of these.** -/
theorem advance_moves (d : TransportDirection) (g : ShmRing) (e : TransportShm) (c : TryCall) :
    Moves d g e c (advance d g e c) := by
  unfold advance
  split
  · rename_i hpt
    split
    · rename_i hlt
      dsimp only
      split
      · rename_i hroom
        exact .look hpt hlt hroom
      · rename_i hroom
        exact .known hpt hlt hroom
    · rename_i hle
      exact .complete hpt hle
  · rename_i own hpt
    dsimp only
    split
    · rename_i hroom
      split
      · rename_i hmode
        exact .toDrain own hpt hroom hmode
      · rename_i hmode
        exact .polled own hpt hroom hmode
    · rename_i hroom
      exact .fresh own hpt hroom
  · rename_i own chunk k hpt
    split
    · rename_i hk
      exact .byte own chunk k hpt hk
    · rename_i hk
      exact .store own chunk k hpt hk
  · rename_i hpt
    split
    · rename_i hcounter
      exact .drained hpt hcounter
    · rename_i hcounter
      exact .empty hpt hcounter
  · rename_i hpt
    dsimp only
    split
    · rename_i hroom
      exact .check hpt hroom
    · rename_i hroom
      exact .seen hpt hroom
  · rename_i own hpt
    dsimp only
    split
    · rename_i hroom
      exact .stop own hpt hroom
    · rename_i hroom
      exact .again own hpt hroom
  · rename_i hpt
    split
    · rename_i h
      exact .notify hpt h
    · rename_i h
      exact .leave hpt h

/-! ## 2. What is left of a call -/

/-- How many iterations a call still makes. An iteration under way counts no more. -/
def rounds (d : TransportDirection) (g : ShmRing) (cached : Nat) (c : TryCall) : Nat :=
  match c.point with
  | .loop => if available (g.cursor d) cached d = 0 then 2 * (c.size - c.progress)
      else 2 * (c.size - c.progress) - 1
  | .copy _ chunk _ => 2 * (c.size - c.progress - chunk)
  | .finish => 0
  | _ => 2 * (c.size - c.progress) - 1

/-- The accesses of an iteration: two loads, and the copy of a chunk or a `Drain` and two loads. -/
def accessesPerRound : Nat := kShmRingCapacity + 7

/-- The accesses that are left of the iteration under way, and of the end of the loop; `w` bounds the
    reads of `Drain` that succeed. -/
def within (w : Nat) (c : TryCall) : Nat :=
  match c.point with
  | .loop => 2
  | .refresh _ => 2 + (kShmRingCapacity + 6)
  | .copy _ chunk k => 2 + (chunk - k + 1)
  | .drain => 2 + (w + 3)
  | .available => 2 + 2
  | .recheck _ => 2 + 1
  | .finish => 1

/-- How many accesses a call still makes. -/
def accesses (d : TransportDirection) (g : ShmRing) (cached w : Nat) (c : TryCall) : Nat :=
  rounds d g cached c * accessesPerRound + within w c

def roundsLeft (d : TransportDirection) (g : ShmRing) (e : TransportShm) : Nat :=
  e.call.elim 0 (rounds d g e.cached)

def accessesLeft (d : TransportDirection) (g : ShmRing) (e : TransportShm) (w : Nat) : Nat :=
  e.call.elim 0 (accesses d g e.cached w)

/-- An iteration of the loop begins. -/
def Head (c : TryCall) : Prop := c.point = .loop ∧ c.progress < c.size

instance (c : TryCall) : Decidable (Head c) := inferInstanceAs (Decidable (_ ∧ _))

section Own

variable {d : TransportDirection} {g : ShmRing} {produced : List UInt8} {e : TransportShm}
  {c : TryCall} {w : Nat}

theorem chunkLen_le (room own : Nat) (c : TryCall) : chunkLen room own c ≤ kShmRingCapacity := by
  have hpos := kShmRingCapacity_pos
  have hmod := Nat.mod_lt own hpos
  unfold chunkLen
  omega

theorem chunkLen_pos {room : Nat} (own : Nat) (hroom : room ≠ 0) (hlt : c.progress < c.size) :
    0 < chunkLen room own c ∧ chunkLen room own c ≤ c.size - c.progress := by
  have hpos := kShmRingCapacity_pos
  have hmod := Nat.mod_lt own hpos
  unfold chunkLen
  omega

/-- What an access leaves of the call: an iteration less where one begins, and an access less. -/
structure LessLeft (d : TransportDirection) (g : ShmRing) (e : TransportShm) (c : TryCall)
    (w w' : Nat) (a : Access) : Prop where
  rounds : roundsLeft d a.ring a.endpoint + (if Head c then 1 else 0) ≤ roundsLeft d g e
  accesses : accessesLeft d a.ring a.endpoint w' + 1 ≤ accessesLeft d g e w

/-- The call goes on at another point of the iteration, or of the next one. -/
theorem lessLeft_resume {g' : ShmRing} {e' : TransportShm} {c' : TryCall} {w' : Nat}
    {bytes : List UInt8} (hcall : e.call = some c) (hhead : ¬ Head c)
    (hrounds : rounds d g' e'.cached c' ≤ rounds d g e.cached c)
    (hwithin : within w' c' + 1 ≤ within w c) :
    LessLeft d g e c w w' ⟨g', e'.resume c', bytes⟩ := by
  have hmul := Nat.mul_le_mul_right accessesPerRound hrounds
  refine ⟨?_, ?_⟩
  · simp only [roundsLeft, hcall, TransportShm.resume, Option.elim, if_neg hhead]
    omega
  · simp only [accessesLeft, hcall, TransportShm.resume, Option.elim, accesses]
    omega

/-- An iteration begins. -/
theorem lessLeft_head {g' : ShmRing} {e' : TransportShm} {c' : TryCall} {w' : Nat}
    {bytes : List UInt8} (hcall : e.call = some c) (hhead : Head c)
    (hrounds : rounds d g' e'.cached c' + 1 ≤ rounds d g e.cached c)
    (hwithin : within w' c' + 1 ≤ accessesPerRound + within w c) :
    LessLeft d g e c w w' ⟨g', e'.resume c', bytes⟩ := by
  have hmul := Nat.mul_le_mul_right accessesPerRound hrounds
  rw [Nat.succ_mul] at hmul
  refine ⟨?_, ?_⟩
  · simpa only [roundsLeft, hcall, TransportShm.resume, Option.elim, if_pos hhead] using hrounds
  · simp only [accessesLeft, hcall, TransportShm.resume, Option.elim, accesses]
    omega

/-- The call returns. -/
theorem lessLeft_finish {g' : ShmRing} {w' : Nat} (hcall : e.call = some c)
    (hpt : c.point = .finish) : LessLeft d g e c w w' ⟨g', e.finish c, []⟩ := by
  have hhead : ¬ Head c := fun h => by rw [h.1] at hpt; cases hpt
  refine ⟨?_, ?_⟩
  · simp only [roundsLeft, hcall, TransportShm.finish, Option.elim, if_neg hhead]
    omega
  · simp only [accessesLeft, hcall, TransportShm.finish, Option.elim, accesses, within, hpt]
    omega

theorem not_head (h : c.point ≠ .loop) : ¬ Head c := fun hc => h hc.1

/-- **An access uses up what is left of the call.** -/
theorem advance_left {a : Access} (hcall : e.call = some c)
    (hp : PointOk d g produced e.cached c c.point) (hw : w ≤ kShmRingCapacity + 2)
    (hcounter : 0 < g.counter d → 0 < w) (h : Moves d g e c a) :
    LessLeft d g e c w (if c.point = .drain ∧ 0 < g.counter d then w - 1 else w) a := by
  cases h with
  | look hpt hlt hroom =>
    refine lessLeft_head hcall ⟨hpt, hlt⟩ ?_ ?_
    · simp only [rounds, hpt, if_pos hroom]
      omega
    · simp only [within, hpt, accessesPerRound]
      omega
  | known hpt hlt hroom =>
    have hchunk := chunkLen_pos (g.cursor d) hroom hlt
    have hcap := chunkLen_le (available (g.cursor d) e.cached d) (g.cursor d) c
    refine lessLeft_head hcall ⟨hpt, hlt⟩ ?_ ?_
    · simp only [rounds, hpt, if_neg hroom]
      omega
    · simp only [within, hpt, accessesPerRound]
      omega
  | complete hpt hle =>
    refine lessLeft_resume hcall (fun h => hle h.2) ?_ ?_
    · simp only [rounds]
      omega
    · simp only [within, hpt]
      omega
  | toDrain own hpt hroom hmode =>
    refine lessLeft_resume hcall (not_head (by rw [hpt]; simp)) ?_ ?_
    · simp only [rounds, hpt]
      omega
    · simp only [within, hpt, reduceCtorEq, false_and, if_false]
      omega
  | polled own hpt hroom hmode =>
    refine lessLeft_resume hcall (not_head (by rw [hpt]; simp)) ?_ ?_
    · simp only [rounds]
      omega
    · simp only [within, hpt]
      omega
  | fresh own hpt hroom =>
    rw [hpt] at hp
    have hchunk := chunkLen_pos own hroom hp.2
    have hcap := chunkLen_le (available own (g.cursor d.peer) d) own c
    refine lessLeft_resume hcall (not_head (by rw [hpt]; simp)) ?_ ?_
    · simp only [rounds, hpt]
      omega
    · simp only [within, hpt]
      omega
  | byte own chunk k hpt hk =>
    refine lessLeft_resume hcall (not_head (by rw [hpt]; simp)) ?_ ?_
    · cases d with
      | send => simp only [rounds, hpt, copyByte, le_refl]
      | receive => simp only [rounds, hpt, copyByte, le_refl]
    · simp only [within, hpt]
      omega
  | store own chunk k hpt hk =>
    rw [hpt] at hp
    refine lessLeft_resume hcall (not_head (by rw [hpt]; simp)) ?_ ?_
    · simp only [rounds, hpt]
      split_ifs <;> omega
    · simp only [within, hpt]
      omega
  | drained hpt hpos =>
    have hlt := hcounter hpos
    have hhead : ¬ Head c := not_head (by rw [hpt]; simp)
    refine ⟨?_, ?_⟩
    · simp only [roundsLeft, hcall, Option.elim, rounds, hpt, if_neg hhead]
      omega
    · rw [if_pos ⟨hpt, hpos⟩]
      simp only [accessesLeft, hcall, Option.elim, accesses, rounds, within, hpt]
      omega
  | empty hpt hpos =>
    refine lessLeft_resume hcall (not_head (by rw [hpt]; simp)) ?_ ?_
    · simp only [rounds, hpt, le_refl]
    · simp only [within, hpt]
      omega
  | check hpt hroom =>
    refine lessLeft_resume hcall (not_head (by rw [hpt]; simp)) ?_ ?_
    · simp only [rounds, hpt, le_refl]
    · simp only [within, hpt]
      omega
  | seen hpt hroom =>
    refine lessLeft_resume hcall (not_head (by rw [hpt]; simp)) ?_ ?_
    · simp only [rounds, hpt, if_neg hroom, le_refl]
    · simp only [within, hpt]
      omega
  | again own hpt hroom =>
    rw [hpt] at hp
    obtain rfl : own = g.cursor d := hp
    refine lessLeft_resume hcall (not_head (by rw [hpt]; simp)) ?_ ?_
    · simp only [rounds, hpt, if_neg hroom, le_refl]
    · simp only [within, hpt]
      omega
  | stop own hpt hroom =>
    refine lessLeft_resume hcall (not_head (by rw [hpt]; simp)) ?_ ?_
    · simp only [rounds]
      omega
    · simp only [within, hpt]
      omega
  | notify hpt h => exact lessLeft_finish hcall hpt
  | leave hpt h => exact lessLeft_finish hcall hpt

end Own

/-! ## 3. What the peer does meanwhile -/

/-- An endpoint in a call that has moved bytes will notify its peer once. -/
def pending (e : TransportShm) : Nat := e.call.elim 0 fun c => if 0 < c.moved then 1 else 0

/-- How often the peer can wake an endpoint that stands still: a wakeup that is there, one that is due,
    and one for every byte the peer can move. -/
def wakeups (s : ShmSystem) (d : TransportDirection) : Nat :=
  (if 0 < s.ring.counter d then 1 else 0) + pending (s.endpoint d.peer) + room s d.peer

/-- The endpoint a label is of. -/
def side : ShmLabel → TransportDirection
  | .begin d _ _ _ => d
  | .setWaitMode d _ => d
  | .access d => d

section Peer

variable {s s' : ShmSystem} {d : TransportDirection} {c : TryCall} {a : Access} {l : ShmLabel}

theorem wakeups_le (h : Inv s) : wakeups s d ≤ kShmRingCapacity + 2 := by
  have h1 := h.cachedTail_le
  have h2 := h.tail_le
  have h3 := h.cachedHead_le
  have h4 := h.head_le
  have hpending : pending (s.endpoint d.peer) ≤ 1 := by
    unfold pending
    cases (s.endpoint d.peer).call with
    | none => exact Nat.zero_le 1
    | some c =>
      show (if 0 < c.moved then 1 else 0) ≤ 1
      split_ifs <;> omega
  have hroom : room s d.peer ≤ kShmRingCapacity := by
    cases d with
    | send =>
      show s.ring.head - s.ring.tail ≤ kShmRingCapacity
      omega
    | receive =>
      show kShmRingCapacity - (s.ring.head - s.ring.tail) ≤ kShmRingCapacity
      omega
  unfold wakeups
  split_ifs <;> omega

/-- The call goes on, and has moved what it had. -/
theorem pending_resume {e e' : TransportShm} {c' : TryCall} (hcall : e.call = some c)
    (h : c'.moved = c.moved) : pending (e'.resume c') = pending e := by
  simp only [pending, TransportShm.resume, hcall, Option.elim, h]

/-- **An access of the peer gives no wakeup away**: the bytes it moves and the wakeups it owes are
    counted already. It does not move the cursor of the endpoint that waits. -/
theorem moves_wakeups (h : Inv s) (hcall : (s.endpoint d.peer).call = some c)
    (hm : Moves d.peer s.ring (s.endpoint d.peer) c a) :
    a.ring.cursor d = s.ring.cursor d ∧
    (if 0 < a.ring.counter d then 1 else 0) + pending a.endpoint +
        available (a.ring.cursor d.peer) (a.ring.cursor d) d.peer ≤
      (if 0 < s.ring.counter d then 1 else 0) + pending (s.endpoint d.peer) +
        available (s.ring.cursor d.peer) (s.ring.cursor d) d.peer := by
  -- an access that leaves the ring to the other endpoint as it is
  have hstay : ∀ (e' : TransportShm) (c' : TryCall), c'.moved = c.moved →
      (if 0 < s.ring.counter d then 1 else 0) + pending (e'.resume c') +
        available (s.ring.cursor d.peer) (s.ring.cursor d) d.peer ≤
      (if 0 < s.ring.counter d then 1 else 0) + pending (s.endpoint d.peer) +
        available (s.ring.cursor d.peer) (s.ring.cursor d) d.peer := by
    intro e' c' hmoved
    rw [pending_resume hcall hmoved]
  have hp := ((h.endpoints d.peer).call c hcall).2
  cases hm with
  | look hpt hlt hroom => exact ⟨rfl, hstay _ _ rfl⟩
  | known hpt hlt hroom => exact ⟨rfl, hstay _ _ rfl⟩
  | complete hpt hle => exact ⟨rfl, hstay _ _ rfl⟩
  | toDrain own hpt hroom hmode => exact ⟨rfl, hstay _ _ rfl⟩
  | polled own hpt hroom hmode => exact ⟨rfl, hstay _ _ rfl⟩
  | fresh own hpt hroom => exact ⟨rfl, hstay _ _ rfl⟩
  | byte own chunk k hpt hk =>
    cases d with
    | send => exact ⟨rfl, hstay _ _ rfl⟩
    | receive => exact ⟨rfl, hstay _ _ rfl⟩
  | store own chunk k hpt hk =>
    rw [hpt] at hp
    obtain ⟨rfl, hchunk, hkle, -⟩ := hp
    have hpos := hchunk.pos
    have hroom := hchunk.room
    have h1 := h.cachedTail_le
    have h2 := h.tail_le
    have h3 := h.cachedHead_le
    have hpend : pending ((s.endpoint d.peer).resume { c with
        progress := c.progress + chunk, moved := c.moved + chunk, point := .loop }) ≤ 1 := by
      simp only [pending, TransportShm.resume, Option.elim]
      split_ifs <;> omega
    have hsum : ∀ x p p' r r' : Nat, p' ≤ 1 → r' + 1 ≤ r → x + p' + r' ≤ x + p + r := by omega
    cases d with
    | send =>
      have hle : chunk ≤ (s.endpoint .receive).cached - s.ring.tail := hroom
      have hless : s.ring.head - (s.ring.tail + chunk) + 1 ≤ s.ring.head - s.ring.tail := by omega
      exact ⟨rfl, hsum _ _ _ _ _ hpend hless⟩
    | receive =>
      have hle : chunk ≤ kShmRingCapacity - (s.ring.head - (s.endpoint .send).cached) := hroom
      have hless : kShmRingCapacity - (s.ring.head + chunk - s.ring.tail) + 1 ≤
          kShmRingCapacity - (s.ring.head - s.ring.tail) := by omega
      exact ⟨rfl, hsum _ _ _ _ _ hpend hless⟩
  | drained hpt hcounter =>
    cases d with
    | send => exact ⟨rfl, le_rfl⟩
    | receive => exact ⟨rfl, le_rfl⟩
  | empty hpt hcounter => exact ⟨rfl, hstay _ _ rfl⟩
  | check hpt hroom => exact ⟨rfl, hstay _ _ rfl⟩
  | seen hpt hroom => exact ⟨rfl, hstay _ _ rfl⟩
  | again own hpt hroom => exact ⟨rfl, hstay _ _ rfl⟩
  | stop own hpt hroom => exact ⟨rfl, hstay _ _ rfl⟩
  | notify hpt hmoved =>
    have hpend : pending (s.endpoint d.peer) = 1 := by
      simp only [pending, hcall, Option.elim, if_pos hmoved.1]
    have hone : ∀ n : Nat, (if 0 < n then 1 else 0) ≤ 1 := by
      intro n
      split_ifs <;> omega
    have hsum : ∀ x' x p r : Nat, x' ≤ 1 → p = 1 → x' + 0 + r ≤ x + p + r := by omega
    cases d with
    | send => exact ⟨rfl, hsum _ _ _ _ (hone _) hpend⟩
    | receive => exact ⟨rfl, hsum _ _ _ _ (hone _) hpend⟩
  | leave hpt hmoved =>
    have hsum : ∀ x p r : Nat, x + 0 + r ≤ x + p + r := by omega
    exact ⟨rfl, hsum _ _ _⟩

theorem eq_peer {d' : TransportDirection} (h : d' ≠ d) : d' = d.peer := by
  cases d <;> cases d' <;> first | rfl | exact absurd rfl h

/-- Between two calls the peer changes nothing that the other endpoint sees. -/
theorem wakeups_withEndpoint {e : TransportShm} (hcall : (s.endpoint d.peer).call = none)
    (he : pending e = 0) :
    (s.withEndpoint d.peer e).endpoint d = s.endpoint d ∧
      wakeups (s.withEndpoint d.peer e) d = wakeups s d := by
  refine ⟨withEndpoint_ne (peer_ne d).symm, ?_⟩
  have hnone : pending (s.endpoint d.peer) = 0 := by simp only [pending, hcall, Option.elim]
  rw [wakeups, wakeups, withEndpoint_self, he, hnone]
  rfl

/-- **A step of the peer** leaves the endpoint and its cursor, and gives no wakeup away. -/
theorem peer_step (h : Inv s) (hs : step l s = some s') (hside : side l ≠ d) :
    s'.endpoint d = s.endpoint d ∧ s'.ring.cursor d = s.ring.cursor d ∧
      wakeups s' d ≤ wakeups s d := by
  cases l with
  | begin d' data size progress =>
    obtain rfl : d' = d.peer := eq_peer hside
    simp only [step] at hs
    split at hs
    · cases hs
    · rename_i hnone
      split at hs
      · obtain rfl := Option.some.inj hs
        obtain ⟨h1, h2⟩ := wakeups_withEndpoint (e := (s.endpoint d.peer).resume
          { data := data, size := size, start := progress, progress := progress }) hnone rfl
        exact ⟨h1, rfl, Nat.le_of_eq h2⟩
      · cases hs
  | setWaitMode d' mode =>
    obtain rfl : d' = d.peer := eq_peer hside
    simp only [step] at hs
    split at hs
    · cases hs
    · rename_i hnone
      obtain rfl := Option.some.inj hs
      have hpend : pending { s.endpoint d.peer with waitMode := mode } = 0 := by
        simp only [pending, hnone, Option.elim]
      obtain ⟨h1, h2⟩ := wakeups_withEndpoint hnone hpend
      exact ⟨h1, rfl, Nat.le_of_eq h2⟩
  | access d' =>
    obtain rfl : d' = d.peer := eq_peer hside
    simp only [step] at hs
    split at hs
    · cases hs
    · rename_i c hc
      obtain rfl := Option.some.inj hs
      obtain ⟨hcursor, hle⟩ := moves_wakeups h hc (advance_moves _ _ _ _)
      refine ⟨accessed_endpoint_ne (peer_ne d).symm, hcursor, ?_⟩
      rw [wakeups, wakeups, room, room, accessed_endpoint_self, accessed_ring, peer_peer]
      exact hle

end Peer

/-! ## 4. A whole call -/

/-- A run in which an endpoint makes no other call than the one it is in: how many iterations have
    begun and how many accesses it has made. -/
inductive CallRun (d : TransportDirection) (s₀ : ShmSystem) : Nat → Nat → ShmSystem → Prop where
  | start : CallRun d s₀ 0 0 s₀
  | peer (i a : Nat) (s s' : ShmSystem) (l : ShmLabel) (h : CallRun d s₀ i a s) (hl : side l ≠ d)
      (hs : step l s = some s') : CallRun d s₀ i a s'
  | own (i a : Nat) (s s' : ShmSystem) (c : TryCall) (h : CallRun d s₀ i a s)
      (hc : (s.endpoint d).call = some c) (hs : step (.access d) s = some s') :
      CallRun d s₀ (i + if Head c then 1 else 0) (a + 1) s'

section Calls

variable {s s' s₀ : ShmSystem} {d : TransportDirection} {c : TryCall} {a : Access}

/-- A `Drain` begins in a ring the access leaves as it is, or goes on after a read that succeeded. -/
theorem moves_drain {g : ShmRing} {e : TransportShm} {c' : TryCall}
    (hm : Moves d g e c a) (hc' : a.endpoint.call = some c') (hdrain : c'.point = .drain) :
    a.ring = g ∧ c.point ≠ .drain ∨
      c.point = .drain ∧ 0 < g.counter d ∧ a.ring = g.drain d := by
  cases hm with
  | toDrain own hpt hroom hmode =>
    exact .inl ⟨rfl, by rw [hpt]; simp⟩
  | drained hpt hcounter => exact .inr ⟨hpt, hcounter, rfl⟩
  | look | known | complete | polled | fresh | byte | store | empty | check | seen | again | stop =>
    cases hc'
    cases hdrain
  | notify | leave => cases hc'

theorem accesses_mono {g : ShmRing} {e : TransportShm} {w v : Nat}
    (h : ∀ c, e.call = some c → c.point = .drain → w ≤ v) :
    accessesLeft d g e w ≤ accessesLeft d g e v := by
  cases hcall : e.call with
  | none => simp only [accessesLeft, hcall, Option.elim, le_refl]
  | some c =>
    have hle := h c hcall
    simp only [accessesLeft, hcall, Option.elim, accesses, within]
    cases hpt : c.point with
    | drain =>
      have := hle hpt
      simp only
      omega
    | loop | refresh | copy | available | recheck | finish => exact le_rfl

/-- **An access of the endpoint** uses up what is left of its call. -/
theorem own_step (h : Inv s) (hc : (s.endpoint d).call = some c)
    (hs : step (.access d) s = some s') :
    roundsLeft d s'.ring (s'.endpoint d) + (if Head c then 1 else 0) ≤
        roundsLeft d s.ring (s.endpoint d) ∧
      accessesLeft d s'.ring (s'.endpoint d) (wakeups s' d) + 1 ≤
        accessesLeft d s.ring (s.endpoint d) (wakeups s d) := by
  simp only [step, hc] at hs
  obtain rfl := Option.some.inj hs
  have hm := advance_moves d s.ring (s.endpoint d) c
  have hp := ((h.endpoints d).call c hc).2
  have hcounter : 0 < s.ring.counter d → 0 < wakeups s d := by
    intro hpos
    rw [wakeups, if_pos hpos]
    omega
  generalize advance d s.ring (s.endpoint d) c = a at hm
  have hleft := advance_left hc hp (wakeups_le h) hcounter hm
  have hmono := accesses_mono (d := d) (g := a.ring) (e := a.endpoint)
    (w := wakeups (s.accessed d a) d)
    (v := if c.point = .drain ∧ 0 < s.ring.counter d then wakeups s d - 1 else wakeups s d) (by
      intro c' hc' hdrain
      rcases moves_drain hm hc' hdrain with ⟨hring, hpt⟩ | ⟨hpt, hpos, hring⟩
      · rw [if_neg fun hd => hpt hd.1, wakeups, wakeups, room, room, accessed_ring, hring,
          accessed_endpoint_ne (peer_ne d)]
      · rw [if_pos ⟨hpt, hpos⟩, wakeups, wakeups, room, room, accessed_ring, hring,
          accessed_endpoint_ne (peer_ne d), if_pos hpos]
        cases d with
        | send => exact Nat.le_of_eq (by simp [ShmRing.drain, ShmRing.counter, ShmRing.cursor]; omega)
        | receive => exact Nat.le_of_eq (by simp [ShmRing.drain, ShmRing.counter, ShmRing.cursor]; omega))
  rw [accessed_endpoint_self, accessed_ring]
  have h2 := hleft.accesses
  exact ⟨hleft.rounds, by omega⟩

/-- What a run of a call has used up of what was left at its start. -/
theorem CallRun.used {i n : Nat} (h : CallRun d s₀ i n s) (h0 : Inv s₀) :
    Inv s ∧
    i + roundsLeft d s.ring (s.endpoint d) ≤ roundsLeft d s₀.ring (s₀.endpoint d) ∧
    n + accessesLeft d s.ring (s.endpoint d) (wakeups s d) ≤
      accessesLeft d s₀.ring (s₀.endpoint d) (wakeups s₀ d) := by
  induction h with
  | start => exact ⟨h0, by omega, by omega⟩
  | peer i n s s' l _ hl hs ih =>
    obtain ⟨hI, hrounds, haccesses⟩ := ih
    obtain ⟨hendpoint, hcursor, hwakeups⟩ := peer_step hI hs hl
    have hsame : roundsLeft d s'.ring (s.endpoint d) = roundsLeft d s.ring (s.endpoint d) := by
      cases hc : (s.endpoint d).call with
      | none => simp only [roundsLeft, hc, Option.elim]
      | some c => simp only [roundsLeft, hc, Option.elim, rounds, hcursor]
    have hle : accessesLeft d s'.ring (s.endpoint d) (wakeups s' d) ≤
        accessesLeft d s.ring (s.endpoint d) (wakeups s d) := by
      refine Nat.le_trans (accesses_mono fun _ _ _ => hwakeups) (Nat.le_of_eq ?_)
      cases hc : (s.endpoint d).call with
      | none => simp only [accessesLeft, hc, Option.elim]
      | some c => simp only [accessesLeft, hc, Option.elim, accesses, rounds, hcursor]
    rw [hendpoint]
    exact ⟨step_inv hI hs, by omega, by omega⟩
  | own i n s s' c _ hc hs ih =>
    obtain ⟨hI, hrounds, haccesses⟩ := ih
    obtain ⟨h1, h2⟩ := own_step hI hc hs
    exact ⟨step_inv hI hs, by omega, by omega⟩

end Calls

/-! ## 5. One iteration -/

/-- An iteration of the loop, from its head, with whatever the peer does meanwhile. -/
inductive Round (d : TransportDirection) (s : ShmSystem) : ShmSystem → Prop where
  | enter (s' : ShmSystem) (c : TryCall) (hc : (s.endpoint d).call = some c) (hhead : Head c)
      (hs : step (.access d) s = some s') : Round d s s'
  | own (s' s'' : ShmSystem) (c : TryCall) (h : Round d s s') (hc : (s'.endpoint d).call = some c)
      (hloop : c.point ≠ .loop) (hfinish : c.point ≠ .finish)
      (hs : step (.access d) s' = some s'') : Round d s s''
  | peer (s' s'' : ShmSystem) (l : ShmLabel) (h : Round d s s') (hl : side l ≠ d)
      (hs : step l s' = some s'') : Round d s s''

/-- Where an iteration that began with call `c` is; `known` says that it began with known room. -/
def Under (d : TransportDirection) (c : TryCall) (known : Prop) (g : ShmRing) (e : TransportShm)
    (c' : TryCall) : Prop :=
  match c'.point with
  | .loop => c.progress < c'.progress ∨ ¬ known ∧ c'.progress = c.progress ∧
      e.waitMode = .eventDriven ∧ available (g.cursor d) e.cached d ≠ 0
  | .copy _ chunk _ => c'.progress = c.progress ∧ 0 < chunk
  | .refresh _ => ¬ known ∧ c'.progress = c.progress
  | .drain => ¬ known ∧ c'.progress = c.progress ∧ e.waitMode = .eventDriven
  | .available => ¬ known ∧ c'.progress = c.progress ∧ e.waitMode = .eventDriven
  | .recheck own => ¬ known ∧ c'.progress = c.progress ∧ e.waitMode = .eventDriven ∧
      own = g.cursor d
  | .finish => ¬ known

section Rounds

variable {s s' : ShmSystem} {d : TransportDirection} {c c' : TryCall} {a : Access} {known : Prop}
  {g : ShmRing} {e : TransportShm}

/-- The first access of an iteration. -/
theorem under_enter (hhead : Head c) (hm : Moves d g e c a)
    (hknown : known ↔ available (g.cursor d) e.cached d ≠ 0) :
    ∃ c', a.endpoint.call = some c' ∧ Under d c known a.ring a.endpoint c' := by
  cases hm with
  | look hpt hlt hroom => exact ⟨_, rfl, fun hk => hknown.mp hk hroom, rfl⟩
  | known hpt hlt hroom => exact ⟨_, rfl, rfl, (chunkLen_pos _ hroom hlt).1⟩
  | complete hpt hle => exact absurd hhead.2 hle
  | toDrain own hpt | polled own hpt | fresh own hpt | byte own chunk k hpt | store own chunk k hpt
  | again own hpt | stop own hpt =>
    rw [hhead.1] at hpt
    cases hpt
  | drained hpt | empty hpt | check hpt | seen hpt | notify hpt | leave hpt =>
    rw [hhead.1] at hpt
    cases hpt

/-- Another access of the iteration. -/
theorem under_own {produced : List UInt8} (hcall : e.call = some c')
    (hp : PointOk d g produced e.cached c' c'.point) (hu : Under d c known g e c')
    (hloop : c'.point ≠ .loop) (hfinish : c'.point ≠ .finish) (hm : Moves d g e c' a) :
    ∃ c'', a.endpoint.call = some c'' ∧ Under d c known a.ring a.endpoint c'' := by
  cases hm with
  | look hpt | known hpt | complete hpt => exact absurd hpt hloop
  | notify hpt | leave hpt => exact absurd hpt hfinish
  | toDrain own hpt hroom hmode =>
    simp only [Under, hpt] at hu
    exact ⟨_, rfl, hu.1, hu.2, hmode⟩
  | polled own hpt hroom hmode =>
    simp only [Under, hpt] at hu
    exact ⟨_, rfl, hu.1⟩
  | fresh own hpt hroom =>
    simp only [Under, hpt] at hu
    rw [hpt] at hp
    exact ⟨_, rfl, hu.2, (chunkLen_pos _ hroom hp.2).1⟩
  | byte own chunk k hpt hk =>
    simp only [Under, hpt] at hu
    cases d with
    | send => exact ⟨_, rfl, hu⟩
    | receive => exact ⟨_, rfl, hu⟩
  | store own chunk k hpt hk =>
    simp only [Under, hpt] at hu
    refine ⟨_, rfl, .inl ?_⟩
    show c.progress < c'.progress + chunk
    omega
  | drained hpt hcounter =>
    refine ⟨c', hcall, ?_⟩
    simp only [Under, hpt] at hu ⊢
    exact hu
  | empty hpt hcounter =>
    simp only [Under, hpt] at hu
    exact ⟨_, rfl, hu⟩
  | check hpt hroom =>
    simp only [Under, hpt] at hu
    exact ⟨_, rfl, hu.1, hu.2.1, hu.2.2, rfl⟩
  | seen hpt hroom =>
    simp only [Under, hpt] at hu
    exact ⟨_, rfl, .inr ⟨hu.1, hu.2.1, hu.2.2, hroom⟩⟩
  | again own hpt hroom =>
    simp only [Under, hpt] at hu
    obtain ⟨hk, hprogress, hmode, rfl⟩ := hu
    exact ⟨_, rfl, .inr ⟨hk, hprogress, hmode, hroom⟩⟩
  | stop own hpt hroom =>
    simp only [Under, hpt] at hu
    exact ⟨_, rfl, hu.1⟩

/-- What holds all along an iteration. -/
theorem Round.under (h : Round d s s') (h0 : Inv s) (hc : (s.endpoint d).call = some c) :
    Inv s' ∧ ∃ c', (s'.endpoint d).call = some c' ∧
      Under d c (available (s.ring.cursor d) (s.endpoint d).cached d ≠ 0) s'.ring (s'.endpoint d)
        c' := by
  induction h with
  | enter s' c₀ hc₀ hhead hs =>
    obtain rfl : c = c₀ := Option.some.inj (hc.symm.trans hc₀)
    refine ⟨step_inv h0 hs, ?_⟩
    simp only [step, hc] at hs
    obtain rfl := Option.some.inj hs
    rw [accessed_endpoint_self, accessed_ring]
    exact under_enter hhead (advance_moves _ _ _ _) Iff.rfl
  | own s' s'' c₀ _ hc₀ hloop hfinish hs ih =>
    obtain ⟨hI, c', hc', hu⟩ := ih
    obtain rfl : c' = c₀ := Option.some.inj (hc'.symm.trans hc₀)
    refine ⟨step_inv hI hs, ?_⟩
    simp only [step, hc'] at hs
    obtain rfl := Option.some.inj hs
    rw [accessed_endpoint_self, accessed_ring]
    exact under_own hc' ((hI.endpoints d).call c' hc').2 hu hloop hfinish (advance_moves _ _ _ _)
  | peer s' s'' l _ hl hs ih =>
    obtain ⟨hI, c', hc', hu⟩ := ih
    obtain ⟨hendpoint, hcursor, -⟩ := peer_step hI hs hl
    refine ⟨step_inv hI hs, c', by rw [hendpoint]; exact hc', ?_⟩
    simp only [Under, hendpoint, hcursor] at hu ⊢
    exact hu

/-- An iteration that begins with known room moves a byte. -/
theorem round_known (hI : Inv s) (hc : (s.endpoint d).call = some c)
    (hknown : available (s.ring.cursor d) (s.endpoint d).cached d ≠ 0) (hr : Round d s s')
    (hc' : (s'.endpoint d).call = some c') (hend : c'.point = .loop ∨ c'.point = .finish) :
    c.progress < c'.progress := by
  obtain ⟨-, c₀, hc₀, hu⟩ := hr.under hI hc
  obtain rfl : c' = c₀ := Option.some.inj (hc'.symm.trans hc₀)
  rcases hend with hpt | hpt
  · simp only [Under, hpt] at hu
    rcases hu with hlt | ⟨hno, -⟩
    · exact hlt
    · exact absurd hknown hno
  · simp only [Under, hpt] at hu
    exact absurd hknown hu

/-- **An iteration moves a byte, ends the loop, or is followed by one that moves a byte.** -/
theorem round_moves (hI : Inv s) (hc : (s.endpoint d).call = some c) (hr : Round d s s')
    (hc' : (s'.endpoint d).call = some c') (hend : c'.point = .loop ∨ c'.point = .finish) :
    c.progress < c'.progress ∨ c'.point = .finish ∨
      (s'.endpoint d).waitMode = .eventDriven ∧
        ∀ s'' c'', Round d s' s'' → (s''.endpoint d).call = some c'' →
          c''.point = .loop ∨ c''.point = .finish → c'.progress < c''.progress := by
  obtain ⟨hI', c₀, hc₀, hu⟩ := hr.under hI hc
  obtain rfl : c' = c₀ := Option.some.inj (hc'.symm.trans hc₀)
  rcases hend with hpt | hpt
  · simp only [Under, hpt] at hu
    rcases hu with hlt | ⟨-, -, hmode, hroom⟩
    · exact .inl hlt
    · exact .inr (.inr ⟨hmode, fun s'' c'' hr'' hc'' hend'' =>
        round_known hI' hc' hroom hr'' hc'' hend''⟩)
  · exact .inr (.inl hpt)

/-- **Shared-memory calls never spin.** Whatever the peer does between the accesses: an iteration moves
    a byte, ends the loop, or is followed by one that moves a byte; a call begins at most
    `2 * (size - progress) + 2` iterations and makes a bounded number of accesses, each of which it can
    make at any time. -/
theorem shm_never_spins {ls : List ShmLabel} (h : Reach step created ls s)
    (d : TransportDirection) :
    (∀ c s' c', (s.endpoint d).call = some c → Round d s s' → (s'.endpoint d).call = some c' →
      c'.point = .loop ∨ c'.point = .finish →
      c.progress < c'.progress ∨ c'.point = .finish ∨
        (s'.endpoint d).waitMode = .eventDriven ∧
          ∀ s'' c'', Round d s' s'' → (s''.endpoint d).call = some c'' →
            c''.point = .loop ∨ c''.point = .finish → c'.progress < c''.progress) ∧
    ∀ data size progress s₀ i n s', step (.begin d data size progress) s = some s₀ →
      CallRun d s₀ i n s' →
      i ≤ 2 * (size - progress) + 2 ∧ n ≤ (2 * (size - progress) + 2) * accessesPerRound ∧
      ∀ c, (s'.endpoint d).call = some c → ∃ s'', step (.access d) s' = some s'' := by
  have hI := reach_inv h
  refine ⟨fun c s' c' hc hr hc' hend => round_moves hI hc hr hc' hend, ?_⟩
  intro data size progress s₀ i n s' hs hrun
  have h0 := step_inv hI hs
  obtain ⟨-, hrounds, haccesses⟩ := hrun.used h0
  have hstart : (s₀.endpoint d).call =
      some { data := data, size := size, start := progress, progress := progress } := by
    simp only [step] at hs
    split at hs
    · cases hs
    · split at hs
      · obtain rfl := Option.some.inj hs
        rw [withEndpoint_self]
        rfl
      · cases hs
  have hfirst : roundsLeft d s₀.ring (s₀.endpoint d) ≤ 2 * (size - progress) := by
    simp only [roundsLeft, hstart, Option.elim, rounds]
    split_ifs <;> omega
  have hall : accessesLeft d s₀.ring (s₀.endpoint d) (wakeups s₀ d) =
      roundsLeft d s₀.ring (s₀.endpoint d) * accessesPerRound + 2 := by
    simp only [accessesLeft, roundsLeft, hstart, Option.elim, accesses, within]
  have hmul := Nat.mul_le_mul_right accessesPerRound hfirst
  have hper : 2 ≤ accessesPerRound := by
    unfold accessesPerRound
    omega
  refine ⟨by omega, ?_, ?_⟩
  · rw [Nat.add_mul]
    omega
  · intro c hc
    simp only [step, hc]
    exact ⟨_, rfl⟩

theorem shm_never_spins_three : ∃ s₀ s', step (.begin .send (fun _ => 7) 3 0) created = some s₀ ∧
    CallRun .send s₀ 1 1 s' ∧ 1 ≤ 2 * (3 - 0) + 2 := by
  have hstart : CallRun .send (created.withEndpoint .send ((created.endpoint .send).resume
      { data := fun _ => 7, size := 3, start := 0, progress := 0 })) 0 0 _ := .start
  have hrun := CallRun.own 0 0 _ _ _ hstart rfl rfl
  exact ⟨_, _, rfl, hrun,
    ((shm_never_spins .start .send).2 (fun _ => 7) 3 0 _ _ _ _ rfl hrun).1⟩

end Rounds

end OriginCCL.ShmSystem
