/-
  File:      OriginCCL/Transport/ShmWakeup.lean
  Subject:   EVENT-DRIVEN SHARED MEMORY LOSES NO WAKEUP.

  An endpoint goes to sleep only after it has drained its eventfd and then found no room. From then on
  only the peer makes room, and a peer that has moved bytes writes to the eventfd before its call ends.

  * `Asleep`, `Pending` -- an endpoint that is about to sleep or sleeps, and one that will notify.
  * `advance_asleep`, `advance_notifies` -- what an access does to its own sleep and to the peer's.
  * `step_awake` -- **every step keeps it that room is announced**.
  * `shm_wakeup` -- between two calls a sleeping endpoint with room has a positive counter.
-/
import OriginCCL.Transport.ShmStream

namespace OriginCCL.ShmSystem

open Base

/-! ## 1. Sleepers and notifiers -/

/-- The room a producer has, the bytes a consumer has. -/
def room (s : ShmSystem) (d : TransportDirection) : Nat :=
  available (s.ring.cursor d) (s.ring.cursor d.peer) d

/-- The endpoint sleeps: its last call has returned without being done, or is about to. -/
def Asleep (e : TransportShm) : Prop :=
  (∃ c, e.call = some c ∧ c.point = .finish ∧ c.progress < c.size) ∨
    e.call = none ∧ ∃ c, e.last = some (c, false)

/-- The endpoint is in a call that has moved bytes, so it will notify its peer. -/
def Pending (e : TransportShm) : Prop := ∃ c, e.call = some c ∧ 0 < c.moved

/-- Room for a sleeping endpoint is announced by its counter or by a peer that will notify it. -/
def Awake (s : ShmSystem) (d : TransportDirection) : Prop :=
  Asleep (s.endpoint d) → 0 < room s d →
    0 < s.ring.counter d ∨ Pending (s.endpoint d.peer)

theorem peer_peer (d : TransportDirection) : d.peer.peer = d := by
  cases d <;> rfl

theorem peer_ne (d : TransportDirection) : d.peer ≠ d := by
  cases d <;> decide

theorem drain_counter_peer (g : ShmRing) (d : TransportDirection) :
    (g.drain d).counter d.peer = g.counter d.peer := by
  cases d <;> rfl

theorem notify_counter (g : ShmRing) (d : TransportDirection) :
    (g.notify d).counter d = g.counter d + 1 := by
  cases d <;> rfl

theorem notify_counter_peer (g : ShmRing) (d : TransportDirection) :
    (g.notify d.peer).counter d = g.counter d := by
  cases d <;> rfl

theorem store_counter (g : ShmRing) (v : Nat) (d d' : TransportDirection) :
    (g.store v d).counter d' = g.counter d' := by
  cases d <;> cases d' <;> rfl

/-! ## 2. What an access does to sleep -/

section Accesses

variable {d : TransportDirection} {g : ShmRing} {e : TransportShm} {c : TryCall}

/-- A call that goes on before its end does not sleep. -/
theorem not_asleep_resume {c' : TryCall} (h : c'.point ≠ .finish) : ¬ Asleep (e.resume c') := by
  rintro (⟨c'', hc, hp, -⟩ | ⟨hc, -⟩)
  · obtain rfl := Option.some.inj hc
    exact h hp
  · cases hc

/-- A call at its end sleeps only if it is not done. -/
theorem asleep_resume_finish {c' : TryCall} (h : Asleep (e.resume c')) : c'.progress < c'.size := by
  rcases h with ⟨c'', hc, -, hlt⟩ | ⟨hc, -⟩
  · obtain rfl := Option.some.inj hc
    exact hlt
  · cases hc

/-- **An event-driven endpoint falls asleep only when it has no room**, and then touches neither
    cursors nor its own counter. -/
theorem advance_asleep {produced : List UInt8} (hmode : e.waitMode = .eventDriven)
    (hcall : e.call = some c) (hle : c.progress ≤ c.size)
    (hp : PointOk d g produced e.cached c c.point) (hs : Asleep (advance d g e c).endpoint) :
    (available (g.cursor d) (g.cursor d.peer) d = 0 ∨ Asleep e) ∧
      (advance d g e c).ring.counter d = g.counter d ∧
      ∀ d', (advance d g e c).ring.cursor d' = g.cursor d' := by
  unfold advance at hs ⊢
  split at hs
  · -- loop
    split at hs
    · dsimp only at hs
      split at hs
      · exact absurd hs (not_asleep_resume (by simp))
      · exact absurd hs (not_asleep_resume (by simp))
    · rename_i hlt
      exact absurd (asleep_resume_finish hs) hlt
  · -- refresh
    dsimp only at hs
    split at hs
    · exact absurd hs (not_asleep_resume (by simp))
    · exact absurd hs (not_asleep_resume (by simp))
  · -- copy
    split at hs
    · exact absurd hs (not_asleep_resume (by simp))
    · exact absurd hs (not_asleep_resume (by simp))
  · -- drain
    rename_i hpt
    split at hs
    · rcases hs with ⟨c', hc', hfin, -⟩ | ⟨hnone, -⟩
      · obtain rfl := Option.some.inj (hcall.symm.trans hc')
        rw [hpt] at hfin
        cases hfin
      · rw [hcall] at hnone
        cases hnone
    · exact absurd hs (not_asleep_resume (by simp))
  · -- available
    dsimp only at hs
    split at hs
    · exact absurd hs (not_asleep_resume (by simp))
    · exact absurd hs (not_asleep_resume (by simp))
  · -- recheck
    rename_i own hpt
    rw [hpt] at hp
    obtain rfl : own = g.cursor d := hp
    dsimp only at hs ⊢
    split at hs
    · rename_i hroom
      rw [if_pos hroom]
      exact ⟨Or.inl hroom, rfl, fun _ => rfl⟩
    · exact absurd hs (not_asleep_resume (by simp))
  · -- finish
    rename_i hpt
    have hlt : c.progress < c.size := by
      have hlast : ∀ e' : TransportShm, Asleep (e'.finish c) → c.progress ≠ c.size := by
        rintro e' (⟨c', hc', -⟩ | ⟨-, c', hc'⟩) he
        · cases hc'
        · obtain ⟨-, hb⟩ := Prod.mk.inj (Option.some.inj hc')
          rw [beq_eq_false_iff_ne] at hb
          exact hb he
      have hne : c.progress ≠ c.size := by
        split at hs
        · exact hlast _ hs
        · exact hlast _ hs
      omega
    refine ⟨Or.inr (Or.inl ⟨c, hcall, hpt, hlt⟩), ?_, fun d' => ?_⟩
    · split
      · exact notify_counter_peer g d
      · rfl
    · split
      · cases d <;> cases d' <;> rfl
      · rfl

/-- **What an access does for the peer**: an event-driven endpoint that moves its cursor will notify,
    and does so before its call ends; no access of its own lowers the peer's counter. -/
theorem advance_notifies {produced : List UInt8} (hmode : e.waitMode = .eventDriven)
    (hcall : e.call = some c) (hp : PointOk d g produced e.cached c c.point) :
    (Pending (advance d g e c).endpoint ∨ (advance d g e c).ring.cursor d = g.cursor d) ∧
      (0 < c.moved → Pending (advance d g e c).endpoint ∨
        0 < (advance d g e c).ring.counter d.peer) ∧
      g.counter d.peer ≤ (advance d g e c).ring.counter d.peer ∧
      (advance d g e c).ring.cursor d.peer = g.cursor d.peer := by
  -- a call that goes on keeps what it has moved
  have hgo : ∀ (cached : Nat) (c' : TryCall), c'.moved = c.moved →
      (Pending ({ e with cached := cached }.resume c') ∨ g.cursor d = g.cursor d) ∧
      (0 < c.moved → Pending ({ e with cached := cached }.resume c') ∨ 0 < g.counter d.peer) ∧
      g.counter d.peer ≤ g.counter d.peer ∧ g.cursor d.peer = g.cursor d.peer :=
    fun cached c' hm => ⟨Or.inr rfl, fun h => Or.inl ⟨c', rfl, by rw [hm]; exact h⟩,
      Nat.le_refl _, rfl⟩
  unfold advance
  split
  · -- loop
    split
    · dsimp only
      split
      · exact hgo e.cached _ rfl
      · exact hgo e.cached _ rfl
    · exact hgo e.cached _ rfl
  · -- refresh
    dsimp only
    split
    · exact hgo _ _ rfl
    · exact hgo _ _ rfl
  · -- copy
    rename_i own chunk k hpt
    rw [hpt] at hp
    have hpos := hp.2.1.pos
    split
    · cases d with
      | send => exact ⟨Or.inr rfl, fun h => Or.inl ⟨_, rfl, h⟩, Nat.le_refl _, rfl⟩
      | receive => exact ⟨Or.inr rfl, fun h => Or.inl ⟨_, rfl, h⟩, Nat.le_refl _, rfl⟩
    · have hpending : Pending (e.resume { c with
          progress := c.progress + chunk, moved := c.moved + chunk, point := .loop }) :=
        ⟨_, rfl, Nat.lt_of_lt_of_le hpos (Nat.le_add_left ..)⟩
      refine ⟨Or.inl hpending, fun _ => Or.inl hpending, ?_, ?_⟩
      · exact Nat.le_of_eq (store_counter ..).symm
      · cases d <;> rfl
  · -- drain
    split
    · refine ⟨Or.inr ?_, fun h => Or.inl ⟨c, hcall, h⟩, ?_, ?_⟩
      · cases d <;> rfl
      · exact Nat.le_of_eq (drain_counter_peer g d).symm
      · cases d <;> rfl
    · exact hgo e.cached _ rfl
  · -- available
    dsimp only
    split
    · exact hgo e.cached _ rfl
    · exact hgo e.cached _ rfl
  · -- recheck
    dsimp only
    split
    · exact hgo _ _ rfl
    · exact hgo _ _ rfl
  · -- finish
    split
    · refine ⟨Or.inr ?_, fun _ => Or.inr ?_, ?_, ?_⟩
      · cases d <;> rfl
      · rw [notify_counter]
        exact Nat.succ_pos _
      · rw [notify_counter]
        exact Nat.le_succ _
      · cases d <;> rfl
    · rename_i hno
      exact ⟨Or.inr rfl, fun h => absurd ⟨h, hmode⟩ hno, Nat.le_refl _, rfl⟩

/-- No access changes the wait mode. -/
theorem advance_waitMode : (advance d g e c).endpoint.waitMode = e.waitMode := by
  unfold advance
  split
  · split
    · dsimp only
      split <;> rfl
    · rfl
  · dsimp only
    split
    · split <;> rfl
    · rfl
  · split <;> rfl
  · split <;> rfl
  · dsimp only
    split <;> rfl
  · dsimp only
    split <;> rfl
  · split <;> rfl

end Accesses

/-! ## 3. Every step keeps room announced -/

section Steps

variable {s s' : ShmSystem} {l : ShmLabel}

/-- Both endpoints are event-driven, and room for a sleeping one is announced. -/
structure Alert (s : ShmSystem) : Prop where
  inv : Inv s
  mode : ∀ d, (s.endpoint d).waitMode = .eventDriven
  awake : ∀ d, Awake s d

theorem alert_created : Alert created where
  inv := inv_created
  mode _ := rfl
  awake d h := by
    rcases h with ⟨c, hc, -⟩ | ⟨-, c, hc⟩
    · cases hc
    · cases hc

theorem room_congr {d : TransportDirection}
    (h : ∀ d', s'.ring.cursor d' = s.ring.cursor d') : room s' d = room s d := by
  rw [room, room, h, h]

/-- **An access keeps room announced**: its own endpoint falls asleep without room only, and the peer's
    room grows under the eyes of an endpoint that will notify. -/
theorem Alert.access (h : Alert s) {d : TransportDirection} {c : TryCall}
    (hc : (s.endpoint d).call = some c) (d' : TransportDirection) :
    Awake (s.accessed d (advance d s.ring (s.endpoint d) c)) d' := by
  have hown := (h.inv.endpoints d).call c hc
  intro hasleep hroom
  by_cases hd : d' = d
  · subst hd
    rw [accessed_endpoint_self] at hasleep
    obtain ⟨hbefore, hcounter, hcursor⟩ :=
      advance_asleep (h.mode d') hc hown.1.le_size hown.2 hasleep
    rw [accessed_ring, hcounter, accessed_endpoint_ne (peer_ne d')]
    rw [room_congr (s := s) hcursor] at hroom
    rcases hbefore with h0 | hbefore
    · have h0 : room s d' = 0 := h0
      omega
    · exact h.awake d' hbefore hroom
  · obtain rfl : d' = d.peer := by
      cases d <;> cases d' <;> first | rfl | exact absurd rfl hd
    obtain ⟨hmove, hkeep, hcounter, hpeer⟩ := advance_notifies (h.mode d) hc hown.2
    rw [accessed_endpoint_ne hd] at hasleep
    rw [accessed_ring, peer_peer, accessed_endpoint_self]
    rcases hmove with hpending | hstay
    · exact Or.inr hpending
    · have hcursor : ∀ d', (advance d s.ring (s.endpoint d) c).ring.cursor d' =
          s.ring.cursor d' := by
        intro d'
        by_cases hd' : d' = d
        · rw [hd', hstay]
        · obtain rfl : d' = d.peer := by
            cases d <;> cases d' <;> first | rfl | exact absurd rfl hd'
          exact hpeer
      rw [room_congr (s := s) hcursor] at hroom
      rcases h.awake d.peer hasleep hroom with hpos | hpending
      · exact Or.inl (Nat.lt_of_lt_of_le hpos hcounter)
      · rw [peer_peer] at hpending
        obtain ⟨c', hc', hmoved⟩ := hpending
        obtain rfl := Option.some.inj (hc.symm.trans hc')
        exact (hkeep hmoved).symm

/-- The start of a call keeps room announced: its endpoint is awake, and was not going to notify. -/
theorem Alert.begin (h : Alert s) {d : TransportDirection} {e : TransportShm}
    (hnone : (s.endpoint d).call = none) (he : ¬ Asleep e) (d' : TransportDirection) :
    Awake (s.withEndpoint d e) d' := by
  intro hasleep hroom
  by_cases hd : d' = d
  · subst hd
    rw [withEndpoint_self] at hasleep
    exact absurd hasleep he
  · rw [withEndpoint_ne hd] at hasleep
    rcases h.awake d' hasleep hroom with hpos | ⟨c, hc, -⟩
    · exact Or.inl hpos
    · obtain rfl : d'.peer = d := by
        cases d <;> cases d' <;> first | rfl | exact absurd rfl hd
      rw [hnone] at hc
      cases hc

/-- **Every step of event-driven endpoints keeps room announced.** -/
theorem step_alert (h : Alert s) (hs : step l s = some s')
    (hl : ∀ d m, l = .setWaitMode d m → m = .eventDriven) : Alert s' := by
  refine ⟨step_inv h.inv hs, ?_, ?_⟩
  · cases l with
    | begin d data size progress =>
      simp only [step] at hs
      split at hs
      · cases hs
      · split at hs
        · obtain rfl := Option.some.inj hs
          intro d'
          by_cases hd : d' = d
          · subst hd
            rw [withEndpoint_self]
            exact h.mode d'
          · rw [withEndpoint_ne hd]
            exact h.mode d'
        · cases hs
    | setWaitMode d mode =>
      simp only [step] at hs
      split at hs
      · cases hs
      · obtain rfl := Option.some.inj hs
        intro d'
        by_cases hd : d' = d
        · subst hd
          rw [withEndpoint_self]
          exact hl d' mode rfl
        · rw [withEndpoint_ne hd]
          exact h.mode d'
    | access d =>
      simp only [step] at hs
      split at hs
      · cases hs
      · obtain rfl := Option.some.inj hs
        intro d'
        by_cases hd : d' = d
        · subst hd
          rw [accessed_endpoint_self, advance_waitMode]
          exact h.mode d'
        · rw [accessed_endpoint_ne hd]
          exact h.mode d'
  · cases l with
    | begin d data size progress =>
      simp only [step] at hs
      split at hs
      · cases hs
      · rename_i hnone
        split at hs
        · obtain rfl := Option.some.inj hs
          exact h.begin hnone (not_asleep_resume (by simp))
        · cases hs
    | setWaitMode d mode =>
      simp only [step] at hs
      split at hs
      · cases hs
      · obtain rfl := Option.some.inj hs
        have hmode := hl d mode rfl
        subst hmode
        have hsame : { s.endpoint d with waitMode := .eventDriven } = s.endpoint d := by
          rw [← h.mode d]
        rw [hsame, withEndpoint_eq_self]
        exact h.awake
    | access d =>
      simp only [step] at hs
      split at hs
      · cases hs
      · rename_i c hc
        obtain rfl := Option.some.inj hs
        exact h.access hc

end Steps

/-! ## 4. Runs -/

/-- **Event-driven shared memory never loses a wakeup**: between two calls, a producer whose last call
    was not done and that has room has a positive `space_ready`, a consumer whose last call was not done
    and that has data a positive `data_ready`. -/
theorem shm_wakeup {s : ShmSystem} {ls : List ShmLabel} (h : Reach step created ls s)
    (hmode : ∀ d m, .setWaitMode d m ∈ ls → m = .eventDriven)
    (hidle : ∀ d, (s.endpoint d).call = none) :
    (∀ c, (s.endpoint .send).last = some (c, false) →
      s.ring.head - s.ring.tail < kShmRingCapacity → 0 < s.ring.spaceReady) ∧
    ∀ c, (s.endpoint .receive).last = some (c, false) →
      s.ring.tail < s.ring.head → 0 < s.ring.dataReady := by
  have hA : Alert s := h.invariant_of (P := fun l => l ∈ ls) alert_created
    (fun l s s' hl hI hs => step_alert hI hs fun d m e => hmode d m (e ▸ hl)) fun _ hl => hl
  have hpos : ∀ d c, (s.endpoint d).last = some (c, false) → 0 < room s d →
      0 < s.ring.counter d := by
    intro d c hc hroom
    rcases hA.awake d (Or.inr ⟨hidle d, c, hc⟩) hroom with hpos | ⟨c', hc', -⟩
    · exact hpos
    · rw [hidle] at hc'
      cases hc'
  refine ⟨fun c hc hlt => hpos .send c hc ?_, fun c hc hlt => hpos .receive c hc ?_⟩
  · change 0 < kShmRingCapacity - (s.ring.head - s.ring.tail)
    omega
  · change 0 < s.ring.head - s.ring.tail
    omega

/-- A consumer that finds nothing, and a producer that then sends three bytes. -/
def lateBytes : List ShmLabel :=
  .begin .receive (fun _ => 0) 2 0 :: (List.replicate 6 (.access .receive) ++
    .begin .send (fun i => 7 + i.toUInt8) 3 0 :: List.replicate 8 (.access .send))

theorem shm_wakeup_late : 0 < (follow step created lateBytes).ring.dataReady := by
  obtain ⟨ls, hmem, h⟩ := follow_reach step created lateBytes
  refine (shm_wakeup h (fun d m hl => ?_) fun d => ?_).2
    ⟨fun _ => 0, 2, 0, 0, 0, .finish⟩ ?_ (by decide +kernel)
  · have hl := hmem _ hl
    simp [lateBytes] at hl
  · cases d with
    | send => rfl
    | receive => rfl
  · rfl

end OriginCCL.ShmSystem
