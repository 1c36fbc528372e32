/-
  File:      OriginCCL/Transport/ShmReconnect.lean
  Subject:   CLOSING AND CONNECTING a shared-memory endpoint again.

  `TransportShm::Close` gives back the descriptors and the mapping, but keeps the cached cursor of the
  peer; `Connect` makes a fresh ring and does not set it either. `TransportRDMA::Close` resets its
  counters. So the first call on the new ring subtracts a cursor of the old one.

  * `ShmHost` -- the endpoint object: what `Connect`, the handshake and `Close` set, and the ring.
  * `cleanStep` -- a step, where a `Connect` must find the cached cursor at 0.
  * `reconnect_like_new` -- **in such a run the endpoint behaves as a new one on the same ring**.
  * `stale_consumer`, `reconnect_not_new` -- a consumer that connects with another cached cursor consumes
    a byte nobody has produced.
-/
import OriginCCL.Transport.ShmWords

namespace OriginCCL

open Base

/-! ## 1. The endpoint object -/

/-- A `TransportShm` that connects, and the ring it has mapped with the endpoint at the other end. -/
structure ShmHost where
  direction : TransportDirection
  /-- `control_fd` is open. -/
  control : Bool := false
  /-- `map` and the descriptors of `resources` are there. -/
  mapped : Bool := false
  connected : Bool := false
  shm : ShmSystem := .created

/-- What happens to the object: `Connect` succeeds or fails, `Close`, the handshake (one `Send` or `Recv`
    on the control socket), `SetWaitMode`, or a step on the ring. -/
inductive HostLabel where
  | connect
  | connectFailed
  | close
  | handshake
  | setWaitMode (mode : TransportWaitMode)
  | call (l : ShmLabel)

namespace ShmHost

/-- The private state that the ring does not hold. -/
def endpoint (h : ShmHost) : TransportShm := h.shm.endpoint h.direction

/-- A ring right after `CreateRing`, an endpoint that has mapped it, and the new one that `Accept` makes
    at the other end. -/
def ringWith (d : TransportDirection) (e : TransportShm) : ShmSystem :=
  ShmSystem.created.withEndpoint d e

/-- `Connect`, where it succeeds: it sets neither the wait mode nor the cached cursor. -/
def connect (h : ShmHost) : ShmHost :=
  { h with
    control := true
    mapped := true
    connected := true
    shm := ringWith h.direction { waitMode := h.endpoint.waitMode, cached := h.endpoint.cached } }

/-- `Close`, also on the failing paths of `Connect`: the wait mode and the cached cursor stay. -/
def close (h : ShmHost) : ShmHost := { h with control := false, mapped := false, connected := false }

def step : HostLabel → ShmHost → Option ShmHost
  | .connect, h => if h.endpoint.call.isNone then some h.connect else none
  | .connectFailed, h => if h.endpoint.call.isNone then some h.close else none
  | .close, h => if h.endpoint.call.isNone then some h.close else none
  | .handshake, h => if h.control then some { h with control := false } else none
  | .setWaitMode mode, h =>
    (ShmSystem.stepWord (.setWaitMode h.direction mode) h.shm).map fun s => { h with shm := s }
  | .call l, h =>
    -- a call on an endpoint that is not connected fails at once
    if h.connected then (ShmSystem.stepWord l h.shm).map fun s => { h with shm := s } else none

/-- A newly constructed object. -/
def new (d : TransportDirection) : ShmHost := { direction := d }

/-- A new endpoint over a fresh ring, with a wait mode. -/
def newOn (d : TransportDirection) (mode : TransportWaitMode) : ShmSystem :=
  ringWith d { waitMode := mode }

/-! ## 2. Runs in which nothing stale is left -/

/-- A step, except for a `Connect` that would find a cached cursor. -/
def cleanStep : HostLabel → ShmHost → Option ShmHost
  | .connect, h => if h.endpoint.cached = 0 then step .connect h else none
  | l, h => step l h

/-- The steps on the ring among what happens to an object. -/
def ringLabel (d : TransportDirection) : HostLabel → Option ShmLabel
  | .setWaitMode mode => some (.setWaitMode d mode)
  | .call l => some l
  | _ => none

/-- The wait mode after a step, from the one before it. -/
def modeAfter (d : TransportDirection) (mode : TransportWaitMode) (l : HostLabel) :
    TransportWaitMode :=
  match ringLabel d l with
  | some (.setWaitMode d' mode') => if d' = d then mode' else mode
  | _ => mode

/-- The wait mode that a new object has after the calls of `SetWaitMode` among what happened. -/
def lastMode (d : TransportDirection) (ls : List HostLabel) : TransportWaitMode :=
  ls.foldl (modeAfter d) .eventDriven

/-- **The ring is a bounded stream**: no more bytes in it than its capacity, the consumed bytes a prefix
    of the produced ones, and no unconsumed byte overwritten. -/
structure Bounded (s : ShmSystem) : Prop where
  capacity : subWord s.ring.head s.ring.tail ≤ kShmRingCapacity
  room : (s.bytes .send).length ≤ (s.bytes .receive).length + kShmRingCapacity
  consumed : s.bytes .receive <+: s.bytes .send
  intact : ∀ i, (s.bytes .receive).length ≤ i → i < (s.bytes .send).length →
    s.ring.data (i % kShmRingCapacity) = (s.bytes .send).getD i 0

section Clean

variable {d : TransportDirection} {h : ShmHost} {ls : List HostLabel} {mode : TransportWaitMode}

theorem inv_newOn (d : TransportDirection) (mode : TransportWaitMode) :
    ShmSystem.Inv (newOn d mode) ∧ (newOn d mode).wrap = newOn d mode := by
  constructor
  · exact ShmSystem.step_inv ShmSystem.inv_created
      (show ShmSystem.step (.setWaitMode d mode) ShmSystem.created = some (newOn d mode) from rfl)
  · rw [newOn, ringWith, ShmSystem.wrap_withEndpoint]
    rfl

/-- What a new endpoint does on a fresh ring is bounded. -/
theorem bounded_newOn {calls : List ShmLabel} {w : ShmSystem}
    (hr : Reach ShmSystem.stepWord (newOn d mode) calls w) : Bounded w := by
  obtain ⟨hinv, hwrap⟩ := inv_newOn d mode
  rw [← hwrap] at hr
  obtain ⟨s, -, hI, rfl⟩ := ShmSystem.reachWord hinv hr
  have h1 := hI.cachedTail_le
  have h2 := hI.tail_le
  have h3 := hI.cachedHead_le
  have h4 := hI.head_le
  have hcap : kShmRingCapacity < 2 ^ 64 := by decide
  have hsent := hI.produced
  have hgot : (s.bytes .receive).length = s.ring.tail := by
    rw [hI.consumed, List.length_take, hsent]
    omega
  refine ⟨?_, ?_, ?_, ?_⟩
  · show subWord (s.ring.head % 2 ^ 64) (s.ring.tail % 2 ^ 64) ≤ kShmRingCapacity
    rw [subWord_mod (by omega) (by omega)]
    omega
  · show (s.bytes .send).length ≤ (s.bytes .receive).length + kShmRingCapacity
    omega
  · show s.bytes .receive <+: s.bytes .send
    rw [hI.consumed]
    exact List.take_prefix ..
  · intro i hi hlt
    exact hI.content i (by rw [← hgot]; exact hi) (by rw [← hsent]; exact hlt)

theorem lastMode_append (l : HostLabel) :
    lastMode d (ls ++ [l]) = modeAfter d (lastMode d ls) l := by
  rw [lastMode, List.foldl_append]
  rfl

/-- An access leaves the wait mode as it is. -/
theorem waitMode_advanceWord (g : ShmRing) (e : TransportShm) (c : TryCall) :
    (advanceWord d g e c).endpoint.waitMode = e.waitMode := by
  unfold advanceWord
  cases c.point <;> dsimp only <;> split_ifs <;> rfl

/-- A step on the ring changes a wait mode only where it is a `SetWaitMode`. -/
theorem waitMode_stepWord {l : HostLabel} {r : ShmLabel} {s s' : ShmSystem}
    (hl : ringLabel d l = some r) (hs : ShmSystem.stepWord r s = some s') :
    (s'.endpoint d).waitMode = modeAfter d (s.endpoint d).waitMode l := by
  unfold modeAfter
  rw [hl]
  cases r with
  | begin d' data size progress =>
    simp only [ShmSystem.stepWord, ShmSystem.step] at hs
    cases hc : (s.endpoint d').call with
    | some c => simp only [hc] at hs; cases hs
    | none =>
      simp only [hc] at hs
      split_ifs at hs
      cases hs
      by_cases hd : d = d'
      · subst hd
        rw [ShmSystem.withEndpoint_self]
        rfl
      · rw [ShmSystem.withEndpoint_ne hd]
  | setWaitMode d' mode =>
    simp only [ShmSystem.stepWord, ShmSystem.step] at hs
    cases hc : (s.endpoint d').call with
    | some c => simp only [hc] at hs; cases hs
    | none =>
      simp only [hc] at hs
      cases hs
      by_cases hd : d = d'
      · subst hd
        rw [ShmSystem.withEndpoint_self]
        simp
      · rw [ShmSystem.withEndpoint_ne hd]
        simp [Ne.symm hd]
  | access d' =>
    simp only [ShmSystem.stepWord] at hs
    cases hc : (s.endpoint d').call with
    | none => simp only [hc] at hs; cases hs
    | some c =>
      simp only [hc] at hs
      cases hs
      by_cases hd : d = d'
      · subst hd
        simp only [ShmSystem.accessed, Function.update_self]
        exact waitMode_advanceWord ..
      · simp only [ShmSystem.accessed, Function.update_of_ne hd]

/-- What holds along a clean run: a connected endpoint is where a new one would be. -/
structure LikeNew (d : TransportDirection) (ls : List HostLabel) (h : ShmHost) : Prop where
  direction : h.direction = d
  mode : h.endpoint.waitMode = lastMode d ls
  since : h.connected = true → ∃ ls₁ ls₂, ls = ls₁ ++ .connect :: ls₂ ∧ .connect ∉ ls₂ ∧
    Reach ShmSystem.stepWord (newOn d (lastMode d ls₁)) (ls₂.filterMap (ringLabel d)) h.shm

/-- A step that is not one on the ring. -/
theorem LikeNew.quiet (hn : LikeNew d ls h) {l : HostLabel} {h' : ShmHost}
    (hl : ringLabel d l = none) (hne : l ≠ .connect) (hd : h'.direction = h.direction)
    (hshm : h'.shm = h.shm) (hconn : h'.connected = true → h.connected = true) : LikeNew d (ls ++ [l]) h' := by
  have hmode : modeAfter d (lastMode d ls) l = lastMode d ls := by
    unfold modeAfter
    rw [hl]
  refine ⟨hd.trans hn.direction, ?_, ?_⟩
  · rw [endpoint, hshm, hd, lastMode_append, hmode]
    exact hn.mode
  · intro hnow
    obtain ⟨ls₁, ls₂, rfl, hlast, hr⟩ := hn.since (hconn hnow)
    refine ⟨ls₁, ls₂ ++ [l], by simp, by simp [hlast, hne.symm], ?_⟩
    rw [List.filterMap_append, List.filterMap_cons_none hl, List.filterMap_nil, List.append_nil, hshm]
    exact hr

/-- A step on the ring. -/
theorem LikeNew.ring (hn : LikeNew d ls h) {l : HostLabel} {r : ShmLabel} {s : ShmSystem}
    (hl : ringLabel d l = some r) (hs : ShmSystem.stepWord r h.shm = some s) :
    LikeNew d (ls ++ [l]) { h with shm := s } := by
  have hd := hn.direction
  refine ⟨hd, ?_, ?_⟩
  · have hmode := hn.mode
    rw [endpoint, hd] at hmode
    show (s.endpoint h.direction).waitMode = _
    rw [lastMode_append, ← hmode, hd]
    exact waitMode_stepWord hl hs
  · intro hconn
    obtain ⟨ls₁, ls₂, rfl, hlast, hr⟩ := hn.since hconn
    have hne : .connect ≠ l := fun he => by subst he; cases hl
    refine ⟨ls₁, ls₂ ++ [l], by simp, by simp [hlast, hne], ?_⟩
    rw [List.filterMap_append, List.filterMap_cons_some hl, List.filterMap_nil]
    exact .next _ _ r s hr hs

/-- **A `Connect` that finds the cached cursor at 0** starts over. -/
theorem LikeNew.connect (hn : LikeNew d ls h) (hzero : h.endpoint.cached = 0) :
    LikeNew d (ls ++ [.connect]) h.connect := by
  have hnew : h.connect.shm = newOn d (lastMode d ls) := by
    show ringWith h.direction { waitMode := h.endpoint.waitMode, cached := h.endpoint.cached } = _
    rw [hzero, hn.mode, hn.direction]
    rfl
  refine ⟨hn.direction, ?_, fun _ => ⟨ls, [], rfl, by simp, ?_⟩⟩
  · rw [lastMode_append, endpoint, hnew, show h.connect.direction = d from hn.direction, newOn,
      ringWith, ShmSystem.withEndpoint_self]
    rfl
  · rw [hnew]
    exact .start

theorem LikeNew.step (hn : LikeNew d ls h) {l : HostLabel} {h' : ShmHost}
    (hs : cleanStep l h = some h') : LikeNew d (ls ++ [l]) h' := by
  cases l with
  | connect =>
    simp only [cleanStep, ShmHost.step] at hs
    split_ifs at hs with hzero hcall
    cases hs
    exact hn.connect hzero
  | connectFailed =>
    simp only [cleanStep, ShmHost.step] at hs
    split_ifs at hs
    cases hs
    exact hn.quiet rfl (by simp) rfl rfl fun hconn => by cases hconn
  | close =>
    simp only [cleanStep, ShmHost.step] at hs
    split_ifs at hs
    cases hs
    exact hn.quiet rfl (by simp) rfl rfl fun hconn => by cases hconn
  | handshake =>
    simp only [cleanStep, ShmHost.step] at hs
    split_ifs at hs
    cases hs
    exact hn.quiet rfl (by simp) rfl rfl fun hconn => hconn
  | setWaitMode mode =>
    simp only [cleanStep, ShmHost.step, Option.map_eq_some_iff] at hs
    obtain ⟨s, hword, rfl⟩ := hs
    rw [hn.direction] at hword
    exact hn.ring rfl hword
  | call l =>
    simp only [cleanStep, ShmHost.step] at hs
    split_ifs at hs
    obtain ⟨s, hword, rfl⟩ := Option.map_eq_some_iff.mp hs
    exact hn.ring rfl hword

theorem clean_likeNew (hr : Reach cleanStep (new d) ls h) : LikeNew d ls h := by
  induction hr with
  | start =>
    refine ⟨rfl, ?_, fun hconn => by cases hconn⟩
    cases d <;> rfl
  | next ls h l h' _ hs ih => exact ih.step hs

/-- **A clean `Close` and `Connect` make the endpoint as good as new**: in a run in which every
    `Connect` finds the cached cursor at 0, a connected endpoint is where a new one over a fresh ring,
    with the wait mode set before, would be after the same calls; and the ring is a bounded stream. -/
theorem reconnect_like_new (hr : Reach cleanStep (new d) ls h) (hconn : h.connected = true) :
    (∃ ls₁ ls₂, ls = ls₁ ++ .connect :: ls₂ ∧ .connect ∉ ls₂ ∧
      Reach ShmSystem.stepWord (newOn d (lastMode d ls₁)) (ls₂.filterMap (ringLabel d)) h.shm) ∧
    Bounded h.shm := by
  obtain ⟨ls₁, ls₂, hls, hlast, hreach⟩ := (clean_likeNew hr).since hconn
  exact ⟨⟨ls₁, ls₂, hls, hlast, hreach⟩, bounded_newOn hreach⟩

end Clean

/-- A call of an endpoint on one byte, and `n` accesses of it. -/
def byteCall (d : TransportDirection) (byte : UInt8) (n : Nat) : List HostLabel :=
  .call (.begin d (fun _ => byte) 1 0) :: List.replicate n (.call (.access d))

/-- What a producer does after it has connected again: the handshake, and a byte that is received. -/
def secondByte : List HostLabel := .handshake :: (byteCall .send 8 5 ++ byteCall .receive 0 6)

/-- A producer sends a byte and the consumer makes a call for it; the producer closes and connects again.
    It has not had to look at the cursor of the consumer. -/
def cleanProducer : List HostLabel :=
  .connect :: .handshake :: (byteCall .send 7 5 ++ byteCall .receive 0 6 ++ .close :: .connect :: secondByte)

/-- The second byte is all that has gone over the ring. -/
theorem reconnect_like_new_unused : ∃ h : ShmHost, h.connected = true ∧
    (∃ ls₁ ls₂, cleanProducer = ls₁ ++ .connect :: ls₂ ∧ .connect ∉ ls₂ ∧
      Reach ShmSystem.stepWord (newOn .send (lastMode .send ls₁))
        (ls₂.filterMap (ringLabel .send)) h.shm) ∧
    Bounded h.shm ∧ h.shm.bytes .send = [8] ∧ h.shm.bytes .receive = [8] := by
  have hend : (replay cleanStep cleanProducer (new .send)).map (fun h =>
      (h.connected, h.shm.bytes .send, h.shm.bytes .receive)) = some (true, [8], [8]) := by
    decide +kernel
  obtain ⟨h, hreplay, hend⟩ := Option.map_eq_some_iff.mp hend
  obtain ⟨hconn, hbytes⟩ := Prod.mk.inj hend
  obtain ⟨hlike, hbounded⟩ := reconnect_like_new (replay_reach hreplay) hconn
  exact ⟨h, hconn, hlike, hbounded, Prod.mk.inj hbytes⟩

/-! ## 3. What a stale cursor does -/

section Stale

/-- A consumer connects and receives one byte, closes, connects again and makes another call. -/
def staleConsumer : List HostLabel :=
  .connect :: .handshake :: (byteCall .send 7 5 ++ byteCall .receive 0 6 ++
    .close :: .connect :: .handshake :: byteCall .receive 0 5)

/-- **A consumer that has received a byte takes one more on the fresh ring**, where nobody has
    produced any. -/
theorem stale_consumer :
    let h := follow step (new .receive) staleConsumer
    h.connected = true ∧ (h.shm.bytes .send).length = 0 ∧ (h.shm.bytes .receive).length = 1 := by
  decide +kernel

/-- So `Close` and `Connect` do not make the endpoint as good as new. -/
theorem reconnect_not_new : ¬ ∀ (d : TransportDirection) (ls : List HostLabel) (h : ShmHost),
    Reach step (new d) ls h → h.connected = true →
    (∃ ls₁ ls₂, ls = ls₁ ++ .connect :: ls₂ ∧ .connect ∉ ls₂ ∧
      Reach ShmSystem.stepWord (newOn d (lastMode d ls₁)) (ls₂.filterMap (ringLabel d)) h.shm) ∧
    Bounded h.shm := by
  intro hall
  obtain ⟨hconn, hsent, hgot⟩ := stale_consumer
  obtain ⟨ls, -, hr⟩ := follow_reach step (new .receive) staleConsumer
  obtain ⟨-, hbounded⟩ := hall .receive ls _ hr hconn
  have hle := hbounded.consumed.length_le
  omega

end Stale

end ShmHost

end OriginCCL
