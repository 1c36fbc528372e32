/-
  File:      OriginCCL/Transport/ShmWords.lean
  Subject:   THE CURSORS OF THE RING ARE 64-BIT WORDS.

  `Shm.lean` counts the bytes of a ring without a bound. The source keeps the counts in `uint64_t` and
  subtracts them as such. Here is one access with the arithmetic of the source, and that it makes no
  difference: the machine on words is the image of the machine on numbers, however many bytes pass.

  * `availableWord`, `advanceWord`, `stepWord` -- an access, and a step, on words.
  * `ShmSystem.wrap` -- every cursor modulo 2^64.
  * `stepWord_wrap` -- **a step on words is the step on numbers, wrapped**.
  * `reachWord` -- so is every state reached.
-/
import OriginCCL.Transport.ShmBound

namespace OriginCCL

/-! ## 1. An access on words -/

/-- The difference of two `uint64_t`. -/
def subWord (a b : Nat) : Nat := (a + (2 ^ 64 - b % 2 ^ 64)) % 2 ^ 64

theorem subWord_mod {a b : Nat} (h : b ≤ a) (hlt : a - b < 2 ^ 64) :
    subWord (a % 2 ^ 64) (b % 2 ^ 64) = a - b := by
  unfold subWord
  omega

/-- The room `Produce` and `SpaceAvailable` compute, the bytes `Consume` and `DataAvailable` compute. -/
def availableWord (own cached : Nat) : TransportDirection → Nat
  | .send => subWord kShmRingCapacity (subWord own cached)
  | .receive => subWord cached own

/-- `advance`, with the arithmetic of the source. -/
def advanceWord (d : TransportDirection) (g : ShmRing) (e : TransportShm) (c : TryCall) : Access :=
  match c.point with
  | .loop =>
    if c.progress < c.size then
      let own := g.cursor d
      let room := availableWord own e.cached d
      if room = 0 then ⟨g, e.resume { c with point := .refresh own }, []⟩
      else ⟨g, e.resume { c with point := .copy own (chunkLen room own c) 0 }, []⟩
    else ⟨g, e.resume { c with point := .finish }, []⟩
  | .refresh own =>
    let e := { e with cached := g.cursor d.peer }
    let room := availableWord own e.cached d
    if room = 0 then
      if e.waitMode = .eventDriven then ⟨g, e.resume { c with point := .drain }, []⟩
      else ⟨g, e.resume { c with point := .finish }, []⟩
    else ⟨g, e.resume { c with point := .copy own (chunkLen room own c) 0 }, []⟩
  | .copy own chunk k =>
    if k < chunk then
      let (g, c) := copyByte g c own k d
      ⟨g, e.resume { c with point := .copy own chunk (k + 1) }, []⟩
    else
      ⟨g.store ((own + chunk) % 2 ^ 64) d,
        e.resume { c with progress := c.progress + chunk, moved := c.moved + chunk, point := .loop },
        c.slice c.progress chunk⟩
  | .drain =>
    if 0 < g.counter d then ⟨g.drain d, e, []⟩
    else ⟨g, e.resume { c with point := .available }, []⟩
  | .available =>
    let own := g.cursor d
    if availableWord own e.cached d = 0 then ⟨g, e.resume { c with point := .recheck own }, []⟩
    else ⟨g, e.resume { c with point := .loop }, []⟩
  | .recheck own =>
    let e := { e with cached := g.cursor d.peer }
    if availableWord own e.cached d = 0 then ⟨g, e.resume { c with point := .finish }, []⟩
    else ⟨g, e.resume { c with point := .loop }, []⟩
  | .finish =>
    if 0 < c.moved ∧ e.waitMode = .eventDriven then ⟨g.notify d.peer, e.finish c, []⟩
    else ⟨g, e.finish c, []⟩

namespace ShmSystem

/-- `step`, with the arithmetic of the source. -/
def stepWord : ShmLabel → ShmSystem → Option ShmSystem
  | .access d, s =>
    match (s.endpoint d).call with
    | none => none
    | some c => some (s.accessed d (advanceWord d s.ring (s.endpoint d) c))
  | l, s => step l s

end ShmSystem

/-! ## 2. Wrapping -/

def ShmRing.wrap (g : ShmRing) : ShmRing :=
  { g with head := g.head % 2 ^ 64, tail := g.tail % 2 ^ 64 }

def Point.wrap : Point → Point
  | .refresh own => .refresh (own % 2 ^ 64)
  | .copy own chunk k => .copy (own % 2 ^ 64) chunk k
  | .recheck own => .recheck (own % 2 ^ 64)
  | p => p

def TryCall.wrap (c : TryCall) : TryCall := { c with point := c.point.wrap }

def TransportShm.wrap (e : TransportShm) : TransportShm :=
  { e with
    cached := e.cached % 2 ^ 64
    call := e.call.map TryCall.wrap
    last := e.last.map fun r => (r.1.wrap, r.2) }

def Access.wrap (a : Access) : Access :=
  { a with ring := a.ring.wrap, endpoint := a.endpoint.wrap }

/-- Every cursor modulo 2^64. -/
def ShmSystem.wrap (s : ShmSystem) : ShmSystem :=
  { s with ring := s.ring.wrap, endpoint := fun d => (s.endpoint d).wrap }

theorem ShmRing.wrap_cursor (g : ShmRing) (d : TransportDirection) :
    g.wrap.cursor d = g.cursor d % 2 ^ 64 := by
  cases d <;> rfl

theorem ShmRing.wrap_counter (g : ShmRing) (d : TransportDirection) :
    g.wrap.counter d = g.counter d := by
  cases d <;> rfl

theorem ShmRing.wrap_drain (g : ShmRing) (d : TransportDirection) :
    (g.drain d).wrap = g.wrap.drain d := by
  cases d <;> rfl

theorem ShmRing.wrap_notify (g : ShmRing) (d : TransportDirection) :
    (g.notify d).wrap = g.wrap.notify d := by
  cases d <;> rfl

theorem ShmRing.wrap_store (g : ShmRing) (v : Nat) (d : TransportDirection) :
    (g.store v d).wrap = g.wrap.store (v % 2 ^ 64) d := by
  cases d <;> rfl

theorem TransportShm.wrap_resume (e : TransportShm) (c : TryCall) :
    (e.resume c).wrap = e.wrap.resume c.wrap := rfl

theorem TransportShm.wrap_finish (e : TransportShm) (c : TryCall) :
    (e.finish c).wrap = e.wrap.finish c.wrap := rfl

/-- The capacity divides the words, so a wrapped cursor has the same place in the ring. -/
theorem wrap_offset (own : Nat) : own % 2 ^ 64 % kShmRingCapacity = own % kShmRingCapacity :=
  Nat.mod_mod_of_dvd own (by decide)

theorem chunkLen_wrap (room own : Nat) (c : TryCall) :
    chunkLen room (own % 2 ^ 64) c.wrap = chunkLen room own c := by
  unfold chunkLen
  rw [wrap_offset]
  rfl

namespace ShmSystem

open Base

variable {s : ShmSystem} {d : TransportDirection} {c : TryCall}

/-- The room an endpoint knows, and the room it has, are the same on words. -/
theorem availableWord_wrap (h : Inv s) (d : TransportDirection) :
    availableWord (s.ring.cursor d % 2 ^ 64) ((s.endpoint d).cached % 2 ^ 64) d =
        available (s.ring.cursor d) (s.endpoint d).cached d ∧
      availableWord (s.ring.cursor d % 2 ^ 64) (s.ring.cursor d.peer % 2 ^ 64) d =
        available (s.ring.cursor d) (s.ring.cursor d.peer) d := by
  have h1 := h.cachedTail_le
  have h2 := h.tail_le
  have h3 := h.cachedHead_le
  have h4 := h.head_le
  have hcap : kShmRingCapacity < 2 ^ 64 := by decide
  have hsend : ∀ cached, cached ≤ s.ring.head → s.ring.head ≤ cached + kShmRingCapacity →
      subWord kShmRingCapacity (subWord (s.ring.head % 2 ^ 64) (cached % 2 ^ 64)) =
        kShmRingCapacity - (s.ring.head - cached) := by
    intro cached hle hge
    rw [subWord_mod hle (by omega)]
    have hsub := subWord_mod (a := kShmRingCapacity) (b := s.ring.head - cached) (by omega) (by omega)
    rwa [Nat.mod_eq_of_lt hcap, Nat.mod_eq_of_lt (by omega)] at hsub
  have hreceive : ∀ head, s.ring.tail ≤ head → head ≤ s.ring.head →
      subWord (head % 2 ^ 64) (s.ring.tail % 2 ^ 64) = head - s.ring.tail :=
    fun head hge hle => subWord_mod hge (by omega)
  cases d with
  | send => exact ⟨hsend _ (by omega) (by omega), hsend s.ring.tail (by omega) (by omega)⟩
  | receive => exact ⟨hreceive _ h2 h3, hreceive s.ring.head (by omega) (Nat.le_refl _)⟩

/-- **An access on words is the access on numbers, wrapped.** -/
theorem advanceWord_wrap (h : Inv s) (hc : (s.endpoint d).call = some c) :
    advanceWord d s.ring.wrap (s.endpoint d).wrap c.wrap =
      (advance d s.ring (s.endpoint d) c).wrap := by
  obtain ⟨hknown, hroom⟩ := availableWord_wrap h d
  have hp := ((h.endpoints d).call c hc).2
  have hcached : (s.endpoint d).wrap.cached = (s.endpoint d).cached % 2 ^ 64 := rfl
  have hmode : (s.endpoint d).wrap.waitMode = (s.endpoint d).waitMode := rfl
  unfold advanceWord advance
  cases hpt : c.point with
  | loop =>
    have hw : c.wrap.point = .loop := by rw [TryCall.wrap, hpt]; rfl
    simp only [hw, ShmRing.wrap_cursor, hcached, hknown, chunkLen_wrap]
    show (if c.progress < c.size then _ else _) = _
    split_ifs <;> rfl
  | refresh own =>
    have hw : c.wrap.point = .refresh (own % 2 ^ 64) := by rw [TryCall.wrap, hpt]; rfl
    rw [hpt] at hp
    obtain rfl : own = s.ring.cursor d := hp.1
    simp only [hw, ShmRing.wrap_cursor, hroom, hmode, chunkLen_wrap]
    split_ifs <;> rfl
  | copy own chunk k =>
    have hw : c.wrap.point = .copy (own % 2 ^ 64) chunk k := by rw [TryCall.wrap, hpt]; rfl
    simp only [hw]
    split_ifs with hk
    · cases d with
      | send =>
        simp only [copyByte, wrap_offset]
        rfl
      | receive =>
        simp only [copyByte, wrap_offset]
        rfl
    · rw [Nat.mod_add_mod, Access.wrap, ShmRing.wrap_store]
      rfl
  | drain =>
    have hw : c.wrap.point = .drain := by rw [TryCall.wrap, hpt]; rfl
    simp only [hw, ShmRing.wrap_counter]
    split_ifs
    · rw [Access.wrap, ShmRing.wrap_drain]
    · rfl
  | available =>
    have hw : c.wrap.point = .available := by rw [TryCall.wrap, hpt]; rfl
    simp only [hw, ShmRing.wrap_cursor, hcached, hknown]
    split_ifs <;> rfl
  | recheck own =>
    have hw : c.wrap.point = .recheck (own % 2 ^ 64) := by rw [TryCall.wrap, hpt]; rfl
    rw [hpt] at hp
    obtain rfl : own = s.ring.cursor d := hp
    simp only [hw, ShmRing.wrap_cursor, hroom]
    split_ifs <;> rfl
  | finish =>
    have hw : c.wrap.point = .finish := by rw [TryCall.wrap, hpt]; rfl
    simp only [hw, hmode]
    show (if 0 < c.moved ∧ (s.endpoint d).waitMode = .eventDriven then _ else _) = _
    split_ifs
    · rw [Access.wrap, ShmRing.wrap_notify]
      rfl
    · rfl

theorem wrap_withEndpoint (s : ShmSystem) (d : TransportDirection) (e : TransportShm) :
    (s.withEndpoint d e).wrap = s.wrap.withEndpoint d e.wrap := by
  simp only [wrap, withEndpoint, ShmSystem.mk.injEq, true_and, and_true]
  funext d'
  by_cases hd : d' = d
  · subst hd
    rw [Function.update_self, Function.update_self]
  · rw [Function.update_of_ne hd, Function.update_of_ne hd]

theorem wrap_accessed (s : ShmSystem) (d : TransportDirection) (a : Access) :
    (s.accessed d a).wrap = s.wrap.accessed d a.wrap := by
  simp only [wrap, accessed, ShmSystem.mk.injEq]
  refine ⟨rfl, ?_, rfl⟩
  funext d'
  by_cases hd : d' = d
  · subst hd
    rw [Function.update_self, Function.update_self]
    rfl
  · rw [Function.update_of_ne hd, Function.update_of_ne hd]

theorem wrap_call_none (hc : (s.endpoint d).call = none) : (s.wrap.endpoint d).call = none := by
  show (s.endpoint d).call.map TryCall.wrap = none
  rw [hc]
  rfl

theorem wrap_call_some (hc : (s.endpoint d).call = some c) :
    (s.wrap.endpoint d).call = some c.wrap := by
  show (s.endpoint d).call.map TryCall.wrap = some c.wrap
  rw [hc]
  rfl

/-- **A step on words is the step on numbers, wrapped.** -/
theorem stepWord_wrap (h : Inv s) (l : ShmLabel) : stepWord l s.wrap = (step l s).map wrap := by
  cases l with
  | begin d data size progress =>
    rw [show stepWord (.begin d data size progress) s.wrap =
      step (.begin d data size progress) s.wrap from rfl]
    cases hc : (s.endpoint d).call with
    | none =>
      simp only [step, wrap_call_none hc, hc]
      split_ifs
      · rw [Option.map_some, wrap_withEndpoint]
        rfl
      · rfl
    | some c =>
      simp only [step, wrap_call_some hc, hc]
      rfl
  | setWaitMode d mode =>
    rw [show stepWord (.setWaitMode d mode) s.wrap = step (.setWaitMode d mode) s.wrap from rfl]
    cases hc : (s.endpoint d).call with
    | none =>
      simp only [step, wrap_call_none hc, hc]
      rw [Option.map_some, wrap_withEndpoint]
      rfl
    | some c =>
      simp only [step, wrap_call_some hc, hc]
      rfl
  | access d =>
    cases hc : (s.endpoint d).call with
    | none =>
      simp only [stepWord, step, wrap_call_none hc, hc]
      rfl
    | some c =>
      simp only [stepWord, step, wrap_call_some hc, hc]
      rw [Option.map_some, wrap_accessed, ← advanceWord_wrap h hc]
      rfl

/-- **So is every state reached.** -/
theorem reachWord {ls : List ShmLabel} {s₀ w : ShmSystem} (h0 : Inv s₀)
    (h : Reach stepWord s₀.wrap ls w) : ∃ s, Reach step s₀ ls s ∧ Inv s ∧ w = s.wrap := by
  induction h with
  | start => exact ⟨s₀, .start, h0, rfl⟩
  | next ls w l w' _ hs ih =>
    obtain ⟨s, hreach, hI, rfl⟩ := ih
    rw [stepWord_wrap hI l] at hs
    obtain ⟨s', hs', rfl⟩ := Option.map_eq_some_iff.mp hs
    exact ⟨s', .next ls s l s' hreach hs', step_inv hI hs', rfl⟩

end ShmSystem

end OriginCCL
