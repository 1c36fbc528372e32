/-
  File:      OriginCCL/Transport/ShmStream.lean
  Subject:   THE SHARED-MEMORY RING IS A BOUNDED BYTE STREAM.

  * `Inv` -- the order of the four cursors, the bytes in the ring, and for each endpoint what its call
    knows (`CallOk`).
  * `advance_cases` -- what one access does: nothing to the ring but a wakeup, one byte of a copy, or a
    store of the own cursor.
  * `step_inv` -- **every step keeps the invariant**.
  * `shm_stream` -- in every state reached the consumed bytes are a prefix of the produced ones, every
    byte in between is in its cell, and every call keeps its `*progress` within bounds.
-/
import Mathlib.Data.List.GetD
import OriginCCL.Base.Circular
import OriginCCL.Transport.Shm

namespace OriginCCL.ShmSystem

open Base

/-! ## 1. The invariant -/

/-- A byte of a chunk under way has been copied. -/
def Copied (g : ShmRing) (produced : List UInt8) (c : TryCall) (own j : Nat) :
    TransportDirection → Prop
  | .send => g.data (own % kShmRingCapacity + j) = c.data (c.progress + j)
  | .receive => c.data (c.progress + j) = produced.getD (own + j) 0

/-- A chunk that a call is about to transfer: it fits in what the endpoint sees, in the rest of the
    transfer and before the end of the ring. -/
structure ChunkOk (d : TransportDirection) (cached : Nat) (c : TryCall) (own chunk : Nat) : Prop where
  pos : 0 < chunk
  room : chunk ≤ available own cached d
  size : c.progress + chunk ≤ c.size
  wrap : own % kShmRingCapacity + chunk ≤ kShmRingCapacity

/-- What a call knows at a point. -/
def PointOk (d : TransportDirection) (g : ShmRing) (produced : List UInt8) (cached : Nat)
    (c : TryCall) : Point → Prop
  | .refresh own => own = g.cursor d ∧ c.progress < c.size
  | .copy own chunk k => own = g.cursor d ∧ ChunkOk d cached c own chunk ∧ k ≤ chunk ∧
      ∀ j < k, Copied g produced c own j d
  | .recheck own => own = g.cursor d
  | _ => True

/-- The bytes that a call has transferred: in its buffer, from its start on. -/
def transferred (c : TryCall) : List UInt8 := c.slice c.start (c.progress - c.start)

/-- `*progress` of a call, and its bytes as the last ones of its endpoint. -/
structure Progress (bytes : List UInt8) (c : TryCall) : Prop where
  start_le : c.start ≤ c.progress
  le_size : c.progress ≤ c.size
  moved : c.moved = c.progress - c.start
  suffix : transferred c <:+ bytes

/-- **What holds of an endpoint**: of its call, and of the last call that has returned. -/
structure EndpointOk (d : TransportDirection) (g : ShmRing) (produced bytes : List UInt8)
    (e : TransportShm) : Prop where
  call : ∀ c, e.call = some c → Progress bytes c ∧ PointOk d g produced e.cached c c.point
  last : ∀ c b, e.last = some (c, b) → c.start ≤ c.progress ∧ c.progress ≤ c.size ∧
    (b = true ↔ c.progress = c.size) ∧ (e.call = none → Progress bytes c)

/-- **The invariant**: a byte stream whose unread part is in the ring. -/
structure Inv (s : ShmSystem) : Prop where
  cachedTail_le : (s.endpoint .send).cached ≤ s.ring.tail
  tail_le : s.ring.tail ≤ (s.endpoint .receive).cached
  cachedHead_le : (s.endpoint .receive).cached ≤ s.ring.head
  head_le : s.ring.head ≤ (s.endpoint .send).cached + kShmRingCapacity
  produced : (s.bytes .send).length = s.ring.head
  consumed : s.bytes .receive = (s.bytes .send).take s.ring.tail
  content : Carries kShmRingCapacity s.ring.data s.ring.tail s.ring.head
    fun i => (s.bytes .send).getD i 0
  endpoints : ∀ d, EndpointOk d s.ring (s.bytes .send) (s.bytes d) (s.endpoint d)

theorem inv_created : Inv created where
  cachedTail_le := Nat.le_refl 0
  tail_le := Nat.le_refl 0
  cachedHead_le := Nat.le_refl 0
  head_le := Nat.zero_le _
  produced := rfl
  consumed := rfl
  content _ _ h := absurd h (Nat.not_lt_zero _)
  endpoints _ := ⟨(fun _ h => nomatch h), (fun _ _ h => nomatch h)⟩

/-! ## 2. What an access does -/

/-- An access that leaves cursors and bytes as they are: the call goes on at another point, or it
    returns. -/
structure Quiet (d : TransportDirection) (g : ShmRing) (produced : List UInt8) (e : TransportShm)
    (c : TryCall) (a : Access) : Prop where
  head : a.ring.head = g.head
  tail : a.ring.tail = g.tail
  data : a.ring.data = g.data
  bytes : a.bytes = []
  cached : a.endpoint.cached = e.cached ∨ a.endpoint.cached = g.cursor d.peer
  call : (∃ p, a.endpoint.call = some { c with point := p } ∧
      PointOk d g produced a.endpoint.cached { c with point := p } p ∧ a.endpoint.last = e.last) ∨
    a.endpoint.call = none ∧ a.endpoint.last = some (c, c.progress == c.size)

/-- The chunk the code computes is one. -/
theorem chunkOk_chunkLen {d : TransportDirection} {cached own : Nat} {c : TryCall}
    (hroom : available own cached d ≠ 0) (hsize : c.progress < c.size) :
    ChunkOk d cached c own (chunkLen (available own cached d) own c) := by
  have hpos := kShmRingCapacity_pos
  have hmod := Nat.mod_lt own hpos
  unfold chunkLen
  exact ⟨by omega, by omega, by omega, by omega⟩

/-- **What one access does.** -/
theorem advance_cases {d : TransportDirection} {g : ShmRing} {produced : List UInt8}
    {e : TransportShm} {c : TryCall} (hp : PointOk d g produced e.cached c c.point)
    (hcall : e.call = some c) :
    Quiet d g produced e c (advance d g e c) ∨
    (∃ own chunk k, c.point = .copy own chunk k ∧ k < chunk ∧ advance d g e c =
      ⟨(copyByte g c own k d).1,
        e.resume { (copyByte g c own k d).2 with point := .copy own chunk (k + 1) }, []⟩) ∨
    ∃ own chunk, c.point = .copy own chunk chunk ∧ advance d g e c =
      ⟨g.store (own + chunk) d,
        e.resume { c with progress := c.progress + chunk, moved := c.moved + chunk, point := .loop },
        c.slice c.progress chunk⟩ := by
  -- a call that goes on somewhere else
  have hgo : ∀ p cached, (cached = e.cached ∨ cached = g.cursor d.peer) →
      PointOk d g produced cached { c with point := p } p →
      Quiet d g produced e c ⟨g, { e with cached := cached }.resume { c with point := p }, []⟩ :=
    fun p cached hcached hok =>
      ⟨rfl, rfl, rfl, rfl, hcached, Or.inl ⟨p, rfl, hok, rfl⟩⟩
  unfold advance
  split
  · -- loop
    rename_i hpt
    left
    split
    · rename_i hlt
      dsimp only
      split
      · exact hgo _ e.cached (Or.inl rfl) ⟨rfl, hlt⟩
      · rename_i hroom
        exact hgo _ e.cached (Or.inl rfl)
          ⟨rfl, chunkOk_chunkLen hroom hlt, Nat.zero_le _, fun j hj => absurd hj (Nat.not_lt_zero j)⟩
    · exact hgo .finish e.cached (Or.inl rfl) trivial
  · -- refresh
    rename_i own hpt
    rw [hpt] at hp
    obtain ⟨rfl, hlt⟩ := hp
    left
    dsimp only
    split
    · split
      · exact hgo .drain _ (Or.inr rfl) trivial
      · exact hgo .finish _ (Or.inr rfl) trivial
    · rename_i hroom
      exact hgo _ _ (Or.inr rfl)
        ⟨rfl, chunkOk_chunkLen hroom hlt, Nat.zero_le _, fun j hj => absurd hj (Nat.not_lt_zero j)⟩
  · -- copy
    rename_i own chunk k hpt
    rw [hpt] at hp
    right
    by_cases hk : k < chunk
    · rw [if_pos hk]
      exact Or.inl ⟨own, chunk, k, hpt, hk, rfl⟩
    · obtain rfl : k = chunk := Nat.le_antisymm hp.2.2.1 (Nat.le_of_not_lt hk)
      rw [if_neg hk]
      exact Or.inr ⟨own, k, hpt, rfl⟩
  · -- drain
    rename_i hpt
    left
    split
    · refine ⟨?_, ?_, ?_, rfl, Or.inl rfl, Or.inl ⟨.drain, ?_, trivial, rfl⟩⟩
      · cases d <;> rfl
      · cases d <;> rfl
      · cases d <;> rfl
      · rw [← hpt]
        exact hcall
    · exact hgo .available e.cached (Or.inl rfl) trivial
  · -- available
    left
    dsimp only
    split
    · exact hgo _ e.cached (Or.inl rfl) rfl
    · exact hgo .loop e.cached (Or.inl rfl) trivial
  · -- recheck
    rename_i own hpt
    rw [hpt] at hp
    left
    dsimp only
    split
    · exact hgo .finish _ (Or.inr rfl) trivial
    · exact hgo .loop _ (Or.inr rfl) trivial
  · -- finish
    left
    split
    · refine ⟨?_, ?_, ?_, rfl, Or.inl rfl, Or.inr ⟨rfl, rfl⟩⟩
      · cases d <;> rfl
      · cases d <;> rfl
      · cases d <;> rfl
    · exact ⟨rfl, rfl, rfl, rfl, Or.inl rfl, Or.inr ⟨rfl, rfl⟩⟩

/-! ## 3. Every step keeps the invariant -/

section Steps

variable {s : ShmSystem} {d : TransportDirection} {c : TryCall} {a : Access}

@[simp] theorem accessed_ring : (s.accessed d a).ring = a.ring := rfl

@[simp] theorem accessed_endpoint_self : (s.accessed d a).endpoint d = a.endpoint :=
  Function.update_self ..

@[simp] theorem accessed_bytes_self : (s.accessed d a).bytes d = s.bytes d ++ a.bytes :=
  Function.update_self ..

theorem accessed_endpoint_ne {d' : TransportDirection} (h : d' ≠ d) :
    (s.accessed d a).endpoint d' = s.endpoint d' := Function.update_of_ne h ..

theorem accessed_bytes_ne {d' : TransportDirection} (h : d' ≠ d) :
    (s.accessed d a).bytes d' = s.bytes d' := Function.update_of_ne h ..

theorem accessed_bytes_nil (h : a.bytes = []) : (s.accessed d a).bytes = s.bytes := by
  funext d'
  by_cases e : d' = d
  · rw [e, accessed_bytes_self, h, List.append_nil]
  · exact accessed_bytes_ne e

/-- What an endpoint knows does not depend on the wakeups. -/
theorem EndpointOk.congr {g g' : ShmRing} {produced bytes : List UInt8} {e : TransportShm}
    (h : EndpointOk d g produced bytes e) (hcursor : g'.cursor d = g.cursor d)
    (hdata : d = .send → g'.data = g.data) : EndpointOk d g' produced bytes e := by
  refine ⟨fun c hc => ⟨(h.call c hc).1, ?_⟩, h.last⟩
  have hp := (h.call c hc).2
  cases hpt : c.point with
  | refresh own =>
    rw [hpt] at hp
    rw [PointOk, hcursor]
    exact hp
  | copy own chunk k =>
    rw [hpt] at hp
    obtain ⟨h1, h2, h3, h4⟩ := hp
    refine ⟨by rw [hcursor]; exact h1, h2, h3, fun j hj => ?_⟩
    have := h4 j hj
    cases d with
    | send =>
      change g'.data _ = _
      rw [hdata rfl]
      exact this
    | receive => exact this
  | recheck own =>
    rw [hpt] at hp
    exact hp.trans hcursor.symm
  | loop => trivial
  | drain => trivial
  | available => trivial
  | finish => trivial

/-- Progress depends on the bytes that have moved only. -/
theorem Progress.congr {bytes : List UInt8} {c' : TryCall} (h : Progress bytes c)
    (hstart : c'.start = c.start) (hsize : c'.size = c.size) (hprogress : c'.progress = c.progress)
    (hmoved : c'.moved = c.moved) (hdata : ∀ j < c.progress, c'.data j = c.data j) :
    Progress bytes c' := by
  have hslice : transferred c' = transferred c := by
    rw [transferred, transferred, hstart, hprogress]
    exact Base.slice_congr fun j hj => hdata _ (by omega)
  have h1 := h.start_le
  have h2 := h.le_size
  have h3 := h.moved
  refine ⟨by omega, by omega, by omega, ?_⟩
  rw [hslice]
  exact h.suffix

/-- **An access that moves no byte keeps the invariant.** -/
theorem Inv.quiet (h : Inv s) (hc : (s.endpoint d).call = some c)
    (hq : Quiet d s.ring (s.bytes .send) (s.endpoint d) c a) : Inv (s.accessed d a) := by
  have hbytes := accessed_bytes_nil (s := s) (d := d) hq.bytes
  have hcursor : ∀ d', a.ring.cursor d' = s.ring.cursor d' := by
    intro d'
    cases d' with
    | send => exact hq.head
    | receive => exact hq.tail
  have h1 := h.cachedTail_le
  have h2 := h.tail_le
  have h3 := h.cachedHead_le
  have h4 := h.head_le
  -- the cursor that was loaded is the peer's of now
  have hsend : ((s.accessed d a).endpoint .send).cached ≤ s.ring.tail ∧
      s.ring.head ≤ ((s.accessed d a).endpoint .send).cached + kShmRingCapacity := by
    cases d with
    | send =>
      rw [accessed_endpoint_self]
      rcases hq.cached with e | e
      · rw [e]
        exact ⟨h1, h4⟩
      · have e : a.endpoint.cached = s.ring.tail := e
        rw [e]
        omega
    | receive =>
      rw [accessed_endpoint_ne (by decide)]
      exact ⟨h1, h4⟩
  have hrecv : s.ring.tail ≤ ((s.accessed d a).endpoint .receive).cached ∧
      ((s.accessed d a).endpoint .receive).cached ≤ s.ring.head := by
    cases d with
    | send =>
      rw [accessed_endpoint_ne (by decide)]
      exact ⟨h2, h3⟩
    | receive =>
      rw [accessed_endpoint_self]
      rcases hq.cached with e | e
      · rw [e]
        exact ⟨h2, h3⟩
      · have e : a.endpoint.cached = s.ring.head := e
        rw [e]
        omega
  refine ⟨?_, ?_, ?_, ?_, ?_, ?_, ?_, fun d' => ?_⟩
  · rw [accessed_ring, hq.tail]
    exact hsend.1
  · rw [accessed_ring, hq.tail]
    exact hrecv.1
  · rw [accessed_ring, hq.head]
    exact hrecv.2
  · rw [accessed_ring, hq.head]
    exact hsend.2
  · rw [hbytes, accessed_ring, hq.head]
    exact h.produced
  · rw [hbytes, accessed_ring, hq.tail]
    exact h.consumed
  · rw [hbytes, accessed_ring, hq.head, hq.tail, hq.data]
    exact h.content
  · rw [hbytes, accessed_ring]
    by_cases hd : d' = d
    · subst hd
      rw [accessed_endpoint_self]
      refine EndpointOk.congr ⟨?_, ?_⟩ (hcursor d') fun _ => hq.data
      · intro c' hc'
        rcases hq.call with ⟨p, hp, hpoint, -⟩ | ⟨hnone, -⟩
        · obtain rfl : _ = c' := Option.some.inj (hp.symm.trans hc')
          have hprog := ((h.endpoints d').call c hc).1
          exact ⟨hprog.congr rfl rfl rfl rfl fun _ _ => rfl, hpoint⟩
        · rw [hnone] at hc'
          cases hc'
      · intro c' b hb
        rcases hq.call with ⟨p, hp, -, hlast⟩ | ⟨-, hlast⟩
        · rw [hlast] at hb
          obtain ⟨h1, h2, h3, -⟩ := (h.endpoints d').last c' b hb
          exact ⟨h1, h2, h3, fun hnone => by rw [hp] at hnone; cases hnone⟩
        · rw [hlast] at hb
          obtain ⟨rfl, rfl⟩ := Prod.mk.inj (Option.some.inj hb)
          have hprog := ((h.endpoints d').call c hc).1
          exact ⟨hprog.start_le, hprog.le_size, beq_iff_eq, fun _ => hprog⟩
    · rw [accessed_endpoint_ne hd]
      exact (h.endpoints d').congr (hcursor d') fun _ => hq.data

/-- **A copied byte keeps the invariant**: it goes to a cell without an unread byte, or to the reader's
    own buffer. -/
theorem Inv.copy (h : Inv s) (hc : (s.endpoint d).call = some c) {own chunk k : Nat}
    (hpt : c.point = .copy own chunk k) (hk : k < chunk) : Inv (s.accessed d
      ⟨(copyByte s.ring c own k d).1, (s.endpoint d).resume
        { (copyByte s.ring c own k d).2 with point := .copy own chunk (k + 1) }, []⟩) := by
  have hown := (h.endpoints d).call c hc
  rw [hpt] at hown
  obtain ⟨hprog, hcur, hchunk, hle, hcopied⟩ := hown
  have h1 := h.cachedTail_le
  have h2 := h.tail_le
  have h3 := h.cachedHead_le
  have h4 := h.head_le
  have hroom := hchunk.room
  have hmod : (own + k) % kShmRingCapacity = own % kShmRingCapacity + k :=
    mod_add_of_le hk hchunk.wrap
  cases d with
  | send =>
    have hcur : own = s.ring.head := hcur
    have hroom : chunk ≤ kShmRingCapacity - (own - (s.endpoint .send).cached) := hroom
    refine ⟨?_, ?_, ?_, ?_, ?_, ?_, ?_, fun d' => ?_⟩
    · exact h1
    · exact h2
    · exact h3
    · exact h4
    · rw [accessed_bytes_nil rfl]
      exact h.produced
    · rw [accessed_bytes_nil rfl]
      exact h.consumed
    · rw [accessed_bytes_nil rfl]
      change Carries _ (Function.update s.ring.data (own % kShmRingCapacity + k) _) _ _ _
      rw [← hmod]
      exact h.content.write (by omega) (by omega) _
    · rw [accessed_bytes_nil rfl]
      cases d' with
      | send =>
        rw [accessed_endpoint_self]
        refine ⟨fun c' hc' => ?_, fun c' b hb => ?_⟩
        · obtain rfl := Option.some.inj hc'
          refine ⟨hprog.congr rfl rfl rfl rfl fun _ _ => rfl, hcur, ?_, hk, ?_⟩
          · exact ⟨hchunk.pos, hchunk.room, hchunk.size, hchunk.wrap⟩
          · intro j hj
            change Function.update s.ring.data (own % kShmRingCapacity + k) _
              (own % kShmRingCapacity + j) = c.data (c.progress + j)
            by_cases hjk : j = k
            · rw [hjk, Function.update_self]
            · rw [Function.update_of_ne (by omega)]
              exact hcopied j (by omega)
        · obtain ⟨h1, h2, h3, -⟩ := (h.endpoints .send).last c' b hb
          exact ⟨h1, h2, h3, fun hnone => nomatch hnone⟩
      | receive =>
        rw [accessed_endpoint_ne (by decide)]
        exact (h.endpoints .receive).congr rfl fun he => nomatch he
  | receive =>
    have hcur : own = s.ring.tail := hcur
    have hroom : chunk ≤ (s.endpoint .receive).cached - own := hroom
    refine ⟨?_, ?_, ?_, ?_, ?_, ?_, ?_, fun d' => ?_⟩
    · exact h1
    · exact h2
    · exact h3
    · exact h4
    · rw [accessed_bytes_nil rfl]
      exact h.produced
    · rw [accessed_bytes_nil rfl]
      exact h.consumed
    · rw [accessed_bytes_nil rfl]
      exact h.content
    · rw [accessed_bytes_nil rfl]
      cases d' with
      | send =>
        rw [accessed_endpoint_ne (by decide)]
        exact h.endpoints .send
      | receive =>
        rw [accessed_endpoint_self]
        refine ⟨fun c' hc' => ?_, fun c' b hb => ?_⟩
        · obtain rfl := Option.some.inj hc'
          refine ⟨hprog.congr rfl rfl rfl rfl fun j hj => ?_, hcur, ?_, hk, ?_⟩
          · exact Function.update_of_ne (by omega) ..
          · exact ⟨hchunk.pos, hchunk.room, hchunk.size, hchunk.wrap⟩
          · intro j hj
            change Function.update c.data (c.progress + k) _ (c.progress + j) =
              (s.bytes .send).getD (own + j) 0
            by_cases hjk : j = k
            · rw [hjk, Function.update_self, ← hmod]
              exact h.content _ (by omega) (by omega)
            · rw [Function.update_of_ne (by omega)]
              exact hcopied j (by omega)
        · obtain ⟨h1, h2, h3, -⟩ := (h.endpoints .receive).last c' b hb
          exact ⟨h1, h2, h3, fun hnone => nomatch hnone⟩

/-- A slice that agrees with a piece of a list is that piece. -/
theorem slice_eq_take {c : TryCall} {l : List UInt8} {a m n : Nat} (hn : m + n ≤ l.length)
    (h : ∀ j < n, c.data (a + j) = l.getD (m + j) 0) : c.slice a n = (l.drop m).take n := by
  have hlen : ((l.drop m).take n).length = n := by
    rw [List.length_take, List.length_drop]
    omega
  have hslice : Base.slice c.data a ((l.drop m).take n).length = (l.drop m).take n := by
    refine slice_eq fun j hj => ?_
    rw [h j (by omega), List.getD_eq_getElem _ _ (by omega), List.getElem_take, List.getElem_drop]
  rw [hlen] at hslice
  exact hslice

/-- The bytes of a complete chunk count as progress. -/
theorem Progress.advance {bytes : List UInt8} (h : Progress bytes c) {chunk : Nat} {p : Point}
    (hle : c.progress + chunk ≤ c.size) : Progress (bytes ++ c.slice c.progress chunk)
      { c with progress := c.progress + chunk, moved := c.moved + chunk, point := p } := by
  have h1 := h.start_le
  have h3 := h.moved
  refine ⟨Nat.le_trans h1 (Nat.le_add_right ..), hle, ?_, ?_⟩
  · change c.moved + chunk = c.progress + chunk - c.start
    omega
  · obtain ⟨pre, hpre⟩ := h.suffix
    refine ⟨pre, ?_⟩
    have hslice : transferred c ++ c.slice c.progress chunk =
        c.slice c.start (c.progress + chunk - c.start) := by
      have e : c.start + (c.progress - c.start) = c.progress := by omega
      rw [transferred, ← e, Nat.add_sub_cancel_left, TryCall.slice, TryCall.slice, Base.slice_append]
      congr 1
      omega
    change pre ++ c.slice c.start (c.progress + chunk - c.start) = _
    rw [← hslice, ← hpre, List.append_assoc]

/-- What the consumer knows stays true when more bytes are produced. -/
theorem EndpointOk.produce {g : ShmRing} {produced bytes more : List UInt8} {e : TransportShm}
    (h : EndpointOk .receive g produced bytes e) (hle : e.cached ≤ produced.length) (v : Nat) :
    EndpointOk .receive { g with head := v } (produced ++ more) bytes e := by
  refine ⟨fun c hc => ⟨(h.call c hc).1, ?_⟩, h.last⟩
  have hp := (h.call c hc).2
  cases hpt : c.point with
  | copy own chunk k =>
    rw [hpt] at hp
    obtain ⟨h1, h2, h3, h4⟩ := hp
    refine ⟨h1, h2, h3, fun j hj => (h4 j hj).trans ?_⟩
    have hroom : chunk ≤ e.cached - own := h2.room
    exact (List.getD_append _ _ _ _ (by omega)).symm
  | refresh own =>
    rw [hpt] at hp
    exact hp
  | recheck own =>
    rw [hpt] at hp
    exact hp
  | loop => trivial
  | drain => trivial
  | available => trivial
  | finish => trivial

/-- **A store of the producer's cursor** adds the copied bytes to the stream. -/
theorem Inv.storeHead (h : Inv s) (hc : (s.endpoint .send).call = some c) {own chunk : Nat}
    (hpt : c.point = .copy own chunk chunk) : Inv (s.accessed .send
      ⟨s.ring.store (own + chunk) .send, (s.endpoint .send).resume
        { c with progress := c.progress + chunk, moved := c.moved + chunk, point := .loop },
        c.slice c.progress chunk⟩) := by
  have hown := (h.endpoints .send).call c hc
  rw [hpt] at hown
  obtain ⟨hprog, hcur, hchunk, -, hcopied⟩ := hown
  have h1 := h.cachedTail_le
  have h2 := h.tail_le
  have h3 := h.cachedHead_le
  have h4 := h.head_le
  have hlen := h.produced
  have hroom : chunk ≤ kShmRingCapacity - (own - (s.endpoint .send).cached) := hchunk.room
  obtain rfl : own = s.ring.head := hcur
  have hpos := hchunk.pos
  refine ⟨?_, ?_, ?_, ?_, ?_, ?_, ?_, fun d' => ?_⟩
  · exact h1
  · exact h2
  · exact Nat.le_trans h3 (Nat.le_add_right ..)
  · change s.ring.head + chunk ≤ (s.endpoint .send).cached + kShmRingCapacity
    omega
  · rw [accessed_bytes_self, List.length_append, hlen]
    simp [TryCall.slice, ShmRing.store]
  · rw [accessed_bytes_self, accessed_bytes_ne (by decide)]
    change _ = List.take s.ring.tail _
    rw [List.take_append_of_le_length (by omega)]
    exact h.consumed
  · rw [accessed_bytes_self]
    refine h.content.extend (fun i hi => List.getD_append _ _ _ _ (by omega)) fun i hi1 hi2 => ?_
    have hi2 : i < s.ring.head + chunk := hi2
    obtain ⟨j, rfl⟩ := Nat.exists_eq_add_of_le hi1
    rw [mod_add_of_le (n := chunk) (by omega) hchunk.wrap,
      List.getD_append_right _ _ _ _ (by omega), hlen, Nat.add_sub_cancel_left,
      List.getD_eq_getElem?_getD, TryCall.slice, getElem?_slice (by omega), Option.getD_some]
    exact hcopied j (by omega)
  · cases d' with
    | send =>
      rw [accessed_bytes_self, accessed_endpoint_self]
      refine ⟨fun c' hc' => ?_, fun c' b hb => ?_⟩
      · obtain rfl := Option.some.inj hc'
        exact ⟨hprog.advance hchunk.size, trivial⟩
      · obtain ⟨h1, h2, h3, -⟩ := (h.endpoints .send).last c' b hb
        exact ⟨h1, h2, h3, fun hnone => nomatch hnone⟩
    | receive =>
      rw [accessed_bytes_self, accessed_bytes_ne (by decide), accessed_endpoint_ne (by decide)]
      exact (h.endpoints .receive).produce (by omega) _

/-- **A store of the consumer's cursor** adds the copied bytes to what has been consumed. -/
theorem Inv.storeTail (h : Inv s) (hc : (s.endpoint .receive).call = some c) {own chunk : Nat}
    (hpt : c.point = .copy own chunk chunk) : Inv (s.accessed .receive
      ⟨s.ring.store (own + chunk) .receive, (s.endpoint .receive).resume
        { c with progress := c.progress + chunk, moved := c.moved + chunk, point := .loop },
        c.slice c.progress chunk⟩) := by
  have hown := (h.endpoints .receive).call c hc
  rw [hpt] at hown
  obtain ⟨hprog, hcur, hchunk, -, hcopied⟩ := hown
  have h1 := h.cachedTail_le
  have h2 := h.tail_le
  have h3 := h.cachedHead_le
  have h4 := h.head_le
  have hlen := h.produced
  have hroom : chunk ≤ (s.endpoint .receive).cached - own := hchunk.room
  obtain rfl : own = s.ring.tail := hcur
  have hpos := hchunk.pos
  refine ⟨?_, ?_, ?_, ?_, ?_, ?_, ?_, fun d' => ?_⟩
  · exact Nat.le_trans h1 (Nat.le_add_right ..)
  · change s.ring.tail + chunk ≤ (s.endpoint .receive).cached
    omega
  · exact h3
  · exact h4
  · rw [accessed_bytes_ne (by decide)]
    exact hlen
  · rw [accessed_bytes_self, accessed_bytes_ne (by decide), h.consumed]
    change _ = List.take (s.ring.tail + chunk) _
    rw [slice_eq_take (by omega) hcopied, List.take_add]
  · rw [accessed_bytes_ne (by decide)]
    exact h.content.drop (Nat.le_add_right ..)
  · cases d' with
    | send =>
      rw [accessed_bytes_ne (by decide), accessed_endpoint_ne (by decide)]
      exact (h.endpoints .send).congr rfl fun _ => rfl
    | receive =>
      rw [accessed_bytes_self, accessed_endpoint_self]
      refine ⟨fun c' hc' => ?_, fun c' b hb => ?_⟩
      · obtain rfl := Option.some.inj hc'
        exact ⟨hprog.advance hchunk.size, trivial⟩
      · obtain ⟨h1, h2, h3, -⟩ := (h.endpoints .receive).last c' b hb
        exact ⟨h1, h2, h3, fun hnone => nomatch hnone⟩

/-- A change of one endpoint between two calls. -/
theorem Inv.withEndpoint (h : Inv s) {e : TransportShm}
    (hcached : e.cached = (s.endpoint d).cached)
    (he : EndpointOk d s.ring (s.bytes .send) (s.bytes d) e) : Inv (s.withEndpoint d e) := by
  have hsame : ∀ d', ((s.withEndpoint d e).endpoint d').cached = (s.endpoint d').cached := by
    intro d'
    by_cases hd : d' = d
    · subst hd
      rw [withEndpoint_self]
      exact hcached
    · rw [withEndpoint_ne hd]
  refine ⟨?_, ?_, ?_, ?_, h.produced, h.consumed, h.content, fun d' => ?_⟩
  · rw [hsame]
    exact h.cachedTail_le
  · rw [hsame]
    exact h.tail_le
  · rw [hsame]
    exact h.cachedHead_le
  · rw [hsame]
    exact h.head_le
  · by_cases hd : d' = d
    · subst hd
      rw [withEndpoint_self]
      exact he
    · rw [withEndpoint_ne hd]
      exact h.endpoints d'

/-- **Every step keeps the invariant.** -/
theorem step_inv {l : ShmLabel} {s' : ShmSystem} (h : Inv s) (hs : step l s = some s') : Inv s' := by
  cases l with
  | begin d data size progress =>
    simp only [step] at hs
    split at hs
    · cases hs
    · rename_i hnone
      split at hs
      · rename_i hle
        obtain rfl := Option.some.inj hs
        refine h.withEndpoint rfl ⟨fun c hc => ?_, fun c b hb => ?_⟩
        · obtain rfl := Option.some.inj hc
          refine ⟨⟨Nat.le_refl _, hle, (Nat.sub_self _).symm, ?_⟩, trivial⟩
          rw [transferred, Nat.sub_self]
          exact List.nil_suffix
        · obtain ⟨h1, h2, h3, -⟩ := (h.endpoints d).last c b hb
          exact ⟨h1, h2, h3, fun hnone => nomatch hnone⟩
      · cases hs
  | setWaitMode d mode =>
    simp only [step] at hs
    split at hs
    · cases hs
    · rename_i hnone
      obtain rfl := Option.some.inj hs
      exact h.withEndpoint rfl ⟨(h.endpoints d).call, (h.endpoints d).last⟩
  | access d =>
    simp only [step] at hs
    split at hs
    · cases hs
    · rename_i c hc
      obtain rfl := Option.some.inj hs
      rcases advance_cases ((h.endpoints d).call c hc).2 hc with hq | hcopy | hstore
      · exact h.quiet hc hq
      · obtain ⟨own, chunk, k, hpt, hk, e⟩ := hcopy
        rw [e]
        exact h.copy hc hpt hk
      · obtain ⟨own, chunk, hpt, e⟩ := hstore
        rw [e]
        cases d with
        | send => exact h.storeHead hc hpt
        | receive => exact h.storeTail hc hpt

end Steps

/-- The call an endpoint is in, or has just returned from. -/
def Current (e : TransportShm) (c : TryCall) : Prop :=
  e.call = some c ∨ e.call = none ∧ ∃ b, e.last = some (c, b)

/-- **No access takes progress back.** -/
theorem Inv.progress_le {s s' : ShmSystem} {d : TransportDirection} {c c' : TryCall} (h : Inv s)
    (hc : (s.endpoint d).call = some c) (hs : step (.access d) s = some s')
    (hc' : Current (s'.endpoint d) c') : c.progress ≤ c'.progress := by
  simp only [step, hc] at hs
  obtain rfl := Option.some.inj hs
  rw [accessed_endpoint_self] at hc'
  rcases advance_cases ((h.endpoints d).call c hc).2 hc with hq | hcopy | hstore
  · rcases hq.call with ⟨p, hp, -, -⟩ | ⟨hnone, hlast⟩
    · rcases hc' with hc' | ⟨hc', -⟩
      · obtain rfl := Option.some.inj (hp.symm.trans hc')
        exact Nat.le_refl _
      · rw [hp] at hc'
        cases hc'
    · rcases hc' with hc' | ⟨-, b, hb⟩
      · rw [hnone] at hc'
        cases hc'
      · rw [hlast] at hb
        obtain ⟨rfl, -⟩ := Prod.mk.inj (Option.some.inj hb)
        exact Nat.le_refl _
  · obtain ⟨own, chunk, k, -, -, e⟩ := hcopy
    rw [e] at hc'
    rcases hc' with hc' | ⟨hc', -⟩
    · obtain rfl := Option.some.inj hc'
      cases d with
      | send => exact Nat.le_refl _
      | receive => exact Nat.le_refl _
    · cases hc'
  · obtain ⟨own, chunk, -, e⟩ := hstore
    rw [e] at hc'
    rcases hc' with hc' | ⟨hc', -⟩
    · obtain rfl := Option.some.inj hc'
      exact Nat.le_add_right ..
    · cases hc'

/-! ## 4. Runs -/

section Runs

variable {s : ShmSystem} {ls : List ShmLabel}

theorem reach_inv (h : Reach step created ls s) : Inv s :=
  h.invariant inv_created fun _ _ _ hI hs => step_inv hI hs

/-- **The ring is a faithful bounded byte stream**: the cursors and their stale copies keep their order,
    the consumed bytes are a prefix of the produced ones, the bytes in between are still in the ring,
    every call moves its `*progress` forward within the transfer and has transferred the bytes in
    between, and it sets `*done` when `*progress` has reached `size`. -/
theorem shm_stream (h : Reach step created ls s) :
    ((s.endpoint .send).cached ≤ s.ring.tail ∧ s.ring.tail ≤ (s.endpoint .receive).cached ∧
      (s.endpoint .receive).cached ≤ s.ring.head ∧
      s.ring.head ≤ (s.endpoint .send).cached + kShmRingCapacity) ∧
    (s.bytes .receive <+: s.bytes .send ∧ (s.bytes .send).length = s.ring.head ∧
      (s.bytes .receive).length = s.ring.tail) ∧
    (∀ i, s.ring.tail ≤ i → i < s.ring.head →
      s.ring.data (i % kShmRingCapacity) = (s.bytes .send).getD i 0) ∧
    (∀ d c, (s.endpoint d).call = some c → c.start ≤ c.progress ∧ c.progress ≤ c.size ∧
      c.slice c.start (c.progress - c.start) <:+ s.bytes d) ∧
    (∀ d c s' c', (s.endpoint d).call = some c → step (.access d) s = some s' →
      Current (s'.endpoint d) c' → c.progress ≤ c'.progress) ∧
    ∀ d c b, (s.endpoint d).last = some (c, b) → c.start ≤ c.progress ∧ c.progress ≤ c.size ∧
      (b = true ↔ c.progress = c.size) := by
  have hI := reach_inv h
  refine ⟨⟨hI.cachedTail_le, hI.tail_le, hI.cachedHead_le, hI.head_le⟩, ⟨?_, hI.produced, ?_⟩,
    hI.content, fun d c hc => ?_, fun d c s' c' hc hs => hI.progress_le hc hs, fun d c b hb => ?_⟩
  · rw [hI.consumed]
    exact List.take_prefix ..
  · rw [hI.consumed, List.length_take, hI.produced]
    exact Nat.min_eq_left (Nat.le_trans hI.tail_le hI.cachedHead_le)
  · have hprog := ((hI.endpoints d).call c hc).1
    exact ⟨hprog.start_le, hprog.le_size, hprog.suffix⟩
  · obtain ⟨h1, h2, h3, -⟩ := (hI.endpoints d).last c b hb
    exact ⟨h1, h2, h3⟩

end Runs

/-- Three bytes of which the consumer asks for two, in two overlapping calls. -/
def threeBytes : List ShmLabel :=
  .begin .receive (fun _ => 0) 2 0 :: .begin .send (fun i => 7 + i.toUInt8) 3 0 ::
    (List.replicate 8 (.access .send) ++ List.replicate 8 (.access .receive))

theorem shm_stream_three : (follow step created threeBytes).bytes .receive <+:
    (follow step created threeBytes).bytes .send := by
  obtain ⟨ls, -, h⟩ := follow_reach step created threeBytes
  exact (shm_stream h).2.1.1

end OriginCCL.ShmSystem
