/-
  File:      OriginCCL/Transport/RdmaDrain.lean
  Subject:   AN RDMA CONNECTION NEVER GETS STUCK: what was sent can be received, and all credits return.

  Completions are polled by the calls. A receive call that finds all chunks takes them; what it gives back
  is handled by one more call of each endpoint that moves no byte.

  * `RdmaLabel.between`, `WholeCall` -- what happens between calls, and the labels of one call.
  * `settles` -- **between calls, whatever is on its way arrives.**
  * `process_all` -- `ProcessCompletions` handles all completions that have arrived.
  * `receives_all` -- **one receive call then empties the ring**; `polls_receive`, `polls_send` -- a call that
    moves no byte handles what is left.
  * `rdma_drains` -- **every byte sent is received and the whole window is open again**.
-/
import OriginCCL.Transport.RdmaStream

namespace OriginCCL

open Base

/-! ## 1. Labels -/

/-- What happens between calls: the steps of the adapter, and the handling of what `WaitFlag` has polled. -/
def RdmaLabel.between : RdmaLabel → Prop
  | .deliver _ => True
  | .acknowledge _ => True
  | .handle _ => True
  | _ => False

/-- A step inside a call of an endpoint; `ibv_poll_cq` returns at most 16 completions. -/
def RdmaLabel.inside (d : TransportDirection) : RdmaLabel → Prop
  | .poll d' count => d' = d ∧ count ≤ 16
  | .handle d' => d' = d
  | .polled d' => d' = d
  | .advance d' => d' = d
  | _ => False

/-- **The labels of one call** on `size` bytes, from its start to the step in which it returns. -/
def WholeCall (d : TransportDirection) (size : Nat) (ls : List RdmaLabel) : Prop :=
  ∃ data mid, ls = .begin d data size 0 :: (mid ++ [.advance d]) ∧ ∀ l ∈ mid, l.inside d

namespace RdmaSystem

/-! ## 2. Between calls -/

/-- The invariant of `RdmaStream`, for some chunks. -/
def Coherent (s : RdmaSystem) : Prop := ∃ chunks, Inv chunks s ∧ OnRing s

/-- No endpoint has a call running. -/
def Quiet (s : RdmaSystem) : Prop := ∀ d, (s.endpoint d).call = none

/-- Nothing of the endpoint is on its way, or half handled. -/
structure Arrived (t : TransportRDMA) : Prop where
  sendQueue : t.sendQueue = []
  acks : t.acks = []
  batch : t.batch = []

/-- **Nothing is on its way in either direction, and nothing waits to be handled.** -/
def Settled (s : RdmaSystem) : Prop := ∀ d, Arrived (s.endpoint d) ∧ (s.endpoint d).cq = []

/-- What is left to arrive. A request that is delivered may become a completion of its own. -/
def underway (t : TransportRDMA) : Nat := 2 * t.sendQueue.length + t.acks.length + t.batch.length

theorem arrived_of_underway {t : TransportRDMA} (h : underway t = 0) : Arrived t := by
  unfold underway at h
  exact ⟨List.length_eq_zero_iff.mp (by omega), List.length_eq_zero_iff.mp (by omega),
    List.length_eq_zero_iff.mp (by omega)⟩

/-- **What the adapter and `HandleCompletion` leave alone.** -/
structure Same (s s' : RdmaSystem) : Prop where
  sent : s'.sent = s.sent
  received : s'.received = s.received
  sendSeq : s'.producer.sendSeq = s.producer.sendSeq
  arrivalHead : s'.consumer.arrivalHead = s.consumer.arrivalHead

theorem Same.refl (s : RdmaSystem) : Same s s := ⟨rfl, rfl, rfl, rfl⟩

theorem Same.trans {s s' s'' : RdmaSystem} (h : Same s s') (h' : Same s' s'') : Same s s'' :=
  ⟨h'.sent.trans h.sent, h'.received.trans h.received, h'.sendSeq.trans h.sendSeq,
    h'.arrivalHead.trans h.arrivalHead⟩

/-- **A step closer**: something that is on its way goes on, between calls. -/
def Closer (s : RdmaSystem) : Prop :=
  ∃ l s', RdmaLabel.between l ∧ step l s = some s' ∧ Quiet s' ∧ Same s s' ∧
    underway s'.producer + underway s'.consumer < underway s.producer + underway s.consumer

section Steps

variable {s s' : RdmaSystem} {d : TransportDirection} {t : TransportRDMA}

/-- **Every step keeps the invariant.** -/
theorem Coherent.step (h : Coherent s) {l : RdmaLabel} (hs : RdmaSystem.step l s = some s') :
    Coherent s' := by
  obtain ⟨chunks, hI, hring⟩ := h
  obtain ⟨chunks', hI', -⟩ := step_inv hI (fun d w batch _ hb => hring.next hb) hs
  exact ⟨chunks', hI', step_onRing hI hring hs⟩

/-- The last call of an endpoint has not failed. -/
theorem Coherent.not_failed (h : Coherent s) (d : TransportDirection) (text : String) :
    (s.endpoint d).last ≠ some (.error text) := by
  intro hlast
  obtain ⟨chunks, hI, -⟩ := h
  obtain ⟨c, b, he, -⟩ := (hI.calls d).last _ hlast
  cases he

theorem endpoint_withEndpoint : (s.withEndpoint d t).endpoint d = t := by cases d <;> rfl

/-- An endpoint that keeps its counters. -/
theorem same_withEndpoint (hseq : t.sendSeq = (s.endpoint d).sendSeq)
    (hhead : t.arrivalHead = (s.endpoint d).arrivalHead) : Same s (s.withEndpoint d t) := by
  cases d with
  | send => exact ⟨rfl, rfl, hseq, rfl⟩
  | receive => exact ⟨rfl, rfl, rfl, hhead⟩

theorem quiet_withEndpoint (h : Quiet s) (ht : t.call = none) : Quiet (s.withEndpoint d t) := by
  intro d'
  cases d <;> cases d'
  · exact ht
  · exact h .receive
  · exact h .send
  · exact ht

theorem underway_withEndpoint (h : underway t < underway (s.endpoint d)) :
    underway (s.withEndpoint d t).producer + underway (s.withEndpoint d t).consumer <
      underway s.producer + underway s.consumer := by
  cases d with
  | send => exact Nat.add_lt_add_right h _
  | receive => exact Nat.add_lt_add_left h _

/-- `HandleCompletion` posts nothing but a receive, and leaves the counters of both calls alone. -/
theorem handleCompletion_keeps {w : Completion} {t' : TransportRDMA}
    (h : t.handleCompletion w = .ok t') : t'.sendQueue = t.sendQueue ∧ t'.acks = t.acks ∧
      t'.sendSeq = t.sendSeq ∧ t'.arrivalHead = t.arrivalHead ∧ t'.pendingCredit = t.pendingCredit := by
  unfold TransportRDMA.handleCompletion at h
  split at h
  · cases h
  · split at h
    · cases h
      exact ⟨rfl, rfl, rfl, rfl, rfl⟩
    · cases h
      exact ⟨rfl, rfl, rfl, rfl, rfl⟩
    · cases h
      split <;> exact ⟨rfl, rfl, rfl, rfl, rfl⟩
    · split at h
      · cases h
        exact ⟨rfl, rfl, rfl, rfl, rfl⟩
      · dsimp only at h
        split at h
        · cases h
        · cases h
          exact ⟨rfl, rfl, rfl, rfl, rfl⟩
    · cases h
      exact ⟨rfl, rfl, rfl, rfl, rfl⟩

/-- **No completion is refused.** -/
theorem Coherent.handles (h : Coherent s) {w : Completion} {batch : List Completion}
    (hb : (s.endpoint d).batch = w :: batch) :
    ∃ t, TransportRDMA.handleCompletion { s.endpoint d with batch := batch } w = .ok t ∧
      RdmaSystem.step (.handle d) s = some (s.withEndpoint d t) := by
  cases e : TransportRDMA.handleCompletion { s.endpoint d with batch := batch } w with
  | error text =>
    have hfail := h.step (step_handle_error hb e)
    refine absurd ?_ (hfail.not_failed d text)
    rw [endpoint_withEndpoint]
    rfl
  | ok t => exact ⟨t, rfl, step_handle hb e⟩

/-- A completion that is left over is handled. -/
theorem settle_handle (h : Coherent s) (hquiet : Quiet s) {w : Completion} {batch : List Completion}
    (hb : (s.endpoint d).batch = w :: batch) : Closer s := by
  obtain ⟨t, e, hs⟩ := h.handles hb
  obtain ⟨hbatch, hcq, hcall, -⟩ := TransportRDMA.handleCompletion_queues e
  obtain ⟨hqueue, hacks, hseq, hhead, -⟩ := handleCompletion_keeps e
  refine ⟨.handle d, _, trivial, hs, quiet_withEndpoint hquiet (hcall.trans (hquiet d)),
    same_withEndpoint hseq hhead, underway_withEndpoint ?_⟩
  rw [underway, underway, hqueue, hacks, hbatch, hb, List.length_cons]
  exact Nat.lt_succ_self _

/-- The completion of an own request arrives. -/
theorem settle_acknowledge (hquiet : Quiet s) (hacks : (s.endpoint d).acks ≠ []) : Closer s := by
  obtain ⟨w, rest, hacks⟩ := List.exists_cons_of_ne_nil hacks
  have hs : step (.acknowledge d) s = some (s.withEndpoint d { s.endpoint d with
      acks := rest, cq := (s.endpoint d).cq ++ [w] }) := by
    simp only [step, hacks]
  refine ⟨.acknowledge d, _, trivial, hs, quiet_withEndpoint hquiet (hquiet d), same_withEndpoint rfl rfl,
    underway_withEndpoint ?_⟩
  rw [underway, underway, hacks, List.length_cons]
  dsimp only
  omega

/-- The oldest request is delivered: a receive is posted for it. -/
theorem settle_deliver (h : Coherent s) (hquiet : Quiet s) (hqueue : (s.endpoint d).sendQueue ≠ []) :
    Closer s := by
  obtain ⟨chunks, hI, -⟩ := h
  obtain ⟨r, rest, hsend⟩ := List.exists_cons_of_ne_nil hqueue
  have hlen := hI.ring.recvQueue_length hI.receives d.peer
  have hpool : kRdmaRecvPool = 64 := rfl
  have hslots : kRdmaSlotCount = 32 := rfl
  obtain ⟨index, pool, hrecv⟩ := List.exists_cons_of_ne_nil
    (List.ne_nil_of_length_pos (l := (s.endpoint d.peer).recvQueue) (by omega))
  have hs : step (.deliver d) s = some (s.delivered d r rest index pool) := by
    simp only [step, hsend, hrecv]
    rfl
  have harrive : ∀ t bytes, underway (TransportRDMA.arrive t r bytes index pool) = underway t ∧
      (TransportRDMA.arrive t r bytes index pool).call = t.call ∧
      (TransportRDMA.arrive t r bytes index pool).sendSeq = t.sendSeq ∧
      (TransportRDMA.arrive t r bytes index pool).arrivalHead = t.arrivalHead := by
    intro t bytes
    unfold TransportRDMA.arrive
    cases r.opcode <;> exact ⟨rfl, rfl, rfl, rfl⟩
  refine ⟨.deliver d, _, trivial, hs, ?_, ?_, ?_⟩
  · intro d'
    cases d <;> cases d'
    · exact hquiet .send
    · exact (harrive _ _).2.1.trans (hquiet .receive)
    · exact (harrive _ _).2.1.trans (hquiet .send)
    · exact hquiet .receive
  · cases d with
    | send => exact ⟨rfl, rfl, rfl, (harrive _ _).2.2.2⟩
    | receive => exact ⟨rfl, rfl, (harrive _ _).2.2.1, rfl⟩
  · -- the request may leave a completion of its own behind
    have hoff : underway ((s.endpoint d).sentOff r rest) < underway (s.endpoint d) := by
      rw [underway, underway, hsend, List.length_cons]
      show 2 * rest.length + ((s.endpoint d).acks ++ _).length + (s.endpoint d).batch.length < _
      rw [List.length_append]
      split <;> simp only [List.length_nil, List.length_singleton] <;> omega
    cases d with
    | send =>
      have hpeer := (harrive s.consumer (r.payload s.producer.buffer)).1
      show underway (s.producer.sentOff r rest) +
        underway (s.consumer.arrive r (r.payload s.producer.buffer) index pool) < _
      have hoff : underway (s.producer.sentOff r rest) < underway s.producer := hoff
      omega
    | receive =>
      have hpeer := (harrive s.producer (r.payload s.consumer.buffer)).1
      show underway (s.producer.arrive r (r.payload s.consumer.buffer) index pool) +
        underway (s.consumer.sentOff r rest) < _
      have hoff : underway (s.consumer.sentOff r rest) < underway s.consumer := hoff
      omega

/-- **As long as something is on its way, it goes on.** -/
theorem settle_step (h : Coherent s) (hquiet : Quiet s) (hleft : ¬ ∀ d, Arrived (s.endpoint d)) :
    Closer s := by
  by_cases hb : ∃ d, (s.endpoint d).batch ≠ []
  · obtain ⟨d, hb⟩ := hb
    obtain ⟨w, batch, hb⟩ := List.exists_cons_of_ne_nil hb
    exact settle_handle h hquiet hb
  by_cases hacks : ∃ d, (s.endpoint d).acks ≠ []
  · obtain ⟨d, hacks⟩ := hacks
    exact settle_acknowledge hquiet hacks
  by_cases hqueue : ∃ d, (s.endpoint d).sendQueue ≠ []
  · obtain ⟨d, hqueue⟩ := hqueue
    exact settle_deliver h hquiet hqueue
  · exact absurd (fun d => ⟨not_not.mp fun hne => hqueue ⟨d, hne⟩, not_not.mp fun hne => hacks ⟨d, hne⟩,
      not_not.mp fun hne => hb ⟨d, hne⟩⟩) hleft

/-- **Between calls, whatever is on its way arrives.** -/
theorem settles (h : Coherent s) (hquiet : Quiet s) : ∃ ls s', Reach RdmaSystem.step s ls s' ∧
    (∀ l ∈ ls, RdmaLabel.between l) ∧ Coherent s' ∧ Quiet s' ∧ (∀ d, Arrived (s'.endpoint d)) ∧
    Same s s' := by
  induction hleft : underway s.producer + underway s.consumer using Nat.strong_induction_on
    generalizing s with
  | _ n ih =>
    subst hleft
    by_cases harrived : ∀ d, Arrived (s.endpoint d)
    · exact ⟨[], s, .start, nofun, h, hquiet, harrived, Same.refl s⟩
    · obtain ⟨l, s₁, hl, hs, hquiet₁, hsame₁, hless⟩ := settle_step h hquiet harrived
      obtain ⟨ls, s', hrun, hls, h', hquiet', harrived', hsame⟩ := ih _ hless (h.step hs) hquiet₁ rfl
      exact ⟨l :: ls, s', .cons hs hrun, List.forall_mem_cons.mpr ⟨hl, hls⟩, h', hquiet', harrived',
        hsame₁.trans hsame⟩

end Steps

/-! ## 3. A call handles what has arrived -/

section Processing

variable {s s' : RdmaSystem} {d : TransportDirection} {c : RdmaCall}

/-- **What `ProcessCompletions` leaves alone.** -/
structure Processed (d : TransportDirection) (s s' : RdmaSystem) : Prop where
  sent : s'.sent = s.sent
  received : s'.received = s.received
  peer : s'.endpoint d.peer = s.endpoint d.peer
  sendQueue : (s'.endpoint d).sendQueue = (s.endpoint d).sendQueue
  acks : (s'.endpoint d).acks = (s.endpoint d).acks
  sendSeq : (s'.endpoint d).sendSeq = (s.endpoint d).sendSeq
  arrivalHead : (s'.endpoint d).arrivalHead = (s.endpoint d).arrivalHead
  pendingCredit : (s'.endpoint d).pendingCredit = (s.endpoint d).pendingCredit

theorem Processed.trans {s'' : RdmaSystem} (h : Processed d s s') (h' : Processed d s' s'') :
    Processed d s s'' :=
  ⟨h'.sent.trans h.sent, h'.received.trans h.received, h'.peer.trans h.peer,
    h'.sendQueue.trans h.sendQueue, h'.acks.trans h.acks, h'.sendSeq.trans h.sendSeq,
    h'.arrivalHead.trans h.arrivalHead, h'.pendingCredit.trans h.pendingCredit⟩

/-- An endpoint that keeps these. -/
theorem processed_withEndpoint {t : TransportRDMA} (h1 : t.sendQueue = (s.endpoint d).sendQueue)
    (h2 : t.acks = (s.endpoint d).acks) (h3 : t.sendSeq = (s.endpoint d).sendSeq)
    (h4 : t.arrivalHead = (s.endpoint d).arrivalHead)
    (h5 : t.pendingCredit = (s.endpoint d).pendingCredit) : Processed d s (s.withEndpoint d t) := by
  cases d <;> exact ⟨rfl, rfl, rfl, h1, h2, h3, h4, h5⟩

/-- **The call `c` gets to its loop**, with all completions handled. -/
def Handles (d : TransportDirection) (c : RdmaCall) (s : RdmaSystem) : Prop :=
  ∃ ls s', Reach RdmaSystem.step s ls s' ∧ (∀ l ∈ ls, RdmaLabel.inside d l) ∧ Coherent s' ∧
    Processed d s s' ∧ (s'.endpoint d).call = some { c with point := .body } ∧
    (s'.endpoint d).batch = [] ∧ (s'.endpoint d).cq = []

/-- **`ProcessCompletions` handles all completions that have arrived**, at most 16 at a time. -/
theorem process_all (h : Coherent s) (hcall : (s.endpoint d).call = some c) (hpoint : c.point = .process) :
    Handles d c s := by
  induction hleft : 2 * (s.endpoint d).cq.length + (s.endpoint d).batch.length
    using Nat.strong_induction_on generalizing s with
  | _ n ih =>
    subst hleft
    -- one step `l` to an endpoint `t` that has less left to handle
    have hgo : ∀ l t, RdmaLabel.inside d l → RdmaSystem.step l s = some (s.withEndpoint d t) →
        t.call = some c → Processed d s (s.withEndpoint d t) →
        2 * t.cq.length + t.batch.length < 2 * (s.endpoint d).cq.length + (s.endpoint d).batch.length →
        Handles d c s := by
      intro l t hl hs ht hkept hless
      obtain ⟨ls, s', hrun, hls, h', hkept', hend⟩ := ih _ hless (h.step hs)
        (by rw [endpoint_withEndpoint]; exact ht) (by rw [endpoint_withEndpoint])
      exact ⟨l :: ls, s', .cons hs hrun, List.forall_mem_cons.mpr ⟨hl, hls⟩, h', hkept.trans hkept', hend⟩
    cases hb : (s.endpoint d).batch with
    | cons w batch =>
      obtain ⟨t, e, hs⟩ := h.handles hb
      obtain ⟨hbatch, hcq, ht, -⟩ := TransportRDMA.handleCompletion_queues e
      obtain ⟨hqueue, hacks, hseq, hhead, hpending⟩ := handleCompletion_keeps e
      refine hgo (.handle d) t rfl hs (ht.trans hcall)
        (processed_withEndpoint hqueue hacks hseq hhead hpending) ?_
      rw [hcq, hbatch, hb, List.length_cons]
      exact Nat.lt_succ_self _
    | nil =>
      cases hcq : (s.endpoint d).cq with
      | cons w rest =>
        have hpolling : (s.endpoint d).polling := fun c' hc' => by
          rw [hcall] at hc'
          exact Option.some.inj hc' ▸ hpoint
        have hs : RdmaSystem.step (.poll d (min 16 (w :: rest).length)) s = some (s.withEndpoint d
            { s.endpoint d with
              batch := (s.endpoint d).cq.take (min 16 (w :: rest).length)
              cq := (s.endpoint d).cq.drop (min 16 (w :: rest).length) }) := by
          rw [RdmaSystem.step]
          exact if_pos ⟨hpolling, hb, by rw [hcq]; exact Nat.min_le_right ..⟩
        refine hgo (.poll d _) _ ⟨rfl, Nat.min_le_left ..⟩ hs hcall
          (processed_withEndpoint rfl rfl rfl rfl rfl) ?_
        dsimp only
        rw [hcq, hb, List.length_drop, List.length_take, List.length_cons, List.length_nil]
        omega
      | nil =>
        have hs : RdmaSystem.step (.polled d) s = some (s.withEndpoint d
            { s.endpoint d with call := some { c with point := .body } }) := by
          simp only [RdmaSystem.step, hcall]
          exact if_pos ⟨hpoint, hb⟩
        refine ⟨[.polled d], _, .single hs, fun l hl => ?_, h.step hs,
          processed_withEndpoint rfl rfl rfl rfl rfl, ?_, ?_, ?_⟩
        · rw [List.mem_singleton.mp hl]
          rfl
        · rw [endpoint_withEndpoint]
        · rw [endpoint_withEndpoint]
          exact hb
        · rw [endpoint_withEndpoint]
          exact hcq

/-- A call on `size` bytes after its `ProcessCompletions`. -/
def callOn (size : Nat) : RdmaCall :=
  { data := fun _ => 0, size := size, start := 0, progress := 0, point := .body }

/-- **A call begins and handles what has arrived.** -/
theorem call_starts (h : Coherent s) (hquiet : Quiet s) (hb : (s.endpoint d).batch = []) (size : Nat) :
    ∃ ls s', Reach RdmaSystem.step s (.begin d (fun _ => 0) size 0 :: ls) s' ∧
      (∀ l ∈ ls, RdmaLabel.inside d l) ∧ Coherent s' ∧ Processed d s s' ∧
      (s'.endpoint d).call = some (callOn size) ∧ (s'.endpoint d).batch = [] ∧
      (s'.endpoint d).cq = [] := by
  have hs : RdmaSystem.step (.begin d (fun _ => 0) size 0) s = some (s.withEndpoint d
      { s.endpoint d with call := some { callOn size with point := .process } }) := by
    simp only [RdmaSystem.step, hquiet d]
    exact if_pos ⟨Nat.zero_le _, hb⟩
  have hbegun : Processed d s (s.withEndpoint d
      { s.endpoint d with call := some { callOn size with point := .process } }) :=
    processed_withEndpoint rfl rfl rfl rfl rfl
  obtain ⟨ls, s', hrun, hls, h', hkept, hend⟩ := process_all (h.step hs)
    (by rw [endpoint_withEndpoint]) rfl
  exact ⟨ls, s', .cons hs hrun, hls, h', hbegun.trans hkept, hend⟩

end Processing

/-! ## 4. A receive call -/

section Receiving

variable {s : RdmaSystem} {c : RdmaCall}

/-- What is received was sent. -/
theorem Coherent.received_le (h : Coherent s) : s.received.length ≤ s.sent.length := by
  obtain ⟨chunks, hI, -⟩ := h
  exact hI.received_isPrefix.length_le

/-- **A receive call in its loop takes at least one byte.** -/
theorem Coherent.loop (h : Coherent s) (hc : c.progress < c.size)
    (hne : s.consumer.arrivalHead ≠ s.consumer.arrivalTail) :
    ∃ (bytes : List UInt8) (t : TransportRDMA), 0 < bytes.length ∧
      (t.arrivalTail = s.consumer.arrivalTail ∧ t.cq = s.consumer.cq ∧ t.batch = s.consumer.batch ∧
        t.acks = s.consumer.acks) ∧
      s.advance c .receive = { s with
        consumer := { t with call := some { c with
          data := splice c.data c.progress bytes, progress := c.progress + bytes.length } }
        received := s.received ++ bytes } := by
  obtain ⟨chunks, hI, -⟩ := h
  obtain ⟨m, t, hm, hoff, -, e, ht, -⟩ := hI.ring.consume (c := c) hne hc
  generalize hbytes : ((chunks.getD s.consumer.arrivalHead []).drop
    s.consumer.arrivalOffset).take m = bytes at e
  have hlen : bytes.length = m := by
    rw [← hbytes, List.length_take, List.length_drop]
    omega
  subst hlen
  refine ⟨bytes, t, hm, ?_, advance_loop ⟨hc, hne⟩ e⟩
  rw [ht]
  split <;> exact ⟨rfl, rfl, rfl, rfl⟩

/-- The step of a receive call after its `ProcessCompletions`. -/
theorem step_receive (hcall : s.consumer.call = some c) (hpoint : c.point = .body) :
    step (.advance .receive) s = some (s.advance c .receive) := by
  simp only [step, endpoint_receive, hcall]
  exact if_pos hpoint

/-- **A receive call with room for all bytes empties the ring**, by induction on the bytes that are not
    received. -/
theorem receive_loop (h : Coherent s) (hcall : s.consumer.call = some c) (hpoint : c.point = .body)
    (hroom : c.progress + (s.sent.length - s.received.length) < c.size) :
    ∃ ls s', Reach RdmaSystem.step s (ls ++ [.advance .receive]) s' ∧
      (∀ l ∈ ls, RdmaLabel.inside .receive l) ∧ Coherent s' ∧ s'.consumer.call = none ∧
      s'.producer = s.producer ∧ s'.sent = s.sent ∧ s'.consumer.arrivalHead = s.consumer.arrivalTail ∧
      s'.consumer.cq = s.consumer.cq ∧ s'.consumer.batch = s.consumer.batch ∧
      s'.consumer.acks = s.consumer.acks := by
  induction hleft : s.sent.length - s.received.length using Nat.strong_induction_on
    generalizing s c with
  | _ n ih =>
    subst hleft
    have hs := step_receive hcall hpoint
    have hnext := h.step hs
    by_cases he : s.consumer.arrivalHead = s.consumer.arrivalTail
    · refine ⟨[], _, .single hs, nofun, hnext, ?_⟩
      rw [advance_end fun hloop => hloop.2 he]
      refine ⟨rfl, rfl, rfl, ?_⟩
      rcases s.consumer.returnCredit_cases with ⟨e, -⟩ | ⟨-, e⟩
      · rw [e]
        exact ⟨he, rfl, rfl, rfl⟩
      · rw [e]
        exact ⟨he, rfl, rfl, rfl⟩
    · obtain ⟨bytes, t, hpos, ⟨htail, hcq, hbatch, hacks⟩, e⟩ := h.loop (c := c) (by omega) he
      rw [e] at hs hnext
      have hle : (s.received ++ bytes).length ≤ s.sent.length := hnext.received_le
      rw [List.length_append] at hle
      have hleft : s.sent.length - (s.received ++ bytes).length <
          s.sent.length - s.received.length := by
        rw [List.length_append]
        omega
      obtain ⟨ls, s', hrun, hls, h1, h2, h3, h4, h5, h6, h7, h8⟩ := ih _ hleft hnext rfl hpoint (by
        show c.progress + bytes.length + (s.sent.length - (s.received ++ bytes).length) < c.size
        rw [List.length_append]
        omega) rfl
      exact ⟨.advance .receive :: ls, s', .cons hs hrun, List.forall_mem_cons.mpr ⟨rfl, hls⟩, h1, h2, h3,
        h4, h5.trans htail, h6.trans hcq, h7.trans hbatch, h8.trans hacks⟩

/-- Once everything has arrived and is handled, the consumer knows of every chunk. -/
theorem Coherent.all_known (h : Coherent s) (hp : s.producer.sendQueue = [])
    (hb : s.consumer.batch = []) (hcq : s.consumer.cq = []) :
    s.consumer.arrivalTail = s.producer.sendSeq := by
  obtain ⟨chunks, hI, -⟩ := h
  have hbalance := hI.ring.balance
  rw [hp, TransportRDMA.unhandled, TransportRDMA.waiting, hb, hcq] at hbalance
  exact hbalance.symm

/-- **One receive call empties the ring** if everything has arrived. -/
theorem receives_all (h : Coherent s) (hquiet : Quiet s) (harrived : ∀ d, Arrived (s.endpoint d)) :
    ∃ r s', Reach RdmaSystem.step s r s' ∧ WholeCall .receive (s.sent.length + 1) r ∧ Coherent s' ∧
      Quiet s' ∧ s'.producer = s.producer ∧ s'.sent = s.sent ∧
      s'.consumer.arrivalHead = s.producer.sendSeq := by
  obtain ⟨ls, s₁, hrun, hls, h₁, hkept, hcall, hb, hcq⟩ :=
    call_starts h hquiet (harrived .receive).batch (s.sent.length + 1)
  have hproducer : s₁.producer = s.producer := hkept.peer
  have htail := h₁.all_known (by rw [hproducer]; exact (harrived .send).sendQueue) hb hcq
  obtain ⟨ls', s', hrun', hls', h', hcall', hproducer', hsent', hhead, -⟩ :=
    receive_loop h₁ hcall rfl (by
      show 0 + (s₁.sent.length - s₁.received.length) < s.sent.length + 1
      rw [hkept.sent]
      omega)
  refine ⟨_, s', hrun.trans hrun', ⟨fun _ => 0, ls ++ ls', ?_, fun l hl => ?_⟩, h', fun d => ?_,
    hproducer'.trans hproducer, hsent'.trans hkept.sent, by rw [hhead, htail, hproducer]⟩
  · rw [List.cons_append, List.append_assoc]
  · exact (List.mem_append.mp hl).elim (hls l) (hls' l)
  · cases d with
    | send =>
      show s'.producer.call = none
      rw [hproducer', hproducer]
      exact hquiet .send
    | receive => exact hcall'

end Receiving

/-! ## 5. A call that moves no byte -/

section Polling

variable {s : RdmaSystem}

/-- **What a call that moves no byte leaves behind**: all that has arrived at its endpoint is handled, and
    nothing else has happened. -/
structure Polled (d : TransportDirection) (s s' : RdmaSystem) : Prop where
  quiet : Quiet s'
  same : Same s s'
  received : s'.received = s.received
  peer : s'.endpoint d.peer = s.endpoint d.peer
  arrived : Arrived (s'.endpoint d)
  handled : (s'.endpoint d).cq = []

/-- The consumer polls, once its ring is empty and its credits are returned. -/
theorem polls_receive (h : Coherent s) (hquiet : Quiet s) (harrived : ∀ d, Arrived (s.endpoint d))
    (hhead : s.consumer.arrivalHead = s.producer.sendSeq) :
    ∃ r s', Reach RdmaSystem.step s r s' ∧ WholeCall .receive 0 r ∧ Coherent s' ∧
      Polled .receive s s' := by
  obtain ⟨ls, s₁, hrun, hls, h₁, hkept, hcall, hb, hcq⟩ :=
    call_starts h hquiet (harrived .receive).batch 0
  have hproducer : s₁.producer = s.producer := hkept.peer
  have hnone : s.consumer.call = none := hquiet .receive
  have hpending : s₁.consumer.pendingCredit = 0 := by
    obtain ⟨chunks, hI, -⟩ := h
    have horder := hI.ring.order
    have htail := hI.ring.tail_le
    exact hkept.pendingCredit.trans
      (hI.idle (fun c hc => by rw [hnone] at hc; cases hc) (by omega))
  -- without a byte to take and a slot to give back the call only returns
  have hreturn : s₁.consumer.returnCredit = s₁.consumer := by
    rcases s₁.consumer.returnCredit_cases with ⟨e, -⟩ | ⟨hpos, -⟩
    · exact e
    · omega
  have hs := step_receive hcall rfl
  have h' := h₁.step hs
  rw [advance_end fun hloop => Nat.not_lt_zero _ hloop.1, hreturn] at hs h'
  refine ⟨_, _, hrun.trans (.single hs), ⟨_, ls, rfl, hls⟩, h', fun d => ?_, ?_, hkept.received, hproducer,
    ⟨hkept.sendQueue.trans (harrived .receive).sendQueue, hkept.acks.trans (harrived .receive).acks, hb⟩,
    hcq⟩
  · cases d with
    | send =>
      show s₁.producer.call = none
      rw [hproducer]
      exact hquiet .send
    | receive => rfl
  · exact ⟨hkept.sent, hkept.received, congrArg _ hproducer, hkept.arrivalHead⟩

/-- A send call with nothing left to send posts nothing. -/
theorem trySend_nothing {t : TransportRDMA} {c : RdmaCall} (hc : c.size - c.progress = 0) :
    t.trySend c = (t, c) := by
  unfold TransportRDMA.trySend
  refine if_neg ?_
  rw [if_pos hc, Nat.min_zero]
  exact Nat.lt_irrefl 0

/-- The producer polls. -/
theorem polls_send (h : Coherent s) (hquiet : Quiet s) (harrived : Arrived s.producer) :
    ∃ r s', Reach RdmaSystem.step s r s' ∧ WholeCall .send 0 r ∧ Coherent s' ∧ Polled .send s s' := by
  obtain ⟨ls, s₁, hrun, hls, h₁, hkept, hcall, hb, hcq⟩ :=
    call_starts (d := .send) h hquiet harrived.batch 0
  have hconsumer : s₁.consumer = s.consumer := hkept.peer
  have hadvance : s₁.advance (callOn 0) .send =
      { s₁ with producer := s₁.producer.finish (callOn 0), sent := s₁.sent } := by
    rw [advance, trySend_nothing rfl]
    dsimp only
    rw [Nat.sub_self, slice_zero, List.append_nil]
  have hcall : s₁.producer.call = some (callOn 0) := hcall
  have hs : step (.advance .send) s₁ = some (s₁.advance (callOn 0) .send) := by
    simp only [step, endpoint_send, hcall]
    exact if_pos rfl
  have h' := h₁.step hs
  rw [hadvance] at hs h'
  refine ⟨_, _, hrun.trans (.single hs), ⟨_, ls, rfl, hls⟩, h', fun d => ?_, ?_, hkept.received, hconsumer,
    ⟨hkept.sendQueue.trans harrived.sendQueue, hkept.acks.trans harrived.acks, hb⟩, hcq⟩
  · cases d with
    | send => rfl
    | receive =>
      show s₁.consumer.call = none
      rw [hconsumer]
      exact hquiet .receive
  · exact ⟨hkept.sent, hkept.received, hkept.sendSeq, congrArg _ hconsumer⟩

end Polling

/-! ## 6. Everything sent is received -/

/-- What holds of the counters once nothing is on its way. -/
theorem Coherent.settled {s : RdmaSystem} (h : Coherent s) (hsettled : Settled s) :
    s.consumer.arrivalTail = s.producer.sendSeq ∧
      s.consumer.arrivalHead = s.producer.creditsReceived + s.consumer.pendingCredit := by
  obtain ⟨hp, hpcq⟩ := hsettled .send
  obtain ⟨hc, hccq⟩ := hsettled .receive
  refine ⟨h.all_known hp.sendQueue hc.batch hccq, ?_⟩
  obtain ⟨chunks, hI, -⟩ := h
  have hcredits := hI.ring.credits
  have hunhandled : s.producer.unhandled = [] := by
    rw [TransportRDMA.unhandled, TransportRDMA.waiting, show s.producer.batch = [] from hp.batch,
      show s.producer.cq = [] from hpcq]
    rfl
  have hcredited : s.credited = 0 := by
    rw [credited, creditImms, hunhandled, show s.consumer.sendQueue = [] from hc.sendQueue]
    rfl
  rw [hcredited] at hcredits
  exact hcredits

section Runs

variable {inlineCapacity : TransportDirection → Nat} {connector : TransportDirection}
  {message : List UInt8} {s : RdmaSystem} {ls : List RdmaLabel}

/-- **An RDMA connection never gets stuck**: from every state between calls there is a way on, on which
    everything that is on its way arrives, a receive call takes all bytes that were sent, its credits arrive,
    and one call of each endpoint that moves no byte handles what is left. Then all bytes that were sent are
    received, nothing is on its way or waits to be handled, and every slot is credited, so that the whole
    window is open to the next send call. -/
theorem rdma_drains (hm : message.length ≤ kRdmaControlSize)
    (h : Reach step (connected inlineCapacity connector message) ls s) (hquiet : Quiet s) :
    ∃ a₁ r₁ a₂ r₂ p s', Reach step (connected inlineCapacity connector message)
        (ls ++ (a₁ ++ r₁ ++ a₂ ++ r₂ ++ p)) s' ∧
      (∀ l ∈ a₁ ++ a₂, RdmaLabel.between l) ∧ WholeCall .receive (s.sent.length + 1) r₁ ∧
      WholeCall .receive 0 r₂ ∧ WholeCall .send 0 p ∧
      Quiet s' ∧ Settled s' ∧ s'.sent = s.sent ∧ s'.received = s.sent ∧
      s'.producer.creditsReceived = s'.producer.sendSeq := by
  have hs : Coherent s := reach_inv hm h
  obtain ⟨a₁, s₁, hrun₁, ha₁, hs₁, hquiet₁, harrived₁, hsame₁⟩ := settles hs hquiet
  obtain ⟨r₁, s₂, hrun₂, hr₁, hs₂, hquiet₂, hproducer, hsent, hhead⟩ := receives_all hs₁ hquiet₁ harrived₁
  obtain ⟨a₂, s₃, hrun₃, ha₂, hs₃, hquiet₃, harrived₃, hsame₃⟩ := settles hs₂ hquiet₂
  -- the ring is still empty, since only credits and acknowledgements were on their way
  have hhead₃ : s₃.consumer.arrivalHead = s₃.producer.sendSeq := by
    rw [hsame₃.arrivalHead, hhead, hsame₃.sendSeq, hproducer]
  obtain ⟨r₂, s₄, hrun₄, hr₂, hs₄, hpolled₄⟩ := polls_receive hs₃ hquiet₃ harrived₃ hhead₃
  have hproducer₄ : s₄.producer = s₃.producer := hpolled₄.peer
  obtain ⟨p, s₅, hrun₅, hp, hs₅, hpolled₅⟩ := polls_send hs₄ hpolled₄.quiet
    (by rw [hproducer₄]; exact harrived₃ .send)
  have hconsumer₅ : s₅.consumer = s₄.consumer := hpolled₅.peer
  have hsettled : Settled s₅ := fun d => by
    cases d with
    | send => exact ⟨hpolled₅.arrived, hpolled₅.handled⟩
    | receive =>
      show Arrived s₅.consumer ∧ s₅.consumer.cq = []
      rw [hconsumer₅]
      exact ⟨hpolled₄.arrived, hpolled₄.handled⟩
  obtain ⟨htail, hcredits⟩ := hs₅.settled hsettled
  have hsame : Same s₃ s₅ := hpolled₄.same.trans hpolled₅.same
  have hall : s₅.consumer.arrivalHead = s₅.producer.sendSeq := by
    rw [hsame.arrivalHead, hhead₃, hsame.sendSeq]
  have hnone : s₅.consumer.call = none := hpolled₅.quiet .receive
  obtain ⟨chunks, hI, -⟩ := hs₅
  have hzero : s₅.consumer.pendingCredit = 0 :=
    hI.idle (fun c hc => by rw [hnone] at hc; cases hc) (hall.trans htail.symm)
  have hfinal : s₅.sent = s.sent := by rw [hsame.sent, hsame₃.sent, hsent, hsame₁.sent]
  refine ⟨a₁, r₁, a₂, r₂, p, s₅, h.trans ((((hrun₁.trans hrun₂).trans hrun₃).trans hrun₄).trans hrun₅),
    fun l hl => (List.mem_append.mp hl).elim (ha₁ l) (ha₂ l), ?_, hr₂, hp, hpolled₅.quiet, hsettled,
    hfinal, ?_, by omega⟩
  · rw [← hsame₁.sent]
    exact hr₁
  · rw [← hfinal, hI.received, hI.sent, taken, hall, hI.ring.empty (hall.trans htail.symm),
      hI.ring.seq, List.take_length, List.take_zero, List.append_nil]

end Runs

theorem rdma_drains_three : ∃ s', s'.received = [7, 8, 9] ∧ Settled s' ∧
    s'.producer.creditsReceived = s'.producer.sendSeq := by
  obtain ⟨ls, -, h⟩ := follow_reach step (connected (fun _ => kRdmaInlineThreshold) .send [1, 2])
    threeWritten
  have hquiet : Quiet afterThree := fun d => by cases d <;> rfl
  obtain ⟨-, -, -, -, -, s', -, -, -, -, -, -, hsettled, -, hreceived, hwindow⟩ :=
    rdma_drains (by decide) h hquiet
  exact ⟨s', hreceived.trans (by decide), hsettled, hwindow⟩

end RdmaSystem

end OriginCCL
