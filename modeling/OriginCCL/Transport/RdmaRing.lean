/-
  File:      OriginCCL/Transport/RdmaRing.lean
  Subject:   THE RING OF AN RDMA CONNECTION: slots, announcements and credits on both sides.

  * `Ring chunks s` -- chunk `n` of the stream is where the counters of the two endpoints and the queues
    between them say it is. One lemma for each thing that changes it: `Ring.handleCredit`,
    `Ring.handleData`, `Ring.deliverCredit`, `Ring.deliverData`, `Ring.send`, `Ring.consume`,
    `Ring.returnCredit`; for everything else `Ring.neutral`.
  * `Receives s` -- the posted receives of both endpoints, and the control message.
-/
import Mathlib.Algebra.Order.BigOperators.Group.List
import OriginCCL.Transport.RdmaQueues

namespace OriginCCL.RdmaSystem

open Base

/-! ## 1. The invariant -/

/-- A completion the endpoint can handle. -/
def Sound (w : Completion) : Prop :=
  w.status = .success ∧ (¬ Own w → w.wrId < kRdmaRecvPool)

/-- **The receives of an endpoint**: those posted, and those used up by a completion. -/
structure Pool (t : TransportRDMA) : Prop where
  total : t.recvQueue.length + (imms t.unhandled).length + controls t.unhandled = kRdmaRecvPool
  ids : ∀ i ∈ t.recvQueue, i < kRdmaRecvPool
  sound : ∀ w ∈ t.unhandled, Sound w
  acks : ∀ w ∈ t.acks, w.status = .success ∧ w.queuePair = .ring ∧ Own w

/-- A control message that is not delivered yet. -/
def ControlOk (r : SendRequest) : Prop :=
  r.opcode = .send → r.length ≤ kRdmaControlSize ∧ r.inlined = none

/-- **The receives of both endpoints**; there is at most one control message in each direction. -/
structure Receives (s : RdmaSystem) : Prop where
  pool : ∀ d, Pool (s.endpoint d)
  control : ∀ d, controls (s.endpoint d).unhandled + controlSends (s.endpoint d.peer).sendQueue ≤ 1
  controlOk : ∀ d, ∀ r ∈ (s.endpoint d).sendQueue, ControlOk r

/-- The credits on their way to the producer. -/
def creditImms (s : RdmaSystem) : List UInt32 :=
  imms s.producer.unhandled ++ (writes s.consumer.sendQueue).map (·.immediate)

/-- The number of slots they give back. -/
def credited (s : RdmaSystem) : Nat := (s.creditImms.map creditOf).sum

/-- **The ring**: the chunks `head … tail - 1` have arrived, those up to `tail + D - 1` are announced
    in the consumer's completions, and the others are in the producer's send queue. -/
structure Ring (chunks : List (List UInt8)) (s : RdmaSystem) : Prop where
  seq : s.producer.sendSeq = chunks.length
  sizes : ∀ x ∈ chunks, 0 < x.length ∧ x.length ≤ kRdmaSlotSize
  order : s.consumer.arrivalHead ≤ s.consumer.arrivalTail
  balance : s.producer.sendSeq = s.consumer.arrivalTail + (imms s.consumer.unhandled).length +
    (writes s.producer.sendQueue).length
  window : s.producer.sendSeq ≤ s.producer.creditsReceived + kRdmaSlotCount
  credits : s.consumer.arrivalHead =
    s.producer.creditsReceived + s.credited + s.consumer.pendingCredit
  creditBits : ∀ x ∈ s.creditImms, x &&& kCreditImmediate ≠ 0 ∧ 0 < creditOf x
  creditWrites : ∀ r ∈ writes s.consumer.sendQueue,
    r.remoteAddr = kRdmaCreditOffset ∧ r.length = 1 ∧ r.inlined = none
  announced : Numbered
    (fun n x => x = encodeDataImmediate (n % kRdmaSlotCount) (chunks.getD n []).length)
    s.consumer.arrivalTail (imms s.consumer.unhandled)
  posted : Numbered (fun n r => Writes s.producer.buffer (chunks.getD n []) n r)
    (s.consumer.arrivalTail + (imms s.consumer.unhandled).length) (writes s.producer.sendQueue)
  lengths : ∀ n, s.consumer.arrivalHead ≤ n → n < s.consumer.arrivalTail →
    s.consumer.arrivalLengths (n % kRdmaSlotCount) = (chunks.getD n []).length
  content : ∀ n, s.consumer.arrivalHead ≤ n →
    n < s.consumer.arrivalTail + (imms s.consumer.unhandled).length →
    slice s.consumer.buffer (slotData (n % kRdmaSlotCount)) (chunks.getD n []).length =
      chunks.getD n []
  empty : s.consumer.arrivalHead = s.consumer.arrivalTail → s.consumer.arrivalOffset = 0
  offset : s.consumer.arrivalHead < s.consumer.arrivalTail →
    s.consumer.arrivalOffset < (chunks.getD s.consumer.arrivalHead []).length

section Facts

variable {chunks : List (List UInt8)} {s : RdmaSystem}

@[simp] theorem endpoint_send : s.endpoint .send = s.producer := rfl

@[simp] theorem endpoint_receive : s.endpoint .receive = s.consumer := rfl

/-- The size of a chunk that has been sent. -/
theorem Ring.size (h : Ring chunks s) {n : Nat} (hn : n < s.producer.sendSeq) :
    0 < (chunks.getD n []).length ∧ (chunks.getD n []).length ≤ kRdmaSlotSize := by
  rw [h.seq] at hn
  rw [List.getD_eq_getElem _ _ hn]
  exact h.sizes _ (List.getElem_mem hn)

/-- The consumer has used up whatever was credited. -/
theorem Ring.creditsReceived_le (h : Ring chunks s) :
    s.producer.creditsReceived ≤ s.consumer.arrivalHead := by
  have := h.credits
  omega

/-- **At most `kRdmaSlotCount` chunks are not used up.** -/
theorem Ring.live (h : Ring chunks s) :
    s.producer.sendSeq ≤ s.consumer.arrivalHead + kRdmaSlotCount := by
  have h1 := h.window
  have h2 := h.creditsReceived_le
  omega

theorem Ring.tail_le (h : Ring chunks s) : s.consumer.arrivalTail ≤ s.producer.sendSeq := by
  have := h.balance
  omega

/-- **Every credit on its way gives back a slot.** -/
theorem Ring.creditImms_length (h : Ring chunks s) : s.creditImms.length ≤ s.credited := by
  have hle := List.length_le_sum_of_one_le (s.creditImms.map creditOf) fun i hi => by
    obtain ⟨x, hx, rfl⟩ := List.mem_map.mp hi
    exact (h.creditBits x hx).2
  rwa [List.length_map] at hle

/-- **A receive is always posted**: at most one window of chunks or credits and one control message have
    used up a receive, or are on their way to one. -/
theorem Ring.recvQueue_length (h : Ring chunks s) (hr : Receives s) (d : TransportDirection) :
    kRdmaRecvPool + (writes (s.endpoint d.peer).sendQueue).length +
        controlSends (s.endpoint d.peer).sendQueue ≤
      (s.endpoint d).recvQueue.length + kRdmaSlotCount + 1 := by
  have htotal := (hr.pool d).total
  have hcontrol := hr.control d
  have h1 := h.live
  have h2 := h.credits
  have h3 := h.order
  have h4 := h.balance
  have h5 := h.window
  cases d with
  | send =>
    have hlen := h.creditImms_length
    rw [creditImms, List.length_append, List.length_map] at hlen
    simp only [TransportDirection.peer, endpoint_send, endpoint_receive] at htotal hcontrol ⊢
    omega
  | receive =>
    simp only [TransportDirection.peer, endpoint_send, endpoint_receive] at htotal hcontrol ⊢
    omega

end Facts

/-! ## 2. What leaves the ring alone -/

section Neutral

variable {chunks : List (List UInt8)} {s : RdmaSystem} {d : TransportDirection} {t : TransportRDMA}

/-- A change of an endpoint that the ring does not see. -/
structure Neutral (t t' : TransportRDMA) : Prop where
  sendSeq : t'.sendSeq = t.sendSeq
  creditsReceived : t'.creditsReceived = t.creditsReceived
  arrivalHead : t'.arrivalHead = t.arrivalHead
  arrivalTail : t'.arrivalTail = t.arrivalTail
  arrivalOffset : t'.arrivalOffset = t.arrivalOffset
  pendingCredit : t'.pendingCredit = t.pendingCredit
  arrivalLengths : t'.arrivalLengths = t.arrivalLengths
  imms : imms t'.unhandled = imms t.unhandled
  writes : writes t'.sendQueue = writes t.sendQueue
  buffer : ∀ slot, SameSlot t.buffer t'.buffer slot

/-- **A change the ring does not see** keeps it. -/
theorem Ring.neutral (h : Ring chunks s) (hn : Neutral (s.endpoint d) t) :
    Ring chunks (s.withEndpoint d t) := by
  cases d with
  | send =>
    have hcredit : (s.withEndpoint .send t).creditImms = s.creditImms := by
      show OriginCCL.imms t.unhandled ++ _ = _
      rw [hn.imms]
      rfl
    refine ⟨?_, h.sizes, h.order, ?_, ?_, ?_, ?_, h.creditWrites, h.announced, ?_, h.lengths,
      h.content, h.empty, h.offset⟩
    · exact hn.sendSeq.trans h.seq
    · show t.sendSeq = _ + (OriginCCL.writes t.sendQueue).length
      rw [hn.sendSeq, hn.writes]
      exact h.balance
    · show t.sendSeq ≤ t.creditsReceived + _
      rw [hn.sendSeq, hn.creditsReceived]
      exact h.window
    · rw [credited, hcredit]
      show _ = t.creditsReceived + _ + _
      rw [hn.creditsReceived]
      exact h.credits
    · rw [hcredit]
      exact h.creditBits
    · show Numbered _ _ (OriginCCL.writes t.sendQueue)
      rw [hn.writes]
      have hb := h.balance
      exact h.posted.imp fun n r _ h2 hw => hw.frame (h.size (by omega)).2 (hn.buffer _)
  | receive =>
    have himms : OriginCCL.imms t.unhandled = OriginCCL.imms s.consumer.unhandled := hn.imms
    have htail : t.arrivalTail = s.consumer.arrivalTail := hn.arrivalTail
    have hhead : t.arrivalHead = s.consumer.arrivalHead := hn.arrivalHead
    have hoffset : t.arrivalOffset = s.consumer.arrivalOffset := hn.arrivalOffset
    have hwrites : OriginCCL.writes t.sendQueue = OriginCCL.writes s.consumer.sendQueue := hn.writes
    have hcredit : (s.withEndpoint .receive t).creditImms = s.creditImms := by
      show _ ++ (OriginCCL.writes t.sendQueue).map _ = _
      rw [hwrites]
      rfl
    refine ⟨h.seq, h.sizes, ?_, ?_, h.window, ?_, ?_, ?_, ?_, ?_, ?_, ?_, ?_, ?_⟩
    · show t.arrivalHead ≤ t.arrivalTail
      rw [hhead, htail]
      exact h.order
    · show _ = t.arrivalTail + (OriginCCL.imms t.unhandled).length + _
      rw [htail, himms]
      exact h.balance
    · rw [credited, hcredit]
      show t.arrivalHead = _ + t.pendingCredit
      rw [hhead, hn.pendingCredit]
      exact h.credits
    · rw [hcredit]
      exact h.creditBits
    · show ∀ r ∈ OriginCCL.writes t.sendQueue, _
      rw [hwrites]
      exact h.creditWrites
    · show Numbered _ t.arrivalTail (OriginCCL.imms t.unhandled)
      rw [htail, himms]
      exact h.announced
    · show Numbered _ (t.arrivalTail + (OriginCCL.imms t.unhandled).length) _
      rw [htail, himms]
      exact h.posted
    · intro n h1 h2
      have h1 : t.arrivalHead ≤ n := h1
      have h2 : n < t.arrivalTail := h2
      show t.arrivalLengths _ = _
      rw [hn.arrivalLengths]
      exact h.lengths n (by omega) (by omega)
    · intro n h1 h2
      have h1 : t.arrivalHead ≤ n := h1
      have h2 : n < t.arrivalTail + (OriginCCL.imms t.unhandled).length := h2
      rw [htail, himms] at h2
      have hb := h.balance
      have hsame := (hn.buffer (n % kRdmaSlotCount)).slice 0
        (n := (chunks.getD n []).length) (by have := (h.size (n := n) (by omega)).2; omega)
      rw [Nat.add_zero] at hsame
      exact hsame.trans (h.content n (by omega) h2)
    · show t.arrivalHead = t.arrivalTail → t.arrivalOffset = 0
      rw [hhead, htail, hoffset]
      exact h.empty
    · show t.arrivalHead < t.arrivalTail → t.arrivalOffset < (chunks.getD t.arrivalHead []).length
      rw [hhead, htail, hoffset]
      exact h.offset

/-- **A change of one endpoint** that brings no control message keeps the receives. -/
theorem Receives.update (h : Receives s) (hp : Pool t)
    (hc : controls t.unhandled ≤ controls (s.endpoint d).unhandled)
    (hs : controlSends t.sendQueue ≤ controlSends (s.endpoint d).sendQueue)
    (hok : ∀ r ∈ t.sendQueue, ControlOk r) : Receives (s.withEndpoint d t) := by
  have hsend := h.control .send
  have hreceive := h.control .receive
  cases d with
  | send =>
    refine ⟨fun d' => ?_, fun d' => ?_, fun d' => ?_⟩
    · cases d' with
      | send => exact hp
      | receive => exact h.pool .receive
    · cases d' with
      | send => exact Nat.le_trans (Nat.add_le_add_right hc _) hsend
      | receive => exact Nat.le_trans (Nat.add_le_add_left hs _) hreceive
    · cases d' with
      | send => exact hok
      | receive => exact h.controlOk .receive
  | receive =>
    refine ⟨fun d' => ?_, fun d' => ?_, fun d' => ?_⟩
    · cases d' with
      | send => exact h.pool .send
      | receive => exact hp
    · cases d' with
      | send => exact Nat.le_trans (Nat.add_le_add_left hs _) hsend
      | receive => exact Nat.le_trans (Nat.add_le_add_right hc _) hreceive
    · cases d' with
      | send => exact h.controlOk .send
      | receive => exact hok

end Neutral

/-! ## 3. Completions are handled -/

section Handle

variable {chunks : List (List UInt8)} {s : RdmaSystem} {t t' : TransportRDMA} {w : Completion}
  {ws batch : List Completion}

/-- Completions that move, and own ones that come or go. -/
theorem Pool.requeue (h : Pool t) (hq : t'.recvQueue = t.recvQueue)
    (himms : imms t'.unhandled = imms t.unhandled)
    (hcontrols : controls t'.unhandled = controls t.unhandled) (hsound : ∀ w ∈ t'.unhandled, Sound w)
    (hacks : ∀ w ∈ t'.acks, w.status = .success ∧ w.queuePair = .ring ∧ Own w) : Pool t' := by
  refine ⟨?_, ?_, hsound, hacks⟩
  · rw [hq, himms, hcontrols]
    exact h.total
  · rw [hq]
    exact h.ids

/-- **A receive that was used up is posted again.** -/
theorem Pool.repost (h : Pool t) (hw : t.unhandled = w :: ws) (ho : ¬ Own w)
    (hq : t'.recvQueue = t.recvQueue ++ [w.wrId]) (hws : t'.unhandled = ws) (hacks : t'.acks = t.acks) :
    Pool t' := by
  have htotal := h.total
  have hsound := h.sound
  rw [hw] at htotal hsound
  have hid := (hsound w List.mem_cons_self).2 ho
  have hcount : (imms (w :: ws)).length + controls (w :: ws) = (imms ws).length + controls ws + 1 := by
    cases hop : w.opcode with
    | recv =>
      rw [imms_cons_of_ne (by rw [hop]; decide), controls_cons_of_eq hop]
      omega
    | recvRdmaWithImm =>
      rw [imms_cons_of_eq hop, controls_cons_of_ne (by rw [hop]; decide), List.length_cons]
      omega
    | send => exact absurd ⟨by rw [hop]; decide, by rw [hop]; decide⟩ ho
    | rdmaWrite => exact absurd ⟨by rw [hop]; decide, by rw [hop]; decide⟩ ho
    | other => exact absurd ⟨by rw [hop]; decide, by rw [hop]; decide⟩ ho
  refine ⟨?_, ?_, ?_, ?_⟩
  · rw [hq, hws, List.length_append, List.length_singleton]
    omega
  · rw [hq]
    intro i hi
    rcases List.mem_append.mp hi with hi | hi
    · exact h.ids i hi
    · rw [List.mem_singleton.mp hi]
      exact hid
  · rw [hws]
    exact fun x hx => hsound x (List.mem_cons_of_mem _ hx)
  · rw [hacks]
    exact h.acks

/-- **A credit is handled**: the slots it gives back count as received. -/
theorem Ring.handleCredit (h : Ring chunks s) (hb : s.producer.batch = w :: batch)
    (hr : w.queuePair = .ring) (ho : w.opcode = .recvRdmaWithImm) :
    Ring chunks (s.withEndpoint .send { s.producer with
      batch := batch, creditsReceived := s.producer.creditsReceived + creditOf w.immediate,
      recvQueue := s.producer.recvQueue ++ [w.wrId] }) := by
  have himms : s.creditImms = w.immediate ::
      (imms (TransportRDMA.unhandled { s.producer with batch := batch }) ++
        (writes s.consumer.sendQueue).map (·.immediate)) := by
    rw [creditImms, TransportRDMA.unhandled_cons hb hr, imms_cons_of_eq ho, List.cons_append]
  have hcredits := h.credits
  have hbits := h.creditBits
  have hwindow := h.window
  rw [credited, himms, List.map_cons, List.sum_cons] at hcredits
  rw [himms] at hbits
  refine ⟨h.seq, h.sizes, h.order, h.balance, ?_, ?_, ?_, h.creditWrites, h.announced, h.posted,
    h.lengths, h.content, h.empty, h.offset⟩
  · show s.producer.sendSeq ≤ s.producer.creditsReceived + creditOf w.immediate + _
    omega
  · show s.consumer.arrivalHead = s.producer.creditsReceived + creditOf w.immediate +
      ((imms (TransportRDMA.unhandled { s.producer with batch := batch }) ++
        (writes s.consumer.sendQueue).map (·.immediate)).map creditOf).sum + s.consumer.pendingCredit
    omega
  · exact fun x hx => hbits x (List.mem_cons_of_mem _ hx)

/-- **An announcement is handled**: the next chunk in order has arrived. -/
theorem Ring.handleData (h : Ring chunks s) (hb : s.consumer.batch = w :: batch)
    (hr : w.queuePair = .ring) (ho : w.opcode = .recvRdmaWithImm) :
    (w.immediate &&& kCreditImmediate = 0 ∧
      immediateSlot w.immediate = s.consumer.arrivalTail % kRdmaSlotCount) ∧
    Ring chunks (s.withEndpoint .receive { s.consumer with
      batch := batch
      arrivalLengths := Function.update s.consumer.arrivalLengths
        (s.consumer.arrivalTail % kRdmaSlotCount) (immediateLength w.immediate)
      arrivalTail := s.consumer.arrivalTail + 1, recvQueue := s.consumer.recvQueue ++ [w.wrId] }) := by
  have himms : imms s.consumer.unhandled =
      w.immediate :: imms (TransportRDMA.unhandled { s.consumer with batch := batch }) := by
    rw [TransportRDMA.unhandled_cons hb hr, imms_cons_of_eq ho]
  have hbalance := h.balance
  have hannounced := h.announced
  have hposted := h.posted
  have hcontent := h.content
  have hlive := h.live
  rw [himms, List.length_cons] at hbalance hposted hcontent
  rw [himms] at hannounced
  obtain ⟨hw, hannounced⟩ := hannounced
  have hsize := h.size (n := s.consumer.arrivalTail) (by omega)
  have hslot : s.consumer.arrivalTail % kRdmaSlotCount < kRdmaSlotCount := Nat.mod_lt _ (by decide)
  generalize hrest : imms (TransportRDMA.unhandled { s.consumer with batch := batch }) = rest
    at hbalance hposted hcontent hannounced
  have hcount : s.consumer.arrivalTail + 1 + rest.length =
      s.consumer.arrivalTail + (rest.length + 1) := by omega
  have horder := h.order
  refine ⟨⟨?_, ?_⟩, h.seq, h.sizes, ?_, ?_, h.window, h.credits, h.creditBits, h.creditWrites,
    ?_, ?_, ?_, ?_, ?_, ?_⟩
  · rw [hw]
    exact encodeDataImmediate_and hslot hsize.1 hsize.2
  · rw [hw]
    exact immediateSlot_encode hslot hsize.1 hsize.2
  · exact Nat.le_succ_of_le h.order
  · show s.producer.sendSeq = s.consumer.arrivalTail + 1 +
      (imms (TransportRDMA.unhandled { s.consumer with batch := batch })).length +
      (writes s.producer.sendQueue).length
    rw [hrest]
    omega
  · show Numbered _ _ (imms (TransportRDMA.unhandled { s.consumer with batch := batch }))
    rw [hrest]
    exact hannounced
  · show Numbered _ (s.consumer.arrivalTail + 1 +
      (imms (TransportRDMA.unhandled { s.consumer with batch := batch })).length) _
    rw [hrest, hcount]
    exact hposted
  · intro n h1 h2
    have h1 : s.consumer.arrivalHead ≤ n := h1
    have h2 : n < s.consumer.arrivalTail + 1 := h2
    show Function.update _ _ _ _ = _
    by_cases hn : n = s.consumer.arrivalTail
    · rw [hn, Function.update_self, hw]
      exact immediateLength_encode hslot hsize.1 hsize.2
    · rw [Function.update_of_ne (mod_ne_of_lt (by omega) (by omega))]
      exact h.lengths n h1 (by omega)
  · intro n h1 h2
    have h2 : n < s.consumer.arrivalTail + 1 +
      (imms (TransportRDMA.unhandled { s.consumer with batch := batch })).length := h2
    rw [hrest] at h2
    exact hcontent n h1 (by omega)
  · intro he
    have he : s.consumer.arrivalHead = s.consumer.arrivalTail + 1 := he
    omega
  · intro _
    show s.consumer.arrivalOffset < (chunks.getD s.consumer.arrivalHead []).length
    rcases Nat.eq_or_lt_of_le horder with he | hlt
    · rw [h.empty he, he]
      exact hsize.1
    · exact h.offset hlt

end Handle

/-! ## 4. The adapter delivers a request -/

section Deliver

variable {chunks : List (List UInt8)} {s : RdmaSystem} {t : TransportRDMA} {r : SendRequest}
  {rest : List SendRequest} {bytes : List UInt8} {index : Nat} {pool : List Nat}

theorem length_payload {b : Nat → UInt8} (hi : r.inlined = none) : (r.payload b).length = r.length := by
  rw [SendRequest.payload, hi]
  exact length_slice

/-- The completion of a write that has arrived. -/
def writeArrival (r : SendRequest) (index : Nat) : Completion :=
  { opcode := .recvRdmaWithImm, wrId := index, byteLen := r.length, immediate := r.immediate }

theorem imms_arrive_send (t : TransportRDMA) (bytes : List UInt8) (index : Nat) (pool : List Nat)
    (ho : r.opcode = .send) :
    imms (t.arrive r bytes index pool).unhandled = imms t.unhandled := by
  have hpush := TransportRDMA.unhandled_push (t := t)
    (w := { opcode := .recv, wrId := index, byteLen := r.length }) rfl
  rw [TransportRDMA.arrive, ho]
  refine (congrArg imms hpush).trans ?_
  rw [imms_append, imms_cons_of_ne (by simp), imms_nil, List.append_nil]

theorem imms_arrive_write (t : TransportRDMA) (bytes : List UInt8) (index : Nat) (pool : List Nat)
    (ho : r.opcode = .rdmaWriteWithImm) :
    imms (t.arrive r bytes index pool).unhandled = imms t.unhandled ++ [r.immediate] := by
  have hpush := TransportRDMA.unhandled_push (t := t) (w := writeArrival r index) rfl
  rw [TransportRDMA.arrive, ho]
  refine (congrArg imms hpush).trans ?_
  rw [imms_append, imms_cons_of_eq rfl, imms_nil]
  rfl

theorem controls_arrive (t : TransportRDMA) (r : SendRequest) (bytes : List UInt8) (index : Nat)
    (pool : List Nat) : controls (t.arrive r bytes index pool).unhandled =
      controls t.unhandled + controlSends [r] := by
  unfold TransportRDMA.arrive
  cases ho : r.opcode with
  | send =>
    have hpush := TransportRDMA.unhandled_push (t := t)
      (w := { opcode := .recv, wrId := index, byteLen := r.length }) rfl
    refine (congrArg controls hpush).trans ?_
    rw [controls_append, controls_cons_of_eq rfl, controlSends_cons_of_eq ho]
    rfl
  | rdmaWriteWithImm =>
    have hpush := TransportRDMA.unhandled_push (t := t) (w := writeArrival r index) rfl
    refine (congrArg controls hpush).trans ?_
    rw [controls_append, controls_cons_of_ne (by simp [writeArrival]),
      controlSends_cons_of_ne (by rw [ho]; decide)]
    rfl

/-- **A delivery uses up the oldest receive.** -/
theorem Pool.arrive (h : Pool t) (hq : t.recvQueue = index :: pool) :
    Pool (t.arrive r bytes index pool) := by
  have htotal := h.total
  have hids := h.ids
  rw [hq] at htotal hids
  rw [List.length_cons] at htotal
  have hcontrols := controls_arrive t r bytes index pool
  have hindex := hids index List.mem_cons_self
  have hpool : (t.arrive r bytes index pool).recvQueue = pool := by
    unfold TransportRDMA.arrive
    cases r.opcode <;> rfl
  have hacks : (t.arrive r bytes index pool).acks = t.acks := by
    unfold TransportRDMA.arrive
    cases r.opcode <;> rfl
  have hmem : ∀ w ∈ (t.arrive r bytes index pool).unhandled,
      w ∈ t.unhandled ∨ w.status = .success ∧ w.wrId = index := by
    intro w hw
    unfold TransportRDMA.arrive at hw
    cases ho : r.opcode with
    | send =>
      rw [ho] at hw
      have hpush := TransportRDMA.unhandled_push (t := t)
        (w := { opcode := .recv, wrId := index, byteLen := r.length }) rfl
      have hw := hpush ▸ hw
      rcases List.mem_append.mp hw with hw | hw
      · exact Or.inl hw
      · rw [List.mem_singleton.mp hw]
        exact Or.inr ⟨rfl, rfl⟩
    | rdmaWriteWithImm =>
      rw [ho] at hw
      have hpush := TransportRDMA.unhandled_push (t := t) (w := writeArrival r index) rfl
      have hw := hpush ▸ hw
      rcases List.mem_append.mp hw with hw | hw
      · exact Or.inl hw
      · rw [List.mem_singleton.mp hw]
        exact Or.inr ⟨rfl, rfl⟩
  refine ⟨?_, ?_, ?_, ?_⟩
  · rw [hpool, hcontrols]
    cases ho : r.opcode with
    | send =>
      rw [imms_arrive_send _ _ _ _ ho, controlSends_cons_of_eq ho, controlSends_nil]
      omega
    | rdmaWriteWithImm =>
      rw [imms_arrive_write _ _ _ _ ho, controlSends_cons_of_ne (by rw [ho]; decide), controlSends_nil,
        List.length_append, List.length_singleton]
      omega
  · rw [hpool]
    exact fun i hi => hids i (List.mem_cons_of_mem _ hi)
  · intro w hw
    rcases hmem w hw with hw | ⟨h1, h2⟩
    · exact h.sound w hw
    · refine ⟨h1, fun _ => ?_⟩
      rw [h2]
      exact hindex
  · rw [hacks]
    exact h.acks

/-- The completion of an own request. -/
theorem Pool.sentOff (h : Pool t) (r : SendRequest) (rest : List SendRequest) :
    Pool (t.sentOff r rest) := by
  refine h.requeue rfl rfl rfl h.sound fun w hw => ?_
  rcases List.mem_append.mp hw with hw | hw
  · exact h.acks w hw
  · split at hw
    · rw [List.mem_singleton.mp hw]
      cases r.opcode with
      | send => exact ⟨rfl, rfl, (fun h => nomatch h), (fun h => nomatch h)⟩
      | rdmaWriteWithImm => exact ⟨rfl, rfl, (fun h => nomatch h), (fun h => nomatch h)⟩
    · cases hw

/-- The state after the delivery of the oldest request of an endpoint. -/
def delivered (s : RdmaSystem) (d : TransportDirection) (r : SendRequest) (rest : List SendRequest)
    (index : Nat) (pool : List Nat) : RdmaSystem :=
  (s.withEndpoint d ((s.endpoint d).sentOff r rest)).withEndpoint d.peer
    ((s.endpoint d.peer).arrive r (r.payload (s.endpoint d).buffer) index pool)

/-- **A delivery keeps the receives of both endpoints.** -/
theorem Receives.deliver (h : Receives s) {d : TransportDirection}
    (hs : (s.endpoint d).sendQueue = r :: rest) (hq : (s.endpoint d.peer).recvQueue = index :: pool) :
    Receives (s.delivered d r rest index pool) := by
  have hpool1 : Pool ((s.endpoint d).sentOff r rest) := (h.pool d).sentOff r rest
  have hpool2 : Pool ((s.endpoint d.peer).arrive r (r.payload (s.endpoint d).buffer) index pool) :=
    (h.pool d.peer).arrive hq
  have harrive := controls_arrive (s.endpoint d.peer) r (r.payload (s.endpoint d).buffer) index pool
  have hsplit : controlSends (s.endpoint d).sendQueue = controlSends [r] + controlSends rest := by
    rw [hs, ← controlSends_append]
    rfl
  have hqueue : ((s.endpoint d.peer).arrive r (r.payload (s.endpoint d).buffer) index pool).sendQueue =
      (s.endpoint d.peer).sendQueue := by
    unfold TransportRDMA.arrive
    cases r.opcode <;> rfl
  have hok := h.controlOk d
  rw [hs] at hok
  have hok' : ∀ x ∈ rest, ControlOk x := fun x hx => hok x (List.mem_cons_of_mem _ hx)
  have hok2 := h.controlOk d.peer
  rw [← hqueue] at hok2
  have hc1 := h.control .send
  have hc2 := h.control .receive
  cases d with
  | send =>
    have e1 : ((s.delivered .send r rest index pool).endpoint .receive).sendQueue =
      s.consumer.sendQueue := hqueue
    have e2 : controls ((s.delivered .send r rest index pool).endpoint .receive).unhandled =
      controls s.consumer.unhandled + controlSends [r] := harrive
    refine ⟨fun d' => ?_, fun d' => ?_, fun d' => ?_⟩
    · cases d' with
      | send => exact hpool1
      | receive => exact hpool2
    · cases d' with
      | send =>
        show controls s.producer.unhandled +
          controlSends ((s.delivered .send r rest index pool).endpoint .receive).sendQueue ≤ 1
        rw [e1]
        exact hc1
      | receive =>
        show controls (TransportRDMA.unhandled _) + controlSends rest ≤ 1
        rw [e2]
        simp only [TransportDirection.peer, endpoint_send, endpoint_receive] at hc2 hsplit
        omega
    · cases d' with
      | send => exact hok'
      | receive => exact hok2
  | receive =>
    have e1 : ((s.delivered .receive r rest index pool).endpoint .send).sendQueue =
      s.producer.sendQueue := hqueue
    have e2 : controls ((s.delivered .receive r rest index pool).endpoint .send).unhandled =
      controls s.producer.unhandled + controlSends [r] := harrive
    refine ⟨fun d' => ?_, fun d' => ?_, fun d' => ?_⟩
    · cases d' with
      | send => exact hpool2
      | receive => exact hpool1
    · cases d' with
      | send =>
        show controls (TransportRDMA.unhandled _) + controlSends rest ≤ 1
        rw [e2]
        simp only [TransportDirection.peer, endpoint_send, endpoint_receive] at hc1 hsplit
        omega
      | receive =>
        show controls s.consumer.unhandled +
          controlSends ((s.delivered .receive r rest index pool).endpoint .send).sendQueue ≤ 1
        rw [e1]
        exact hc2
    · cases d' with
      | send => exact hok2
      | receive => exact hok'

/-- Where the bytes of a request land. -/
def landing (r : SendRequest) (index : Nat) : Nat :=
  match r.opcode with
  | .send => scratchData index
  | .rdmaWriteWithImm => r.remoteAddr

/-- What a delivery changes. -/
theorem arrive_eq (t : TransportRDMA) (r : SendRequest) (bytes : List UInt8) (index : Nat)
    (pool : List Nat) : ∃ cq, t.arrive r bytes index pool = { t with
      recvQueue := pool, cq := cq, buffer := splice t.buffer (landing r index) bytes } := by
  unfold TransportRDMA.arrive landing
  cases r.opcode <;> exact ⟨_, rfl⟩

/-- A control message lands below the ring. -/
theorem Receives.scratch_below (h : Receives s) {d : TransportDirection} {b : Nat → UInt8}
    (hs : (s.endpoint d).sendQueue = r :: rest) (hq : (s.endpoint d.peer).recvQueue = index :: pool)
    (ho : r.opcode = .send) : scratchData index + (r.payload b).length ≤ kRdmaRingOffset := by
  have hok := h.controlOk d r (by rw [hs]; exact List.mem_cons_self) ho
  have hindex := (h.pool d.peer).ids index (by rw [hq]; exact List.mem_cons_self)
  have hlen := hok.1
  rw [length_payload hok.2]
  unfold scratchData kRdmaScratchOffset kRdmaRingOffset
  unfold kRdmaControlSize at hlen ⊢
  unfold kRdmaRecvPool at hindex
  omega

/-- A credit lands below the ring. -/
theorem Ring.credit_below (h : Ring chunks s) {b : Nat → UInt8} (hr : r ∈ writes s.consumer.sendQueue) :
    r.remoteAddr + (r.payload b).length ≤ kRdmaRingOffset := by
  have hw := h.creditWrites r hr
  rw [length_payload hw.2.2, hw.2.1, hw.1]
  decide

/-- **A control message is delivered**: below the ring. -/
theorem Ring.deliverControl (h : Ring chunks s) (hr : Receives s) {d : TransportDirection}
    (hs : (s.endpoint d).sendQueue = r :: rest) (hq : (s.endpoint d.peer).recvQueue = index :: pool)
    (ho : r.opcode = .send) : Ring chunks (s.delivered d r rest index pool) := by
  have hne : r.opcode ≠ .rdmaWriteWithImm := by
    rw [ho]
    decide
  have hbelow := hr.scratch_below (b := (s.endpoint d).buffer) hs hq ho
  have hfirst : Neutral (s.endpoint d) ((s.endpoint d).sentOff r rest) := by
    refine ⟨rfl, rfl, rfl, rfl, rfl, rfl, rfl, rfl, ?_, fun _ => SameSlot.refl⟩
    rw [hs, writes_cons_of_ne hne]
    rfl
  have hsecond : Neutral (s.endpoint d.peer)
      ((s.endpoint d.peer).arrive r (r.payload (s.endpoint d).buffer) index pool) := by
    have himms := imms_arrive_send (s.endpoint d.peer) (r.payload (s.endpoint d).buffer) index pool ho
    unfold TransportRDMA.arrive at himms ⊢
    rw [ho] at himms ⊢
    exact ⟨rfl, rfl, rfl, rfl, rfl, rfl, rfl, himms, rfl, fun _ => sameSlot_splice_below hbelow⟩
  have h1 := h.neutral hfirst
  cases d with
  | send => exact h1.neutral (d := .receive) hsecond
  | receive => exact h1.neutral (d := .send) hsecond

/-- **A credit is delivered**: it counts as on its way as before. -/
theorem Ring.deliverCredit (h : Ring chunks s) (hs : s.consumer.sendQueue = r :: rest)
    (ho : r.opcode = .rdmaWriteWithImm) : Ring chunks (s.delivered .receive r rest index pool) := by
  have hwrites : writes (r :: rest) = r :: writes rest := writes_cons_of_eq ho
  have hbelow := h.credit_below (b := s.consumer.buffer) (r := r)
    (by rw [hs, hwrites]; exact List.mem_cons_self)
  have himms := imms_arrive_write s.producer (r.payload s.consumer.buffer) index pool ho
  obtain ⟨cq, e⟩ := arrive_eq s.producer r (r.payload s.consumer.buffer) index pool
  have hland : landing r index = r.remoteAddr := by rw [landing, ho]
  rw [e, hland] at himms
  have he : s.delivered .receive r rest index pool = { s with
      consumer := s.consumer.sentOff r rest
      producer := { s.producer with
        recvQueue := pool, cq := cq,
        buffer := splice s.producer.buffer r.remoteAddr (r.payload s.consumer.buffer) } } := by
    rw [← hland, ← e]
    rfl
  have hcredit : (s.delivered .receive r rest index pool).creditImms = s.creditImms := by
    rw [he, creditImms, himms, creditImms, hs, hwrites, List.append_assoc]
    rfl
  have hcredits := h.credits
  have hbits := h.creditBits
  rw [credited, ← hcredit, he] at hcredits
  rw [← hcredit, he] at hbits
  rw [he]
  refine ⟨h.seq, h.sizes, h.order, h.balance, h.window, hcredits, hbits, ?_, h.announced, ?_, h.lengths,
    h.content, h.empty, h.offset⟩
  · intro x hx
    have hx : x ∈ writes rest := hx
    exact h.creditWrites x (by rw [hs, hwrites]; exact List.mem_cons_of_mem _ hx)
  · have hb := h.balance
    exact h.posted.imp fun n x _ h2 hw =>
      hw.frame (h.size (by omega)).2 (sameSlot_splice_below hbelow)

/-- **The next chunk in order** is what the producer's oldest write carries. -/
theorem Ring.oldest (h : Ring chunks s) (hs : s.producer.sendQueue = r :: rest)
    (ho : r.opcode = .rdmaWriteWithImm) :
    s.consumer.arrivalTail + (imms s.consumer.unhandled).length < s.producer.sendSeq ∧
    Writes s.producer.buffer
      (chunks.getD (s.consumer.arrivalTail + (imms s.consumer.unhandled).length) [])
      (s.consumer.arrivalTail + (imms s.consumer.unhandled).length) r := by
  have hbalance := h.balance
  have hposted := h.posted
  rw [hs, writes_cons_of_eq ho] at hbalance hposted
  rw [List.length_cons] at hbalance
  exact ⟨by omega, hposted.1⟩

/-- **A chunk is delivered**: to a slot whose last chunk was used up. -/
theorem Ring.deliverData (h : Ring chunks s) (hs : s.producer.sendQueue = r :: rest)
    (ho : r.opcode = .rdmaWriteWithImm) : Ring chunks (s.delivered .send r rest index pool) := by
  have hwrites : writes (r :: rest) = r :: writes rest := writes_cons_of_eq ho
  have hbalance := h.balance
  have hposted := h.posted
  have hlive := h.live
  rw [hs, hwrites, List.length_cons] at hbalance
  rw [hs, hwrites] at hposted
  obtain ⟨hw, hposted⟩ := hposted
  have himms := imms_arrive_write s.consumer (r.payload s.producer.buffer) index pool ho
  obtain ⟨cq, e⟩ := arrive_eq s.consumer r (r.payload s.producer.buffer) index pool
  have hland : landing r index = r.remoteAddr := by rw [landing, ho]
  rw [e, hland] at himms
  have he : s.delivered .send r rest index pool = { s with
      producer := s.producer.sentOff r rest
      consumer := { s.consumer with
        recvQueue := pool, cq := cq,
        buffer := splice s.consumer.buffer r.remoteAddr (r.payload s.producer.buffer) } } := by
    rw [← hland, ← e]
    rfl
  have hlen := congrArg List.length himms
  rw [List.length_append, List.length_singleton] at hlen
  have hsize := h.size (n := s.consumer.arrivalTail + (imms s.consumer.unhandled).length) (by omega)
  rw [he]
  refine ⟨h.seq, h.sizes, h.order, ?_, h.window, h.credits, h.creditBits, h.creditWrites, ?_, ?_,
    h.lengths, ?_, h.empty, h.offset⟩
  · refine hbalance.trans ?_
    rw [hlen]
    show _ = s.consumer.arrivalTail + _ + (writes rest).length
    omega
  · rw [himms]
    exact h.announced.concat hw.immediate
  · rw [hlen]
    exact hposted
  · intro n h1 h2
    rw [hlen] at h2
    have h1 : s.consumer.arrivalHead ≤ n := h1
    have h2 : n < s.consumer.arrivalTail + ((imms s.consumer.unhandled).length + 1) := h2
    show slice (splice s.consumer.buffer r.remoteAddr (r.payload s.producer.buffer)) _ _ = _
    rw [hw.remote, hw.payload]
    by_cases hn : n = s.consumer.arrivalTail + (imms s.consumer.unhandled).length
    · rw [hn]
      exact slice_splice_self
    · -- another chunk that is not used up yet is in another slot
      have hslot : (s.consumer.arrivalTail + (imms s.consumer.unhandled).length) % kRdmaSlotCount ≠
          n % kRdmaSlotCount := (mod_ne_of_lt (by omega) (by omega)).symm
      have hsame := (sameSlot_splice (b := s.consumer.buffer) hslot hsize.2).slice 0
        (n := (chunks.getD n []).length) (by have := (h.size (n := n) (by omega)).2; omega)
      rw [Nat.add_zero] at hsame
      exact hsame.trans (h.content n h1 (by omega))

end Deliver

/-! ## 5. Calls -/

section Calls

variable {chunks : List (List UInt8)} {s : RdmaSystem} {c : RdmaCall}

/-- **What a send call posts** goes to slots that are used up on both sides. -/
theorem Ring.send (h : Ring chunks s) {b source : Nat → UInt8} {start : Nat}
    {news : List (List UInt8)} {rs : List SendRequest}
    (hp : TransportRDMA.Posted s.producer.buffer b source s.producer.sendSeq start news rs)
    (hw : s.producer.sendSeq + news.length ≤ s.producer.creditsReceived + kRdmaSlotCount) :
    Ring (chunks ++ news) (s.withEndpoint .send { s.producer with
      buffer := b, sendQueue := s.producer.sendQueue ++ rs
      sendSeq := s.producer.sendSeq + news.length }) := by
  have hseq := h.seq
  have hbalance := h.balance
  have horder := h.order
  have hcredits := h.creditsReceived_le
  have hrequests := hp.requests chunks h.seq.symm
  have hopcode : ∀ r ∈ rs, r.opcode = .rdmaWriteWithImm := by
    intro r hr
    obtain ⟨k, hk⟩ := hrequests.exists_number hr
    exact hk.opcode
  have hwrites : writes (s.producer.sendQueue ++ rs) = writes s.producer.sendQueue ++ rs := by
    rw [writes_append, writes_eq_self hopcode]
  have hold : ∀ n, n < s.producer.sendSeq → (chunks ++ news).getD n [] = chunks.getD n [] :=
    fun n hn => List.getD_append _ _ _ _ (by omega)
  refine ⟨?_, ?_, h.order, ?_, hw, h.credits, h.creditBits, h.creditWrites, ?_, ?_, ?_, ?_, h.empty, ?_⟩
  · show s.producer.sendSeq + news.length = _
    rw [List.length_append, hseq]
  · intro x hx
    rcases List.mem_append.mp hx with hx | hx
    · exact h.sizes x hx
    · exact hp.sizes x hx
  · show s.producer.sendSeq + news.length = s.consumer.arrivalTail +
      (imms s.consumer.unhandled).length + (writes (s.producer.sendQueue ++ rs)).length
    rw [hwrites, List.length_append, hp.count]
    omega
  · refine h.announced.imp fun n x _ h2 hx => ?_
    rw [hold n (by omega)]
    exact hx
  · show Numbered _ (s.consumer.arrivalTail + (imms s.consumer.unhandled).length)
      (writes (s.producer.sendQueue ++ rs))
    rw [hwrites, numbered_append, ← hbalance]
    refine ⟨h.posted.imp fun n r h1 h2 hr => ?_, hrequests⟩
    rw [hold n (by omega)]
    refine hr.frame (h.size (by omega)).2 (hp.frame _ fun k hk => ?_)
    exact (mod_ne_of_lt (by omega) (by omega)).symm
  · intro n h1 h2
    rw [hold n (by have := h.tail_le; have h2 : n < s.consumer.arrivalTail := h2; omega)]
    exact h.lengths n h1 h2
  · intro n h1 h2
    have h2 : n < s.consumer.arrivalTail + (imms s.consumer.unhandled).length := h2
    rw [hold n (by omega)]
    exact h.content n h1 h2
  · intro hlt
    have hlt : s.consumer.arrivalHead < s.consumer.arrivalTail := hlt
    show s.consumer.arrivalOffset < ((chunks ++ news).getD s.consumer.arrivalHead []).length
    rw [hold _ (by omega)]
    exact h.offset hlt

/-- **An iteration of a receive call** takes the next bytes of the oldest chunk. -/
theorem Ring.consume (h : Ring chunks s) (hne : s.consumer.arrivalHead ≠ s.consumer.arrivalTail)
    (hp : c.progress < c.size) :
    ∃ m t, 0 < m ∧
      s.consumer.arrivalOffset + m ≤ (chunks.getD s.consumer.arrivalHead []).length ∧
      c.progress + m ≤ c.size ∧
      s.consumer.consume c = (t, { c with
        data := splice c.data c.progress
          (((chunks.getD s.consumer.arrivalHead []).drop s.consumer.arrivalOffset).take m)
        progress := c.progress + m }) ∧
      t = (if s.consumer.arrivalOffset + m = (chunks.getD s.consumer.arrivalHead []).length then
          { s.consumer with arrivalOffset := 0, arrivalHead := s.consumer.arrivalHead + 1,
                            pendingCredit := s.consumer.pendingCredit + 1 }
        else { s.consumer with arrivalOffset := s.consumer.arrivalOffset + m }) ∧
      Ring chunks (s.withEndpoint .receive t) := by
  have horder := h.order
  have htail := h.tail_le
  obtain ⟨m, hm, hoff, hsize, hconsume⟩ := TransportRDMA.consume_spec
    (h.lengths s.consumer.arrivalHead (Nat.le_refl _) (by omega))
    (h.content s.consumer.arrivalHead (Nat.le_refl _) (by omega)) (h.offset (by omega)) hp
  refine ⟨m, _, hm, hoff, hsize, hconsume, rfl, ?_⟩
  split
  · rename_i hend
    have hcredits := h.credits
    refine ⟨h.seq, h.sizes, ?_, h.balance, h.window, ?_, h.creditBits, h.creditWrites, h.announced,
      h.posted, ?_, ?_, fun _ => rfl, ?_⟩
    · show s.consumer.arrivalHead + 1 ≤ s.consumer.arrivalTail
      omega
    · show s.consumer.arrivalHead + 1 =
        s.producer.creditsReceived + s.credited + (s.consumer.pendingCredit + 1)
      omega
    · intro n h1 h2
      have h1 : s.consumer.arrivalHead + 1 ≤ n := h1
      exact h.lengths n (by omega) h2
    · intro n h1 h2
      have h1 : s.consumer.arrivalHead + 1 ≤ n := h1
      exact h.content n (by omega) h2
    · intro hlt
      have hlt : s.consumer.arrivalHead + 1 < s.consumer.arrivalTail := hlt
      show 0 < (chunks.getD (s.consumer.arrivalHead + 1) []).length
      exact (h.size (by omega)).1
  · rename_i hend
    refine ⟨h.seq, h.sizes, h.order, h.balance, h.window, h.credits, h.creditBits, h.creditWrites,
      h.announced, h.posted, h.lengths, h.content, ?_, ?_⟩
    · intro he
      exact absurd he hne
    · intro _
      show s.consumer.arrivalOffset + m < (chunks.getD s.consumer.arrivalHead []).length
      omega

/-- **The used slots go back** in one credit. -/
theorem Ring.returnCredit (h : Ring chunks s) (hpos : 0 < s.consumer.pendingCredit) :
    Ring chunks (s.withEndpoint .receive
      { s.consumer.postCredit s.consumer.pendingCredit with pendingCredit := 0 }) := by
  have hcredits := h.credits
  have hlive := h.live
  have hwindow := h.window
  have htail := h.tail_le
  have horder := h.order
  have hslots : kRdmaSlotCount = 32 := rfl
  have hsmall : s.consumer.pendingCredit < 2 ^ 31 := by omega
  have hcredit : creditImms (s.withEndpoint .receive
      { s.consumer.postCredit s.consumer.pendingCredit with pendingCredit := 0 }) =
      s.creditImms ++ [kCreditImmediate ||| UInt32.ofNat s.consumer.pendingCredit] := by
    show imms s.producer.unhandled ++ (writes (s.consumer.sendQueue ++ [_])).map _ = _
    rw [writes_append, List.map_append, ← List.append_assoc]
    rfl
  refine ⟨h.seq, h.sizes, h.order, h.balance, h.window, ?_, ?_, ?_, h.announced, h.posted, h.lengths,
    h.content, h.empty, h.offset⟩
  · rw [credited, hcredit, List.map_append, List.sum_append, List.map_singleton, List.sum_singleton,
      creditOf_credit hsmall]
    show s.consumer.arrivalHead = s.producer.creditsReceived + (s.credited + _) + 0
    omega
  · rw [hcredit]
    intro x hx
    rcases List.mem_append.mp hx with hx | hx
    · exact h.creditBits x hx
    · rw [List.mem_singleton.mp hx, creditOf_credit hsmall]
      exact ⟨credit_and hsmall, hpos⟩
  · intro r hr
    have hr : r ∈ writes (s.consumer.sendQueue ++ [_]) := hr
    rw [writes_append] at hr
    rcases List.mem_append.mp hr with hr | hr
    · exact h.creditWrites r hr
    · have hr := (List.mem_filter.mp hr).1
      rw [List.mem_singleton.mp hr]
      exact ⟨rfl, rfl, rfl⟩

end Calls

end OriginCCL.RdmaSystem
