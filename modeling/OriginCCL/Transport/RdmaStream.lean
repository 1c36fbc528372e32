/-
  File:      OriginCCL/Transport/RdmaStream.lean
  Subject:   AN RDMA CONNECTION IS A FAITHFUL BYTE STREAM, and loses no credit.

  * `Inv chunks s` -- the ring, the receives, and the calls of both endpoints.
  * `Kept s s'` -- what a step leaves alone: the slots of the chunks that are not used up.
  * `step_inv` -- **every step keeps the invariant, and those slots**.
  * `rdma_stream`, `rdma_conserved` -- what holds in every state reached.
-/
import OriginCCL.Transport.RdmaRing

namespace OriginCCL.RdmaSystem

open Base

/-! ## 1. The invariant -/

/-- `*progress` of a call, and its bytes as the last ones of its endpoint. -/
structure Progress (bytes : List UInt8) (c : RdmaCall) : Prop where
  start_le : c.start ≤ c.progress
  le_size : c.progress ≤ c.size
  suffix : slice c.data c.start (c.progress - c.start) <:+ bytes

/-- **The call of an endpoint**, and the last one that has returned. -/
structure CallsOk (bytes : List UInt8) (t : TransportRDMA) : Prop where
  call : ∀ c, t.call = some c → Progress bytes c
  last : ∀ x, t.last = some x → ∃ c b, x = .ok (c, b) ∧ c.start ≤ c.progress ∧
    c.progress ≤ c.size ∧ (b = true ↔ c.progress = c.size) ∧ (t.call = none → Progress bytes c)

/-- The bytes of the chunks before `head`, and `offset` bytes of that one. -/
def taken (chunks : List (List UInt8)) (head offset : Nat) : List UInt8 :=
  (chunks.take head).flatten ++ (chunks.getD head []).take offset

/-- **The invariant.** -/
structure Inv (chunks : List (List UInt8)) (s : RdmaSystem) : Prop where
  ring : Ring chunks s
  receives : Receives s
  sent : s.sent = chunks.flatten
  received : s.received = taken chunks s.consumer.arrivalHead s.consumer.arrivalOffset
  calls : ∀ d, CallsOk (s.bytes d) (s.endpoint d)
  idle : s.consumer.polling → s.consumer.arrivalHead = s.consumer.arrivalTail →
    s.consumer.pendingCredit = 0

/-- **What a step leaves alone**: on both sides the slots of the chunks that are not used up, and the
    lengths of those that have arrived. -/
structure Kept (s s' : RdmaSystem) : Prop where
  localSlot : ∀ n, s.consumer.arrivalHead ≤ n → n < s.producer.sendSeq →
    SameSlot s.producer.buffer s'.producer.buffer (n % kRdmaSlotCount)
  remoteSlot : ∀ n, s.consumer.arrivalHead ≤ n →
    n < s.consumer.arrivalTail + (imms s.consumer.unhandled).length →
    SameSlot s.consumer.buffer s'.consumer.buffer (n % kRdmaSlotCount)
  entry : ∀ n, s.consumer.arrivalHead ≤ n → n < s.consumer.arrivalTail →
    s'.consumer.arrivalLengths (n % kRdmaSlotCount) =
      s.consumer.arrivalLengths (n % kRdmaSlotCount)

section Start

variable (inlineCapacity : TransportDirection → Nat) (connector : TransportDirection)
  {message : List UInt8}

theorem pool_connected (capacity : Nat) : Pool { inlineCapacity := capacity } :=
  ⟨by simp [TransportRDMA.unhandled, TransportRDMA.waiting], fun i hi => List.mem_range.mp hi,
    (fun _ h => nomatch h), (fun _ h => nomatch h)⟩

/-- The control message of the connecting endpoint. -/
theorem receives_connected (hm : message.length ≤ kRdmaControlSize) :
    Receives (connected inlineCapacity connector message) := by
  have hok : ∀ t : TransportRDMA, t.sendQueue = [] →
      ∀ r ∈ (t.postControlSend message.length).sendQueue, ControlOk r := by
    intro t ht r hr
    rw [TransportRDMA.postControlSend, ht] at hr
    rw [List.mem_singleton.mp hr]
    exact fun _ => ⟨hm, rfl⟩
  have hpool : ∀ capacity (b : Nat → UInt8) q, Pool
      { ({ inlineCapacity := capacity } : TransportRDMA) with buffer := b, sendQueue := q } :=
    fun capacity _ _ => ⟨(pool_connected capacity).total, (pool_connected capacity).ids,
      (pool_connected capacity).sound, (pool_connected capacity).acks⟩
  cases connector with
  | send =>
    refine ⟨fun d => ?_, fun d => ?_, fun d => ?_⟩
    · cases d with
      | send => exact hpool _ _ _
      | receive => exact pool_connected _
    · cases d with
      | send => exact Nat.zero_le 1
      | receive => exact Nat.le_refl 1
    · cases d with
      | send => exact hok _ rfl
      | receive => exact fun _ h => nomatch h
  | receive =>
    refine ⟨fun d => ?_, fun d => ?_, fun d => ?_⟩
    · cases d with
      | send => exact pool_connected _
      | receive => exact hpool _ _ _
    · cases d with
      | send => exact Nat.le_refl 1
      | receive => exact Nat.zero_le 1
    · cases d with
      | send => exact fun _ h => nomatch h
      | receive => exact hok _ rfl

theorem ring_connected : Ring [] (connected inlineCapacity connector message) := by
  have h : ∀ (n n' : Nat) (b b' : Nat → UInt8) (q q' : List SendRequest), writes q = [] →
      writes q' = [] → Ring [] { producer := { inlineCapacity := n, buffer := b, sendQueue := q }
                                 consumer := { inlineCapacity := n', buffer := b', sendQueue := q' } } := by
    intro n n' b b' q q' hq hq'
    have hcredit : creditImms { producer := { inlineCapacity := n, buffer := b, sendQueue := q }
                                consumer := { inlineCapacity := n', buffer := b', sendQueue := q' } } =
        [] := by
      show [] ++ (writes q').map _ = []
      rw [hq']
      rfl
    refine ⟨rfl, (fun _ h => absurd h List.not_mem_nil), Nat.le_refl 0, ?_, Nat.zero_le _, ?_, ?_, ?_,
      trivial, ?_,
      (fun _ _ h => absurd h (Nat.not_lt_zero _)), (fun _ _ h => absurd h (Nat.not_lt_zero _)),
      fun _ => rfl, fun h => absurd h (Nat.lt_irrefl 0)⟩
    · show 0 = 0 + 0 + (writes q).length
      rw [hq]
      rfl
    · rw [credited, hcredit]
      rfl
    · rw [hcredit]
      exact fun _ h => absurd h List.not_mem_nil
    · show ∀ r ∈ writes q', _
      rw [hq']
      exact fun _ h => absurd h List.not_mem_nil
    · show Numbered _ _ (writes q)
      rw [hq]
      trivial
  cases connector with
  | send => exact h _ _ _ _ _ _ rfl rfl
  | receive => exact h _ _ _ _ _ _ rfl rfl

theorem inv_connected (hm : message.length ≤ kRdmaControlSize) :
    Inv [] (connected inlineCapacity connector message) := by
  refine ⟨ring_connected inlineCapacity connector, receives_connected inlineCapacity connector hm,
    ?_, ?_, fun d => ⟨fun c hc => ?_, fun x hx => ?_⟩, fun _ _ => ?_⟩
  · cases connector <;> rfl
  · cases connector <;> rfl
  · cases connector <;> cases d <;> cases hc
  · cases connector <;> cases d <;> cases hx
  · cases connector <;> rfl

end Start

/-! ## 2. Bytes taken -/

section Taken

variable {chunks news : List (List UInt8)} {head offset m : Nat}

/-- Later chunks have not been touched. -/
theorem taken_append (hle : head ≤ chunks.length) (hoff : head = chunks.length → offset = 0) :
    taken (chunks ++ news) head offset = taken chunks head offset := by
  rw [taken, taken, List.take_append_of_le_length hle]
  rcases Nat.eq_or_lt_of_le hle with he | hlt
  · rw [hoff he, List.take_zero, List.take_zero]
  · rw [List.getD_append _ _ _ _ hlt]

/-- More bytes of the same chunk. -/
theorem taken_more :
    taken chunks head offset ++ ((chunks.getD head []).drop offset).take m =
      taken chunks head (offset + m) := by
  rw [taken, taken, List.append_assoc, List.take_add]

/-- A chunk that is used up. -/
theorem taken_next (hlt : head < chunks.length) :
    taken chunks head (chunks.getD head []).length = taken chunks (head + 1) 0 := by
  rw [taken, taken, List.take_length, List.take_zero, List.append_nil, List.take_add_one,
    List.flatten_append, List.getD_eq_getElem _ _ hlt, List.getElem?_eq_getElem hlt,
    Option.toList_some, List.flatten_singleton]

/-- What was taken is a prefix of the stream. -/
theorem taken_isPrefix (hle : head ≤ chunks.length) (hoff : head = chunks.length → offset = 0) :
    taken chunks head offset <+: chunks.flatten := by
  rcases Nat.eq_or_lt_of_le hle with he | hlt
  · have hall : taken chunks head offset = chunks.flatten := by
      rw [taken, hoff he, List.take_zero, List.append_nil, he, List.take_length]
    exact hall ▸ List.prefix_refl _
  · have hsplit : chunks = chunks.take head ++ (chunks.getD head [] :: chunks.drop (head + 1)) := by
      rw [List.getD_eq_getElem _ _ hlt, ← List.drop_eq_getElem_cons hlt, List.take_append_drop]
    have hflat := congrArg List.flatten hsplit
    rw [List.flatten_append, List.flatten_cons] at hflat
    rw [hflat]
    exact (List.prefix_append_right_inj _).mpr
      ((List.take_prefix ..).trans (List.prefix_append ..))

/-- **What is received was sent before.** -/
theorem Inv.received_isPrefix {s : RdmaSystem} (h : Inv chunks s) : s.received <+: s.sent := by
  have horder := h.ring.order
  have htail := h.ring.tail_le
  have hseq := h.ring.seq
  rw [h.received, h.sent]
  exact taken_isPrefix (by omega) fun he => h.ring.empty (by omega)

end Taken

/-! ## 3. What leaves the calls alone, or goes on with one -/

section Calls

variable {chunks : List (List UInt8)} {s : RdmaSystem} {d : TransportDirection} {t : TransportRDMA}
  {c : RdmaCall} {bytes : List UInt8}

/-- A call that has moved `n` more bytes. -/
theorem Progress.advance (h : Progress bytes c) (data : Nat → UInt8) (n : Nat)
    (hdata : ∀ j < c.progress, data j = c.data j) (hle : c.progress + n ≤ c.size) :
    Progress (bytes ++ slice data c.progress n)
      { c with data := data, progress := c.progress + n } := by
  have h1 := h.start_le
  refine ⟨Nat.le_trans h1 (Nat.le_add_right ..), hle, ?_⟩
  obtain ⟨pre, hpre⟩ := h.suffix
  refine ⟨pre, ?_⟩
  have hold : slice data c.start (c.progress - c.start) = slice c.data c.start (c.progress - c.start) :=
    slice_congr fun j hj => hdata _ (by omega)
  have hsplit : slice data c.start (c.progress + n - c.start) =
      slice data c.start (c.progress - c.start) ++ slice data c.progress n := by
    have e1 : c.progress + n - c.start = (c.progress - c.start) + n := by omega
    have e2 : c.progress = c.start + (c.progress - c.start) := by omega
    rw [e1, ← slice_append, ← e2]
  show pre ++ slice data c.start (c.progress + n - c.start) = _
  rw [hsplit, hold, ← List.append_assoc, hpre]

/-- An endpoint whose call and whose last result are the same. -/
theorem CallsOk.congr (h : CallsOk bytes t) {t' : TransportRDMA} (hcall : t'.call = t.call)
    (hlast : t'.last = t.last) : CallsOk bytes t' := by
  refine ⟨fun c hc => h.call c (hcall ▸ hc), fun x hx => ?_⟩
  rw [hcall]
  exact h.last x (hlast ▸ hx)

/-- A call that returns. -/
theorem CallsOk.finish (h : Progress bytes c) (t : TransportRDMA) : CallsOk bytes (t.finish c) := by
  refine ⟨(fun _ hc => nomatch hc), fun x hx => ?_⟩
  obtain rfl := Option.some.inj hx
  exact ⟨c, _, rfl, h.start_le, h.le_size, beq_iff_eq, fun _ => h⟩

/-- A call that goes on. -/
theorem CallsOk.resume (h : CallsOk bytes t) {bytes' : List UInt8} {t' : TransportRDMA}
    (hp : Progress bytes' c) (hcall : t'.call = some c) (hlast : t'.last = t.last) :
    CallsOk bytes' t' := by
  refine ⟨fun c' hc => ?_, fun x hx => ?_⟩
  · obtain rfl := Option.some.inj (hcall.symm.trans hc)
    exact hp
  · rw [hlast] at hx
    obtain ⟨c', b, h1, h2, h3, h4, -⟩ := h.last x hx
    exact ⟨c', b, h1, h2, h3, h4, fun hnone => by rw [hcall] at hnone; cases hnone⟩

/-- **A change of one endpoint** that the ring does not see. -/
theorem Inv.neutral (h : Inv chunks s) (hn : Neutral (s.endpoint d) t) (hp : Pool t)
    (hc : controls t.unhandled ≤ controls (s.endpoint d).unhandled)
    (hs : t.sendQueue = (s.endpoint d).sendQueue) (hcalls : CallsOk (s.bytes d) t)
    (hpoll : t.polling → (s.endpoint d).polling) :
    Inv chunks (s.withEndpoint d t) ∧ Kept s (s.withEndpoint d t) := by
  have hring := h.ring.neutral hn
  have hreceives := h.receives.update (d := d) hp hc (by rw [hs])
    (by rw [hs]; exact h.receives.controlOk d)
  cases d with
  | send =>
    refine ⟨⟨hring, hreceives, h.sent, h.received, fun d' => ?_, h.idle⟩,
      fun n _ _ => hn.buffer _, fun _ _ _ => SameSlot.refl, fun _ _ _ => rfl⟩
    cases d' with
    | send => exact hcalls
    | receive => exact h.calls .receive
  | receive =>
    refine ⟨⟨hring, hreceives, h.sent, ?_, fun d' => ?_, ?_⟩,
      fun _ _ _ => SameSlot.refl, fun n _ _ => hn.buffer _, fun n _ _ => ?_⟩
    · show s.received = taken chunks t.arrivalHead t.arrivalOffset
      rw [hn.arrivalHead, hn.arrivalOffset]
      exact h.received
    · cases d' with
      | send => exact h.calls .send
      | receive => exact hcalls
    · show t.polling → t.arrivalHead = t.arrivalTail → t.pendingCredit = 0
      rw [hn.arrivalHead, hn.arrivalTail, hn.pendingCredit]
      exact fun ht => h.idle (hpoll ht)
    · show t.arrivalLengths _ = _
      rw [hn.arrivalLengths]
      rfl

end Calls

/-! ## 4. Every step keeps the invariant -/

section Steps

variable {chunks : List (List UInt8)} {s s' : RdmaSystem} {d : TransportDirection}

/-- The ring does not depend on the bytes that have been counted. -/
theorem Ring.counted (h : Ring chunks s) (sent received : List UInt8) :
    Ring chunks { s with sent := sent, received := received } :=
  ⟨h.seq, h.sizes, h.order, h.balance, h.window, h.credits, h.creditBits, h.creditWrites, h.announced,
    h.posted, h.lengths, h.content, h.empty, h.offset⟩

theorem Receives.counted (h : Receives s) (sent received : List UInt8) :
    Receives { s with sent := sent, received := received } := ⟨h.pool, h.control, h.controlOk⟩

theorem step_handle {w : Completion} {batch : List Completion} {t : TransportRDMA}
    (hb : (s.endpoint d).batch = w :: batch)
    (e : TransportRDMA.handleCompletion { s.endpoint d with batch := batch } w = .ok t) :
    step (.handle d) s = some (s.withEndpoint d t) := by
  rw [step]
  simp only [hb, e]

theorem step_handle_error {w : Completion} {batch : List Completion} {text : String}
    (hb : (s.endpoint d).batch = w :: batch)
    (e : TransportRDMA.handleCompletion { s.endpoint d with batch := batch } w = .error text) :
    step (.handle d) s = some (s.withEndpoint d ((s.endpoint d).fail text)) := by
  rw [step]
  simp only [hb, e]

/-- **A completion of the ring is handled**, never with an error. -/
theorem Inv.handle (h : Inv chunks s) {w : Completion} {batch : List Completion}
    (hb : (s.endpoint d).batch = w :: batch) (hr : w.queuePair = .ring)
    (hs : step (.handle d) s = some s') : Inv chunks s' ∧ Kept s s' := by
  have hpool := h.receives.pool d
  have hunhandled := TransportRDMA.unhandled_cons hb hr
  have hsound := hpool.sound
  rw [hunhandled] at hsound
  have hw := (hsound w List.mem_cons_self).1
  have hrest : ∀ x ∈ TransportRDMA.unhandled { s.endpoint d with batch := batch }, Sound x :=
    fun x hx => hsound x (List.mem_cons_of_mem _ hx)
  have hown : Own w → Inv chunks s' ∧ Kept s s' := by
    intro ho
    obtain ⟨b, e⟩ := TransportRDMA.handle_own (t := { s.endpoint d with batch := batch }) hw ho
    rw [step_handle hb e] at hs
    obtain rfl := Option.some.inj hs
    have himms : imms (TransportRDMA.unhandled { s.endpoint d with batch := batch }) =
        imms (s.endpoint d).unhandled := by
      rw [hunhandled, imms_cons_of_ne ho.2]
    have hcontrols : controls (TransportRDMA.unhandled { s.endpoint d with batch := batch }) =
        controls (s.endpoint d).unhandled := by
      rw [hunhandled, controls_cons_of_ne ho.1]
    exact h.neutral ⟨rfl, rfl, rfl, rfl, rfl, rfl, rfl, himms, rfl, fun _ => SameSlot.refl⟩
      (hpool.requeue rfl himms hcontrols hrest hpool.acks) (Nat.le_of_eq hcontrols) rfl
      ((h.calls d).congr rfl rfl) fun ht => ht
  cases hop : w.opcode with
  | send => exact hown ⟨by rw [hop]; decide, by rw [hop]; decide⟩
  | rdmaWrite => exact hown ⟨by rw [hop]; decide, by rw [hop]; decide⟩
  | other => exact hown ⟨by rw [hop]; decide, by rw [hop]; decide⟩
  | recv =>
    obtain ⟨b, i, e⟩ :=
      TransportRDMA.handle_control (t := { s.endpoint d with batch := batch }) hw hop
    rw [step_handle hb e] at hs
    obtain rfl := Option.some.inj hs
    have himms : imms (TransportRDMA.unhandled { s.endpoint d with batch := batch }) =
        imms (s.endpoint d).unhandled := by
      rw [hunhandled, imms_cons_of_ne (by rw [hop]; decide)]
    have hcontrols : controls (TransportRDMA.unhandled { s.endpoint d with batch := batch }) ≤
        controls (s.endpoint d).unhandled := by
      rw [hunhandled, controls_cons_of_eq hop]
      exact Nat.le_succ _
    exact h.neutral ⟨rfl, rfl, rfl, rfl, rfl, rfl, rfl, himms, rfl, fun _ => SameSlot.refl⟩
      (hpool.repost hunhandled (fun ho => ho.1 hop) rfl rfl rfl) hcontrols rfl
      ((h.calls d).congr rfl rfl) fun ht => ht
  | recvRdmaWithImm =>
    have hcontrols : controls (TransportRDMA.unhandled { s.endpoint d with batch := batch }) ≤
        controls (s.endpoint d).unhandled := by
      rw [hunhandled, controls_cons_of_ne (by rw [hop]; decide)]
    cases d with
    | send =>
      have hcredit : w.immediate &&& kCreditImmediate ≠ 0 := by
        refine (h.ring.creditBits w.immediate (List.mem_append_left _ ?_)).1
        have hunhandled : s.producer.unhandled = w :: _ := hunhandled
        rw [hunhandled, imms_cons_of_eq hop]
        exact List.mem_cons_self
      have e := TransportRDMA.handle_credit (t := { s.endpoint .send with batch := batch }) hw hop
        hcredit
      rw [step_handle hb e] at hs
      obtain rfl := Option.some.inj hs
      refine ⟨⟨h.ring.handleCredit hb hr hop, ?_, h.sent, h.received, fun d => ?_, h.idle⟩,
        fun _ _ _ => SameSlot.refl, fun _ _ _ => SameSlot.refl, fun _ _ _ => rfl⟩
      · exact h.receives.update (d := .send) (hpool.repost hunhandled (fun ho => ho.2 hop) rfl rfl rfl)
          hcontrols (Nat.le_refl _) (h.receives.controlOk .send)
      · cases d with
        | send => exact (h.calls .send).congr rfl rfl
        | receive => exact h.calls .receive
    | receive =>
      obtain ⟨⟨hdata, hslot⟩, hring⟩ := h.ring.handleData hb hr hop
      have hsmall : immediateSlot w.immediate < kRdmaSlotCount := by
        rw [hslot]
        exact Nat.mod_lt _ (by decide)
      have e := TransportRDMA.handle_data (t := { s.endpoint .receive with batch := batch }) hw hop
        hdata hsmall
      rw [step_handle hb e] at hs
      obtain rfl := Option.some.inj hs
      have horder := h.ring.order
      have hlive := h.ring.live
      have hbalance := h.ring.balance
      have hunhandled' : s.consumer.unhandled = w :: _ := hunhandled
      rw [hunhandled', imms_cons_of_eq hop, List.length_cons] at hbalance
      refine ⟨⟨hring, ?_, h.sent, h.received, fun d => ?_, fun _ he => ?_⟩,
        fun _ _ _ => SameSlot.refl, fun _ _ _ => SameSlot.refl, fun n h1 h2 => ?_⟩
      · exact h.receives.update (d := .receive)
          (hpool.repost hunhandled (fun ho => ho.2 hop) rfl rfl rfl) hcontrols (Nat.le_refl _)
          (h.receives.controlOk .receive)
      · cases d with
        | send => exact h.calls .send
        | receive => exact (h.calls .receive).congr rfl rfl
      · have he : s.consumer.arrivalHead = s.consumer.arrivalTail + 1 := he
        omega
      · have hne : n % kRdmaSlotCount ≠ s.consumer.arrivalTail % kRdmaSlotCount :=
          mod_ne_of_lt h2 (by omega)
        exact Function.update_of_ne hne ..

section Advance

variable {c : RdmaCall}

theorem advance_send {b : Nat → UInt8} {news : List (List UInt8)} {rs : List SendRequest}
    (e : s.producer.trySend c = ({ s.producer with
      buffer := b, sendQueue := s.producer.sendQueue ++ rs
      sendSeq := s.producer.sendSeq + news.length },
        { c with progress := c.progress + news.flatten.length }))
    (hbytes : news.flatten = slice c.data c.progress news.flatten.length) :
    s.advance c .send = { s with
      producer := TransportRDMA.finish { s.producer with
        buffer := b, sendQueue := s.producer.sendQueue ++ rs
        sendSeq := s.producer.sendSeq + news.length } { c with
          progress := c.progress + news.flatten.length }
      sent := s.sent ++ news.flatten } := by
  rw [advance, e]
  dsimp only
  rw [Nat.add_sub_cancel_left, ← hbytes]

/-- A receive call in its loop. -/
theorem advance_loop (hloop : c.progress < c.size ∧ s.consumer.arrivalHead ≠ s.consumer.arrivalTail)
    {t : TransportRDMA} {bytes : List UInt8}
    (e : s.consumer.consume c = (t, { c with
      data := splice c.data c.progress bytes, progress := c.progress + bytes.length })) :
    s.advance c .receive = { s with
      consumer := { t with call := some { c with
        data := splice c.data c.progress bytes, progress := c.progress + bytes.length } }
      received := s.received ++ bytes } := by
  rw [advance, TransportRDMA.tryRecv, if_pos hloop, e]
  dsimp only
  rw [Nat.add_sub_cancel_left, slice_splice_self]

/-- A receive call that returns. -/
theorem advance_end
    (hend : ¬(c.progress < c.size ∧ s.consumer.arrivalHead ≠ s.consumer.arrivalTail)) :
    s.advance c .receive =
      { s with consumer := s.consumer.returnCredit.finish c, received := s.received } := by
  rw [advance, TransportRDMA.tryRecv, if_neg hend]
  dsimp only
  rw [Nat.sub_self, slice_zero, List.append_nil]

/-- **What a step of a call does for its caller**: `n` more bytes have moved, and the call goes on or
    returns. The completions of the endpoint and the endpoint at the other end are not involved. -/
structure Advanced (d : TransportDirection) (c : RdmaCall) (s s' : RdmaSystem)
    (data : Nat → UInt8) (n : Nat) : Prop where
  le_size : c.progress + n ≤ c.size
  old : ∀ j < c.progress, data j = c.data j
  source : d = .send → data = c.data
  bytes : s'.bytes d = s.bytes d ++ slice data c.progress n
  batch : (s'.endpoint d).batch = (s.endpoint d).batch
  cq : (s'.endpoint d).cq = (s.endpoint d).cq
  peer : s'.endpoint d.peer = s.endpoint d.peer
  peerBytes : s'.bytes d.peer = s.bytes d.peer
  result : (s'.endpoint d).call = some { c with data := data, progress := c.progress + n } ∨
    (s'.endpoint d).call = none ∧ (s'.endpoint d).last = some (.ok
      ({ c with data := data, progress := c.progress + n }, c.progress + n == c.size))

theorem Inv.advanced (h : Inv chunks s) (hc : (s.endpoint d).call = some c) :
    ∃ data n, Advanced d c s (s.advance c d) data n := by
  have hle := ((h.calls d).call c hc).le_size
  have hlive := h.ring.live
  have hcredits := h.ring.creditsReceived_le
  have horder := h.ring.order
  have htail := h.ring.tail_le
  cases d with
  | send =>
    obtain ⟨b, news, rs, e, hsize, -, -, hposted⟩ :=
      TransportRDMA.trySend_spec (t := s.producer) (c := c) (by omega) h.ring.window hle
    rw [advance_send e hposted.bytes]
    refine ⟨c.data, news.flatten.length, hsize, fun _ _ => rfl, fun _ => rfl, ?_, rfl, rfl, rfl, rfl,
      Or.inr ⟨rfl, rfl⟩⟩
    exact congrArg (s.sent ++ ·) hposted.bytes
  | receive =>
    by_cases hloop : c.progress < c.size ∧ s.consumer.arrivalHead ≠ s.consumer.arrivalTail
    · obtain ⟨m, t, -, hoff, hsize, e, ht, -⟩ := h.ring.consume (c := c) hloop.2 hloop.1
      generalize hbytes : ((chunks.getD s.consumer.arrivalHead []).drop
        s.consumer.arrivalOffset).take m = bytes at e
      have hlen : bytes.length = m := by
        rw [← hbytes, List.length_take, List.length_drop]
        omega
      subst hlen
      have hsame : t.batch = s.consumer.batch ∧ t.cq = s.consumer.cq := by
        rw [ht]
        split <;> exact ⟨rfl, rfl⟩
      rw [advance_loop hloop e]
      refine ⟨splice c.data c.progress bytes, bytes.length, hsize, fun j hj => splice_of_lt hj,
        (fun hd => nomatch hd), ?_, hsame.1, hsame.2, rfl, rfl, Or.inl rfl⟩
      exact congrArg (s.received ++ ·) slice_splice_self.symm
    · have hsame : (s.consumer.returnCredit).batch = s.consumer.batch ∧
          (s.consumer.returnCredit).cq = s.consumer.cq := by
        rcases s.consumer.returnCredit_cases with ⟨e, -⟩ | ⟨-, e⟩
        · rw [e]
          exact ⟨rfl, rfl⟩
        · rw [e]
          exact ⟨rfl, rfl⟩
      rw [advance_end hloop]
      refine ⟨c.data, 0, hle, fun _ _ => rfl, (fun hd => nomatch hd), ?_, hsame.1, hsame.2, rfl, rfl,
        Or.inr ⟨rfl, rfl⟩⟩
      exact (List.append_nil _).symm

end Advance

/-- **A send call** posts what it counts as progress. -/
theorem Inv.advanceSend (h : Inv chunks s) {c : RdmaCall} (hc : s.producer.call = some c) :
    ∃ chunks', Inv chunks' (s.advance c .send) ∧ Kept s (s.advance c .send) := by
  have hprogress := (h.calls .send).call c hc
  have hle := hprogress.le_size
  have hlive := h.ring.live
  have hcredits := h.ring.creditsReceived_le
  have horder := h.ring.order
  have htail := h.ring.tail_le
  obtain ⟨b, news, rs, e, hsize, hwindow, hmany, hposted⟩ :=
    TransportRDMA.trySend_spec (t := s.producer) (c := c) (by omega) h.ring.window hle
  have hadvance := advance_send e hposted.bytes
  have hopcode : ∀ r ∈ rs, r.opcode = .rdmaWriteWithImm := by
    intro r hr
    obtain ⟨k, hk⟩ := (hposted.requests chunks h.ring.seq.symm).exists_number hr
    exact hk.opcode
  have hring := (h.ring.send hposted hwindow).neutral (d := .send) (t := TransportRDMA.finish
    { s.producer with buffer := b, sendQueue := s.producer.sendQueue ++ rs
                      sendSeq := s.producer.sendSeq + news.length }
    { c with progress := c.progress + news.flatten.length })
    ⟨rfl, rfl, rfl, rfl, rfl, rfl, rfl, rfl, rfl, fun _ => SameSlot.refl⟩
  have hreceives := h.receives.update (d := .send) (t := TransportRDMA.finish
    { s.producer with buffer := b, sendQueue := s.producer.sendQueue ++ rs
                      sendSeq := s.producer.sendSeq + news.length }
    { c with progress := c.progress + news.flatten.length })
    ((h.receives.pool .send).requeue rfl rfl rfl (h.receives.pool .send).sound
      (h.receives.pool .send).acks) (Nat.le_refl _) (by
        show controlSends (s.producer.sendQueue ++ rs) ≤ controlSends s.producer.sendQueue
        rw [controlSends_append, controlSends_eq_zero hopcode]
        exact Nat.le_refl _) (by
        intro r hr
        rcases List.mem_append.mp hr with hr | hr
        · exact h.receives.controlOk .send r hr
        · intro hsend
          rw [hopcode r hr] at hsend
          cases hsend)
  have hcall := hprogress.advance c.data news.flatten.length (fun _ _ => rfl) hsize
  rw [← hposted.bytes] at hcall
  rw [hadvance]
  refine ⟨chunks ++ news, ⟨hring.counted _ _, hreceives.counted _ _, ?_, ?_, fun d => ?_, h.idle⟩,
    fun n h1 h2 => ?_, fun _ _ _ => SameSlot.refl, fun _ _ _ => rfl⟩
  · show s.sent ++ news.flatten = _
    rw [List.flatten_append, h.sent]
  · show s.received = taken (chunks ++ news) s.consumer.arrivalHead s.consumer.arrivalOffset
    rw [taken_append (by rw [← h.ring.seq]; omega) fun he => h.ring.empty (by
      rw [← h.ring.seq] at he
      omega)]
    exact h.received
  · cases d with
    | send => exact CallsOk.finish hcall _
    | receive => exact h.calls .receive
  · refine hposted.frame _ fun k hk => ?_
    exact (mod_ne_of_lt (by omega) (by omega)).symm

/-- **An iteration of a receive call**, or its end. -/
theorem Inv.advanceReceive (h : Inv chunks s) {c : RdmaCall} (hc : s.consumer.call = some c)
    (hpoint : c.point = .body) :
    Inv chunks (s.advance c .receive) ∧ Kept s (s.advance c .receive) := by
  have hprogress := (h.calls .receive).call c hc
  have hpool := h.receives.pool .receive
  have horder := h.ring.order
  have htail := h.ring.tail_le
  have hseq := h.ring.seq
  by_cases hloop : c.progress < c.size ∧ s.consumer.arrivalHead ≠ s.consumer.arrivalTail
  · obtain ⟨m, t, hm, hoff, hsize, e, ht, hring⟩ := h.ring.consume (c := c) hloop.2 hloop.1
    generalize hbytes : ((chunks.getD s.consumer.arrivalHead []).drop
      s.consumer.arrivalOffset).take m = bytes at e
    have hlen : bytes.length = m := by
      rw [← hbytes, List.length_take, List.length_drop]
      omega
    subst hlen
    have hslice : slice (splice c.data c.progress bytes) c.progress bytes.length = bytes :=
      slice_splice_self
    have hadvance := advance_loop hloop e
    have hreceived : taken chunks s.consumer.arrivalHead s.consumer.arrivalOffset ++ bytes =
        taken chunks t.arrivalHead t.arrivalOffset := by
      rw [← hbytes, taken_more, ht]
      split
      · rename_i hend
        rw [hend]
        exact taken_next (by omega)
      · rfl
    have hcall := hprogress.advance (splice c.data c.progress bytes) bytes.length
      (fun j hj => splice_of_lt hj) hsize
    rw [hslice] at hcall
    have hsame : t.unhandled = s.consumer.unhandled ∧ t.recvQueue = s.consumer.recvQueue ∧
        t.acks = s.consumer.acks ∧ t.sendQueue = s.consumer.sendQueue ∧ t.last = s.consumer.last ∧
        t.buffer = s.consumer.buffer ∧ t.arrivalLengths = s.consumer.arrivalLengths := by
      rw [ht]
      split <;> exact ⟨rfl, rfl, rfl, rfl, rfl, rfl, rfl⟩
    obtain ⟨h1, h2, h3, h4, h5, h6, h7⟩ := hsame
    have hring' := hring.neutral (d := .receive) (t := { t with call := some { c with
        data := splice c.data c.progress bytes, progress := c.progress + bytes.length } })
      ⟨rfl, rfl, rfl, rfl, rfl, rfl, rfl, rfl, rfl, fun _ => SameSlot.refl⟩
    have hpool' : Pool { t with call := some { c with
        data := splice c.data c.progress bytes, progress := c.progress + bytes.length } } := by
      refine hpool.requeue h2 ?_ ?_ ?_ ?_
      · exact congrArg imms h1
      · exact congrArg controls h1
      · exact fun w hw => hpool.sound w (h1 ▸ hw)
      · exact fun w hw => hpool.acks w (h3 ▸ hw)
    have hreceives := h.receives.update (d := .receive) hpool'
      (Nat.le_of_eq (congrArg controls h1)) (Nat.le_of_eq (congrArg controlSends h4))
      fun r hr => h.receives.controlOk .receive r (h4 ▸ hr)
    rw [hadvance]
    refine ⟨⟨hring'.counted _ _, hreceives.counted _ _, h.sent, ?_, fun d => ?_, fun hpoll => ?_⟩,
      fun _ _ _ => SameSlot.refl, fun n _ _ => ?_, fun n _ _ => ?_⟩
    · show s.received ++ bytes = taken chunks t.arrivalHead t.arrivalOffset
      rw [h.received, hreceived]
    · cases d with
      | send => exact h.calls .send
      | receive => exact (h.calls .receive).resume hcall rfl h5
    · -- the call is still in its body
      have := hpoll _ rfl
      rw [hpoint] at this
      cases this
    · show SameSlot _ t.buffer _
      rw [h6]
      exact SameSlot.refl
    · show t.arrivalLengths _ = _
      rw [h7]
  · have hadvance := advance_end hloop
    have hcalls : CallsOk (s.bytes .receive) (s.consumer.returnCredit.finish c) :=
      CallsOk.finish hprogress _
    rw [hadvance]
    rcases s.consumer.returnCredit_cases with ⟨e, hzero⟩ | ⟨hpos, e⟩
    · rw [e] at hcalls ⊢
      have hring := h.ring.neutral (d := .receive) (t := s.consumer.finish c)
        ⟨rfl, rfl, rfl, rfl, rfl, rfl, rfl, rfl, rfl, fun _ => SameSlot.refl⟩
      have hreceives := h.receives.update (d := .receive) (t := s.consumer.finish c)
        (hpool.requeue rfl rfl rfl hpool.sound hpool.acks) (Nat.le_refl _) (Nat.le_refl _)
        (h.receives.controlOk .receive)
      refine ⟨⟨hring.counted _ _, hreceives.counted _ _, h.sent, h.received, fun d => ?_, fun _ => hzero⟩,
        fun _ _ _ => SameSlot.refl, fun _ _ _ => SameSlot.refl, fun _ _ _ => rfl⟩
      cases d with
      | send => exact h.calls .send
      | receive => exact hcalls
    · rw [e] at hcalls ⊢
      have hring := (h.ring.returnCredit hpos).neutral (d := .receive) (t := TransportRDMA.finish
        { s.consumer.postCredit s.consumer.pendingCredit with pendingCredit := 0 } c)
        ⟨rfl, rfl, rfl, rfl, rfl, rfl, rfl, rfl, rfl, fun _ => SameSlot.refl⟩
      have hreceives := h.receives.update (d := .receive) (t := TransportRDMA.finish
        { s.consumer.postCredit s.consumer.pendingCredit with pendingCredit := 0 } c)
        (hpool.requeue rfl rfl rfl hpool.sound hpool.acks) (Nat.le_refl _) (by
          show controlSends (s.consumer.sendQueue ++ [_]) ≤ controlSends s.consumer.sendQueue
          rw [controlSends_append, controlSends_cons_of_ne (by simp)]
          exact Nat.le_refl _) (by
          intro r hr
          rcases List.mem_append.mp hr with hr | hr
          · exact h.receives.controlOk .receive r hr
          · rw [List.mem_singleton.mp hr]
            exact fun hsend => nomatch hsend)
      refine ⟨⟨hring.counted _ _, hreceives.counted _ _, h.sent, h.received, fun d => ?_,
        fun _ _ => rfl⟩, fun _ _ _ => SameSlot.refl, fun _ _ _ => SameSlot.refl, fun _ _ _ => rfl⟩
      cases d with
      | send => exact h.calls .send
      | receive => exact hcalls

/-- **The adapter delivers a request**: no slot is hit whose chunk is not used up. -/
theorem Inv.deliver (h : Inv chunks s) {r : SendRequest} {rest : List SendRequest} {index : Nat}
    {pool : List Nat} (hs : (s.endpoint d).sendQueue = r :: rest)
    (hq : (s.endpoint d.peer).recvQueue = index :: pool) :
    Inv chunks (s.delivered d r rest index pool) ∧ Kept s (s.delivered d r rest index pool) := by
  have hcalls : ∀ d', CallsOk (s.bytes d') ((s.delivered d r rest index pool).endpoint d') := by
    have harrive : ∀ t bytes, (TransportRDMA.arrive t r bytes index pool).call = t.call ∧
        (TransportRDMA.arrive t r bytes index pool).last = t.last := by
      intro t bytes
      unfold TransportRDMA.arrive
      cases r.opcode <;> exact ⟨rfl, rfl⟩
    intro d'
    cases d <;> cases d'
    · exact (h.calls .send).congr rfl rfl
    · exact (h.calls .receive).congr (harrive _ _).1 (harrive _ _).2
    · exact (h.calls .send).congr (harrive _ _).1 (harrive _ _).2
    · exact (h.calls .receive).congr rfl rfl
  have hreceives := h.receives.deliver hs hq
  have hring : Ring chunks (s.delivered d r rest index pool) := by
    cases ho : r.opcode with
    | send => exact h.ring.deliverControl h.receives hs hq ho
    | rdmaWriteWithImm =>
      cases d with
      | send => exact h.ring.deliverData hs ho
      | receive => exact h.ring.deliverCredit hs ho
  cases d with
  | send =>
    obtain ⟨cq, e⟩ := arrive_eq s.consumer r (r.payload s.producer.buffer) index pool
    have hd : s.delivered .send r rest index pool = { s with
        producer := s.producer.sentOff r rest
        consumer := s.consumer.arrive r (r.payload s.producer.buffer) index pool } := rfl
    rw [hd, e] at hring hreceives hcalls ⊢
    refine ⟨⟨hring, hreceives, h.sent, h.received, hcalls, h.idle⟩, fun _ _ _ => SameSlot.refl,
      fun n h1 h2 => ?_, fun _ _ _ => rfl⟩
    cases ho : r.opcode with
    | send =>
      have hbelow := h.receives.scratch_below (b := s.producer.buffer) hs hq ho
      show SameSlot _ (splice _ (landing r index) _) _
      rw [landing, ho]
      exact sameSlot_splice_below hbelow
    | rdmaWriteWithImm =>
      obtain ⟨hlt, hw⟩ := h.ring.oldest hs ho
      have hlive := h.ring.live
      show SameSlot _ (splice _ (landing r index) _) _
      rw [landing, ho]
      show SameSlot _ (splice _ r.remoteAddr _) _
      rw [hw.remote, hw.payload]
      exact sameSlot_splice (mod_ne_of_lt h2 (by omega)).symm (h.ring.size hlt).2
  | receive =>
    obtain ⟨cq, e⟩ := arrive_eq s.producer r (r.payload s.consumer.buffer) index pool
    have hd : s.delivered .receive r rest index pool = { s with
        consumer := s.consumer.sentOff r rest
        producer := s.producer.arrive r (r.payload s.consumer.buffer) index pool } := rfl
    rw [hd, e] at hring hreceives hcalls ⊢
    refine ⟨⟨hring, hreceives, h.sent, h.received, hcalls, h.idle⟩, fun n _ _ => ?_,
      fun _ _ _ => SameSlot.refl, fun _ _ _ => rfl⟩
    have hbelow : landing r index + (r.payload s.consumer.buffer).length ≤ kRdmaRingOffset := by
      cases ho : r.opcode with
      | send =>
        rw [landing, ho]
        exact h.receives.scratch_below hs hq ho
      | rdmaWriteWithImm =>
        rw [landing, ho]
        have hs : s.consumer.sendQueue = r :: rest := hs
        exact h.ring.credit_below (by rw [hs, writes_cons_of_eq ho]; exact List.mem_cons_self)
    exact sameSlot_splice_below hbelow

/-- **Every step keeps the invariant**, and the slots that are not used up. -/
theorem step_inv {l : RdmaLabel} (h : Inv chunks s)
    (hr : ∀ d w batch, l = .handle d → (s.endpoint d).batch = w :: batch → w.queuePair = .ring)
    (hs : step l s = some s') : ∃ chunks', Inv chunks' s' ∧ Kept s s' := by
  cases l with
  | begin d data size progress =>
    simp only [step] at hs
    split at hs
    · cases hs
    · rename_i hnone
      split at hs
      · rename_i hle
        obtain rfl := Option.some.inj hs
        have hpool := h.receives.pool d
        refine ⟨chunks, h.neutral ⟨rfl, rfl, rfl, rfl, rfl, rfl, rfl, rfl, rfl, fun _ => SameSlot.refl⟩
          (hpool.requeue rfl rfl rfl hpool.sound hpool.acks) (Nat.le_refl _) rfl ?_ fun _ c hc => ?_⟩
        · refine (h.calls d).resume ⟨Nat.le_refl _, hle.1, ?_⟩ rfl rfl
          rw [Nat.sub_self, slice_zero]
          exact List.nil_suffix
        · rw [hnone] at hc
          cases hc
      · cases hs
  | poll d count =>
    simp only [step] at hs
    split at hs
    · rename_i hpoll
      obtain rfl := Option.some.inj hs
      have hpool := h.receives.pool d
      have hunhandled : TransportRDMA.unhandled { s.endpoint d with
          batch := (s.endpoint d).cq.take count, cq := (s.endpoint d).cq.drop count } =
          (s.endpoint d).unhandled := TransportRDMA.waiting_poll hpoll.2.1 count
      exact ⟨chunks, h.neutral ⟨rfl, rfl, rfl, rfl, rfl, rfl, rfl, congrArg imms hunhandled, rfl,
        fun _ => SameSlot.refl⟩
        (hpool.requeue rfl (congrArg imms hunhandled) (congrArg controls hunhandled)
          (fun w hw => hpool.sound w (hunhandled ▸ hw)) hpool.acks)
        (Nat.le_of_eq (congrArg controls hunhandled)) rfl ((h.calls d).congr rfl rfl) fun ht => ht⟩
    · cases hs
  | handle d =>
    cases hb : (s.endpoint d).batch with
    | nil =>
      simp only [step, hb] at hs
      cases hs
    | cons w batch => exact ⟨chunks, h.handle hb (hr d w batch rfl hb) hs⟩
  | polled d =>
    simp only [step] at hs
    split at hs
    · rename_i c hc
      split at hs
      · rename_i hpoint
        obtain rfl := Option.some.inj hs
        have hpool := h.receives.pool d
        have hprogress := (h.calls d).call c hc
        refine ⟨chunks, h.neutral ⟨rfl, rfl, rfl, rfl, rfl, rfl, rfl, rfl, rfl, fun _ => SameSlot.refl⟩
          (hpool.requeue rfl rfl rfl hpool.sound hpool.acks) (Nat.le_refl _) rfl ?_ fun ht => ?_⟩
        · have hbody : Progress (s.bytes d) { c with point := .body } :=
            ⟨hprogress.start_le, hprogress.le_size, hprogress.suffix⟩
          exact (h.calls d).resume hbody rfl rfl
        · exact nomatch ht _ rfl
      · cases hs
    · cases hs
  | advance d =>
    simp only [step] at hs
    split at hs
    · rename_i c hc
      split at hs
      · rename_i hpoint
        obtain rfl := Option.some.inj hs
        cases d with
        | send => exact h.advanceSend hc
        | receive => exact ⟨chunks, h.advanceReceive hc hpoint⟩
      · cases hs
    · cases hs
  | deliver d =>
    simp only [step] at hs
    split at hs
    · rename_i r rest index pool hsend hrecv
      obtain rfl := Option.some.inj hs
      exact ⟨chunks, h.deliver hsend hrecv⟩
    · cases hs
  | acknowledge d =>
    simp only [step] at hs
    split at hs
    · rename_i w rest hacks
      obtain rfl := Option.some.inj hs
      have hpool := h.receives.pool d
      have hmem := hpool.acks
      rw [hacks] at hmem
      obtain ⟨hstatus, hring, hown⟩ := hmem w List.mem_cons_self
      have hunhandled : TransportRDMA.unhandled { s.endpoint d with cq := (s.endpoint d).cq ++ [w] } =
          (s.endpoint d).unhandled ++ [w] := TransportRDMA.unhandled_push hring
      have himms : imms ((s.endpoint d).unhandled ++ [w]) = imms (s.endpoint d).unhandled := by
        rw [imms_append, imms_cons_of_ne hown.2, imms_nil, List.append_nil]
      have hcontrols : controls ((s.endpoint d).unhandled ++ [w]) =
          controls (s.endpoint d).unhandled := by
        rw [controls_append, controls_cons_of_ne hown.1, controls_nil, Nat.add_zero]
      rw [← hunhandled] at himms hcontrols
      refine ⟨chunks, h.neutral ⟨rfl, rfl, rfl, rfl, rfl, rfl, rfl, himms, rfl, fun _ => SameSlot.refl⟩
        (hpool.requeue rfl himms hcontrols ?_ ?_) (Nat.le_of_eq hcontrols) rfl
        ((h.calls d).congr rfl rfl) fun ht => ht⟩
      · intro x hx
        have hx : x ∈ TransportRDMA.unhandled
          { s.endpoint d with cq := (s.endpoint d).cq ++ [w] } := hx
        rw [hunhandled] at hx
        rcases List.mem_append.mp hx with hx | hx
        · exact hpool.sound x hx
        · rw [List.mem_singleton.mp hx]
          exact ⟨hstatus, fun hn => absurd hown hn⟩
      · exact fun x hx => hmem x (List.mem_cons_of_mem _ hx)
    · cases hs

end Steps

/-! ## 5. Runs -/

/-- The completions of a connection without a second queue pair. -/
def OnRing (s : RdmaSystem) : Prop :=
  ∀ d, ∀ w ∈ (s.endpoint d).batch ++ (s.endpoint d).cq, w.queuePair = .ring

section OnRing

variable {chunks : List (List UInt8)} {s s' : RdmaSystem} {d : TransportDirection}

theorem OnRing.update (h : OnRing s) {t : TransportRDMA}
    (ht : ∀ w ∈ t.batch ++ t.cq, w.queuePair = .ring) : OnRing (s.withEndpoint d t) := by
  intro d'
  cases d <;> cases d'
  · exact ht
  · exact h .receive
  · exact h .send
  · exact ht

theorem OnRing.next (h : OnRing s) {w : Completion} {batch : List Completion}
    (hb : (s.endpoint d).batch = w :: batch) : w.queuePair = .ring := by
  refine h d w ?_
  rw [hb]
  exact List.mem_cons_self

/-- **Every completion is one of the ring.** -/
theorem step_onRing {l : RdmaLabel} (hI : Inv chunks s) (h : OnRing s) (hs : step l s = some s') :
    OnRing s' := by
  cases l with
  | begin d data size progress =>
    simp only [step] at hs
    split at hs
    · cases hs
    · split at hs
      · obtain rfl := Option.some.inj hs
        exact h.update (h d)
      · cases hs
  | poll d count =>
    simp only [step] at hs
    split at hs
    · rename_i hpoll
      obtain rfl := Option.some.inj hs
      refine h.update fun w hw => h d w (List.mem_append_right _ ?_)
      have hw : w ∈ (s.endpoint d).cq.take count ++ (s.endpoint d).cq.drop count := hw
      rwa [List.take_append_drop] at hw
    · cases hs
  | handle d =>
    cases hb : (s.endpoint d).batch with
    | nil =>
      simp only [step, hb] at hs
      cases hs
    | cons w batch =>
      have hrest : ∀ x ∈ batch ++ (s.endpoint d).cq, x.queuePair = .ring := by
        intro x hx
        refine h d x ?_
        rw [hb]
        exact List.mem_cons_of_mem _ hx
      cases e : TransportRDMA.handleCompletion { s.endpoint d with batch := batch } w with
      | ok t =>
        rw [step_handle hb e] at hs
        obtain rfl := Option.some.inj hs
        obtain ⟨h1, h2, -, -⟩ := TransportRDMA.handleCompletion_queues e
        refine h.update fun x hx => hrest x ?_
        rw [h1, h2] at hx
        exact hx
      | error text =>
        rw [step_handle_error hb e] at hs
        obtain rfl := Option.some.inj hs
        exact h.update fun x hx => hrest x (List.mem_append_right _ hx)
  | polled d =>
    simp only [step] at hs
    split at hs
    · split at hs
      · obtain rfl := Option.some.inj hs
        exact h.update (h d)
      · cases hs
    · cases hs
  | advance d =>
    simp only [step] at hs
    split at hs
    · rename_i c hc
      split at hs
      · obtain rfl := Option.some.inj hs
        obtain ⟨data, n, ha⟩ := hI.advanced hc
        intro d'
        by_cases hd : d' = d
        · rw [hd, ha.batch, ha.cq]
          exact h d
        · have hpeer : d' = d.peer := by
            cases d <;> cases d' <;> first | rfl | exact absurd rfl hd
          rw [hpeer, ha.peer]
          exact h d.peer
      · cases hs
    · cases hs
  | deliver d =>
    simp only [step] at hs
    split at hs
    · rename_i r rest index pool _ _
      obtain rfl := Option.some.inj hs
      have h1 : OnRing (s.withEndpoint d ((s.endpoint d).sentOff r rest)) := h.update (h d)
      refine h1.update fun w hw => ?_
      have harrive : w ∈ (s.endpoint d.peer).batch ++ (s.endpoint d.peer).cq ∨
          w.queuePair = .ring := by
        unfold TransportRDMA.arrive at hw
        cases ho : r.opcode with
        | send =>
          rw [ho] at hw
          have hw : w ∈ (s.endpoint d.peer).batch ++ ((s.endpoint d.peer).cq ++ [_]) := hw
          rw [← List.append_assoc] at hw
          rcases List.mem_append.mp hw with hw | hw
          · exact Or.inl hw
          · rw [List.mem_singleton.mp hw]
            exact Or.inr rfl
        | rdmaWriteWithImm =>
          rw [ho] at hw
          have hw : w ∈ (s.endpoint d.peer).batch ++ ((s.endpoint d.peer).cq ++ [_]) := hw
          rw [← List.append_assoc] at hw
          rcases List.mem_append.mp hw with hw | hw
          · exact Or.inl hw
          · rw [List.mem_singleton.mp hw]
            exact Or.inr rfl
      rcases harrive with hw | hw
      · exact h d.peer w hw
      · exact hw
    · cases hs
  | acknowledge d =>
    simp only [step] at hs
    split at hs
    · rename_i w rest hacks
      obtain rfl := Option.some.inj hs
      have hw := (hI.receives.pool d).acks w (by rw [hacks]; exact List.mem_cons_self)
      refine h.update fun x hx => ?_
      have hx : x ∈ (s.endpoint d).batch ++ ((s.endpoint d).cq ++ [w]) := hx
      rw [← List.append_assoc] at hx
      rcases List.mem_append.mp hx with hx | hx
      · exact h d x hx
      · rw [List.mem_singleton.mp hx]
        exact hw.2.1
    · cases hs

end OnRing

section Runs

variable {inlineCapacity : TransportDirection → Nat} {connector : TransportDirection}
  {message : List UInt8} {s : RdmaSystem} {ls : List RdmaLabel}

theorem reach_inv (hm : message.length ≤ kRdmaControlSize)
    (h : Reach step (connected inlineCapacity connector message) ls s) :
    ∃ chunks, Inv chunks s ∧ OnRing s := by
  refine h.invariant (I := fun s => ∃ chunks, Inv chunks s ∧ OnRing s)
    ⟨[], inv_connected inlineCapacity connector hm, fun d w hw => ?_⟩ fun l s s' hI hs => ?_
  · cases connector <;> cases d <;> cases hw
  · obtain ⟨chunks, hI, hring⟩ := hI
    obtain ⟨chunks', hI', -⟩ := step_inv hI (fun d w batch _ hb => hring.next hb) hs
    exact ⟨chunks', hI', step_onRing hI hring hs⟩

/-- The data writes that the consumer has not processed. -/
def dataWrites (s : RdmaSystem) : Nat :=
  (imms s.consumer.unhandled).length + (writes s.producer.sendQueue).length

/-- **An RDMA connection is a faithful byte stream**: the bytes copied out are a prefix of those taken
    from the producer's callers; no more than `kRdmaSlotCount` slots are sent and not credited; no step
    touches a slot or an entry of a chunk that is not used up; the announcement that is handled next
    names the slot of the consumer's own counter; and every call moves its `*progress` within the
    transfer, has moved the bytes in between, and sets `*done` when `*progress` has reached `size`. -/
theorem rdma_stream (hm : message.length ≤ kRdmaControlSize)
    (h : Reach step (connected inlineCapacity connector message) ls s) :
    s.received <+: s.sent ∧
    s.producer.sendSeq ≤ s.producer.creditsReceived + kRdmaSlotCount ∧
    (∀ l s', step l s = some s' → Kept s s') ∧
    (∀ d w batch, (s.endpoint d).batch = w :: batch → w.opcode = .recvRdmaWithImm →
      w.immediate &&& kCreditImmediate = 0 →
      d = .receive ∧ immediateSlot w.immediate = s.consumer.arrivalTail % kRdmaSlotCount) ∧
    (∀ d c, (s.endpoint d).call = some c → c.start ≤ c.progress ∧ c.progress ≤ c.size ∧
      slice c.data c.start (c.progress - c.start) <:+ s.bytes d) ∧
    ∀ d x, (s.endpoint d).last = some x → ∃ c b, x = .ok (c, b) ∧ c.start ≤ c.progress ∧
      c.progress ≤ c.size ∧ (b = true ↔ c.progress = c.size) ∧
      ((s.endpoint d).call = none → slice c.data c.start (c.progress - c.start) <:+ s.bytes d) := by
  obtain ⟨chunks, hI, hring⟩ := reach_inv hm h
  refine ⟨hI.received_isPrefix, hI.ring.window, fun l s' hs => ?_, fun d w batch hb hop hdata => ?_, fun d c hc => ?_,
    fun d x hx => ?_⟩
  · obtain ⟨-, -, hkept⟩ := step_inv hI (fun d w batch _ hb => hring.next hb) hs
    exact hkept
  · cases d with
    | send =>
      have hcredit : w.immediate ∈ s.creditImms := by
        refine List.mem_append_left _ ?_
        have hb : s.producer.batch = w :: batch := hb
        rw [TransportRDMA.unhandled_cons hb (hring.next (d := .send) hb), imms_cons_of_eq hop]
        exact List.mem_cons_self
      exact absurd hdata (hI.ring.creditBits _ hcredit).1
    | receive => exact ⟨rfl, (hI.ring.handleData hb (hring.next (d := .receive) hb) hop).1.2⟩
  · have hprogress := (hI.calls d).call c hc
    exact ⟨hprogress.start_le, hprogress.le_size, hprogress.suffix⟩
  · obtain ⟨c, b, h1, h2, h3, h4, h5⟩ := (hI.calls d).last x hx
    exact ⟨c, b, h1, h2, h3, h4, fun hnone => (h5 hnone).suffix⟩

/-- **Credits and receives are conserved**: every chunk that was sent is credited, or its credit is on
    its way or pending, or it waits in the consumer's ring, or its write is not processed; the window
    stays within the ring; a receive call that leaves no chunk behind leaves no credit behind, so the
    whole window is on its way back; and the receives of both endpoints add up to the pool, with one
    posted for every request on its way and at least one more. -/
theorem rdma_conserved (hm : message.length ≤ kRdmaControlSize)
    (h : Reach step (connected inlineCapacity connector message) ls s) :
    s.producer.sendSeq = s.producer.creditsReceived + s.credited + s.consumer.pendingCredit +
      (s.consumer.arrivalTail - s.consumer.arrivalHead) + s.dataWrites ∧
    s.consumer.arrivalHead ≤ s.consumer.arrivalTail ∧
    (s.producer.sendSeq ≤ s.producer.creditsReceived + kRdmaSlotCount ∧
      s.producer.creditsReceived + kRdmaSlotCount - s.producer.sendSeq ≤ kRdmaSlotCount) ∧
    (s.consumer.call = none → s.consumer.arrivalHead = s.consumer.arrivalTail →
      s.consumer.pendingCredit = 0 ∧ s.producer.creditsReceived + kRdmaSlotCount - s.producer.sendSeq +
        s.credited + s.dataWrites = kRdmaSlotCount) ∧
    ∀ d, (s.endpoint d).recvQueue.length +
        ((imms (s.endpoint d).unhandled).length + controls (s.endpoint d).unhandled) = kRdmaRecvPool ∧
      (s.endpoint d.peer).sendQueue.length < (s.endpoint d).recvQueue.length := by
  obtain ⟨chunks, hI, -⟩ := reach_inv hm h
  have h1 := hI.ring.balance
  have h2 := hI.ring.credits
  have h3 := hI.ring.order
  have h4 := hI.ring.window
  refine ⟨?_, h3, ⟨h4, by omega⟩, fun hcall he => ?_, fun d => ⟨?_, ?_⟩⟩
  · rw [dataWrites]
    omega
  · have hzero := hI.idle (fun c hc => by rw [hcall] at hc; cases hc) he
    refine ⟨hzero, ?_⟩
    rw [dataWrites]
    omega
  · rw [← Nat.add_assoc]
    exact (hI.receives.pool d).total
  · have hlen := hI.ring.recvQueue_length hI.receives d
    have hsplit : (s.endpoint d.peer).sendQueue.length =
        (writes (s.endpoint d.peer).sendQueue).length +
          controlSends (s.endpoint d.peer).sendQueue := length_sendQueue _
    have hpool : kRdmaRecvPool = 64 := rfl
    have hslots : kRdmaSlotCount = 32 := rfl
    omega

end Runs

/-- Three bytes for a consumer that asks for two, after the handshake. -/
def threeWritten : List RdmaLabel :=
  [.begin .receive (fun _ => 0) 2 0, .begin .send (fun i => 7 + i.toUInt8) 3 0, .polled .send,
    .advance .send, .deliver .send, .deliver .send, .acknowledge .send, .poll .receive 2,
    .handle .receive, .handle .receive, .polled .receive, .advance .receive, .advance .receive]

/-- The connection after that. -/
def afterThree : RdmaSystem :=
  follow step (connected (fun _ => kRdmaInlineThreshold) .send [1, 2]) threeWritten

theorem rdma_stream_three : afterThree.received = [7, 8] ∧ afterThree.received <+: afterThree.sent := by
  obtain ⟨ls, -, h⟩ := follow_reach step (connected (fun _ => kRdmaInlineThreshold) .send [1, 2])
    threeWritten
  exact ⟨by decide, (rdma_stream (by decide) h).1⟩

theorem rdma_conserved_three : afterThree.consumer.call = none ∧
    (afterThree.endpoint .send).sendQueue.length < (afterThree.endpoint .receive).recvQueue.length := by
  obtain ⟨ls, -, h⟩ := follow_reach step (connected (fun _ => kRdmaInlineThreshold) .send [1, 2])
    threeWritten
  exact ⟨by decide, ((rdma_conserved (by decide) h).2.2.2.2 .receive).2⟩

end OriginCCL.RdmaSystem
