/-
  File:      OriginCCL/Transport/RdmaQueues.lean
  Subject:   WHAT THE FUNCTIONS OF AN RDMA ENDPOINT DO to its buffer, its counters and its queues.

  * `immediateSlot_encode`, `immediateLength_encode`, `credit_and_not` -- what an immediate says is read
    back, and the two kinds of immediates are told apart.
  * `imms`, `controls` -- the announcements and the control messages among completions.
  * `Writes b chunk n r` -- request `r` carries the chunk with number `n`.
  * `trySend_spec`, `consume_spec`, `returnCredit_cases` -- one lemma for each part of a call.
-/
import Mathlib.Data.Nat.Bitwise
import Mathlib.Tactic.Common
import OriginCCL.Base.Circular
import OriginCCL.Base.Queues
import OriginCCL.Transport.Rdma

namespace OriginCCL

open Base

/-! ## 1. Immediates -/

section Immediates

variable {slot length slots : Nat}

theorem encodeDataImmediate_toNat (hs : slot < kRdmaSlotCount) (h0 : 0 < length)
    (hl : length ≤ kRdmaSlotSize) :
    (encodeDataImmediate slot length).toNat = slot * 65536 + (length - 1) := by
  unfold kRdmaSlotCount at hs
  unfold kRdmaSlotSize at hl
  have hor : (slot <<< 16) ||| (length - 1) = slot * 65536 + (length - 1) := by
    rw [Nat.shiftLeft_eq, Nat.mul_comm]
    have hlt : length - 1 < 2 ^ 16 := by omega
    exact (Nat.two_pow_add_eq_or_of_lt hlt slot).symm
  rw [encodeDataImmediate, hor, UInt32.toNat_ofNat']
  omega

/-- **The announced slot is read back.** -/
theorem immediateSlot_encode (hs : slot < kRdmaSlotCount) (h0 : 0 < length)
    (hl : length ≤ kRdmaSlotSize) : immediateSlot (encodeDataImmediate slot length) = slot := by
  have h := encodeDataImmediate_toNat hs h0 hl
  unfold kRdmaSlotSize at hl
  rw [immediateSlot, UInt32.toNat_shiftRight, h, Nat.shiftRight_eq_div_pow]
  show _ / 65536 = slot
  omega

/-- **The announced length is read back.** -/
theorem immediateLength_encode (hs : slot < kRdmaSlotCount) (h0 : 0 < length)
    (hl : length ≤ kRdmaSlotSize) : immediateLength (encodeDataImmediate slot length) = length := by
  have h := encodeDataImmediate_toNat hs h0 hl
  unfold kRdmaSlotSize at hl
  rw [immediateLength, UInt32.toNat_and, h]
  show (_ &&& (2 ^ 16 - 1)) + 1 = length
  rw [Nat.and_two_pow_sub_one_eq_mod]
  omega

/-- The credit bit is the sign bit. -/
theorem and_kCreditImmediate (x : UInt32) : x &&& kCreditImmediate = 0 ↔ x.toNat < 2 ^ 31 := by
  have hx := UInt32.toNat_lt x
  rw [← UInt32.toNat_inj, UInt32.toNat_and]
  show x.toNat &&& 2 ^ 31 = 0 ↔ _
  rw [Nat.and_two_pow, Nat.testBit_eq_decide_div_mod_eq]
  by_cases h : x.toNat / 2 ^ 31 % 2 = 1
  · simp only [h, decide_true, Bool.toNat_true]
    omega
  · simp only [h, decide_false, Bool.toNat_false, Nat.zero_mul, true_iff]
    omega

/-- **An announcement is no credit.** -/
theorem encodeDataImmediate_and (hs : slot < kRdmaSlotCount) (h0 : 0 < length)
    (hl : length ≤ kRdmaSlotSize) : encodeDataImmediate slot length &&& kCreditImmediate = 0 := by
  rw [and_kCreditImmediate, encodeDataImmediate_toNat hs h0 hl]
  unfold kRdmaSlotCount at hs
  unfold kRdmaSlotSize at hl
  omega

theorem credit_toNat (h : slots < 2 ^ 31) :
    (kCreditImmediate ||| UInt32.ofNat slots).toNat = 2 ^ 31 + slots := by
  rw [UInt32.toNat_or, UInt32.toNat_ofNat', Nat.mod_eq_of_lt (by omega)]
  have := Nat.two_pow_add_eq_or_of_lt h 1
  rw [Nat.mul_one] at this
  exact this.symm

/-- **A credit is one.** -/
theorem credit_and (h : slots < 2 ^ 31) :
    (kCreditImmediate ||| UInt32.ofNat slots) &&& kCreditImmediate ≠ 0 := by
  rw [Ne, and_kCreditImmediate, credit_toNat h]
  omega

/-- The number of slots a credit gives back. -/
def creditOf (immediate : UInt32) : Nat := (immediate &&& ~~~kCreditImmediate).toNat

/-- **The number of slots is read back.** -/
theorem creditOf_credit (h : slots < 2 ^ 31) :
    creditOf (kCreditImmediate ||| UInt32.ofNat slots) = slots := by
  rw [creditOf, UInt32.toNat_and, credit_toNat h]
  show (2 ^ 31 + slots) &&& (2 ^ 31 - 1) = slots
  rw [Nat.and_two_pow_sub_one_eq_mod]
  omega

end Immediates

/-! ## 2. Slots -/

section Slots

variable {b b' : Nat → UInt8} {slot slot' a : Nat} {l : List UInt8}

/-- The bytes of a slot are the same in both buffers. -/
def SameSlot (b b' : Nat → UInt8) (slot : Nat) : Prop :=
  ∀ j < kRdmaSlotSize, b' (slotData slot + j) = b (slotData slot + j)

theorem SameSlot.slice (h : SameSlot b b' slot) (off : Nat) {n : Nat} (hn : off + n ≤ kRdmaSlotSize) :
    slice b' (slotData slot + off) n = slice b (slotData slot + off) n := by
  refine slice_congr fun j hj => ?_
  rw [Nat.add_assoc]
  exact h (off + j) (by omega)

/-- Two slots are apart. -/
theorem slotData_apart (h : slot ≠ slot') :
    slotData slot + kRdmaSlotSize ≤ slotData slot' ∨ slotData slot' + kRdmaSlotSize ≤ slotData slot := by
  unfold slotData kRdmaSlotSize
  omega

/-- What is stored in one slot leaves the others alone. -/
theorem sameSlot_splice (h : slot ≠ slot') (hl : l.length ≤ kRdmaSlotSize) :
    SameSlot b (splice b (slotData slot) l) slot' := by
  intro j hj
  rcases slotData_apart h with h | h
  · exact splice_of_le (by omega)
  · exact splice_of_lt (by omega)

/-- What is stored below the ring leaves all slots alone. -/
theorem sameSlot_splice_below (h : a + l.length ≤ kRdmaRingOffset) : SameSlot b (splice b a l) slot := by
  intro j _
  refine splice_of_le (Nat.le_trans h ?_)
  unfold slotData
  omega

theorem SameSlot.trans {b'' : Nat → UInt8} (h : SameSlot b b' slot) (h' : SameSlot b' b'' slot) :
    SameSlot b b'' slot := fun j hj => (h' j hj).trans (h j hj)

theorem SameSlot.refl : SameSlot b b slot := fun _ _ => rfl

end Slots

/-! ## 3. Completions and requests -/

section Queues

variable {ws ws' : List Completion} {rs rs' : List SendRequest} {w : Completion} {r : SendRequest}

/-- The immediates among completions. -/
def imms (ws : List Completion) : List UInt32 :=
  ws.filterMap fun w => if w.opcode = .recvRdmaWithImm then some w.immediate else none

/-- The number of control messages among completions. -/
def controls (ws : List Completion) : Nat := ws.countP (·.opcode = .recv)

/-- The writes among requests. -/
def writes (rs : List SendRequest) : List SendRequest := rs.filter (·.opcode = .rdmaWriteWithImm)

/-- The number of control messages among requests. -/
def controlSends (rs : List SendRequest) : Nat := rs.countP (·.opcode = .send)

/-- A completion of an own request. -/
def Own (w : Completion) : Prop := w.opcode ≠ .recv ∧ w.opcode ≠ .recvRdmaWithImm

@[simp] theorem imms_nil : imms [] = [] := rfl

@[simp] theorem imms_append : imms (ws ++ ws') = imms ws ++ imms ws' := List.filterMap_append

@[simp] theorem controls_nil : controls [] = 0 := rfl

@[simp] theorem controls_append : controls (ws ++ ws') = controls ws + controls ws' :=
  List.countP_append

@[simp] theorem writes_nil : writes [] = [] := rfl

@[simp] theorem writes_append : writes (rs ++ rs') = writes rs ++ writes rs' := List.filter_append ..

@[simp] theorem controlSends_nil : controlSends [] = 0 := rfl

@[simp] theorem controlSends_append :
    controlSends (rs ++ rs') = controlSends rs + controlSends rs' := List.countP_append

theorem imms_cons_of_eq (h : w.opcode = .recvRdmaWithImm) : imms (w :: ws) = w.immediate :: imms ws := by
  simp [imms, h]

theorem imms_cons_of_ne (h : w.opcode ≠ .recvRdmaWithImm) : imms (w :: ws) = imms ws := by
  simp [imms, h]

theorem controls_cons_of_eq (h : w.opcode = .recv) : controls (w :: ws) = controls ws + 1 := by
  simp [controls, h]

theorem controls_cons_of_ne (h : w.opcode ≠ .recv) : controls (w :: ws) = controls ws := by
  simp [controls, h]

theorem writes_cons_of_eq (h : r.opcode = .rdmaWriteWithImm) : writes (r :: rs) = r :: writes rs := by
  simp [writes, h]

theorem writes_cons_of_ne (h : r.opcode ≠ .rdmaWriteWithImm) : writes (r :: rs) = writes rs := by
  simp [writes, h]

theorem controlSends_cons_of_eq (h : r.opcode = .send) :
    controlSends (r :: rs) = controlSends rs + 1 := by
  simp [controlSends, h]

theorem controlSends_cons_of_ne (h : r.opcode ≠ .send) : controlSends (r :: rs) = controlSends rs := by
  simp [controlSends, h]

/-- Requests are writes or control messages. -/
theorem length_sendQueue (rs : List SendRequest) :
    rs.length = (writes rs).length + controlSends rs := by
  induction rs with
  | nil => rfl
  | cons r rs ih =>
    rw [List.length_cons, ih]
    cases ho : r.opcode with
    | send =>
      rw [writes_cons_of_ne (by rw [ho]; decide), controlSends_cons_of_eq ho]
      rfl
    | rdmaWriteWithImm =>
      rw [writes_cons_of_eq ho, controlSends_cons_of_ne (by rw [ho]; decide), List.length_cons]
      omega

/-- Requests that are all writes. -/
theorem writes_eq_self (h : ∀ r ∈ rs, r.opcode = .rdmaWriteWithImm) : writes rs = rs :=
  List.filter_eq_self.mpr fun r hr => decide_eq_true (h r hr)

theorem controlSends_eq_zero (h : ∀ r ∈ rs, r.opcode = .rdmaWriteWithImm) : controlSends rs = 0 := by
  refine List.countP_eq_zero.mpr fun r hr => ?_
  rw [h r hr]
  decide

end Queues

namespace TransportRDMA

section Unhandled

variable {t : TransportRDMA} {w : Completion} {batch : List Completion} {q : QueuePair}

/-- The next completion is one of the queue pair. -/
theorem waiting_cons (hb : t.batch = w :: batch) (hw : w.queuePair = q) :
    t.waiting q = w :: waiting { t with batch := batch } q := by
  rw [waiting, hb, List.cons_append, List.filter_cons_of_pos (by simpa using hw)]
  rfl

/-- The next completion is another queue pair's. -/
theorem waiting_skip (hb : t.batch = w :: batch) (hw : w.queuePair ≠ q) :
    t.waiting q = waiting { t with batch := batch } q := by
  rw [waiting, hb, List.cons_append, List.filter_cons_of_neg (by simpa using hw)]
  rfl

/-- A completion of the queue pair arrives. -/
theorem waiting_push (hw : w.queuePair = q) :
    waiting { t with cq := t.cq ++ [w] } q = t.waiting q ++ [w] := by
  show (t.batch ++ (t.cq ++ [w])).filter _ = _
  rw [← List.append_assoc, List.filter_append, List.filter_cons_of_pos (by simpa using hw)]
  rfl

/-- A completion of another queue pair arrives. -/
theorem waiting_push_other (hw : w.queuePair ≠ q) :
    waiting { t with cq := t.cq ++ [w] } q = t.waiting q := by
  show (t.batch ++ (t.cq ++ [w])).filter _ = _
  rw [← List.append_assoc, List.filter_append, List.filter_cons_of_neg (by simpa using hw),
    List.filter_nil, List.append_nil]
  rfl

theorem unhandled_cons (hb : t.batch = w :: batch) (hw : w.queuePair = .ring) :
    t.unhandled = w :: unhandled { t with batch := batch } := waiting_cons hb hw

theorem unhandled_push (hw : w.queuePair = .ring) :
    unhandled { t with cq := t.cq ++ [w] } = t.unhandled ++ [w] := waiting_push hw

/-- Completions that are polled wait as before. -/
theorem waiting_poll (hb : t.batch = []) (count : Nat) :
    waiting { t with batch := t.cq.take count, cq := t.cq.drop count } q = t.waiting q := by
  show (t.cq.take count ++ t.cq.drop count).filter _ = (t.batch ++ t.cq).filter _
  rw [List.take_append_drop, hb, List.nil_append]

end Unhandled

end TransportRDMA

/-- **Request `r` carries the chunk with number `n`**: to the slot of that number, with an announcement,
    from the same slot of the local buffer or inline. -/
structure Writes (b : Nat → UInt8) (chunk : List UInt8) (n : Nat) (r : SendRequest) : Prop where
  opcode : r.opcode = .rdmaWriteWithImm
  length : r.length = chunk.length
  remote : r.remoteAddr = slotData (n % kRdmaSlotCount)
  immediate : r.immediate = encodeDataImmediate (n % kRdmaSlotCount) chunk.length
  place : r.inlined = none → r.localAddr = slotData (n % kRdmaSlotCount)
  payload : r.payload b = chunk

/-- A request keeps its bytes while its slot is left alone. -/
theorem Writes.frame {b b' : Nat → UInt8} {chunk : List UInt8} {n : Nat} {r : SendRequest}
    (h : Writes b chunk n r) (hl : chunk.length ≤ kRdmaSlotSize)
    (hs : SameSlot b b' (n % kRdmaSlotCount)) : Writes b' chunk n r := by
  refine { h with payload := ?_ }
  have hp := h.payload
  cases hi : r.inlined with
  | some bytes =>
    rw [SendRequest.payload, hi] at hp ⊢
    exact hp
  | none =>
    have hlen := h.length
    rw [SendRequest.payload, hi, h.place hi] at hp ⊢
    have := hs.slice 0 (n := r.length) (by omega)
    rw [Nat.add_zero] at this
    exact this.trans hp

/-! ## 4. Completions are handled -/

namespace TransportRDMA

section Handle

variable {t : TransportRDMA} {w : Completion}

theorem handle_own (hs : w.status = .success) (ho : Own w) :
    ∃ b, t.handleCompletion w = .ok { t with controlSent := b } := by
  unfold handleCompletion
  rw [hs]
  cases hop : w.opcode with
  | send => exact ⟨true, rfl⟩
  | rdmaWrite => exact ⟨t.controlSent, rfl⟩
  | recv => exact absurd hop ho.1
  | recvRdmaWithImm => exact absurd hop ho.2
  | other => exact ⟨t.controlSent, rfl⟩

theorem handle_control (hs : w.status = .success) (ho : w.opcode = .recv) :
    ∃ b i, t.handleCompletion w = .ok { t with
      controlReceived := b, controlIndex := i, recvQueue := t.recvQueue ++ [w.wrId] } := by
  unfold handleCompletion
  rw [hs, ho]
  dsimp only
  split
  · exact ⟨true, w.wrId, rfl⟩
  · exact ⟨t.controlReceived, t.controlIndex, rfl⟩

theorem handle_credit (hs : w.status = .success) (ho : w.opcode = .recvRdmaWithImm)
    (hc : w.immediate &&& kCreditImmediate ≠ 0) : t.handleCompletion w = .ok { t with
      creditsReceived := t.creditsReceived + creditOf w.immediate,
      recvQueue := t.recvQueue ++ [w.wrId] } := by
  unfold handleCompletion
  rw [hs, ho]
  dsimp only
  rw [if_pos hc]
  rfl

theorem handle_data (hs : w.status = .success) (ho : w.opcode = .recvRdmaWithImm)
    (hc : w.immediate &&& kCreditImmediate = 0) (hslot : immediateSlot w.immediate < kRdmaSlotCount) :
    t.handleCompletion w = .ok { t with
      arrivalLengths := Function.update t.arrivalLengths (t.arrivalTail % kRdmaSlotCount)
        (immediateLength w.immediate)
      arrivalTail := t.arrivalTail + 1, recvQueue := t.recvQueue ++ [w.wrId] } := by
  unfold handleCompletion
  rw [hs, ho]
  dsimp only
  rw [if_neg (not_not.mpr hc), if_neg (Nat.not_le.mpr hslot)]
  rfl

/-- Handling a completion takes none from the queues, and leaves the call alone. -/
theorem handleCompletion_queues {t' : TransportRDMA} (h : t.handleCompletion w = .ok t') :
    t'.batch = t.batch ∧ t'.cq = t.cq ∧ t'.call = t.call ∧ t'.last = t.last := by
  unfold handleCompletion at h
  split at h
  · cases h
  · split at h
    · cases h
      exact ⟨rfl, rfl, rfl, rfl⟩
    · cases h
      exact ⟨rfl, rfl, rfl, rfl⟩
    · cases h
      split <;> exact ⟨rfl, rfl, rfl, rfl⟩
    · split at h
      · cases h
        exact ⟨rfl, rfl, rfl, rfl⟩
      · dsimp only at h
        split at h
        · cases h
        · cases h
          exact ⟨rfl, rfl, rfl, rfl⟩
    · cases h
      exact ⟨rfl, rfl, rfl, rfl⟩

end Handle

/-! ## 5. A send call -/

/-- What a call has posted: the requests `rs` carry the chunks `news`, numbered from `first` on, which
    are the bytes of its data from `start` on; the other slots of the buffer are left alone. -/
structure Posted (b b' source : Nat → UInt8) (first start : Nat) (news : List (List UInt8))
    (rs : List SendRequest) : Prop where
  count : rs.length = news.length
  sizes : ∀ x ∈ news, 0 < x.length ∧ x.length ≤ kRdmaSlotSize
  bytes : news.flatten = slice source start news.flatten.length
  requests : ∀ pre : List (List UInt8), pre.length = first →
    Numbered (fun k r => Writes b' ((pre ++ news).getD k []) k r) first rs
  frame : ∀ slot, (∀ k < news.length, (first + k) % kRdmaSlotCount ≠ slot) → SameSlot b b' slot

/-- **One iteration** prepares one request; nothing but its slot changes. -/
theorem prepareWrite_spec (t : TransportRDMA) (source : Nat → UInt8) (size progress bytes i : Nat)
    (signaled : Bool) :
    ∃ b r, t.prepareWrite source size progress i bytes signaled = ({ t with buffer := b }, r) ∧
      Writes b (slice source (progress + bytes) (min kRdmaSlotSize (size - progress - bytes)))
        (t.sendSeq + i) r ∧
      ∀ slot, (t.sendSeq + i) % kRdmaSlotCount ≠ slot → SameSlot t.buffer b slot := by
  unfold prepareWrite
  dsimp only
  split
  · refine ⟨t.buffer, _, rfl, ⟨rfl, length_slice.symm, rfl, ?_, (fun h => nomatch h), rfl⟩,
      fun _ _ => SameSlot.refl⟩
    rw [length_slice]
  · refine ⟨_, _, rfl, ⟨rfl, length_slice.symm, rfl, ?_, fun _ => rfl, ?_⟩, fun slot hne => ?_⟩
    · rw [length_slice]
    · have := slice_splice_self (f := t.buffer)
        (a := slotData ((t.sendSeq + i) % kRdmaSlotCount))
        (l := slice source (progress + bytes) (min kRdmaSlotSize (size - progress - bytes)))
      rw [length_slice] at this
      exact this
    · refine sameSlot_splice hne ?_
      rw [length_slice]
      exact Nat.min_le_left ..

/-- **The loop** prepares one request for each chunk. -/
theorem prepareWrites_spec (t : TransportRDMA) (source : Nat → UInt8) {size progress : Nat}
    {n : Nat} : ∀ i bytes : Nat, progress + bytes ≤ size →
    (∀ k < n, progress + bytes + k * kRdmaSlotSize < size) → n ≤ kRdmaSlotCount →
    ∃ b news rs, t.prepareWrites source size progress i bytes n =
        ({ t with buffer := b }, rs, bytes + news.flatten.length) ∧ news.length = n ∧
      progress + bytes + news.flatten.length ≤ size ∧
      Posted t.buffer b source (t.sendSeq + i) (progress + bytes) news rs := by
  induction n generalizing t with
  | zero =>
    intro i bytes hle _ _
    exact ⟨t.buffer, [], [], rfl, rfl, hle,
      rfl, (fun x hx => nomatch hx), rfl, fun _ _ => trivial, fun _ _ => SameSlot.refl⟩
  | succ n ih =>
    intro i bytes hle hroom hn
    obtain ⟨b₁, r, hr, hwr, hframe⟩ := t.prepareWrite_spec source size progress bytes i
      (decide (n = 0))
    have h0 := hroom 0 (Nat.succ_pos n)
    rw [Nat.zero_mul, Nat.add_zero] at h0
    have hrlen := hwr.length
    rw [length_slice] at hrlen
    have hpos : 0 < kRdmaSlotSize := by decide
    obtain ⟨b, news, rs, hrs, hcount, htotal, hposted⟩ := ih { t with buffer := b₁ }
      (i + 1) (bytes + r.length) (by omega)
      (fun k hk => by
        have := hroom (k + 1) (by omega)
        rw [Nat.add_mul, Nat.one_mul] at this
        omega)
      (by omega)
    have hx : (slice source (progress + bytes) (min kRdmaSlotSize (size - progress - bytes))).length =
        r.length := by rw [length_slice, hrlen]
    refine ⟨b, slice source (progress + bytes) r.length :: news, r :: rs, ?_, ?_, ?_, ?_⟩
    · rw [prepareWrites, hr]
      dsimp only
      rw [hrs, List.flatten_cons, List.length_append, length_slice, Nat.add_assoc]
    · rw [List.length_cons, hcount]
    · rw [List.flatten_cons, List.length_append, length_slice]
      omega
    · have hbytes := hposted.bytes
      have hseq : t.sendSeq + (i + 1) = t.sendSeq + i + 1 := rfl
      refine ⟨?_, ?_, ?_, ?_, ?_⟩
      · rw [List.length_cons, List.length_cons, hposted.count]
      · intro x hmem
        rcases List.mem_cons.mp hmem with rfl | hmem
        · rw [length_slice]
          omega
        · exact hposted.sizes x hmem
      · rw [List.flatten_cons, List.length_append, length_slice, ← slice_append]
        congr 1
        rw [Nat.add_assoc]
        exact hbytes
      · intro pre hpre
        have hget : (pre ++ slice source (progress + bytes) r.length :: news).getD (t.sendSeq + i) [] =
            slice source (progress + bytes) r.length := by
          rw [← hpre, List.getD_append_right _ _ _ _ (Nat.le_refl _), Nat.sub_self, List.getD_cons_zero]
        refine ⟨?_, ?_⟩
        · beta_reduce
          rw [hget]
          rw [← hrlen] at hwr
          refine hwr.frame (by rw [length_slice]; omega) (hposted.frame _ fun k hk => ?_)
          have h1 : t.sendSeq + i < t.sendSeq + (i + 1) + k := by omega
          have h2 : t.sendSeq + (i + 1) + k < t.sendSeq + i + kRdmaSlotCount := by omega
          exact (mod_ne_of_lt h1 h2).symm
        · have hrest := hposted.requests (pre ++ [slice source (progress + bytes) r.length]) (by
            rw [List.length_append, hpre]
            rfl)
          rw [List.append_assoc, List.singleton_append] at hrest
          exact hrest
      · intro slot hne
        have h1 := hframe slot (hne 0 (by rw [List.length_cons]; omega))
        refine h1.trans (hposted.frame slot fun k hk => ?_)
        have := hne (k + 1) (by rw [List.length_cons]; omega)
        rw [← Nat.add_assoc, Nat.add_right_comm] at this
        exact this

/-- **A send call** posts chunks of its data, as many as the window allows. -/
theorem trySend_spec {t : TransportRDMA} {c : RdmaCall}
    (hc : t.creditsReceived ≤ t.sendSeq) (hw : t.sendSeq ≤ t.creditsReceived + kRdmaSlotCount)
    (hle : c.progress ≤ c.size) :
    ∃ b news rs,
      t.trySend c = ({ t with buffer := b, sendQueue := t.sendQueue ++ rs,
                              sendSeq := t.sendSeq + news.length },
        { c with progress := c.progress + news.flatten.length }) ∧
      c.progress + news.flatten.length ≤ c.size ∧
      t.sendSeq + news.length ≤ t.creditsReceived + kRdmaSlotCount ∧ news.length ≤ kRdmaSlotCount ∧
      Posted t.buffer b c.data t.sendSeq c.progress news rs := by
  unfold trySend
  dsimp only
  generalize hcount : min (if t.sendSeq < t.creditsReceived + kRdmaSlotCount then
    t.creditsReceived + kRdmaSlotCount - t.sendSeq else 0) (if c.size - c.progress = 0 then 0 else
    1 + (c.size - c.progress - 1) / kRdmaSlotSize) = count
  split
  · rename_i hpos
    have hS : kRdmaSlotSize = 32768 := rfl
    have hC : kRdmaSlotCount = 32 := rfl
    have hroom : ∀ k < count, c.progress + 0 + k * kRdmaSlotSize < c.size := by
      intro k hk
      rw [hS] at hcount ⊢
      split at hcount <;> split at hcount <;> omega
    have hwindow : t.sendSeq + count ≤ t.creditsReceived + kRdmaSlotCount := by
      split at hcount <;> omega
    have hmany : count ≤ kRdmaSlotCount := by
      split at hcount <;> omega
    obtain ⟨b, news, rs, hrs, hlen, htotal, hposted⟩ := t.prepareWrites_spec c.data 0 0 hle
      hroom hmany
    refine ⟨b, news, rs, ?_, htotal, ?_, ?_, hposted⟩
    · rw [postWrites, hrs, hlen, Nat.zero_add]
    · rw [hlen]
      exact hwindow
    · rw [hlen]
      omega
  · refine ⟨t.buffer, [], [], ?_, hle, hw, Nat.zero_le _, rfl, (fun x hx => nomatch hx), rfl,
      fun _ _ => trivial, fun _ _ => SameSlot.refl⟩
    rw [List.append_nil]
    rfl

/-! ## 6. A receive call -/

/-- **One iteration** copies bytes of the oldest chunk, and gives its slot back when it is used up. -/
theorem consume_spec {t : TransportRDMA} {c : RdmaCall} {chunk : List UInt8}
    (hlen : t.arrivalLengths (t.arrivalHead % kRdmaSlotCount) = chunk.length)
    (hbuf : slice t.buffer (slotData (t.arrivalHead % kRdmaSlotCount)) chunk.length = chunk)
    (hoff : t.arrivalOffset < chunk.length) (hp : c.progress < c.size) :
    ∃ m, 0 < m ∧ t.arrivalOffset + m ≤ chunk.length ∧ c.progress + m ≤ c.size ∧
      t.consume c = (if t.arrivalOffset + m = chunk.length then
          { t with arrivalOffset := 0, arrivalHead := t.arrivalHead + 1,
                   pendingCredit := t.pendingCredit + 1 }
        else { t with arrivalOffset := t.arrivalOffset + m },
        { c with data := splice c.data c.progress ((chunk.drop t.arrivalOffset).take m)
                 progress := c.progress + m }) := by
  refine ⟨min (chunk.length - t.arrivalOffset) (c.size - c.progress), by omega, by omega, by omega, ?_⟩
  have hslice : slice t.buffer (slotData (t.arrivalHead % kRdmaSlotCount) + t.arrivalOffset)
      (min (chunk.length - t.arrivalOffset) (c.size - c.progress)) =
      (chunk.drop t.arrivalOffset).take
        (min (chunk.length - t.arrivalOffset) (c.size - c.progress)) := by
    have h := congrArg (fun l => (l.drop t.arrivalOffset).take
      (min (chunk.length - t.arrivalOffset) (c.size - c.progress))) hbuf
    rw [drop_slice (by omega), take_slice (by omega)] at h
    exact h
  unfold consume
  dsimp only
  rw [hlen, hslice]
  split <;> rfl

/-- **The end of a receive call**: either the used slots go back, or they stay for a later call while
    chunks are waiting. -/
theorem returnCredit_cases (t : TransportRDMA) :
    (t.returnCredit = t ∧ (t.arrivalHead = t.arrivalTail → t.pendingCredit = 0)) ∨
    0 < t.pendingCredit ∧
      t.returnCredit = { t.postCredit t.pendingCredit with pendingCredit := 0 } := by
  unfold returnCredit
  split
  · rename_i h
    right
    refine ⟨?_, rfl⟩
    have hb : kCreditBatch = 8 := rfl
    omega
  · rename_i h
    left
    refine ⟨rfl, fun he => ?_⟩
    omega

end TransportRDMA

end OriginCCL
