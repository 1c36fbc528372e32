/-
  File:      OriginCCL/Transport/RdmaLabels.lean
  Subject:   THE WRITES OF ONE SEND CALL, and what their immediates say.

  `PostWrites` cuts the bytes of a call into writes of a slot each, in arrays with a place for every
  slot; `TrySend` computes from the credits how many. Slot, length and the kind of an immediate share
  its 32 bits.

  * `trySendWord` -- `TrySend` with the window in `size_t`.
  * `Labelled` -- the writes of a call: their number, sizes, slots, bytes and immediates.
  * `writes_labelled` -- **every call posts labelled writes**, and the receiver takes their immediates
    for announcements and those of `PostCredit` for credits.
-/
import OriginCCL.Transport.RdmaRing

namespace OriginCCL

open Base

namespace TransportRDMA

open RdmaSystem (writeArrival)

/-! ## 1. The window -/

/-- The number of writes `TrySend` posts: the slots the credits leave, and the slots the rest of the
    message fills. -/
def countWord (t : TransportRDMA) (c : RdmaCall) : Nat :=
  let limit := (t.creditsReceived + kRdmaSlotCount) % 2 ^ 64
  let available := if t.sendSeq < limit then limit - t.sendSeq else 0
  let remaining := c.size - c.progress
  let chunks := if remaining = 0 then 0 else 1 + (remaining - 1) / kRdmaSlotSize
  min available chunks

/-- `TrySend` after `ProcessCompletions`, with the arithmetic of the source. The slots are those of
    `prepareWrite`, since the number of slots divides 2^64. -/
def trySendWord (t : TransportRDMA) (c : RdmaCall) : TransportRDMA × RdmaCall :=
  let count := t.countWord c
  if 0 < count then
    let (t, bytes) := t.postWrites c.data c.size c.progress count
    ({ t with sendSeq := (t.sendSeq + count) % 2 ^ 64 }, { c with progress := c.progress + bytes })
  else (t, c)

section Window

variable {t : TransportRDMA} {c : RdmaCall}

/-- **A call posts no more writes than there are slots**, also where `limit` wraps around. -/
theorem countWord_le (hc : t.creditsReceived ≤ t.sendSeq) : t.countWord c ≤ kRdmaSlotCount := by
  have hslots : kRdmaSlotCount = 32 := rfl
  have hwrap := Nat.mod_le (t.creditsReceived + kRdmaSlotCount) (2 ^ 64)
  unfold countWord
  dsimp only
  refine Nat.le_trans (Nat.min_le_left ..) ?_
  split_ifs <;> omega

/-- **Each of them has something to carry.** -/
theorem countWord_room {k : Nat} (hk : k < t.countWord c) :
    c.progress + k * kRdmaSlotSize < c.size := by
  have hS : kRdmaSlotSize = 32768 := rfl
  unfold countWord at hk
  dsimp only at hk
  have hk := Nat.lt_of_lt_of_le hk (Nat.min_le_right ..)
  rw [hS] at hk ⊢
  split_ifs at hk with h0
  · exact absurd hk (Nat.not_lt_zero k)
  · omega

/-- **Below 2^64 the window is that of `trySend`.** -/
theorem trySendWord_eq (hc : t.creditsReceived ≤ t.sendSeq)
    (hw : t.sendSeq ≤ t.creditsReceived + kRdmaSlotCount) (hp : c.progress ≤ c.size)
    (hlt : t.creditsReceived + kRdmaSlotCount < 2 ^ 64) : t.trySendWord c = t.trySend c := by
  have hcount : t.countWord c = min
      (if t.sendSeq < t.creditsReceived + kRdmaSlotCount then
        t.creditsReceived + kRdmaSlotCount - t.sendSeq else 0)
      (if c.size - c.progress = 0 then 0 else 1 + (c.size - c.progress - 1) / kRdmaSlotSize) := by
    rw [countWord, Nat.mod_eq_of_lt hlt]
  have hwindow : t.sendSeq + t.countWord c ≤ t.creditsReceived + kRdmaSlotCount := by
    have hle : t.countWord c ≤ if t.sendSeq < t.creditsReceived + kRdmaSlotCount then
        t.creditsReceived + kRdmaSlotCount - t.sendSeq else 0 := by
      rw [hcount]
      exact Nat.min_le_left ..
    split_ifs at hle <;> omega
  obtain ⟨b, news, rs, hrs, -⟩ := t.prepareWrites_spec c.data 0 0 hp
    (fun k hk => countWord_room hk) (countWord_le hc)
  have hpost : (t.postWrites c.data c.size c.progress (t.countWord c)).1.sendSeq = t.sendSeq := by
    rw [postWrites, hrs]
  unfold trySendWord trySend
  dsimp only
  rw [← hcount, hpost, Nat.mod_eq_of_lt (by omega)]

end Window

/-! ## 2. The requests -/

/-- The place of write `k` behind the start of a call: all writes before it are full. -/
def startOf (size progress k : Nat) : Nat := min (k * kRdmaSlotSize) (size - progress)

theorem startOf_next (size progress k : Nat) :
    startOf size progress k + min kRdmaSlotSize (size - progress - startOf size progress k) =
      startOf size progress (k + 1) := by
  unfold startOf
  rw [Nat.add_mul, Nat.one_mul]
  omega

/-- Request `r` is that of iteration `k`. -/
def Prepared (t : TransportRDMA) (source : Nat → UInt8) (size progress k : Nat) (r : SendRequest) :
    Prop :=
  ∃ b signaled, r =
    (prepareWrite { t with buffer := b } source size progress k (startOf size progress k) signaled).2

section Requests

variable (t : TransportRDMA) (source : Nat → UInt8) (size progress : Nat)

/-- **The requests of the loop**, one after another. -/
theorem prepareWrites_prepared : ∀ (n i : Nat) (b : Nat → UInt8),
    Numbered (Prepared t source size progress) i
      (prepareWrites { t with buffer := b } source size progress i (startOf size progress i) n).2.1 := by
  intro n
  induction n with
  | zero => exact fun i b => trivial
  | succ n ih =>
    intro i b
    obtain ⟨b', r, hr, hwr, -⟩ := prepareWrite_spec { t with buffer := b } source size progress
      (startOf size progress i) i (decide (n = 0))
    have hlen := hwr.length
    rw [length_slice] at hlen
    have hrest := ih (i + 1) b'
    rw [← startOf_next, ← hlen] at hrest
    rw [prepareWrites, hr]
    exact ⟨⟨b, decide (n = 0), by rw [hr]⟩, hrest⟩

end Requests

/-- **Write `k` of a call**: as long as a slot unless the message ends before, with its slot and its
    length in the immediate and the credit bit clear, and inline exactly if it is short enough. -/
structure DataWrite (t : TransportRDMA) (c : RdmaCall) (k : Nat) (r : SendRequest) : Prop where
  opcode : r.opcode = .rdmaWriteWithImm
  length : r.length = min kRdmaSlotSize (c.size - (c.progress + k * kRdmaSlotSize))
  pos : 1 ≤ r.length
  slot : immediateSlot r.immediate = (t.sendSeq + k) % kRdmaSlotCount
  remote : r.remoteAddr = slotData (immediateSlot r.immediate)
  wrId : r.wrId = immediateSlot r.immediate + 1
  announced : immediateLength r.immediate = r.length
  noCredit : r.immediate &&& kCreditImmediate = 0
  inlined : r.inlined.isSome ↔ r.length < kRdmaInlineThreshold ∧ r.length ≤ t.inlineCapacity

/-- **The writes `rs` that a call posts** on its way from `c` to `c'`. -/
structure Labelled (t : TransportRDMA) (c : RdmaCall) (t' : TransportRDMA) (c' : RdmaCall)
    (rs : List SendRequest) : Prop where
  queued : t'.sendQueue = t.sendQueue ++ rs
  /-- the arrays of `PostWrites` have a place for each -/
  many : rs.length ≤ kRdmaSlotCount
  sizes : ∀ r ∈ rs, 1 ≤ r.length ∧ r.length ≤ kRdmaSlotSize
  writes : ∀ k (hk : k < rs.length), DataWrite t c k rs[k]
  /-- they use different slots -/
  slots : (rs.map fun r => immediateSlot r.immediate).Nodup
  progress : c'.progress = c.progress + (rs.map (·.length)).sum ∧ c'.progress ≤ c.size
  /-- each carries as many bytes as it says, and all together those of the message in between -/
  payload : ∀ r ∈ rs, (r.payload t'.buffer).length = r.length
  carried : (rs.map (·.payload t'.buffer)).flatten =
    slice c.data c.progress (c'.progress - c.progress)

section Labels

variable {t : TransportRDMA} {c : RdmaCall} {k : Nat} {r : SendRequest}

theorem Prepared.dataWrite (h : Prepared t c.data c.size c.progress k r)
    (hroom : c.progress + k * kRdmaSlotSize < c.size) : DataWrite t c k r := by
  obtain ⟨b, signaled, rfl⟩ := h
  have hstart : startOf c.size c.progress k = k * kRdmaSlotSize := by
    unfold startOf
    omega
  have hlen : c.size - c.progress - k * kRdmaSlotSize =
      c.size - (c.progress + k * kRdmaSlotSize) := by omega
  have hS : kRdmaSlotSize = 32768 := rfl
  have hslot : (t.sendSeq + k) % kRdmaSlotCount < kRdmaSlotCount := Nat.mod_lt _ (by decide)
  generalize hn : min kRdmaSlotSize (c.size - (c.progress + k * kRdmaSlotSize)) = n
  have hpos : 0 < n := by omega
  have hle : n ≤ kRdmaSlotSize := by omega
  have hs := immediateSlot_encode hslot hpos hle
  have hl := immediateLength_encode hslot hpos hle
  have hc := encodeDataImmediate_and hslot hpos hle
  rw [hstart]
  unfold prepareWrite
  rw [hlen, hn]
  dsimp only
  split_ifs with hinline
  · exact ⟨rfl, hn.symm, hpos, hs, by rw [hs], by rw [hs], hl, hc, iff_of_true rfl hinline⟩
  · exact ⟨rfl, hn.symm, hpos, hs, by rw [hs], by rw [hs], hl, hc, iff_of_false nofun hinline⟩

/-- Request `k` of a call carries chunk `k`. -/
theorem Posted.get {b b' source : Nat → UInt8} {first start : Nat} {news : List (List UInt8)}
    {rs : List SendRequest} (h : Posted b b' source first start news rs) (hk : k < rs.length) :
    Writes b' (news.get ⟨k, h.count ▸ hk⟩) (first + k) rs[k] := by
  have hnumbered := h.requests (List.replicate first []) List.length_replicate
  have hw := hnumbered.get hk
  rw [List.getD_append_right _ _ _ _ (by rw [List.length_replicate]; omega), List.length_replicate,
    Nat.add_sub_cancel_left, List.getD_eq_getElem _ _ (h.count ▸ hk)] at hw
  exact hw

/-- **All requests of a call** carry its chunks, and say how long they are. -/
theorem Posted.payloads {b b' source : Nat → UInt8} {first start : Nat} {news : List (List UInt8)}
    {rs : List SendRequest} (h : Posted b b' source first start news rs) :
    rs.map (·.payload b') = news ∧ rs.map (·.length) = news.map List.length := by
  constructor
  · refine List.ext_getElem (by rw [List.length_map, h.count]) fun k hk _ => ?_
    rw [List.getElem_map]
    exact (h.get (by rwa [List.length_map] at hk)).payload
  · refine List.ext_getElem (by rw [List.length_map, List.length_map, h.count]) fun k hk _ => ?_
    rw [List.getElem_map, List.getElem_map]
    exact (h.get (by rwa [List.length_map] at hk)).length

/-- **The writes that `PostWrites` prepares are labelled.** -/
theorem postWrites_labelled {count : Nat} (hmany : count ≤ kRdmaSlotCount)
    (hroom : ∀ k < count, c.progress + k * kRdmaSlotSize < c.size) (hp : c.progress ≤ c.size) :
    ∃ rs, Labelled t c (t.postWrites c.data c.size c.progress count).1
      { c with progress := c.progress + (t.postWrites c.data c.size c.progress count).2 } rs := by
  obtain ⟨b, news, rs, hrs, hcount, htotal, hposted⟩ := t.prepareWrites_spec c.data 0 0 hp hroom hmany
  have hprepared := prepareWrites_prepared t c.data c.size c.progress count 0 t.buffer
  rw [show startOf c.size c.progress 0 = 0 by simp [startOf],
    show ({ t with buffer := t.buffer } : TransportRDMA) = t from rfl, hrs] at hprepared
  have hlen : rs.length = count := by rw [hposted.count, hcount]
  have hwrites : ∀ k (hk : k < rs.length), DataWrite t c k rs[k] := by
    intro k hk
    have h := hprepared.get hk
    rw [Nat.zero_add] at h
    exact h.dataWrite (hroom k (by omega))
  obtain ⟨hpayloads, hlengths⟩ := hposted.payloads
  have hpost : t.postWrites c.data c.size c.progress count =
      ({ t with buffer := b, sendQueue := t.sendQueue ++ rs }, news.flatten.length) := by
    rw [postWrites, hrs, Nat.zero_add]
  rw [hpost]
  refine ⟨rs, rfl, by omega, ?_, hwrites, ?_, ⟨?_, htotal⟩, ?_, ?_⟩
  · intro r hr
    obtain ⟨k, hk, rfl⟩ := List.getElem_of_mem hr
    have h := hwrites k hk
    exact ⟨h.pos, h.length ▸ Nat.min_le_left ..⟩
  · rw [List.Nodup, List.pairwise_iff_getElem]
    intro i j hi hj hij
    rw [List.length_map] at hi hj
    rw [List.getElem_map, List.getElem_map, (hwrites i hi).slot, (hwrites j hj).slot]
    exact mod_ne_of_lt (by omega) (by omega)
  · show c.progress + news.flatten.length = _
    rw [hlengths, List.length_flatten]
  · intro r hr
    obtain ⟨k, hk, rfl⟩ := List.getElem_of_mem hr
    rw [(hposted.get hk).payload, (hposted.get hk).length]
  · show (rs.map (·.payload b)).flatten = slice c.data c.progress (c.progress + news.flatten.length - _)
    rw [hpayloads, Nat.add_sub_cancel_left]
    exact hposted.bytes

/-! ## 3. The calls -/

theorem trySendWord_labelled (hc : t.creditsReceived ≤ t.sendSeq) (hp : c.progress < c.size) :
    ∃ rs, Labelled t c (t.trySendWord c).1 (t.trySendWord c).2 rs := by
  unfold trySendWord
  dsimp only
  split_ifs with hcount
  · obtain ⟨rs, h⟩ := postWrites_labelled (t := t) (countWord_le (c := c) hc)
      (fun _ => countWord_room) (Nat.le_of_lt hp)
    generalize t.postWrites c.data c.size c.progress (t.countWord c) = p at h ⊢
    exact ⟨rs, h.queued, h.many, h.sizes, h.writes, h.slots, h.progress, h.payload, h.carried⟩
  · refine ⟨[], (List.append_nil _).symm, Nat.zero_le _, ?_, ?_, List.nodup_nil,
      ⟨rfl, Nat.le_of_lt hp⟩, ?_, ?_⟩
    · exact fun r hr => absurd hr List.not_mem_nil
    · exact fun k hk => absurd hk (Nat.not_lt_zero k)
    · exact fun r hr => absurd hr List.not_mem_nil
    · rw [Nat.sub_self]
      rfl

/-- What the receiver of an immediate makes of it: the announcement of a write. -/
theorem handleCompletion_write (h : DataWrite t c k r) (p : TransportRDMA) (index : Nat) :
    p.handleCompletion (writeArrival r index) = .ok { p with
      arrivalLengths := Function.update p.arrivalLengths (p.arrivalTail % kRdmaSlotCount) r.length
      arrivalTail := p.arrivalTail + 1, recvQueue := p.recvQueue ++ [index] } := by
  have hslot : immediateSlot r.immediate < kRdmaSlotCount := by
    rw [h.slot]
    exact Nat.mod_lt _ (by decide)
  rw [handle_data (w := writeArrival r index) rfl rfl h.noCredit hslot]
  simp only [writeArrival, h.announced]

/-- What `PostCredit` posts, and what its receiver makes of it. -/
theorem postCredit_labelled (slots : Nat) (h : slots < 2 ^ 31) :
    ∃ r : SendRequest, (t.postCredit slots).sendQueue = t.sendQueue ++ [r] ∧
      r.immediate &&& kCreditImmediate ≠ 0 ∧ creditOf r.immediate = slots ∧
      ∀ (p : TransportRDMA) (index : Nat), p.handleCompletion (writeArrival r index) = .ok { p with
        creditsReceived := p.creditsReceived + slots, recvQueue := p.recvQueue ++ [index] } := by
  let r : SendRequest :=
    { opcode := .rdmaWriteWithImm, localAddr := kRdmaCreditOffset, length := 1,
      remoteAddr := kRdmaCreditOffset, immediate := kCreditImmediate ||| UInt32.ofNat slots }
  refine ⟨r, rfl, credit_and h, creditOf_credit h, ?_⟩
  intro p index
  have hhandle := handle_credit (t := p) (w := writeArrival r index) rfl rfl (credit_and h)
  rw [show creditOf (writeArrival r index).immediate = slots from creditOf_credit h] at hhandle
  exact hhandle

/-- **A send call posts labelled writes**, in and outside of its window; the receiver takes each of their immediates for
    the announcement of that write, and the immediate of a credit for that many slots. -/
theorem writes_labelled (hc : t.creditsReceived ≤ t.sendSeq) (hp : c.progress < c.size) :
    (∃ rs, Labelled t c (t.trySendWord c).1 (t.trySendWord c).2 rs ∧
      ∀ r ∈ rs, ∀ (p : TransportRDMA) (index : Nat),
        p.handleCompletion (writeArrival r index) = .ok { p with
          arrivalLengths := Function.update p.arrivalLengths (p.arrivalTail % kRdmaSlotCount) r.length
          arrivalTail := p.arrivalTail + 1, recvQueue := p.recvQueue ++ [index] }) ∧
    ∀ slots < 2 ^ 31, ∃ r : SendRequest, (t.postCredit slots).sendQueue = t.sendQueue ++ [r] ∧
      r.immediate &&& kCreditImmediate ≠ 0 ∧ creditOf r.immediate = slots ∧
      ∀ (p : TransportRDMA) (index : Nat), p.handleCompletion (writeArrival r index) = .ok { p with
        creditsReceived := p.creditsReceived + slots, recvQueue := p.recvQueue ++ [index] } := by
  refine ⟨?_, postCredit_labelled⟩
  obtain ⟨rs, h⟩ := trySendWord_labelled hc hp
  refine ⟨rs, h, ?_⟩
  intro r hr
  obtain ⟨k, hk, rfl⟩ := List.getElem_of_mem hr
  exact handleCompletion_write (h.writes k hk)

/-- A message of three slots that finds one slot free. -/
theorem writes_labelled_one :
    let t : TransportRDMA := { inlineCapacity := 64, sendSeq := 31 }
    let c : RdmaCall := { data := fun _ => 7, size := 70000, start := 0, progress := 0 }
    t.countWord c = 1 ∧ ∃ rs, Labelled t c (t.trySendWord c).1 (t.trySendWord c).2 rs := by
  intro t c
  obtain ⟨⟨rs, h, -⟩, -⟩ := writes_labelled (t := t) (c := c) (Nat.zero_le 31) (by decide)
  exact ⟨by decide, rs, h⟩

end Labels

end TransportRDMA

end OriginCCL
