/-
  File:      OriginCCL/Bootstrap/Streams.lean
  Subject:   `Utils::SendAll` and `Utils::RecvAll`: a size prefix and a payload over a byte stream.

  * `sendAll`, `recvAll` -- the two functions. The kernel may split the payload in any way, and it
    may fail any call; the prefix is one call that must move four bytes.
  * `sendAll_true` -- a `SendAll` that returns true has put the prefix and the payload on the stream.
  * `recvAll_true` -- a `RecvAll` that returns true has taken a prefix and as many bytes as it says.
  * `recvAll_sendAll` -- **what is sent is received**, however the two sides split it.
-/
import OriginCCL.Base.Transfers
import OriginCCL.Bootstrap.Wire

namespace OriginCCL.Bootstrap

open OriginCCL.Base

/-- The kernel's answers to the calls of one `SendAll` or `RecvAll`; call 0 is the prefix. The
    source treats a closed connection and an error alike. -/
abbrev SocketAnswers := Answers Unit

/-! ## 1. The functions -/

/-- The prefix `SendAll` writes. The size is cast to `uint32_t`. -/
def sizePrefix (data : List UInt8) : List UInt8 := htonl (.ofNat data.length)

/-- `SendAll`: what it returns, and the bytes it put on the stream. -/
def sendAll (answers : SocketAnswers) (data : List UInt8) : Bool × List UInt8 :=
  let sent := (answers 0 0 4).count 4
  if sent ≠ 4 then (false, (sizePrefix data).take sent)
  else
    let t := transfer answers data.length 1 0
    (t.stop.isNone, sizePrefix data ++ t.spans.flatMap fun s => (data.drop s.1).take s.2)

/-- The answers of `recv` on a stream: no more than what is there, and none at its end. -/
def onStream (stream : List UInt8) (answers : SocketAnswers) : SocketAnswers :=
  fun i offset requested =>
    if stream.length ≤ offset then .stopped ()
    else match answers i offset requested with
      | .moved more => .moved (min more (stream.length - offset - 1))
      | .stopped reason => .stopped reason

/-- The loop of `RecvAll`, after `buffer.resize(size)`. -/
def recvPayload (answers : SocketAnswers) (size : Nat) (stream : List UInt8) :
    Option (List UInt8) × List UInt8 :=
  let t := transfer (onStream stream answers) size 1 0
  let (buffer, stream) := fill t.spans (List.replicate size 0) stream
  (if t.stop.isNone then some buffer else none, stream)

/-- `RecvAll`: the buffer if it returns true, and what it leaves on the stream. -/
def recvAll (answers : SocketAnswers) (stream : List UInt8) :
    Option (List UInt8) × List UInt8 :=
  let recvd := (onStream stream answers 0 0 4).count 4
  if recvd ≠ 4 then (none, stream.drop recvd)
  else
    match stream with
    | a :: b :: c :: d :: stream =>
      let size := (ntohl a b c d).toNat
      if size = 0 then (some [], stream) else recvPayload answers size stream
    | stream => (none, stream)

/-! ## 2. What they do when they return true -/

section Sends

variable {answers : SocketAnswers} {data stream : List UInt8}

theorem sendAll_true (h : (sendAll answers data).1 = true) :
    (sendAll answers data).2 = sizePrefix data ++ data := by
  rw [sendAll] at h ⊢
  split_ifs at h ⊢ with hsent
  have hstop : (transfer answers data.length 1 0).stop = none := by simpa using h
  have hle := transfer_le answers data.length 1 0 (Nat.zero_le _)
  have hge := (transfer_none answers data.length 1 0).mp hstop
  have hspans := transfer_consecutive answers data.length 1 0
  show sizePrefix data ++ _ = _
  rw [hspans.flatMap data, List.drop_zero, Nat.sub_zero, List.take_of_length_le hge]

/-- `SendAll` returns true if no call fails and the first one takes the whole prefix. -/
theorem sendAll_reliable (data : List UInt8) (hfirst : (answers 0 0 4).count 4 = 4)
    (hpos : ∀ i o n, ∃ more, answers i o n = .moved more) : (sendAll answers data).1 = true := by
  rw [sendAll, if_neg (by rw [hfirst]; simp)]
  have h := transfer_always answers data.length hpos 1 0 (Nat.zero_le _)
  show (transfer answers data.length 1 0).stop.isNone = true
  rw [h.1]
  rfl

theorem onStream_moved {i o n more : Nat} (h : onStream stream answers i o n = .moved more) :
    o + more + 1 ≤ stream.length := by
  rw [onStream] at h
  split_ifs at h with hend
  split at h
  · cases h
    omega
  · cases h

/-- A loop over `recv` does not pass the end of the stream. -/
theorem transfer_onStream (answers : SocketAnswers) (stream : List UInt8) (size i p : Nat)
    (hp : p ≤ stream.length) :
    (transfer (onStream stream answers) size i p).progress ≤ stream.length := by
  refine transfer_induction (onStream stream answers)
    (P := fun _ p t => p ≤ stream.length → t.progress ≤ stream.length) ?_ ?_ ?_ i p hp
  · intro i p _ hp
    exact hp
  · intro i p reason _ _ hp
    exact hp
  · intro i p more t _ ha ih _
    have := onStream_moved ha
    exact ih (by omega)

theorem recvPayload_eq (size : Nat) :
    recvPayload answers size stream =
      let t := transfer (onStream stream answers) size 1 0
      (if t.stop.isNone then some (stream.take size) else none, stream.drop t.progress) := by
  rw [recvPayload]
  have hspans := transfer_consecutive (onStream stream answers) size 1 0
  have hle := transfer_le (onStream stream answers) size 1 0 (Nat.zero_le _)
  have hend := transfer_onStream answers stream size 1 0 (Nat.zero_le _)
  have hnone := transfer_none (onStream stream answers) size 1 0
  generalize transfer (onStream stream answers) size 1 0 = t at *
  have hfill := hspans.fill (List.replicate size 0) stream
    (by rw [List.length_replicate]; exact hle) (by omega)
  simp only [hfill, Nat.sub_zero]
  cases hstop : t.stop with
  | some reason => rfl
  | none =>
    have hsize : t.progress = size := by
      have := hnone.mp hstop
      omega
    rw [hsize] at hend ⊢
    simp [overwrite, List.length_take_of_le hend]

theorem recvPayload_true {size : Nat} {buffer rest : List UInt8}
    (h : recvPayload answers size stream = (some buffer, rest)) :
    stream = buffer ++ rest ∧ buffer.length = size := by
  rw [recvPayload_eq] at h
  have hle := transfer_le (onStream stream answers) size 1 0 (Nat.zero_le _)
  have hend := transfer_onStream answers stream size 1 0 (Nat.zero_le _)
  have hnone := transfer_none (onStream stream answers) size 1 0
  generalize transfer (onStream stream answers) size 1 0 = t at *
  simp only [Prod.mk.injEq] at h
  obtain ⟨hbuffer, hrest⟩ := h
  split_ifs at hbuffer with hstop
  have hsize : t.progress = size := by
    have := hnone.mp (by simpa using hstop)
    omega
  rw [hsize] at hrest hend
  cases hbuffer
  refine ⟨?_, List.length_take_of_le hend⟩
  rw [← hrest, List.take_append_drop]

/-- The loop over `recv` ends well if no call fails and the stream is long enough. -/
theorem recvPayload_reliable {size : Nat} (hpos : ∀ i o n, ∃ more, answers i o n = .moved more)
    (hlen : size ≤ stream.length) :
    recvPayload answers size stream = (some (stream.take size), stream.drop size) := by
  rw [recvPayload_eq]
  have hle := transfer_le (onStream stream answers) size 1 0 (Nat.zero_le _)
  have hnone := transfer_none (onStream stream answers) size 1 0
  have hstop : (transfer (onStream stream answers) size 1 0).stop = none := by
    cases hs : (transfer (onStream stream answers) size 1 0).stop with
    | none => rfl
    | some reason =>
      obtain ⟨hlt, ha⟩ := transfer_stop _ _ _ _ hs
      rw [onStream, if_neg (by omega)] at ha
      obtain ⟨more, hm⟩ := hpos (1 + (transfer (onStream stream answers) size 1 0).spans.length)
        (transfer (onStream stream answers) size 1 0).progress
        (size - (transfer (onStream stream answers) size 1 0).progress)
      rw [hm] at ha
      cases ha
  have hge := hnone.mp hstop
  have hsize : (transfer (onStream stream answers) size 1 0).progress = size := by omega
  simp only [hstop, Option.isNone_none, if_true, hsize]

/-- **`RecvAll` delivers what the prefix announces.** -/
theorem recvAll_true {buffer rest : List UInt8} (h : recvAll answers stream = (some buffer, rest)) :
    ∃ a b c d, stream = a :: b :: c :: d :: (buffer ++ rest) ∧
      buffer.length = (ntohl a b c d).toNat := by
  unfold recvAll at h
  by_cases hfirst : (onStream stream answers 0 0 4).count 4 = 4
  · rw [if_neg (by rw [hfirst]; simp)] at h
    rcases stream with _ | ⟨a, _ | ⟨b, _ | ⟨c, _ | ⟨d, tail⟩⟩⟩⟩
    · cases h
    · cases h
    · cases h
    · cases h
    · refine ⟨a, b, c, d, ?_⟩
      change (if (ntohl a b c d).toNat = 0 then (some [], tail)
        else recvPayload answers (ntohl a b c d).toNat tail) = (some buffer, rest) at h
      split_ifs at h with hzero
      · cases h
        exact ⟨rfl, hzero.symm⟩
      · obtain ⟨rfl, hlen⟩ := recvPayload_true h
        exact ⟨rfl, hlen⟩
  · rw [if_pos hfirst] at h
    cases h

/-- **What is sent is received**: a payload below 4 GiB, however the two sides split it, and what
    follows it on the stream stays there. -/
theorem recvAll_sendAll {sends recvs : SocketAnswers} (after : List UInt8)
    (hdata : data.length < 2 ^ 32) (hsend : (sendAll sends data).1 = true)
    (hfirst : (recvs 0 0 4).count 4 = 4) (hpos : ∀ i o n, ∃ more, recvs i o n = .moved more) :
    recvAll recvs ((sendAll sends data).2 ++ after) = (some data, after) := by
  have hsize : (UInt32.ofNat data.length).toNat = data.length := by
    rw [UInt32.toNat_ofNat', Nat.mod_eq_of_lt hdata]
  have hfour : (onStream (sizePrefix data ++ (data ++ after)) recvs 0 0 4).count 4 = 4 := by
    obtain ⟨more, hmore⟩ := hpos 0 0 4
    rw [hmore] at hfirst
    simp only [Answer.count] at hfirst
    simp only [onStream, hmore, sizePrefix, List.length_append, length_htonl]
    rw [if_neg (by omega), Answer.count]
    omega
  rw [sendAll_true hsend, List.append_assoc]
  unfold recvAll
  rw [if_neg (by rw [hfour]; simp)]
  show (if (ntohl _ _ _ _).toNat = 0 then (some [], data ++ after)
    else recvPayload recvs (ntohl _ _ _ _).toNat (data ++ after)) = _
  rw [ntohl_htonl, hsize]
  split_ifs with hzero
  · rw [List.length_eq_zero_iff.mp hzero, List.nil_append]
  · rw [recvPayload_reliable hpos (by simp), List.take_left, List.drop_left]

/-- A message that is taken, with fewer than 4 GiB of the stream left, is taken whole. -/
theorem recvAll_whole {buffer rest : List UInt8}
    (h : recvAll answers (sizePrefix data ++ data) = (some buffer, rest))
    (hrest : rest.length < 2 ^ 32) : buffer = data ∧ data.length < 2 ^ 32 := by
  obtain ⟨a, b, c, d, hstream, hlen⟩ := recvAll_true h
  simp only [sizePrefix, htonl, List.cons_append, List.nil_append, List.cons.injEq] at hstream
  obtain ⟨rfl, rfl, rfl, rfl, hdata⟩ := hstream
  rw [ntohl_htonl, UInt32.toNat_ofNat'] at hlen
  have hsum : data.length = buffer.length + rest.length := by
    conv_lhs => rw [hdata, List.length_append]
  -- The size is the length up to a multiple of 4 GiB, and so is what is left.
  have hzero : rest.length = 0 := by omega
  rw [List.length_eq_zero_iff.mp hzero, List.append_nil] at hdata
  exact ⟨hdata.symm, by omega⟩

end Sends

/-! ## 3. The table on the wire -/

/-- **The node table survives its wire format**: a table that fits a message is decoded as it was
    encoded; a record is, wherever it stands in a buffer, and the offset moves over exactly this
    record; and the message comes out of the stream as it went in. -/
theorem table_survives (nodes : List NodeInfo)
    (hstr : ∀ node ∈ nodes, ∀ str ∈ node.strings, str.length < 2 ^ 31)
    (htotal : (encodeAllNodes nodes).length < 2 ^ 32) :
    (decodeAllNodes (encodeAllNodes nodes)).run 0 =
      .ok (nodes, (encodeAllNodes nodes).length) ∧
    (∀ node ∈ nodes, ∀ before after,
      (decodeNodeInfo (encodeNodeInfo before node ++ after)).run before.length =
        .ok (node, (encodeNodeInfo before node).length)) ∧
    ∀ (sends recvs : SocketAnswers) (after : List UInt8),
      (sends 0 0 4).count 4 = 4 → (∀ i o n, ∃ more, sends i o n = .moved more) →
      (recvs 0 0 4).count 4 = 4 → (∀ i o n, ∃ more, recvs i o n = .moved more) →
      (sendAll sends (encodeAllNodes nodes)).1 = true ∧
      recvAll recvs ((sendAll sends (encodeAllNodes nodes)).2 ++ after) =
        (some (encodeAllNodes nodes), after) := by
  refine ⟨?_, ?_, ?_⟩
  · have hformat := tableFormat_encodeAllNodes hstr (length_nodes_lt htotal)
    have hdecode := decodeAllNodes_accepts.decode hformat [] []
    rw [List.nil_append, List.append_nil, List.length_nil, Nat.zero_add] at hdecode
    exact hdecode
  · intro node hnode before after
    have hformat := nodeFormat_nodeBytes (hstr node hnode)
    rw [encodeNodeInfo_eq, List.length_append]
    exact decodeNodeInfo_accepts.decode hformat before after
  · intro sends recvs after hsend hsends hrecv hrecvs
    have htrue := sendAll_reliable (encodeAllNodes nodes) hsend hsends
    exact ⟨htrue, recvAll_sendAll after htotal htrue hrecv hrecvs⟩

/-- A table of two records: rank 0 with an address of three bytes, and rank 1 with empty strings and
    the largest port. -/
def twoNodes : List NodeInfo :=
  [{ rank := 0, ipAddr := [49, 46, 49], dataPort := 4000 }, { rank := 1, dataPort := 65535 }]

/-- A kernel that takes the prefix whole and then one byte at a time. -/
def byteByByte : SocketAnswers := fun i _ _ => if i = 0 then .moved 3 else .moved 0

theorem byteByByte_moved (i o n : Nat) : ∃ more, byteByByte i o n = .moved more := by
  by_cases h : i = 0
  · exact ⟨3, if_pos h⟩
  · exact ⟨0, if_neg h⟩

theorem table_survives_two :
    (decodeAllNodes (encodeAllNodes twoNodes)).run 0 = .ok (twoNodes, 71) ∧
    (sendAll byteByByte (encodeAllNodes twoNodes)).1 = true := by
  have h := table_survives twoNodes (by decide) (by decide)
  exact ⟨h.1, (h.2.2 byteByByte byteByByte [] rfl byteByByte_moved rfl byteByByte_moved).1⟩

end OriginCCL.Bootstrap
