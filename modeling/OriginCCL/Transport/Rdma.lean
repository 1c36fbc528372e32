/-
  File:      OriginCCL/Transport/Rdma.lean
  Subject:   THE RDMA TRANSPORT (`src/transport/transport_rdma.cpp`).

  Two endpoints of one connection: a producer that makes `TrySend` calls and a consumer that makes
  `TryRecv` calls. Each has a registered buffer that the peer's writes go to, a queue pair and a
  completion queue; the adapter moves requests from the send queue of one endpoint to the completion
  queue of the other.

  * `TransportRDMA` -- an endpoint with its queues; `handleCompletion`, `postWrites`, `postCredit`,
    `trySend`, `tryRecv` -- what its functions do to it.
  * `RdmaSystem.step` -- both endpoints and the adapter, in any order.

  The adapter delivers requests of an endpoint one after another, each to a posted receive, at any time
  after they were posted. It reads the local buffer at that time, not when the request was posted.
  Sequence numbers are natural numbers: they stay below 2^64. Addresses are offsets in the registered
  buffer of the endpoint they belong to.
-/
import Mathlib.Logic.Function.Basic
import OriginCCL.Base.Slices
import OriginCCL.Transport.Shm

namespace OriginCCL

open Base

def kRdmaSlotSize : Nat := 32 * 1024
def kRdmaSlotCount : Nat := 32
def kRdmaControlOffset : Nat := 0
def kRdmaControlSize : Nat := 256
def kRdmaCreditOffset : Nat := 256
def kRdmaScratchOffset : Nat := 4096
def kRdmaRecvPool : Nat := 64
def kRdmaRingOffset : Nat := 32768
def kRdmaInlineThreshold : Nat := 64
def kCreditImmediate : UInt32 := 0x80000000
def kCreditBatch : Nat := 8

/-- `EncodeDataImmediate` -/
def encodeDataImmediate (slot length : Nat) : UInt32 := UInt32.ofNat ((slot <<< 16) ||| (length - 1))

/-- `ImmediateSlot` -/
def immediateSlot (immediate : UInt32) : Nat := (immediate >>> 16).toNat

/-- `ImmediateLength` -/
def immediateLength (immediate : UInt32) : Nat := (immediate &&& 0xFFFF).toNat + 1

/-- The offset of `SlotData` in the buffer. -/
def slotData (slot : Nat) : Nat := kRdmaRingOffset + slot * kRdmaSlotSize

/-- The offset of `ScratchData` in the buffer. -/
def scratchData (index : Nat) : Nat := kRdmaScratchOffset + index * kRdmaControlSize

/-! ## 1. Requests and completions -/

inductive WcStatus where
  | success
  | error (text : String)
  deriving DecidableEq

inductive WcOpcode where
  | send
  | rdmaWrite
  | recv
  | recvRdmaWithImm
  | other
  deriving DecidableEq, Repr

/-- The queue pair a completion comes from: that of the ring, or the second one of the zero-copy
    transport, which shares the completion queue. -/
inductive QueuePair where
  | ring
  | zeroCopy
  deriving DecidableEq, Repr

/-- `ibv_wc` -/
structure Completion where
  status : WcStatus := .success
  opcode : WcOpcode
  wrId : Nat := 0
  byteLen : Nat := 0
  immediate : UInt32 := 0
  queuePair : QueuePair := .ring

inductive WrOpcode where
  | send
  | rdmaWriteWithImm
  deriving DecidableEq, Repr

/-- `ibv_send_wr` with one element. Inline bytes are taken when the request is posted. -/
structure SendRequest where
  wrId : Nat := 0
  opcode : WrOpcode
  inlined : Option (List UInt8) := none
  localAddr : Nat := 0
  length : Nat
  remoteAddr : Nat := 0
  immediate : UInt32 := 0
  signaled : Bool := true

/-- The bytes of a request that is delivered now. -/
def SendRequest.payload (r : SendRequest) (buffer : Nat → UInt8) : List UInt8 :=
  match r.inlined with
  | some bytes => bytes
  | none => slice buffer r.localAddr r.length

/-! ## 2. An endpoint -/

inductive RdmaPoint where
  /-- `ProcessCompletions` -/
  | process
  /-- the code after it -/
  | body
  deriving DecidableEq, Repr

/-- A `TrySend(data, size, progress, done)` or `TryRecv` call; `start` is `*progress` at its start. -/
structure RdmaCall where
  data : Nat → UInt8
  size : Nat
  start : Nat
  progress : Nat
  point : RdmaPoint := .process

/-- An endpoint. `recvQueue`, `sendQueue` and `cq` are its posted receives, the requests that are not
    delivered yet, and its completions; `acks` are the completions of its own requests on their way to
    `cq`, `batch` the completions that the last `ibv_poll_cq` has returned and that are not handled yet.
    `last` is what the last call has returned, with the value of `*done`. -/
structure TransportRDMA where
  inlineCapacity : Nat
  buffer : Nat → UInt8 := fun _ => 0
  controlReceived : Bool := false
  controlSent : Bool := false
  controlIndex : Nat := 0
  sendSeq : Nat := 0
  creditsReceived : Nat := 0
  arrivalHead : Nat := 0
  arrivalTail : Nat := 0
  arrivalOffset : Nat := 0
  pendingCredit : Nat := 0
  arrivalLengths : Nat → Nat := fun _ => 0
  recvQueue : List Nat := List.range kRdmaRecvPool
  sendQueue : List SendRequest := []
  acks : List Completion := []
  cq : List Completion := []
  batch : List Completion := []
  call : Option RdmaCall := none
  last : Option (Except String (RdmaCall × Bool)) := none

namespace TransportRDMA

/-- The completions of a queue pair that have not been handled, in order. -/
def waiting (t : TransportRDMA) (q : QueuePair) : List Completion :=
  (t.batch ++ t.cq).filter (·.queuePair = q)

/-- Those of the ring's queue pair. -/
def unhandled (t : TransportRDMA) : List Completion := t.waiting .ring

/-- `PostPoolRecv` -/
def postPoolRecv (t : TransportRDMA) (index : Nat) : TransportRDMA :=
  { t with recvQueue := t.recvQueue ++ [index] }

/-- `PostControlSend` of a message that `Send` has copied to the control area -/
def postControlSend (t : TransportRDMA) (length : Nat) : TransportRDMA :=
  { t with sendQueue := t.sendQueue ++
      [{ opcode := .send, localAddr := kRdmaControlOffset, length := length }] }

/-- `PostCredit` -/
def postCredit (t : TransportRDMA) (slots : Nat) : TransportRDMA :=
  { t with sendQueue := t.sendQueue ++
      [{ opcode := .rdmaWriteWithImm, localAddr := kRdmaCreditOffset, length := 1,
         remoteAddr := kRdmaCreditOffset, immediate := kCreditImmediate ||| UInt32.ofNat slots }] }

/-- One iteration of the loop of `PostWrites`: iteration `i`, after `bytes` bytes. -/
def prepareWrite (t : TransportRDMA) (source : Nat → UInt8) (size progress i bytes : Nat)
    (signaled : Bool) : TransportRDMA × SendRequest :=
  let slot := (t.sendSeq + i) % kRdmaSlotCount
  let length := min kRdmaSlotSize (size - progress - bytes)
  let data := slice source (progress + bytes) length
  let request : SendRequest :=
    { wrId := slot + 1, opcode := .rdmaWriteWithImm, length := length, remoteAddr := slotData slot,
      immediate := encodeDataImmediate slot length, signaled := signaled }
  if length < kRdmaInlineThreshold ∧ length ≤ t.inlineCapacity then
    (t, { request with inlined := some data })
  else
    -- the copy is made `kCopyRepeat` times
    ({ t with buffer := splice t.buffer (slotData slot) data },
      { request with localAddr := slotData slot })

/-- The loop of `PostWrites` from iteration `i` on; only the last request is signaled. -/
def prepareWrites (t : TransportRDMA) (source : Nat → UInt8) (size progress i bytes : Nat) :
    Nat → TransportRDMA × List SendRequest × Nat
  | 0 => (t, [], bytes)
  | n + 1 =>
    let (t, request) := t.prepareWrite source size progress i bytes (n = 0)
    let (t, requests, total) :=
      t.prepareWrites source size progress (i + 1) (bytes + request.length) n
    (t, request :: requests, total)

/-- `PostWrites`, with the value of `*bytes` -/
def postWrites (t : TransportRDMA) (source : Nat → UInt8) (size progress count : Nat) :
    TransportRDMA × Nat :=
  let (t, requests, bytes) := t.prepareWrites source size progress 0 0 count
  ({ t with sendQueue := t.sendQueue ++ requests }, bytes)

/-- `HandleCompletion` -/
def handleCompletion (t : TransportRDMA) (w : Completion) : Except String TransportRDMA :=
  match w.status with
  | .error text => .error s!"An RDMA completion failed with status {text}"
  | .success =>
    match w.opcode with
    | .send => .ok { t with controlSent := true }
    | .rdmaWrite => .ok t
    | .recv =>
      let t := if 0 < w.byteLen then { t with controlReceived := true, controlIndex := w.wrId } else t
      .ok (t.postPoolRecv w.wrId)
    | .recvRdmaWithImm =>
      if w.immediate &&& kCreditImmediate ≠ 0 then
        let credits := (w.immediate &&& ~~~kCreditImmediate).toNat
        .ok ({ t with creditsReceived := t.creditsReceived + credits }.postPoolRecv w.wrId)
      else
        let slot := immediateSlot w.immediate
        if kRdmaSlotCount ≤ slot then
          .error s!"The RDMA peer announced an out of range ring slot {slot}"
        else
          let lengths := Function.update t.arrivalLengths (t.arrivalTail % kRdmaSlotCount)
            (immediateLength w.immediate)
          .ok ({ t with arrivalLengths := lengths, arrivalTail := t.arrivalTail + 1 }.postPoolRecv
            w.wrId)
    | .other => .ok t

/-- `*done = (*progress == size)`, and the call returns. -/
def finish (t : TransportRDMA) (c : RdmaCall) : TransportRDMA :=
  { t with call := none, last := some (.ok (c, c.progress == c.size)) }

/-- The call returns with an error. -/
def fail (t : TransportRDMA) (text : String) : TransportRDMA :=
  { t with batch := [], call := none, last := some (.error text) }

/-- `TrySend` after `ProcessCompletions` -/
def trySend (t : TransportRDMA) (c : RdmaCall) : TransportRDMA × RdmaCall :=
  let limit := t.creditsReceived + kRdmaSlotCount
  let available := if t.sendSeq < limit then limit - t.sendSeq else 0
  let remaining := c.size - c.progress
  let chunks := if remaining = 0 then 0 else 1 + (remaining - 1) / kRdmaSlotSize
  let count := min available chunks
  if 0 < count then
    let (t, bytes) := t.postWrites c.data c.size c.progress count
    ({ t with sendSeq := t.sendSeq + count }, { c with progress := c.progress + bytes })
  else (t, c)

/-- One iteration of the loop of `TryRecv` -/
def consume (t : TransportRDMA) (c : RdmaCall) : TransportRDMA × RdmaCall :=
  let slot := t.arrivalHead % kRdmaSlotCount
  let length := t.arrivalLengths slot
  let chunk := min (length - t.arrivalOffset) (c.size - c.progress)
  let bytes := slice t.buffer (slotData slot + t.arrivalOffset) chunk
  let c := { c with data := splice c.data c.progress bytes, progress := c.progress + chunk }
  if t.arrivalOffset + chunk = length then
    ({ t with arrivalOffset := 0, arrivalHead := t.arrivalHead + 1,
              pendingCredit := t.pendingCredit + 1 }, c)
  else ({ t with arrivalOffset := t.arrivalOffset + chunk }, c)

/-- The end of `TryRecv`: used slots go back to the producer in batches, or when the queue is empty. -/
def returnCredit (t : TransportRDMA) : TransportRDMA :=
  if kCreditBatch ≤ t.pendingCredit ∨ 0 < t.pendingCredit ∧ t.arrivalHead = t.arrivalTail then
    { t.postCredit t.pendingCredit with pendingCredit := 0 }
  else t

/-- The next step of `TryRecv` after `ProcessCompletions` -/
def tryRecv (t : TransportRDMA) (c : RdmaCall) : TransportRDMA × RdmaCall :=
  if c.progress < c.size ∧ t.arrivalHead ≠ t.arrivalTail then
    let (t, c) := t.consume c
    ({ t with call := some c }, c)
  else (t.returnCredit.finish c, c)

/-- Completions are polled inside a call, or in `WaitFlag` during the handshake. -/
def polling (t : TransportRDMA) : Prop := ∀ c, t.call = some c → c.point = .process

instance (t : TransportRDMA) : Decidable t.polling :=
  match h : t.call with
  | none => .isTrue fun c hc => by rw [h] at hc; cases hc
  | some c =>
    if hp : c.point = .process then
      .isTrue fun c' hc => by rw [h] at hc; cases hc; exact hp
    else .isFalse fun hall => hp (hall c h)

/-- The adapter puts a receive completion on the queue: the oldest posted receive is used up. -/
def arrive (t : TransportRDMA) (r : SendRequest) (bytes : List UInt8) (index : Nat) (pool : List Nat) :
    TransportRDMA :=
  match r.opcode with
  | .send =>
    { t with recvQueue := pool, buffer := splice t.buffer (scratchData index) bytes,
             cq := t.cq ++ [{ opcode := .recv, wrId := index, byteLen := r.length }] }
  | .rdmaWriteWithImm =>
    { t with recvQueue := pool, buffer := splice t.buffer r.remoteAddr bytes,
             cq := t.cq ++ [{ opcode := .recvRdmaWithImm, wrId := index, byteLen := r.length,
                              immediate := r.immediate }] }

/-- The oldest request has been delivered; if it was signaled, its completion is on its way. -/
def sentOff (t : TransportRDMA) (r : SendRequest) (rest : List SendRequest) : TransportRDMA :=
  let opcode : WcOpcode := match r.opcode with
    | .send => .send
    | .rdmaWriteWithImm => .rdmaWrite
  { t with sendQueue := rest,
           acks := t.acks ++ if r.signaled then [{ opcode := opcode, wrId := r.wrId }] else [] }

end TransportRDMA

/-! ## 3. The connection -/

/-- Both endpoints, with the bytes they have taken from and given to their callers so far. -/
structure RdmaSystem where
  producer : TransportRDMA
  consumer : TransportRDMA
  sent : List UInt8 := []
  received : List UInt8 := []

/-- What happens next. -/
inductive RdmaLabel where
  /-- a call on `size` bytes with `*progress` at `progress` -/
  | begin (d : TransportDirection) (data : Nat → UInt8) (size progress : Nat)
  /-- `ibv_poll_cq` that returns `count` completions -/
  | poll (d : TransportDirection) (count : Nat)
  /-- `HandleCompletion` of the next one of them -/
  | handle (d : TransportDirection)
  /-- `ibv_poll_cq` that returns none, which ends `ProcessCompletions` -/
  | polled (d : TransportDirection)
  /-- the next step of the call after that -/
  | advance (d : TransportDirection)
  /-- the adapter delivers the oldest request of an endpoint -/
  | deliver (d : TransportDirection)
  /-- the completion of an own request reaches the completion queue -/
  | acknowledge (d : TransportDirection)

namespace RdmaSystem

def endpoint (s : RdmaSystem) : TransportDirection → TransportRDMA
  | .send => s.producer
  | .receive => s.consumer

/-- An endpoint in another state. -/
def withEndpoint (s : RdmaSystem) (d : TransportDirection) (t : TransportRDMA) : RdmaSystem :=
  match d with
  | .send => { s with producer := t }
  | .receive => { s with consumer := t }

/-- The bytes an endpoint has taken from or given to its callers. -/
def bytes (s : RdmaSystem) : TransportDirection → List UInt8
  | .send => s.sent
  | .receive => s.received

/-- The connection right after `Connect` and `Accept`, with the control message of the connecting
    endpoint posted: `Send` copies it to the control area first. -/
def connected (inlineCapacity : TransportDirection → Nat) (connector : TransportDirection)
    (message : List UInt8) : RdmaSystem :=
  let s : RdmaSystem := { producer := { inlineCapacity := inlineCapacity .send },
                          consumer := { inlineCapacity := inlineCapacity .receive } }
  let t := s.endpoint connector
  s.withEndpoint connector
    ({ t with buffer := splice t.buffer kRdmaControlOffset message }.postControlSend message.length)

/-- The next step of the call of an endpoint. -/
def advance (s : RdmaSystem) (c : RdmaCall) : TransportDirection → RdmaSystem
  | .send =>
    let (t, c') := s.producer.trySend c
    { s with producer := t.finish c',
             sent := s.sent ++ slice c'.data c.progress (c'.progress - c.progress) }
  | .receive =>
    let (t, c') := s.consumer.tryRecv c
    { s with consumer := t,
             received := s.received ++ slice c'.data c.progress (c'.progress - c.progress) }

def step : RdmaLabel → RdmaSystem → Option RdmaSystem
  | .begin d data size progress, s =>
    let t := s.endpoint d
    match t.call with
    | some _ => none
    | none =>
      -- `*progress` counts bytes of the transfer that have moved; a call ends with no batch left
      if progress ≤ size ∧ t.batch = [] then
        let c : RdmaCall := { data := data, size := size, start := progress, progress := progress }
        some (s.withEndpoint d { t with call := some c })
      else none
  | .poll d count, s =>
    let t := s.endpoint d
    if t.polling ∧ t.batch = [] ∧ count ≤ t.cq.length then
      some (s.withEndpoint d { t with batch := t.cq.take count, cq := t.cq.drop count })
    else none
  | .handle d, s =>
    let t := s.endpoint d
    match t.batch with
    | [] => none
    | w :: batch =>
      match TransportRDMA.handleCompletion { t with batch := batch } w with
      | .ok t => some (s.withEndpoint d t)
      | .error text => some (s.withEndpoint d (t.fail text))
  | .polled d, s =>
    let t := s.endpoint d
    match t.call with
    | some c =>
      if c.point = .process ∧ t.batch = [] then
        some (s.withEndpoint d { t with call := some { c with point := .body } })
      else none
    | none => none
  | .advance d, s =>
    match (s.endpoint d).call with
    | some c => if c.point = .body then some (s.advance c d) else none
    | none => none
  | .deliver d, s =>
    let t := s.endpoint d
    let peer := s.endpoint d.peer
    match t.sendQueue, peer.recvQueue with
    | r :: rest, index :: pool =>
      some ((s.withEndpoint d (t.sentOff r rest)).withEndpoint d.peer
        (peer.arrive r (r.payload t.buffer) index pool))
    | _, _ => none
  | .acknowledge d, s =>
    let t := s.endpoint d
    match t.acks with
    | w :: rest => some (s.withEndpoint d { t with acks := rest, cq := t.cq ++ [w] })
    | [] => none

end RdmaSystem

end OriginCCL
