/-
  File:      OriginCCL/Transport/Tcp.lean
  Subject:   THE TCP DATA PATH (`src/transport/transport_tcp.cpp`).

  `TransportTCP::TrySend` and `TryRecv` ask the kernel for the rest of the message until it is moved or
  a call does not move anything. `transport.h` says what an executor that registered the socket with
  `EPOLLET` needs of them: they drain until `EAGAIN`, else the next edge is lost.

  * `trySend`, `tryRecv` -- the two functions, over any answers of the kernel.
  * `EdgeTriggered` -- the contract.
  * `edge_triggered` -- **they keep it exactly where no `EINTR` ends the loop**: a signal makes them
    return true with `done` false, while the socket may be ready and no edge follows.
-/
import OriginCCL.Base.Transfers

namespace OriginCCL

open OriginCCL.Base

/-! ## 1. The functions -/

/-- The `errno` of a failed call. -/
inductive Errno where
  | eagain
  | ewouldblock
  | eintr
  | other
  deriving DecidableEq, Repr

/-- A `send` or `recv` that moves nothing: 0, or a negative result. -/
inductive SocketStop where
  | closed
  | failed (errno : Errno)
  deriving DecidableEq, Repr

/-- `TransportTCP` -/
structure TransportTCP where
  sockfd : Int := -1
  connected : Bool := false
  deriving DecidableEq, Repr

/-- What a `Try*` call does: what it returns, `*progress` and `*done` after it, the spans of the
    message it moved, and the answer of its last system call if that moved nothing. -/
structure TcpCall where
  ok : Bool
  progress : Nat
  done : Bool
  spans : List (Nat × Nat) := []
  stop : Option SocketStop := none
  deriving DecidableEq, Repr

/-- The number of its system calls. -/
def TcpCall.calls (c : TcpCall) : Nat := c.spans.length + c.stop.toList.length

namespace TransportTCP

/-- What both functions check first. -/
def Open (t : TransportTCP) : Prop := t.connected = true ∧ 0 ≤ t.sockfd

instance (t : TransportTCP) : Decidable t.Open := inferInstanceAs (Decidable (_ ∧ _))

/-- The loop around `send` or `recv`, and what follows it. -/
def tryMove (t : TransportTCP) (answers : Nat → Answer SocketStop) (size progress : Nat)
    (done : Bool) : TcpCall :=
  if ¬ t.Open then { ok := false, progress, done }
  else
    let m := transfer (fun i _ _ => answers i) size 0 progress
    match m.stop with
    | none | some (.failed .eagain) | some (.failed .ewouldblock) | some (.failed .eintr) =>
      { ok := true, progress := m.progress, done := m.progress == size, spans := m.spans,
        stop := m.stop }
    | some .closed | some (.failed .other) =>
      { ok := false, progress := m.progress, done, spans := m.spans, stop := m.stop }

/-- `TrySend`: the spans are those of the message it hands to `send`. -/
def trySend (t : TransportTCP) (answers : Nat → Answer SocketStop) (size progress : Nat)
    (done : Bool) : TcpCall := t.tryMove answers size progress done

/-- `TryRecv`: the spans are those of the buffer `recv` fills. -/
def tryRecv (t : TransportTCP) (answers : Nat → Answer SocketStop) (size progress : Nat)
    (done : Bool) : TcpCall := t.tryMove answers size progress done

end TransportTCP

/-! ## 2. The contract -/

/-- The edge-triggered contract of a call that began at `progress`. -/
structure EdgeTriggered (answers : Nat → Answer SocketStop) (size progress : Nat) (done : Bool)
    (c : TcpCall) : Prop where
  /-- It ends: with one system call for every byte that is left, and one more at most. -/
  ends : c.calls ≤ size - progress + 1
  /-- It moves consecutive bytes of the message, from where the call before it ended. -/
  consecutive : Consecutive c.spans progress c.progress
  /-- Each span is what the answer to its system call counts. -/
  counted : ∀ j s, c.spans[j]? = some s → s.2 = (answers j).count (size - s.1)
  /-- The progress grows by the counts and stays within the size. -/
  grows : c.progress = progress + (c.spans.map (·.2)).sum
  within : c.progress ≤ size
  /-- `*done` is set exactly when the progress equals the size; a call that fails leaves it. -/
  done_iff : c.ok = true → (c.done = true ↔ c.progress = size)
  failed : c.ok = false → c.done = done ∧ c.progress < size
  /-- What is left waits for the next edge. -/
  drained : c.ok = true → c.done = false →
    c.stop = some (.failed .eagain) ∨ c.stop = some (.failed .ewouldblock)

/-- A signal ends the loop: `EINTR` is the first answer that moves nothing, and the counts before it
    leave some of the message. -/
def Interrupted (answers : Nat → Answer SocketStop) (size progress : Nat) : Prop :=
  ∃ n, StopsAt answers size 0 progress n (.failed .eintr)

namespace TransportTCP

/-- The transfer of a call. -/
theorem tryMove_open {t : TransportTCP} (answers : Nat → Answer SocketStop) (size progress : Nat)
    (done : Bool) (h : t.Open) :
    let m := transfer (fun i _ _ => answers i) size 0 progress
    let c := t.tryMove answers size progress done
    c.progress = m.progress ∧ c.spans = m.spans ∧ c.stop = m.stop ∧
      c.done = (if c.ok then m.progress == size else done) ∧
      (c.ok = false ↔ m.stop = some .closed ∨ m.stop = some (.failed .other)) := by
  simp only [tryMove, if_neg (not_not_intro h)]
  generalize transfer (fun i _ _ => answers i) size 0 progress = m
  rcases hstop : m.stop with _ | _ | errno
  · simp
  · simp
  · cases errno with
    | eagain => simp
    | ewouldblock => simp
    | eintr => simp
    | other => simp

variable {t : TransportTCP} {answers : Nat → Answer SocketStop} {size progress : Nat} {done : Bool}

/-- A call that fails, or is not done, was stopped before the end. -/
theorem lt_of_stopped {m : Transfer SocketStop} {reason : SocketStop}
    (hnone : m.stop = none ↔ size ≤ m.progress) (h : m.stop = some reason) : m.progress < size := by
  by_contra hge
  have hstop := hnone.mpr (by omega)
  rw [h] at hstop
  cases hstop

/-- A signal breaks the contract: the call returns true, not done, after `EINTR`. -/
theorem not_interrupted (h : t.Open)
    (hc : EdgeTriggered answers size progress done (t.tryMove answers size progress done)) :
    ¬ Interrupted answers size progress := by
  intro hint
  have hstop := (transfer_stop_iff answers size 0 progress _).mpr hint
  have hlt := lt_of_stopped (transfer_none _ size 0 progress) hstop
  obtain ⟨-, -, hcstop, hdone, hok⟩ := tryMove_open answers size progress done h
  rw [hstop] at hcstop
  have htrue : (t.tryMove answers size progress done).ok = true := by
    by_contra hfalse
    have hfail := hok.mp (by simpa using hfalse)
    rw [hstop] at hfail
    simp at hfail
  have hnot : (t.tryMove answers size progress done).done = false := by
    rw [hdone, if_pos htrue]
    simpa using hlt.ne
  have hdrained := hc.drained htrue hnot
  rw [hcstop] at hdrained
  simp at hdrained

/-- Without a signal the call keeps the contract. -/
theorem keeps_contract (h : t.Open) (hp : progress ≤ size)
    (hint : ¬ Interrupted answers size progress) :
    EdgeTriggered answers size progress done (t.tryMove answers size progress done) := by
  obtain ⟨hprogress, hspans, hcstop, hdone, hok⟩ := tryMove_open answers size progress done h
  have hconsecutive := transfer_consecutive (fun i _ _ => answers i) size 0 progress
  have hcalls := transfer_calls (fun i _ _ => answers i) size 0 progress
  have hwithin := transfer_le (fun i _ _ => answers i) size 0 progress hp
  have hnone := transfer_none (fun i _ _ => answers i) size 0 progress
  have hstop : (transfer (fun i _ _ => answers i) size 0 progress).stop ≠
      some (.failed .eintr) := fun hs => hint ((transfer_stop_iff _ _ _ _ _).mp hs)
  refine ⟨?_, ?_, ?_, ?_, ?_, ?_, ?_, ?_⟩
  · rw [TcpCall.calls, hspans, hcstop]
    exact hcalls
  · rw [hspans, hprogress]
    exact hconsecutive
  · intro j s hs
    rw [hspans] at hs
    have hspan := (transfer_span (fun i _ _ => answers i) size 0 progress hs).2.2
    rwa [Nat.zero_add] at hspan
  · rw [hspans, hprogress]
    exact hconsecutive.sum
  · rw [hprogress]
    exact hwithin
  · intro htrue
    rw [hdone, if_pos htrue, hprogress]
    simp
  · intro hfalse
    rw [hdone, hfalse, hprogress]
    refine ⟨rfl, ?_⟩
    rcases hok.mp hfalse with hs | hs <;> exact lt_of_stopped hnone hs
  · intro htrue hnot
    rw [hcstop]
    rw [hdone, if_pos htrue] at hnot
    have hlt : (transfer (fun i _ _ => answers i) size 0 progress).progress ≠ size := by
      simpa using hnot
    -- Of the reasons to stop, only the two of an empty socket are left.
    rcases hs : (transfer (fun i _ _ => answers i) size 0 progress).stop with _ | reason
    · have := hnone.mp hs
      omega
    · have hnofail : ¬ (some reason = some SocketStop.closed ∨
          some reason = some (SocketStop.failed .other)) := by
        rw [← hs, ← hok, htrue]
        simp
      cases reason with
      | closed => simp at hnofail
      | failed errno =>
        cases errno with
        | eagain => exact .inl rfl
        | ewouldblock => exact .inr rfl
        | eintr => exact absurd hs hstop
        | other => simp at hnofail

theorem tryMove_edge_triggered (h : t.Open) :
    EdgeTriggered answers size progress done (t.tryMove answers size progress done) ↔
      progress ≤ size ∧ ¬ Interrupted answers size progress := by
  constructor
  · intro hc
    have hle := hc.consecutive.le
    have hwithin := hc.within
    exact ⟨by omega, not_interrupted h hc⟩
  · rintro ⟨hp, hint⟩
    exact keeps_contract h hp hint

/-- **When the TCP data path keeps the edge-triggered contract**: on an open socket, exactly where the
    progress is within the size and no `EINTR` ends the loop. A socket that is not open makes the call
    fail before it does anything. -/
theorem edge_triggered (t : TransportTCP) (answers : Nat → Answer SocketStop)
    (size progress : Nat) (done : Bool) :
    (t.Open →
      (EdgeTriggered answers size progress done (t.trySend answers size progress done) ↔
        progress ≤ size ∧ ¬ Interrupted answers size progress) ∧
      (EdgeTriggered answers size progress done (t.tryRecv answers size progress done) ↔
        progress ≤ size ∧ ¬ Interrupted answers size progress)) ∧
    (¬ t.Open → t.trySend answers size progress done = { ok := false, progress, done } ∧
      t.tryRecv answers size progress done = { ok := false, progress, done }) := by
  constructor
  · intro h
    exact ⟨tryMove_edge_triggered h, tryMove_edge_triggered h⟩
  · intro h
    exact ⟨if_pos h, if_pos h⟩

theorem edge_triggered_open : let t : TransportTCP := { sockfd := 5, connected := true }
    EdgeTriggered (fun _ => .moved 0) 2 0 false (t.trySend (fun _ => .moved 0) 2 0 false) ↔
      0 ≤ 2 ∧ ¬ Interrupted (fun _ => .moved 0) 2 0 :=
  ((edge_triggered { sockfd := 5, connected := true } (fun _ => .moved 0) 2 0 false).1
    (by decide)).1

/-- A signal at the first `send` of one byte: the call returns true, the byte is not sent, and the
    socket was not found full. -/
theorem eintr_loses_the_edge : let t : TransportTCP := { sockfd := 5, connected := true }
    t.trySend (fun _ => .stopped (.failed .eintr)) 1 0 false =
      { ok := true, progress := 0, done := false, stop := some (.failed .eintr) } ∧
    ¬ EdgeTriggered (fun _ => .stopped (.failed .eintr)) 1 0 false
      (t.trySend (fun _ => .stopped (.failed .eintr)) 1 0 false) := by
  have hcall : TransportTCP.trySend { sockfd := 5, connected := true }
      (fun _ => .stopped (.failed .eintr)) 1 0 false =
      { ok := true, progress := 0, done := false, stop := some (.failed .eintr) } := by
    rw [trySend, tryMove, if_neg (by decide), transfer_stopped (by decide) rfl]
    rfl
  refine ⟨hcall, ?_⟩
  rw [hcall]
  intro hc
  have := hc.drained rfl rfl
  simp at this

end TransportTCP

end OriginCCL
