/-
  File:      OriginCCL/Transport/Pipes.lean
  Subject:   THE SHARED-MEMORY AND THE RDMA TRANSPORT ARE PIPES of a bounded size.

  The shared-memory ring holds `kShmRingCapacity` bytes, an RDMA connection as many as its slots. Which of
  the two lies under a connection makes no other difference to the two sides.

  * `ShmSystem.streams`, `RdmaSystem.streams` -- what the transports keep, by their invariants.
  * `transports_refine_pipe` -- **every run of either is a run of the pipe**, step by step.
-/
import OriginCCL.Base.Pipe
import OriginCCL.Transport.RdmaStream
import OriginCCL.Transport.ShmStream

namespace OriginCCL

open Base

/-! ## 1. Shared memory -/

namespace ShmSystem

variable {s s' : ShmSystem} {l : ShmLabel}

/-- **A step of the ring** moves bytes on one side, or none. -/
theorem step_bytes (hs : step l s = some s') : s'.bytes = s.bytes ∨
    ∃ d xs, s'.bytes d = s.bytes d ++ xs ∧ s'.bytes d.peer = s.bytes d.peer := by
  cases l with
  | begin d data size progress =>
    simp only [step] at hs
    split at hs
    · cases hs
    · split at hs
      · obtain rfl := Option.some.inj hs
        exact Or.inl rfl
      · cases hs
  | setWaitMode d mode =>
    simp only [step] at hs
    split at hs
    · cases hs
    · obtain rfl := Option.some.inj hs
      exact Or.inl rfl
  | access d =>
    simp only [step] at hs
    split at hs
    · cases hs
    · rename_i c hc
      obtain rfl := Option.some.inj hs
      refine Or.inr ⟨d, _, Function.update_self .., Function.update_of_ne ?_ ..⟩
      cases d <;> decide

/-- **The ring keeps what a pipe of its capacity keeps.** -/
theorem streams : Streams step created (fun s => s.bytes .send) (fun s => s.bytes .receive)
    kShmRingCapacity where
  sent_start := rfl
  received_start := rfl
  inside ls s h := by
    have hI := reach_inv h
    have h1 := hI.cachedTail_le
    have h2 := hI.tail_le
    have h3 := hI.cachedHead_le
    have h4 := hI.head_le
    rw [hI.consumed, List.length_take, hI.produced]
    exact ⟨List.take_prefix .., by omega⟩
  steps ls s l s' _ hs := by
    rcases step_bytes hs with he | ⟨d, xs, hd, hpeer⟩
    · refine Or.inl ⟨[], ?_, congrFun he _⟩
      rw [he, List.append_nil]
    · cases d with
      | send => exact Or.inl ⟨xs, hd, hpeer⟩
      | receive => exact Or.inr ⟨xs, hpeer, hd⟩

end ShmSystem

/-! ## 2. RDMA -/

namespace RdmaSystem

variable {s s' : RdmaSystem} {l : RdmaLabel} {chunks : List (List UInt8)}

/-- Chunks fit in as many slots. -/
theorem length_flatten_le (h : ∀ x ∈ chunks, x.length ≤ kRdmaSlotSize) :
    chunks.flatten.length ≤ chunks.length * kRdmaSlotSize := by
  induction chunks with
  | nil => exact Nat.zero_le _
  | cons x xs ih =>
    have hx := h x List.mem_cons_self
    have hxs := ih fun y hy => h y (List.mem_cons_of_mem _ hy)
    rw [List.flatten_cons, List.length_append, List.length_cons, Nat.succ_mul]
    omega

/-- **The bytes inside fit in the slots that are not used up.** -/
theorem Inv.length_sent_le (h : Inv chunks s) :
    s.sent.length ≤ s.received.length + kRdmaSlotCount * kRdmaSlotSize := by
  have hseq := h.ring.seq
  have hlive := h.ring.live
  have hsplit : chunks.flatten = (chunks.take s.consumer.arrivalHead).flatten ++
      (chunks.drop s.consumer.arrivalHead).flatten := by
    rw [← List.flatten_append, List.take_append_drop]
  have hrest : (chunks.drop s.consumer.arrivalHead).flatten.length ≤
      (chunks.drop s.consumer.arrivalHead).length * kRdmaSlotSize :=
    length_flatten_le fun x hx => (h.ring.sizes x (List.mem_of_mem_drop hx)).2
  have hcount : (chunks.drop s.consumer.arrivalHead).length * kRdmaSlotSize ≤
      kRdmaSlotCount * kRdmaSlotSize := by
    refine Nat.mul_le_mul_right _ ?_
    rw [List.length_drop]
    omega
  rw [h.sent, h.received, hsplit, taken, List.length_append, List.length_append]
  omega

/-- **A step of the connection** moves bytes on one side, or none. -/
theorem Inv.step_bytes (h : Inv chunks s) (hs : step l s = some s') :
    (s'.sent = s.sent ∧ s'.received = s.received) ∨
      ∃ d xs, s'.bytes d = s.bytes d ++ xs ∧ s'.bytes d.peer = s.bytes d.peer := by
  have hwith : ∀ d t, (s.withEndpoint d t).sent = s.sent ∧
      (s.withEndpoint d t).received = s.received := by
    intro d t
    cases d <;> exact ⟨rfl, rfl⟩
  cases l with
  | begin d data size progress =>
    simp only [step] at hs
    split at hs
    · cases hs
    · split at hs
      · obtain rfl := Option.some.inj hs
        exact Or.inl (hwith d _)
      · cases hs
  | poll d count =>
    simp only [step] at hs
    split at hs
    · obtain rfl := Option.some.inj hs
      exact Or.inl (hwith d _)
    · cases hs
  | handle d =>
    simp only [step] at hs
    split at hs
    · cases hs
    · split at hs
      · obtain rfl := Option.some.inj hs
        exact Or.inl (hwith d _)
      · obtain rfl := Option.some.inj hs
        exact Or.inl (hwith d _)
  | polled d =>
    simp only [step] at hs
    split at hs
    · split at hs
      · obtain rfl := Option.some.inj hs
        exact Or.inl (hwith d _)
      · cases hs
    · cases hs
  | advance d =>
    simp only [step] at hs
    split at hs
    · rename_i c hc
      split at hs
      · obtain rfl := Option.some.inj hs
        obtain ⟨data, n, ha⟩ := h.advanced hc
        exact Or.inr ⟨d, _, ha.bytes, ha.peerBytes⟩
      · cases hs
    · cases hs
  | deliver d =>
    simp only [step] at hs
    split at hs
    · obtain rfl := Option.some.inj hs
      cases d <;> exact Or.inl ⟨rfl, rfl⟩
    · cases hs
  | acknowledge d =>
    simp only [step] at hs
    split at hs
    · obtain rfl := Option.some.inj hs
      exact Or.inl (hwith d _)
    · cases hs

/-- **The connection keeps what a pipe of its slots keeps.** -/
theorem streams (inlineCapacity : TransportDirection → Nat) (connector : TransportDirection)
    {message : List UInt8} (hm : message.length ≤ kRdmaControlSize) :
    Streams step (connected inlineCapacity connector message) sent received
      (kRdmaSlotCount * kRdmaSlotSize) where
  sent_start := by cases connector <;> rfl
  received_start := by cases connector <;> rfl
  inside ls s h := by
    obtain ⟨chunks, hI, -⟩ := reach_inv hm h
    exact ⟨hI.received_isPrefix, hI.length_sent_le⟩
  steps ls s l s' h hs := by
    obtain ⟨chunks, hI, -⟩ := reach_inv hm h
    rcases hI.step_bytes hs with ⟨hsent, hreceived⟩ | ⟨d, xs, hd, hpeer⟩
    · refine Or.inl ⟨[], ?_, hreceived⟩
      rw [hsent, List.append_nil]
    · cases d with
      | send => exact Or.inl ⟨xs, hd, hpeer⟩
      | receive => exact Or.inr ⟨xs, hpeer, hd⟩

end RdmaSystem

/-! ## 3. Both are pipes -/

/-- **The transports refine a pipe.** Every run of the shared-memory ring and of an RDMA connection,
    with calls of any sizes on both sides and their accesses in any order, is a run of a pipe of
    `kShmRingCapacity` or `kRdmaSlotCount * kRdmaSlotSize` bytes, one move for every step: what the pipe
    takes in is what the producer's calls have taken, what it gives out is what the consumer's calls
    have copied out, and what it holds lies in between. So it is after every part of the run: the `i`-th
    move is that of the `i`-th step. -/
theorem transports_refine_pipe :
    (∀ ls s, Reach ShmSystem.step ShmSystem.created ls s →
      ∃ moves q, moves.length = ls.length ∧ Pipe.run kShmRingCapacity [] moves = some q ∧
        moves.flatMap PipeMove.ins = s.bytes .send ∧ moves.flatMap PipeMove.outs = s.bytes .receive ∧
        s.bytes .send = s.bytes .receive ++ q ∧ q.length ≤ kShmRingCapacity ∧
        ∀ ls₁ s₁, ls₁ <+: ls → Reach ShmSystem.step ShmSystem.created ls₁ s₁ →
          (moves.take ls₁.length).flatMap PipeMove.ins = s₁.bytes .send ∧
          (moves.take ls₁.length).flatMap PipeMove.outs = s₁.bytes .receive) ∧
    ∀ inlineCapacity connector message, message.length ≤ kRdmaControlSize → ∀ ls s,
      Reach RdmaSystem.step (RdmaSystem.connected inlineCapacity connector message) ls s →
      ∃ moves q, moves.length = ls.length ∧
        Pipe.run (kRdmaSlotCount * kRdmaSlotSize) [] moves = some q ∧
        moves.flatMap PipeMove.ins = s.sent ∧ moves.flatMap PipeMove.outs = s.received ∧
        s.sent = s.received ++ q ∧ q.length ≤ kRdmaSlotCount * kRdmaSlotSize ∧
        ∀ ls₁ s₁, ls₁ <+: ls →
          Reach RdmaSystem.step (RdmaSystem.connected inlineCapacity connector message) ls₁ s₁ →
          (moves.take ls₁.length).flatMap PipeMove.ins = s₁.sent ∧
          (moves.take ls₁.length).flatMap PipeMove.outs = s₁.received := by
  refine ⟨fun ls s h => ?_, fun inlineCapacity connector message hm ls s h => ?_⟩
  · obtain ⟨moves, hlen, hparts⟩ := ShmSystem.streams.refines h
    obtain ⟨hrun, hins, houts⟩ := hparts ls s List.prefix_rfl h
    rw [List.take_of_length_le (Nat.le_of_eq hlen)] at hrun hins houts
    obtain ⟨hfifo, hcap⟩ := Pipe.run_fifo (Nat.zero_le _) hrun
    rw [hins, houts] at hfifo
    exact ⟨moves, _, hlen, hrun, hins, houts, hfifo, hcap, fun ls₁ s₁ hpre h₁ => (hparts ls₁ s₁ hpre h₁).2⟩
  · obtain ⟨moves, hlen, hparts⟩ :=
      (RdmaSystem.streams inlineCapacity connector hm).refines h
    obtain ⟨hrun, hins, houts⟩ := hparts ls s List.prefix_rfl h
    rw [List.take_of_length_le (Nat.le_of_eq hlen)] at hrun hins houts
    obtain ⟨hfifo, hcap⟩ := Pipe.run_fifo (Nat.zero_le _) hrun
    rw [hins, houts] at hfifo
    exact ⟨moves, _, hlen, hrun, hins, houts, hfifo, hcap, fun ls₁ s₁ hpre h₁ => (hparts ls₁ s₁ hpre h₁).2⟩

theorem transports_refine_pipe_three :
    (∃ moves : List (PipeMove UInt8), Pipe.run kShmRingCapacity [] moves = some [9] ∧
      moves.flatMap PipeMove.ins = [7, 8, 9]) ∧
    ∃ moves : List (PipeMove UInt8),
      Pipe.run (kRdmaSlotCount * kRdmaSlotSize) [] moves = some [9] ∧
        moves.flatMap PipeMove.ins = [7, 8, 9] := by
  obtain ⟨ls, -, h⟩ := follow_reach ShmSystem.step ShmSystem.created ShmSystem.threeBytes
  obtain ⟨ls', -, h'⟩ := follow_reach RdmaSystem.step
    (RdmaSystem.connected (fun _ => kRdmaInlineThreshold) .send [1, 2]) RdmaSystem.threeWritten
  obtain ⟨moves, q, -, hrun, hins, -, hq, -⟩ := transports_refine_pipe.1 _ _ h
  obtain ⟨moves', q', -, hrun', hins', -, hq', -⟩ := transports_refine_pipe.2 _ _ _ (by decide) _ _ h'
  have hsent : (follow ShmSystem.step ShmSystem.created ShmSystem.threeBytes).bytes .send =
      [7, 8, 9] := by decide +kernel
  have hreceived : (follow ShmSystem.step ShmSystem.created ShmSystem.threeBytes).bytes .receive =
      [7, 8] := by decide +kernel
  have hsent' : RdmaSystem.afterThree.sent = [7, 8, 9] := by decide +kernel
  have hreceived' : RdmaSystem.afterThree.received = [7, 8] := by decide +kernel
  rw [hsent, hreceived] at hq
  have hq' : RdmaSystem.afterThree.sent = RdmaSystem.afterThree.received ++ q' := hq'
  rw [hsent', hreceived'] at hq'
  obtain rfl : [9] = q := List.append_cancel_left (show [7, 8] ++ [9] = [7, 8] ++ q from hq)
  obtain rfl : [9] = q' := List.append_cancel_left (show [7, 8] ++ [9] = [7, 8] ++ q' from hq')
  exact ⟨⟨moves, hrun, hins.trans hsent⟩, moves', hrun', hins'.trans hsent'⟩

end OriginCCL
