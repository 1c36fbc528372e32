/-
  File:      OriginCCL/Executor/Dynamic.lean
  Subject:   THE SLICES OF A DYNAMIC RUN (`src/executor/dynamic_multi_thread_executor.cpp`,
             `ProcessChannel` on all ranks).

  * `ControlChannel` -- one channel: the control messages rank 0 has put on it, in order, and a worker of
    every rank. That the broadcasts of a channel reach every rank in order is built in.
  * `DynamicRun.step` -- one step of a worker of any rank.
  * `ControlChannel.Inv`, `DynamicRun.Inv` -- what holds of a channel, and of the run.
  * `dynamic_slices` -- **every slice is executed once on every rank, on one channel for all ranks.**
-/
import Mathlib.Algebra.Group.Nat.Defs
import Mathlib.Data.List.Perm.Basic
import Mathlib.Data.List.Range
import Mathlib.Logic.Function.Basic
import Mathlib.Tactic.Common
import OriginCCL.Base.Runs
import OriginCCL.Base.Tables

namespace OriginCCL.DynamicMultiThreadExecutor

open Base

/-! ## 1. Control messages -/

def kControlMagic : Nat := 0x4F43434C434D4431
def kControlTypeBatch : Nat := 1
def kControlTypeEnd : Nat := 2
def kDefaultBatchSize : Nat := 2

structure ControlMessage where
  magic : Nat := 0
  type : Nat := 0
  count : Nat := 0
  start : Nat := 0
  deriving DecidableEq, Repr

/-- `BatchSize()`, when `strtol` makes `parsed` of the environment variable, or there is none. -/
def batchSize (parsed : Option Int) : Nat :=
  match parsed with
  | some n => if 0 < n ∧ n ≤ 1024 then n.toNat else kDefaultBatchSize
  | none => kDefaultBatchSize

theorem batchSize_range (parsed : Option Int) : 1 ≤ batchSize parsed ∧ batchSize parsed ≤ 1024 := by
  unfold batchSize kDefaultBatchSize
  cases parsed with
  | none => decide
  | some n =>
    dsimp only
    split
    · omega
    · decide

/-- The message of rank 0 for `count` slices from `start` on. -/
def controlMessage (start count : Nat) : ControlMessage :=
  if count = 0 then { magic := kControlMagic, type := kControlTypeEnd }
  else { magic := kControlMagic, type := kControlTypeBatch, start := start, count := count % 2 ^ 32 }

namespace ControlMessage

/-- The slices that a message names, in order. -/
def slices (m : ControlMessage) : List Nat := (List.range m.count).map (m.start + ·)

/-- The message is the end of a channel. -/
def isEnd (m : ControlMessage) : Bool := m.type == kControlTypeEnd

end ControlMessage

/-- **What rank 0 makes of `count` slices**: the end if there are none, else a batch of exactly these. -/
theorem controlMessage_spec (start : Nat) {count : Nat} (hcount : count ≤ 1024) :
    (controlMessage start count).slices = (List.range count).map (start + ·) ∧
      (controlMessage start count).count = count ∧
      if count = 0 then (controlMessage start count).isEnd = true
      else (controlMessage start count).isEnd = false ∧ (controlMessage start count).start = start := by
  unfold controlMessage
  split
  · rename_i h0
    subst h0
    exact ⟨rfl, rfl, rfl⟩
  · have hmod : count % 2 ^ 32 = count := Nat.mod_eq_of_lt (by omega)
    rw [hmod]
    exact ⟨rfl, rfl, rfl, rfl⟩

/-! ## 2. The threads -/

/-- Where a worker stands in `ProcessChannel` and after it: at the top of its loop, before and in the
    control broadcast, before slice `i` of its batch, back in `WorkerLoop`, or done with the run. -/
inductive ChannelPoint where
  | top
  | grabbed (message : ControlMessage)
  | broadcasting (message : ControlMessage)
  | running (message : ControlMessage) (i : Nat)
  | returned (ok : Bool)
  | parked (ok : Bool)
  deriving DecidableEq, Repr

/-- The worker of a channel on one rank. `received` counts the control broadcasts it has finished,
    `executed` records the slices. -/
structure ChannelWorker where
  point : ChannelPoint := .top
  received : Nat := 0
  executed : List Nat := []

/-- A channel. `sent` are the messages that rank 0 has begun to broadcast on it. -/
structure ControlChannel where
  sent : List ControlMessage := []
  worker : Nat → ChannelWorker := fun _ => {}

/-- A run of the executor on all ranks; the counters are those of `Run` on each. -/
structure DynamicRun where
  nextSlice : Nat := 0
  channel : Nat → ControlChannel := fun _ => {}
  completedChannels : Nat → Nat := fun _ => 0
  batchSuccess : Nat → Bool := fun _ => true

/-- A step of the worker of one rank, other than those that take the mutex. -/
inductive ChannelLabel where
  | post
  | prepare (r : Nat)
  | control (r : Nat) (ok : Bool)
  | slice (r : Nat) (ok : Bool)
  | again (r : Nat)

inductive Label where
  | grab (c : Nat) (parsed : Option Int)
  | channel (c : Nat) (l : ChannelLabel)
  | finish (r c : Nat)

namespace ControlChannel

/-- The channel with another worker on rank `r`. -/
def set (ch : ControlChannel) (r : Nat) (w : ChannelWorker) : ControlChannel :=
  { ch with worker := Function.update ch.worker r w }

/-- **A step of a worker** for a plan of `S` slices on `N` ranks. A broadcast or a slice may fail. -/
def step (N S : Nat) (l : ChannelLabel) (ch : ControlChannel) : Option ControlChannel :=
  match l with
  | .post =>
    let w := ch.worker 0
    match w.point with
    | .grabbed m => some ({ ch with sent := ch.sent ++ [m] }.set 0 { w with point := .broadcasting m })
    | _ => none
  | .prepare r =>
    let w := ch.worker r
    match w.point with
    | .top =>
      if 0 < r ∧ r < N then some (ch.set r { w with point := .broadcasting { magic := kControlMagic } })
      else none
    | _ => none
  | .control r ok =>
    let w := ch.worker r
    match w.point with
    | .broadcasting own =>
      if ok then
        match ch.sent[w.received]? with
        | some delivered =>
          let m := if r = 0 then own else delivered
          some (ch.set r { w with
            point := if m.isEnd then .returned true else .running m 0, received := w.received + 1 })
        | none => none
      else some (ch.set r { w with point := .returned false })
    | _ => none
  | .slice r ok =>
    let w := ch.worker r
    match w.point with
    | .running m i =>
      if i < m.count then
        let index := m.start + i
        if ok ∧ index < S then
          some (ch.set r { w with point := .running m (i + 1), executed := w.executed ++ [index] })
        else some (ch.set r { w with point := .returned false })
      else none
    | _ => none
  | .again r =>
    let w := ch.worker r
    match w.point with
    | .running m i => if i < m.count then none else some (ch.set r { w with point := .top })
    | _ => none

end ControlChannel

namespace DynamicRun

/-- The run with another channel `c`. -/
def set (s : DynamicRun) (c : Nat) (ch : ControlChannel) : DynamicRun :=
  { s with channel := Function.update s.channel c ch }

/-- **A step of a thread** with `C` channels. -/
def step (N C S : Nat) (l : Label) (s : DynamicRun) : Option DynamicRun :=
  match l with
  | .grab c parsed =>
    let w := (s.channel c).worker 0
    match w.point with
    | .top =>
      if c < C ∧ 0 < N then
        let count := min (S - s.nextSlice) (batchSize parsed)
        some { s.set c ((s.channel c).set 0
            { w with point := .grabbed (controlMessage s.nextSlice count) }) with
          nextSlice := s.nextSlice + count }
      else none
    | _ => none
  | .channel c l => if c < C then ((s.channel c).step N S l).map (s.set c) else none
  | .finish r c =>
    let w := (s.channel c).worker r
    match w.point with
    | .returned ok =>
      if c < C then
        some { s.set c ((s.channel c).set r { w with point := .parked ok }) with
          completedChannels := Function.update s.completedChannels r (s.completedChannels r + 1)
          batchSuccess := Function.update s.batchSuccess r (s.batchSuccess r && ok) }
      else none
    | _ => none

/-- `Run` has returned true on rank `r`. -/
def Succeeded (s : DynamicRun) (C r : Nat) : Prop :=
  s.completedChannels r = C ∧ s.batchSuccess r = true

end DynamicRun

/-! ## 3. One channel -/

namespace ControlChannel

/-- The message a worker is about to send. -/
def held (w : ChannelWorker) : List ControlMessage :=
  match w.point with
  | .grabbed m => [m]
  | _ => []

/-- What rank 0 has grabbed for the channel. -/
def orders (ch : ControlChannel) : List ControlMessage := ch.sent ++ held (ch.worker 0)

/-- What a worker that is done with the run has reported. -/
def reported (w : ChannelWorker) : Option Bool :=
  match w.point with
  | .parked ok => some ok
  | _ => none

/-- **What a worker has done of the messages `got`**, the ones it has received. -/
def Done (got : List ControlMessage) (w : ChannelWorker) : Prop :=
  match w.point with
  | .top | .grabbed _ | .broadcasting _ =>
    (∀ m ∈ got, m.isEnd = false) ∧ w.executed = got.flatMap ControlMessage.slices
  | .running m i => ∃ old, got = old ++ [m] ∧ (∀ x ∈ got, x.isEnd = false) ∧ i ≤ m.count ∧
    w.executed = old.flatMap ControlMessage.slices ++ m.slices.take i
  | .returned true | .parked true => ∃ old m, got = old ++ [m] ∧ (∀ x ∈ old, x.isEnd = false) ∧
    m.isEnd = true ∧ w.executed = old.flatMap ControlMessage.slices
  | .returned false | .parked false => w.executed <+: got.flatMap ControlMessage.slices

/-- A worker follows the messages on its channel. -/
def Follows (sent : List ControlMessage) (w : ChannelWorker) : Prop :=
  ∃ got rest, sent = got ++ rest ∧ w.received = got.length ∧ Done got w

/-- The worker of rank 0 is in its last broadcast, or has finished all. -/
def Leads (sent : List ControlMessage) (w : ChannelWorker) : Prop :=
  match w.point with
  | .top | .grabbed _ | .running _ _ | .returned true | .parked true => w.received = sent.length
  | .broadcasting m => ∃ old, sent = old ++ [m] ∧ w.received = old.length
  | .returned false | .parked false => True

/-- A message that orders slices below `bound`. -/
def Orders (bound : Nat) (m : ControlMessage) : Prop :=
  m.isEnd = false ∧ m.start + m.count ≤ bound

/-- The messages grabbed for a channel when the cursor stands at `next`: batches, and then an END if all
    slices are given away. -/
def Ordered (S next : Nat) (ms : List ControlMessage) : Prop :=
  ∃ batches tail, ms = batches ++ tail ∧ (∀ m ∈ batches, Orders next m) ∧
    (tail = [] ∨ ∃ m, tail = [m] ∧ m.isEnd = true ∧ m.count = 0 ∧ next = S)

/-- **What holds of a channel.** -/
structure Inv (S next : Nat) (ch : ControlChannel) : Prop where
  follows : ∀ r, Follows ch.sent (ch.worker r)
  leads : Leads ch.sent (ch.worker 0)
  ordered : Ordered S next ch.orders

section Channel

variable {N S next next' : Nat} {ch ch' : ControlChannel} {sent got : List ControlMessage}
  {w : ChannelWorker} {m : ControlMessage} {l : ChannelLabel}

@[simp] theorem set_worker_self (ch : ControlChannel) (r : Nat) (w : ChannelWorker) :
    (ch.set r w).worker r = w := Function.update_self ..

theorem set_worker_ne (ch : ControlChannel) {r r' : Nat} (w : ChannelWorker) (h : r' ≠ r) :
    (ch.set r w).worker r' = ch.worker r' := Function.update_of_ne h ..

@[simp] theorem set_sent (ch : ControlChannel) (r : Nat) (w : ChannelWorker) :
    (ch.set r w).sent = ch.sent := rfl

/-- What has been done stays done when rank 0 sends more. -/
theorem Follows.extend (h : Follows sent w) (more : List ControlMessage) : Follows (sent ++ more) w := by
  obtain ⟨got, rest, hsent, hgot, hdone⟩ := h
  exact ⟨got, rest ++ more, by rw [hsent, List.append_assoc], hgot, hdone⟩

/-- The cursor only moves on. -/
theorem Ordered.mono {ms : List ControlMessage} (h : Ordered S next ms) (hle : next ≤ next')
    (hS : next' ≤ S) : Ordered S next' ms := by
  obtain ⟨batches, tail, hms, hbatches, htail⟩ := h
  refine ⟨batches, tail, hms, fun m hm => ⟨(hbatches m hm).1, ?_⟩, ?_⟩
  · have := (hbatches m hm).2
    omega
  · rcases htail with htail | ⟨m, htail, hend, hcount, hnext⟩
    · exact Or.inl htail
    · exact Or.inr ⟨m, htail, hend, hcount, by omega⟩

/-- A message that is not the end is a batch. -/
theorem Ordered.batch {ms : List ControlMessage} (h : Ordered S next ms) (hm : m ∈ ms)
    (hend : m.isEnd = false) : Orders next m := by
  obtain ⟨batches, tail, rfl, hbatches, htail⟩ := h
  rcases List.mem_append.mp hm with hm | hm
  · exact hbatches m hm
  · rcases htail with rfl | ⟨e, rfl, he, -, -⟩
    · cases hm
    · rw [List.mem_singleton.mp hm, he] at hend
      cases hend

/-- Nothing is grabbed after the end. -/
theorem Ordered.last {pre rest : List ControlMessage} (h : Ordered S next (pre ++ m :: rest))
    (hend : m.isEnd = true) : rest = [] ∧ m.count = 0 ∧ next = S ∧ ∀ x ∈ pre, x.isEnd = false := by
  obtain ⟨batches, tail, hms, hbatches, htail⟩ := h
  have hno : m ∉ batches := by
    intro hm
    rw [(hbatches m hm).1] at hend
    cases hend
  rcases htail with rfl | ⟨e, rfl, he, hcount, hnext⟩
  · rw [List.append_nil] at hms
    exact absurd (hms ▸ List.mem_append_right _ List.mem_cons_self) hno
  · rcases List.eq_nil_or_concat rest with rfl | ⟨rest', y, rfl⟩
    · obtain ⟨rfl, hme⟩ := List.append_inj' hms rfl
      obtain rfl := (List.cons.inj hme).1
      exact ⟨rfl, hcount, hnext, fun x hx => (hbatches x hx).1⟩
    · rw [List.concat_eq_append, ← List.cons_append, ← List.append_assoc] at hms
      obtain ⟨hpre, -⟩ := List.append_inj' hms rfl
      exact absurd (hpre ▸ List.mem_append_right _ List.mem_cons_self) hno

/-- The slices of a message up to the next one. -/
theorem take_slices (m : ControlMessage) {i : Nat} (hi : i < m.count) :
    m.slices.take (i + 1) = m.slices.take i ++ [m.start + i] := by
  have hlen : i < m.slices.length := by rw [ControlMessage.slices, List.length_map, List.length_range]; exact hi
  rw [List.take_succ_eq_append_getElem hlen]
  congr 2
  simp [ControlMessage.slices]

theorem take_slices_all (m : ControlMessage) {i : Nat} (hi : m.count ≤ i) : m.slices.take i = m.slices :=
  List.take_of_length_le (by rw [ControlMessage.slices, List.length_map, List.length_range]; exact hi)

/-- A worker that stands elsewhere. -/
theorem Inv.move (h : Inv S next ch) {r : Nat} (hf : Follows ch.sent w)
    (hl : r = 0 → Leads ch.sent w ∧ held w = held (ch.worker 0)) :
    Inv S next (ch.set r w) ∧ (ch.set r w).orders = ch.orders := by
  have hzero : Leads ch.sent ((ch.set r w).worker 0) ∧ held ((ch.set r w).worker 0) = held (ch.worker 0) := by
    by_cases hr : r = 0
    · subst hr
      rw [set_worker_self]
      exact hl rfl
    · rw [set_worker_ne _ _ (Ne.symm hr)]
      exact ⟨h.leads, rfl⟩
  have horders : (ch.set r w).orders = ch.orders := by rw [orders, hzero.2, set_sent, orders]
  refine ⟨⟨fun r' => ?_, hzero.1, horders ▸ h.ordered⟩, horders⟩
  by_cases hr : r' = r
  · subst hr
    rw [set_worker_self]
    exact hf
  · rw [set_worker_ne _ _ hr]
    exact h.follows r'

/-- A worker in the control broadcast receives the next message. -/
theorem Inv.receive (h : Inv S next ch) {r : Nat} {own delivered : ControlMessage}
    (hp : (ch.worker r).point = .broadcasting own)
    (hget : ch.sent[(ch.worker r).received]? = some delivered) :
    (if r = 0 then own else delivered) = delivered ∧
      (r = 0 → (ch.worker r).received + 1 = ch.sent.length) ∧ ∃ got rest, ch.sent = got ++ delivered :: rest ∧
        (ch.worker r).received = got.length ∧ (∀ x ∈ got, x.isEnd = false) ∧
          (ch.worker r).executed = got.flatMap ControlMessage.slices := by
  have hfollows := h.follows r
  have hlead : r = 0 → own = delivered ∧ (ch.worker r).received + 1 = ch.sent.length := by
    intro hr
    have hleads := h.leads
    rw [← hr, Leads, hp] at hleads
    obtain ⟨old, hsent, hrec⟩ := hleads
    rw [hrec, hsent, List.getElem?_append_right (Nat.le_refl _), Nat.sub_self] at hget
    refine ⟨Option.some.inj hget, ?_⟩
    rw [hrec, hsent, List.length_append]
    rfl
  refine ⟨?_, fun hr => (hlead hr).2, ?_⟩
  · split
    · rename_i hr
      exact (hlead hr).1
    · rfl
  · obtain ⟨got, rest, hsent, hrec, hdone⟩ := hfollows
    rw [Done, hp] at hdone
    rw [hrec, hsent, List.getElem?_append_right (Nat.le_refl _), Nat.sub_self] at hget
    cases rest with
    | nil => cases hget
    | cons x rest =>
      obtain rfl := Option.some.inj hget
      exact ⟨got, rest, hsent, hrec, hdone.1, hdone.2⟩

/-- Rank 0 begins a broadcast. -/
theorem Inv.post (h : Inv S next ch) (hp : (ch.worker 0).point = .grabbed m) {ch1 : ControlChannel}
    (hch1 : ch1 = { ch with sent := ch.sent ++ [m] }.set 0 { ch.worker 0 with point := .broadcasting m }) :
    Inv S next ch1 ∧ ch1.orders = ch.orders := by
  have hworker : ch1.worker 0 = { ch.worker 0 with point := .broadcasting m } := by
    rw [hch1]
    exact set_worker_self ..
  have hsent : ch1.sent = ch.sent ++ [m] := by rw [hch1, set_sent]
  have horders : ch1.orders = ch.orders := by
    rw [orders, orders, hsent, hworker, held, held, hp, List.append_nil]
  refine ⟨⟨fun r => ?_, ?_, horders ▸ h.ordered⟩, horders⟩
  · by_cases hr : r = 0
    · subst hr
      rw [hworker, hsent]
      obtain ⟨got, rest, hgot, hrec, hdone⟩ := (h.follows 0).extend [m]
      rw [Done, hp] at hdone
      exact ⟨got, rest, hgot, hrec, hdone⟩
    · have hother : ch1.worker r = ch.worker r := by
        rw [hch1]
        exact set_worker_ne _ _ hr
      rw [hother, hsent]
      exact (h.follows r).extend [m]
  · have hleads := h.leads
    rw [Leads, hp] at hleads
    rw [hworker, hsent]
    exact ⟨ch.sent, rfl, hleads⟩

/-- **Every step of a worker keeps what holds of its channel**, orders nothing new and reports nothing. -/
theorem step_spec (h : Inv S next ch) (hs : ch.step N S l = some ch') :
    Inv S next ch' ∧ ch'.orders = ch.orders ∧ ∀ r, reported (ch'.worker r) = reported (ch.worker r) := by
  have hreported : ∀ {r : Nat} {w : ChannelWorker}, reported w = reported (ch.worker r) →
      ∀ r', reported ((ch.set r w).worker r') = reported (ch.worker r') := by
    intro r w hw r'
    by_cases hr : r' = r
    · subst hr
      rw [set_worker_self, hw]
    · rw [set_worker_ne _ _ hr]
  cases l with
  | post =>
    rw [step] at hs
    cases hp : (ch.worker 0).point with
    | grabbed m =>
      simp only [hp] at hs
      obtain ⟨hinv, horders⟩ := h.post hp (Option.some.inj hs).symm
      refine ⟨hinv, horders, fun r => ?_⟩
      rw [← Option.some.inj hs]
      by_cases hr : r = 0
      · subst hr
        rw [set_worker_self, reported, reported, hp]
      · rw [set_worker_ne _ _ hr]
    | top | broadcasting _ | running _ _ | returned _ | parked _ => simp [hp] at hs
  | prepare r =>
    rw [step] at hs
    cases hp : (ch.worker r).point with
    | top =>
      simp only [hp] at hs
      split at hs
      · rename_i hr
        obtain rfl := Option.some.inj hs
        obtain ⟨got, rest, hsent, hrec, hdone⟩ := h.follows r
        rw [Done, hp] at hdone
        obtain ⟨hinv, horders⟩ := h.move (r := r) (w := { ch.worker r with point := .broadcasting _ })
          ⟨got, rest, hsent, hrec, hdone⟩ (fun h0 => absurd h0 (Nat.ne_of_gt hr.1))
        exact ⟨hinv, horders, hreported (by rw [reported, reported, hp])⟩
      · cases hs
    | grabbed _ | broadcasting _ | running _ _ | returned _ | parked _ => simp [hp] at hs
  | control r ok =>
    rw [step] at hs
    cases hp : (ch.worker r).point with
    | broadcasting own =>
      simp only [hp] at hs
      have hheld : r = 0 → held (ch.worker 0) = [] := fun hr => by rw [held, ← hr, hp]
      split at hs
      · cases hget : ch.sent[(ch.worker r).received]? with
        | none => simp [hget] at hs
        | some delivered =>
          simp only [hget] at hs
          obtain ⟨hmessage, hlast, got, rest, hsent, hrec, hends, hexecuted⟩ := h.receive hp hget
          rw [hmessage] at hs
          obtain rfl := Option.some.inj hs
          have hsent' : ch.sent = (got ++ [delivered]) ++ rest := by
            rw [List.append_assoc, List.singleton_append]
            exact hsent
          have hrec' : (ch.worker r).received + 1 = (got ++ [delivered]).length := by
            rw [hrec, List.length_append]
            rfl
          cases hend : delivered.isEnd with
          | true =>
            rw [if_pos rfl]
            obtain ⟨hinv, horders⟩ := h.move (r := r) (w := { ch.worker r with
                point := .returned true, received := (ch.worker r).received + 1 })
              ⟨got ++ [delivered], rest, hsent', hrec', got, delivered, rfl, hends, hend, hexecuted⟩
              (fun hr => ⟨hlast hr, (hheld hr).symm⟩)
            exact ⟨hinv, horders, hreported (by rw [reported, reported, hp])⟩
          | false =>
            rw [if_neg Bool.false_ne_true]
            have hall : ∀ x ∈ got ++ [delivered], x.isEnd = false := by
              intro x hx
              rcases List.mem_append.mp hx with hx | hx
              · exact hends x hx
              · rw [List.mem_singleton.mp hx]
                exact hend
            obtain ⟨hinv, horders⟩ := h.move (r := r) (w := { ch.worker r with
                point := .running delivered 0, received := (ch.worker r).received + 1 })
              ⟨got ++ [delivered], rest, hsent', hrec', got, rfl, hall, Nat.zero_le _, by
                rw [List.take_zero, List.append_nil]
                exact hexecuted⟩
              (fun hr => ⟨hlast hr, (hheld hr).symm⟩)
            exact ⟨hinv, horders, hreported (by rw [reported, reported, hp])⟩
      · obtain rfl := Option.some.inj hs
        obtain ⟨got, rest, hsent, hrec, hdone⟩ := h.follows r
        rw [Done, hp] at hdone
        obtain ⟨hinv, horders⟩ := h.move (r := r) (w := { ch.worker r with point := .returned false })
          ⟨got, rest, hsent, hrec, [], by
            rw [List.append_nil]
            exact hdone.2⟩
          (fun hr => ⟨trivial, (hheld hr).symm⟩)
        exact ⟨hinv, horders, hreported (by rw [reported, reported, hp])⟩
    | top | grabbed _ | running _ _ | returned _ | parked _ => simp [hp] at hs
  | slice r ok =>
    rw [step] at hs
    cases hp : (ch.worker r).point with
    | running m i =>
      simp only [hp] at hs
      split at hs
      · rename_i hi
        have hheld : r = 0 → held (ch.worker 0) = [] := fun hr => by rw [held, ← hr, hp]
        obtain ⟨got, rest, hsent, hrec, hdone⟩ := h.follows r
        rw [Done, hp] at hdone
        obtain ⟨old, hgot, hends, hle, hexecuted⟩ := hdone
        split at hs
        · obtain rfl := Option.some.inj hs
          obtain ⟨hinv, horders⟩ := h.move (r := r) (w := { ch.worker r with
              point := .running m (i + 1), executed := (ch.worker r).executed ++ [m.start + i] })
            ⟨got, rest, hsent, hrec, old, hgot, hends, hi, by
              rw [take_slices m hi, ← List.append_assoc, ← hexecuted]⟩
            (fun hr => ⟨by
              have hleads := h.leads
              rw [← hr, Leads, hp] at hleads
              exact hleads, (hheld hr).symm⟩)
          exact ⟨hinv, horders, hreported (by rw [reported, reported, hp])⟩
        · obtain rfl := Option.some.inj hs
          obtain ⟨hinv, horders⟩ := h.move (r := r) (w := { ch.worker r with point := .returned false })
            ⟨got, rest, hsent, hrec, by
              show (ch.worker r).executed <+: _
              rw [hexecuted, hgot, List.flatMap_append, List.prefix_append_right_inj, List.flatMap_singleton]
              exact List.take_prefix ..⟩
            (fun hr => ⟨trivial, (hheld hr).symm⟩)
          exact ⟨hinv, horders, hreported (by rw [reported, reported, hp])⟩
      · cases hs
    | top | grabbed _ | broadcasting _ | returned _ | parked _ => simp [hp] at hs
  | again r =>
    rw [step] at hs
    cases hp : (ch.worker r).point with
    | running m i =>
      simp only [hp] at hs
      split at hs
      · cases hs
      · rename_i hi
        obtain rfl := Option.some.inj hs
        have hheld : r = 0 → held (ch.worker 0) = [] := fun hr => by rw [held, ← hr, hp]
        obtain ⟨got, rest, hsent, hrec, hdone⟩ := h.follows r
        rw [Done, hp] at hdone
        obtain ⟨old, hgot, hends, hle, hexecuted⟩ := hdone
        obtain ⟨hinv, horders⟩ := h.move (r := r) (w := { ch.worker r with point := .top })
          ⟨got, rest, hsent, hrec, hends, by
            show (ch.worker r).executed = _
            rw [hexecuted, take_slices_all m (by omega), hgot, List.flatMap_append, List.flatMap_singleton]⟩
          (fun hr => ⟨by
            have hleads := h.leads
            rw [← hr, Leads, hp] at hleads
            exact hleads, (hheld hr).symm⟩)
        exact ⟨hinv, horders, hreported (by rw [reported, reported, hp])⟩
    | top | grabbed _ | broadcasting _ | returned _ | parked _ => simp [hp] at hs

end Channel

end ControlChannel

/-! ## 4. All channels -/

namespace DynamicRun

open ControlChannel

/-- **What holds of a run**: what rank 0 has grabbed for all channels is, up to order, every slice before
    the cursor once; and `Run` counts the workers that have reported. -/
structure Inv (C S : Nat) (s : DynamicRun) : Prop where
  cursor : s.nextSlice ≤ S
  channels : ∀ c, (s.channel c).Inv S s.nextSlice
  given : ((List.range C).flatMap fun c => (s.channel c).orders.flatMap ControlMessage.slices).Perm
    (List.range s.nextSlice)
  completed : ∀ r, s.completedChannels r =
    (List.range C).countP fun c => (reported ((s.channel c).worker r)).isSome
  success : ∀ r, s.batchSuccess r = true → ∀ c < C, reported ((s.channel c).worker r) ≠ some false

section Run

variable {N C S : Nat} {s s' : DynamicRun} {l : Label} {c r : Nat}

@[simp] theorem set_channel_self (s : DynamicRun) (c : Nat) (ch : ControlChannel) :
    (s.set c ch).channel c = ch := Function.update_self ..

theorem set_channel_ne (s : DynamicRun) {c c' : Nat} (ch : ControlChannel) (h : c' ≠ c) :
    (s.set c ch).channel c' = s.channel c' := Function.update_of_ne h ..

theorem inv_start (C S : Nat) : Inv C S {} := by
  have hfollows : Follows [] {} := ⟨[], [], rfl, rfl, fun _ h => absurd h List.not_mem_nil, rfl⟩
  refine ⟨Nat.zero_le _, fun c => ⟨fun _ => hfollows, rfl, [], [], rfl,
    fun _ h => absurd h List.not_mem_nil, Or.inl rfl⟩, ?_, fun r => ?_, fun r _ c _ => fun h => by cases h⟩
  · show ((List.range C).flatMap fun _ => []).Perm []
    rw [List.flatMap_eq_nil_iff.mpr fun _ _ => rfl]
  · exact (List.countP_eq_zero.mpr fun c _ => Bool.false_ne_true).symm

/-- A worker of a channel takes a step. -/
theorem inv_channel (h : Inv C S s) {ch : ControlChannel} (hinv : ch.Inv S s.nextSlice)
    (horders : ch.orders = (s.channel c).orders)
    (hreported : ∀ r, reported (ch.worker r) = reported ((s.channel c).worker r)) :
    Inv C S (s.set c ch) := by
  have hchannel : ∀ c', (s.set c ch).channel c' = if c' = c then ch else s.channel c' := by
    intro c'
    split
    · rename_i e
      subst e
      exact set_channel_self ..
    · rename_i e
      exact set_channel_ne _ _ e
  have hsame : ∀ c', ((s.set c ch).channel c').orders = (s.channel c').orders ∧
      ∀ r, reported (((s.set c ch).channel c').worker r) = reported ((s.channel c').worker r) := by
    intro c'
    rw [hchannel]
    split
    · rename_i e
      subst e
      exact ⟨horders, hreported⟩
    · exact ⟨rfl, fun _ => rfl⟩
  refine ⟨h.cursor, fun c' => ?_, ?_, fun r => ?_, fun r hr c' hc' => ?_⟩
  · rw [hchannel]
    split
    · exact hinv
    · exact h.channels c'
  · have hgiven := h.given
    simp only [← (hsame _).1] at hgiven
    exact hgiven
  · have hcompleted := h.completed r
    simp only [← (hsame _).2 r] at hcompleted
    exact hcompleted
  · rw [(hsame c').2 r]
    exact h.success r hr c' hc'

/-- At the top of its loop the worker of rank 0 has received all that it has sent. -/
theorem open_top {ch : ControlChannel} {next : Nat} (h : ch.Inv S next) (hp : (ch.worker 0).point = .top) :
    ch.orders = ch.sent ∧ ∀ m ∈ ch.sent, m.isEnd = false := by
  have hheld : held (ch.worker 0) = [] := by rw [held, hp]
  have hleads := h.leads
  obtain ⟨got, rest, hsent, hrec, hdone⟩ := h.follows 0
  rw [Leads, hp] at hleads
  rw [Done, hp] at hdone
  have hlen := congrArg List.length hsent
  rw [List.length_append] at hlen
  obtain rfl : rest = [] := List.eq_nil_of_length_eq_zero (by omega)
  rw [List.append_nil] at hsent
  exact ⟨by rw [orders, hheld, List.append_nil], hsent ▸ hdone.1⟩

/-- **Rank 0 grabs a batch**, or finds that there is nothing left. -/
theorem inv_grab (h : Inv C S s) {parsed : Option Int} (hc : c < C)
    (hp : ((s.channel c).worker 0).point = .top) {count : Nat}
    (hcount : count = min (S - s.nextSlice) (batchSize parsed)) :
    Inv C S { s.set c ((s.channel c).set 0 { (s.channel c).worker 0 with
      point := .grabbed (controlMessage s.nextSlice count) }) with nextSlice := s.nextSlice + count } := by
  have hcursor := h.cursor
  obtain ⟨hlow, hhigh⟩ := batchSize_range parsed
  have hle : s.nextSlice + count ≤ S := by omega
  obtain ⟨hslices, hcountm, hspec⟩ := controlMessage_spec s.nextSlice (show count ≤ 1024 by omega)
  generalize controlMessage s.nextSlice count = m at hslices hcountm hspec ⊢
  obtain ⟨horders, hopen⟩ := open_top (h.channels c) hp
  generalize hch : (s.channel c).set 0 { (s.channel c).worker 0 with point := .grabbed m } = ch
  have hworker : ch.worker 0 = { (s.channel c).worker 0 with point := .grabbed m } := by
    rw [← hch]
    exact set_worker_self ..
  have hother : ∀ r ≠ 0, ch.worker r = (s.channel c).worker r := fun r hr => by
    rw [← hch]
    exact set_worker_ne _ _ hr
  have hsent : ch.sent = (s.channel c).sent := by rw [← hch, set_sent]
  have horders' : ch.orders = (s.channel c).orders ++ [m] := by
    rw [orders, hsent, hworker, horders]
    rfl
  have hreported : ∀ r, reported (ch.worker r) = reported ((s.channel c).worker r) := by
    intro r
    by_cases hr : r = 0
    · subst hr
      rw [hworker, reported, reported, hp]
    · rw [hother r hr]
  have hinv : ch.Inv S (s.nextSlice + count) := by
    refine ⟨fun r => ?_, ?_, ?_⟩
    · rw [hsent]
      by_cases hr : r = 0
      · subst hr
        obtain ⟨got, rest, hgot, hrec, hdone⟩ := (h.channels c).follows 0
        rw [Done, hp] at hdone
        rw [hworker]
        exact ⟨got, rest, hgot, hrec, hdone⟩
      · rw [hother r hr]
        exact (h.channels c).follows r
    · have hleads := (h.channels c).leads
      rw [Leads, hp] at hleads
      rw [hworker, hsent]
      exact hleads
    · rw [horders', horders]
      have hbatches : ∀ x ∈ (s.channel c).sent, Orders (s.nextSlice + count) x := by
        intro x hx
        have hx' := (h.channels c).ordered.batch (horders ▸ hx) (hopen x hx)
        exact ⟨hx'.1, Nat.le_trans hx'.2 (Nat.le_add_right ..)⟩
      by_cases h0 : count = 0
      · rw [if_pos h0] at hspec
        exact ⟨_, [m], rfl, hbatches, Or.inr ⟨m, rfl, hspec, by omega, by omega⟩⟩
      · rw [if_neg h0] at hspec
        refine ⟨_, [], (List.append_nil _).symm, fun x hx => ?_, Or.inl rfl⟩
        rcases List.mem_append.mp hx with hx | hx
        · exact hbatches x hx
        · rw [List.mem_singleton.mp hx]
          exact ⟨hspec.1, by rw [hspec.2, hcountm]⟩
  have hchannel : ∀ c', (s.set c ch).channel c' = if c' = c then ch else s.channel c' := by
    intro c'
    split
    · rename_i e
      subst e
      exact set_channel_self ..
    · rename_i e
      exact set_channel_ne _ _ e
  have hsame : ∀ c' r, reported (((s.set c ch).channel c').worker r) =
      reported ((s.channel c').worker r) := by
    intro c' r
    rw [hchannel]
    split
    · rename_i e
      subst e
      exact hreported r
    · rfl
  refine ⟨hle, fun c' => ?_, ?_, fun r => ?_, fun r hr c' hc' => ?_⟩
  · show ((s.set c ch).channel c').Inv S (s.nextSlice + count)
    rw [hchannel]
    split
    · exact hinv
    · exact ⟨(h.channels c').follows, (h.channels c').leads,
        (h.channels c').ordered.mono (Nat.le_add_right ..) hle⟩
  · show ((List.range C).flatMap fun c' => ((s.set c ch).channel c').orders.flatMap _).Perm
      (List.range (s.nextSlice + count))
    have hchange : ((List.range C).flatMap fun c' =>
        ((s.set c ch).channel c').orders.flatMap ControlMessage.slices).Perm
        (((List.range C).flatMap fun c' => (s.channel c').orders.flatMap ControlMessage.slices) ++
          m.slices) :=
      flatMap_change List.nodup_range (List.mem_range.mpr hc)
        (fun c' hne => by rw [set_channel_ne _ _ hne])
        (by rw [set_channel_self, horders', List.flatMap_append, List.flatMap_singleton])
    rw [List.range_add, ← hslices]
    exact hchange.trans (h.given.append_right _)
  · show s.completedChannels r = _
    rw [h.completed r]
    exact List.countP_congr fun c' _ => by rw [← hsame c' r]
  · show reported (((s.set c ch).channel c').worker r) ≠ _
    rw [hsame]
    exact h.success r hr c' hc'

/-- **A worker reports** to the `Run` of its rank. -/
theorem inv_finish (h : Inv C S s) {ok : Bool} (hc : c < C)
    (hp : ((s.channel c).worker r).point = .returned ok) :
    Inv C S { s.set c ((s.channel c).set r { (s.channel c).worker r with point := .parked ok }) with
      completedChannels := Function.update s.completedChannels r (s.completedChannels r + 1)
      batchSuccess := Function.update s.batchSuccess r (s.batchSuccess r && ok) } := by
  generalize hw : ({ (s.channel c).worker r with point := .parked ok } : ChannelWorker) = w
  have hreported : reported w = some ok := by rw [← hw]; rfl
  have hbefore : reported ((s.channel c).worker r) = none := by rw [reported, hp]
  have hfollows : Follows (s.channel c).sent w := by
    obtain ⟨got, rest, hsent, hrec, hdone⟩ := (h.channels c).follows r
    rw [Done, hp] at hdone
    rw [← hw]
    refine ⟨got, rest, hsent, hrec, ?_⟩
    cases ok <;> exact hdone
  have hlead : r = 0 → Leads (s.channel c).sent w ∧ held w = held ((s.channel c).worker 0) := by
    intro hr
    have hleads := (h.channels c).leads
    rw [← hr, Leads, hp] at hleads
    rw [← hw, ← hr]
    refine ⟨?_, ?_⟩
    · cases ok <;> exact hleads
    · rw [held, held, hp]
  obtain ⟨hinv, horders⟩ := (h.channels c).move hfollows hlead
  generalize hch : (s.channel c).set r w = ch at hinv horders
  have hself : ch.worker r = w := by
    rw [← hch]
    exact set_worker_self ..
  have hworker : ∀ r' c', (r' ≠ r ∨ c' ≠ c) →
      ((s.set c ch).channel c').worker r' = (s.channel c').worker r' := by
    intro r' c' hne
    by_cases hcc : c' = c
    · subst hcc
      rw [set_channel_self, ← hch]
      exact set_worker_ne _ _ (hne.resolve_right fun h => h rfl)
    · rw [set_channel_ne _ _ hcc]
  have horders' : ∀ c', ((s.set c ch).channel c').orders = (s.channel c').orders := by
    intro c'
    by_cases hcc : c' = c
    · subst hcc
      rw [set_channel_self, horders]
    · rw [set_channel_ne _ _ hcc]
  refine ⟨h.cursor, fun c' => ?_, ?_, fun r' => ?_, fun r' htrue c' hc' => ?_⟩
  · show ((s.set c ch).channel c').Inv S s.nextSlice
    by_cases hcc : c' = c
    · subst hcc
      rw [set_channel_self]
      exact hinv
    · rw [set_channel_ne _ _ hcc]
      exact h.channels c'
  · have hgiven := h.given
    simp only [← horders'] at hgiven
    exact hgiven
  · show Function.update s.completedChannels r (s.completedChannels r + 1) r' =
      (List.range C).countP fun c' => (reported (((s.set c ch).channel c').worker r')).isSome
    by_cases hr : r' = r
    · subst hr
      have hchange := countP_change (p := fun c' => (reported ((s.channel c').worker r')).isSome)
        (q := fun c' => (reported (((s.set c ch).channel c').worker r')).isSome)
        List.nodup_range (List.mem_range.mpr hc) (fun c' hne => by rw [hworker r' c' (Or.inr hne)])
      rw [set_channel_self, hself, hbefore, hreported, if_neg (by decide), if_pos (by rfl),
        ← h.completed r'] at hchange
      rw [Function.update_self, ← hchange, Nat.add_zero]
    · rw [Function.update_of_ne hr, h.completed r']
      exact List.countP_congr fun c' _ => by rw [hworker r' c' (Or.inl hr)]
  · show reported (((s.set c ch).channel c').worker r') ≠ _
    have hsuccess : Function.update s.batchSuccess r (s.batchSuccess r && ok) r' = true := htrue
    by_cases hr : r' = r
    · subst hr
      rw [Function.update_self, Bool.and_eq_true] at hsuccess
      by_cases hcc : c' = c
      · subst hcc
        rw [set_channel_self, hself, hreported, hsuccess.2]
        exact fun h => by cases h
      · rw [hworker r' c' (Or.inr hcc)]
        exact h.success r' hsuccess.1 c' hc'
    · rw [Function.update_of_ne hr] at hsuccess
      rw [hworker r' c' (Or.inl hr)]
      exact h.success r' hsuccess c' hc'

/-- **Every step keeps what holds of a run.** -/
theorem inv_step (h : Inv C S s) (hs : step N C S l s = some s') : Inv C S s' := by
  cases l with
  | grab c parsed =>
    rw [step] at hs
    cases hp : ((s.channel c).worker 0).point with
    | top =>
      simp only [hp] at hs
      split at hs
      · rename_i hc
        obtain rfl := Option.some.inj hs
        exact inv_grab h hc.1 hp rfl
      · cases hs
    | grabbed _ | broadcasting _ | running _ _ | returned _ | parked _ => simp [hp] at hs
  | channel c l =>
    rw [step] at hs
    split at hs
    · obtain ⟨ch, hch, rfl⟩ := Option.map_eq_some_iff.mp hs
      obtain ⟨hinv, horders, hreported⟩ := step_spec (h.channels c) hch
      exact inv_channel h hinv horders hreported
    · cases hs
  | finish r c =>
    rw [step] at hs
    cases hp : ((s.channel c).worker r).point with
    | returned ok =>
      simp only [hp] at hs
      split at hs
      · rename_i hc
        obtain rfl := Option.some.inj hs
        exact inv_finish h hc hp
      · cases hs
    | top | grabbed _ | broadcasting _ | running _ _ | parked _ => simp [hp] at hs

/-! ## 5. The slices -/

/-- **Every rank executes every slice once, and all ranks in the same way.** Rank 0 orders only slices of
    the plan, and no worker finds an index out of range. What two workers of a channel have executed
    is the beginning of one sequence. When `Run` returns true on a rank, its workers together have
    executed every slice once; on each channel the rank has received every message there is, the last one
    is the only END, and its slices are the ones ordered there, in that order. -/
structure Consistent (C S : Nat) (s : DynamicRun) : Prop where
  in_range : ∀ c, ∀ m ∈ (s.channel c).orders, ∀ i ∈ m.slices, i < S
  checked : ∀ c r m i, ((s.channel c).worker r).point = .running m i → i < m.count → m.start + i < S
  in_order : ∀ c r, ((s.channel c).worker r).executed <+:
    (s.channel c).sent.flatMap ControlMessage.slices
  once : ∀ r, s.Succeeded C r →
    ((List.range C).flatMap fun c => ((s.channel c).worker r).executed).Perm (List.range S)
  ended : ∀ r, s.Succeeded C r → ∀ c < C, (∃ batches m, (s.channel c).sent = batches ++ [m] ∧
      m.isEnd = true ∧ ∀ x ∈ batches, x.isEnd = false) ∧
    ((s.channel c).worker r).received = (s.channel c).sent.length ∧
    ((s.channel c).worker r).executed = (s.channel c).sent.flatMap ControlMessage.slices

/-- A batch in progress lies below the cursor. -/
theorem running_orders {ch : ControlChannel} {next : Nat} (h : ch.Inv S next) {m : ControlMessage} {i : Nat}
    (hp : (ch.worker r).point = .running m i) : Orders next m := by
  obtain ⟨got, rest, hsent, hrec, hdone⟩ := h.follows r
  rw [Done, hp] at hdone
  obtain ⟨old, hgot, hends, -, -⟩ := hdone
  have hm : m ∈ got := hgot ▸ List.mem_append_right _ (List.mem_singleton_self m)
  have hmem : m ∈ ch.orders := by
    rw [orders, hsent]
    exact List.mem_append_left _ (List.mem_append_left _ hm)
  exact h.ordered.batch hmem (hends m hm)

/-- What a worker has executed is ordered. -/
theorem executed_prefix {sent : List ControlMessage} {w : ChannelWorker} (h : Follows sent w) :
    w.executed <+: sent.flatMap ControlMessage.slices := by
  obtain ⟨got, rest, hsent, -, hdone⟩ := h
  have hgot : w.executed <+: got.flatMap ControlMessage.slices := by
    unfold Done at hdone
    split at hdone
    · exact ⟨[], by rw [List.append_nil]; exact hdone.2⟩
    · exact ⟨[], by rw [List.append_nil]; exact hdone.2⟩
    · exact ⟨[], by rw [List.append_nil]; exact hdone.2⟩
    · rename_i m i _
      obtain ⟨old, hgot, -, -, hexecuted⟩ := hdone
      rw [hexecuted, hgot, List.flatMap_append, List.flatMap_singleton]
      exact (List.prefix_append_right_inj _).mpr (List.take_prefix ..)
    · obtain ⟨old, m, hgot, -, -, hexecuted⟩ := hdone
      rw [hexecuted, hgot, List.flatMap_append]
      exact List.prefix_append ..
    · obtain ⟨old, m, hgot, -, -, hexecuted⟩ := hdone
      rw [hexecuted, hgot, List.flatMap_append]
      exact List.prefix_append ..
    · exact hdone
    · exact hdone
  rw [hsent, List.flatMap_append]
  exact hgot.trans (List.prefix_append ..)

/-- **A channel whose worker has reported success** has had its END, as the last of all messages. -/
theorem channel_ended {ch : ControlChannel} {next : Nat} (h : ch.Inv S next)
    (hr : reported (ch.worker r) = some true) : next = S ∧ ch.orders = ch.sent ∧
      (∃ batches m, ch.sent = batches ++ [m] ∧ m.isEnd = true ∧ ∀ x ∈ batches, x.isEnd = false) ∧
      (ch.worker r).received = ch.sent.length ∧
      (ch.worker r).executed = ch.sent.flatMap ControlMessage.slices := by
  obtain ⟨got, rest, hsent, hrec, hdone⟩ := h.follows r
  have hp : (ch.worker r).point = .parked true := by
    unfold reported at hr
    split at hr
    · rename_i hp
      rw [hp, Option.some.inj hr]
    · cases hr
  rw [Done, hp] at hdone
  obtain ⟨old, m, hgot, hends, hend, hexecuted⟩ := hdone
  have horders : ch.orders = old ++ m :: (rest ++ held (ch.worker 0)) := by
    rw [orders, hsent, hgot, List.append_assoc, List.append_assoc, List.singleton_append]
  obtain ⟨hnil, hcount, hnext, -⟩ := (horders ▸ h.ordered).last hend
  obtain ⟨hrest, hheld⟩ := List.append_eq_nil_iff.mp hnil
  have hnone : m.slices = [] := by rw [ControlMessage.slices, hcount]; rfl
  rw [hrest, List.append_nil] at hsent
  refine ⟨hnext, by rw [orders, hheld, List.append_nil], ⟨old, m, hsent.trans hgot, hend, hends⟩,
    by rw [hrec, hsent], ?_⟩
  rw [hexecuted, hsent, hgot, List.flatMap_append, List.flatMap_singleton, hnone, List.append_nil]

/-- **The dynamic executor runs every slice exactly once, the same way on all ranks**, however the workers
    of all ranks are interleaved. -/
theorem dynamic_slices {N C S : Nat} (hC : 1 ≤ C) {ls : List Label} {s : DynamicRun}
    (h : Reach (step N C S) {} ls s) : Consistent C S s := by
  have hinv : Inv C S s := h.invariant (inv_start C S) fun _ _ _ => inv_step
  have hreported : ∀ r, s.Succeeded C r → ∀ c < C, reported ((s.channel c).worker r) = some true := by
    intro r hr c hc
    have hall := hinv.completed r
    rw [hr.1] at hall
    have hsome := List.countP_eq_length.mp (hall.symm.trans List.length_range.symm) c (List.mem_range.mpr hc)
    obtain ⟨ok, hok⟩ := Option.isSome_iff_exists.mp hsome
    cases ok with
    | true => exact hok
    | false => exact absurd hok (hinv.success r hr.2 c hc)
  refine ⟨fun c m hm i hi => ?_, fun c r m i hp hi => ?_, fun c r => executed_prefix ((hinv.channels c).follows r),
    fun r hr => ?_, fun r hr c hc => ?_⟩
  · obtain ⟨j, hj, rfl⟩ := List.mem_map.mp hi
    have hj := List.mem_range.mp hj
    have hcursor := hinv.cursor
    have hbatch : m.isEnd = false ∨ m.isEnd = true := by cases m.isEnd <;> simp
    rcases hbatch with hend | hend
    · have := ((hinv.channels c).ordered.batch hm hend).2
      omega
    · obtain ⟨pre, rest, horders⟩ := List.append_of_mem hm
      have := ((horders ▸ (hinv.channels c).ordered).last hend).2.1
      omega
  · have := (running_orders (hinv.channels c) hp).2
    have := hinv.cursor
    omega
  · have hnext := (channel_ended (hinv.channels 0) (hreported r hr 0 hC)).1
    have hgiven := hinv.given
    rw [hnext] at hgiven
    refine List.Perm.trans (List.Perm.of_eq ?_) hgiven
    refine List.flatMap_congr fun c hc => ?_
    obtain ⟨-, horders, -, -, hexecuted⟩ :=
      channel_ended (hinv.channels c) (hreported r hr c (List.mem_range.mp hc))
    rw [hexecuted, horders]
  · obtain ⟨-, -, h1, h2, h3⟩ := channel_ended (hinv.channels c) (hreported r hr c hc)
    exact ⟨h1, h2, h3⟩

/-- Three slices on two channels of two ranks: the first channel gets two of them. -/
def threeSlices : List Label :=
  [.grab 0 none, .grab 1 (some 5), .channel 1 .post, .channel 0 .post, .channel 0 (.prepare 1),
    .channel 1 (.prepare 1), .channel 0 (.control 1 true), .channel 0 (.slice 1 true),
    .channel 1 (.control 0 true), .channel 1 (.control 1 true), .channel 0 (.control 0 true),
    .channel 0 (.slice 0 true), .channel 1 (.slice 0 true), .channel 1 (.slice 1 true),
    .channel 0 (.slice 0 true), .channel 0 (.slice 1 true), .channel 0 (.again 0), .channel 0 (.again 1),
    .channel 1 (.again 0), .channel 1 (.again 1), .grab 1 none, .channel 1 .post, .grab 0 none,
    .channel 0 .post, .channel 0 (.prepare 1), .channel 1 (.prepare 1), .channel 0 (.control 1 true),
    .channel 1 (.control 1 true), .channel 0 (.control 0 true), .channel 1 (.control 0 true),
    .finish 1 0, .finish 1 1, .finish 0 1, .finish 0 0]

theorem dynamic_slices_three :
    let s := follow (step 2 2 3) {} threeSlices
    (s.completedChannels 0 = 2 ∧ s.completedChannels 1 = 2 ∧ s.batchSuccess 1 = true) ∧
      ((s.channel 0).worker 1).executed = [0, 1] ∧ ((s.channel 1).worker 1).executed = [2] ∧
      Consistent 2 3 s := by
  intro s
  obtain ⟨ls, -, hr⟩ := follow_reach (step 2 2 3) {} threeSlices
  exact ⟨by decide +kernel, by decide +kernel, by decide +kernel, dynamic_slices (by decide) hr⟩

end Run

end DynamicRun

end OriginCCL.DynamicMultiThreadExecutor
