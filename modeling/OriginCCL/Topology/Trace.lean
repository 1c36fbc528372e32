/-
  File:      OriginCCL/Topology/Trace.lean
  Subject:   WHAT A CALL TOUCHES, in the order in which it does.

  The state machines return states, not what they did on the way. Here a state is kept together with
  a log of it: the transfers a call tries, with the arguments of `TrySend` and `TryRecv`, the ranges it
  copies, reduces and averages, the flags it sets anew and the cursor from which it computes pointers.

  * `Effect` -- one entry of the log; `Effect.run` -- what it does to the memory.
  * `Traced` -- a state with its log.
  * `latest` -- the last entry about the flag of one connection; `Attended` -- it is a `Try*` that was
    not done.
-/
import Mathlib.Data.List.Basic
import OriginCCL.Net.Answers
import OriginCCL.Topology.Ring

namespace OriginCCL

open Net

/-! ## 1. Effects -/

/-- An entry of the log. -/
inductive Effect where
  /-- Pointers or sizes are computed from this cursor. -/
  | cursor (phase step : Int)
  /-- The flags of all connections are set anew. -/
  | assign
  /-- The flag of a connection is cleared. -/
  | clear (sd : Side) (i : Nat)
  /-- `TrySend` or `TryRecv` on a connection, with its `done`. -/
  | transfer (sd : Side) (i : Nat) (data : Loc) (size : Nat) (done : Bool)
  | memcpy (dst src : Loc) (size : Nat)
  | performReduce (input output : Loc) (count : Nat)
  | applyAverage (data : Loc) (count : Nat)
  deriving DecidableEq

namespace Effect

/-- What an effect does to the state. -/
def run (task : PlanTask) : Effect → RankState → RankState
  | .memcpy dst src size, s => s.memcpy dst src size
  | .performReduce input output count, s =>
    s.performReduce input output count task.dtype (TopologyRing.sumFirst task.reduceOp)
  | .applyAverage data count, s => s.applyAverage data count task.dtype task.worldSize
  | _, s => s

/-- The entry is about the flag of a connection. -/
def concerns (sd : Side) (i : Nat) : Effect → Bool
  | .assign => true
  | .clear sd' i' => decide (sd' = sd ∧ i' = i)
  | .transfer sd' i' _ _ _ => decide (sd' = sd ∧ i' = i)
  | _ => false

/-- An effect changes no cursor. -/
theorem control_run (task : PlanTask) (a : Effect) (s : RankState) : (a.run task s).control = s.control := by
  cases a with
  | memcpy dst src size => exact RankState.control_memcpy ..
  | performReduce input output count => exact RankState.control_performReduce ..
  | applyAverage data count => exact RankState.control_applyAverage ..
  | cursor | assign | clear | transfer => rfl

/-- **The bytes after an effect depend on the bytes before it only.** -/
theorem run_congr (task : PlanTask) (a : Effect) {s s' : RankState} (h : s.byteAt = s'.byteAt) :
    (a.run task s).byteAt = (a.run task s').byteAt := by
  have hload : ∀ {s s' : RankState}, s.byteAt = s'.byteAt → ∀ dt p i, s.load dt p i = s'.load dt p i := by
    intro s s' h dt p i
    unfold RankState.load
    rw [h]
  have hstore : ∀ {s s' : RankState} (dt : DataType) (p : Loc) (i : Nat) (x : Elem dt),
      s.byteAt = s'.byteAt → (s.store dt p i x).byteAt = (s'.store dt p i x).byteAt := by
    intro s s' dt p i x h
    funext q
    rw [RankState.byteAt_store, RankState.byteAt_store, h]
  have hloop : ∀ (count : Nat) {body : Nat → RankState → RankState},
      (∀ i {s s' : RankState}, s.byteAt = s'.byteAt → (body i s).byteAt = (body i s').byteAt) →
        (s.forLoop count body).byteAt = (s'.forLoop count body).byteAt := by
    intro count body hbody
    induction count with
    | zero => exact h
    | succ n ih =>
      rw [RankState.forLoop_succ, RankState.forLoop_succ]
      exact hbody n ih
  cases a with
  | memcpy dst src size =>
    funext q
    change (s.memcpy dst src size).byteAt q = (s'.memcpy dst src size).byteAt q
    rw [RankState.byteAt_memcpy, RankState.byteAt_memcpy, h]
  | performReduce input output count =>
    refine hloop count fun i {s s'} h => ?_
    rw [hload h, hload h]
    exact hstore _ _ _ _ h
  | applyAverage data count =>
    change (s.applyAverage data count task.dtype task.worldSize).byteAt =
      (s'.applyAverage data count task.dtype task.worldSize).byteAt
    unfold RankState.applyAverage
    split
    · exact h
    · refine hloop count fun i {s s'} h => ?_
      rw [hload h]
      exact hstore _ _ _ _ h
  | cursor | assign | clear | transfer => exact h

/-- Several effects in order. -/
def runAll (task : PlanTask) (as : List Effect) (s : RankState) : RankState :=
  as.foldl (fun s a => a.run task s) s

theorem control_runAll (task : PlanTask) (as : List Effect) (s : RankState) :
    (runAll task as s).control = s.control := by
  induction as generalizing s with
  | nil => rfl
  | cons a as ih => exact (ih _).trans (control_run task a s)

theorem runAll_congr (task : PlanTask) (as : List Effect) {s s' : RankState} (h : s.byteAt = s'.byteAt) :
    (runAll task as s).byteAt = (runAll task as s').byteAt := by
  induction as generalizing s s' with
  | nil => exact h
  | cons a as ih => exact ih (run_congr task a h)

end Effect

/-! ## 2. Transfers that answer whatever they like -/

theorem trySend_always {P : Nat × Bool → Prop} {l : Link} {s : RankState} {data : Loc} {size progress : Nat}
    (h : ∀ progress' done, P (progress', done)) : (trySend l s data size progress).Always P := by
  intro n
  cases n with
  | none => exact Prog.always_error
  | some n => exact h _ _

theorem tryRecv_always {P : RankState × Nat × Bool → Prop} {l : Link} {s : RankState} {data : Loc}
    {size progress : Nat} (h : ∀ s' progress' done, s'.control = s.control → P (s', progress', done)) :
    (tryRecv l s data size progress).Always P := by
  intro bs
  cases bs with
  | none => exact Prog.always_error
  | some bs => exact h _ _ _ (RankState.control_write ..)

/-! ## 3. States with their logs -/

/-- A state with the log of what its calls have done. -/
abbrev Traced : Type := RankState × List Effect

/-- Performs effects and notes them. -/
def Traced.perform (task : PlanTask) (as : List Effect) (t : Traced) : Traced :=
  (Effect.runAll task as t.1, t.2 ++ as)

/-- The last entry of a log about the flag of a connection. -/
def latest (sd : Side) (i : Nat) (log : List Effect) : Option Effect :=
  (log.filter (Effect.concerns sd i)).getLast?

/-- **A transfer was tried with this buffer since the flag was last cleared**, and the latest try was
    not done. -/
def Attended (buffer : Loc × Nat) (sd : Side) (i : Nat) (log : List Effect) : Prop :=
  latest sd i log = some (.transfer sd i buffer.1 buffer.2 false)

/-- The flags of a side. -/
def RankState.flags (s : RankState) : Side → Vec Bool
  | .out => s.op.sendDone
  | .inn => s.op.recvDone

/-- The flag of a connection is there and not set. -/
def Unset (s : RankState) (sd : Side) (i : Nat) : Prop :=
  i < (s.flags sd).size ∧ (s.flags sd).get i = false

section Logs

variable {sd : Side} {i : Nat} {log : List Effect} {a : Effect}

theorem latest_append (as : List Effect) (h : ∀ a ∈ as, a.concerns sd i = false) :
    latest sd i (log ++ as) = latest sd i log := by
  have hnil : as.filter (Effect.concerns sd i) = [] :=
    List.filter_eq_nil_iff.mpr fun a ha => by rw [h a ha]; exact Bool.false_ne_true
  rw [latest, List.filter_append, hnil, List.append_nil]
  rfl

theorem latest_snoc_ne (h : a.concerns sd i = false) : latest sd i (log ++ [a]) = latest sd i log :=
  latest_append [a] fun b hb => by rw [List.mem_singleton.mp hb]; exact h

theorem latest_snoc (h : a.concerns sd i = true) : latest sd i (log ++ [a]) = some a := by
  rw [latest, List.filter_append, List.filter_cons_of_pos h, List.filter_nil]
  exact List.getLast?_concat

/-- A try that was not done attends to its connection. -/
theorem attended_snoc (data : Loc) (size : Nat) :
    Attended (data, size) sd i (log ++ [.transfer sd i data size false]) :=
  latest_snoc (by simp [Effect.concerns])

/-- A try on another connection changes nothing. -/
theorem latest_transfer_ne {sd' : Side} {i' : Nat} (data : Loc) (size : Nat) (done : Bool)
    (h : ¬ (sd' = sd ∧ i' = i)) :
    latest sd i (log ++ [.transfer sd' i' data size done]) = latest sd i log :=
  latest_snoc_ne (decide_eq_false h)

end Logs

end OriginCCL
