/-
  File:      OriginCCL/Executor/Epoll.lean
  Subject:   THE EPOLL EXECUTOR (`src/executor/epoll_executor.cpp`).

  * `EpollHost` -- the tasks, the connections and the kernel, as arbitrary functions of a state `E`.
  * `EpollExecutor` -- the executor with the local variables of `Run`; `EpollExecutor.tick` is `Run` up
    to its next control point (`EpollPoint`), `EpollExecutor.step` runs plans one after the other.
  * `EpollExecutor.Inv` -- the books of the slots at every control point; `inv_reach` -- **they hold
    whatever the tasks and the kernel do**.
-/
import OriginCCL.Base.Runs
import OriginCCL.Executor.Slots

namespace OriginCCL

open Base

/-! ## 1. Tasks and kernel -/

/-- What an executor sees of a connection: `GetFd` and `GetPollEvents`, which for all transports is
    `EPOLLIN`, `EPOLLOUT` or both. -/
structure Endpoint where
  fd : Int
  pollEvents : Nat
  pollEvents_pos : 0 < pollEvents

/-- An event of `epoll_wait`: `data.u32` and `events`. -/
structure EpollEvent where
  tag : Nat
  events : Nat

/-- What `epoll_wait` returns. -/
inductive EpollWait where
  | interrupted
  | failed
  | ready (events : List EpollEvent)

/-- All that the executor meets. -/
structure EpollHost (E : Type) extends Tasks E where
  endpoint : Link → Endpoint
  setPlanWaitMode : CollPlan → E → E
  epollCreate : E → Bool × E
  epollAdd : Int → E → Bool × E
  epollWait : E → EpollWait × E

/-! ## 2. The executor -/

/-- Where `Run` stands. -/
inductive EpollPoint where
  | starting (i : Nat)
  | waiting
  | handling (events : List EpollEvent)
  | returned (ok : Bool)

/-- The executor and the variables of its last `Run`. `registered` is the interest list of `epoll_fd_`:
    descriptors with their tags. -/
structure EpollExecutor (E : Type) where
  env : E
  opened : Bool := false
  registered : List (Int × Nat) := []
  point : EpollPoint := .returned true
  slots : Slots := {}

namespace EpollExecutor

section Model

variable {E : Type} (S : EpollHost E)

/-- `epoll_ctl(EPOLL_CTL_ADD)`, which fails with `EEXIST` for a registered descriptor, and may fail
    otherwise. -/
def epollAdd (fd : Int) (tag : Nat) (s : EpollExecutor E) : Bool × EpollExecutor E :=
  if fd ∈ s.registered.map Prod.fst then (false, s)
  else
    match S.epollAdd fd s.env with
    | (true, env) => (true, { s with env := env, registered := s.registered ++ [(fd, tag)] })
    | (false, env) => (false, { s with env := env })

/-- One of the two loops of `RegisterTask`. -/
def registerSide (tag : Nat) : List Link → EpollExecutor E → Bool × EpollExecutor E
  | [], s => (true, s)
  | l :: ls, s =>
    let transport := S.endpoint l
    if 0 ≤ transport.fd ∧ transport.pollEvents ≠ 0 then
      match epollAdd S transport.fd tag s with
      | (true, s) => registerSide tag ls s
      | (false, s) => (false, s)
    else registerSide tag ls s

def registerTask (slot : Nat) (task : PlanTask) (s : EpollExecutor E) : Bool × EpollExecutor E :=
  let tagBase := slot * 2 % 2 ^ 32
  match registerSide S tagBase task.recvTransports s with
  | (true, s) => registerSide S ((tagBase + 1) % 2 ^ 32) task.sendTransports s
  | (false, s) => (false, s)

/-- `epoll_ctl(EPOLL_CTL_DEL)` -/
def epollDel (fd : Int) (s : EpollExecutor E) : EpollExecutor E :=
  { s with registered := s.registered.filter fun x => x.1 ≠ fd }

def unregisterTask (task : PlanTask) (s : EpollExecutor E) : EpollExecutor E :=
  (task.recvTransports ++ task.sendTransports).foldl (fun s l =>
    if 0 ≤ (S.endpoint l).fd then epollDel (S.endpoint l).fd s else s) s

/-- `abort_plan` -/
def abortPlan (s : EpollExecutor E) : EpollExecutor E :=
  s.slots.current.foldl (fun s task =>
    match task with
    | some (_, task) => unregisterTask S task s
    | none => s) s

/-- `start(slot)` from the tasks that are left on. -/
def start (slot : Nat) : List PlanTask → EpollExecutor E → Bool × EpollExecutor E
  | [], s => (true, s)
  | task :: tasks, s =>
    let i := s.slots.indexAt slot
    if task.topology.isNone then (false, s)
    else
      match S.collectiveInit slot i s.env with
      | (false, env) => (false, { s with env := env, slots := s.slots.note slot (.init i false) })
      | (true, env) =>
        if S.collectiveDone slot i env then
          start slot tasks { s with env := env, slots := (s.slots.initTask slot).note slot (.done i) }
        else registerTask S slot task
          { s with env := env, slots := (s.slots.initTask slot).enter slot i task }

/-- `start(slot)` -/
def startSlot (slot : Nat) (s : EpollExecutor E) : Bool × EpollExecutor E :=
  start S slot ((s.slots.plan.tasksOf slot).drop (s.slots.indexAt slot)) s

/-- The connections of a side of a task: 0 receives, 1 sends. -/
def sideOf (task : PlanTask) (side : Nat) : List Link :=
  if side = 0 then task.recvTransports else task.sendTransports

/-- The event of a side. -/
def opOf (side : Nat) : CollEvent := if side = 0 then .readable else .writable

/-- One iteration of the loop over the events. -/
def handle (event : EpollEvent) (s : EpollExecutor E) : Bool × EpollExecutor E :=
  let slot := event.tag / 2
  match s.slots.currentAt slot with
  | none => (true, s)
  | some (i, task) =>
    let side := event.tag % 2
    if (sideOf task side).any fun l => event.events &&& (S.endpoint l).pollEvents ≠ 0 then
      match S.collectiveStep slot i (opOf side) s.env with
      | (false, env) =>
        (false, { s with env := env, slots := s.slots.note slot (.step i (opOf side) false) })
      | (true, env) =>
        let slots := s.slots.note slot (.step i (opOf side) true)
        if S.collectiveDone slot i env then
          startSlot S slot (unregisterTask S task
            { s with env := env, slots := (slots.note slot (.done i)).leave slot })
        else (true, { s with env := env, slots := slots })
    else (true, s)

/-- On to a control point, or after a failure out of `Run`. -/
def proceed (point : EpollPoint) (r : Bool × EpollExecutor E) : EpollExecutor E :=
  if r.1 then { r.2 with point := point } else { abortPlan S r.2 with point := .returned false }

/-- `Run`, up to its next control point. -/
def tick (s : EpollExecutor E) : EpollExecutor E :=
  match s.point with
  | .starting i =>
    if i < s.slots.plan.channels.length then proceed S (.starting (i + 1)) (startSlot S i s)
    else { s with point := .waiting }
  | .waiting =>
    if s.slots.active = 0 then { s with point := .returned true }
    else
      match S.epollWait s.env with
      | (.interrupted, env) => { s with env := env }
      | (.failed, env) => proceed S .waiting (false, { s with env := env })
      | (.ready events, env) => { s with env := env, point := .handling events }
  | .handling [] => { s with point := .waiting }
  | .handling (event :: events) => proceed S (.handling events) (handle S event s)
  | .returned _ => s

/-- The start of `Run`, with `EnsureEpoll`. -/
def begin (plan : CollPlan) (s : EpollExecutor E) : EpollExecutor E :=
  let env := S.setPlanWaitMode plan s.env
  if plan.channels.isEmpty then
    { s with env := env, slots := Slots.ofPlan plan, point := .returned true }
  else if s.opened then { s with env := env, slots := Slots.ofPlan plan, point := .starting 0 }
  else
    match S.epollCreate env with
    | (true, env) =>
      { s with env := env, opened := true, slots := Slots.ofPlan plan, point := .starting 0 }
    | (false, env) => { s with env := env, slots := Slots.ofPlan plan, point := .returned false }

/-- What is done with an executor: it runs a plan, goes on with it, or is shut down. -/
inductive Label where
  | run (plan : CollPlan)
  | tick
  | shutdown

/-- **An executor in use**: plans run one after the other. -/
def step (l : Label) (s : EpollExecutor E) : Option (EpollExecutor E) :=
  match s.point, l with
  | .returned _, .run plan => some (begin S plan s)
  | .returned _, .shutdown => some { s with opened := false, registered := [] }
  | .returned _, .tick => none
  | _, .tick => some (tick S s)
  | _, _ => none

end Model

/-! ## 3. What keeps the slots -/

section Slots

variable {E : Type} (S : EpollHost E)

/-- Registering changes the kernel only. -/
theorem registerSide_slots (tag : Nat) (ls : List Link) (s : EpollExecutor E) :
    (registerSide S tag ls s).2.slots = s.slots := by
  induction ls generalizing s with
  | nil => rfl
  | cons l ls ih =>
    have hadd : (epollAdd S (S.endpoint l).fd tag s).2.slots = s.slots := by
      unfold epollAdd
      split
      · rfl
      · split <;> rfl
    rw [registerSide]
    split
    · split
      · rename_i e
        rw [e] at hadd
        exact (ih _).trans hadd
      · rename_i e
        rw [e] at hadd
        exact hadd
    · exact ih s

theorem registerTask_slots (slot : Nat) (task : PlanTask) (s : EpollExecutor E) :
    (registerTask S slot task s).2.slots = s.slots := by
  have h := registerSide_slots S (slot * 2 % 2 ^ 32) task.recvTransports s
  unfold registerTask
  dsimp only
  split
  · rename_i e
    rw [e] at h
    exact (registerSide_slots ..).trans h
  · rename_i e
    rw [e] at h
    exact h

theorem unregisterTask_slots (task : PlanTask) (s : EpollExecutor E) :
    (unregisterTask S task s).slots = s.slots := by
  unfold unregisterTask
  generalize task.recvTransports ++ task.sendTransports = ls
  induction ls generalizing s with
  | nil => rfl
  | cons l ls ih =>
    rw [List.foldl_cons, ih]
    split <;> rfl

theorem abortPlan_slots (s : EpollExecutor E) : (abortPlan S s).slots = s.slots := by
  unfold abortPlan
  generalize s.slots.current = tasks
  induction tasks generalizing s with
  | nil => rfl
  | cons task tasks ih =>
    rw [List.foldl_cons, ih]
    cases task with
    | none => rfl
    | some task => exact unregisterTask_slots S task.2 s

/-- **`start` keeps the books**, and leaves its slot settled. -/
theorem start_spec {slot : Nat} {tasks : List PlanTask} {s : EpollExecutor E} (h : s.slots.Going)
    (hnone : s.slots.currentAt slot = none)
    (htasks : tasks = (s.slots.plan.tasksOf slot).drop (s.slots.indexAt slot)) :
    (start S slot tasks s).2.slots.Books ∧ (start S slot tasks s).2.slots.plan = s.slots.plan ∧
      ((start S slot tasks s).1 = true → Slots.Kept slot s.slots (start S slot tasks s).2.slots ∧
        (start S slot tasks s).2.slots.Settled slot) := by
  induction tasks generalizing s with
  | nil =>
    have hlen := List.drop_eq_nil_iff.mp htasks.symm
    exact ⟨h.toBooks, rfl, fun _ => ⟨h.kept slot, fun _ => Nat.le_antisymm (h.bound slot) hlen⟩⟩
  | cons task tasks ih =>
    have htask : (s.slots.plan.tasksOf slot)[s.slots.indexAt slot]? = some task := by
      rw [← List.head?_drop, ← htasks]
      rfl
    have hlt := (List.getElem?_eq_some_iff.mp htask).1
    rw [start]
    split
    · exact ⟨h.toBooks, rfl, fun hf => by cases hf⟩
    · split
      · refine ⟨h.books_note (t := .failed (s.slots.indexAt slot)) ?_, rfl, fun hf => by cases hf⟩
        rw [Slots.stageAt, hnone]
        exact if_pos rfl
      · rename_i env _
        split
        · have hk := h.initDone hnone hlt
          have hrest : tasks = (s.slots.plan.tasksOf slot).drop
              (((s.slots.initTask slot).note slot (.done (s.slots.indexAt slot))).indexAt slot) := by
            rw [h.indexAt_initDone hlt, ← List.tail_drop, ← htasks]
            rfl
          obtain ⟨h1, h2, h3⟩ := ih (s := { s with
            env := env
            slots := (s.slots.initTask slot).note slot (.done (s.slots.indexAt slot)) })
            hk.going hnone hrest
          exact ⟨h1, h2, fun hok => ⟨hk.trans (h3 hok).1, (h3 hok).2⟩⟩
        · have hk := h.initEnter hnone htask
          rw [registerTask_slots]
          refine ⟨hk.going.toBooks, rfl, fun _ => ⟨hk, fun hc => ?_⟩⟩
          have hcur : ((s.slots.initTask slot).enter slot (s.slots.indexAt slot) task).currentAt slot =
              some (s.slots.indexAt slot, task) := by
            refine (Slots.currentAt_enter ?_ slot).trans (if_pos rfl)
            rw [h.current]
            exact Slots.indexAt_lt hlt
          rw [hcur] at hc
          cases hc

/-- **An event keeps the books**, also one of a slot whose task is gone or was replaced. -/
theorem handle_spec {s : EpollExecutor E} (h : s.slots.Going) (event : EpollEvent) :
    (handle S event s).2.slots.Books ∧ (handle S event s).2.slots.plan = s.slots.plan ∧
      ((handle S event s).1 = true → Slots.Kept (event.tag / 2) s.slots (handle S event s).2.slots ∧
        (s.slots.Settled (event.tag / 2) → (handle S event s).2.slots.Settled (event.tag / 2))) := by
  unfold handle
  dsimp only
  split
  · exact ⟨h.toBooks, rfl, fun _ => ⟨h.kept _, id⟩⟩
  · rename_i i task hcur
    split
    · split
      · refine ⟨h.books_note (t := .failed i) ?_, rfl, fun hf => by cases hf⟩
        rw [Slots.stageAt_some hcur]
        exact if_pos rfl
      · rename_i env _
        have hk := h.stepTask hcur (opOf (event.tag % 2))
        split
        · have hk' := hk.trans (hk.going.leaveTask hcur)
          have hnone : (((s.slots.note (event.tag / 2) (.step i (opOf (event.tag % 2)) true)).note
              (event.tag / 2) (.done i)).leave (event.tag / 2)).currentAt (event.tag / 2) = none :=
            (Slots.currentAt_leave (Slots.currentAt_lt hcur) _).trans (if_pos rfl)
          have hslots := unregisterTask_slots S task { s with
            env := env
            slots := ((s.slots.note (event.tag / 2) (.step i (opOf (event.tag % 2)) true)).note
              (event.tag / 2) (.done i)).leave (event.tag / 2) }
          generalize unregisterTask S task _ = t at hslots ⊢
          dsimp only at hslots
          rw [← hslots] at hk' hnone
          obtain ⟨h1, h2, h3⟩ := start_spec S hk'.going hnone rfl
          exact ⟨h1, h2.trans hk'.plan, fun hok => ⟨hk'.trans (h3 hok).1, fun _ => (h3 hok).2⟩⟩
        · refine ⟨hk.going.toBooks, rfl, fun _ => ⟨hk, fun _ hc => ?_⟩⟩
          have hc : s.slots.currentAt (event.tag / 2) = none := hc
          rw [hcur] at hc
          cases hc
    · exact ⟨h.toBooks, rfl, fun _ => ⟨h.kept _, id⟩⟩

end Slots

/-! ## 4. Runs -/

section Runs

variable {E : Type} {S : EpollHost E} {s : EpollExecutor E}

/-- **The books at every control point.** -/
def Inv (s : EpollExecutor E) : Prop :=
  match s.point with
  | .starting i => s.slots.Started i
  | .waiting => s.slots.InLoop
  | .handling _ => s.slots.InLoop
  | .returned ok => s.slots.Books ∧ (ok = true → s.slots.AllDone)

theorem inv_failed {r : Bool × EpollExecutor E} (h : r.2.slots.Books) :
    Inv { abortPlan S r.2 with point := .returned false } := by
  refine ⟨?_, fun hf => by cases hf⟩
  show (abortPlan S r.2).slots.Books
  rw [abortPlan_slots]
  exact h

/-- One step of `Run`. -/
theorem inv_tick (h : s.Inv) : (tick S s).Inv := by
  unfold tick
  unfold Inv at h
  split
  · -- the slots are started one after the other
    rename_i i hp
    rw [hp] at h
    split
    · obtain ⟨h1, h2, h3⟩ := start_spec S h.going (h.free i (Nat.le_refl i)) rfl
      unfold proceed
      split
      · rename_i hok
        exact h.next (h3 hok).1 (h3 hok).2
      · exact inv_failed h1
    · exact h.all (by omega)
  · rename_i hp
    rw [hp] at h
    have h : s.slots.InLoop := h
    split
    · rename_i hactive
      exact ⟨h.going.toBooks, fun _ => h.all_done hactive⟩
    · split
      · unfold Inv
        rw [hp]
        exact h
      · exact inv_failed (r := (false, _)) h.going.toBooks
      · exact h
  · rename_i hp
    rw [hp] at h
    exact h
  · -- an event is handled
    rename_i event events hp
    rw [hp] at h
    obtain ⟨h1, h2, h3⟩ := handle_spec S h.going event
    unfold proceed
    split
    · rename_i hok
      exact h.next (h3 hok).1 (h3 hok).2
    · exact inv_failed h1
  · unfold Inv
    exact h

theorem inv_begin (plan : CollPlan) (s : EpollExecutor E) : (begin S plan s).Inv := by
  have hstart := Slots.started_ofPlan plan
  unfold begin
  dsimp only
  split
  · rename_i hempty
    exact ⟨hstart.going.toBooks, fun _ => Slots.allDone_ofPlan hempty⟩
  · split
    · exact hstart
    · split
      · exact hstart
      · exact ⟨hstart.going.toBooks, fun hf => by cases hf⟩

theorem inv_step {l : Label} {s' : EpollExecutor E} (h : s.Inv) (hs : step S l s = some s') :
    s'.Inv := by
  unfold step at hs
  split at hs
  · obtain rfl := Option.some.inj hs
    exact inv_begin _ s
  · rename_i hp
    obtain rfl := Option.some.inj hs
    unfold Inv at h ⊢
    rw [hp] at h
    dsimp only
    rw [hp]
    exact h
  · cases hs
  · obtain rfl := Option.some.inj hs
    exact inv_tick h
  · cases hs

/-- **The books hold in every state of an executor in use.** -/
theorem inv_reach {env : E} {ls : List Label} (h : Reach (step S) { env := env } ls s) : s.Inv := by
  refine h.invariant ?_ fun l s s' hI hs => inv_step hI hs
  exact ⟨(Slots.going_ofPlan {}).toBooks, fun _ => Slots.allDone_ofPlan rfl⟩

end Runs

end EpollExecutor

end OriginCCL
