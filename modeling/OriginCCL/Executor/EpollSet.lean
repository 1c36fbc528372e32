/-
  File:      OriginCCL/Executor/EpollSet.lean
  Subject:   THE INTEREST LIST of the epoll executor (`RegisterTask`, `UnregisterTask`, `abort_plan`).

  * `taskFds` -- the descriptors of a task's connections.
  * `Exact` -- the registered descriptors are those of the current tasks; `Covered` -- what is left of
    that when a registration fails half-way.
  * `epoll_clean` -- **when `Run` returns, nothing is registered**, whatever became of the plans.
-/
import OriginCCL.Executor.Epoll

namespace OriginCCL.EpollExecutor

open Base

section Sets

variable {E : Type} (S : EpollHost E)

/-! ## 1. One task -/

/-- The descriptors of some connections. -/
def linkFds (ls : List Link) : List Int :=
  (ls.map fun l => (S.endpoint l).fd).filter fun fd => 0 ≤ fd

/-- The descriptors of a task's connections. -/
def taskFds (task : PlanTask) : List Int := linkFds S (task.recvTransports ++ task.sendTransports)

/-- The registered descriptors. -/
def fds (s : EpollExecutor E) : List Int := s.registered.map Prod.fst

theorem linkFds_cons (l : Link) (ls : List Link) : linkFds S (l :: ls) =
    if 0 ≤ (S.endpoint l).fd then (S.endpoint l).fd :: linkFds S ls else linkFds S ls := by
  unfold linkFds
  rw [List.map_cons, List.filter_cons]
  simp only [decide_eq_true_eq]

theorem taskFds_eq (task : PlanTask) :
    taskFds S task = linkFds S task.recvTransports ++ linkFds S task.sendTransports := by
  rw [taskFds, linkFds, List.map_append, List.filter_append]
  rfl

/-- What a registration does: it adds the new descriptors, or when it fails some of them. -/
structure Adds (added : List Int) (s : EpollExecutor E) (r : Bool × EpollExecutor E) : Prop where
  some : ∀ fd ∈ r.2.fds, fd ∈ s.fds ∨ fd ∈ added
  all : r.1 = true → r.2.fds = s.fds ++ added ∧ ∀ fd ∈ added, fd ∉ s.fds

theorem Adds.trans {xs ys : List Int} {s s' : EpollExecutor E} {r : Bool × EpollExecutor E}
    (h : Adds xs s (true, s')) (h' : Adds ys s' r) : Adds (xs ++ ys) s r := by
  obtain ⟨hall, hnew⟩ := h.all rfl
  have hall : s'.fds = s.fds ++ xs := hall
  refine ⟨fun fd hfd => ?_, fun hok => ?_⟩
  · rcases h'.some fd hfd with hfd | hfd
    · rw [hall] at hfd
      rcases List.mem_append.mp hfd with hfd | hfd
      · exact Or.inl hfd
      · exact Or.inr (List.mem_append_left _ hfd)
    · exact Or.inr (List.mem_append_right _ hfd)
  · obtain ⟨hall', hnew'⟩ := h'.all hok
    refine ⟨by rw [hall', hall, List.append_assoc], fun fd hfd => ?_⟩
    rcases List.mem_append.mp hfd with hfd | hfd
    · exact hnew fd hfd
    · intro hs
      exact hnew' fd hfd (by rw [hall]; exact List.mem_append_left _ hs)

theorem Adds.fail {xs : List Int} (ys : List Int) {s s' : EpollExecutor E}
    (h : Adds xs s (false, s')) : Adds (xs ++ ys) s (false, s') := by
  refine ⟨fun fd hfd => ?_, fun hok => by cases hok⟩
  rcases h.some fd hfd with hfd | hfd
  · exact Or.inl hfd
  · exact Or.inr (List.mem_append_left _ hfd)

theorem epollAdd_adds (fd : Int) (tag : Nat) (s : EpollExecutor E) :
    Adds [fd] s (epollAdd S fd tag s) := by
  unfold epollAdd
  split
  · exact ⟨fun _ h => Or.inl h, fun hok => by cases hok⟩
  · rename_i hnew
    split
    · refine ⟨fun fd' h => ?_, fun _ => ⟨List.map_append, fun fd' h => ?_⟩⟩
      · rw [fds, List.map_append] at h
        exact List.mem_append.mp h
      · rw [List.mem_singleton.mp h]
        exact hnew
    · exact ⟨fun _ h => Or.inl h, fun hok => by cases hok⟩

theorem registerSide_adds (tag : Nat) (ls : List Link) (s : EpollExecutor E) :
    Adds (linkFds S ls) s (registerSide S tag ls s) := by
  induction ls generalizing s with
  | nil => exact ⟨fun _ h => Or.inl h, fun _ => ⟨(List.append_nil _).symm, fun _ h => by cases h⟩⟩
  | cons l ls ih =>
    rw [registerSide, linkFds_cons]
    by_cases hfd : 0 ≤ (S.endpoint l).fd
    · have hadd := epollAdd_adds S (S.endpoint l).fd tag s
      have hpos := (S.endpoint l).pollEvents_pos
      rw [if_pos hfd, if_pos ⟨hfd, by omega⟩]
      split
      · rename_i e
        rw [e] at hadd
        exact hadd.trans (ih _)
      · rename_i e
        rw [e] at hadd
        exact hadd.fail _
    · rw [if_neg hfd, if_neg fun h => hfd h.1]
      exact ih s

/-- **`RegisterTask` registers the descriptors of the task**, or some of them and fails. -/
theorem registerTask_adds (slot : Nat) (task : PlanTask) (s : EpollExecutor E) :
    Adds (taskFds S task) s (registerTask S slot task s) := by
  have h := registerSide_adds S (slot * 2 % 2 ^ 32) task.recvTransports s
  rw [taskFds_eq]
  unfold registerTask
  dsimp only
  split
  · rename_i e
    rw [e] at h
    exact h.trans (registerSide_adds ..)
  · rename_i e
    rw [e] at h
    exact h.fail _

/-- **`UnregisterTask` removes the descriptors of the task**, registered or not. -/
theorem mem_unregisterTask (task : PlanTask) (s : EpollExecutor E) (fd : Int) :
    fd ∈ (unregisterTask S task s).fds ↔ fd ∈ s.fds ∧ fd ∉ taskFds S task := by
  have hdel : ∀ (x : Int) (s : EpollExecutor E), fd ∈ (epollDel x s).fds ↔ fd ∈ s.fds ∧ fd ≠ x := by
    intro x s
    simp only [fds, epollDel, List.mem_map, List.mem_filter, decide_eq_true_eq]
    constructor
    · rintro ⟨y, ⟨hy, hne⟩, rfl⟩
      exact ⟨⟨y, hy, rfl⟩, hne⟩
    · rintro ⟨⟨y, hy, rfl⟩, hne⟩
      exact ⟨y, ⟨hy, hne⟩, rfl⟩
  unfold unregisterTask taskFds
  generalize task.recvTransports ++ task.sendTransports = ls
  induction ls generalizing s with
  | nil => exact ⟨fun h => ⟨h, fun hf => by cases hf⟩, And.left⟩
  | cons l ls ih =>
    refine (ih _).trans ?_
    dsimp only
    rw [linkFds_cons]
    by_cases hfd : 0 ≤ (S.endpoint l).fd
    · rw [if_pos hfd, if_pos hfd, hdel, List.mem_cons, not_or, and_assoc]
    · rw [if_neg hfd, if_neg hfd]

/-- **`abort_plan` removes the descriptors of all current tasks.** -/
theorem mem_abortPlan (s : EpollExecutor E) (fd : Int) : fd ∈ (abortPlan S s).fds ↔
    fd ∈ s.fds ∧ ∀ slot i task, s.slots.currentAt slot = some (i, task) → fd ∉ taskFds S task := by
  have hfold : ∀ f : EpollExecutor E → Option (Nat × PlanTask) → EpollExecutor E,
      (∀ s, f s none = s) → (∀ s c, f s (some c) = unregisterTask S c.2 s) →
      ∀ (tasks : List (Option (Nat × PlanTask))) (s : EpollExecutor E), fd ∈ (tasks.foldl f s).fds ↔
      fd ∈ s.fds ∧ ∀ i task, some (i, task) ∈ tasks → fd ∉ taskFds S task := by
    intro f hnone hsome tasks
    induction tasks with
    | nil => exact fun s => ⟨fun h => ⟨h, fun _ _ hf => by cases hf⟩, And.left⟩
    | cons c tasks ih =>
      intro s
      rw [List.foldl_cons]
      refine (ih _).trans ?_
      cases c with
      | none =>
        rw [hnone]
        simp
      | some c =>
        rw [hsome, mem_unregisterTask, and_assoc]
        refine and_congr_right fun _ => ⟨fun h i task hmem => ?_, fun h => ⟨?_, fun i task hmem => ?_⟩⟩
        · rcases List.mem_cons.mp hmem with e | hmem
          · rw [← Option.some.inj e] at h
            exact h.1
          · exact h.2 i task hmem
        · exact h c.1 c.2 List.mem_cons_self
        · exact h i task (List.mem_cons_of_mem _ hmem)
  refine (hfold _ (fun _ => rfl) (fun _ _ => rfl) s.slots.current s).trans ?_
  refine and_congr_right fun _ => ⟨fun h slot i task hc => ?_, fun h i task hmem => ?_⟩
  · have hlt := Slots.currentAt_lt hc
    refine h i task ?_
    rw [← hc, Slots.currentAt, List.getD_eq_getElem _ _ hlt]
    exact List.getElem_mem hlt
  · obtain ⟨slot, hlt, hget⟩ := List.getElem_of_mem hmem
    refine h slot i task ?_
    rw [Slots.currentAt, List.getD_eq_getElem _ _ hlt, hget]

/-! ## 2. The current tasks -/

/-- A current task has the descriptor. -/
def Held (s : EpollExecutor E) (fd : Int) : Prop :=
  ∃ slot i task, s.slots.currentAt slot = some (i, task) ∧ fd ∈ taskFds S task

/-- Only descriptors of current tasks are registered. -/
def Covered (s : EpollExecutor E) : Prop := ∀ fd ∈ s.fds, Held S s fd

/-- **The registered descriptors are those of the current tasks**, of each its own. -/
structure Exact (s : EpollExecutor E) : Prop where
  held : ∀ fd, fd ∈ s.fds ↔ Held S s fd
  apart : ∀ slot slot' i i' task task', slot ≠ slot' → s.slots.currentAt slot = some (i, task) →
    s.slots.currentAt slot' = some (i', task') → ∀ fd ∈ taskFds S task, fd ∉ taskFds S task'

variable {S} {s : EpollExecutor E}

theorem Exact.covered (h : Exact S s) : Covered S s := fun fd hfd => (h.held fd).mp hfd

/-- **After `abort_plan` nothing is registered.** -/
theorem Covered.abort (h : Covered S s) : (abortPlan S s).registered = [] := by
  have hnil : (abortPlan S s).fds = [] := by
    refine List.eq_nil_iff_forall_not_mem.mpr fun fd hfd => ?_
    obtain ⟨hfd, hnot⟩ := (mem_abortPlan S s fd).mp hfd
    obtain ⟨slot, i, task, hc, hmem⟩ := h fd hfd
    exact hnot slot i task hc hmem
  exact List.map_eq_nil_iff.mp hnil

/-! ## 3. A task starts, a task is done -/

/-- With the same slots and the same descriptors the set is exact again. -/
theorem Exact.congr {s' : EpollExecutor E} (h : Exact S s) (hfds : s'.fds = s.fds)
    (hcur : ∀ slot, s'.slots.currentAt slot = s.slots.currentAt slot) : Exact S s' := by
  refine ⟨fun fd => ?_, fun slot slot' i i' task task' hne hc hc' => ?_⟩
  · rw [hfds, h.held]
    unfold Held
    simp only [hcur]
  · rw [hcur] at hc hc'
    exact h.apart slot slot' i i' task task' hne hc hc'

/-- **A task becomes current and is registered**: the set is exact again, or a part of the task's
    descriptors is registered. -/
theorem Exact.enter {slot i : Nat} {task : PlanTask} {t : EpollExecutor E} (h : Exact S s)
    (hnone : s.slots.currentAt slot = none) (hfds : t.fds = s.fds)
    (hcur : ∀ slot', t.slots.currentAt slot' =
      if slot' = slot then some (i, task) else s.slots.currentAt slot') :
    Covered S (registerTask S slot task t).2 ∧
      ((registerTask S slot task t).1 = true → Exact S (registerTask S slot task t).2) := by
  have hadd := registerTask_adds S slot task t
  have hslots := registerTask_slots S slot task t
  have hcur' : ∀ slot', (registerTask S slot task t).2.slots.currentAt slot' =
      if slot' = slot then some (i, task) else s.slots.currentAt slot' := by
    intro slot'
    rw [hslots]
    exact hcur slot'
  -- the descriptors that are held now
  have hheld : ∀ fd, Held S (registerTask S slot task t).2 fd ↔
      Held S s fd ∨ fd ∈ taskFds S task := by
    intro fd
    constructor
    · rintro ⟨slot', j, task', hc, hmem⟩
      rw [hcur'] at hc
      split at hc
      · cases hc
        exact Or.inr hmem
      · exact Or.inl ⟨slot', j, task', hc, hmem⟩
    · rintro (⟨slot', j, task', hc, hmem⟩ | hmem)
      · refine ⟨slot', j, task', ?_, hmem⟩
        have hne : slot' ≠ slot := by
          rintro rfl
          rw [hnone] at hc
          cases hc
        rw [hcur', if_neg hne]
        exact hc
      · exact ⟨slot, i, task, by rw [hcur', if_pos rfl], hmem⟩
  refine ⟨fun fd hfd => ?_, fun hok => ?_⟩
  · rw [hheld, ← h.held, ← hfds]
    exact hadd.some fd hfd
  · obtain ⟨hall, hnew⟩ := hadd.all hok
    refine ⟨fun fd => ?_, fun slot1 slot2 i1 i2 task1 task2 hne hc1 hc2 fd hfd1 hfd2 => ?_⟩
    · rw [hheld, ← h.held, hall, List.mem_append, hfds]
    · -- the new descriptors were not registered, so no other current task has them
      have hnew' : ∀ fd ∈ taskFds S task, ¬ Held S s fd := by
        intro fd hfd hh
        exact hnew fd hfd (by rw [hfds]; exact (h.held fd).mpr hh)
      rw [hcur'] at hc1 hc2
      split at hc1
      · rename_i he1
        cases hc1
        rw [if_neg fun he2 => hne (he1.trans he2.symm)] at hc2
        exact hnew' fd hfd1 ⟨slot2, i2, task2, hc2, hfd2⟩
      · split at hc2
        · cases hc2
          exact hnew' fd hfd2 ⟨slot1, i1, task1, hc1, hfd1⟩
        · exact h.apart slot1 slot2 i1 i2 task1 task2 hne hc1 hc2 fd hfd1 hfd2

/-- **A current task is done and is unregistered.** -/
theorem Exact.leave {slot i : Nat} {task : PlanTask} {t : EpollExecutor E} (h : Exact S s)
    (hsome : s.slots.currentAt slot = some (i, task)) (hfds : t.fds = s.fds)
    (hcur : ∀ slot', t.slots.currentAt slot' =
      if slot' = slot then none else s.slots.currentAt slot') : Exact S (unregisterTask S task t) := by
  have hcur' : ∀ slot', (unregisterTask S task t).slots.currentAt slot' =
      if slot' = slot then none else s.slots.currentAt slot' := by
    intro slot'
    rw [unregisterTask_slots]
    exact hcur slot'
  refine ⟨fun fd => ?_, fun slot1 slot2 i1 i2 task1 task2 hne hc1 hc2 => ?_⟩
  · rw [mem_unregisterTask, hfds, h.held]
    constructor
    · rintro ⟨⟨slot', j, task', hc, hmem⟩, hnot⟩
      have hne : slot' ≠ slot := by
        rintro rfl
        rw [hsome] at hc
        cases hc
        exact hnot hmem
      exact ⟨slot', j, task', by rw [hcur', if_neg hne]; exact hc, hmem⟩
    · rintro ⟨slot', j, task', hc, hmem⟩
      rw [hcur'] at hc
      split at hc
      · cases hc
      · rename_i hne
        exact ⟨⟨slot', j, task', hc, hmem⟩, h.apart slot' slot j i task' task hne hc hsome fd hmem⟩
  · rw [hcur'] at hc1 hc2
    split at hc1
    · cases hc1
    · split at hc2
      · cases hc2
      · exact h.apart slot1 slot2 i1 i2 task1 task2 hne hc1 hc2

/-- **`start` keeps the set exact**, or leaves it covered when it fails. -/
theorem start_exact {slot : Nat} {tasks : List PlanTask} (hs : Exact S s) (h : s.slots.Going)
    (hnone : s.slots.currentAt slot = none)
    (htasks : tasks = (s.slots.plan.tasksOf slot).drop (s.slots.indexAt slot)) :
    Covered S (start S slot tasks s).2 ∧
      ((start S slot tasks s).1 = true → Exact S (start S slot tasks s).2) := by
  induction tasks generalizing s with
  | nil => exact ⟨hs.covered, fun _ => hs⟩
  | cons task tasks ih =>
    have hlt : s.slots.indexAt slot < (s.slots.plan.tasksOf slot).length := by
      have hlen := congrArg List.length htasks
      rw [List.length_cons, List.length_drop] at hlen
      omega
    rw [start]
    split
    · exact ⟨hs.covered, fun hf => by cases hf⟩
    · split
      · exact ⟨(show Exact S { s with env := _, slots := s.slots.note slot _ } from
          hs.congr rfl fun _ => rfl).covered, fun hf => by cases hf⟩
      · rename_i env _
        split
        · have hrest : tasks = (s.slots.plan.tasksOf slot).drop
              (((s.slots.initTask slot).note slot (.done (s.slots.indexAt slot))).indexAt slot) := by
            rw [h.indexAt_initDone hlt, ← List.tail_drop, ← htasks]
            rfl
          exact ih (s := { s with
            env := env
            slots := (s.slots.initTask slot).note slot (.done (s.slots.indexAt slot)) })
            (hs.congr rfl fun _ => rfl) (h.initDone hnone hlt).going hnone hrest
        · refine hs.enter hnone rfl fun slot' => Slots.currentAt_enter ?_ slot'
          rw [h.current]
          exact Slots.indexAt_lt hlt

/-- **An event keeps the set exact**, or leaves it covered when it fails. -/
theorem handle_exact (hs : Exact S s) (h : s.slots.Going) (event : EpollEvent) :
    Covered S (handle S event s).2 ∧ ((handle S event s).1 = true → Exact S (handle S event s).2) := by
  unfold handle
  dsimp only
  split
  · exact ⟨hs.covered, fun _ => hs⟩
  · rename_i i task hcur
    split
    · split
      · exact ⟨(show Exact S { s with env := _, slots := s.slots.note _ _ } from
          hs.congr rfl fun _ => rfl).covered, fun hf => by cases hf⟩
      · rename_i env _
        have hk := h.stepTask hcur (opOf (event.tag % 2))
        split
        · have hk' := hk.going.leaveTask hcur
          have hleave := Slots.currentAt_leave (s := (s.slots.note (event.tag / 2)
            (.step i (opOf (event.tag % 2)) true)).note (event.tag / 2) (.done i))
            (Slots.currentAt_lt hcur)
          have hexact := hs.leave (t := { s with
            env := env
            slots := ((s.slots.note (event.tag / 2) (.step i (opOf (event.tag % 2)) true)).note
              (event.tag / 2) (.done i)).leave (event.tag / 2) }) hcur rfl hleave
          have hslots := unregisterTask_slots S task { s with
            env := env
            slots := ((s.slots.note (event.tag / 2) (.step i (opOf (event.tag % 2)) true)).note
              (event.tag / 2) (.done i)).leave (event.tag / 2) }
          have hnone := (hleave (event.tag / 2)).trans (if_pos rfl)
          generalize unregisterTask S task _ = t at hslots hexact ⊢
          dsimp only at hslots
          rw [← hslots] at hk' hnone
          exact start_exact hexact hk'.going hnone rfl
        · exact ⟨(hs.congr rfl fun _ => rfl).covered, fun _ => hs.congr rfl fun _ => rfl⟩
    · exact ⟨hs.covered, fun _ => hs⟩

/-! ## 4. Runs -/

/-- **While `Run` is under way the set is exact, and when it has returned it is empty.** -/
def Clean (S : EpollHost E) (s : EpollExecutor E) : Prop :=
  match s.point with
  | .returned _ => s.registered = []
  | _ => Exact S s

theorem clean_proceed {point : EpollPoint} {r : Bool × EpollExecutor E}
    (hpoint : ∀ ok, point ≠ .returned ok) (h : Covered S r.2 ∧ (r.1 = true → Exact S r.2)) :
    Clean S (proceed S point r) := by
  unfold proceed
  split
  · rename_i hok
    have hexact : Exact S { r.2 with point := point } := (h.2 hok).congr rfl fun _ => rfl
    unfold Clean
    split
    · rename_i ok hp
      exact absurd hp (hpoint ok)
    · exact hexact
  · exact h.1.abort

theorem Exact.returns (hs : Exact S s) (h : s.slots.Books) (hactive : s.slots.active = 0) :
    s.registered = [] := by
  have hnil : s.fds = [] := by
    refine List.eq_nil_iff_forall_not_mem.mpr fun fd hfd => ?_
    obtain ⟨slot, i, task, hc, -⟩ := (hs.held fd).mp hfd
    rw [h.none_current hactive slot] at hc
    cases hc
  exact List.map_eq_nil_iff.mp hnil

theorem clean_tick (h : s.Inv) (hs : Clean S s) : Clean S (tick S s) := by
  unfold tick
  unfold Inv at h
  unfold Clean at hs
  split
  · rename_i i hp
    rw [hp] at h hs
    split
    · exact clean_proceed (fun _ hf => by cases hf)
        (start_exact hs h.going (h.free i (Nat.le_refl i)) rfl)
    · exact hs.congr rfl fun _ => rfl
  · rename_i hp
    rw [hp] at h hs
    have hs : Exact S s := hs
    split
    · rename_i hactive
      exact hs.returns h.going.toBooks hactive
    · split
      · unfold Clean
        rw [hp]
        exact hs.congr rfl fun _ => rfl
      · rename_i env _
        exact (show Exact S { s with env := env } from hs.congr rfl fun _ => rfl).covered.abort
      · exact hs.congr rfl fun _ => rfl
  · rename_i hp
    rw [hp] at hs
    exact hs.congr rfl fun _ => rfl
  · rename_i event events hp
    rw [hp] at h hs
    exact clean_proceed (fun _ hf => by cases hf) (handle_exact hs h.going event)
  · exact hs

theorem clean_begin (plan : CollPlan) (hs : s.registered = []) : Clean S (begin S plan s) := by
  have hexact : ∀ t : EpollExecutor E, t.registered = [] → t.slots = Slots.ofPlan plan → Exact S t := by
    intro t hreg hslots
    have hcur : ∀ slot, t.slots.currentAt slot = none := by
      intro slot
      rw [hslots]
      exact Slots.currentAt_ofPlan plan slot
    refine ⟨fun fd => ⟨fun hfd => ?_, fun hheld => ?_⟩, fun slot slot' i i' task task' _ hc => ?_⟩
    · rw [fds, hreg] at hfd
      cases hfd
    · obtain ⟨slot, i, task, hc, -⟩ := hheld
      rw [hcur] at hc
      cases hc
    · rw [hcur] at hc
      cases hc
  unfold begin
  dsimp only
  split
  · exact hs
  · split
    · exact hexact _ hs rfl
    · split
      · exact hexact _ hs rfl
      · exact hs

theorem clean_step {l : Label} {s' : EpollExecutor E} (h : s.Inv) (hc : Clean S s)
    (hs : step S l s = some s') : Clean S s' := by
  unfold step at hs
  split at hs
  · rename_i hp
    obtain rfl := Option.some.inj hs
    unfold Clean at hc
    rw [hp] at hc
    exact clean_begin _ hc
  · rename_i hp
    obtain rfl := Option.some.inj hs
    unfold Clean
    rw [hp]
  · cases hs
  · obtain rfl := Option.some.inj hs
    exact clean_tick h hc
  · cases hs

/-- **The epoll executor leaves no registration behind.** Whatever plans are run on it and whatever
    becomes of them: when `Run` has returned nothing is registered, so that the next plan starts with an
    empty set; and at every control point of `Run` the registered descriptors are those of the current
    tasks. -/
theorem epoll_clean {env : E} {ls : List Label} (h : Reach (step S) { env := env } ls s) :
    ((∃ ok, s.point = .returned ok) → s.registered = [] ∧
      ∀ plan, (begin S plan s).registered = []) ∧
    ((∀ ok, s.point ≠ .returned ok) → ∀ fd, fd ∈ s.registered.map Prod.fst ↔
      ∃ slot i task, s.slots.currentAt slot = some (i, task) ∧ fd ∈ taskFds S task) := by
  have hinv : s.Inv ∧ Clean S s := by
    refine h.invariant (I := fun s => s.Inv ∧ Clean S s) ⟨inv_reach (S := S) .start, rfl⟩ ?_
    exact fun l s s' hI hs => ⟨inv_step hI.1 hs, clean_step hI.1 hI.2 hs⟩
  obtain ⟨-, hclean⟩ := hinv
  unfold Clean at hclean
  refine ⟨fun ⟨ok, hp⟩ => ?_, fun hp => ?_⟩
  · rw [hp] at hclean
    refine ⟨hclean, fun plan => ?_⟩
    unfold begin
    dsimp only
    split
    · exact hclean
    · split
      · exact hclean
      · split <;> exact hclean
  · split at hclean
    · rename_i ok hok
      exact absurd hok (hp ok)
    · exact hclean.held

end Sets

/-- One task, done after one step, on a connection with descriptor 7. -/
def oneTask : CollPlan := { channels := [{ channelId := 0, tasks :=
  [{ topology := some .p2p, func := .recv, recvTransports := [⟨.p2p, 1, 0⟩] }] }] }

/-- A kernel that reports every connection readable; `E` counts the steps. -/
def readyHost : EpollHost Nat where
  collectiveInit _ _ n := (true, n)
  collectiveStep _ _ _ n := (true, n + 1)
  collectiveDone _ _ n := 0 < n
  endpoint _ := ⟨7, 1, by decide⟩
  setPlanWaitMode _ n := n
  epollCreate n := (true, n)
  epollAdd _ n := (true, n)
  epollWait n := (.ready [⟨0, 1⟩], n)

theorem epoll_clean_one : ∃ ls s, Reach (step readyHost) { env := 0 } ls s ∧
    s.point = .returned true ∧ s.slots.acts.length = 3 ∧ s.registered = [] := by
  obtain ⟨ls, -, h⟩ := follow_reach (step readyHost) { env := 0 }
    [.run oneTask, .tick, .tick, .tick, .tick, .tick, .tick]
  exact ⟨ls, _, h, rfl, rfl, ((epoll_clean h).1 ⟨true, rfl⟩).1⟩

end OriginCCL.EpollExecutor
