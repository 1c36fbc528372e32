/-
  File:      OriginCCL/Executor/ReactorRuns.lean
  Subject:   ONE WRITER FOR EVERY TASK of the reactor executor, and exact accounts.

  * `dispatch_spec`, `complete_spec` -- what the loops of `Run` do to the books.
  * `Inv` -- what holds at every point of `Run`; `inv_step` -- **every step keeps it**.
  * `Accounts` -- what the executor promises; `reactor_accounts` -- **it holds in every state reached**.
-/
import OriginCCL.Executor.ReactorBooks

namespace OriginCCL.ReactorExecutor

open Base

/-! ## 1. The loops of `Run` -/

section Loops

variable {H : ReactorHost} {s s' : ReactorExecutor} {slot i : Nat} {task : PlanTask}
  {registered : List (Int × Nat)}

/-- What is left of the interest list when a task is unregistered. -/
theorem mem_unregisterTask {x : Int × Nat} :
    x ∈ unregisterTask H task registered ↔ x ∈ registered ∧ x.1 ∉ taskFds H task := by
  rw [unregisterTask, List.mem_filter, decide_eq_true_eq]

/-- What is left when every current task is. -/
theorem mem_unregisterAll {x : Int × Nat} (current : List (Option (Nat × PlanTask))) :
    x ∈ unregisterAll H current registered ↔
      x ∈ registered ∧ ∀ i task, some (i, task) ∈ current → x.1 ∉ taskFds H task := by
  induction current generalizing registered with
  | nil => simp [unregisterAll]
  | cons c current ih =>
    rw [unregisterAll, List.foldl_cons]
    cases c with
    | none =>
      refine ih.trans ?_
      simp
    | some p =>
      obtain ⟨j, t⟩ := p
      refine ih.trans ?_
      rw [mem_unregisterTask]
      simp only [List.mem_cons, Option.some.injEq, Prod.mk.injEq]
      constructor
      · rintro ⟨⟨hx, ht⟩, hall⟩
        refine ⟨hx, fun i task hmem => ?_⟩
        rcases hmem with ⟨-, rfl⟩ | hmem
        · exact ht
        · exact hall i task hmem
      · rintro ⟨hx, hall⟩
        exact ⟨⟨hx, hall j t (Or.inl ⟨rfl, rfl⟩)⟩, fun i task hmem => hall i task (Or.inr hmem)⟩

/-- What one loop of `RegisterTask` adds. -/
theorem mem_registerSide {refused : Int → Bool} {tag : Nat} {x : Int × Nat} {ls : List Link} :
    x ∈ (registerSide H refused tag ls registered).2 →
      x ∈ registered ∨ x.2 = tag ∧ 0 ≤ x.1 ∧ ∃ l ∈ ls, x.1 = (H.endpoint l).fd := by
  induction ls generalizing registered with
  | nil => exact fun hx => Or.inl hx
  | cons l ls ih =>
    intro hx
    have hlater : (x ∈ registered ∨ x.2 = tag ∧ 0 ≤ x.1 ∧ ∃ l ∈ ls, x.1 = (H.endpoint l).fd) →
        x ∈ registered ∨ x.2 = tag ∧ 0 ≤ x.1 ∧ ∃ l' ∈ l :: ls, x.1 = (H.endpoint l').fd := by
      rintro (hx | ⟨h1, h2, l', hl', h3⟩)
      · exact Or.inl hx
      · exact Or.inr ⟨h1, h2, l', List.mem_cons_of_mem _ hl', h3⟩
    rw [registerSide] at hx
    split_ifs at hx with hfd hrefused
    · exact Or.inl hx
    · rcases ih hx with hx | hx
      · rcases List.mem_append.mp hx with hx | hx
        · exact Or.inl hx
        · rw [List.mem_singleton.mp hx]
          exact Or.inr ⟨rfl, hfd.1, l, List.mem_cons_self, rfl⟩
      · exact hlater (Or.inr hx)
    · exact hlater (ih hx)

/-- **What `RegisterTask` adds**: descriptors of the task, under the tags of the slot. -/
theorem mem_registerTask {refused : Int → Bool} {x : Int × Nat} (hslot : slot < 2 ^ 31)
    (hx : x ∈ (registerTask H refused slot task registered).2) :
    x ∈ registered ∨ x.2 / 2 = slot ∧ x.1 ∈ taskFds H task := by
  have hfds : ∀ ls : List Link, (∀ l ∈ ls, l ∈ task.recvTransports ++ task.sendTransports) →
      0 ≤ x.1 → (∃ l ∈ ls, x.1 = (H.endpoint l).fd) → x.1 ∈ taskFds H task := by
    rintro ls hls hpos ⟨l, hl, heq⟩
    rw [taskFds, List.mem_filter, decide_eq_true_eq]
    exact ⟨List.mem_map.mpr ⟨l, hls l hl, heq.symm⟩, hpos⟩
  have hrecv : x ∈ (registerSide H refused (slot * 2 % 2 ^ 32) task.recvTransports registered).2 →
      x ∈ registered ∨ x.2 / 2 = slot ∧ x.1 ∈ taskFds H task := by
    intro hx
    rcases mem_registerSide hx with hx | ⟨htag, hpos, hl⟩
    · exact Or.inl hx
    · exact Or.inr ⟨by omega, hfds _ (fun l hl => List.mem_append_left _ hl) hpos hl⟩
  rw [registerTask] at hx
  split at hx
  · rename_i reg hreg
    rw [hreg] at hrecv
    rcases mem_registerSide hx with hx | ⟨htag, hpos, hl⟩
    · exact hrecv hx
    · exact Or.inr ⟨by omega, hfds _ (fun l hl => List.mem_append_right _ hl) hpos hl⟩
  · rename_i reg hreg
    rw [hreg] at hrecv
    exact hrecv hx

/-- The calls of a step. -/
theorem calls_step {item : WorkItem} (h : item.init = false) : ∀ call ∈ item.calls, call ≠ .init := by
  intro call hcall
  rw [WorkItem.calls, h, if_neg Bool.false_ne_true, List.mem_append] at hcall
  rcases hcall with hcall | hcall
  · split_ifs at hcall
    · rw [List.mem_singleton.mp hcall]
      exact fun h => by cases h
    · cases hcall
  · split_ifs at hcall
    · rw [List.mem_singleton.mp hcall]
      exact fun h => by cases h
    · cases hcall

/-- **A step is posted** for a slot that nobody has in hand: its task is unregistered first. -/
theorem dispatch_spec (h : Running H s) (readySteps : Nat → UInt32)
    (hfree : readySteps slot ≠ 0 → ∀ b, (slot, b) ∉ s.keys) :
    Running H (dispatch H slot readySteps s) ∧ (dispatch H slot readySteps s).point = s.point ∧
      (dispatch H slot readySteps s).slots = s.slots ∧
      ∀ slot' ≠ slot, (∀ b, (slot', b) ∉ s.keys) →
        ∀ b, (slot', b) ∉ (dispatch H slot readySteps s).keys := by
  unfold dispatch
  split
  · exact ⟨h, rfl, rfl, fun _ _ hfree => hfree⟩
  · rename_i i task hcur
    split
    · exact ⟨h, rfl, rfl, fun _ _ hfree => hfree⟩
    · rename_i hready
      have hfree := hfree hready
      refine ⟨⟨?_, h.channels, ?_, ?_⟩, rfl, rfl, ?_⟩
      · rw [carriers_post]
        refine h.held.add (free_iff.mpr hfree) ⟨hcur, ?_, ?_⟩
        · show (Stage.idle 0).run (onQueue slot s.slots.acts) = _
          rw [h.held.quiet slot (free_iff.mpr hfree), Slots.stageAt_some hcur]
          exact congrArg some (stageBefore_running (calls_step rfl)).symm
        · exact fun call hcall => calls_step rfl call (List.mem_of_mem_tail hcall)
      · rw [keys_post]
        have hc := h.counted
        refine hc.change slot rfl (currentAt_lt h.held hcur) ?_ ?_ (Or.inl rfl) rfl ?_ ?_ ?_
        · show s.inFlight + 1 = _
          rw [Multiset.card_cons, hc.inFlight]
          rfl
        · exact fun slot' he => ⟨rfl, rfl, mem_keys_cons he⟩
        · intro hsome
          rw [Multiset.mem_cons]
          simp only [Prod.mk.injEq, Bool.true_eq_false, and_false, false_or]
          exact hc.waiting slot hsome
        · intro j t _ hmem
          rcases Multiset.mem_cons.mp hmem with heq | hmem
          · cases heq
          · exact absurd hmem (hfree true)
        · intro x hx hslot
          rw [← hslot]
          exact hc.old x hx
      · rw [keys_post]
        intro x hx
        obtain ⟨hx, hfd⟩ := mem_unregisterTask.mp hx
        obtain ⟨j, t, hx', hfree', hfd'⟩ := h.watched x hx
        have hne : x.2 / 2 ≠ slot := by
          intro he
          rw [he, hcur] at hx'
          cases hx'
          exact hfd hfd'
        refine ⟨j, t, hx', fun b hmem => ?_, hfd'⟩
        rcases Multiset.mem_cons.mp hmem with heq | hmem
        · exact hne (congrArg Prod.fst heq)
        · exact hfree' b hmem
      · intro slot' hne hfree' b hmem
        rw [keys_post] at hmem
        rcases Multiset.mem_cons.mp hmem with heq | hmem
        · exact hne (congrArg Prod.fst heq)
        · exact hfree' b hmem

/-- The completion that is taken next. -/
theorem carriers_completing {c : Completion} {rest : List Completion}
    (hp : s.point = .completing (c :: rest)) :
    s.carriers = .completion c ::ₘ carriers { s with point := .completing rest } ∧
      s.keys = (c.slot, c.init) ::ₘ keys { s with point := .completing rest } := by
  have hcs : s.carriers = .completion c ::ₘ carriers { s with point := .completing rest } := by
    rw [carriers_eq, carriers_eq, hp]
    show _ + elsewhere s.workQueue s.completions (c :: rest) = _
    rw [elsewhere_taken, Multiset.add_cons]
    rfl
  refine ⟨hcs, ?_⟩
  rw [keys, hcs, Multiset.map_cons]
  rfl

/-- Nothing else is on its way for the slot of a completion. -/
theorem completing_free (h : Running H s) {c : Completion} {rest : List Completion}
    (hp : s.point = .completing (c :: rest)) :
    ∀ b, (c.slot, b) ∉ keys { s with point := .completing rest } := by
  obtain ⟨hcs, -⟩ := carriers_completing hp
  have hheld := h.held
  rw [hcs] at hheld
  exact free_iff.mp hheld.slot_ne

/-- The slot of a carrier waits unless the carrier is for the initialisation. -/
theorem Counted.waits_key {ks : Multiset (Nat × Bool)} {slots : Slots} {n : Nat} {b : Bool}
    {taken : List (Nat × Completion)} (h : Counted ((slot, b) ::ₘ ks) slots n taken)
    (hfree : ∀ b, (slot, b) ∉ ks) (hsome : slots.currentAt slot ≠ none) :
    waits slots taken slot = !b := by
  cases b with
  | true =>
    rw [Bool.not_true, Bool.eq_false_iff, Ne, h.waiting slot hsome]
    exact fun hnot => hnot (Multiset.mem_cons_self ..)
  | false =>
    rw [Bool.not_false, h.waiting slot hsome, Multiset.mem_cons]
    rintro (heq | hmem)
    · cases heq
    · exact hfree true hmem

/-- The completions taken so far are of tasks that were started, also with one more. -/
theorem Counted.old_snoc {ks : Multiset (Nat × Bool)} {slots : Slots} {n : Nat}
    {taken : List (Nat × Completion)} {c : Completion} (h : Counted ks slots n taken)
    (hindex : slots.indexAt c.slot = i + 1) :
    ∀ x ∈ taken ++ [(i, c)], x.2.slot = c.slot → x.1 < slots.indexAt c.slot := by
  intro x hx hslot
  rcases List.mem_append.mp hx with hx | hx
  · rw [← hslot]
    exact h.old x hx
  · rw [List.mem_singleton.mp hx, hindex]
    exact Nat.lt_succ_self i

/-- **The counts when a completion is taken and the task goes on**: it waits from now on. -/
theorem Counted.waited {ks : Multiset (Nat × Bool)} {slots : Slots} {n : Nat}
    {taken : List (Nat × Completion)} {c : Completion}
    (h : Counted ((c.slot, c.init) ::ₘ ks) slots n taken) (hfree : ∀ b, (c.slot, b) ∉ ks)
    (hlt : c.slot < slots.plan.channels.length) (hcur : slots.currentAt c.slot = some (i, task))
    (hindex : slots.indexAt c.slot = i + 1) (hstate : c.state = .waiting) :
    Counted ks { slots with active := if c.init then slots.active + 1 else slots.active } (n - 1)
      (taken ++ [(i, c)]) := by
  have hsome : slots.currentAt c.slot ≠ none := by
    rw [hcur]
    exact Option.some_ne_none _
  have hkey := h.waits_key hfree hsome
  have hnew : waits slots (taken ++ [(i, c)]) c.slot = true := by
    rw [waits_some hcur]
    cases hinit : c.init with
    | true =>
      refine ⟨List.mem_append_right _ (List.mem_singleton.mpr ?_), fun x hx hnumber hslot => ?_⟩
      · rw [← hinit, ← hstate]
      · rcases List.mem_append.mp hx with hx | hx
        · refine absurd hnumber (h.fresh c.slot i task hcur ?_ x hx hslot)
          rw [hinit]
          exact Multiset.mem_cons_self ..
        · rw [List.mem_singleton.mp hx, hstate]
          nofun
    | false =>
      rw [hinit] at hkey
      obtain ⟨hmem, hopen⟩ := (waits_some hcur).mp hkey
      refine ⟨List.mem_append_left _ hmem, fun x hx hnumber hslot => ?_⟩
      rcases List.mem_append.mp hx with hx | hx
      · exact hopen x hx hnumber hslot
      · rw [List.mem_singleton.mp hx, hstate]
        nofun
  refine h.change c.slot rfl hlt ?_ (fun slot' he => ⟨rfl, rfl, (mem_keys_cons he).symm⟩)
    (Or.inr ⟨i, c, rfl, rfl⟩) ?_ ?_ ?_ (h.old_snoc hindex)
  · rw [h.inFlight, Multiset.card_cons, Nat.add_sub_cancel]
  · show (if c.init then slots.active + 1 else slots.active) + _ = slots.active +
      if waits slots (taken ++ [(i, c)]) c.slot then 1 else 0
    rw [hnew, hkey]
    cases c.init <;> rfl
  · exact fun _ => iff_of_true hnew (hfree true)
  · exact fun _ _ _ hmem => absurd hmem (hfree true)

/-- **The counts when a completion is taken and the task is done.** -/
theorem Counted.leave {ks : Multiset (Nat × Bool)} {slots : Slots} {n : Nat}
    {taken : List (Nat × Completion)} {c : Completion}
    (h : Counted ((c.slot, c.init) ::ₘ ks) slots n taken) (hfree : ∀ b, (c.slot, b) ∉ ks)
    (hlen : slots.current.length = slots.plan.channels.length)
    (hcur : slots.currentAt c.slot = some (i, task)) (hindex : slots.indexAt c.slot = i + 1) :
    Counted ks (setCurrent { slots with
      active := if c.init then slots.active else slots.active - 1 } c.slot none) (n - 1)
      (taken ++ [(i, c)]) := by
  have hlt := Slots.currentAt_lt hcur
  have hcur' := currentAt_setCurrent { slots with
    active := if c.init then slots.active else slots.active - 1 } none hlt
  have hnew : waits (setCurrent { slots with
      active := if c.init then slots.active else slots.active - 1 } c.slot none)
      (taken ++ [(i, c)]) c.slot = false := waits_none ((hcur' _).trans (if_pos rfl))
  have hsome : slots.currentAt c.slot ≠ none := by
    rw [hcur]
    exact Option.some_ne_none _
  have hkey := h.waits_key hfree hsome
  refine h.change c.slot rfl (by rw [← hlen]; exact hlt) ?_
    (fun slot' he => ⟨(hcur' slot').trans (if_neg he), rfl, (mem_keys_cons he).symm⟩)
    (Or.inr ⟨i, c, rfl, rfl⟩) ?_ ?_ ?_ (h.old_snoc hindex)
  · rw [h.inFlight, Multiset.card_cons, Nat.add_sub_cancel]
  · rw [hnew]
    show (if c.init then slots.active else slots.active - 1) + _ = slots.active + 0
    cases hinit : c.init with
    | true =>
      rw [hkey, hinit]
      rfl
    | false =>
      rw [hinit] at hkey
      have hpos : 0 < slots.active := by
        rw [h.active]
        exact List.countP_pos_iff.mpr ⟨c.slot, List.mem_range.mpr (by rw [← hlen]; exact hlt), hkey⟩
      rw [hkey]
      show slots.active - 1 + 1 = slots.active
      omega
  · intro hc
    exact absurd ((hcur' _).trans (if_pos rfl)) hc
  · exact fun _ _ _ hmem => absurd hmem (hfree true)

/-- **A task that is not done** is registered, and waits. -/
theorem complete_waiting (h : Running H s) {c : Completion} {rest : List Completion}
    (hp : s.point = .completing (c :: rest)) (hcur : s.slots.currentAt c.slot = some (i, task))
    (hstate : c.state = .waiting) (refused : Int → Bool) :
    let r := registerTask H refused c.slot task s.registered
    Running H { s with
      registered := r.2
      inFlight := s.inFlight - 1
      taken := s.taken ++ [(i, c)]
      slots := { s.slots with active := if c.init then s.slots.active + 1 else s.slots.active }
      point := .completing rest } := by
  obtain ⟨hcs, hks⟩ := carriers_completing hp
  have hfree := completing_free h hp
  have hlt := currentAt_lt h.held hcur
  have hheld := h.held
  rw [hcs] at hheld
  obtain ⟨j, t, hcur', stage, hrun, hstage, -⟩ := hheld.fits _ (Multiset.mem_cons_self ..)
  have hremoved := hheld.remove (by
    show (Stage.idle 0).run (onQueue c.slot s.slots.acts) = some (s.slots.stageAt c.slot)
    rw [hrun, hstage hstate, Slots.stageAt_some hcur'])
  refine ⟨?_, h.channels, ?_, ?_⟩
  · exact ⟨hremoved.current, hremoved.index, hremoved.task, hremoved.bound, hremoved.single,
      hremoved.fits, hremoved.quiet⟩
  · have hc := h.counted
    rw [hks] at hc
    exact hc.waited hfree hlt hcur (h.held.task _ _ _ hcur).1 hstate
  · intro x hx
    rcases mem_registerTask (by have := h.channels; omega) hx with hx | ⟨hslot, hfd⟩
    · obtain ⟨j, t, hx', hfree', hfd⟩ := h.watched x hx
      refine ⟨j, t, hx', fun b hmem => hfree' b ?_, hfd⟩
      rw [hks]
      exact Multiset.mem_cons_of_mem hmem
    · refine ⟨i, task, ?_, ?_, hfd⟩
      · rw [hslot]
        exact hcur
      · rw [hslot]
        exact hfree

/-- **A task that is done** leaves its slot. -/
theorem complete_done (h : Running H s) {c : Completion} {rest : List Completion}
    (hp : s.point = .completing (c :: rest)) (hcur : s.slots.currentAt c.slot = some (i, task))
    (hstate : c.state = .done) :
    Running H { s with
      inFlight := s.inFlight - 1
      taken := s.taken ++ [(i, c)]
      slots := setCurrent { s.slots with
        active := if c.init then s.slots.active else s.slots.active - 1 } c.slot none
      point := .completing rest } := by
  obtain ⟨hcs, hks⟩ := carriers_completing hp
  have hfree := completing_free h hp
  have hcur' := currentAt_setCurrent s.slots none (Slots.currentAt_lt hcur)
  have hheld := h.held
  rw [hcs] at hheld
  have hleft := hheld.leave hstate
  refine ⟨?_, h.channels, ?_, ?_⟩
  · exact ⟨hleft.current, hleft.index, hleft.task, hleft.bound, hleft.single, hleft.fits, hleft.quiet⟩
  · have hc := h.counted
    rw [hks] at hc
    exact hc.leave hfree h.held.current hcur (h.held.task _ _ _ hcur).1
  · intro x hx
    obtain ⟨j, t, hx', hfree', hfd⟩ := h.watched x hx
    have hne : x.2 / 2 ≠ c.slot := by
      intro he
      refine hfree' c.init ?_
      rw [he, hks]
      exact Multiset.mem_cons_self ..
    refine ⟨j, t, ((hcur' _).trans (if_neg hne)).trans hx', fun b hmem => hfree' b ?_, hfd⟩
    rw [hks]
    exact Multiset.mem_cons_of_mem hmem

end Loops

/-! ## 2. The points of `Run` -/

/-- **What holds at every point of `Run`.** -/
def Inv (H : ReactorHost) (s : ReactorExecutor) : Prop :=
  match s.point with
  | .idle last => s.carriers = 0 ∧ s.registered = [] ∧
      (∀ slot, ∃ stage, (Stage.idle 0).run (onQueue slot s.slots.acts) = some stage) ∧
      (last = some true → s.slots.AllDone)
  | .starting i => Running H s ∧ (∀ slot < i, s.slots.Settled slot) ∧
      ∀ slot, i ≤ slot → s.slots.currentAt slot = none
  | .dispatching i readySteps _ => Running H s ∧ (∀ slot, s.slots.Settled slot) ∧
      ∀ slot, i ≤ slot → readySteps slot ≠ 0 → ∀ b, (slot, b) ∉ s.keys
  | .aborting _ => Held s.carriers s.slots ∧ Watched H s.keys s
  | .stopping _ last => last ≠ some true ∧ s.registered = [] ∧ (Held s.carriers s.slots ∨
      s.carriers = 0 ∧ ∀ slot, ∃ stage, (Stage.idle 0).run (onQueue slot s.slots.acts) = some stage)
  | _ => Running H s ∧ ∀ slot, s.slots.Settled slot

section Points

variable {H : ReactorHost} {s s' : ReactorExecutor} {slot i : Nat} {task : PlanTask} {l : Label}
  {w : Nat}

/-- A slot without a current task has nothing on its way. -/
theorem Running.free (h : Running H s) (hnone : s.slots.currentAt slot = none) :
    ∀ b, (slot, b) ∉ s.keys := by
  refine free_iff.mp fun c hc heq => ?_
  obtain ⟨i, task, hcur⟩ := h.held.current_of hc
  rw [heq, hnone] at hcur
  cases hcur

/-- **A step of a worker keeps every point.** -/
theorem inv_worker (h : Inv H s) (hs : stepWorker l w s = some s') : Inv H s' := by
  have hrunning : Running H s → Running H s' := fun hr => by
    obtain ⟨hheld, hkeys, hb⟩ := hr.held.worker hs
    exact hr.beside hheld hkeys hb
  obtain ⟨hb, -⟩ := worker_cases hs
  have hpoint : s'.point = s.point := by rw [hb]
  have hcur : ∀ slot, s'.slots.currentAt slot = s.slots.currentAt slot := fun slot => by rw [hb]; rfl
  have hsettled : ∀ slot, s.slots.Settled slot → s'.slots.Settled slot := fun slot hset => by
    rw [hb]
    exact hset
  have hregistered : s'.registered = s.registered := by rw [hb]
  unfold Inv at h ⊢
  rw [hpoint]
  cases hp : s.point with
  | idle last =>
    rw [hp] at h
    obtain ⟨hcs, hreg, horder, hdone⟩ := h
    obtain ⟨hcs', hslots, -⟩ := worker_quiet hcs hs
    rw [hslots]
    exact ⟨hcs', hregistered.trans hreg, horder, hdone⟩
  | starting i =>
    rw [hp] at h
    obtain ⟨hr, hset, hfree⟩ := h
    exact ⟨hrunning hr, fun slot hlt => hsettled slot (hset slot hlt),
      fun slot hle => (hcur slot).trans (hfree slot hle)⟩
  | dispatching i readySteps notify =>
    rw [hp] at h
    obtain ⟨hr, hset, hfree⟩ := h
    obtain ⟨-, hkeys, -⟩ := hr.held.worker hs
    refine ⟨hrunning hr, fun slot => hsettled slot (hset slot), ?_⟩
    rw [hkeys]
    exact hfree
  | aborting completed =>
    rw [hp] at h
    obtain ⟨hheld, hwatched⟩ := h
    obtain ⟨hheld', hkeys, -⟩ := hheld.worker hs
    refine ⟨hheld', ?_⟩
    rw [hkeys, hb]
    exact hwatched
  | stopping completed last =>
    rw [hp] at h
    obtain ⟨hlast, hreg, hheld | ⟨hcs, horder⟩⟩ := h
    · exact ⟨hlast, hregistered.trans hreg, Or.inl (hheld.worker hs).1⟩
    · obtain ⟨hcs', hslots, -⟩ := worker_quiet hcs hs
      rw [hslots]
      exact ⟨hlast, hregistered.trans hreg, Or.inr ⟨hcs', horder⟩⟩
  | looping =>
    rw [hp] at h
    exact ⟨hrunning h.1, fun slot => hsettled slot (h.2 slot)⟩
  | waiting =>
    rw [hp] at h
    exact ⟨hrunning h.1, fun slot => hsettled slot (h.2 slot)⟩
  | draining =>
    rw [hp] at h
    exact ⟨hrunning h.1, fun slot => hsettled slot (h.2 slot)⟩
  | taking =>
    rw [hp] at h
    exact ⟨hrunning h.1, fun slot => hsettled slot (h.2 slot)⟩
  | completing completed =>
    rw [hp] at h
    exact ⟨hrunning h.1, fun slot => hsettled slot (h.2 slot)⟩

/-- A step that changes none of the books. -/
theorem Running.same (h : Running H s) (hcs : s'.carriers = s.carriers) (hslots : s'.slots = s.slots)
    (hn : s'.inFlight = s.inFlight) (ht : s'.taken = s.taken)
    (hreg : s'.registered = s.registered) : Running H s' := by
  have hkeys : s'.keys = s.keys := by rw [keys, keys, hcs]
  refine ⟨by rw [hcs, hslots]; exact h.held, by rw [hslots]; exact h.channels, ?_, ?_⟩
  · rw [hkeys, hslots, hn, ht]
    exact h.counted
  · intro x hx
    rw [hkeys, hslots]
    exact h.watched x (hreg ▸ hx)

/-- The carriers do not change with the point of `Run` as long as no completion is lost. -/
theorem carriers_goto {p : ReactorPoint} (hp : p.completed = s.point.completed) :
    carriers { s with point := p } = s.carriers := by
  rw [carriers_eq, carriers_eq]
  show _ + elsewhere s.workQueue s.completions p.completed = _
  rw [hp]

theorem Running.goto (h : Running H s) {p : ReactorPoint} (hp : p.completed = s.point.completed) :
    Running H { s with point := p } := h.same (carriers_goto hp) rfl rfl rfl rfl

/-- Where something has failed, the books of the carriers are kept. -/
theorem inv_abort (h : Running H s) {completed : List Completion}
    (hp : completed = s.point.completed) : Inv H { s with point := .aborting completed } := by
  have hcs := carriers_goto (s := s) (p := .aborting completed) hp
  refine ⟨?_, ?_⟩
  · rw [hcs]
    exact h.held
  · rw [keys, hcs]
    exact h.watched

/-- A slot outside the plan is settled. -/
theorem Held.settled_outside {cs : Multiset Carrier} {slots : Slots} (h : Held cs slots)
    (hge : slots.plan.channels.length ≤ slot) : slots.Settled slot := by
  intro _
  have hnil : slots.plan.tasksOf slot = [] := by
    rw [CollPlan.tasksOf, List.getElem?_eq_none hge]
  have hb := h.bound slot
  rw [hnil] at hb ⊢
  exact Nat.le_zero.mp hb

/-- The other slots stay settled when a task is started. -/
theorem Next.settled_other {slot' : Nat} (h : Next H slot s s') (hne : slot' ≠ slot)
    (hset : s.slots.Settled slot') : s'.slots.Settled slot' := by
  obtain ⟨h1, h2⟩ := h.other slot' hne
  intro hc
  rw [h1] at hc
  rw [h2, h.plan]
  exact hset hc

/-- **Nothing is left when `in_flight` and `active` are 0**: nobody has a task, and all are done. -/
theorem Running.finished (h : Running H s) (hset : ∀ slot, s.slots.Settled slot)
    (hactive : s.slots.active = 0) (hinFlight : s.inFlight = 0) :
    s.carriers = 0 ∧ s.registered = [] ∧ s.slots.AllDone := by
  have hcs : s.carriers = 0 := by
    have hcard := h.counted.inFlight
    rw [hinFlight, keys, Multiset.card_map] at hcard
    exact Multiset.card_eq_zero.mp hcard.symm
  have hkeys : s.keys = 0 := by rw [keys, hcs, Multiset.map_zero]
  have hnone : ∀ slot, s.slots.currentAt slot = none := by
    intro slot
    by_contra hc
    have hwaits := (h.counted.waiting slot hc).mpr (by rw [hkeys]; exact Multiset.notMem_zero _)
    obtain ⟨⟨i, task⟩, hsome⟩ := Option.ne_none_iff_exists'.mp hc
    have hzero := h.counted.active.symm.trans hactive
    exact List.countP_eq_zero.mp hzero slot (List.mem_range.mpr (currentAt_lt h.held hsome)) hwaits
  refine ⟨hcs, ?_, fun slot => ?_⟩
  · refine List.eq_nil_iff_forall_not_mem.mpr fun x hx => ?_
    obtain ⟨i, task, hcur, -⟩ := h.watched x hx
    rw [hnone] at hcur
    cases hcur
  · rw [h.held.quiet slot (by rw [hcs]; exact fun c hc => absurd hc (Multiset.notMem_zero c)),
      Slots.stageAt, hnone, hset slot (hnone slot)]

/-- **A step of `Run`** that nothing outside has a say in. -/
theorem inv_tick (h : Inv H s) (hs : tick H s = some s') : Inv H s' := by
  unfold tick at hs
  unfold Inv at h
  split at hs
  · -- the first tasks are started
    rename_i slot hp
    rw [hp] at h
    obtain ⟨hr, hset, hfree⟩ := h
    split at hs
    · cases hs
      have hr' := hr.goto (p := .starting (slot + 1)) (by rw [hp]; rfl)
      obtain ⟨hfail, hok⟩ := startNext_spec hr' (hfree slot (Nat.le_refl _))
        (hr'.free (hfree slot (Nat.le_refl _)))
      cases hb : (startNext slot { s with point := .starting (slot + 1) }).1 with
      | false =>
        rw [orAbort, hb, if_neg Bool.false_ne_true, hfail hb]
        exact inv_abort hr' rfl
      | true =>
        have hn := hok hb
        rw [orAbort, hb, if_pos rfl]
        generalize startNext slot { s with point := .starting (slot + 1) } = r at hn ⊢
        unfold Inv
        rw [hn.point]
        refine ⟨hn.running, fun slot' hlt => ?_, fun slot' hle => ?_⟩
        · by_cases he : slot' = slot
          · rw [he]
            exact hn.settled
          · exact hn.settled_other he (hset slot' (by omega))
        · exact (hn.other slot' (by omega)).1.trans (hfree slot' (by omega))
    · rename_i hge
      cases hs
      refine ⟨hr.goto (by rw [hp]; rfl), fun slot' => ?_⟩
      by_cases hlt : slot' < slot
      · exact hset slot' hlt
      · exact hr.held.settled_outside (by omega)
  · -- the condition of the main loop
    rename_i hp
    rw [hp] at h
    obtain ⟨hr, hset⟩ := h
    split at hs
    · cases hs
      exact ⟨hr.goto (by rw [hp]; rfl), hset⟩
    · rename_i hzero
      cases hs
      obtain ⟨hcs, hreg, hdone⟩ := hr.finished hset (by omega) (by omega)
      refine ⟨?_, hreg, hr.held.order, fun _ => hdone⟩
      rw [carriers_goto (by rw [hp]; rfl)]
      exact hcs
  · -- steps are posted
    rename_i slot readySteps notify hp
    rw [hp] at h
    obtain ⟨hr, hset, hfree⟩ := h
    split at hs
    · cases hs
      obtain ⟨hr', hpoint, hslots, hkeys⟩ := dispatch_spec hr readySteps
        (hfree slot (Nat.le_refl _))
      refine ⟨hr'.goto (by rw [hpoint, hp]; rfl), fun slot' => ?_, fun slot' hle hready => ?_⟩
      · show (dispatch H slot readySteps s).slots.Settled slot'
        rw [hslots]
        exact hset slot'
      · rw [keys, carriers_goto (by rw [hpoint, hp]; rfl)]
        exact hkeys slot' (by omega) (hfree slot' (by omega) hready)
    · cases hs
      cases notify with
      | true => exact ⟨hr.goto (by rw [hp]; rfl), hset⟩
      | false => exact ⟨hr.goto (by rw [hp]; rfl), hset⟩
  · -- `DrainNotify`
    rename_i hp
    rw [hp] at h
    cases hs
    exact ⟨h.1.same (by rw [carriers_eq, carriers_eq, hp]; rfl) rfl rfl rfl rfl, h.2⟩
  · -- the completions are taken over
    rename_i hp
    rw [hp] at h
    cases hs
    refine ⟨h.1.same ?_ rfl rfl rfl rfl, h.2⟩
    rw [carriers_eq, carriers_eq, hp]
    refine congrArg (_ + ·) ?_
    show elsewhere s.workQueue [] s.completions = elsewhere s.workQueue s.completions []
    unfold elsewhere
    rw [List.map_nil, Multiset.coe_nil]
    abel
  · rename_i hp
    rw [hp] at h
    cases hs
    exact ⟨h.1.goto (by rw [hp]; rfl), h.2⟩
  · -- `abort_plan`
    rename_i completed hp
    rw [hp] at h
    obtain ⟨hheld, hwatched⟩ := h
    cases hs
    refine ⟨(fun h => by cases h), ?_, Or.inl ?_⟩
    · refine List.eq_nil_iff_forall_not_mem.mpr fun x hx => ?_
      obtain ⟨hx, hnot⟩ := (mem_unregisterAll s.slots.current).mp hx
      obtain ⟨i, task, hcur, -, hfd⟩ := hwatched x hx
      refine hnot i task ?_ hfd
      have hlt := Slots.currentAt_lt hcur
      rw [Slots.currentAt, List.getD_eq_getElem _ _ hlt] at hcur
      rw [← hcur]
      exact List.getElem_mem hlt
    · have hcs : carriers { s with
          registered := unregisterAll H s.slots.current s.registered, stop := true
          point := .stopping completed (some false) } = s.carriers := by
        rw [carriers_eq, carriers_eq, hp]
        rfl
      rw [hcs]
      exact hheld
  · cases hs

/-- **A slot is stepped only for an event of its own.** -/
theorem collect_event {slots : Slots} {events : List EpollEvent} {ready : Nat → UInt32}
    (h : events.foldl (collect H slots) ready slot ≠ 0) :
    ready slot ≠ 0 ∨ ∃ event ∈ events, event.tag ≠ kNotifyTag ∧ event.tag / 2 = slot := by
  induction events generalizing ready with
  | nil => exact Or.inl h
  | cons event events ih =>
    rw [List.foldl_cons] at h
    rcases ih h with h | ⟨e, he, htag⟩
    · have hsame : collect H slots ready event slot = ready slot ∨
          event.tag ≠ kNotifyTag ∧ event.tag / 2 = slot := by
        by_cases hnotify : event.tag = kNotifyTag
        · rw [collect, if_pos hnotify]
          exact Or.inl rfl
        by_cases hslot : event.tag / 2 = slot
        · exact Or.inr ⟨hnotify, hslot⟩
        left
        rw [collect, if_neg hnotify]
        dsimp only
        cases slots.currentAt (event.tag / 2) with
        | none => rfl
        | some current =>
          dsimp only
          split_ifs
          · exact Function.update_of_ne (Ne.symm hslot) ..
          · exact Function.update_of_ne (Ne.symm hslot) ..
          · rfl
      rcases hsame with hsame | hevent
      · exact Or.inl (by rw [← hsame]; exact h)
      · exact Or.inr ⟨event, List.mem_cons_self, hevent⟩
    · exact Or.inr ⟨e, List.mem_cons_of_mem _ he, htag⟩

/-- **The events of `epoll_wait`** are of slots that nobody has in hand. -/
theorem inv_ready (h : Running H s) (hset : ∀ slot, s.slots.Settled slot)
    (hp : s.point = .waiting) {events : List EpollEvent} (hevents : ∀ event ∈ events, s.Reported event)
    (notify : Bool) :
    Inv H { s with
      point := .dispatching 0 (events.foldl (collect H s.slots) fun _ => 0) notify } := by
  refine ⟨h.goto (by rw [hp]; rfl), hset, fun slot _ hready => ?_⟩
  rw [keys, carriers_goto (by rw [hp]; rfl)]
  rcases collect_event hready with hzero | ⟨event, hmem, hnotify, hslot⟩
  · exact absurd rfl hzero
  · rcases hevents event hmem with ⟨htag, -⟩ | hreg
    · exact absurd htag hnotify
    · obtain ⟨x, hx, htag⟩ := List.mem_map.mp hreg
      obtain ⟨i, task, -, hfree, -⟩ := h.watched x hx
      rw [htag, hslot] at hfree
      exact hfree

/-- **A completion is handled.** -/
theorem inv_complete (h : Running H s) (hset : ∀ slot, s.slots.Settled slot) {c : Completion}
    {rest : List Completion} (hp : s.point = .completing (c :: rest))
    (hcur : s.slots.currentAt c.slot = some (i, task)) (refused : Int → Bool) :
    Inv H (complete H refused c i task s) := by
  have hrest : s.point.completed.tail = rest := by rw [hp]; rfl
  unfold complete
  dsimp only
  rw [hrest]
  cases hstate : c.state with
  | failed =>
    have hcs : carriers { s with inFlight := s.inFlight - 1, taken := s.taken ++ [(i, c)]
                                 point := .aborting s.point.completed } = s.carriers := by
      rw [carriers_eq, carriers_eq]
      rfl
    refine ⟨?_, ?_⟩
    · rw [hcs]
      exact h.held
    · rw [keys, hcs]
      exact h.watched
  | waiting =>
    have hr := complete_waiting h hp hcur hstate refused
    dsimp only
    cases hb : (registerTask H refused c.slot task s.registered).1 with
    | true =>
      simp only [orAbort, true_and, if_true]
      exact ⟨hr, hset⟩
    | false =>
      simp only [orAbort, Bool.false_eq_true, false_and, if_false]
      have hheld := hr.held
      refine ⟨⟨hheld.current, hheld.index, hheld.task, hheld.bound, hheld.single, hheld.fits,
        hheld.quiet⟩, hr.watched⟩
  | done =>
    have hr := complete_done h hp hcur hstate
    have hlt := Slots.currentAt_lt hcur
    have hcur' := currentAt_setCurrent { s.slots with
      active := if c.init then s.slots.active else s.slots.active - 1 } none hlt
    dsimp only
    generalize hs₁ : ({ s with
      inFlight := s.inFlight - 1, taken := s.taken ++ [(i, c)]
      slots := setCurrent { s.slots with
        active := if c.init then s.slots.active else s.slots.active - 1 } c.slot none
      point := .completing rest } : ReactorExecutor) = s₁ at hr ⊢
    have hnone : s₁.slots.currentAt c.slot = none := by
      rw [← hs₁]
      exact (hcur' c.slot).trans (if_pos rfl)
    have hset₁ : ∀ slot, slot ≠ c.slot → s₁.slots.Settled slot := by
      intro slot hne hc
      rw [← hs₁] at hc ⊢
      exact hset slot (((hcur' slot).trans (if_neg hne)).symm.trans hc)
    obtain ⟨hfail, hok⟩ := startNext_spec hr hnone (hr.free hnone)
    cases hb : (startNext c.slot s₁).1 with
    | false =>
      rw [orAbort, hb, if_neg Bool.false_ne_true, hfail hb]
      exact inv_abort hr rfl
    | true =>
      have hn := hok hb
      rw [orAbort, hb, if_pos rfl]
      generalize startNext c.slot s₁ = r at hn ⊢
      unfold Inv
      rw [hn.point, ← hs₁]
      refine ⟨hn.running, fun slot => ?_⟩
      by_cases he : slot = c.slot
      · rw [he]
        exact hn.settled
      · exact hn.settled_other he (hset₁ slot he)

/-- **A plan is started.** -/
theorem inv_begin {plan : CollPlan} {opens : Bool} (hcs : s.carriers = 0) (hreg : s.registered = [])
    (hp : s.point.completed = []) (hn : plan.channels.length < 2 ^ 31) :
    Inv H (begin H plan opens s) := by
  have hheld := held_ofPlan plan
  have hidle : ∀ last, (last = some true → (Slots.ofPlan plan).AllDone) → Inv H { s with
      slots := Slots.ofPlan plan, inFlight := 0, taken := [], point := .idle last } := by
    intro last hdone
    refine ⟨?_, hreg, hheld.order, hdone⟩
    rw [← hcs, carriers_eq, carriers_eq, hp]
    rfl
  unfold begin
  dsimp only
  split
  · rename_i hempty
    exact hidle (some true) fun _ => Slots.allDone_ofPlan hempty
  · split
    · have hworkers : ∀ count : Nat, (if s.workers.isEmpty then List.replicate count .waiting
          else s.workers).filterMap (·.carrier) = s.workers.filterMap (·.carrier) := by
        intro count
        split
        · rename_i hempty
          rw [List.isEmpty_iff.mp hempty, List.filterMap_replicate_of_none rfl]
          rfl
        · rfl
      have hnone := Slots.currentAt_ofPlan plan
      generalize hs' : ({ s with
        opened := true, slots := Slots.ofPlan plan, inFlight := 0, taken := []
        workers := if s.workers.isEmpty then List.replicate
          (if 0 < H.workerCount then H.workerCount else kDefaultWorkers) .waiting else s.workers
        point := .starting 0 } : ReactorExecutor) = s'
      have hcs' : s'.carriers = 0 := by
        rw [← hcs, ← hs', carriers_eq, carriers_eq, hp]
        dsimp only
        rw [hworkers]
        rfl
      have hkeys : s'.keys = 0 := by rw [keys, hcs', Multiset.map_zero]
      have hrunning : Running H s' := by
        refine ⟨?_, ?_, ?_, ?_⟩
        · rw [hcs', ← hs']
          exact hheld
        · rw [← hs']
          exact hn
        · rw [hkeys, ← hs']
          refine ⟨rfl, ?_, fun slot hc => absurd (hnone slot) hc, ?_, ?_⟩
          · show 0 = _
            refine (List.countP_eq_zero.mpr fun slot _ => ?_).symm
            rw [waits_none (hnone slot)]
            exact Bool.false_ne_true
          · exact fun slot i task hc => by rw [hnone] at hc; cases hc
          · exact fun x hx => absurd hx List.not_mem_nil
        · intro x hx
          rw [← hs'] at hx
          dsimp only at hx
          rw [hreg] at hx
          cases hx
      subst hs'
      exact ⟨hrunning, fun slot hlt => absurd hlt (Nat.not_lt_zero slot), fun slot _ => hnone slot⟩
    · exact hidle (some false) fun h => by cases h

/-- **Every step keeps what holds at the points of `Run`.** -/
theorem inv_step (h : Inv H s) (hs : step H l s = some s') : Inv H s' := by
  cases l with
  | run plan opens =>
    simp only [step] at hs
    split at hs
    · rename_i last hp
      split at hs
      · rename_i hn
        cases hs
        unfold Inv at h
        rw [hp] at h
        exact inv_begin h.1 h.2.1 (by rw [hp]; rfl) hn
      · cases hs
    · cases hs
  | tick => exact inv_tick h hs
  | interrupted =>
    simp only [step] at hs
    split at hs
    · rename_i hp
      cases hs
      unfold Inv at h
      rw [hp] at h
      exact ⟨h.1.goto (by rw [hp]; rfl), h.2⟩
    · cases hs
  | waitFailed =>
    simp only [step] at hs
    split at hs
    · rename_i hp
      cases hs
      unfold Inv at h
      rw [hp] at h
      exact inv_abort h.1 (by rw [hp]; rfl)
    · cases hs
  | ready events =>
    simp only [step] at hs
    split at hs
    · rename_i hp
      split at hs
      · rename_i hevents
        cases hs
        unfold Inv at h
        rw [hp] at h
        exact inv_ready h.1 h.2 hp hevents.2.2 _
      · cases hs
    · cases hs
  | complete refused =>
    simp only [step] at hs
    split at hs
    · rename_i c rest hp
      split at hs
      · rename_i i task hcur
        cases hs
        unfold Inv at h
        rw [hp] at h
        exact inv_complete h.1 h.2 hp hcur refused
      · cases hs
    · cases hs
  | joined =>
    simp only [step] at hs
    split at hs
    · rename_i completed last hp
      split at hs
      · unfold Inv at h
        rw [hp] at h
        obtain ⟨hlast, hreg, hheld⟩ := h
        have horder : ∀ slot, ∃ stage,
            (Stage.idle 0).run (onQueue slot s.slots.acts) = some stage := by
          rcases hheld with hheld | ⟨-, horder⟩
          · exact hheld.order
          · exact horder
        cases hs
        split
        · exact ⟨rfl, rfl, horder, fun ht => absurd ht hlast⟩
        · exact ⟨rfl, hreg, horder, fun ht => absurd ht hlast⟩
      · cases hs
    · cases hs
  | shutdown =>
    simp only [step] at hs
    split at hs
    · rename_i last hp
      cases hs
      unfold Inv at h
      rw [hp] at h
      obtain ⟨hcs, hreg, horder, -⟩ := h
      refine ⟨nofun, hreg, Or.inr ⟨?_, horder⟩⟩
      rw [← hcs, carriers_eq, carriers_eq, hp]
      rfl
    · cases hs
  | take w => exact inv_worker h hs
  | work w ok => exact inv_worker h hs
  | judge w done => exact inv_worker h hs
  | postCompletion w => exact inv_worker h hs
  | notify w => exact inv_worker h hs

end Points

/-! ## 3. What the executor promises -/

/-- The item a worker makes calls for. -/
def ReactorWorker.item : ReactorWorker → Option WorkItem
  | .working item _ => some item
  | _ => none

/-- The items that are queued, or that a worker makes calls for. -/
def heldItems (s : ReactorExecutor) : List WorkItem := s.workQueue ++ s.workers.filterMap (·.item)

/-- The number of items that were posted and whose completion was not taken. -/
def outstanding (s : ReactorExecutor) : Nat :=
  s.workQueue.length + s.workers.countP (·.carrier.isSome) + s.completions.length +
    s.point.completed.length

/-- `Run` goes on: it has not returned, and nothing has failed. -/
def ReactorPoint.goesOn : ReactorPoint → Prop
  | .idle _ => False
  | .aborting _ => False
  | .stopping _ _ => False
  | _ => True

/-- The tasks of different channels share no descriptor, as connections of different channels do not. -/
def Apart (H : ReactorHost) (plan : CollPlan) : Prop :=
  ∀ slot slot' task task', slot ≠ slot' → task ∈ plan.tasksOf slot → task' ∈ plan.tasksOf slot' →
    ∀ fd ∈ taskFds H task, fd ∉ taskFds H task'

/-- **What the executor promises** at any time. -/
structure Accounts (H : ReactorHost) (s : ReactorExecutor) : Prop where
  /-- at most one item for every slot -/
  single : (s.heldItems.map WorkItem.slot).Nodup
  /-- of its current task -/
  current : ∀ item ∈ s.heldItems, s.slots.currentAt item.slot = some (item.number, item.task)
  /-- no registration leads to a slot with an item, so no descriptor of its task is registered -/
  unregistered : ∀ item ∈ s.heldItems, ∀ x ∈ s.registered, x.2 / 2 ≠ item.slot ∧
    (Apart H s.slots.plan → x.1 ∉ taskFds H item.task)
  inFlight : s.point.goesOn → s.inFlight = s.outstanding
  active : s.point.goesOn →
    s.slots.active = (List.range s.slots.plan.channels.length).countP (waits s.slots s.taken)
  /-- every task is initialised once, in order, after the one before it is done -/
  order : ∀ slot, InOrder (onQueue slot s.slots.acts)
  /-- when `Run` has returned, nobody has an item, and none can be taken -/
  returned : ∀ last, s.point = .idle last →
    s.heldItems = [] ∧ s.completions = [] ∧ s.registered = []
  done : s.point = .idle (some true) → s.slots.AllDone

section Promises

variable {H : ReactorHost} {s : ReactorExecutor} {ls : List Label}

/-- An item in hand is a carrier. -/
theorem mem_heldItems {item : WorkItem} (h : item ∈ s.heldItems) :
    ∃ calls, Carrier.work item calls ∈ s.carriers := by
  rw [carriers_eq]
  rcases List.mem_append.mp h with h | h
  · refine ⟨item.calls, Multiset.mem_add.mpr (Or.inr ?_)⟩
    unfold elsewhere
    refine Multiset.mem_add.mpr (Or.inl (Multiset.mem_add.mpr (Or.inl ?_)))
    exact Multiset.mem_coe.mpr (List.mem_map_of_mem h)
  · obtain ⟨w, hw, heq⟩ := List.mem_filterMap.mp h
    cases w with
    | working item' calls =>
      cases heq
      refine ⟨calls, Multiset.mem_add.mpr (Or.inl (Multiset.mem_coe.mpr ?_))⟩
      exact List.mem_filterMap.mpr ⟨_, hw, rfl⟩
    | waiting => cases heq
    | posting c => cases heq
    | notifying => cases heq
    | exited => cases heq

/-- The slots of the items in hand are among those of the carriers. -/
theorem heldItems_le : (↑(s.heldItems.map WorkItem.slot) : Multiset Nat) ≤
    s.carriers.map fun c => c.key.1 := by
  have hworkers : ∀ ws : List ReactorWorker, ((ws.filterMap (·.item)).map WorkItem.slot).Sublist
      ((ws.filterMap (·.carrier)).map fun c => c.key.1) := by
    intro ws
    induction ws with
    | nil => exact List.Sublist.slnil
    | cons w ws ih =>
      cases w with
      | waiting => exact ih
      | working item calls => exact ih.cons_cons _
      | posting c => exact ih.cons _
      | notifying => exact ih
      | exited => exact ih
  have hqueue : (s.workQueue.map fun item => Carrier.work item item.calls).map (fun c => c.key.1) =
      s.workQueue.map WorkItem.slot := by
    rw [List.map_map]
    rfl
  rw [carriers, heldItems, List.map_append, ← Multiset.coe_add, Multiset.map_add, Multiset.map_add,
    Multiset.map_add, Multiset.map_coe, Multiset.map_coe, hqueue]
  refine le_trans ?_ (Multiset.le_add_right _ _)
  refine le_trans ?_ (Multiset.le_add_right _ _)
  exact add_le_add le_rfl (Multiset.coe_le.mpr (hworkers s.workers).subperm)

theorem card_carriers : s.carriers.card = s.outstanding := by
  have hworkers : ∀ ws : List ReactorWorker,
      (ws.filterMap (·.carrier)).length = ws.countP (·.carrier.isSome) := by
    intro ws
    rw [List.length_filterMap_eq_countP]
  rw [carriers, outstanding, Multiset.card_add, Multiset.card_add, Multiset.card_add]
  simp only [Multiset.coe_card, List.length_map, hworkers]

/-- A run that goes on keeps what is promised. -/
theorem Inv.running (h : Inv H s) (hp : s.point.goesOn) : Running H s := by
  unfold Inv at h
  cases hpt : s.point with
  | idle last => rw [hpt] at hp; exact hp.elim
  | aborting cs => rw [hpt] at hp; exact hp.elim
  | stopping cs last => rw [hpt] at hp; exact hp.elim
  | starting i => rw [hpt] at h; exact h.1
  | looping => rw [hpt] at h; exact h.1
  | waiting => rw [hpt] at h; exact h.1
  | dispatching i ready notify => rw [hpt] at h; exact h.1
  | draining => rw [hpt] at h; exact h.1
  | taking => rw [hpt] at h; exact h.1
  | completing cs => rw [hpt] at h; exact h.1

/-- Either the carriers are in order and the interest list is watched, or there are none. -/
theorem Inv.held (h : Inv H s) :
    Held s.carriers s.slots ∧ Watched H s.keys s ∨ s.carriers = 0 ∧
      ∀ slot, ∃ stage, (Stage.idle 0).run (onQueue slot s.slots.acts) = some stage := by
  by_cases hp : s.point.goesOn
  · exact Or.inl ⟨(h.running hp).held, (h.running hp).watched⟩
  · unfold Inv at h
    cases hpt : s.point with
    | idle last => rw [hpt] at h; exact Or.inr ⟨h.1, h.2.2.1⟩
    | aborting cs => rw [hpt] at h; exact Or.inl h
    | stopping cs last =>
      rw [hpt] at h
      obtain ⟨-, hreg, hheld | hquiet⟩ := h
      · refine Or.inl ⟨hheld, fun x hx => ?_⟩
        rw [hreg] at hx
        cases hx
      · exact Or.inr hquiet
    | starting i => rw [hpt] at hp; exact absurd trivial hp
    | looping => rw [hpt] at hp; exact absurd trivial hp
    | waiting => rw [hpt] at hp; exact absurd trivial hp
    | dispatching i ready notify => rw [hpt] at hp; exact absurd trivial hp
    | draining => rw [hpt] at hp; exact absurd trivial hp
    | taking => rw [hpt] at hp; exact absurd trivial hp
    | completing cs => rw [hpt] at hp; exact absurd trivial hp

theorem inv_reach (h : Reach (step H) {} ls s) : Inv H s := by
  refine h.invariant ?_ fun l s s' hI hs => inv_step hI hs
  exact ⟨rfl, rfl, (held_ofPlan {}).order, nofun⟩

/-- What holds at every point of `Run` is what is promised. -/
theorem Inv.accounts (h : Inv H s) : Accounts H s := by
  have hnone : s.carriers = 0 → s.heldItems = [] := by
    intro hcs
    refine List.eq_nil_iff_forall_not_mem.mpr fun item hitem => ?_
    obtain ⟨calls, hmem⟩ := mem_heldItems hitem
    rw [hcs] at hmem
    exact Multiset.notMem_zero _ hmem
  refine ⟨?_, ?_, ?_, ?_, ?_, ?_, ?_, ?_⟩
  · rcases h.held with ⟨hheld, -⟩ | ⟨hcs, -⟩
    · exact Multiset.coe_nodup.mp (Multiset.nodup_of_le heldItems_le hheld.single)
    · rw [hnone hcs]
      exact List.nodup_nil
  · intro item hitem
    rcases h.held with ⟨hheld, -⟩ | ⟨hcs, -⟩
    · obtain ⟨calls, hmem⟩ := mem_heldItems hitem
      exact (hheld.fits _ hmem).1
    · rw [hnone hcs] at hitem
      cases hitem
  · intro item hitem x hx
    rcases h.held with ⟨hheld, hwatched⟩ | ⟨hcs, -⟩
    · obtain ⟨calls, hmem⟩ := mem_heldItems hitem
      obtain ⟨i, task, hcur, hfree, hfd⟩ := hwatched x hx
      have hne : x.2 / 2 ≠ item.slot := fun he => by
        refine hfree item.init ?_
        rw [he]
        exact Multiset.mem_map_of_mem Carrier.key hmem
      refine ⟨hne, fun hapart => hapart _ _ task item.task hne ?_ ?_ _ hfd⟩
      · exact List.mem_of_getElem? (hheld.task _ _ _ hcur).2
      · exact List.mem_of_getElem? (hheld.task _ _ _ (hheld.fits _ hmem).1).2
    · rw [hnone hcs] at hitem
      cases hitem
  · intro hp
    have hcount := (h.running hp).counted.inFlight
    rw [hcount, keys, Multiset.card_map, card_carriers]
  · exact fun hp => (h.running hp).counted.active
  · intro slot
    rcases h.held with ⟨hheld, -⟩ | ⟨-, horder⟩
    · obtain ⟨stage, hrun⟩ := hheld.order slot
      exact Stage.inOrder hrun
    · obtain ⟨stage, hrun⟩ := horder slot
      exact Stage.inOrder hrun
  · intro last hp
    unfold Inv at h
    rw [hp] at h
    obtain ⟨hcs, hreg, -⟩ := h
    refine ⟨hnone hcs, ?_, hreg⟩
    have hout := card_carriers (s := s)
    rw [hcs, Multiset.card_zero, outstanding] at hout
    exact List.length_eq_zero_iff.mp (by omega)
  · intro hp
    unfold Inv at h
    rw [hp] at h
    exact h.2.2.2 rfl

/-- **The reactor executor has one writer for every task, and its accounts are exact**, in every run of
    any plans, whatever the tasks and the kernel do and in whatever order the threads go on. -/
theorem reactor_accounts (h : Reach (step H) {} ls s) : Accounts H s := (inv_reach h).accounts

/-- A task that is done at once, from its start to the end of `Run`. -/
def oneTask : List Label :=
  [.run { channels := [{ channelId := 0, tasks := [{ topology := some .p2p }] }] } true, .tick, .tick, .tick,
    .take 0, .work 0 true, .judge 0 true, .postCompletion 0, .notify 0,
    .ready [{ tag := kNotifyTag, events := 1 }], .tick, .tick, .tick, .tick, .complete fun _ => false,
    .tick, .tick]

theorem reactor_accounts_one :
    let H : ReactorHost :=
      { endpoint := fun _ => { fd := 5, pollEvents := 1, pollEvents_pos := Nat.one_pos }, workerCount := 1 }
    let s := follow (step H) {} oneTask
    s.slots.acts.length = 2 ∧ s.taken.length = 1 ∧ s.inFlight = 0 ∧ Accounts H s := by
  intro H s
  obtain ⟨ls, -, hr⟩ := follow_reach (step H) {} oneTask
  exact ⟨by decide +kernel, by decide +kernel, by decide +kernel, reactor_accounts hr⟩

end Promises

end OriginCCL.ReactorExecutor
