/-
  File:      OriginCCL/Plan/Paths.lean
  Subject:   THE EXECUTOR A FLUSH CHOOSES.

  * `RunsDynamic`, `RunsStatic` -- the executor whose success a flush returns.
  * `flush_collectives`, `flush_mixed` -- the choice for a batch of collectives, and for one with a Send or
    a Recv.
  * `Keeps` -- when `config.n_channels` decides like the number of channels.
  * `flush_routes` -- **a flush weighs its slices against the channels exactly then**.
-/
import OriginCCL.Plan.Flush
import OriginCCL.Plan.Roles

namespace OriginCCL

open Base Planner

namespace CommunicatorState

/-! ## 1. The two paths -/

/-- A flush hands its plan to the dynamic executor and returns what that returns. -/
def RunsDynamic (comm : CommunicatorState) (tasks : List CollTask) (net : Int → RoundOutcome) : Prop :=
  ∃ plan, ∀ run runDynamic, (comm.flushTasks tasks ⟨net, run, runDynamic⟩).2 = .ok (runDynamic plan)

/-- A flush hands its plan to the static executor. -/
def RunsStatic (comm : CommunicatorState) (tasks : List CollTask) (net : Int → RoundOutcome) : Prop :=
  ∃ plan, ∀ run runDynamic, (comm.flushTasks tasks ⟨net, run, runDynamic⟩).2 = .ok (run plan)

section Paths

variable {comm : CommunicatorState} {tasks batch : List CollTask} {net : Int → RoundOutcome}

/-- A flush takes one path. -/
theorem not_both (hd : comm.RunsDynamic tasks net) (hs : comm.RunsStatic tasks net) : False := by
  obtain ⟨p, hp⟩ := hd
  obtain ⟨q, hq⟩ := hs
  have h := (hp (fun _ => false) fun _ => true).symm.trans (hq (fun _ => false) fun _ => true)
  cases h

/-- The slices that the planner makes of a batch. -/
def plannedSlices (comm : CommunicatorState) (tasks : List CollTask) : Nat :=
  (tasks.map fun task => nUsed comm.worldSize (max comm.getNChannels 1) task).sum

theorem length_planned (comm : CommunicatorState) (tasks : List CollTask) :
    (tasks.flatMap (slices comm)).length = plannedSlices comm tasks := by
  rw [List.length_flatMap, plannedSlices]
  exact congrArg List.sum (List.map_congr_left fun task _ => length_slices comm task)

/-- What is sorted is the batch. -/
theorem sortTasks_perm (h : sortTasks tasks comm.rank comm.worldSize = some batch) : batch.Perm tasks := by
  unfold sortTasks at h
  split at h
  · cases h
  · split at h
    · obtain rfl := Option.some.inj h
      have hsplit := List.filter_append_perm (fun task : CollTask => !isP2p task.func) tasks
      have hnot : (fun task : CollTask => !!isP2p task.func) = fun task => isP2p task.func :=
        funext fun task => Bool.not_not _
      rw [hnot] at hsplit
      exact ((List.mergeSort_perm ..).append (List.mergeSort_perm ..)).trans hsplit
    · cases h

/-- A batch of collectives that passes the validation is sorted and planned. -/
theorem sortTasks_some (hr : 0 ≤ comm.rank ∧ comm.rank < comm.worldSize)
    (hall : tasks.all (sortable comm.rank comm.worldSize) = true) :
    ∃ batch, sortTasks tasks comm.rank comm.worldSize = some batch := by
  unfold sortTasks
  rw [if_neg (by omega), if_pos hall]
  exact ⟨_, rfl⟩

theorem isCollectiveBatch_perm (h : batch.Perm tasks) : isCollectiveBatch batch = isCollectiveBatch tasks := by
  rw [Bool.eq_iff_iff]
  unfold isCollectiveBatch
  rw [List.all_eq_true, List.all_eq_true]
  exact ⟨fun hb t ht => hb t (h.mem_iff.mpr ht), fun hb t ht => hb t (h.mem_iff.mp ht)⟩

theorem plannedSlices_perm (h : batch.Perm tasks) : comm.plannedSlices batch = comm.plannedSlices tasks :=
  (h.map _).sum_eq

/-! ## 2. The choice -/

/-- **A batch of collectives** goes to the dynamic executor if it has more slices than
    `config.n_channels`, read as a `size_t`. -/
theorem flush_collectives (net : Int → RoundOutcome) (hready : comm.Ready)
    (hd : comm.dynamicAvailable = true) (hr : 0 ≤ comm.rank ∧ comm.rank < comm.worldSize)
    (hbatch : isCollectiveBatch tasks = true)
    (hvalid : ∀ t ∈ tasks, validateCollectiveTask t comm.rank comm.worldSize = true) :
    if comm.plannedSlices tasks > comm.configChannels then comm.RunsDynamic tasks net
    else comm.RunsStatic tasks net := by
  have hn := hready.some_channel
  have hall : tasks.all (sortable comm.rank comm.worldSize) = true := by
    refine List.all_eq_true.mpr fun t ht => ?_
    have hno := List.all_eq_true.mp hbatch t ht
    rw [Bool.not_eq_true'] at hno
    rw [sortable, hno]
    exact hvalid t ht
  obtain ⟨batch, hsort⟩ := sortTasks_some hr hall
  have hperm := sortTasks_perm hsort
  have hcoll : isCollectiveBatch batch = true := (isCollectiveBatch_perm hperm).trans hbatch
  have hplan : batch.all (plannable comm) = true := by
    refine List.all_eq_true.mpr fun t ht => ?_
    have hno := List.all_eq_true.mp hcoll t ht
    rw [Bool.not_eq_true'] at hno
    rw [plannable, hno]
    exact hvalid t (hperm.mem_iff.mp ht)
  have hslices := length_planned comm batch
  rw [plannedSlices_perm hperm] at hslices
  have hflush : ∀ outcome : FlushOutcome, (comm.flushTasks tasks outcome).2 =
      (if comm.plannedSlices tasks > comm.configChannels then
        .ok (outcome.runDynamic { CollPlan.ofChannels comm.getNChannels with
          slices := batch.flatMap (slices comm) })
      else .ok (outcome.run (pushAll comm (CollPlan.ofChannels comm.getNChannels) (assigned comm batch)))) := by
    intro outcome
    unfold flushTasks
    rw [hsort]
    dsimp only
    rw [hd, hcoll, Bool.and_self, plan_dynamic hn hplan]
    unfold execute
    dsimp only
    rw [if_pos rfl, hslices, plan_static hn hcoll hplan]
    split
    · rfl
    · rfl
  split
  · rename_i hmore
    exact ⟨_, fun run runDynamic => by rw [hflush, if_pos hmore]⟩
  · rename_i hfew
    exact ⟨_, fun run runDynamic => by rw [hflush, if_neg hfew]⟩

/-- **A batch with a Send or a Recv never goes to the dynamic executor**, nor does any batch where there is
    none. -/
theorem flush_mixed (hbatch : (comm.dynamicAvailable && isCollectiveBatch tasks) = false) :
    ¬ comm.RunsDynamic tasks net := by
  rintro ⟨p, hp⟩
  have hflush : ∀ runDynamic, (comm.flushTasks tasks ⟨net, fun _ => false, runDynamic⟩).2 ≠ .ok true := by
    intro runDynamic
    unfold flushTasks
    split
    · exact nofun
    · rename_i batch hsort
      rw [← isCollectiveBatch_perm (sortTasks_perm hsort)] at hbatch
      dsimp only
      rw [hbatch]
      unfold execute
      split
      · exact fun hx => by cases hx
      · exact nofun
      · exact nofun
  exact hflush _ (hp (fun _ => false) fun _ => true)

end Paths

/-! ## 3. The threshold -/

/-- **`config.n_channels` decides like the number of channels**: it is positive; or zero, and the batch has
    no slices or more than the default number of channels; or negative, and the batch has no more slices
    than that, or more than the `size_t` that a negative number is read as. -/
def Keeps (nChannels : Int) (planned : Nat) : Prop :=
  0 < nChannels ∨ (nChannels = 0 ∧ (planned = 0 ∨ kDefaultChannelCount < planned)) ∨
    (nChannels < 0 ∧ (planned ≤ kDefaultChannelCount ∨ 2 ^ 64 + nChannels < planned))

instance (nChannels : Int) (planned : Nat) : Decidable (Keeps nChannels planned) :=
  inferInstanceAs (Decidable (_ ∨ _ ∨ _))

/-- The batches of two ranks hold the same collectives, but for their buffers. -/
def SameWork (tasks tasks' : List CollTask) : Prop :=
  (tasks.map fun t => (t.func, t.count, t.dtype)).Perm (tasks'.map fun t => (t.func, t.count, t.dtype))

section Threshold

variable {H : Type} [DecidableEq H] {hosts : Nat → H} {worldSize rank : Nat} {nChannels : Int}
  {options : InitOptions} {comm : CommunicatorState} {tasks : List CollTask}

/-- What `Init` makes of the configuration. -/
theorem init_nChannels (hosts : Nat → H) (worldSize rank : Nat) (nChannels : Int) (options : InitOptions) :
    (Communicator.init hosts worldSize rank nChannels options).nChannels = nChannels := by
  unfold Communicator.init
  dsimp only
  split <;> rfl

/-- The two comparisons of a flush agree. -/
theorem keeps_iff (hcomm : SameShape (Communicator.init hosts worldSize rank nChannels options) comm)
    (hlow : -2 ^ 31 ≤ nChannels) (hhigh : nChannels < 2 ^ 31) (planned : Nat) :
    (planned > comm.configChannels ↔ planned > comm.getNChannels) ↔ Keeps nChannels planned := by
  have hcount : comm.getNChannels = channelCount nChannels :=
    hcomm.getNChannels.trans (init_ready hosts worldSize rank nChannels options).2
  have hconfig : comm.configChannels = (nChannels % 2 ^ 64).toNat := by
    rw [configChannels, hcomm.nChannels, init_nChannels]
  rw [hcount, hconfig, channelCount, Keeps]
  unfold kDefaultChannelCount
  by_cases hpos : 0 < nChannels
  · rw [if_pos hpos, Int.emod_eq_of_lt (by omega) (by omega)]
    exact ⟨fun _ => Or.inl hpos, fun _ => Iff.rfl⟩
  · rw [if_neg hpos]
    by_cases hzero : nChannels = 0
    · subst hzero
      change (planned > 0 ↔ planned > 4) ↔ _
      omega
    · have hneg : nChannels % 2 ^ 64 = 2 ^ 64 + nChannels := by
        rw [← Int.add_mul_emod_self_left nChannels (2 ^ 64) 1, Int.mul_one, Int.add_comm,
          Int.emod_eq_of_lt (by omega) (by omega)]
      rw [hneg]
      omega

/-- The slices of a batch depend on its work and on the number of channels. -/
theorem plannedSlices_congr {comm' : CommunicatorState} {tasks' : List CollTask}
    (hworld : comm.worldSize = comm'.worldSize) (hcount : comm.getNChannels = comm'.getNChannels)
    (h : SameWork tasks tasks') : comm.plannedSlices tasks = comm'.plannedSlices tasks' := by
  have hsum := (h.map fun x : CollFunc × Nat × DataType =>
    nUsed comm.worldSize (max comm.getNChannels 1) { func := x.1, count := x.2.1, dtype := x.2.2 }).sum_eq
  rw [List.map_map, List.map_map] at hsum
  unfold plannedSlices
  rw [← hworld, ← hcount]
  exact hsum

/-- **A flush of collectives runs the dynamic executor exactly if it has more slices than there are
    channels**, if and only if `config.n_channels` decides so; and then two ranks with the same number of
    channels and the same work take the same path. -/
theorem flush_routes (hcomm : SameShape (Communicator.init hosts worldSize rank nChannels options) comm)
    (hr : rank < worldSize) (hlow : -2 ^ 31 ≤ nChannels) (hhigh : nChannels < 2 ^ 31)
    (hd : comm.dynamicAvailable = true) (hbatch : isCollectiveBatch tasks = true)
    (hvalid : ∀ t ∈ tasks, validateCollectiveTask t comm.rank comm.worldSize = true)
    (net : Int → RoundOutcome) :
    ((comm.plannedSlices tasks > comm.getNChannels → comm.RunsDynamic tasks net) ∧
        (comm.plannedSlices tasks ≤ comm.getNChannels → comm.RunsStatic tasks net) ↔
      Keeps nChannels (comm.plannedSlices tasks)) ∧
    ∀ {hosts' : Nat → H} {rank' : Nat} {nChannels' : Int} {options' : InitOptions}
      {comm' : CommunicatorState} {tasks' : List CollTask} (net' : Int → RoundOutcome),
      SameShape (Communicator.init hosts' worldSize rank' nChannels' options') comm' → rank' < worldSize →
      -2 ^ 31 ≤ nChannels' → nChannels' < 2 ^ 31 → comm'.dynamicAvailable = true →
      isCollectiveBatch tasks' = true →
      (∀ t ∈ tasks', validateCollectiveTask t comm'.rank comm'.worldSize = true) →
      comm.getNChannels = comm'.getNChannels → SameWork tasks tasks' →
      Keeps nChannels (comm.plannedSlices tasks) → Keeps nChannels' (comm'.plannedSlices tasks') →
        (comm.RunsDynamic tasks net ↔ comm'.RunsDynamic tasks' net') ∧
          (comm.RunsStatic tasks net ↔ comm'.RunsStatic tasks' net') := by
  have hrun : ∀ {hosts : Nat → H} {rank : Nat} {nChannels : Int} {options : InitOptions}
      {comm : CommunicatorState} {tasks : List CollTask} (net : Int → RoundOutcome),
      SameShape (Communicator.init hosts worldSize rank nChannels options) comm → rank < worldSize →
      comm.dynamicAvailable = true → isCollectiveBatch tasks = true →
      (∀ t ∈ tasks, validateCollectiveTask t comm.rank comm.worldSize = true) →
      (comm.RunsDynamic tasks net ↔ comm.plannedSlices tasks > comm.configChannels) ∧
        (comm.RunsStatic tasks net ↔ ¬ comm.plannedSlices tasks > comm.configChannels) := by
    intro hosts rank nChannels options comm tasks net hcomm hr hd hbatch hvalid
    have hready := hcomm.ready (init_ready hosts worldSize rank nChannels options).1
    have hrank : comm.rank = rank := hcomm.rank.trans init_sizes.1
    have hworld : comm.worldSize = worldSize := hcomm.worldSize.trans init_sizes.2
    have h := flush_collectives net hready hd (by rw [hrank, hworld]; omega) hbatch hvalid
    split at h
    · rename_i hmore
      exact ⟨⟨fun _ => hmore, fun _ => h⟩, ⟨fun hs => (not_both h hs).elim, fun hx => absurd hmore hx⟩⟩
    · rename_i hfew
      exact ⟨⟨fun hx => (not_both hx h).elim, fun hx => absurd hx hfew⟩, ⟨fun _ => hfew, fun _ => h⟩⟩
  obtain ⟨hdyn, hstat⟩ := hrun net hcomm hr hd hbatch hvalid
  refine ⟨?_, ?_⟩
  · rw [← keeps_iff hcomm hlow hhigh]
    constructor
    · rintro ⟨h1, h2⟩
      refine ⟨fun hmore => ?_, fun hmore => hdyn.mp (h1 hmore)⟩
      by_contra hfew
      exact hstat.mp (h2 (by omega)) hmore
    · intro h
      exact ⟨fun hmore => hdyn.mpr (h.mpr hmore), fun hfew => hstat.mpr fun hx => by
        have := h.mp hx
        omega⟩
  · intro hosts' rank' nChannels' options' comm' tasks' net' hcomm' hr' hlow' hhigh' hd' hbatch' hvalid'
      hcount hwork hkeep hkeep'
    obtain ⟨hdyn', hstat'⟩ := hrun net' hcomm' hr' hd' hbatch' hvalid'
    have hworld : comm.worldSize = comm'.worldSize :=
      (hcomm.worldSize.trans init_sizes.2).trans (hcomm'.worldSize.trans init_sizes.2).symm
    have hplanned := plannedSlices_congr hworld hcount hwork
    have h1 := (keeps_iff hcomm hlow hhigh _).mpr hkeep
    have h2 := (keeps_iff hcomm' hlow' hhigh' _).mpr hkeep'
    rw [← hcount, ← hplanned] at h2
    rw [hdyn, hdyn', hstat, hstat', ← hplanned, h1, h2]
    exact ⟨Iff.rfl, Iff.rfl⟩

end Threshold

theorem flush_routes_two :
    (twoChannels.plannedSlices [smallReduce] > twoChannels.getNChannels →
      twoChannels.RunsDynamic [smallReduce] fun _ => ⟨[], [], true⟩) ∧
    (twoChannels.plannedSlices [smallReduce] ≤ twoChannels.getNChannels →
      twoChannels.RunsStatic [smallReduce] fun _ => ⟨[], [], true⟩) :=
  (flush_routes (SameShape.refl twoChannels) (by decide) (by decide) (by decide) rfl (by decide)
    (by decide) fun _ => ⟨[], [], true⟩).1.mpr (Or.inl (by decide))

/-- Rank 0 of two ranks whose configuration leaves the number of channels to `Init`. -/
def defaultChannels : CommunicatorState := Communicator.init (fun r => r) 2 0 0 ⟨true, false, true⟩

/-- Rank 1, whose configuration names the same number. -/
def fourChannels : CommunicatorState := Communicator.init (fun r => r) 2 1 4 ⟨true, false, true⟩

/-- **With `config.n_channels` zero a single slice goes to the dynamic executor**, and to the static one at
    the rank whose configuration says four. -/
theorem defaultChannels_dynamic : defaultChannels.getNChannels = fourChannels.getNChannels ∧
    fourChannels.RunsStatic [smallReduce] (fun _ => ⟨[], [], true⟩) ∧
    ¬ ((defaultChannels.plannedSlices [smallReduce] > defaultChannels.getNChannels →
        defaultChannels.RunsDynamic [smallReduce] fun _ => ⟨[], [], true⟩) ∧
      (defaultChannels.plannedSlices [smallReduce] ≤ defaultChannels.getNChannels →
        defaultChannels.RunsStatic [smallReduce] fun _ => ⟨[], [], true⟩)) := by
  have hcoll : isCollectiveBatch [smallReduce] = true := by decide
  have hfour := flush_collectives (fun _ => ⟨[], [], true⟩)
    (init_ready (fun r => r) 2 1 4 ⟨true, false, true⟩).1 rfl (by decide) hcoll (by decide)
  rw [if_neg (by decide)] at hfour
  have hdefault := flush_collectives (fun _ => ⟨[], [], true⟩)
    (init_ready (fun r => r) 2 0 0 ⟨true, false, true⟩).1 rfl (by decide) hcoll (by decide)
  rw [if_pos (by decide)] at hdefault
  exact ⟨by decide, hfour, fun h => not_both hdefault (h.2 (by decide))⟩

/-! ## 4. All ranks -/

/-- The collectives of a batch. -/
def collectives (tasks : List CollTask) : List CollTask := tasks.filter fun task => !isP2p task.func

/-- The counts and types of the Sends of a batch to a rank, or of its Recvs from one, in order. -/
def transfers (func : CollFunc) (peer : Nat) (tasks : List CollTask) : List (Nat × DataType) :=
  (tasks.filter fun task => task.func = func ∧ task.peer = (peer : Int)).map fun task =>
    (task.count, task.dtype)

/-- **Well matched batches**: the Sends from one rank to another are the Recvs there from it. -/
def Matched (worldSize : Nat) (tasks : Nat → List CollTask) : Prop :=
  ∀ a < worldSize, ∀ b < worldSize, transfers .send b (tasks a) = transfers .recv a (tasks b)

instance (worldSize : Nat) (tasks : Nat → List CollTask) : Decidable (Matched worldSize tasks) :=
  inferInstanceAs (Decidable (∀ a < worldSize, ∀ b < worldSize, _))

section Ranks

variable {H : Type} [DecidableEq H] {hosts : Nat → H} {worldSize : Nat} {nChannels : Int}
  {options : InitOptions} {comm : Nat → CommunicatorState} {tasks : Nat → List CollTask}

theorem init_dynamic (hosts : Nat → H) {worldSize : Nat} (hN : 2 ≤ worldSize) (rank : Nat) (nChannels : Int)
    (options : InitOptions) :
    (Communicator.init hosts worldSize rank nChannels options).dynamicAvailable = options.dynamicEnabled := by
  unfold Communicator.init
  dsimp only
  rw [if_neg (by omega)]

/-- The collectives of a batch that is sorted pass their validation. -/
theorem valid_of_sortable {rank worldSize : Int} {tasks : List CollTask} (hcoll : isCollectiveBatch tasks = true)
    (h : ∀ t ∈ tasks, sortable rank worldSize t = true) :
    ∀ t ∈ tasks, validateCollectiveTask t rank worldSize = true := by
  intro t ht
  have hno := List.all_eq_true.mp hcoll t ht
  rw [Bool.not_eq_true'] at hno
  have hs := h t ht
  rw [sortable, hno] at hs
  exact hs

/-- **The path of one rank**: its own batch decides. -/
theorem rank_path {r : Nat} (hN : 2 ≤ worldSize) (hr : r < worldSize)
    (hcomm : SameShape (Communicator.init hosts worldSize r nChannels options) (comm r))
    (hvalid : ∀ t ∈ tasks r, sortable (comm r).rank (comm r).worldSize t = true)
    (net : Int → RoundOutcome) : (comm r).RunsDynamic (tasks r) net ↔ options.dynamicEnabled = true ∧
      isCollectiveBatch (tasks r) = true ∧ (comm r).plannedSlices (tasks r) > (comm r).configChannels := by
  have hd : (comm r).dynamicAvailable = options.dynamicEnabled :=
    hcomm.dynamic.trans (init_dynamic hosts hN r nChannels options)
  by_cases hboth : ((comm r).dynamicAvailable && isCollectiveBatch (tasks r)) = true
  · rw [Bool.and_eq_true] at hboth
    obtain ⟨hdyn, hcoll⟩ := hboth
    have hrank : (comm r).rank = r := hcomm.rank.trans init_sizes.1
    have hworld : (comm r).worldSize = worldSize := hcomm.worldSize.trans init_sizes.2
    have h := flush_collectives net (hcomm.ready (init_ready hosts worldSize r nChannels options).1) hdyn
      (by rw [hrank, hworld]; omega) hcoll (valid_of_sortable hcoll hvalid)
    split at h
    · rename_i hmore
      exact ⟨fun _ => ⟨hd.symm.trans hdyn, hcoll, hmore⟩, fun _ => h⟩
    · rename_i hfew
      exact ⟨fun hx => (not_both hx h).elim, fun hx => absurd hx.2.2 hfew⟩
  · have hboth : ((comm r).dynamicAvailable && isCollectiveBatch (tasks r)) = false := by simpa using hboth
    refine ⟨fun hx => absurd hx (flush_mixed hboth), fun hx => ?_⟩
    rw [hd, hx.1, hx.2.1] at hboth
    cases hboth

/-- The static plan of a batch is made. It can fail where a connection for a Send or a Recv does. -/
def Plans (comm : CommunicatorState) (tasks : List CollTask) (net : Int → RoundOutcome) : Prop :=
  ∃ batch p, sortTasks tasks comm.rank comm.worldSize = some batch ∧ (plan comm batch false net).2 = .ok p

/-- **A rank that plans takes the static path if it does not take the other one.** -/
theorem static_path {r : Nat} (hr : r < worldSize)
    (hcomm : SameShape (Communicator.init hosts worldSize r nChannels options) (comm r))
    (hvalid : ∀ t ∈ tasks r, sortable (comm r).rank (comm r).worldSize t = true)
    {net : Int → RoundOutcome} (hplans : (comm r).Plans (tasks r) net) :
    (comm r).RunsStatic (tasks r) net ↔ ¬ (comm r).RunsDynamic (tasks r) net := by
  refine ⟨fun hs hd => not_both hd hs, fun hd => ?_⟩
  by_cases hboth : ((comm r).dynamicAvailable && isCollectiveBatch (tasks r)) = true
  · rw [Bool.and_eq_true] at hboth
    obtain ⟨hdyn, hcoll⟩ := hboth
    have hrank : (comm r).rank = r := hcomm.rank.trans init_sizes.1
    have hworld : (comm r).worldSize = worldSize := hcomm.worldSize.trans init_sizes.2
    have h := flush_collectives net (hcomm.ready (init_ready hosts worldSize r nChannels options).1) hdyn
      (by rw [hrank, hworld]; omega) hcoll (valid_of_sortable hcoll hvalid)
    split at h
    · exact absurd h hd
    · exact h
  · have hboth : ((comm r).dynamicAvailable && isCollectiveBatch (tasks r)) = false := by simpa using hboth
    obtain ⟨batch, p, hsort, hp⟩ := hplans
    refine ⟨p, fun run runDynamic => ?_⟩
    unfold flushTasks
    rw [hsort]
    dsimp only
    rw [isCollectiveBatch_perm (sortTasks_perm hsort), hboth]
    generalize plan (comm r) batch false net = planned at hp
    obtain ⟨comm', result⟩ := planned
    obtain rfl : result = .ok p := hp
    rfl

/-- **All ranks take the same path if and only if** the dynamic executor is off, the collectives have no
    more slices than `config.n_channels`, no rank has a Send or a Recv, or all have one. A rank that does
    not take the dynamic path takes the static one, if its plan is made. -/
theorem same_path (hN : 2 ≤ worldSize)
    (hcomm : ∀ r < worldSize, SameShape (Communicator.init hosts worldSize r nChannels options) (comm r))
    (hwork : ∀ r < worldSize, SameWork (collectives (tasks r)) (collectives (tasks 0)))
    (hvalid : ∀ r < worldSize, ∀ t ∈ tasks r, sortable (comm r).rank (comm r).worldSize t = true)
    (net : Nat → Int → RoundOutcome) :
    (((∀ r < worldSize, (comm r).RunsDynamic (tasks r) (net r)) ∨
        ∀ r < worldSize, ¬ (comm r).RunsDynamic (tasks r) (net r)) ↔
      options.dynamicEnabled = false ∨
      (comm 0).plannedSlices (collectives (tasks 0)) ≤ (comm 0).configChannels ∨
      (∀ r < worldSize, isCollectiveBatch (tasks r) = true) ∨
      ∀ r < worldSize, isCollectiveBatch (tasks r) = false) ∧
    ∀ r < worldSize, (comm r).Plans (tasks r) (net r) →
      ((comm r).RunsStatic (tasks r) (net r) ↔ ¬ (comm r).RunsDynamic (tasks r) (net r)) := by
  refine ⟨?_, fun r hr hplans => static_path hr (hcomm r hr) (hvalid r hr) hplans⟩
  have h0 : 0 < worldSize := by omega
  -- a rank without Sends and Recvs plans the common collectives
  have hpath : ∀ r < worldSize, (comm r).RunsDynamic (tasks r) (net r) ↔
      options.dynamicEnabled = true ∧ isCollectiveBatch (tasks r) = true ∧
        (comm 0).plannedSlices (collectives (tasks 0)) > (comm 0).configChannels := by
    intro r hr
    rw [rank_path hN hr (hcomm r hr) (hvalid r hr) (net r)]
    refine and_congr_right fun _ => and_congr_right fun hcoll => ?_
    have hown : collectives (tasks r) = tasks r := List.filter_eq_self.mpr (List.all_eq_true.mp hcoll)
    have hworld : (comm r).worldSize = (comm 0).worldSize :=
      ((hcomm r hr).worldSize.trans init_sizes.2).trans ((hcomm 0 h0).worldSize.trans init_sizes.2).symm
    have hcount : (comm r).getNChannels = (comm 0).getNChannels :=
      ((hcomm r hr).getNChannels.trans (init_ready ..).2).trans
        ((hcomm 0 h0).getNChannels.trans (init_ready ..).2).symm
    have hplanned := plannedSlices_congr hworld hcount (hwork r hr)
    rw [hown] at hplanned
    have hconfig : (comm r).configChannels = (comm 0).configChannels := by
      unfold configChannels
      rw [(hcomm r hr).nChannels, (hcomm 0 h0).nChannels, init_nChannels, init_nChannels]
    rw [hplanned, hconfig]
  constructor
  · rintro (hall | hnone)
    · exact Or.inr (Or.inr (Or.inl fun r hr => ((hpath r hr).mp (hall r hr)).2.1))
    · by_contra hno
      push Not at hno
      obtain ⟨hd, hmore, -, r, hr, hcoll⟩ := hno
      refine hnone r hr ((hpath r hr).mpr ⟨by simpa using hd, by simpa using hcoll, hmore⟩)
  · intro h
    by_cases hd : options.dynamicEnabled = true ∧
        (comm 0).plannedSlices (collectives (tasks 0)) > (comm 0).configChannels
    · rcases h with h | h | h | h
      · rw [hd.1] at h
        cases h
      · omega
      · exact Or.inl fun r hr => (hpath r hr).mpr ⟨hd.1, h r hr, hd.2⟩
      · refine Or.inr fun r hr hx => ?_
        have hcoll := ((hpath r hr).mp hx).2.1
        rw [h r hr] at hcoll
        cases hcoll
    · exact Or.inr fun r hr hx => hd ⟨((hpath r hr).mp hx).1, ((hpath r hr).mp hx).2.2⟩

end Ranks

/-- Three ranks with two channels. -/
def threeRanks (r : Nat) : CommunicatorState := Communicator.init (fun r => r) 3 r 2 ⟨true, false, true⟩

/-- Three small AllReduces on every rank, and a message from rank 0 to rank 1. -/
def mixedTasks (r : Nat) : List CollTask :=
  [smallReduce, smallReduce, smallReduce] ++
    if r = 0 then [{ func := .send, sendBuf := 8, count := 1, peer := 1 }]
    else if r = 1 then [{ func := .recv, recvBuf := 8, count := 1, peer := 0 }] else []

theorem same_path_three : (∀ r < 3, (threeRanks r).RunsDynamic [smallReduce] fun _ => ⟨[], [], true⟩) ∨
    ∀ r < 3, ¬ (threeRanks r).RunsDynamic [smallReduce] fun _ => ⟨[], [], true⟩ := by
  have hcomm : ∀ r < 3, SameShape (Communicator.init (fun r => r) 3 r 2 ⟨true, false, true⟩) (threeRanks r) :=
    fun r _ => SameShape.refl _
  have hwork : ∀ r : Nat, r < 3 → SameWork (collectives [smallReduce]) (collectives [smallReduce]) :=
    fun _ _ => List.Perm.refl _
  have hvalid : ∀ r < 3, ∀ t ∈ [smallReduce],
      sortable (threeRanks r).rank (threeRanks r).worldSize t = true := by decide
  exact (same_path (by decide) hcomm hwork hvalid fun _ _ => ⟨[], [], true⟩).1.mpr
    (Or.inr (Or.inr (Or.inl (by decide))))

/-- **A message between two ranks sends the third one another way**: it alone runs the dynamic executor. -/
theorem mixed_paths : Matched 3 mixedTasks ∧ collectives (mixedTasks 0) = collectives (mixedTasks 1) ∧
    collectives (mixedTasks 1) = collectives (mixedTasks 2) ∧
    ¬ ((∀ r < 3, (threeRanks r).RunsDynamic (mixedTasks r) fun _ => ⟨[], [], true⟩) ∨
      ∀ r < 3, ¬ (threeRanks r).RunsDynamic (mixedTasks r) fun _ => ⟨[], [], true⟩) := by
  have hthird : (threeRanks 2).RunsDynamic (mixedTasks 2) fun _ => ⟨[], [], true⟩ := by
    have hcoll : isCollectiveBatch (mixedTasks 2) = true := by decide
    have h := flush_collectives (fun _ => ⟨[], [], true⟩)
      (init_ready (fun r => r) 3 2 2 ⟨true, false, true⟩).1 rfl (by decide) hcoll (by decide)
    rw [if_pos (by decide)] at h
    exact h
  have hfirst : ¬ (threeRanks 0).RunsDynamic (mixedTasks 0) fun _ => ⟨[], [], true⟩ :=
    flush_mixed (by decide)
  refine ⟨by decide, by decide, by decide, ?_⟩
  rintro (h | h)
  · exact hfirst (h 0 (by decide))
  · exact h 2 (by decide) hthird

end CommunicatorState

end OriginCCL
