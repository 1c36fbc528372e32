/-
  File:      OriginCCL/Plan/Lookups.lean
  Subject:   THE CHANNELS THE PLANNER LOOKS UP.

  * `Audited` -- a computation of the planner with the channel ids it uses, in `GetChannel` and in
    `plan.channels`.
  * `Planner.Audited.plan` -- `Plan` and all it calls; without the ids it is `Planner.plan`
    (`plan_erase`).
  * `lookups_in_range` -- **the ids exist, unless a batch with a Send or a Recv meets a single channel**.
-/
import OriginCCL.Plan.Roles

namespace OriginCCL

open Base

/-! ## 1. Computations with their lookups -/

/-- A computation of the planner: the channel ids it has used, and how it ends. -/
structure Audited (α : Type) where
  ids : List Nat
  result : Except PlanFault α

namespace Audited

variable {α β : Type} {n : Nat}

/-- Two computations in sequence; a fault ends the sequence. -/
def bind (x : Audited α) (f : α → Audited β) : Audited β :=
  match x.result with
  | .ok a => ⟨x.ids ++ (f a).ids, (f a).result⟩
  | .error e => ⟨x.ids, .error e⟩

instance : Monad Audited where
  pure a := ⟨[], .ok a⟩
  bind := bind

/-- **All ids exist**, and no lookup has thrown. -/
def InRange (n : Nat) (x : Audited α) : Prop := (∀ id ∈ x.ids, id < n) ∧ x.result ≠ .error .outOfRange

theorem inRange_pure (a : α) : (pure a : Audited α).InRange n :=
  ⟨fun _ h => absurd h List.not_mem_nil, fun h => by cases h⟩

theorem inRange_bind {x : Audited α} {f : α → Audited β} (hx : x.InRange n)
    (hf : ∀ a, x.result = .ok a → (f a).InRange n) : (x >>= f).InRange n := by
  change (x.bind f).InRange n
  unfold bind
  split
  · rename_i a ha
    obtain ⟨h1, h2⟩ := hf a ha
    refine ⟨fun id hid => ?_, h2⟩
    rcases List.mem_append.mp hid with hid | hid
    · exact hx.1 id hid
    · exact h1 id hid
  · rename_i e he
    refine ⟨hx.1, fun h => hx.2 ?_⟩
    rw [he]
    exact congrArg Except.error (Except.error.inj h)

theorem inRange_foldlM {f : β → α → Audited β} {xs : List α} (h : ∀ x ∈ xs, ∀ b, (f b x).InRange n) (b : β) :
    (xs.foldlM f b).InRange n := by
  induction xs generalizing b with
  | nil => exact inRange_pure b
  | cons x xs ih =>
    rw [List.foldlM_cons]
    exact inRange_bind (h x List.mem_cons_self b) fun b _ => ih (fun y hy => h y (List.mem_cons_of_mem _ hy)) b

theorem result_bind (x : Audited α) (f : α → Audited β) :
    (x >>= f).result = x.result >>= fun a => (f a).result := by
  change (x.bind f).result = _
  unfold bind
  cases x.result <;> rfl

theorem result_foldlM {f : β → α → Audited β} {g : β → α → Except PlanFault β}
    (h : ∀ b x, (f b x).result = g b x) (xs : List α) (b : β) :
    (xs.foldlM f b).result = xs.foldlM g b := by
  induction xs generalizing b with
  | nil => rfl
  | cons x xs ih =>
    rw [List.foldlM_cons, List.foldlM_cons, result_bind, h]
    exact congrArg _ (funext ih)

end Audited

namespace Planner.Audited

/-! ## 2. The planner with its lookups -/

/-- `comm.GetChannel(id)` -/
def getChannel (comm : CommunicatorState) (id : Nat) : Audited Channel := ⟨[id], comm.getChannel id⟩

/-- `plan.channels[id].tasks.push_back(task)` -/
def push (plan : CollPlan) (id : Nat) (task : PlanTask) : Audited CollPlan := ⟨[id], .ok (plan.push id task)⟩

def emitSlice (comm : CommunicatorState) (task : CollTask) (bind : Bool) (plan : CollPlan) (c : Nat) :
    Audited CollPlan := do
  let channelId := c % max comm.getNChannels 1
  let channel ← getChannel comm channelId
  if bind then push plan channelId (bindTask channel channel.id (slice comm task c))
  else pure { plan with slices := plan.slices ++ [slice comm task c] }

def emitCollectiveSlices (comm : CommunicatorState) (task : CollTask) (plan : CollPlan) (bind : Bool) :
    Audited CollPlan :=
  (List.range (nUsed comm.worldSize (max comm.getNChannels 1) task)).foldlM
    (emitSlice comm task bind) plan

/-- The lookups of `ConnectP2p` and `AcceptP2pOne`, one for every peer they may be called for. -/
def connectIds (sendPeers recvPeers : List Int) : List Nat :=
  List.replicate sendPeers.length kP2pSendChannel ++ List.replicate recvPeers.length kP2pRecvChannel

def prepareRound (comm : CommunicatorState) (sends recvs : List CollTask) (outcome : RoundOutcome) :
    CommunicatorState × Audited Unit :=
  match comm.getChannel kP2pSendChannel with
  | .error e => (comm, ⟨[kP2pSendChannel], .error e⟩)
  | .ok sendChannel =>
    match comm.getChannel kP2pRecvChannel with
    | .error e => (comm, ⟨[kP2pSendChannel, kP2pRecvChannel], .error e⟩)
    | .ok recvChannel =>
      let sendPeers := unconnected sendChannel.sendP2p (roundPeers sends)
      let recvPeers := unconnected recvChannel.recvP2p (roundPeers recvs)
      if sendPeers = [] ∧ recvPeers = [] then (comm, ⟨[kP2pSendChannel, kP2pRecvChannel], .ok ()⟩)
      else (connectRound comm outcome,
        ⟨[kP2pSendChannel, kP2pRecvChannel] ++ connectIds sendPeers recvPeers,
          if outcome.ok then .ok () else .error .rejected⟩)

def appendP2p (comm : CommunicatorState) (id : Nat) (plan : CollPlan) (task : CollTask) :
    Audited CollPlan := do
  let channel ← getChannel comm id
  push plan id (TopologyP2p.fillTransports channel
    { func := task.func, sendBuf := task.sendBuf, recvBuf := task.recvBuf, elemCount := task.count
      dtype := task.dtype, peer := task.peer, channelId := id, rank := comm.rank
      worldSize := comm.worldSize, topology := some .p2p })

def planP2pRound (comm : CommunicatorState) (tasks : List CollTask) (round : Int) (plan : CollPlan)
    (outcome : RoundOutcome) : CommunicatorState × Audited CollPlan :=
  let sends := roundTasks comm tasks .send round
  let recvs := roundTasks comm tasks .recv round
  if sends = [] ∧ recvs = [] then (comm, pure plan)
  else
    let prepared := prepareRound comm sends recvs outcome
    (prepared.1, do
      prepared.2
      let plan ← sends.foldlM (appendP2p prepared.1 kP2pSendChannel) plan
      recvs.foldlM (appendP2p prepared.1 kP2pRecvChannel) plan)

def planRounds (tasks : List CollTask) (net : Int → RoundOutcome) :
    List Int → CommunicatorState → CollPlan → CommunicatorState × Audited CollPlan
  | [], comm, plan => (comm, pure plan)
  | round :: rounds, comm, plan =>
    let planned := planP2pRound comm tasks round plan (net round)
    match planned.2.result with
    | .ok plan =>
      let rest := planRounds tasks net rounds planned.1 plan
      (rest.1, ⟨planned.2.ids ++ rest.2.ids, rest.2.result⟩)
    | .error e => (planned.1, ⟨planned.2.ids, .error e⟩)

/-- `Plan` with the channel ids it uses. -/
def plan (comm : CommunicatorState) (tasks : List CollTask) (dynamic : Bool)
    (net : Int → RoundOutcome) : CommunicatorState × Audited CollPlan :=
  if tasks.all (plannable comm) then
    let empty := CollPlan.ofChannels comm.getNChannels
    if dynamic then
      (comm, tasks.foldlM (fun plan task => emitCollectiveSlices comm task plan false) empty)
    else
      let collectives := (tasks.filter fun task => !isP2p task.func).foldlM
        (fun plan task => emitCollectiveSlices comm task plan true) empty
      match collectives.result with
      | .ok plan =>
        let rest := planRounds tasks net
          ((List.range (comm.worldSize.toNat - 1)).map fun (i : Nat) => (i : Int) + 1) comm plan
        (rest.1, ⟨collectives.ids ++ rest.2.ids, rest.2.result⟩)
      | .error e => (comm, ⟨collectives.ids, .error e⟩)
  else (comm, ⟨[], .error .rejected⟩)

/-! ## 3. The planner without its lookups -/

section Erase

variable {comm : CommunicatorState}

theorem emitSlice_erase (comm : CommunicatorState) (task : CollTask) (bind : Bool) (plan : CollPlan)
    (c : Nat) : (emitSlice comm task bind plan c).result = Planner.emitSlice comm task bind plan c := by
  unfold emitSlice Planner.emitSlice
  dsimp only
  rw [Audited.result_bind]
  refine congrArg _ (funext fun channel => ?_)
  split <;> rfl

theorem emitCollectiveSlices_erase (comm : CommunicatorState) (task : CollTask) (plan : CollPlan)
    (bind : Bool) : (emitCollectiveSlices comm task plan bind).result =
      Planner.emitCollectiveSlices comm task plan bind :=
  Audited.result_foldlM (emitSlice_erase comm task bind) _ _

theorem prepareRound_erase (comm : CommunicatorState) (sends recvs : List CollTask)
    (outcome : RoundOutcome) :
    (prepareRound comm sends recvs outcome).1 = (Planner.prepareRound comm sends recvs outcome).1 ∧
      (prepareRound comm sends recvs outcome).2.result =
        (Planner.prepareRound comm sends recvs outcome).2 := by
  have herror : ∀ id e, comm.getChannel id = .error e → e = .outOfRange := by
    intro id e he
    unfold CommunicatorState.getChannel at he
    split at he
    · cases he
    · exact (Except.error.inj he).symm
  unfold prepareRound Planner.prepareRound
  cases hs : comm.getChannel kP2pSendChannel with
  | error e =>
    rw [herror _ e hs]
    exact ⟨rfl, rfl⟩
  | ok sendChannel =>
    cases hr : comm.getChannel kP2pRecvChannel with
    | error e =>
      rw [herror _ e hr]
      exact ⟨rfl, rfl⟩
    | ok recvChannel =>
      dsimp only
      split <;> exact ⟨rfl, rfl⟩

theorem appendP2p_erase (comm : CommunicatorState) (id : Nat) (plan : CollPlan) (task : CollTask) :
    (appendP2p comm id plan task).result = Planner.appendP2p comm id plan task := by
  unfold appendP2p Planner.appendP2p
  rw [Audited.result_bind]
  rfl

theorem planP2pRound_erase (comm : CommunicatorState) (tasks : List CollTask) (round : Int)
    (plan : CollPlan) (outcome : RoundOutcome) :
    (planP2pRound comm tasks round plan outcome).1 =
        (Planner.planP2pRound comm tasks round plan outcome).1 ∧
      (planP2pRound comm tasks round plan outcome).2.result =
        (Planner.planP2pRound comm tasks round plan outcome).2 := by
  obtain ⟨h1, h2⟩ := prepareRound_erase comm (roundTasks comm tasks .send round)
    (roundTasks comm tasks .recv round) outcome
  unfold planP2pRound Planner.planP2pRound
  dsimp only
  split
  · exact ⟨rfl, rfl⟩
  · cases hp : Planner.prepareRound comm (roundTasks comm tasks .send round)
      (roundTasks comm tasks .recv round) outcome with
    | mk comm' r =>
      rw [hp] at h1 h2
      dsimp only
      rw [h1, Audited.result_bind, h2]
      cases r with
      | error e => exact ⟨rfl, rfl⟩
      | ok u =>
        refine ⟨rfl, ?_⟩
        change (_ >>= _ : Audited CollPlan).result = _
        rw [Audited.result_bind, Audited.result_foldlM (appendP2p_erase comm' kP2pSendChannel)]
        exact congrArg _ (funext fun plan => Audited.result_foldlM (appendP2p_erase comm' kP2pRecvChannel) _ plan)

theorem planRounds_erase (tasks : List CollTask) (net : Int → RoundOutcome) (rounds : List Int)
    (comm : CommunicatorState) (plan : CollPlan) :
    (planRounds tasks net rounds comm plan).1 = (Planner.planRounds tasks net rounds comm plan).1 ∧
      (planRounds tasks net rounds comm plan).2.result =
        (Planner.planRounds tasks net rounds comm plan).2 := by
  induction rounds generalizing comm plan with
  | nil => exact ⟨rfl, rfl⟩
  | cons round rounds ih =>
    obtain ⟨h1, h2⟩ := planP2pRound_erase comm tasks round plan (net round)
    rw [planRounds, Planner.planRounds]
    cases hp : Planner.planP2pRound comm tasks round plan (net round) with
    | mk comm' r =>
      rw [hp] at h1 h2
      dsimp only at h1 h2 ⊢
      rw [h1, h2]
      cases r with
      | error e => exact ⟨rfl, rfl⟩
      | ok plan' => exact ih comm' plan'

/-- **Without the ids this is the planner.** -/
theorem plan_erase (comm : CommunicatorState) (tasks : List CollTask) (dynamic : Bool)
    (net : Int → RoundOutcome) :
    (plan comm tasks dynamic net).1 = (Planner.plan comm tasks dynamic net).1 ∧
      (plan comm tasks dynamic net).2.result = (Planner.plan comm tasks dynamic net).2 := by
  have hfold : ∀ bind (ts : List CollTask) (p : CollPlan),
      (ts.foldlM (fun plan task => emitCollectiveSlices comm task plan bind) p).result =
        ts.foldlM (fun plan task => Planner.emitCollectiveSlices comm task plan bind) p := fun bind ts p =>
    Audited.result_foldlM (fun plan task => emitCollectiveSlices_erase comm task plan bind) ts p
  unfold plan Planner.plan
  split
  · dsimp only
    split
    · exact ⟨rfl, hfold false tasks _⟩
    · have h : ((tasks.filter fun task => !isP2p task.func).foldlM
          (fun plan task => emitCollectiveSlices comm task plan true)
          (CollPlan.ofChannels comm.getNChannels)).result =
          (tasks.filter fun task => !isP2p task.func).foldlM
            (fun plan task => planCollective comm task plan) (CollPlan.ofChannels comm.getNChannels) :=
        hfold true _ _
      rw [h]
      cases (tasks.filter fun task => !isP2p task.func).foldlM
          (fun plan task => planCollective comm task plan) (CollPlan.ofChannels comm.getNChannels) with
      | error e => exact ⟨rfl, rfl⟩
      | ok p => exact planRounds_erase tasks net _ comm p
  · exact ⟨rfl, rfl⟩

end Erase

/-! ## 4. Two channels are enough -/

section Two

variable {comm comm' : CommunicatorState} {n : Nat}

theorem inRange_getChannel {id : Nat} (h : id < comm.getNChannels) :
    (getChannel comm id).InRange comm.getNChannels := by
  refine ⟨fun x hx => ?_, fun he => ?_⟩
  · rw [List.mem_singleton.mp hx]
    exact h
  · have h : id < comm.channels.length := h
    change comm.getChannel id = _ at he
    rw [CommunicatorState.getChannel, List.getElem?_eq_getElem h] at he
    cases he

theorem inRange_push (plan : CollPlan) {id : Nat} (h : id < n) (task : PlanTask) :
    (push plan id task).InRange n :=
  ⟨fun x hx => by rw [List.mem_singleton.mp hx]; exact h, fun h => by cases h⟩

/-- Slices go to channels that exist, also with one channel. -/
theorem inRange_emitCollectiveSlices (hn : 1 ≤ comm.getNChannels) (task : CollTask) (plan : CollPlan)
    (bind : Bool) : (emitCollectiveSlices comm task plan bind).InRange comm.getNChannels := by
  refine Audited.inRange_foldlM (fun c _ plan => ?_) plan
  have hlt : c % max comm.getNChannels 1 < comm.getNChannels := by
    have := Nat.mod_lt c (show 0 < max comm.getNChannels 1 by omega)
    omega
  unfold emitSlice
  refine Audited.inRange_bind (inRange_getChannel hlt) fun channel _ => ?_
  split
  · exact inRange_push plan hlt _
  · exact Audited.inRange_pure _

theorem inRange_prepareRound (h2 : 2 ≤ comm.getNChannels) (sends recvs : List CollTask)
    (outcome : RoundOutcome) : (prepareRound comm sends recvs outcome).2.InRange comm.getNChannels := by
  have hget : ∀ id < comm.getNChannels, ∃ channel, comm.getChannel id = .ok channel := by
    intro id hid
    have hid : id < comm.channels.length := hid
    exact ⟨_, by rw [CommunicatorState.getChannel, List.getElem?_eq_getElem hid]⟩
  obtain ⟨s, hs⟩ := hget kP2pSendChannel (by unfold kP2pSendChannel; omega)
  obtain ⟨r, hr⟩ := hget kP2pRecvChannel (by unfold kP2pRecvChannel; omega)
  have htwo : ∀ id ∈ [kP2pSendChannel, kP2pRecvChannel], id < comm.getNChannels := by
    intro id hid
    have h01 : kP2pSendChannel < 2 ∧ kP2pRecvChannel < 2 := by decide
    rcases List.mem_cons.mp hid with rfl | hid
    · omega
    · rw [List.mem_singleton.mp hid]
      omega
  unfold prepareRound
  rw [hs, hr]
  dsimp only
  split
  · exact ⟨htwo, fun h => by cases h⟩
  · refine ⟨fun id hid => ?_, fun he => ?_⟩
    · rcases List.mem_append.mp hid with hid | hid
      · exact htwo id hid
      · rcases List.mem_append.mp hid with hid | hid
        · rw [List.eq_of_mem_replicate hid]
          exact htwo _ List.mem_cons_self
        · rw [List.eq_of_mem_replicate hid]
          exact htwo _ (List.mem_cons_of_mem _ List.mem_cons_self)
    · dsimp only at he
      split at he <;> cases he

theorem getNChannels_prepareRound (comm : CommunicatorState) (sends recvs : List CollTask)
    (outcome : RoundOutcome) : (prepareRound comm sends recvs outcome).1.getNChannels = comm.getNChannels := by
  rw [(prepareRound_erase comm sends recvs outcome).1]
  exact (sameShape_prepareRound comm sends recvs outcome).getNChannels

theorem inRange_planP2pRound (h2 : 2 ≤ comm.getNChannels) (tasks : List CollTask) (round : Int)
    (plan : CollPlan) (outcome : RoundOutcome) :
    (planP2pRound comm tasks round plan outcome).2.InRange comm.getNChannels := by
  unfold planP2pRound
  dsimp only
  split
  · exact Audited.inRange_pure plan
  · have hsame := getNChannels_prepareRound comm (roundTasks comm tasks .send round)
      (roundTasks comm tasks .recv round) outcome
    have happend : ∀ id < comm.getNChannels, ∀ (t : CollTask) (p : CollPlan),
        (appendP2p (prepareRound comm (roundTasks comm tasks .send round)
          (roundTasks comm tasks .recv round) outcome).1 id p t).InRange comm.getNChannels := by
      intro id hid t p
      unfold appendP2p
      rw [← hsame] at hid ⊢
      exact Audited.inRange_bind (inRange_getChannel hid) fun channel _ => inRange_push p hid _
    refine Audited.inRange_bind (inRange_prepareRound h2 _ _ outcome) fun _ _ => ?_
    refine Audited.inRange_bind (Audited.inRange_foldlM (fun t _ p => ?_) plan) fun p _ => ?_
    · exact happend kP2pSendChannel (by unfold kP2pSendChannel; omega) t p
    · exact Audited.inRange_foldlM (fun t _ p => happend kP2pRecvChannel (by unfold kP2pRecvChannel; omega) t p) p

theorem inRange_planRounds (tasks : List CollTask) (net : Int → RoundOutcome) (rounds : List Int)
    (h2 : 2 ≤ comm.getNChannels) (plan : CollPlan) :
    (planRounds tasks net rounds comm plan).2.InRange comm.getNChannels := by
  induction rounds generalizing comm plan with
  | nil => exact Audited.inRange_pure plan
  | cons round rounds ih =>
    have hround := inRange_planP2pRound h2 tasks round plan (net round)
    have hsame : (planP2pRound comm tasks round plan (net round)).1.getNChannels = comm.getNChannels := by
      rw [(planP2pRound_erase comm tasks round plan (net round)).1]
      exact (sameShape_planP2pRound comm tasks round plan (net round)).getNChannels
    rw [planRounds]
    dsimp only
    split
    · rename_i p hp
      have hrest : (planRounds tasks net rounds (planP2pRound comm tasks round plan (net round)).1 p).2.InRange
          (planP2pRound comm tasks round plan (net round)).1.getNChannels := ih (by rw [hsame]; exact h2) p
      rw [hsame] at hrest
      refine ⟨fun id hid => ?_, hrest.2⟩
      rcases List.mem_append.mp hid with hid | hid
      · exact hround.1 id hid
      · exact hrest.1 id hid
    · rename_i e he
      refine ⟨hround.1, fun h => hround.2 ?_⟩
      rw [he]
      exact congrArg Except.error (Except.error.inj h)

/-- Rounds without tasks look nothing up. -/
theorem planRounds_idle {tasks : List CollTask} (net : Int → RoundOutcome) {rounds : List Int}
    (h : ∀ round ∈ rounds, roundTasks comm tasks .send round = [] ∧ roundTasks comm tasks .recv round = [])
    (plan : CollPlan) : planRounds tasks net rounds comm plan = (comm, pure plan) := by
  induction rounds with
  | nil => rfl
  | cons round rounds ih =>
    have hidle : planP2pRound comm tasks round plan (net round) = (comm, pure plan) :=
      if_pos (h round List.mem_cons_self)
    rw [planRounds, hidle]
    change ((planRounds tasks net rounds comm plan).1, _) = _
    rw [ih fun r hr => h r (List.mem_cons_of_mem _ hr)]
    rfl

/-- A batch of collectives has no tasks in any round. -/
theorem roundTasks_collective {tasks : List CollTask} (h : isCollectiveBatch tasks = true) (round : Int) :
    roundTasks comm tasks .send round = [] ∧ roundTasks comm tasks .recv round = [] := by
  have hnone : ∀ func : CollFunc, isP2p func = true → roundTasks comm tasks func round = [] := by
    intro func hfunc
    refine List.filter_eq_nil_iff.mpr fun t ht hround => ?_
    have hno := List.all_eq_true.mp h t ht
    rw [Bool.and_eq_true, beq_iff_eq] at hround
    rw [hround.1, hfunc] at hno
    cases hno
  exact ⟨hnone .send rfl, hnone .recv rfl⟩

end Two

/-! ## 5. One channel is not -/

section One

variable {comm : CommunicatorState} {tasks : List CollTask}

/-- **With one channel the first round that has tasks throws**, before it connects to a peer. -/
theorem planP2pRound_one (h1 : comm.getNChannels = 1) {round : Int}
    (h : ¬ (roundTasks comm tasks .send round = [] ∧ roundTasks comm tasks .recv round = []))
    (plan : CollPlan) (outcome : RoundOutcome) :
    planP2pRound comm tasks round plan outcome =
      (comm, ⟨[kP2pSendChannel, kP2pRecvChannel], .error .outOfRange⟩) := by
  have h1 : comm.channels.length = 1 := h1
  have hs : comm.getChannel kP2pSendChannel = .ok comm.channels[0] := by
    rw [CommunicatorState.getChannel]
    unfold kP2pSendChannel
    rw [List.getElem?_eq_getElem (by omega)]
  have hr : comm.getChannel kP2pRecvChannel = .error .outOfRange := by
    rw [CommunicatorState.getChannel]
    unfold kP2pRecvChannel
    rw [List.getElem?_eq_none (by omega)]
  unfold planP2pRound
  dsimp only
  rw [if_neg h]
  unfold prepareRound
  rw [hs, hr]
  rfl

theorem planRounds_one (h1 : comm.getNChannels = 1) (net : Int → RoundOutcome) {rounds : List Int}
    (h : ∃ round ∈ rounds,
      ¬ (roundTasks comm tasks .send round = [] ∧ roundTasks comm tasks .recv round = []))
    (plan : CollPlan) : (planRounds tasks net rounds comm plan).2 =
      ⟨[kP2pSendChannel, kP2pRecvChannel], .error .outOfRange⟩ := by
  induction rounds with
  | nil =>
    obtain ⟨round, hround, -⟩ := h
    exact absurd hround List.not_mem_nil
  | cons round rounds ih =>
    rw [planRounds]
    by_cases hidle : roundTasks comm tasks .send round = [] ∧ roundTasks comm tasks .recv round = []
    · have hround : planP2pRound comm tasks round plan (net round) = (comm, pure plan) := if_pos hidle
      rw [hround]
      change Audited.mk _ _ = _
      rw [ih ?_]
      · rfl
      · obtain ⟨r, hr, hne⟩ := h
        rcases List.mem_cons.mp hr with rfl | hr
        · exact absurd hidle hne
        · exact ⟨r, hr, hne⟩
    · rw [planP2pRound_one h1 hidle]

/-- The round of a Send or a Recv. -/
theorem p2pRoundOf_mem {N r : Nat} (hworld : comm.worldSize = N) (hrank : comm.rank = r) (hr : r < N)
    {t : CollTask} (hp : validateP2p comm t = true) :
    p2pRoundOf t.func comm.rank t.peer comm.worldSize ∈
      (List.range (comm.worldSize.toNat - 1)).map fun (i : Nat) => (i : Int) + 1 := by
  have hpeer : ¬ (t.peer < 0 ∨ t.peer ≥ comm.worldSize ∨ t.peer = comm.rank) := by
    intro hbad
    unfold validateP2p at hp
    dsimp only at hp
    rw [if_pos hbad] at hp
    cases hp
  rw [hworld, hrank] at hpeer ⊢
  have hround : 1 ≤ p2pRoundOf t.func r t.peer N ∧ p2pRoundOf t.func r t.peer N < N :=
    p2pRoundOf_bounds ⟨by omega, by omega⟩ ⟨by omega, by omega⟩ (by omega) t.func
  refine List.mem_map.mpr ⟨(p2pRoundOf t.func r t.peer N - 1).toNat, List.mem_range.mpr ?_, ?_⟩
  · rw [Int.toNat_natCast]
    omega
  · omega

end One

/-! ## 6. When the channels exist -/

section Channels

variable {H : Type} [DecidableEq H] {hosts : Nat → H} {worldSize rank : Nat} {nChannels : Int}
  {options : InitOptions} {comm : CommunicatorState} {tasks : List CollTask}

/-- **The channels a plan uses exist, and none throws, if and only if** there are two channels or more, or
    the plan has no rounds: it is dynamic, the batch has collectives only, or a task of it is rejected. -/
theorem lookups_in_range (hcomm : SameShape (Communicator.init hosts worldSize rank nChannels options) comm)
    (hr : rank < worldSize) (dynamic : Bool) (net : Int → RoundOutcome) :
    (plan comm tasks dynamic net).2.InRange comm.getNChannels ↔
      2 ≤ comm.getNChannels ∨ dynamic = true ∨ isCollectiveBatch tasks = true ∨
        tasks.all (plannable comm) = false := by
  have hready := hcomm.ready (init_ready hosts worldSize rank nChannels options).1
  have hn := hready.some_channel
  have hcollectives : ∀ bind (ts : List CollTask) (p : CollPlan),
      (ts.foldlM (fun plan task => emitCollectiveSlices comm task plan bind) p).InRange comm.getNChannels :=
    fun bind ts p => Audited.inRange_foldlM (fun t _ p => inRange_emitCollectiveSlices hn t p bind) p
  constructor
  · intro h
    by_contra hno
    push Not at hno
    obtain ⟨h1, hd, hbatch, hall⟩ := hno
    have h1 : comm.getNChannels = 1 := by omega
    obtain ⟨t, ht, hp⟩ : ∃ t ∈ tasks, isP2p t.func = true := by
      by_contra hnone
      push Not at hnone
      refine hbatch (List.all_eq_true.mpr fun t ht => ?_)
      simp [hnone t ht]
    have hall : tasks.all (plannable comm) = true := by simpa using hall
    have hplan := List.all_eq_true.mp hall t ht
    rw [plannable, hp, if_pos rfl] at hplan
    have hround := p2pRoundOf_mem (hcomm.worldSize.trans init_sizes.2) (hcomm.rank.trans init_sizes.1) hr hplan
    refine h.2 ?_
    unfold plan
    rw [if_pos hall]
    dsimp only
    rw [if_neg hd]
    have hok : ((tasks.filter fun task => !isP2p task.func).foldlM
        (fun plan task => emitCollectiveSlices comm task plan true)
        (CollPlan.ofChannels comm.getNChannels)).result = .ok (pushAll comm
          (CollPlan.ofChannels comm.getNChannels)
          (assigned comm (tasks.filter fun task => !isP2p task.func))) := by
      rw [Audited.result_foldlM fun plan task => emitCollectiveSlices_erase comm task plan true]
      exact planCollectives hn _ _
    rw [hok]
    change (planRounds tasks net _ comm _).2.result = _
    rw [planRounds_one h1 net ⟨_, hround, ?_⟩]
    rintro ⟨hsend, hrecv⟩
    have hmem : t ∈ roundTasks comm tasks t.func
        (p2pRoundOf t.func comm.rank t.peer comm.worldSize) :=
      List.mem_filter.mpr ⟨ht, by simp⟩
    cases hf : t.func with
    | send =>
      rw [hf] at hmem hsend
      rw [hsend] at hmem
      exact absurd hmem List.not_mem_nil
    | recv =>
      rw [hf] at hmem hrecv
      rw [hrecv] at hmem
      exact absurd hmem List.not_mem_nil
    | allReduce | broadcast | reduce | allGather | reduceScatter =>
      rw [hf] at hp
      cases hp
  · intro h
    unfold plan
    split
    · rename_i hall
      dsimp only
      split
      · exact hcollectives false tasks _
      · rename_i hd
        have hfirst := hcollectives true (tasks.filter fun task => !isP2p task.func)
          (CollPlan.ofChannels comm.getNChannels)
        split
        · rename_i p hp
          have hrest : (planRounds tasks net ((List.range (comm.worldSize.toNat - 1)).map
              fun (i : Nat) => (i : Int) + 1) comm p).2.InRange comm.getNChannels := by
            rcases h with h | h | h | h
            · exact inRange_planRounds tasks net _ h p
            · exact absurd h hd
            · rw [planRounds_idle net fun round _ => roundTasks_collective h round]
              exact Audited.inRange_pure p
            · rw [hall] at h
              cases h
          refine ⟨fun id hid => ?_, hrest.2⟩
          rcases List.mem_append.mp hid with hid | hid
          · exact hfirst.1 id hid
          · exact hrest.1 id hid
        · rename_i e he
          refine ⟨hfirst.1, fun hx => hfirst.2 ?_⟩
          rw [he]
          exact congrArg Except.error (Except.error.inj hx)
    · exact ⟨fun id hid => absurd hid List.not_mem_nil, fun h => by cases h⟩

end Channels

/-- Rank 0 of two ranks with one channel. -/
def oneChannel : CommunicatorState := Communicator.init (fun r => r) 2 0 1 ⟨true, false, true⟩

/-- A Send of nothing. -/
def emptySend : CollTask := { func := .send, peer := 1 }

theorem lookups_in_range_one : (plan oneChannel [smallReduce] false fun _ => ⟨[], [], true⟩).2.InRange 1 :=
  (lookups_in_range (SameShape.refl oneChannel) (by decide) false fun _ => ⟨[], [], true⟩).mpr
    (Or.inr (Or.inr (Or.inl (by decide))))

/-- **With one channel even an empty Send looks up channel 1**, which throws. -/
theorem oneChannel_throws : sortTasks [emptySend] oneChannel.rank oneChannel.worldSize = some [emptySend] ∧
    ¬ (plan oneChannel [emptySend] false fun _ => ⟨[], [], true⟩).2.InRange oneChannel.getNChannels := by
  refine ⟨?_, fun h => absurd (h.1 kP2pRecvChannel (by decide)) (by decide)⟩
  have hsort : sortTasks [emptySend] 0 2 = some (stableSort collectiveLess [] ++
      stableSort (p2pLess 0 2) [emptySend]) := rfl
  refine hsort.trans ?_
  simp [stableSort]

end Planner.Audited

end OriginCCL
