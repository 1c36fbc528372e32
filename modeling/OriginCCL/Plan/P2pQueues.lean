/-
  File:      OriginCCL/Plan/P2pQueues.lean
  Subject:   THE QUEUES OF SENDS AND RECVS (`Planner::PlanP2pRound`, `SortTasks`).

  A batch of Sends and Recvs whose connections are there, sorted and planned.

  * `roundQueue` -- the Sends, or the Recvs, of all rounds, one round after the other.
  * `plan_p2p` -- **these are the queues of the plan**.
  * `roundQueue_batch` -- **every task of the batch once, by rounds**, and the tasks with one peer in the
    order in which the caller has queued them.
-/
import OriginCCL.Plan.Agreement

namespace OriginCCL.Planner

open Base

/-! ## 1. The rounds of a plan -/

/-- The rounds of `Plan`, in order. -/
def rounds (worldSize : Int) : List Int := (List.range (worldSize.toNat - 1)).map fun (i : Nat) => (i : Int) + 1

/-- The tasks of a function in all rounds. -/
def roundQueue (comm : CommunicatorState) (tasks : List CollTask) (func : CollFunc) : List CollTask :=
  (rounds comm.worldSize).flatMap (roundTasks comm tasks func)

/-- The queue of a channel in a plan. -/
def queue (p : CollPlan) (id : Nat) : List PlanTask := (p.channels[id]?.map ChannelPlan.tasks).getD []

/-- **The connections are there**: every Send and every Recv with something to move has its own. -/
structure P2pReady (comm : CommunicatorState) (rank : Nat) (tasks : List CollTask) : Prop where
  sends : ∃ channel, comm.getChannel kP2pSendChannel = .ok channel ∧
    ∀ t ∈ tasks, t.func = .send → t.count ≠ 0 →
      (channel.sendP2p[t.peer.toNat]?).bind Connector.transport = some ⟨.p2p, rank, t.peer.toNat⟩
  recvs : ∃ channel, comm.getChannel kP2pRecvChannel = .ok channel ∧
    ∀ t ∈ tasks, t.func = .recv → t.count ≠ 0 →
      (channel.recvP2p[t.peer.toNat]?).bind Connector.transport = some ⟨.p2p, t.peer.toNat, rank⟩

/-- What a plan makes of a Send or a Recv whose connection is there. -/
def p2pTask (comm : CommunicatorState) (rank : Nat) (task : CollTask) : PlanTask where
  func := task.func
  sendBuf := task.sendBuf
  recvBuf := task.recvBuf
  elemCount := task.count
  dtype := task.dtype
  peer := task.peer
  channelId := if task.func = .send then kP2pSendChannel else kP2pRecvChannel
  rank := comm.rank
  worldSize := comm.worldSize
  topology := some .p2p
  sendTransports := if task.func = .send ∧ task.count ≠ 0 then [⟨.p2p, rank, task.peer.toNat⟩] else []
  recvTransports := if task.func ≠ .send ∧ task.count ≠ 0 then [⟨.p2p, task.peer.toNat, rank⟩] else []

section Plans

variable {comm : CommunicatorState} {rank : Nat} {tasks : List CollTask} {p : CollPlan}

theorem queue_push (id c : Nat) (task : PlanTask) (hid : id < p.channels.length) :
    queue (p.push id task) c = queue p c ++ if id = c then [task] else [] := by
  rw [queue, push_getElem?, queue]
  cases hc : p.channels[c]? with
  | some plan => rfl
  | none =>
    have hne : id ≠ c := fun e => by
      rw [← e, List.getElem?_eq_getElem hid] at hc
      cases hc
    rw [if_neg hne]
    rfl

theorem length_push (id : Nat) (task : PlanTask) : (p.push id task).channels.length = p.channels.length :=
  List.length_modify ..

/-- Without a connection to make, a round only appends its tasks. -/
theorem prepareRound_ready (h : P2pReady comm rank tasks) {sends recvs : List CollTask}
    (hsends : ∀ t ∈ sends, t ∈ tasks ∧ t.func = .send) (hrecvs : ∀ t ∈ recvs, t ∈ tasks ∧ t.func = .recv)
    (outcome : RoundOutcome) : prepareRound comm sends recvs outcome = (comm, .ok ()) := by
  obtain ⟨sendChannel, hsend, hsent⟩ := h.sends
  obtain ⟨recvChannel, hrecv, hreceived⟩ := h.recvs
  have h1 : unconnected sendChannel.sendP2p (roundPeers sends) = [] := by
    refine List.filter_eq_nil_iff.mpr fun peer hpeer => ?_
    obtain ⟨t, ht, hcount, rfl⟩ := mem_roundPeers.mp hpeer
    rw [hsent t (hsends t ht).1 (hsends t ht).2 hcount]
    exact Bool.false_ne_true
  have h2 : unconnected recvChannel.recvP2p (roundPeers recvs) = [] := by
    refine List.filter_eq_nil_iff.mpr fun peer hpeer => ?_
    obtain ⟨t, ht, hcount, rfl⟩ := mem_roundPeers.mp hpeer
    rw [hreceived t (hrecvs t ht).1 (hrecvs t ht).2 hcount]
    exact Bool.false_ne_true
  unfold prepareRound
  rw [hsend, hrecv]
  dsimp only
  rw [if_pos ⟨h1, h2⟩]

/-- **A task with its connection** is the planned one. -/
theorem append_send (h : P2pReady comm rank tasks) {t : CollTask} (ht : t ∈ tasks) (hfunc : t.func = .send) :
    appendP2p comm kP2pSendChannel p t = .ok (p.push kP2pSendChannel (p2pTask comm rank t)) := by
  obtain ⟨channel, hchannel, hsent⟩ := h.sends
  have htask : TopologyP2p.fillTransports channel
      { func := t.func, sendBuf := t.sendBuf, recvBuf := t.recvBuf, elemCount := t.count
        dtype := t.dtype, peer := t.peer, channelId := (kP2pSendChannel : Nat), rank := comm.rank
        worldSize := comm.worldSize, topology := some .p2p } = p2pTask comm rank t := by
    unfold TopologyP2p.fillTransports p2pTask
    by_cases hcount : t.count = 0
    · simp [hcount, hfunc]
    · simp [hcount, hfunc, hsent t ht hfunc hcount]
  rw [appendP2p, hchannel]
  exact congrArg (fun x => Except.ok (p.push kP2pSendChannel x)) htask

theorem append_recv (h : P2pReady comm rank tasks) {t : CollTask} (ht : t ∈ tasks) (hfunc : t.func = .recv) :
    appendP2p comm kP2pRecvChannel p t = .ok (p.push kP2pRecvChannel (p2pTask comm rank t)) := by
  obtain ⟨channel, hchannel, hreceived⟩ := h.recvs
  have htask : TopologyP2p.fillTransports channel
      { func := t.func, sendBuf := t.sendBuf, recvBuf := t.recvBuf, elemCount := t.count
        dtype := t.dtype, peer := t.peer, channelId := (kP2pRecvChannel : Nat), rank := comm.rank
        worldSize := comm.worldSize, topology := some .p2p } = p2pTask comm rank t := by
    unfold TopologyP2p.fillTransports p2pTask
    by_cases hcount : t.count = 0
    · simp [hcount, hfunc]
    · simp [hcount, hfunc, hreceived t ht hfunc hcount]
  rw [appendP2p, hchannel]
  exact congrArg (fun x => Except.ok (p.push kP2pRecvChannel x)) htask

/-- The tasks `ts` at the end of a channel. -/
theorem appends_queue (rank id : Nat) {ts : List CollTask} (hid : id < p.channels.length)
    (h : ∀ t ∈ ts, ∀ p, appendP2p comm id p t = .ok (p.push id (p2pTask comm rank t))) :
    ∃ p', ts.foldlM (appendP2p comm id) p = .ok p' ∧ p'.channels.length = p.channels.length ∧
      ∀ c, queue p' c = queue p c ++ if id = c then ts.map (p2pTask comm rank) else [] := by
  induction ts generalizing p with
  | nil =>
    refine ⟨p, rfl, rfl, fun c => ?_⟩
    rw [List.map_nil, ite_self, List.append_nil]
  | cons t ts ih =>
    obtain ⟨p', hp', hlen, hqueue⟩ := ih (p := p.push id (p2pTask comm rank t))
      ((length_push ..).symm ▸ hid) fun x hx => h x (List.mem_cons_of_mem _ hx)
    refine ⟨p', ?_, hlen.trans (length_push ..), fun c => ?_⟩
    · rw [List.foldlM_cons, h t List.mem_cons_self]
      exact hp'
    · rw [hqueue, queue_push _ _ _ hid]
      split
      · rw [List.append_assoc]
        rfl
      · rw [List.append_nil]

/-- **One round.** -/
theorem planP2pRound_ready (h : P2pReady comm rank tasks) (hp : 2 ≤ p.channels.length) (round : Int)
    (outcome : RoundOutcome) :
    ∃ p', planP2pRound comm tasks round p outcome = (comm, .ok p') ∧
      p'.channels.length = p.channels.length ∧
      queue p' kP2pSendChannel =
        queue p kP2pSendChannel ++ (roundTasks comm tasks .send round).map (p2pTask comm rank) ∧
      queue p' kP2pRecvChannel =
        queue p kP2pRecvChannel ++ (roundTasks comm tasks .recv round).map (p2pTask comm rank) := by
  have hmem : ∀ func, ∀ t ∈ roundTasks comm tasks func round, t ∈ tasks ∧ t.func = func := by
    intro func t ht
    obtain ⟨ht, hround⟩ := List.mem_filter.mp ht
    rw [Bool.and_eq_true] at hround
    exact ⟨ht, eq_of_beq hround.1⟩
  unfold planP2pRound
  dsimp only
  split
  case isTrue hnone =>
    refine ⟨p, rfl, rfl, ?_, ?_⟩
    · rw [hnone.1, List.map_nil, List.append_nil]
    · rw [hnone.2, List.map_nil, List.append_nil]
  case isFalse =>
    rw [prepareRound_ready h (hmem .send) (hmem .recv)]
    obtain ⟨p1, hp1, hlen1, hqueue1⟩ := appends_queue rank kP2pSendChannel (p := p)
      (by unfold kP2pSendChannel; omega) fun t ht p => append_send h (hmem .send t ht).1 (hmem .send t ht).2
    obtain ⟨p2, hp2, hlen2, hqueue2⟩ := appends_queue rank kP2pRecvChannel (p := p1)
      (by unfold kP2pRecvChannel; omega) fun t ht p => append_recv h (hmem .recv t ht).1 (hmem .recv t ht).2
    refine ⟨p2, ?_, hlen2.trans hlen1, ?_, ?_⟩
    · dsimp only
      rw [hp1]
      exact congrArg (Prod.mk comm) hp2
    · rw [hqueue2, hqueue1, if_pos rfl, if_neg (by decide), List.append_nil]
    · rw [hqueue2, hqueue1, if_pos rfl, if_neg (by decide), List.append_nil]

/-- **All rounds.** -/
theorem planRounds_ready (h : P2pReady comm rank tasks) (hp : 2 ≤ p.channels.length)
    (net : Int → RoundOutcome) (rs : List Int) :
    ∃ p', planRounds tasks net rs comm p = (comm, .ok p') ∧
      queue p' kP2pSendChannel =
        queue p kP2pSendChannel ++ (rs.flatMap (roundTasks comm tasks .send)).map (p2pTask comm rank) ∧
      queue p' kP2pRecvChannel =
        queue p kP2pRecvChannel ++ (rs.flatMap (roundTasks comm tasks .recv)).map (p2pTask comm rank) := by
  induction rs generalizing p with
  | nil => exact ⟨p, rfl, (List.append_nil _).symm, (List.append_nil _).symm⟩
  | cons round rs ih =>
    obtain ⟨p1, hp1, hlen, hsend, hrecv⟩ := planP2pRound_ready h hp round (net round)
    obtain ⟨p2, hp2, hsend', hrecv'⟩ := ih (p := p1) (hlen ▸ hp)
    refine ⟨p2, ?_, ?_, ?_⟩
    · rw [planRounds, hp1]
      exact hp2
    · rw [hsend', hsend, List.flatMap_cons, List.map_append, List.append_assoc]
    · rw [hrecv', hrecv, List.flatMap_cons, List.map_append, List.append_assoc]

/-- **The queues of the plan of a P2P batch** whose connections are there. -/
theorem plan_p2p (h : P2pReady comm rank tasks) (hchannels : 2 ≤ comm.getNChannels)
    (hp2p : ∀ t ∈ tasks, isP2p t.func = true) (hplan : tasks.all (plannable comm) = true)
    (net : Int → RoundOutcome) :
    ∃ p, (plan comm tasks false net).2 = .ok p ∧
      queue p kP2pSendChannel = (roundQueue comm tasks .send).map (p2pTask comm rank) ∧
      queue p kP2pRecvChannel = (roundQueue comm tasks .recv).map (p2pTask comm rank) := by
  have hnone : (tasks.filter fun task => !isP2p task.func) = [] :=
    List.filter_eq_nil_iff.mpr fun t ht => by rw [hp2p t ht]; exact Bool.false_ne_true
  have hempty : ∀ c, queue (CollPlan.ofChannels comm.getNChannels) c = [] := by
    intro c
    rw [queue, ofChannels_getElem?]
    split <;> rfl
  have hlen : (CollPlan.ofChannels comm.getNChannels).channels.length = comm.getNChannels := by
    rw [CollPlan.ofChannels, List.length_map, List.length_range]
  obtain ⟨p, hp, hsend, hrecv⟩ := planRounds_ready h (hlen.symm ▸ hchannels) net (rounds comm.worldSize)
  refine ⟨p, ?_, ?_, ?_⟩
  · unfold plan
    rw [if_pos hplan]
    dsimp only
    rw [if_neg Bool.false_ne_true, hnone]
    exact congrArg Prod.snd hp
  · rw [hsend, hempty, List.nil_append]
    rfl
  · rw [hrecv, hempty, List.nil_append]
    rfl

end Plans

/-! ## 2. The order of a queue -/

section Order

variable {comm : CommunicatorState} {N r : Nat} {tasks batch : List CollTask} {func : CollFunc}

theorem mem_rounds {k : Int} : k ∈ rounds (N : Int) ↔ 1 ≤ k ∧ k < N := by
  unfold rounds
  rw [List.mem_map]
  constructor
  · intro h
    obtain ⟨i, hi, rfl⟩ := h
    have := List.mem_range.mp hi
    omega
  · intro h
    exact ⟨(k - 1).toNat, List.mem_range.mpr (by omega), by omega⟩

theorem rounds_sorted (n : Int) : (rounds n).Pairwise (· < ·) := by
  refine List.pairwise_map.mpr ?_
  exact List.pairwise_lt_range.imp fun hij => by omega

/-- The queue is made of the tasks of the function, one round after the other. -/
theorem roundQueue_eq (hrank : comm.rank = r) (hworld : comm.worldSize = N) :
    roundQueue comm tasks func =
      byKeys (fun t : CollTask => p2pRoundOf func r t.peer N) (rounds N)
        (tasks.filter fun t => t.func == func) := by
  unfold roundQueue byKeys
  rw [hworld]
  refine List.flatMap_congr fun k _ => ?_
  rw [List.filter_filter, roundTasks]
  refine List.filter_congr fun t _ => ?_
  rw [hrank, hworld]
  cases hf : (t.func == func) with
  | false => rw [Bool.false_and, Bool.and_false]
  | true =>
    rw [eq_of_beq hf, Bool.true_and, Bool.and_true]
    rfl

/-- The tasks of a function with one peer. -/
def withPeer (func : CollFunc) (peer : Nat) (t : CollTask) : Bool := t.func == func && t.peer == (peer : Int)

/-- **The queue of a batch**: its tasks, each once; by rounds; and for each peer in the order of the
    caller. -/
structure QueueOf (batch q : List CollTask) (N r : Nat) (func : CollFunc) : Prop where
  perm : q.Perm (batch.filter fun t => t.func == func)
  sorted : q.Pairwise fun t u => p2pRoundOf func r t.peer N ≤ p2pRoundOf func r u.peer N
  order : ∀ peer, (q.filter (withPeer func peer)) = batch.filter (withPeer func peer)

/-- **What `SortTasks` and the rounds make of a batch.** -/
theorem roundQueue_batch (hrank : comm.rank = r) (hworld : comm.worldSize = N) (hr : r < N)
    (hp2p : ∀ t ∈ batch, isP2p t.func = true) (hsort : sortTasks batch r N = some tasks) :
    QueueOf batch (roundQueue comm tasks func) N r func := by
  have harranged := arranged_sortTasks hsort
  have hself : ∀ ts : List CollTask, (∀ t ∈ ts, isP2p t.func = true) →
      (ts.filter fun t => isP2p t.func) = ts := fun ts h => List.filter_eq_self.mpr h
  have hsorted := harranged.p2p
  rw [hself batch hp2p, hself tasks fun t ht => hp2p t (harranged.perm.mem_iff.mp ht)] at hsorted
  have hpeers : ∀ t ∈ tasks, 0 ≤ t.peer ∧ t.peer < N ∧ t.peer ≠ (r : Int) := by
    intro t ht
    have hmem := harranged.perm.mem_iff.mp ht
    unfold sortTasks at hsort
    split at hsort
    · cases hsort
    · split at hsort
      case isTrue hall =>
        have hs := List.all_eq_true.mp hall t hmem
        unfold sortable at hs
        rw [if_pos (hp2p t hmem)] at hs
        simp only [ge_iff_le, Bool.not_eq_true', Bool.or_eq_false_iff, decide_eq_false_iff_not,
          beq_eq_false_iff_ne] at hs
        omega
      case isFalse => cases hsort
  have hround : ∀ t ∈ tasks, p2pRoundOf func r t.peer N ∈ rounds (N : Int) := by
    intro t ht
    obtain ⟨h1, h2, h3⟩ := hpeers t ht
    exact mem_rounds.mpr (p2pRoundOf_bounds ⟨by omega, by omega⟩ ⟨h1, h2⟩ h3 func)
  have hnodup : (rounds (N : Int)).Nodup := (rounds_sorted N).imp fun h => by omega
  rw [roundQueue_eq hrank hworld]
  refine ⟨?_, byKeys_sorted ((rounds_sorted N).imp fun h => by omega), fun peer => ?_⟩
  · refine (byKeys_perm hnodup fun t ht => hround t (List.mem_filter.mp ht).1).trans ?_
    exact harranged.perm.filter _
  · have hq : ∀ t, withPeer func peer t = true → t.func = func ∧ t.peer = (peer : Int) := by
      intro t ht
      rw [withPeer, Bool.and_eq_true] at ht
      exact ⟨eq_of_beq ht.1, eq_of_beq ht.2⟩
    have hcaller : tasks.filter (withPeer func peer) = batch.filter (withPeer func peer) := by
      refine hsorted.filter_eq (k := toLex (p2pRoundOf func r peer N, funcIndex func)) fun t ht => ?_
      obtain ⟨h1, h2⟩ := hq t ht
      rw [p2pKey, h1, h2]
    have hpart : (tasks.filter fun t => t.func == func).filter (withPeer func peer) =
        tasks.filter (withPeer func peer) := by
      rw [List.filter_filter]
      refine List.filter_congr fun t _ => ?_
      cases ht : withPeer func peer t with
      | false => rfl
      | true => rw [(hq t ht).1, beq_self_eq_true, Bool.and_self]
    rw [← hcaller, ← hpart]
    by_cases hsome : ∃ t ∈ tasks, withPeer func peer t = true
    · obtain ⟨t, ht, htq⟩ := hsome
      have hk := hround t ht
      rw [(hq t htq).2] at hk
      exact byKeys_filter hnodup hk fun u hu => by rw [(hq u hu).2]
    · -- there is no task with this peer
      rw [hpart, List.filter_eq_nil_iff.mpr fun t ht htq => hsome ⟨t, ht, htq⟩]
      refine List.filter_eq_nil_iff.mpr fun t ht htq => hsome ⟨t, ?_, htq⟩
      have hmem := (byKeys_perm hnodup fun t ht => hround t (List.mem_filter.mp ht).1).mem_iff.mp ht
      exact (List.mem_filter.mp hmem).1

end Order

end OriginCCL.Planner
