/-
  File:      OriginCCL/Topology/RingBroadcast.lean
  Subject:   A RING BROADCAST UNDER EVERY SCHEDULE.

  The block of the root travels along the chain that starts there. A rank on the way receives all of it
  into its receive buffer before it sends it on from there.

  * `BroadcastBytes` -- the receive buffer holds the block, or as much of it as has arrived.
  * `broadcast_values` -- **every round keeps it**; `broadcast_counts` -- nothing is sent before the
    whole block is there.
  * `broadcast_correct` -- **whatever the schedule, the root and the split of the bytes**.
-/
import OriginCCL.Net.Schedule
import OriginCCL.Topology.RingChain
import OriginCCL.Topology.Together

namespace OriginCCL.TopologyRing

open Net Base

/-! ## 1. The bytes -/

section Bytes

variable {task : PlanTask} {N r q : Nat} {lo li : Link} {block : Nat → UInt8} {m₀ : Mem} {t rp : Nat}

/-- Both streams of a rank carry the block. -/
def broadcastOk (block : Nat → UInt8) (_ : Side) (j : Nat) (b : UInt8) : Prop := b = block j

/-- What a rank may write: the receive buffer, unless it is the root. -/
def broadcastMay (task : PlanTask) (r q a : Nat) : Prop :=
  r ≠ q ∧ (user a).inside (user task.recvBuf) (blockBytes task)

/-- **The bytes in round `t`** after `rp` received ones. -/
structure BroadcastBytes (task : PlanTask) (N r q : Nat) (block : Nat → UInt8) (m₀ : Mem)
    (t rp : Nat) (m : Loc → UInt8) : Prop where
  kept : ∀ a, ¬ broadcastMay task r q a → m (user a) = m₀ a
  held : back N r q = 0 ∨ t = 1 → ∀ j < blockBytes task, m ((user task.recvBuf).shift j) = block j
  incoming : ∀ j < rp, m ((user task.recvBuf).shift j) = block j

/-- What a Broadcast leaves: the block on every rank, and all other memory as before. -/
structure BroadcastDone (task : PlanTask) (r q : Nat) (block : Nat → UInt8) (m₀ m : Mem) : Prop where
  result : ∀ j < blockBytes task, m (task.recvBuf + j) = block j
  kept : ∀ a, ¬ broadcastMay task r q a → m a = m₀ a

theorem broadcastSettle_state (task : PlanTask) (s : RankState) : (broadcastSettle task s).1 = s := by
  unfold broadcastSettle
  split <;> rfl

/-- **Broadcast keeps the claim about its bytes**, and ends with the block. -/
theorem broadcast_values (hr : r < N) (hq : q < N) : Claimed broadcast task (broadcastRounds task N r q)
    (broadcastOk block) (BroadcastBytes task N r q block m₀) (BroadcastDone task r q block m₀) where
  sends t ht rp _ m h j hj := by
    have hoff := chain_send_off _ _ _ _ _ ht (Nat.zero_lt_of_lt hj)
    change m ((user task.recvBuf).shift j) = block (off (broadcastRounds task N r q).sendLen t + j)
    have hsend : back N r q = 0 ∨ t = 1 := by
      by_contra hne
      have hlen : (broadcastRounds task N r q).sendLen t = 0 := if_neg hne
      omega
    have hj : j < blockBytes task := Nat.lt_of_lt_of_eq hj (if_pos hsend)
    rw [show off (broadcastRounds task N r q).sendLen t = 0 from hoff, Nat.zero_add]
    exact h.held hsend j hj
  receives t ht rp rp' hle hrp m m' h hnew hm := by
    by_cases hsend : back N r q = 0 ∨ t = 1
    · -- a round that sends receives nothing
      have hlen : (broadcastRounds task N r q).recvLen t = 0 := if_pos hsend
      have hsame : m' = m := by
        funext p
        refine hm p ?_
        rintro ⟨-, h1, h2⟩
        omega
      rw [hsame, show rp' = rp by omega]
      exact h
    · have hlen : (broadcastRounds task N r q).recvLen t = blockBytes task := if_neg hsend
      have hne : r ≠ q := fun he => hsend (Or.inl ((back_eq_zero_iff hr hq).mpr he))
      refine ⟨fun a ha => ?_, fun hf => absurd hf hsend, fun j hj => ?_⟩
      · rw [hm _ fun hin => ha ⟨hne, Loc.inside_part hin (by omega)⟩, h.kept a ha]
      · by_cases hj' : rp ≤ j
        · obtain ⟨-, hoff⟩ := chain_recv_off _ _ _ _ _ ht
            (show 0 < (broadcastRounds task N r q).recvLen t by omega)
          have hb := hnew j hj' hj
          rw [show off (broadcastRounds task N r q).recvLen t = 0 from hoff, Nat.zero_add] at hb
          exact hb
        · have hout : ¬ ((user task.recvBuf).shift j).inside
              (((broadcastRounds task N r q).recvLoc t).shift rp) (rp' - rp) := by
            rintro ⟨-, h2, -⟩
            have h2 : task.recvBuf + rp ≤ task.recvBuf + j := h2
            omega
          rw [hm _ hout, h.incoming j (by omega)]
  next t ht s _ _ h := by
    obtain ⟨rfl, hd, -⟩ := chain_next ht
    have hlen : (broadcastRounds task N r q).recvLen 0 = blockBytes task := if_neg (by omega)
    rw [hlen] at h
    change BroadcastBytes task N r q block m₀ (0 + 1) 0 (broadcastSettle task s).1.byteAt
    rw [broadcastSettle_state]
    exact ⟨h.kept, fun _ => h.incoming, fun j hj => absurd hj (Nat.not_lt_zero j)⟩
  last t ht s _ _ h := by
    change BroadcastDone task r q block m₀ (broadcastSettle task s).1.mem
    rw [broadcastSettle_state]
    refine ⟨?_, h.kept⟩
    by_cases hsend : back N r q = 0 ∨ t = 1
    · exact h.held hsend
    · have hlen : (broadcastRounds task N r q).recvLen t = blockBytes task := if_neg hsend
      rw [hlen] at h
      exact h.incoming

/-- **The first call starts from the root's block.** -/
theorem broadcast_start (hr : r < N) (hq : q < N)
    (hblock : r = q → ∀ j, block j = m₀ (task.recvBuf + j)) :
    BroadcastBytes task N r q block m₀ 0 0 (clear (freshState m₀)).byteAt := by
  refine ⟨fun _ _ => rfl, fun hsend j _ => ?_, fun j hj => absurd hj (Nat.not_lt_zero j)⟩
  have hrq : r = q := (back_eq_zero_iff hr hq).mp (hsend.resolve_right (by omega))
  exact (hblock hrq j).symm

/-- **What the contract says of a rank at any moment**: it has sent nothing before the whole block has
    arrived, and the root's memory is as before. -/
structure Forwarding (task : PlanTask) (lo li : Link) (r q : Nat) (m₀ : Mem)
    (n : Side → Link → Nat) (m : Mem) : Prop where
  whole : r ≠ q → 0 < n .out lo → n .inn li = blockBytes task
  root : r = q → m = m₀

/-- Between two calls. -/
theorem broadcast_between (hr : r < N) (hq : q < N) {s : RankState} {n : Side → Link → Nat}
    (h : Between (broadcastRounds task N r q) (BroadcastBytes task N r q block m₀) lo li s n) :
    Forwarding task lo li r q m₀ n s.mem := by
  obtain ⟨t, sp, rp, hp, -⟩ := h
  refine ⟨fun hne hpos => ?_, fun hrq => funext fun a => hp.state.data.kept a fun hf => hf.1 hrq⟩
  have hsent := hp.sent
  have hreceived := hp.received
  have hsle := hp.state.send_le
  have hrle := hp.state.recv_le
  have hlt := Nat.lt_of_lt_of_le hp.lt (chain_total_le ..)
  have hd : back N r q ≠ 0 := fun he => hne ((back_eq_zero_iff hr hq).mp he)
  have hfirst : (broadcastRounds task N r q).sendLen 0 = 0 := if_neg (by omega)
  have hwhole : (broadcastRounds task N r q).recvLen 0 = blockBytes task := if_neg (by omega)
  have hrest : (broadcastRounds task N r q).recvLen 1 = 0 := if_pos (Or.inr rfl)
  cases t with
  | zero =>
    rw [off_zero] at hsent
    omega
  | succ t =>
    obtain rfl : t = 0 := by omega
    have hrle : rp ≤ (broadcastRounds task N r q).recvLen 1 := hrle
    rw [off_succ, off_zero] at hreceived
    omega

/-- At the end. -/
theorem broadcast_spent (hN : 2 ≤ N) (hr : r < N) (hq : q < N) {n : Side → Link → Nat} {m : Mem}
    (hdone : BroadcastDone task r q block m₀ m)
    (h : ((broadcastRounds task N r q).terms lo li (broadcastOk block)).spent n) :
    Forwarding task lo li r q m₀ n m := by
  refine ⟨fun hne _ => ?_, fun hrq => funext fun a => hdone.kept a fun hf => hf.1 hrq⟩
  have hd : back N r q ≠ 0 := fun he => hne ((back_eq_zero_iff hr hq).mp he)
  have hreceived : off (broadcastRounds task N r q).recvLen (broadcastRounds task N r q).total =
      blockBytes task := (chain_received hN ..).trans (if_neg hd)
  rw [h .inn li rfl]
  exact (if_pos rfl).trans hreceived

end Bytes

/-! ## 2. The ranks together -/

section Ranks

variable {H : Type} [DecidableEq H] {w : World H} {id q : Nat} {p : Collective}

/-- The root's block at the start. -/
def rootBlock (q : Nat) (p : Collective) (m₀ : Nat → Mem) (j : Nat) : UInt8 := m₀ q (p.recvBuf q + j)

/-- The terms of a rank in a Broadcast from root `q`. -/
def broadcastTerms (w : World H) (id q : Nat) (block : Nat → UInt8) (p : Collective) (r : Nat) :
    Terms Link UInt8 :=
  if w.size = 1 then Terms.none
  else (broadcastRounds (p.task w id r) w.size r q).terms (channelLink id r ((r + 1) % w.size))
    (channelLink id (back w.size r 1) r) (broadcastOk block)

/-- What a rank sends and receives in all. -/
theorem broadcast_totals (w : World H) (id q : Nat) (p : Collective) (hN : 2 ≤ w.size) (r : Nat) :
    off (broadcastRounds (p.task w id r) w.size r q).sendLen
        (broadcastRounds (p.task w id r) w.size r q).total =
      (if back w.size r q + 1 = w.size then 0 else blockBytes (p.task w id r)) ∧
    off (broadcastRounds (p.task w id r) w.size r q).recvLen
        (broadcastRounds (p.task w id r) w.size r q).total =
      if back w.size r q = 0 then 0 else blockBytes (p.task w id r) :=
  ⟨chain_sent hN .., chain_received hN ..⟩

/-- **The next rank receives what a rank sends.** -/
theorem broadcast_joined (block : Nat → UInt8) (hN : 1 ≤ w.size) (hq : q < w.size) :
    Joined w.size (broadcastTerms w id q block p) := by
  by_cases h1 : w.size = 1
  · have e : broadcastTerms w id q block p = fun _ => Terms.none := funext fun r => if_pos h1
    rw [e]
    exact joined_none w.size
  · have e : broadcastTerms w id q block p = fun r =>
        (broadcastRounds (p.task w id r) w.size r q).terms (channelLink id r ((r + 1) % w.size))
          (channelLink id (back w.size r 1) r) (broadcastOk block) :=
      funext fun r => if_neg h1
    rw [e]
    refine ring_joined id (fun r sd => off ((broadcastRounds (p.task w id r) w.size r q).len sd)
      (broadcastRounds (p.task w id r) w.size r q).total) (fun _ => broadcastOk block) (by omega)
      (fun r hr => ?_) fun _ _ _ _ _ hb => hb
    change off (broadcastRounds (p.task w id r) w.size r q).sendLen _ =
      off (broadcastRounds (p.task w id ((r + 1) % w.size)) w.size ((r + 1) % w.size) q).recvLen _
    rw [(broadcast_totals w id q p (by omega) r).1, (broadcast_totals w id q p (by omega) _).2,
      back_of_next_rank hr hq,
      Collective.blockBytes_task, Collective.blockBytes_task]
    by_cases hl : back w.size r q + 1 = w.size
    · rw [if_pos hl, if_pos hl, if_pos rfl]
    · rw [if_neg hl, if_neg hl, if_neg (Nat.succ_ne_zero _)]

/-- What holds of a rank's memory before and after the operation. -/
def broadcastAt (w : World H) (id q : Nat) (p : Collective) (m₀ : Nat → Mem) (r : Nat) :
    Nat → Mem → Prop
  | 0, m => m = m₀ r
  | _ + 1, m => BroadcastDone (p.task w id r) r q (rootBlock q p m₀) (m₀ r) m

/-- A single rank, the root, has nothing to do. -/
theorem broadcast_single {task : PlanTask} {ring : TopologyRing} (hfunc : task.func = .broadcast)
    (htopo : task.topology = some (.ring ring)) (hcount : task.elemCount ≠ 0)
    (hrecv : task.recvBuf ≠ 0) (hworld : task.worldSize = 1) (hroot : task.root = 0) (m : Mem) :
    channelSystem.init task m = .ret (finishAtOnce task (clear (freshState m))) := by
  have hvalid : ¬ (task.worldSize ≤ 0 ∨ task.root < 0 ∨ task.root ≥ task.worldSize) := by omega
  rw [(broadcast_runs hfunc htopo).init]
  unfold broadcastInit
  simp only [if_neg hvalid, if_neg hcount, if_neg hrecv, if_pos hworld]
  rfl

/-- **The contract of one rank in a Broadcast.** -/
theorem broadcast_contract (hid : id < w.nChannels) (hfunc : p.func = .broadcast)
    (hring : p.onTree = false) (hcount : 0 < p.elemCount) (hq : q < w.size)
    (hroot : p.root = (q : Nat)) {r : Nat} (hr : r < w.size) (hrecv : p.recvBuf r ≠ 0)
    (m₀ : Nat → Mem) :
    ∃ K : Contract channelSystem (p.task w id r) (broadcastTerms w id q (rootBlock q p m₀) p r)
        (broadcastAt w id q p m₀ r 0) (broadcastAt w id q p m₀ r 1),
      ∀ s n, K.Inv s n → Forwarding (p.task w id r) (channelLink id r ((r + 1) % w.size))
        (channelLink id (back w.size r 1) r) r q (m₀ r) n s.mem := by
  have htopo : (p.task w id r).topology = some (.ring (w.ring r)) := by
    rw [Collective.task_topology, hring]
    rfl
  have hfunc' : (p.task w id r).func = .broadcast := by rw [Collective.task_func, hfunc]
  have hcount' : (p.task w id r).elemCount ≠ 0 := by rw [Collective.task_elemCount]; omega
  have hroot' : (p.task w id r).root = (q : Nat) := by rw [Collective.task_root, hroot]
  have hrecv' : (p.task w id r).recvBuf ≠ 0 := by rw [Collective.task_recvBuf]; exact hrecv
  have hblock : r = q → ∀ j, rootBlock q p m₀ j = m₀ r ((p.task w id r).recvBuf + j) := by
    rintro rfl j
    rw [Collective.task_recvBuf]
    rfl
  by_cases h1 : w.size = 1
  · obtain rfl : r = 0 := by omega
    obtain rfl : q = 0 := by omega
    have hworld : (p.task w id 0).worldSize = 1 := by
      rw [Collective.task_worldSize, h1]
      rfl
    rw [broadcastTerms, if_pos h1]
    refine ⟨finishAtOnce_contract htopo (fun m => clear (freshState m)) (fun m _ => ?_)
      fun m hm => ?_, fun s n hI => hI.elim⟩
    · exact broadcast_single hfunc' htopo hcount' hrecv' hworld hroot' m
    · obtain rfl : m = m₀ 0 := hm
      exact ⟨fun j _ => (hblock rfl j).symm, fun _ _ => rfl⟩
  · have W := Collective.ring_onRing (p := p) hid hring (by omega) hr
    have T := broadcast_task W hfunc' htopo hroot' hq hcount' hrecv'
    rw [broadcastTerms, if_neg h1]
    refine ⟨T.contract (broadcast_values hr hq) fun m hm => ?_, fun s n hI => broadcast_between hr hq hI⟩
    obtain rfl : m = m₀ r := hm
    exact broadcast_start hr hq hblock

/-- **Ring Broadcast is correct for every root and schedule.** When all ranks are done, every receive
    buffer holds the root's block and nothing else has changed. At every moment of a run a rank other
    than the root has sent nothing unless its whole block has arrived, the link from the root's
    predecessor to the root has carried nothing, and the root's memory is as it was. -/
theorem broadcast_correct (hid : id < w.nChannels) (hN : 1 ≤ w.size) (hfunc : p.func = .broadcast)
    (hring : p.onTree = false) (hcount : 0 < p.elemCount) (hq : q < w.size)
    (hroot : p.root = (q : Nat)) (hrecv : ∀ r < w.size, p.recvBuf r ≠ 0) {m₀ : Nat → Mem}
    {ls : List (Label Nat Link UInt8 CollEvent)} {c : Config Nat Link UInt8 RankState Mem}
    (hrun : Run channelSystem (Flow.any Link) (w.tasks id [p]) (.start m₀) ls c) :
    ((∀ r < w.size, (c.node r).finished = 1) → ∀ r < w.size, ∃ m, (c.node r).mode = .fresh m ∧
      (∀ j < p.elemCount * getDataTypeSize p.dtype, m (p.recvBuf r + j) = m₀ q (p.recvBuf q + j)) ∧
      ∀ a, ¬ (p.recvBuf r ≤ a ∧ a < p.recvBuf r + p.elemCount * getDataTypeSize p.dtype) →
        m a = m₀ r a) ∧
    (∀ r < w.size, r ≠ q → ∀ l : Link, l.src = r → sent ls l ≠ [] →
      (got ls (channelLink id (back w.size r 1) r)).length =
        p.elemCount * getDataTypeSize p.dtype) ∧
    sent ls (channelLink id (back w.size q 1) q) = [] ∧ (∀ l : Link, l.dst = q → got ls l = []) ∧
    (c.node q).mode.memory channelSystem = some (m₀ q) := by
  have hcontract := fun r hr =>
    broadcast_contract hid hfunc hring hcount hq hroot hr (hrecv r hr) m₀
  have hmoment : ∀ {r}, r < w.size → ∃ n m, (c.node r).mode.memory channelSystem = some m ∧
      Forwarding (p.task w id r) (channelLink id r ((r + 1) % w.size))
        (channelLink id (back w.size r 1) r) r q (m₀ r) n m ∧
      (∀ sd l, n sd l ≤ (broadcastTerms w id q (rootBlock q p m₀) p r).upto sd l) ∧
      (∀ l : Link, l.src = r → (sent ls l).length = n .out l) ∧
      ∀ l : Link, l.dst = r → (got ls l).length = n .inn l := by
    intro r hr
    refine single_moment (broadcastTerms w id q (rootBlock q p m₀)) (broadcastAt w id q p m₀)
      (broadcast_joined _ hN hq) hcontract (fun v hv n m hm hz => ?_) (fun v hv n m hm hs => ?_)
      (fun _ => rfl) hrun hr
    · refine ⟨fun _ hpos => ?_, fun _ => hm⟩
      rw [hz] at hpos
      exact absurd hpos (Nat.lt_irrefl 0)
    · have hm : BroadcastDone (p.task w id v) v q (rootBlock q p m₀) (m₀ v) m := hm
      by_cases h1 : w.size = 1
      · exact ⟨fun hne => absurd (by omega) hne, fun hvq => funext fun a => hm.kept a fun hf => hf.1 hvq⟩
      · rw [broadcastTerms, if_neg h1] at hs
        exact broadcast_spent (by omega) hv hq hm hs
  have hsize : ∀ r, blockBytes (p.task w id r) = p.elemCount * getDataTypeSize p.dtype :=
    fun r => Collective.blockBytes_task r
  refine ⟨fun hdone r hr => ?_, fun r hr hne l hl hsent => ?_, ?_, fun l hl => ?_, ?_⟩
  · obtain ⟨m, hm, hpost⟩ := single_post (broadcastTerms w id q (rootBlock q p m₀))
      (broadcastAt w id q p m₀) (broadcast_joined _ hN hq)
      (fun v hv => ⟨(hcontract v hv).choose⟩) (fun _ => rfl) hrun hr (hdone r hr)
    have hpost : BroadcastDone (p.task w id r) r q (rootBlock q p m₀) (m₀ r) m := hpost
    refine ⟨m, hm, fun j hj => ?_, fun a ha => hpost.kept a fun hf => ha ?_⟩
    · have hres := hpost.result j (by rw [hsize]; exact hj)
      rw [Collective.task_recvBuf] at hres
      exact hres
    · have hin := hf.2.2
      rw [hsize, Collective.task_recvBuf] at hin
      exact hin
  · obtain ⟨n, m, -, hfwd, hle, hout, hinn⟩ := hmoment hr
    have h1 : w.size ≠ 1 := by omega
    have hpos : 0 < n .out l := by
      rw [← hout l hl]
      exact List.length_pos_iff.mpr hsent
    have hown : l = channelLink id r ((r + 1) % w.size) := by
      by_contra hno
      have hb := hle .out l
      rw [(broadcast_joined _ hN hq).stray r hr .out l (by rw [broadcastTerms, if_neg h1]; exact hno)]
        at hb
      omega
    rw [hown] at hpos
    rw [hinn _ rfl, hfwd.whole hne hpos, hsize]
  · have hprev : back w.size q 1 < w.size := back_lt hq
    obtain ⟨n, m, -, -, hle, hout, -⟩ := hmoment hprev
    have hupto : (broadcastTerms w id q (rootBlock q p m₀) p (back w.size q 1)).upto .out
        (channelLink id (back w.size q 1) q) = 0 := by
      by_cases h1 : w.size = 1
      · rw [broadcastTerms, if_pos h1]
        rfl
      · have hlast : back w.size (back w.size q 1) q + 1 = w.size :=
          (back_last_iff hprev hq).mpr (next_of_back hq)
        have htotal := (broadcast_totals w id q p (by omega) (back w.size q 1)).1
        rw [if_pos hlast] at htotal
        rw [broadcastTerms, if_neg h1]
        change (if _ then _ else 0) = 0
        split
        · exact htotal
        · rfl
    have hb := hle .out (channelLink id (back w.size q 1) q)
    rw [hupto, ← hout _ rfl] at hb
    exact List.eq_nil_of_length_eq_zero (Nat.le_zero.mp hb)
  · obtain ⟨n, m, -, -, hle, -, hinn⟩ := hmoment hq
    have hupto : (broadcastTerms w id q (rootBlock q p m₀) p q).upto .inn l = 0 := by
      by_cases h1 : w.size = 1
      · rw [broadcastTerms, if_pos h1]
        rfl
      · have htotal := (broadcast_totals w id q p (by omega) q).2
        rw [if_pos ((back_eq_zero_iff hq hq).mpr rfl)] at htotal
        rw [broadcastTerms, if_neg h1]
        change (if _ then _ else 0) = 0
        split
        · exact htotal
        · rfl
    have hb := hle .inn l
    rw [hupto, ← hinn l hl] at hb
    exact List.eq_nil_of_length_eq_zero (Nat.le_zero.mp hb)
  · obtain ⟨n, m, hm, hfwd, -⟩ := hmoment hq
    rw [hm, hfwd.root rfl]

end Ranks

/-! ## 3. Three ranks -/

/-- Three ranks on one machine, one channel. -/
def broadcastWorld : World Unit := ⟨3, fun _ => (), 1⟩

/-- One element of rank 1 goes to rank 2 and from there to rank 0. -/
def broadcastTrio : Collective where
  func := .broadcast
  elemCount := 1
  dtype := .int32
  root := 1
  sendBuf _ := 0
  recvBuf r := 8 * (r + 1)

/-- Rank `r` holds `40 + r`. -/
def broadcastMem (r a : Nat) : UInt8 := if a = 8 * (r + 1) then 40 + r.toUInt8 else 0

def broadcastEnd : Config Nat Link UInt8 RankState Mem :=
  (Config.start broadcastMem).follow channelSystem (fun _ => 3)
    (broadcastWorld.tasks 0 [broadcastTrio])
    (List.replicate 5 ((List.range 3).flatMap fun v =>
      List.replicate 3 (v, .writable) ++ List.replicate 3 (v, .readable))).flatten

theorem broadcastRun : ∃ ls, Run channelSystem (Flow.any Link)
    (broadcastWorld.tasks 0 [broadcastTrio]) (.start broadcastMem) ls broadcastEnd := by
  obtain ⟨ls, h⟩ := Config.follow_run channelSystem (fun _ => 3)
    (broadcastWorld.tasks 0 [broadcastTrio]) (.start broadcastMem) _
  exact ⟨ls, h.any⟩

theorem broadcast_correct_trio : ∃ m, (broadcastEnd.node 0).mode = .fresh m ∧ m 8 = 41 := by
  obtain ⟨ls, h⟩ := broadcastRun
  have hcorrect := broadcast_correct (q := 1) (w := broadcastWorld) (p := broadcastTrio) (by decide)
    (by decide) rfl rfl (by decide) (by decide) rfl (fun _ _ => Nat.mul_ne_zero (by decide) (by omega)) h
  obtain ⟨m, hm, hres, -⟩ := hcorrect.1 (by decide +kernel) 0 (by decide)
  exact ⟨m, hm, hres 0 (by decide)⟩

end OriginCCL.TopologyRing
