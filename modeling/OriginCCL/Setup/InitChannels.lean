/-
  File:      OriginCCL/Setup/InitChannels.lean
  Subject:   THE CHANNELS AFTER `InitChannels`.

  * `setup_channels` -- when every rank has accepted its number of connections, the channels are
    connected as the topologies want them.
  * `channels_fit` -- **the connections of all ranks fit together**, whatever the order of the
    handshakes, and every connection the topologies look up is there.
-/
import OriginCCL.Setup.Handshakes
import OriginCCL.Topology.Trees

namespace OriginCCL

open Net Base

/-! ## 1. The connected channels -/

section Worlds

variable {H : Type} [DecidableEq H] (w : World H)

namespace SetupState

/-- A connector with what it has been given, if anything. -/
def connector (s : SetupState) (r : Nat) (channel : Channel) (c : Connector) : Connector :=
  if s.held r ⟨c.channelId, c.peer, c.isSend⟩ = [] then c
  else { c with transport := some (connectorLink r channel c) }

/-- The channels of a rank with the connections of their connectors. -/
def channels (s : SetupState) (r : Nat) : List Channel :=
  (w.shaped r).2.map fun channel =>
    { channel with send := channel.send.map (s.connector r channel)
                   recv := channel.recv.map (s.connector r channel) }

end SetupState

variable {w} {s : SetupState} {r id q : Nat}

/-- A rank's edges, connector by connector. -/
theorem edge_iff (hid : id < w.nChannels) (hq : q < w.size) {b : Bool} :
    (⟨id, q, b⟩ : ChannelEdge) ∈ w.edges r ↔
      ((q : Int), b) ∈ channelPeers (w.shapedChannel id r) ∧ (q : Int) ≠ (r : Int) := by
  rw [World.mem_edges]
  constructor
  · rintro ⟨id', -, q', -, hne, he, hmem⟩
    simp only [ChannelEdge.mk.injEq, and_true, Int.ofNat_inj] at he
    obtain ⟨rfl, rfl⟩ := he
    exact ⟨hmem, fun h => hne (Int.ofNat_inj.mp h)⟩
  · rintro ⟨hmem, hne⟩
    exact ⟨id, hid, q, hq, fun h => hne (by rw [h]), rfl, hmem⟩

/-- **When all connections are accepted, the channels are those of the world.** -/
theorem setup_channels (h : Settled w s)
    (hdone : ∀ r < w.size, s.accepted r = (w.acceptEdges r).length) (hr : r < w.size) :
    s.channels w r = w.channels r := by
  have hconn : ∀ id < w.nChannels, ∀ q < w.size, ∀ b,
      s.connector r (w.shapedChannel id r)
          { peer := q, channelId := id, isSend := b, transport := none } =
        connected r (w.shapedChannel id r)
          { peer := q, channelId := id, isSend := b, transport := none } := by
    intro id hid q hq b
    have hiff : s.held r ⟨id, q, b⟩ = [] ↔
        ¬ (((q : Int), b) ∈ channelPeers (w.shapedChannel id r) ∧ (q : Int) ≠ (r : Int)) := by
      rw [← edge_iff hid hq]
      constructor
      · intro h0 hmem
        obtain ⟨conn, hc, -, -⟩ := h.complete hdone hr hmem
        rw [h0] at hc
        cases hc
      · intro hn
        by_contra hne
        exact hn (h.stray r _ hne).2
    unfold SetupState.connector connected
    by_cases hw : ((q : Int), b) ∈ channelPeers (w.shapedChannel id r) ∧ (q : Int) ≠ (r : Int)
    · rw [if_neg (mt hiff.mp (not_not.mpr hw)), if_pos hw]
    · rw [if_pos (hiff.mpr hw), if_neg hw]
  have e : w.channels r = (w.shaped r).2.map (initChannels r) := rfl
  rw [e, SetupState.channels]
  refine List.map_congr_left fun channel hchannel => ?_
  rw [World.shaped_eq] at hchannel
  obtain ⟨id, hid, rfl⟩ := List.mem_map.mp hchannel
  have hid := List.mem_range.mp hid
  have hside : ∀ b,
      ((List.range w.size).map fun (peer : Nat) => Connector.mk peer id b none).map
          (s.connector r (w.shapedChannel id r)) =
        ((List.range w.size).map fun (peer : Nat) => Connector.mk peer id b none).map
          (connected r (w.shapedChannel id r)) := by
    intro b
    refine List.map_congr_left fun c hc => ?_
    obtain ⟨q, hq, rfl⟩ := List.mem_map.mp hc
    exact hconn id hid q (List.mem_range.mp hq) b
  exact congrArg₂ (fun send recv => { w.shapedChannel id r with send := send, recv := recv })
    (hside true) (hside false)

/-! ## 2. The connections of all ranks -/

/-- **The connections of all ranks fit together.** Each rank works out its edges alone; an edge is
    one rank's exactly when its other end is the other rank's, so that what one connects is what the
    other waits for. Whatever the order of the handshakes, no rank fails or waits in vain, and in the
    end every connector of an edge holds one connection, shared with the opposite connector of the
    other rank alone, and the topologies find all connections they look up. -/
theorem channels_fit (w : World H) (hN : 2 ≤ w.size) :
    (∀ a < w.size, ∀ b < w.size, ∀ (channelId : Int) (isSend : Bool),
      (⟨channelId, b, isSend⟩ : ChannelEdge) ∈ w.edges a ↔
        (⟨channelId, a, !isSend⟩ : ChannelEdge) ∈ w.edges b) ∧
    (∀ a < w.size, ∀ b < w.size, a < b →
      (((w.connectEdges a).filter fun e => e.peer = (b : Int)).map fun e => e.back a).Perm
        ((w.acceptEdges b).filter fun e => e.peer = (a : Int))) ∧
    ∀ s, SetupReaches w s →
      (∀ r, s.failed r = false) ∧
      (∀ r < w.size, s.accepted r < (w.acceptEdges r).length → ∃ s', SetupStep w s s') ∧
      ((∀ r < w.size, s.accepted r = (w.acceptEdges r).length) → ∀ r < w.size,
        (∀ e ∈ w.edges r, ∃ conn, s.held r e = [conn] ∧ s.held e.peer.toNat (e.back r) = [conn] ∧
          ∀ r' e', conn ∈ s.held r' e' →
            (r' = r ∧ e' = e) ∨ (r' = e.peer.toNat ∧ e' = e.back r)) ∧
        s.channels w r = w.channels r ∧
        ∀ channel ∈ s.channels w r, ∀ task,
          (TopologyRing.fillTransports channel task).sendTransports.length = 1 ∧
          (TopologyRing.fillTransports channel task).recvTransports.length = 1 ∧
          (TopologyTree.fillTransports channel task).sendTransports.length =
            (TopologyTree.peers channel.tree).length ∧
          (TopologyTree.fillTransports channel task).recvTransports.length =
            (TopologyTree.peers channel.tree).length) := by
  refine ⟨fun a ha b hb channelId isSend => World.edges_back ha hb rfl,
    fun a ha b hb _ => World.connect_accept_perm ha hb, fun s hs => ?_⟩
  have h := setup_settled hs
  refine ⟨h.fine, fun r hr hlt => h.moves hr hlt, fun hdone r hr => ?_⟩
  have hchannels := setup_channels h hdone hr
  refine ⟨fun e he => h.complete hdone hr he, hchannels, fun channel hchannel task => ?_⟩
  have e : w.channels r = (w.shaped r).2.map (initChannels r) := rfl
  rw [hchannels, e, World.shaped_eq, List.map_map] at hchannel
  obtain ⟨id, -, rfl⟩ := List.mem_map.mp hchannel
  obtain ⟨h1, h2⟩ := Collective.ring_fillTransports (w := w) id hN hr task
  obtain ⟨h3, h4⟩ := TopologyTree.links_fillTransports (w := w) id hr task
  have hpeers : TopologyTree.peers (initChannels r (w.shapedChannel id r)).tree =
      (TopologyTree.nbrsOf w id r).map Nat.cast := TopologyTree.peers_treeOf hr
  simp only [Function.comp_apply]
  rw [h1, h2, h3, h4, hpeers]
  simp only [List.length_map, List.length_singleton, and_self]

end Worlds

/-! ## 3. Three ranks -/

/-- A connection made or accepted: the next edge of a rank, or the `i`th that waits at it. -/
inductive SetupAction where
  | dial (r : Nat)
  | accept (r i : Nat)

section Schedules

variable {H : Type} [DecidableEq H] (w : World H)

/-- The next step of a schedule, if it is possible. -/
def SetupState.perform (s : SetupState) : SetupAction → SetupState
  | .dial r =>
    match (w.connectEdges r)[s.dialed r]? with
    | some e => if r < w.size ∧ s.failed r = false then s.dial w r e else s
    | none => s
  | .accept r i =>
    match (s.waiting r)[i]? with
    | some x =>
      if r < w.size ∧ s.failed r = false ∧ s.accepted r < (w.acceptEdges r).length then
        s.accept w r x ((s.waiting r).take i ++ (s.waiting r).drop (i + 1))
      else s
    | none => s

/-- **What a schedule leads to is reached.** -/
theorem setup_schedule (schedule : List SetupAction) :
    SetupReaches w (schedule.foldl (SetupState.perform w) .start) := by
  have key : ∀ s, SetupReaches w s → SetupReaches w (schedule.foldl (SetupState.perform w) s) := by
    induction schedule with
    | nil => exact fun s hs => hs
    | cons a schedule ih =>
      intro s hs
      refine ih _ ?_
      cases a with
      | dial r =>
        simp only [SetupState.perform]
        split
        · rename_i e he
          split
          · rename_i hok
            exact hs.tail (.dial r e hok.1 hok.2 he)
          · exact hs
        · exact hs
      | accept r i =>
        simp only [SetupState.perform]
        split
        · rename_i x hx
          split
          · rename_i hok
            obtain ⟨hi, hx⟩ := List.getElem?_eq_some_iff.mp hx
            refine hs.tail (.accept r x _ _ hok.1 hok.2.1 hok.2.2 ?_)
            rw [← hx, ← List.drop_eq_getElem_cons hi, List.take_append_drop]
          · exact hs
        · exact hs
  exact key _ .refl

end Schedules

/-- Ranks 0 and 2 on one machine, rank 1 on another; one channel. -/
def threeRanks : World Nat := ⟨3, fun r => r % 2, 1⟩

/-- Rank 2 accepts in another order than the connections come. -/
def threeSchedule : List SetupAction :=
  [.dial 0, .dial 0, .dial 0, .dial 0, .dial 1, .accept 2 2, .accept 2 0, .accept 1 1, .accept 1 0,
    .accept 2 0]

theorem channels_fit_three : ∃ s, SetupReaches threeRanks s ∧
    ∃ conn, s.held 2 ⟨0, 0, true⟩ = [conn] ∧ s.held 0 ⟨0, 2, false⟩ = [conn] := by
  have hreach := setup_schedule threeRanks threeSchedule
  obtain ⟨-, -, hfit⟩ := channels_fit threeRanks (by decide)
  obtain ⟨conn, h1, h2, -⟩ := ((hfit _ hreach).2.2 (by decide +kernel) 2 (by decide)).1 ⟨0, 0, true⟩
    (by decide +kernel)
  exact ⟨_, hreach, conn, h1, h2⟩

end OriginCCL
