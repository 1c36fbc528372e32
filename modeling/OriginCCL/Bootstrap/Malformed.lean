/-
  File:      OriginCCL/Bootstrap/Malformed.lean
  Subject:   MALFORMED MESSAGES on the bootstrap socket.

  The source decodes a message without looking at its length, and stores a record at the rank it
  announces. So it stays inside its buffers exactly where the message begins with a whole record (or
  table), and the rank is one of the world.

  * `decoding_in_bounds` -- this condition, for `RecvNodeInfo`, `RecvAllNodes` and `RunMaster`.
  * `decoding_out_of_bounds` -- an empty message, and a rank outside of the world.
-/
import OriginCCL.Bootstrap.Exchange

namespace OriginCCL.Bootstrap

open OriginCCL.Base

/-- The message of a socket, where `RecvAll` delivers one. -/
def Socket.message (sock : Socket) : Option (List UInt8) := (recvAll sock.recvs sock.incoming).1

/-- Every message up to the first that `RecvAll` fails to deliver begins with a whole record of a
    rank of the world. -/
def RanksAnnounced (worldSize : Nat) : List Socket → Prop
  | [] => True
  | sock :: socks => ∀ buffer, sock.message = some buffer →
      (∃ node record, nodeFormat node record ∧ record <+: buffer ∧
        0 ≤ node.rank.toInt ∧ node.rank.toInt < worldSize) ∧
      RanksAnnounced worldSize socks

/-- A message is decoded without a fault if it begins with an encoding. -/
theorem decodeMessage_isOk {α : Type} {dec : Decoder Fault UInt8 α} {F : Format UInt8 α}
    (hdec : dec.Accepts F) (message : Option (List UInt8)) :
    (∃ r, decodeMessage dec message = .ok r) ↔
      ∀ buffer, message = some buffer → ∃ x l, F x l ∧ l <+: buffer := by
  cases message with
  | none =>
    constructor
    · intro _ buffer h
      cases h
    · intro _
      exact ⟨none, rfl⟩
  | some buffer =>
    have hiff := hdec.isOk_iff buffer 0
    rw [List.drop_zero] at hiff
    constructor
    · rintro ⟨r, hr⟩ b hb
      cases hb
      refine hiff.mp ?_
      rw [decodeMessage] at hr
      cases hrun : (dec buffer).run 0 with
      | error fault =>
        rw [hrun] at hr
        cases hr
      | ok x => exact ⟨x, rfl⟩
    · intro h
      obtain ⟨x, hx⟩ := hiff.mpr (h buffer rfl)
      refine ⟨some x.1, ?_⟩
      rw [decodeMessage, hx]
      rfl

/-- What a whole record at the front of a message is decoded to. -/
theorem recvNodeInfo_of_record {sock : Socket} {buffer record : List UInt8} {node : NodeInfo}
    (hmessage : sock.message = some buffer) (hnode : nodeFormat node record)
    (hpre : record <+: buffer) : recvNodeInfo sock = .ok (some node) := by
  have hrun := (decodeNodeInfo_accepts buffer 0 node _).mpr ⟨record, hnode, hpre, rfl⟩
  rw [recvNodeInfo]
  change decodeMessage decodeNodeInfo sock.message = _
  rw [hmessage, decodeMessage, hrun]
  rfl

/-- The receiving loop stays inside its buffers and its table. -/
theorem collectNodes_isOk (allNodes : List NodeInfo) (socks : List Socket) :
    (∃ r, collectNodes allNodes socks = .ok r) ↔ RanksAnnounced allNodes.length socks := by
  induction socks generalizing allNodes with
  | nil => exact ⟨fun _ => trivial, fun _ => ⟨_, rfl⟩⟩
  | cons sock socks ih =>
    cases hmessage : sock.message with
    | none =>
      have hnone : recvNodeInfo sock = .ok none := by
        rw [recvNodeInfo]
        change decodeMessage decodeNodeInfo sock.message = _
        rw [hmessage]
        rfl
      constructor
      · intro _ buffer hbuffer
        rw [hmessage] at hbuffer
        cases hbuffer
      · intro _
        refine ⟨(false, allNodes), ?_⟩
        rw [collectNodes, hnone]
        rfl
    | some buffer =>
      constructor
      · rintro ⟨r, hr⟩ b hb
        obtain rfl : b = buffer := by rw [hmessage] at hb; exact (Option.some.inj hb).symm
        rw [collectNodes] at hr
        cases hnode : recvNodeInfo sock with
        | error fault =>
          rw [hnode] at hr
          cases hr
        | ok received =>
          obtain ⟨node, record, hformat, hpre⟩ :=
            (decodeMessage_isOk decodeNodeInfo_accepts sock.message).mp ⟨received, hnode⟩ b hmessage
          have hgot := recvNodeInfo_of_record hmessage hformat hpre
          rw [hgot] at hr
          change (storeNode allNodes node.rank.toInt node >>= fun allNodes =>
            collectNodes allNodes socks) = _ at hr
          cases hstore : storeNode allNodes node.rank.toInt node with
          | error fault =>
            rw [hstore] at hr
            cases hr
          | ok stored =>
            rw [hstore] at hr
            obtain ⟨hrank, rfl⟩ := storeNode_ok hstore
            have hrest := (ih _).mp ⟨r, hr⟩
            rw [List.length_set] at hrest
            exact ⟨⟨node, record, hformat, hpre, hrank⟩, hrest⟩
      · intro h
        obtain ⟨⟨node, record, hformat, hpre, hrank⟩, hrest⟩ := h buffer hmessage
        rw [← List.length_set (i := node.rank.toInt.toNat) (a := node)] at hrest
        obtain ⟨r, hr⟩ := (ih _).mpr hrest
        refine ⟨r, ?_⟩
        rw [collectNodes, recvNodeInfo_of_record hmessage hformat hpre]
        change (storeNode allNodes node.rank.toInt node >>= fun allNodes =>
          collectNodes allNodes socks) = _
        rw [storeNode, if_pos hrank]
        exact hr

theorem runMaster_isOk {worldSize : Nat} {localNode : NodeInfo} {socks : List Socket}
    (hpos : 0 < worldSize) :
    (∃ r, runMaster worldSize localNode (some socks) = .ok r) ↔ RanksAnnounced worldSize socks := by
  have hlen : ((List.replicate worldSize {}).set 0 localNode : List NodeInfo).length =
      worldSize := by
    rw [List.length_set, List.length_replicate]
  have hstore : storeNode (List.replicate worldSize {}) 0 localNode =
      .ok ((List.replicate worldSize {}).set 0 localNode) :=
    if_pos ⟨le_rfl, by rw [List.length_replicate]; omega⟩
  have hloop := collectNodes_isOk ((List.replicate worldSize {}).set 0 localNode) socks
  rw [hlen] at hloop
  rw [← hloop, runMaster, hstore]
  change (∃ r, (collectNodes _ socks >>= _) = Except.ok r) ↔ _
  cases hcollect : collectNodes ((List.replicate worldSize {}).set 0 localNode) socks with
  | error fault =>
    constructor
    · rintro ⟨r, hr⟩
      cases hr
    · rintro ⟨r, hr⟩
      cases hr
  | ok r =>
    obtain ⟨collected, nodes⟩ := r
    refine ⟨fun _ => ⟨_, rfl⟩, fun _ => ?_⟩
    cases collected with
    | false => exact ⟨_, rfl⟩
    | true => exact ⟨_, rfl⟩

/-- **Where decoding stays inside its buffers**: exactly where every message that is decoded begins
    with a whole record (or table), and the announced rank is one of the world. -/
theorem decoding_in_bounds (sock : Socket) (worldSize : Nat) (hpos : 0 < worldSize)
    (localNode : NodeInfo) (socks : List Socket) :
    ((∃ r, recvNodeInfo sock = .ok r) ↔
      ∀ buffer, sock.message = some buffer →
        ∃ node record, nodeFormat node record ∧ record <+: buffer) ∧
    ((∃ r, recvAllNodes sock = .ok r) ↔
      ∀ buffer, sock.message = some buffer →
        ∃ nodes table, tableFormat nodes table ∧ table <+: buffer) ∧
    ((∃ r, runMaster worldSize localNode (some socks) = .ok r) ↔
      RanksAnnounced worldSize socks) := by
  refine ⟨?_, ?_, ?_⟩
  · exact decodeMessage_isOk decodeNodeInfo_accepts sock.message
  · exact decodeMessage_isOk decodeAllNodes_accepts sock.message
  · exact runMaster_isOk hpos

/-- A message of no bytes: its prefix says 0. -/
def emptyMessage : Socket := { incoming := [0, 0, 0, 0], recvs := byteByByte, sends := byteByByte }

/-- A well-formed record. -/
def recordOf (rank : Int32) : Socket where
  incoming := (sendAll byteByByte (nodeBytes { rank := rank })).2
  recvs := byteByByte
  sends := byteByByte

/-- The record of a rank that a world of two does not have. -/
def strayRank : Socket := recordOf 2

theorem recordOf_message (rank : Int32) :
    (recordOf rank).message = some (nodeBytes { rank := rank }) := by
  have hlen : (nodeBytes { rank := rank }).length = 32 := rfl
  have h := (Exchange.recvAll_reliable (nodeBytes { rank := rank })
    ⟨rfl, byteByByte_moved⟩ ⟨rfl, byteByByte_moved⟩ (by omega)).2
  exact congrArg Prod.fst h

theorem decoding_out_of_bounds :
    recvNodeInfo emptyMessage = .error .outOfBounds ∧
    recvAllNodes emptyMessage = .error .outOfBounds ∧
    runMaster 2 {} (some [strayRank]) = .error .outOfTable := by
  have hnode : recvNodeInfo strayRank = .ok (some { rank := 2 }) :=
    recvNodeInfo_of_record (recordOf_message 2) (nodeFormat_nodeBytes (by decide))
      (List.prefix_refl _)
  refine ⟨rfl, rfl, ?_⟩
  rw [runMaster]
  change (collectNodes [{}, {}] [strayRank] >>= _) = _
  rw [collectNodes, hnode]
  rfl

/-- The record of rank 1 is within the condition; that of rank 2 is not in a world of two. -/
theorem decoding_in_bounds_two :
    (∃ r, recvNodeInfo (recordOf 1) = .ok r) ∧ (∃ r, runMaster 2 {} (some [recordOf 1]) = .ok r) ∧
    ((∃ r, runMaster 2 {} (some [strayRank]) = .ok r) ↔ RanksAnnounced 2 [strayRank]) := by
  have hrecord : ∀ buffer, (recordOf 1).message = some buffer →
      nodeFormat { rank := 1 } (nodeBytes { rank := 1 }) ∧ nodeBytes { rank := 1 } <+: buffer := by
    intro buffer h
    obtain rfl := Option.some.inj ((recordOf_message 1).symm.trans h)
    exact ⟨nodeFormat_nodeBytes (by decide), List.prefix_refl _⟩
  obtain ⟨hnode, -, hmaster⟩ := decoding_in_bounds (recordOf 1) 2 (by decide) {} [recordOf 1]
  refine ⟨hnode.mpr fun buffer h => ⟨_, _, hrecord buffer h⟩, hmaster.mpr fun buffer h => ?_,
    (decoding_in_bounds strayRank 2 (by decide) {} [strayRank]).2.2⟩
  obtain ⟨hformat, hprefix⟩ := hrecord buffer h
  exact ⟨⟨_, _, hformat, hprefix, by decide, by decide⟩, trivial⟩

end OriginCCL.Bootstrap
