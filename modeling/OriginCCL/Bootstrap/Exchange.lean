/-
  File:      OriginCCL/Bootstrap/Exchange.lean
  Subject:   THE EXCHANGE of the node table (`src/bootstrap.cpp`).

  * `recvNodeInfo`, `recvAllNodes`, `runMaster`, `runWorker` -- the functions of `Bootstrap`. A
    socket is what arrives on it and the kernel's answers to the calls on it.
  * `Exchange` -- all ranks at once: what each announces, the order in which the master accepts
    them, and the kernel's answers on every rank.
  * `exchange_same_table` -- **whatever the order, every rank gets the same table**.
-/
import OriginCCL.Bootstrap.Streams

namespace OriginCCL.Bootstrap

open OriginCCL.Base

/-! ## 1. The functions -/

/-- A connected socket: what arrives on it, and the answers to its calls. -/
structure Socket where
  incoming : List UInt8
  recvs : SocketAnswers
  sends : SocketAnswers

/-- A decoder at the front of the message `RecvAll` delivered; `none` where it returned false. -/
def decodeMessage {α : Type} (dec : Decoder Fault UInt8 α) :
    Option (List UInt8) → Except Fault (Option α)
  | none => .ok none
  | some buffer => do
    let (x, _) ← (dec buffer).run 0
    return some x

/-- `RecvNodeInfo`: the node, or `none` for false. -/
def recvNodeInfo (sock : Socket) : Except Fault (Option NodeInfo) :=
  decodeMessage decodeNodeInfo (recvAll sock.recvs sock.incoming).1

/-- `RecvAllNodes` -/
def recvAllNodes (sock : Socket) : Except Fault (Option (List NodeInfo)) :=
  decodeMessage decodeAllNodes (recvAll sock.recvs sock.incoming).1

/-- `SendNodeInfo`: what it returns, and the bytes on the stream. -/
def sendNodeInfo (sends : SocketAnswers) (nodeInfo : NodeInfo) : Bool × List UInt8 :=
  sendAll sends (encodeNodeInfo [] nodeInfo)

/-- `BroadcastAllNodes`: what it returns, and the bytes it put on each socket. -/
def broadcastAllNodes (nodes : List NodeInfo) : List Socket → Bool × List (List UInt8)
  | [] => (true, [])
  | sock :: socks =>
    let (ok, bytes) := sendAll sock.sends (encodeAllNodes nodes)
    if ok then
      let (all, rest) := broadcastAllNodes nodes socks
      (all, bytes :: rest)
    else (false, [bytes])

/-- `all_nodes[rank] = node` -/
def storeNode (allNodes : List NodeInfo) (rank : Int) (node : NodeInfo) :
    Except Fault (List NodeInfo) :=
  if 0 ≤ rank ∧ rank < allNodes.length then .ok (allNodes.set rank.toNat node)
  else .error .outOfTable

/-- The receiving loop of `RunMaster`: the table, and whether every record came. -/
def collectNodes : List NodeInfo → List Socket → Except Fault (Bool × List NodeInfo)
  | allNodes, [] => .ok (true, allNodes)
  | allNodes, sock :: socks => do
    match ← recvNodeInfo sock with
    | none => return (false, allNodes)
    | some node =>
      let allNodes ← storeNode allNodes node.rank.toInt node
      collectNodes allNodes socks

/-- `RunMaster` after `AcceptConnections`, which gives the sockets or fails: what it returns, the
    table, and the bytes put on each socket. -/
def runMaster (worldSize : Nat) (localNode : NodeInfo) (accepted : Option (List Socket)) :
    Except Fault (Bool × List NodeInfo × List (List UInt8)) := do
  let allNodes ← storeNode (List.replicate worldSize {}) 0 localNode
  match accepted with
  | none => return (false, allNodes, [])
  | some workerSocks =>
    let (collected, allNodes) ← collectNodes allNodes workerSocks
    if collected then
      let (sent, bytes) := broadcastAllNodes allNodes workerSocks
      return (sent, allNodes, bytes)
    else return (false, allNodes, [])

/-- The bytes `RunWorker` puts on its connection; it sends before it receives. -/
def workerSends (sends : SocketAnswers) (localNode : NodeInfo) : List UInt8 :=
  (sendNodeInfo sends localNode).2

/-- `RunWorker`; `none` where it could not connect. -/
def runWorker (localNode : NodeInfo) (connected : Option Socket) :
    Except Fault (Bool × List NodeInfo) :=
  match connected with
  | none => .ok (false, [])
  | some sock =>
    if (sendNodeInfo sock.sends localNode).1 then do
      match ← recvAllNodes sock with
      | none => return (false, [])
      | some nodes => return (true, nodes)
    else .ok (false, [])

/-! ## 2. All ranks at once -/

/-- A run of `Bootstrap::Run` on all ranks. -/
structure Exchange where
  worldSize : Nat
  /-- What a rank announces; rank 0 is the master. -/
  info : Nat → NodeInfo
  /-- The workers in the order in which the master accepts them, if it does. -/
  accepted : Option (List Nat)
  /-- Whether a worker's connection came about. -/
  connects : Nat → Bool
  /-- The kernel's answers on the master's socket to a worker. -/
  masterRecvs : Nat → SocketAnswers
  masterSends : Nat → SocketAnswers
  /-- The kernel's answers on a worker's socket. -/
  workerRecvs : Nat → SocketAnswers
  workerSends : Nat → SocketAnswers

namespace Exchange

variable (e : Exchange)

/-- The bytes from a worker to the master. -/
def upstream (r : Nat) : List UInt8 :=
  if e.connects r then Bootstrap.workerSends (e.workerSends r) (e.info r) else []

/-- The master's socket to a worker. -/
def masterSocket (r : Nat) : Socket :=
  { incoming := e.upstream r, recvs := e.masterRecvs r, sends := e.masterSends r }

/-- The master. -/
def master : Except Fault (Bool × List NodeInfo × List (List UInt8)) :=
  runMaster e.worldSize (e.info 0) (e.accepted.map fun order => order.map e.masterSocket)

/-- The bytes from the master to a worker: those it put on the socket of this worker. -/
def downstream (r : Nat) : List UInt8 :=
  match e.master, e.accepted with
  | .ok (_, _, bytes), some order => ((order.zip bytes).lookup r).getD []
  | _, _ => []

/-- A worker's socket. -/
def workerSocket (r : Nat) : Socket :=
  { incoming := e.downstream r, recvs := e.workerRecvs r, sends := e.workerSends r }

/-- `Bootstrap::Run` on a rank: what it returns, and the rank's table. -/
def run (r : Nat) : Except Fault (Bool × List NodeInfo) :=
  if r = 0 then do
    let (ok, allNodes, _) ← e.master
    return (ok, allNodes)
  else runWorker (e.info r) (if e.connects r then some (e.workerSocket r) else none)

/-- The workers announce the ranks 1 to N - 1, each its own. -/
structure Announced : Prop where
  two : 2 ≤ e.worldSize
  rank : ∀ r < e.worldSize, (e.info r).rank.toInt = r
  order : ∀ order, e.accepted = some order → order.Perm (List.range' 1 (e.worldSize - 1))

/-- What a connection accepted and its receiver never takes lies in the kernel's buffers: fewer
    than 4 GiB, whose sizes are of type `int`. -/
def Buffered : Prop :=
  ∀ r, 0 < r → r < e.worldSize →
    (recvAll (e.masterRecvs r) (e.upstream r)).2.length < 2 ^ 32 ∧
    (recvAll (e.workerRecvs r) (e.downstream r)).2.length < 2 ^ 32

/-- Every rank returns true. -/
def AllTrue : Prop := ∀ r < e.worldSize, ∃ table, e.run r = .ok (true, table)

/-- The table of the announced nodes. -/
def table : List NodeInfo := (List.range e.worldSize).map e.info

end Exchange

/-! ## 3. What a message says -/

/-- What a decoder makes of a message it recovers the value of. -/
theorem decodeMessage_recovers {α : Type} {dec : Decoder Fault UInt8 α} {bytes : List UInt8}
    {x y : α} (hdec : dec.Recovers bytes x)
    (h : decodeMessage dec (some bytes) = .ok (some y)) : y = x := by
  rw [decodeMessage] at h
  cases hrun : (dec bytes).run 0 with
  | error fault =>
    rw [hrun] at h
    cases h
  | ok r =>
    rw [hrun] at h
    cases h
    exact (hdec bytes 0 r.1 r.2 (.inl (List.prefix_refl bytes)) hrun).1

theorem decodeMessage_some {α : Type} {dec : Decoder Fault UInt8 α}
    {message : Option (List UInt8)} {x : α} (h : decodeMessage dec message = .ok (some x)) :
    ∃ buffer, message = some buffer := by
  cases message with
  | none => cases h
  | some buffer => exact ⟨buffer, rfl⟩

/-- A message that is taken whole is decoded to what was encoded. -/
theorem decodeMessage_whole {α : Type} {dec : Decoder Fault UInt8 α} {answers : SocketAnswers}
    {data : List UInt8} {x y : α} (hdec : data.length < 2 ^ 32 → dec.Recovers data x)
    (hrest : (recvAll answers (sizePrefix data ++ data)).2.length < 2 ^ 32)
    (h : decodeMessage dec (recvAll answers (sizePrefix data ++ data)).1 = .ok (some y)) :
    y = x := by
  obtain ⟨buffer, hbuffer⟩ := decodeMessage_some h
  obtain ⟨rfl, hlen⟩ := recvAll_whole (Prod.ext hbuffer rfl) hrest
  rw [hbuffer] at h
  exact decodeMessage_recovers (hdec hlen) h

theorem nodeBytes_recovers {node : NodeInfo} (h : (nodeBytes node).length < 2 ^ 32) :
    decodeNodeInfo.Recovers (nodeBytes node) node :=
  decodeNodeInfo_recovers fun _ hstr => (length_lt_nodeBytes hstr).trans h

theorem encodeAllNodes_recovers {nodes : List NodeInfo}
    (h : (encodeAllNodes nodes).length < 2 ^ 32) :
    decodeAllNodes.Recovers (encodeAllNodes nodes) nodes :=
  decodeAllNodes_recovers
    (fun _ hnode _ hstr => ((length_lt_nodeBytes hstr).trans (length_nodeBytes_lt hnode)).trans h)
    (length_nodes_lt h)

/-! ## 4. The master's table -/

theorem storeNode_ok {allNodes table : List NodeInfo} {rank : Int} {node : NodeInfo}
    (h : storeNode allNodes rank node = .ok table) :
    (0 ≤ rank ∧ rank < allNodes.length) ∧ table = allNodes.set rank.toNat node := by
  rw [storeNode] at h
  split_ifs at h with hrank
  cases h
  exact ⟨hrank, rfl⟩

/-- One socket of the receiving loop. -/
theorem collectNodes_cons {allNodes table : List NodeInfo} {sock : Socket} {socks : List Socket}
    (h : collectNodes allNodes (sock :: socks) = .ok (true, table)) :
    ∃ node, recvNodeInfo sock = .ok (some node) ∧
      collectNodes (allNodes.set node.rank.toInt.toNat node) socks = .ok (true, table) := by
  rw [collectNodes] at h
  cases hnode : recvNodeInfo sock with
  | error fault =>
    rw [hnode] at h
    cases h
  | ok received =>
    rw [hnode] at h
    cases received with
    | none => cases h
    | some node =>
      change (storeNode allNodes node.rank.toInt node >>= fun allNodes =>
        collectNodes allNodes socks) = _ at h
      cases hstore : storeNode allNodes node.rank.toInt node with
      | error fault =>
        rw [hstore] at h
        cases h
      | ok stored =>
        rw [hstore] at h
        obtain ⟨-, rfl⟩ := storeNode_ok hstore
        exact ⟨node, rfl, h⟩

/-- The receiving loop stores what each worker announces at its rank. -/
theorem collectNodes_true {info : Nat → NodeInfo} {sock : Nat → Socket} {order : List Nat}
    {allNodes table : List NodeInfo} (hrank : ∀ r ∈ order, (info r).rank.toInt = r)
    (hsock : ∀ r ∈ order, ∀ node, recvNodeInfo (sock r) = .ok (some node) → node = info r)
    (h : collectNodes allNodes (order.map sock) = .ok (true, table)) :
    table = order.foldl (fun nodes r => nodes.set r (info r)) allNodes := by
  induction order generalizing allNodes with
  | nil =>
    cases h
    rfl
  | cons r order ih =>
    obtain ⟨node, hnode, hrest⟩ := collectNodes_cons h
    obtain rfl := hsock r List.mem_cons_self node hnode
    rw [hrank r List.mem_cons_self, Int.toNat_natCast] at hrest
    exact ih (fun q hq => hrank q (List.mem_cons_of_mem r hq))
      (fun q hq => hsock q (List.mem_cons_of_mem r hq)) hrest

/-- Entries stored in any order: the table says the same. -/
theorem getElem?_foldl_set {α : Type} (f : Nat → α) (order : List Nat) (table : List α) (i : Nat) :
    (order.foldl (fun table r => table.set r (f r)) table)[i]? =
      if i ∈ order ∧ i < table.length then some (f i) else table[i]? := by
  induction order generalizing table with
  | nil => simp
  | cons r order ih =>
    rw [List.foldl_cons, ih, List.length_set, List.getElem?_set]
    by_cases hi : i < table.length
    · by_cases hr : r = i
      · subst hr
        simp [hi]
      · simp [hr, hi, Ne.symm hr]
    · by_cases hr : r = i
      · subst hr
        simp [hi]
      · simp [hr, hi]

/-- The master's table, whatever the order of the ranks 1 to N - 1. -/
theorem foldl_set_order {α : Type} {f : Nat → α} {order : List Nat} {n : Nat} {x : α}
    (horder : order.Perm (List.range' 1 (n - 1))) :
    order.foldl (fun table r => table.set r (f r)) ((List.replicate n x).set 0 (f 0)) =
      (List.range n).map f := by
  refine List.ext_getElem? fun i => ?_
  simp only [getElem?_foldl_set, horder.mem_iff, List.mem_range'_1, List.length_set,
    List.length_replicate, List.getElem?_map]
  by_cases hi : i < n
  · rw [List.getElem?_range hi]
    by_cases h0 : i = 0
    · subst h0
      simp [hi]
    · rw [if_pos ⟨by omega, hi⟩]
      rfl
  · rw [if_neg (by omega), List.getElem?_eq_none (by simpa using hi),
      List.getElem?_eq_none (by simpa using hi)]
    rfl

/-- A broadcast that returns true has put the whole message on every socket. -/
theorem broadcastAllNodes_true {nodes : List NodeInfo} {socks : List Socket}
    {bytes : List (List UInt8)} (h : broadcastAllNodes nodes socks = (true, bytes)) :
    bytes = socks.map fun _ => sizePrefix (encodeAllNodes nodes) ++ encodeAllNodes nodes := by
  induction socks generalizing bytes with
  | nil =>
    cases h
    rfl
  | cons sock socks ih =>
    cases hsent : sendAll sock.sends (encodeAllNodes nodes) with
    | mk ok sent =>
      rw [broadcastAllNodes, hsent] at h
      cases ok with
      | false => cases h
      | true =>
        have hmessage : (sendAll sock.sends (encodeAllNodes nodes)).2 =
            sizePrefix (encodeAllNodes nodes) ++ encodeAllNodes nodes :=
          sendAll_true (by rw [hsent])
        rw [hsent] at hmessage
        cases hrest : broadcastAllNodes nodes socks with
        | mk all rest =>
          rw [hrest] at h
          cases h
          rw [List.map_cons, ← ih hrest, ← hmessage]

/-- What `RunMaster` has done where it returns true. -/
theorem runMaster_true {worldSize : Nat} {localNode : NodeInfo} {accepted : Option (List Socket)}
    {table : List NodeInfo} {bytes : List (List UInt8)}
    (h : runMaster worldSize localNode accepted = .ok (true, table, bytes)) :
    ∃ socks, accepted = some socks ∧
      collectNodes ((List.replicate worldSize {}).set 0 localNode) socks = .ok (true, table) ∧
      broadcastAllNodes table socks = (true, bytes) := by
  rw [runMaster] at h
  cases hstore : storeNode (List.replicate worldSize {}) 0 localNode with
  | error fault =>
    rw [hstore] at h
    cases h
  | ok allNodes =>
    rw [hstore] at h
    obtain ⟨-, rfl⟩ := storeNode_ok hstore
    cases accepted with
    | none => cases h
    | some socks =>
      refine ⟨socks, rfl, ?_⟩
      change (collectNodes _ socks >>= _) = _ at h
      cases hcollect : collectNodes ((List.replicate worldSize {}).set (0 : Int).toNat localNode)
          socks with
      | error fault =>
        rw [hcollect] at h
        cases h
      | ok r =>
        obtain ⟨collected, nodes⟩ := r
        rw [hcollect] at h
        cases collected with
        | false => cases h
        | true =>
          change Except.ok ((broadcastAllNodes nodes socks).1, nodes,
            (broadcastAllNodes nodes socks).2) = _ at h
          simp only [Except.ok.injEq, Prod.mk.injEq] at h
          obtain ⟨h1, rfl, h2⟩ := h
          exact ⟨hcollect, Prod.ext h1 h2⟩

/-- What `RunWorker` has done where it returns true. -/
theorem runWorker_true {localNode : NodeInfo} {connected : Option Socket} {table : List NodeInfo}
    (h : runWorker localNode connected = .ok (true, table)) :
    ∃ sock, connected = some sock ∧ (sendNodeInfo sock.sends localNode).1 = true ∧
      recvAllNodes sock = .ok (some table) := by
  cases connected with
  | none => cases h
  | some sock =>
    refine ⟨sock, rfl, ?_⟩
    change (if (sendNodeInfo sock.sends localNode).1 then _ else _) = _ at h
    by_cases hsent : (sendNodeInfo sock.sends localNode).1 = true
    swap
    · rw [if_neg hsent] at h
      cases h
    rw [if_pos hsent] at h
    refine ⟨hsent, ?_⟩
    cases hnodes : recvAllNodes sock with
    | error fault =>
      rw [hnodes] at h
      cases h
    | ok received =>
      rw [hnodes] at h
      cases received with
      | none => cases h
      | some nodes =>
        cases h
        rfl

/-! ## 5. All ranks get the same table -/

namespace Exchange

variable {e : Exchange}

/-- A worker that returns true has sent its whole record. -/
theorem upstream_of_run {r : Nat} (hr : r ≠ 0) {table : List NodeInfo}
    (h : e.run r = .ok (true, table)) :
    e.upstream r = sizePrefix (nodeBytes (e.info r)) ++ nodeBytes (e.info r) := by
  rw [run, if_neg hr] at h
  obtain ⟨sock, hsock, hsent, -⟩ := runWorker_true h
  split_ifs at hsock with hconn
  cases hsock
  rw [upstream, if_pos hconn]
  exact sendAll_true hsent

theorem master_of_run {table : List NodeInfo} (h : e.run 0 = .ok (true, table)) :
    ∃ bytes, e.master = .ok (true, table, bytes) := by
  rw [run, if_pos rfl] at h
  cases hmaster : e.master with
  | error fault =>
    rw [hmaster] at h
    cases h
  | ok r =>
    obtain ⟨ok, nodes, bytes⟩ := r
    rw [hmaster] at h
    cases h
    exact ⟨bytes, rfl⟩

/-- The master collects the table of the announced nodes. -/
theorem run_master (ha : e.Announced) (hb : e.Buffered) (ht : e.AllTrue) :
    ∃ order bytes, e.accepted = some order ∧ order.Perm (List.range' 1 (e.worldSize - 1)) ∧
      e.master = .ok (true, e.table, bytes) ∧
      bytes = order.map fun _ => sizePrefix (encodeAllNodes e.table) ++ encodeAllNodes e.table := by
  have htwo := ha.two
  obtain ⟨table, hrun⟩ := ht 0 (by omega)
  obtain ⟨bytes, hmaster⟩ := master_of_run hrun
  obtain ⟨socks, hsocks, hcollect, hbroadcast⟩ := runMaster_true hmaster
  obtain ⟨order, horder, rfl⟩ := Option.map_eq_some_iff.mp hsocks
  have hperm := ha.order order horder
  have hmem : ∀ r ∈ order, 0 < r ∧ r < e.worldSize := by
    intro r hr
    have := List.mem_range'_1.mp (hperm.mem_iff.mp hr)
    omega
  have htable : table = e.table := by
    have hsock : ∀ r ∈ order, ∀ node, recvNodeInfo (e.masterSocket r) = .ok (some node) →
        node = e.info r := by
      intro r hr node hnode
      obtain ⟨hpos, hlt⟩ := hmem r hr
      obtain ⟨table', hrun'⟩ := ht r hlt
      have hup := upstream_of_run (by omega) hrun'
      have hrest := (hb r hpos hlt).1
      rw [hup] at hrest
      rw [recvNodeInfo, masterSocket, hup] at hnode
      exact decodeMessage_whole nodeBytes_recovers hrest hnode
    rw [collectNodes_true (fun r hr => ha.rank r (hmem r hr).2) hsock hcollect]
    exact foldl_set_order hperm
  subst htable
  refine ⟨order, bytes, horder, hperm, hmaster, ?_⟩
  rw [broadcastAllNodes_true hbroadcast, List.map_map]
  rfl

theorem lookup_zip_map {α : Type} {order : List Nat} {x : α} {r : Nat} (h : r ∈ order) :
    (order.zip (order.map fun _ => x)).lookup r = some x := by
  induction order with
  | nil => cases h
  | cons q order ih =>
    rw [List.map_cons, List.zip_cons_cons, List.lookup_cons]
    by_cases hq : r = q
    · subst hq
      simp
    · have hne : (r == q) = false := by simpa using hq
      rw [hne]
      exact ih ((List.mem_cons.mp h).resolve_left hq)

/-- The run of a worker ends with the master's table. -/
theorem run_worker (ha : e.Announced) (hb : e.Buffered) (ht : e.AllTrue) {r : Nat} (hpos : 0 < r)
    (hlt : r < e.worldSize) : e.run r = .ok (true, e.table) := by
  obtain ⟨order, bytes, horder, hperm, hmaster, rfl⟩ := run_master ha hb ht
  obtain ⟨table, hrun⟩ := ht r hlt
  rw [hrun]
  rw [run, if_neg (by omega)] at hrun
  obtain ⟨sock, hsock, -, hrecv⟩ := runWorker_true hrun
  split_ifs at hsock with hconn
  cases hsock
  have hmem : r ∈ order := hperm.mem_iff.mpr (List.mem_range'_1.mpr ⟨by omega, by omega⟩)
  have hdown : e.downstream r =
      sizePrefix (encodeAllNodes e.table) ++ encodeAllNodes e.table := by
    rw [downstream, hmaster, horder]
    show ((order.zip (order.map _)).lookup r).getD [] = _
    rw [lookup_zip_map hmem]
    rfl
  have hrest := (hb r hpos hlt).2
  rw [hdown] at hrest
  rw [recvAllNodes, workerSocket, hdown] at hrecv
  rw [decodeMessage_whole encodeAllNodes_recovers hrest hrecv]

/-- **Every rank gets the same table**, whatever the order of arrival: where every rank returns true,
    entry r of every table is what rank r announced, and two runs with the same announcements end
    with the same tables. -/
theorem exchange_same_table (e : Exchange) (ha : e.Announced) (hb : e.Buffered) (ht : e.AllTrue) :
    (∀ r < e.worldSize, ∃ table, e.run r = .ok (true, table) ∧ table.length = e.worldSize ∧
      ∀ q < e.worldSize, table[q]? = some (e.info q)) ∧
    ∀ e' : Exchange, e'.worldSize = e.worldSize → (∀ r < e.worldSize, e'.info r = e.info r) →
      e'.Announced → e'.Buffered → e'.AllTrue →
      ∀ r < e.worldSize, ∀ q < e.worldSize, e'.run r = e.run q := by
  have hrun : ∀ e : Exchange, e.Announced → e.Buffered → e.AllTrue → ∀ r < e.worldSize,
      e.run r = .ok (true, e.table) := by
    intro e ha hb ht r hr
    rcases Nat.eq_zero_or_pos r with rfl | hpos
    · obtain ⟨order, bytes, -, -, hmaster, -⟩ := run_master ha hb ht
      rw [run, if_pos rfl, hmaster]
      rfl
    · exact run_worker ha hb ht hpos hr
  refine ⟨?_, ?_⟩
  · intro r hr
    refine ⟨e.table, hrun e ha hb ht r hr, by simp [table], ?_⟩
    intro q hq
    rw [table, List.getElem?_map, List.getElem?_range hq]
    rfl
  · intro e' hsize hinfo ha' hb' ht' r hr q hq
    have htable : e'.table = e.table := by
      rw [table, table, hsize]
      exact List.map_congr_left fun r hr => hinfo r (List.mem_range.mp hr)
    rw [hrun e' ha' hb' ht' r (by omega), hrun e ha hb ht q hq, htable]

/-! ## 6. Where nothing fails, every rank returns true -/

/-- Kernels that take every prefix whole and never fail. -/
def Reliable (answers : SocketAnswers) : Prop :=
  (answers 0 0 4).count 4 = 4 ∧ ∀ i o n, ∃ more, answers i o n = .moved more

/-- Nothing fails, and every message fits. -/
structure Unfailing (e : Exchange) (order : List Nat) : Prop where
  accepted : e.accepted = some order
  connects : ∀ r, e.connects r = true
  reliable : ∀ r, Reliable (e.masterRecvs r) ∧ Reliable (e.masterSends r) ∧
    Reliable (e.workerRecvs r) ∧ Reliable (e.workerSends r)
  strings : ∀ r < e.worldSize, ∀ str ∈ (e.info r).strings, str.length < 2 ^ 31
  total : (encodeAllNodes e.table).length < 2 ^ 32

/-- A message sent and taken by kernels that do not fail. -/
theorem recvAll_reliable {sends recvs : SocketAnswers} (data : List UInt8)
    (hs : Reliable sends) (hr : Reliable recvs) (hdata : data.length < 2 ^ 32) :
    (sendAll sends data).1 = true ∧ recvAll recvs (sendAll sends data).2 = (some data, []) := by
  have hsend := sendAll_reliable data hs.1 hs.2
  have hrecv := recvAll_sendAll [] hdata hsend hr.1 hr.2
  rw [List.append_nil] at hrecv
  exact ⟨hsend, hrecv⟩

/-- An encoding is decoded from the front of its message. -/
theorem decodeMessage_accepts {α : Type} {dec : Decoder Fault UInt8 α} {F : Format UInt8 α} {x : α}
    {bytes : List UInt8} (hdec : dec.Accepts F) (h : F x bytes) :
    decodeMessage dec (some bytes) = .ok (some x) := by
  have hrun := hdec.decode h [] []
  rw [List.nil_append, List.append_nil, List.length_nil] at hrun
  rw [decodeMessage, hrun]
  rfl

theorem collectNodes_foldl {info : Nat → NodeInfo} (sock : Nat → Socket) {order : List Nat}
    (allNodes : List NodeInfo) (hrank : ∀ r ∈ order, (info r).rank.toInt = r)
    (hlt : ∀ r ∈ order, r < allNodes.length)
    (hsock : ∀ r ∈ order, recvNodeInfo (sock r) = .ok (some (info r))) :
    collectNodes allNodes (order.map sock) =
      .ok (true, order.foldl (fun nodes r => nodes.set r (info r)) allNodes) := by
  induction order generalizing allNodes with
  | nil => rfl
  | cons r order ih =>
    have hstore : storeNode allNodes (info r).rank.toInt (info r) =
        .ok (allNodes.set r (info r)) := by
      rw [hrank r List.mem_cons_self]
      exact if_pos ⟨by omega, by exact_mod_cast hlt r List.mem_cons_self⟩
    rw [List.map_cons, collectNodes, hsock r List.mem_cons_self]
    show (storeNode allNodes (info r).rank.toInt (info r) >>= fun allNodes =>
      collectNodes allNodes (order.map sock)) = _
    rw [hstore]
    refine ih _ (fun q hq => hrank q (List.mem_cons_of_mem r hq)) ?_
      (fun q hq => hsock q (List.mem_cons_of_mem r hq))
    intro q hq
    rw [List.length_set]
    exact hlt q (List.mem_cons_of_mem r hq)

theorem broadcastAllNodes_reliable (nodes : List NodeInfo) (socks : List Socket)
    (h : ∀ sock ∈ socks, (sendAll sock.sends (encodeAllNodes nodes)).1 = true) :
    (broadcastAllNodes nodes socks).1 = true := by
  induction socks with
  | nil => rfl
  | cons sock socks ih =>
    have hsent := h sock List.mem_cons_self
    rw [broadcastAllNodes]
    cases hs : sendAll sock.sends (encodeAllNodes nodes) with
    | mk ok sent =>
      rw [hs] at hsent
      obtain rfl : ok = true := hsent
      exact ih fun s hs => h s (List.mem_cons_of_mem sock hs)

section Unfailing

variable {order : List Nat} (hu : e.Unfailing order)
include hu

/-- The record of every worker arrives. -/
theorem unfailing_upstream {r : Nat} (hr : r < e.worldSize) :
    (sendNodeInfo (e.workerSends r) (e.info r)).1 = true ∧
      recvAll (e.masterRecvs r) (e.upstream r) = (some (nodeBytes (e.info r)), []) := by
  obtain ⟨hmr, -, -, hws⟩ := hu.reliable r
  have hin : e.info r ∈ e.table := List.mem_map_of_mem (List.mem_range.mpr hr)
  rw [upstream, if_pos (hu.connects r)]
  exact recvAll_reliable _ hws hmr ((length_nodeBytes_lt hin).trans hu.total)

theorem unfailing_recvNodeInfo {r : Nat} (hr : r < e.worldSize) :
    recvNodeInfo (e.masterSocket r) = .ok (some (e.info r)) := by
  rw [recvNodeInfo, masterSocket, (unfailing_upstream hu hr).2]
  exact decodeMessage_accepts decodeNodeInfo_accepts (nodeFormat_nodeBytes (hu.strings r hr))

variable (ha : e.Announced)
include ha

theorem mem_order {r : Nat} : r ∈ order ↔ 0 < r ∧ r < e.worldSize := by
  rw [(ha.order order hu.accepted).mem_iff, List.mem_range'_1]
  omega

/-- The master collects the whole table and sends it to every worker. -/
theorem unfailing_master : e.master = .ok (true, e.table, order.map fun _ =>
    sizePrefix (encodeAllNodes e.table) ++ encodeAllNodes e.table) := by
  have htwo := ha.two
  have hmem : ∀ r ∈ order, r < e.worldSize := fun r hr => ((mem_order hu ha).mp hr).2
  have hstore : storeNode (List.replicate e.worldSize {}) 0 (e.info 0) =
      .ok ((List.replicate e.worldSize {}).set 0 (e.info 0)) :=
    if_pos ⟨le_rfl, by rw [List.length_replicate]; omega⟩
  have hcollect := collectNodes_foldl e.masterSocket
    ((List.replicate e.worldSize {}).set 0 (e.info 0))
    (fun r hr => ha.rank r (hmem r hr))
    (fun r hr => by rw [List.length_set, List.length_replicate]; exact hmem r hr)
    (fun r hr => unfailing_recvNodeInfo hu (hmem r hr))
  rw [foldl_set_order (ha.order order hu.accepted)] at hcollect
  have hsent := broadcastAllNodes_reliable e.table (order.map e.masterSocket) (by
    intro sock hsock
    obtain ⟨r, -, rfl⟩ := List.mem_map.mp hsock
    obtain ⟨-, hms, -⟩ := hu.reliable r
    exact sendAll_reliable _ hms.1 hms.2)
  have hbytes := broadcastAllNodes_true (Prod.ext hsent rfl)
  rw [List.map_map] at hbytes
  rw [master, hu.accepted, runMaster, hstore]
  show (collectNodes _ (order.map e.masterSocket) >>= _) = _
  rw [hcollect]
  show Except.ok ((broadcastAllNodes e.table (order.map e.masterSocket)).1, e.table,
    (broadcastAllNodes e.table (order.map e.masterSocket)).2) = _
  rw [hsent]
  exact congrArg (fun bytes => Except.ok (true, e.table, bytes)) hbytes

/-- The table arrives at every worker. -/
theorem unfailing_downstream {r : Nat} (hpos : 0 < r) (hr : r < e.worldSize) :
    recvAll (e.workerRecvs r) (e.downstream r) = (some (encodeAllNodes e.table), []) := by
  obtain ⟨-, hms, hwr, -⟩ := hu.reliable r
  have hmessage := sendAll_true (sendAll_reliable (encodeAllNodes e.table) hms.1 hms.2)
  have hdown : e.downstream r = (sendAll (e.masterSends r) (encodeAllNodes e.table)).2 := by
    rw [downstream, unfailing_master hu ha, hu.accepted, hmessage]
    show ((order.zip (order.map _)).lookup r).getD [] = _
    rw [lookup_zip_map ((mem_order hu ha).mpr ⟨hpos, hr⟩)]
    rfl
  rw [hdown]
  exact (recvAll_reliable _ hms hwr hu.total).2

theorem unfailing_worker {r : Nat} (hpos : 0 < r) (hr : r < e.worldSize) :
    e.run r = .ok (true, e.table) := by
  have htable : tableFormat e.table (encodeAllNodes e.table) := by
    refine tableFormat_encodeAllNodes ?_ (length_nodes_lt hu.total)
    intro node hnode
    obtain ⟨q, hq, rfl⟩ := List.mem_map.mp hnode
    exact hu.strings q (List.mem_range.mp hq)
  rw [run, if_neg (by omega), if_pos (hu.connects r), runWorker]
  show (if (sendNodeInfo (e.workerSends r) (e.info r)).1 then _ else _) = _
  rw [if_pos (unfailing_upstream hu hr).1, recvAllNodes, workerSocket,
    unfailing_downstream hu ha hpos hr, decodeMessage_accepts decodeAllNodes_accepts htable]
  rfl

/-- **Where nothing fails, every rank returns true**, and no byte is left on a connection. -/
theorem unfailing_run : e.AllTrue ∧ e.Buffered := by
  refine ⟨?_, ?_⟩
  · intro r hr
    rcases Nat.eq_zero_or_pos r with rfl | hpos
    · refine ⟨e.table, ?_⟩
      rw [run, if_pos rfl, unfailing_master hu ha]
      rfl
    · exact ⟨e.table, unfailing_worker hu ha hpos hr⟩
  · intro r hpos hr
    rw [(unfailing_upstream hu hr).2, unfailing_downstream hu ha hpos hr]
    exact ⟨by simp, by simp⟩

end Unfailing

/-- Three ranks; the master accepts rank 2 first, and the kernels move a byte at a time. -/
def three : Exchange where
  worldSize := 3
  info r := { rank := .ofNat r, hostname := [.ofNat r], dataPort := 4000 }
  accepted := some [2, 1]
  connects _ := true
  masterRecvs _ := byteByByte
  masterSends _ := byteByByte
  workerRecvs _ := byteByByte
  workerSends _ := byteByByte

theorem exchange_same_table_three : ∃ table, three.run 2 = .ok (true, table) ∧
    table.length = 3 ∧ ∀ q < 3, table[q]? = some (three.info q) := by
  have ha : three.Announced := by
    refine ⟨by decide, by decide, ?_⟩
    intro order h
    cases h
    decide
  have hrel : Reliable byteByByte := ⟨rfl, byteByByte_moved⟩
  have hu : three.Unfailing [2, 1] :=
    ⟨rfl, fun _ => rfl, fun _ => ⟨hrel, hrel, hrel, hrel⟩, by decide, by decide⟩
  obtain ⟨ht, hb⟩ := unfailing_run hu ha
  exact (exchange_same_table three ha hb ht).1 2 (by decide)

end Exchange

end OriginCCL.Bootstrap
