/-
  File:      OriginCCL/Setup/P2pConnections.lean
  Subject:   THE P2P CONNECTIONS OF ALL RANKS (`Planner::PrepareRound`, `ConnectP2p`, `AcceptP2pOne`).

  * `P2pSetup` -- the ranks, each walking through its rounds; the connections that have been asked for and
    the backlogs of the listeners. `P2pSetup.step` is one step of a connecting or accepting thread.
  * `P2pSetup.Inv` -- where every connection is, and what every rank has still to connect.
  * `p2p_connects` -- **no rank is ever stuck, and every connection is made once and known on both ends.**

  A connection is asked for, accepted and announced, in this order: `ConnectP2p` waits until it is
  accepted. The endpoints are usable and no system call fails.
-/
import OriginCCL.Base.Links
import OriginCCL.Base.Runs
import OriginCCL.Plan.Planner

namespace OriginCCL

open Base Planner

/-! ## 1. The ranks -/

/-- The connecting thread of a round: the peers left, the first of which may have been asked. -/
inductive ConnectSide where
  | next (peers : List Int)
  | requested (peer : Int) (conn : Nat) (rest : List Int)

/-- The accepting thread of a round: before `AcceptP2pOne`, in its `poll`, at the listeners that were ready,
    or waiting for the rank that an accepted connection announces. -/
inductive AcceptSide where
  | next (peers : List Int)
  | polling (peer : Int) (rest : List Int)
  | serving (ready : List Nat) (peer : Int) (rest : List Int)
  | handshake (conn : Nat) (ready : List Nat) (peer : Int) (rest : List Int)

namespace ConnectSide

/-- The peers that are not connected yet. -/
def peers : ConnectSide → List Int
  | .next peers => peers
  | .requested peer _ rest => peer :: rest

end ConnectSide

namespace AcceptSide

def peers : AcceptSide → List Int
  | .next peers => peers
  | .polling peer rest | .serving _ peer rest | .handshake _ _ peer rest => peer :: rest

end AcceptSide

/-- A rank: the round it is in, its threads in that round, and its connections by peer. -/
structure P2pRank where
  round : Nat := 1
  preparing : Bool := false
  connect : ConnectSide := .next []
  accept : AcceptSide := .next []
  sendP2p : Nat → Option Nat
  recvP2p : Nat → Option Nat

/-- `while (!connector.transport)`: the accepting thread polls, or goes on to the next peer. -/
def P2pRank.whileNotConnected (x : P2pRank) (peer : Int) (rest : List Int) : P2pRank :=
  { x with accept := if (x.recvP2p peer.toNat).isSome then .next rest else .polling peer rest }

/-- The ranks and the connections between them: `conns` are the source and the destination of each. -/
structure P2pSetup where
  rank : Nat → P2pRank
  backlog : Nat → Nat → List Nat := fun _ _ => []
  conns : List (Nat × Nat)
  status : Nat → ConnStatus Nat

namespace P2pSetup

/-- What the ranks have in common: the world, the tasks of every rank, the listener at the second rank
    that the first one connects to, and how many listeners a rank has. -/
structure Group where
  worldSize : Nat
  tasks : Nat → List CollTask
  listener : Nat → Nat → Nat
  listeners : Nat

/-- A step of a rank. -/
inductive Label where
  | begin (r : Nat)
  | connect (r : Nat)
  | connected (r : Nat)
  | accept (r : Nat)
  | poll (r : Nat)
  | take (r : Nat)
  | receive (r : Nat)
  | served (r : Nat)
  | finish (r : Nat)

variable (G : Group)

/-- The tasks of a round of a rank. -/
def Group.roundTasks (r : Nat) (func : CollFunc) (round : Nat) : List CollTask :=
  (G.tasks r).filter fun task => task.func == func &&
    p2pRoundOf task.func r task.peer G.worldSize == (round : Int)

/-- The peers of a round that are not connected. -/
def Group.missing (r : Nat) (func : CollFunc) (round : Nat) (held : Nat → Option Nat) : List Int :=
  (roundPeers (G.roundTasks r func round)).filter fun peer => (held peer.toNat).isNone

/-- The setup with another rank `r`. -/
def setRank (s : P2pSetup) (r : Nat) (x : P2pRank) : P2pSetup :=
  { s with rank := Function.update s.rank r x }

/-- `listeners_[j]` has a connection waiting. -/
def ready (s : P2pSetup) (r : Nat) : List Nat :=
  (List.range G.listeners).filter fun j => !(s.backlog r j).isEmpty

/-- The rank of a step. -/
def Label.rank : Label → Nat
  | .begin r | .connect r | .connected r | .accept r | .poll r | .take r | .receive r | .served r
  | .finish r => r

/-- One step of a thread of a rank. -/
def move (l : Label) (s : P2pSetup) : Option P2pSetup :=
  match l with
  | .begin r =>
    let x := s.rank r
    if x.round < G.worldSize ∧ x.preparing = false then
      some (s.setRank r { x with
        preparing := true
        connect := .next (G.missing r .send x.round x.sendP2p)
        accept := .next (G.missing r .recv x.round x.recvP2p) })
    else none
  | .connect r =>
    let x := s.rank r
    match x.connect with
    | .next (peer :: rest) =>
      if (x.sendP2p peer.toNat).isSome then some (s.setRank r { x with connect := .next rest })
      else
        let conn := s.conns.length
        let j := G.listener r peer.toNat
        some { s.setRank r { x with connect := .requested peer conn rest } with
          backlog := update₂ s.backlog peer.toNat j (s.backlog peer.toNat j ++ [conn])
          conns := s.conns ++ [(r, peer.toNat)]
          status := Function.update s.status conn .pending }
    | _ => none
  | .connected r =>
    let x := s.rank r
    match x.connect with
    | .requested peer conn rest =>
      if s.status conn = .accepted then
        some { s.setRank r { x with
            connect := .next rest, sendP2p := Function.update x.sendP2p peer.toNat (some conn) } with
          status := Function.update s.status conn (.announced r) }
      else none
    | _ => none
  | .accept r =>
    let x := s.rank r
    match x.accept with
    | .next (peer :: rest) =>
      some (s.setRank r (x.whileNotConnected peer rest))
    | _ => none
  | .poll r =>
    let x := s.rank r
    match x.accept with
    | .polling peer rest =>
      if s.ready G r = [] then none
      else some (s.setRank r { x with accept := .serving (s.ready G r) peer rest })
    | _ => none
  | .take r =>
    let x := s.rank r
    match x.accept with
    | .serving (j :: ready) peer rest =>
      match s.backlog r j with
      | conn :: waiting =>
        some { s.setRank r { x with accept := .handshake conn ready peer rest } with
          backlog := update₂ s.backlog r j waiting
          status := Function.update s.status conn .accepted }
      | [] => none
    | _ => none
  | .receive r =>
    let x := s.rank r
    match x.accept with
    | .handshake conn ready peer rest =>
      match s.status conn with
      | .announced source =>
        some (s.setRank r { x with
          accept := .serving ready peer rest
          recvP2p := Function.update x.recvP2p source (some conn) })
      | _ => none
    | _ => none
  | .served r =>
    let x := s.rank r
    match x.accept with
    | .serving [] peer rest =>
      some (s.setRank r (x.whileNotConnected peer rest))
    | _ => none
  | .finish r =>
    let x := s.rank r
    match x.preparing, x.connect, x.accept with
    | true, .next [], .next [] => some (s.setRank r { x with round := x.round + 1, preparing := false })
    | _, _, _ => none

/-- **A step of one of the ranks.** -/
def step (l : Label) (s : P2pSetup) : Option P2pSetup := if l.rank < G.worldSize then s.move G l else none

/-- The ranks at the start of a batch, when the connections `cached` are held on both ends. -/
def start (cached : List (Nat × Nat)) : P2pSetup where
  rank r :=
    { sendP2p := fun peer => cached.idxOf? (r, peer), recvP2p := fun peer => cached.idxOf? (peer, r) }
  conns := cached
  status conn := .announced ((cached.getD conn (0, 0)).1)

end P2pSetup

/-! ## 2. The peers of a round -/

namespace P2pSetup

variable {G : Group}

/-- The tasks of a rank that move bytes to a peer, or from it. -/
def Group.moving (G : Group) (r : Nat) (func : CollFunc) (peer : Nat) : List CollTask :=
  (G.tasks r).filter fun task => task.func == func && task.peer == (peer : Int) && task.count != 0

/-- **Valid and matched batches**: every P2P task has another rank as its peer, and there are as many
    Sends from one rank to another as Recvs there from it, not counting empty ones. -/
structure Group.Matched (G : Group) : Prop where
  peers : ∀ r < G.worldSize, ∀ t ∈ G.tasks r, isP2p t.func = true →
    0 ≤ t.peer ∧ t.peer < G.worldSize ∧ t.peer ≠ (r : Int)
  matched : ∀ a < G.worldSize, ∀ b < G.worldSize,
    (G.moving a .send b).length = (G.moving b .recv a).length

/-- A rank needs a connection with a peer, in a direction and a round. -/
def Group.Wants (G : Group) (r : Nat) (func : CollFunc) (round peer : Nat) : Prop :=
  G.moving r func peer ≠ [] ∧ p2pRoundOf func r peer G.worldSize = (round : Int)

/-- The peers of a round are the ones that are wanted. -/
theorem mem_peers_iff (hG : G.Matched) {r : Nat} (hr : r < G.worldSize) {func : CollFunc}
    (hfunc : isP2p func = true) {round : Nat} {p : Int} : p ∈ roundPeers (G.roundTasks r func round) ↔
      ∃ peer : Nat, p = peer ∧ peer < G.worldSize ∧ G.Wants r func round peer := by
  rw [mem_roundPeers]
  constructor
  · rintro ⟨t, ht, hcount, rfl⟩
    obtain ⟨ht, hround⟩ := List.mem_filter.mp ht
    rw [Bool.and_eq_true] at hround
    have hf := eq_of_beq hround.1
    obtain ⟨h0, hlt, -⟩ := hG.peers r hr t ht (hf ▸ hfunc)
    refine ⟨t.peer.toNat, (Int.toNat_of_nonneg h0).symm, by omega, ?_, ?_⟩
    · refine List.ne_nil_of_mem (a := t) (List.mem_filter.mpr ⟨ht, ?_⟩)
      rw [hf, Int.toNat_of_nonneg h0]
      simp [hcount]
    · rw [Int.toNat_of_nonneg h0, ← hf]
      exact eq_of_beq hround.2
  · rintro ⟨peer, rfl, -, hne, hround⟩
    obtain ⟨t, ht⟩ := List.exists_mem_of_ne_nil _ hne
    obtain ⟨ht, hmoving⟩ := List.mem_filter.mp ht
    rw [Bool.and_eq_true, Bool.and_eq_true] at hmoving
    have hf := eq_of_beq hmoving.1.1
    have hpeer := eq_of_beq hmoving.1.2
    refine ⟨t, List.mem_filter.mpr ⟨ht, ?_⟩, by simpa using hmoving.2, hpeer⟩
    rw [Bool.and_eq_true]
    refine ⟨hmoving.1.1, beq_iff_eq.mpr ?_⟩
    rw [hf, hpeer]
    exact hround

/-- **Both ends want a connection in the same round.** -/
theorem wants_iff (hG : G.Matched) {a b round : Nat} (ha : a < G.worldSize) (hb : b < G.worldSize) :
    G.Wants a .send round b ↔ G.Wants b .recv round a := by
  have hround : p2pRoundOf .send a b G.worldSize = p2pRoundOf .recv b a G.worldSize := rfl
  have hlen := hG.matched a ha b hb
  have hnil : G.moving a .send b ≠ [] ↔ G.moving b .recv a ≠ [] := by
    rw [← List.length_pos_iff_ne_nil, ← List.length_pos_iff_ne_nil, hlen]
  unfold Group.Wants
  rw [hnil, hround]

/-! ## 3. The rounds of one rank -/

/-- **What holds of a rank**: which peers its threads have still to connect in the round, and that the
    earlier rounds have left nothing open. -/
structure RankInv (G : Group) (r : Nat) (x : P2pRank) : Prop where
  low : 1 ≤ x.round
  high : x.round ≤ G.worldSize
  working : x.preparing = true → x.round < G.worldSize
  idle : x.preparing = false → x.connect = .next [] ∧ x.accept = .next []
  sends : ∀ p ∈ x.connect.peers, ∃ q : Nat, p = q ∧ q < G.worldSize ∧ G.Wants r .send x.round q
  recvs : ∀ p ∈ x.accept.peers, ∃ q : Nat, p = q ∧ q < G.worldSize ∧ G.Wants r .recv x.round q
  sendsLeft : x.preparing = true → ∀ q < G.worldSize, G.Wants r .send x.round q → x.sendP2p q = none →
    (q : Int) ∈ x.connect.peers
  recvsLeft : x.preparing = true → ∀ q < G.worldSize, G.Wants r .recv x.round q → x.recvP2p q = none →
    (q : Int) ∈ x.accept.peers
  sendsDone : ∀ k < x.round, ∀ q < G.worldSize, G.Wants r .send k q → x.sendP2p q ≠ none
  recvsDone : ∀ k < x.round, ∀ q < G.worldSize, G.Wants r .recv k q → x.recvP2p q ≠ none

section Rank

variable {r : Nat} {x x' : P2pRank}

theorem mem_missing (hG : G.Matched) (hr : r < G.worldSize) {func : CollFunc} (hfunc : isP2p func = true)
    {round : Nat} {held : Nat → Option Nat} {p : Int} : p ∈ G.missing r func round held ↔
      ∃ q : Nat, p = q ∧ q < G.worldSize ∧ G.Wants r func round q ∧ held q = none := by
  rw [Group.missing, List.mem_filter, mem_peers_iff hG hr hfunc]
  constructor
  · rintro ⟨⟨q, rfl, hq, hw⟩, hnone⟩
    exact ⟨q, rfl, hq, hw, Option.isNone_iff_eq_none.mp hnone⟩
  · rintro ⟨q, rfl, hq, hw, hnone⟩
    exact ⟨⟨q, rfl, hq, hw⟩, Option.isNone_iff_eq_none.mpr hnone⟩

/-- A round begins with the peers that are missing. -/
theorem RankInv.begin (h : RankInv G r x) (hG : G.Matched) (hr : r < G.worldSize)
    (hround : x.round < G.worldSize) : RankInv G r { x with
      preparing := true
      connect := .next (G.missing r .send x.round x.sendP2p)
      accept := .next (G.missing r .recv x.round x.recvP2p) } := by
  refine ⟨h.low, h.high, fun _ => hround, (fun h => by cases h), fun p hp => ?_, fun p hp => ?_,
    fun _ q hq hw hnone => ?_, fun _ q hq hw hnone => ?_, h.sendsDone, h.recvsDone⟩
  · obtain ⟨q, hpq, hq, hw, -⟩ := (mem_missing hG hr rfl).mp hp
    exact ⟨q, hpq, hq, hw⟩
  · obtain ⟨q, hpq, hq, hw, -⟩ := (mem_missing hG hr rfl).mp hp
    exact ⟨q, hpq, hq, hw⟩
  · exact (mem_missing hG hr rfl).mpr ⟨q, rfl, hq, hw, hnone⟩
  · exact (mem_missing hG hr rfl).mpr ⟨q, rfl, hq, hw, hnone⟩

/-- A round ends when both threads are through. -/
theorem RankInv.finish (h : RankInv G r x) (hprep : x.preparing = true) (hc : x.connect = .next [])
    (ha : x.accept = .next []) : RankInv G r { x with round := x.round + 1, preparing := false } := by
  have hround := h.working hprep
  have hno : ∀ k < x.round + 1, k < x.round ∨ k = x.round := fun k hk => by omega
  refine ⟨Nat.le_succ_of_le h.low, hround, (fun h => by cases h), fun _ => ⟨hc, ha⟩, fun p hp => ?_,
    fun p hp => ?_, (fun h => by cases h), (fun h => by cases h), fun k hk q hq hw => ?_,
    fun k hk q hq hw => ?_⟩
  · rw [hc] at hp
    cases hp
  · rw [ha] at hp
    cases hp
  · rcases hno k hk with hk | rfl
    · exact h.sendsDone k hk q hq hw
    · intro hnone
      have hmem := h.sendsLeft hprep q hq hw hnone
      rw [hc] at hmem
      cases hmem
  · rcases hno k hk with hk | rfl
    · exact h.recvsDone k hk q hq hw
    · intro hnone
      have hmem := h.recvsLeft hprep q hq hw hnone
      rw [ha] at hmem
      cases hmem

/-- The threads of a rank go on: its connections only grow, and a peer that it drops is connected. -/
theorem RankInv.go (h : RankInv G r x) (hround : x'.round = x.round) (hprep : x'.preparing = true)
    (hx : x.preparing = true)
    (hsend : ∀ q, x.sendP2p q ≠ none → x'.sendP2p q ≠ none)
    (hrecv : ∀ q, x.recvP2p q ≠ none → x'.recvP2p q ≠ none)
    (hconnect : ∀ p ∈ x'.connect.peers, p ∈ x.connect.peers)
    (hdrop : ∀ q : Nat, (q : Int) ∈ x.connect.peers → x'.sendP2p q = none → (q : Int) ∈ x'.connect.peers)
    (haccept : ∀ p ∈ x'.accept.peers, p ∈ x.accept.peers)
    (hdrop' : ∀ q : Nat, (q : Int) ∈ x.accept.peers → x'.recvP2p q = none → (q : Int) ∈ x'.accept.peers) :
    RankInv G r x' := by
  refine ⟨hround ▸ h.low, hround ▸ h.high, fun _ => hround ▸ h.working hx, fun hf => ?_, fun p hp => ?_,
    fun p hp => ?_, fun _ q hq hw hnone => ?_, fun _ q hq hw hnone => ?_, fun k hk q hq hw => ?_,
    fun k hk q hq hw => ?_⟩
  · rw [hprep] at hf
    cases hf
  · rw [hround]
    exact h.sends p (hconnect p hp)
  · rw [hround]
    exact h.recvs p (haccept p hp)
  · rw [hround] at hw
    exact hdrop q (h.sendsLeft hx q hq hw (by_contra fun hne => hsend q hne hnone)) hnone
  · rw [hround] at hw
    exact hdrop' q (h.recvsLeft hx q hq hw (by_contra fun hne => hrecv q hne hnone)) hnone
  · exact hsend q (h.sendsDone k (hround ▸ hk) q hq hw)
  · exact hrecv q (h.recvsDone k (hround ▸ hk) q hq hw)

/-- A thread with something to do is in a round. -/
theorem RankInv.preparing_of (h : RankInv G r x) (hne : x.connect ≠ .next [] ∨ x.accept ≠ .next []) :
    x.preparing = true := by
  cases hprep : x.preparing with
  | true => rfl
  | false =>
    obtain ⟨hc, ha⟩ := h.idle hprep
    exact absurd hc (hne.resolve_right fun hne => hne ha)

/-- A peer is connected. -/
theorem RankInv.connected (h : RankInv G r x) {peer : Int} {rest : List Int} (conn : Nat)
    (hpeers : x.connect.peers = peer :: rest) (hprep : x.preparing = true) : RankInv G r { x with
      connect := .next rest, sendP2p := Function.update x.sendP2p peer.toNat (some conn) } := by
  refine h.go rfl hprep hprep (fun q hq => ?_) (fun _ h => h) (fun p hp => ?_)
    (fun q hq hnone => ?_) (fun _ h => h) (fun _ h _ => h)
  · simp only [Function.update_apply]
    split
    · exact Option.some_ne_none conn
    · exact hq
  · rw [hpeers]
    exact List.mem_cons_of_mem _ hp
  · rw [hpeers] at hq
    rcases List.mem_cons.mp hq with rfl | hq
    · simp only [Int.toNat_natCast, Function.update_self] at hnone
      cases hnone
    · exact hq

/-- The accepting thread has looked whether its peer is connected. -/
theorem RankInv.whileNotConnected (h : RankInv G r x) {peer : Int} {rest : List Int}
    (hpeers : x.accept.peers = peer :: rest) (hprep : x.preparing = true) :
    RankInv G r (x.whileNotConnected peer rest) := by
  unfold P2pRank.whileNotConnected
  split
  case isTrue hsome =>
    refine h.go rfl hprep hprep (fun _ h => h) (fun _ h => h) (fun _ h => h) (fun _ h _ => h)
      (fun p hp => hpeers ▸ List.mem_cons_of_mem _ hp) (fun q hq hnone => ?_)
    rw [hpeers] at hq
    rcases List.mem_cons.mp hq with rfl | hq
    · rw [Int.toNat_natCast, hnone] at hsome
      cases hsome
    · exact hq
  case isFalse =>
    exact h.go rfl hprep hprep (fun _ h => h) (fun _ h => h) (fun _ h => h) (fun _ h _ => h)
      (fun p hp => by rw [hpeers]; exact hp) (fun q hq _ => by rw [hpeers] at hq; exact hq)

/-- The accepting thread is at another step of its peer, and may have kept a connection. -/
theorem RankInv.serve (h : RankInv G r x) (hprep : x.preparing = true) {accept : AcceptSide}
    (hpeers : accept.peers = x.accept.peers) {recvP2p : Nat → Option Nat}
    (hrecv : ∀ q, x.recvP2p q ≠ none → recvP2p q ≠ none) :
    RankInv G r { x with accept := accept, recvP2p := recvP2p } :=
  h.go rfl hprep hprep (fun _ h => h) hrecv (fun _ h => h) (fun _ h _ => h)
    (fun _ hp => hpeers ▸ hp) (fun _ hq _ => hpeers.symm ▸ hq)

end Rank

/-! ## 4. The connections of all ranks -/

end P2pSetup

namespace P2pRank

/-- The peer that a rank has asked for a connection, and the connection. -/
def asked (x : P2pRank) : Option (Nat × Nat) :=
  match x.connect with
  | .requested peer conn _ => some (peer.toNat, conn)
  | .next _ => none

/-- The connection that a rank has accepted, and from which it reads. -/
def greeting (x : P2pRank) : Option Nat :=
  match x.accept with
  | .handshake conn _ _ _ => some conn
  | .next _ | .polling _ _ | .serving _ _ _ => none

/-- The listeners that `poll` has found ready and that are not served yet. -/
def awaiting (x : P2pRank) : List Nat :=
  match x.accept with
  | .serving ready _ _ | .handshake _ ready _ _ => ready
  | .next _ | .polling _ _ => []

theorem greeting_whileNotConnected (x : P2pRank) (peer : Int) (rest : List Int) :
    (x.whileNotConnected peer rest).greeting = none := by
  unfold whileNotConnected
  split <;> rfl

theorem awaiting_whileNotConnected (x : P2pRank) (peer : Int) (rest : List Int) :
    (x.whileNotConnected peer rest).awaiting = [] := by
  unfold whileNotConnected
  split <;> rfl

end P2pRank

namespace P2pSetup

variable {G : Group} {cached : List (Nat × Nat)} {s s' : P2pSetup} {r : Nat} {x : P2pRank}

/-- What the ranks know of the connections. -/
def links (s : P2pSetup) : Links Nat Nat where
  conns := s.conns
  status := s.status
  backlog := s.backlog
  asked r := (s.rank r).asked
  greeting r := (s.rank r).greeting
  sent r := (s.rank r).sendP2p
  received r := (s.rank r).recvP2p

/-- **The ranks and their connections.** -/
structure Inv (G : Group) (cached : List (Nat × Nat)) (s : P2pSetup) : Prop where
  ranks : ∀ r < G.worldSize, RankInv G r (s.rank r)
  links : s.links.Inv G.listener
  made : ∃ made, s.conns = cached ++ made ∧
    ∀ p ∈ made, p.1 < G.worldSize ∧ p.2 < G.worldSize ∧ ∃ k, G.Wants p.1 .send k p.2
  served : ∀ r, (s.rank r).awaiting.Nodup ∧ ∀ j ∈ (s.rank r).awaiting, s.backlog r j ≠ []
  polled : ∀ r peer rest, (s.rank r).accept = .polling peer rest → (s.rank r).recvP2p peer.toNat = none

/-- What the ranks know of the connections when one rank has gone on. -/
theorem links_go (hrank : s'.rank = Function.update s.rank r x) : s'.links =
    { conns := s'.conns
      status := s'.status
      backlog := s'.backlog
      asked := Function.update s.links.asked r x.asked
      greeting := Function.update s.links.greeting r x.greeting
      sent := Function.update s.links.sent r x.sendP2p
      received := Function.update s.links.received r x.recvP2p } := by
  have hupdate : ∀ {γ : Type} (f : P2pRank → γ),
      (fun q => f (s'.rank q)) = Function.update (fun q => f (s.rank q)) r (f x) := by
    intro γ f
    funext q
    rw [hrank, Function.update_apply, Function.update_apply]
    split <;> rfl
  unfold links
  rw [Links.mk.injEq]
  exact ⟨rfl, rfl, rfl, hupdate _, hupdate _, hupdate _, hupdate _⟩

/-- One rank has gone on. -/
theorem Inv.go (h : s.Inv G cached) (hrank : s'.rank = Function.update s.rank r x)
    (hx : r < G.worldSize → RankInv G r x) (hlinks : s'.links.Inv G.listener)
    (hmade : ∃ more, s'.conns = s.conns ++ more ∧
      ∀ p ∈ more, p.1 < G.worldSize ∧ p.2 < G.worldSize ∧ ∃ k, G.Wants p.1 .send k p.2)
    (hserved : x.awaiting.Nodup ∧ ∀ j ∈ x.awaiting, s'.backlog r j ≠ [])
    (hother : ∀ q ≠ r, ∀ j, s.backlog q j ≠ [] → s'.backlog q j ≠ [])
    (hpolled : ∀ peer rest, x.accept = .polling peer rest → x.recvP2p peer.toNat = none) :
    s'.Inv G cached := by
  have hself : s'.rank r = x := by rw [hrank, Function.update_self]
  have hne : ∀ q ≠ r, s'.rank q = s.rank q := fun q hq => by rw [hrank, Function.update_of_ne hq]
  refine ⟨fun q hq => ?_, hlinks, ?_, fun q => ?_, fun q peer rest hpoll => ?_⟩
  · by_cases hqr : q = r
    · subst hqr
      rw [hself]
      exact hx hq
    · rw [hne q hqr]
      exact h.ranks q hq
  · obtain ⟨made, hconns, hwanted⟩ := h.made
    obtain ⟨more, hconns', hwanted'⟩ := hmade
    refine ⟨made ++ more, by rw [hconns', hconns, List.append_assoc], fun p hp => ?_⟩
    exact (List.mem_append.mp hp).elim (hwanted p) (hwanted' p)
  · by_cases hqr : q = r
    · subst hqr
      rw [hself]
      exact hserved
    · obtain ⟨h1, h2⟩ := h.served q
      rw [hne q hqr]
      exact ⟨h1, fun j hj => hother q hqr j (h2 j hj)⟩
  · by_cases hqr : q = r
    · subst hqr
      rw [hself] at hpoll ⊢
      exact hpolled peer rest hpoll
    · rw [hne q hqr] at hpoll ⊢
      exact h.polled q peer rest hpoll

/-- One rank has gone on and knows the same connections as before. -/
theorem Inv.go_same (h : s.Inv G cached) (hx : RankInv G r x) (hasked : x.asked = (s.rank r).asked)
    (hgreeting : x.greeting = (s.rank r).greeting) (hsend : x.sendP2p = (s.rank r).sendP2p)
    (hrecv : x.recvP2p = (s.rank r).recvP2p)
    (hserved : x.awaiting.Nodup ∧ ∀ j ∈ x.awaiting, s.backlog r j ≠ [])
    (hpolled : ∀ peer rest, x.accept = .polling peer rest → x.recvP2p peer.toNat = none) :
    (s.setRank r x).Inv G cached := by
  have hlinks : (s.setRank r x).links = s.links := by
    have hrank : (s.setRank r x).rank = Function.update s.rank r x := rfl
    rw [links_go hrank, hasked, hgreeting, hsend, hrecv]
    show _ = Links.mk _ _ _ _ _ _ _
    rw [Links.mk.injEq]
    exact ⟨rfl, rfl, rfl, Function.update_eq_self .., Function.update_eq_self ..,
      Function.update_eq_self .., Function.update_eq_self ..⟩
  exact h.go rfl (fun _ => hx) (hlinks ▸ h.links)
    ⟨[], (List.append_nil _).symm, fun p hp => absurd hp List.not_mem_nil⟩ hserved (fun _ _ _ h => h) hpolled

/-! ## 5. The steps keep the invariant -/

section Steps

theorem Inv.begin (h : s.Inv G cached) (hr : r < G.worldSize) (hG : G.Matched)
    (hs : s.move G (.begin r) = some s') : s'.Inv G cached := by
  rw [move] at hs
  split at hs
  case isTrue hcond =>
    obtain rfl := Option.some.inj hs
    have hx := h.ranks r hr
    obtain ⟨hconnect, haccept⟩ := hx.idle hcond.2
    refine h.go_same (hx.begin hG hr hcond.1) ?_ ?_ rfl rfl ⟨List.nodup_nil, fun j hj => ?_⟩ ?_
    · rw [P2pRank.asked, P2pRank.asked, hconnect]
    · rw [P2pRank.greeting, P2pRank.greeting, haccept]
    · cases hj
    · intro peer rest hpoll
      cases hpoll
  case isFalse => cases hs

theorem Inv.finish (h : s.Inv G cached) (hr : r < G.worldSize)
    (hs : s.move G (.finish r) = some s') : s'.Inv G cached := by
  rw [move] at hs
  split at hs
  case h_1 hprep hconnect haccept =>
    obtain rfl := Option.some.inj hs
    refine h.go_same ((h.ranks r hr).finish hprep hconnect haccept) rfl rfl rfl rfl (h.served r)
      (h.polled r)
  case h_2 => cases hs

theorem Inv.connect (h : s.Inv G cached) (hr : r < G.worldSize)
    (hs : s.move G (.connect r) = some s') : s'.Inv G cached := by
  have hx := h.ranks r hr
  rw [move] at hs
  split at hs
  case h_1 peer rest hconnect =>
    have hprep := hx.preparing_of (Or.inl (by rw [hconnect]; exact fun e => by cases e))
    have hpeers : ∀ p ∈ rest, p ∈ (s.rank r).connect.peers := by
      rw [hconnect]
      exact fun p hp => List.mem_cons_of_mem _ hp
    split at hs
    case isTrue hsome =>
      obtain rfl := Option.some.inj hs
      refine h.go_same ?_ ?_ rfl rfl rfl (h.served r) (h.polled r)
      · refine hx.go rfl hprep hprep (fun _ h => h) (fun _ h => h) hpeers (fun q hq hnone => ?_)
          (fun _ h => h) (fun _ h _ => h)
        rw [hconnect] at hq
        rcases List.mem_cons.mp hq with rfl | hq
        · rw [Int.toNat_natCast, show (s.rank r).sendP2p q = none from hnone] at hsome
          cases hsome
        · exact hq
      · rw [P2pRank.asked, P2pRank.asked, hconnect]
    case isFalse hnone =>
      obtain rfl := Option.some.inj hs
      have hnone : (s.rank r).sendP2p peer.toNat = none := Option.not_isSome_iff_eq_none.mp hnone
      have hasked : (s.rank r).asked = none := by rw [P2pRank.asked, hconnect]
      obtain ⟨q, rfl, hq, hw⟩ := hx.sends peer (by rw [hconnect]; exact List.mem_cons_self)
      refine h.go (x := { s.rank r with connect := .requested q s.conns.length rest }) rfl (fun _ => ?_) ?_
        ⟨[(r, q)], rfl, fun p hp => ?_⟩ ?_ ?_ (h.polled r)
      · refine hx.go rfl hprep hprep (fun _ h => h) (fun _ h => h) ?_ (fun q' hq' _ => ?_)
          (fun _ h => h) (fun _ h _ => h)
        · rw [hconnect]
          exact fun p hp => hp
        · rw [hconnect] at hq'
          exact hq'
      · have hlinks := h.links.ask hasked hnone
        rw [links_go (r := r) (x := { s.rank r with connect := .requested q s.conns.length rest }) rfl]
        unfold Links.ask at hlinks
        convert hlinks using 2 <;> first | rfl | exact Function.update_eq_self r _
      · rw [List.mem_singleton.mp hp]
        exact ⟨hr, hq, _, hw⟩
      · obtain ⟨h1, h2⟩ := h.served r
        refine ⟨h1, fun j hj => ?_⟩
        simp only [update₂_apply]
        split
        · exact List.append_ne_nil_of_right_ne_nil _ (List.cons_ne_nil _ _)
        · exact h2 j hj
      · intro q' _ j hj
        simp only [update₂_apply]
        split
        · exact List.append_ne_nil_of_right_ne_nil _ (List.cons_ne_nil _ _)
        · exact hj
  case h_2 => cases hs

theorem Inv.connected (h : s.Inv G cached) (hr : r < G.worldSize)
    (hs : s.move G (.connected r) = some s') : s'.Inv G cached := by
  have hx := h.ranks r hr
  rw [move] at hs
  split at hs
  case h_1 peer conn rest hconnect =>
    have hprep := hx.preparing_of (Or.inl (by rw [hconnect]; exact fun e => by cases e))
    have hasked : (s.rank r).asked = some (peer.toNat, conn) := by rw [P2pRank.asked, hconnect]
    split at hs
    case isTrue hstatus =>
      obtain rfl := Option.some.inj hs
      refine h.go (x := { s.rank r with
          connect := .next rest, sendP2p := Function.update (s.rank r).sendP2p peer.toNat (some conn) })
        rfl (fun _ => hx.connected conn (by rw [hconnect]; rfl) hprep) ?_
        ⟨[], (List.append_nil _).symm, fun p hp => absurd hp List.not_mem_nil⟩
        (h.served r) (fun _ _ _ h => h) (h.polled r)
      have hlinks := h.links.announce hasked hstatus
      rw [links_go (r := r) (x := { s.rank r with
        connect := .next rest, sendP2p := Function.update (s.rank r).sendP2p peer.toNat (some conn) }) rfl]
      unfold Links.announce at hlinks
      convert hlinks using 2 <;> first | rfl | exact Function.update_eq_self r _
    case isFalse => cases hs
  case h_2 => cases hs

/-- The accepting thread looks whether its peer is connected. -/
theorem Inv.whileNotConnected (h : s.Inv G cached) (hr : r < G.worldSize) {peer : Int} {rest : List Int}
    (hpeers : (s.rank r).accept.peers = peer :: rest) (hne : (s.rank r).accept ≠ .next [])
    (hgreeting : (s.rank r).greeting = none) :
    (s.setRank r ((s.rank r).whileNotConnected peer rest)).Inv G cached := by
  have hx := h.ranks r hr
  refine h.go_same (hx.whileNotConnected hpeers (hx.preparing_of (Or.inr hne))) rfl ?_ rfl rfl ?_ ?_
  · rw [hgreeting, P2pRank.greeting_whileNotConnected]
  · rw [P2pRank.awaiting_whileNotConnected]
    exact ⟨List.nodup_nil, fun j hj => by cases hj⟩
  · intro peer' rest' hpoll
    unfold P2pRank.whileNotConnected at hpoll
    split at hpoll
    case isTrue => cases hpoll
    case isFalse hnone =>
      cases hpoll
      exact Option.not_isSome_iff_eq_none.mp hnone

theorem Inv.accept (h : s.Inv G cached) (hr : r < G.worldSize)
    (hs : s.move G (.accept r) = some s') : s'.Inv G cached := by
  rw [move] at hs
  split at hs
  case h_1 peer rest haccept =>
    obtain rfl := Option.some.inj hs
    refine h.whileNotConnected hr (by rw [haccept]; rfl) (by rw [haccept]; exact fun e => by cases e) ?_
    rw [P2pRank.greeting, haccept]
  case h_2 => cases hs

theorem Inv.finishServing (h : s.Inv G cached) (hr : r < G.worldSize)
    (hs : s.move G (.served r) = some s') : s'.Inv G cached := by
  rw [move] at hs
  split at hs
  case h_1 peer rest haccept =>
    obtain rfl := Option.some.inj hs
    refine h.whileNotConnected hr (by rw [haccept]; rfl) (by rw [haccept]; exact fun e => by cases e) ?_
    rw [P2pRank.greeting, haccept]
  case h_2 => cases hs

theorem Inv.poll (h : s.Inv G cached) (hr : r < G.worldSize)
    (hs : s.move G (.poll r) = some s') : s'.Inv G cached := by
  have hx := h.ranks r hr
  rw [move] at hs
  split at hs
  case h_1 peer rest haccept =>
    have hprep := hx.preparing_of (Or.inr (by rw [haccept]; exact fun e => by cases e))
    split at hs
    case isTrue => cases hs
    case isFalse =>
      obtain rfl := Option.some.inj hs
      refine h.go_same (hx.serve hprep (by rw [haccept]; rfl) fun _ h => h) rfl ?_ rfl rfl
        ⟨List.nodup_range.filter _, fun j hj => ?_⟩ ?_
      · rw [P2pRank.greeting, P2pRank.greeting, haccept]
      · obtain ⟨-, hready⟩ := List.mem_filter.mp hj
        intro hnil
        rw [hnil] at hready
        cases hready
      · intro peer' rest' hpoll
        cases hpoll
  case h_2 => cases hs

theorem Inv.take (h : s.Inv G cached) (hr : r < G.worldSize)
    (hs : s.move G (.take r) = some s') : s'.Inv G cached := by
  have hx := h.ranks r hr
  rw [move] at hs
  split at hs
  case h_1 j ready peer rest haccept =>
    have hprep := hx.preparing_of (Or.inr (by rw [haccept]; exact fun e => by cases e))
    have hgreeting : (s.rank r).greeting = none := by rw [P2pRank.greeting, haccept]
    have hawaiting : (s.rank r).awaiting = j :: ready := by rw [P2pRank.awaiting, haccept]
    obtain ⟨hnodup, hready⟩ := h.served r
    rw [hawaiting] at hnodup hready
    split at hs
    case h_1 conn waiting hbacklog =>
      obtain rfl := Option.some.inj hs
      refine h.go (x := { s.rank r with accept := .handshake conn ready peer rest })
        rfl (fun _ => hx.serve hprep (by rw [haccept]; rfl) fun _ h => h) ?_
        ⟨[], (List.append_nil _).symm, fun p hp => absurd hp List.not_mem_nil⟩
        ⟨hnodup.of_cons, fun i hi => ?_⟩ (fun q hq i hi => ?_) ?_
      · have hlinks := h.links.take hbacklog hgreeting
        rw [links_go (r := r) (x := { s.rank r with accept := .handshake conn ready peer rest }) rfl]
        unfold Links.take at hlinks
        convert hlinks using 2 <;> first | rfl | exact Function.update_eq_self r _
      · have hij : i ≠ j := fun e => (List.nodup_cons.mp hnodup).1 (e ▸ hi)
        simp only [update₂_apply, hij, and_false, if_false]
        exact hready i (List.mem_cons_of_mem _ hi)
      · simp only [update₂_apply, hq, false_and, if_false]
        exact hi
      · intro peer' rest' hpoll
        cases hpoll
    case h_2 => cases hs
  case h_2 => cases hs

theorem Inv.receive (h : s.Inv G cached) (hr : r < G.worldSize)
    (hs : s.move G (.receive r) = some s') : s'.Inv G cached := by
  have hx := h.ranks r hr
  rw [move] at hs
  split at hs
  case h_1 conn ready peer rest haccept =>
    have hprep := hx.preparing_of (Or.inr (by rw [haccept]; exact fun e => by cases e))
    have hgreeting : (s.rank r).greeting = some conn := by rw [P2pRank.greeting, haccept]
    have hawaiting : (s.rank r).awaiting = ready := by rw [P2pRank.awaiting, haccept]
    have hserved := h.served r
    rw [hawaiting] at hserved
    split at hs
    case h_1 source hstatus =>
      obtain rfl := Option.some.inj hs
      refine h.go (x := { s.rank r with
          accept := .serving ready peer rest
          recvP2p := Function.update (s.rank r).recvP2p source (some conn) })
        rfl (fun _ => hx.serve hprep (by rw [haccept]; rfl) fun q hq => ?_) ?_
        ⟨[], (List.append_nil _).symm, fun p hp => absurd hp List.not_mem_nil⟩
        hserved (fun _ _ _ h => h) ?_
      · rw [Function.update_apply]
        split
        · exact Option.some_ne_none conn
        · exact hq
      · have hlinks := h.links.receive hgreeting hstatus
        rw [links_go (r := r) (x := { s.rank r with
          accept := .serving ready peer rest
          recvP2p := Function.update (s.rank r).recvP2p source (some conn) }) rfl]
        unfold Links.receive at hlinks
        convert hlinks using 2 <;> first | rfl | exact Function.update_eq_self r _
      · intro peer' rest' hpoll
        cases hpoll
    case h_2 => cases hs
  case h_2 => cases hs

end Steps

/-- **Every step keeps the invariant.** -/
theorem inv_step (hG : G.Matched) {l : Label} (h : s.Inv G cached) (hs : step G l s = some s') :
    s'.Inv G cached := by
  unfold step at hs
  split at hs
  case isFalse => cases hs
  case isTrue hr =>
    cases l with
    | begin r => exact h.begin hr hG hs
    | connect r => exact h.connect hr hs
    | connected r => exact h.connected hr hs
    | accept r => exact h.accept hr hs
    | poll r => exact h.poll hr hs
    | take r => exact h.take hr hs
    | receive r => exact h.receive hr hs
    | served r => exact h.finishServing hr hs
    | finish r => exact h.finish hr hs

/-- The round of a connection that some task needs. -/
theorem round_of_moving (hG : G.Matched) {a b : Nat} (ha : a < G.worldSize) {func : CollFunc}
    (hfunc : isP2p func = true) (hmoving : G.moving a func b ≠ []) :
    1 ≤ p2pRoundOf func a b G.worldSize ∧ p2pRoundOf func a b G.worldSize < G.worldSize := by
  obtain ⟨t, ht⟩ := List.exists_mem_of_ne_nil _ hmoving
  obtain ⟨ht, hmoving⟩ := List.mem_filter.mp ht
  rw [Bool.and_eq_true, Bool.and_eq_true] at hmoving
  have hf := eq_of_beq hmoving.1.1
  have hpeer : t.peer = (b : Int) := eq_of_beq hmoving.1.2
  obtain ⟨h0, hlt, hne⟩ := hG.peers a ha t ht (hf ▸ hfunc)
  exact p2pRoundOf_bounds ⟨by omega, by omega⟩ ⟨by omega, by omega⟩ (by omega) func

/-- The round of a wanted connection. -/
theorem wants_round (hG : G.Matched) {a b k : Nat} (ha : a < G.worldSize) {func : CollFunc}
    (hfunc : isP2p func = true) (hw : G.Wants a func k b) : 1 ≤ k ∧ k < G.worldSize := by
  have hround := round_of_moving hG ha hfunc hw.1
  have := hw.2
  omega

/-- **The start of a batch**, with connections from earlier batches. -/
theorem inv_start (hG : G.Matched) (hcached : cached.Nodup) : (start cached).Inv G cached := by
  have hheld : ∀ {p : Nat × Nat} {c : Nat}, cached.idxOf? p = some c ↔ cached[c]? = some p := by
    intro p c
    rw [List.idxOf?_eq_some_iff, List.getElem?_eq_some_iff]
    constructor
    · intro h
      obtain ⟨hc, hp, -⟩ := h
      exact ⟨hc, hp⟩
    · intro h
      obtain ⟨hc, hp⟩ := h
      refine ⟨hc, hp, fun j hj hjp => ?_⟩
      have := (hcached.getElem_inj_iff).mp (hjp.trans hp.symm)
      omega
  refine ⟨fun r hr => ?_, ?_, ⟨[], (List.append_nil _).symm, fun p hp => absurd hp List.not_mem_nil⟩,
    fun r => ⟨List.nodup_nil, fun j hj => by cases hj⟩, fun r peer rest hpoll => by cases hpoll⟩
  · have hnone : ∀ k < 1, ∀ func, isP2p func = true → ∀ q, ¬ G.Wants r func k q := by
      intro k hk func hfunc q hw
      have := (wants_round hG hr hfunc hw).1
      omega
    exact ⟨Nat.le_refl 1, Nat.one_le_of_lt hr, (fun h => by cases h), fun _ => ⟨rfl, rfl⟩,
      (fun p hp => by cases hp), (fun p hp => by cases hp), (fun h => by cases h), (fun h => by cases h),
      fun k hk q _ hw => absurd hw (hnone k hk .send rfl q),
      fun k hk q _ hw => absurd hw (hnone k hk .recv rfl q)⟩
  · refine ⟨hcached, fun c a b hc => ?_, fun a b c hc => hheld.mp hc, fun a b c hc => hheld.mp hc,
      (fun a b c hc => by cases hc), (fun b c hc => by cases hc), fun b j => List.nodup_nil,
      (fun b j c hc => by cases hc)⟩
    have hstatus : (start cached).status c = .announced a := by
      show ConnStatus.announced (cached.getD c (0, 0)).1 = _
      rw [List.getD_eq_getElem?_getD, show cached[c]? = _ from hc]
      rfl
    show Links.Placed _ _ _ _ _ ((start cached).status c)
    rw [hstatus]
    exact ⟨rfl, hheld.mpr hc, Or.inl ⟨hheld.mpr hc, fun h => by cases h⟩⟩

/-! ## 6. No rank is stuck -/

section Progress

/-- A rank that waits for its connection has asked for it. -/
theorem requested_of_asked {b c : Nat} (hasked : x.asked = some (b, c)) :
    ∃ peer rest, x.connect = .requested peer c rest ∧ peer.toNat = b := by
  unfold P2pRank.asked at hasked
  cases hconnect : x.connect with
  | next peers =>
    rw [hconnect] at hasked
    cases hasked
  | requested peer conn rest =>
    rw [hconnect] at hasked
    obtain ⟨rfl, rfl⟩ := Prod.mk.inj (Option.some.inj hasked)
    exact ⟨peer, rest, rfl, rfl⟩

/-- A connection that is accepted is announced by the rank that asked for it. -/
theorem Inv.announces (h : s.Inv G cached) {a b c : Nat} (ha : a < G.worldSize)
    (hc : s.conns[c]? = some (a, b)) (hs : s.status c = .accepted) : ∃ l s', step G l s = some s' := by
  have hplaced := h.links.placed c a b hc
  rw [show s.links.status c = .accepted from hs] at hplaced
  obtain ⟨peer, rest, hconnect, -⟩ := requested_of_asked hplaced.2.1
  refine ⟨.connected a, ?_⟩
  rw [step, if_pos (show Label.rank (.connected a) < G.worldSize from ha)]
  simp only [move, hconnect, hs, if_true]
  exact ⟨_, rfl⟩

/-- **The accepting thread goes on**, unless it is through or polls without a connection waiting. -/
theorem Inv.accepts (h : s.Inv G cached) (hr : r < G.worldSize)
    (hranks : ∀ p ∈ s.conns, p.1 < G.worldSize) (hne : (s.rank r).accept ≠ .next [])
    (hpolling : ∀ peer rest, (s.rank r).accept = .polling peer rest → s.ready G r ≠ []) :
    ∃ l s', step G l s = some s' := by
  cases haccept : (s.rank r).accept with
  | next peers =>
    cases peers with
    | nil => exact absurd haccept hne
    | cons peer rest =>
      refine ⟨.accept r, ?_⟩
      rw [step, if_pos (show Label.rank (.accept r) < G.worldSize from hr)]
      simp only [move, haccept]
      exact ⟨_, rfl⟩
  | polling peer rest =>
    refine ⟨.poll r, ?_⟩
    rw [step, if_pos (show Label.rank (.poll r) < G.worldSize from hr)]
    simp only [move, haccept, if_neg (hpolling peer rest haccept)]
    exact ⟨_, rfl⟩
  | serving ready peer rest =>
    cases ready with
    | nil =>
      refine ⟨.served r, ?_⟩
      rw [step, if_pos (show Label.rank (.served r) < G.worldSize from hr)]
      simp only [move, haccept]
      exact ⟨_, rfl⟩
    | cons j ready =>
      have hbacklog : s.backlog r j ≠ [] := by
        refine (h.served r).2 j ?_
        rw [P2pRank.awaiting, haccept]
        exact List.mem_cons_self
      obtain ⟨conn, waiting, hbacklog⟩ := List.exists_cons_of_ne_nil hbacklog
      refine ⟨.take r, ?_⟩
      rw [step, if_pos (show Label.rank (.take r) < G.worldSize from hr)]
      simp only [move, haccept, hbacklog]
      exact ⟨_, rfl⟩
  | handshake conn ready peer rest =>
    have hgreeting : (s.rank r).greeting = some conn := by rw [P2pRank.greeting, haccept]
    obtain ⟨a, hc⟩ := h.links.greeting r conn hgreeting
    have hplaced := h.links.placed conn a r hc
    cases hs : s.status conn with
    | pending =>
      rw [show s.links.status conn = .pending from hs] at hplaced
      exact absurd hgreeting hplaced.2.2.2.2
    | accepted => exact h.announces (hranks _ (List.mem_of_getElem? hc)) hc hs
    | announced source =>
      refine ⟨.receive r, ?_⟩
      rw [step, if_pos (show Label.rank (.receive r) < G.worldSize from hr)]
      simp only [move, haccept, hs]
      exact ⟨_, rfl⟩

/-- What has been sent on is what is received on, once the other end has read who it is. -/
theorem Inv.received_of_sent (h : s.Inv G cached) {a b c : Nat} (hsent : (s.rank a).sendP2p b = some c)
    (hgreeting : (s.rank b).greeting = none) : (s.rank b).recvP2p a = some c := by
  have hplaced := h.links.placed c a b (h.links.sent a b c hsent)
  cases hs : s.links.status c with
  | pending =>
    rw [hs] at hplaced
    exact absurd (hsent.symm.trans hplaced.2.2.1) fun e => by cases e
  | accepted =>
    rw [hs] at hplaced
    exact absurd (hsent.symm.trans hplaced.2.2.1) fun e => by cases e
  | announced source =>
    rw [hs] at hplaced
    rcases hplaced.2.2 with hp | hp
    · exact hp.1
    · exact absurd (hgreeting.symm.trans hp.2) fun e => by cases e

/-- A connection is received on under the rank that asked for it. -/
theorem Inv.announced_of_received (h : s.Inv G cached) {a b c : Nat} (hreceived : (s.rank b).recvP2p a = some c) :
    s.status c = .announced a ∧ (s.rank a).sendP2p b = some c := by
  have hplaced := h.links.placed c a b (h.links.received a b c hreceived)
  cases hs : s.links.status c with
  | pending =>
    rw [hs] at hplaced
    exact absurd (hreceived.symm.trans hplaced.2.2.2.1) fun e => by cases e
  | accepted =>
    rw [hs] at hplaced
    exact absurd (hreceived.symm.trans hplaced.2.2.2) fun e => by cases e
  | announced source =>
    rw [hs] at hplaced
    obtain ⟨rfl, hsent, -⟩ := hplaced
    exact ⟨hs, hsent⟩

/-- A rank that is behind no other one. -/
def Behind (G : Group) (s : P2pSetup) (r : Nat) : Prop :=
  r < G.worldSize ∧ (s.rank r).round < G.worldSize ∧
    ∀ q < G.worldSize, (s.rank r).round ≤ (s.rank q).round

theorem exists_behind (h : ∃ r < G.worldSize, (s.rank r).round < G.worldSize) : ∃ r, Behind G s r := by
  classical
  have hsome : ∃ k, ∃ r < G.worldSize, (s.rank r).round = k := by
    obtain ⟨r, hr, -⟩ := h
    exact ⟨_, r, hr, rfl⟩
  obtain ⟨r, hr, hround⟩ := Nat.find_spec hsome
  have hleast : ∀ q < G.worldSize, (s.rank r).round ≤ (s.rank q).round := by
    intro q hq
    rw [hround]
    exact Nat.find_min' hsome ⟨q, hq, rfl⟩
  obtain ⟨q, hq, hlt⟩ := h
  exact ⟨r, hr, Nat.lt_of_le_of_lt (hleast q hq) hlt, hleast⟩

/-- A rank that is behind no other one is in its round, or begins it. -/
theorem Behind.preparing (hb : Behind G s r) (hstuck : ¬ ∃ l s', step G l s = some s') :
    (s.rank r).preparing = true := by
  cases hprep : (s.rank r).preparing with
  | true => rfl
  | false =>
    refine absurd ⟨.begin r, ?_⟩ hstuck
    rw [step, if_pos (show Label.rank (.begin r) < G.worldSize from hb.1)]
    simp only [move, hprep, hb.2.1, and_self, if_true]
    exact ⟨_, rfl⟩

/-- **The connecting thread of a rank that is behind no other one is through**, if no step is possible: the
    peer that it waits for is in the same round and accepts. -/
theorem Inv.connect_done (h : s.Inv G cached) (hG : G.Matched) (hlisteners : ∀ a b, G.listener a b < G.listeners)
    (hranks : ∀ p ∈ s.conns, p.1 < G.worldSize) (hb : Behind G s r)
    (hstuck : ¬ ∃ l s', step G l s = some s') : (s.rank r).connect = .next [] := by
  have hx := h.ranks r hb.1
  cases hconnect : (s.rank r).connect with
  | next peers =>
    cases peers with
    | nil => rfl
    | cons peer rest =>
      refine absurd ⟨.connect r, ?_⟩ hstuck
      rw [step, if_pos (show Label.rank (.connect r) < G.worldSize from hb.1)]
      simp only [move, hconnect]
      split <;> exact ⟨_, rfl⟩
  | requested peer conn rest =>
    exfalso
    have hasked : (s.rank r).asked = some (peer.toNat, conn) := by rw [P2pRank.asked, hconnect]
    obtain ⟨hc, hfresh⟩ := h.links.asked r _ conn hasked
    have hplaced := h.links.placed conn r _ hc
    obtain ⟨q, rfl, hq, hw⟩ := hx.sends peer (by rw [hconnect]; exact List.mem_cons_self)
    rw [Int.toNat_natCast] at hc hplaced
    cases hs : s.status conn with
    | announced source => exact hfresh source hs
    | accepted => exact hstuck (h.announces hb.1 hc hs)
    | pending =>
      rw [show s.links.status conn = .pending from hs] at hplaced
      obtain ⟨hwaiting, -, -, hreceived, -⟩ := hplaced
      have hw' := (wants_iff hG hb.1 hq).mp hw
      have hy := h.ranks q hq
      have hround : (s.rank q).round = (s.rank r).round := by
        refine Nat.le_antisymm (Nat.le_of_not_lt fun hlt => ?_) (hb.2.2 q hq)
        exact hy.recvsDone _ hlt r hb.1 hw' hreceived
      have hbq : Behind G s q := ⟨hq, hround ▸ hb.2.1, fun p hp => hround ▸ hb.2.2 p hp⟩
      have hleft := hy.recvsLeft (hbq.preparing hstuck) r hb.1 (hround ▸ hw') hreceived
      refine hstuck (h.accepts hq hranks (fun hnil => ?_) fun _ _ _ hready => ?_)
      · rw [hnil] at hleft
        cases hleft
      · have hmem : G.listener r q ∈ s.ready G q := by
          refine List.mem_filter.mpr ⟨List.mem_range.mpr (hlisteners r q), ?_⟩
          have hne : s.backlog q (G.listener r q) ≠ [] := List.ne_nil_of_mem hwaiting
          cases hback : s.backlog q (G.listener r q) with
          | nil => exact absurd hback hne
          | cons _ _ => rfl
        rw [hready] at hmem
        cases hmem

/-- **Some step is possible until every rank is through its rounds.** -/
theorem Inv.not_stuck (h : s.Inv G cached) (hG : G.Matched) (hlisteners : ∀ a b, G.listener a b < G.listeners)
    (hranks : ∀ p ∈ s.conns, p.1 < G.worldSize) (hopen : ∃ r < G.worldSize, (s.rank r).round < G.worldSize) :
    ∃ l s', step G l s = some s' := by
  by_contra hstuck
  obtain ⟨r, hb⟩ := exists_behind hopen
  have hx := h.ranks r hb.1
  have hprep := hb.preparing hstuck
  have hconnect := h.connect_done hG hlisteners hranks hb hstuck
  by_cases haccept : (s.rank r).accept = .next []
  · refine hstuck ⟨.finish r, ?_⟩
    rw [step, if_pos (show Label.rank (.finish r) < G.worldSize from hb.1)]
    simp only [move, hprep, hconnect, haccept]
    exact ⟨_, rfl⟩
  · -- the thread polls for a peer that has not asked: that peer is in the same round, and not through
    refine hstuck (h.accepts hb.1 hranks haccept fun peer rest hpolling => ?_)
    exfalso
    obtain ⟨q, rfl, hq, hw⟩ := hx.recvs peer (by rw [hpolling]; exact List.mem_cons_self)
    have hreceived := h.polled r _ _ hpolling
    rw [Int.toNat_natCast] at hreceived
    have hw' := (wants_iff hG hq hb.1).mpr hw
    have hsent : (s.rank q).sendP2p r = none := by
      cases hsent : (s.rank q).sendP2p r with
      | none => rfl
      | some c =>
        have hgreeting : (s.rank r).greeting = none := by rw [P2pRank.greeting, hpolling]
        exact absurd (h.received_of_sent hsent hgreeting) (by rw [hreceived]; exact fun e => by cases e)
    have hy := h.ranks q hq
    have hround : (s.rank q).round = (s.rank r).round := by
      refine Nat.le_antisymm (Nat.le_of_not_lt fun hlt => ?_) (hb.2.2 q hq)
      exact hy.sendsDone _ hlt r hb.1 hw' hsent
    have hbq : Behind G s q := ⟨hq, hround ▸ hb.2.1, fun p hp => hround ▸ hb.2.2 p hp⟩
    have hleft := hy.sendsLeft (hbq.preparing hstuck) r hb.1 (hround ▸ hw') hsent
    rw [h.connect_done hG hlisteners hranks hbq hstuck] at hleft
    cases hleft

end Progress

/-- **P2P connections are made without a deadlock, once, and known on both ends.** -/
theorem p2p_connects (hG : G.Matched) (hlisteners : ∀ a b, G.listener a b < G.listeners)
    (hcached : cached.Nodup) (hranks : ∀ p ∈ cached, p.1 < G.worldSize ∧ p.2 < G.worldSize)
    {ls : List Label} (h : Reach (step G) (start cached) ls s) :
    ((∃ r < G.worldSize, (s.rank r).round < G.worldSize) → ∃ l s', step G l s = some s') ∧
    (∀ a b c, (s.rank b).recvP2p a = some c → s.conns[c]? = some (a, b) ∧ s.status c = .announced a) ∧
    (∀ a b c, (s.rank a).sendP2p b = some c → s.conns[c]? = some (a, b)) ∧
    (∃ made, s.conns = cached ++ made ∧ s.conns.Nodup ∧
      ∀ p ∈ made, p.1 < G.worldSize ∧ p.2 < G.worldSize ∧ G.moving p.1 .send p.2 ≠ []) ∧
    ((∀ r < G.worldSize, G.worldSize ≤ (s.rank r).round) → ∀ a < G.worldSize, ∀ b < G.worldSize,
      (s.rank a).sendP2p b = (s.rank b).recvP2p a ∧
      (G.moving a .send b ≠ [] → (s.rank a).sendP2p b ≠ none)) := by
  have hinv : s.Inv G cached := h.invariant (inv_start hG hcached) fun l s s' hI hs => inv_step hG hI hs
  obtain ⟨made, hconns, hmade⟩ := hinv.made
  have hbound : ∀ p ∈ s.conns, p.1 < G.worldSize := by
    intro p hp
    rw [hconns] at hp
    exact (List.mem_append.mp hp).elim (fun hp => (hranks p hp).1) fun hp => (hmade p hp).1
  refine ⟨hinv.not_stuck hG hlisteners hbound, fun a b c hc => ?_, fun a b c hc => hinv.links.sent a b c hc,
    ⟨made, hconns, hinv.links.nodup, fun p hp => ?_⟩, fun hdone a ha b hb => ?_⟩
  · exact ⟨hinv.links.received a b c hc, (hinv.announced_of_received hc).1⟩
  · obtain ⟨h1, h2, k, hw⟩ := hmade p hp
    exact ⟨h1, h2, hw.1⟩
  · have hidle : ∀ r < G.worldSize, (s.rank r).preparing = false := by
      intro r hr
      cases hprep : (s.rank r).preparing with
      | false => rfl
      | true =>
        have hlt := (hinv.ranks r hr).working hprep
        exact absurd (hdone r hr) (Nat.not_le.mpr hlt)
    have hgreeting : (s.rank b).greeting = none := by
      rw [P2pRank.greeting, ((hinv.ranks b hb).idle (hidle b hb)).2]
    constructor
    · cases hsent : (s.rank a).sendP2p b with
      | some c => exact (hinv.received_of_sent hsent hgreeting).symm
      | none =>
        cases hreceived : (s.rank b).recvP2p a with
        | none => rfl
        | some c =>
          rw [(hinv.announced_of_received hreceived).2] at hsent
          cases hsent
    · intro hmoving
      have hnonneg := (round_of_moving hG ha rfl hmoving).1
      have hw : G.Wants a .send (p2pRoundOf .send a b G.worldSize).toNat b :=
        ⟨hmoving, (Int.toNat_of_nonneg (by omega)).symm⟩
      have hround := (wants_round hG ha rfl hw).2
      exact (hinv.ranks a ha).sendsDone _ (Nat.lt_of_lt_of_le hround (hdone a ha)) b hb hw

/-- Three ranks. Each sends to both others and receives from them; an old connection leads from 0 to 1. -/
def allPairs : Group where
  worldSize := 3
  tasks r := (List.range 3).flatMap fun peer =>
    if peer = r then [] else [{ func := .send, count := 4, peer := peer }, { func := .recv, count := 4, peer := peer }]
  listener _ b := b % 2
  listeners := 2

/-- Rank 1 is in its second round when rank 2, still in its first, accepts what rank 1 has asked for. -/
def outOfOrder : List Label :=
  [.begin 0, .begin 1, .begin 2, .connect 1, .connect 2, .accept 0, .poll 0, .take 0, .connected 1, .receive 0,
    .served 0, .accept 1, .poll 1, .take 1, .connected 2, .receive 1, .served 1, .finish 1, .begin 1, .connect 1,
    .accept 2, .poll 2, .take 2, .connected 1, .receive 2, .served 2, .connect 0, .poll 2, .take 2,
    .connected 0, .receive 2, .served 2, .finish 0, .finish 1, .finish 2, .begin 0, .begin 2, .connect 2,
    .accept 0, .poll 0, .take 0, .connected 2, .receive 0, .served 0, .finish 0, .finish 2]

theorem p2p_connects_allPairs :
    let s := follow (step allPairs) (start [(0, 1)]) outOfOrder
    (∀ r < 3, (s.rank r).round = 3) ∧ s.conns = [(0, 1), (1, 0), (2, 1), (1, 2), (0, 2), (2, 0)] ∧
      ∀ a < 3, ∀ b < 3, (s.rank a).sendP2p b = (s.rank b).recvP2p a := by
  intro s
  have hG : allPairs.Matched := by
    constructor
    · decide
    · decide
  have hlisteners : ∀ a b, allPairs.listener a b < allPairs.listeners := fun _ b => Nat.mod_lt b (by decide)
  obtain ⟨ls, -, h⟩ := follow_reach (step allPairs) (start [(0, 1)]) outOfOrder
  have hdone : ∀ r < 3, (s.rank r).round = 3 := by decide +kernel
  have hconns : s.conns = [(0, 1), (1, 0), (2, 1), (1, 2), (0, 2), (2, 0)] := by decide +kernel
  change Reach _ _ ls s at h
  clear_value s
  obtain ⟨-, -, -, -, hends⟩ := p2p_connects hG hlisteners (by decide) (by decide) h
  have hleast : ∀ r < 3, 3 ≤ (s.rank r).round := fun r hr => Nat.le_of_eq (hdone r hr).symm
  exact ⟨hdone, hconns, fun a ha b hb => (hends hleast a ha b hb).1⟩

end P2pSetup

end OriginCCL
