/-
  File:      OriginCCL/Setup/Handshakes.lean
  Subject:   CONNECTING THE CHANNELS (`ConnectActiveEdges`, `AcceptPassiveEdges`).

  Every rank connects its edges to the ranks above it one by one; the connections and their handshakes
  wait at the other rank, which takes them in any order and gives each to the connector its handshake
  names.

  * `SetupStep` -- one connection made or accepted.
  * `Settled` -- the invariant: where every connection is.
  * `setup_settled` -- **it holds whatever the order of the handshakes**.
  * `Settled.complete` -- **when every rank has accepted its number of connections**, every connector
    has exactly one, and its other end is the opposite connector of the other rank.
  * `Settled.moves` -- until then some rank can go on.
-/
import OriginCCL.Setup.Edges

namespace OriginCCL

open Net Base

/-! ## 1. Steps -/

/-- A connection: the rank that made it, and for which of its edges. -/
structure Conn where
  rank : Nat
  index : Nat
deriving DecidableEq

/-- `ConnHandshake`. -/
structure Handshake where
  rank : Int
  channelId : Int
  isSend : Bool
deriving DecidableEq

/-- All ranks on the way through `InitChannels`: how many of its edges a rank has connected and
    accepted, the connections that wait at it, the connections given to each of its connectors,
    latest first, and whether it has given up. -/
@[ext] structure SetupState where
  dialed : Nat → Nat
  accepted : Nat → Nat
  waiting : Nat → List (Conn × Handshake)
  held : Nat → ChannelEdge → List Conn
  failed : Nat → Bool

/-- `FindConnector`. -/
def findConnector (channels : List Channel) (channelId peer : Int) (isSend : Bool) :
    Option Connector :=
  if channelId < 0 ∨ channels.length ≤ channelId.toNat then none
  else (channels[channelId.toNat]?).bind fun channel =>
    if isSend then channel.sendConnector peer else channel.recvConnector peer

namespace SetupState

def start : SetupState := ⟨fun _ => 0, fun _ => 0, fun _ => [], fun _ _ => [], fun _ => false⟩

/-- Rank `r` gives a connection to a connector, or gives up if there is none. -/
def give (s : SetupState) (r : Nat) (connector : Option Connector) (conn : Conn) : SetupState :=
  match connector with
  | none => { s with failed := Function.update s.failed r true }
  | some c =>
    let e : ChannelEdge := ⟨c.channelId, c.peer, c.isSend⟩
    { s with held := Function.update s.held r
              (Function.update (s.held r) e (conn :: s.held r e)) }

variable {H : Type} [DecidableEq H] (w : World H)

/-- Rank `r` connects its next edge. -/
def dial (s : SetupState) (r : Nat) (e : ChannelEdge) : SetupState :=
  let conn : Conn := ⟨r, s.dialed r⟩
  let peer := e.peer.toNat
  let s := { s with
    dialed := Function.update s.dialed r (s.dialed r + 1)
    waiting := Function.update s.waiting peer
      (s.waiting peer ++ [(conn, Handshake.mk r e.channelId e.isSend)]) }
  s.give r (findConnector (w.shaped r).2 e.channelId e.peer e.isSend) conn

/-- Rank `r` accepts a connection and leaves the others waiting. -/
def accept (s : SetupState) (r : Nat) (x : Conn × Handshake) (rest : List (Conn × Handshake)) :
    SetupState :=
  let s := { s with
    accepted := Function.update s.accepted r (s.accepted r + 1)
    waiting := Function.update s.waiting r rest }
  s.give r (findConnector (w.shaped r).2 x.2.channelId x.2.rank (!x.2.isSend)) x.1

end SetupState

section Worlds

variable {H : Type} [DecidableEq H] (w : World H)

/-- **One connection made or accepted**: of those that wait, any one. -/
inductive SetupStep (s : SetupState) : SetupState → Prop
  | dial (r : Nat) (e : ChannelEdge) (hr : r < w.size) (hok : s.failed r = false)
      (he : (w.connectEdges r)[s.dialed r]? = some e) : SetupStep s (s.dial w r e)
  | accept (r : Nat) (x : Conn × Handshake) (before after : List (Conn × Handshake))
      (hr : r < w.size) (hok : s.failed r = false)
      (hn : s.accepted r < (w.acceptEdges r).length)
      (hx : s.waiting r = before ++ x :: after) : SetupStep s (s.accept w r x (before ++ after))

/-- What can happen on the way through `InitChannels`. -/
def SetupReaches (s : SetupState) : Prop := Relation.ReflTransGen (SetupStep w) .start s

/-! ## 2. Where every connection is -/

/-- What waits at the other rank for an edge of rank `q`. -/
def arrival (q k : Nat) (e : ChannelEdge) : Conn × Handshake := (⟨q, k⟩, ⟨q, e.channelId, e.isSend⟩)

/-- **Where every connection is**: held by the connector of the rank that made it, and either waiting
    or held by the opposite connector of the other rank. -/
structure Settled (s : SetupState) : Prop where
  fine : ∀ r, s.failed r = false
  stray : ∀ r e, s.held r e ≠ [] → r < w.size ∧ e ∈ w.edges r
  dialed_le : ∀ r < w.size, s.dialed r ≤ (w.connectEdges r).length
  active : ∀ r < w.size, ∀ k e, (w.connectEdges r)[k]? = some e →
    s.held r e = if k < s.dialed r then [⟨r, k⟩] else []
  passive : ∀ q < w.size, ∀ k e (r : Nat), (w.connectEdges q)[k]? = some e → e.peer = (r : Int) →
    k < s.dialed q → (arrival q k e ∈ s.waiting r ∧ s.held r (e.back q) = []) ∨
      (arrival q k e ∉ s.waiting r ∧ s.held r (e.back q) = [⟨q, k⟩])
  later : ∀ q < w.size, ∀ k e (r : Nat), (w.connectEdges q)[k]? = some e → e.peer = (r : Int) →
    s.dialed q ≤ k → s.held r (e.back q) = []
  waits : ∀ r, ∀ x ∈ s.waiting r, ∃ q < w.size, ∃ k < s.dialed q, ∃ e,
    (w.connectEdges q)[k]? = some e ∧ e.peer = (r : Int) ∧ x = arrival q k e
  once : ∀ r, (s.waiting r).Nodup
  counts : ∀ r < w.size, s.accepted r = (w.acceptEdges r).countP fun e => s.held r e ≠ []

variable {w} {s s' : SetupState} {r q k : Nat} {e : ChannelEdge}

theorem settled_start : Settled w .start where
  fine _ := rfl
  stray _ _ h := absurd rfl h
  dialed_le _ _ := Nat.zero_le _
  active _ _ _ _ _ := (if_neg (Nat.not_lt_zero _)).symm
  passive _ _ _ _ _ _ _ h := absurd h (Nat.not_lt_zero _)
  later _ _ _ _ _ _ _ _ := rfl
  waits _ _ h := absurd h List.not_mem_nil
  once _ := List.nodup_nil
  counts r _ := by
    refine (List.countP_eq_zero.mpr fun e _ => ?_).symm
    simp [SetupState.start]

/-- Every edge has its connector. -/
theorem findConnector_edge (h : e ∈ w.edges r) :
    findConnector (w.shaped r).2 e.channelId e.peer e.isSend =
      some { peer := e.peer, channelId := e.channelId, isSend := e.isSend, transport := none } := by
  obtain ⟨id, hid, q, hq, -, he, -⟩ := World.mem_edges.mp h
  generalize hb : e.isSend = b at he
  subst he
  rw [World.shaped_eq, findConnector, if_neg]
  · rw [Int.toNat_natCast, List.getElem?_map, List.getElem?_range hid]
    have hlen : ¬ ((q : Int) < 0 ∨ w.size ≤ q) := by omega
    cases b
    · simp only [Option.map_some, Option.bind_some, World.shapedChannel, initialChannel,
        Channel.recvConnector, List.length_map, List.length_range, if_neg hlen, Int.toNat_natCast,
        List.getElem?_map, List.getElem?_range hq, Bool.false_eq_true, if_false]
    · simp only [Option.map_some, Option.bind_some, World.shapedChannel, initialChannel,
        Channel.sendConnector, List.length_map, List.length_range, if_neg hlen, Int.toNat_natCast,
        List.getElem?_map, List.getElem?_range hq, if_true]
  · simp only [List.length_map, List.length_range]
    omega

/-- An edge tells which connection it is. -/
theorem connect_inj {k' : Nat} {e : ChannelEdge} (h : (w.connectEdges q)[k]? = some e)
    (h' : (w.connectEdges q)[k']? = some e) : k = k' := by
  obtain ⟨hk, he⟩ := List.getElem?_eq_some_iff.mp h
  obtain ⟨hk', he'⟩ := List.getElem?_eq_some_iff.mp h'
  exact (World.connectEdges_nodup q).getElem_inj_iff.mp (he.trans he'.symm)

theorem connect_mem (h : (w.connectEdges q)[k]? = some e) : e ∈ w.connectEdges q :=
  List.mem_of_getElem? h

/-- Counting one more. -/
theorem countP_insert {α : Type} {l : List α} (hl : l.Nodup) {p p' : α → Bool} {a : α} (ha : a ∈ l)
    (hp : p a = false) (hp' : p' a = true) (hother : ∀ b, b ≠ a → p' b = p b) :
    l.countP p' = l.countP p + 1 := by
  induction l with
  | nil => exact absurd ha List.not_mem_nil
  | cons b l ih =>
    obtain ⟨hb, hl⟩ := List.nodup_cons.mp hl
    rw [List.countP_cons, List.countP_cons]
    by_cases hab : a = b
    · subst hab
      have hrest : l.countP p' = l.countP p :=
        List.countP_congr fun x hx => by rw [hother x fun h => hb (h ▸ hx)]
      rw [hp, hp', hrest, if_pos rfl, if_neg (by decide)]
    · rw [ih hl ((List.mem_cons.mp ha).resolve_left hab), hother b (Ne.symm hab)]
      omega

/-! ## 3. Every step keeps it -/

/-- What a connector of a rank is given. -/
theorem SetupState.give_edge (s : SetupState) (h : e ∈ w.edges r) (conn : Conn) :
    s.give r (findConnector (w.shaped r).2 e.channelId e.peer e.isSend) conn =
      { s with held := Function.update s.held r
                (Function.update (s.held r) e (conn :: s.held r e)) } := by
  rw [findConnector_edge h]
  rfl

theorem held_update (held : Nat → ChannelEdge → List Conn) (r r' : Nat) (e e' : ChannelEdge)
    (conns : List Conn) : Function.update held r (Function.update (held r) e conns) r' e' =
      if r' = r ∧ e' = e then conns else held r' e' := by
  by_cases hr : r' = r
  · subst hr
    rw [Function.update_self]
    by_cases he : e' = e
    · subst he
      rw [Function.update_self, if_pos ⟨rfl, rfl⟩]
    · rw [Function.update_of_ne he, if_neg fun h => he h.2]
  · rw [Function.update_of_ne hr, if_neg fun h => hr h.1]

/-- **Connecting an edge keeps the invariant.** -/
theorem Settled.dial (h : Settled w s) (hr : r < w.size)
    (he : (w.connectEdges r)[s.dialed r]? = some e) : Settled w (s.dial w r e) := by
  obtain ⟨q, hq, hrq, hqN, hback⟩ := World.connect_spec hr (connect_mem he)
  have hmem := (World.mem_connectEdges.mp (connect_mem he)).1
  have hheld : s.held r e = [] := by
    rw [h.active r hr _ _ he, if_neg (Nat.lt_irrefl _)]
  obtain ⟨t, ht, hd, ha, hw, hh, hf⟩ : ∃ t, s.dial w r e = t ∧
      t.dialed = Function.update s.dialed r (s.dialed r + 1) ∧ t.accepted = s.accepted ∧
      t.waiting = Function.update s.waiting q (s.waiting q ++ [arrival r (s.dialed r) e]) ∧
      (∀ r' e', t.held r' e' = if r' = r ∧ e' = e then [⟨r, s.dialed r⟩] else s.held r' e') ∧
      t.failed = s.failed := by
    refine ⟨_, rfl, ?_⟩
    unfold SetupState.dial
    dsimp only
    rw [SetupState.give_edge _ hmem]
    refine ⟨rfl, rfl, ?_, fun r' e' => ?_, rfl⟩
    · simp only [hq, Int.toNat_natCast]
      rfl
    · simp only [held_update, hheld]
  rw [ht]
  -- an edge that is accepted is none that is connected
  have hapart : ∀ (q' : Nat) (e' : ChannelEdge) (r' : Nat), q' < w.size →
      e' ∈ w.connectEdges q' → e'.peer = (r' : Int) → ¬ (r' = r ∧ e'.back q' = e) := by
    rintro q' e' r' hq' he' hr' ⟨rfl, rfl⟩
    have h1 := (World.mem_connectEdges.mp he').2
    have h2 : ((q' : Nat) : Int) = (q : Int) := hq
    omega
  have hdial : ∀ q', t.dialed q' = if q' = r then s.dialed r + 1 else s.dialed q' := by
    intro q'
    rw [hd, Function.update_apply]
  have hmemw : ∀ x r', x ∈ t.waiting r' ↔
      x ∈ s.waiting r' ∨ (r' = q ∧ x = arrival r (s.dialed r) e) := by
    intro x r'
    rw [hw, Function.update_apply]
    split
    · rename_i hr'
      subst hr'
      simp
    · rename_i hr'
      simp [hr']
  have hnew : ∀ r', arrival r (s.dialed r) e ∉ s.waiting r' := by
    intro r' hx
    obtain ⟨q', -, k', hk', e', -, -, hx⟩ := h.waits r' _ hx
    obtain ⟨rfl, rfl⟩ : r = q' ∧ s.dialed r = k' := by
      have := congrArg Prod.fst hx
      simpa [arrival] using this
    exact Nat.lt_irrefl _ hk'
  have hlen : s.dialed r < (w.connectEdges r).length := (List.getElem?_eq_some_iff.mp he).1
  refine ⟨fun r' => by rw [hf]; exact h.fine r', fun r' e' hne => ?_, fun r' hr' => ?_,
    fun r' hr' k e' he' => ?_, fun q' hq' k e' r' he' hp hk => ?_,
    fun q' hq' k e' r' he' hp hk => ?_, fun r' x hx => ?_, fun r' => ?_, fun r' hr' => ?_⟩
  · rw [hh] at hne
    split at hne
    · rename_i hc
      rw [hc.1, hc.2]
      exact ⟨hr, hmem⟩
    · exact h.stray r' e' hne
  · rw [hdial]
    split
    · rename_i hc
      rw [hc]
      exact hlen
    · exact h.dialed_le r' hr'
  · rw [hh, hdial]
    by_cases hc : r' = r
    · subst hc
      by_cases hee : e' = e
      · subst hee
        rw [connect_inj he' he]
        simp
      · have hk : k ≠ s.dialed r' := by
          rintro rfl
          exact hee (Option.some.inj (he'.symm.trans he))
        rw [if_neg fun hc => hee hc.2, if_pos rfl, h.active r' hr' k e' he']
        have hiff : k < s.dialed r' ↔ k < s.dialed r' + 1 := by omega
        exact if_congr hiff rfl rfl
    · rw [if_neg fun h => hc h.1, if_neg hc]
      exact h.active r' hr' k e' he'
  · rw [hh, if_neg (hapart q' e' r' hq' (connect_mem he') hp), hmemw]
    by_cases hc : q' = r ∧ k = s.dialed r
    · obtain ⟨rfl, rfl⟩ := hc
      obtain rfl := Option.some.inj (he.symm.trans he')
      obtain rfl : q = r' := Int.ofNat_inj.mp (hq.symm.trans hp)
      exact Or.inl ⟨Or.inr ⟨rfl, rfl⟩, h.later q' hr _ e q he hq (Nat.le_refl _)⟩
    · have hk' : k < s.dialed q' := by
        rw [hdial] at hk
        split at hk
        · rename_i hqr
          subst hqr
          have : k ≠ s.dialed q' := fun h => hc ⟨rfl, h⟩
          omega
        · exact hk
      have hother : ¬ (r' = q ∧ arrival q' k e' = arrival r (s.dialed r) e) := by
        rintro ⟨-, hx⟩
        have := congrArg Prod.fst hx
        exact hc (by simpa [arrival] using this)
      simp only [hother, or_false]
      exact h.passive q' hq' k e' r' he' hp hk'
  · rw [hh, if_neg (hapart q' e' r' hq' (connect_mem he') hp)]
    refine h.later q' hq' k e' r' he' hp ?_
    rw [hdial] at hk
    split at hk
    · rename_i hqr
      rw [hqr]
      omega
    · exact hk
  · rcases (hmemw x r').mp hx with hx | ⟨rfl, rfl⟩
    · obtain ⟨q', hq', k', hk', e', h1, h2, h3⟩ := h.waits r' x hx
      refine ⟨q', hq', k', ?_, e', h1, h2, h3⟩
      rw [hdial]
      split
      · rename_i hqr
        subst hqr
        omega
      · exact hk'
    · refine ⟨r, hr, s.dialed r, ?_, e, he, hq, rfl⟩
      rw [hdial, if_pos rfl]
      exact Nat.lt_succ_self _
  · rw [hw, Function.update_apply]
    split
    · refine List.nodup_append.mpr ⟨h.once q, List.pairwise_singleton _ _, ?_⟩
      rintro x hx y hy rfl
      rw [List.mem_singleton] at hy
      exact hnew q (hy ▸ hx)
    · exact h.once r'
  · rw [ha, h.counts r' hr']
    refine List.countP_congr fun e' he' => ?_
    have hne : ¬ (r' = r ∧ e' = e) := by
      rintro ⟨rfl, rfl⟩
      exact (World.mem_acceptEdges.mp he').2 (World.mem_connectEdges.mp (connect_mem he)).2
    rw [hh, if_neg hne]

/-- **Accepting a connection keeps the invariant**, whichever it is. -/
theorem Settled.accept (h : Settled w s) (hr : r < w.size) {x : Conn × Handshake}
    {before after : List (Conn × Handshake)} (hx : s.waiting r = before ++ x :: after) :
    Settled w (s.accept w r x (before ++ after)) := by
  have hxw : x ∈ s.waiting r := by
    rw [hx]
    exact List.mem_append_right _ List.mem_cons_self
  obtain ⟨q, hq, k, hk, e, he, hp, rfl⟩ := h.waits r x hxw
  obtain ⟨r', hr', hlt, -, hacc⟩ := World.connect_spec hq (connect_mem he)
  obtain rfl : r' = r := Int.ofNat_inj.mp (hr'.symm.trans hp)
  have hmem : e.back q ∈ w.edges r' := (World.mem_acceptEdges.mp hacc).1
  have hheld : s.held r' (e.back q) = [] := by
    rcases h.passive q hq k e r' he hp hk with ⟨-, h0⟩ | ⟨hn, -⟩
    · exact h0
    · exact absurd hxw hn
  have hnodup := h.once r'
  rw [hx] at hnodup
  have hperm : (before ++ arrival q k e :: after).Perm (arrival q k e :: (before ++ after)) :=
    List.perm_middle
  have hsplit : ∀ y, y ∈ before ++ after ↔ y ∈ s.waiting r' ∧ y ≠ arrival q k e := by
    intro y
    have hnot := (List.nodup_cons.mp (hperm.nodup_iff.mp hnodup)).1
    rw [hx, hperm.mem_iff, List.mem_cons]
    constructor
    · intro hy
      exact ⟨Or.inr hy, fun h => hnot (h ▸ hy)⟩
    · rintro ⟨hy, hne⟩
      exact hy.resolve_left hne
  obtain ⟨t, ht, hd, ha, hw, hh, hf⟩ : ∃ t, s.accept w r' (arrival q k e) (before ++ after) = t ∧
      t.dialed = s.dialed ∧ t.accepted = Function.update s.accepted r' (s.accepted r' + 1) ∧
      t.waiting = Function.update s.waiting r' (before ++ after) ∧
      (∀ r₁ e₁, t.held r₁ e₁ = if r₁ = r' ∧ e₁ = e.back q then [⟨q, k⟩] else s.held r₁ e₁) ∧
      t.failed = s.failed := by
    refine ⟨_, rfl, ?_⟩
    unfold SetupState.accept
    dsimp only
    have hfind : findConnector (w.shaped r').2 (arrival q k e).2.channelId (arrival q k e).2.rank
        (!(arrival q k e).2.isSend) = findConnector (w.shaped r').2 (e.back q).channelId
          (e.back q).peer (e.back q).isSend := rfl
    rw [hfind, SetupState.give_edge _ hmem]
    refine ⟨rfl, rfl, rfl, fun r₁ e₁ => ?_, rfl⟩
    simp only [held_update, hheld]
    rfl
  rw [ht]
  have hmemw : ∀ y r₁, y ∈ t.waiting r₁ ↔ y ∈ s.waiting r₁ ∧ ¬ (r₁ = r' ∧ y = arrival q k e) := by
    intro y r₁
    rw [hw, Function.update_apply]
    split
    · rename_i hr₁
      subst hr₁
      simp [hsplit]
    · rename_i hr₁
      simp [hr₁]
  -- only this connection goes to this connector
  have hsame : ∀ q' k' e', (w.connectEdges q')[k']? = some e' → e'.peer = (r' : Int) →
      e'.back q' = e.back q → q' = q ∧ k' = k := by
    intro q' k' e' he' hp' hb
    have hqq : q' = q := Int.ofNat_inj.mp (congrArg ChannelEdge.peer hb)
    subst hqq
    have hee : e' = e := by
      rw [← ChannelEdge.back_back e' hp', hb, ChannelEdge.back_back e hp]
    subst hee
    exact ⟨rfl, connect_inj he' he⟩
  have hactive : ∀ r₁ e₁, e₁ ∈ w.connectEdges r₁ → ¬ (r₁ = r' ∧ e₁ = e.back q) := by
    rintro r₁ e₁ he₁ ⟨rfl, rfl⟩
    exact (World.mem_acceptEdges.mp hacc).2 (World.mem_connectEdges.mp he₁).2
  refine ⟨fun r₁ => by rw [hf]; exact h.fine r₁, fun r₁ e₁ hne => ?_,
    fun r₁ hr₁ => by rw [hd]; exact h.dialed_le r₁ hr₁,
    fun r₁ hr₁ k' e₁ he₁ => ?_, fun q' hq' k' e' r₁ he' hp' hk' => ?_,
    fun q' hq' k' e' r₁ he' hp' hk' => ?_, fun r₁ y hy => ?_, fun r₁ => ?_, fun r₁ hr₁ => ?_⟩
  · rw [hh] at hne
    split at hne
    · rename_i hc
      rw [hc.1, hc.2]
      exact ⟨hr, hmem⟩
    · exact h.stray r₁ e₁ hne
  · rw [hh, if_neg (hactive r₁ e₁ (connect_mem he₁)), hd]
    exact h.active r₁ hr₁ k' e₁ he₁
  · rw [hd] at hk'
    rw [hh, hmemw]
    by_cases hc : r₁ = r' ∧ e'.back q' = e.back q
    · obtain ⟨rfl, hb⟩ := hc
      obtain ⟨rfl, rfl⟩ := hsame q' k' e' he' hp' hb
      obtain rfl := Option.some.inj (he.symm.trans he')
      rw [if_pos ⟨rfl, rfl⟩]
      exact Or.inr ⟨fun hn => hn.2 ⟨rfl, rfl⟩, rfl⟩
    · rw [if_neg hc]
      have hother : ¬ (r₁ = r' ∧ arrival q' k' e' = arrival q k e) := by
        rintro ⟨rfl, hequal⟩
        obtain ⟨rfl, rfl⟩ : q' = q ∧ k' = k := by
          have := congrArg Prod.fst hequal
          simpa [arrival] using this
        obtain rfl := Option.some.inj (he.symm.trans he')
        exact hc ⟨rfl, rfl⟩
      simp only [hother, not_false_eq_true, and_true]
      exact h.passive q' hq' k' e' r₁ he' hp' hk'
  · rw [hd] at hk'
    rw [hh]
    split
    · rename_i hc
      obtain ⟨rfl, hb⟩ := hc
      obtain ⟨rfl, rfl⟩ := hsame q' k' e' he' hp' hb
      exact absurd hk (by omega)
    · exact h.later q' hq' k' e' r₁ he' hp' hk'
  · rw [hd]
    exact h.waits r₁ y ((hmemw y r₁).mp hy).1
  · rw [hw, Function.update_apply]
    split
    · exact (List.nodup_cons.mp (hperm.nodup_iff.mp hnodup)).2
    · exact h.once r₁
  · rw [ha, Function.update_apply]
    split
    · rename_i hc
      subst hc
      rw [h.counts r₁ hr]
      refine (countP_insert (World.acceptEdges_nodup r₁) hacc ?_ ?_ fun e₁ hne => ?_).symm
      · simp [hheld]
      · simp [hh]
      · rw [hh, if_neg fun hc => hne hc.2]
    · rename_i hc
      rw [h.counts r₁ hr₁]
      refine List.countP_congr fun e₁ _ => ?_
      rw [hh, if_neg fun h => hc h.1]

/-- **The invariant holds whatever the order of the handshakes.** -/
theorem setup_settled (h : SetupReaches w s) : Settled w s := by
  induction h with
  | refl => exact settled_start
  | tail _ hstep ih =>
    cases hstep with
    | dial r e hr _ he => exact ih.dial hr he
    | accept r x before after hr _ _ hx => exact ih.accept hr hx

/-! ## 4. The end of `InitChannels` -/

/-- A rank that has accepted its number of connections has one for every edge it waits for. -/
theorem Settled.accepted_all (h : Settled w s) (hr : r < w.size)
    (hdone : s.accepted r = (w.acceptEdges r).length) {e : ChannelEdge}
    (he : e ∈ w.acceptEdges r) : s.held r e ≠ [] := by
  have hall := h.counts r hr
  rw [hdone] at hall
  have := List.countP_eq_length.mp hall.symm e he
  simpa using this

/-- An edge that is waited for is one of those its rank connects. -/
theorem accept_index (hr : r < w.size) (he : e ∈ w.acceptEdges r) : ∃ q k : Nat, q < r ∧
    e.peer = (q : Int) ∧ (w.connectEdges q)[k]? = some (e.back r) := by
  obtain ⟨q, hq, hlt, hback⟩ := World.accept_spec hr he
  obtain ⟨k, hk, hget⟩ := List.getElem_of_mem hback
  exact ⟨q, k, hlt, hq, List.getElem?_eq_some_iff.mpr ⟨hk, hget⟩⟩

/-- What a connector holds that waits for a connection. -/
theorem Settled.held_accept (h : Settled w s) (hr : r < w.size) (he : e ∈ w.acceptEdges r)
    (hne : s.held r e ≠ []) : ∃ q k : Nat, q < w.size ∧ k < s.dialed q ∧ e.peer = (q : Int) ∧
      (w.connectEdges q)[k]? = some (e.back r) ∧ s.held r e = [⟨q, k⟩] := by
  obtain ⟨q, k, hlt, hq, hget⟩ := accept_index hr he
  have hqN : q < w.size := by omega
  have hback : (e.back r).back q = e := ChannelEdge.back_back e hq
  have hk : k < s.dialed q := by
    by_contra hge
    have := h.later q hqN k _ r hget rfl (by omega)
    rw [hback] at this
    exact hne this
  rcases h.passive q hqN k _ r hget rfl hk with ⟨-, h0⟩ | ⟨-, h1⟩
  · rw [hback] at h0
    exact absurd h0 hne
  · rw [hback] at h1
    exact ⟨q, k, hqN, hk, hq, hget, h1⟩

/-- **A connection is held by the two ends of one edge only.** -/
theorem Settled.two_ends (h : Settled w s) {q k : Nat} {e : ChannelEdge}
    (he : (w.connectEdges q)[k]? = some e) {r : Nat} (hp : e.peer = (r : Int)) {r' : Nat}
    {e' : ChannelEdge} (hmem : (⟨q, k⟩ : Conn) ∈ s.held r' e') :
    (r' = q ∧ e' = e) ∨ (r' = r ∧ e' = e.back q) := by
  have hne : s.held r' e' ≠ [] := List.ne_nil_of_mem hmem
  obtain ⟨hr', he'⟩ := h.stray r' e' hne
  by_cases hlt : (r' : Int) < e'.peer
  · obtain ⟨k', hk', hget⟩ := List.getElem_of_mem (World.mem_connectEdges.mpr ⟨he', hlt⟩)
    have hget : (w.connectEdges r')[k']? = some e' := List.getElem?_eq_some_iff.mpr ⟨hk', hget⟩
    rw [h.active r' hr' k' e' hget] at hmem
    split at hmem
    · rw [List.mem_singleton, Conn.mk.injEq] at hmem
      obtain ⟨rfl, rfl⟩ := hmem
      exact Or.inl ⟨rfl, Option.some.inj (hget.symm.trans he)⟩
    · exact absurd hmem List.not_mem_nil
  · obtain ⟨q', k', -, -, hq', hget, hheld⟩ :=
      h.held_accept hr' (World.mem_acceptEdges.mpr ⟨he', hlt⟩) hne
    rw [hheld, List.mem_singleton, Conn.mk.injEq] at hmem
    obtain ⟨rfl, rfl⟩ := hmem
    have heq := Option.some.inj (he.symm.trans hget)
    right
    rw [heq] at hp ⊢
    exact ⟨Int.ofNat_inj.mp hp, (ChannelEdge.back_back e' hq').symm⟩

/-- **A connector of an edge, once all are accepted, holds one connection**, and so does the opposite
    connector of the other rank, and no other. -/
theorem Settled.complete (h : Settled w s)
    (hdone : ∀ r < w.size, s.accepted r = (w.acceptEdges r).length) (hr : r < w.size)
    (he : e ∈ w.edges r) : ∃ conn, s.held r e = [conn] ∧
      s.held e.peer.toNat (e.back r) = [conn] ∧ ∀ r' e', conn ∈ s.held r' e' →
        (r' = r ∧ e' = e) ∨ (r' = e.peer.toNat ∧ e' = e.back r) := by
  by_cases hlt : (r : Int) < e.peer
  · -- the rank has made the connection
    have hc := World.mem_connectEdges.mpr ⟨he, hlt⟩
    obtain ⟨q, hq, -, hqN, hback⟩ := World.connect_spec hr hc
    obtain ⟨r', k, -, hk, hr', hget, hheld⟩ :=
      h.held_accept hqN hback (h.accepted_all hqN (hdone q hqN) hback)
    obtain rfl : r = r' := Int.ofNat_inj.mp hr'
    rw [ChannelEdge.back_back e hq] at hget
    have hactive := h.active r hr k e hget
    rw [if_pos hk] at hactive
    refine ⟨⟨r, k⟩, hactive, ?_, fun r' e' hmem => ?_⟩
    · rw [hq, Int.toNat_natCast]
      exact hheld
    · rw [hq, Int.toNat_natCast]
      exact h.two_ends hget hq hmem
  · -- the rank has accepted it
    have hc := World.mem_acceptEdges.mpr ⟨he, hlt⟩
    obtain ⟨q, k, hqN, hk, hq, hget, hheld⟩ := h.held_accept hr hc (h.accepted_all hr (hdone r hr) hc)
    have hactive := h.active q hqN k _ hget
    rw [if_pos hk] at hactive
    refine ⟨⟨q, k⟩, hheld, ?_, fun r' e' hmem => ?_⟩
    · rw [hq, Int.toNat_natCast]
      exact hactive
    · rw [hq, Int.toNat_natCast]
      rcases h.two_ends hget rfl hmem with hl | ⟨h1, h2⟩
      · exact Or.inr hl
      · rw [ChannelEdge.back_back e hq] at h2
        exact Or.inl ⟨h1, h2⟩

/-- **Nobody waits for ever**: as long as a rank has not accepted all its connections, some rank can
    go on. -/
theorem Settled.moves (h : Settled w s) (hr : r < w.size)
    (hlt : s.accepted r < (w.acceptEdges r).length) : ∃ s', SetupStep w s s' := by
  have hopen : ∃ e ∈ w.acceptEdges r, s.held r e = [] := by
    by_contra hall
    have hall : ∀ e ∈ w.acceptEdges r, s.held r e ≠ [] := fun e he h0 => hall ⟨e, he, h0⟩
    have := h.counts r hr
    rw [List.countP_eq_length.mpr fun e he => by simpa using hall e he] at this
    omega
  obtain ⟨e, he, h0⟩ := hopen
  obtain ⟨q, k, hqr, hq, hget⟩ := accept_index hr he
  have hqN : q < w.size := by omega
  have hback : (e.back r).back q = e := ChannelEdge.back_back e hq
  by_cases hk : k < s.dialed q
  · rcases h.passive q hqN k _ r hget rfl hk with ⟨hw, -⟩ | ⟨-, h1⟩
    · obtain ⟨before, after, hx⟩ := List.append_of_mem hw
      exact ⟨_, .accept r _ before after hr (h.fine r) hlt hx⟩
    · rw [hback, h0] at h1
      cases h1
  · have hlen : s.dialed q < (w.connectEdges q).length := by
      have := (List.getElem?_eq_some_iff.mp hget).1
      omega
    exact ⟨_, .dial q _ hqN (h.fine q) (List.getElem?_eq_getElem hlen)⟩

end Worlds

end OriginCCL
