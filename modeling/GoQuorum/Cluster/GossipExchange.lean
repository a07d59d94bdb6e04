import GoQuorum.Cluster.GossipRuns
import GoQuorum.Lib.Flow
import GoQuorum.Lib.Utf8

/-!
# Exchanges of gossip

`gossipRound` and `exchange` of `internal/cluster/gossip.go`, and `handleGossipExchange` of
`internal/server/internal_api.go`.  In a round a node takes a copy of its state and sends it to some
of its peers.  A peer merges it and answers with its own state, which the node merges in turn.
Between these steps anything may happen: other exchanges, status changes, failures.

`GossipNet` puts the messages under way beside the nodes of `GossipSystem`; each of its steps is a
step of that system or leaves the nodes as they are.  What a node knows about another one is passed
on along every chain of exchanges (`gossip_carries_news`), except through the node it is about,
which keeps its own entry.
-/

namespace GoQuorum

open Lib

/-! ## Messages -/

/-- A node entry after encoding and decoding as JSON. -/
def NodeEntry.overJSON (entry : NodeEntry) : NodeEntry :=
  { entry with nodeID := toValidUTF8 entry.nodeID, addr := toValidUTF8 entry.addr }

/-- A gossip state after encoding and decoding as JSON.  The encoder goes through the keys in order,
and the last of several equal keys counts. -/
def GossipState.overJSON (state : GossipState) : GossipState :=
  SortedMap.ofList (state.toList.map fun p => (toValidUTF8 p.1, p.2.overJSON))

/-- The id and the address of an entry are valid UTF-8. -/
def NodeEntry.Text (entry : NodeEntry) : Prop :=
  toValidUTF8 entry.nodeID = entry.nodeID ∧ toValidUTF8 entry.addr = entry.addr

theorem NodeEntry.Text.overJSON {entry : NodeEntry} (h : entry.Text) : entry.overJSON = entry := by
  rw [NodeEntry.overJSON, h.1, h.2]

/-- All ids and addresses are valid UTF-8. -/
def GossipState.Text (state : GossipState) : Prop :=
  ∀ p ∈ state.toList, toValidUTF8 p.1 = p.1 ∧ p.2.Text

theorem GossipState.Text.overJSON {state : GossipState} (h : GossipState.Text state) :
    GossipState.overJSON state = state := by
  have hmap : (state.toList.map fun p => (toValidUTF8 p.1, p.2.overJSON)) = state.toList := by
    conv_rhs => rw [← List.map_id state.toList]
    exact List.map_congr_left fun p hp => Prod.ext (h p hp).1 (h p hp).2.overJSON
  rw [GossipState.overJSON, hmap, SortedMap.ofList_toList]

/-- How far an exchange has got. -/
inductive ExchangePhase where
  /-- The request is on its way, with the state of the sender. -/
  | sent (localState : GossipState)
  /-- The peer has merged it. -/
  | merged
  /-- The response is on its way, with the state of the peer. -/
  | answered (state : GossipState)

/-- One call of `exchange`. -/
structure GossipExchange where
  sender : NodeID
  target : NodeID
  phase : ExchangePhase

/-- The state that is on its way. -/
def ExchangePhase.message : ExchangePhase → Option GossipState
  | .sent state => some state
  | .merged => none
  | .answered state => some state

/-- `GetHTTPAddress`. -/
def MembershipManager.getHTTPAddress (mm : MembershipManager) (nodeID : NodeID) : Bytes :=
  ((mm.peers.get? nodeID).map PeerMetadata.httpAddr).getD []

/-- The addresses that `gossipRound` sends to, of peers in the order `shuffled`. -/
def MembershipManager.gossipTargets (mm : MembershipManager) (fanOut : ℕ) (shuffled : List NodeID) :
    List Bytes :=
  ((shuffled.take (min fanOut shuffled.length)).map mm.getHTTPAddress).filter fun addr => addr ≠ []

/-! ## The system -/

/-- The nodes, and the exchanges under way. -/
structure GossipNet where
  system : GossipSystem
  exchanges : ℕ → Option GossipExchange

inductive GossipNetEvent where
  /-- A node starts exchanges with the given ids. -/
  | round (n : NodeID) (shuffled : List NodeID) (ids : List ℕ)
  /-- The handler of the peer merges the request. -/
  | receive (x : ℕ)
  /-- The handler takes a copy of the state of the peer and sends it. -/
  | respond (x : ℕ)
  /-- The sender merges the response. -/
  | finish (x : ℕ)
  /-- A message is lost, or cannot be decoded, or the time is over. -/
  | fail (x : ℕ)
  | markPeer (n nodeID : NodeID) (status : NodeStatus)
  | setSelf (n : NodeID) (status : NodeStatus)
  | tick (n : NodeID) (now : ℤ)

/-- The exchanges that an event starts. -/
def GossipNetEvent.newExchanges : GossipNetEvent → List ℕ
  | .round _ _ ids => ids
  | _ => []

namespace GossipNet

def setExchange (s : GossipNet) (x : ℕ) (exchange : Option GossipExchange) : GossipNet :=
  { s with exchanges := Function.update s.exchanges x exchange }

/-- Take a step of the nodes. -/
def onSystem (s : GossipNet) (e : GossipEvent) : Option GossipNet :=
  (s.system.step e).map fun system => { s with system }

/-- The exchanges of a round, all with one copy of the state. -/
def started (n : NodeID) (localState : GossipState) (host : Bytes → NodeID)
    (calls : List (ℕ × Bytes)) (x : ℕ) : Option GossipExchange :=
  (calls.lookup x).map fun addr => ⟨n, host addr, .sent (GossipState.overJSON localState)⟩

/-- One step, where node `host addr` listens at the address `addr`. -/
def step (host : Bytes → NodeID) (fanOut : ℕ) (s : GossipNet) : GossipNetEvent → Option GossipNet
  | .round n shuffled ids =>
    (s.system.nodes n).membership.bind fun mm =>
      let addrs := mm.gossipTargets fanOut shuffled
      let calls := started n (s.system.nodes n).getState host (ids.zip addrs)
      if shuffled.Perm mm.getAllPeers ∧ ids.length = addrs.length ∧ ids.Nodup ∧
          ∀ x ∈ ids, s.exchanges x = none then
        some { s with exchanges := fun x => (calls x).or (s.exchanges x) }
      else none
  | .receive x =>
    match s.exchanges x with
    | some ⟨sender, target, .sent state⟩ =>
      (s.setExchange x (some ⟨sender, target, .merged⟩)).onSystem (.merge target state)
    | _ => none
  | .respond x =>
    match s.exchanges x with
    | some ⟨sender, target, .merged⟩ =>
      let state := (s.system.nodes target).getState
      some (s.setExchange x (some ⟨sender, target, .answered (GossipState.overJSON state)⟩))
    | _ => none
  | .finish x =>
    match s.exchanges x with
    | some ⟨sender, _, .answered state⟩ => (s.setExchange x none).onSystem (.merge sender state)
    | _ => none
  | .fail x => if (s.exchanges x).isSome then some (s.setExchange x none) else none
  | .markPeer n nodeID status => s.onSystem (.markPeer n nodeID status)
  | .setSelf n status => s.onSystem (.setSelf n status)
  | .tick n now => s.onSystem (.tick n now)

/-! ## What a step does -/

section Steps

variable {host : Bytes → NodeID} {fanOut : ℕ} {s t : GossipNet} {e : GossipNetEvent}

/-- The event as one of the nodes alone; a round, a response and a failure leave them as they are.
-/
def nodeEvent (s : GossipNet) : GossipNetEvent → Option GossipEvent
  | .receive x => (s.exchanges x).bind fun ex => ex.phase.message.map (.merge ex.target)
  | .finish x => (s.exchanges x).bind fun ex => ex.phase.message.map (.merge ex.sender)
  | .markPeer n nodeID status => some (.markPeer n nodeID status)
  | .setSelf n status => some (.setSelf n status)
  | .tick n now => some (.tick n now)
  | .round _ _ _ | .respond _ | .fail _ => none

/-- The exchange after a step, if the step is one of this exchange. -/
def nextExchange (s : GossipNet) (x : ℕ) : GossipNetEvent → Option (Option GossipExchange)
  | .receive y => if y = x then some ((s.exchanges x).map ({ · with phase := .merged })) else none
  | .respond y => if y = x then some ((s.exchanges x).map fun ex => { ex with
      phase := .answered (GossipState.overJSON (s.system.nodes ex.target).getState) }) else none
  | .finish y | .fail y => if y = x then some none else none
  | .round _ _ _ | .markPeer _ _ _ | .setSelf _ _ | .tick _ _ => none

theorem onSystem_eq_some {e : GossipEvent} :
    s.onSystem e = some t ↔ ∃ system, s.system.step e = some system ∧ { s with system } = t :=
  Option.map_eq_some_iff

/-- A step is a step of the nodes, or leaves them as they are. -/
theorem system_step (h : s.step host fanOut e = some t) :
    (∃ ev, s.nodeEvent e = some ev ∧ s.system.step ev = some t.system) ∨
      s.nodeEvent e = none ∧ t.system = s.system := by
  cases e with
  | round n shuffled ids =>
    obtain ⟨mm, -, h⟩ := Option.bind_eq_some_iff.1 h
    cases (Option.ite_none_right_eq_some.1 h).2
    exact Or.inr ⟨rfl, rfl⟩
  | receive x =>
    simp only [step] at h
    split at h
    · rename_i sender target state hx
      obtain ⟨system, hsys, rfl⟩ := onSystem_eq_some.1 h
      exact Or.inl ⟨_, by rw [nodeEvent, hx]; rfl, hsys⟩
    · cases h
  | respond x =>
    simp only [step] at h
    split at h
    · cases h
      exact Or.inr ⟨rfl, rfl⟩
    · cases h
  | finish x =>
    simp only [step] at h
    split at h
    · rename_i sender target state hx
      obtain ⟨system, hsys, rfl⟩ := onSystem_eq_some.1 h
      exact Or.inl ⟨_, by rw [nodeEvent, hx]; rfl, hsys⟩
    · cases h
  | fail x =>
    cases (Option.ite_none_right_eq_some.1 h).2
    exact Or.inr ⟨rfl, rfl⟩
  | markPeer n nodeID status =>
    obtain ⟨system, hsys, rfl⟩ := onSystem_eq_some.1 h
    exact Or.inl ⟨_, rfl, hsys⟩
  | setSelf n status =>
    obtain ⟨system, hsys, rfl⟩ := onSystem_eq_some.1 h
    exact Or.inl ⟨_, rfl, hsys⟩
  | tick n now =>
    obtain ⟨system, hsys, rfl⟩ := onSystem_eq_some.1 h
    exact Or.inl ⟨_, rfl, hsys⟩

theorem started_of_mem {ids : List ℕ} {addrs : List Bytes}
    (hlen : ids.length = addrs.length) {x : ℕ} (hx : x ∈ ids)
    (n : NodeID) (localState : GossipState) (host : Bytes → NodeID) :
    ∃ addr, started n localState host (ids.zip addrs) x =
      some ⟨n, host addr, .sent (GossipState.overJSON localState)⟩ := by
  cases hl : (ids.zip addrs).lookup x with
  | none =>
    have hfst : x ∈ (ids.zip addrs).map Prod.fst := by
      rwa [List.map_fst_zip (le_of_eq hlen)]
    obtain ⟨p, hp, rfl⟩ := List.mem_map.1 hfst
    have hne := List.lookup_eq_none_iff.1 hl p hp
    simp at hne
  | some addr => exact ⟨addr, by rw [started, hl]; rfl⟩

theorem started_of_notMem {n : NodeID} {localState : GossipState} {ids : List ℕ} (addrs : List Bytes)
    {x : ℕ} (hx : x ∉ ids) : started n localState host (ids.zip addrs) x = none := by
  have hl : (ids.zip addrs).lookup x = none := by
    refine List.lookup_eq_none_iff.2 fun p hp => bne_iff_ne.2 fun hxp => hx ?_
    exact hxp ▸ (List.of_mem_zip hp).1
  rw [started, hl]
  rfl

/-- An exchange after a step: a round has started it, or it has gone on, or is as before. -/
theorem exchanges_step (h : s.step host fanOut e = some t) (x : ℕ) :
    (∃ n shuffled ids addr, e = .round n shuffled ids ∧ x ∈ ids ∧ s.exchanges x = none ∧
      t.exchanges x =
        some ⟨n, host addr, .sent (GossipState.overJSON (s.system.nodes n).getState)⟩) ∨
    x ∉ e.newExchanges ∧ t.exchanges x = (s.nextExchange x e).getD (s.exchanges x) := by
  have hupdate : ∀ (y : ℕ) (ex : Option GossipExchange),
      Function.update s.exchanges y ex x = (if y = x then some ex else none).getD (s.exchanges x) := by
    intro y ex
    split_ifs with hy
    · rw [hy, Function.update_self, Option.getD_some]
    · rw [Function.update_of_ne (Ne.symm hy), Option.getD_none]
  cases e with
  | round n shuffled ids =>
    obtain ⟨mm, -, h⟩ := Option.bind_eq_some_iff.1 h
    obtain ⟨⟨-, hlen, -, hfree⟩, h⟩ := Option.ite_none_right_eq_some.1 h
    cases h
    by_cases hx : x ∈ ids
    · obtain ⟨addr, haddr⟩ := started_of_mem hlen hx n (s.system.nodes n).getState host
      exact Or.inl ⟨n, shuffled, ids, addr, rfl, hx, hfree x hx, by simp only [haddr, Option.some_or]⟩
    · refine Or.inr ⟨hx, ?_⟩
      simp only [started_of_notMem _ hx]
      rfl
  | receive y =>
    refine Or.inr ⟨List.not_mem_nil, ?_⟩
    simp only [step] at h
    split at h
    · rename_i sender target state hy
      obtain ⟨system, -, rfl⟩ := onSystem_eq_some.1 h
      refine (hupdate y _).trans ?_
      simp only [nextExchange]
      split_ifs with hyx
      · rw [← hyx, hy]
        rfl
      · rfl
    · cases h
  | respond y =>
    refine Or.inr ⟨List.not_mem_nil, ?_⟩
    simp only [step] at h
    split at h
    · rename_i sender target hy
      cases h
      refine (hupdate y _).trans ?_
      simp only [nextExchange]
      split_ifs with hyx
      · rw [← hyx, hy]
        rfl
      · rfl
    · cases h
  | finish y =>
    refine Or.inr ⟨List.not_mem_nil, ?_⟩
    simp only [step] at h
    split at h
    · obtain ⟨system, -, rfl⟩ := onSystem_eq_some.1 h
      exact hupdate y none
    · cases h
  | fail y =>
    refine Or.inr ⟨List.not_mem_nil, ?_⟩
    cases (Option.ite_none_right_eq_some.1 h).2
    exact hupdate y none
  | markPeer n nodeID status =>
    obtain ⟨system, -, rfl⟩ := onSystem_eq_some.1 h
    exact Or.inr ⟨List.not_mem_nil, rfl⟩
  | setSelf n status =>
    obtain ⟨system, -, rfl⟩ := onSystem_eq_some.1 h
    exact Or.inr ⟨List.not_mem_nil, rfl⟩
  | tick n now =>
    obtain ⟨system, -, rfl⟩ := onSystem_eq_some.1 h
    exact Or.inr ⟨List.not_mem_nil, rfl⟩

end Steps

end GossipNet

/-! ## Ids and addresses stay valid -/

/-- The ids and addresses of a node are valid UTF-8. -/
structure Gossip.Text (g : Gossip) : Prop where
  nodeID : toValidUTF8 g.nodeID = g.nodeID
  selfAddr : toValidUTF8 g.selfAddr = g.selfAddr
  state : GossipState.Text g.state

theorem GossipState.Text.insert {state : GossipState} (h : GossipState.Text state) {id : NodeID}
    {entry : NodeEntry} (hid : toValidUTF8 id = id) (hentry : entry.Text) :
    GossipState.Text (state.insert id entry) := by
  intro p hp
  rcases SortedMap.mem_toList_insert hp with rfl | hp
  · exact ⟨hid, hentry⟩
  · exact h p hp

theorem GossipState.Text.getD {state : GossipState} (h : GossipState.Text state) (id : NodeID)
    (default : NodeEntry) (hdefault : default.Text) : ((state.get? id).getD default).Text := by
  cases hget : state.get? id with
  | none => exact hdefault
  | some entry => exact (h (id, entry) (SortedMap.mem_toList_iff.2 hget)).2

namespace Gossip

variable {g : Gossip}

theorem Text.mergeEntries (h : g.Text) {entries : List (NodeID × NodeEntry)}
    (hentries : ∀ p ∈ entries, toValidUTF8 p.1 = p.1 ∧ p.2.Text) : (g.mergeEntries entries).Text := by
  induction entries generalizing g with
  | nil => exact h
  | cons p entries ih =>
    obtain ⟨hp, hentries⟩ := List.forall_mem_cons.1 hentries
    have hover : (g.overwrite p.1 p.2).Text :=
      ⟨h.nodeID, h.selfAddr, h.state.insert hp.1 hp.2⟩
    refine ih ?_ hentries
    unfold mergeEntry
    split_ifs
    · exact h
    · split
      · split_ifs
        · exact hover
        · exact h
      · exact hover

theorem Text.markPeer (h : g.Text) (now : ℤ) {nodeID : NodeID} (hid : toValidUTF8 nodeID = nodeID)
    (status : NodeStatus) : (g.markPeer now nodeID status).Text := by
  have hentry := h.state.getD nodeID ⟨nodeID, [], .unknown, 0, 0⟩ ⟨hid, rfl⟩
  exact ⟨h.nodeID, h.selfAddr, h.state.insert hid ⟨hentry.1, hentry.2⟩⟩

theorem Text.setSelf (h : g.Text) (now : ℤ) (status : NodeStatus) : (g.setSelf now status).Text := by
  have hentry := h.state.getD g.nodeID ⟨g.nodeID, g.selfAddr, .unknown, 0, 0⟩
    ⟨h.nodeID, h.selfAddr⟩
  exact ⟨h.nodeID, h.selfAddr, h.state.insert h.nodeID ⟨hentry.1, hentry.2⟩⟩

end Gossip

/-- The ids that come with an event are valid UTF-8. -/
def GossipEvent.Text : GossipEvent → Prop
  | .merge _ incoming => GossipState.Text incoming
  | .markPeer _ nodeID _ => toValidUTF8 nodeID = nodeID
  | .setSelf _ _ | .tick _ _ => True

theorem GossipSystem.text_step {s t : GossipSystem} {e : GossipEvent} {n : NodeID}
    (hs : (s.nodes n).Text) (he : e.Text) (h : s.step e = some t) : (t.nodes n).Text := by
  have hset : ∀ m g, (n = m → g.Text) → ((s.setNode m g).nodes n).Text := by
    intro m g hg
    by_cases hn : n = m
    · simp only [setNode, hn, Function.update_self, hg hn]
    · simp only [setNode, Function.update_of_ne hn, hs]
  cases e with
  | merge m incoming =>
    obtain rfl := Option.some.inj h
    exact hset m _ fun hn => (hn ▸ hs).mergeEntries he
  | markPeer m nodeID status =>
    obtain rfl := Option.some.inj h
    exact hset m _ fun hn => (hn ▸ hs).markPeer _ he status
  | setSelf m status =>
    obtain rfl := Option.some.inj h
    exact hset m _ fun hn => (hn ▸ hs).setSelf _ status
  | tick m now =>
    cases (Option.ite_none_right_eq_some.1 h).2
    exact hs

namespace GossipNet

variable {host : Bytes → NodeID} {fanOut : ℕ} {s t : GossipNet} {e : GossipNetEvent}

/-- The ids of the nodes that send messages, and those of the nodes that are marked, are valid
UTF-8. -/
def TextIDs (s : GossipNet) : GossipNetEvent → Prop
  | .round n _ _ => toValidUTF8 n = n
  | .respond x => ∀ ex ∈ s.exchanges x, toValidUTF8 ex.target = ex.target
  | .markPeer _ nodeID _ => toValidUTF8 nodeID = nodeID
  | _ => True

/-- No clock is behind the entry that `MarkPeer` replaces. -/
def MarksForward (s : GossipNet) : GossipNetEvent → Prop
  | .markPeer n nodeID status => s.system.marksForward (.markPeer n nodeID status) = true
  | _ => True

/-- Both. -/
def Sane (s : GossipNet) (e : GossipNetEvent) : Prop := s.TextIDs e ∧ s.MarksForward e

instance (s : GossipNet) : (e : GossipNetEvent) → Decidable (s.TextIDs e)
  | .round _ _ _ => inferInstanceAs (Decidable (_ = _))
  | .respond _ => inferInstanceAs (Decidable (∀ _ ∈ _, _))
  | .markPeer _ _ _ => inferInstanceAs (Decidable (_ = _))
  | .receive _ | .finish _ | .fail _ | .setSelf _ _ | .tick _ _ => isTrue trivial

instance (s : GossipNet) : (e : GossipNetEvent) → Decidable (s.MarksForward e)
  | .markPeer _ _ _ => inferInstanceAs (Decidable (_ = _))
  | .round _ _ _ | .receive _ | .respond _ | .finish _ | .fail _ | .setSelf _ _ | .tick _ _ =>
    isTrue trivial

instance (s : GossipNet) (e : GossipNetEvent) : Decidable (s.Sane e) :=
  inferInstanceAs (Decidable (_ ∧ _))

/-- The state that an exchange has under way. -/
def message (s : GossipNet) (x : ℕ) : Option GossipState :=
  (s.exchanges x).bind fun ex => ex.phase.message

/-- The invariant of the runs. -/
structure Wired (s : GossipNet) : Prop where
  own : s.system.OwnEntryBehind
  nodes : ∀ n, toValidUTF8 n = n → (s.system.nodes n).Text
  messages : ∀ x state, s.message x = some state → GossipState.Text state

/-- A message after a step was under way before, or is a copy of the state of a node. -/
theorem message_step (hs : s.Wired) (hok : s.TextIDs e) (h : s.step host fanOut e = some t) {x : ℕ}
    {state : GossipState} (hx : t.message x = some state) :
    s.message x = some state ∨
      ∃ n, toValidUTF8 n = n ∧ state = (s.system.nodes n).getState := by
  rcases exchanges_step h x with ⟨n, shuffled, ids, addr, rfl, -, -, hex⟩ | ⟨-, hex⟩
  · rw [message, hex] at hx
    cases hx
    exact Or.inr ⟨n, hok, (hs.nodes n hok).state.overJSON⟩
  -- an exchange that takes a step ends, or has no message, or has the state of the peer
  rw [message, hex] at hx
  have hkept : ((none : Option (Option GossipExchange)).getD (s.exchanges x)).bind
      (fun ex => ex.phase.message) = some state → s.message x = some state := fun hx => hx
  cases e with
  | receive y =>
    simp only [nextExchange] at hx
    split_ifs at hx
    · rw [Option.getD_some, Option.bind_map] at hx
      obtain ⟨ex, -, hmsg⟩ := Option.bind_eq_some_iff.1 hx
      cases hmsg
    · exact Or.inl (hkept hx)
  | respond y =>
    simp only [nextExchange] at hx
    split_ifs at hx with hyx
    · rw [Option.getD_some, Option.bind_map] at hx
      obtain ⟨ex, hex, hmsg⟩ := Option.bind_eq_some_iff.1 hx
      cases hmsg
      have htarget := hok ex (hyx ▸ hex)
      exact Or.inr ⟨ex.target, htarget, (hs.nodes ex.target htarget).state.overJSON⟩
    · exact Or.inl (hkept hx)
  | finish y =>
    simp only [nextExchange] at hx
    split_ifs at hx
    · cases hx
    · exact Or.inl (hkept hx)
  | fail y =>
    simp only [nextExchange] at hx
    split_ifs at hx
    · cases hx
    · exact Or.inl (hkept hx)
  | round _ _ _ => exact Or.inl (hkept hx)
  | markPeer _ _ _ => exact Or.inl (hkept hx)
  | setSelf _ _ => exact Or.inl (hkept hx)
  | tick _ _ => exact Or.inl (hkept hx)

/-- A merge of the nodes comes from a message. -/
theorem message_of_nodeEvent {n : NodeID} {incoming : GossipState}
    (h : s.nodeEvent e = some (.merge n incoming)) : ∃ x, s.message x = some incoming := by
  cases e with
  | receive x =>
    obtain ⟨ex, hex, hmsg⟩ := Option.bind_eq_some_iff.1 h
    obtain ⟨state, hstate, heq⟩ := Option.map_eq_some_iff.1 hmsg
    cases heq
    exact ⟨x, by rw [message, hex]; exact hstate⟩
  | finish x =>
    obtain ⟨ex, hex, hmsg⟩ := Option.bind_eq_some_iff.1 h
    obtain ⟨state, hstate, heq⟩ := Option.map_eq_some_iff.1 hmsg
    cases heq
    exact ⟨x, by rw [message, hex]; exact hstate⟩
  | round _ _ _ => cases h
  | respond _ => cases h
  | fail _ => cases h
  | markPeer _ _ _ => cases h
  | setSelf _ _ => cases h
  | tick _ _ => cases h

/-- A mark of the nodes comes from one of the system. -/
theorem event_of_markPeer {n nodeID : NodeID} {status : NodeStatus}
    (h : s.nodeEvent e = some (.markPeer n nodeID status)) : e = .markPeer n nodeID status := by
  cases e with
  | markPeer _ _ _ =>
    cases h
    rfl
  | receive x =>
    obtain ⟨ex, -, hmsg⟩ := Option.bind_eq_some_iff.1 h
    obtain ⟨state, -, heq⟩ := Option.map_eq_some_iff.1 hmsg
    cases heq
  | finish x =>
    obtain ⟨ex, -, hmsg⟩ := Option.bind_eq_some_iff.1 h
    obtain ⟨state, -, heq⟩ := Option.map_eq_some_iff.1 hmsg
    cases heq
  | round _ _ _ => cases h
  | respond _ => cases h
  | fail _ => cases h
  | setSelf _ _ => cases h
  | tick _ _ => cases h

theorem Wired.event (hs : s.Wired) (hok : s.TextIDs e) {ev : GossipEvent}
    (h : s.nodeEvent e = some ev) : ev.Text := by
  cases ev with
  | merge n incoming =>
    obtain ⟨x, hx⟩ := message_of_nodeEvent h
    exact hs.messages x incoming hx
  | setSelf n status => trivial
  | tick n now => trivial
  | markPeer n nodeID status =>
    obtain rfl := event_of_markPeer h
    exact hok

theorem MarksForward.event (hok : s.MarksForward e) {ev : GossipEvent}
    (h : s.nodeEvent e = some ev) : s.system.marksForward ev = true := by
  cases ev with
  | merge n incoming => rfl
  | setSelf n status => rfl
  | tick n now => rfl
  | markPeer n nodeID status =>
    obtain rfl := event_of_markPeer h
    exact hok

theorem Wired.step (hs : s.Wired) (hok : s.TextIDs e) (h : s.step host fanOut e = some t) : t.Wired := by
  have hmessages : ∀ x state, t.message x = some state → GossipState.Text state := by
    intro x state hx
    rcases message_step hs hok h hx with hx | ⟨n, hn, rfl⟩
    · exact hs.messages x state hx
    · exact (hs.nodes n hn).state
  rcases system_step h with ⟨ev, hev, hsys⟩ | ⟨-, hsys⟩
  · exact ⟨GossipSystem.ownEntryBehind_step hs.own hsys,
      fun n hn => GossipSystem.text_step (hs.nodes n hn) (hs.event hok hev) hsys, hmessages⟩
  · exact ⟨hsys ▸ hs.own, hsys ▸ hs.nodes, hmessages⟩

/-! ## News travels along exchanges -/

/-- Where an entry can be: on a node, or in a message of an exchange. -/
inductive Place where
  | node (n : NodeID)
  | message (x : ℕ)

/-- The entry for an id at a place. -/
def entryAt (id : NodeID) (s : GossipNet) : Place → Option NodeEntry
  | .node n => s.system.entry n id
  | .message x => (s.message x).bind fun state => state.get? id

/-- The node of whose state an event makes the message of an exchange. -/
def messageFrom (s : GossipNet) (x : ℕ) : GossipNetEvent → Option NodeID
  | .round n _ ids => if x ∈ ids then some n else none
  | .respond y => if y = x then (s.exchanges x).map GossipExchange.target else none
  | _ => none

/-- The node that merges the message of an exchange. -/
def messageTo (s : GossipNet) (x : ℕ) : GossipNetEvent → Option NodeID
  | .receive y => if y = x then (s.exchanges x).map GossipExchange.target else none
  | .finish y => if y = x then (s.exchanges x).map GossipExchange.sender else none
  | _ => none

/-- What an event carries on.  A node keeps what it has, and a message that is not concerned stays
under way.  A node passes on what it has when it sends a message, and takes over what it receives
unless it is the node that the entry is about. -/
def Carries (id : NodeID) (s : GossipNet) (e : GossipNetEvent) : Place → Place → Prop
  | .node n, .node m => n = m
  | .message x, .message y => x = y ∧ s.nextExchange x e = none
  | .node n, .message x => s.messageFrom x e = some n
  | .message x, .node n => s.messageTo x e = some n ∧ n ≠ id

instance (id : NodeID) (s : GossipNet) (e : GossipNetEvent) :
    (p q : Place) → Decidable (Carries id s e p q)
  | .node _, .node _ => inferInstanceAs (Decidable (_ = _))
  | .message x, .message y => inferInstanceAs (Decidable (x = y ∧ s.nextExchange x e = none))
  | .node _, .message _ => inferInstanceAs (Decidable (_ = _))
  | .message _, .node _ => inferInstanceAs (Decidable (_ ∧ _))

/-- A merge makes the entry of another node as new as the incoming one. -/
theorem asNew_merge_incoming {g : Gossip} {id : NodeID} (hid : id ≠ g.nodeID) (incoming : GossipState) :
    GossipSystem.AsNew (incoming.get? id) ((g.merge incoming).state.get? id) := by
  have hview := congrArg Prod.fst (g.view_merge incoming id)
  change (g.merge incoming).state.get? id = _ at hview
  rw [hview, if_neg hid]
  intro e he
  rw [he, Option.elim_some, Gossip.acceptView]
  split_ifs with hnew
  · exact ⟨e, rfl, le_rfl⟩
  · obtain ⟨e', he', hle⟩ : ∃ e', g.state.get? id = some e' ∧ e.updatedAt ≤ e'.updatedAt := by
      by_contra hcon
      refine hnew fun e' he' => not_le.1 fun hle => hcon ⟨e', he', hle⟩
    exact ⟨e', he', hle⟩

/-- A node that merges a message has an entry as new as that of the message. -/
theorem Wired.merges (hs : s.Wired) (h : s.step host fanOut e = some t) {id n : NodeID} {x : ℕ}
    (hne : n ≠ id) (hev : s.nodeEvent e = (s.message x).map (.merge n)) :
    GossipSystem.AsNew (s.entryAt id (.message x)) (t.entryAt id (.node n)) := by
  intro entry hentry
  obtain ⟨state, hstate, hget⟩ := Option.bind_eq_some_iff.1 hentry
  rw [hstate, Option.map_some] at hev
  rcases system_step h with ⟨ev, hev', hsys⟩ | ⟨hnone, -⟩
  · obtain rfl := Option.some.inj (hev.symm.trans hev')
    have hsystem : s.system.setNode n ((s.system.nodes n).merge state) = t.system :=
      Option.some.inj hsys
    have hid : id ≠ (s.system.nodes n).nodeID := fun hid => hne (hid.trans (hs.own n).1).symm
    simp only [entryAt, ← hsystem, GossipSystem.entry_setNode, if_true]
    exact asNew_merge_incoming hid state entry hget
  · rw [hev] at hnone
    cases hnone

/-- A message is a copy of the state of the node that sends it. -/
theorem Wired.sends (hs : s.Wired) (hok : s.TextIDs e) (h : s.step host fanOut e = some t) {n : NodeID}
    {x : ℕ} (hfrom : s.messageFrom x e = some n) : t.message x = some (s.system.nodes n).state := by
  cases e with
  | round n' shuffled ids =>
    obtain ⟨hx, hn⟩ := Option.ite_none_right_eq_some.1 hfrom
    cases hn
    rcases exchanges_step h x with ⟨n', shuffled', ids', addr, heq, -, -, hex⟩ | ⟨hnot, -⟩
    · cases heq
      rw [message, hex]
      exact congrArg some (hs.nodes n hok).state.overJSON
    · exact absurd hx hnot
  | respond y =>
    obtain ⟨rfl, hn⟩ := Option.ite_none_right_eq_some.1 hfrom
    obtain ⟨ex, hx, rfl⟩ := Option.map_eq_some_iff.1 hn
    rcases exchanges_step h y with ⟨n', shuffled', ids', addr, heq, -⟩ | ⟨-, hex⟩
    · cases heq
    · rw [message, hex, nextExchange, if_pos rfl, hx]
      exact congrArg some (hs.nodes ex.target (hok ex hx)).state.overJSON
  | _ => cases hfrom

/-- A node that a message goes to merges it. -/
theorem nodeEvent_of_messageTo {n : NodeID} {x : ℕ} (h : s.messageTo x e = some n) :
    s.nodeEvent e = (s.message x).map (.merge n) := by
  cases e with
  | receive y =>
    obtain ⟨rfl, hn⟩ := Option.ite_none_right_eq_some.1 h
    obtain ⟨ex, hx, rfl⟩ := Option.map_eq_some_iff.1 hn
    rw [nodeEvent, message, hx]
    rfl
  | finish y =>
    obtain ⟨rfl, hn⟩ := Option.ite_none_right_eq_some.1 h
    obtain ⟨ex, hx, rfl⟩ := Option.map_eq_some_iff.1 hn
    rw [nodeEvent, message, hx]
    rfl
  | _ => cases h

/-- A place to which an entry is carried has one that is as new. -/
theorem Wired.carries (hs : s.Wired) (hok : s.Sane e) (h : s.step host fanOut e = some t)
    {id : NodeID} {p q : Place} (hpq : Carries id s e p q) :
    GossipSystem.AsNew (s.entryAt id p) (t.entryAt id q) := by
  cases p with
  | node n =>
    cases q with
    | node m =>
      obtain rfl : n = m := hpq
      rcases system_step h with ⟨ev, hev, hsys⟩ | ⟨-, hsys⟩
      · exact GossipSystem.asNew_step hs.own (hok.2.event hev) hsys n id
      · simp only [entryAt, hsys]
        exact GossipSystem.AsNew.refl _
    | message x =>
      simp only [entryAt, hs.sends hok.1 h hpq]
      exact GossipSystem.AsNew.refl _
  | message x =>
    cases q with
    | node n => exact hs.merges h hpq.2 (nodeEvent_of_messageTo hpq.1)
    | message y =>
      obtain ⟨rfl, hnext⟩ := hpq
      rcases exchanges_step h x with ⟨n, shuffled, ids, addr, -, -, hfree, -⟩ | ⟨-, hex⟩
      · simp only [entryAt, message, hfree]
        exact fun e he => by cases he
      · rw [hnext, Option.getD_none] at hex
        simp only [entryAt, message, hex]
        exact GossipSystem.AsNew.refl _

/-- What has been carried on along a run has not become older. -/
theorem asNew_of_flow {id : NodeID} {p q : Place} (hs : s.Wired)
    (h : Flow (step host fanOut) Sane (Carries id) s p t q) :
    GossipSystem.AsNew (s.entryAt id p) (t.entryAt id q) :=
  h.le GossipSystem.AsNew (fun s p => s.entryAt id p) Wired GossipSystem.AsNew.refl
    GossipSystem.AsNew.trans (fun _ _ _ hs hok hstep => hs.step hok.1 hstep)
    (fun _ _ _ _ _ hs hok hstep hpq => hs.carries hok hstep hpq) hs

/-! ## Without further changes -/

/-- The event changes what a node says of itself or of another one. -/
def changes : GossipNetEvent → Bool
  | .markPeer _ _ _ | .setSelf _ _ => true
  | _ => false

/-- The event is part of an exchange, or time passes. -/
def Exchanging (s : GossipNet) (e : GossipNetEvent) : Prop := s.TextIDs e ∧ changes e = false

instance (s : GossipNet) (e : GossipNetEvent) : Decidable (s.Exchanging e) :=
  inferInstanceAs (Decidable (_ ∧ _))

theorem Exchanging.sane (h : s.Exchanging e) : s.Sane e := by
  refine ⟨h.1, ?_⟩
  cases e with
  | markPeer _ _ _ => cases h.2
  | _ => trivial

/-- The nodes only merge messages. -/
theorem Exchanging.event (h : s.Exchanging e) {ev : GossipEvent} (hev : s.nodeEvent e = some ev) :
    (∃ n incoming, ev = .merge n incoming) ∨ ∃ n now, ev = .tick n now := by
  cases e with
  | receive x =>
    obtain ⟨ex, -, hmsg⟩ := Option.bind_eq_some_iff.1 hev
    obtain ⟨state, -, rfl⟩ := Option.map_eq_some_iff.1 hmsg
    exact Or.inl ⟨_, _, rfl⟩
  | finish x =>
    obtain ⟨ex, -, hmsg⟩ := Option.bind_eq_some_iff.1 hev
    obtain ⟨state, -, rfl⟩ := Option.map_eq_some_iff.1 hmsg
    exact Or.inl ⟨_, _, rfl⟩
  | tick n now => exact Or.inr ⟨n, now, (Option.some.inj hev).symm⟩
  | markPeer _ _ _ => cases h.2
  | setSelf _ _ => cases h.2
  | round _ _ _ => cases hev
  | respond _ => cases hev
  | fail _ => cases hev

/-- Every entry for the id, on a node or under way, is one that a node had in the first state. -/
def FromNodes (s₀ : GossipNet) (id : NodeID) (s : GossipNet) : Prop :=
  ∀ p entry, s.entryAt id p = some entry → ∃ m, s₀.system.entry m id = some entry

theorem get?_merge_cases {g : Gossip} {incoming : GossipState} {id : NodeID} {entry : NodeEntry}
    (h : (g.merge incoming).state.get? id = some entry) :
    g.state.get? id = some entry ∨ incoming.get? id = some entry := by
  have hview := congrArg Prod.fst (g.view_merge incoming id)
  change (g.merge incoming).state.get? id = _ at hview
  rw [hview] at h
  split_ifs at h
  · exact Or.inl h
  · cases hin : incoming.get? id with
    | none =>
      rw [hin] at h
      exact Or.inl h
    | some e =>
      rw [hin, Option.elim_some, Gossip.acceptView] at h
      split_ifs at h
      · exact Or.inr h
      · exact Or.inl h

theorem FromNodes.step {s₀ : GossipNet} {id : NodeID} (hfrom : FromNodes s₀ id s) (hs : s.Wired)
    (hok : s.Exchanging e) (h : s.step host fanOut e = some t) : FromNodes s₀ id t := by
  rintro (n | x) entry hentry
  · have hsame : t.system.nodes = s.system.nodes → ∃ m, s₀.system.entry m id = some entry := by
      intro hnodes
      refine hfrom (.node n) entry ?_
      simp only [entryAt, GossipSystem.entry, hnodes] at hentry
      exact hentry
    rcases system_step h with ⟨ev, hev, hsys⟩ | ⟨-, hsys⟩
    · rcases hok.event hev with ⟨m, incoming, rfl⟩ | ⟨m, now, rfl⟩
      · obtain ⟨x, hx⟩ := message_of_nodeEvent hev
        have hsystem : s.system.setNode m ((s.system.nodes m).merge incoming) = t.system :=
          Option.some.inj hsys
        simp only [entryAt, ← hsystem, GossipSystem.entry_setNode] at hentry
        split_ifs at hentry
        · rcases get?_merge_cases hentry with hentry | hentry
          · exact hfrom (.node m) entry hentry
          · exact hfrom (.message x) entry (by rw [entryAt, hx]; exact hentry)
        · exact hfrom (.node n) entry hentry
      · have hsystem := Option.some.inj (Option.ite_none_right_eq_some.1 hsys).2
        exact hsame (by rw [← hsystem])
    · exact hsame (by rw [hsys])
  · obtain ⟨state, hstate, hget⟩ := Option.bind_eq_some_iff.1 hentry
    rcases message_step hs hok.1 h hstate with hx | ⟨n, -, rfl⟩
    · exact hfrom (.message x) entry (by rw [entryAt, hx]; exact hget)
    · exact hfrom (.node n) entry hget

/-- All nodes have just been created, and there are no messages. -/
def init (clock : NodeID → ℤ) (selfAddr : NodeID → Bytes)
    (membership : NodeID → Option MembershipManager) : GossipNet where
  system := .init clock selfAddr membership
  exchanges := fun _ => none

theorem wired_init (clock : NodeID → ℤ) {selfAddr : NodeID → Bytes}
    (haddr : ∀ n, toValidUTF8 (selfAddr n) = selfAddr n)
    (membership : NodeID → Option MembershipManager) : (init clock selfAddr membership).Wired where
  own := GossipSystem.ownEntryBehind_init clock selfAddr membership
  nodes := fun n hn => ⟨hn, haddr n, GossipState.Text.insert (fun _ hp => by cases hp) hn
    ⟨hn, haddr n⟩⟩
  messages := fun _ _ h => by cases h

theorem wired_of_runs {clock : NodeID → ℤ} {selfAddr : NodeID → Bytes}
    {membership : NodeID → Option MembershipManager}
    (haddr : ∀ n, toValidUTF8 (selfAddr n) = selfAddr n)
    (hrun : Runs (step host fanOut) TextIDs (init clock selfAddr membership) s) : s.Wired :=
  hrun.invariant Wired (wired_init clock haddr membership) fun _ _ _ hs hok hstep => hs.step hok hstep

/-- Three nodes that listen on port 8080. -/
def threeNodes : GossipNet :=
  init (fun _ => 100) (fun _ => []) fun n => some (.new (sampleConfig n))

def portHost (addr : Bytes) : NodeID := addr.take 2

/-- `n1` is about to leave. -/
def leavingNet : GossipNet :=
  stateAfter (step portHost 3) threeNodes [.tick [110, 49] 105, .setSelf [110, 49] .leaving]

theorem leavingNet_runs : Runs (step portHost 3) Sane threeNodes leavingNet :=
  Runs.stateAfter (by decide)

/-- `n1` tells `n2`.  Then `n3` asks both: `n1` does not answer, and `n2` answers with what it has
heard. -/
def newsOfLeaving : List (GossipNetEvent × Place) :=
  [(.round [110, 49] [[110, 50], [110, 51]] [0, 1], .message 0), (.receive 0, .node [110, 50]),
    (.round [110, 51] [[110, 50], [110, 49]] [2, 3], .node [110, 50]), (.fail 3, .node [110, 50]),
    (.receive 2, .node [110, 50]), (.respond 2, .message 2), (.tick [110, 51] 103, .message 2),
    (.finish 2, .node [110, 51])]

def informedNet : GossipNet :=
  (stateAfter (carry (step portHost 3)) (leavingNet, .node [110, 49]) newsOfLeaving).1

theorem news_flows : Flow (step portHost 3) Exchanging (Carries [110, 49]) leavingNet
    (.node [110, 49]) informedNet (.node [110, 51]) := by
  have hruns : Runs (carry (step portHost 3)) (CarriedOk Exchanging (Carries [110, 49]))
      (leavingNet, .node [110, 49])
      (stateAfter (carry (step portHost 3)) (leavingNet, .node [110, 49]) newsOfLeaving) :=
    Runs.stateAfter (by decide)
  exact Flow.of_runs hruns

/-- If from some moment on, with no messages under way, the nodes only exchange what they have, then
a node to which such a chain leads from one that has the newest entry for an id ends with exactly
this entry.  The node that the entry is about keeps its own, so the chain must not go through it. -/
theorem gossip_settles (host : Bytes → NodeID) (fanOut : ℕ) (clock : NodeID → ℤ)
    (selfAddr : NodeID → Bytes) (membership : NodeID → Option MembershipManager)
    (haddr : ∀ n, toValidUTF8 (selfAddr n) = selfAddr n) (s t : GossipNet)
    (hrun : Runs (step host fanOut) TextIDs (init clock selfAddr membership) s)
    (hquiet : ∀ x, s.exchanges x = none) (id n m : NodeID) (e : NodeEntry)
    (he : s.system.entry n id = some e)
    (hnewest : ∀ k e', s.system.entry k id = some e' → e' = e ∨ e'.updatedAt < e.updatedAt)
    (hflow : Flow (step host fanOut) Exchanging (Carries id) s (.node n) t (.node m)) :
    t.system.entry m id = some e := by
  have hs := wired_of_runs haddr hrun
  obtain ⟨e', he', hle⟩ := asNew_of_flow hs (hflow.mono fun _ _ h => h.sane) e he
  have hfrom : FromNodes s id s := by
    rintro (k | x) entry hentry
    · exact ⟨k, hentry⟩
    · rw [entryAt, message, hquiet x] at hentry
      cases hentry
  obtain ⟨-, hend⟩ := hflow.runs.invariant (fun t => t.Wired ∧ FromNodes s id t) ⟨hs, hfrom⟩
    fun _ _ _ ⟨hs, hfrom⟩ hok hstep => ⟨hs.step hok.1 hstep, hfrom.step hs hok hstep⟩
  obtain ⟨k, hk⟩ := hend (.node m) e' he'
  rcases hnewest k e' hk with rfl | hlt
  · exact he'
  · exact absurd hle (not_le.2 hlt)

/-- Nobody else has an entry for `n1`. -/
theorem leavingNet_entry {k : NodeID} {e : NodeEntry}
    (h : leavingNet.system.entry k [110, 49] = some e) : e = ⟨[110, 49], [], .leaving, 2, 105⟩ := by
  by_cases hk : k = [110, 49]
  · subst hk
    have hown : leavingNet.system.entry [110, 49] [110, 49] =
        some ⟨[110, 49], [], .leaving, 2, 105⟩ := by decide
    exact Option.some.inj (h.symm.trans hown)
  · have hnodes : leavingNet.system.nodes = Function.update threeNodes.system.nodes [110, 49]
        (Gossip.setSelf 105 (threeNodes.system.nodes [110, 49]) .leaving) := rfl
    rw [GossipSystem.entry, hnodes, Function.update_of_ne hk] at h
    have hnone : (threeNodes.system.nodes k).state.get? [110, 49] = none :=
      SortedMap.get?_insert_of_ne _ hk _
    rw [hnone] at h
    cases h

/-- `n3` ends with the entry that `n1` has written for itself. -/
theorem gossip_settles_on_leaving : informedNet.system.entry [110, 51] [110, 49] =
    some ⟨[110, 49], [], .leaving, 2, 105⟩ :=
  gossip_settles portHost 3 (fun _ => 100) (fun _ => []) _ (fun _ => rfl) leavingNet informedNet
    (leavingNet_runs.mono fun _ _ h => h.1) (fun _ => rfl) [110, 49] [110, 49] [110, 51] _ (by decide)
    (fun _ _ h => Or.inl (leavingNet_entry h)) news_flows

end GossipNet

end GoQuorum
