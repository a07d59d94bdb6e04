import GoQuorum.Config

/-!
# Cluster membership

`internal/cluster/membership.go`.  A node keeps a table of its peers with their statuses.  The table
starts with the configured members and changes with `AddPeer` and `RemovePeer`; the statuses follow
the heartbeats (`RecordHeartbeatSuccess`, `RecordHeartbeatFailure`) and what gossip reports
(`UpdatePeerStatus`).

A `MembershipCall` is one call that changes the manager.  What a call does to the entry of a peer
depends only on that entry (`get?_apply`).
-/

namespace GoQuorum

open Lib

/-- `NodeStatus`.  It is an integer in the source, and a peer may send any. -/
inductive NodeStatus where
  | unknown
  | joining
  | active
  | suspect
  | failed
  | leaving
  | invalid (code : ℤ)
  deriving DecidableEq, Repr

/-- `PeerMetadata`; the id is the key of the table.  Times are in nanoseconds, `0` for none. -/
structure PeerMetadata where
  addr : Bytes
  httpAddr : Bytes
  status : NodeStatus
  lastSeen : ℤ := 0
  missedCount : ℕ := 0
  latencyP99 : ℤ := 0
  deriving DecidableEq

/-- The parts of `LocalMetadata` that the manager reads. -/
structure LocalMetadata where
  nodeID : NodeID
  status : NodeStatus
  deriving DecidableEq

/-- `MembershipManager`. -/
structure MembershipManager where
  config : ClusterConfig
  localMeta : LocalMetadata
  peers : SortedMap NodeID PeerMetadata
  deriving DecidableEq

namespace PeerMetadata

/-- What `RecordHeartbeatSuccess` does to the entry of a peer. -/
def recordSuccess (now latency : ℤ) (peer : PeerMetadata) : PeerMetadata :=
  let peer := { peer with lastSeen := now, missedCount := 0, latencyP99 := latency }
  if peer.status = .failed ∨ peer.status = .unknown then { peer with status := .active } else peer

/-- What `RecordHeartbeatFailure` does to the entry of a peer. -/
def recordFailure (failureThreshold : ℤ) (peer : PeerMetadata) : PeerMetadata :=
  let peer := { peer with missedCount := peer.missedCount + 1 }
  if peer.missedCount ≥ failureThreshold then
    if peer.status ≠ .failed then { peer with status := .failed } else peer
  else if peer.missedCount > 0 then
    if peer.status = .active then { peer with status := .suspect } else peer
  else peer

end PeerMetadata

namespace MembershipManager

/-- The table that `NewMembershipManager` makes of the configured peers. -/
def initialPeers (cfg : ClusterConfig) : SortedMap NodeID PeerMetadata :=
  cfg.getPeers.foldl (fun peers m => peers.insert m.id ⟨m.addr, m.httpAddr, .unknown, 0, 0, 0⟩)
    SortedMap.empty

/-- `NewMembershipManager`. -/
def new (cfg : ClusterConfig) : MembershipManager where
  config := cfg
  localMeta := ⟨cfg.nodeID, .joining⟩
  peers := initialPeers cfg

/-- Change the entry of a peer, if there is one. -/
def modifyPeer (f : PeerMetadata → PeerMetadata) (mm : MembershipManager) (nodeID : NodeID) :
    MembershipManager :=
  match mm.peers.get? nodeID with
  | none => mm
  | some peer => { mm with peers := mm.peers.insert nodeID (f peer) }

/-- `GetPeerStatus`: a peer that is not in the table is unknown. -/
def getPeerStatus (mm : MembershipManager) (nodeID : NodeID) : NodeStatus :=
  match mm.peers.get? nodeID with
  | some peer => peer.status
  | none => .unknown

/-- `SetLocalStatus`. -/
def setLocalStatus (mm : MembershipManager) (status : NodeStatus) : MembershipManager :=
  { mm with localMeta := { mm.localMeta with status } }

/-- `UpdatePeerStatus`. -/
def updatePeerStatus (mm : MembershipManager) (nodeID : NodeID) (status : NodeStatus) :
    MembershipManager :=
  mm.modifyPeer (fun peer => { peer with status }) nodeID

/-- `RecordHeartbeatSuccess`. -/
def recordHeartbeatSuccess (now latency : ℤ) (mm : MembershipManager) (nodeID : NodeID) :
    MembershipManager :=
  mm.modifyPeer (PeerMetadata.recordSuccess now latency) nodeID

/-- `RecordHeartbeatFailure`. -/
def recordHeartbeatFailure (mm : MembershipManager) (nodeID : NodeID) : MembershipManager :=
  mm.modifyPeer (PeerMetadata.recordFailure mm.config.failureThreshold) nodeID

/-- `AddPeer`: a peer that is already known stays as it is. -/
def addPeer (mm : MembershipManager) (nodeID : NodeID) (grpcAddr httpAddr : Bytes) :
    MembershipManager :=
  match mm.peers.get? nodeID with
  | some _ => mm
  | none => { mm with
      peers := mm.peers.insert nodeID ⟨grpcAddr, httpAddr, .joining, 0, 0, 0⟩ }

/-- `RemovePeer`. -/
def removePeer (mm : MembershipManager) (nodeID : NodeID) : MembershipManager :=
  { mm with peers := mm.peers.erase nodeID }

/-- `GetAllPeers`. -/
def getAllPeers (mm : MembershipManager) : List NodeID := mm.peers.keys

/-- `GetActivePeers`. -/
def getActivePeers (mm : MembershipManager) : List NodeID :=
  (mm.peers.filter fun _ peer => peer.status = .active).keys

/-- `ActivePeerCount`. -/
def activePeerCount (mm : MembershipManager) : ℕ :=
  mm.peers.toList.countP fun p => p.2.status = .active

/-- `HasQuorum`: the node and its active peers reach a majority of the configured members. -/
def hasQuorum (mm : MembershipManager) : Bool :=
  1 + mm.activePeerCount ≥ mm.config.quorumSize

/-- `ActivateIfQuorum`: whether there is a quorum, and the manager it leaves. -/
def activateIfQuorum (mm : MembershipManager) : Bool × MembershipManager :=
  if 1 + mm.activePeerCount < mm.config.quorumSize then (false, mm)
  else (true, if mm.localMeta.status ≠ .active then mm.setLocalStatus .active else mm)

end MembershipManager

/-! ## Calls -/

/-- A call that changes the manager. -/
inductive MembershipCall where
  | setLocalStatus (status : NodeStatus)
  | updatePeerStatus (nodeID : NodeID) (status : NodeStatus)
  | recordHeartbeatSuccess (nodeID : NodeID) (now latency : ℤ)
  | recordHeartbeatFailure (nodeID : NodeID)
  | addPeer (nodeID : NodeID) (grpcAddr httpAddr : Bytes)
  | removePeer (nodeID : NodeID)
  | activateIfQuorum
  deriving DecidableEq

namespace MembershipManager

/-- The manager after a call. -/
def apply (mm : MembershipManager) : MembershipCall → MembershipManager
  | .setLocalStatus status => mm.setLocalStatus status
  | .updatePeerStatus nodeID status => mm.updatePeerStatus nodeID status
  | .recordHeartbeatSuccess nodeID now latency => mm.recordHeartbeatSuccess now latency nodeID
  | .recordHeartbeatFailure nodeID => mm.recordHeartbeatFailure nodeID
  | .addPeer nodeID grpcAddr httpAddr => mm.addPeer nodeID grpcAddr httpAddr
  | .removePeer nodeID => mm.removePeer nodeID
  | .activateIfQuorum => mm.activateIfQuorum.2

/-- The manager after a sequence of calls. -/
def applyAll (mm : MembershipManager) (calls : List MembershipCall) : MembershipManager :=
  calls.foldl apply mm

end MembershipManager

/-- What a call makes of the entry of the peer `id`. -/
def MembershipCall.onPeer (failureThreshold : ℤ) (id : NodeID) :
    MembershipCall → Option PeerMetadata → Option PeerMetadata
  | .updatePeerStatus nodeID status, peer =>
    if nodeID = id then peer.map fun peer => { peer with status } else peer
  | .recordHeartbeatSuccess nodeID now latency, peer =>
    if nodeID = id then peer.map (PeerMetadata.recordSuccess now latency) else peer
  | .recordHeartbeatFailure nodeID, peer =>
    if nodeID = id then peer.map (PeerMetadata.recordFailure failureThreshold) else peer
  | .addPeer nodeID grpcAddr httpAddr, peer =>
    if nodeID = id then peer.or (some ⟨grpcAddr, httpAddr, .joining, 0, 0, 0⟩) else peer
  | .removePeer nodeID, peer => if nodeID = id then none else peer
  | .setLocalStatus _, peer => peer
  | .activateIfQuorum, peer => peer

namespace MembershipManager

theorem get?_modifyPeer (f : PeerMetadata → PeerMetadata) (mm : MembershipManager)
    (nodeID id : NodeID) : (mm.modifyPeer f nodeID).peers.get? id =
      if nodeID = id then (mm.peers.get? id).map f else mm.peers.get? id := by
  unfold modifyPeer
  split_ifs with h
  · subst h
    cases hp : mm.peers.get? nodeID with
    | none => rw [hp]; rfl
    | some peer => exact SortedMap.get?_insert_self _ _ _
  · cases hp : mm.peers.get? nodeID with
    | none => rfl
    | some peer => exact SortedMap.get?_insert_of_ne _ h _

theorem get?_addPeer (mm : MembershipManager) (nodeID id : NodeID) (grpcAddr httpAddr : Bytes) :
    (mm.addPeer nodeID grpcAddr httpAddr).peers.get? id =
      if nodeID = id then (mm.peers.get? id).or (some ⟨grpcAddr, httpAddr, .joining, 0, 0, 0⟩)
      else mm.peers.get? id := by
  unfold addPeer
  split_ifs with h
  · subst h
    cases hp : mm.peers.get? nodeID with
    | none => exact SortedMap.get?_insert_self _ _ _
    | some peer => exact hp
  · cases hp : mm.peers.get? nodeID with
    | none => exact SortedMap.get?_insert_of_ne _ h _
    | some peer => rfl

theorem get?_removePeer (mm : MembershipManager) (nodeID id : NodeID) :
    (mm.removePeer nodeID).peers.get? id = if nodeID = id then none else mm.peers.get? id := by
  unfold removePeer
  split_ifs with h
  · rw [h, SortedMap.get?_erase_self]
  · rw [SortedMap.get?_erase_of_ne _ (Ne.symm h)]

theorem peers_activateIfQuorum (mm : MembershipManager) :
    mm.activateIfQuorum.2.peers = mm.peers := by
  unfold activateIfQuorum
  split_ifs <;> rfl

/-- `ActivateIfQuorum` reports what `HasQuorum` does. -/
theorem activateIfQuorum_fst (mm : MembershipManager) : mm.activateIfQuorum.1 = mm.hasQuorum := by
  unfold activateIfQuorum hasQuorum
  by_cases h : 1 + mm.activePeerCount < mm.config.quorumSize
  · rw [if_pos h]
    exact (decide_eq_false (not_le.2 h)).symm
  · rw [if_neg h]
    exact (decide_eq_true (not_lt.1 h)).symm

/-- What a call does to the entry of a peer depends only on that entry. -/
theorem get?_apply (mm : MembershipManager) (call : MembershipCall) (id : NodeID) :
    (mm.apply call).peers.get? id =
      call.onPeer mm.config.failureThreshold id (mm.peers.get? id) := by
  cases call with
  | setLocalStatus status => rfl
  | updatePeerStatus nodeID status => exact get?_modifyPeer _ _ _ _
  | recordHeartbeatSuccess nodeID now latency => exact get?_modifyPeer _ _ _ _
  | recordHeartbeatFailure nodeID => exact get?_modifyPeer _ _ _ _
  | addPeer nodeID grpcAddr httpAddr => exact get?_addPeer _ _ _ _ _
  | removePeer nodeID => exact get?_removePeer _ _ _
  | activateIfQuorum => exact congrArg (SortedMap.get? · id) mm.peers_activateIfQuorum

theorem config_modifyPeer (f : PeerMetadata → PeerMetadata) (mm : MembershipManager)
    (nodeID : NodeID) :
    (mm.modifyPeer f nodeID).config = mm.config ∧
      (mm.modifyPeer f nodeID).localMeta = mm.localMeta := by
  unfold modifyPeer
  split <;> exact ⟨rfl, rfl⟩

/-- No call changes the configuration or the node's own id. -/
theorem config_apply (mm : MembershipManager) (call : MembershipCall) :
    (mm.apply call).config = mm.config ∧
      (mm.apply call).localMeta.nodeID = mm.localMeta.nodeID := by
  have hmodify : ∀ f nodeID, (mm.modifyPeer f nodeID).config = mm.config ∧
      (mm.modifyPeer f nodeID).localMeta.nodeID = mm.localMeta.nodeID := fun f nodeID =>
    ⟨(mm.config_modifyPeer f nodeID).1, by rw [(mm.config_modifyPeer f nodeID).2]⟩
  cases call with
  | setLocalStatus status => exact ⟨rfl, rfl⟩
  | updatePeerStatus nodeID status => exact hmodify _ _
  | recordHeartbeatSuccess nodeID now latency => exact hmodify _ _
  | recordHeartbeatFailure nodeID => exact hmodify _ _
  | addPeer nodeID grpcAddr httpAddr =>
    simp only [apply, addPeer]
    split <;> exact ⟨rfl, rfl⟩
  | removePeer nodeID => exact ⟨rfl, rfl⟩
  | activateIfQuorum =>
    simp only [apply, activateIfQuorum]
    split_ifs <;> exact ⟨rfl, rfl⟩

theorem config_applyAll (mm : MembershipManager) (calls : List MembershipCall) :
    (mm.applyAll calls).config = mm.config ∧
      (mm.applyAll calls).localMeta.nodeID = mm.localMeta.nodeID := by
  induction calls generalizing mm with
  | nil => exact ⟨rfl, rfl⟩
  | cons call calls ih =>
    obtain ⟨hc, hn⟩ := ih (mm.apply call)
    obtain ⟨hc', hn'⟩ := mm.config_apply call
    exact ⟨hc.trans hc', hn.trans hn'⟩

/-- What a sequence of calls does to the entry of a peer. -/
theorem get?_applyAll (mm : MembershipManager) (calls : List MembershipCall) (id : NodeID) :
    (mm.applyAll calls).peers.get? id =
      calls.foldl (fun peer call => call.onPeer mm.config.failureThreshold id peer)
        (mm.peers.get? id) := by
  induction calls generalizing mm with
  | nil => rfl
  | cons call calls ih =>
    have happ : mm.applyAll (call :: calls) = (mm.apply call).applyAll calls := rfl
    rw [happ, ih, (mm.config_apply call).1, get?_apply]
    rfl

theorem getPeerStatus_of_get? {mm : MembershipManager} {nodeID : NodeID} {peer : PeerMetadata}
    (h : mm.peers.get? nodeID = some peer) : mm.getPeerStatus nodeID = peer.status := by
  rw [getPeerStatus, h]

/-! ## A new manager -/

/-- A new manager lists the configured peers, all of them unknown. -/
theorem get?_initialPeers (cfg : ClusterConfig) (id : NodeID) :
    (∀ peer, (initialPeers cfg).get? id = some peer → peer.status = .unknown ∧
      peer.missedCount = 0) ∧
    ((∃ peer, (initialPeers cfg).get? id = some peer) ↔ id ∈ cfg.memberIDs ∧ id ≠ cfg.nodeID) := by
  -- over any list of members and any table that already has these properties
  have loop : ∀ (members : List MemberConfig) (table : SortedMap NodeID PeerMetadata),
      (∀ peer, table.get? id = some peer → peer.status = .unknown ∧ peer.missedCount = 0) →
      let result := members.foldl
        (fun peers m => peers.insert m.id ⟨m.addr, m.httpAddr, .unknown, 0, 0, 0⟩) table
      (∀ peer, result.get? id = some peer → peer.status = .unknown ∧ peer.missedCount = 0) ∧
        ((∃ peer, result.get? id = some peer) ↔
          id ∈ members.map MemberConfig.id ∨ ∃ peer, table.get? id = some peer) := by
    intro members
    induction members with
    | nil => exact fun table h => ⟨h, by simp⟩
    | cons m members ih =>
      intro table htable
      obtain ⟨hstatus, hmem⟩ := ih (table.insert m.id ⟨m.addr, m.httpAddr, .unknown, 0, 0, 0⟩) (by
        intro peer hpeer
        rw [SortedMap.get?_insert] at hpeer
        split_ifs at hpeer with h
        · obtain rfl := Option.some.inj hpeer
          exact ⟨rfl, rfl⟩
        · exact htable peer hpeer)
      refine ⟨hstatus, hmem.trans ?_⟩
      rw [SortedMap.get?_insert, List.map_cons, List.mem_cons, or_assoc, or_comm (a := id = m.id),
        or_assoc]
      refine or_congr_right ?_
      by_cases h : m.id = id
      · rw [if_pos h]
        exact iff_of_true ⟨_, rfl⟩ (Or.inr h.symm)
      · rw [if_neg h]
        exact ⟨Or.inl, fun hor => hor.resolve_right (Ne.symm h)⟩
  obtain ⟨hstatus, hmem⟩ := loop cfg.getPeers SortedMap.empty (fun _ h => by cases h)
  refine ⟨hstatus, hmem.trans ?_⟩
  rw [ClusterConfig.mem_getPeers_iff]
  exact or_iff_left (by rintro ⟨peer, hpeer⟩; cases hpeer)

end MembershipManager

/-- The configuration of a node of the cluster `n1`, `n2`, `n3`, at `n1:7070` and so on. -/
def sampleConfig (nodeID : NodeID) : ClusterConfig where
  nodeID := nodeID
  listenAddr := nodeID ++ [58, 55, 48, 55, 48]
  members := [[110, 49], [110, 50], [110, 51]].map fun id =>
    ⟨id, id ++ [58, 55, 48, 55, 48], id ++ [58, 56, 48, 56, 48]⟩
  heartbeatInterval := 1000000000
  heartbeatTimeout := 2000000000
  failureThreshold := 3
  bootstrapTimeout := 60000000000

end GoQuorum
