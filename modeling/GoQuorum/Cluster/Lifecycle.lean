import GoQuorum.Cluster.Drain
import GoQuorum.Cluster.FailureDetector
import GoQuorum.Cluster.MemberQuorum

/-!
# Who is in the cluster

A running node keeps three tables of the members: the ring, the peers of the membership manager, and
the peers that the failure detector watches.  `cmd/quorum/main.go` and `Bootstrap`
(`internal/cluster/bootstrap.go`) fill them from the configuration; `JoinNode` and `LeaveNode` of
`internal/cluster/coordinator.go` then change the first two.

After any calls, a node is in the ring exactly if the last call that names it let it join, or none
names it and it is configured (`mem_ring_applyAll`).  The peers follow the ring, except that the node
itself is a peer only once it has left (`PeersFollow`).  The failure detector keeps to the configured
peers.  `tables_agree_iff` says for which calls the three agree.
-/

namespace GoQuorum

open Lib

/-! ## Starting a node -/

/-- A call that changes statuses but not who is a peer. -/
def MembershipCall.isStatusCall : MembershipCall → Bool
  | .addPeer _ _ _ => false
  | .removePeer _ => false
  | _ => true

/-- The calls of heartbeats and gossip. -/
abbrev StatusCall := { call : MembershipCall // call.isStatusCall = true }

/-- The loop of `Bootstrap`: each second the node becomes active if there is a quorum.  The calls are
those of heartbeats and gossip since the last check; after the last check the time has run out. -/
def awaitQuorum (membership : MembershipManager) : List (List StatusCall) →
    Bool × MembershipManager
  | [] => (false, membership)
  | calls :: rest =>
    let (active, membership) := (membership.applyAll (calls.map Subtype.val)).activateIfQuorum
    if active then (true, membership) else awaitQuorum membership rest

/-- `Bootstrap`: whether it succeeds, and the services it leaves. -/
def bootstrap (cfg : ClusterConfig) (membership : MembershipManager)
    (failureDetector : FailureDetector) (checks : List (List StatusCall)) :
    Bool × MembershipManager × FailureDetector :=
  let failureDetector := failureDetector.start (cfg.getPeers.map MemberConfig.id)
  let (active, membership) := awaitQuorum membership checks
  (active, membership, failureDetector)

/-- Why a node does not start. -/
inductive StartError where
  | addNode (err : RingError)
  | bootstrapTimeout
  deriving DecidableEq

/-- A running node, and the stores of the others. -/
structure RunningNode (sum64 : Bytes → UInt64) extends NodeServices sum64 where
  failureDetector : FailureDetector
  stores : NodeID → Storage

section

variable {sum64 : Bytes → UInt64}

/-- The ring that `main` makes of the configured members. -/
def initialRing (sort : RingSort) (cfg : ClusterConfig) : Except RingError (HashRing sum64) :=
  cfg.members.foldlM (fun ring m => ring.addNode sort m.id) (HashRing.new 256)

namespace RunningNode

/-- `main` up to the end of `Bootstrap`. -/
def start (sort : RingSort) (cfg : ClusterConfig) (antiEntropy : AntiEntropy)
    (storage : Storage) (stores : NodeID → Storage) (checks : List (List StatusCall)) :
    Except StartError (RunningNode sum64) := do
  let ring ← (initialRing sort cfg).mapError .addNode
  let (active, membership, failureDetector) :=
    bootstrap cfg (MembershipManager.new cfg) FailureDetector.new checks
  if active then
    return { nodeID := cfg.nodeID, ring, membership, antiEntropy, storage, failureDetector, stores }
  else .error .bootstrapTimeout

end RunningNode

/-! ## Joining and leaving -/

/-- `JoinNode`: the error, and the node as it leaves it.  The exchange that it starts runs in the
background. -/
def NodeServices.joinNode (sort : RingSort) (node : NodeServices sum64) (nodeID : NodeID)
    (addr httpAddr : Bytes) : Except RingError Unit × NodeServices sum64 :=
  match node.ring.addNode sort nodeID with
  | .error err => (.error err, node)
  | .ok ring =>
    (.ok (), { node with ring, membership := node.membership.addPeer nodeID addr httpAddr })

/-- What happens to a running node: the two calls, and in the background the calls of heartbeats and
gossip and the changes of its data and that of the others. -/
inductive LifecycleEvent where
  | joinNode (sort : RingSort) (nodeID : NodeID) (addr httpAddr : Bytes)
  | leaveNode (env : LeaveEnv) (nodeID : NodeID)
  | status (call : StatusCall)
  | data (antiEntropy : AntiEntropy) (storage : Storage) (stores : NodeID → Storage)

namespace RunningNode

/-- The node after an event. -/
def apply (node : RunningNode sum64) : LifecycleEvent → RunningNode sum64
  | .joinNode sort nodeID addr httpAddr =>
    { node with toNodeServices := (node.toNodeServices.joinNode sort nodeID addr httpAddr).2 }
  | .leaveNode env nodeID =>
    let (_, services, d) := node.toNodeServices.leaveNode env node.stores nodeID
    { node with toNodeServices := services, stores := d.stores }
  | .status call => { node with membership := node.membership.apply call.1 }
  | .data antiEntropy storage stores => { node with antiEntropy, storage, stores }

/-- The node after a sequence of events. -/
def applyAll (node : RunningNode sum64) (events : List LifecycleEvent) : RunningNode sum64 :=
  events.foldl apply node

/-- The three tables agree: the ring has the node and its peers, the node is not its own peer, and
heartbeats go to the peers. -/
structure TablesAgree (node : RunningNode sum64) : Prop where
  ring : ∀ id, id ∈ node.ring.nodes ↔ id = node.nodeID ∨ id ∈ node.membership.getAllPeers
  self : node.nodeID ∉ node.membership.getAllPeers
  heartbeats : ∀ id, id ∈ node.failureDetector.heartbeatTargets ↔ id ∈ node.membership.getAllPeers

end RunningNode

end

namespace LifecycleEvent

/-- Whether a node is in the cluster after an event, if before the event it was or was not. -/
def present (id : NodeID) (before : Bool) : LifecycleEvent → Bool
  | .joinNode _ nodeID _ _ => if nodeID = id then true else before
  | .leaveNode _ nodeID => if nodeID = id then false else before
  | .status _ => before
  | .data _ _ _ => before

/-- The event is a `LeaveNode` of the node. -/
def leaves (id : NodeID) : LifecycleEvent → Bool
  | .joinNode _ _ _ _ => false
  | .leaveNode _ nodeID => nodeID = id
  | .status _ => false
  | .data _ _ _ => false

/-- Whether a node is in the cluster after a sequence of events: the last call that names it decides. -/
def presentAfter (id : NodeID) (before : Bool) (events : List LifecycleEvent) : Bool :=
  events.foldl (present id) before

/-- The calls change nothing in the end: the node itself never leaves, and each other node is in the
cluster afterwards exactly if it is a configured member. -/
def KeepConfigured (cfg : ClusterConfig) (events : List LifecycleEvent) : Prop :=
  (∀ e ∈ events, e.leaves cfg.nodeID = false) ∧
    ∀ id, id ≠ cfg.nodeID →
      presentAfter id (decide (id ∈ cfg.memberIDs)) events = decide (id ∈ cfg.memberIDs)

end LifecycleEvent

/-! ## The tables at the start -/

/-- Status calls do not change who is a peer. -/
theorem mem_getAllPeers_apply (mm : MembershipManager) (call : StatusCall) (id : NodeID) :
    id ∈ (mm.apply call.1).getAllPeers ↔ id ∈ mm.getAllPeers := by
  obtain ⟨call, hcall⟩ := call
  rw [MembershipManager.mem_getAllPeers, MembershipManager.mem_getAllPeers,
    MembershipManager.get?_apply]
  cases call with
  | addPeer nodeID grpcAddr httpAddr => cases hcall
  | removePeer nodeID => cases hcall
  | setLocalStatus status => rfl
  | activateIfQuorum => rfl
  | updatePeerStatus nodeID status =>
    simp only [MembershipCall.onPeer]
    split_ifs <;> simp
  | recordHeartbeatSuccess nodeID now latency =>
    simp only [MembershipCall.onPeer]
    split_ifs <;> simp
  | recordHeartbeatFailure nodeID =>
    simp only [MembershipCall.onPeer]
    split_ifs <;> simp

theorem mem_getAllPeers_applyAll (mm : MembershipManager) (calls : List StatusCall) (id : NodeID) :
    id ∈ (mm.applyAll (calls.map Subtype.val)).getAllPeers ↔ id ∈ mm.getAllPeers := by
  induction calls generalizing mm with
  | nil => rfl
  | cons call calls ih => exact (ih (mm.apply call.1)).trans (mem_getAllPeers_apply mm call id)

/-- Nor does `Bootstrap`. -/
theorem mem_getAllPeers_awaitQuorum (mm : MembershipManager) (checks : List (List StatusCall))
    (id : NodeID) : id ∈ (awaitQuorum mm checks).2.getAllPeers ↔ id ∈ mm.getAllPeers := by
  induction checks generalizing mm with
  | nil => rfl
  | cons calls rest ih =>
    have hcheck : id ∈ (mm.applyAll (calls.map Subtype.val)).activateIfQuorum.2.getAllPeers ↔
        id ∈ mm.getAllPeers := by
      rw [MembershipManager.getAllPeers, MembershipManager.peers_activateIfQuorum]
      exact mem_getAllPeers_applyAll mm calls id
    rw [awaitQuorum]
    dsimp only
    split_ifs
    · exact hcheck
    · exact (ih _).trans hcheck

/-- A new manager has the configured peers. -/
theorem mem_getAllPeers_new (cfg : ClusterConfig) (id : NodeID) :
    id ∈ (MembershipManager.new cfg).getAllPeers ↔ id ∈ cfg.memberIDs ∧ id ≠ cfg.nodeID := by
  rw [MembershipManager.mem_getAllPeers, Option.isSome_iff_exists]
  exact (MembershipManager.get?_initialPeers cfg id).2

theorem FailureDetector.mem_heartbeatTargets_start (fd : FailureDetector) (peerIDs : List NodeID)
    (id : NodeID) :
    id ∈ (fd.start peerIDs).heartbeatTargets ↔ id ∈ peerIDs ∨ id ∈ fd.heartbeatTargets := by
  induction peerIDs generalizing fd with
  | nil => simp [start]
  | cons peerID peerIDs ih =>
    have hinsert : id ∈ (fd.peers.insert peerID ()).keys ↔ id = peerID ∨ id ∈ fd.peers.keys := by
      simp only [SortedMap.mem_keys_iff, SortedMap.get?_insert]
      by_cases h : peerID = id
      · simp [h]
      · simp [h, Ne.symm h]
    have hcons : fd.start (peerID :: peerIDs) =
        (FailureDetector.mk (fd.peers.insert peerID ())).start peerIDs := rfl
    rw [hcons, ih, List.mem_cons, heartbeatTargets, hinsert, heartbeatTargets]
    tauto

section

variable {sum64 : Bytes → UInt64}

theorem HashRing.addNode_of_notMem (sort : RingSort) {ring : HashRing sum64} {nodeID : NodeID}
    (h : nodeID ∉ ring.nodes) :
    ∃ ring', ring.addNode sort nodeID = .ok ring' ∧ ring'.nodes = ring.nodes ++ [nodeID] := by
  unfold HashRing.addNode
  rw [dif_neg h]
  exact ⟨_, rfl, rfl⟩

/-- Members without repetition make a ring. -/
theorem exists_initialRing (sort : RingSort) {cfg : ClusterConfig} (h : cfg.memberIDs.Nodup) :
    ∃ ring : HashRing sum64, initialRing sort cfg = .ok ring ∧ ring.nodes = cfg.memberIDs := by
  have loop : ∀ (members : List MemberConfig) (r : HashRing sum64),
      (r.nodes ++ members.map MemberConfig.id).Nodup →
      ∃ ring, members.foldlM (fun ring m => ring.addNode sort m.id) r = .ok ring ∧
        ring.nodes = r.nodes ++ members.map MemberConfig.id := by
    intro members
    induction members with
    | nil => exact fun r _ => ⟨r, rfl, (List.append_nil _).symm⟩
    | cons m members ih =>
      intro r hnodup
      have hassoc : r.nodes ++ (m :: members).map MemberConfig.id =
          (r.nodes ++ [m.id]) ++ members.map MemberConfig.id := by simp
      rw [hassoc] at hnodup ⊢
      have hfresh : m.id ∉ r.nodes := fun hm =>
        (List.nodup_append.1 hnodup.of_append_left).2.2 _ hm _ List.mem_cons_self rfl
      obtain ⟨r', hadd, hnodes⟩ := HashRing.addNode_of_notMem sort hfresh
      rw [← hnodes] at hnodup ⊢
      rw [List.foldlM_cons, hadd, ok_bind]
      exact ih r' hnodup
  exact loop cfg.members (HashRing.new 256) h

/-- The tables of a node that has started. -/
theorem RunningNode.of_start {services : Bytes → Option ℤ} {sort : RingSort} {cfg : ClusterConfig}
    (hvalid : cfg.validate services = .ok ()) {antiEntropy : AntiEntropy} {storage : Storage}
    {stores : NodeID → Storage} {checks : List (List StatusCall)} {node : RunningNode sum64}
    (h : RunningNode.start sort cfg antiEntropy storage stores checks = .ok node) :
    node.nodeID = cfg.nodeID ∧ (∀ id, id ∈ node.ring.nodes ↔ id ∈ cfg.memberIDs) ∧
      (∀ id, id ∈ node.membership.getAllPeers ↔ id ∈ cfg.memberIDs ∧ id ≠ cfg.nodeID) ∧
      ∀ id, id ∈ node.failureDetector.heartbeatTargets ↔ id ∈ cfg.memberIDs ∧ id ≠ cfg.nodeID := by
  obtain ⟨ring, hring, hnodes⟩ : ∃ ring : HashRing sum64, initialRing sort cfg = .ok ring ∧
      ring.nodes = cfg.memberIDs := exists_initialRing sort (ClusterConfig.of_validate hvalid).2.1
  rw [start, hring, mapError_ok, ok_bind] at h
  dsimp only [bootstrap] at h
  split_ifs at h
  obtain rfl := Except.ok.inj h
  refine ⟨rfl, fun id => by rw [hnodes], fun id => ?_, fun id => ?_⟩
  · exact (mem_getAllPeers_awaitQuorum _ checks id).trans (mem_getAllPeers_new cfg id)
  · dsimp only
    rw [FailureDetector.mem_heartbeatTargets_start, ClusterConfig.mem_getPeers_iff]
    exact or_iff_left List.not_mem_nil

/-! ## What an event does to the tables -/

namespace RunningNode

variable {node : RunningNode sum64}

/-- No event changes the id of the node or the peers that the failure detector watches. -/
theorem fixed_apply (node : RunningNode sum64) (e : LifecycleEvent) :
    (node.apply e).nodeID = node.nodeID ∧
      (node.apply e).failureDetector = node.failureDetector := by
  cases e with
  | joinNode sort nodeID addr httpAddr =>
    refine ⟨?_, rfl⟩
    simp only [apply, NodeServices.joinNode]
    split <;> rfl
  | leaveNode env nodeID =>
    refine ⟨?_, rfl⟩
    simp only [apply, NodeServices.leaveNode]
    split <;> rfl
  | status call => exact ⟨rfl, rfl⟩
  | data antiEntropy storage stores => exact ⟨rfl, rfl⟩

theorem fixed_applyAll (node : RunningNode sum64) (events : List LifecycleEvent) :
    (node.applyAll events).nodeID = node.nodeID ∧
      (node.applyAll events).failureDetector = node.failureDetector := by
  induction events generalizing node with
  | nil => exact ⟨rfl, rfl⟩
  | cons e events ih =>
    obtain ⟨hid, hfd⟩ := ih (node.apply e)
    obtain ⟨hid', hfd'⟩ := node.fixed_apply e
    exact ⟨hid.trans hid', hfd.trans hfd'⟩

/-- What `JoinNode` does to the tables: nothing, or it adds the node to both. -/
theorem tables_joinNode (node : RunningNode sum64) (sort : RingSort) (nodeID : NodeID)
    (addr httpAddr : Bytes) (id : NodeID) :
    (id ∈ (node.apply (.joinNode sort nodeID addr httpAddr)).ring.nodes ↔
      id = nodeID ∨ id ∈ node.ring.nodes) ∧
    (id ∈ (node.apply (.joinNode sort nodeID addr httpAddr)).membership.getAllPeers ↔
      id = nodeID ∧ nodeID ∉ node.ring.nodes ∨ id ∈ node.membership.getAllPeers) := by
  simp only [apply, NodeServices.joinNode]
  by_cases h : nodeID ∈ node.ring.nodes
  · have hadd : node.ring.addNode sort nodeID = .error .nodeExists := dif_pos h
    rw [hadd]
    refine ⟨⟨Or.inr, ?_⟩, ⟨Or.inr, ?_⟩⟩
    · rintro (rfl | hid)
      · exact h
      · exact hid
    · rintro (⟨-, hnot⟩ | hid)
      · exact absurd h hnot
      · exact hid
  · obtain ⟨ring, hadd, hnodes⟩ := HashRing.addNode_of_notMem sort h
    rw [hadd]
    dsimp only
    rw [hnodes, List.mem_append, List.mem_singleton, or_comm, MembershipManager.mem_getAllPeers,
      MembershipManager.mem_getAllPeers, MembershipManager.get?_addPeer]
    refine ⟨Iff.rfl, ?_⟩
    by_cases hid : nodeID = id
    · simp [hid, hid ▸ h]
    · simp [hid, Ne.symm hid]

/-- What `LeaveNode` does to the tables: nothing, or it removes the node from both. -/
theorem tables_leaveNode (node : RunningNode sum64) (env : LeaveEnv) (nodeID id : NodeID) :
    (id ∈ (node.apply (.leaveNode env nodeID)).ring.nodes ↔ id ∈ node.ring.nodes ∧ id ≠ nodeID) ∧
    (id ∈ (node.apply (.leaveNode env nodeID)).membership.getAllPeers ↔
      id ∈ node.membership.getAllPeers ∧ ¬ (id = nodeID ∧ nodeID ∈ node.ring.nodes)) := by
  simp only [apply]
  by_cases h : nodeID ∈ node.ring.nodes
  · obtain ⟨-, hnodes, hmembers⟩ := NodeServices.leaveNode_of_mem env node.stores h
    rw [hnodes, hmembers, List.mem_filter, decide_eq_true_eq, MembershipManager.mem_getAllPeers,
      MembershipManager.mem_getAllPeers, MembershipManager.get?_removePeer]
    refine ⟨Iff.rfl, ?_⟩
    by_cases hid : nodeID = id
    · simp [hid, hid ▸ h]
    · simp [hid, Ne.symm hid]
  · obtain ⟨-, hring, hmembers⟩ := NodeServices.leaveNode_of_notMem env node.stores h
    rw [hring, hmembers]
    refine ⟨⟨fun hid => ⟨hid, ?_⟩, And.left⟩, ⟨fun hid => ⟨hid, fun hc => h hc.2⟩, And.left⟩⟩
    rintro rfl
    exact h hid

/-- Whether a node is in the ring is decided by the calls that name it. -/
theorem mem_ring_apply (node : RunningNode sum64) (e : LifecycleEvent) (id : NodeID) :
    decide (id ∈ (node.apply e).ring.nodes) = e.present id (decide (id ∈ node.ring.nodes)) := by
  cases e with
  | joinNode sort nodeID addr httpAddr =>
    rw [Bool.eq_iff_iff, decide_eq_true_iff, (node.tables_joinNode sort nodeID addr httpAddr id).1,
      LifecycleEvent.present]
    by_cases h : nodeID = id
    · simp [h]
    · simp [h, Ne.symm h]
  | leaveNode env nodeID =>
    rw [Bool.eq_iff_iff, decide_eq_true_iff, (node.tables_leaveNode env nodeID id).1,
      LifecycleEvent.present]
    by_cases h : nodeID = id
    · simp [h]
    · simp [h, Ne.symm h]
  | status call => rfl
  | data antiEntropy storage stores => rfl

theorem mem_ring_applyAll (node : RunningNode sum64) (events : List LifecycleEvent) (id : NodeID) :
    decide (id ∈ (node.applyAll events).ring.nodes) =
      LifecycleEvent.presentAfter id (decide (id ∈ node.ring.nodes)) events := by
  induction events generalizing node with
  | nil => rfl
  | cons e events ih =>
    have hstep : node.applyAll (e :: events) = (node.apply e).applyAll events := rfl
    rw [hstep, ih, mem_ring_apply]
    rfl

/-- The peers are the nodes of the ring, except for the node itself as long as it has stayed. -/
structure PeersFollow (stayed : Bool) (node : RunningNode sum64) : Prop where
  peers : ∀ id, id ∈ node.membership.getAllPeers ↔
    id ∈ node.ring.nodes ∧ (id = node.nodeID → stayed = false)
  self : stayed = true → node.nodeID ∈ node.ring.nodes

/-- Every event keeps this; the node has stayed until it is told to leave. -/
theorem PeersFollow.apply {stayed : Bool} (h : PeersFollow stayed node) (e : LifecycleEvent) :
    PeersFollow (stayed && !e.leaves node.nodeID) (node.apply e) := by
  have hfixed := (node.fixed_apply e).1
  cases e with
  | joinNode sort nodeID addr httpAddr =>
    have htables := node.tables_joinNode sort nodeID addr httpAddr
    rw [LifecycleEvent.leaves, Bool.not_false, Bool.and_true]
    refine ⟨fun id => ?_, fun hstayed => ?_⟩
    · rw [(htables id).1, (htables id).2, h.peers, hfixed]
      constructor
      · rintro (⟨rfl, hnot⟩ | ⟨hid, hself⟩)
        · refine ⟨Or.inl rfl, fun hself => Bool.eq_false_iff.2 fun hstayed => hnot ?_⟩
          rw [hself]
          exact h.self hstayed
        · exact ⟨Or.inr hid, hself⟩
      · rintro ⟨rfl | hid, hself⟩
        · by_cases hmem : id ∈ node.ring.nodes
          · exact Or.inr ⟨hmem, hself⟩
          · exact Or.inl ⟨rfl, hmem⟩
        · exact Or.inr ⟨hid, hself⟩
    · rw [hfixed]
      exact (htables node.nodeID).1.2 (Or.inr (h.self hstayed))
  | leaveNode env nodeID =>
    have htables := node.tables_leaveNode env nodeID
    refine ⟨fun id => ?_, fun hstayed => ?_⟩
    · rw [(htables id).1, (htables id).2, h.peers, hfixed]
      simp only [LifecycleEvent.leaves]
      by_cases hid : id = nodeID
      · exact iff_of_false (fun hc => hc.2 ⟨hid, hid ▸ hc.1.1⟩) fun hc => hc.1.2 hid
      · have hsame : id = node.nodeID → (stayed && !decide (nodeID = node.nodeID)) = stayed := by
          rintro rfl
          simp [Ne.symm hid]
        constructor
        · rintro ⟨⟨hmem, hself⟩, -⟩
          exact ⟨⟨hmem, hid⟩, fun hs => (hsame hs).trans (hself hs)⟩
        · rintro ⟨⟨hmem, -⟩, hself⟩
          exact ⟨⟨hmem, fun hs => (hsame hs).symm.trans (hself hs)⟩, fun hc => hid hc.1⟩
    · simp only [LifecycleEvent.leaves, Bool.and_eq_true, Bool.not_eq_true',
        decide_eq_false_iff_not] at hstayed
      rw [hfixed]
      exact (htables node.nodeID).1.2 ⟨h.self hstayed.1, Ne.symm hstayed.2⟩
  | status call =>
    rw [LifecycleEvent.leaves, Bool.not_false, Bool.and_true]
    exact ⟨fun id => (mem_getAllPeers_apply _ call id).trans (h.peers id), h.self⟩
  | data antiEntropy storage stores =>
    rw [LifecycleEvent.leaves, Bool.not_false, Bool.and_true]
    exact ⟨h.peers, h.self⟩

theorem PeersFollow.applyAll {stayed : Bool} (h : PeersFollow stayed node)
    (events : List LifecycleEvent) :
    PeersFollow (stayed && events.all fun e => !e.leaves node.nodeID) (node.applyAll events) := by
  induction events generalizing stayed node with
  | nil =>
    rw [List.all_nil, Bool.and_true]
    exact h
  | cons e events ih =>
    have hrest := ih (h.apply e)
    rw [(node.fixed_apply e).1, Bool.and_assoc] at hrest
    exact hrest

end RunningNode

end

/-! ## Agreement -/

/-- For every valid configuration, every start and every sequence of calls, with anything going on in
the background: the tables agree afterwards exactly when the node itself has not left and the calls
leave the other members as they are configured. -/
theorem tables_agree_iff {sum64 : Bytes → UInt64} (services : Bytes → Option ℤ) (sort : RingSort)
    (cfg : ClusterConfig) (hvalid : cfg.validate services = .ok ()) (antiEntropy : AntiEntropy)
    (storage : Storage) (stores : NodeID → Storage) (checks : List (List StatusCall))
    (node : RunningNode sum64)
    (hstart : RunningNode.start sort cfg antiEntropy storage stores checks = .ok node)
    (events : List LifecycleEvent) :
    (node.applyAll events).TablesAgree ↔ LifecycleEvent.KeepConfigured cfg events := by
  obtain ⟨hself, hring, hpeers, htargets⟩ := RunningNode.of_start hvalid hstart
  obtain ⟨hid, hfd⟩ := node.fixed_applyAll events
  have hmember := (ClusterConfig.of_validate hvalid).1
  have hfollow : RunningNode.PeersFollow true node := by
    refine ⟨fun id => ?_, fun _ => ?_⟩
    · rw [hpeers, hring, hself]
      exact and_congr_right fun _ => ⟨fun hne h => absurd h hne, fun h hs => by cases h hs⟩
    · rw [hself, hring]
      exact hmember
  have hfollow := hfollow.applyAll events
  rw [Bool.true_and, hself] at hfollow
  have hstayed : (events.all fun e => !e.leaves cfg.nodeID) = true ↔
      ∀ e ∈ events, e.leaves cfg.nodeID = false := by simp
  have hcalls : ∀ id, LifecycleEvent.presentAfter id (decide (id ∈ cfg.memberIDs)) events =
      decide (id ∈ (node.applyAll events).ring.nodes) := by
    intro id
    rw [node.mem_ring_applyAll events id, decide_eq_decide.2 (hring id)]
  constructor
  · intro hagree
    have hstay : (events.all fun e => !e.leaves cfg.nodeID) = true := by
      by_contra hleft
      refine hagree.self ((hfollow.peers _).2 ⟨(hagree.ring _).2 (Or.inl rfl), fun _ => ?_⟩)
      exact Bool.eq_false_iff.2 hleft
    refine ⟨hstayed.1 hstay, fun id hne => ?_⟩
    have hne' : id ≠ (node.applyAll events).nodeID := by rwa [hid, hself]
    rw [hcalls, decide_eq_decide, hagree.ring, or_iff_right hne', ← hagree.heartbeats, hfd, htargets,
      and_iff_left hne]
  · rintro ⟨hstay, hsame⟩
    rw [hstayed.2 hstay] at hfollow
    have hpeer : ∀ id, id ∈ (node.applyAll events).membership.getAllPeers ↔
        id ∈ (node.applyAll events).ring.nodes ∧ id ≠ (node.applyAll events).nodeID := by
      intro id
      rw [hfollow.peers]
      exact and_congr_right fun _ => ⟨fun h hs => (Bool.eq_false_iff.1 (h hs)) rfl,
        fun hne hs => absurd hs hne⟩
    refine ⟨fun id => ?_, fun h => ((hpeer _).1 h).2 rfl, fun id => ?_⟩
    · rw [hpeer]
      by_cases hne : id = (node.applyAll events).nodeID
      · exact iff_of_true (hne ▸ hfollow.self rfl) (Or.inl hne)
      · rw [or_iff_right hne, and_iff_left hne]
    · rw [hpeer, hfd, htargets, hid, hself]
      refine and_congr_left fun hne => ?_
      rw [← decide_eq_decide, ← hcalls, hsame id hne]

/-! ## A cluster of three -/

/-- The start of `n1`, when `n2` has answered a heartbeat before the first check. -/
def sampleStartup : Except StartError (RunningNode sampleSum64) :=
  RunningNode.start RingSort.insertion (sampleConfig [110, 49]) (AntiEntropy.new true 1)
    (Storage.new defaultStorageOptions) emptyStores [[⟨.recordHeartbeatSuccess [110, 50] 1 0, rfl⟩]]

/-- The node `n1` after its start. -/
def runningN1 : RunningNode sampleSum64 := sampleStartup.toOption.get (by decide +kernel)

theorem sampleStartup_eq : sampleStartup = .ok runningN1 :=
  toOption_eq_some.1 (Option.some_get _).symm

/-- A node that joins and leaves again is in none of the tables of `n1`. -/
theorem tables_agree_after_visit :
    (runningN1.applyAll [.joinNode RingSort.insertion [110, 52] [] [],
      .leaveNode (drainEnv .answered) [110, 52]]).TablesAgree := by
  refine (tables_agree_iff (fun _ => none) RingSort.insertion (sampleConfig [110, 49]) (by decide)
    _ _ _ _ _ sampleStartup_eq _).2 ⟨by decide, fun id _ => ?_⟩
  by_cases h : [110, 52] = id
  · subst h
    decide
  · simp [LifecycleEvent.presentAfter, LifecycleEvent.present, h]

/-- A node that joins is in the ring and a peer of `n1`, but is sent no heartbeats. -/
theorem joined_node_gets_no_heartbeats :
    let node := runningN1.applyAll [.joinNode RingSort.insertion [110, 52] [] []]
    (sampleConfig [110, 49]).validate (fun _ => none) = .ok () ∧ sampleStartup = .ok runningN1 ∧
      (runningN1.joinNode RingSort.insertion [110, 52] [] []).1 = .ok () ∧
      [110, 52] ∈ node.ring.nodes ∧ [110, 52] ∈ node.membership.getAllPeers ∧
      [110, 52] ∉ node.failureDetector.heartbeatTargets := by
  refine ⟨by decide, sampleStartup_eq, ?_⟩
  decide +kernel

end GoQuorum
