import GoQuorum.Cluster.Membership
import Mathlib.Data.Finset.Card

/-!
# Two quorums at once

`HasQuorum` compares the active nodes with a majority of the configured members.  `AddPeer` and
`RemovePeer` change the members but not this number, and a node that is added to its own table counts
twice.  `quorum_exclusive_iff` says for which sets of members two nodes that share no active node
cannot both have a quorum.
-/

namespace GoQuorum

open Lib

namespace MembershipManager

/-- The members of the cluster as the node sees it: its peers and itself. -/
def members (mm : MembershipManager) : Finset NodeID :=
  insert mm.localMeta.nodeID mm.getAllPeers.toFinset

/-- The node itself and its active peers. -/
def activeNodes (mm : MembershipManager) : Finset NodeID :=
  insert mm.localMeta.nodeID mm.getActivePeers.toFinset

/-- The node is in its own table of peers. -/
def listsItself (mm : MembershipManager) : Bool := (mm.peers.get? mm.localMeta.nodeID).isSome

theorem mem_getAllPeers {mm : MembershipManager} {id : NodeID} :
    id ∈ mm.getAllPeers ↔ (mm.peers.get? id).isSome = true := by
  rw [getAllPeers, SortedMap.mem_keys_iff, Option.isSome_iff_exists]

theorem mem_getActivePeers {mm : MembershipManager} {id : NodeID} :
    id ∈ mm.getActivePeers ↔ ∃ peer, mm.peers.get? id = some peer ∧ peer.status = .active := by
  simp only [getActivePeers, SortedMap.mem_keys_iff, SortedMap.get?_filter_eq_some,
    decide_eq_true_eq]

/-- Every active node is a member. -/
theorem activeNodes_subset (mm : MembershipManager) : mm.activeNodes ⊆ mm.members := by
  refine Finset.insert_subset_insert _ fun id hid => ?_
  obtain ⟨peer, hpeer, -⟩ := mem_getActivePeers.1 (List.mem_toFinset.1 hid)
  exact List.mem_toFinset.2 (mem_getAllPeers.2 (by rw [hpeer]; rfl))

theorem activePeerCount_eq_card (mm : MembershipManager) :
    mm.activePeerCount = mm.getActivePeers.toFinset.card := by
  rw [getActivePeers, List.toFinset_card_of_nodup (SortedMap.nodup_keys _), activePeerCount,
    List.countP_eq_length_filter]
  exact (List.length_map _).symm

/-- What `HasQuorum` counts: the active nodes, and the node itself once more if it is one of its own
active peers. -/
theorem activeCount_eq (mm : MembershipManager) :
    1 + mm.activePeerCount = mm.activeNodes.card +
      if mm.localMeta.nodeID ∈ mm.getActivePeers then 1 else 0 := by
  rw [activePeerCount_eq_card, activeNodes]
  split_ifs with h
  · rw [Finset.insert_eq_of_mem (List.mem_toFinset.2 h), Nat.add_comm]
  · rw [Finset.card_insert_of_notMem (mt List.mem_toFinset.1 h), Nat.add_comm, Nat.add_zero]

theorem activeCount_le (mm : MembershipManager) :
    1 + mm.activePeerCount ≤ mm.activeNodes.card + mm.listsItself.toNat := by
  rw [activeCount_eq]
  refine Nat.add_le_add_left ?_ _
  split_ifs with h
  · obtain ⟨peer, hpeer, -⟩ := mem_getActivePeers.1 h
    rw [listsItself, hpeer]
    rfl
  · exact Nat.zero_le _

theorem hasQuorum_iff (mm : MembershipManager) :
    mm.hasQuorum = true ↔ mm.config.quorumSize ≤ 1 + mm.activePeerCount :=
  decide_eq_true_iff

end MembershipManager

/-! ## Tables that calls can make -/

section

variable {failureThreshold : ℤ} {id : NodeID}

/-- The same call for each node of a list does to the entry of a peer what one such call does, if the
peer is in the list. -/
theorem foldl_calls {call : NodeID → MembershipCall} {f : Option PeerMetadata → Option PeerMetadata}
    (hcall : ∀ n peer, (call n).onPeer failureThreshold id peer = if n = id then f peer else peer)
    (hidem : ∀ peer, f (f peer) = f peer) (l : List NodeID) (peer : Option PeerMetadata) :
    (l.map call).foldl (fun peer call => call.onPeer failureThreshold id peer) peer =
      if id ∈ l then f peer else peer := by
  induction l generalizing peer with
  | nil => rfl
  | cons n l ih =>
    rw [List.map_cons, List.foldl_cons, ih, hcall]
    by_cases hn : n = id
    · simp [hn, hidem]
    · simp [hn, Ne.symm hn]

end

namespace MembershipManager

/-- Every set of peers with every set of active ones among them can be reached. -/
theorem exists_calls (mm : MembershipManager) {peers active : Finset NodeID}
    (hsub : active ⊆ peers) : ∃ calls,
      (mm.applyAll calls).getAllPeers.toFinset = peers ∧
      (mm.applyAll calls).getActivePeers.toFinset = active := by
  let calls : List MembershipCall := mm.getAllPeers.map .removePeer ++
    (peers.toList.map fun n => .addPeer n [] []) ++
    active.toList.map fun n => .updatePeerStatus n .active
  have hget : ∀ id, (mm.applyAll calls).peers.get? id =
        if id ∈ active then some ⟨[], [], .active, 0, 0, 0⟩
        else if id ∈ peers then some ⟨[], [], .joining, 0, 0, 0⟩ else none := by
    intro id
    have hremoved : (if id ∈ mm.getAllPeers then none else mm.peers.get? id) = none := by
      split_ifs with h
      · rfl
      · simpa [mem_getAllPeers] using h
    rw [get?_applyAll, List.foldl_append, List.foldl_append,
      foldl_calls (f := fun peer => peer.map fun peer => { peer with status := .active })
        (fun _ _ => rfl) (fun peer => by cases peer <;> rfl),
      foldl_calls (f := fun peer => peer.or (some ⟨[], [], .joining, 0, 0, 0⟩)) (fun _ _ => rfl)
        (fun peer => by cases peer <;> rfl),
      foldl_calls (f := fun _ => none) (fun _ _ => rfl) (fun _ => rfl), hremoved]
    simp only [Finset.mem_toList]
    by_cases ha : id ∈ active
    · simp [ha, hsub ha]
    · simp [ha]
  refine ⟨calls, ?_, ?_⟩
  · ext id
    rw [List.mem_toFinset, mem_getAllPeers, hget]
    by_cases ha : id ∈ active
    · simp [ha, hsub ha]
    · by_cases hp : id ∈ peers <;> simp [ha, hp]
  · ext id
    rw [List.mem_toFinset, mem_getActivePeers, hget]
    by_cases ha : id ∈ active
    · simp [ha]
    · by_cases hp : id ∈ peers <;> simp [ha, hp]

/-- A manager with given members and active nodes, that lists itself or not, and has as many active
nodes as `HasQuorum` can then count. -/
theorem exists_manager (cfg : ClusterConfig) {members active : Finset NodeID}
    (hself : cfg.nodeID ∈ active) (hsub : active ⊆ members) (listed : Bool) : ∃ calls,
      ((new cfg).applyAll calls).members = members ∧
      ((new cfg).applyAll calls).activeNodes = active ∧
      ((new cfg).applyAll calls).listsItself = listed ∧
      1 + ((new cfg).applyAll calls).activePeerCount = active.card + listed.toNat := by
  -- the node is one of its active peers or not in the table at all
  let own : Finset NodeID := if listed then {cfg.nodeID} else ∅
  have hown : own ⊆ {cfg.nodeID} := by
    simp only [own]
    split_ifs
    · exact Finset.Subset.refl _
    · exact Finset.empty_subset _
  have hinsert : ∀ s : Finset NodeID, cfg.nodeID ∈ s →
      insert cfg.nodeID (s.erase cfg.nodeID ∪ own) = s := by
    intro s hs
    rw [Finset.insert_union_distrib, Finset.insert_erase hs]
    refine Finset.union_eq_left.2 ((Finset.insert_subset hs ?_))
    exact fun x hx => Finset.mem_singleton.1 (hown hx) ▸ hs
  obtain ⟨calls, hall, hactive⟩ := (new cfg).exists_calls
    (Finset.union_subset_union_left (Finset.erase_subset_erase cfg.nodeID hsub) :
      active.erase cfg.nodeID ∪ own ⊆ members.erase cfg.nodeID ∪ own)
  have hid : ((new cfg).applyAll calls).localMeta.nodeID = cfg.nodeID :=
    ((new cfg).config_applyAll calls).2
  have hmem : ∀ s : Finset NodeID, cfg.nodeID ∈ s.erase cfg.nodeID ∪ own ↔ listed = true := by
    intro s
    cases listed <;> simp [own]
  have hnodes : ((new cfg).applyAll calls).activeNodes = active := by
    rw [activeNodes, hid, hactive, hinsert _ hself]
  refine ⟨calls, ?_, hnodes, ?_, ?_⟩
  · rw [MembershipManager.members, hid, hall, hinsert _ (hsub hself)]
  · rw [Bool.eq_iff_iff, listsItself, hid, ← mem_getAllPeers, ← List.mem_toFinset, hall, hmem]
  · rw [activeCount_eq, hnodes, hid]
    congr 1
    simp only [← List.mem_toFinset, hactive, hmem]
    cases listed <;> rfl

end MembershipManager

/-! ## Exclusive quorums -/

/-- Two nodes that share no active node do not both have a quorum, nor would both activate. -/
def QuorumsExclusive (m₁ m₂ : MembershipManager) : Prop :=
  Disjoint m₁.activeNodes m₂.activeNodes →
    ¬ (m₁.hasQuorum = true ∧ m₂.hasQuorum = true) ∧
      ¬ (m₁.activateIfQuorum.1 = true ∧ m₂.activateIfQuorum.1 = true)

theorem quorumsExclusive_iff (m₁ m₂ : MembershipManager) : QuorumsExclusive m₁ m₂ ↔
    (Disjoint m₁.activeNodes m₂.activeNodes → ¬ (m₁.hasQuorum = true ∧ m₂.hasQuorum = true)) := by
  simp only [QuorumsExclusive, MembershipManager.activateIfQuorum_fst, and_self]

/-- Two nodes of one configuration need at least two members for a quorum. -/
theorem two_le_quorumSize {services : Bytes → Option ℤ} {cfg₁ cfg₂ : ClusterConfig}
    (h₁ : cfg₁.validate services = .ok ()) (h₂ : cfg₂.validate services = .ok ())
    (hmembers : cfg₁.members = cfg₂.members) (hne : cfg₁.nodeID ≠ cfg₂.nodeID) :
    2 ≤ cfg₁.quorumSize := by
  have hm₁ := (ClusterConfig.of_validate h₁).1
  have hm₂ := (ClusterConfig.of_validate h₂).1
  rw [ClusterConfig.memberIDs, ← hmembers] at hm₂
  have hsub : [cfg₁.nodeID, cfg₂.nodeID] ⊆ cfg₁.members.map MemberConfig.id :=
    List.cons_subset.2 ⟨hm₁, List.cons_subset.2 ⟨hm₂, List.nil_subset _⟩⟩
  have hle := (List.subperm_of_subset (List.nodup_cons.2 ⟨by simpa using hne,
    List.nodup_singleton _⟩) hsub).length_le
  rw [List.length_map] at hle
  simp only [List.length_cons, List.length_nil] at hle
  unfold ClusterConfig.quorumSize
  omega

/-- For any two nodes whose managers start from valid configurations with the same members, and every
set of members: in all histories of calls that leave both with these members, and with the given
nodes in their own tables, the quorums of the two are exclusive, exactly when the members, counted
once more for each of the two nodes that is in its own table, are fewer than two quorums. -/
theorem quorum_exclusive_iff (services : Bytes → Option ℤ) (cfg₁ cfg₂ : ClusterConfig)
    (h₁ : cfg₁.validate services = .ok ()) (h₂ : cfg₂.validate services = .ok ())
    (hmembers : cfg₁.members = cfg₂.members) (hne : cfg₁.nodeID ≠ cfg₂.nodeID)
    (members : Finset NodeID) (hm₁ : cfg₁.nodeID ∈ members) (hm₂ : cfg₂.nodeID ∈ members)
    (listed₁ listed₂ : Bool) :
    (∀ calls₁ calls₂ : List MembershipCall,
      let m₁ := (MembershipManager.new cfg₁).applyAll calls₁
      let m₂ := (MembershipManager.new cfg₂).applyAll calls₂
      m₁.members = members → m₂.members = members →
      m₁.listsItself = listed₁ → m₂.listsItself = listed₂ → QuorumsExclusive m₁ m₂) ↔
    members.card + listed₁.toNat + listed₂.toNat < 2 * cfg₁.quorumSize := by
  have hsize : cfg₂.quorumSize = cfg₁.quorumSize := by
    rw [ClusterConfig.quorumSize, ClusterConfig.quorumSize, hmembers]
  have hconfig : ∀ (cfg : ClusterConfig) (calls : List MembershipCall),
      ((MembershipManager.new cfg).applyAll calls).config = cfg :=
    fun cfg calls => ((MembershipManager.new cfg).config_applyAll calls).1
  constructor
  · -- otherwise the members can be divided between the two
    intro hall
    by_contra hlarge
    have htwo := two_le_quorumSize h₁ h₂ hmembers hne
    have hb₁ := Bool.toNat_le listed₁
    have hb₂ := Bool.toNat_le listed₂
    have hsub : {cfg₁.nodeID} ⊆ members.erase cfg₂.nodeID :=
      Finset.singleton_subset_iff.2 (Finset.mem_erase.2 ⟨hne, hm₁⟩)
    have hcard := Finset.card_erase_add_one hm₂
    obtain ⟨active, hself, hactive, hcount⟩ := Finset.exists_subsuperset_card_eq hsub
      (n := cfg₁.quorumSize - listed₁.toNat) (by rw [Finset.card_singleton]; omega) (by omega)
    have hactive' : active ⊆ members := hactive.trans (Finset.erase_subset _ _)
    have hother : cfg₂.nodeID ∈ members \ active := by
      refine Finset.mem_sdiff.2 ⟨hm₂, fun h => ?_⟩
      exact (Finset.mem_erase.1 (hactive h)).1 rfl
    obtain ⟨calls₁, ha₁, hn₁, hl₁, hc₁⟩ := MembershipManager.exists_manager cfg₁
      (Finset.singleton_subset_iff.1 hself) hactive' listed₁
    obtain ⟨calls₂, ha₂, hn₂, hl₂, hc₂⟩ := MembershipManager.exists_manager cfg₂ hother
      Finset.sdiff_subset listed₂
    have hexcl := (quorumsExclusive_iff _ _).1 (hall calls₁ calls₂ ha₁ ha₂ hl₁ hl₂)
    rw [hn₁, hn₂] at hexcl
    refine hexcl Finset.disjoint_sdiff ⟨?_, ?_⟩
    · rw [MembershipManager.hasQuorum_iff, hconfig, hc₁]
      omega
    · have hrest := Finset.card_sdiff_add_card_eq_card hactive'
      rw [MembershipManager.hasQuorum_iff, hconfig, hc₂, hsize]
      omega
  · intro hsmall calls₁ calls₂ m₁ m₂ ha₁ ha₂ hl₁ hl₂
    rw [quorumsExclusive_iff]
    rintro hdisj ⟨hq₁, hq₂⟩
    rw [MembershipManager.hasQuorum_iff, hconfig] at hq₁ hq₂
    have hle₁ := m₁.activeCount_le
    have hle₂ := m₂.activeCount_le
    have hunion : m₁.activeNodes ∪ m₂.activeNodes ⊆ members :=
      Finset.union_subset (ha₁ ▸ m₁.activeNodes_subset) (ha₂ ▸ m₂.activeNodes_subset)
    have hcard := Finset.card_le_card hunion
    rw [Finset.card_union_of_disjoint hdisj] at hcard
    rw [hl₁] at hle₁
    rw [hl₂] at hle₂
    omega

/-- With the configured members alone two nodes of three cannot both have a quorum. -/
theorem quorum_exclusive_of_configured :
    let m₁ := (MembershipManager.new (sampleConfig [110, 49])).applyAll
      [.recordHeartbeatSuccess [110, 50] 1 0]
    let m₂ := MembershipManager.new (sampleConfig [110, 51])
    m₁.hasQuorum = true ∧ QuorumsExclusive m₁ m₂ := by
  refine ⟨by decide, ?_⟩
  exact (quorum_exclusive_iff (fun _ => none) (sampleConfig [110, 49]) (sampleConfig [110, 51])
    (by decide) (by decide) rfl (by decide) {[110, 49], [110, 50], [110, 51]} (by decide)
    (by decide) false false).2 (by decide) [.recordHeartbeatSuccess [110, 50] 1 0] [] (by decide)
    (by decide) (by decide) (by decide)

/-- Both nodes have been told of a fourth member.  Each has one active peer, they share none, and both
have a quorum. -/
theorem both_halves_have_quorum :
    let m₁ := (MembershipManager.new (sampleConfig [110, 49])).applyAll
      [.addPeer [110, 52] [] [], .recordHeartbeatSuccess [110, 50] 1 0]
    let m₂ := (MembershipManager.new (sampleConfig [110, 51])).applyAll
      [.addPeer [110, 52] [] [], .updatePeerStatus [110, 52] .active]
    (sampleConfig [110, 49]).validate (fun _ => none) = .ok () ∧
      (sampleConfig [110, 51]).validate (fun _ => none) = .ok () ∧ m₁.members = m₂.members ∧
      Disjoint m₁.activeNodes m₂.activeNodes ∧ m₁.hasQuorum = true ∧ m₂.hasQuorum = true :=
  ⟨by decide, by decide, by decide, by decide, by decide, by decide⟩

end GoQuorum
