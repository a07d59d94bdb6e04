import GoQuorum.Cluster.Membership
import GoQuorum.Lib.LastWriter

/-!
# Gossip

`internal/cluster/gossip.go`.  Nodes exchange maps with an entry for each node they know of.  `Merge`
takes over the entries with a later `UpdatedAt`, except the node's own, and passes their statuses on
to the membership manager; `MarkPeer` and `SetSelf` write entries with the time of the local clock.

What a merge does with one id is what a last-writer-wins register does (`view_mergeAll`).  Entries
that tie on `UpdatedAt` make the order of merges matter (`merge_order_independent_iff`).
-/

namespace GoQuorum

open Lib

/-- `NodeEntry`; `updatedAt` is in Unix seconds. -/
structure NodeEntry where
  nodeID : Bytes
  addr : Bytes
  status : NodeStatus
  version : UInt64
  updatedAt : ℤ
  deriving DecidableEq

abbrev GossipState := SortedMap NodeID NodeEntry

/-- `Gossip`; the manager may be missing. -/
structure Gossip where
  nodeID : NodeID
  selfAddr : Bytes
  state : GossipState
  membership : Option MembershipManager
  deriving DecidableEq

namespace Gossip

/-- `NewGossip`, at Unix time `now`. -/
def new (now : ℤ) (nodeID : NodeID) (selfAddr : Bytes) (membership : Option MembershipManager) :
    Gossip where
  nodeID := nodeID
  selfAddr := selfAddr
  state := SortedMap.empty.insert nodeID ⟨nodeID, selfAddr, .active, 1, now⟩
  membership := membership

/-- Take over an entry. -/
def overwrite (g : Gossip) (id : NodeID) (entry : NodeEntry) : Gossip :=
  { g with
    state := g.state.insert id entry
    membership := g.membership.map fun mm => mm.updatePeerStatus id entry.status }

/-- One round of the loop of `Merge`. -/
def mergeEntry (g : Gossip) (p : NodeID × NodeEntry) : Gossip :=
  if p.1 = g.nodeID then g
  else match g.state.get? p.1 with
    | some existing =>
      if p.2.updatedAt > existing.updatedAt then g.overwrite p.1 p.2 else g
    | none => g.overwrite p.1 p.2

/-- The loop of `Merge`. -/
def mergeEntries (g : Gossip) (entries : List (NodeID × NodeEntry)) : Gossip :=
  entries.foldl mergeEntry g

/-- `Merge`.  The source goes through the map in an arbitrary order; it does not matter
(`view_mergeEntries_perm`). -/
def merge (g : Gossip) (incoming : GossipState) : Gossip := g.mergeEntries incoming.toList

/-- One merge after the other. -/
def mergeAll (g : Gossip) (maps : List GossipState) : Gossip := maps.foldl merge g

/-- `GetState`. -/
def getState (g : Gossip) : GossipState := g.state

/-- `MarkPeer`, at Unix time `now`. -/
def markPeer (now : ℤ) (g : Gossip) (nodeID : NodeID) (status : NodeStatus) : Gossip :=
  let entry := (g.state.get? nodeID).getD ⟨nodeID, [], .unknown, 0, 0⟩
  { g with state := g.state.insert nodeID { entry with status, updatedAt := now } }

/-- `SetSelf`, at Unix time `now`. -/
def setSelf (now : ℤ) (g : Gossip) (status : NodeStatus) : Gossip :=
  let entry := (g.state.get? g.nodeID).getD ⟨g.nodeID, g.selfAddr, .unknown, 0, 0⟩
  let entry := { entry with status, version := entry.version + 1, updatedAt := now }
  { g with state := g.state.insert g.nodeID entry }

/-! ## What a merge does with one id -/

/-- The status of a peer that the membership manager knows. -/
def peerStatus (g : Gossip) (id : NodeID) : Option NodeStatus :=
  g.membership.bind fun mm => (mm.peers.get? id).map PeerMetadata.status

/-- What a node has on an id: the entry, and the status in the membership manager. -/
def view (g : Gossip) (id : NodeID) : Option NodeEntry × Option NodeStatus :=
  (g.state.get? id, g.peerStatus id)

/-- What a node has on an id after an incoming entry for it. -/
def acceptView (v : Option NodeEntry × Option NodeStatus) (entry : NodeEntry) :
    Option NodeEntry × Option NodeStatus :=
  if Newer NodeEntry.updatedAt v.1 entry then (some entry, v.2.map fun _ => entry.status) else v

theorem view_overwrite (g : Gossip) (id id' : NodeID) (entry : NodeEntry) :
    (g.overwrite id entry).view id' =
      if id = id' then (some entry, (g.peerStatus id').map fun _ => entry.status)
      else g.view id' := by
  unfold view peerStatus overwrite
  rw [SortedMap.get?_insert]
  cases g.membership with
  | none => split_ifs <;> rfl
  | some mm =>
    simp only [Option.map_some, Option.bind_some, MembershipManager.updatePeerStatus,
      MembershipManager.get?_modifyPeer]
    split_ifs
    · rw [Option.map_map, Option.map_map]
      rfl
    · rfl

theorem nodeID_mergeEntry (g : Gossip) (p : NodeID × NodeEntry) :
    (g.mergeEntry p).nodeID = g.nodeID := by
  unfold mergeEntry
  split_ifs
  · rfl
  · split
    · split_ifs <;> rfl
    · rfl

theorem nodeID_mergeEntries (g : Gossip) (entries : List (NodeID × NodeEntry)) :
    (g.mergeEntries entries).nodeID = g.nodeID := by
  induction entries generalizing g with
  | nil => rfl
  | cons p entries ih => exact (ih (g.mergeEntry p)).trans (g.nodeID_mergeEntry p)

/-- A round of the loop changes what the node has on the id of its entry, unless that is its own. -/
theorem view_mergeEntry (g : Gossip) (p : NodeID × NodeEntry) (id : NodeID) :
    (g.mergeEntry p).view id =
      if p.1 = id ∧ id ≠ g.nodeID then acceptView (g.view id) p.2 else g.view id := by
  unfold mergeEntry
  by_cases hid : p.1 = id
  · by_cases hself : id = g.nodeID
    · rw [if_pos (hid.trans hself), if_neg fun h => h.2 hself]
    · rw [if_neg (hid ▸ hself), if_pos ⟨hid, hself⟩, hid]
      unfold acceptView
      cases hg : g.state.get? id with
      | none =>
        rw [if_pos (by rw [view, hg]; exact fun _ h => by cases h)]
        simp only [view_overwrite, if_true]
        rfl
      | some existing =>
        have hnewer : Newer NodeEntry.updatedAt (g.view id).1 p.2 ↔
            p.2.updatedAt > existing.updatedAt := by
          rw [view, hg, newer_some_iff]
        simp only [hnewer]
        split_ifs
        · rw [view_overwrite, if_pos rfl]
          rfl
        · rfl
  · rw [if_neg fun h : p.1 = id ∧ _ => hid h.1]
    split_ifs
    · rfl
    · split
      · split_ifs
        · rw [view_overwrite, if_neg hid]
        · rfl
      · rw [view_overwrite, if_neg hid]

theorem view_mergeEntries_of_notMem {entries : List (NodeID × NodeEntry)} {id : NodeID}
    (h : ∀ p ∈ entries, p.1 ≠ id) (g : Gossip) : (g.mergeEntries entries).view id = g.view id := by
  induction entries generalizing g with
  | nil => rfl
  | cons p entries ih =>
    obtain ⟨hp, hentries⟩ := List.forall_mem_cons.1 h
    refine (ih hentries (g.mergeEntry p)).trans ?_
    rw [view_mergeEntry, if_neg fun h => hp h.1]

theorem view_mergeEntries_of_mem {entries : List (NodeID × NodeEntry)} {id : NodeID}
    {entry : NodeEntry} (hnodup : (entries.map Prod.fst).Nodup) (hmem : (id, entry) ∈ entries)
    {g : Gossip} (hself : id ≠ g.nodeID) :
    (g.mergeEntries entries).view id = acceptView (g.view id) entry := by
  induction entries generalizing g with
  | nil => cases hmem
  | cons p entries ih =>
    rw [List.map_cons, List.nodup_cons] at hnodup
    change ((g.mergeEntry p).mergeEntries entries).view id = _
    rcases List.mem_cons.1 hmem with rfl | hmem
    · rw [view_mergeEntries_of_notMem, view_mergeEntry, if_pos ⟨rfl, hself⟩]
      exact fun p hp hid => hnodup.1 (List.mem_map.2 ⟨p, hp, hid⟩)
    · have hne : p.1 ≠ id := fun hid => hnodup.1 (hid ▸ List.mem_map_of_mem hmem)
      rw [ih hnodup.2 hmem (by rwa [nodeID_mergeEntry]), view_mergeEntry, if_neg fun h => hne h.1]

/-- A merge leaves the node's own entry, and its status if the node is in its own table. -/
theorem view_mergeEntries_self (g : Gossip) (entries : List (NodeID × NodeEntry)) :
    (g.mergeEntries entries).view g.nodeID = g.view g.nodeID := by
  induction entries generalizing g with
  | nil => rfl
  | cons p entries ih =>
    have hrest := ih (g.mergeEntry p)
    rw [nodeID_mergeEntry, view_mergeEntry, if_neg fun h => h.2 rfl] at hrest
    exact hrest

/-- What the loop of `Merge` does with an id, whatever the order in which it goes through the map: the
node's own is left alone, any other is a register. -/
theorem view_mergeEntries {incoming : GossipState} {entries : List (NodeID × NodeEntry)}
    (h : entries.Perm incoming.toList) (g : Gossip) (id : NodeID) :
    (g.mergeEntries entries).view id =
      if id = g.nodeID then g.view id
      else (incoming.get? id).elim (g.view id) (acceptView (g.view id)) := by
  split_ifs with hself
  · rw [hself]
    exact view_mergeEntries_self _ _
  · cases hg : incoming.get? id with
    | none =>
      refine view_mergeEntries_of_notMem (fun p hp hid => ?_) g
      have hsome := SortedMap.mem_toList_iff.1 (show (p.1, p.2) ∈ incoming.toList from h.mem_iff.1 hp)
      rw [hid, hg] at hsome
      cases hsome
    | some entry =>
      refine view_mergeEntries_of_mem ?_ (h.mem_iff.2 (SortedMap.mem_toList_iff.2 hg)) hself
      exact (h.map Prod.fst).nodup_iff.2 incoming.nodup_keys

theorem view_merge (g : Gossip) (incoming : GossipState) (id : NodeID) :
    (g.merge incoming).view id =
      if id = g.nodeID then g.view id
      else (incoming.get? id).elim (g.view id) (acceptView (g.view id)) :=
  view_mergeEntries (List.Perm.refl _) g id

/-- The entries for an id in a list of maps. -/
def entriesFor (id : NodeID) (maps : List GossipState) : List NodeEntry :=
  maps.filterMap fun m => m.get? id

theorem mem_entriesFor {id : NodeID} {maps : List GossipState} {entry : NodeEntry} :
    entry ∈ entriesFor id maps ↔ ∃ m ∈ maps, m.get? id = some entry :=
  List.mem_filterMap

theorem entriesFor_cons_none {id : NodeID} {m : GossipState} (h : m.get? id = none)
    (maps : List GossipState) : entriesFor id (m :: maps) = entriesFor id maps :=
  List.filterMap_cons_none h

theorem entriesFor_cons_some {id : NodeID} {m : GossipState} {entry : NodeEntry}
    (h : m.get? id = some entry) (maps : List GossipState) :
    entriesFor id (m :: maps) = entry :: entriesFor id maps :=
  List.filterMap_cons_some h

/-- What a sequence of merges does with an id. -/
theorem view_mergeAll (g : Gossip) (maps : List GossipState) (id : NodeID) :
    (g.mergeAll maps).view id =
      if id = g.nodeID then g.view id
      else (entriesFor id maps).foldl acceptView (g.view id) := by
  induction maps generalizing g with
  | nil => exact (ite_self _).symm
  | cons m maps ih =>
    change ((g.merge m).mergeAll maps).view id = _
    have hid : (g.merge m).nodeID = g.nodeID := g.nodeID_mergeEntries _
    rw [ih, hid, view_merge]
    split_ifs with hself
    · rfl
    · cases hg : m.get? id with
      | none =>
        rw [entriesFor_cons_none hg]
        rfl
      | some entry =>
        rw [entriesFor_cons_some hg]
        rfl

/-- The entry follows the register; the status is that of the last entry taken over. -/
theorem foldl_acceptView (l : List NodeEntry) (v : Option NodeEntry × Option NodeStatus) :
    l.foldl acceptView v =
      (acceptAll NodeEntry.updatedAt v.1 l,
        if ∃ entry ∈ l, Newer NodeEntry.updatedAt v.1 entry then
          v.2.map fun status => (acceptAll NodeEntry.updatedAt v.1 l).elim status NodeEntry.status
        else v.2) := by
  induction l generalizing v with
  | nil => simp [acceptAll]
  | cons a l ih =>
    have hcons : acceptAll NodeEntry.updatedAt v.1 (a :: l) =
        acceptAll NodeEntry.updatedAt (accept NodeEntry.updatedAt v.1 a) l := rfl
    rw [List.foldl_cons, ih, hcons]
    unfold acceptView accept
    by_cases ha : Newer NodeEntry.updatedAt v.1 a
    · simp only [if_pos ha, List.exists_mem_cons_iff]
      rw [if_pos (Or.inl ha)]
      rcases acceptAll_cases NodeEntry.updatedAt (some a) l with
        ⟨heq, hnone⟩ | ⟨x, heq, hx⟩
      · rw [heq, if_neg fun ⟨x, hx, hnew⟩ => hnone x hx hnew]
        rfl
      · rw [heq, if_pos ⟨x, hx.1, hx.2.1⟩, Option.map_map]
        rfl
    · simp only [List.exists_mem_cons_iff, ha, false_or]
      rfl

/-! ## The order of merges -/

/-- Merging the maps in any order, and any number of times each, makes no difference to any entry but
the node's own nor to the status of any known peer; and a node that has the same on another id ends
with the same on it. -/
def OrderIndependent (g : Gossip) (maps : List GossipState) : Prop :=
  ∀ maps₁ maps₂ : List GossipState, (∀ m, m ∈ maps₁ ↔ m ∈ maps) → (∀ m, m ∈ maps₂ ↔ m ∈ maps) →
    (∀ id, id ≠ g.nodeID →
      (g.mergeAll maps₁).state.get? id = (g.mergeAll maps₂).state.get? id) ∧
    (∀ id, (g.mergeAll maps₁).peerStatus id = (g.mergeAll maps₂).peerStatus id) ∧
    ∀ (h : Gossip) (id : NodeID), id ≠ g.nodeID → id ≠ h.nodeID → g.view id = h.view id →
      (g.mergeAll maps₁).view id = (h.mergeAll maps₂).view id

/-- No two different entries of the maps are the newest for an id other than the node's own. -/
def NoTies (g : Gossip) (maps : List GossipState) : Prop :=
  ∀ id, id ≠ g.nodeID → ∀ a b,
    Newest NodeEntry.updatedAt (g.state.get? id) (entriesFor id maps) a →
    Newest NodeEntry.updatedAt (g.state.get? id) (entriesFor id maps) b → a = b

/-- Without ties the same maps lead to the same register and the same status. -/
theorem foldl_acceptView_congr {v : Option NodeEntry × Option NodeStatus}
    {l l' : List NodeEntry}
    (hunique : ∀ a b, Newest NodeEntry.updatedAt v.1 l a → Newest NodeEntry.updatedAt v.1 l b → a = b)
    (h : ∀ entry, entry ∈ l' ↔ entry ∈ l) : l'.foldl acceptView v = l.foldl acceptView v := by
  rw [foldl_acceptView, foldl_acceptView, acceptAll_congr hunique h]
  simp only [h]

/-- For every node, every gossip state and every collection of incoming maps: the result of merging
them depends neither on the order nor on repetitions exactly when no two different entries are the
newest for one id. -/
theorem merge_order_independent_iff (g : Gossip) (maps : List GossipState) :
    g.OrderIndependent maps ↔ g.NoTies maps := by
  constructor
  · -- the one of two newest entries that comes first stays
    intro hind id hself a b ha hb
    have hfirst : ∀ x, Newest NodeEntry.updatedAt (g.state.get? id) (entriesFor id maps) x →
        ∃ m ∈ maps, (g.mergeAll (m :: maps)).state.get? id = some x := by
      intro x hx
      obtain ⟨m, hm, hget⟩ := mem_entriesFor.1 hx.1
      refine ⟨m, hm, ?_⟩
      have hview := congrArg Prod.fst (g.view_mergeAll (m :: maps) id)
      rw [if_neg hself, entriesFor_cons_some hget, foldl_acceptView] at hview
      exact hview.trans (acceptAll_cons_newest hx)
    obtain ⟨ma, hma, hga⟩ := hfirst a ha
    obtain ⟨mb, hmb, hgb⟩ := hfirst b hb
    have hsame : ∀ m ∈ maps, ∀ m', m' ∈ m :: maps ↔ m' ∈ maps := fun m hm m' =>
      ⟨fun h => (List.mem_cons.1 h).elim (fun h => h ▸ hm) fun h => h, List.mem_cons_of_mem _⟩
    have heq := (hind (ma :: maps) (mb :: maps) (hsame ma hma) (hsame mb hmb)).1 id hself
    rw [hga, hgb] at heq
    exact Option.some.inj heq
  · intro hties maps₁ maps₂ h₁ h₂
    have hview : ∀ (h : Gossip) (id : NodeID), id ≠ g.nodeID → id ≠ h.nodeID →
        g.view id = h.view id → (g.mergeAll maps₁).view id = (h.mergeAll maps₂).view id := by
      intro h id hg hh hsame
      rw [view_mergeAll, if_neg hg, view_mergeAll, if_neg hh, ← hsame]
      have hmaps : ∀ maps', (∀ m, m ∈ maps' ↔ m ∈ maps) →
          (entriesFor id maps').foldl acceptView (g.view id) =
            (entriesFor id maps).foldl acceptView (g.view id) :=
        fun maps' h' => foldl_acceptView_congr (hties id hg) fun entry => by
          simp only [mem_entriesFor, h']
      rw [hmaps maps₁ h₁, hmaps maps₂ h₂]
    refine ⟨fun id hid => congrArg Prod.fst (hview g id hid hid rfl), fun id => ?_, hview⟩
    by_cases hid : id = g.nodeID
    · have hown : ∀ maps', (g.mergeAll maps').view id = g.view id := fun maps' => by
        rw [view_mergeAll, if_pos hid]
      exact congrArg Prod.snd ((hown maps₁).trans (hown maps₂).symm)
    · exact congrArg Prod.snd (hview g id hid hid rfl)

/-- `n1`, and two entries for `n2` of the same second: its own, and the one by which a third node
reports that it has failed. -/
def tiedGossip : Gossip :=
  .new 100 [110, 49] [] (some (.new (sampleConfig [110, 49])))

def aliveMap : GossipState := SortedMap.empty.insert [110, 50] ⟨[110, 50], [], .active, 2, 100⟩

def failedMap : GossipState := SortedMap.empty.insert [110, 50] ⟨[110, 50], [], .failed, 1, 100⟩

/-- The first of them stays, whichever it is. -/
theorem tied_merges_disagree :
    (tiedGossip.mergeAll [aliveMap, failedMap]).peerStatus [110, 50] = some .active ∧
      (tiedGossip.mergeAll [failedMap, aliveMap]).peerStatus [110, 50] = some .failed ∧
      ¬ tiedGossip.OrderIndependent [aliveMap, failedMap] := by
  refine ⟨by decide, by decide, fun h => ?_⟩
  have hsame := (h [aliveMap, failedMap] [failedMap, aliveMap] (fun _ => Iff.rfl)
    (by simp [or_comm])).2.1 [110, 50]
  exact absurd hsame (by decide)

end Gossip

end GoQuorum
