import GoQuorum.Config
import Mathlib.Data.List.Nodup

/-!
# The hash ring

`internal/cluster/hashring.go`.  Every physical node owns `vnodeCount` positions on a ring of
64-bit hashes; the preference list of a key is the list of distinct owners met when walking
clockwise from the hash of the key.  The hash, xxHash64, is a parameter `sum64`.

A `HashRing` carries what `AddNode` and `RemoveNode` maintain: the positions are sorted, and they
are those of its members.
-/

namespace GoQuorum

open Lib

/-- A position on the ring, its owner, and the index of the position among those of the owner. -/
structure VirtualNode where
  hash : UInt64
  nodeID : NodeID
  vnodeIdx : ℕ
  deriving DecidableEq

/-- The comparison with which `AddNode` sorts. -/
def lowerHash (a b : VirtualNode) : Bool := a.hash < b.hash

/-- The order in which `sort.Slice` leaves the positions. -/
abbrev RingSort := SliceSort VirtualNode lowerHash

/-- The order that insertion sort gives. -/
def RingSort.insertion : RingSort :=
  SliceSort.insertion
    (fun a b => by
      simp only [lowerHash, decide_eq_false_iff_not, UInt64.not_lt]
      exact UInt64.le_total _ _)
    (fun a b c h₁ h₂ => by
      simp only [lowerHash, decide_eq_false_iff_not, UInt64.not_lt] at h₁ h₂ ⊢
      exact UInt64.le_trans h₁ h₂)

/-- The errors of the ring. -/
inductive RingError where
  | nodeExists
  | nodeNotFound
  | emptyRing
  deriving DecidableEq, Repr

section

variable (sum64 : Bytes → UInt64)

/-- `hashVNode`: the hash of `"<id>:<index>"`. -/
def hashVNode (nodeID : NodeID) (vnodeIdx : ℕ) : UInt64 := sum64 (nodeID ++ 58 :: decimal vnodeIdx)

/-- The positions that `AddNode` creates for a node. -/
def nodeVNodes (vnodeCount : ℕ) (nodeID : NodeID) : List VirtualNode :=
  (List.range vnodeCount).map fun i => ⟨hashVNode sum64 nodeID i, nodeID, i⟩

/-- `HashRing`, with the ids of its members for the map of physical nodes. -/
structure HashRing where
  vnodes : List VirtualNode
  nodes : List NodeID
  vnodeCount : ℕ
  vnodeCount_pos : 0 < vnodeCount
  nodes_nodup : nodes.Nodup
  sorted : vnodes.Pairwise fun a b => lowerHash b a = false
  members : vnodes.Perm (nodes.flatMap (nodeVNodes sum64 vnodeCount))

end

theorem nodeID_of_mem_nodeVNodes {sum64 : Bytes → UInt64} {vnodeCount : ℕ} {nodeID : NodeID}
    {v : VirtualNode} (h : v ∈ nodeVNodes sum64 vnodeCount nodeID) : v.nodeID = nodeID := by
  obtain ⟨i, -, rfl⟩ := List.mem_map.1 h
  rfl

/-- Without the positions of a node the other members keep theirs. -/
theorem filter_flatMap_nodeVNodes (sum64 : Bytes → UInt64) (vnodeCount : ℕ) (nodeID : NodeID)
    (nodes : List NodeID) :
    (nodes.flatMap (nodeVNodes sum64 vnodeCount)).filter (fun v => v.nodeID ≠ nodeID) =
      (nodes.filter (· ≠ nodeID)).flatMap (nodeVNodes sum64 vnodeCount) := by
  induction nodes with
  | nil => rfl
  | cons n nodes ih =>
    rw [List.flatMap_cons, List.filter_append, ih, List.filter_cons]
    by_cases h : n = nodeID
    · have hnone : (nodeVNodes sum64 vnodeCount n).filter (fun v => v.nodeID ≠ nodeID) = [] :=
        List.filter_eq_nil_iff.2 fun v hv => by simp [nodeID_of_mem_nodeVNodes hv, h]
      rw [hnone, if_neg (by simpa using h), List.nil_append]
    · have hall : (nodeVNodes sum64 vnodeCount n).filter (fun v => v.nodeID ≠ nodeID) =
          nodeVNodes sum64 vnodeCount n :=
        List.filter_eq_self.2 fun v hv => by simp [nodeID_of_mem_nodeVNodes hv, h]
      rw [hall, if_pos (by simpa using h), List.flatMap_cons]

namespace HashRing

variable {sum64 : Bytes → UInt64}

/-- `NewHashRing`. -/
def new (vnodeCount : ℤ) : HashRing sum64 where
  vnodes := []
  nodes := []
  vnodeCount := if vnodeCount ≤ 0 then 256 else vnodeCount.toNat
  vnodeCount_pos := by split_ifs <;> omega
  nodes_nodup := List.nodup_nil
  sorted := List.Pairwise.nil
  members := List.Perm.nil

/-- `AddNode`, with the order that `sort.Slice` gives equal hashes. -/
def addNode (sort : RingSort) (ring : HashRing sum64) (nodeID : NodeID) :
    Except RingError (HashRing sum64) :=
  if h : nodeID ∈ ring.nodes then .error .nodeExists
  else .ok {
    vnodes := sort.run (ring.vnodes ++ nodeVNodes sum64 ring.vnodeCount nodeID)
    nodes := ring.nodes ++ [nodeID]
    vnodeCount := ring.vnodeCount
    vnodeCount_pos := ring.vnodeCount_pos
    nodes_nodup := by
      rw [← List.concat_eq_append]
      exact ring.nodes_nodup.concat h
    sorted := sort.sorted _
    members := by
      rw [List.flatMap_append, List.flatMap_singleton]
      exact (sort.perm _).trans (ring.members.append_right _) }

/-- `RemoveNode`. -/
def removeNode (ring : HashRing sum64) (nodeID : NodeID) : Except RingError (HashRing sum64) :=
  if nodeID ∉ ring.nodes then .error .nodeNotFound
  else .ok {
    vnodes := ring.vnodes.filter fun v => v.nodeID ≠ nodeID
    nodes := ring.nodes.filter (· ≠ nodeID)
    vnodeCount := ring.vnodeCount
    vnodeCount_pos := ring.vnodeCount_pos
    nodes_nodup := ring.nodes_nodup.filter _
    sorted := ring.sorted.filter _
    members := by
      rw [← filter_flatMap_nodeVNodes]
      exact ring.members.filter _ }

/-- The positions clockwise from a hash.  On sorted positions `sort.Search` finds the first one that
is not below it; past the last position the walk starts over. -/
def clockwise (ring : HashRing sum64) (keyHash : UInt64) : List VirtualNode :=
  let idx := ring.vnodes.findIdx fun v => v.hash ≥ keyHash
  ring.vnodes.drop idx ++ ring.vnodes.take idx

/-- The loop of `GetPreferenceList`: the distinct owners of the positions, until there are `N`. -/
def collectDistinct (N : ℤ) (result : List NodeID) : List VirtualNode → List NodeID
  | [] => result
  | v :: rest =>
    if (result.length : ℤ) < N then
      if v.nodeID ∈ result then collectDistinct N result rest
      else collectDistinct N (result ++ [v.nodeID]) rest
    else result

/-- What both lookups do: up to `want` distinct owners, no more than there are members. -/
def lookup (ring : HashRing sum64) (key : Bytes) (want : ℤ) : Except RingError (List NodeID) :=
  if ring.nodes = [] then .error .emptyRing
  else
    let want := if want > ring.nodes.length then (ring.nodes.length : ℤ) else want
    .ok (collectDistinct want [] (ring.clockwise (sum64 key)))

/-- `GetPreferenceList`. -/
def getPreferenceList (ring : HashRing sum64) (key : Bytes) (N : ℤ) :
    Except RingError (List NodeID) :=
  ring.lookup key N

/-- `GetExtendedPreferenceList`. -/
def getExtendedPreferenceList (ring : HashRing sum64) (key : Bytes) (N extra : ℤ) :
    Except RingError (List NodeID) :=
  ring.lookup key (N + extra)

/-! ## Preference lists -/

theorem nodup_collectDistinct {N : ℤ} {result : List NodeID} (h : result.Nodup)
    (vs : List VirtualNode) : (collectDistinct N result vs).Nodup := by
  induction vs generalizing result with
  | nil => exact h
  | cons v vs ih =>
    rw [collectDistinct]
    split_ifs with hlen hmem
    · exact ih h
    · refine ih ?_
      rw [← List.concat_eq_append]
      exact h.concat hmem
    · exact h

theorem length_collectDistinct_le {N : ℤ} {result : List NodeID} (h : (result.length : ℤ) ≤ N)
    (vs : List VirtualNode) : ((collectDistinct N result vs).length : ℤ) ≤ N := by
  induction vs generalizing result with
  | nil => exact h
  | cons v vs ih =>
    rw [collectDistinct]
    split_ifs with hlen hmem
    · exact ih h
    · refine ih ?_
      rw [List.length_append, List.length_singleton]
      omega
    · exact h

/-- No node is listed twice. -/
theorem nodup_lookup {ring : HashRing sum64} {key : Bytes} {want : ℤ} {list : List NodeID}
    (h : ring.lookup key want = .ok list) : list.Nodup := by
  unfold lookup at h
  split_ifs at h
  all_goals
    obtain rfl := Except.ok.inj h
    exact nodup_collectDistinct List.nodup_nil _

/-- A preference list has no more than `N` nodes, all of them different. -/
theorem getPreferenceList_eq_ok {ring : HashRing sum64} {key : Bytes} {N : ℤ}
    {prefList : List NodeID} (hN : 0 ≤ N) (h : ring.getPreferenceList key N = .ok prefList) :
    prefList.Nodup ∧ (prefList.length : ℤ) ≤ N := by
  unfold getPreferenceList lookup at h
  split_ifs at h with hnil hlt
  all_goals obtain rfl := Except.ok.inj h
  · refine ⟨nodup_collectDistinct List.nodup_nil _, le_trans (length_collectDistinct_le ?_ _) hlt.le⟩
    exact Int.natCast_nonneg _
  · exact ⟨nodup_collectDistinct List.nodup_nil _, length_collectDistinct_le hN _⟩

end HashRing

/-- xxHash64 of the strings used in concrete cases. -/
def sampleSum64 : Bytes → UInt64
  | [107] => 14110649694607317859
  | [110, 49, 58, 48] => 7931179502860243978
  | [110, 50, 58, 48] => 14778359234383873917
  | [110, 51, 58, 48] => 14791858508549469024
  | _ => 0

end GoQuorum
