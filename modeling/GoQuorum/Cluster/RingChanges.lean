import GoQuorum.Cluster.HashRing
import GoQuorum.Lib.Runs
import GoQuorum.Lib.Versions

/-!
# Preference lists under ring changes

The preference list of a key is the beginning of one list, the owners of the positions met on a walk
clockwise from the key, each where it is first met (`owners`, `preferenceList_eq_take`).  Two facts
about ring changes follow.

* The list does not depend on the history of the ring: members that join and leave in any order
  leave the same sorted positions, provided that no two positions coincide
  (`getPreferenceList_eq_of_members`).
* Removing a node deletes it from the list and moves the rest up (`preferenceList_removeNode`).
  This needs no assumption on the hash.
-/

namespace GoQuorum

open Lib Lib.Versions

namespace HashRing

variable {sum64 : Bytes → UInt64}

/-! ## The walk -/

/-- The list that `GetPreferenceList` returns, `nil` beside an error. -/
def preferenceList (ring : HashRing sum64) (key : Bytes) (N : ℤ) : List NodeID :=
  match ring.getPreferenceList key N with
  | .ok prefList => prefList
  | .error _ => []

/-- The owners of the positions clockwise from a key, each where it is first met. -/
def owners (ring : HashRing sum64) (key : Bytes) : List NodeID :=
  dedupBy id [] ((ring.clockwise (sum64 key)).map VirtualNode.nodeID)

/-- The loop of the lookup collects the owners that are not in its result yet. -/
theorem collectDistinct_eq {N : ℤ} {result : List NodeID} (vs : List VirtualNode)
    (h : (result.length : ℤ) ≤ N) : collectDistinct N result vs =
      (result ++ dedupBy id result (vs.map VirtualNode.nodeID)).take N.toNat := by
  have hlen : result.length ≤ N.toNat := by omega
  induction vs generalizing result with
  | nil => rw [collectDistinct, List.map_nil, dedupBy, List.append_nil, List.take_of_length_le hlen]
  | cons v vs ih =>
    rw [collectDistinct, List.map_cons, dedupBy, id]
    by_cases hN : (result.length : ℤ) < N
    · rw [if_pos hN]
      by_cases hmem : v.nodeID ∈ result
      · rw [if_pos hmem, if_pos hmem]
        exact ih h hlen
      · have hlen' : (result ++ [v.nodeID]).length = result.length + 1 := List.length_append
        have hseen : ∀ k, k ∈ result ++ [v.nodeID] ↔ k ∈ v.nodeID :: result := by
          simp [or_comm]
        rw [if_neg hmem, if_neg hmem, ih (by omega) (by omega), dedupBy_congr_seen id fun k _ => hseen k,
          List.append_assoc, List.singleton_append]
    · have hN' : N.toNat = result.length := by omega
      rw [if_neg hN, hN', List.take_left]

theorem nodup_owners (ring : HashRing sum64) (key : Bytes) : (ring.owners key).Nodup := by
  have h := nodup_map_dedupBy id [] ((ring.clockwise (sum64 key)).map VirtualNode.nodeID)
  rwa [List.map_id] at h

theorem mem_clockwise {ring : HashRing sum64} {keyHash : UInt64} {v : VirtualNode} :
    v ∈ ring.clockwise keyHash ↔ v ∈ ring.vnodes := by
  unfold clockwise
  rw [List.mem_append, or_comm, ← List.mem_append, List.take_append_drop]

theorem nodeID_mem_nodes {ring : HashRing sum64} {v : VirtualNode} (h : v ∈ ring.vnodes) :
    v.nodeID ∈ ring.nodes := by
  obtain ⟨n, hn, hv⟩ := List.mem_flatMap.1 (ring.members.mem_iff.1 h)
  rwa [nodeID_of_mem_nodeVNodes hv]

theorem owners_subset_nodes (ring : HashRing sum64) (key : Bytes) :
    ring.owners key ⊆ ring.nodes := by
  intro n hn
  obtain ⟨v, hv, rfl⟩ := List.mem_map.1 ((dedupBy_sublist id _ _).subset hn)
  exact nodeID_mem_nodes (mem_clockwise.1 hv)

theorem length_owners_le (ring : HashRing sum64) (key : Bytes) :
    (ring.owners key).length ≤ ring.nodes.length :=
  (List.subperm_of_subset (ring.nodup_owners key) (ring.owners_subset_nodes key)).length_le

/-- Every member owns a position, so a walk around the ring meets all of them. -/
theorem nodes_subset_owners (ring : HashRing sum64) (key : Bytes) :
    ring.nodes ⊆ ring.owners key := by
  intro n hn
  have hv : ⟨hashVNode sum64 n 0, n, 0⟩ ∈ nodeVNodes sum64 ring.vnodeCount n :=
    List.mem_map.2 ⟨0, List.mem_range.2 ring.vnodeCount_pos, rfl⟩
  have hmem : (⟨hashVNode sum64 n 0, n, 0⟩ : VirtualNode) ∈ ring.clockwise (sum64 key) :=
    mem_clockwise.2 (ring.members.mem_iff.2 (List.mem_flatMap.2 ⟨n, hn, hv⟩))
  have hn' : n ∈ (ring.clockwise (sum64 key)).map VirtualNode.nodeID :=
    List.mem_map.2 ⟨_, hmem, rfl⟩
  obtain ⟨m, hm, rfl⟩ := exists_mem_dedupBy id [] hn' List.not_mem_nil
  exact hm

theorem length_owners (ring : HashRing sum64) (key : Bytes) :
    (ring.owners key).length = ring.nodes.length :=
  le_antisymm (ring.length_owners_le key)
    (List.subperm_of_subset ring.nodes_nodup (ring.nodes_subset_owners key)).length_le

/-- A preference list is the beginning of the list of owners. -/
theorem preferenceList_eq_take (ring : HashRing sum64) (key : Bytes) {N : ℤ} (hN : 0 ≤ N) :
    ring.preferenceList key N = (ring.owners key).take N.toNat := by
  have hle := ring.length_owners_le key
  unfold preferenceList getPreferenceList lookup
  by_cases hnil : ring.nodes = []
  · rw [if_pos hnil]
    rw [hnil, List.length_nil] at hle
    rw [List.eq_nil_of_length_eq_zero (Nat.le_zero.1 hle), List.take_nil]
  rw [if_neg hnil]
  dsimp only
  split_ifs with hlt
  · -- more owners are wanted than there are members: all of them are collected
    rw [collectDistinct_eq _ (Int.natCast_nonneg _), List.nil_append, Int.toNat_natCast]
    exact (List.take_of_length_le hle).trans (List.take_of_length_le (by omega)).symm
  · rw [collectDistinct_eq _ hN, List.nil_append]
    rfl

/-! ## Histories -/

/-- A change of the ring: `AddNode`, with the order its sort gives equal hashes, or `RemoveNode`. -/
inductive Change where
  | add (sort : RingSort) (nodeID : NodeID)
  | remove (nodeID : NodeID)

/-- The ring after a change; one that fails leaves it as it was. -/
def change (ring : HashRing sum64) (c : Change) : Option (HashRing sum64) :=
  let result := match c with
    | .add sort nodeID => ring.addNode sort nodeID
    | .remove nodeID => ring.removeNode nodeID
  match result with
  | .ok ring' => some ring'
  | .error _ => some ring

theorem vnodeCount_addNode {sort : RingSort} {ring ring' : HashRing sum64} {n : NodeID}
    (h : ring.addNode sort n = .ok ring') : ring'.vnodeCount = ring.vnodeCount := by
  unfold addNode at h
  split_ifs at h
  cases h
  rfl

theorem removeNode_eq_ok {ring ring' : HashRing sum64} {n : NodeID}
    (h : ring.removeNode n = .ok ring') :
    n ∈ ring.nodes ∧ ring'.vnodes = (ring.vnodes.filter fun v => v.nodeID ≠ n) ∧
      ring'.vnodeCount = ring.vnodeCount := by
  unfold removeNode at h
  split_ifs at h with hn
  cases h
  exact ⟨hn, rfl, rfl⟩

theorem vnodeCount_change {ring ring' : HashRing sum64} {c : Change}
    (h : ring.change c = some ring') : ring'.vnodeCount = ring.vnodeCount := by
  unfold change at h
  dsimp only at h
  split at h
  · rename_i r hr
    obtain rfl := Option.some.inj h
    cases c with
    | add sort n => exact vnodeCount_addNode hr
    | remove n => exact (removeNode_eq_ok hr).2.2
  · rw [Option.some.inj h]

theorem vnodeCount_of_runs {ring ring' : HashRing sum64} {ok : HashRing sum64 → Change → Prop}
    (h : Runs change ok ring ring') : ring'.vnodeCount = ring.vnodeCount :=
  h.invariant (fun r => r.vnodeCount = ring.vnodeCount) rfl
    fun _ _ _ hr _ hs => (vnodeCount_change hs).trans hr

/-- With hashes all different, the positions are determined by the members. -/
theorem vnodes_eq_of_members {r₁ r₂ : HashRing sum64} (hcount : r₁.vnodeCount = r₂.vnodeCount)
    (hdistinct : (r₁.vnodes.map VirtualNode.hash).Nodup) (hnodes : r₁.nodes.Perm r₂.nodes) :
    r₁.vnodes = r₂.vnodes := by
  have hperm : r₁.vnodes.Perm r₂.vnodes := by
    refine r₁.members.trans (List.Perm.trans ?_ r₂.members.symm)
    rw [hcount]
    exact hnodes.flatMap_right _
  refine List.Perm.eq_of_pairwise (fun a b ha hb hab hba => ?_) r₁.sorted r₂.sorted hperm
  have hle : a.hash ≤ b.hash := by simpa [lowerHash] using hab
  have hge : b.hash ≤ a.hash := by simpa [lowerHash] using hba
  exact List.inj_on_of_nodup_map hdistinct ha (hperm.mem_iff.2 hb) (UInt64.le_antisymm hle hge)

/-- Two rings that have gone through any changes and ended with the same members, all of whose
positions differ, give every key the same preference list. -/
theorem getPreferenceList_eq_of_members (sum64 : Bytes → UInt64)
    (start₁ start₂ ring₁ ring₂ : HashRing sum64) (key : Bytes) (N : ℤ)
    (hcount : start₁.vnodeCount = start₂.vnodeCount)
    (hrun₁ : Runs change (fun _ _ => True) start₁ ring₁)
    (hrun₂ : Runs change (fun _ _ => True) start₂ ring₂)
    (hmembers : ∀ n, n ∈ ring₁.nodes ↔ n ∈ ring₂.nodes)
    (hdistinct : (ring₁.vnodes.map VirtualNode.hash).Nodup) :
    ring₁.getPreferenceList key N = ring₂.getPreferenceList key N := by
  have hnodes : ring₁.nodes.Perm ring₂.nodes :=
    (List.perm_ext_iff_of_nodup ring₁.nodes_nodup ring₂.nodes_nodup).2 hmembers
  have hvnodes : ring₁.vnodes = ring₂.vnodes := by
    refine vnodes_eq_of_members ?_ hdistinct hnodes
    rw [vnodeCount_of_runs hrun₁, vnodeCount_of_runs hrun₂, hcount]
  have hempty : ring₁.nodes = [] ↔ ring₂.nodes = [] := by
    rw [← List.length_eq_zero_iff, ← List.length_eq_zero_iff, hnodes.length_eq]
  unfold getPreferenceList lookup clockwise
  simp only [hvnodes, hnodes.length_eq, hempty]

/-- A node that joins first on one ring and last on the other, after a failed removal. -/
theorem getPreferenceList_eq_of_two_orders :
    ∃ ring₁ ring₂ : HashRing sampleSum64,
      ring₁.nodes = [[110, 49], [110, 50]] ∧ ring₂.nodes = [[110, 50], [110, 49]] ∧
      ring₁.getPreferenceList [107] 2 = ring₂.getPreferenceList [107] 2 := by
  obtain ⟨ring₁, hrun₁, h₁⟩ := Runs.exists_of_exec change (fun _ _ => True)
    (HashRing.new 1 : HashRing sampleSum64)
    [.add RingSort.insertion [110, 49], .add RingSort.insertion [110, 50]]
    (fun r => (r.nodes, r.vnodes.map VirtualNode.hash))
    (v := ([[110, 49], [110, 50]], [7931179502860243978, 14778359234383873917]))
    (by decide +kernel) (by decide +kernel)
  obtain ⟨ring₂, hrun₂, h₂⟩ := Runs.exists_of_exec change (fun _ _ => True)
    (HashRing.new 1 : HashRing sampleSum64)
    [.add RingSort.insertion [110, 50], .remove [110, 49], .add RingSort.insertion [110, 49]]
    HashRing.nodes (v := [[110, 50], [110, 49]]) (by decide +kernel) (by decide +kernel)
  obtain ⟨hn₁, hh₁⟩ := Prod.mk.inj h₁
  refine ⟨ring₁, ring₂, hn₁, h₂, ?_⟩
  refine getPreferenceList_eq_of_members sampleSum64 _ _ ring₁ ring₂ [107] 2 rfl hrun₁ hrun₂ ?_ ?_
  · rw [hn₁, h₂]
    simp [or_comm]
  · rw [hh₁]
    decide

/-! ## Removing a node -/

/-- Along the ring the hashes do not go below that of a key again. -/
theorem pairwise_hash_ge (ring : HashRing sum64) (keyHash : UInt64) : ring.vnodes.Pairwise
    fun a b => decide (a.hash ≥ keyHash) = true → decide (b.hash ≥ keyHash) = true := by
  refine ring.sorted.imp fun {a b} hab ha => ?_
  have hle : a.hash ≤ b.hash := by simpa [lowerHash] using hab
  exact decide_eq_true (UInt64.le_trans (of_decide_eq_true ha) hle)

/-- Without the positions of a node the walk meets the others in the same order. -/
theorem clockwise_filter {ring ring' : HashRing sum64} {n : NodeID} (keyHash : UInt64)
    (h : ring'.vnodes = ring.vnodes.filter fun v => v.nodeID ≠ n) :
    ring'.clockwise keyHash = (ring.clockwise keyHash).filter fun v => v.nodeID ≠ n := by
  -- on sorted positions the walk lists those not below the key, then those below it
  have split : ∀ r : HashRing sum64, r.clockwise keyHash =
      r.vnodes.filter (fun v => v.hash ≥ keyHash) ++
        r.vnodes.filter (fun v => !decide (v.hash ≥ keyHash)) := by
    intro r
    have hmono := r.pairwise_hash_ge keyHash
    rw [clockwise, drop_findIdx_of_monotone hmono, take_findIdx_of_monotone hmono]
  rw [split, split, h, List.filter_append]
  simp only [List.filter_filter, Bool.and_comm]

/-- Removing a node deletes it from the list of owners. -/
theorem owners_removeNode {ring ring' : HashRing sum64} {n : NodeID} (key : Bytes)
    (h : ring.removeNode n = .ok ring') : ring'.owners key = (ring.owners key).erase n := by
  rw [(ring.nodup_owners key).erase_eq_filter, owners, clockwise_filter _ (removeNode_eq_ok h).2.1]
  have hmap : ((ring.clockwise (sum64 key)).filter fun v => v.nodeID ≠ n).map VirtualNode.nodeID =
      ((ring.clockwise (sum64 key)).map VirtualNode.nodeID).filter fun m => id m ≠ n := by
    rw [List.filter_map]
    rfl
  rw [hmap, dedupBy_filter_ne id n (fun _ _ => Iff.rfl)]
  refine List.filter_congr fun m _ => ?_
  rw [Bool.eq_iff_iff]
  simp

/-- Deleting an element from the beginning of a list gives a beginning of the list without it. -/
theorem erase_take_isPrefix (l : List NodeID) (n : ℕ) (x : NodeID) :
    (l.take n).erase x <+: (l.erase x).take n := by
  refine List.prefix_take_iff.2 ⟨?_, (List.length_erase_le).trans (List.length_take_le _ _)⟩
  have happ : l.erase x = (l.take n ++ l.drop n).erase x := by rw [List.take_append_drop]
  rw [happ, List.erase_append]
  split_ifs with hx
  · exact List.prefix_append _ _
  · rw [List.erase_of_not_mem hx]
    exact List.prefix_append _ _

/-- After `RemoveNode` a preference list is the beginning of the full one without the removed node.
So the other replicas stay, in order, at most one node enters, and a key that the removed node did
not hold keeps its list. -/
theorem preferenceList_removeNode (sum64 : Bytes → UInt64) (ring ring' : HashRing sum64)
    (n : NodeID) (key : Bytes) (N : ℤ) (hN : 1 ≤ N) (h : ring.removeNode n = .ok ring') :
    let full := ring.preferenceList key ring.nodes.length
    let before := ring.preferenceList key N
    let after := ring'.preferenceList key N
    after = (full.erase n).take N.toNat ∧
      before.erase n <+: after ∧ after.length ≤ (before.erase n).length + 1 ∧
      (n ∉ before → after = before) := by
  have hfull : ring.preferenceList key ring.nodes.length = ring.owners key := by
    rw [preferenceList_eq_take _ _ (Int.natCast_nonneg _), Int.toNat_natCast]
    exact List.take_of_length_le (ring.length_owners_le key)
  have hbefore := ring.preferenceList_eq_take key (show 0 ≤ N by omega)
  have hafter : ring'.preferenceList key N = ((ring.owners key).erase n).take N.toNat := by
    rw [preferenceList_eq_take _ _ (show 0 ≤ N by omega), owners_removeNode key h]
  intro full before after
  have hpre : before.erase n <+: after := by
    rw [show before = _ from hbefore, show after = _ from hafter]
    exact erase_take_isPrefix _ _ _
  have hle : after.length ≤ before.length := by
    rw [show before = _ from hbefore, show after = _ from hafter, List.length_take, List.length_take]
    exact min_le_min_left _ List.length_erase_le
  refine ⟨by rw [show after = _ from hafter, show full = _ from hfull], hpre, ?_, fun hn => ?_⟩
  · have herase : before.length ≤ (before.erase n).length + 1 := by
      rw [List.length_erase]
      split_ifs <;> omega
    exact hle.trans herase
  · rw [List.erase_of_not_mem hn] at hpre
    exact (hpre.eq_of_length_le hle).symm

/-- Of three members the second on the list of a key leaves. -/
theorem preferenceList_removeNode_of_three :
    ∃ ring ring' : HashRing sampleSum64, ring.removeNode [110, 51] = .ok ring' ∧
      ring.preferenceList [107] 3 = [[110, 50], [110, 51], [110, 49]] ∧
      ring'.preferenceList [107] 2 = [[110, 50], [110, 49]] := by
  obtain ⟨ring, -, h⟩ := Runs.exists_of_exec change (fun _ _ => True)
    (HashRing.new 1 : HashRing sampleSum64)
    [.add RingSort.insertion [110, 49], .add RingSort.insertion [110, 50],
      .add RingSort.insertion [110, 51]]
    (fun r => (r.preferenceList [107] 3, decide (r.nodes.length = 3),
      (r.removeNode [110, 51]).isOk))
    (v := ([[110, 50], [110, 51], [110, 49]], true, true)) (by decide +kernel) (by decide +kernel)
  obtain ⟨hlist, h⟩ := Prod.mk.inj h
  obtain ⟨hlen, hok⟩ := Prod.mk.inj h
  obtain ⟨ring', hr⟩ := isOk_iff.1 hok
  refine ⟨ring, ring', hr, hlist, ?_⟩
  have hremove := preferenceList_removeNode sampleSum64 ring ring' [110, 51] [107] 2 (by decide) hr
  rw [hremove.1, of_decide_eq_true hlen, Nat.cast_ofNat, hlist]
  decide

end HashRing

end GoQuorum
