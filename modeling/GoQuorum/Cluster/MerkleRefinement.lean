import GoQuorum.Cluster.MerkleArrays

/-!
# What the arrays of the Merkle tree compute

Every operation on arrays is the operation of `MerkleTree` on what they represent (`toArrays`), so
none of them fails on a reachable tree, apart from `Compare` on trees that have no internal node.

`Compare` returns the buckets that differ, one by one (`compare_exact`), and the root that `GetRoot`
returns is that of the contributions toggled an odd number of times (`lazy_root_is_eager`).
-/

namespace GoQuorum

open Lib

/-! ## Trees as arrays -/

namespace MerkleTree

variable {h : Digest}

/-- The arrays of a tree. -/
def toArrays (mt : MerkleTree h.sum) : MerkleArrays :=
  ⟨mt.depth, 2 ^ mt.depth, mt.leafHashes, mt.nodeHashes, mt.dirty⟩

theorem sized_toArrays (mt : MerkleTree h.sum) : mt.toArrays.Sized :=
  ⟨rfl, mt.leafHashes_length, mt.nodeHashes_length, mt.dirty_length⟩

theorem rebuildTree_toArrays (mt : MerkleTree h.sum) :
    mt.toArrays.rebuildTree h = some mt.rebuildTree.toArrays := by
  have hdirty : (mt.dirty.map fun _ => false) = List.replicate (2 ^ mt.depth) false := by
    rw [List.map_const', mt.dirty_length]
  rw [MerkleArrays.rebuildTree_eq mt.sized_toArrays]
  simp only [toArrays, hdirty, MerkleArrays.upToDate, rebuildTree]

theorem rebuildIfNeeded_toArrays (mt : MerkleTree h.sum) :
    mt.toArrays.rebuildIfNeeded h = some mt.rebuildIfNeeded.toArrays := by
  have hany : mt.toArrays.dirty.any id = true ↔ true ∈ mt.dirty := by
    rw [List.any_eq_true]
    exact ⟨fun ⟨x, hx, he⟩ => he ▸ hx, fun hx => ⟨true, hx, rfl⟩⟩
  unfold MerkleArrays.rebuildIfNeeded rebuildIfNeeded
  simp only [hany]
  split_ifs
  · exact mt.rebuildTree_toArrays
  · rfl

theorem new_toArrays (depth : ℕ) :
    MerkleArrays.new h depth = some (new h.sum depth).toArrays := by
  rw [MerkleArrays.new, MerkleArrays.rebuildTree_eq ⟨rfl, List.length_replicate,
    List.length_replicate, List.length_replicate⟩]
  simp only [List.map_replicate, toArrays, new, MerkleArrays.upToDate, emptyLeaves]

theorem toggleKey_toArrays (mt : MerkleTree h.sum) (key : Bytes) (siblings : Option SiblingSet) :
    mt.toArrays.toggleKey h key siblings = some (mt.toggleKey key siblings).toArrays := by
  cases siblings with
  | none => rfl
  | some siblings =>
    have hlt := keyToBucket_lt h.sum mt.depth key
    have hleaf := mt.sized_toArrays.getElem?_leafHashes hlt
    have hlen : (mt.toArrays.leaf (keyToBucket h.sum mt.depth key)).length = 32 :=
      mt.leafHash_length _ (List.mem_of_getElem? hleaf)
    have hset : mt.leafHashes.set (keyToBucket h.sum mt.depth key)
        (xorInto (mt.toArrays.leaf (keyToBucket h.sum mt.depth key))
          (h.sum (leafInput key siblings))) =
        toggleLeaf h.sum mt.depth mt.leafHashes (key, siblings) := by
      rw [toggleLeaf, List.modify_eq_set_getElem?]
      simp only [show mt.leafHashes[keyToBucket h.sum mt.depth key]? = _ from hleaf]
      rfl
    have hbucket : mt.toArrays.bucketOf h key = keyToBucket h.sum mt.depth key := rfl
    simp only [MerkleArrays.toggleKey, hbucket, hleaf, Option.bind_eq_bind, Option.bind_some,
      xorLoop_eq (h.length_sum _) hlen, setAt]
    rw [if_pos (mt.sized_toArrays.leafHashes.symm ▸ hlt),
      Option.bind_some, if_pos (mt.sized_toArrays.dirty.symm ▸ hlt)]
    simp only [toArrays, toggleKey, ← hset]
    rfl

theorem reset_toArrays (mt : MerkleTree h.sum) : mt.toArrays.reset = some mt.reset.toArrays := by
  obtain ⟨t, hrun, rfl⟩ := forUp_invariant MerkleArrays.resetBucket (n := 2 ^ mt.depth)
    (s := mt.toArrays) (fun i t => t = { mt.toArrays with
      leafHashes := List.replicate i zeroHash ++ mt.leafHashes.drop i
      dirty := List.replicate i true ++ mt.dirty.drop i }) rfl (by
    rintro i hi t rfl
    refine ⟨_, ?_, rfl⟩
    simp only [MerkleArrays.resetBucket, setAt_overwritten _ _ (mt.leafHashes_length.symm ▸ hi),
      setAt_overwritten _ _ (mt.dirty_length.symm ▸ hi), Option.bind_eq_bind, Option.bind_some]
    rfl)
  rw [MerkleArrays.reset]
  refine hrun.trans ?_
  simp only [toArrays, reset, List.drop_of_length_le mt.leafHashes_length.le,
    List.drop_of_length_le mt.dirty_length.le, List.append_nil]
  rfl

theorem build_toArrays (env : ScanEnv) (store : Storage) (mt : MerkleTree h.sum) :
    mt.toArrays.build h env store =
      some ((mt.build env store).1, (mt.build env store).2.toArrays) := by
  have hscan : ∀ (records : List (Bytes × SiblingSet)) (mt : MerkleTree h.sum),
      exec (fun mt p => mt.updateKey h p.1 (some p.2)) mt.toArrays records =
        some (records.foldl (fun mt p => mt.updateKey p.1 (some p.2)) mt).toArrays := by
    intro records
    induction records with
    | nil => exact fun mt => rfl
    | cons p records ih =>
      intro mt
      rw [exec, MerkleArrays.updateKey, toggleKey_toArrays]
      exact ih _
  unfold MerkleArrays.build build
  simp only [reset_toArrays, hscan, Option.bind_eq_bind, Option.bind_some]
  cases (store.scan env).2 with
  | some err => rfl
  | none =>
    simp only [rebuildTree_toArrays, Option.bind_some]
    rfl

theorem getRoot_toArrays (mt : MerkleTree h.sum) :
    mt.toArrays.getRoot h = some (mt.getRoot.1, mt.getRoot.2.toArrays) := by
  unfold MerkleArrays.getRoot getRoot
  simp only [rebuildIfNeeded_toArrays, Option.bind_eq_bind, Option.bind_some]
  have hnodes : mt.rebuildIfNeeded.toArrays.nodeHashes = mt.rebuildIfNeeded.nodeHashes := rfl
  rw [hnodes]
  cases mt.rebuildIfNeeded.nodeHashes with
  | nil => rfl
  | cons root rest => rfl

/-! ## Comparing -/

/-- Before a root is read the internal nodes are brought up to date. -/
theorem nodeHashes_rebuildIfNeeded (mt : MerkleTree h.sum) :
    mt.rebuildIfNeeded.toArrays.nodeHashes = mt.rebuildIfNeeded.toArrays.upToDate h := by
  unfold rebuildIfNeeded
  split_ifs with hdirty
  · rfl
  · exact mt.clean hdirty

theorem leaf_rebuildIfNeeded (mt : MerkleTree h.sum) :
    mt.rebuildIfNeeded.toArrays.leaf = mt.toArrays.leaf := by
  funext i
  exact congrArg (·.getD i []) mt.getRoot_snd.2

theorem depth_rebuildIfNeeded (mt : MerkleTree h.sum) :
    mt.rebuildIfNeeded.toArrays.depth = mt.depth :=
  mt.getRoot_snd.1

theorem root_rebuildIfNeeded (mt : MerkleTree h.sum) (hpos : 1 ≤ mt.depth) :
    mt.rebuildIfNeeded.toArrays.nodeHashes[0]? = some (mt.toArrays.subtree h mt.depth 0) := by
  have hlevel : 0 < mt.rebuildIfNeeded.toArrays.depth := mt.depth_rebuildIfNeeded.symm ▸ hpos
  have hroot := mt.rebuildIfNeeded.sized_toArrays.getElem?_upToDate (h := h) hlevel one_pos
  rw [MerkleArrays.subtree, leaf_rebuildIfNeeded, depth_rebuildIfNeeded] at hroot
  rw [nodeHashes_rebuildIfNeeded]
  exact hroot

/-- `Compare` on trees of one depth. -/
theorem compare_toArrays {a b : MerkleTree h.sum} (hdepth : b.depth = a.depth)
    (hpos : 1 ≤ a.depth) :
    a.toArrays.compare h b.toArrays = some
      (if a.toArrays.subtree h a.depth 0 = b.toArrays.subtree h a.depth 0 then []
        else (HashTree.diffs (hashNode h.sum) a.toArrays.leaf b.toArrays.leaf a.depth 0).map
          MerkleArrays.single,
        a.rebuildIfNeeded.toArrays, b.rebuildIfNeeded.toArrays) := by
  have hdepths : b.rebuildIfNeeded.toArrays.depth = a.rebuildIfNeeded.toArrays.depth := by
    rw [depth_rebuildIfNeeded, depth_rebuildIfNeeded, hdepth]
  have hsearch := MerkleArrays.findDifferences_eq a.rebuildIfNeeded.sized_toArrays
    b.rebuildIfNeeded.sized_toArrays hdepths a.nodeHashes_rebuildIfNeeded
    b.nodeHashes_rebuildIfNeeded (zero_add _) one_pos (Nat.lt_succ_self _)
  have hbuckets : a.rebuildIfNeeded.toArrays.numBuckets = 2 ^ a.depth :=
    congrArg (2 ^ ·) a.depth_rebuildIfNeeded
  rw [leaf_rebuildIfNeeded, leaf_rebuildIfNeeded, depth_rebuildIfNeeded, zero_mul, zero_add,
    one_mul] at hsearch
  have hsame : ¬ a.toArrays.depth ≠ b.toArrays.depth := fun hne => hne hdepth.symm
  rw [MerkleArrays.compare, if_neg hsame]
  simp only [rebuildIfNeeded_toArrays, Option.bind_eq_bind, Option.bind_some,
    a.root_rebuildIfNeeded hpos, b.root_rebuildIfNeeded (hdepth.symm ▸ hpos), bytesEqual_iff,
    depth_rebuildIfNeeded, hbuckets, hsearch, hdepth]
  split_ifs
  · rfl
  · rfl

theorem compare_of_depth_ne {a b : MerkleTree h.sum} (hdepth : b.depth ≠ a.depth) :
    a.toArrays.compare h b.toArrays = some ([⟨0, 2 ^ a.depth⟩], a.toArrays, b.toArrays) :=
  if_pos hdepth.symm

/-- `Compare` on trees without internal nodes reads a root that is not there. -/
theorem compare_of_depth_zero {a b : MerkleTree h.sum} (hdepth : b.depth = a.depth)
    (hzero : a.depth = 0) : a.toArrays.compare h b.toArrays = none := by
  have hnil : a.rebuildIfNeeded.toArrays.nodeHashes = [] := by
    refine List.eq_nil_of_length_eq_zero (a.rebuildIfNeeded.nodeHashes_length.trans ?_)
    rw [show a.rebuildIfNeeded.depth = 0 from a.depth_rebuildIfNeeded.trans hzero]
    rfl
  have hsame : ¬ a.toArrays.depth ≠ b.toArrays.depth := fun hne => hne hdepth.symm
  rw [MerkleArrays.compare, if_neg hsame]
  simp only [rebuildIfNeeded_toArrays, Option.bind_eq_bind, Option.bind_some, hnil]
  rfl

end MerkleTree

namespace MerkleArrays

variable {h : Digest}

/-- The trees that `NewMerkleTree` and calls make; a `Build` that breaks off leaves the states in the
middle of one. -/
inductive Reachable (h : Digest) : MerkleArrays → Prop
  | new {depth : ℕ} {a : MerkleArrays} : new h depth = some a → Reachable h a
  | updateKey {a a' : MerkleArrays} {key : Bytes} {siblings : Option SiblingSet} :
      Reachable h a → a.updateKey h key siblings = some a' → Reachable h a'
  | removeKey {a a' : MerkleArrays} {key : Bytes} {oldSiblings : Option SiblingSet} :
      Reachable h a → a.removeKey h key oldSiblings = some a' → Reachable h a'
  | build {a a' : MerkleArrays} {env : ScanEnv} {store : Storage} {err : Option ScanError} :
      Reachable h a → a.build h env store = some (err, a') → Reachable h a'
  | getRoot {a a' : MerkleArrays} {root : Bytes} :
      Reachable h a → a.getRoot h = some (root, a') → Reachable h a'
  | compare {a b a' b' : MerkleArrays} {ranges : List BucketRange} : Reachable h a →
      Reachable h b → a.compare h b = some (ranges, a', b') → Reachable h a'
  | compared {a b a' b' : MerkleArrays} {ranges : List BucketRange} : Reachable h a →
      Reachable h b → a.compare h b = some (ranges, a', b') → Reachable h b'

/-- What a comparison leaves of two trees. -/
theorem compare_leaves {a b : MerkleTree h.sum} {ranges : List BucketRange} {a' b' : MerkleArrays}
    (hcmp : a.toArrays.compare h b.toArrays = some (ranges, a', b')) :
    (a' = a.toArrays ∨ a' = a.rebuildIfNeeded.toArrays) ∧
      (b' = b.toArrays ∨ b' = b.rebuildIfNeeded.toArrays) := by
  by_cases hdepth : b.depth = a.depth
  · by_cases hzero : a.depth = 0
    · rw [MerkleTree.compare_of_depth_zero hdepth hzero] at hcmp
      cases hcmp
    · rw [MerkleTree.compare_toArrays hdepth (Nat.pos_of_ne_zero hzero)] at hcmp
      cases hcmp
      exact ⟨.inr rfl, .inr rfl⟩
  · rw [MerkleTree.compare_of_depth_ne hdepth] at hcmp
    cases hcmp
    exact ⟨.inl rfl, .inl rfl⟩

/-- The arrays of a reachable tree keep the invariants of `MerkleTree`. -/
theorem Reachable.exists_tree {a : MerkleArrays} (ha : Reachable h a) :
    ∃ mt : MerkleTree h.sum, a = mt.toArrays := by
  induction ha with
  | new hnew =>
    rw [MerkleTree.new_toArrays] at hnew
    exact ⟨_, (Option.some.inj hnew).symm⟩
  | updateKey _ hcall ih =>
    obtain ⟨mt, rfl⟩ := ih
    rw [MerkleArrays.updateKey, MerkleTree.toggleKey_toArrays] at hcall
    exact ⟨_, (Option.some.inj hcall).symm⟩
  | removeKey _ hcall ih =>
    obtain ⟨mt, rfl⟩ := ih
    rw [MerkleArrays.removeKey, MerkleTree.toggleKey_toArrays] at hcall
    exact ⟨_, (Option.some.inj hcall).symm⟩
  | build _ hcall ih =>
    obtain ⟨mt, rfl⟩ := ih
    rw [MerkleTree.build_toArrays] at hcall
    exact ⟨_, (congrArg Prod.snd (Option.some.inj hcall)).symm⟩
  | getRoot _ hcall ih =>
    obtain ⟨mt, rfl⟩ := ih
    rw [MerkleTree.getRoot_toArrays] at hcall
    exact ⟨_, (congrArg Prod.snd (Option.some.inj hcall)).symm⟩
  | compare _ _ hcall iha ihb =>
    obtain ⟨a, rfl⟩ := iha
    obtain ⟨b, rfl⟩ := ihb
    exact (compare_leaves hcall).1.elim (fun he => ⟨_, he⟩) fun he => ⟨_, he⟩
  | compared _ _ hcall iha ihb =>
    obtain ⟨a, rfl⟩ := iha
    obtain ⟨b, rfl⟩ := ihb
    exact (compare_leaves hcall).2.elim (fun he => ⟨_, he⟩) fun he => ⟨_, he⟩

/-- The buckets whose hashes differ, in increasing order. -/
def differingBuckets (a b : MerkleArrays) : List ℕ :=
  (List.range a.numBuckets).filter fun i => a.leafHashes[i]? ≠ b.leafHashes[i]?

/-- The hashes that are hashed in pairs: those of the leaves, and of the up-to-date internal nodes
below the root. -/
def childHashes (h : Digest) (mt : MerkleArrays) : List Bytes :=
  mt.leafHashes ++ (mt.upToDate h).tail

theorem Sized.subtree_mem_childHashes {mt : MerkleArrays} (hsized : mt.Sized) {k i : ℕ}
    (hk : k < mt.depth) (hi : i < 2 ^ (mt.depth - k)) : mt.subtree h k i ∈ mt.childHashes h := by
  rw [childHashes, List.mem_append]
  cases k with
  | zero => exact .inl (List.mem_of_getElem? (hsized.getElem?_leafHashes hi))
  | succ k =>
    have hpos : 2 ≤ 2 ^ (mt.depth - (k + 1)) := Nat.le_self_pow (by omega) 2
    have hget := hsized.getElem?_upToDate (h := h) (l := mt.depth - (k + 1)) (by omega) hi
    rw [show mt.depth - (mt.depth - (k + 1)) = k + 1 by omega,
      show 2 ^ (mt.depth - (k + 1)) - 1 + i = 2 ^ (mt.depth - (k + 1)) - 2 + i + 1 by omega,
      ← List.getElem?_tail] at hget
    exact .inr (List.mem_of_getElem? hget)

/-- The buckets that differ, as leaves of the trees. -/
theorem Sized.differingBuckets_eq {a b : MerkleArrays} (ha : a.Sized) (hb : b.Sized)
    (hdepth : b.depth = a.depth) :
    a.differingBuckets b = HashTree.differing a.leaf b.leaf a.depth 0 := by
  rw [differingBuckets, HashTree.differing, ha.numBuckets, List.range_eq_range', zero_mul]
  refine List.filter_congr fun i hi => ?_
  have hlt : i < 2 ^ a.depth := by simpa using hi
  rw [ha.getElem?_leafHashes hlt, hb.getElem?_leafHashes (hdepth.symm ▸ hlt)]
  simp only [ne_eq, Option.some.injEq]

/-- `Compare` on trees of one depth with an internal node returns buckets that differ, one by one and
in order.  It returns all of them if the node hash tells apart the pairs of hashes in the two trees. -/
theorem compare_exact {a b : MerkleArrays} (ha : Reachable h a) (hb : Reachable h b)
    (hdepth : a.depth = b.depth) (hpos : 1 ≤ a.depth) :
    ∃ ranges a' b', a.compare h b = some (ranges, a', b') ∧
      ranges.Sublist ((a.differingBuckets b).map single) ∧
      (HashTree.InjOn (hashNode h.sum) (· ∈ a.childHashes h ++ b.childHashes h) →
        ranges = (a.differingBuckets b).map single) := by
  obtain ⟨a, rfl⟩ := ha.exists_tree
  obtain ⟨b, rfl⟩ := hb.exists_tree
  refine ⟨_, _, _, MerkleTree.compare_toArrays hdepth.symm hpos, ?_, fun hinj => ?_⟩
  all_goals rw [a.sized_toArrays.differingBuckets_eq b.sized_toArrays hdepth.symm]
  · split_ifs with hroot
    · exact List.nil_sublist _
    · exact (HashTree.diffs_sublist hroot).map single
  · have hmem : ∀ k < a.depth, ∀ i < 2 ^ (a.depth - k),
        a.toArrays.subtree h k i ∈ a.toArrays.childHashes h ++ b.toArrays.childHashes h :=
      fun k hk i hi => List.mem_append_left _ (a.sized_toArrays.subtree_mem_childHashes hk hi)
    have hmem' : ∀ k < a.depth, ∀ i < 2 ^ (a.depth - k),
        b.toArrays.subtree h k i ∈ a.toArrays.childHashes h ++ b.toArrays.childHashes h := by
      intro k hk i hi
      have hdepth' : b.toArrays.depth = a.depth := hdepth.symm
      exact List.mem_append_right _ (b.sized_toArrays.subtree_mem_childHashes (hdepth' ▸ hk)
        (hdepth' ▸ hi))
    have hi : 0 < 2 ^ (a.depth - a.depth) := Nat.two_pow_pos _
    split_ifs with hroot
    · exact congrArg (List.map single)
        (HashTree.differing_eq_nil hinj hmem hmem' le_rfl hi hroot).symm
    · exact congrArg (List.map single) (HashTree.diffs_eq hinj hmem hmem' le_rfl hi hroot)

/-- A tree of four buckets, and the same after the update of one record. -/
theorem compare_after_update :
    let siblings : SiblingSet := [⟨[118], VectorClock.new.set 100 [110, 49] 1, 100, false, 0⟩]
    let a : MerkleTree Digest.sha256.sum := .new _ 2
    let b := a.updateKey [107] (some siblings)
    ∃ a' b', a.toArrays.compare .sha256 b.toArrays = some ([⟨2, 3⟩], a', b') := by
  intro siblings a b
  have ha : Reachable .sha256 a.toArrays := .new (MerkleTree.new_toArrays 2)
  have hb : Reachable .sha256 b.toArrays :=
    .updateKey ha (a.toggleKey_toArrays [107] (some siblings))
  obtain ⟨ranges, a', b', hcmp, -, hexact⟩ := compare_exact ha hb rfl one_le_two
  -- the hashes are those of an empty bucket and of the one with the key, and of the nodes over them
  let hash := hashNode Digest.sha256.sum
  let bucket := b.toArrays.leaf 2
  let hashes := [zeroHash, bucket, hash zeroHash zeroHash, hash bucket zeroHash]
  have hsub : a.toArrays.childHashes .sha256 ++ b.toArrays.childHashes .sha256 ⊆ hashes := by
    decide +kernel
  -- the first bytes tell their pairs apart
  have hbytes : (hashes ×ˢ hashes).map (fun p => (hash p.1 p.2).head?) =
      [245, 176, 182, 85, 0, 70, 128, 212, 122, 78, 219, 214, 101, 240, 173, 3].map some := by
    decide +kernel
  have hnodup : ((hashes ×ˢ hashes).map fun p => (hash p.1 p.2).head?).Nodup := by
    rw [hbytes]
    decide
  have hranges : (a.toArrays.differingBuckets b.toArrays).map single = [⟨2, 3⟩] := by decide +kernel
  rw [← hranges, ← hexact fun l r l' r' hl hr hl' hr' heq => Prod.mk.inj <|
    List.inj_on_of_nodup_map hnodup (List.pair_mem_product.2 ⟨hsub hl, hsub hr⟩)
      (List.pair_mem_product.2 ⟨hsub hl', hsub hr'⟩) (congrArg List.head? heq)]
  exact ⟨a', b', hcmp⟩

end MerkleArrays

/-! ## Roots of call histories -/

/-- The calls on a tree; a comparison has it on either side, the other tree being a reachable one. -/
inductive TreeCall (h : Digest)
  | updateKey (key : Bytes) (siblings : Option SiblingSet)
  | removeKey (key : Bytes) (oldSiblings : Option SiblingSet)
  | getRoot
  | compare (other : { a // MerkleArrays.Reachable h a })
  | comparedBy (other : { a // MerkleArrays.Reachable h a })

namespace TreeCall

variable {h : Digest}

/-- The tree after a call. -/
def run (mt : MerkleArrays) : TreeCall h → Option MerkleArrays
  | updateKey key siblings => mt.updateKey h key siblings
  | removeKey key oldSiblings => mt.removeKey h key oldSiblings
  | getRoot => (mt.getRoot h).map Prod.snd
  | compare other => (mt.compare h other).map fun r => r.2.1
  | comparedBy other => (other.1.compare h mt).map fun r => r.2.2

/-- The arguments of an update or a removal; nil changes nothing. -/
def toggled : TreeCall h → Option (Bytes × SiblingSet)
  | updateKey key siblings => siblings.map fun s => (key, s)
  | removeKey key oldSiblings => oldSiblings.map fun s => (key, s)
  | _ => none

/-- The updates and removals of a history. -/
def toggles (calls : List (TreeCall h)) : List (Bytes × SiblingSet) := calls.filterMap toggled

/-- What `GetRoot` returns on a new tree after some calls. -/
def rootAfter (depth : ℕ) (calls : List (TreeCall h)) : Option Bytes := do
  let mt ← MerkleArrays.new h depth
  let mt ← exec run mt calls
  let (root, _) ← mt.getRoot h
  return root

end TreeCall

/-- The hash of a bucket: the exclusive or of the contributions toggled an odd number of times. -/
def eagerLeaf (h : Digest) (depth : ℕ) (history : List (Bytes × SiblingSet)) (bucket : ℕ) : Bytes :=
  ((oddlyOften history).filter fun p => keyToBucket h.sum depth p.1 = bucket).foldl
    (fun leaf p => xorInto leaf (h.sum (leafInput p.1 p.2))) zeroHash

/-- The root of the complete binary tree over these buckets. -/
def eagerRoot (h : Digest) (depth : ℕ) (history : List (Bytes × SiblingSet)) : Bytes :=
  HashTree.subtree (hashNode h.sum) (eagerLeaf h depth history) depth 0

/-- The buckets after a history are those of the eager tree. -/
theorem leavesOf_eq_eagerLeaf (h : Digest) (depth : ℕ) (history : List (Bytes × SiblingSet))
    {bucket : ℕ} (hlt : bucket < 2 ^ depth) :
    (MerkleTree.leavesOf h.sum depth history)[bucket]? = some (eagerLeaf h depth history bucket) := by
  have hempty : (emptyLeaves depth)[bucket]? = some zeroHash := by
    rw [emptyLeaves, List.getElem?_replicate, if_pos hlt]
  rw [MerkleTree.leavesOf, foldl_oddlyOften _ (toggleLeaf_cancel h.sum depth),
    getElem?_foldl_toggleLeaf, hempty]
  rfl

theorem headD_heap_leavesOf (h : Digest) {depth : ℕ} (hdepth : 1 ≤ depth)
    (history : List (Bytes × SiblingSet)) :
    (HashTree.heap (hashNode h.sum) depth (MerkleTree.leavesOf h.sum depth history)).headD zeroHash =
      eagerRoot h depth history := by
  have hroot := HashTree.getElem?_heap (hashNode h.sum)
    (MerkleTree.length_leavesOf h.sum depth history) (fun _ => leavesOf_eq_eagerLeaf h depth history)
    (l := 0) hdepth one_pos
  rw [List.headD_eq_head?_getD, List.head?_eq_getElem?, show 0 = 2 ^ 0 - 1 + 0 from rfl, hroot]
  rfl

namespace TreeCall

variable {h : Digest}

/-- A call toggles its contribution and changes no other bucket. -/
theorem run_toArrays {mt : MerkleTree h.sum} (hpos : 1 ≤ mt.depth) (call : TreeCall h) :
    ∃ mt' : MerkleTree h.sum, run mt.toArrays call = some mt'.toArrays ∧ mt'.depth = mt.depth ∧
      mt'.leafHashes = (toggled call).toList.foldl (toggleLeaf h.sum mt.depth) mt.leafHashes := by
  have htoggle : ∀ key (siblings : Option SiblingSet), ∃ mt' : MerkleTree h.sum,
      mt.toArrays.toggleKey h key siblings = some mt'.toArrays ∧ mt'.depth = mt.depth ∧
      mt'.leafHashes = (siblings.map fun s => (key, s)).toList.foldl
        (toggleLeaf h.sum mt.depth) mt.leafHashes := by
    intro key siblings
    refine ⟨_, mt.toggleKey_toArrays key siblings, ?_⟩
    cases siblings with
    | none => exact ⟨rfl, rfl⟩
    | some siblings => exact ⟨rfl, rfl⟩
  cases call with
  | updateKey key siblings => exact htoggle key siblings
  | removeKey key oldSiblings => exact htoggle key oldSiblings
  | getRoot =>
    refine ⟨mt.getRoot.2, ?_, mt.getRoot_snd.1, mt.getRoot_snd.2⟩
    rw [run, mt.getRoot_toArrays]
    rfl
  | compare other =>
    obtain ⟨other, ho⟩ := other
    obtain ⟨b, rfl⟩ := ho.exists_tree
    by_cases hdepth : b.depth = mt.depth
    · refine ⟨mt.rebuildIfNeeded, ?_, mt.getRoot_snd.1, mt.getRoot_snd.2⟩
      rw [run, MerkleTree.compare_toArrays hdepth hpos]
      rfl
    · refine ⟨mt, ?_, rfl, rfl⟩
      rw [run, MerkleTree.compare_of_depth_ne hdepth]
      rfl
  | comparedBy other =>
    obtain ⟨other, ho⟩ := other
    obtain ⟨b, rfl⟩ := ho.exists_tree
    by_cases hdepth : mt.depth = b.depth
    · refine ⟨mt.rebuildIfNeeded, ?_, mt.getRoot_snd.1, mt.getRoot_snd.2⟩
      rw [run, MerkleTree.compare_toArrays hdepth (hdepth ▸ hpos)]
      rfl
    · refine ⟨mt, ?_, rfl, rfl⟩
      rw [run, MerkleTree.compare_of_depth_ne hdepth]
      rfl

/-- Calls toggle the contributions of the updates and removals among them. -/
theorem exec_toArrays (calls : List (TreeCall h)) {mt : MerkleTree h.sum} (hpos : 1 ≤ mt.depth) :
    ∃ mt' : MerkleTree h.sum, exec run mt.toArrays calls = some mt'.toArrays ∧
      mt'.depth = mt.depth ∧
      mt'.leafHashes = (toggles calls).foldl (toggleLeaf h.sum mt.depth) mt.leafHashes := by
  induction calls generalizing mt with
  | nil => exact ⟨mt, rfl, rfl, rfl⟩
  | cons call calls ih =>
    obtain ⟨mid, hrun, hdepth, hleaves⟩ := run_toArrays hpos call
    obtain ⟨mt', hexec, hdepth', hleaves'⟩ := ih (hdepth.symm ▸ hpos)
    refine ⟨mt', by rw [exec, hrun, Option.bind_some, hexec], hdepth'.trans hdepth, ?_⟩
    have hsplit : toggles (call :: calls) = (toggled call).toList ++ toggles calls := by
      rw [toggles, List.filterMap_cons]
      cases toggled call with
      | none => rfl
      | some p => rfl
    rw [hsplit, List.foldl_append, ← hleaves, hleaves', hdepth]

/-- The root after some calls, from the contributions they toggle. -/
theorem rootAfter_eq {depth : ℕ} (hdepth : 1 ≤ depth) (calls : List (TreeCall h)) :
    rootAfter depth calls = some ((HashTree.heap (hashNode h.sum) depth
      (MerkleTree.leavesOf h.sum depth (toggles calls))).headD zeroHash) := by
  obtain ⟨mt, hexec, hmt, hleaves⟩ :=
    exec_toArrays calls (show 1 ≤ (MerkleTree.new h.sum depth).depth from hdepth)
  simp only [rootAfter, MerkleTree.new_toArrays, hexec, mt.getRoot_toArrays, Option.bind_eq_bind,
    Option.bind_some]
  rw [mt.getRoot_fst, hleaves, hmt]
  rfl

/-- The root after any calls is that of the eager tree, so it depends neither on their order nor on
where roots were read in between. -/
theorem lazy_root_is_eager {depth : ℕ} (hdepth : 1 ≤ depth) (calls : List (TreeCall h)) :
    rootAfter depth calls = some (eagerRoot h depth (toggles calls)) ∧
      ∀ calls' : List (TreeCall h), (toggles calls').Perm (toggles calls) →
        rootAfter depth calls' = rootAfter depth calls := by
  constructor
  · rw [rootAfter_eq hdepth, headD_heap_leavesOf h hdepth]
  · intro calls' hperm
    rw [rootAfter_eq hdepth, rootAfter_eq hdepth, MerkleTree.leavesOf_perm hperm]

/-- An update and its removal around a read of the root. -/
theorem root_after_update_and_removal :
    let calls : List (TreeCall Digest.sha256) :=
      [.updateKey [107] (some []), .getRoot, .updateKey [108] (some []), .removeKey [107] (some [])]
    rootAfter 2 calls = rootAfter 2 [(.updateKey [108] (some []) : TreeCall Digest.sha256)] := by
  intro calls
  have hodd : oddlyOften (toggles calls) =
      oddlyOften (toggles [(.updateKey [108] (some []) : TreeCall Digest.sha256)]) := by decide
  rw [(lazy_root_is_eager (by decide) calls).1, (lazy_root_is_eager (by decide) _).1]
  unfold eagerRoot eagerLeaf
  rw [hodd]

end TreeCall

end GoQuorum
