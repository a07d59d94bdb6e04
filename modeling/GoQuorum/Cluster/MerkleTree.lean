import GoQuorum.Lib.HashTree
import GoQuorum.Lib.Sha256
import GoQuorum.Storage.Put

/-!
# The Merkle tree of a node

`internal/cluster/merkle_tree.go`.  Keys fall into `2 ^ depth` buckets; the hash of a bucket is the
exclusive or of one hash for each key, so that an update toggles a single contribution.  Internal
nodes are recomputed when a root is asked for and some bucket has been touched since.

The code hashes with SHA-256; the tree takes the hash function as a parameter.  The invariants of the
arrays are fields of the structure, among them that untouched trees have up-to-date internal nodes.
-/

namespace GoQuorum

open Lib

/-! ## Scanning a store -/

/-- The errors of `Scan`. -/
inductive ScanError where
  | storageClosed
  | createIterator (err : PebbleError)
  | iterator (err : PebbleError)
  deriving DecidableEq, Repr

/-- What a scan meets: whether Pebble makes an iterator, and where the iterator breaks off. -/
structure ScanEnv where
  newIterError : Option PebbleError
  iterError : Option (ℕ × PebbleError)

/-- A scan that Pebble lets finish. -/
def ScanEnv.quiet : ScanEnv := ⟨none, none⟩

/-- What a scan makes of one record: one that does not decode is passed over. -/
def scanRecord (p : Bytes × Bytes) : Option (Bytes × SiblingSet) :=
  (decodeSiblingSet p.2).toOption.map fun siblings => (p.1, siblings)

/-- `Scan` over all keys with a callback that always continues: what the callback is given, and the
error. -/
def Storage.scan (env : ScanEnv) (s : Storage) : List (Bytes × SiblingSet) × Option ScanError :=
  if s.closed then ([], some .storageClosed)
  else
    match env.newIterError with
    | some err => ([], some (.createIterator err))
    | none =>
      match env.iterError with
      | some (n, err) => ((s.db.toList.take n).filterMap scanRecord, some (.iterator err))
      | none => (s.db.toList.filterMap scanRecord, none)

/-- All records of a store that decode. -/
def Storage.records (s : Storage) : List (Bytes × SiblingSet) := s.db.toList.filterMap scanRecord

/-- A scan without error has gone through all records. -/
theorem Storage.scan_eq {env : ScanEnv} {s : Storage} (h : (s.scan env).2 = none) :
    (s.scan env).1 = s.records := by
  unfold Storage.scan at h ⊢
  split_ifs at h ⊢
  cases hn : env.newIterError with
  | some err =>
    rw [hn] at h
    cases h
  | none =>
    rw [hn] at h
    cases hi : env.iterError with
    | some p =>
      rw [hi] at h
      cases h
    | none => rfl

theorem Storage.scan_quiet {s : Storage} (h : s.closed = false) :
    s.scan ScanEnv.quiet = (s.records, none) := by
  rw [Storage.scan, h]
  rfl

/-- A scan gives the callback records of the store, in order. -/
theorem Storage.scan_sublist (env : ScanEnv) (s : Storage) : (s.scan env).1.Sublist s.records := by
  unfold Storage.scan
  split_ifs
  · exact List.nil_sublist _
  · cases env.newIterError with
    | some err => exact List.nil_sublist _
    | none =>
      cases env.iterError with
      | some p => exact (List.take_sublist p.1 _).filterMap scanRecord
      | none => exact List.Sublist.refl _

/-- The records of a store have different keys. -/
theorem Storage.nodup_keys_records (s : Storage) : (s.records.map Prod.fst).Nodup := by
  have hsub : ∀ l : List (Bytes × Bytes),
      ((l.filterMap scanRecord).map Prod.fst).Sublist (l.map Prod.fst) := by
    intro l
    induction l with
    | nil => exact List.Sublist.refl _
    | cons p l ih =>
      rw [List.filterMap_cons]
      split
      · exact ih.cons p.1
      · rename_i r hr
        obtain ⟨set, -, rfl⟩ := Option.map_eq_some_iff.1 hr
        exact ih.cons_cons p.1
  exact (hsub s.db.toList).nodup (SortedMap.nodup_keys s.db)

/-! ## Contributions of keys -/

/-- What `toggleKey` feeds to the hash. -/
def leafInput (key : Bytes) (siblings : SiblingSet) : Bytes :=
  key ++ siblings.flatMap fun sib => sib.vclock.string ++ sib.value

/-- The loop of `toggleKey` that adds a hash to that of a bucket. -/
def xorInto (leaf hash : Bytes) : Bytes := leaf.mapIdx fun i b => b ^^^ hash.getD i 0

theorem length_xorInto (leaf hash : Bytes) : (xorInto leaf hash).length = leaf.length :=
  List.length_mapIdx

theorem xorInto_right_comm (leaf h₁ h₂ : Bytes) :
    xorInto (xorInto leaf h₁) h₂ = xorInto (xorInto leaf h₂) h₁ := by
  unfold xorInto
  rw [List.mapIdx_mapIdx, List.mapIdx_mapIdx]
  congr 1
  funext i b
  simp only [Function.comp_apply, UInt8.xor_assoc, UInt8.xor_comm (h₁.getD i 0)]

theorem xorInto_cancel (leaf hash : Bytes) : xorInto (xorInto leaf hash) hash = leaf := by
  unfold xorInto
  rw [List.mapIdx_mapIdx]
  refine List.ext_getElem? fun i => ?_
  rw [List.getElem?_mapIdx]
  cases leaf[i]? with
  | none => rfl
  | some b =>
    refine congrArg some ?_
    simp only [Function.comp_apply]
    rw [UInt8.xor_assoc, UInt8.xor_self, UInt8.xor_zero]

section

variable (hash : Bytes → Bytes)

/-- `keyToBucket`. -/
def keyToBucket (depth : ℕ) (key : Bytes) : ℕ := beNat ((hash key).take 8) % 2 ^ depth

theorem keyToBucket_lt (depth : ℕ) (key : Bytes) : keyToBucket hash depth key < 2 ^ depth :=
  Nat.mod_lt _ (Nat.two_pow_pos depth)

/-- What `toggleKey` does to the hashes of the buckets. -/
def toggleLeaf (depth : ℕ) (leafHashes : List Bytes) (p : Bytes × SiblingSet) : List Bytes :=
  leafHashes.modify (keyToBucket hash depth p.1) fun leaf => xorInto leaf (hash (leafInput p.1 p.2))

theorem length_toggleLeaf (depth : ℕ) (leafHashes : List Bytes) (p : Bytes × SiblingSet) :
    (toggleLeaf hash depth leafHashes p).length = leafHashes.length :=
  List.length_modify _ _ _

/-- A contribution changes the bucket of its key. -/
theorem getElem?_toggleLeaf (depth : ℕ) (leafHashes : List Bytes) (p : Bytes × SiblingSet) (i : ℕ) :
    (toggleLeaf hash depth leafHashes p)[i]? = leafHashes[i]?.map fun leaf =>
      if keyToBucket hash depth p.1 = i then xorInto leaf (hash (leafInput p.1 p.2)) else leaf := by
  unfold toggleLeaf
  rw [List.getElem?_modify]
  split_ifs
  · rfl
  · simp

/-- The order in which contributions are added does not matter. -/
theorem toggleLeaf_right_comm (depth : ℕ) (leafHashes : List Bytes) (p q : Bytes × SiblingSet) :
    toggleLeaf hash depth (toggleLeaf hash depth leafHashes p) q =
      toggleLeaf hash depth (toggleLeaf hash depth leafHashes q) p := by
  refine List.ext_getElem? fun i => ?_
  simp only [getElem?_toggleLeaf, Option.map_map]
  congr 1
  funext leaf
  simp only [Function.comp_apply]
  split_ifs
  · rw [xorInto_right_comm]
  all_goals rfl

/-- A contribution added twice is gone. -/
theorem toggleLeaf_cancel (depth : ℕ) (leafHashes : List Bytes) (p : Bytes × SiblingSet) :
    toggleLeaf hash depth (toggleLeaf hash depth leafHashes p) p = leafHashes := by
  refine List.ext_getElem? fun i => ?_
  simp only [getElem?_toggleLeaf, Option.map_map]
  refine (congrArg (Option.map · leafHashes[i]?) (funext fun leaf => ?_)).trans Option.map_id'
  simp only [Function.comp_apply]
  split_ifs
  · exact xorInto_cancel _ _
  · rfl

/-- What toggling a list of contributions makes of one bucket. -/
theorem getElem?_foldl_toggleLeaf (depth : ℕ) (history : List (Bytes × SiblingSet))
    (leafHashes : List Bytes) (bucket : ℕ) :
    (history.foldl (toggleLeaf hash depth) leafHashes)[bucket]? =
      leafHashes[bucket]?.map fun leaf =>
        (history.filter fun p => keyToBucket hash depth p.1 = bucket).foldl
          (fun leaf p => xorInto leaf (hash (leafInput p.1 p.2))) leaf := by
  induction history generalizing leafHashes with
  | nil => simp
  | cons p history ih =>
    rw [List.foldl_cons, ih, getElem?_toggleLeaf, Option.map_map, List.filter_cons]
    congr 1
    funext leaf
    simp only [Function.comp_apply, decide_eq_true_eq]
    split_ifs
    · rfl
    · rfl

/-- The hash of two children. -/
def hashNode (left right : Bytes) : Bytes := hash (left ++ right)

end

/-! ## The tree -/

/-- `MerkleTree`. -/
structure MerkleTree (hash : Bytes → Bytes) where
  depth : ℕ
  leafHashes : List Bytes
  nodeHashes : List Bytes
  dirty : List Bool
  leafHashes_length : leafHashes.length = 2 ^ depth
  leafHash_length : ∀ leaf ∈ leafHashes, leaf.length = 32
  nodeHashes_length : nodeHashes.length = 2 ^ depth - 1
  dirty_length : dirty.length = 2 ^ depth
  clean : true ∉ dirty → nodeHashes = HashTree.heap (hashNode hash) depth leafHashes

/-- `make([]byte, 32)`. -/
def zeroHash : Bytes := List.replicate 32 0

/-- The hashes of empty buckets. -/
def emptyLeaves (depth : ℕ) : List Bytes := List.replicate (2 ^ depth) zeroHash

theorem length_of_mem_emptyLeaves {depth : ℕ} {leaf : Bytes} (h : leaf ∈ emptyLeaves depth) :
    leaf.length = 32 := by
  rw [(List.mem_replicate.1 h).2]
  rfl

theorem length_of_mem_toggleLeaf {hash : Bytes → Bytes} {depth : ℕ} {leafHashes : List Bytes}
    {p : Bytes × SiblingSet} (h : ∀ leaf ∈ leafHashes, leaf.length = 32) :
    ∀ leaf ∈ toggleLeaf hash depth leafHashes p, leaf.length = 32 := by
  intro leaf hleaf
  unfold toggleLeaf at hleaf
  obtain ⟨i, hi, rfl⟩ := List.mem_iff_getElem.1 hleaf
  rw [List.getElem_modify]
  split_ifs
  · rw [length_xorInto]
    exact h _ (List.getElem_mem _)
  · exact h _ (List.getElem_mem _)

namespace MerkleTree

variable {hash : Bytes → Bytes}

/-- `NewMerkleTree`. -/
def new (hash : Bytes → Bytes) (depth : ℕ) : MerkleTree hash where
  depth := depth
  leafHashes := emptyLeaves depth
  nodeHashes := HashTree.heap (hashNode hash) depth (emptyLeaves depth)
  dirty := List.replicate (2 ^ depth) false
  leafHashes_length := List.length_replicate
  leafHash_length := fun _ => length_of_mem_emptyLeaves
  nodeHashes_length := HashTree.length_heap _ List.length_replicate
  dirty_length := List.length_replicate
  clean := fun _ => rfl

/-- `rebuildTree`. -/
def rebuildTree (mt : MerkleTree hash) : MerkleTree hash :=
  { mt with
    nodeHashes := HashTree.heap (hashNode hash) mt.depth mt.leafHashes
    dirty := List.replicate (2 ^ mt.depth) false
    nodeHashes_length := HashTree.length_heap _ mt.leafHashes_length
    dirty_length := List.length_replicate
    clean := fun _ => rfl }

/-- `rebuildIfNeeded`. -/
def rebuildIfNeeded (mt : MerkleTree hash) : MerkleTree hash :=
  if true ∈ mt.dirty then mt.rebuildTree else mt

/-- `toggleKey`; a nil set changes nothing. -/
def toggleKey (mt : MerkleTree hash) (key : Bytes) : Option SiblingSet → MerkleTree hash
  | none => mt
  | some siblings =>
    { mt with
      leafHashes := toggleLeaf hash mt.depth mt.leafHashes (key, siblings)
      dirty := mt.dirty.set (keyToBucket hash mt.depth key) true
      leafHashes_length := (length_toggleLeaf hash _ _ _).trans mt.leafHashes_length
      leafHash_length := length_of_mem_toggleLeaf mt.leafHash_length
      dirty_length := List.length_set.trans mt.dirty_length
      clean := fun h => absurd (List.mem_set
        (mt.dirty_length.symm ▸ keyToBucket_lt hash mt.depth key) true) h }

/-- `UpdateKey`. -/
def updateKey (mt : MerkleTree hash) (key : Bytes) (siblings : Option SiblingSet) :
    MerkleTree hash :=
  mt.toggleKey key siblings

/-- `RemoveKey`. -/
def removeKey (mt : MerkleTree hash) (key : Bytes) (oldSiblings : Option SiblingSet) :
    MerkleTree hash :=
  mt.toggleKey key oldSiblings

/-- `GetRoot`: the root, and the tree with its internal nodes up to date. -/
def getRoot (mt : MerkleTree hash) : Bytes × MerkleTree hash :=
  (mt.rebuildIfNeeded.nodeHashes.headD zeroHash, mt.rebuildIfNeeded)

/-- The start of `Build`: every bucket empty and dirty. -/
def reset (mt : MerkleTree hash) : MerkleTree hash :=
  { mt with
    leafHashes := emptyLeaves mt.depth
    dirty := List.replicate (2 ^ mt.depth) true
    leafHashes_length := List.length_replicate
    leafHash_length := fun _ => length_of_mem_emptyLeaves
    dirty_length := List.length_replicate
    clean := fun h => absurd
      (List.mem_replicate.2 ⟨(Nat.two_pow_pos mt.depth).ne.symm, rfl⟩) h }

/-- `Build`: the error of the scan, and the tree it leaves. -/
def build (env : ScanEnv) (store : Storage) (mt : MerkleTree hash) :
    Option ScanError × MerkleTree hash :=
  let scan := store.scan env
  let updated := scan.1.foldl (fun mt p => mt.updateKey p.1 (some p.2)) mt.reset
  match scan.2 with
  | some err => (some err, updated)
  | none => (none, updated.rebuildTree)

/-! ## What the buckets hold -/

theorem leafHashes_foldl_updateKey (records : List (Bytes × SiblingSet)) (mt : MerkleTree hash) :
    (records.foldl (fun mt p => mt.updateKey p.1 (some p.2)) mt).leafHashes =
        records.foldl (toggleLeaf hash mt.depth) mt.leafHashes ∧
      (records.foldl (fun mt p => mt.updateKey p.1 (some p.2)) mt).depth = mt.depth := by
  induction records generalizing mt with
  | nil => exact ⟨rfl, rfl⟩
  | cons p records ih => exact ih (mt.updateKey p.1 (some p.2))

/-- The hashes of the buckets after a complete scan. -/
def leavesOf (hash : Bytes → Bytes) (depth : ℕ) (records : List (Bytes × SiblingSet)) :
    List Bytes :=
  records.foldl (toggleLeaf hash depth) (emptyLeaves depth)

theorem length_leavesOf (hash : Bytes → Bytes) (depth : ℕ) (records : List (Bytes × SiblingSet)) :
    (leavesOf hash depth records).length = 2 ^ depth := by
  have hfold : ∀ leafHashes : List Bytes,
      (records.foldl (toggleLeaf hash depth) leafHashes).length = leafHashes.length := by
    induction records with
    | nil => exact fun _ => rfl
    | cons p records ih => exact fun _ => (ih _).trans (length_toggleLeaf hash depth _ p)
  exact (hfold _).trans List.length_replicate

instance rightCommutative_toggleLeaf (hash : Bytes → Bytes) (depth : ℕ) :
    RightCommutative (toggleLeaf hash depth) :=
  ⟨toggleLeaf_right_comm hash depth⟩

theorem leavesOf_perm {depth : ℕ} {l m : List (Bytes × SiblingSet)} (h : l.Perm m) :
    leavesOf hash depth l = leavesOf hash depth m :=
  h.foldl_eq _

theorem leavesOf_cons (depth : ℕ) (p : Bytes × SiblingSet) (l : List (Bytes × SiblingSet)) :
    leavesOf hash depth (p :: l) = toggleLeaf hash depth (leavesOf hash depth l) p := by
  rw [leavesOf_perm (List.perm_append_singleton p l).symm, leavesOf, List.foldl_append]
  rfl

/-- The contribution of one record, apart from those of the others. -/
theorem leavesOf_records {depth : ℕ} {s : Storage} {key data : Bytes} {set : SiblingSet}
    (hget : s.db.get? key = some data) (hdec : decodeSiblingSet data = .ok set) :
    leavesOf hash depth s.records = toggleLeaf hash depth
      (leavesOf hash depth ({ s with db := s.db.erase key } : Storage).records) (key, set) := by
  have hscan : scanRecord (key, data) = some (key, set) := by
    rw [scanRecord, hdec]
    rfl
  have hperm := (SortedMap.toList_perm_cons_erase hget).filterMap scanRecord
  rw [List.filterMap_cons_some hscan] at hperm
  rw [← leavesOf_cons]
  exact leavesOf_perm hperm

/-- A record under a new key adds its contribution. -/
theorem leavesOf_insert_new {depth : ℕ} {s : Storage} {key data : Bytes} {set : SiblingSet}
    (hnone : s.db.get? key = none) (hdec : decodeSiblingSet data = .ok set) :
    leavesOf hash depth ({ s with db := s.db.insert key data } : Storage).records =
      toggleLeaf hash depth (leavesOf hash depth s.records) (key, set) := by
  rw [leavesOf_records (SortedMap.get?_insert_self s.db key data) hdec]
  dsimp only
  rw [SortedMap.erase_insert, SortedMap.erase_of_get?_eq_none hnone]

/-- A record with the text of the one it replaces changes nothing. -/
theorem leavesOf_insert_same {depth : ℕ} {s : Storage} {key data data' : Bytes}
    {set set' : SiblingSet} (hget : s.db.get? key = some data)
    (hdec : decodeSiblingSet data = .ok set) (hdec' : decodeSiblingSet data' = .ok set')
    (htext : leafInput key set' = leafInput key set) :
    leavesOf hash depth ({ s with db := s.db.insert key data' } : Storage).records =
      leavesOf hash depth s.records := by
  rw [leavesOf_records (SortedMap.get?_insert_self s.db key data') hdec',
    leavesOf_records hget hdec]
  dsimp only
  rw [SortedMap.erase_insert, toggleLeaf, toggleLeaf, htext]

/-- `Build` without error leaves the contributions of all records of the store. -/
theorem leafHashes_build {env : ScanEnv} {store : Storage} {mt : MerkleTree hash}
    (h : (mt.build env store).1 = none) :
    (mt.build env store).2.leafHashes = leavesOf hash mt.depth store.records ∧
      (mt.build env store).2.depth = mt.depth := by
  unfold build at h ⊢
  dsimp only at h ⊢
  cases herr : (store.scan env).2 with
  | some err =>
    rw [herr] at h
    cases h
  | none =>
    rw [Storage.scan_eq herr]
    exact leafHashes_foldl_updateKey store.records mt.reset

/-- The root depends on the hashes of the buckets only. -/
theorem getRoot_fst (mt : MerkleTree hash) :
    mt.getRoot.1 = (HashTree.heap (hashNode hash) mt.depth mt.leafHashes).headD zeroHash := by
  unfold getRoot rebuildIfNeeded
  split_ifs with h
  · rfl
  · rw [mt.clean h]

/-- Asking for the root changes neither the depth nor the hashes of the buckets. -/
theorem getRoot_snd (mt : MerkleTree hash) :
    mt.getRoot.2.depth = mt.depth ∧ mt.getRoot.2.leafHashes = mt.leafHashes := by
  unfold getRoot rebuildIfNeeded
  dsimp only
  split_ifs
  · exact ⟨rfl, rfl⟩
  · exact ⟨rfl, rfl⟩

end MerkleTree

end GoQuorum
