import GoQuorum.Cluster.MerkleTree
import GoQuorum.Lib.Loops
import GoQuorum.Lib.Runs

/-!
# The arrays of the Merkle tree

`internal/cluster/merkle_tree.go` as it works on its arrays: loops over indices, where an index out
of range makes the operation fail.  The internal nodes are rebuilt level by level from the leaves up
(`rebuildTree_eq`), and `Compare` descends from the root to the buckets that differ
(`findDifferences_eq`).
-/

namespace GoQuorum

open Lib

/-! ## Operations -/

/-- A hash function with digests of 32 bytes. -/
structure Digest where
  sum : Bytes → Bytes
  length_sum : ∀ data, (sum data).length = 32

/-- The hash function of the code. -/
def Digest.sha256 : Digest where
  sum := Lib.sha256
  length_sum := length_sha256

/-- `MerkleTree`, as its arrays alone. -/
structure MerkleArrays where
  depth : ℕ
  numBuckets : ℕ
  leafHashes : List Bytes
  nodeHashes : List Bytes
  dirty : List Bool
  deriving DecidableEq

/-- `BucketRange`. -/
structure BucketRange where
  start : ℕ
  stop : ℕ
  deriving DecidableEq

/-- `bytesEqual`. -/
def bytesEqual (a b : Bytes) : Bool :=
  if a.length ≠ b.length then false else (List.range a.length).all fun i => a[i]? = b[i]?

/-- The body of the loop of `toggleKey` over the bytes of a leaf. -/
def xorByte (hash : Bytes) (i : ℕ) (leaf : Bytes) : Option Bytes := do
  let x ← leaf[i]?
  let y ← hash[i]?
  setAt leaf i (x ^^^ y)

/-- The loop of `toggleKey` over the bytes of a leaf. -/
def xorLoop (hash leaf : Bytes) : Option Bytes := forUp 32 (xorByte hash) leaf

/-- The hashes of two children. -/
def readPair (hashes : List Bytes) (leftIdx rightIdx : ℕ) : Option (Bytes × Bytes) := do
  let leftHash ← hashes[leftIdx]?
  let rightHash ← hashes[rightIdx]?
  return (leftHash, rightHash)

namespace MerkleArrays

/-- The hashes of two children, which are leaves or internal nodes, with the indices for either
case. -/
def children (mt : MerkleArrays) (leaves : Bool) (leafIdx nodeIdx : ℕ × ℕ) :
    Option (Bytes × Bytes) :=
  if leaves then readPair mt.leafHashes leafIdx.1 leafIdx.2
  else readPair mt.nodeHashes nodeIdx.1 nodeIdx.2

variable (h : Digest)

/-- The body of the inner loop of `rebuildTree`: the node `i` of a level from its children. -/
def rebuildNode (level i : ℕ) (mt : MerkleArrays) : Option MerkleArrays := do
  let leftIdx := 2 * i
  let rightIdx := 2 * i + 1
  let childStartIdx := 2 ^ (level + 1) - 1
  let (leftHash, rightHash) ← mt.children (level + 1 = mt.depth) (leftIdx, rightIdx)
    (childStartIdx + leftIdx, childStartIdx + rightIdx)
  let nodeIdx := 2 ^ level - 1 + i
  let nodeHashes ← setAt mt.nodeHashes nodeIdx (h.sum (leftHash ++ rightHash))
  return { mt with nodeHashes := nodeHashes }

/-- `rebuildTree`. -/
def rebuildTree (mt : MerkleArrays) : Option MerkleArrays := do
  let mt ← forDown mt.depth (fun level => forUp (2 ^ level) (rebuildNode h level)) mt
  return { mt with dirty := mt.dirty.map fun _ => false }

/-- `NewMerkleTree`; the internal nodes are nil at first. -/
def new (depth : ℕ) : Option MerkleArrays :=
  let numBuckets := 2 ^ depth
  rebuildTree h ⟨depth, numBuckets, List.replicate numBuckets zeroHash,
    List.replicate (numBuckets - 1) [], List.replicate numBuckets false⟩

/-- `rebuildIfNeeded`. -/
def rebuildIfNeeded (mt : MerkleArrays) : Option MerkleArrays :=
  if mt.dirty.any id then mt.rebuildTree h else some mt

/-- `keyToBucket`. -/
def bucketOf (mt : MerkleArrays) (key : Bytes) : ℕ := beNat ((h.sum key).take 8) % mt.numBuckets

/-- `toggleKey`. -/
def toggleKey (mt : MerkleArrays) (key : Bytes) : Option SiblingSet → Option MerkleArrays
  | none => some mt
  | some siblings => do
    let bucket := mt.bucketOf h key
    let hash := h.sum (leafInput key siblings)
    let leaf ← mt.leafHashes[bucket]?
    let toggled ← xorLoop hash leaf
    let leafHashes ← setAt mt.leafHashes bucket toggled
    let dirty ← setAt mt.dirty bucket true
    return { mt with leafHashes := leafHashes, dirty := dirty }

/-- `UpdateKey`. -/
def updateKey (mt : MerkleArrays) (key : Bytes) (siblings : Option SiblingSet) :
    Option MerkleArrays :=
  mt.toggleKey h key siblings

/-- `RemoveKey`. -/
def removeKey (mt : MerkleArrays) (key : Bytes) (oldSiblings : Option SiblingSet) :
    Option MerkleArrays :=
  mt.toggleKey h key oldSiblings

/-- The body of the loop of `Build` that empties the buckets. -/
def resetBucket (i : ℕ) (mt : MerkleArrays) : Option MerkleArrays := do
  let leafHashes ← setAt mt.leafHashes i zeroHash
  let dirty ← setAt mt.dirty i true
  return { mt with leafHashes := leafHashes, dirty := dirty }

/-- The loop of `Build` that empties the buckets. -/
def reset (mt : MerkleArrays) : Option MerkleArrays := forUp mt.numBuckets resetBucket mt

/-- `Build`. -/
def build (env : ScanEnv) (store : Storage) (mt : MerkleArrays) :
    Option (Option ScanError × MerkleArrays) := do
  let reset ← mt.reset
  let scan := store.scan env
  let updated ← exec (fun mt p => mt.updateKey h p.1 (some p.2)) reset scan.1
  match scan.2 with
  | some err => return (some err, updated)
  | none =>
    let built ← updated.rebuildTree h
    return (none, built)

/-- `GetRoot`: the root, and the tree as it leaves it. -/
def getRoot (mt : MerkleArrays) : Option (Bytes × MerkleArrays) := do
  let mt ← mt.rebuildIfNeeded h
  if mt.nodeHashes.length = 0 then return (zeroHash, mt)
  else do
    let root ← mt.nodeHashes[0]?
    return (root, mt)

/-- What a conditional search adds to the differences. -/
def searchIf (differ : Bool) (search : Option (List BucketRange)) : Option (List BucketRange) :=
  if differ then search else some []

/-- `findDifferences`; the first number bounds the depth of the recursion. -/
def findDifferences (mt other : MerkleArrays) : ℕ → ℕ → ℕ → ℕ → Option (List BucketRange)
  | 0, _, _, _ => none
  | fuel + 1, level, start, stop =>
    if level = mt.depth then some [⟨start, stop⟩]
    else do
      let mid := (start + stop) / 2
      let leftIdx := 2 ^ (level + 1) - 1 + start / (mt.numBuckets >>> (level + 1))
      let rightIdx := leftIdx + 1
      let leaves := level + 1 = mt.depth
      let (leftHash, rightHash) ← mt.children leaves (start, mid) (leftIdx, rightIdx)
      let (otherLeftHash, otherRightHash) ← other.children leaves (start, mid) (leftIdx, rightIdx)
      let left ← searchIf (!bytesEqual leftHash otherLeftHash)
        (findDifferences mt other fuel (level + 1) start mid)
      let right ← searchIf (!bytesEqual rightHash otherRightHash)
        (findDifferences mt other fuel (level + 1) mid stop)
      return left ++ right

/-- `Compare`: the ranges, none for nil, and the two trees as it leaves them. -/
def compare (mt other : MerkleArrays) :
    Option (List BucketRange × MerkleArrays × MerkleArrays) :=
  if mt.depth ≠ other.depth then some ([⟨0, mt.numBuckets⟩], mt, other)
  else do
    let mt ← mt.rebuildIfNeeded h
    let other ← other.rebuildIfNeeded h
    -- the roots are read before the lengths are looked at
    let myRoot ← mt.nodeHashes[0]?
    let otherRoot ← other.nodeHashes[0]?
    if bytesEqual myRoot otherRoot then return ([], mt, other)
    else do
      let ranges ← findDifferences mt other (mt.depth + 1) 0 0 mt.numBuckets
      return (ranges, mt, other)

end MerkleArrays

/-! ## Small loops -/

theorem bytesEqual_iff {a b : Bytes} : bytesEqual a b = true ↔ a = b := by
  unfold bytesEqual
  split_ifs with hlen
  · exact iff_of_false id fun he => hlen (he ▸ rfl)
  · rw [List.all_eq_true]
    constructor
    · intro hall
      refine List.ext_getElem? fun i => ?_
      by_cases hi : i < a.length
      · exact of_decide_eq_true (hall i (List.mem_range.2 hi))
      · rw [List.getElem?_eq_none (by omega), List.getElem?_eq_none (by omega)]
    · rintro rfl i -
      exact decide_eq_true rfl

/-- The loop over 32 bytes is the exclusive or of two hashes. -/
theorem xorLoop_eq {hash leaf : Bytes} (hhash : hash.length = 32) (hleaf : leaf.length = 32) :
    xorLoop hash leaf = some (xorInto leaf hash) := by
  have hxor : ∀ j (hj : j < 32), (xorInto leaf hash)[j]? = some (leaf[j] ^^^ hash[j]) := by
    intro j hj
    simp [xorInto, hleaf, hhash, hj]
  -- the bytes before `i` are done, and those from `i` on are those of the leaf
  obtain ⟨l, hl, hlen, hbytes⟩ := forUp_invariant (xorByte hash) (n := 32) (s := leaf)
    (fun i l => l.length = 32 ∧ ∀ j, l[j]? = if j < i then (xorInto leaf hash)[j]? else leaf[j]?)
    ⟨hleaf, fun j => by rw [if_neg (Nat.not_lt_zero j)]⟩ (by
      rintro i hi l ⟨hlen, hbytes⟩
      have hx : l[i]? = some leaf[i] := by
        rw [hbytes, if_neg (lt_irrefl i), List.getElem?_eq_getElem]
      have hy : hash[i]? = some hash[i] := List.getElem?_eq_getElem (by omega)
      refine ⟨l.set i (leaf[i] ^^^ hash[i]), ?_, List.length_set.trans hlen, fun j => ?_⟩
      · simp only [xorByte, hx, hy, Option.bind_eq_bind, Option.bind_some, setAt]
        rw [if_pos (by omega)]
      · rw [List.getElem?_set, hlen]
        by_cases hij : i = j
        · subst hij
          rw [if_pos rfl, if_pos hi, if_pos (Nat.lt_succ_self i), hxor i hi]
        · rw [if_neg hij, hbytes]
          simp only [show j < i + 1 ↔ j < i by omega])
  rw [xorLoop, hl]
  refine congrArg some (List.ext_getElem? fun j => ?_)
  rw [hbytes]
  split_ifs with hj
  · rfl
  · rw [List.getElem?_eq_none (by omega), List.getElem?_eq_none (by rw [length_xorInto]; omega)]

/-! ## Rebuilding -/

namespace MerkleArrays

variable {h : Digest} {mt : MerkleArrays}

/-- The arrays have the lengths of a tree of their depth. -/
structure Sized (mt : MerkleArrays) : Prop where
  numBuckets : mt.numBuckets = 2 ^ mt.depth
  leafHashes : mt.leafHashes.length = 2 ^ mt.depth
  nodeHashes : mt.nodeHashes.length = 2 ^ mt.depth - 1
  dirty : mt.dirty.length = 2 ^ mt.depth

/-- The internal nodes that the leaves determine. -/
def upToDate (h : Digest) (mt : MerkleArrays) : List Bytes :=
  HashTree.heap (hashNode h.sum) mt.depth mt.leafHashes

/-- The hash of a leaf. -/
def leaf (mt : MerkleArrays) (i : ℕ) : Bytes := mt.leafHashes.getD i []

/-- The hash of a subtree. -/
def subtree (h : Digest) (mt : MerkleArrays) (k i : ℕ) : Bytes :=
  HashTree.subtree (hashNode h.sum) mt.leaf k i

theorem Sized.getElem?_leafHashes (hsized : mt.Sized) {i : ℕ} (hi : i < 2 ^ mt.depth) :
    mt.leafHashes[i]? = some (mt.leaf i) := by
  rw [leaf, List.getD_eq_getElem?_getD, List.getElem?_eq_getElem (by rw [hsized.leafHashes]; exact hi)]
  rfl

theorem Sized.length_upToDate (hsized : mt.Sized) :
    (mt.upToDate h).length = mt.nodeHashes.length := by
  rw [upToDate, HashTree.length_heap _ hsized.leafHashes, hsized.nodeHashes]

theorem Sized.getElem?_upToDate (hsized : mt.Sized) {l i : ℕ} (hl : l < mt.depth)
    (hi : i < 2 ^ l) : (mt.upToDate h)[2 ^ l - 1 + i]? = some (mt.subtree h (mt.depth - l) i) :=
  HashTree.getElem?_heap _ hsized.leafHashes (fun _ => hsized.getElem?_leafHashes) hl hi

/-- The children of a node, if the levels below it are up to date. -/
theorem Sized.children_eq (hsized : mt.Sized) {nodes : List Bytes} {l i : ℕ} (hl : l < mt.depth)
    (hi : i < 2 ^ l) (hbelow : ∀ p, 2 ^ (l + 1) - 1 ≤ p → nodes[p]? = (mt.upToDate h)[p]?)
    {leafIdx nodeIdx : ℕ × ℕ} (hleaf : l + 1 = mt.depth → leafIdx = (2 * i, 2 * i + 1))
    (hnode : nodeIdx = (2 ^ (l + 1) - 1 + 2 * i, 2 ^ (l + 1) - 1 + (2 * i + 1))) :
    ({ mt with nodeHashes := nodes } : MerkleArrays).children (l + 1 = mt.depth) leafIdx nodeIdx =
      some (mt.subtree h (mt.depth - (l + 1)) (2 * i),
        mt.subtree h (mt.depth - (l + 1)) (2 * i + 1)) := by
  have hpow : 2 ^ (l + 1) = 2 * 2 ^ l := by rw [pow_succ, mul_comm]
  simp only [children, decide_eq_true_eq]
  split_ifs with hleaves
  · have hwidth : 2 ^ mt.depth = 2 * 2 ^ l := by rw [← hleaves, hpow]
    rw [hleaf hleaves, readPair, hsized.getElem?_leafHashes (by omega),
      hsized.getElem?_leafHashes (by omega), ← hleaves, Nat.sub_self]
    rfl
  · have hnext : l + 1 < mt.depth := by omega
    rw [hnode, readPair, hbelow _ (by omega), hbelow _ (by omega),
      hsized.getElem?_upToDate hnext (by omega), hsized.getElem?_upToDate hnext (by omega)]
    rfl

/-- One node: its children are up to date, and so it is afterwards. -/
theorem rebuildNode_eq (hsized : mt.Sized) {nodes : List Bytes}
    (hlen : nodes.length = mt.nodeHashes.length) {l i : ℕ} (hl : l < mt.depth) (hi : i < 2 ^ l)
    (hbelow : ∀ p, 2 ^ (l + 1) - 1 ≤ p → nodes[p]? = (mt.upToDate h)[p]?) :
    rebuildNode h l i { mt with nodeHashes := nodes } = some { mt with
      nodeHashes := nodes.set (2 ^ l - 1 + i) (mt.subtree h (mt.depth - l) i) } := by
  have hpair := hsized.children_eq hl hi hbelow (fun _ => rfl) rfl
  have hnode : h.sum (mt.subtree h (mt.depth - (l + 1)) (2 * i) ++
      mt.subtree h (mt.depth - (l + 1)) (2 * i + 1)) = mt.subtree h (mt.depth - l) i := by
    rw [show mt.depth - l = mt.depth - (l + 1) + 1 by omega]
    rfl
  have hroom : 2 ^ l - 1 + i < nodes.length := by
    have hdepth : 2 ^ (l + 1) ≤ 2 ^ mt.depth := Nat.pow_le_pow_right two_pos hl
    rw [pow_succ] at hdepth
    rw [hlen, hsized.nodeHashes]
    omega
  simp only [rebuildNode, hpair, Option.bind_eq_bind, Option.bind_some, setAt, hnode, if_pos hroom]
  rfl

/-- One level: if the levels below it are up to date, so is it afterwards. -/
theorem rebuildLevel_eq (hsized : mt.Sized) {nodes : List Bytes}
    (hlen : nodes.length = mt.nodeHashes.length) {l : ℕ} (hl : l < mt.depth)
    (hbelow : ∀ p, 2 ^ (l + 1) - 1 ≤ p → nodes[p]? = (mt.upToDate h)[p]?) :
    ∃ nodes', forUp (2 ^ l) (rebuildNode h l) { mt with nodeHashes := nodes } =
        some { mt with nodeHashes := nodes' } ∧
      nodes'.length = mt.nodeHashes.length ∧
      ∀ p, 2 ^ l - 1 ≤ p → nodes'[p]? = (mt.upToDate h)[p]? := by
  -- before node `i` the level is up to date to the left of it
  obtain ⟨mt', hrun, nodes', rfl, hlen', hbelow', hleft⟩ := forUp_invariant (rebuildNode h l)
    (n := 2 ^ l) (s := { mt with nodeHashes := nodes })
    (fun i mt' => ∃ nodes', mt' = { mt with nodeHashes := nodes' } ∧
      nodes'.length = mt.nodeHashes.length ∧
      (∀ p, 2 ^ (l + 1) - 1 ≤ p → nodes'[p]? = (mt.upToDate h)[p]?) ∧
      ∀ p, 2 ^ l - 1 ≤ p → p < 2 ^ l - 1 + i → nodes'[p]? = (mt.upToDate h)[p]?)
    ⟨nodes, rfl, hlen, hbelow, fun p h₁ h₂ => by omega⟩ (by
      rintro i hi _ ⟨nodes', rfl, hlen', hbelow', hleft⟩
      refine ⟨_, rebuildNode_eq hsized hlen' hl hi hbelow', _, rfl, List.length_set.trans hlen', ?_, ?_⟩
      · intro p hp
        rw [pow_succ] at hp
        rw [List.getElem?_set_ne (by omega)]
        exact hbelow' p (by rw [pow_succ]; exact hp)
      · intro p hle hlt
        by_cases hp : 2 ^ l - 1 + i = p
        · subst hp
          have hsome := hsized.getElem?_upToDate (h := h) hl hi
          have hroom := (List.getElem?_eq_some_iff.1 hsome).1
          rw [hsized.length_upToDate, ← hlen'] at hroom
          rw [List.getElem?_set_self hroom, hsome]
        · rw [List.getElem?_set_ne hp]
          exact hleft p hle (by omega))
  refine ⟨nodes', hrun, hlen', fun p hp => ?_⟩
  rcases lt_or_ge p (2 ^ (l + 1) - 1) with hlt | hge
  · exact hleft p hp (by rw [pow_succ] at hlt; omega)
  · exact hbelow' p hge

/-- `rebuildTree` brings all internal nodes up to date and clears the flags. -/
theorem rebuildTree_eq (hsized : mt.Sized) : mt.rebuildTree h = some { mt with
    nodeHashes := mt.upToDate h, dirty := mt.dirty.map fun _ => false } := by
  obtain ⟨mt', hrun, nodes, rfl, hlen, hall⟩ := forDown_invariant
    (fun level => forUp (2 ^ level) (rebuildNode h level)) (n := mt.depth) (s := mt)
    (fun l mt' => ∃ nodes, mt' = { mt with nodeHashes := nodes } ∧
      nodes.length = mt.nodeHashes.length ∧
      ∀ p, 2 ^ l - 1 ≤ p → nodes[p]? = (mt.upToDate h)[p]?)
    ⟨mt.nodeHashes, rfl, rfl, fun p hp => by
      rw [List.getElem?_eq_none (by rw [hsized.nodeHashes]; exact hp),
        List.getElem?_eq_none (by rw [hsized.length_upToDate, hsized.nodeHashes]; exact hp)]⟩ (by
      rintro l hl _ ⟨nodes, rfl, hlen, hbelow⟩
      obtain ⟨nodes', hrun, hlen', hlevel⟩ := rebuildLevel_eq hsized hlen hl hbelow
      exact ⟨_, hrun, nodes', rfl, hlen', hlevel⟩)
  obtain rfl : nodes = mt.upToDate h := List.ext_getElem? fun p => hall p (Nat.zero_le p)
  rw [rebuildTree, hrun]
  rfl

/-! ## The search for differences -/

/-- A range of one bucket. -/
def single (i : ℕ) : BucketRange := ⟨i, i + 1⟩

theorem searchIf_some (x y : Bytes) (ranges : List BucketRange) :
    searchIf (!bytesEqual x y) (some ranges) = some (if x ≠ y then ranges else []) := by
  unfold searchIf
  by_cases he : x = y
  · rw [bytesEqual_iff.2 he, if_neg (not_not.2 he)]
    rfl
  · rw [Bool.eq_false_iff.2 fun hb => he (bytesEqual_iff.1 hb), if_pos he]
    rfl

/-- The middle of the range of buckets under a node. -/
theorem middle_of_range (k i : ℕ) :
    (i * 2 ^ (k + 1) + (i + 1) * 2 ^ (k + 1)) / 2 = (2 * i + 1) * 2 ^ k := by
  rw [show i * 2 ^ (k + 1) + (i + 1) * 2 ^ (k + 1) = (2 * i + 1) * 2 ^ k * 2 by ring,
    Nat.mul_div_cancel _ two_pos]

/-- The position of the left child of a node on the next level, from the first bucket under it. -/
theorem Sized.leftChild_index (hsized : mt.Sized) {level k : ℕ} (hlevel : level + (k + 1) = mt.depth)
    (i : ℕ) : i * 2 ^ (k + 1) / (mt.numBuckets >>> (level + 1)) = 2 * i := by
  have hwidth : mt.numBuckets >>> (level + 1) = 2 ^ k := by
    rw [hsized.numBuckets, Nat.shiftRight_eq_div_pow, ← hlevel,
      show level + (k + 1) = k + (level + 1) by omega, pow_add,
      Nat.mul_div_cancel _ (Nat.two_pow_pos _)]
  rw [hwidth, show i * 2 ^ (k + 1) = 2 * i * 2 ^ k by ring, Nat.mul_div_cancel _ (Nat.two_pow_pos k)]

/-- What the search reads at a node of an up-to-date tree. -/
theorem Sized.children_of_range (hsized : mt.Sized) (hnodes : mt.nodeHashes = mt.upToDate h)
    {level k i : ℕ} (hlevel : level + (k + 1) = mt.depth) (hi : i < 2 ^ level) :
    mt.children (level + 1 = mt.depth) (i * 2 ^ (k + 1), (2 * i + 1) * 2 ^ k)
      (2 ^ (level + 1) - 1 + 2 * i, 2 ^ (level + 1) - 1 + 2 * i + 1) =
      some (mt.subtree h k (2 * i), mt.subtree h k (2 * i + 1)) := by
  have hleaf : level + 1 = mt.depth →
      (i * 2 ^ (k + 1), (2 * i + 1) * 2 ^ k) = (2 * i, 2 * i + 1) := by
    intro he
    obtain rfl : k = 0 := by omega
    rw [pow_zero, mul_one, zero_add, pow_one, mul_comm]
  have hbelow : ∀ p, 2 ^ (level + 1) - 1 ≤ p → mt.nodeHashes[p]? = (mt.upToDate h)[p]? :=
    fun p _ => congrArg (·[p]?) hnodes
  have hpair := hsized.children_eq (by omega) hi hbelow hleaf rfl
  rwa [show mt.depth - (level + 1) = k by omega] at hpair

/-- The search from a node down ends at the buckets at which a search over subtrees ends. -/
theorem findDifferences_eq {other : MerkleArrays} (hmt : mt.Sized) (hother : other.Sized)
    (hdepth : other.depth = mt.depth) (hnodes : mt.nodeHashes = mt.upToDate h)
    (hnodes' : other.nodeHashes = other.upToDate h) {k level i fuel : ℕ}
    (hlevel : level + k = mt.depth) (hi : i < 2 ^ level) (hfuel : k < fuel) :
    findDifferences mt other fuel level (i * 2 ^ k) ((i + 1) * 2 ^ k) =
      some ((HashTree.diffs (hashNode h.sum) mt.leaf other.leaf k i).map single) := by
  induction k generalizing level i fuel with
  | zero =>
    obtain ⟨fuel, rfl⟩ := Nat.exists_eq_add_of_lt hfuel
    rw [findDifferences, if_pos (by omega), pow_zero, mul_one, mul_one]
    rfl
  | succ k ih =>
    obtain ⟨fuel, rfl⟩ : ∃ f, fuel = f + 1 := ⟨fuel - 1, by omega⟩
    have hpow : 2 ^ (level + 1) = 2 * 2 ^ level := by rw [pow_succ, mul_comm]
    have hmine := hmt.children_of_range hnodes hlevel hi
    have htheirs := hother.children_of_range hnodes' (hdepth ▸ hlevel) hi
    rw [hdepth] at htheirs
    have hleft : findDifferences mt other fuel (level + 1) (i * 2 ^ (k + 1)) ((2 * i + 1) * 2 ^ k) =
        some ((HashTree.diffs (hashNode h.sum) mt.leaf other.leaf k (2 * i)).map single) := by
      rw [show i * 2 ^ (k + 1) = 2 * i * 2 ^ k by ring]
      exact ih (by omega) (by omega) (by omega)
    have hright : findDifferences mt other fuel (level + 1) ((2 * i + 1) * 2 ^ k)
        ((i + 1) * 2 ^ (k + 1)) =
        some ((HashTree.diffs (hashNode h.sum) mt.leaf other.leaf k (2 * i + 1)).map single) := by
      rw [show (i + 1) * 2 ^ (k + 1) = (2 * i + 1 + 1) * 2 ^ k by ring]
      exact ih (by omega) (by omega) (by omega)
    rw [findDifferences, if_neg (by omega)]
    simp only [middle_of_range, hmt.leftChild_index hlevel]
    rw [hmine, htheirs]
    simp only [Option.bind_eq_bind, Option.bind_some, hleft, hright, searchIf_some]
    rw [HashTree.diffs, List.map_append, apply_ite (List.map single), apply_ite (List.map single)]
    rfl

end MerkleArrays

end GoQuorum
