import GoQuorum.Cluster.AntiEntropy
import GoQuorum.Cluster.SloppyQuorum

/-!
# Does the Merkle tree follow the store?

The tree of a node is built from its store at the start.  Afterwards it changes only when the
coordinator of the node notifies it: `Put` toggles in the version it has written once a quorum has
acknowledged it, and `Delete` toggles out what `GetRaw` returned before.  The store changes on other
occasions too: `Put` merges the version with what is stored, a `Delete` leaves a tombstone, and a
request of another coordinator is not notified at all.  So a tree drifts away from the store
(`replicated_write_not_indexed`).

`tree_follows_store` says under which calls it does not: acknowledged writes of new keys that the
node stores itself, and calls that leave the text of every record as it was.
-/

namespace GoQuorum

open Lib Lib.Versions

/-- A node's store with its anti-entropy service. -/
structure IndexedNode where
  store : Storage
  antiEntropy : AntiEntropy

/-! ## Calls -/

namespace CompletedWrite

/-- The error of the local write, if there was one. -/
def localError (w : CompletedWrite) (s : Storage) : Option ReplicaFailure :=
  match w.taken with
  | none => none
  | some env =>
    match s.put env w.plan.key [w.plan.sibling] with
    | .ok _ => none
    | .error err => some (.storage err)

end CompletedWrite

namespace Coordinator

variable {sum64 : Bytes → UInt64} (c : Coordinator sum64)

/-- A `Delete` with the given fan-out. -/
def completedDelete (fanOut : ∀ nodes, FanOut nodes) (here : CallEnv) (plan : WritePlan) :
    CompletedWrite where
  plan := plan
  taken := c.takes plan.prefList here
  acknowledged := (c.finishDelete (fanOut plan.prefList).responses).isOk

/-- The coordinator's own response is that of its store. -/
def ReportsLocalWrite (responses : List WriteResponse) (w : CompletedWrite) (s : Storage) : Prop :=
  ∀ resp ∈ responses, resp.nodeID = (c.nodeID : NodeID) → resp.error = w.localError s

instance (responses : List WriteResponse) (w : CompletedWrite) (s : Storage) :
    Decidable (c.ReportsLocalWrite responses w s) :=
  inferInstanceAs (Decidable (∀ resp ∈ responses, _ → _))

end Coordinator

/-- The calls that a node completes: those of its coordinator, as the call finds it, and requests of
other coordinators. -/
inductive NodeCall (sum64 : Bytes → UInt64) where
  | put (c : Coordinator sum64) (env : PutEnv sum64) (here : CallEnv) (times : WriteTimes)
      (key value : Bytes) (context : VectorClock) (ttlSeconds : Int64)
  | delete (c : Coordinator sum64) (fanOut : ∀ nodes, FanOut nodes) (before here : CallEnv)
      (times : WriteTimes) (key : Bytes) (context : VectorClock)
  | replicate (env : CallEnv) (stamp : NodeID → Int64) (req : ReplicateReq)

namespace IndexedNode

variable {sum64 : Bytes → UInt64}

/-- The end of `Put`: a call that succeeds notifies anti-entropy. -/
def afterPut (n : IndexedNode) (w : CompletedWrite) : IndexedNode where
  store := w.storeAfter n.store
  antiEntropy :=
    if w.acknowledged then n.antiEntropy.onKeyUpdate w.plan.key (some (w.siblingSet n.store))
    else n.antiEntropy

/-- The end of `Delete`, with what `GetRaw` returned before the write. -/
def afterDelete (n : IndexedNode) (w : CompletedWrite) (oldSiblings : Option SiblingSet) :
    IndexedNode where
  store := w.storeAfter n.store
  antiEntropy :=
    if w.acknowledged then n.antiEntropy.onKeyDelete w.plan.key oldSiblings else n.antiEntropy

/-- One call with its notification.  The responses a coordinator collects from itself are those of
its own store; other combinations do not happen. -/
def step (n : IndexedNode) : NodeCall sum64 → Option IndexedNode
  | .put c env here times key value context ttlSeconds =>
    match c.plan times (.put key value context ttlSeconds) with
    | .error _ => some n
    | .ok plan =>
      let w := c.completedPut env here plan
      if c.ReportsLocalWrite (c.putResponses env plan) w n.store then some (n.afterPut w) else none
  | .delete c fanOut before here times key context =>
    match c.plan times (.delete key context) with
    | .error _ => some n
    | .ok plan =>
      let w := c.completedDelete fanOut here plan
      if c.ReportsLocalWrite (fanOut plan.prefList).responses w n.store then
        some (n.afterDelete w (n.store.getRaw before key).toOption)
      else none
  | .replicate env stamp req => some { n with store := (replicate env stamp n.store req).2 }

end IndexedNode

/-! ## Calls the tree keeps up with -/

/-- The write repeats the first sibling of the record: the same printed clock and value, with nothing
of the record expired, superseded, printed alike or pruned. -/
structure Repeats (env : CallEnv) (s : Storage) (key : Bytes) (sib : Sibling) (first : Sibling)
    (rest : SiblingSet) : Prop where
  stored : s.stored key = .ok (first :: rest)
  unexpired : unexpired env.readNow (first :: rest) = first :: rest
  printed : first.printed = sib.printed
  value : first.value = sib.value
  nodup : ((first :: rest).map Sibling.printed).Nodup
  current : ∀ e ∈ rest, sib.vclock.happensAfter e.vclock = false
  readable : sib.vclock.Readable
  noPrune : Storage.NoPrune env s key [sib]

/-- A local write that leaves the text of the record: none takes place, it fails, or it repeats the
first sibling. -/
def LeavesText (taken : Option CallEnv) (s : Storage) (key : Bytes) (sib : Sibling) : Prop :=
  ∀ env ∈ taken, (s.put env key [sib]).isOk = true →
    ∃ first rest, Repeats env s key sib first rest

/-- A local write of a new key, whose clock can be read back after pruning. -/
def FirstWrite (taken : Option CallEnv) (s : Storage) (key : Bytes) (sib : Sibling) : Prop :=
  ∃ env ∈ taken, (s.put env key [sib]).isOk = true ∧ s.db.get? key = none ∧
    (env.pruneClock s.opts 0 sib.vclock).Readable

/-- The tree keeps up with the call: an acknowledged `Put` is a first write, an acknowledged `Delete`
finds nothing to toggle out, and all others leave the text of the record. -/
def KeepsUp {sum64 : Bytes → UInt64} (n : IndexedNode) : NodeCall sum64 → Prop
  | .put c env here times key value context ttlSeconds =>
    ∀ plan, c.plan times (.put key value context ttlSeconds) = .ok plan →
      let w := c.completedPut env here plan
      if w.acknowledged then FirstWrite w.taken n.store plan.key plan.sibling
      else LeavesText w.taken n.store plan.key plan.sibling
  | .delete c fanOut before here times key context =>
    ∀ plan, c.plan times (.delete key context) = .ok plan →
      let w := c.completedDelete fanOut here plan
      (w.acknowledged = true → (n.store.getRaw before key).toOption = none) ∧
        LeavesText w.taken n.store plan.key plan.sibling
  | .replicate env stamp req =>
    LeavesText (some env) n.store req.key (req.sibling.toSibling stamp)

/-! ## The tree and the store -/

/-- The buckets hold the contributions of the records of the store. -/
structure Follows (n : IndexedNode) : Prop where
  enabled : n.antiEntropy.enabled = true
  leaves : n.antiEntropy.merkleTree.leafHashes =
    MerkleTree.leavesOf sha256 n.antiEntropy.merkleTree.depth n.store.records

/-- Repeating a sibling puts it in the place of the first one. -/
theorem Repeats.reconcile_eq {env : CallEnv} {s : Storage} {key : Bytes} {sib first : Sibling}
    {rest : SiblingSet} (h : Repeats env s key sib first rest) :
    reconcileSiblings (first :: rest) [sib] = sib :: rest := by
  obtain ⟨hfirst, hnodup⟩ := List.nodup_cons.1 h.nodup
  have hrest : (rest.filter fun e => ¬ sib.vclock.happensAfter e.vclock) = rest :=
    List.filter_eq_self.2 fun e he => by simp [h.current e he]
  have hseen : ∀ e ∈ rest, e.printed ∉ [sib.printed] := by
    intro e he hmem
    rw [List.mem_singleton, ← h.printed] at hmem
    exact hfirst (hmem ▸ List.mem_map_of_mem he)
  rw [reconcile_eq_cons, List.filter_cons, hrest]
  -- the first sibling is superseded, or dropped because it prints alike
  split_ifs
  · rw [dedupBy, if_pos (by rw [h.printed]; exact List.mem_cons_self),
      dedupBy_eq_self _ hnodup hseen]
  · rw [dedupBy_eq_self _ hnodup hseen]

/-- A write that repeats a sibling changes no bucket. -/
theorem leavesOf_of_repeats {hash : Bytes → Bytes} {depth : ℕ} {env : CallEnv} {s t : Storage}
    {key : Bytes} {sib first : Sibling} {rest : SiblingSet} (h : Repeats env s key sib first rest)
    (hput : s.put env key [sib] = .ok t) :
    MerkleTree.leavesOf hash depth t.records = MerkleTree.leavesOf hash depth s.records := by
  obtain ⟨data', hdata', -, rfl⟩ := Storage.put_eq_ok.1 hput
  obtain ⟨all, hall, hdec⟩ := Storage.decode_of_noPrune hdata' h.noPrune
    (List.forall_mem_singleton.2 h.readable)
  obtain rfl : all = first :: rest := Except.ok.inj (hall.symm.trans h.stored)
  rw [h.unexpired, h.reconcile_eq] at hdec
  have htext : leafInput key (sib :: rest) = leafInput key (first :: rest) := by
    simp only [leafInput, List.flatMap_cons, h.value]
    rw [show first.vclock.string = sib.vclock.string from h.printed]
  cases hget : s.db.get? key with
  | none =>
    have hnil := h.stored
    simp only [Storage.stored, hget, Except.ok.injEq] at hnil
    cases hnil
  | some data =>
    have hstored := h.stored
    rw [Storage.stored_of_get? hget] at hstored
    exact MerkleTree.leavesOf_insert_same hget hstored hdec htext

theorem leavesOf_of_leavesText {hash : Bytes → Bytes} {depth : ℕ} {w : CompletedWrite}
    {s : Storage} (h : LeavesText w.taken s w.plan.key w.plan.sibling) :
    MerkleTree.leavesOf hash depth (w.storeAfter s).records =
      MerkleTree.leavesOf hash depth s.records := by
  unfold CompletedWrite.storeAfter
  cases htaken : w.taken with
  | none => rfl
  | some env =>
    dsimp only
    cases hput : s.put env w.plan.key [w.plan.sibling] with
    | error err => rfl
    | ok t =>
      obtain ⟨first, rest, hrep⟩ := h env htaken (by rw [hput]; rfl)
      exact leavesOf_of_repeats hrep hput

/-- A first write adds the contribution of what its caller is left with. -/
theorem leavesOf_of_firstWrite {hash : Bytes → Bytes} {depth : ℕ} {w : CompletedWrite}
    {s : Storage} (h : FirstWrite w.taken s w.plan.key w.plan.sibling) :
    MerkleTree.leavesOf hash depth (w.storeAfter s).records =
      toggleLeaf hash depth (MerkleTree.leavesOf hash depth s.records)
        (w.plan.key, w.siblingSet s) := by
  obtain ⟨env, htaken, hok, hnone, hread⟩ := h
  obtain ⟨t, hput⟩ := isOk_iff.1 hok
  obtain ⟨hchecks, -, existing, data, hex, henc, rfl⟩ := Storage.put_singleton_eq_ok.1 hput
  -- nothing is stored, so the caller's set is what is pruned and written
  obtain ⟨all, hall, hexisting⟩ := Storage.readExisting_eq_ok hex
  simp only [Storage.stored, hnone, Except.ok.injEq] at hall
  obtain rfl : existing = [] := by rw [hexisting, ← hall]; rfl
  have hmerge := Storage.merge_singleton_eq_ok.2
    ⟨hchecks.1, hchecks.2.1, hchecks.2.2, [], hex, rfl⟩
  have hcaller : w.siblingSet s = env.enforceLimits s.opts [w.plan.sibling] := by
    simp only [CompletedWrite.siblingSet, Option.mem_def.1 htaken, Storage.callerSet, hmerge, hex]
  have hafter : w.storeAfter s = { s with db := s.db.insert w.plan.key data } := by
    simp only [CompletedWrite.storeAfter, Option.mem_def.1 htaken, hput]
    rfl
  have hone : env.enforceLimits s.opts [w.plan.sibling] =
      env.pruneClocks s.opts [w.plan.sibling] :=
    enforceLimits_of_length_le (by exact_mod_cast s.opts.maxSiblings_pos)
  rw [show reconcileSiblings [] [w.plan.sibling] = [w.plan.sibling] from rfl] at henc
  have hreadable : ∀ x ∈ env.enforceLimits s.opts [w.plan.sibling], x.vclock.Readable := by
    rw [hone]
    exact List.forall_mem_singleton.2 hread
  rw [hafter, hcaller]
  exact MerkleTree.leavesOf_insert_new hnone (decodeSiblingSet_encodeSiblingSet henc hreadable)

section

variable {n : IndexedNode}

theorem Follows.afterPut {w : CompletedWrite} (h : Follows n)
    (hw : if w.acknowledged then FirstWrite w.taken n.store w.plan.key w.plan.sibling
      else LeavesText w.taken n.store w.plan.key w.plan.sibling) : Follows (n.afterPut w) := by
  cases hack : w.acknowledged with
  | false =>
    rw [hack, if_neg Bool.false_ne_true] at hw
    have hae : (n.afterPut w).antiEntropy = n.antiEntropy := by
      simp [IndexedNode.afterPut, hack]
    refine ⟨hae ▸ h.enabled, ?_⟩
    rw [hae, h.leaves]
    exact (leavesOf_of_leavesText hw).symm
  | true =>
    rw [hack, if_pos rfl] at hw
    have hae : (n.afterPut w).antiEntropy =
        { n.antiEntropy with merkleTree :=
            n.antiEntropy.merkleTree.updateKey w.plan.key (some (w.siblingSet n.store)) } := by
      simp [IndexedNode.afterPut, hack, AntiEntropy.onKeyUpdate, h.enabled]
    refine ⟨by rw [hae]; exact h.enabled, ?_⟩
    rw [hae]
    exact (congrArg (fun l => toggleLeaf sha256 _ l _) h.leaves).trans
      (leavesOf_of_firstWrite hw).symm

theorem Follows.afterDelete {w : CompletedWrite} {oldSiblings : Option SiblingSet} (h : Follows n)
    (hold : w.acknowledged = true → oldSiblings = none)
    (hw : LeavesText w.taken n.store w.plan.key w.plan.sibling) :
    Follows (n.afterDelete w oldSiblings) := by
  -- a nil set is not toggled
  have hae : (n.afterDelete w oldSiblings).antiEntropy = n.antiEntropy := by
    unfold IndexedNode.afterDelete
    dsimp only
    split_ifs with hack
    · rw [hold hack, AntiEntropy.onKeyDelete, if_pos h.enabled]
      rfl
    · rfl
  refine ⟨hae ▸ h.enabled, ?_⟩
  rw [hae, h.leaves]
  exact (leavesOf_of_leavesText hw).symm

theorem Follows.step {sum64 : Bytes → UInt64} {n' : IndexedNode} {call : NodeCall sum64}
    (h : Follows n) (hcall : KeepsUp n call) (hstep : n.step call = some n') : Follows n' := by
  cases call with
  | put c env here times key value context ttlSeconds =>
    simp only [IndexedNode.step] at hstep
    cases hplan : c.plan times (.put key value context ttlSeconds) with
    | error err =>
      rw [hplan] at hstep
      exact Option.some.inj hstep ▸ h
    | ok plan =>
      rw [hplan] at hstep
      dsimp only at hstep
      split_ifs at hstep
      exact Option.some.inj hstep ▸ h.afterPut (hcall plan hplan)
  | delete c fanOut before here times key context =>
    simp only [IndexedNode.step] at hstep
    cases hplan : c.plan times (.delete key context) with
    | error err =>
      rw [hplan] at hstep
      exact Option.some.inj hstep ▸ h
    | ok plan =>
      rw [hplan] at hstep
      dsimp only at hstep
      split_ifs at hstep
      obtain ⟨hold, hw⟩ := hcall plan hplan
      exact Option.some.inj hstep ▸ h.afterDelete hold hw
  | replicate env stamp req =>
    obtain rfl := Option.some.inj hstep
    refine ⟨h.enabled, h.leaves.trans ?_⟩
    -- the request is a local write that is not notified
    let w : CompletedWrite := ⟨⟨req.key, req.sibling.toSibling stamp, []⟩, some env, false⟩
    have hstore : (replicate env stamp n.store req).2 = w.storeAfter n.store := by
      simp only [w, replicate, ReplicateReq.siblings, CompletedWrite.storeAfter]
      cases n.store.put env req.key [req.sibling.toSibling stamp] <;> rfl
    have hw : LeavesText w.taken n.store w.plan.key w.plan.sibling := hcall
    dsimp only
    rw [hstore]
    exact (leavesOf_of_leavesText hw).symm

end

/-- `Start` on an open store leaves a tree that follows it. -/
theorem follows_start {env : ScanEnv} {store : Storage} {ae : AntiEntropy}
    (henabled : ae.enabled = true) (hstart : (ae.start env store).1 = none) :
    Follows ⟨store, (ae.start env store).2⟩ := by
  unfold AntiEntropy.start at hstart ⊢
  rw [if_pos henabled] at hstart ⊢
  obtain ⟨hleaves, hdepth⟩ := MerkleTree.leafHashes_build hstart
  refine ⟨henabled, hleaves.trans ?_⟩
  dsimp only
  rw [hdepth]

/-- From a successful start on any store, after any calls that the tree keeps up with, the tree has
the buckets and the root of a tree built afresh from the current store. -/
theorem tree_follows_store (sum64 : Bytes → UInt64) (env : ScanEnv) (store : Storage)
    (ae : AntiEntropy) (n : IndexedNode) (henabled : ae.enabled = true)
    (hstart : (ae.start env store).1 = none)
    (hrun : Runs (@IndexedNode.step sum64) KeepsUp ⟨store, (ae.start env store).2⟩ n)
    (env' : ScanEnv) (mt : MerkleTree sha256) (hdepth : mt.depth = n.antiEntropy.merkleTree.depth)
    (hbuild : (mt.build env' n.store).1 = none) :
    n.antiEntropy.merkleTree.leafHashes = (mt.build env' n.store).2.leafHashes ∧
      n.antiEntropy.merkleTree.getRoot.1 = (mt.build env' n.store).2.getRoot.1 := by
  have hinv : Follows n := hrun.invariant Follows (follows_start henabled hstart)
    fun _ _ _ h hcall hstep => h.step hcall hstep
  obtain ⟨hleaves, hdepth'⟩ := MerkleTree.leafHashes_build hbuild
  have hsame : n.antiEntropy.merkleTree.leafHashes = (mt.build env' n.store).2.leafHashes := by
    rw [hinv.leaves, hleaves, hdepth]
  refine ⟨hsame, ?_⟩
  rw [MerkleTree.getRoot_fst, MerkleTree.getRoot_fst, hsame, hdepth', hdepth]

/-- A node with two buckets, started on an empty store. -/
def startedNode : IndexedNode where
  store := Storage.new defaultStorageOptions
  antiEntropy :=
    ((AntiEntropy.new true 1).start ScanEnv.quiet (Storage.new defaultStorageOptions)).2

/-- The coordinator of a cluster of one node. -/
def soloCoordinator : Coordinator sampleSum64 where
  nodeID := n1
  ring := sampleRing [n1]
  quorumConfig := ⟨1, 1, 1, false⟩

/-- Every node answers with success. -/
def everyoneAnswers : PutEnv sampleSum64 where
  strict := failing []
  ring := sampleRing [n1]
  overflow := failing []
  now := fun _ => 0

/-- The first `Put` of the key `k` by that coordinator, and what it sends. -/
def firstPut : NodeCall sampleSum64 :=
  .put soloCoordinator everyoneAnswers (CallEnv.steady 100) ⟨100, 100, 100⟩ [107] [1]
    VectorClock.new 0

def firstPlan : WritePlan where
  key := [107]
  sibling := soloCoordinator.newSibling ⟨100, 100, 100⟩ (.put [107] [1] VectorClock.new 0)
  prefList := [[110, 49]]

theorem keepsUp_firstPut : KeepsUp startedNode firstPut := by
  have hplan : soloCoordinator.plan ⟨100, 100, 100⟩ (.put [107] [1] VectorClock.new 0) =
      .ok firstPlan := rfl
  intro plan h
  obtain rfl : firstPlan = plan := Except.ok.inj (hplan.symm.trans h)
  have hack : (soloCoordinator.completedPut everyoneAnswers (CallEnv.steady 100)
      firstPlan).acknowledged = true := by decide +kernel
  have htaken : soloCoordinator.takes (soloCoordinator.contacted everyoneAnswers firstPlan)
      (CallEnv.steady 100) = some (CallEnv.steady 100) := if_pos (by decide +kernel)
  dsimp only
  rw [if_pos hack]
  exact ⟨CallEnv.steady 100, htaken, by decide +kernel, by decide +kernel, by decide +kernel⟩

/-- The first write of a key in a cluster of one node is indexed. -/
theorem tree_follows_store_after_first_put : ∃ n : IndexedNode,
    (n.store.db.get? [107]).isSome = true ∧ n.antiEntropy.merkleTree.getRoot.1 =
      ((MerkleTree.new sha256 1).build ScanEnv.quiet n.store).2.getRoot.1 := by
  have hstep := step_eq_stateAfter (by decide +kernel : (exec IndexedNode.step startedNode
    [firstPut]).isSome = true)
  refine ⟨stateAfter IndexedNode.step startedNode [firstPut], by decide +kernel, ?_⟩
  exact (tree_follows_store sampleSum64 ScanEnv.quiet (Storage.new defaultStorageOptions)
    (AntiEntropy.new true 1) _ rfl (by decide +kernel) (Runs.single keepsUp_firstPut hstep)
    ScanEnv.quiet (MerkleTree.new sha256 1) (by decide +kernel) (by decide +kernel)).2

/-- A request of another coordinator for a key the node does not have. -/
def replicatedPut : NodeCall sampleSum64 :=
  .replicate (CallEnv.steady 100) (fun _ => 100) ⟨[107], ⟨[1], [([110, 50], 1)], false, 100⟩⟩

/-- A write that arrives from another coordinator is stored, but the tree stays as it was. -/
theorem replicated_write_not_indexed : ∃ n : IndexedNode,
    Runs (@IndexedNode.step sampleSum64) (fun _ _ => True) startedNode n ∧
      ((MerkleTree.new sha256 1).build ScanEnv.quiet n.store).1 = none ∧
      n.antiEntropy.merkleTree.leafHashes ≠
        ((MerkleTree.new sha256 1).build ScanEnv.quiet n.store).2.leafHashes := by
  have hstep := step_eq_stateAfter (by decide +kernel : (exec IndexedNode.step startedNode
    [replicatedPut]).isSome = true)
  exact ⟨_, Runs.single trivial hstep, by decide +kernel, by decide +kernel⟩

end GoQuorum
