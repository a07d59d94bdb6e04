import GoQuorum.Cluster.AntiEntropy
import GoQuorum.Cluster.Membership

/-!
# Leaving the ring

`LeaveNode` of `internal/cluster/coordinator.go` and `SyncWithPeers` of
`internal/cluster/anti_entropy.go`.  Before a node is removed from the ring, the local records are
pushed to the remaining members, peer by peer and bucket by bucket.  What fails on the way is
printed, and the node is removed all the same.

The drain is a sequence of `RemotePut` calls that the state before it determines
(`syncWithPeers_eq`).  No two of them are about the same record of the same peer, so each meets the
record it would have met at the start (`foldl_push_at`).  From this `leave_loses_nothing_iff` says
when leaving loses no data.
-/

namespace GoQuorum

open Lib

/-! ## The drain -/

/-- What `LeaveNode` meets: the order of `GetAllNodes`, and the exchange with a peer for a bucket,
`none` if the service has been stopped by then. -/
structure LeaveEnv where
  allNodes : MapOrder NodeID
  exchange : NodeID → ℕ → Option ExchangeEnv

/-- The stores of the peers, and the pushes that were reported as failed. -/
structure Drain where
  stores : NodeID → Storage
  failedPushes : List (NodeID × Bytes)

namespace AntiEntropy

/-- The keys that the callback of `exchangeWithPeer` reports as not pushed. -/
def failedKeys (env : ExchangeEnv) (ae : AntiEntropy) (rangeIdx : ℕ) :
    Storage → List (Bytes × SiblingSet) → List Bytes
  | _, [] => []
  | peer, p :: rest =>
    let failed := failedKeys env ae rangeIdx (ae.pushRecord env rangeIdx peer p) rest
    if ae.bucketOf p.1 = rangeIdx ∧ (remotePut p.1 (env.net p.1) peer p.2).1 ≠ .ok () then
      p.1 :: failed
    else failed

/-- The keys that `exchangeWithPeer` reports as not pushed. -/
def reportedKeys (env : ExchangeEnv) (ae : AntiEntropy) (store : Storage) (rangeIdx : ℕ)
    (peer : Storage) : List Bytes :=
  match env.peerRoot with
  | .error _ => []
  | .ok peerRoot =>
    if ae.merkleTree.getRoot.1 = peerRoot then []
    else ae.failedKeys env rangeIdx peer (store.scan env.scan).1

/-- One round of the loops of `SyncWithPeers`, whose error is only reported. -/
def syncBucket (store : Storage) (state : Drain × AntiEntropy)
    (round : NodeID × ℕ × ExchangeEnv) : Drain × AntiEntropy :=
  let (d, ae) := state
  let (peerID, i, env) := round
  let (_, peer, ae') := ae.exchangeWithPeer env store i (d.stores peerID)
  let failed := ae.reportedKeys env store i (d.stores peerID)
  (⟨Function.update d.stores peerID peer, d.failedPushes ++ failed.map fun key => (peerID, key)⟩,
    ae')

/-- The rounds of `SyncWithPeers` until the service is stopped. -/
def roundsUntilStopped (env : LeaveEnv) : List (NodeID × ℕ) → List (NodeID × ℕ × ExchangeEnv)
  | [] => []
  | (peerID, i) :: rest =>
    match env.exchange peerID i with
    | none => []
    | some exchange => (peerID, i, exchange) :: roundsUntilStopped env rest

/-- The rounds of the two loops of `SyncWithPeers`, over the peers and over the buckets. -/
def rounds (env : LeaveEnv) (ae : AntiEntropy) (peers : List NodeID) :
    List (NodeID × ℕ × ExchangeEnv) :=
  roundsUntilStopped env
    (peers.flatMap fun peerID => (List.range (2 ^ ae.merkleTree.depth)).map fun i => (peerID, i))

/-- `SyncWithPeers`. -/
def syncWithPeers (env : LeaveEnv) (ae : AntiEntropy) (store : Storage) (peers : List NodeID)
    (d : Drain) : Drain × AntiEntropy :=
  if ae.enabled then (ae.rounds env peers).foldl (syncBucket store) (d, ae) else (d, ae)

end AntiEntropy

/-! ## Leaving -/

/-- The parts of a coordinator that `JoinNode` and `LeaveNode` use. -/
structure NodeServices (sum64 : Bytes → UInt64) where
  nodeID : NodeID
  ring : HashRing sum64
  membership : MembershipManager
  antiEntropy : AntiEntropy
  storage : Storage

namespace NodeServices

variable {sum64 : Bytes → UInt64}

/-- The peers that `LeaveNode` drains to. -/
def remaining (env : LeaveEnv) (node : NodeServices sum64) (nodeID : NodeID) : List NodeID :=
  (env.allNodes.run node.ring.nodes).filter fun id => id ≠ nodeID ∧ id ≠ node.nodeID

/-- `LeaveNode`: the error, the node as it leaves it, and the peers' stores with the reports. -/
def leaveNode (env : LeaveEnv) (node : NodeServices sum64) (stores : NodeID → Storage)
    (nodeID : NodeID) : Except RingError Unit × NodeServices sum64 × Drain :=
  let remaining := node.remaining env nodeID
  let (d, antiEntropy) :=
    if remaining.length > 0 then
      node.antiEntropy.syncWithPeers env node.storage remaining ⟨stores, []⟩
    else (⟨stores, []⟩, node.antiEntropy)
  match node.ring.removeNode nodeID with
  | .error err => (.error err, { node with antiEntropy }, d)
  | .ok ring =>
    (.ok (), { node with antiEntropy, ring, membership := node.membership.removePeer nodeID }, d)

theorem mem_remaining {env : LeaveEnv} {node : NodeServices sum64} {nodeID id : NodeID} :
    id ∈ node.remaining env nodeID ↔ id ∈ node.ring.nodes ∧ id ≠ nodeID ∧ id ≠ node.nodeID := by
  rw [remaining, List.mem_filter, (env.allNodes.perm _).mem_iff, decide_eq_true_eq]

theorem nodup_remaining (env : LeaveEnv) (node : NodeServices sum64) (nodeID : NodeID) :
    (node.remaining env nodeID).Nodup :=
  ((env.allNodes.perm _).nodup_iff.2 node.ring.nodes_nodup).filter _

end NodeServices

/-! ## One record of one peer -/

/-- Two stores in which a write of the key meets the same. -/
structure Storage.AgreesAt (key : Bytes) (s t : Storage) : Prop where
  opts : s.opts = t.opts
  closed : s.closed = t.closed
  record : s.db.get? key = t.db.get? key

namespace Storage

variable {key : Bytes} {s t u : Storage}

theorem AgreesAt.refl (key : Bytes) (s : Storage) : s.AgreesAt key s := ⟨rfl, rfl, rfl⟩

theorem AgreesAt.trans (h₁ : AgreesAt key s t) (h₂ : AgreesAt key t u) : AgreesAt key s u :=
  ⟨h₁.opts.trans h₂.opts, h₁.closed.trans h₂.closed, h₁.record.trans h₂.record⟩

theorem AgreesAt.insert (h : AgreesAt key s t) (data : Bytes) :
    AgreesAt key { s with db := s.db.insert key data } { t with db := t.db.insert key data } :=
  ⟨h.opts, h.closed, by simp only [SortedMap.get?_insert_self]⟩

theorem agreesAt_insert_of_ne {key' : Bytes} (s : Storage) (data : Bytes) (h : key' ≠ key) :
    AgreesAt key { s with db := s.db.insert key' data } s :=
  ⟨rfl, rfl, SortedMap.get?_insert_of_ne _ h _⟩

theorem AgreesAt.prepare (h : AgreesAt key s t) (env : CallEnv) (siblings : SiblingSet) :
    s.prepare env key siblings = t.prepare env key siblings := by
  simp only [Storage.prepare, merge, readExisting, getRaw, readRecord, h.opts, h.closed, h.record]

end Storage

/-- A request to stores that agree on its key has the same answer and leaves stores that agree. -/
theorem Storage.AgreesAt.replicate {key : Bytes} {s t : Storage} (h : s.AgreesAt key t)
    (env : CallEnv) (stamp : NodeID → Int64) (sibling : SiblingData) :
    (GoQuorum.replicate env stamp s ⟨key, sibling⟩).1 =
        (GoQuorum.replicate env stamp t ⟨key, sibling⟩).1 ∧
      (GoQuorum.replicate env stamp s ⟨key, sibling⟩).2.AgreesAt key
        (GoQuorum.replicate env stamp t ⟨key, sibling⟩).2 := by
  unfold GoQuorum.replicate Storage.put
  dsimp only
  rw [h.prepare]
  cases t.prepare env key (ReplicateReq.siblings stamp ⟨key, sibling⟩) with
  | error err => exact ⟨rfl, h⟩
  | ok data =>
    rw [ok_bind, ok_bind]
    unfold Storage.commit
    cases env.setError with
    | none => exact ⟨rfl, h.insert data⟩
    | some err => cases err <;> exact ⟨rfl, h⟩

/-- A request leaves the records of other keys alone. -/
theorem agreesAt_replicate_of_ne {key key' : Bytes} (hne : key' ≠ key) (env : CallEnv)
    (stamp : NodeID → Int64) (s : Storage) (sibling : SiblingData) :
    (replicate env stamp s ⟨key', sibling⟩).2.AgreesAt key s := by
  unfold replicate
  split
  · rename_i s' hput
    obtain ⟨data, -, -, rfl⟩ := Storage.put_eq_ok.1 hput
    exact Storage.agreesAt_insert_of_ne s data hne
  · exact Storage.AgreesAt.refl key s

/-- A push to stores that agree on its key has the same result and leaves stores that agree. -/
theorem Storage.AgreesAt.remotePut {key : Bytes} {s t : Storage} (h : s.AgreesAt key t)
    (net : ℕ → Request) (siblings : List Sibling) :
    (GoQuorum.remotePut key net s siblings).1 = (GoQuorum.remotePut key net t siblings).1 ∧
      (GoQuorum.remotePut key net s siblings).2.AgreesAt key
        (GoQuorum.remotePut key net t siblings).2 := by
  induction siblings generalizing net s t with
  | nil => exact ⟨rfl, h⟩
  | cons sib rest ih =>
    obtain ⟨hresp, hstore⟩ := h.replicate (net 0).env (net 0).stamp sib.toData.overJSON
    simp only [GoQuorum.remotePut]
    rw [hresp]
    cases (net 0).outcome with
    | lost => exact ⟨rfl, h⟩
    | unanswered => exact ⟨rfl, hstore⟩
    | answered =>
      dsimp only
      split_ifs
      · exact ih hstore _
      · exact ⟨rfl, hstore⟩

/-- A push leaves the records of other keys alone. -/
theorem agreesAt_remotePut_of_ne {key key' : Bytes} (hne : key' ≠ key) (net : ℕ → Request)
    (s : Storage) (siblings : List Sibling) : (remotePut key' net s siblings).2.AgreesAt key s := by
  induction siblings generalizing net s with
  | nil => exact Storage.AgreesAt.refl key s
  | cons sib rest ih =>
    have hstore := agreesAt_replicate_of_ne hne (net 0).env (net 0).stamp s sib.toData.overJSON
    simp only [remotePut]
    cases (net 0).outcome with
    | lost => exact Storage.AgreesAt.refl key s
    | unanswered => exact hstore
    | answered =>
      dsimp only
      split_ifs
      · exact (ih _ _).trans hstore
      · exact hstore

/-! ## The pushes of a drain -/

/-- A `RemotePut` of the drain. -/
structure RecordPush where
  peerID : NodeID
  key : Bytes
  siblings : SiblingSet
  net : ℕ → Request

namespace RecordPush

/-- The record that a push is about. -/
def target (p : RecordPush) : NodeID × Bytes := (p.peerID, p.key)

/-- The result of a push to a store, and the store it leaves. -/
def send (p : RecordPush) (s : Storage) : Except RPCFailure Unit × Storage :=
  remotePut p.key p.net s p.siblings

end RecordPush

namespace Drain

/-- A push of the drain. -/
def push (d : Drain) (p : RecordPush) : Drain :=
  let (result, peer) := p.send (d.stores p.peerID)
  ⟨Function.update d.stores p.peerID peer,
    if result = .ok () then d.failedPushes else d.failedPushes ++ [p.target]⟩

/-- A push leaves all other records alone. -/
theorem push_at_of_ne {d : Drain} {p : RecordPush} {peerID : NodeID} {key : Bytes}
    (h : p.target ≠ (peerID, key)) :
    ((d.push p).stores peerID).AgreesAt key (d.stores peerID) := by
  unfold push
  dsimp only
  by_cases hpeer : peerID = p.peerID
  · subst hpeer
    rw [Function.update_self]
    exact agreesAt_remotePut_of_ne (fun hkey => h (congrArg (Prod.mk p.peerID) hkey)) _ _ _
  · rw [Function.update_of_ne hpeer]
    exact Storage.AgreesAt.refl key _

theorem push_at_self (d : Drain) (p : RecordPush) :
    (d.push p).stores p.peerID = (p.send (d.stores p.peerID)).2 :=
  Function.update_self _ _ _

theorem failedPushes_push_eq_nil {d : Drain} {p : RecordPush} :
    (d.push p).failedPushes = [] ↔
      d.failedPushes = [] ∧ (p.send (d.stores p.peerID)).1 = .ok () := by
  unfold push
  dsimp only
  split_ifs with h
  · exact (and_iff_left h).symm
  · exact iff_of_false (List.append_ne_nil_of_right_ne_nil _ (List.cons_ne_nil _ _))
      fun hc => h hc.2

/-- A record that no push is about stays. -/
theorem foldl_push_at_of_notMem {peerID : NodeID} {key : Bytes} {pushes : List RecordPush}
    (h : (peerID, key) ∉ pushes.map RecordPush.target) (d : Drain) :
    ((pushes.foldl push d).stores peerID).AgreesAt key (d.stores peerID) := by
  induction pushes generalizing d with
  | nil => exact Storage.AgreesAt.refl key _
  | cons p pushes ih =>
    rw [List.map_cons, List.mem_cons, not_or] at h
    exact (ih h.2 (d.push p)).trans (push_at_of_ne (Ne.symm h.1))

/-- A push that is about none of the records of the others leaves these alone. -/
theorem push_at_of_mem {p q : RecordPush} {pushes : List RecordPush}
    (hq : q.target ∉ pushes.map RecordPush.target) (hp : p ∈ pushes) (d : Drain) :
    ((d.push q).stores p.peerID).AgreesAt p.key (d.stores p.peerID) := by
  refine push_at_of_ne fun h => hq ?_
  rw [h]
  exact List.mem_map_of_mem hp

/-- When no two pushes are about the same record, each leaves what it makes of the record as it was
at the start. -/
theorem foldl_push_at {pushes : List RecordPush} (hnodup : (pushes.map RecordPush.target).Nodup)
    {p : RecordPush} (hp : p ∈ pushes) (d : Drain) :
    ((pushes.foldl push d).stores p.peerID).AgreesAt p.key (p.send (d.stores p.peerID)).2 := by
  induction pushes generalizing d with
  | nil => cases hp
  | cons q pushes ih =>
    rw [List.map_cons, List.nodup_cons] at hnodup
    rcases List.mem_cons.1 hp with rfl | hp
    · rw [← push_at_self]
      exact foldl_push_at_of_notMem hnodup.1 _
    · exact (ih hnodup.2 hp (d.push q)).trans
        ((push_at_of_mem hnodup.1 hp d).remotePut p.net p.siblings).2

/-- Nothing is reported exactly when each push succeeds on the record as it was at the start. -/
theorem failedPushes_foldl_push {pushes : List RecordPush}
    (hnodup : (pushes.map RecordPush.target).Nodup) (d : Drain) :
    (pushes.foldl push d).failedPushes = [] ↔
      d.failedPushes = [] ∧ ∀ p ∈ pushes, (p.send (d.stores p.peerID)).1 = .ok () := by
  induction pushes generalizing d with
  | nil => simp
  | cons q pushes ih =>
    rw [List.map_cons, List.nodup_cons] at hnodup
    have hsame : ∀ p ∈ pushes, (p.send ((d.push q).stores p.peerID)).1 =
        (p.send (d.stores p.peerID)).1 := fun p hp =>
      ((push_at_of_mem hnodup.1 hp d).remotePut p.net p.siblings).1
    rw [List.foldl_cons, ih hnodup.2, failedPushes_push_eq_nil, List.forall_mem_cons, and_assoc]
    exact and_congr_right fun _ => and_congr_right fun _ =>
      forall₂_congr fun p hp => by rw [hsame p hp]

end Drain

namespace AntiEntropy

/-- The pushes of one exchange: none if the request for the root fails or the roots are equal,
otherwise the records of the bucket that the scan comes to. -/
def exchangePushes (ae : AntiEntropy) (store : Storage) (round : NodeID × ℕ × ExchangeEnv) :
    List RecordPush :=
  match round.2.2.peerRoot with
  | .error _ => []
  | .ok peerRoot =>
    if ae.merkleTree.getRoot.1 = peerRoot then []
    else ((store.scan round.2.2.scan).1.filter fun p => ae.bucketOf p.1 = round.2.1).map
      fun p => ⟨round.1, p.1, p.2, round.2.2.net p.1⟩

/-- The pushes of `SyncWithPeers`. -/
def drainPushes (env : LeaveEnv) (ae : AntiEntropy) (store : Storage) (peers : List NodeID) :
    List RecordPush :=
  (ae.rounds env peers).flatMap (ae.exchangePushes store)

variable {ae : AntiEntropy} {store : Storage}

/-- The callback of a scan makes the pushes of the bucket. -/
theorem foldl_pushRecord_eq (env : ExchangeEnv) (peerID : NodeID) (rangeIdx : ℕ)
    (visited : List (Bytes × SiblingSet)) (d : Drain) :
    (⟨Function.update d.stores peerID
        (visited.foldl (ae.pushRecord env rangeIdx) (d.stores peerID)),
      d.failedPushes ++ (ae.failedKeys env rangeIdx (d.stores peerID) visited).map
        fun key => (peerID, key)⟩ : Drain) =
    ((visited.filter fun p => ae.bucketOf p.1 = rangeIdx).map
      fun p => (⟨peerID, p.1, p.2, env.net p.1⟩ : RecordPush)).foldl Drain.push d := by
  induction visited generalizing d with
  | nil =>
    simp only [List.foldl_nil, Function.update_eq_self, failedKeys, List.map_nil, List.append_nil,
      List.filter_nil]
  | cons p visited ih =>
    rw [List.foldl_cons, failedKeys, List.filter_cons]
    by_cases hb : ae.bucketOf p.1 = rangeIdx
    · -- the first push, then the others from the drain it leaves
      rw [if_pos (decide_eq_true hb), List.map_cons, List.foldl_cons, ← ih]
      have hrecord : ae.pushRecord env rangeIdx (d.stores peerID) p =
          (d.push ⟨peerID, p.1, p.2, env.net p.1⟩).stores peerID := by
        rw [pushRecord, if_pos hb]
        exact (Drain.push_at_self d ⟨peerID, p.1, p.2, env.net p.1⟩).symm
      rw [hrecord]
      congr 1
      · exact (Function.update_idem _ _ _).symm
      · simp only [hb, true_and, Drain.push, RecordPush.send]
        by_cases hok : (remotePut p.1 (env.net p.1) (d.stores peerID) p.2).1 = .ok ()
        · simp [hok]
        · simp [hok, RecordPush.target]
    · have hskip : ¬ (ae.bucketOf p.1 = rangeIdx ∧
          (remotePut p.1 (env.net p.1) (d.stores peerID) p.2).1 ≠ .ok ()) := fun h => hb h.1
      rw [decide_eq_false hb, if_neg Bool.false_ne_true, pushRecord, if_neg hb, if_neg hskip]
      exact ih d

theorem pushRecord_congr {ae' : AntiEntropy} (h : ae'.merkleTree.depth = ae.merkleTree.depth)
    (env : ExchangeEnv) (rangeIdx : ℕ) :
    ae'.pushRecord env rangeIdx = ae.pushRecord env rangeIdx := by
  unfold pushRecord
  rw [bucketOf_congr h]

/-- The pushes of an exchange depend on the tree by its depth and the hashes of its buckets. -/
theorem exchangePushes_congr {ae' : AntiEntropy}
    (hdepth : ae'.merkleTree.depth = ae.merkleTree.depth)
    (hleaves : ae'.merkleTree.leafHashes = ae.merkleTree.leafHashes) :
    ae'.exchangePushes store = ae.exchangePushes store := by
  unfold exchangePushes
  rw [bucketOf_congr hdepth, MerkleTree.getRoot_fst, MerkleTree.getRoot_fst, hdepth, hleaves]

/-- One round makes the pushes of its exchange. -/
theorem syncBucket_eq (d : Drain) (round : NodeID × ℕ × ExchangeEnv) :
    syncBucket store (d, ae) round = ((ae.exchangePushes store round).foldl Drain.push d,
      { ae with merkleTree := ae.merkleTree.getRoot.2 }) := by
  obtain ⟨peerID, i, env⟩ := round
  have hnone : (⟨Function.update d.stores peerID (d.stores peerID),
      d.failedPushes ++ ([] : List Bytes).map fun key => (peerID, key)⟩ : Drain) = d := by
    rw [Function.update_eq_self, List.map_nil, List.append_nil]
  unfold syncBucket exchangeWithPeer reportedKeys exchangePushes
  dsimp only
  cases env.peerRoot with
  | error err => exact congrArg (Prod.mk · _) hnone
  | ok peerRoot =>
    dsimp only
    split_ifs with hroot
    · exact congrArg (Prod.mk · _) hnone
    · rw [← foldl_pushRecord_eq, pushRecord_congr ae.merkleTree.getRoot_snd.1]

/-- The drain makes its pushes one after the other. -/
theorem syncWithPeers_eq (env : LeaveEnv) (ae : AntiEntropy) (store : Storage)
    (peers : List NodeID) (d : Drain) (henabled : ae.enabled = true) :
    (ae.syncWithPeers env store peers d).1 =
      (ae.drainPushes env store peers).foldl Drain.push d := by
  -- over any rounds; only the root and the depth of the tree matter on the way
  have loop : ∀ (rounds : List (NodeID × ℕ × ExchangeEnv)) (ae' : AntiEntropy) (d : Drain),
      ae'.merkleTree.depth = ae.merkleTree.depth →
      ae'.merkleTree.leafHashes = ae.merkleTree.leafHashes →
      (rounds.foldl (syncBucket store) (d, ae')).1 =
        (rounds.flatMap (ae.exchangePushes store)).foldl Drain.push d := by
    intro rounds
    induction rounds with
    | nil => exact fun _ _ _ _ => rfl
    | cons round rounds ih =>
      intro ae' d hdepth hleaves
      obtain ⟨hd, hl⟩ := ae'.merkleTree.getRoot_snd
      rw [List.foldl_cons, syncBucket_eq, ih _ _ (hd.trans hdepth) (hl.trans hleaves),
        exchangePushes_congr hdepth hleaves, List.flatMap_cons, List.foldl_append]
  rw [syncWithPeers, if_pos henabled]
  exact loop _ ae d rfl rfl

end AntiEntropy

/-! ## No record is pushed twice -/

namespace AntiEntropy

variable {ae : AntiEntropy} {store : Storage} {env : LeaveEnv}

theorem rounds_sublist (env : LeaveEnv) (pairs : List (NodeID × ℕ)) :
    ((roundsUntilStopped env pairs).map fun round => (round.1, round.2.1)).Sublist pairs := by
  induction pairs with
  | nil => exact List.Sublist.refl _
  | cons pair pairs ih =>
    rw [roundsUntilStopped]
    cases env.exchange pair.1 pair.2 with
    | none => exact List.nil_sublist _
    | some exchange => exact ih.cons_cons pair

/-- A push of an exchange is about a record of the bucket. -/
theorem of_mem_exchangePushes {round : NodeID × ℕ × ExchangeEnv} {p : RecordPush}
    (h : p ∈ ae.exchangePushes store round) :
    (p.peerID, ae.bucketOf p.key) = (round.1, round.2.1) ∧ (p.key, p.siblings) ∈ store.records := by
  unfold exchangePushes at h
  split at h
  · cases h
  split_ifs at h
  · cases h
  obtain ⟨r, hr, rfl⟩ := List.mem_map.1 h
  obtain ⟨hvisited, hbucket⟩ := List.mem_filter.1 hr
  rw [decide_eq_true_eq] at hbucket
  exact ⟨by rw [hbucket], (Storage.scan_sublist _ _).subset hvisited⟩

theorem nodup_exchangePushes (round : NodeID × ℕ × ExchangeEnv) :
    ((ae.exchangePushes store round).map RecordPush.target).Nodup := by
  unfold exchangePushes
  split
  · exact List.nodup_nil
  split_ifs
  · exact List.nodup_nil
  rw [List.map_map]
  have hsub := ((List.filter_sublist (p := fun p => decide (ae.bucketOf p.1 = round.2.1))).trans
    (Storage.scan_sublist round.2.2.scan store)).map Prod.fst
  have hkeys := (hsub.nodup store.nodup_keys_records).map (Prod.mk_right_injective round.1)
  rwa [List.map_map] at hkeys

/-- No two pushes of a drain are about the same record of the same peer. -/
theorem nodup_drainPushes {peers : List NodeID} (h : peers.Nodup) :
    ((ae.drainPushes env store peers).map RecordPush.target).Nodup := by
  have hpairs : (peers.flatMap fun peerID =>
      (List.range (2 ^ ae.merkleTree.depth)).map fun i => (peerID, i)).Nodup :=
    h.product List.nodup_range
  have hrounds := (rounds_sublist env _).nodup hpairs
  rw [drainPushes, List.map_flatMap, List.nodup_flatMap]
  refine ⟨fun round _ => nodup_exchangePushes round, ?_⟩
  refine (List.pairwise_map.1 hrounds).imp fun hne => ?_
  -- a key in two rounds would be in two buckets
  rw [Function.onFun, List.disjoint_left]
  intro target h₁ h₂
  obtain ⟨p, hp, rfl⟩ := List.mem_map.1 h₁
  obtain ⟨q, hq, heq⟩ := List.mem_map.1 h₂
  obtain ⟨hpeer, hkey⟩ := Prod.mk.inj heq
  refine hne ((of_mem_exchangePushes hp).1.symm.trans ?_)
  rw [← (of_mem_exchangePushes hq).1, hpeer, hkey]

/-- A drain pushes records of the store to the peers. -/
theorem of_mem_drainPushes {peers : List NodeID} {p : RecordPush}
    (h : p ∈ ae.drainPushes env store peers) :
    p.peerID ∈ peers ∧ (p.key, p.siblings) ∈ store.records := by
  obtain ⟨round, hround, hp⟩ := List.mem_flatMap.1 h
  obtain ⟨hpair, hrecord⟩ := of_mem_exchangePushes hp
  refine ⟨?_, hrecord⟩
  have hmem := (rounds_sublist env _).subset
    (List.mem_map_of_mem (f := fun round => (round.1, round.2.1)) hround)
  obtain ⟨peerID, hpeer, hi⟩ := List.mem_flatMap.1 hmem
  obtain ⟨i, -, he⟩ := List.mem_map.1 hi
  rw [(Prod.mk.inj hpair).1, ← (Prod.mk.inj he).1]
  exact hpeer

end AntiEntropy

/-! ## What leaving keeps -/

/-- For every sibling of the set the store holds one under the key whose clock dominates it. -/
def Storage.Covers (s : Storage) (key : Bytes) (set : SiblingSet) : Prop :=
  ∀ sib ∈ set, ∃ x ∈ s.held key, x.vclock.dominates sib.vclock = true

instance (s : Storage) (key : Bytes) (set : SiblingSet) : Decidable (s.Covers key set) :=
  inferInstanceAs (Decidable (∀ sib ∈ set, ∃ x ∈ s.held key, _ = _))

theorem Storage.AgreesAt.covers_iff {key : Bytes} {s t : Storage} (h : s.AgreesAt key t)
    (set : SiblingSet) : s.Covers key set ↔ t.Covers key set := by
  unfold Storage.Covers Storage.held
  rw [Storage.stored_congr h.record]

/-- Every request of a push is answered, the peer accepts each sibling, and what it then holds covers
them. -/
def RecordPush.Absorbed (p : RecordPush) (s : Storage) : Prop :=
  ∃ t, exec Storage.accept s (pushesOf p.net (p.key, p.siblings)) = some t ∧
    t.Covers p.key p.siblings

instance (p : RecordPush) (s : Storage) : Decidable (p.Absorbed s) :=
  inferInstanceAs (Decidable (∃ t, t ∈ exec Storage.accept s _ ∧ t.Covers p.key p.siblings))

/-- A `RemotePut` that succeeds has had every request accepted. -/
theorem exec_of_remotePut {key : Bytes} {net : ℕ → Request} {s : Storage} {siblings : SiblingSet}
    (h : (remotePut key net s siblings).1 = .ok ()) :
    exec Storage.accept s (pushesOf net (key, siblings)) =
      some (remotePut key net s siblings).2 := by
  induction siblings generalizing net s with
  | nil => rfl
  | cons sib rest ih =>
    have hpushes : pushesOf net (key, sib :: rest) =
        ⟨key, sib, net 0⟩ :: pushesOf (fun i => net (i + 1)) (key, rest) := List.mapIdx_cons
    obtain ⟨hout, t, hput, hrest⟩ := remotePut_cons_eq_ok h
    rw [hrest] at h ⊢
    rw [hpushes, exec, Storage.accept_eq_some.2 ⟨hout, hput⟩]
    exact ih h

theorem RecordPush.absorbed_iff {p : RecordPush} {s : Storage} :
    p.Absorbed s ↔ (p.send s).1 = .ok () ∧ (p.send s).2.Covers p.key p.siblings := by
  constructor
  · rintro ⟨t, hexec, hcovers⟩
    rw [send, remotePut_of_exec hexec]
    exact ⟨rfl, hcovers⟩
  · rintro ⟨hok, hcovers⟩
    exact ⟨_, exec_of_remotePut hok, hcovers⟩

namespace NodeServices

variable {sum64 : Bytes → UInt64}

/-- Leaving loses no data: if it succeeds, every remaining peer covers every local record; if a push
has failed, it fails and leaves the ring and the members as they were. -/
def LosesNothing (env : LeaveEnv) (node : NodeServices sum64) (stores : NodeID → Storage)
    (nodeID : NodeID) : Prop :=
  let (result, node', d) := node.leaveNode env stores nodeID
  (result = .ok () → ∀ peerID ∈ node.ring.nodes, peerID ≠ nodeID → peerID ≠ node.nodeID →
    ∀ r ∈ node.storage.records, (d.stores peerID).Covers r.1 r.2) ∧
  (d.failedPushes ≠ [] →
    result ≠ .ok () ∧ node'.ring = node.ring ∧ node'.membership = node.membership)

/-- The pushes that `LeaveNode` makes. -/
def leavePushes (env : LeaveEnv) (node : NodeServices sum64) (nodeID : NodeID) :
    List RecordPush :=
  node.antiEntropy.drainPushes env node.storage (node.remaining env nodeID)

/-- The state in which leaving loses no data: the node is not in the ring; or the peers absorb every
push, and each of them already covers the records that are not pushed to it. -/
def SafeToLeave (env : LeaveEnv) (node : NodeServices sum64) (stores : NodeID → Storage)
    (nodeID : NodeID) : Prop :=
  nodeID ∉ node.ring.nodes ∨
    ((∀ p ∈ node.leavePushes env nodeID, p.Absorbed (stores p.peerID)) ∧
      ∀ peerID ∈ node.ring.nodes, peerID ≠ nodeID → peerID ≠ node.nodeID →
        ∀ r ∈ node.storage.records,
          (peerID, r.1) ∉ (node.leavePushes env nodeID).map RecordPush.target →
          (stores peerID).Covers r.1 r.2)

instance (env : LeaveEnv) (node : NodeServices sum64) (stores : NodeID → Storage)
    (nodeID : NodeID) : Decidable (node.SafeToLeave env stores nodeID) :=
  inferInstanceAs (Decidable (_ ∨ _ ∧ _))

/-- `LeaveNode` makes its pushes. -/
theorem leaveNode_drain (env : LeaveEnv) (node : NodeServices sum64) (stores : NodeID → Storage)
    (nodeID : NodeID) (henabled : node.antiEntropy.enabled = true) :
    (node.leaveNode env stores nodeID).2.2 =
      (node.leavePushes env nodeID).foldl Drain.push ⟨stores, []⟩ := by
  have hdrain : (if (node.remaining env nodeID).length > 0 then
        node.antiEntropy.syncWithPeers env node.storage (node.remaining env nodeID) ⟨stores, []⟩
      else (⟨stores, []⟩, node.antiEntropy)).1 =
      (node.leavePushes env nodeID).foldl Drain.push ⟨stores, []⟩ := by
    split_ifs with h
    · exact AntiEntropy.syncWithPeers_eq env _ _ _ _ henabled
    · rw [leavePushes, List.eq_nil_of_length_eq_zero (Nat.eq_zero_of_not_pos h)]
      rfl
  rw [← hdrain]
  unfold leaveNode
  dsimp only
  cases node.ring.removeNode nodeID <;> rfl

/-- `LeaveNode` fails for a node that is not in the ring, and leaves the tables as they were. -/
theorem leaveNode_of_notMem (env : LeaveEnv) {node : NodeServices sum64}
    (stores : NodeID → Storage) {nodeID : NodeID} (h : nodeID ∉ node.ring.nodes) :
    (node.leaveNode env stores nodeID).1 = .error .nodeNotFound ∧
      (node.leaveNode env stores nodeID).2.1.ring = node.ring ∧
      (node.leaveNode env stores nodeID).2.1.membership = node.membership := by
  have hremove : node.ring.removeNode nodeID = .error .nodeNotFound := if_pos h
  unfold leaveNode
  dsimp only
  rw [hremove]
  exact ⟨rfl, rfl, rfl⟩

/-- `LeaveNode` removes a node of the ring whatever the drain has met. -/
theorem leaveNode_of_mem (env : LeaveEnv) {node : NodeServices sum64}
    (stores : NodeID → Storage) {nodeID : NodeID} (h : nodeID ∈ node.ring.nodes) :
    (node.leaveNode env stores nodeID).1 = .ok () ∧
      (node.leaveNode env stores nodeID).2.1.ring.nodes = node.ring.nodes.filter (· ≠ nodeID) ∧
      (node.leaveNode env stores nodeID).2.1.membership = node.membership.removePeer nodeID := by
  obtain ⟨ring, hring, hnodes⟩ : ∃ ring, node.ring.removeNode nodeID = .ok ring ∧
      ring.nodes = node.ring.nodes.filter (· ≠ nodeID) := by
    unfold HashRing.removeNode
    rw [if_neg (not_not.2 h)]
    exact ⟨_, rfl, rfl⟩
  unfold leaveNode
  dsimp only
  rw [hring]
  exact ⟨rfl, hnodes, rfl⟩

/-- After the pushes every remaining peer covers every local record, exactly when it covers what has
been pushed to it and did so before for the rest. -/
theorem covers_after_pushes_iff (env : LeaveEnv) (node : NodeServices sum64)
    (stores : NodeID → Storage) (nodeID : NodeID) :
    (∀ peerID ∈ node.ring.nodes, peerID ≠ nodeID → peerID ≠ node.nodeID →
      ∀ r ∈ node.storage.records,
        (((node.leavePushes env nodeID).foldl Drain.push ⟨stores, []⟩).stores peerID).Covers
          r.1 r.2) ↔
    (∀ p ∈ node.leavePushes env nodeID, (p.send (stores p.peerID)).2.Covers p.key p.siblings) ∧
      ∀ peerID ∈ node.ring.nodes, peerID ≠ nodeID → peerID ≠ node.nodeID →
        ∀ r ∈ node.storage.records,
          (peerID, r.1) ∉ (node.leavePushes env nodeID).map RecordPush.target →
          (stores peerID).Covers r.1 r.2 := by
  have hnodup : ((node.leavePushes env nodeID).map RecordPush.target).Nodup :=
    AntiEntropy.nodup_drainPushes (node.nodup_remaining env nodeID)
  have hpushed : ∀ p ∈ node.leavePushes env nodeID, ∀ set,
      (((node.leavePushes env nodeID).foldl Drain.push ⟨stores, []⟩).stores p.peerID).Covers
        p.key set ↔ (p.send (stores p.peerID)).2.Covers p.key set :=
    fun p hp set => (Drain.foldl_push_at hnodup hp ⟨stores, []⟩).covers_iff set
  constructor
  · intro h
    refine ⟨fun p hp => ?_, fun peerID hpeer hne hself r hr hnot => ?_⟩
    · obtain ⟨hpeer, hrecord⟩ := AntiEntropy.of_mem_drainPushes hp
      obtain ⟨hmem, hne, hself⟩ := mem_remaining.1 hpeer
      exact (hpushed p hp _).1 (h p.peerID hmem hne hself _ hrecord)
    · exact ((Drain.foldl_push_at_of_notMem hnot ⟨stores, []⟩).covers_iff _).1
        (h peerID hpeer hne hself r hr)
  · rintro ⟨hpush, hrest⟩ peerID hpeer hne hself r hr
    by_cases htarget : (peerID, r.1) ∈ (node.leavePushes env nodeID).map RecordPush.target
    · obtain ⟨p, hp, he⟩ := List.mem_map.1 htarget
      obtain ⟨rfl, hkey⟩ := Prod.mk.inj he
      -- the push carries the siblings of the record, since keys are not repeated
      have hrecord := (AntiEntropy.of_mem_drainPushes hp).2
      obtain rfl : (p.key, p.siblings) = r :=
        List.inj_on_of_nodup_map node.storage.nodup_keys_records hrecord hr hkey
      exact (hpushed p hp _).2 (hpush p hp)
    · exact ((Drain.foldl_push_at_of_notMem htarget ⟨stores, []⟩).covers_iff _).2
        (hrest peerID hpeer hne hself r hr htarget)

end NodeServices

/-- For every node with anti-entropy, whatever its store, its Merkle tree and the stores of its peers,
and whatever the requests of the call meet: leaving loses no data exactly when the node that leaves is
not in the ring, or the peers absorb every push and already cover what is not pushed to them. -/
theorem leave_loses_nothing_iff {sum64 : Bytes → UInt64} (env : LeaveEnv)
    (node : NodeServices sum64) (stores : NodeID → Storage) (nodeID : NodeID)
    (henabled : node.antiEntropy.enabled = true) :
    node.LosesNothing env stores nodeID ↔ node.SafeToLeave env stores nodeID := by
  unfold NodeServices.LosesNothing NodeServices.SafeToLeave
  dsimp only
  by_cases hmem : nodeID ∈ node.ring.nodes
  · have hnodup : ((node.leavePushes env nodeID).map RecordPush.target).Nodup :=
      AntiEntropy.nodup_drainPushes (node.nodup_remaining env nodeID)
    have hsent := Drain.failedPushes_foldl_push hnodup ⟨stores, []⟩
    obtain ⟨hok, -, -⟩ := NodeServices.leaveNode_of_mem env stores hmem
    rw [node.leaveNode_drain env stores nodeID henabled, hok, or_iff_right (not_not.2 hmem)]
    simp only [RecordPush.absorbed_iff]
    constructor
    · -- the call succeeds, so no push has failed
      rintro ⟨hcovers, hfailed⟩
      obtain ⟨hpushed, hrest⟩ := (node.covers_after_pushes_iff env stores nodeID).1 (hcovers trivial)
      have hnone := (hsent.1 (by_contra fun h => (hfailed h).1 rfl)).2
      exact ⟨fun p hp => ⟨hnone p hp, hpushed p hp⟩, hrest⟩
    · rintro ⟨habsorbed, hrest⟩
      have hnone := hsent.2 ⟨rfl, fun p hp => (habsorbed p hp).1⟩
      exact ⟨fun _ => (node.covers_after_pushes_iff env stores nodeID).2
        ⟨fun p hp => (habsorbed p hp).2, hrest⟩, fun h => absurd hnone h⟩
  · obtain ⟨herr, hring, hmembers⟩ := NodeServices.leaveNode_of_notMem env stores hmem
    rw [herr]
    refine iff_of_true ⟨fun h => ?_, fun _ => ⟨fun h => ?_, hring, hmembers⟩⟩ (Or.inl hmem)
    · cases h
    · cases h

/-! ## A cluster of three -/

/-- The node `n1` with one record, under the key `k`, whose Merkle tree has two buckets. -/
def drainingNode : NodeServices sampleSum64 where
  nodeID := [110, 49]
  ring := sampleRing [n1, n2, n3]
  membership := MembershipManager.new (sampleConfig [110, 49])
  antiEntropy := AntiEntropy.new true 1
  storage := ((Storage.new defaultStorageOptions).put (CallEnv.steady 100) [107]
    [⟨[118], VectorClock.new.set 100 [110, 49] 1, 100, false, 0⟩]).toOption.getD
      (Storage.new defaultStorageOptions)

/-- Exchanges in which the peers answer with another root and all pushes end the same way. -/
def drainEnv (outcome : RequestOutcome) : LeaveEnv where
  allNodes := MapOrder.inOrder NodeID
  exchange := fun _ _ => some
    ⟨.ok [], ScanEnv.quiet, fun _ _ => ⟨outcome, CallEnv.steady 100, fun _ => 100⟩⟩

/-- The peers of `drainingNode`, whose stores are empty. -/
def emptyStores : NodeID → Storage := fun _ => Storage.new defaultStorageOptions

/-- When the pushes arrive, `n3` leaves without loss. -/
theorem leave_loses_nothing_of_answers :
    (drainingNode.leaveNode (drainEnv .answered) emptyStores [110, 51]).1 = .ok () ∧
      drainingNode.LosesNothing (drainEnv .answered) emptyStores [110, 51] :=
  ⟨by decide +kernel, (leave_loses_nothing_iff _ _ _ _ rfl).2 (by decide +kernel)⟩

/-- When the pushes are lost, `n3` leaves all the same, and `n2` does not have the record. -/
theorem leave_succeeds_without_pushes :
    let (result, node, d) := drainingNode.leaveNode (drainEnv .lost) emptyStores [110, 51]
    result = .ok () ∧ [110, 51] ∉ node.ring.nodes ∧ d.failedPushes = [([110, 50], [107])] ∧
      drainingNode.storage.held [107] ≠ [] ∧ (d.stores [110, 50]).held [107] = [] := by
  decide +kernel

end GoQuorum
