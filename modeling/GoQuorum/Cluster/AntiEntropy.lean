import GoQuorum.Cluster.MerkleTree
import GoQuorum.Lib.Runs
import GoQuorum.Server.Transport

/-!
# Anti-entropy

`internal/cluster/anti_entropy.go`.  A node keeps a Merkle tree over its store.  It is built at the
start and then follows the notifications of the coordinator.  In an exchange the node compares its
root with that of a peer and, if they differ, pushes all its records of one bucket to the peer, one
request for each sibling.

When every request of an exchange succeeds, the peer's store is what the requests, taken one after
the other, make of it (`exchangeAll_eq`).
-/

namespace GoQuorum

open Lib

/-! ## The service -/

/-- The parts of `AntiEntropy` that its operations read. -/
structure AntiEntropy where
  enabled : Bool
  merkleTree : MerkleTree sha256

namespace AntiEntropy

/-- `NewAntiEntropy`. -/
def new (enabled : Bool) (merkleDepth : ℕ) : AntiEntropy :=
  ⟨enabled, MerkleTree.new sha256 merkleDepth⟩

/-- `Start`, up to the start of the scheduler: the error, and the service it leaves. -/
def start (env : ScanEnv) (store : Storage) (ae : AntiEntropy) : Option ScanError × AntiEntropy :=
  if ae.enabled then
    let built := ae.merkleTree.build env store
    (built.1, { ae with merkleTree := built.2 })
  else (none, ae)

/-- `OnKeyUpdate`. -/
def onKeyUpdate (ae : AntiEntropy) (key : Bytes) (siblings : Option SiblingSet) : AntiEntropy :=
  if ae.enabled then { ae with merkleTree := ae.merkleTree.updateKey key siblings } else ae

/-- `OnKeyDelete`. -/
def onKeyDelete (ae : AntiEntropy) (key : Bytes) (oldSiblings : Option SiblingSet) : AntiEntropy :=
  if ae.enabled then { ae with merkleTree := ae.merkleTree.removeKey key oldSiblings } else ae

/-- What the coordinator reports once a write has its quorum: `OnKeyUpdate` after `Put`,
`OnKeyDelete` after `Delete`. -/
inductive KeyReport where
  | updated (key : Bytes) (siblings : Option SiblingSet)
  | deleted (key : Bytes) (oldSiblings : Option SiblingSet)

def report (ae : AntiEntropy) : KeyReport → AntiEntropy
  | .updated key siblings => ae.onKeyUpdate key siblings
  | .deleted key oldSiblings => ae.onKeyDelete key oldSiblings

theorem report_fixed (ae : AntiEntropy) (r : KeyReport) :
    (ae.report r).enabled = ae.enabled ∧ (ae.report r).merkleTree.depth = ae.merkleTree.depth := by
  have htoggle : ∀ (key : Bytes) (siblings : Option SiblingSet),
      (ae.merkleTree.toggleKey key siblings).depth = ae.merkleTree.depth := by
    intro key siblings
    cases siblings with
    | none => rfl
    | some set => rfl
  cases r with
  | updated key siblings =>
    simp only [report, onKeyUpdate]
    split_ifs
    · exact ⟨rfl, htoggle key siblings⟩
    · exact ⟨rfl, rfl⟩
  | deleted key oldSiblings =>
    simp only [report, onKeyDelete]
    split_ifs
    · exact ⟨rfl, htoggle key oldSiblings⟩
    · exact ⟨rfl, rfl⟩

end AntiEntropy

/-! ## Exchanges -/

/-- What an exchange meets: the answer of the peer to `GetMerkleRoot`, how the scan goes, and the
requests that push the siblings of a key. -/
structure ExchangeEnv where
  peerRoot : Except RPCFailure Bytes
  scan : ScanEnv
  net : Bytes → ℕ → Request

/-- The errors of an exchange. -/
inductive ExchangeError where
  | peerRoot (err : RPCFailure)
  | scan (err : ScanError)
  deriving DecidableEq

namespace AntiEntropy

/-- The bucket of a key. -/
def bucketOf (ae : AntiEntropy) (key : Bytes) : ℕ := keyToBucket sha256 ae.merkleTree.depth key

/-- The callback of `exchangeWithPeer`: a key of the bucket is pushed, and a push that fails is only
reported. -/
def pushRecord (env : ExchangeEnv) (ae : AntiEntropy) (rangeIdx : ℕ) (peer : Storage)
    (p : Bytes × SiblingSet) : Storage :=
  if ae.bucketOf p.1 = rangeIdx then (remotePut p.1 (env.net p.1) peer p.2).2 else peer

/-- `exchangeWithPeer`: the error, and the peer's store and the service as it leaves them. -/
def exchangeWithPeer (env : ExchangeEnv) (ae : AntiEntropy) (store : Storage) (rangeIdx : ℕ)
    (peer : Storage) : Option ExchangeError × Storage × AntiEntropy :=
  let (myRoot, merkleTree) := ae.merkleTree.getRoot
  let ae := { ae with merkleTree }
  match env.peerRoot with
  | .error err => (some (.peerRoot err), peer, ae)
  | .ok peerRoot =>
    if myRoot = peerRoot then (none, peer, ae)
    else
      let (visited, err) := store.scan env.scan
      (err.map .scan, visited.foldl (ae.pushRecord env rangeIdx) peer, ae)

/-- The loop of `TriggerWithPeer` and `SyncWithPeers` over the buckets, whose errors are only
reported. -/
def exchangeAll (env : ℕ → ExchangeEnv) (ae : AntiEntropy) (store peer : Storage) :
    Storage × AntiEntropy :=
  (List.range (2 ^ ae.merkleTree.depth)).foldl
    (fun state i => (state.2.exchangeWithPeer (env i) store i state.1).2) (peer, ae)

end AntiEntropy

/-! ## Exchanges in which every request succeeds -/

/-- One sibling pushed to a peer. -/
structure Push where
  key : Bytes
  sibling : Sibling
  request : Request

/-- What the peer makes of the sibling. -/
def Push.incoming (p : Push) : Sibling := p.sibling.received p.request.stamp

/-- The peer's store after a push that is answered with success. -/
def Storage.accept (s : Storage) (p : Push) : Option Storage :=
  if p.request.outcome = .answered then (s.put p.request.env p.key [p.incoming]).toOption else none

theorem Storage.accept_eq_some {s s' : Storage} {p : Push} : s.accept p = some s' ↔
    p.request.outcome = .answered ∧ s.put p.request.env p.key [p.incoming] = .ok s' := by
  unfold accept
  split_ifs with h
  · rw [toOption_eq_some, and_iff_right h]
  · exact iff_of_false nofun fun hc => h hc.1

/-- The pushes of `RemotePut` for one key. -/
def pushesOf (net : ℕ → Request) (p : Bytes × SiblingSet) : List Push :=
  p.2.mapIdx fun i sib => ⟨p.1, sib, net i⟩

theorem mem_pushesOf {net : ℕ → Request} {p : Bytes × SiblingSet} {push : Push}
    (h : push ∈ pushesOf net p) : push.key = p.1 ∧ push.sibling ∈ p.2 := by
  obtain ⟨i, hi, rfl⟩ := List.mem_mapIdx.1 h
  exact ⟨rfl, List.getElem_mem hi⟩

theorem exists_mem_pushesOf (net : ℕ → Request) {p : Bytes × SiblingSet} {sib : Sibling}
    (h : sib ∈ p.2) : ∃ push ∈ pushesOf net p, push.key = p.1 ∧ push.sibling = sib := by
  obtain ⟨i, hi, rfl⟩ := List.mem_iff_getElem.1 h
  exact ⟨⟨p.1, p.2[i], net i⟩, List.mem_mapIdx.2 ⟨i, hi, rfl⟩, rfl, rfl⟩

/-- `RemotePut` succeeds when each of its requests does. -/
theorem remotePut_of_exec {key : Bytes} {net : ℕ → Request} {s s' : Storage} {siblings : SiblingSet}
    (h : exec Storage.accept s (pushesOf net (key, siblings)) = some s') :
    remotePut key net s siblings = (.ok (), s') := by
  induction siblings generalizing net s with
  | nil =>
    obtain rfl := Option.some.inj h
    rfl
  | cons sib rest ih =>
    simp only [pushesOf, List.mapIdx_cons] at h
    obtain ⟨t, ht, hrest⟩ := Option.bind_eq_some_iff.1 h
    obtain ⟨hout, hput⟩ := Storage.accept_eq_some.1 ht
    have hreq : replicate (net 0).env (net 0).stamp s ⟨key, sib.toData.overJSON⟩ =
        (⟨true, none⟩, t) := by
      have hincoming : s.put (net 0).env (ReplicateReq.mk key sib.toData.overJSON).key
        (ReplicateReq.siblings (net 0).stamp ⟨key, sib.toData.overJSON⟩) = .ok t := hput
      rw [replicate, hincoming]
    simp only at hout
    simp only [remotePut, hreq, hout, if_true]
    exact ih hrest

namespace AntiEntropy

variable {ae : AntiEntropy} {store peer peer' : Storage}

/-- The pushes of an exchange. -/
def bucketPushes (env : ExchangeEnv) (ae : AntiEntropy) (records : List (Bytes × SiblingSet))
    (rangeIdx : ℕ) : List Push :=
  (records.filter fun p => ae.bucketOf p.1 = rangeIdx).flatMap fun p => pushesOf (env.net p.1) p

theorem bucketOf_congr {ae' : AntiEntropy} (h : ae'.merkleTree.depth = ae.merkleTree.depth) :
    ae'.bucketOf = ae.bucketOf := by
  unfold bucketOf
  rw [h]

theorem bucketPushes_congr {ae' : AntiEntropy}
    (h : ae'.merkleTree.depth = ae.merkleTree.depth) (env : ExchangeEnv)
    (records : List (Bytes × SiblingSet)) (rangeIdx : ℕ) :
    ae'.bucketPushes env records rangeIdx = ae.bucketPushes env records rangeIdx := by
  rw [bucketPushes, bucketPushes, bucketOf_congr h]

/-- The pushes of the exchanges for all buckets. -/
def allPushes (env : ℕ → ExchangeEnv) (ae : AntiEntropy) (records : List (Bytes × SiblingSet)) :
    List Push :=
  (List.range (2 ^ ae.merkleTree.depth)).flatMap fun i => ae.bucketPushes (env i) records i

/-- Only records are pushed. -/
theorem mem_allPushes {env : ℕ → ExchangeEnv} {records : List (Bytes × SiblingSet)} {push : Push}
    (h : push ∈ ae.allPushes env records) :
    ∃ p ∈ records, push.key = p.1 ∧ push.sibling ∈ p.2 := by
  obtain ⟨i, -, h⟩ := List.mem_flatMap.1 h
  obtain ⟨p, hp, h⟩ := List.mem_flatMap.1 h
  exact ⟨p, (List.mem_filter.1 hp).1, mem_pushesOf h⟩

/-- Every record is pushed: each key is in one of the buckets. -/
theorem exists_mem_allPushes (env : ℕ → ExchangeEnv) {records : List (Bytes × SiblingSet)}
    {p : Bytes × SiblingSet} (hp : p ∈ records) {sib : Sibling} (h : sib ∈ p.2) :
    ∃ push ∈ ae.allPushes env records, push.key = p.1 ∧ push.sibling = sib := by
  obtain ⟨push, hpush, hkey, hsib⟩ :=
    exists_mem_pushesOf ((env (ae.bucketOf p.1)).net p.1) h
  refine ⟨push, List.mem_flatMap.2 ⟨ae.bucketOf p.1, ?_, ?_⟩, hkey, hsib⟩
  · exact List.mem_range.2 (keyToBucket_lt sha256 _ _)
  · exact List.mem_flatMap.2 ⟨p, List.mem_filter.2 ⟨hp, decide_eq_true rfl⟩, hpush⟩

theorem foldl_pushRecord_of_exec {env : ExchangeEnv} {rangeIdx : ℕ}
    {records : List (Bytes × SiblingSet)}
    (h : exec Storage.accept peer (ae.bucketPushes env records rangeIdx) = some peer') :
    records.foldl (ae.pushRecord env rangeIdx) peer = peer' := by
  induction records generalizing peer with
  | nil => exact Option.some.inj h
  | cons p records ih =>
    rw [List.foldl_cons, pushRecord]
    rw [bucketPushes, List.filter_cons] at h
    split_ifs with hb
    · simp only [hb, decide_true, if_true, List.flatMap_cons, exec_append] at h
      obtain ⟨t, ht, hrest⟩ := Option.bind_eq_some_iff.1 h
      rw [remotePut_of_exec ht]
      exact ih hrest
    · simp only [hb, decide_false, Bool.false_eq_true, if_false] at h
      exact ih h

/-- The comparison of roots reports a difference in every exchange, and no scan fails. -/
structure Diverges (env : ℕ → ExchangeEnv) (ae : AntiEntropy) (store : Storage) : Prop where
  differs : ∀ i, ∃ peerRoot, (env i).peerRoot = .ok peerRoot ∧ ae.merkleTree.getRoot.1 ≠ peerRoot
  scanned : ∀ i, (store.scan (env i).scan).2 = none

/-- An exchange that finds a difference pushes the bucket. -/
theorem exchangeWithPeer_of_exec {env : ℕ → ExchangeEnv} {i : ℕ} (hdiv : Diverges env ae store)
    (h : exec Storage.accept peer (ae.bucketPushes (env i) store.records i) = some peer') :
    (ae.exchangeWithPeer (env i) store i peer).2 =
      (peer', { ae with merkleTree := ae.merkleTree.getRoot.2 }) := by
  obtain ⟨root, hroot, hne⟩ := hdiv.differs i
  have hdepth : ({ ae with merkleTree := ae.merkleTree.getRoot.2 } : AntiEntropy).merkleTree.depth =
      ae.merkleTree.depth := ae.merkleTree.getRoot_snd.1
  rw [← bucketPushes_congr hdepth] at h
  unfold exchangeWithPeer
  dsimp only
  rw [hroot]
  dsimp only
  rw [if_neg hne, Storage.scan_eq (hdiv.scanned i), foldl_pushRecord_of_exec h]

/-- When every request succeeds, the exchanges for all buckets leave the peer with what the pushes
make of its store. -/
theorem exchangeAll_eq {env : ℕ → ExchangeEnv} (hdiv : Diverges env ae store)
    (h : exec Storage.accept peer (ae.allPushes env store.records) = some peer') :
    (ae.exchangeAll env store peer).1 = peer' := by
  -- over any list of buckets; only the root and the depth of the tree matter on the way
  have loop : ∀ (buckets : List ℕ) (ae' : AntiEntropy) (peer : Storage),
      ae'.merkleTree.depth = ae.merkleTree.depth →
      ae'.merkleTree.leafHashes = ae.merkleTree.leafHashes →
      exec Storage.accept peer (buckets.flatMap fun i =>
        ae.bucketPushes (env i) store.records i) = some peer' →
      (buckets.foldl (fun state i => (state.2.exchangeWithPeer (env i) store i state.1).2)
        (peer, ae')).1 = peer' := by
    intro buckets
    induction buckets with
    | nil => exact fun _ _ _ _ h => Option.some.inj h
    | cons i buckets ih =>
      intro ae' peer hdepth hleaves h
      rw [List.flatMap_cons, exec_append] at h
      obtain ⟨t, ht, hrest⟩ := Option.bind_eq_some_iff.1 h
      have hdiv' : Diverges env ae' store := by
        refine ⟨fun j => ?_, hdiv.scanned⟩
        rw [MerkleTree.getRoot_fst, hdepth, hleaves, ← MerkleTree.getRoot_fst]
        exact hdiv.differs j
      rw [← bucketPushes_congr hdepth] at ht
      rw [List.foldl_cons, exchangeWithPeer_of_exec hdiv' ht]
      obtain ⟨hd, hl⟩ := ae'.merkleTree.getRoot_snd
      exact ih _ t (hd.trans hdepth) (hl.trans hleaves) hrest
  exact loop _ ae peer rfl rfl h

end AntiEntropy

end GoQuorum
