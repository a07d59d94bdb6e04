import GoQuorum.Cluster.Coordinator
import GoQuorum.Lib.Runs

/-!
# A cluster serving requests

Coordinators issue writes and reads at any time and in any number.  A write reaches a replica by
`localWrite` or by a `Replicate` request, and it may reach any node again later, by hint replay,
read repair or anti-entropy: all of these send siblings that some `Put` or `Delete` has made, with
their clocks stamped anew.  On the replica `Storage.Put` reads the record of the key and writes it
back in two separate steps.  A request to a replica may fail at any time, also after the replica has
taken the write.

`Cluster.step` is one step of the whole system; the results of the calls are functions of its state
(`putResult`, `deleteResult`, `getResult`).
-/

namespace GoQuorum

open Lib

/-- A ring and a quorum configuration that `Validate` accepts, without overflow writes and with read
and write quorums that overlap. -/
structure Cluster (sum64 : Bytes → UInt64) where
  ring : HashRing sum64
  quorumConfig : QuorumConfig
  valid : quorumConfig.validate = .ok ()
  strict : quorumConfig.sloppyQuorum = false
  strong : quorumConfig.isStrongConsistency = true

/-- A `Put` or `Delete` that has been sent out, with the responses so far. -/
structure WriteOp where
  coordinator : MemberID
  plan : WritePlan
  responses : List WriteResponse

/-- A `Get` that has been sent out, with the responses of the replicas so far. -/
structure ReadOp where
  coordinator : MemberID
  key : Bytes
  prefList : List NodeID
  answers : List ReadResponse

/-- A `Storage.Put` of the sibling of a write that has read the record of its key, in the store
`seen`, and not yet written it. -/
structure Transfer where
  op : ℕ
  node : NodeID
  key : Bytes
  sibling : Sibling
  env : CallEnv
  seen : Storage
  data : Bytes

/-- The stores of the nodes, the calls and the replica writes under way. -/
structure ClusterState where
  stores : NodeID → Storage
  writes : ℕ → Option WriteOp
  transfers : ℕ → Option Transfer
  reads : ℕ → Option ReadOp

/-- The steps of the system. -/
inductive ClusterEvent where
  /-- A coordinator sends out a write. -/
  | issue (i : ℕ) (coordinator : MemberID) (times : WriteTimes) (call : WriteCall)
  /-- The sibling of a write reaches a node, by `localWrite` if there is no stamp, and
  `Storage.Put` reads. -/
  | receive (t i : ℕ) (node : NodeID) (stamp : Option (NodeID → Int64)) (env : CallEnv)
  /-- `Storage.Put` writes; `ack` says whether the coordinator of the write learns of it. -/
  | commit (t : ℕ) (ack : Bool)
  /-- The coordinator of a write takes the request to a replica as failed. -/
  | fail (i : ℕ) (node : NodeID) (err : ReplicaFailure)
  /-- A coordinator sends out a read. -/
  | get (j : ℕ) (coordinator : MemberID) (key : Bytes)
  /-- A replica answers a read. -/
  | answer (j : ℕ) (node : NodeID) (env : CallEnv) (stamp : ℕ → NodeID → Int64)
  /-- The read of a replica fails. -/
  | failRead (j : ℕ) (node : NodeID) (err : ReplicaFailure)

/-- The coordinator of a write takes one response of each replica. -/
def WriteOp.respond (op : WriteOp) (resp : WriteResponse) : WriteOp :=
  if resp.nodeID ∈ op.plan.prefList ∧ resp.nodeID ∉ op.responses.map WriteResponse.nodeID then
    { op with responses := op.responses ++ [resp] }
  else op

/-- The coordinator of a read takes one response of each replica. -/
def ReadOp.respond (op : ReadOp) (resp : ReadResponse) : ReadOp :=
  if resp.nodeID ∈ op.prefList ∧ resp.nodeID ∉ op.answers.map ReadResponse.nodeID then
    { op with answers := op.answers ++ [resp] }
  else op

/-- The sibling of a write as a node receives it. -/
def WriteOp.arriving (op : WriteOp) (node : NodeID) :
    Option (NodeID → Int64) → Option (Bytes × Sibling)
  | none => if node = op.coordinator then some (op.plan.key, op.plan.sibling) else none
  | some stamp => some (op.plan.key, op.plan.sibling.toData.toSibling stamp)

namespace ClusterState

/-- Nothing has happened yet. -/
def init (opts : NodeID → StorageOptions) : ClusterState :=
  ⟨fun n => Storage.new (opts n), fun _ => none, fun _ => none, fun _ => none⟩

def respond (s : ClusterState) (i : ℕ) (resp : WriteResponse) : ClusterState :=
  { s with writes := Function.update s.writes i ((s.writes i).map (·.respond resp)) }

def respondRead (s : ClusterState) (j : ℕ) (resp : ReadResponse) : ClusterState :=
  { s with reads := Function.update s.reads j ((s.reads j).map (·.respond resp)) }

/-- A replica write is over. -/
def drop (s : ClusterState) (t : ℕ) : ClusterState :=
  { s with transfers := Function.update s.transfers t none }

/-- A replica write stores its record. -/
def store (s : ClusterState) (tr : Transfer) : ClusterState :=
  let store := s.stores tr.node
  { s with
    stores := Function.update s.stores tr.node
      { store with db := store.db.insert tr.key tr.data } }

/-- The sibling of the write `i` as a node receives it. -/
def arriving (s : ClusterState) (i : ℕ) (node : NodeID) (stamp : Option (NodeID → Int64)) :
    Option (Bytes × Sibling) :=
  (s.writes i).bind fun op => op.arriving node stamp

end ClusterState

namespace Cluster

open ClusterState

variable {sum64 : Bytes → UInt64} (cl : Cluster sum64)

/-- The coordinator on a node. -/
def coordinator (nodeID : MemberID) : Coordinator sum64 := ⟨nodeID, cl.ring, cl.quorumConfig⟩

/-- One step of the system. -/
def step (s : ClusterState) : ClusterEvent → Option ClusterState
  | .issue i coordinator times call =>
    match s.writes i, (cl.coordinator coordinator).plan times call with
    | none, .ok plan =>
      some { s with writes := Function.update s.writes i (some ⟨coordinator, plan, []⟩) }
    | _, _ => none
  | .receive t i node stamp env =>
    match s.transfers t, s.arriving i node stamp with
    | none, some (key, sibling) =>
      match (s.stores node).prepare env key [sibling] with
      | .ok data =>
        let tr := ⟨i, node, key, sibling, env, s.stores node, data⟩
        some { s with transfers := Function.update s.transfers t (some tr) }
      | .error _ => none
    | _, _ => none
  | .commit t ack =>
    match s.transfers t with
    | some tr =>
      match tr.env.setError with
      | none =>
        let s' := (s.store tr).drop t
        some (if ack then s'.respond tr.op ⟨tr.node, none⟩ else s')
      | some _ => some (s.drop t)
    | none => none
  | .fail i node err => some (s.respond i ⟨node, some err⟩)
  | .get j coordinator key =>
    match s.reads j, (cl.coordinator coordinator).planGet key with
    | none, .ok prefList =>
      some { s with reads := Function.update s.reads j (some ⟨coordinator, key, prefList, []⟩) }
    | _, _ => none
  | .answer j node env stamp =>
    match s.reads j with
    | some op =>
      some (s.respondRead j
        ((cl.coordinator op.coordinator).readReplica env stamp (s.stores node) op.key node))
    | none => none
  | .failRead j node err => some (s.respondRead j ⟨node, none, some err⟩)

/-- What a `Put` returns once every replica has responded. -/
def putResult (op : WriteOp) : Option (Except CoordinatorError VectorClock) :=
  if op.responses.length = op.plan.prefList.length then
    some ((cl.coordinator op.coordinator).finishPut op.plan op.responses fun _ => [])
  else none

/-- What a `Delete` returns once every replica has responded. -/
def deleteResult (op : WriteOp) : Option (Except CoordinatorError Unit) :=
  if op.responses.length = op.plan.prefList.length then
    some ((cl.coordinator op.coordinator).finishDelete op.responses)
  else none

/-- What a `Get` collects of the responses that arrive in time. -/
def collected (arrivals : List ReadResponse) : List ReadResponse :=
  collectReads cl.quorumConfig.R [] arrivals

/-- What a `Get` returns for the responses that arrive in time. -/
def getResult (op : ReadOp) (arrivals : List ReadResponse) :
    Except CoordinatorError (List Sibling) :=
  (cl.coordinator op.coordinator).finishGet op.prefList (cl.collected arrivals)

/-! ## What each step can do -/

variable {cl} {s t : ClusterState}

theorem step_issue {i : ℕ} {coordinator : MemberID} {times : WriteTimes} {call : WriteCall}
    (h : cl.step s (.issue i coordinator times call) = some t) :
    s.writes i = none ∧ ∃ plan, (cl.coordinator coordinator).plan times call = .ok plan ∧
      t = { s with writes := Function.update s.writes i (some ⟨coordinator, plan, []⟩) } := by
  simp only [step] at h
  split at h
  · rename_i plan hw hp
    exact ⟨hw, plan, hp, (Option.some.inj h).symm⟩
  · cases h

theorem step_receive {u i : ℕ} {node : NodeID} {stamp : Option (NodeID → Int64)} {env : CallEnv}
    (h : cl.step s (.receive u i node stamp env) = some t) :
    ∃ key sibling data, s.arriving i node stamp = some (key, sibling) ∧
      (s.stores node).prepare env key [sibling] = .ok data ∧
      t = { s with
        transfers := Function.update s.transfers u
          (some ⟨i, node, key, sibling, env, s.stores node, data⟩) } := by
  simp only [step] at h
  split at h
  · rename_i key sibling _ harr
    split at h
    · rename_i data hprep
      exact ⟨key, sibling, data, harr, hprep, (Option.some.inj h).symm⟩
    · cases h
  · cases h

theorem step_commit {u : ℕ} {ack : Bool} (h : cl.step s (.commit u ack) = some t) :
    ∃ tr, s.transfers u = some tr ∧
      (t = (s.store tr).drop u ∨ t = ((s.store tr).drop u).respond tr.op ⟨tr.node, none⟩ ∨
        t = s.drop u) := by
  simp only [step] at h
  split at h
  · rename_i tr htr
    refine ⟨tr, htr, ?_⟩
    split at h
    · cases ack with
      | true => exact Or.inr (Or.inl (Option.some.inj h).symm)
      | false => exact Or.inl (Option.some.inj h).symm
    · exact Or.inr (Or.inr (Option.some.inj h).symm)
  · cases h

theorem step_get {j : ℕ} {coordinator : MemberID} {key : Bytes}
    (h : cl.step s (.get j coordinator key) = some t) :
    s.reads j = none ∧ ∃ prefList, (cl.coordinator coordinator).planGet key = .ok prefList ∧
      t = { s with
        reads := Function.update s.reads j (some ⟨coordinator, key, prefList, []⟩) } := by
  simp only [step] at h
  split at h
  · rename_i prefList hr hp
    exact ⟨hr, prefList, hp, (Option.some.inj h).symm⟩
  · cases h

theorem step_answer {j : ℕ} {node : NodeID} {env : CallEnv} {stamp : ℕ → NodeID → Int64}
    (h : cl.step s (.answer j node env stamp) = some t) :
    ∃ op, s.reads j = some op ∧ t = s.respondRead j
      ((cl.coordinator op.coordinator).readReplica env stamp (s.stores node) op.key node) := by
  simp only [step] at h
  split at h
  · rename_i op hop
    exact ⟨op, hop, (Option.some.inj h).symm⟩
  · cases h

end Cluster

/-! ## Conditions on runs -/

/-- Reading the record of a key does not fail: it is found, or there is none. -/
def Storage.readsWell (env : CallEnv) (s : Storage) (key : Bytes) : Bool :=
  match s.readRecord env key with
  | .ok _ => true
  | .error .keyNotFound => true
  | .error _ => false

/-- A call that sets no expiry. -/
def WriteCall.NoTTL : WriteCall → Prop
  | put _ _ _ ttlSeconds => ttlSeconds ≤ 0
  | delete _ _ => True

instance (call : WriteCall) : Decidable call.NoTTL :=
  match call with
  | .put _ _ _ ttlSeconds => inferInstanceAs (Decidable (ttlSeconds ≤ 0))
  | .delete _ _ => isTrue trivial

namespace ClusterState

/-- Contexts have valid node ids, nothing expires, nothing is pruned, and storage reads do not
fail. -/
def Plain (s : ClusterState) : ClusterEvent → Prop
  | .issue _ _ _ call => call.context.ValidIDs ∧ call.NoTTL
  | .receive _ i node stamp env =>
    ∀ p ∈ s.arriving i node stamp, Storage.NoPrune env (s.stores node) p.1 [p.2]
  | .answer j node env _ => ∀ op ∈ s.reads j, (s.stores node).readsWell env op.key = true
  | _ => True

/-- No `Storage.Put` writes a record that has changed since it read it. -/
def Atomic (s : ClusterState) : ClusterEvent → Prop
  | .commit t _ => ∀ tr ∈ s.transfers t, (s.stores tr.node).db.get? tr.key = tr.seen.db.get? tr.key
  | _ => True

instance (s : ClusterState) : (e : ClusterEvent) → Decidable (s.Plain e)
  | .issue .. => inferInstanceAs (Decidable (_ ∧ _))
  | .receive _ i node stamp _ =>
    inferInstanceAs (Decidable (∀ p ∈ s.arriving i node stamp, _))
  | .answer j _ _ _ => inferInstanceAs (Decidable (∀ op ∈ s.reads j, _))
  | .commit .. | .fail .. | .get .. | .failRead .. => isTrue trivial

instance (s : ClusterState) : (e : ClusterEvent) → Decidable (s.Atomic e)
  | .commit t _ => inferInstanceAs (Decidable (∀ tr ∈ s.transfers t, _))
  | .issue .. | .receive .. | .fail .. | .get .. | .answer .. | .failRead .. => isTrue trivial

end ClusterState

namespace ClusterEvent

/-- No `Delete` is issued. -/
def NoDelete : ClusterEvent → Prop
  | .issue _ _ _ (.delete _ _) => False
  | _ => True

/-- No write on the key is issued. -/
def NoWrite (key : Bytes) : ClusterEvent → Prop
  | .issue _ _ _ call => call.key ≠ key
  | _ => True

instance : (e : ClusterEvent) → Decidable e.NoDelete
  | .issue _ _ _ (.delete _ _) => isFalse id
  | .issue _ _ _ (.put _ _ _ _) => isTrue trivial
  | .receive .. | .commit .. | .fail .. | .get .. | .answer .. | .failRead .. => isTrue trivial

instance (key : Bytes) : (e : ClusterEvent) → Decidable (e.NoWrite key)
  | .issue _ _ _ call => inferInstanceAs (Decidable (call.key ≠ key))
  | .receive .. | .commit .. | .fail .. | .get .. | .answer .. | .failRead .. => isTrue trivial

end ClusterEvent

end GoQuorum
