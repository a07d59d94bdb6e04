import GoQuorum.Cluster.HashRing
import GoQuorum.Server.InternalAPI

/-!
# The coordinator

`Put`, `Delete` and `Get` of `internal/cluster/coordinator.go`.  Each call first checks its
arguments, makes the sibling to write and looks up the preference list (`plan`, `planGet`).  The
replicas then answer in some order, and the answers are evaluated (`finishPut`, `finishDelete`,
`finishGet`).  What happens in between, on the replicas, is the subject of `Cluster.System`.
-/

namespace GoQuorum

open Lib Lib.Versions

/-! ## Responses and errors -/

/-- Why a request to a peer fails: there is no usable answer, or the peer's storage refused. -/
inductive RPCFailure where
  | unreachable
  | refused (err : StorageError)
  deriving DecidableEq, Repr

/-- The error of one replica: that of the local storage, or that of the request to a peer. -/
inductive ReplicaFailure where
  | storage (err : StorageError)
  | remote (nodeID : NodeID) (err : RPCFailure)
  deriving DecidableEq, Repr

/-- `WriteResponse`. -/
structure WriteResponse where
  nodeID : NodeID
  error : Option ReplicaFailure
  deriving DecidableEq

/-- `ReadResponse`; the set is `nil` when the replica does not have the key. -/
structure ReadResponse where
  nodeID : NodeID
  siblingSet : Option SiblingSet
  error : Option ReplicaFailure
  deriving DecidableEq

/-- `ReplicaError`. -/
structure ReplicaError where
  nodeID : NodeID
  error : ReplicaFailure
  deriving DecidableEq, Repr

/-- The operation a quorum was needed for. -/
inductive Operation where
  | read
  | write
  | delete
  deriving DecidableEq, Repr

/-- `QuorumError`, always of type `QuorumNotReached`. -/
structure QuorumError where
  required : ℤ
  achieved : ℕ
  operation : Operation
  replicaErrors : List ReplicaError
  deriving DecidableEq, Repr

/-- The errors of the coordinator. -/
inductive CoordinatorError where
  | invalidKey (err : KeyError)
  | invalidValue (length : ℕ)
  | contextRequired
  | preferenceList (err : RingError)
  | keyNotFound
  | quorum (err : QuorumError)
  deriving DecidableEq, Repr

/-- `countSuccesses`. -/
def countSuccesses (responses : List WriteResponse) : ℕ :=
  responses.countP fun resp => resp.error.isNone

/-- The replica errors of a failed write.  The `i`-th response is attributed to the `i`-th node of
the preference list. -/
def replicaErrors (prefList : List NodeID) (errors : List (Option ReplicaFailure)) :
    List ReplicaError :=
  (prefList.zip errors).filterMap fun p => p.2.map fun err => ⟨p.1, err⟩

/-! ## Calls -/

/-- The id of a node, which the configuration has checked. -/
abbrev MemberID := { nodeID : NodeID // ValidNodeID nodeID }

/-- The parts of a coordinator that its calls read. -/
structure Coordinator (sum64 : Bytes → UInt64) where
  nodeID : MemberID
  ring : HashRing sum64
  quorumConfig : QuorumConfig

/-- The times one write reads: for the tick, for the expiry and for the timestamp. -/
structure WriteTimes where
  tick : Int64
  expiry : Int64
  timestamp : Int64

/-- A `Put` or a `Delete`. -/
inductive WriteCall where
  | put (key value : Bytes) (context : VectorClock) (ttlSeconds : Int64)
  | delete (key : Bytes) (context : VectorClock)

namespace WriteCall

def key : WriteCall → Bytes
  | put key _ _ _ => key
  | delete key _ => key

def context : WriteCall → VectorClock
  | put _ _ context _ => context
  | delete _ context => context

/-- What is checked before anything else: `Put` looks at the key and the value, `Delete` only at the
context. -/
def check : WriteCall → Except CoordinatorError Unit
  | put key value _ _ => do
    (validateKey key).mapError .invalidKey
    (validateValue value).mapError .invalidValue
  | delete _ context => if context.isEmpty then .error .contextRequired else .ok ()

end WriteCall

/-- What a write sends, and to whom. -/
structure WritePlan where
  key : Bytes
  sibling : Sibling
  prefList : List NodeID

namespace Coordinator

variable {sum64 : Bytes → UInt64} (c : Coordinator sum64)

/-- The clock a write generates from the client's context. -/
def newVClock (times : WriteTimes) (context : VectorClock) : VectorClock :=
  context.copy.tick times.tick c.nodeID

/-- `GetPreferenceList` as the calls use it. -/
def prefList (key : Bytes) : Except CoordinatorError (List NodeID) :=
  (c.ring.getPreferenceList key c.quorumConfig.N).mapError .preferenceList

/-- The sibling a call writes. -/
def newSibling (times : WriteTimes) : WriteCall → Sibling
  | .put _ value context ttlSeconds =>
    let expiresAt := if ttlSeconds > 0 then times.expiry + ttlSeconds else 0
    ⟨value, c.newVClock times context, times.timestamp, false, expiresAt⟩
  | .delete _ context => ⟨[], c.newVClock times context, times.timestamp, true, 0⟩

/-- `Put` and `Delete` up to the fan-out. -/
def plan (times : WriteTimes) (call : WriteCall) : Except CoordinatorError WritePlan := do
  call.check
  let prefList ← c.prefList call.key
  return ⟨call.key, c.newSibling times call, prefList⟩

/-- The overflow nodes that `Put` tries with `SloppyQuorum` when the strict quorum fails. -/
def overflowNodes (key : Bytes) (prefList : List NodeID) (successCount : ℕ) : List NodeID :=
  match c.ring.getExtendedPreferenceList key c.quorumConfig.N (c.quorumConfig.W - successCount) with
  | .error _ => []
  | .ok extList => (extList.drop c.quorumConfig.N.toNat).filter fun nid => nid ∉ prefList

/-- `Put` from the responses of the strict fan-out on; `fanOut` is that to the overflow nodes. -/
def finishPut (plan : WritePlan) (responses : List WriteResponse)
    (fanOut : List NodeID → List WriteResponse) : Except CoordinatorError VectorClock :=
  let strictCount := countSuccesses responses
  if strictCount ≥ c.quorumConfig.W then .ok plan.sibling.vclock
  else
    let successCount :=
      if c.quorumConfig.sloppyQuorum then
        strictCount + countSuccesses (fanOut (c.overflowNodes plan.key plan.prefList strictCount))
      else strictCount
    if successCount ≥ c.quorumConfig.W then .ok plan.sibling.vclock
    else .error (.quorum ⟨c.quorumConfig.W, successCount, .write,
      replicaErrors plan.prefList (responses.map WriteResponse.error)⟩)

/-- `Delete` from the responses on. -/
def finishDelete (responses : List WriteResponse) : Except CoordinatorError Unit :=
  if countSuccesses responses ≥ c.quorumConfig.W then .ok ()
  else .error (.quorum ⟨c.quorumConfig.W, countSuccesses responses, .delete, []⟩)

/-- `Get` up to the fan-out. -/
def planGet (key : Bytes) : Except CoordinatorError (List NodeID) := do
  (validateKey key).mapError .invalidKey
  c.prefList key

/-- What the read of one replica yields: the coordinator reads its own store with `GetRaw`, and that
of a peer through `RemoteGet` and `Read`. -/
def readReplica (env : CallEnv) (stamp : ℕ → NodeID → Int64) (store : Storage) (key : Bytes)
    (nid : NodeID) : ReadResponse :=
  if nid = c.nodeID then
    match store.getRaw env key with
    | .ok siblingSet => ⟨nid, some siblingSet, none⟩
    | .error .keyNotFound => ⟨nid, none, none⟩
    | .error err => ⟨nid, none, some (.storage err)⟩
  else ⟨nid, (read env store key).toSiblingSet stamp, none⟩

end Coordinator

/-! ## Evaluating a read -/

/-- The successful responses of a read. -/
def readSuccesses (responses : List ReadResponse) : ℕ :=
  responses.countP fun resp => resp.error.isNone

/-- The collecting loop of `parallelRead` over the responses that arrive before the timeout: it stops
after `R` successes. -/
def collectReads (R : ℤ) (responses : List ReadResponse) : List ReadResponse → List ReadResponse
  | [] => responses
  | resp :: arrivals =>
    if readSuccesses (responses ++ [resp]) ≥ R then responses ++ [resp]
    else collectReads R (responses ++ [resp]) arrivals

/-- The siblings a response contributes. -/
def ReadResponse.siblings (resp : ReadResponse) : List Sibling :=
  if resp.error.isNone then resp.siblingSet.getD [] else []

/-- The loop of `mergeAllSiblings` over the rest of a list. -/
def mergeLoop (allSiblings maximal : List Sibling) : List Sibling → List Sibling
  | [] => maximal
  | s1 :: rest =>
    let dominated := allSiblings.any fun s2 =>
      !s1.vclock.equals s2.vclock && s1.vclock.happensBefore s2.vclock
    let found := maximal.any fun existing => s1.vclock.equals existing.vclock
    if dominated then mergeLoop allSiblings maximal rest
    else if found then mergeLoop allSiblings maximal rest
    else mergeLoop allSiblings (maximal ++ [s1]) rest

/-- `mergeAllSiblings`. -/
def mergeAllSiblings (allSiblings : List Sibling) : List Sibling :=
  mergeLoop allSiblings [] allSiblings

namespace Coordinator

variable {sum64 : Bytes → UInt64} (c : Coordinator sum64)

/-- `Get` from the collected responses on. -/
def finishGet (prefList : List NodeID) (responses : List ReadResponse) :
    Except CoordinatorError (List Sibling) :=
  if readSuccesses responses < c.quorumConfig.R then
    .error (.quorum ⟨c.quorumConfig.R, readSuccesses responses, .read,
      replicaErrors prefList (responses.map ReadResponse.error)⟩)
  else
    let filtered := filterTombstones (mergeAllSiblings (responses.flatMap ReadResponse.siblings))
    if filtered = [] then .error .keyNotFound else .ok filtered

end Coordinator

/-! ## What a read returns -/

/-- `mergeAllSiblings` keeps one sibling of each maximal clock. -/
theorem mergeAllSiblings_eq_maximals (l : List Sibling) :
    mergeAllSiblings l = maximals Sibling.vclock l := by
  -- both loops make the same decision on every sibling
  have loop : ∀ rest acc, mergeLoop l acc rest = maximalsAux Sibling.vclock l acc rest := by
    intro rest
    induction rest with
    | nil => exact fun acc => rfl
    | cons x rest ih =>
      intro acc
      have hdom : (l.any fun s2 => !x.vclock.equals s2.vclock && x.vclock.happensBefore s2.vclock)
          = true ↔ ∃ y ∈ l, x.vclock < y.vclock := by
        simp only [List.any_eq_true, Bool.and_eq_true, Bool.not_eq_true',
          VectorClock.happensBefore_iff]
        refine exists_congr fun y => and_congr_right fun _ => and_iff_right_of_imp fun hlt => ?_
        rw [Bool.eq_false_iff, Ne, VectorClock.equals_iff]
        exact fun heq => hlt.not_ge heq.2
      have hfound : (acc.any fun e => x.vclock.equals e.vclock) = true ↔
          ∃ e ∈ acc, AntisymmRel (· ≤ ·) x.vclock e.vclock := by
        simp only [List.any_eq_true, VectorClock.equals_iff]
      rw [mergeLoop, maximalsAux]
      simp only [hdom, hfound, ih]
  exact loop l []

/-- What is collected is a prefix of what arrives. -/
theorem collectReads_eq (R : ℤ) (responses arrivals : List ReadResponse) :
    ∃ l, l <+: arrivals ∧ collectReads R responses arrivals = responses ++ l := by
  induction arrivals generalizing responses with
  | nil => exact ⟨[], List.nil_prefix, (List.append_nil _).symm⟩
  | cons resp arrivals ih =>
    rw [collectReads]
    split_ifs
    · exact ⟨[resp], ⟨arrivals, rfl⟩, rfl⟩
    · obtain ⟨l, hl, e⟩ := ih (responses ++ [resp])
      exact ⟨resp :: l, List.cons_prefix_cons.2 ⟨rfl, hl⟩, by rw [e, List.append_assoc]; rfl⟩

/-- The collected responses reach the quorum if those that arrive do. -/
theorem readSuccesses_collectReads {R : ℤ} {responses arrivals : List ReadResponse}
    (h : R ≤ readSuccesses (responses ++ arrivals)) :
    R ≤ readSuccesses (collectReads R responses arrivals) := by
  induction arrivals generalizing responses with
  | nil => rwa [List.append_nil] at h
  | cons resp arrivals ih =>
    rw [collectReads]
    split_ifs with hR
    · exact hR
    · refine ih ?_
      rwa [List.append_assoc]

namespace Coordinator

variable {sum64 : Bytes → UInt64} {c : Coordinator sum64}

theorem planGet_eq_ok {key : Bytes} {prefList : List NodeID} (h : c.planGet key = .ok prefList) :
    c.ring.getPreferenceList key c.quorumConfig.N = .ok prefList := by
  obtain ⟨-, -, h⟩ := bind_eq_ok.1 h
  exact mapError_eq_ok.1 h

theorem plan_eq_ok {times : WriteTimes} {call : WriteCall} {plan : WritePlan}
    (h : c.plan times call = .ok plan) :
    plan.key = call.key ∧ plan.sibling = c.newSibling times call ∧
      c.ring.getPreferenceList call.key c.quorumConfig.N = .ok plan.prefList := by
  obtain ⟨-, -, h⟩ := bind_eq_ok.1 h
  obtain ⟨prefList, hpref, h⟩ := bind_eq_ok.1 h
  obtain rfl := Except.ok.inj h
  exact ⟨rfl, rfl, mapError_eq_ok.1 hpref⟩

theorem vclock_newSibling (times : WriteTimes) (call : WriteCall) :
    (c.newSibling times call).vclock = c.newVClock times call.context := by
  cases call <;> rfl

/-- Without overflow writes `Put` succeeds exactly with `W` acknowledgements. -/
theorem finishPut_eq_ok {plan : WritePlan} {responses : List WriteResponse}
    {fanOut : List NodeID → List WriteResponse} {vclock : VectorClock}
    (hstrict : c.quorumConfig.sloppyQuorum = false) :
    c.finishPut plan responses fanOut = .ok vclock ↔
      c.quorumConfig.W ≤ countSuccesses responses ∧ plan.sibling.vclock = vclock := by
  unfold finishPut
  simp only [hstrict, Bool.false_eq_true, if_false]
  split_ifs with h
  · simp [h]
  · simp [h]

/-- A read quorum decides the result of a `Get`: the live siblings among the maximal ones. -/
theorem finishGet_of_quorum {prefList : List NodeID} {responses : List ReadResponse}
    (h : c.quorumConfig.R ≤ readSuccesses responses) :
    c.finishGet prefList responses =
      let filtered := filterTombstones
        (maximals Sibling.vclock (responses.flatMap ReadResponse.siblings))
      if filtered = [] then .error .keyNotFound else .ok filtered := by
  rw [finishGet, if_neg (not_lt.2 h), mergeAllSiblings_eq_maximals]

end Coordinator

/-! ## Overlapping quorums -/

/-- Two sets of different nodes of one preference list that together outnumber it share a node. -/
theorem exists_common_node {prefList a b : List NodeID} (ha : a.Nodup) (hb : b.Nodup)
    (hsa : a ⊆ prefList) (hsb : b ⊆ prefList) (hlen : prefList.length < a.length + b.length) :
    ∃ n ∈ a, n ∈ b := by
  by_contra hno
  simp only [not_exists, not_and] at hno
  have happ : (a ++ b).Nodup :=
    List.nodup_append.2 ⟨ha, hb, fun x hx y hy e => hno x hx (e ▸ hy)⟩
  have hsub : a ++ b ⊆ prefList := List.append_subset.2 ⟨hsa, hsb⟩
  have hle := (List.subperm_of_subset happ hsub).length_le
  rw [List.length_append] at hle
  omega

/-! ## Sample members -/

/-- The nodes `n1`, `n2` and `n3`. -/
def n1 : MemberID := ⟨[110, 49], by decide⟩
def n2 : MemberID := ⟨[110, 50], by decide⟩
def n3 : MemberID := ⟨[110, 51], by decide⟩

/-- A ring of nodes with one position each. -/
def sampleRing (nodes : List MemberID) : HashRing sampleSum64 :=
  nodes.foldl (fun ring n => match ring.addNode RingSort.insertion n with
    | .ok ring => ring
    | .error _ => ring) (HashRing.new 1)

end GoQuorum
