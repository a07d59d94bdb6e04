import GoQuorum.VClock.Clock

/-!
# Validated configuration

The parts of `internal/config` that the replication logic relies on: `ValidateNodeID`,
`ValidateAddr` and the cluster configuration with its `Validate` (`cluster.go`), and the quorum
parameters with theirs (`quorum.go`).
-/

namespace GoQuorum

open Lib

/-! ## Node ids -/

/-- What `ValidateNodeID` rejects. -/
inductive NodeIDError where
  | empty
  | tooLong (length : ℕ)
  | invalidCharacters
  deriving DecidableEq, Repr

/-- The class `[a-zA-Z0-9_-]`. -/
def isNodeIDByte (b : UInt8) : Bool :=
  (97 ≤ b && b ≤ 122) || (65 ≤ b && b ≤ 90) || (48 ≤ b && b ≤ 57) || b == 95 || b == 45

/-- `ValidateNodeID`: one to 64 bytes, all of `[a-zA-Z0-9_-]`. -/
def validateNodeID (nodeID : NodeID) : Except NodeIDError Unit :=
  if nodeID = [] then .error .empty
  else if nodeID.length > 64 then .error (.tooLong nodeID.length)
  else if !nodeID.all isNodeIDByte then .error .invalidCharacters
  else .ok ()

/-- `ValidateNodeID` accepts the id. -/
def ValidNodeID (nodeID : NodeID) : Prop := validateNodeID nodeID = .ok ()

instance (nodeID : NodeID) : Decidable (ValidNodeID nodeID) :=
  inferInstanceAs (Decidable (_ = _))

theorem validNodeID_iff (nodeID : NodeID) :
    ValidNodeID nodeID ↔ nodeID ≠ [] ∧ nodeID.length ≤ 64 ∧ ∀ b ∈ nodeID, isNodeIDByte b = true := by
  unfold ValidNodeID validateNodeID
  split_ifs with h1 h2 h3
  · simp [h1]
  · simp only [false_iff]
    omega
  · simp only [Bool.not_eq_true', List.all_eq_false] at h3
    obtain ⟨b, hb, hne⟩ := h3
    exact iff_of_false (by simp) fun h => hne (h.2.2 b hb)
  · simp only [Bool.not_eq_true', Bool.not_eq_false, List.all_eq_true] at h3
    exact iff_of_true rfl ⟨h1, not_lt.1 h2, h3⟩

/-! ## Quorums -/

/-- `QuorumConfig`: replication factor, read and write quorum, overflow writes. -/
structure QuorumConfig where
  N : ℤ
  R : ℤ
  W : ℤ
  sloppyQuorum : Bool := false
  deriving DecidableEq, Repr

/-- What `QuorumConfig.Validate` rejects. -/
inductive QuorumConfigError where
  | nTooSmall
  | rOutOfRange (R N : ℤ)
  | wOutOfRange (W N : ℤ)
  deriving DecidableEq, Repr

namespace QuorumConfig

/-- `Validate`. -/
def validate (q : QuorumConfig) : Except QuorumConfigError Unit :=
  if q.N < 1 then .error .nTooSmall
  else if q.R < 1 ∨ q.R > q.N then .error (.rOutOfRange q.R q.N)
  else if q.W < 1 ∨ q.W > q.N then .error (.wOutOfRange q.W q.N)
  else .ok ()

/-- `IsStrongConsistency`: read and write quorums overlap. -/
def isStrongConsistency (q : QuorumConfig) : Bool := q.R + q.W > q.N

theorem bounds_of_validate {q : QuorumConfig} (h : q.validate = .ok ()) :
    1 ≤ q.N ∧ (1 ≤ q.R ∧ q.R ≤ q.N) ∧ 1 ≤ q.W ∧ q.W ≤ q.N := by
  unfold validate at h
  split_ifs at h
  omega

/-- `ToleratedFailures`. -/
def toleratedFailures (q : QuorumConfig) : ℤ := q.N - if q.W > q.R then q.W else q.R

theorem toleratedFailures_eq (q : QuorumConfig) : q.toleratedFailures = q.N - max q.R q.W := by
  unfold toleratedFailures
  split_ifs with h
  · rw [max_eq_right h.le]
  · rw [max_eq_left (not_lt.1 h)]

end QuorumConfig

/-! ## Addresses -/

/-- What `net.SplitHostPort` rejects. -/
inductive HostPortError where
  | missingPort
  | tooManyColons
  | missingBracket
  | unexpectedOpen
  | unexpectedClose
  deriving DecidableEq, Repr

/-- The brackets of a host are only allowed around it: none from `j` and none from `k` on. -/
def checkBrackets (hostport : Bytes) (j k : ℕ) : Except HostPortError Unit :=
  if (hostport.drop j).contains 91 then .error .unexpectedOpen
  else if (hostport.drop k).contains 93 then .error .unexpectedClose
  else .ok ()

/-- `net.SplitHostPort`: `host:port`, `[host]:port`. -/
def splitHostPort (hostport : Bytes) : Except HostPortError (Bytes × Bytes) :=
  match hostport.reverse.findIdx? (· == 58) with
  | none => .error .missingPort
  | some fromEnd =>
    -- the port starts after the last colon
    let i := hostport.length - 1 - fromEnd
    let port := hostport.drop (i + 1)
    if hostport.head? = some 91 then
      match hostport.findIdx? (· == 93) with
      | none => .error .missingBracket
      | some close =>
        if close + 1 = i then do
          checkBrackets hostport 1 (close + 1)
          return ((hostport.take close).drop 1, port)
        else if hostport[close + 1]? = some 58 then .error .tooManyColons
        else .error .missingPort
    else if (hostport.take i).contains 58 then .error .tooManyColons
    else do
      checkBrackets hostport 0 0
      return (hostport.take i, port)

/-- The value of a string of decimal digits. -/
def digitsValue (digits : Bytes) : ℤ := digits.foldl (fun n d => n * 10 + (d.toNat - 48)) 0

/-- `net.LookupPort` for TCP.  A number with an optional sign is a port if it is in range; other names
are looked up in the system's table of services, which is a parameter. -/
def lookupPort (services : Bytes → Option ℤ) (service : Bytes) : Option ℤ :=
  let digits := if service.head? = some 43 ∨ service.head? = some 45 then service.tail else service
  let port :=
    if digits.all fun d => 48 ≤ d && d ≤ 57 then
      some (if service.head? = some 45 then - digitsValue digits else digitsValue digits)
    else services service
  port.filter fun n => 0 ≤ n && n ≤ 65535

/-- What `ValidateAddr` rejects. -/
inductive AddrError where
  | empty
  | invalidFormat (err : HostPortError)
  | emptyHost
  | emptyPort
  | invalidPort
  | portOutOfRange (port : ℤ)
  deriving DecidableEq, Repr

/-- `ValidateAddr`: a host and a port between 1024 and 65535. -/
def validateAddr (services : Bytes → Option ℤ) (addr : Bytes) : Except AddrError Unit :=
  if addr = [] then .error .empty
  else do
    let (host, port) ← (splitHostPort addr).mapError .invalidFormat
    if host = [] then .error .emptyHost
    else if port = [] then .error .emptyPort
    else
      match lookupPort services port with
      | none => .error .invalidPort
      | some portNum =>
        if portNum < 1024 ∨ portNum > 65535 then .error (.portOutOfRange portNum) else .ok ()

/-! ## Clusters -/

/-- `MemberConfig`. -/
structure MemberConfig where
  id : NodeID
  addr : Bytes
  httpAddr : Bytes
  deriving DecidableEq

/-- `ClusterConfig`.  Durations are in nanoseconds. -/
structure ClusterConfig where
  nodeID : NodeID
  listenAddr : Bytes
  members : List MemberConfig
  heartbeatInterval : ℤ
  heartbeatTimeout : ℤ
  failureThreshold : ℤ
  bootstrapTimeout : ℤ
  deriving DecidableEq

/-- What `ClusterConfig.Validate` rejects. -/
inductive ClusterConfigError where
  | invalidNodeID (err : NodeIDError)
  | invalidListenAddr (err : AddrError)
  | noMembers
  | selfNotFound (nodeID : NodeID)
  | invalidMemberID (nodeID : NodeID) (err : NodeIDError)
  | duplicateNodeID (nodeID : NodeID)
  | invalidMemberAddr (addr : Bytes) (err : AddrError)
  | heartbeatInterval
  | heartbeatTimeout
  | failureThreshold
  | bootstrapTimeout
  deriving DecidableEq, Repr

namespace ClusterConfig

/-- The ids of the configured members. -/
def memberIDs (c : ClusterConfig) : List NodeID := c.members.map MemberConfig.id

/-- The loop of `Validate` over the members, with the ids it has seen. -/
def validateMembers (services : Bytes → Option ℤ) (seen : List NodeID) :
    List MemberConfig → Except ClusterConfigError Unit
  | [] => .ok ()
  | m :: rest => do
    (validateNodeID m.id).mapError (.invalidMemberID m.id)
    if m.id ∈ seen then .error (.duplicateNodeID m.id)
    else do
      (validateAddr services m.addr).mapError (.invalidMemberAddr m.addr)
      validateMembers services (m.id :: seen) rest

/-- `Validate`. -/
def validate (services : Bytes → Option ℤ) (c : ClusterConfig) : Except ClusterConfigError Unit := do
  (validateNodeID c.nodeID).mapError .invalidNodeID
  (validateAddr services c.listenAddr).mapError .invalidListenAddr
  if c.members = [] then .error .noMembers
  else if c.nodeID ∉ c.memberIDs then .error (.selfNotFound c.nodeID)
  else do
    validateMembers services [] c.members
    if c.heartbeatInterval ≤ 0 then .error .heartbeatInterval
    else if c.heartbeatTimeout ≤ 0 then .error .heartbeatTimeout
    else if c.failureThreshold ≤ 0 then .error .failureThreshold
    else if c.bootstrapTimeout ≤ 0 then .error .bootstrapTimeout
    else .ok ()

/-- `GetPeers`: the members other than the node itself. -/
def getPeers (c : ClusterConfig) : List MemberConfig := c.members.filter fun m => m.id ≠ c.nodeID

/-- `QuorumSize`: a majority of the configured members. -/
def quorumSize (c : ClusterConfig) : ℕ := c.members.length / 2 + 1

theorem nodup_of_validateMembers {services : Bytes → Option ℤ} {seen : List NodeID}
    {members : List MemberConfig} (h : validateMembers services seen members = .ok ()) :
    (members.map MemberConfig.id).Nodup ∧ ∀ m ∈ members, m.id ∉ seen := by
  induction members generalizing seen with
  | nil => exact ⟨List.nodup_nil, fun m hm => absurd hm List.not_mem_nil⟩
  | cons m rest ih =>
    obtain ⟨-, -, h⟩ := bind_eq_ok.1 h
    split_ifs at h with hseen
    obtain ⟨-, -, h⟩ := bind_eq_ok.1 h
    obtain ⟨hnodup, hfresh⟩ := ih h
    refine ⟨List.nodup_cons.2 ⟨fun hm => ?_, hnodup⟩, List.forall_mem_cons.2 ⟨hseen, ?_⟩⟩
    · obtain ⟨m', hm', he⟩ := List.mem_map.1 hm
      exact hfresh m' hm' (he ▸ List.mem_cons_self)
    · exact fun m' hm' hs => hfresh m' hm' (List.mem_cons_of_mem _ hs)

/-- A valid configuration lists the node itself, no id twice, and has a positive threshold. -/
theorem of_validate {services : Bytes → Option ℤ} {c : ClusterConfig}
    (h : c.validate services = .ok ()) :
    c.nodeID ∈ c.memberIDs ∧ c.memberIDs.Nodup ∧ 0 < c.failureThreshold := by
  obtain ⟨-, -, h⟩ := bind_eq_ok.1 h
  obtain ⟨-, -, h⟩ := bind_eq_ok.1 h
  split at h
  · cases h
  split at h
  · cases h
  rename_i hself
  obtain ⟨_, hmembers, h⟩ := bind_eq_ok.1 h
  split_ifs at h with h1 h2 h3 h4
  exact ⟨not_not.1 hself, (nodup_of_validateMembers hmembers).1, not_le.1 h3⟩

theorem mem_getPeers_iff {c : ClusterConfig} {id : NodeID} :
    id ∈ c.getPeers.map MemberConfig.id ↔ id ∈ c.memberIDs ∧ id ≠ c.nodeID := by
  simp only [getPeers, memberIDs, List.mem_map, List.mem_filter, decide_eq_true_eq]
  constructor
  · rintro ⟨m, ⟨hm, hne⟩, rfl⟩
    exact ⟨⟨m, hm, rfl⟩, hne⟩
  · rintro ⟨⟨m, hm, rfl⟩, hne⟩
    exact ⟨m, ⟨hm, hne⟩, rfl⟩

end ClusterConfig

end GoQuorum
