import GoQuorum.Storage.Put

/-!
# The node-to-node interface

`Replicate` and `Read` of `internal/server/internal_api.go`, with the wire types that
`internal/cluster/rpc_client.go` shares with them.  On the wire a clock is its list of counters:
the times of its entries are lost, and the receiver stamps each entry with its own clock
(`stamp`).  `ExpiresAt` is not sent at all.  Node ids are sent as JSON strings, which keep those
that are UTF-8; `Server.Transport` has that step.
-/

namespace GoQuorum

open Lib

/-- `SiblingData` of the server, `siblingDTO` of the client. -/
structure SiblingData where
  value : Bytes
  context : List (NodeID × UInt64)
  tombstone : Bool
  timestamp : Int64
  deriving DecidableEq

/-- `vclockToEntries` and `vclockToDTO`. -/
def vclockToEntries (vc : VectorClock) : List (NodeID × UInt64) := vc.counters.toList

/-- `entriesToVClock` and `dtoToVclock`: `SetString` for each entry, at the times `stamp` gives. -/
def entriesToVClock (stamp : NodeID → Int64) (entries : List (NodeID × UInt64)) : VectorClock :=
  entries.foldl (fun vc entry => vc.set (stamp entry.1) entry.1 entry.2) VectorClock.new

/-- A sibling as it is sent. -/
def Sibling.toData (sib : Sibling) : SiblingData :=
  ⟨sib.value, vclockToEntries sib.vclock, sib.tombstone, sib.timestamp⟩

/-- A sibling as it is received. -/
def SiblingData.toSibling (stamp : NodeID → Int64) (d : SiblingData) : Sibling :=
  ⟨d.value, entriesToVClock stamp d.context, d.timestamp, d.tombstone, 0⟩

/-- `ReplicateReq`, without the fields no handler reads. -/
structure ReplicateReq where
  key : Bytes
  sibling : SiblingData
  deriving DecidableEq

/-- `ReplicateResp`; the text of the error is that of the storage error. -/
structure ReplicateResp where
  success : Bool
  error : Option StorageError
  deriving DecidableEq

/-- The siblings `Replicate` passes to `Storage.Put`. -/
def ReplicateReq.siblings (stamp : NodeID → Int64) (req : ReplicateReq) : SiblingSet :=
  [req.sibling.toSibling stamp]

/-- `Replicate`, as one step: the response and the store it leaves. -/
def replicate (env : CallEnv) (stamp : NodeID → Int64) (s : Storage) (req : ReplicateReq) :
    ReplicateResp × Storage :=
  match s.put env req.key (req.siblings stamp) with
  | .ok s' => (⟨true, none⟩, s')
  | .error err => (⟨false, some err⟩, s)

/-- `InternalReadResp`. -/
structure InternalReadResp where
  found : Bool
  siblings : List SiblingData
  deriving DecidableEq

/-- `Read`: every storage error is answered like a missing key. -/
def read (env : CallEnv) (s : Storage) (key : Bytes) : InternalReadResp :=
  match s.get env key with
  | .error _ => ⟨false, []⟩
  | .ok siblings => if siblings = [] then ⟨false, []⟩ else ⟨true, siblings.map Sibling.toData⟩

/-- What `RemoteGet` makes of a response; `stamp i` stamps the clock of the `i`-th sibling. -/
def InternalReadResp.toSiblingSet (stamp : ℕ → NodeID → Int64) (resp : InternalReadResp) :
    Option SiblingSet :=
  if resp.found then some (resp.siblings.mapIdx fun i d => d.toSibling (stamp i)) else none

/-! ## What crosses the wire -/

/-- What a client sees of a sibling: its value, the counters of its clock, and whether it is a
tombstone. -/
def Sibling.view (sib : Sibling) : Bytes × SortedMap NodeID UInt64 × Bool :=
  (sib.value, sib.vclock.counters, sib.tombstone)

theorem counters_set (now : Int64) (vc : VectorClock) (n : NodeID) (c : UInt64) :
    (vc.set now n c).counters = vc.counters.insert n c := by
  apply SortedMap.ext_get?
  intro m
  simp only [VectorClock.counters, VectorClock.set, SortedMap.get?_mapVal, SortedMap.get?_insert]
  split_ifs <;> rfl

theorem counters_foldl_set (stamp : NodeID → Int64) (entries : List (NodeID × UInt64))
    (vc : VectorClock) :
    (entries.foldl (fun vc entry => vc.set (stamp entry.1) entry.1 entry.2) vc).counters =
      entries.foldl (fun m entry => m.insert entry.1 entry.2) vc.counters := by
  induction entries generalizing vc with
  | nil => rfl
  | cons entry entries ih => rw [List.foldl_cons, ih, counters_set, List.foldl_cons]

/-- The counters of a received clock do not depend on when it was received. -/
theorem counters_entriesToVClock (stamp : NodeID → Int64) (entries : List (NodeID × UInt64)) :
    (entriesToVClock stamp entries).counters = SortedMap.ofList entries :=
  counters_foldl_set stamp entries VectorClock.new

theorem view_toSibling (stamp : NodeID → Int64) (d : SiblingData) :
    (d.toSibling stamp).view = (d.value, SortedMap.ofList d.context, d.tombstone) := by
  simp only [Sibling.view, SiblingData.toSibling, counters_entriesToVClock]

/-- A client sees the same sibling on either side of the wire. -/
theorem view_wire (stamp : NodeID → Int64) (sib : Sibling) :
    (sib.toData.toSibling stamp).view = sib.view := by
  rw [view_toSibling, Sibling.toData, vclockToEntries, SortedMap.ofList_toList]
  rfl

/-- Siblings that look alike have equal clocks. -/
theorem antisymmRel_of_view {x y : Sibling} (h : x.view = y.view) :
    AntisymmRel (· ≤ ·) x.vclock y.vclock :=
  VectorClock.antisymmRel_of_counters (Prod.mk.inj (Prod.mk.inj h).2).1

theorem le_of_view {x y : Sibling} (h : x.view = y.view) : x.vclock ≤ y.vclock :=
  (antisymmRel_of_view h).1

theorem tombstone_of_view {x y : Sibling} (h : x.view = y.view) : x.tombstone = y.tombstone :=
  (Prod.mk.inj (Prod.mk.inj h).2).2

theorem value_of_view {x y : Sibling} (h : x.view = y.view) : x.value = y.value :=
  (Prod.mk.inj h).1

end GoQuorum
