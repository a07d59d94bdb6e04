import GoQuorum.Cluster.Coordinator

/-!
# The client interface

`internal/server/client_api.go` with the conversions of `internal/server/grpc_adapters.go`.  A client
sends the context of a write as a list of counters, the API makes a map of it, and the coordinator
receives a clock whose entries carry the time of the request.  Node ids and counters are taken as
they come.

A write is meant to supersede what its context has seen.  It does so unless the counter of the
coordinator wraps around (`write_advances_context_iff`).
-/

namespace GoQuorum

open Lib

/-! ## Contexts -/

/-- `VClockContext`. -/
abbrev VClockContext := SortedMap NodeID UInt64

/-- `pb.Context`. -/
abbrev ProtoContext := List (NodeID × UInt64)

/-- `vclockToContext`. -/
def vclockToContext (order : MapOrder (NodeID × UInt64)) (vc : VectorClock) : VClockContext :=
  SortedMap.ofList (order.run vc.counters.toList)

/-- `contextToVClock`: `SetString` for each entry, at the times `stamp` gives. -/
def contextToVClock (order : MapOrder (NodeID × UInt64)) (stamp : NodeID → Int64)
    (ctx : Option VClockContext) : VectorClock :=
  match ctx with
  | none => VectorClock.new
  | some entries =>
    if entries.size = 0 then VectorClock.new
    else entriesToVClock stamp (order.run entries.toList)

/-- `vclockCtxToProto`. -/
def vclockCtxToProto (order : MapOrder (NodeID × UInt64)) (ctx : Option VClockContext) :
    Option ProtoContext :=
  ctx.map fun entries => order.run entries.toList

/-- `protoContextToVClockCtx`. -/
def protoContextToVClockCtx (ctx : Option ProtoContext) : Option VClockContext :=
  ctx.map SortedMap.ofList

/-- The counters of a context arrive as they were sent. -/
theorem counters_contextToVClock (order : MapOrder (NodeID × UInt64)) (stamp : NodeID → Int64)
    (ctx : Option VClockContext) :
    (contextToVClock order stamp ctx).counters = ctx.getD SortedMap.empty := by
  cases ctx with
  | none => rfl
  | some entries =>
    dsimp only [contextToVClock]
    split_ifs with hsize
    · exact SortedMap.toList_inj (List.length_eq_zero_iff.1 hsize).symm
    · rw [counters_entriesToVClock, SortedMap.ofList_of_perm (order.perm _)]
      rfl

theorem get_contextToVClock (order : MapOrder (NodeID × UInt64)) (stamp : NodeID → Int64)
    (ctx : Option VClockContext) (n : NodeID) : (contextToVClock order stamp ctx).get n =
      (ctx.bind fun entries => entries.get? n).getD 0 := by
  rw [VectorClock.get_eq_counters, counters_contextToVClock]
  cases ctx <;> rfl

/-! ## Requests -/

/-- The `InvalidArgument` answers. -/
inductive RequestError where
  | keyEmpty
  | keyTooLong
  | valueTooLong
  | contextRequired
  deriving DecidableEq, Repr

/-- The checks of a key. -/
def checkRequestKey (key : Bytes) : Except RequestError Unit :=
  if key.length = 0 then .error .keyEmpty
  else if key.length > 64 * 1024 then .error .keyTooLong
  else .ok ()

namespace ClientAPI

/-- `Put` up to the call of the coordinator. -/
def put (order : MapOrder (NodeID × UInt64)) (stamp : NodeID → Int64) (key value : Bytes)
    (vClockContext : Option VClockContext) (ttlSeconds : Int64) : Except RequestError WriteCall := do
  checkRequestKey key
  if value.length > 1024 * 1024 then .error .valueTooLong
  else
    let vc := contextToVClock order stamp vClockContext
    return .put key value vc (if ttlSeconds > 0 then ttlSeconds else 0)

/-- `Delete` up to the call of the coordinator. -/
def delete (order : MapOrder (NodeID × UInt64)) (stamp : NodeID → Int64) (key : Bytes)
    (vClockContext : Option VClockContext) : Except RequestError WriteCall := do
  checkRequestKey key
  if (vClockContext.getD SortedMap.empty).size = 0 then .error .contextRequired
  else return .delete key (contextToVClock order stamp vClockContext)

/-- The call that `BatchPut` makes for one item, which it does not check. -/
def batchPut (order : MapOrder (NodeID × UInt64)) (stamp : NodeID → Int64) (key value : Bytes)
    (vClockContext : Option VClockContext) : WriteCall :=
  .put key value (contextToVClock order stamp vClockContext) 0

/-- A write that a request with this context makes on the coordinator. -/
inductive Calls (order : MapOrder (NodeID × UInt64)) (stamp : NodeID → Int64)
    (ctx : Option VClockContext) : WriteCall → Prop
  | put (key value : Bytes) (ttlSeconds : Int64) {call : WriteCall}
      (h : ClientAPI.put order stamp key value ctx ttlSeconds = .ok call) : Calls order stamp ctx call
  | delete (key : Bytes) {call : WriteCall}
      (h : ClientAPI.delete order stamp key ctx = .ok call) : Calls order stamp ctx call
  | batchPut (key value : Bytes) :
      Calls order stamp ctx (ClientAPI.batchPut order stamp key value ctx)

theorem put_eq_ok {order : MapOrder (NodeID × UInt64)} {stamp : NodeID → Int64} {key value : Bytes}
    {ctx : Option VClockContext} {ttlSeconds : Int64} {call : WriteCall}
    (h : put order stamp key value ctx ttlSeconds = .ok call) :
    call = .put key value (contextToVClock order stamp ctx)
      (if ttlSeconds > 0 then ttlSeconds else 0) := by
  obtain ⟨-, -, h⟩ := bind_eq_ok.1 h
  split at h
  · cases h
  · exact (Except.ok.inj h).symm

theorem delete_eq_ok {order : MapOrder (NodeID × UInt64)} {stamp : NodeID → Int64} {key : Bytes}
    {ctx : Option VClockContext} {call : WriteCall} (h : delete order stamp key ctx = .ok call) :
    call = .delete key (contextToVClock order stamp ctx) := by
  obtain ⟨-, -, h⟩ := bind_eq_ok.1 h
  split_ifs at h
  exact (Except.ok.inj h).symm

/-- Every write carries the clock of the request's context. -/
theorem Calls.context_eq {order : MapOrder (NodeID × UInt64)} {stamp : NodeID → Int64}
    {ctx : Option VClockContext} {call : WriteCall} (h : Calls order stamp ctx call) :
    call.context = contextToVClock order stamp ctx := by
  cases h with
  | put key value ttlSeconds h =>
    rw [put_eq_ok h]
    rfl
  | delete key h =>
    rw [delete_eq_ok h]
    rfl
  | batchPut key value => rfl

end ClientAPI

/-! ## What a write supersedes -/

namespace Coordinator

variable {sum64 : Bytes → UInt64} {c : Coordinator sum64}

theorem context_lt_newVClock_iff {times : WriteTimes} {context : VectorClock} :
    context < c.newVClock times context ↔ context.get c.nodeID ≠ 18446744073709551615 :=
  VectorClock.lt_tick_iff

/-- The clock that a write generates happens after its context, and after every clock that the
context dominates, so `Storage.Put` keeps beside it only siblings that the context does not
dominate. -/
def AdvancesContext (c : Coordinator sum64) (times : WriteTimes) (call : WriteCall) : Prop :=
  let sibling := c.newSibling times call
  sibling.vclock.happensAfter call.context = true ∧
  (∀ seen, call.context.dominates seen = true → sibling.vclock.happensAfter seen = true) ∧
  ∀ env s key merged, Storage.merge env s key [sibling] = .ok merged →
    ∀ x ∈ merged, x = sibling ∨ call.context.dominates x.vclock = false

theorem advancesContext_iff {times : WriteTimes} {call : WriteCall} :
    c.AdvancesContext times call ↔ call.context.get c.nodeID ≠ 18446744073709551615 := by
  rw [← context_lt_newVClock_iff (c := c)]
  simp only [AdvancesContext, vclock_newSibling, VectorClock.happensAfter_iff,
    VectorClock.dominates_iff]
  refine ⟨fun h => h.1, fun h => ⟨h, fun seen hseen => lt_of_le_of_lt hseen h, ?_⟩⟩
  intro env s key merged hmerge x hx
  obtain ⟨all, -, rfl⟩ := Storage.merge_eq_ok hmerge
  rcases mem_of_mem_reconcile hx with hnew | -
  · exact Or.inl (List.mem_singleton.1 hnew)
  · right
    have hnot := not_lt_of_mem_reconcile hx
    rw [vclock_newSibling] at hnot
    rw [Bool.eq_false_iff, Ne, VectorClock.dominates_iff]
    exact fun hle => hnot (lt_of_le_of_lt hle h)

/-- A write that a client's request makes supersedes everything its context has seen exactly when
the context does not give the coordinator's own node the largest counter. -/
theorem write_advances_context_iff (c : Coordinator sum64) (times : WriteTimes)
    (order : MapOrder (NodeID × UInt64)) (stamp : NodeID → Int64) (ctx : Option VClockContext)
    (call : WriteCall) (hcall : ClientAPI.Calls order stamp ctx call) :
    c.AdvancesContext times call ↔
      (ctx.bind fun entries => entries.get? c.nodeID) ≠ some 18446744073709551615 := by
  rw [advancesContext_iff, hcall.context_eq, get_contextToVClock]
  cases ctx.bind fun entries => entries.get? c.nodeID with
  | none => decide
  | some counter => rw [Option.getD_some, Ne, Ne, Option.some.injEq]

end Coordinator

/-- The node `n1` as a cluster of its own. -/
def writerN1 : Coordinator sampleSum64 := ⟨n1, sampleRing [n1], ⟨1, 1, 1, false⟩⟩

/-- The context of a client that has seen the fourth write of `n1`. -/
def fourthContext : Option VClockContext := some (SortedMap.ofList [([110, 49], 4)])

/-- A put and a delete with that context. -/
theorem fourth_context_is_superseded :
    writerN1.AdvancesContext ⟨100, 100, 100⟩ (.put [107] [2]
      (contextToVClock (MapOrder.inOrder _) (fun _ => 100) fourthContext) 0) ∧
    writerN1.AdvancesContext ⟨100, 100, 100⟩ (.delete [107]
      (contextToVClock (MapOrder.inOrder _) (fun _ => 100) fourthContext)) :=
  ⟨(Coordinator.write_advances_context_iff writerN1 _ (MapOrder.inOrder _) (fun _ => 100)
      fourthContext _ (.put [107] [2] 0 rfl)).2 (by decide),
    (Coordinator.write_advances_context_iff writerN1 _ (MapOrder.inOrder _) (fun _ => 100)
      fourthContext _ (.delete [107] rfl)).2 (by decide)⟩

/-- The clock of a context in which the counter of `n1` is the largest there is. -/
def largestContext : VectorClock :=
  contextToVClock (MapOrder.inOrder _) (fun _ => 100)
    (some (SortedMap.ofList [([110, 49], 18446744073709551615)]))

/-- A version with that clock. -/
def seenVersion : Sibling := ⟨[1], largestContext, 100, false, 0⟩

/-- The counter wraps around to zero, and the version the client has read stays beside the new one. -/
theorem wrapped_counter_keeps_seen_version :
    let sibling := writerN1.newSibling ⟨100, 100, 100⟩ (.put [107] [2] largestContext 0)
    sibling.vclock.happensAfter largestContext = false ∧
      reconcileSiblings [seenVersion] [sibling] = [sibling, seenVersion] := by
  decide +kernel

end GoQuorum
