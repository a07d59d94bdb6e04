import GoQuorum.Server.ClientAPI
import GoQuorum.Server.RemoteWrites

/-!
# The client and its conflict resolver

`client/client.go`: the siblings a client sees, the last-write-wins resolver, and the way of a
resolved value back to the replicas.  The context of a write is converted four times before it
becomes the clock of the new sibling, and a peer rebuilds that clock once more from what it is sent;
its counters stay the same throughout (`clientPut_eq_ok`).  Since the resolver merges everything
the client has read, the write replaces it on every replica that holds nothing else
(`resolved_conflict_collapses`).
-/

namespace GoQuorum

open Lib

/-- `Sibling` of the client. -/
structure ClientSibling where
  value : Bytes
  context : VectorClock
  timestamp : Int64
  tombstone : Bool
  deriving DecidableEq

/-- What a request of the client meets: the orders in which maps are gone through, and the times at
which the server stamps the entries of the context. -/
structure ClientEnv where
  mergeOrder : MapOrder (NodeID × VectorClockEntry)
  protoOrder : MapOrder (NodeID × UInt64)
  apiOrder : MapOrder (NodeID × UInt64)
  stamp : NodeID → Int64

/-! ## Conversions -/

/-- `vclockToProto`. -/
def vclockToProto (order : MapOrder (NodeID × UInt64)) (vc : VectorClock) : ProtoContext :=
  order.run vc.counters.toList

/-- `protoToVClock`. -/
def protoToVClock (stamp : NodeID → Int64) : Option ProtoContext → VectorClock
  | none => VectorClock.new
  | some ctx => entriesToVClock stamp ctx

/-- A sibling as `Get` of the client returns it, through the answer of the API. -/
def Sibling.toClient (apiOrder protoOrder : MapOrder (NodeID × UInt64)) (stamp : NodeID → Int64)
    (sib : Sibling) : ClientSibling :=
  let context := vclockCtxToProto protoOrder (some (vclockToContext apiOrder sib.vclock))
  ⟨sib.value, protoToVClock stamp context, sib.timestamp, sib.tombstone⟩

/-- `Put` of the client, up to the call that reaches the coordinator. -/
def clientPut (env : ClientEnv) (key value : Bytes) (causalCtx : VectorClock) :
    Except RequestError WriteCall :=
  ClientAPI.put env.apiOrder env.stamp key value
    (protoContextToVClockCtx (some (vclockToProto env.protoOrder causalCtx))) 0

/-- The coordinator receives a put of the value with the counters of the client's context. -/
theorem clientPut_eq_ok {env : ClientEnv} {key value : Bytes} {causalCtx : VectorClock}
    {call : WriteCall} (h : clientPut env key value causalCtx = .ok call) :
    ∃ context, call = .put key value context 0 ∧ context.counters = causalCtx.counters := by
  refine ⟨_, ClientAPI.put_eq_ok h, ?_⟩
  rw [counters_contextToVClock]
  exact SortedMap.ofList_of_perm (env.protoOrder.perm _)

/-! ## The resolver -/

/-- The loop of `findLatest`. -/
def latestFrom (best : ClientSibling) : List ClientSibling → ClientSibling
  | [] => best
  | s :: rest => if s.timestamp > best.timestamp then latestFrom s rest else latestFrom best rest

/-- `findLatest`. -/
def findLatest : List ClientSibling → ClientSibling
  | [] => ⟨[], VectorClock.new, 0, false⟩
  | best :: rest => latestFrom best rest

/-- The loop of `Resolve` that merges the contexts. -/
def mergeContexts (order : MapOrder (NodeID × VectorClockEntry)) (mergedContext : VectorClock)
    (siblings : List ClientSibling) : VectorClock :=
  siblings.foldl (fun merged s => merged.merge order s.context) mergedContext

/-- `Resolve` of the `LWWResolver`: the value to write and its context. -/
def resolve (order : MapOrder (NodeID × VectorClockEntry)) (siblings : List ClientSibling) :
    Bytes × VectorClock :=
  ((findLatest siblings).value, mergeContexts order VectorClock.new siblings)

theorem latestFrom_spec (best : ClientSibling) (rest : List ClientSibling) :
    latestFrom best rest ∈ best :: rest ∧
      ∀ s ∈ best :: rest, s.timestamp ≤ (latestFrom best rest).timestamp := by
  induction rest generalizing best with
  | nil => exact ⟨List.mem_cons_self, by simp [latestFrom]⟩
  | cons s rest ih =>
    rw [latestFrom]
    split_ifs with hgt
    · obtain ⟨hmem, hmax⟩ := ih s
      refine ⟨List.mem_cons_of_mem _ hmem, List.forall_mem_cons.2 ⟨?_, hmax⟩⟩
      exact Int64.le_trans (Int64.le_of_lt hgt) (hmax s List.mem_cons_self)
    · obtain ⟨hmem, hmax⟩ := ih best
      rw [List.forall_mem_cons] at hmax
      refine ⟨?_, List.forall_mem_cons.2 ⟨hmax.1, List.forall_mem_cons.2 ⟨?_, hmax.2⟩⟩⟩
      · rcases List.mem_cons.1 hmem with h | h
        · exact List.mem_cons.2 (Or.inl h)
        · exact List.mem_cons_of_mem _ (List.mem_cons_of_mem _ h)
      · exact Int64.le_trans (Int64.not_lt.1 hgt) hmax.1

/-- The value of a resolved conflict is that of a newest sibling. -/
theorem findLatest_spec {siblings : List ClientSibling} (h : siblings ≠ []) :
    ∃ l ∈ siblings, findLatest siblings = l ∧ ∀ s ∈ siblings, s.timestamp ≤ l.timestamp := by
  cases siblings with
  | nil => exact absurd rfl h
  | cons best rest =>
    obtain ⟨hmem, hmax⟩ := latestFrom_spec best rest
    exact ⟨_, hmem, rfl, hmax⟩

theorem mergeContexts_eq_mergeAll (order : MapOrder (NodeID × VectorClockEntry))
    (start : VectorClock) (siblings : List ClientSibling) :
    mergeContexts order start siblings =
      VectorClock.mergeAll order start (siblings.map ClientSibling.context) :=
  List.foldl_map.symm

theorem le_mergeContexts (order : MapOrder (NodeID × VectorClockEntry)) (start : VectorClock)
    {siblings : List ClientSibling} {s : ClientSibling} (h : s ∈ siblings) :
    s.context ≤ mergeContexts order start siblings := by
  rw [mergeContexts_eq_mergeAll]
  exact (VectorClock.le_mergeAll order start _).2 _ (List.mem_map_of_mem h)

/-! ## Writing the result -/

/-- The record consists of one sibling, which happens after everything the client has read and has
the value of a newest sibling among it. -/
def Collapsed (L : List ClientSibling) (s : Storage) (key : Bytes) (new : Sibling) : Prop :=
  s.Keeps key [new] ∧ (∀ l ∈ L, new.vclock.happensAfter l.context = true) ∧
    ∃ l ∈ L, new.value = l.value ∧ ∀ l' ∈ L, l'.timestamp ≤ l.timestamp

/-- A sibling newer than everything in a record replaces it. -/
theorem Storage.Keeps.put_newer {env : CallEnv} {s t : Storage} {key : Bytes} {set : SiblingSet}
    {x : Sibling} (h : s.Keeps key set) (hput : s.put env key [x] = .ok t)
    (hprune : Storage.NoPrune env s key [x]) (hnewer : ∀ e ∈ set, e.vclock < x.vclock) :
    t.Keeps key [x] := by
  obtain ⟨-, hkeeps⟩ := h.put hput hprune
  have hnone : (unexpired env.readNow set).filter
      (fun e => ¬ x.vclock.happensAfter e.vclock) = [] := by
    refine List.filter_eq_nil_iff.2 fun e he => ?_
    simpa [VectorClock.happensAfter_iff] using hnewer e (mem_of_mem_unexpired he)
  rwa [reconcile_eq_cons, hnone] at hkeeps

/-- When a client resolves what it has read and puts the result, a replica whose siblings it has all
seen ends with the new sibling alone, whether it writes for itself or takes the write from a
peer. -/
theorem resolved_conflict_collapses {sum64 : Bytes → UInt64} (c : Coordinator sum64)
    (times : WriteTimes) (env : ClientEnv) (key : Bytes) (L : List ClientSibling) (call : WriteCall)
    (s : Storage) (S : SiblingSet) (hL : L ≠ []) (hids : ∀ l ∈ L, l.context.ValidIDs)
    (hS : s.stored key = .ok S)
    (hseen : ∀ x ∈ S, ∃ l ∈ L, l.context.dominates x.vclock = true)
    (hcounter : (resolve env.mergeOrder L).2.get c.nodeID < 18446744073709551615)
    (hcall : clientPut env key (resolve env.mergeOrder L).1 (resolve env.mergeOrder L).2 =
      .ok call) :
    (∀ putEnv s', Storage.NoPrune putEnv s key [c.newSibling times call] →
      s.put putEnv key [c.newSibling times call] = .ok s' →
      Collapsed L s' key (c.newSibling times call)) ∧
    ∀ net s', Storage.NoPrune (net 0).env s key
        [(c.newSibling times call).received (net 0).stamp] →
      remotePut key net s [c.newSibling times call] = (.ok (), s') →
      Collapsed L s' key ((c.newSibling times call).received (net 0).stamp) := by
  obtain ⟨context, rfl, hcounters⟩ := clientPut_eq_ok hcall
  obtain ⟨l, hl, hlatest, hnewest⟩ := findLatest_spec hL
  have hmergedIDs : (resolve env.mergeOrder L).2.ValidIDs := by
    rw [resolve, mergeContexts_eq_mergeAll]
    refine VectorClock.ValidIDs.mergeAll _ (fun p hp => absurd hp List.not_mem_nil) fun vc hvc => ?_
    obtain ⟨l, hl, rfl⟩ := List.mem_map.1 hvc
    exact hids l hl
  have hsame := VectorClock.antisymmRel_of_counters hcounters
  have hadvance : context < c.newVClock times context := by
    rw [Coordinator.context_lt_newVClock_iff, VectorClock.get_congr hcounters]
    exact (UInt64.ne_of_lt hcounter)
  have hnewIDs : (c.newVClock times context).ValidIDs :=
    (hmergedIDs.of_counters hcounters.symm).tick c.nodeID.2 _
  -- whatever way the new clock takes, it is newer than what was read and than the record
  have collapse : ∀ (w : Sibling) (putEnv : CallEnv) (s' : Storage),
      c.newVClock times context ≤ w.vclock → w.value = (resolve env.mergeOrder L).1 →
      Storage.NoPrune putEnv s key [w] → s.put putEnv key [w] = .ok s' →
      Collapsed L s' key w := by
    intro w putEnv s' hw hvalue hprune hput
    have hread : ∀ l ∈ L, l.context < w.vclock := fun l hl =>
      lt_of_le_of_lt (le_mergeContexts _ _ hl)
        (lt_of_le_of_lt hsame.2 (lt_of_lt_of_le hadvance hw))
    refine ⟨Storage.Keeps.put_newer (Or.inl hS) hput hprune fun x hx => ?_,
      fun l hl => VectorClock.happensAfter_iff.2 (hread l hl), l, hl, ?_, hnewest⟩
    · obtain ⟨l, hl, hdom⟩ := hseen x hx
      exact lt_of_le_of_lt (VectorClock.dominates_iff.1 hdom) (hread l hl)
    · rw [hvalue, resolve, hlatest]
  constructor
  · intro putEnv s' hprune hput
    exact collapse _ putEnv s' le_rfl rfl hprune hput
  · intro net s' hprune hput
    let sib := c.newSibling times (.put key (resolve env.mergeOrder L).1 context 0)
    have hkept := (sib.received_of_validIDs hnewIDs (net 0).stamp).2
    exact collapse _ _ s' hkept.1 rfl hprune (remotePut_singleton_eq_ok hput)

/-- Two concurrent versions of the key `k`, by `n1` and by `n2`. -/
def concurrentVersions : SiblingSet :=
  [⟨[1], VectorClock.new.set 100 [110, 49] 1, 90, false, 0⟩,
    ⟨[2], VectorClock.new.set 100 [110, 50] 1, 95, false, 0⟩]

/-- A replica that holds both. -/
def conflictStore : Storage :=
  ((Storage.new defaultStorageOptions).put (CallEnv.steady 100) [107]
    concurrentVersions).toOption.getD (Storage.new defaultStorageOptions)

/-- A client at second 100. -/
def promptClient : ClientEnv :=
  ⟨MapOrder.inOrder _, MapOrder.inOrder _, MapOrder.inOrder _, fun _ => 100⟩

/-- What the client has read of it. -/
def conflictRead : List ClientSibling :=
  concurrentVersions.map fun sib =>
    sib.toClient (MapOrder.inOrder _) (MapOrder.inOrder _) fun _ => 100

/-- The call by which the client writes the resolved value. -/
def resolvingCall : WriteCall :=
  .put [107] [2] (contextToVClock (MapOrder.inOrder _) (fun _ => 100)
    (some (resolve (MapOrder.inOrder _) conflictRead).2.counters)) 0

set_option maxRecDepth 8000 in
theorem resolved_conflict_of_two_writers : ∃ s', remotePut [107] promptNet conflictStore
      [writerN1.newSibling ⟨100, 100, 100⟩ resolvingCall] = (.ok (), s') ∧
    Collapsed conflictRead s' [107]
      ((writerN1.newSibling ⟨100, 100, 100⟩ resolvingCall).received fun _ => 100) := by
  obtain ⟨s', hok⟩ : ∃ s', remotePut [107] promptNet conflictStore
      [writerN1.newSibling ⟨100, 100, 100⟩ resolvingCall] = (.ok (), s') :=
    ⟨_, Prod.fst_eq_iff.1 (by decide +kernel)⟩
  exact ⟨s', hok, (resolved_conflict_collapses writerN1 ⟨100, 100, 100⟩ promptClient [107]
    conflictRead resolvingCall conflictStore concurrentVersions (by decide +kernel)
    (by decide +kernel) (by decide +kernel) (by decide +kernel) (by decide +kernel) rfl).2
    promptNet s' (by decide +kernel) hok⟩

end GoQuorum
