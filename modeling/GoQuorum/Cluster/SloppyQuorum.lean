import GoQuorum.Cluster.HintedHandoff
import GoQuorum.Storage.CallerSet

/-!
# What an acknowledged `Put` means

`Coordinator.Put` as a whole: the fan-out to the preference list, the overflow writes of a sloppy
quorum, the hints that both leave, and the answer.  The ring may change before the second lookup, and
every replica may answer in any way and in any order.

`Put` succeeds exactly when `W` different nodes have acknowledged the write, and every peer that was
contacted and has not acknowledged it has a hint afterwards.  The hint keeps the sibling set of the
call and no copy of it.  If the coordinator stores the key itself, its own write may prune this set,
and the hints are then for a version with another clock (`hint_loses_clock_entry`).
`put_accounts_for_replicas_iff` says when they are for the version that was put.
-/

namespace GoQuorum

open Lib

/-- What `parallelWrite` collects from a list of nodes: one response of each, in any order. -/
structure FanOut (nodes : List NodeID) where
  responses : List WriteResponse
  answered : (responses.map WriteResponse.nodeID).Perm nodes

/-- What a `Put` meets once it has been planned: the outcomes of its fan-outs, the ring at the time
of the second lookup, and the times of the hints. -/
structure PutEnv (sum64 : Bytes → UInt64) where
  strict : ∀ nodes, FanOut nodes
  ring : HashRing sum64
  overflow : ∀ nodes, FanOut nodes
  now : NodeID → ℤ

/-- A completed `Put` or `Delete` as this node sees it: what was written, what the local write met if
there was one, and whether the call succeeded. -/
structure CompletedWrite where
  plan : WritePlan
  taken : Option CallEnv
  acknowledged : Bool

namespace CompletedWrite

/-- The store after the call. -/
def storeAfter (w : CompletedWrite) (s : Storage) : Storage :=
  match w.taken with
  | none => s
  | some env => (s.put env w.plan.key [w.plan.sibling]).toOption.getD s

/-- The coordinator's sibling set after the call. -/
def siblingSet (w : CompletedWrite) (s : Storage) : SiblingSet :=
  match w.taken with
  | none => [w.plan.sibling]
  | some env => s.callerSet env w.plan.key w.plan.sibling

/-- The clock that `Put` returns. -/
def returnedClock (w : CompletedWrite) (s : Storage) : VectorClock :=
  match w.taken with
  | none => w.plan.sibling.vclock
  | some env => s.copiedClock env w.plan.key w.plan.sibling

end CompletedWrite

namespace Coordinator

variable {sum64 : Bytes → UInt64} (c : Coordinator sum64)

/-- Whether `Put` goes on to overflow nodes. -/
def triesOverflow (env : PutEnv sum64) (plan : WritePlan) : Prop :=
  c.quorumConfig.sloppyQuorum = true ∧
    (countSuccesses (env.strict plan.prefList).responses : ℤ) < c.quorumConfig.W

instance (env : PutEnv sum64) (plan : WritePlan) : Decidable (c.triesOverflow env plan) :=
  inferInstanceAs (Decidable (_ ∧ _))

/-- The overflow nodes that `Put` contacts. -/
def putOverflow (env : PutEnv sum64) (plan : WritePlan) : List NodeID :=
  if c.triesOverflow env plan then
    { c with ring := env.ring }.overflowNodes plan.key plan.prefList
      (countSuccesses (env.strict plan.prefList).responses)
  else []

/-- The nodes that `Put` contacts. -/
def contacted (env : PutEnv sum64) (plan : WritePlan) : List NodeID :=
  plan.prefList ++ c.putOverflow env plan

/-- The responses that `Put` receives. -/
def putResponses (env : PutEnv sum64) (plan : WritePlan) : List WriteResponse :=
  (env.strict plan.prefList).responses ++
    if c.triesOverflow env plan then (env.overflow (c.putOverflow env plan)).responses else []

/-- The local write of a fan-out, which happens if the coordinator is one of the nodes. -/
def takes (nodes : List NodeID) (here : CallEnv) : Option CallEnv :=
  if (c.nodeID : NodeID) ∈ nodes then some here else none

/-- A `Put` with the given fan-outs. -/
def completedPut (env : PutEnv sum64) (here : CallEnv) (plan : WritePlan) : CompletedWrite where
  plan := plan
  taken := c.takes (c.contacted env plan) here
  acknowledged := ({ c with ring := env.ring }.finishPut plan (env.strict plan.prefList).responses
    fun nodes => (env.overflow nodes).responses).isOk

/-- `Put` of a coordinator with the given store: its answer, and the hinted handoff, if one is
attached, as it leaves it.  The hints share the sibling set of the call, and the clock that is
returned shares a map with it. -/
def put (env : PutEnv sum64) (here : CallEnv) (store : Storage) (times : WriteTimes)
    (key value : Bytes) (context : VectorClock) (ttlSeconds : Int64)
    (handoff : Option (HintedHandoff c.nodeID)) :
    Except CoordinatorError VectorClock × Option (HintedHandoff c.nodeID) :=
  match c.plan times (.put key value context ttlSeconds) with
  | .error err => (.error err, handoff)
  | .ok plan =>
    let w := c.completedPut env here plan
    (({ c with ring := env.ring }.finishPut plan (env.strict plan.prefList).responses
        fun nodes => (env.overflow nodes).responses).map fun _ => w.returnedClock store,
      handoff.map fun hh =>
        hh.storeHints env.now plan.key (w.siblingSet store) (c.putResponses env plan))

/-- A node has acknowledged the write. -/
def Acknowledged (env : PutEnv sum64) (plan : WritePlan) (n : NodeID) : Prop :=
  ∃ resp ∈ c.putResponses env plan, resp.nodeID = n ∧ resp.error = none

instance (env : PutEnv sum64) (plan : WritePlan) (n : NodeID) :
    Decidable (c.Acknowledged env plan n) :=
  inferInstanceAs (Decidable (∃ resp ∈ _, _))

variable {c} {env : PutEnv sum64} {plan : WritePlan}

/-! ## Contacted nodes -/

/-- The contacted nodes are different: an overflow node is not on the preference list. -/
theorem nodup_contacted (hprefList : plan.prefList.Nodup) : (c.contacted env plan).Nodup := by
  refine List.nodup_append.2 ⟨hprefList, ?_, ?_⟩
  · unfold putOverflow overflowNodes
    split_ifs with htry
    · split
      · exact List.nodup_nil
      · rename_i extList hext
        exact ((HashRing.nodup_lookup hext).sublist (List.drop_sublist _ _)).filter _
    · exact List.nodup_nil
  · rintro n hn m hm rfl
    unfold putOverflow overflowNodes at hm
    split_ifs at hm with htry
    · split at hm
      · cases hm
      · exact of_decide_eq_true (List.mem_filter.1 hm).2 hn
    · cases hm

/-- Every contacted node has answered, once. -/
theorem perm_contacted :
    ((c.putResponses env plan).map WriteResponse.nodeID).Perm (c.contacted env plan) := by
  unfold putResponses contacted
  rw [List.map_append]
  refine (env.strict plan.prefList).answered.append ?_
  split_ifs with htry
  · exact (env.overflow _).answered
  · rw [putOverflow, if_neg htry]
    exact List.Perm.refl _

/-! ## The answer -/

/-- `Put` succeeds exactly when enough responses report a success. -/
theorem finishPut_isOk_iff : ({ c with ring := env.ring }.finishPut plan
      (env.strict plan.prefList).responses fun nodes => (env.overflow nodes).responses).isOk = true ↔
    c.quorumConfig.W ≤ countSuccesses (c.putResponses env plan) := by
  have hcount : ∀ l m : List WriteResponse,
      countSuccesses (l ++ m) = countSuccesses l + countSuccesses m := fun _ _ => List.countP_append
  unfold finishPut putResponses
  dsimp only
  by_cases hW : (countSuccesses (env.strict plan.prefList).responses : ℤ) ≥ c.quorumConfig.W
  · have hno : ¬ c.triesOverflow env plan := fun h => absurd hW (not_le.2 h.2)
    rw [if_pos hW, if_neg hno, List.append_nil]
    exact iff_of_true rfl hW
  · rw [if_neg hW]
    by_cases hs : c.quorumConfig.sloppyQuorum = true
    · have htry : c.triesOverflow env plan := ⟨hs, not_le.1 hW⟩
      rw [if_pos hs, if_pos htry, hcount, putOverflow, if_pos htry]
      split_ifs with hall
      · exact iff_of_true rfl hall
      · exact iff_of_false Bool.false_ne_true hall
    · have hno : ¬ c.triesOverflow env plan := fun h => hs h.1
      rw [if_neg hs, if_neg hno, if_neg hW, List.append_nil]
      exact iff_of_false Bool.false_ne_true hW

/-- With one response of each node, the successes count different nodes. -/
theorem le_countSuccesses_iff (hnodup : ((c.putResponses env plan).map WriteResponse.nodeID).Nodup)
    (W : ℤ) : W ≤ countSuccesses (c.putResponses env plan) ↔
      ∃ nodes : List NodeID, nodes.Nodup ∧ W ≤ nodes.length ∧
        ∀ n ∈ nodes, c.Acknowledged env plan n := by
  have hlen : (((c.putResponses env plan).filter fun resp => resp.error.isNone).map
      WriteResponse.nodeID).length = countSuccesses (c.putResponses env plan) := by
    rw [List.length_map, countSuccesses, List.countP_eq_length_filter]
  have hmem : ∀ n, n ∈ ((c.putResponses env plan).filter fun resp => resp.error.isNone).map
      WriteResponse.nodeID ↔ c.Acknowledged env plan n := by
    intro n
    simp only [List.mem_map, List.mem_filter, Option.isNone_iff_eq_none, Acknowledged]
    exact exists_congr fun resp => by rw [and_assoc, and_comm (a := resp.error = none)]
  constructor
  · intro h
    refine ⟨_, hnodup.sublist (List.filter_sublist.map _), hlen ▸ h, fun n hn => (hmem n).1 hn⟩
  · rintro ⟨nodes, hnodes, hW, hack⟩
    have hsub := List.subperm_of_subset hnodes fun n hn => (hmem n).2 (hack n hn)
    have hle := hsub.length_le
    omega

/-- `Put` succeeds exactly when `W` different nodes have acknowledged the write. -/
theorem isOk_finishPut_iff
    (hnodup : ((c.putResponses env plan).map WriteResponse.nodeID).Nodup) :
    ({ c with ring := env.ring }.finishPut plan (env.strict plan.prefList).responses
        fun nodes => (env.overflow nodes).responses).isOk = true ↔
      ∃ nodes : List NodeID, nodes.Nodup ∧ c.quorumConfig.W ≤ nodes.length ∧
        ∀ n ∈ nodes, n ∈ c.contacted env plan ∧ c.Acknowledged env plan n := by
  rw [finishPut_isOk_iff, le_countSuccesses_iff hnodup]
  refine exists_congr fun nodes => and_congr_right fun _ => and_congr_right fun _ =>
    forall₂_congr fun n _ => (and_iff_right_of_imp ?_).symm
  rintro ⟨resp, hresp, rfl, -⟩
  exact perm_contacted.mem_iff.1 (List.mem_map_of_mem hresp)

/-! ## The hints -/

/-- A hint for a key and a sibling set is pending. -/
def HasHint (list : List Hint) (key : Bytes) (siblings : SiblingSet) : Prop :=
  ∃ hint ∈ list, hint.key = key ∧ hint.siblings = siblings

instance (list : List Hint) (key : Bytes) (siblings : SiblingSet) :
    Decidable (HasHint list key siblings) :=
  inferInstanceAs (Decidable (∃ hint ∈ list, _))

/-- The coordinator's set stays as it is exactly if its own write leaves it alone. -/
theorem siblingSet_completedPut_iff {here : CallEnv} {store : Storage} :
    (c.completedPut env here plan).siblingSet store = [plan.sibling] ↔
      ((c.nodeID : NodeID) ∈ c.contacted env plan →
        store.LeavesCaller here plan.key plan.sibling) := by
  by_cases hself : (c.nodeID : NodeID) ∈ c.contacted env plan
  · have htaken : (c.completedPut env here plan).siblingSet store =
        store.callerSet here plan.key plan.sibling := by
      simp only [CompletedWrite.siblingSet, completedPut, takes, if_pos hself]
    rw [htaken, Storage.callerSet_eq_self_iff]
    exact ⟨fun h _ => h, fun h => h hself⟩
  · refine iff_of_true ?_ fun h => absurd h hself
    simp only [CompletedWrite.siblingSet, completedPut, takes, if_neg hself]

/-- A peer that has not acknowledged the write keeps its hints and gets one with the set of the call,
as the call leaves it. -/
theorem pending_after_put {siblings : SiblingSet} (hprefList : plan.prefList.Nodup)
    (hh : HintedHandoff c.nodeID) {n : NodeID} (hn : n ∈ c.contacted env plan) (hne : n ≠ c.nodeID)
    (hack : ¬c.Acknowledged env plan n) :
    (hh.storeHints env.now plan.key siblings (c.putResponses env plan)).pending n =
      HintedHandoff.retained (hh.pending n) ++ [⟨plan.key, siblings, env.now n⟩] := by
  have hnodup : ((c.putResponses env plan).map WriteResponse.nodeID).Nodup :=
    perm_contacted.nodup_iff.2 (nodup_contacted hprefList)
  obtain ⟨resp, hresp, rfl⟩ := List.mem_map.1 (perm_contacted.mem_iff.2 hn)
  have herr : resp.error.isSome := by
    rw [Option.isSome_iff_ne_none]
    exact fun h => hack ⟨resp, hresp, rfl, h⟩
  rw [HintedHandoff.pending_storeHints hnodup, if_pos ⟨resp, hresp, rfl, herr, hne⟩]
  rfl

/-- What a `Put` owes its caller: it succeeds exactly when `W` different nodes have acknowledged the
write, and every contacted node other than the coordinator that has not acknowledged it has a hint
for the key and the sibling afterwards. -/
structure AccountsForReplicas (c : Coordinator sum64) (env : PutEnv sum64) (plan : WritePlan)
    (outcome : Except CoordinatorError VectorClock × Option (HintedHandoff c.nodeID)) : Prop where
  quorum : outcome.1.isOk = true ↔
    ∃ nodes : List NodeID, nodes.Nodup ∧ c.quorumConfig.W ≤ nodes.length ∧
      ∀ n ∈ nodes, n ∈ c.contacted env plan ∧ c.Acknowledged env plan n
  hints : ∀ hh, outcome.2 = some hh → ∀ n ∈ c.contacted env plan, n ≠ c.nodeID →
    ¬c.Acknowledged env plan n → HasHint (hh.pending n) plan.key [plan.sibling]

/-- For every ring, configuration, store and outcome of the replica writes, `Put` succeeds exactly when
`W` different nodes have acknowledged the write.  It also leaves the hints it owes exactly if the
coordinator's own write, where there is one, finds nothing to prune in the clock of the sibling, or
every peer that has failed keeps a hint for the same version from before. -/
theorem put_accounts_for_replicas_iff (sum64 : Bytes → UInt64) (c : Coordinator sum64)
    (env : PutEnv sum64) (here : CallEnv) (store : Storage) (times : WriteTimes) (key value : Bytes)
    (context : VectorClock) (ttlSeconds : Int64) (handoff : Option (HintedHandoff c.nodeID))
    (plan : WritePlan) (hvalid : c.quorumConfig.validate = .ok ())
    (hplan : c.plan times (.put key value context ttlSeconds) = .ok plan) :
    ((c.put env here store times key value context ttlSeconds handoff).1.isOk = true ↔
      ∃ nodes : List NodeID, nodes.Nodup ∧ c.quorumConfig.W ≤ nodes.length ∧
        ∀ n ∈ nodes, n ∈ c.contacted env plan ∧ c.Acknowledged env plan n) ∧
    (c.AccountsForReplicas env plan
        (c.put env here store times key value context ttlSeconds handoff) ↔
      ((c.nodeID : NodeID) ∈ c.contacted env plan →
        store.LeavesCaller here plan.key plan.sibling) ∨
      ∀ hh, handoff = some hh → ∀ n ∈ c.contacted env plan, n ≠ c.nodeID →
        ¬c.Acknowledged env plan n →
          HasHint (HintedHandoff.retained (hh.pending n)) plan.key [plan.sibling]) := by
  obtain ⟨-, -, hpref⟩ := plan_eq_ok hplan
  have hN := (QuorumConfig.bounds_of_validate hvalid).1
  have hprefList := (HashRing.getPreferenceList_eq_ok (by omega) hpref).1
  have hnodup : ((c.putResponses env plan).map WriteResponse.nodeID).Nodup :=
    perm_contacted.nodup_iff.2 (nodup_contacted hprefList)
  rw [← siblingSet_completedPut_iff, put, hplan]
  dsimp only
  generalize (c.completedPut env here plan).siblingSet store = siblings
  have hquorum := isOk_finishPut_iff hnodup
  rw [isOk_map]
  refine ⟨hquorum, fun h => ?_, fun h => ⟨?_, fun hh hhh n hn hne hack => ?_⟩⟩
  · -- the new hint is for another version, so the hint that is owed was there before
    refine or_iff_not_imp_left.2 fun hpruned hh hhh n hn hne hack => ?_
    obtain ⟨hint, hmem, hkey, hsiblings⟩ := h.hints _ (by rw [hhh]; rfl) n hn hne hack
    rw [pending_after_put hprefList hh hn hne hack, List.mem_append] at hmem
    rcases hmem with hmem | hmem
    · exact ⟨hint, hmem, hkey, hsiblings⟩
    · rw [List.mem_singleton.1 hmem] at hsiblings
      exact absurd hsiblings hpruned
  · rwa [isOk_map]
  · obtain ⟨hh₀, hhandoff, rfl⟩ := Option.map_eq_some_iff.1 hhh
    rw [pending_after_put hprefList hh₀ hn hne hack]
    rcases h with rfl | hbefore
    · exact ⟨_, List.mem_append_right _ List.mem_cons_self, rfl, rfl⟩
    · obtain ⟨hint, hmem, hhint⟩ := hbefore hh₀ hhandoff n hn hne hack
      exact ⟨hint, List.mem_append_left _ hmem, hhint⟩

end Coordinator

/-! ## A sloppy quorum -/

/-- Every node of a fan-out answers, and those of a list fail. -/
def failing (down : List NodeID) (nodes : List NodeID) : FanOut nodes where
  responses := nodes.map fun n =>
    ⟨n, if n ∈ down then some (.remote n .unreachable) else none⟩
  answered := by
    rw [List.map_map]
    exact (List.map_id nodes).symm ▸ List.Perm.refl _

/-- The coordinator `n1` of a ring of three nodes, two of which store each key. -/
def sloppyCoordinator : Coordinator sampleSum64 where
  nodeID := n1
  ring := sampleRing [n1, n2, n3]
  quorumConfig := ⟨2, 1, 2, true⟩

/-- The first replica of the key is down. -/
def firstReplicaDown : PutEnv sampleSum64 where
  strict := failing [[110, 50]]
  ring := sampleRing [n1, n2, n3]
  overflow := failing []
  now := fun _ => 0

/-- What a `Put` of the key `k` by that coordinator sends, after version 1 of the node `n2`. -/
def sloppyPlan : WritePlan where
  key := [107]
  sibling := sloppyCoordinator.newSibling ⟨100, 100, 100⟩
    (.put [107] [1] (VectorClock.new.set 99 n2 1) 0)
  prefList := [[110, 50], [110, 51]]

/-- An overflow node, here the coordinator, stands in for the replica, which gets a hint. -/
theorem put_accounts_for_failed_replica :
    let outcome := sloppyCoordinator.put firstReplicaDown (CallEnv.steady 100)
      (Storage.new defaultStorageOptions) ⟨100, 100, 100⟩ [107] [1] (VectorClock.new.set 99 n2 1) 0
      (some HintedHandoff.new)
    outcome.1.isOk = true ∧ ∃ hh, outcome.2 = some hh ∧
      Coordinator.HasHint (hh.pending n2) [107] [sloppyPlan.sibling] := by
  have hplan : sloppyCoordinator.plan ⟨100, 100, 100⟩
      (.put [107] [1] (VectorClock.new.set 99 n2 1) 0) = .ok sloppyPlan := rfl
  intro outcome
  have h := Coordinator.put_accounts_for_replicas_iff sampleSum64 sloppyCoordinator
    firstReplicaDown (CallEnv.steady 100) (Storage.new defaultStorageOptions) ⟨100, 100, 100⟩ [107]
    [1] (VectorClock.new.set 99 n2 1) 0 (some HintedHandoff.new) sloppyPlan rfl hplan
  refine ⟨h.1.2 ⟨[n3, n1], by decide +kernel⟩, _, rfl, ?_⟩
  exact (h.2.2 (Or.inl fun _ => by decide +kernel)).hints _ rfl n2 (by decide +kernel)
    (by decide +kernel) (by decide +kernel)

/-- Options that keep one entry of a clock. -/
def oneEntryOptions : StorageOptions :=
  { defaultStorageOptions with vclockMaxEntries := 1, vclockMaxEntries_pos := Int.one_pos }

/-- Where the coordinator keeps one entry of a clock, its own write removes an entry from the hint that
was stored before. -/
theorem hint_loses_clock_entry :
    let outcome := sloppyCoordinator.put firstReplicaDown (CallEnv.steady 100)
      (Storage.new oneEntryOptions) ⟨100, 100, 100⟩ [107] [1] (VectorClock.new.set 99 n2 1) 0
      (some HintedHandoff.new)
    outcome.1.isOk = true ∧ (n2 : NodeID) ∈ sloppyCoordinator.contacted firstReplicaDown sloppyPlan ∧
      ¬sloppyCoordinator.Acknowledged firstReplicaDown sloppyPlan n2 ∧
      sloppyPlan.sibling.vclock.counters.toList = [([110, 49], 1), ([110, 50], 1)] ∧
      outcome.2.map (fun hh => (hh.pending n2).map fun hint =>
        (hint.key, hint.siblings.map fun sib => sib.vclock.counters.toList)) =
        some [([107], [[([110, 49], 1)]])] := by
  decide +kernel

end GoQuorum
