import GoQuorum.Cluster.FaultTolerance

/-!
# Whom a `QuorumError` blames

`Put` and `Get` collect the responses in the order in which they arrive, and report the error of the
`i`-th response under the `i`-th node of the preference list.  The report is right exactly if, for
every error, the node in its place has answered with the same error (`attributes_errors_iff`).  The
nodes of the list are distinct and there are not more responses than nodes, so a report that names
only failures names all of them (`attributesErrors_iff`).
-/

namespace GoQuorum

open Lib

/-- What a response says: who has answered, and with which error. -/
abbrev Outcome := NodeID × Option ReplicaFailure

def WriteResponse.outcome (resp : WriteResponse) : Outcome := (resp.nodeID, resp.error)

def ReadResponse.outcome (resp : ReadResponse) : Outcome := (resp.nodeID, resp.error)

/-- A report lists the errors of the responses, each under the replica that it came from. -/
def AttributesErrors (outcomes : List Outcome) (report : List ReplicaError) : Prop :=
  ∀ n err, ⟨n, err⟩ ∈ report ↔ (n, some err) ∈ outcomes

/-- If the `i`-th response to arrive is an error, the `i`-th node has answered with this error. -/
def ErrorsInPlace (prefList : List NodeID) (outcomes : List Outcome) : Prop :=
  ∀ (i : ℕ) n err, outcomes[i]? = some (n, some err) →
    ∃ m, prefList[i]? = some m ∧ (m, some err) ∈ outcomes

/-! ## The report of a list of responses -/

section Report

variable {prefList : List NodeID} {errors : List (Option ReplicaFailure)} {outcomes : List Outcome}

theorem mem_replicaErrors {n : NodeID} {err : ReplicaFailure} :
    ⟨n, err⟩ ∈ replicaErrors prefList errors ↔
      ∃ i : ℕ, prefList[i]? = some n ∧ errors[i]? = some (some err) := by
  constructor
  · intro h
    obtain ⟨⟨m, e⟩, hmem, he⟩ := List.mem_filterMap.1 h
    obtain ⟨err', rfl, hentry⟩ := Option.map_eq_some_iff.1 he
    obtain ⟨rfl, rfl⟩ := ReplicaError.mk.inj hentry
    obtain ⟨i, hi⟩ := List.mem_iff_getElem?.1 hmem
    exact ⟨i, List.getElem?_zip_eq_some.1 hi⟩
  · rintro ⟨i, hn, he⟩
    apply List.mem_filterMap.2
    exact ⟨(n, some err), List.mem_of_getElem? (List.getElem?_zip_eq_some.2 ⟨hn, he⟩), rfl⟩

/-- No node is reported more often than it stands in the preference list. -/
theorem nodeIDs_replicaErrors_sublist (prefList : List NodeID)
    (errors : List (Option ReplicaFailure)) :
    ((replicaErrors prefList errors).map ReplicaError.nodeID).Sublist prefList := by
  induction prefList generalizing errors with
  | nil => simp [replicaErrors]
  | cons n prefList ih =>
    cases errors with
    | nil => simp [replicaErrors]
    | cons e errors =>
      cases e with
      | none => exact (ih errors).cons n
      | some err => exact (ih errors).cons_cons n

/-- Every error is reported once. -/
theorem length_replicaErrors (h : errors.length ≤ prefList.length) :
    (replicaErrors prefList errors).length = errors.countP Option.isSome := by
  rw [replicaErrors, List.length_filterMap_eq_countP]
  calc (prefList.zip errors).countP (fun p => (p.2.map fun err => (⟨p.1, err⟩ : ReplicaError)).isSome)
      = (prefList.zip errors).countP (Option.isSome ∘ Prod.snd) := by simp [Function.comp_def]
    _ = ((prefList.zip errors).map Prod.snd).countP Option.isSome := List.countP_map.symm
    _ = errors.countP Option.isSome := by rw [List.map_snd_zip h]

/-- With every error in its place, the report names only failures. -/
theorem ErrorsInPlace.sound (h : ErrorsInPlace prefList outcomes) {n : NodeID} {err : ReplicaFailure}
    (hmem : ⟨n, err⟩ ∈ replicaErrors prefList (outcomes.map Prod.snd)) :
    (n, some err) ∈ outcomes := by
  obtain ⟨i, hn, he⟩ := mem_replicaErrors.1 hmem
  rw [List.getElem?_map] at he
  obtain ⟨⟨n', e⟩, hi, rfl⟩ := Option.map_eq_some_iff.1 he
  obtain ⟨m, hm, hmem⟩ := h i n' err hi
  rw [hn] at hm
  obtain rfl := Option.some.inj hm
  exact hmem

/-- And it names all of them: the reported failures are distinct and as many as there are. -/
theorem ErrorsInPlace.complete (h : ErrorsInPlace prefList outcomes) (hnodup : prefList.Nodup)
    (hlen : outcomes.length ≤ prefList.length) {n : NodeID} {err : ReplicaFailure}
    (hmem : (n, some err) ∈ outcomes) :
    ⟨n, err⟩ ∈ replicaErrors prefList (outcomes.map Prod.snd) := by
  let failures := (replicaErrors prefList (outcomes.map Prod.snd)).map fun entry =>
    ((entry.nodeID, some entry.error) : Outcome)
  have hdistinct : failures.Nodup := by
    apply List.Nodup.of_map Prod.fst
    rw [List.map_map]
    exact hnodup.sublist (nodeIDs_replicaErrors_sublist _ _)
  have hsub : failures ⊆ outcomes.filter fun outcome => outcome.2.isSome := by
    intro outcome hmem
    obtain ⟨⟨n, err⟩, hentry, rfl⟩ := List.mem_map.1 hmem
    exact List.mem_filter.2 ⟨h.sound hentry, rfl⟩
  have hcount : (outcomes.filter fun outcome => outcome.2.isSome).length ≤ failures.length := by
    rw [List.length_map, length_replicaErrors (by rwa [List.length_map]), List.countP_map,
      List.countP_eq_length_filter]
    rfl
  have hperm := (List.subperm_of_subset hdistinct hsub).perm_of_length_le hcount
  have hfail : (n, some err) ∈ failures := hperm.mem_iff.2 (List.mem_filter.2 ⟨hmem, rfl⟩)
  obtain ⟨entry, hentry, heq⟩ := List.mem_map.1 hfail
  obtain ⟨rfl, herr⟩ := Prod.mk.inj heq
  obtain rfl := Option.some.inj herr
  exact hentry

/-- A report is right exactly if every error stands in its place. -/
theorem attributesErrors_iff (hnodup : prefList.Nodup) (hlen : outcomes.length ≤ prefList.length) :
    AttributesErrors outcomes (replicaErrors prefList (outcomes.map Prod.snd)) ↔
      ErrorsInPlace prefList outcomes := by
  constructor
  · intro h i n err hi
    have hlt : i < prefList.length := lt_of_lt_of_le (List.getElem?_eq_some_iff.1 hi).1 hlen
    have hm : prefList[i]? = some prefList[i] := List.getElem?_eq_getElem hlt
    refine ⟨prefList[i], hm, (h _ _).1 (mem_replicaErrors.2 ⟨i, hm, ?_⟩)⟩
    rw [List.getElem?_map, hi]
    rfl
  · intro h n err
    exact ⟨h.sound, h.complete hnodup hlen⟩

/-- Responses that arrive in the order of the preference list are in their places. -/
theorem errorsInPlace_of_listOrder (h : outcomes.map Prod.fst <+: prefList) :
    ErrorsInPlace prefList outcomes := by
  intro i n err hi
  obtain ⟨rest, rfl⟩ := h
  refine ⟨n, ?_, List.mem_of_getElem? hi⟩
  have hlt : i < (outcomes.map Prod.fst).length := by
    rw [List.length_map]
    exact (List.getElem?_eq_some_iff.1 hi).1
  rw [List.getElem?_append_left hlt, List.getElem?_map, hi]
  rfl

end Report

/-! ## The reports of `Put` and `Get` -/

/-- A read that does not reach its quorum has collected everything that arrived. -/
theorem collectReads_of_lt {R : ℤ} {responses arrivals : List ReadResponse}
    (h : (readSuccesses (collectReads R responses arrivals) : ℤ) < R) :
    collectReads R responses arrivals = responses ++ arrivals := by
  induction arrivals generalizing responses with
  | nil => exact (List.append_nil _).symm
  | cons resp arrivals ih =>
    rw [collectReads] at h ⊢
    split_ifs at h ⊢ with hR
    · omega
    · rw [ih h, List.append_assoc]
      rfl

namespace Coordinator

variable {sum64 : Bytes → UInt64} {c : Coordinator sum64}

/-- The preference list of a call that is sent to replicas. -/
theorem replicas_of_ok {key : Bytes} {prefList : List NodeID}
    (h : c.ring.getPreferenceList key c.quorumConfig.N = .ok prefList) :
    c.replicas key = prefList ∧ prefList.Nodup := by
  refine ⟨?_, HashRing.nodup_lookup h⟩
  rw [replicas, HashRing.preferenceList, h]

/-- A call that asks no replica does not fail for lack of a quorum. -/
theorem prefList_ne_quorum (key : Bytes) (err : QuorumError) :
    c.prefList key ≠ .error (.quorum err) := by
  intro h
  obtain ⟨e, -, he⟩ := mapError_eq_error.1 h
  cases he

theorem planGet_ne_quorum (key : Bytes) (err : QuorumError) :
    c.planGet key ≠ .error (.quorum err) := by
  intro h
  rcases bind_eq_error.1 h with h | ⟨-, -, h⟩
  · obtain ⟨e, -, he⟩ := mapError_eq_error.1 h
    cases he
  · exact prefList_ne_quorum key err h

theorem plan_put_ne_quorum (times : WriteTimes) (key value : Bytes) (context : VectorClock)
    (ttlSeconds : Int64) (err : QuorumError) :
    c.plan times (.put key value context ttlSeconds) ≠ .error (.quorum err) := by
  intro h
  rcases bind_eq_error.1 h with h | ⟨-, -, h⟩
  · rcases bind_eq_error.1 h with h | ⟨-, -, h⟩
    all_goals
      obtain ⟨e, -, he⟩ := mapError_eq_error.1 h
      cases he
  · rcases bind_eq_error.1 h with h | ⟨prefList, -, h⟩
    · exact prefList_ne_quorum key err h
    · cases h

/-- A failed write quorum reports the strict fan-out. -/
theorem replicaErrors_of_finishPut {plan : WritePlan} {responses : List WriteResponse}
    {fanOut : List NodeID → List WriteResponse} {err : QuorumError}
    (h : c.finishPut plan responses fanOut = .error (.quorum err)) :
    err.replicaErrors =
      replicaErrors plan.prefList ((responses.map WriteResponse.outcome).map Prod.snd) := by
  rw [List.map_map]
  dsimp only [finishPut] at h
  split_ifs at h
  all_goals
    cases h
    rfl

/-- A failed read quorum reports what was collected. -/
theorem replicaErrors_of_finishGet {prefList : List NodeID} {responses : List ReadResponse}
    {err : QuorumError} (h : c.finishGet prefList responses = .error (.quorum err)) :
    (readSuccesses responses : ℤ) < c.quorumConfig.R ∧ err.replicaErrors =
      replicaErrors prefList ((responses.map ReadResponse.outcome).map Prod.snd) := by
  dsimp only [finishGet] at h
  split at h
  next hlt =>
    cases h
    rw [List.map_map]
    exact ⟨hlt, rfl⟩
  next =>
    split at h <;> cases h

/-- A `Put` or a `Get` without a quorum attributes the errors of its replicas to the right nodes
exactly if every error arrives in the place of a replica that has answered with it. -/
theorem attributes_errors_iff (sum64 : Bytes → UInt64) (c : Coordinator sum64) (env : PutEnv sum64)
    (here : CallEnv) (store : Storage) (arrivals : ∀ nodes, ReadArrivals nodes) (times : WriteTimes)
    (key value : Bytes) (context : VectorClock) (ttlSeconds : Int64)
    (handoff : Option (HintedHandoff c.nodeID)) (err : QuorumError) :
    ((c.put env here store times key value context ttlSeconds handoff).1 = .error (.quorum err) →
      let outcomes := (env.strict (c.replicas key)).responses.map WriteResponse.outcome
      (AttributesErrors outcomes err.replicaErrors ↔ ErrorsInPlace (c.replicas key) outcomes)) ∧
    (c.get arrivals key = .error (.quorum err) →
      let arrived := (arrivals (c.replicas key)).responses
      (AttributesErrors ((collectReads c.quorumConfig.R [] arrived).map ReadResponse.outcome)
          err.replicaErrors ↔
        ErrorsInPlace (c.replicas key) (arrived.map ReadResponse.outcome))) := by
  constructor
  · intro h
    rw [put] at h
    cases hplan : c.plan times (.put key value context ttlSeconds) with
    | error e =>
      rw [hplan] at h
      cases h
      exact absurd hplan (plan_put_ne_quorum times key value context ttlSeconds err)
    | ok plan =>
      rw [hplan] at h
      obtain ⟨-, -, hpref⟩ := plan_eq_ok hplan
      obtain ⟨hreplicas, hnodup⟩ := replicas_of_ok (show c.ring.getPreferenceList key _ = _ from hpref)
      dsimp only at h ⊢
      rw [hreplicas, replicaErrors_of_finishPut (map_eq_error.1 h)]
      apply attributesErrors_iff hnodup
      rw [List.length_map, ← (env.strict plan.prefList).answered.length_eq, List.length_map]
  · intro h
    rw [get] at h
    cases hplan : c.planGet key with
    | error e =>
      rw [hplan] at h
      cases h
      exact absurd hplan (planGet_ne_quorum key err)
    | ok prefList =>
      rw [hplan] at h
      obtain ⟨hreplicas, hnodup⟩ := replicas_of_ok (planGet_eq_ok hplan)
      obtain ⟨hlt, hreport⟩ := replicaErrors_of_finishGet h
      have hall := collectReads_of_lt hlt
      rw [List.nil_append] at hall
      dsimp only
      rw [hreplicas, hreport, hall]
      apply attributesErrors_iff hnodup
      have hle := (arrivals prefList).answered.length_le
      rwa [List.length_map] at hle ⊢

end Coordinator

/-- Two of three replicas fail and answer in the order of the preference list. -/
theorem errors_in_list_order_attributed :
    ∃ err, (strictCoordinator.put (replicasDown [[110, 50], [110, 51]]) (CallEnv.steady 100)
        (Storage.new defaultStorageOptions) ⟨100, 100, 100⟩ [107] [1]
        VectorClock.new 0 none).1 = .error (.quorum err) ∧
      AttributesErrors ((failing [[110, 50], [110, 51]] (strictCoordinator.replicas [107])).responses.map
        WriteResponse.outcome) err.replicaErrors :=
  ⟨⟨2, 1, .write, [⟨[110, 50], .remote [110, 50] .unreachable⟩,
      ⟨[110, 51], .remote [110, 51] .unreachable⟩]⟩, by decide +kernel,
    ((Coordinator.attributes_errors_iff sampleSum64 strictCoordinator
      (replicasDown [[110, 50], [110, 51]]) (CallEnv.steady 100)
      (Storage.new defaultStorageOptions) (answering []) ⟨100, 100, 100⟩ [107] [1] VectorClock.new 0
      none _).1 (by decide +kernel)).2 (errorsInPlace_of_listOrder (by decide +kernel))⟩

/-- The nodes of a fan-out answer in reverse order, and those of a list fail. -/
def failingInReverse (down : List NodeID) (nodes : List NodeID) : FanOut nodes where
  responses := (failing down nodes).responses.reverse
  answered := by
    rw [List.map_reverse]
    exact (List.reverse_perm _).trans (failing down nodes).answered

/-- The same failures in reverse order are blamed on the replica that has stored the value. -/
theorem late_error_blamed_on_acknowledger :
    ∃ err, (strictCoordinator.put
        { replicasDown [] with strict := failingInReverse [[110, 50], [110, 51]] }
        (CallEnv.steady 100) (Storage.new defaultStorageOptions) ⟨100, 100, 100⟩ [107] [1]
        VectorClock.new 0 none).1 = .error (.quorum err) ∧
      (⟨n1, .remote n2 .unreachable⟩ : ReplicaError) ∈ err.replicaErrors ∧
      (failingInReverse [[110, 50], [110, 51]] (strictCoordinator.replicas [107])).responses =
        [⟨n1, none⟩, ⟨n3, some (.remote n3 .unreachable)⟩, ⟨n2, some (.remote n2 .unreachable)⟩] ∧
      ¬AttributesErrors
        ((failingInReverse [[110, 50], [110, 51]] (strictCoordinator.replicas [107])).responses.map
          WriteResponse.outcome) err.replicaErrors :=
  ⟨⟨2, 1, .write, [⟨n3, .remote n3 .unreachable⟩, ⟨n1, .remote n2 .unreachable⟩]⟩,
    by decide +kernel, by decide, by decide +kernel, fun h =>
      absurd ((h n1 (.remote n2 .unreachable)).1 (by decide)) (by decide +kernel)⟩

end GoQuorum
