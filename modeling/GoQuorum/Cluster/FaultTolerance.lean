import GoQuorum.Cluster.RingChanges
import GoQuorum.Cluster.SloppyQuorum
import Mathlib.Data.Finset.Card

/-!
# Tolerated failures

With at most `ToleratedFailures` of the `N` replicas of a key down, and the others answering in any
order, `Put` succeeds and `Get` reaches its quorum; with more of them down, one of the two fails
(`tolerates_exactly`).  `Put` waits for every response, `Get` only for `R` successes, and a failing
replica may or may not answer a read before the timeout.
-/

namespace GoQuorum

open Lib

/-! ## Full preference lists -/

namespace HashRing

variable {sum64 : Bytes → UInt64}

/-- A ring with enough members gives every key a full preference list. -/
theorem getPreferenceList_of_le {ring : HashRing sum64} {N : ℤ} (hN : 1 ≤ N)
    (h : N ≤ ring.nodes.length) (key : Bytes) :
    ring.getPreferenceList key N = .ok (ring.preferenceList key N) ∧
      (ring.preferenceList key N).Nodup ∧ ((ring.preferenceList key N).length : ℤ) = N := by
  have hcons : ring.nodes ≠ [] := by
    intro hnil
    rw [hnil, List.length_nil] at h
    omega
  have hok : ring.getPreferenceList key N = .ok (ring.preferenceList key N) := by
    rw [preferenceList, getPreferenceList, lookup, if_neg hcons]
  refine ⟨hok, (getPreferenceList_eq_ok (by omega) hok).1, ?_⟩
  rw [ring.preferenceList_eq_take key (by omega), List.length_take, ring.length_owners]
  omega

end HashRing

/-! ## Counting successes -/

section

variable {α : Type} (node : α → NodeID) {success : α → Bool} {l : List α} {up : Finset NodeID}

/-- Responses of different nodes, the successful ones from a set of nodes. -/
theorem countP_le_card (hnodup : (l.map node).Nodup)
    (h : ∀ x ∈ l, success x = true → node x ∈ up) : l.countP success ≤ up.card := by
  have hsub : ((l.filter success).map node).toFinset ⊆ up := by
    intro n hn
    obtain ⟨x, hx, rfl⟩ := List.mem_map.1 (List.mem_toFinset.1 hn)
    exact h x (List.mem_filter.1 hx).1 (List.mem_filter.1 hx).2
  have hcard := Finset.card_le_card hsub
  rwa [List.toFinset_card_of_nodup (hnodup.sublist (List.filter_sublist.map _)), List.length_map,
    ← List.countP_eq_length_filter] at hcard

/-- Responses among which every node of a set has a successful one. -/
theorem card_le_countP (h : ∀ n ∈ up, ∃ x ∈ l, node x = n ∧ success x = true) :
    up.card ≤ l.countP success := by
  have hsub : up ⊆ ((l.filter success).map node).toFinset := by
    intro n hn
    obtain ⟨x, hx, rfl, hs⟩ := h n hn
    exact List.mem_toFinset.2 (List.mem_map_of_mem (List.mem_filter.2 ⟨hx, hs⟩))
  refine (Finset.card_le_card hsub).trans ((List.toFinset_card_le _).trans ?_)
  rw [List.length_map, ← List.countP_eq_length_filter]

end

/-! ## `Put` and `Get` -/

/-- What `parallelRead` receives before the timeout: at most one response of each node. -/
structure ReadArrivals (nodes : List NodeID) where
  responses : List ReadResponse
  answered : (responses.map ReadResponse.nodeID).Subperm nodes

namespace Coordinator

variable {sum64 : Bytes → UInt64} {c : Coordinator sum64}

/-- `Get`. -/
def get (c : Coordinator sum64) (arrivals : ∀ nodes, ReadArrivals nodes) (key : Bytes) :
    Except CoordinatorError (List Sibling) :=
  match c.planGet key with
  | .error err => .error err
  | .ok prefList =>
    c.finishGet prefList (collectReads c.quorumConfig.R [] (arrivals prefList).responses)

/-- The nodes that store a key. -/
def replicas (c : Coordinator sum64) (key : Bytes) : List NodeID :=
  c.ring.preferenceList key c.quorumConfig.N

/-- The nodes that are down fail every request that reaches the coordinator. -/
def DownFail (c : Coordinator sum64) (key : Bytes) (down : Finset NodeID) (env : PutEnv sum64)
    (arrivals : ∀ nodes, ReadArrivals nodes) : Prop :=
  (∀ resp ∈ (env.strict (c.replicas key)).responses, resp.nodeID ∈ down → resp.error ≠ none) ∧
    ∀ resp ∈ (arrivals (c.replicas key)).responses, resp.nodeID ∈ down → resp.error ≠ none

/-- The other replicas answer without error, a read before the timeout. -/
def OthersAnswer (c : Coordinator sum64) (key : Bytes) (down : Finset NodeID) (env : PutEnv sum64)
    (arrivals : ∀ nodes, ReadArrivals nodes) : Prop :=
  ∀ n ∈ c.replicas key, n ∉ down →
    (∃ resp ∈ (env.strict (c.replicas key)).responses, resp.nodeID = n ∧ resp.error = none) ∧
      ∃ resp ∈ (arrivals (c.replicas key)).responses, resp.nodeID = n ∧ resp.error = none

/-- Without overflow writes `Put` fails for lack of a quorum exactly when fewer than `W` replicas
succeed. -/
theorem finishPut_of_lt {plan : WritePlan} {responses : List WriteResponse}
    {fanOut : List NodeID → List WriteResponse} (hstrict : c.quorumConfig.sloppyQuorum = false)
    (h : (countSuccesses responses : ℤ) < c.quorumConfig.W) :
    ∃ err, c.finishPut plan responses fanOut = .error (.quorum err) := by
  simp only [finishPut, hstrict, Bool.false_eq_true, if_false, if_neg (not_le.2 h)]
  exact ⟨_, rfl⟩

/-- `Get` fails for lack of a quorum when fewer than `R` of the responses that arrive are
successes. -/
theorem finishGet_collectReads_of_lt {prefList : List NodeID} {arrived : List ReadResponse}
    (h : (readSuccesses arrived : ℤ) < c.quorumConfig.R) :
    ∃ err, c.finishGet prefList (collectReads c.quorumConfig.R [] arrived) =
      .error (.quorum err) := by
  obtain ⟨l, hl, hcollected⟩ := collectReads_eq c.quorumConfig.R [] arrived
  have hcount := hl.sublist.countP_le (p := fun resp : ReadResponse => resp.error.isNone)
  have hlt : (readSuccesses (collectReads c.quorumConfig.R [] arrived) : ℤ) < c.quorumConfig.R := by
    rw [hcollected, List.nil_append]
    unfold readSuccesses at h ⊢
    omega
  rw [finishGet, if_pos hlt]
  exact ⟨_, rfl⟩

/-- It does not when `R` of them are. -/
theorem finishGet_collectReads_ne {prefList : List NodeID} {arrived : List ReadResponse}
    (h : c.quorumConfig.R ≤ readSuccesses arrived) (err : QuorumError) :
    c.finishGet prefList (collectReads c.quorumConfig.R [] arrived) ≠ .error (.quorum err) := by
  intro herr
  have hR : c.quorumConfig.R ≤ readSuccesses (collectReads c.quorumConfig.R [] arrived) := by
    apply readSuccesses_collectReads
    rwa [List.nil_append]
  rw [finishGet_of_quorum hR] at herr
  dsimp only at herr
  split_ifs at herr
  cases herr

/-- A valid `Put` gets as far as its fan-out. -/
theorem put_fst_eq_finishPut (here : CallEnv) {env : PutEnv sum64} {store : Storage}
    {times : WriteTimes} {key value : Bytes} {context : VectorClock} {ttlSeconds : Int64}
    {handoff : Option (HintedHandoff c.nodeID)}
    (hkey : validateKey key = .ok ()) (hvalue : validateValue value = .ok ())
    (hlist : c.prefList key = .ok (c.replicas key)) :
    ∃ vclock, (c.put env here store times key value context ttlSeconds handoff).1 =
      ({ c with ring := env.ring }.finishPut
        ⟨key, c.newSibling times (.put key value context ttlSeconds), c.replicas key⟩
        (env.strict (c.replicas key)).responses fun nodes => (env.overflow nodes).responses).map
        fun _ => vclock := by
  have hplan : c.plan times (.put key value context ttlSeconds) = .ok
      ⟨key, c.newSibling times (.put key value context ttlSeconds), c.replicas key⟩ := by
    simp only [plan, WriteCall.check, WriteCall.key, hkey, hvalue, hlist]
    rfl
  rw [put, hplan]
  exact ⟨_, rfl⟩

/-- So does a valid `Get`. -/
theorem get_eq_finishGet {arrivals : ∀ nodes, ReadArrivals nodes} {key : Bytes}
    (hkey : validateKey key = .ok ()) (hlist : c.prefList key = .ok (c.replicas key)) :
    c.get arrivals key = c.finishGet (c.replicas key)
      (collectReads c.quorumConfig.R [] (arrivals (c.replicas key)).responses) := by
  have hplan : c.planGet key = .ok (c.replicas key) := by
    simp only [planGet, hkey, hlist]
    rfl
  rw [get, hplan]

section

variable {env : PutEnv sum64} {arrivals : ∀ nodes, ReadArrivals nodes} {key : Bytes}
  {down : Finset NodeID}

/-- As many writes succeed as replicas are up, or fewer. -/
theorem countSuccesses_le (hnodup : (c.replicas key).Nodup) (hdown : c.DownFail key down env arrivals) :
    countSuccesses (env.strict (c.replicas key)).responses ≤
      ((c.replicas key).toFinset \ down).card := by
  have hperm := (env.strict (c.replicas key)).answered
  refine countP_le_card WriteResponse.nodeID (hperm.nodup_iff.2 hnodup) ?_
  intro resp hresp hok
  rw [Option.isNone_iff_eq_none] at hok
  refine Finset.mem_sdiff.2 ⟨List.mem_toFinset.2 ?_, fun hd => hdown.1 resp hresp hd hok⟩
  exact hperm.mem_iff.1 (List.mem_map_of_mem hresp)

/-- The same for reads. -/
theorem readSuccesses_le (hnodup : (c.replicas key).Nodup) (hdown : c.DownFail key down env arrivals) :
    readSuccesses (arrivals (c.replicas key)).responses ≤
      ((c.replicas key).toFinset \ down).card := by
  have hsub := (arrivals (c.replicas key)).answered
  refine countP_le_card ReadResponse.nodeID ?_ ?_
  · obtain ⟨l, hperm, hl⟩ := hsub
    exact hperm.nodup_iff.1 (hnodup.sublist hl)
  · intro resp hresp hok
    rw [Option.isNone_iff_eq_none] at hok
    refine Finset.mem_sdiff.2 ⟨List.mem_toFinset.2 ?_, fun hd => hdown.2 resp hresp hd hok⟩
    exact hsub.subset (List.mem_map_of_mem hresp)

/-- Every replica that is up counts, in a write and in a read. -/
theorem card_up_le (hothers : c.OthersAnswer key down env arrivals) :
    ((c.replicas key).toFinset \ down).card ≤
        countSuccesses (env.strict (c.replicas key)).responses ∧
      ((c.replicas key).toFinset \ down).card ≤
        readSuccesses (arrivals (c.replicas key)).responses := by
  have hup : ∀ n ∈ (c.replicas key).toFinset \ down, n ∈ c.replicas key ∧ n ∉ down := fun n hn =>
    ⟨List.mem_toFinset.1 (Finset.mem_sdiff.1 hn).1, (Finset.mem_sdiff.1 hn).2⟩
  constructor
  · refine card_le_countP WriteResponse.nodeID fun n hn => ?_
    obtain ⟨resp, hresp, hid, herr⟩ := (hothers n (hup n hn).1 (hup n hn).2).1
    exact ⟨resp, hresp, hid, Option.isNone_iff_eq_none.2 herr⟩
  · refine card_le_countP ReadResponse.nodeID fun n hn => ?_
    obtain ⟨resp, hresp, hid, herr⟩ := (hothers n (hup n hn).1 (hup n hn).2).2
    exact ⟨resp, hresp, hid, Option.isNone_iff_eq_none.2 herr⟩

end

/-- For every valid configuration without sloppy quorum, every ring with at least `N` nodes, every
valid key and value, and every set of replicas that are down: if they are at most
`ToleratedFailures` and the others answer, in any order, `Put` succeeds and `Get` does not fail for
lack of a quorum; if they are more, `Put` or `Get` fails for lack of a quorum. -/
theorem tolerates_exactly (sum64 : Bytes → UInt64) (c : Coordinator sum64) (env : PutEnv sum64)
    (here : CallEnv) (store : Storage) (arrivals : ∀ nodes, ReadArrivals nodes) (times : WriteTimes)
    (key value : Bytes)
    (context : VectorClock) (ttlSeconds : Int64) (handoff : Option (HintedHandoff c.nodeID))
    (down : Finset NodeID) (hvalid : c.quorumConfig.validate = .ok ())
    (hstrict : c.quorumConfig.sloppyQuorum = false)
    (hring : c.quorumConfig.N ≤ c.ring.nodes.length) (hkey : validateKey key = .ok ())
    (hvalue : validateValue value = .ok ()) (hsub : down ⊆ (c.replicas key).toFinset)
    (hdown : c.DownFail key down env arrivals) :
    ((down.card : ℤ) ≤ c.quorumConfig.toleratedFailures → c.OthersAnswer key down env arrivals →
      (c.put env here store times key value context ttlSeconds handoff).1.isOk = true ∧
        ∀ err, c.get arrivals key ≠ .error (.quorum err)) ∧
    (c.quorumConfig.toleratedFailures < down.card →
      (∃ err, (c.put env here store times key value context ttlSeconds handoff).1 =
          .error (.quorum err)) ∨
        ∃ err, c.get arrivals key = .error (.quorum err)) := by
  have hbounds := QuorumConfig.bounds_of_validate hvalid
  obtain ⟨hpref, hnodup, hlen⟩ := HashRing.getPreferenceList_of_le hbounds.1 hring key
  have hlist : c.prefList key = .ok (c.replicas key) := by
    rw [prefList, hpref]
    rfl
  have hup : (((c.replicas key).toFinset \ down).card : ℤ) = c.quorumConfig.N - down.card := by
    have hcard := Finset.card_sdiff_add_card_eq_card hsub
    have hlen' : (c.replicas key).toFinset.card = (c.replicas key).length :=
      List.toFinset_card_of_nodup hnodup
    change ((c.replicas key).length : ℤ) = _ at hlen
    omega
  obtain ⟨vclock, hput⟩ := put_fst_eq_finishPut here hkey hvalue hlist
  rw [QuorumConfig.toleratedFailures_eq, hput, get_eq_finishGet hkey hlist]
  constructor
  · intro hfew hothers
    obtain ⟨hwrites, hreads⟩ := card_up_le hothers
    have hW : c.quorumConfig.W ≤ countSuccesses (env.strict (c.replicas key)).responses := by
      omega
    refine ⟨?_, finishGet_collectReads_ne (by omega)⟩
    rw [(finishPut_eq_ok (c := { c with ring := env.ring }) hstrict).2 ⟨hW, rfl⟩]
    rfl
  · intro hmany
    have hwrites := countSuccesses_le hnodup hdown
    have hreads := readSuccesses_le hnodup hdown
    -- the larger of the two quorums is missed
    rcases le_total c.quorumConfig.R c.quorumConfig.W with hRW | hWR
    · left
      simp only [map_eq_error]
      refine finishPut_of_lt (c := { c with ring := env.ring }) hstrict ?_
      change _ < c.quorumConfig.W
      omega
    · right
      exact finishGet_collectReads_of_lt (by omega)

end Coordinator

/-- Those that are not in a list answer a read, without a sibling. -/
def answering (down : List NodeID) (nodes : List NodeID) : ReadArrivals nodes where
  responses := (nodes.filter (· ∉ down)).map fun n => ⟨n, none, none⟩
  answered := by
    rw [List.map_map]
    exact (List.map_id _).symm ▸ List.filter_sublist.subperm

/-- The coordinator `n1` of a ring of three nodes that all store each key. -/
def strictCoordinator : Coordinator sampleSum64 where
  nodeID := n1
  ring := sampleRing [n1, n2, n3]
  quorumConfig := ⟨3, 2, 2, false⟩

/-- Some of the replicas are down. -/
def replicasDown (down : List NodeID) : PutEnv sampleSum64 where
  strict := failing down
  ring := sampleRing [n1, n2, n3]
  overflow := failing []
  now := fun _ => 0

/-- One failure is tolerated and two are not. -/
theorem tolerates_exactly_one :
    (strictCoordinator.put (replicasDown [[110, 50]]) (CallEnv.steady 100)
        (Storage.new defaultStorageOptions) ⟨100, 100, 100⟩ [107] [1] VectorClock.new 0
        none).1.isOk = true ∧
      ((∃ err, (strictCoordinator.put (replicasDown [[110, 50], [110, 51]]) (CallEnv.steady 100)
        (Storage.new defaultStorageOptions) ⟨100, 100, 100⟩ [107] [1]
          VectorClock.new 0 none).1 = .error (.quorum err)) ∨
        ∃ err, strictCoordinator.get (answering [[110, 50], [110, 51]]) [107] =
          .error (.quorum err)) := by
  constructor
  · exact ((Coordinator.tolerates_exactly sampleSum64 strictCoordinator (replicasDown [[110, 50]])
      (CallEnv.steady 100) (Storage.new defaultStorageOptions) (answering [[110, 50]])
      ⟨100, 100, 100⟩ [107] [1] VectorClock.new 0 none {[110, 50]} rfl rfl (by decide +kernel) rfl rfl (by decide +kernel)
      ⟨by decide +kernel, by decide +kernel⟩).1 (by decide) (by
        unfold Coordinator.OthersAnswer
        decide +kernel)).1
  · exact (Coordinator.tolerates_exactly sampleSum64 strictCoordinator
      (replicasDown [[110, 50], [110, 51]]) (CallEnv.steady 100)
      (Storage.new defaultStorageOptions) (answering [[110, 50], [110, 51]]) ⟨100, 100, 100⟩ [107]
      [1] VectorClock.new 0 none {[110, 50], [110, 51]} rfl rfl (by decide +kernel) rfl rfl
      (by decide +kernel) ⟨by decide +kernel, by decide +kernel⟩).2 (by decide)

end GoQuorum
