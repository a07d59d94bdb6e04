import GoQuorum.Cluster.Membership
import GoQuorum.Lib.Runs

/-!
# The failure detector

`internal/cluster/failure_detector.go`.  Every interval the detector sends a heartbeat to each of its
peers, in a goroutine of its own.  A run of `sendHeartbeat` reads the status of the peer, makes the
request, records its outcome, after a failure reads the status again, and calls `OnNodeRecovery` or
`OnNodeFailed`.  The calls to the membership manager are atomic; `DetectorState.step` interleaves
the runs freely.

The lists of status changes, and the statuses around a run's own record step, are there to state
properties; no step depends on them.  When every run uses a status that is still current, the
callbacks are as many as the changes they report (`callbacks_match_transitions`).
-/

namespace GoQuorum

open Lib

/-- The peers that the detector watches.  Nothing updates their health records. -/
structure FailureDetector where
  peers : SortedMap NodeID Unit

namespace FailureDetector

/-- `NewFailureDetector`. -/
def new : FailureDetector := ⟨SortedMap.empty⟩

/-- `Start`, up to the heartbeat loop. -/
def start (fd : FailureDetector) (peerIDs : List NodeID) : FailureDetector :=
  ⟨peerIDs.foldl (fun peers id => peers.insert id ()) fd.peers⟩

/-- The peers that `sendHeartbeats` starts a goroutine for. -/
def heartbeatTargets (fd : FailureDetector) : List NodeID := fd.peers.keys

end FailureDetector

/-! ## Heartbeats under way -/

/-- How far a run of `sendHeartbeat` has come: it waits for the answer to its request, or it has
recorded a failure and will read the status again.  `before` and `after` are the statuses around its
record step. -/
inductive HeartbeatPhase where
  | waiting (prevStatus : NodeStatus)
  | recorded (prevStatus before after : NodeStatus)
  deriving DecidableEq

/-- A run of `sendHeartbeat`. -/
structure HeartbeatRun where
  nodeID : NodeID
  phase : HeartbeatPhase
  deriving DecidableEq

/-- The detector's runs, the callbacks they have made, and the status changes of the peers.  Each
callback and each change is listed with the run that made it. -/
structure DetectorState where
  membership : MembershipManager
  runs : ℕ → Option HeartbeatRun
  failedCalls : List (ℕ × NodeID)
  recoveryCalls : List (ℕ × NodeID)
  intoFailed : List (ℕ × NodeID)
  failedToActive : List (ℕ × NodeID)

/-- The atomic steps of a run. -/
inductive DetectorEvent where
  | start (i : ℕ) (nodeID : NodeID)
  | succeed (i : ℕ) (now latency : ℤ)
  | fail (i : ℕ)
  | check (i : ℕ)
  deriving DecidableEq

/-- One more failure of the peer leaves it below the threshold. -/
def MembershipManager.belowThreshold (mm : MembershipManager) (nodeID : NodeID) : Bool :=
  match mm.peers.get? nodeID with
  | some peer => peer.missedCount + 1 < mm.config.failureThreshold
  | none => true

namespace DetectorState

/-- Before any heartbeat. -/
def init (membership : MembershipManager) : DetectorState :=
  ⟨membership, fun _ => none, [], [], [], []⟩

/-- The manager records an outcome of run `i`, and the changes of the peer's status are noted. -/
def record (s : DetectorState) (i : ℕ) (nodeID : NodeID) (membership : MembershipManager) :
    DetectorState :=
  let before := s.membership.getPeerStatus nodeID
  let after := membership.getPeerStatus nodeID
  { s with
    membership
    intoFailed := s.intoFailed ++
      if before ≠ .failed ∧ after = .failed then [(i, nodeID)] else []
    failedToActive := s.failedToActive ++
      if before = .failed ∧ after = .active then [(i, nodeID)] else [] }

/-- One atomic step. -/
def step (s : DetectorState) : DetectorEvent → Option DetectorState
  | .start i nodeID =>
    match s.runs i with
    | none => some { s with
        runs := Function.update s.runs i
          (some ⟨nodeID, .waiting (s.membership.getPeerStatus nodeID)⟩) }
    | some _ => none
  | .succeed i now latency =>
    match s.runs i with
    | some ⟨nodeID, .waiting prevStatus⟩ =>
      let t := s.record i nodeID (s.membership.recordHeartbeatSuccess now latency nodeID)
      some { t with
        runs := Function.update s.runs i none
        recoveryCalls := s.recoveryCalls ++ if prevStatus = .failed then [(i, nodeID)] else [] }
    | _ => none
  | .fail i =>
    match s.runs i with
    | some ⟨nodeID, .waiting prevStatus⟩ =>
      let t := s.record i nodeID (s.membership.recordHeartbeatFailure nodeID)
      some { t with
        runs := Function.update s.runs i (some ⟨nodeID, .recorded prevStatus
          (s.membership.getPeerStatus nodeID) (t.membership.getPeerStatus nodeID)⟩) }
    | _ => none
  | .check i =>
    match s.runs i with
    | some ⟨nodeID, .recorded prevStatus _ _⟩ =>
      some { s with
        runs := Function.update s.runs i none
        failedCalls := s.failedCalls ++
          if prevStatus ≠ .failed ∧ s.membership.getPeerStatus nodeID = .failed then [(i, nodeID)]
          else [] }
    | _ => none

/-- The step uses a status that is still current.  When a run records its outcome, the peer is failed
exactly if it was when the run read it, unless it was then and one more failure leaves it below the
threshold; and when a run that found it not failed reads it again, it is failed exactly if it was
right after the run's record step. -/
def usesCurrentStatus (s : DetectorState) : DetectorEvent → Bool
  | .start _ _ => true
  | .succeed i _ _ =>
    match s.runs i with
    | some ⟨nodeID, .waiting prevStatus⟩ =>
      prevStatus = .failed ↔ s.membership.getPeerStatus nodeID = .failed
    | _ => true
  | .fail i =>
    match s.runs i with
    | some ⟨nodeID, .waiting prevStatus⟩ =>
      (prevStatus = .failed ↔ s.membership.getPeerStatus nodeID = .failed) ∨
        prevStatus = .failed ∧ s.membership.belowThreshold nodeID
    | _ => true
  | .check i =>
    match s.runs i with
    | some ⟨nodeID, .recorded prevStatus _ after⟩ =>
      prevStatus = .failed ∨ (s.membership.getPeerStatus nodeID = .failed ↔ after = .failed)
    | _ => true

end DetectorState

/-! ## What a record step does to the status -/

namespace MembershipManager

theorem getPeerStatus_modifyPeer_self (f : PeerMetadata → PeerMetadata) (mm : MembershipManager)
    (nodeID : NodeID) : (mm.modifyPeer f nodeID).getPeerStatus nodeID =
      ((mm.peers.get? nodeID).map f).elim .unknown PeerMetadata.status := by
  rw [getPeerStatus, get?_modifyPeer, if_pos rfl]
  cases mm.peers.get? nodeID <;> rfl

theorem getPeerStatus_eq_elim (mm : MembershipManager) (nodeID : NodeID) :
    mm.getPeerStatus nodeID = (mm.peers.get? nodeID).elim .unknown PeerMetadata.status := by
  unfold getPeerStatus
  cases mm.peers.get? nodeID <;> rfl

/-- After a success no peer is failed, and one that was is active. -/
theorem getPeerStatus_recordHeartbeatSuccess (mm : MembershipManager) (now latency : ℤ)
    (nodeID : NodeID) :
    (mm.recordHeartbeatSuccess now latency nodeID).getPeerStatus nodeID ≠ .failed ∧
      (mm.getPeerStatus nodeID = .failed →
        (mm.recordHeartbeatSuccess now latency nodeID).getPeerStatus nodeID = .active) := by
  rw [recordHeartbeatSuccess, getPeerStatus_modifyPeer_self, getPeerStatus_eq_elim]
  cases mm.peers.get? nodeID with
  | none => exact ⟨NodeStatus.noConfusion, fun h => NodeStatus.noConfusion h⟩
  | some peer =>
    simp only [Option.map_some, Option.elim_some, PeerMetadata.recordSuccess]
    by_cases h : peer.status = .failed ∨ peer.status = .unknown
    · rw [if_pos h]
      exact ⟨NodeStatus.noConfusion, fun _ => rfl⟩
    · rw [if_neg h]
      exact ⟨fun hf => h (Or.inl hf), fun hf => absurd (Or.inl hf) h⟩

/-- A failure leaves a failed peer failed. -/
theorem getPeerStatus_recordHeartbeatFailure {mm : MembershipManager} {nodeID : NodeID}
    (h : mm.getPeerStatus nodeID = .failed) :
    (mm.recordHeartbeatFailure nodeID).getPeerStatus nodeID = .failed := by
  rw [getPeerStatus_eq_elim] at h
  rw [recordHeartbeatFailure, getPeerStatus_modifyPeer_self]
  cases hp : mm.peers.get? nodeID with
  | none =>
    rw [hp] at h
    cases h
  | some peer =>
    rw [hp, Option.elim_some] at h
    simp only [Option.map_some, Option.elim_some, PeerMetadata.recordFailure]
    split_ifs with h1 h2 h3 h4
    · rfl
    · exact h
    · rw [h] at h4
      cases h4
    · exact h
    · exact h

/-- Below the threshold a failure does not make a peer failed. -/
theorem getPeerStatus_recordHeartbeatFailure_ne {mm : MembershipManager} {nodeID : NodeID}
    (h : mm.getPeerStatus nodeID ≠ .failed)
    (hbelow : mm.belowThreshold nodeID = true) :
    (mm.recordHeartbeatFailure nodeID).getPeerStatus nodeID ≠ .failed := by
  rw [getPeerStatus_eq_elim] at h
  rw [recordHeartbeatFailure, getPeerStatus_modifyPeer_self]
  unfold belowThreshold at hbelow
  cases hp : mm.peers.get? nodeID with
  | none => exact NodeStatus.noConfusion
  | some peer =>
    rw [hp, Option.elim_some] at h
    simp only [hp, decide_eq_true_eq] at hbelow
    simp only [Option.map_some, Option.elim_some, PeerMetadata.recordFailure]
    rw [if_neg (not_le.2 (by exact_mod_cast hbelow))]
    split_ifs
    · exact NodeStatus.noConfusion
    · exact h
    · exact h

end MembershipManager

/-! ## Callbacks and changes -/

namespace DetectorState

/-- Whether run `i` has made peer `id` failed and not yet reported it. -/
def owed (s : DetectorState) (i : ℕ) (id : NodeID) : ℕ :=
  match s.runs i with
  | some ⟨nodeID, .recorded _ before after⟩ =>
    if nodeID = id ∧ before ≠ .failed ∧ after = .failed then 1 else 0
  | _ => 0

/-- The invariant of runs that use current statuses: recoveries have been reported, and failures have
been or are owed by the run that noticed them, which then has found the peer not failed. -/
structure Balanced (s : DetectorState) : Prop where
  recovery : s.recoveryCalls = s.failedToActive
  failed : ∀ i id, s.failedCalls.count (i, id) + s.owed i id = s.intoFailed.count (i, id)
  noticed : ∀ i nodeID prevStatus before after,
    s.runs i = some ⟨nodeID, .recorded prevStatus before after⟩ →
      (prevStatus = .failed → ¬ (before ≠ .failed ∧ after = .failed)) ∧
        (prevStatus ≠ .failed → before ≠ .failed)

/-- How often a conditional entry is a given one. -/
theorem count_noted (c : Prop) [Decidable c] (i j : ℕ) (nodeID id : NodeID) :
    (if c then [(i, nodeID)] else []).count (j, id) = if i = j ∧ nodeID = id ∧ c then 1 else 0 := by
  by_cases hc : c
  · rw [if_pos hc, List.count_singleton]
    simp [hc]
  · simp [hc]

theorem owed_of_none {s : DetectorState} {i : ℕ} (h : s.runs i = none) (id : NodeID) :
    s.owed i id = 0 := by
  rw [owed, h]

theorem owed_of_waiting {s : DetectorState} {i : ℕ} {nodeID : NodeID} {prevStatus : NodeStatus}
    (h : s.runs i = some ⟨nodeID, .waiting prevStatus⟩) (id : NodeID) : s.owed i id = 0 := by
  rw [owed, h]

theorem owed_congr {s t : DetectorState} {i : ℕ} (h : s.runs i = t.runs i) (id : NodeID) :
    s.owed i id = t.owed i id := by
  rw [owed, owed, h]

/-- A step of a run that owes nothing before or after it changes nothing of what is owed. -/
theorem owed_eq_of_unowed {s t : DetectorState} {i : ℕ} {id : NodeID} (hs : s.owed i id = 0)
    (ht : t.owed i id = 0) (hrest : ∀ j, j ≠ i → t.runs j = s.runs j) (j : ℕ) :
    t.owed j id = s.owed j id := by
  by_cases hij : j = i
  · rw [hij, hs, ht]
  · exact owed_congr (hrest j hij) id

/-- A run that has recorded nothing adds nothing to what runs have noticed. -/
theorem Balanced.noticed_update {s : DetectorState} (hs : s.Balanced) {i : ℕ}
    {run : Option HeartbeatRun}
    (hrun : ∀ n p b a, run ≠ some ⟨n, .recorded p b a⟩) {j : ℕ} {nodeID : NodeID}
    {prevStatus before after : NodeStatus} (hj : Function.update s.runs i run j =
      some ⟨nodeID, .recorded prevStatus before after⟩) :
    (prevStatus = .failed → ¬ (before ≠ .failed ∧ after = .failed)) ∧
      (prevStatus ≠ .failed → before ≠ .failed) := by
  rcases update_eq_some hj with ⟨-, hj⟩ | hj
  · exact absurd hj (hrun _ _ _ _)
  · exact hs.noticed j nodeID prevStatus before after hj

theorem balanced_init (membership : MembershipManager) : (init membership).Balanced where
  recovery := rfl
  failed := fun _ _ => rfl
  noticed := fun _ _ _ _ _ h => by cases h

theorem balanced_start {s t : DetectorState} {i : ℕ} {nodeID : NodeID} (hs : s.Balanced)
    (h : s.step (.start i nodeID) = some t) : t.Balanced := by
  simp only [step] at h
  split at h
  · rename_i hnone
    obtain rfl := Option.some.inj h
    refine ⟨hs.recovery, fun j id => ?_, fun j n p b a hj => ?_⟩
    · rw [← hs.failed j id]
      congr 1
      exact owed_eq_of_unowed (owed_of_none hnone id)
        (owed_of_waiting (Function.update_self _ _ _) id)
        (fun k hk => Function.update_of_ne hk _ _) j
    · exact hs.noticed_update (fun _ _ _ _ he => by cases he) hj
  · cases h

theorem balanced_succeed {s t : DetectorState} {i : ℕ} {now latency : ℤ} (hs : s.Balanced)
    (hok : s.usesCurrentStatus (.succeed i now latency) = true)
    (h : s.step (.succeed i now latency) = some t) : t.Balanced := by
  simp only [step] at h
  split at h
  · rename_i nodeID prevStatus hrun
    simp only [usesCurrentStatus, hrun, decide_eq_true_eq] at hok
    obtain rfl := Option.some.inj h
    obtain ⟨hnot, hactive⟩ :=
      s.membership.getPeerStatus_recordHeartbeatSuccess now latency nodeID
    refine ⟨?_, fun j id => ?_, fun j n p b a hj => ?_⟩
    · -- the peer was failed exactly if the run has seen it failed
      simp only [record, hs.recovery]
      congr 1
      by_cases hprev : prevStatus = .failed
      · rw [if_pos hprev, if_pos ⟨hok.1 hprev, hactive (hok.1 hprev)⟩]
      · rw [if_neg hprev, if_neg fun hc => hprev (hok.2 hc.1)]
    · simp only [record, if_neg fun hc : _ ∧ _ => hnot hc.2, List.append_nil]
      rw [← hs.failed j id]
      congr 1
      exact owed_eq_of_unowed (owed_of_waiting hrun id) (owed_of_none (Function.update_self _ _ _) id)
        (fun k hk => Function.update_of_ne hk _ _) j
    · exact hs.noticed_update (fun _ _ _ _ he => by cases he) hj
  · cases h

theorem balanced_fail {s t : DetectorState} {i : ℕ} (hs : s.Balanced)
    (hok : s.usesCurrentStatus (.fail i) = true) (h : s.step (.fail i) = some t) : t.Balanced := by
  simp only [step] at h
  split at h
  · rename_i nodeID prevStatus hrun
    simp only [usesCurrentStatus, hrun, decide_eq_true_eq] at hok
    obtain rfl := Option.some.inj h
    have hstays (hfailed : s.membership.getPeerStatus nodeID = .failed) :=
      MembershipManager.getPeerStatus_recordHeartbeatFailure hfailed
    refine ⟨?_, fun j id => ?_, fun j n p b a hj => ?_⟩
    · -- a failure takes no peer from failed to active
      simp only [record]
      rw [if_neg, List.append_nil, hs.recovery]
      rintro ⟨hfailed, hactive⟩
      rw [hstays hfailed] at hactive
      cases hactive
    · simp only [record, List.count_append]
      rw [← hs.failed j id, Nat.add_assoc]
      congr 1
      by_cases hij : j = i
      · subst hij
        rw [owed_of_waiting hrun, Nat.zero_add, owed, count_noted]
        simp only [Function.update_self, true_and]
      · rw [count_noted, if_neg fun hc : i = j ∧ _ => hij hc.1.symm, Nat.add_zero]
        exact owed_congr (Function.update_of_ne hij _ _) id
    · rcases update_eq_some hj with ⟨-, hj⟩ | hj
      · simp only [Option.some.injEq, HeartbeatRun.mk.injEq, HeartbeatPhase.recorded.injEq] at hj
        obtain ⟨rfl, rfl, rfl, rfl⟩ := hj
        refine ⟨fun hp hc => ?_, fun hp hb => ?_⟩
        · rcases hok with hok | ⟨-, hbelow⟩
          · exact hc.1 (hok.1 hp)
          · exact MembershipManager.getPeerStatus_recordHeartbeatFailure_ne hc.1 hbelow hc.2
        · rcases hok with hok | hok
          · exact hp (hok.2 hb)
          · exact hp hok.1
      · exact hs.noticed j n p b a hj
  · cases h

theorem balanced_check {s t : DetectorState} {i : ℕ} (hs : s.Balanced)
    (hok : s.usesCurrentStatus (.check i) = true) (h : s.step (.check i) = some t) : t.Balanced := by
  simp only [step] at h
  split at h
  · rename_i nodeID prevStatus before after hrun
    simp only [usesCurrentStatus, hrun, decide_eq_true_eq] at hok
    obtain rfl := Option.some.inj h
    obtain ⟨hseen, hunseen⟩ := hs.noticed i nodeID prevStatus before after hrun
    -- the run reports exactly what it owes
    have hreport : prevStatus ≠ .failed ∧ s.membership.getPeerStatus nodeID = .failed ↔
        before ≠ .failed ∧ after = .failed := by
      by_cases hp : prevStatus = .failed
      · exact iff_of_false (fun hc => hc.1 hp) (hseen hp)
      · rw [and_iff_right hp, and_iff_right (hunseen hp)]
        exact hok.resolve_left hp
    refine ⟨hs.recovery, fun j id => ?_, fun j n p b a hj => ?_⟩
    · rw [← hs.failed j id, List.count_append, Nat.add_assoc]
      congr 1
      by_cases hij : j = i
      · subst hij
        rw [owed_of_none (Function.update_self _ _ _), Nat.add_zero, owed, hrun, count_noted]
        simp only [hreport, true_and]
      · rw [count_noted, if_neg fun hc : i = j ∧ _ => hij hc.1.symm, Nat.zero_add]
        exact owed_congr (Function.update_of_ne hij _ _) id
    · exact hs.noticed_update (fun _ _ _ _ he => by cases he) hj
  · cases h

theorem balanced_step {s t : DetectorState} {e : DetectorEvent} (hs : s.Balanced)
    (hok : s.usesCurrentStatus e = true) (h : s.step e = some t) : t.Balanced := by
  cases e with
  | start i nodeID => exact balanced_start hs h
  | succeed i now latency => exact balanced_succeed hs hok h
  | fail i => exact balanced_fail hs hok h
  | check i => exact balanced_check hs hok h

end DetectorState

/-- How many of the listed callbacks or changes are of a peer. -/
def countFor (id : NodeID) (l : List (ℕ × NodeID)) : ℕ := l.countP fun p => p.2 = id

/-- In every run of overlapping heartbeats, with any outcomes and any interleaving, in which each step
uses a status that is still current: once all are finished, `OnNodeFailed` has been called for a peer
as often as the peer has become failed, and `OnNodeRecovery` as often as it has gone from failed to
active. -/
theorem callbacks_match_transitions (membership : MembershipManager) (s : DetectorState)
    (hrun : Runs DetectorState.step (fun s e => s.usesCurrentStatus e = true)
      (DetectorState.init membership) s)
    (hdone : ∀ i, s.runs i = none) (id : NodeID) :
    countFor id s.failedCalls = countFor id s.intoFailed ∧
      countFor id s.recoveryCalls = countFor id s.failedToActive := by
  have hinv := hrun.invariant DetectorState.Balanced (DetectorState.balanced_init membership)
    fun _ _ _ => DetectorState.balanced_step
  refine ⟨List.Perm.countP_eq _ (List.perm_iff_count.2 fun p => ?_), by rw [hinv.recovery]⟩
  rw [← hinv.failed p.1 p.2, DetectorState.owed_of_none (hdone p.1), Nat.add_zero]

/-! ## Heartbeats one after the other, and two at once -/

/-- The run that an event belongs to. -/
def DetectorEvent.run : DetectorEvent → ℕ
  | start i _ => i
  | succeed i _ _ => i
  | fail i => i
  | check i => i

/-- An event leaves the other runs as they are. -/
theorem DetectorState.runs_step {s t : DetectorState} {e : DetectorEvent} (h : s.step e = some t)
    {j : ℕ} (hj : j ≠ e.run) : t.runs j = s.runs j := by
  cases e <;>
  · simp only [step] at h
    split at h
    · obtain rfl := Option.some.inj h
      exact Function.update_of_ne hj _ _
    · cases h

theorem DetectorState.runs_exec {s t : DetectorState} {es : List DetectorEvent}
    (h : exec step s es = some t) {j : ℕ} (hj : ∀ e ∈ es, j ≠ e.run) : t.runs j = s.runs j := by
  induction es generalizing s with
  | nil =>
    obtain rfl := Option.some.inj h
    rfl
  | cons e es ih =>
    obtain ⟨u, hu, ht⟩ := Option.bind_eq_some_iff.1 h
    obtain ⟨he, hes⟩ := List.forall_mem_cons.1 hj
    rw [ih ht hes, runs_step hu he]

/-- Three failed heartbeats to `n2` and a successful one, one after the other. -/
def heartbeatsInTurn : List DetectorEvent :=
  [.start 0 [110, 50], .fail 0, .check 0, .start 0 [110, 50], .fail 0, .check 0,
    .start 0 [110, 50], .fail 0, .check 0, .start 0 [110, 50], .succeed 0 4 0]

/-- They report one failure and one recovery. -/
theorem callbacks_match_transitions_in_turn :
    ∃ s : DetectorState, countFor [110, 50] s.intoFailed = 1 ∧
      countFor [110, 50] s.failedToActive = 1 ∧ countFor [110, 50] s.failedCalls = 1 ∧
      countFor [110, 50] s.recoveryCalls = 1 := by
  let s₀ := DetectorState.init (MembershipManager.new (sampleConfig [110, 49]))
  have hexec : (exec DetectorState.step s₀ heartbeatsInTurn).isSome = true ∧
      AllOk DetectorState.step (fun s e => s.usesCurrentStatus e = true) s₀ heartbeatsInTurn := by
    decide
  have hdone : ∀ i, (stateAfter DetectorState.step s₀ heartbeatsInTurn).runs i = none := by
    intro i
    by_cases hi : i = 0
    · rw [hi]
      decide
    · exact DetectorState.runs_exec (exec_eq_stateAfter hexec.1) (by
        simpa [heartbeatsInTurn, DetectorEvent.run] using hi)
  obtain ⟨hfailed, hrecovery⟩ := callbacks_match_transitions _
    (stateAfter DetectorState.step s₀ heartbeatsInTurn) (Runs.stateAfter hexec) hdone [110, 50]
  have hinto : countFor [110, 50] (stateAfter DetectorState.step s₀ heartbeatsInTurn).intoFailed =
      1 := by decide
  have hback : countFor [110, 50]
      (stateAfter DetectorState.step s₀ heartbeatsInTurn).failedToActive = 1 := by decide
  exact ⟨_, hinto, hback, hfailed.trans hinto, hrecovery.trans hback⟩

/-- Two missed heartbeats to `n2`, and then two at once that both fail. -/
def heartbeatsAtOnce : List DetectorEvent :=
  [.start 0 [110, 50], .fail 0, .check 0, .start 0 [110, 50], .fail 0, .check 0,
    .start 0 [110, 50], .start 1 [110, 50], .fail 0, .check 0, .fail 1, .check 1]

/-- The peer becomes failed once, and `OnNodeFailed` is called twice. -/
theorem overlapping_heartbeats_report_twice :
    let s₀ := DetectorState.init (MembershipManager.new (sampleConfig [110, 49]))
    ∃ s, exec DetectorState.step s₀ heartbeatsAtOnce = some s ∧ (∀ i, s.runs i = none) ∧
      countFor [110, 50] s.intoFailed = 1 ∧ countFor [110, 50] s.failedCalls = 2 := by
  intro s₀
  have hexec : (exec DetectorState.step s₀ heartbeatsAtOnce).isSome = true := by decide
  refine ⟨_, exec_eq_stateAfter hexec, fun i => ?_, by decide, by decide⟩
  by_cases h0 : i = 0
  · rw [h0]
    decide
  by_cases h1 : i = 1
  · rw [h1]
    decide
  · exact DetectorState.runs_exec (exec_eq_stateAfter hexec) (by
      simp [heartbeatsAtOnce, DetectorEvent.run, h0, h1])

end GoQuorum
