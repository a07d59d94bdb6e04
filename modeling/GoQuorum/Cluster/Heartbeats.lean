import GoQuorum.Cluster.Membership

/-!
# Peer status and heartbeat history

The status of a peer ought to follow its heartbeats: active after a success, suspect after the first
failures, failed from `FailureThreshold` failures in a row on.  `RecordHeartbeatSuccess` makes a peer
active only if it was failed or unknown, so a peer that is suspect, or has been added by `AddPeer`,
keeps its status.  `status_follows_heartbeats_iff` says after which histories the status is the one
that the history asks for.
-/

namespace GoQuorum

open Lib

/-! ## Histories -/

/-- The outcome of one heartbeat. -/
inductive Heartbeat where
  | success
  | failure
  deriving DecidableEq, Repr

/-- The heartbeat of the peer `id` that a call records. -/
def MembershipCall.heartbeatOf (id : NodeID) : MembershipCall → Option Heartbeat
  | .recordHeartbeatSuccess nodeID _ _ => if nodeID = id then some .success else none
  | .recordHeartbeatFailure nodeID => if nodeID = id then some .failure else none
  | _ => none

/-- The heartbeats of a peer in a sequence of calls. -/
def heartbeatsOf (id : NodeID) (calls : List MembershipCall) : List Heartbeat :=
  calls.filterMap (MembershipCall.heartbeatOf id)

/-- The call is no change of the peer's status other than by a heartbeat. -/
def MembershipCall.SparesStatus (id : NodeID) : MembershipCall → Prop
  | .updatePeerStatus nodeID _ => nodeID ≠ id
  | .removePeer nodeID => nodeID ≠ id
  | _ => True

instance (id : NodeID) : ∀ call : MembershipCall, Decidable (call.SparesStatus id)
  | .updatePeerStatus nodeID _ => inferInstanceAs (Decidable (nodeID ≠ id))
  | .removePeer nodeID => inferInstanceAs (Decidable (nodeID ≠ id))
  | .setLocalStatus _ => isTrue trivial
  | .recordHeartbeatSuccess _ _ _ => isTrue trivial
  | .recordHeartbeatFailure _ => isTrue trivial
  | .addPeer _ _ _ => isTrue trivial
  | .activateIfQuorum => isTrue trivial

/-- The failures since the last success. -/
def missed (history : List Heartbeat) : ℕ :=
  history.foldl (fun n h => match h with
    | .success => 0
    | .failure => n + 1) 0

/-- The status that a history with a success asks for. -/
def expectedStatus (failureThreshold : ℤ) (history : List Heartbeat) : NodeStatus :=
  if missed history = 0 then .active
  else if missed history < failureThreshold then .suspect
  else .failed

@[simp] theorem missed_success (history : List Heartbeat) : missed (history ++ [.success]) = 0 := by
  rw [missed, List.foldl_append]
  rfl

@[simp] theorem missed_failure (history : List Heartbeat) :
    missed (history ++ [.failure]) = missed history + 1 := by
  rw [missed, List.foldl_append]
  rfl

/-! ## How a peer enters the table -/

/-- Where the entry of a peer comes from. -/
inductive PeerOrigin where
  | configured
  | added
  deriving DecidableEq, Repr

/-- The status a peer enters with. -/
def PeerOrigin.status : PeerOrigin → NodeStatus
  | configured => .unknown
  | added => .joining

/-- The peer has just entered the table of the manager. -/
inductive Enters (id : NodeID) : PeerOrigin → MembershipManager → Prop
  | configured (cfg : ClusterConfig) (h : id ∈ cfg.getPeers.map MemberConfig.id) :
    Enters id .configured (MembershipManager.new cfg)
  | added (mm : MembershipManager) (grpcAddr httpAddr : Bytes) (h : mm.peers.get? id = none) :
    Enters id .added (mm.addPeer id grpcAddr httpAddr)

theorem Enters.get? {id : NodeID} {origin : PeerOrigin} {mm : MembershipManager}
    (h : Enters id origin mm) :
    ∃ peer, mm.peers.get? id = some peer ∧ peer.status = origin.status ∧ peer.missedCount = 0 := by
  cases h with
  | configured cfg h =>
    obtain ⟨hstatus, hmem⟩ := MembershipManager.get?_initialPeers cfg id
    obtain ⟨peer, hpeer⟩ := hmem.2 (ClusterConfig.mem_getPeers_iff.1 h)
    exact ⟨peer, hpeer, hstatus peer hpeer⟩
  | added mm grpcAddr httpAddr h =>
    refine ⟨⟨grpcAddr, httpAddr, .joining, 0, 0, 0⟩, ?_, rfl, rfl⟩
    rw [MembershipManager.get?_addPeer, if_pos rfl, h]
    rfl

/-! ## The status as a function of the history -/

section

variable (failureThreshold : ℤ)

/-- What a heartbeat does to the status and the missed count of a peer. -/
def track (s : NodeStatus × ℕ) : Heartbeat → NodeStatus × ℕ
  | .success => (if s.1 = .failed ∨ s.1 = .unknown then .active else s.1, 0)
  | .failure =>
    (if failureThreshold ≤ (s.2 + 1 : ℕ) then .failed
      else if s.1 = .active then .suspect else s.1, s.2 + 1)

/-- Status and missed count after a history. -/
def tracked (origin : PeerOrigin) (history : List Heartbeat) : NodeStatus × ℕ :=
  history.foldl (track failureThreshold) (origin.status, 0)

theorem track_recordSuccess (now latency : ℤ) (peer : PeerMetadata) :
    ((peer.recordSuccess now latency).status, (peer.recordSuccess now latency).missedCount) =
      track failureThreshold (peer.status, peer.missedCount) .success := by
  unfold PeerMetadata.recordSuccess track
  dsimp only
  split_ifs <;> rfl

theorem track_recordFailure (peer : PeerMetadata) :
    ((peer.recordFailure failureThreshold).status,
        (peer.recordFailure failureThreshold).missedCount) =
      track failureThreshold (peer.status, peer.missedCount) .failure := by
  unfold PeerMetadata.recordFailure track
  dsimp only
  have hpos : peer.missedCount + 1 > 0 := Nat.succ_pos _
  by_cases hthr : failureThreshold ≤ (peer.missedCount + 1 : ℕ)
  · rw [if_pos hthr, if_pos hthr]
    split_ifs with hf
    · rfl
    · rw [not_not.1 hf]
  · rw [if_neg hthr, if_neg hthr, if_pos hpos]
    split_ifs <;> rfl

variable {failureThreshold}

/-- The entry of a peer after calls that touch its status only by heartbeats. -/
theorem get?_applyAll_of_spares {mm : MembershipManager} {id : NodeID} {peer : PeerMetadata}
    (hpeer : mm.peers.get? id = some peer) {calls : List MembershipCall}
    (hcalls : ∀ call ∈ calls, call.SparesStatus id) :
    ∃ peer', (mm.applyAll calls).peers.get? id = some peer' ∧
      (peer'.status, peer'.missedCount) = (heartbeatsOf id calls).foldl
        (track mm.config.failureThreshold) (peer.status, peer.missedCount) := by
  rw [MembershipManager.get?_applyAll, hpeer]
  clear hpeer
  induction calls generalizing peer with
  | nil => exact ⟨peer, rfl, rfl⟩
  | cons call calls ih =>
    obtain ⟨hcall, hcalls⟩ := List.forall_mem_cons.1 hcalls
    -- the call leaves an entry, and what it does to the status is a heartbeat or nothing
    have hstep : ∃ peer', call.onPeer mm.config.failureThreshold id (some peer) = some peer' ∧
        (peer'.status, peer'.missedCount) = (call.heartbeatOf id).elim
          (peer.status, peer.missedCount)
          (track mm.config.failureThreshold (peer.status, peer.missedCount)) := by
      cases call with
      | recordHeartbeatSuccess nodeID now latency =>
        simp only [MembershipCall.onPeer, MembershipCall.heartbeatOf]
        split_ifs
        · exact ⟨_, rfl, track_recordSuccess mm.config.failureThreshold now latency peer⟩
        · exact ⟨peer, rfl, rfl⟩
      | recordHeartbeatFailure nodeID =>
        simp only [MembershipCall.onPeer, MembershipCall.heartbeatOf]
        split_ifs
        · exact ⟨_, rfl, track_recordFailure _ peer⟩
        · exact ⟨peer, rfl, rfl⟩
      | updatePeerStatus nodeID status => exact ⟨peer, if_neg hcall, rfl⟩
      | removePeer nodeID => exact ⟨peer, if_neg hcall, rfl⟩
      | addPeer nodeID grpcAddr httpAddr => exact ⟨peer, ite_self _, rfl⟩
      | setLocalStatus status => exact ⟨peer, rfl, rfl⟩
      | activateIfQuorum => exact ⟨peer, rfl, rfl⟩
    obtain ⟨peer', hget, hstatus⟩ := hstep
    obtain ⟨peer'', hget', hstatus'⟩ := @ih peer' hcalls
    refine ⟨peer'', ?_, hstatus'.trans ?_⟩
    · rw [List.foldl_cons, hget, hget']
    · rw [hstatus, heartbeatsOf, heartbeatsOf, List.filterMap_cons]
      cases call.heartbeatOf id <;> rfl

variable {origin : PeerOrigin}

theorem tracked_concat (history : List Heartbeat) (h : Heartbeat) :
    tracked failureThreshold origin (history ++ [h]) =
      track failureThreshold (tracked failureThreshold origin history) h := by
  rw [tracked, List.foldl_append]
  rfl

theorem tracked_snd (origin : PeerOrigin) (history : List Heartbeat) :
    (tracked failureThreshold origin history).2 = missed history := by
  induction history using List.reverseRecOn with
  | nil => rfl
  | append_singleton history h ih =>
    rw [tracked_concat]
    cases h with
    | success => rw [missed_success]; rfl
    | failure => rw [missed_failure, ← ih]; rfl

/-- The status after a history. -/
def trackedStatus (failureThreshold : ℤ) (origin : PeerOrigin) (history : List Heartbeat) :
    NodeStatus :=
  (tracked failureThreshold origin history).1

theorem trackedStatus_success (history : List Heartbeat) :
    trackedStatus failureThreshold origin (history ++ [.success]) =
      if trackedStatus failureThreshold origin history = .failed ∨
        trackedStatus failureThreshold origin history = .unknown then .active
      else trackedStatus failureThreshold origin history := by
  rw [trackedStatus, tracked_concat]
  rfl

theorem trackedStatus_failure (history : List Heartbeat) :
    trackedStatus failureThreshold origin (history ++ [.failure]) =
      if failureThreshold ≤ missed (history ++ [.failure]) then .failed
      else if trackedStatus failureThreshold origin history = .active then .suspect
      else trackedStatus failureThreshold origin history := by
  rw [trackedStatus, tracked_concat, missed_failure, ← tracked_snd origin]
  rfl

/-! ## When a peer has each status -/

/-- There have been `failureThreshold` failures in a row. -/
def Outage (failureThreshold : ℤ) (history : List Heartbeat) : Prop :=
  ∃ before after, history = before ++ after ∧ failureThreshold ≤ missed before

/-- The history ends with successes, and before these come `failureThreshold` failures or, for a
configured peer, nothing but failures. -/
def Recovered (failureThreshold : ℤ) (origin : PeerOrigin) (history : List Heartbeat) : Prop :=
  ∃ before n, history = before ++ List.replicate (n + 1) .success ∧
    (failureThreshold ≤ missed before ∨ origin = .configured ∧ ∀ h ∈ before, h = .failure)

theorem outage_concat (history : List Heartbeat) (h : Heartbeat) :
    Outage failureThreshold (history ++ [h]) ↔
      Outage failureThreshold history ∨ failureThreshold ≤ missed (history ++ [h]) := by
  constructor
  · rintro ⟨before, after, he, hmissed⟩
    rcases List.eq_nil_or_concat after with rfl | ⟨after, last, rfl⟩
    · rw [List.append_nil] at he
      exact Or.inr (he ▸ hmissed)
    · rw [List.concat_eq_append, ← List.append_assoc] at he
      exact Or.inl ⟨before, after, (List.append_inj' he rfl).1, hmissed⟩
  · rintro (⟨before, after, rfl, hmissed⟩ | hmissed)
    · exact ⟨before, after ++ [h], List.append_assoc _ _ _, hmissed⟩
    · exact ⟨_, [], (List.append_nil _).symm, hmissed⟩

theorem recovered_success (history : List Heartbeat) :
    Recovered failureThreshold origin (history ++ [.success]) ↔
      Recovered failureThreshold origin history ∨ failureThreshold ≤ missed history ∨
        origin = .configured ∧ ∀ h ∈ history, h = .failure := by
  constructor
  · rintro ⟨before, n, he, hbefore⟩
    rw [List.replicate_succ', ← List.append_assoc] at he
    obtain rfl := (List.append_inj' he rfl).1
    cases n with
    | zero => exact Or.inr (by rwa [List.replicate_zero, List.append_nil])
    | succ n => exact Or.inl ⟨before, n, rfl, hbefore⟩
  · rintro (⟨before, n, rfl, hbefore⟩ | hbefore)
    · refine ⟨before, n + 1, ?_, hbefore⟩
      rw [List.replicate_succ' (n := n + 1), List.append_assoc]
    · exact ⟨history, 0, rfl, hbefore⟩

theorem missed_of_recovered {history : List Heartbeat}
    (h : Recovered failureThreshold origin history) : missed history = 0 := by
  obtain ⟨before, n, rfl, -⟩ := h
  rw [List.replicate_succ', ← List.append_assoc, missed_success]

variable (hpos : 0 < failureThreshold)
include hpos

/-- A peer is failed exactly after `failureThreshold` failures since the last success. -/
theorem trackedStatus_eq_failed_iff (origin : PeerOrigin) (history : List Heartbeat) :
    trackedStatus failureThreshold origin history = .failed ↔
      failureThreshold ≤ missed history := by
  induction history using List.reverseRecOn with
  | nil => exact iff_of_false (by cases origin <;> exact NodeStatus.noConfusion) (not_le.2 hpos)
  | append_singleton history h ih =>
    cases h with
    | success =>
      rw [trackedStatus_success, missed_success]
      refine iff_of_false ?_ (not_le.2 hpos)
      split_ifs with hs
      · exact not_false
      · exact fun hf => hs (Or.inl hf)
    | failure =>
      rw [trackedStatus_failure]
      split_ifs with hthr hactive
      · exact iff_of_true rfl hthr
      · exact iff_of_false not_false hthr
      · refine iff_of_false (fun hf => hthr ?_) hthr
        rw [missed_failure]
        have := ih.1 hf
        omega

/-- An added peer is joining until its first outage. -/
theorem trackedStatus_eq_joining_iff (origin : PeerOrigin) (history : List Heartbeat) :
    trackedStatus failureThreshold origin history = .joining ↔
      origin = .added ∧ ¬ Outage failureThreshold history := by
  induction history using List.reverseRecOn with
  | nil =>
    have hno : ¬ Outage failureThreshold [] := by
      rintro ⟨before, after, he, hmissed⟩
      rw [(List.append_eq_nil_iff.1 he.symm).1] at hmissed
      exact absurd hmissed (not_le.2 hpos)
    cases origin with
    | configured => exact iff_of_false NodeStatus.noConfusion fun h => PeerOrigin.noConfusion h.1
    | added => exact iff_of_true rfl ⟨rfl, hno⟩
  | append_singleton history h ih =>
    rw [outage_concat, not_or, ← and_assoc, ← ih]
    cases h with
    | success =>
      rw [trackedStatus_success, missed_success, Nat.cast_zero, and_iff_left (not_le.2 hpos)]
      split_ifs with hs
      · refine iff_of_false not_false fun hj => ?_
        rw [hj] at hs
        rcases hs with hs | hs <;> cases hs
      · exact Iff.rfl
    | failure =>
      rw [trackedStatus_failure]
      split_ifs with hthr hactive
      · exact iff_of_false not_false fun hj => hj.2 hthr
      · refine iff_of_false not_false fun hj => ?_
        rw [hactive] at hj
        cases hj.1
      · exact (and_iff_left hthr).symm

/-- A peer is unknown only while all its heartbeats have failed, if it has been configured. -/
theorem trackedStatus_eq_unknown_iff (origin : PeerOrigin) (history : List Heartbeat) :
    trackedStatus failureThreshold origin history = .unknown ↔
      (origin = .configured ∧ ∀ h ∈ history, h = .failure) ∧ ¬ failureThreshold ≤ missed history := by
  induction history using List.reverseRecOn with
  | nil =>
    cases origin with
    | configured =>
      exact iff_of_true rfl ⟨⟨rfl, fun h hh => absurd hh List.not_mem_nil⟩, not_le.2 hpos⟩
    | added => exact iff_of_false NodeStatus.noConfusion fun h => PeerOrigin.noConfusion h.1.1
  | append_singleton history h ih =>
    cases h with
    | success =>
      rw [trackedStatus_success]
      refine iff_of_false ?_ fun h => Heartbeat.noConfusion
        (h.1.2 .success (List.mem_append_right _ List.mem_cons_self))
      split_ifs with hs
      · exact not_false
      · exact fun hu => hs (Or.inr hu)
    | failure =>
      have hall : (∀ h ∈ history ++ [Heartbeat.failure], h = .failure) ↔
          ∀ h ∈ history, h = .failure := by
        rw [List.forall_mem_append, List.forall_mem_singleton, and_iff_left rfl]
      rw [trackedStatus_failure, hall]
      split_ifs with hthr hactive
      · exact iff_of_false not_false fun h => h.2 hthr
      · refine iff_of_false not_false fun h => ?_
        have hless : ¬ failureThreshold ≤ missed history := by
          rw [missed_failure] at hthr
          omega
        rw [ih.2 ⟨h.1, hless⟩] at hactive
        cases hactive
      · rw [ih]
        refine and_congr_right fun _ => iff_of_true ?_ hthr
        rw [missed_failure] at hthr
        omega

/-- A peer is active exactly when its last successes follow an outage, or only failures. -/
theorem trackedStatus_eq_active_iff (origin : PeerOrigin) (history : List Heartbeat) :
    trackedStatus failureThreshold origin history = .active ↔
      Recovered failureThreshold origin history := by
  induction history using List.reverseRecOn with
  | nil =>
    refine iff_of_false (by cases origin <;> exact NodeStatus.noConfusion) ?_
    rintro ⟨before, n, he, -⟩
    cases (List.append_eq_nil_iff.1 he.symm).2
  | append_singleton history h ih =>
    cases h with
    | success =>
      rw [trackedStatus_success, recovered_success, ← ih]
      have hfailed := trackedStatus_eq_failed_iff hpos origin history
      have hunknown := trackedStatus_eq_unknown_iff hpos origin history
      split_ifs with hs
      · refine iff_of_true rfl (Or.inr ?_)
        rcases hs with hs | hs
        · exact Or.inl (hfailed.1 hs)
        · exact Or.inr (hunknown.1 hs).1
      · refine (or_iff_left fun hor => hs ?_).symm
        by_cases hthr : failureThreshold ≤ missed history
        · exact Or.inl (hfailed.2 hthr)
        · exact Or.inr (hunknown.2 ⟨hor.resolve_left hthr, hthr⟩)
    | failure =>
      rw [trackedStatus_failure]
      refine iff_of_false ?_ fun h => ?_
      · split_ifs with hthr hactive
        · exact not_false
        · exact not_false
        · exact hactive
      · have := missed_of_recovered h
        rw [missed_failure] at this
        omega

omit hpos in
/-- Heartbeats give no other statuses. -/
theorem trackedStatus_cases (failureThreshold : ℤ) (origin : PeerOrigin)
    (history : List Heartbeat) :
    trackedStatus failureThreshold origin history = .unknown ∨
      trackedStatus failureThreshold origin history = .joining ∨
      trackedStatus failureThreshold origin history = .active ∨
      trackedStatus failureThreshold origin history = .suspect ∨
      trackedStatus failureThreshold origin history = .failed := by
  induction history using List.reverseRecOn with
  | nil => cases origin <;> simp [trackedStatus, tracked, PeerOrigin.status]
  | append_singleton history h ih =>
    cases h with
    | success =>
      rw [trackedStatus_success]
      split_ifs
      · simp
      · exact ih
    | failure =>
      rw [trackedStatus_failure]
      split_ifs
      · simp
      · simp
      · exact ih

end

/-! ## The status asked for -/

/-- The histories after which the status is the one asked for. -/
def FollowsHistory (failureThreshold : ℤ) (origin : PeerOrigin) (history : List Heartbeat) : Prop :=
  failureThreshold ≤ missed history ∨
    (missed history = 0 ∧ Recovered failureThreshold origin history) ∨
    (0 < missed history ∧ (origin = .configured ∨ Outage failureThreshold history))

/-- For every peer that has entered the table from the configuration or by `AddPeer`, every positive
threshold, and every sequence of calls that changes its status only by heartbeats, at least one of
which succeeds: the peer is active after a success, suspect after fewer than `FailureThreshold`
failures since the last one, and failed after more, exactly when

* `FailureThreshold` or more failures have followed the last success, or
* none has, and the successes at the end follow `FailureThreshold` failures in a row or, for a
  configured peer, nothing but failures, or
* some have, and the peer is a configured one or has had `FailureThreshold` failures in a row. -/
theorem status_follows_heartbeats_iff (mm : MembershipManager) (id : NodeID) (origin : PeerOrigin)
    (henters : Enters id origin mm) (hpos : 0 < mm.config.failureThreshold)
    (calls : List MembershipCall) (hcalls : ∀ call ∈ calls, call.SparesStatus id)
    (hsuccess : Heartbeat.success ∈ heartbeatsOf id calls) :
    (mm.applyAll calls).getPeerStatus id =
        expectedStatus mm.config.failureThreshold (heartbeatsOf id calls) ↔
      FollowsHistory mm.config.failureThreshold origin (heartbeatsOf id calls) := by
  obtain ⟨peer, hpeer, hstatus, hmissed⟩ := henters.get?
  obtain ⟨peer', hget, hpeer'⟩ := get?_applyAll_of_spares hpeer hcalls
  have hstatus' : peer'.status =
      trackedStatus mm.config.failureThreshold origin (heartbeatsOf id calls) := by
    rw [hstatus, hmissed] at hpeer'
    exact congrArg Prod.fst hpeer'
  rw [MembershipManager.getPeerStatus_of_get? hget, hstatus']
  generalize heartbeatsOf id calls = history at hsuccess
  generalize mm.config.failureThreshold = threshold at hpos
  have hfailed := trackedStatus_eq_failed_iff hpos origin history
  have hactive := trackedStatus_eq_active_iff hpos origin history
  unfold expectedStatus FollowsHistory
  by_cases hthr : threshold ≤ missed history
  · have hne : missed history ≠ 0 := by
      intro h0
      rw [h0] at hthr
      exact absurd hpos (not_lt.2 hthr)
    rw [if_neg hne, if_neg (not_lt.2 hthr)]
    exact iff_of_true (hfailed.2 hthr) (Or.inl hthr)
  · rw [or_iff_right hthr]
    by_cases h0 : missed history = 0
    · rw [if_pos h0, hactive, or_iff_left (fun h => absurd h0 h.1.ne'), and_iff_right h0]
    · rw [if_neg h0, if_pos (not_le.1 hthr), or_iff_right (fun h => h0 h.1),
        and_iff_right (Nat.pos_of_ne_zero h0)]
      -- only suspect and joining are left
      have hjoining := trackedStatus_eq_joining_iff hpos origin history
      have hunknown : trackedStatus threshold origin history ≠ .unknown := fun hu =>
        Heartbeat.noConfusion (((trackedStatus_eq_unknown_iff hpos origin history).1 hu).1.2 _ hsuccess)
      have hnotActive : trackedStatus threshold origin history ≠ .active := fun ha =>
        h0 (missed_of_recovered (hactive.1 ha))
      have hnotFailed : trackedStatus threshold origin history ≠ .failed := fun hf =>
        hthr (hfailed.1 hf)
      have hsuspect : trackedStatus threshold origin history = .suspect ↔
          ¬ trackedStatus threshold origin history = .joining := by
        rcases trackedStatus_cases threshold origin history with
          h | h | h | h | h
        · exact absurd h hunknown
        · simp [h]
        · exact absurd h hnotActive
        · simp [h]
        · exact absurd h hnotFailed
      rw [hsuspect, hjoining, not_and, not_not]
      cases origin with
      | configured => simp
      | added => simp

/-- A peer that fails for as long as the threshold asks for and comes back. -/
def outageAndReturn : List MembershipCall :=
  [.recordHeartbeatSuccess [110, 50] 1 0, .recordHeartbeatFailure [110, 50],
    .recordHeartbeatFailure [110, 50], .recordHeartbeatFailure [110, 50],
    .recordHeartbeatSuccess [110, 50] 5 0]

/-- After an outage a success makes the peer active. -/
theorem status_follows_heartbeats_iff_of_outage :
    ((MembershipManager.new (sampleConfig [110, 49])).applyAll outageAndReturn).getPeerStatus
      [110, 50] = .active := by
  refine (status_follows_heartbeats_iff _ [110, 50] .configured (.configured _ (by decide))
    (by decide) outageAndReturn (by decide) (by decide)).2 (Or.inr (Or.inl ⟨by decide, ?_⟩))
  exact ⟨[.success, .failure, .failure, .failure], 0, rfl, Or.inl (by decide)⟩

/-- One missed heartbeat and a success after it: the peer stays suspect. -/
theorem suspect_peer_stays_suspect :
    let mm := MembershipManager.new (sampleConfig [110, 49])
    let calls : List MembershipCall := [.recordHeartbeatSuccess [110, 50] 1 0,
      .recordHeartbeatFailure [110, 50], .recordHeartbeatSuccess [110, 50] 3 0]
    Enters [110, 50] .configured mm ∧ 0 < mm.config.failureThreshold ∧
      (∀ call ∈ calls, call.SparesStatus [110, 50]) ∧
      heartbeatsOf [110, 50] calls = [.success, .failure, .success] ∧
      (mm.applyAll calls).getPeerStatus [110, 50] = .suspect ∧
      expectedStatus mm.config.failureThreshold (heartbeatsOf [110, 50] calls) = .active :=
  ⟨.configured _ (by decide), by decide, by decide, by decide, by decide, by decide⟩

end GoQuorum
