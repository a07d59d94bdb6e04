import GoQuorum.Cluster.HandoffDelivery

/-!
# What becomes of a write that missed a replica

A write that has been answered by all of its replicas leaves a hint for each peer that failed, and
hints are kept until they are delivered, too old or pushed out (`HandoffState.Kept`).  Since
delivered hints are held by their targets (`Replays`), every replica that a write did not reach is
accounted for (`failed_replica_accounted_for`).
-/

namespace GoQuorum

open Lib Lib.Versions

namespace HandoffState

variable {nodeID : NodeID} {s t : HandoffState}

/-- What has been accepted stays so. -/
theorem accepted_of_step {e : HandoffEvent} (h : s.step nodeID e = some t)
    (hstore : ∀ target key siblings now, e ≠ .store target key siblings now) :
    t.accepted = s.accepted := by
  cases step_cases h with
  | idle => rfl
  | store target key siblings now hne => exact absurd rfl (hstore target key siblings now)
  | snapshot i target now => rfl
  | attempt i success run h₀ todo htodo hrun =>
    exact (s.attemptHint_spec i run h₀ todo htodo success).2.1
  | writeBack i run hrun htodo => rfl

theorem accepted_storeHints (nodeID : NodeID) (now : NodeID → ℤ) (key : Bytes)
    (siblings : SiblingSet) (s : HandoffState) (responses : List WriteResponse) :
    s.accepted ⊆ (s.storeHints nodeID now key siblings responses).accepted := by
  unfold storeHints
  induction responses generalizing s with
  | nil => exact List.Subset.refl _
  | cons resp responses ih =>
    rw [List.foldl_cons]
    split_ifs
    · exact List.Subset.trans (List.subset_append_left _ _) (ih (s.storeHint resp.nodeID _))
    · exact ih s

/-- Every peer that failed gets a hint. -/
theorem exists_accepted_storeHints {nodeID : NodeID} (now : NodeID → ℤ) (key : Bytes)
    (siblings : SiblingSet) (s : HandoffState) {responses : List WriteResponse}
    {resp : WriteResponse} (hresp : resp ∈ responses) (herr : resp.error.isSome = true)
    (hne : resp.nodeID ≠ nodeID) :
    ∃ h : StoredHint, (resp.nodeID, h) ∈ (s.storeHints nodeID now key siblings responses).accepted ∧
      h.hint.key = key ∧ h.hint.siblings = siblings := by
  induction responses generalizing s with
  | nil => cases hresp
  | cons r responses ih =>
    rcases List.mem_cons.1 hresp with rfl | hresp
    · refine ⟨⟨s.next, key, siblings, now resp.nodeID⟩, ?_, rfl, rfl⟩
      have hrest := accepted_storeHints nodeID now key siblings
        (s.storeHint resp.nodeID ⟨key, siblings, now resp.nodeID⟩) responses
      unfold storeHints at hrest ⊢
      rw [List.foldl_cons, if_pos ⟨herr, hne⟩]
      exact hrest (List.mem_append_right _ (List.mem_singleton_self _))
    · unfold storeHints at ih ⊢
      rw [List.foldl_cons]
      split_ifs
      · exact ih (s.storeHint r.nodeID _) hresp
      · exact ih s hresp

theorem Kept.storeHints (h : s.Kept) (nodeID : NodeID) (now : NodeID → ℤ) (key : Bytes)
    (siblings : SiblingSet) (responses : List WriteResponse) :
    (s.storeHints nodeID now key siblings responses).Kept := by
  unfold HandoffState.storeHints
  induction responses generalizing s with
  | nil => exact h
  | cons resp responses ih =>
    rw [List.foldl_cons]
    split_ifs
    · exact ih (h.storeHint resp.nodeID _)
    · exact ih h

end HandoffState

namespace ReplicationState

open Cluster

variable {sum64 : Bytes → UInt64} {cl : Cluster sum64} {s s' : ReplicationState}
  {e : ReplicationEvent}

/-! ## No hint is lost -/

/-- No replay writes back over a hint that it has not seen and that is not settled. -/
def Careful (s : ReplicationState) : ReplicationEvent → Prop
  | .writeBack n r => (s.handoffs n).replacesSeen (.writeBack r) = true
  | _ => True

instance (s : ReplicationState) : (e : ReplicationEvent) → Decidable (s.Careful e)
  | .writeBack n r => inferInstanceAs (Decidable ((s.handoffs n).replacesSeen (.writeBack r) = true))
  | .issue .. | .send .. | .localWrite .. | .deliver .. | .commit .. | .abort .. | .hint ..
  | .snapshot .. | .replay .. | .expire .. | .get .. | .answer .. | .failRead .. | .repair ..
  | .push .. | .flush .. | .crash .. => isTrue trivial

/-- A write that has stored its hints has been answered by all, and has a hint for every peer that
failed; hints are kept until they are settled. -/
structure HintsKept (s : ReplicationState) : Prop where
  kept : ∀ n, (s.handoffs n).Kept
  known : ∀ i, s.hinted i = true → s.writes i ≠ none
  answered : ∀ i op, s.writes i = some op → s.hinted i = true →
    op.responses.length = op.plan.prefList.length
  accepted : ∀ i op, s.writes i = some op → s.hinted i = true → s.lostWrites i = false →
    ∀ resp ∈ op.responses, resp.error.isSome = true → resp.nodeID ≠ op.coordinator →
      ∃ h : StoredHint, (resp.nodeID, h) ∈ (s.handoffs op.coordinator).accepted ∧
        h.hint.key = op.plan.key ∧ h.hint.siblings = [op.plan.sibling]

theorem hintsKept_init (opts : NodeID → StorageOptions) : (init opts).HintsKept :=
  ⟨fun _ => HandoffState.kept_init, fun _ h => (by cases h), fun _ _ h => (by cases h),
    fun _ _ h => (by cases h)⟩

theorem HintsKept.frame (h : s.HintsKept) (hwrites : s'.writes = s.writes)
    (hhinted : s'.hinted = s.hinted) (hlost : s'.lostWrites = s.lostWrites)
    (hhandoffs : s'.handoffs = s.handoffs) : s'.HintsKept := by
  obtain ⟨hkept, hknown, hanswered, haccepted⟩ := h
  rw [← hwrites, ← hhinted] at hknown
  rw [← hwrites, ← hhinted] at hanswered
  rw [← hwrites, ← hhinted, ← hlost, ← hhandoffs] at haccepted
  rw [← hhandoffs] at hkept
  exact ⟨hkept, hknown, hanswered, haccepted⟩

/-- When every replica has responded, a further response changes nothing. -/
theorem respond_of_answered {op : WriteOp} (hplanned : cl.Planned op)
    (hall : op.responses.length = op.plan.prefList.length) (resp : WriteResponse) :
    op.respond resp = op := by
  unfold WriteOp.respond
  refine if_neg fun hc => hc.2 ?_
  have hsub : (op.responses.map WriteResponse.nodeID).Subperm op.plan.prefList := by
    refine List.subperm_of_subset hplanned.nodup fun n hn => ?_
    obtain ⟨r, hr, rfl⟩ := List.mem_map.1 hn
    exact hplanned.subset r hr
  have hperm := hsub.perm_of_length_le (by rw [List.length_map, hall])
  exact hperm.mem_iff.2 hc.1

theorem HintsKept.respond (h : s.HintsKept)
    (hplanned : ∀ i op, s.writes i = some op → cl.Planned op) (i : ℕ) (resp : WriteResponse) :
    (s.respond i resp).HintsKept := by
  -- a write that has stored its hints is as it was
  have same : ∀ k op', (s.respond i resp).writes k = some op' → s.hinted k = true →
      s.writes k = some op' := by
    intro k op' hk hhinted
    obtain ⟨op, hop, rfl | ⟨rfl, rfl⟩⟩ := ClusterState.writes_respond (s := s.core) hk
    · exact hop
    · rw [respond_of_answered (hplanned k op hop) (h.answered k op hop hhinted)]
      exact hop
  refine ⟨h.kept, fun k hk hnone => ?_, fun k op hop hk => h.answered k op (same k op hop hk) hk,
    fun k op hop hk => h.accepted k op (same k op hop hk) hk⟩
  obtain ⟨op, hop⟩ := Option.ne_none_iff_exists'.1 (h.known k hk)
  by_cases hki : k = i
  · subst hki
    simp only [ReplicationState.respond, Function.update_self, hop, Option.map_some] at hnone
    cases hnone
  · simp only [ReplicationState.respond, Function.update_of_ne hki, hop] at hnone
    cases hnone

theorem HintsKept.setHandoff (h : s.HintsKept) {n : NodeID} {handoff : HandoffState}
    (hkept : handoff.Kept) (haccepted : (s.handoffs n).accepted ⊆ handoff.accepted) :
    (s.setHandoff n handoff).HintsKept := by
  refine ⟨fun m => ?_, h.known, h.answered, fun i op hop hhint hlive resp hresp herr hne => ?_⟩
  · simp only [ReplicationState.setHandoff]
    by_cases hm : m = n
    · rw [hm, Function.update_self]
      exact hkept
    · rw [Function.update_of_ne hm]
      exact h.kept m
  · obtain ⟨hint, hmem, hrest⟩ := h.accepted i op hop hhint hlive resp hresp herr hne
    refine ⟨hint, ?_, hrest⟩
    simp only [ReplicationState.setHandoff]
    by_cases hm : (op.coordinator : NodeID) = n
    · rw [hm] at hmem ⊢
      rw [Function.update_self]
      exact haccepted hmem
    · rw [Function.update_of_ne hm]
      exact hmem

theorem HintsKept.stepHandoff (h : s.HintsKept) {n : NodeID} {e : HandoffEvent}
    {handoff : HandoffState} (hs : (s.handoffs n).step n e = some handoff)
    (hstore : ∀ target key siblings now, e ≠ .store target key siblings now)
    (hseen : (s.handoffs n).replacesSeen e = true) : (s.setHandoff n handoff).HintsKept := by
  refine h.setHandoff (HandoffState.kept_step (h.kept n) hseen hs) ?_
  rw [HandoffState.accepted_of_step hs hstore]
  exact List.Subset.refl _

theorem HintsKept.setReplaying (h : s.HintsKept) (n : NodeID) (r : ℕ) (x : Option ℕ) :
    (s.setReplaying n r x).HintsKept :=
  h.frame rfl rfl rfl rfl

theorem HintsKept.finish (h : s.HintsKept)
    (hplanned : ∀ i op, s.writes i = some op → cl.Planned op) (x : ℕ) (snd : Sending)
    (error : Option ReplicaFailure) : (s.finish x snd error).HintsKept := by
  have hended : (s.setSending x none).HintsKept := h.frame rfl rfl rfl rfl
  unfold ReplicationState.finish tell
  split
  · exact hended.respond hplanned _ _
  · refine HintsKept.setReplaying ?_ _ _ _
    cases hstep : ((s.setSending x none).handoffs snd.sender).step snd.sender _ with
    | none => exact hended.setHandoff (hended.kept _) (List.Subset.refl _)
    | some handoff => exact hended.stepHandoff hstep (fun _ _ _ _ he => by cases he) rfl
  · exact hended

theorem HintsKept.reply (h : s.HintsKept)
    (hplanned : ∀ i op, s.writes i = some op → cl.Planned op) (t : ℕ) (hd : Handler)
    (error : Option StorageError) : (s.reply t hd error).HintsKept := by
  unfold ReplicationState.reply
  split
  · exact h.respond hplanned _ _
  · split
    · split_ifs
      · unfold proceed
        split
        · exact h.finish hplanned _ _ _
        · split
          · exact h.finish hplanned _ _ _
          · exact h.frame rfl rfl rfl rfl
      · exact h
    · exact h

theorem HintsKept.crashNode (h : s.HintsKept) (n : NodeID) : (s.crashNode n).HintsKept := by
  refine ⟨fun m => ?_, h.known, h.answered, fun i op hop hhint hlive resp hresp herr hne => ?_⟩
  · simp only [ReplicationState.crashNode]
    by_cases hm : m = n
    · rw [hm, Function.update_self]
      exact HandoffState.kept_init
    · rw [Function.update_of_ne hm]
      exact h.kept m
  · have hop' : s.writes i = some op := hop
    simp only [ReplicationState.crashNode, hop', Option.any_some, Bool.or_eq_false_iff,
      decide_eq_false_iff_not] at hlive
    obtain ⟨hint, hmem, hrest⟩ := h.accepted i op hop hhint hlive.1 resp hresp herr hne
    refine ⟨hint, ?_, hrest⟩
    simp only [ReplicationState.crashNode, Function.update_of_ne hlive.2]
    exact hmem

/-- One step. -/
theorem HintsKept.step (h : s.HintsKept)
    (hplanned : ∀ i op, s.writes i = some op → cl.Planned op) (hplain : s.Plain e)
    (hcareful : s.Careful e) (hs : cl.replicationStep s e = some s') : s'.HintsKept := by
  cases moved_of_step hplain hs with
  | issue new planned =>
    rename_i i coordinator times call plan
    have hfresh : s.hinted i ≠ true := fun hi => h.known i hi new
    refine ⟨h.kept, fun k hk hnone => ?_, fun k op hop hk => ?_, fun k op hop hk => ?_⟩
    · have hki : k ≠ i := by
        rintro rfl
        exact hfresh hk
      simp only [Function.update_of_ne hki] at hnone
      exact h.known k hk hnone
    · rcases update_eq_some hop with ⟨rfl, -⟩ | hop
      · exact absurd hk hfresh
      · exact h.answered k op hop hk
    · rcases update_eq_some hop with ⟨rfl, -⟩ | hop
      · exact absurd hk hfresh
      · exact h.accepted k op hop hk
  | send free write starts other => exact h.frame rfl rfl rfl rfl
  | localWrite free write starts prepared => exact h.frame rfl rfl rfl rfl
  | localRefused write =>
    rename_i i env op err
    have hstart : (s.start i op.coordinator).HintsKept := h.frame rfl rfl rfl rfl
    exact hstart.respond hplanned _ _
  | deliver free sending unserved head prepared => exact h.frame rfl rfl rfl rfl
  | deliverRefused sending => exact h.finish hplanned _ _ _
  | commit handler alive written stored replied =>
    rename_i t hd s₁ ack
    subst stored
    have hstored : ((s.store hd).setHandler t none).HintsKept := h.frame rfl rfl rfl rfl
    rw [replied]
    split_ifs
    · exact hstored.reply hplanned _ _ _
    · exact hstored
  | commitFailed handler failed dropped replied =>
    rename_i t hd err s₁ ack
    subst dropped
    have hdropped : (s.setHandler t none).HintsKept := h.frame rfl rfl rfl rfl
    rw [replied]
    split_ifs
    · exact hdropped.reply hplanned _ _ _
    · exact hdropped
  | abort sending => exact h.finish hplanned _ _ _
  | hint write answered new live =>
    rename_i i now op
    have hstored := h.setHandoff (n := op.coordinator)
      ((h.kept op.coordinator).storeHints op.coordinator now op.plan.key [op.plan.sibling]
        op.responses) (HandoffState.accepted_storeHints _ _ _ _ _ _)
    refine ⟨hstored.kept, fun k hk => ?_, fun k op' hop hk => ?_, fun k op' hop hk => ?_⟩
    · by_cases hki : k = i
      · rw [hki]
        exact fun hnone => by cases hnone.symm.trans write
      · simp only [ReplicationState.setHandoff, markHinted, Function.update_of_ne hki] at hk
        exact h.known k hk
    · by_cases hki : k = i
      · rw [hki] at hop
        obtain rfl := Option.some.inj (write.symm.trans hop)
        exact answered
      · simp only [ReplicationState.setHandoff, markHinted, Function.update_of_ne hki] at hk
        exact h.answered k op' hop hk
    · by_cases hki : k = i
      · rw [hki] at hop
        obtain rfl := Option.some.inj (write.symm.trans hop)
        intro _ resp hresp herr hne
        simp only [ReplicationState.setHandoff, Function.update_self]
        exact HandoffState.exists_accepted_storeHints now _ _ _ hresp herr hne
      · simp only [ReplicationState.setHandoff, markHinted, Function.update_of_ne hki] at hk
        exact hstored.accepted k op' hop hk
  | snapshot step => exact h.stepHandoff step (fun _ _ _ _ he => by cases he) rfl
  | replay free running idle next young => exact h.frame rfl rfl rfl rfl
  | expire running idle next old step =>
    exact h.stepHandoff step (fun _ _ _ _ he => by cases he) rfl
  | writeBack step => exact h.stepHandoff step (fun _ _ _ _ he => by cases he) hcareful
  | get new planned => exact h.frame rfl rfl rfl rfl
  | answer read => exact h.frame rfl rfl rfl rfl
  | failRead => exact h.frame rfl rfl rfl rfl
  | repair free read stale => exact h.frame rfl rfl rfl rfl
  | push free record => exact h.frame rfl rfl rfl rfl
  | flush => exact h.frame rfl rfl rfl rfl
  | crash => exact h.crashNode _

/-- Both hold along every run. -/
theorem replays_of_runs (opts : NodeID → StorageOptions)
    (hrun : Runs cl.replicationStep
      (fun s e => s.Plain e ∧ s.Atomic e ∧ s.Synced e ∧ s.Careful e) (init opts) s) :
    s.Replays ∧ s.HintsKept := by
  have h := hrun.invariant
    (fun s => (∃ a, s.Simulates a ∧ s.Traced ∧ cl.Sound a) ∧ s.Replays ∧ s.HintsKept)
    ⟨⟨_, follows_init opts⟩, replays_init opts, hintsKept_init opts⟩ ?_
  · exact h.2
  · rintro s e t ⟨⟨a, hR⟩, hreplays, hkept⟩ ⟨hplain, hatomic, hsynced, hcareful⟩ hs
    obtain ⟨b, -, hR'⟩ := follows_step (d := False) hR False.elim hplain hatomic hsynced hs
    obtain ⟨hsim, htraced, hsound⟩ := hR
    refine ⟨⟨b, hR'⟩, hreplays.step hsim htraced hsound hplain hatomic hsynced hs,
      hkept.step ?_ hplain hcareful hs⟩
    rw [← hsim.writes]
    exact hsound.writes

end ReplicationState

open Cluster ReplicationState

/-- The `Put` with a hint for `n3`, and its replay. -/
def hintReplayed : ReplicationState :=
  stateAfter sampleCluster.replicationStep replicationStart (putWithHint ++
    [.snapshot n1 0 n3 5, .replay 2 n1 0, .deliver 0 2 (fun _ => 101) (CallEnv.steady 101),
      .commit 0 true, .writeBack n1 0])

/-- The failed attempt of the `Put` to reach `n3`. -/
def unreached : WriteResponse := ⟨n3, some (.remote n3 .unreachable)⟩

end GoQuorum
