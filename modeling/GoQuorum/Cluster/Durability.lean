import GoQuorum.Cluster.System

/-!
# Acknowledged writes are not lost

The invariant of the cluster (`Sound`): every sibling on a replica looks like that of a write that
was issued, and the record of every replica that has acknowledged a write covers its clock.  It
holds in every run in which `Storage.Put` is atomic, nothing is pruned or expires and node ids are
valid (`sound_of_runs`).
-/

namespace GoQuorum

open Lib Lib.Versions

/-- The siblings whose clocks have valid ids. -/
def ValidClock (x : Sibling) : Prop := x.vclock.ValidIDs

theorem printsFaithfully_validClock : PrintsFaithfully ValidClock :=
  printsFaithfully_of_validIDs fun _ h => h

theorem ValidClock.of_view {x y : Sibling} (h : ValidClock x) (e : x.view = y.view) :
    ValidClock y :=
  VectorClock.ValidIDs.of_counters h (Prod.mk.inj (Prod.mk.inj e).2).1

/-- The write has been acknowledged by a replica. -/
def WriteOp.Acked (op : WriteOp) (n : NodeID) : Prop := ⟨n, none⟩ ∈ op.responses

namespace ClusterState

/-! ## Writes are remembered -/

/-- The sibling looks like that of a write on the key. -/
def Issued (s : ClusterState) (key : Bytes) (x : Sibling) : Prop :=
  ∃ i op, s.writes i = some op ∧ op.plan.key = key ∧ x.view = op.plan.sibling.view

/-- The later state knows the writes and acknowledgements of the earlier one. -/
def Extends (s t : ClusterState) : Prop :=
  ∀ i op, s.writes i = some op → ∃ op', t.writes i = some op' ∧ op'.plan = op.plan ∧
    ∀ n, op.Acked n → op'.Acked n

variable {s t u : ClusterState}

theorem extends_of_eq (h : t.writes = s.writes) : s.Extends t :=
  fun i op hop => ⟨op, by rw [h, hop], rfl, fun _ hn => hn⟩

theorem Extends.trans (h₁ : s.Extends t) (h₂ : t.Extends u) : s.Extends u := by
  intro i op hop
  obtain ⟨op₁, hop₁, hp₁, ha₁⟩ := h₁ i op hop
  obtain ⟨op₂, hop₂, hp₂, ha₂⟩ := h₂ i op₁ hop₁
  exact ⟨op₂, hop₂, hp₂.trans hp₁, fun n hn => ha₂ n (ha₁ n hn)⟩

theorem Issued.mono {key : Bytes} {x : Sibling} (h : s.Issued key x) (he : s.Extends t) :
    t.Issued key x := by
  obtain ⟨i, op, hop, hkey, hview⟩ := h
  obtain ⟨op', hop', hp, -⟩ := he i op hop
  exact ⟨i, op', hop', by rw [hp, hkey], by rw [hp, hview]⟩

end ClusterState

namespace WriteOp

variable {op : WriteOp} {resp : WriteResponse}

@[simp] theorem plan_respond : (op.respond resp).plan = op.plan := by
  unfold respond
  split_ifs <;> rfl

theorem Acked.respond {n : NodeID} (h : op.Acked n) : (op.respond resp).Acked n := by
  unfold WriteOp.respond
  split_ifs
  · exact List.mem_append_left _ h
  · exact h

theorem acked_of_respond {n : NodeID} (h : (op.respond resp).Acked n) :
    op.Acked n ∨ resp = ⟨n, none⟩ := by
  unfold WriteOp.respond at h
  split_ifs at h
  · rcases List.mem_append.1 h with h | h
    · exact Or.inl h
    · exact Or.inr (List.mem_singleton.1 h).symm
  · exact Or.inl h

end WriteOp

namespace ClusterState

variable {s t : ClusterState}

/-- A write after a response is the write before it, with the response added if it is for it. -/
theorem writes_respond {i k : ℕ} {resp : WriteResponse} {op' : WriteOp}
    (h : (s.respond i resp).writes k = some op') :
    ∃ op, s.writes k = some op ∧ (op' = op ∨ k = i ∧ op' = op.respond resp) := by
  rcases update_eq_some h with ⟨rfl, h⟩ | h
  · obtain ⟨op, hop, rfl⟩ := Option.map_eq_some_iff.1 h
    exact ⟨op, hop, Or.inr ⟨rfl, rfl⟩⟩
  · exact ⟨op', h, Or.inl rfl⟩

theorem extends_respond (s : ClusterState) (i : ℕ) (resp : WriteResponse) :
    s.Extends (s.respond i resp) := by
  intro k op hop
  by_cases hk : k = i
  · subst hk
    refine ⟨op.respond resp, ?_, WriteOp.plan_respond, fun n hn => hn.respond⟩
    simp only [respond, Function.update_self, hop, Option.map_some]
  · exact ⟨op, by simp only [respond, Function.update_of_ne hk, hop], rfl, fun n hn => hn⟩

theorem extends_issue {i : ℕ} (h : s.writes i = none) (op' : WriteOp) :
    s.Extends { s with writes := Function.update s.writes i (some op') } := by
  intro k op hop
  have hk : k ≠ i := by
    rintro rfl
    rw [h] at hop
    cases hop
  exact ⟨op, by simp only [Function.update_of_ne hk, hop], rfl, fun n hn => hn⟩

end ClusterState

namespace Cluster

open ClusterState

variable {sum64 : Bytes → UInt64} {cl : Cluster sum64} {s t : ClusterState} {e : ClusterEvent}

theorem extends_step (hs : cl.step s e = some t) : s.Extends t := by
  cases e with
  | issue i coordinator times call =>
    obtain ⟨hnone, plan, -, rfl⟩ := step_issue hs
    exact extends_issue hnone _
  | receive u i node stamp env =>
    obtain ⟨key, sibling, data, -, -, rfl⟩ := step_receive hs
    exact extends_of_eq rfl
  | commit u ack =>
    obtain ⟨tr, -, rfl | rfl | rfl⟩ := step_commit hs
    · exact extends_of_eq rfl
    · exact extends_respond ((s.store tr).drop u) _ _
    · exact extends_of_eq rfl
  | fail i node err =>
    obtain rfl := Option.some.inj hs
    exact extends_respond s _ _
  | get j coordinator key =>
    obtain ⟨-, prefList, -, rfl⟩ := step_get hs
    exact extends_of_eq rfl
  | answer j node env stamp =>
    obtain ⟨op, -, rfl⟩ := step_answer hs
    exact extends_of_eq rfl
  | failRead j node err =>
    obtain rfl := Option.some.inj hs
    exact extends_of_eq rfl

theorem extends_of_runs {ok : ClusterState → ClusterEvent → Prop} (hrun : Runs cl.step ok s t) :
    s.Extends t :=
  hrun.invariant s.Extends (extends_of_eq rfl) fun _ _ _ h _ hs => h.trans (extends_step hs)

/-- Where the writes of a state come from. -/
theorem write_of_step (hs : cl.step s e = some t) {k : ℕ} {op' : WriteOp}
    (hk : t.writes k = some op') :
    (∃ op, s.writes k = some op ∧ op'.plan = op.plan) ∨
      ∃ coordinator times call, e = .issue k coordinator times call ∧
        (cl.coordinator coordinator).plan times call = .ok op'.plan := by
  have hresp : ∀ (s' : ClusterState) i resp, (s'.respond i resp).writes k = some op' →
      ∃ op, s'.writes k = some op ∧ op'.plan = op.plan := by
    intro s' i resp h
    obtain ⟨op, hop, rfl | ⟨-, rfl⟩⟩ := writes_respond h
    · exact ⟨op', hop, rfl⟩
    · exact ⟨op, hop, WriteOp.plan_respond⟩
  cases e with
  | issue i coordinator times call =>
    obtain ⟨-, plan, hplan, rfl⟩ := step_issue hs
    rcases update_eq_some hk with ⟨rfl, hop⟩ | hop
    · obtain rfl := Option.some.inj hop
      exact Or.inr ⟨coordinator, times, call, rfl, hplan⟩
    · exact Or.inl ⟨op', hop, rfl⟩
  | receive u i node stamp env =>
    obtain ⟨key, sibling, data, -, -, rfl⟩ := step_receive hs
    exact Or.inl ⟨op', hk, rfl⟩
  | commit u ack =>
    obtain ⟨tr, -, rfl | rfl | rfl⟩ := step_commit hs
    · exact Or.inl ⟨op', hk, rfl⟩
    · exact Or.inl (hresp ((s.store tr).drop u) _ _ hk)
    · exact Or.inl ⟨op', hk, rfl⟩
  | fail i node err =>
    obtain rfl := Option.some.inj hs
    exact Or.inl (hresp s _ _ hk)
  | get j coordinator key =>
    obtain ⟨-, prefList, -, rfl⟩ := step_get hs
    exact Or.inl ⟨op', hk, rfl⟩
  | answer j node env stamp =>
    obtain ⟨op, -, rfl⟩ := step_answer hs
    exact Or.inl ⟨op', hk, rfl⟩
  | failRead j node err =>
    obtain rfl := Option.some.inj hs
    exact Or.inl ⟨op', hk, rfl⟩

/-- The ids of the writes that a list of events issues. -/
def issuedIDs (es : List ClusterEvent) : List ℕ :=
  es.filterMap fun
    | .issue i _ _ _ => some i
    | _ => none

theorem mem_issuedIDs {es : List ClusterEvent} (h : exec cl.step s es = some t) {m : ℕ}
    {op : WriteOp} (hm : t.writes m = some op) :
    (∃ op, s.writes m = some op) ∨ m ∈ issuedIDs es := by
  induction es generalizing s with
  | nil =>
    obtain rfl := Option.some.inj h
    exact Or.inl ⟨op, hm⟩
  | cons e es ih =>
    obtain ⟨u, hu, ht⟩ := Option.bind_eq_some_iff.1 h
    rcases ih ht with ⟨op', hop'⟩ | hmem
    · rcases write_of_step hu hop' with ⟨op, hop, -⟩ | ⟨_, _, _, rfl, -⟩
      · exact Or.inl ⟨op, hop⟩
      · exact Or.inr (List.mem_filterMap.2 ⟨_, List.mem_cons_self, rfl⟩)
    · obtain ⟨e', he', hm'⟩ := List.mem_filterMap.1 hmem
      exact Or.inr (List.mem_filterMap.2 ⟨e', List.mem_cons_of_mem _ he', hm'⟩)

/-! ## The invariant -/

variable (cl) in
/-- A write as its coordinator sends it out, with at most one response of each replica. -/
structure Planned (op : WriteOp) : Prop where
  prefList : cl.ring.getPreferenceList op.plan.key cl.quorumConfig.N = .ok op.plan.prefList
  clock : ValidClock op.plan.sibling
  noTTL : op.plan.sibling.expiresAt = 0
  nodup : (op.responses.map WriteResponse.nodeID).Nodup
  subset : ∀ resp ∈ op.responses, resp.nodeID ∈ op.plan.prefList

variable (cl) in
/-- A read as its coordinator sends it out, with at most one response of each replica. -/
structure ReadPlanned (op : ReadOp) : Prop where
  prefList : cl.ring.getPreferenceList op.key cl.quorumConfig.N = .ok op.prefList
  nodup : (op.answers.map ReadResponse.nodeID).Nodup
  subset : ∀ resp ∈ op.answers, resp.nodeID ∈ op.prefList

/-- A replica write carries the sibling of a write and will store what reconciliation with the
record it has read gives. -/
structure Justified (writes : ℕ → Option WriteOp) (tr : Transfer) : Prop where
  write : ∃ op, writes tr.op = some op ∧ op.plan.key = tr.key ∧
    tr.sibling.view = op.plan.sibling.view
  noTTL : tr.sibling.expiresAt = 0
  data : ∃ all, tr.seen.stored tr.key = .ok all ∧
    encodeSiblingSet (reconcileSiblings (unexpired tr.env.readNow all) [tr.sibling]) = .ok tr.data

variable (cl) in
/-- What holds in every state: records hold only siblings of writes, and those of the replicas that
acknowledged a write cover it. -/
structure Sound (s : ClusterState) : Prop where
  writes : ∀ i op, s.writes i = some op → cl.Planned op
  reads : ∀ j op, s.reads j = some op → cl.ReadPlanned op
  transfers : ∀ u tr, s.transfers u = some tr → Justified s.writes tr
  stores : ∀ n k set, (s.stores n).stored k = .ok set → ∀ x ∈ set, x.expiresAt = 0 ∧ s.Issued k x
  acked : ∀ i op n, s.writes i = some op → op.Acked n → ∀ set,
    (s.stores n).stored op.plan.key = .ok set → Tracked ValidClock set op.plan.sibling.vclock

theorem sound_init (opts : NodeID → StorageOptions) : cl.Sound (init opts) where
  writes i op h := by cases h
  reads j op h := by cases h
  transfers u tr h := by cases h
  stores n k set h x hx := by
    obtain rfl : set = [] := (Except.ok.inj h).symm
    cases hx
  acked i op n h := by cases h

theorem Justified.mono {tr : Transfer} (h : Justified s.writes tr) (he : s.Extends t) :
    Justified t.writes tr := by
  obtain ⟨⟨op, hop, hkey, hview⟩, hnt, hdata⟩ := h
  obtain ⟨op', hop', hp, -⟩ := he _ op hop
  exact ⟨⟨op', hop', by rw [hp, hkey], by rw [hp, hview]⟩, hnt, hdata⟩

/-- One more response, of a replica of the preference list that has not responded yet. -/
theorem one_each_append {α : Type} {f : α → NodeID} {l : List α} {prefList : List NodeID} {x : α}
    (hnodup : (l.map f).Nodup) (hsub : ∀ y ∈ l, f y ∈ prefList)
    (hx : f x ∈ prefList ∧ f x ∉ l.map f) :
    ((l ++ [x]).map f).Nodup ∧ ∀ y ∈ l ++ [x], f y ∈ prefList := by
  refine ⟨?_, fun y hy => ?_⟩
  · rw [List.map_append, List.map_singleton, ← List.concat_eq_append]
    exact hnodup.concat hx.2
  · rcases List.mem_append.1 hy with hy | hy
    · exact hsub y hy
    · rw [List.mem_singleton.1 hy]
      exact hx.1

theorem Planned.respond {op : WriteOp} (h : cl.Planned op) (resp : WriteResponse) :
    cl.Planned (op.respond resp) := by
  unfold WriteOp.respond
  split_ifs with hc
  · obtain ⟨hnodup, hsub⟩ := one_each_append h.nodup h.subset hc
    exact ⟨h.prefList, h.clock, h.noTTL, hnodup, hsub⟩
  · exact h

theorem ReadPlanned.respond {op : ReadOp} (h : cl.ReadPlanned op) (resp : ReadResponse) :
    cl.ReadPlanned (op.respond resp) := by
  unfold ReadOp.respond
  split_ifs with hc
  · obtain ⟨hnodup, hsub⟩ := one_each_append h.nodup h.subset hc
    exact ⟨h.prefList, hnodup, hsub⟩
  · exact h

/-- A new write, with nothing acknowledged yet. -/
theorem Sound.issue (h : cl.Sound s) {i : ℕ} (hnone : s.writes i = none) {op : WriteOp}
    (hplan : cl.Planned op) (hresp : op.responses = []) :
    cl.Sound { s with writes := Function.update s.writes i (some op) } := by
  have hext := extends_issue hnone op
  refine ⟨fun k op' hk => ?_, h.reads, fun u tr htr => (h.transfers u tr htr).mono hext,
    fun n k set hset x hx => ?_, fun k op' n hk hn => ?_⟩
  · rcases update_eq_some hk with ⟨-, hk⟩ | hk
    · exact Option.some.inj hk ▸ hplan
    · exact h.writes k op' hk
  · exact ⟨(h.stores n k set hset x hx).1, (h.stores n k set hset x hx).2.mono hext⟩
  · rcases update_eq_some hk with ⟨-, hk⟩ | hk
    · rw [← Option.some.inj hk, WriteOp.Acked, hresp] at hn
      cases hn
    · exact h.acked k op' n hk hn

/-- A response may be recorded if an acknowledging replica covers the write. -/
theorem Sound.respond (h : cl.Sound s) {i : ℕ} {resp : WriteResponse}
    (hack : resp.error = none → ∀ op, s.writes i = some op → ∀ set,
      (s.stores resp.nodeID).stored op.plan.key = .ok set →
        Tracked ValidClock set op.plan.sibling.vclock) : cl.Sound (s.respond i resp) := by
  have hext := extends_respond s i resp
  refine ⟨fun k op' hk => ?_, h.reads, fun u tr htr => (h.transfers u tr htr).mono hext,
    fun n k set hset x hx => ?_, fun k op' n hk hn set hset => ?_⟩
  · obtain ⟨op, hop, rfl | ⟨-, rfl⟩⟩ := writes_respond hk
    · exact h.writes k op' hop
    · exact (h.writes k op hop).respond resp
  · exact ⟨(h.stores n k set hset x hx).1, (h.stores n k set hset x hx).2.mono hext⟩
  · obtain ⟨op, hop, rfl | ⟨rfl, rfl⟩⟩ := writes_respond hk
    · exact h.acked k op' n hop hn set hset
    · rw [WriteOp.plan_respond] at hset ⊢
      rcases WriteOp.acked_of_respond hn with hn | rfl
      · exact h.acked k op n hop hn set hset
      · exact hack rfl op hop set hset

theorem Sound.drop (h : cl.Sound s) (u : ℕ) : cl.Sound (s.drop u) := by
  refine ⟨h.writes, h.reads, fun v tr hv => ?_, h.stores, h.acked⟩
  rcases update_eq_some hv with ⟨-, hv⟩ | hv
  · cases hv
  · exact h.transfers v tr hv

theorem stored_store (s : ClusterState) (tr : Transfer) (n : NodeID) (k : Bytes) :
    ((s.store tr).stores n).stored k =
      if n = tr.node ∧ k = tr.key then decodeSiblingSet tr.data else (s.stores n).stored k := by
  unfold ClusterState.store
  by_cases hn : n = tr.node
  · subst hn
    by_cases hk : k = tr.key
    · subst hk
      simp only [Function.update_self, and_self, if_true]
      exact Storage.stored_insert_self _ _ _
    · rw [if_neg fun h => hk h.2]
      simp only [Function.update_self]
      exact Storage.stored_insert_of_ne _ _ (Ne.symm hk)
  · rw [if_neg fun h => hn h.1]
    simp only [Function.update_of_ne hn]

/-- What an atomic replica write stores: the present record reconciled with its sibling. -/
theorem Sound.record (h : cl.Sound s) {u : ℕ} {tr : Transfer} (htr : s.transfers u = some tr)
    (hatomic : (s.stores tr.node).db.get? tr.key = tr.seen.db.get? tr.key) :
    ∃ all, (s.stores tr.node).stored tr.key = .ok all ∧
      ∀ set, decodeSiblingSet tr.data = .ok set → set = reconcileSiblings all [tr.sibling] := by
  obtain ⟨all, hall, henc⟩ := (h.transfers u tr htr).data
  rw [← Storage.stored_congr hatomic] at hall
  rw [unexpired_of_noTTL fun x hx => (h.stores _ _ all hall x hx).1] at henc
  exact ⟨all, hall, fun set hset => eq_of_decodeSiblingSet henc hset⟩

theorem Sound.validClock (h : cl.Sound s) {u : ℕ} {tr : Transfer} (htr : s.transfers u = some tr) :
    ∀ x ∈ [tr.sibling], ValidClock x := by
  obtain ⟨op, hop, -, hview⟩ := (h.transfers u tr htr).write
  intro x hx
  rw [List.mem_singleton.1 hx]
  exact (h.writes _ op hop).clock.of_view hview.symm

theorem Sound.store (h : cl.Sound s) {u : ℕ} {tr : Transfer} (htr : s.transfers u = some tr)
    (hatomic : (s.stores tr.node).db.get? tr.key = tr.seen.db.get? tr.key) :
    cl.Sound (s.store tr) := by
  obtain ⟨all, hall, hset⟩ := h.record htr hatomic
  obtain ⟨op, hop, hkey, hview⟩ := (h.transfers u tr htr).write
  refine ⟨h.writes, h.reads, h.transfers, fun n k set hs x hx => ?_, fun i op' n hi hn set hs => ?_⟩
  · rw [stored_store] at hs
    split_ifs at hs with hc
    · rw [hset set hs] at hx
      rcases mem_of_mem_reconcile hx with hx | hx
      · rw [List.mem_singleton.1 hx]
        exact ⟨(h.transfers u tr htr).noTTL, tr.op, op, hop, by rw [hkey, hc.2], hview⟩
      · rw [hc.2]
        exact h.stores tr.node tr.key all hall x hx
    · exact h.stores n k set hs x hx
  · rw [stored_store] at hs
    split_ifs at hs with hc
    · rw [hset set hs]
      refine tracks_reconcile_old printsFaithfully_validClock (h.validClock htr) ?_
      refine h.acked i op' n hi hn all ?_
      rw [hc.1, hc.2, hall]
    · exact h.acked i op' n hi hn set hs

/-- After a replica write the record covers the write it was made for. -/
theorem Sound.covers_store (h : cl.Sound s) {u : ℕ} {tr : Transfer}
    (htr : s.transfers u = some tr)
    (hatomic : (s.stores tr.node).db.get? tr.key = tr.seen.db.get? tr.key) {op : WriteOp}
    (hop : s.writes tr.op = some op) {set : SiblingSet}
    (hs : ((s.store tr).stores tr.node).stored op.plan.key = .ok set) :
    Tracked ValidClock set op.plan.sibling.vclock := by
  obtain ⟨all, -, hset⟩ := h.record htr hatomic
  obtain ⟨op', hop', hkey, hview⟩ := (h.transfers u tr htr).write
  obtain rfl : op' = op := Option.some.inj (hop'.symm.trans hop)
  rw [stored_store, if_pos ⟨rfl, hkey⟩] at hs
  rw [hset set hs]
  exact (tracks_reconcile_new printsFaithfully_validClock (h.validClock htr)
    List.mem_cons_self).of_le (le_of_view hview.symm)

/-- A change to the reads alone. -/
theorem Sound.withReads (h : cl.Sound s) {reads : ℕ → Option ReadOp}
    (hr : ∀ j op, reads j = some op → cl.ReadPlanned op) : cl.Sound { s with reads := reads } :=
  ⟨h.writes, hr, fun u tr htr => h.transfers u tr htr, h.stores, h.acked⟩

theorem Sound.respondRead (h : cl.Sound s) (j : ℕ) (resp : ReadResponse) :
    cl.Sound (s.respondRead j resp) := by
  refine h.withReads fun k op' hk => ?_
  rcases update_eq_some hk with ⟨-, hk⟩ | hk
  · obtain ⟨op, hop, rfl⟩ := Option.map_eq_some_iff.1 hk
    exact (h.reads j op hop).respond resp
  · exact h.reads k op' hk

theorem planned_of_plan {coordinator : MemberID} {times : WriteTimes} {call : WriteCall}
    {plan : WritePlan} (hplan : (cl.coordinator coordinator).plan times call = .ok plan)
    (hids : call.context.ValidIDs) (httl : call.NoTTL) : cl.Planned ⟨coordinator, plan, []⟩ := by
  obtain ⟨hkey, hsib, hpref⟩ := Coordinator.plan_eq_ok hplan
  refine ⟨?_, ?_, ?_, List.nodup_nil, fun r hr => absurd hr List.not_mem_nil⟩
  · rw [hkey]
    exact hpref
  · rw [ValidClock, hsib, Coordinator.vclock_newSibling]
    exact hids.tick coordinator.2 _
  · rw [hsib]
    cases call with
    | put key value context ttlSeconds =>
      exact if_neg (Int64.not_lt.2 httl)
    | delete key context => rfl

/-- One step keeps the invariant. -/
theorem Sound.step (h : cl.Sound s) (hplain : s.Plain e) (hatomic : s.Atomic e)
    (hs : cl.step s e = some t) : cl.Sound t := by
  cases e with
  | issue i coordinator times call =>
    obtain ⟨hnone, plan, hplan, rfl⟩ := step_issue hs
    exact h.issue hnone (planned_of_plan hplan hplain.1 hplain.2) rfl
  | receive u i node stamp env =>
    obtain ⟨key, sibling, data, harr, hprep, rfl⟩ := step_receive hs
    obtain ⟨all, hall, henc⟩ := Storage.prepare_of_noPrune hprep (hplain _ harr)
    obtain ⟨op, hop, hsib⟩ := Option.bind_eq_some_iff.1 harr
    have hj : Justified s.writes ⟨i, node, key, sibling, env, s.stores node, data⟩ := by
      cases stamp with
      | none =>
        rw [WriteOp.arriving, Option.ite_none_right_eq_some] at hsib
        obtain ⟨rfl, rfl⟩ := Prod.mk.inj (Option.some.inj hsib.2)
        exact ⟨⟨op, hop, rfl, rfl⟩, (h.writes i op hop).noTTL, all, hall, henc⟩
      | some stamp =>
        obtain ⟨rfl, rfl⟩ := Prod.mk.inj (Option.some.inj hsib)
        exact ⟨⟨op, hop, rfl, view_wire stamp _⟩, rfl, all, hall, henc⟩
    refine ⟨h.writes, h.reads, fun v tr hv => ?_, h.stores, h.acked⟩
    rcases update_eq_some hv with ⟨-, hv⟩ | hv
    · exact Option.some.inj hv ▸ hj
    · exact h.transfers v tr hv
  | commit u ack =>
    obtain ⟨tr, htr, rfl | rfl | rfl⟩ := step_commit hs
    · exact (h.store htr (hatomic tr htr)).drop u
    · refine ((h.store htr (hatomic tr htr)).drop u).respond fun _ op hop set hset => ?_
      exact h.covers_store htr (hatomic tr htr) hop hset
    · exact h.drop u
  | fail i node err =>
    obtain rfl := Option.some.inj hs
    exact h.respond nofun
  | get j coordinator key =>
    obtain ⟨-, prefList, hplan, rfl⟩ := step_get hs
    refine h.withReads fun k op hk => ?_
    rcases update_eq_some hk with ⟨-, hk⟩ | hk
    · obtain rfl := Option.some.inj hk
      exact ⟨Coordinator.planGet_eq_ok hplan, List.nodup_nil,
        fun r hr => absurd hr List.not_mem_nil⟩
    · exact h.reads k op hk
  | answer j node env stamp =>
    obtain ⟨op, -, rfl⟩ := step_answer hs
    exact h.respondRead j _
  | failRead j node err =>
    obtain rfl := Option.some.inj hs
    exact h.respondRead j _

/-- The invariant holds at the end of every run that meets the conditions. -/
theorem sound_of_runs {ok : ClusterState → ClusterEvent → Prop}
    (hok : ∀ s e, ok s e → s.Plain e ∧ s.Atomic e) (h : cl.Sound s) (hrun : Runs cl.step ok s t) :
    cl.Sound t :=
  hrun.invariant cl.Sound h fun s e _ hinv hc => hinv.step (hok s e hc).1 (hok s e hc).2

end Cluster

end GoQuorum
