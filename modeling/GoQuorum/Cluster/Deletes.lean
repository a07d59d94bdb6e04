import GoQuorum.Cluster.Reads

/-!
# Reads after a delete

A peer answers a read with `Storage.Get`, which hides tombstones, while the coordinator reads its own
store with `GetRaw`.  So a read quorum does see a `Delete` that a write quorum has acknowledged, but
it may not show: the deleted value can come back (`deleted_value_returned`).

A `Get` returns nothing older than the tombstone if its coordinator reads the tombstone from its own
store, or if only replicas that took the tombstone answer and no older version has come back to them
(`delete_honoured`).
-/

namespace GoQuorum

open Lib Lib.Versions

namespace Cluster

open ClusterState

variable {sum64 : Bytes → UInt64} {cl : Cluster sum64} {s t s₁ s₂ : ClusterState} {e : ClusterEvent}

/-! ## Replicas without older siblings -/

instance (op : WriteOp) (n : NodeID) : Decidable (op.Acked n) :=
  inferInstanceAs (Decidable (_ ∈ op.responses))

/-- No replica that has acknowledged the `i`-th write stores an older sibling. -/
def NotStale (i : ℕ) (s : ClusterState) : ClusterEvent → Prop
  | .commit t _ => ∀ tr ∈ s.transfers t, ∀ w ∈ s.writes i, tr.key = w.plan.key → w.Acked tr.node →
      tr.sibling.vclock.happensBefore w.plan.sibling.vclock = false
  | _ => True

instance (i : ℕ) (s : ClusterState) : (e : ClusterEvent) → Decidable (NotStale i s e)
  | .commit t _ => inferInstanceAs (Decidable (∀ tr ∈ s.transfers t, _))
  | .issue .. | .receive .. | .fail .. | .get .. | .answer .. | .failRead .. => isTrue trivial

/-- The record has nothing older than the write. -/
def FreeOfOlder (w : WriteOp) (set : SiblingSet) : Prop :=
  ∀ x ∈ set, ¬ x.vclock < w.plan.sibling.vclock

/-- The replicas that have acknowledged the `i`-th write hold nothing older than it. -/
def Purged (i : ℕ) (s : ClusterState) : Prop :=
  ∀ w, s.writes i = some w → ∀ n, w.Acked n → ∀ set,
    (s.stores n).stored w.plan.key = .ok set → FreeOfOlder w set

theorem Purged.respond {i k : ℕ} {resp : WriteResponse} (h : Purged i s)
    (hack : resp.error = none → ∀ w, s.writes k = some w → ∀ set,
      (s.stores resp.nodeID).stored w.plan.key = .ok set → FreeOfOlder w set) :
    Purged i (s.respond k resp) := by
  intro w' hw' n hn set hset
  obtain ⟨w, hw, rfl | ⟨rfl, rfl⟩⟩ := writes_respond hw'
  · exact h w' hw n hn set hset
  · rw [WriteOp.plan_respond] at hset
    unfold FreeOfOlder
    rw [WriteOp.plan_respond]
    rcases WriteOp.acked_of_respond hn with hn | rfl
    · exact h w hw n hn set hset
    · exact hack rfl w hw set hset

theorem Purged.store {i u : ℕ} {tr : Transfer} (h : Purged i s) (hsound : cl.Sound s)
    (htr : s.transfers u = some tr)
    (hatomic : (s.stores tr.node).db.get? tr.key = tr.seen.db.get? tr.key)
    (hstale : ∀ w, s.writes i = some w → tr.key = w.plan.key → w.Acked tr.node →
      ¬ tr.sibling.vclock < w.plan.sibling.vclock) : Purged i (s.store tr) := by
  obtain ⟨all, hall, hrec⟩ := hsound.record htr hatomic
  intro w hw n hn set hset x hx
  rw [stored_store] at hset
  split_ifs at hset with hc
  · rw [hrec set hset] at hx
    rcases mem_of_mem_reconcile hx with hx | hx
    · rw [List.mem_singleton.1 hx]
      exact hstale w hw hc.2.symm (hc.1 ▸ hn)
    · exact h w hw n hn all (by rw [hc.1, hc.2, hall]) x hx
  · exact h w hw n hn set hset x hx

/-- The record that a replica write leaves has nothing older than the write it was made for. -/
theorem freeOfOlder_store {u : ℕ} {tr : Transfer} {w : WriteOp} {set : SiblingSet}
    (hsound : cl.Sound s) (htr : s.transfers u = some tr)
    (hatomic : (s.stores tr.node).db.get? tr.key = tr.seen.db.get? tr.key)
    (hw : s.writes tr.op = some w)
    (hset : ((s.store tr).stores tr.node).stored w.plan.key = .ok set) : FreeOfOlder w set := by
  obtain ⟨all, -, hrec⟩ := hsound.record htr hatomic
  obtain ⟨w', hw', hkey, hview⟩ := (hsound.transfers u tr htr).write
  obtain rfl : w' = w := Option.some.inj (hw'.symm.trans hw)
  rw [stored_store, if_pos ⟨rfl, hkey⟩] at hset
  intro x hx hlt
  rw [hrec set hset] at hx
  exact not_lt_of_mem_reconcile hx (hlt.trans_le (le_of_view hview.symm))

theorem Purged.step {i : ℕ} (h : Purged i s) (hsound : cl.Sound s) (hatomic : s.Atomic e)
    (hstale : NotStale i s e) (hs : cl.step s e = some t) : Purged i t := by
  cases e with
  | issue k coordinator times call =>
    obtain ⟨-, plan, -, rfl⟩ := step_issue hs
    intro w hw n hn
    rcases update_eq_some hw with ⟨-, hw⟩ | hw
    · obtain rfl := Option.some.inj hw
      cases hn
    · exact h w hw n hn
  | receive u k node stamp env =>
    obtain ⟨key, sibling, data, -, -, rfl⟩ := step_receive hs
    exact h
  | commit u ack =>
    obtain ⟨tr, htr, ht⟩ := step_commit hs
    have hstore : Purged i (s.store tr) := by
      refine h.store hsound htr (hatomic tr htr) fun w hw hkey hack hlt => ?_
      have hfalse := hstale tr htr w hw hkey hack
      rw [VectorClock.happensBefore_iff.2 hlt] at hfalse
      cases hfalse
    obtain rfl | rfl | rfl := ht
    · exact hstore
    · refine Purged.respond (s := (s.store tr).drop u) hstore fun _ w hw set hset => ?_
      exact freeOfOlder_store hsound htr (hatomic tr htr) hw hset
    · exact h
  | fail k node err =>
    obtain rfl := Option.some.inj hs
    exact h.respond nofun
  | get k coordinator key =>
    obtain ⟨-, prefList, -, rfl⟩ := step_get hs
    exact h
  | answer k node env stamp =>
    obtain ⟨op, -, rfl⟩ := step_answer hs
    exact h
  | failRead k node err =>
    obtain rfl := Option.some.inj hs
    exact h

/-- The records a read sees on replicas that had acknowledged the `i`-th write in `s₁`. -/
def Cleared (i : ℕ) (s₁ _s : ClusterState) (key : Bytes) (n : NodeID) (set : SiblingSet) : Prop :=
  ∀ w, s₁.writes i = some w → w.plan.key = key → w.Acked n → FreeOfOlder w set

theorem shows_cleared {i j : ℕ} {opts : NodeID → StorageOptions}
    (h₁ : Runs cl.step (fun s e => s.Plain e ∧ s.Atomic e ∧ NotStale i s e) (init opts) s₁)
    (hnew : s₁.reads j = none)
    (h₂ : Runs cl.step (fun s e => s.Plain e ∧ s.Atomic e ∧ NotStale i s e) s₁ s₂) :
    Shows (Cleared i s₁) j s₂ := by
  have step : ∀ s e t, (cl.Sound s ∧ Purged i s) →
      (s.Plain e ∧ s.Atomic e ∧ NotStale i s e) → cl.step s e = some t →
      cl.Sound t ∧ Purged i t := fun s e t h hc hs =>
    ⟨h.1.step hc.1 hc.2.1 hs, h.2.step h.1 hc.2.1 hc.2.2 hs⟩
  have hinv₁ : cl.Sound s₁ ∧ Purged i s₁ :=
    h₁.invariant _ ⟨sound_init opts, fun w hw => by cases hw⟩ step
  have hinit : (cl.Sound s₁ ∧ Purged i s₁) ∧ s₁.Extends s₁ ∧ Shows (Cleared i s₁) j s₁ := by
    refine ⟨hinv₁, extends_of_eq rfl, fun op hop => ?_⟩
    rw [hnew] at hop
    cases hop
  refine (h₂.invariant (fun s => (cl.Sound s ∧ Purged i s) ∧ s₁.Extends s ∧
    Shows (Cleared i s₁) j s) hinit ?_).2.2
  rintro s e t ⟨hinv, hext, hshows⟩ hc hs
  refine ⟨step s e t hinv hc hs, hext.trans (extends_step hs),
    hshows.step hinv.1 hc.1 hs (fun _ _ _ hQ => hQ) ?_⟩
  intro k n set hset w hw hkey hack
  obtain ⟨w', hw', hplan, hacks⟩ := hext i w hw
  have hfree := hinv.2 w' hw' n (hacks n hack) set (by rw [hplan, hkey, hset])
  unfold FreeOfOlder at hfree
  rwa [hplan] at hfree

/-- What a `Get` returns is among the maximal siblings it has gathered. -/
theorem mem_of_getResult {r : ReadOp} {arrivals : List ReadResponse} {sibs : List Sibling}
    (h : cl.getResult r arrivals = .ok sibs) {sib : Sibling} (hsib : sib ∈ sibs) :
    sib ∈ cl.gathered arrivals ∧ ∀ y ∈ cl.gathered arrivals, ¬ sib.vclock < y.vclock := by
  by_cases hR : cl.quorumConfig.R ≤ readSuccesses (cl.collected arrivals)
  · rw [getResult, Coordinator.finishGet_of_quorum hR] at h
    dsimp only at h
    split_ifs at h
    obtain rfl := Except.ok.inj h
    exact mem_of_mem_maximals (List.mem_filter.1 hsib).1
  · obtain ⟨q, hq⟩ := getResult_of_no_quorum (r := r) hR
    rw [hq] at h
    cases h

variable (cl) in
/-- The `i`-th write is a `Delete` that has returned without an error. -/
def DeleteReturned (s : ClusterState) (i : ℕ) (w : WriteOp) : Prop :=
  s.writes i = some w ∧ w.plan.sibling.tombstone = true ∧ cl.deleteResult w = some (.ok ())

end Cluster

open Cluster ClusterState

/-- After a `Delete` has returned, a later `Get` returns nothing older than the tombstone, provided
that the coordinator of the `Get` has acknowledged the `Delete` and hears from itself, or that it
hears only from replicas that have acknowledged the `Delete` and none of them stores an older sibling
afterwards. -/
theorem delete_honoured {sum64 : Bytes → UInt64} (cl : Cluster sum64)
    (opts : NodeID → StorageOptions) (s₁ s₂ : ClusterState) (i j : ℕ) (w : WriteOp) (r : ReadOp)
    (arrivals : List ReadResponse)
    (h₁ : Runs cl.step (fun s e => s.Plain e ∧ s.Atomic e) (init opts) s₁)
    (hdel : cl.DeleteReturned s₁ i w) (hnew : s₁.reads j = none)
    (h₂ : Runs cl.step (fun s e => s.Plain e ∧ s.Atomic e) s₁ s₂) (hr : s₂.reads j = some r)
    (hkey : r.key = w.plan.key) (harr : arrivals.Subperm r.answers)
    (hcond : (w.Acked r.coordinator ∧
        ∃ resp ∈ cl.collected arrivals, resp.nodeID = r.coordinator ∧ resp.error = none) ∨
      ((∀ resp ∈ cl.collected arrivals, resp.error = none → w.Acked resp.nodeID) ∧
        Runs cl.step (fun s e => s.Plain e ∧ s.Atomic e ∧ NotStale i s e) (init opts) s₁ ∧
        Runs cl.step (fun s e => s.Plain e ∧ s.Atomic e ∧ NotStale i s e) s₁ s₂))
    (sibs : List Sibling) (hget : cl.getResult r arrivals = .ok sibs) (sib : Sibling)
    (hsib : sib ∈ sibs) : sib.vclock.happensBefore w.plan.sibling.vclock = false := by
  obtain ⟨hgathered, hmax⟩ := mem_of_getResult hget hsib
  rw [Bool.eq_false_iff, Ne, VectorClock.happensBefore_iff]
  intro hlt
  rcases hcond with ⟨hack, resp, hresp, hnode, herr⟩ | ⟨hacks, hrun₁, hrun₂⟩
  · -- the coordinator's own answer holds a sibling at or above the tombstone
    have hsound₁ := sound_of_runs (fun _ _ h => h) (sound_init opts) h₁
    obtain ⟨-, -, hshows⟩ := shows_durable (fun _ _ h => h) hsound₁ hnew h₂
    obtain ⟨set, ⟨-, hcovers⟩, hview⟩ :=
      hshows r hr resp ((collected_subperm harr).subset hresp) herr
    obtain ⟨x, hx, hle⟩ := hcovers i w hdel.1 hkey.symm (hnode ▸ hack)
    rw [visible, if_pos hnode] at hview
    have hmem : x.view ∈ resp.siblings.map Sibling.view := hview ▸ List.mem_map_of_mem hx
    obtain ⟨y, hy, hxy⟩ := List.mem_map.1 hmem
    exact hmax y (List.mem_flatMap.2 ⟨resp, hresp, hy⟩)
      (hlt.trans_le (hle.trans (le_of_view hxy.symm)))
  · -- every answer comes from a replica that holds nothing older than the tombstone
    have hshows := shows_cleared hrun₁ hnew hrun₂
    obtain ⟨resp, hresp, hx⟩ := List.mem_flatMap.1 hgathered
    have herr := error_of_mem_siblings hx
    obtain ⟨set, hfree, hview⟩ := hshows r hr resp ((collected_subperm harr).subset hresp) herr
    have hmem : sib.view ∈ resp.siblings.map Sibling.view := List.mem_map_of_mem hx
    rw [hview] at hmem
    obtain ⟨y, hy, hxy⟩ := List.mem_map.1 hmem
    exact hfree w hdel.1 hkey.symm (hacks resp hresp herr) y (mem_of_mem_visible hy)
      ((le_of_view hxy).trans_lt hlt)

/-- A `Delete` of the key `k`, at time 100. -/
def deleteEvent (i : ℕ) (coordinator : MemberID) (context : VectorClock) : ClusterEvent :=
  .issue i coordinator ⟨100, 100, 100⟩ (.delete [107] context)

/-- Two `Put`s that reach `n3`, and a `Delete` of the first that the other replicas take. -/
def deleteOnTwo : List ClusterEvent :=
  putEvent 0 n3 1 VectorClock.new :: deliverTo 0 n3 [n3] ++
    putEvent 1 n2 2 VectorClock.new :: deliverTo 1 n2 [n3] ++
    deleteEvent 2 n1 (VectorClock.new.set 100 n3 1) :: deliverTo 2 n1 [n1, n2] ++
    [.fail 2 n3 (.remote n3 .unreachable)]

set_option maxRecDepth 4000 in
theorem delete_honoured_by_coordinator :
    ∃ (w : WriteOp) (r : ReadOp),
      sampleCluster.deleteResult w = some (.ok ()) ∧
      sampleCluster.getResult r r.answers = .ok [versionBy n2 1 2] ∧
      (versionBy n2 1 2).vclock.happensBefore w.plan.sibling.vclock = false := by
  let s₁ := stateAfter sampleCluster.step sampleStart deleteOnTwo
  let s₂ := stateAfter sampleCluster.step s₁ (getFrom n1 [n1, n3])
  obtain ⟨w, hw, hdel⟩ := Option.map_eq_some_iff.1
    (by decide +kernel : (s₁.writes 2).map (fun w => (w.plan.key, w.plan.sibling.tombstone,
      sampleCluster.deleteResult w, decide (w.Acked n1))) =
        some ([107], true, some (.ok ()), true))
  obtain ⟨r, hr, hget⟩ := Option.map_eq_some_iff.1
    (by decide +kernel : (s₂.reads 0).map (fun r => (r.key, r.coordinator,
      sampleCluster.getResult r r.answers,
      decide (∃ resp ∈ sampleCluster.collected r.answers, resp.nodeID = n1 ∧ resp.error = none))) =
        some ([107], n1, .ok [versionBy n2 1 2], true))
  simp only [Prod.mk.injEq, decide_eq_true_eq] at hdel hget
  obtain ⟨hwkey, htomb, hdel, hack⟩ := hdel
  obtain ⟨hrkey, hcoord, hres, hown⟩ := hget
  refine ⟨w, r, hdel, hres, delete_honoured sampleCluster (fun _ => defaultStorageOptions) s₁ s₂ 2 0
    w r r.answers ?_ ⟨hw, htomb, hdel⟩ ?_ ?_ hr (hrkey.trans hwkey.symm) (List.Subperm.refl _)
    (Or.inl (hcoord ▸ ⟨hack, hown⟩)) _ hres _ List.mem_cons_self⟩
  · exact Runs.stateAfter (by decide +kernel)
  · exact Option.isNone_iff_eq_none.1 (by decide +kernel)
  · exact Runs.stateAfter (by decide +kernel)

set_option maxRecDepth 4000 in
/-- The `Delete` returns, and then a `Get` by the replica that missed it returns the deleted value,
although the other replica it hears from has taken the tombstone. -/
theorem deleted_value_returned :
    ∃ (s₁ s₂ : ClusterState) (w : WriteOp) (r : ReadOp) (sibs : List Sibling),
      Runs sampleCluster.step (fun s e => s.Plain e ∧ s.Atomic e) sampleStart s₁ ∧
      sampleCluster.DeleteReturned s₁ 2 w ∧ s₁.reads 0 = none ∧
      Runs sampleCluster.step (fun s e => e.NoWrite w.plan.key ∧ s.Plain e ∧ s.Atomic e) s₁ s₂ ∧
      s₂.reads 0 = some r ∧ r.key = w.plan.key ∧
      sampleCluster.getResult r r.answers = .ok sibs ∧
      ∃ sib ∈ sibs, sib.vclock.happensBefore w.plan.sibling.vclock = true := by
  let s₁ := stateAfter sampleCluster.step sampleStart deleteOnTwo
  let s₂ := stateAfter sampleCluster.step s₁ (getFrom n3 [n3, n1])
  obtain ⟨w, hw, hdel⟩ := Option.map_eq_some_iff.1
    (by decide +kernel : (s₁.writes 2).map (fun w => (w.plan.key, w.plan.sibling.tombstone,
      sampleCluster.deleteResult w, w.plan.sibling.vclock)) =
      some ([107], true, some (.ok ()), (VectorClock.new.set 100 n3 1).set 100 n1 1))
  obtain ⟨r, hr, hget⟩ := Option.map_eq_some_iff.1
    (by decide +kernel : (s₂.reads 0).map (fun r => (r.key, sampleCluster.getResult r r.answers)) =
        some ([107], .ok [versionBy n2 1 2, versionBy n3 1 1]))
  simp only [Prod.mk.injEq] at hdel hget
  obtain ⟨hwkey, htomb, hdel, hclock⟩ := hdel
  refine ⟨s₁, s₂, w, r, _, Runs.stateAfter (by decide +kernel),
    ⟨hw, htomb, hdel⟩, Option.isNone_iff_eq_none.1 (by decide +kernel), ?_, hr,
    hget.1.trans hwkey.symm, hget.2, versionBy n3 1 1, by simp, ?_⟩
  · rw [hwkey]
    exact Runs.stateAfter (by decide +kernel)
  · rw [hclock]
    decide +kernel

end GoQuorum
