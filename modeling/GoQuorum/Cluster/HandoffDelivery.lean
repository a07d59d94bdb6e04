import GoQuorum.Cluster.ReplicationRefinement

/-!
# Hints reach their replicas

A replay run delivers the hints it has copied with one `RemotePut` after the other, while writes,
repairs and exchanges go on.  A hint counts as delivered when its `RemotePut` has succeeded.  The
invariant `Replays` says that from then on the record of the target covers it.
-/

namespace GoQuorum

open Lib Lib.Versions

/-! ## What replicas hold -/

/-- The record of a node, if it can be read, covers a clock. -/
def Holds (stores : NodeID → Storage) (n : NodeID) (key : Bytes) (c : VectorClock) : Prop :=
  ∀ set, (stores n).stored key = .ok set → Tracked ValidClock set c

theorem Holds.of_le {stores : NodeID → Storage} {n : NodeID} {key : Bytes} {c c' : VectorClock}
    (h : Holds stores n key c) (hle : c' ≤ c) : Holds stores n key c' :=
  fun set hset => (h set hset).of_le hle

namespace Cluster

variable {sum64 : Bytes → UInt64} {cl : Cluster sum64} {a : ClusterState} {u : ℕ} {tr : Transfer}

/-- An atomic replica write keeps what was covered. -/
theorem Sound.holds_store (hsound : cl.Sound a) (htr : a.transfers u = some tr)
    (hatomic : (a.stores tr.node).db.get? tr.key = tr.seen.db.get? tr.key) {n : NodeID} {k : Bytes}
    {c : VectorClock} (h : Holds a.stores n k c) : Holds (a.store tr).stores n k c := by
  obtain ⟨all, hall, hset⟩ := hsound.record htr hatomic
  intro set hs
  rw [stored_store] at hs
  split_ifs at hs with hc
  · rw [hset set hs]
    refine tracks_reconcile_old printsFaithfully_validClock (hsound.validClock htr) (h all ?_)
    rw [hc.1, hc.2, hall]
  · exact h set hs

/-- It covers its sibling. -/
theorem Sound.holds_sibling (hsound : cl.Sound a) (htr : a.transfers u = some tr)
    (hatomic : (a.stores tr.node).db.get? tr.key = tr.seen.db.get? tr.key) :
    Holds (a.store tr).stores tr.node tr.key tr.sibling.vclock := by
  obtain ⟨op, hop, hkey, hview⟩ := (hsound.transfers u tr htr).write
  intro set hs
  rw [← hkey] at hs
  exact (hsound.covers_store htr hatomic hop hs).of_le (le_of_view hview)

end Cluster

/-! ## One step of the hints -/

namespace HandoffState

variable {nodeID : NodeID} {s t : HandoffState}

/-- A replay run can only begin under a number that is not in use. -/
theorem runs_of_snapshot {r : ℕ} {target : NodeID} {now : ℤ}
    (h : s.step nodeID (.snapshot r target now) = some t) : s.runs r = none := by
  simp only [step] at h
  split at h
  · assumption
  · cases h

/-- It only ends when there is nothing left to try. -/
theorem todo_of_writeBack {r : ℕ} {run : ReplayRun} (h : s.step nodeID (.writeBack r) = some t)
    (hrun : s.runs r = some run) : run.todo = [] := by
  simp only [step, hrun] at h
  split_ifs at h with htodo
  exact htodo

/-- A step on one run leaves the others. -/
theorem runs_of_step {e : HandoffEvent} (h : s.step nodeID e = some t) {r : ℕ}
    (hsnapshot : ∀ target now, e ≠ .snapshot r target now) (hattempt : ∀ b, e ≠ .attempt r b)
    (hback : e ≠ .writeBack r) : t.runs r = s.runs r := by
  cases step_cases h with
  | idle => rfl
  | store target key siblings now hne => rfl
  | snapshot i target now =>
    have hr : r ≠ i := by
      rintro rfl
      exact hsnapshot target now rfl
    exact Function.update_of_ne hr _ _
  | attempt i success run h₀ todo htodo hrun =>
    have hr : r ≠ i := by
      rintro rfl
      exact hattempt success rfl
    obtain ⟨-, -, rest, hruns, -⟩ := s.attemptHint_spec i run h₀ todo htodo success
    rw [hruns, Function.update_of_ne hr]
  | writeBack i run hrun htodo =>
    have hr : r ≠ i := by
      rintro rfl
      exact hback rfl
    exact Function.update_of_ne hr _ _

/-- Only a successful delivery is one. -/
theorem delivered_of_step {e : HandoffEvent} (h : s.step nodeID e = some t)
    (hattempt : ∀ r, e ≠ .attempt r true) : t.delivered = s.delivered := by
  cases step_cases h with
  | idle => rfl
  | store target key siblings now hne => rfl
  | snapshot i target now => rfl
  | attempt i success run h₀ todo htodo hrun =>
    cases success with
    | true => exact absurd rfl (hattempt i)
    | false =>
      rw [attemptHint]
      split_ifs with hold hfalse
      · rfl
      · cases hfalse
      · rfl
  | writeBack i run hrun htodo => rfl

/-- A delivery takes the next hint, which is recorded if it succeeds. -/
theorem exists_attempt {r : ℕ} {run : ReplayRun} {h : StoredHint} {todo : List StoredHint}
    (hrun : s.runs r = some run) (htodo : run.todo = h :: todo) (success : Bool) :
    ∃ t, s.step nodeID (.attempt r success) = some t ∧
      (t.delivered = s.delivered ∨
        success = true ∧ t.delivered = s.delivered ++ [(run.target, h)]) := by
  have hstep : ∃ h' todo', ∃ htodo' : run.todo = h' :: todo',
      s.step nodeID (.attempt r success) = some (s.attemptHint r run h' todo' htodo' success) := by
    simp only [step, hrun]
    split
    · rename_i h' todo' htodo'
      exact ⟨h', todo', htodo', rfl⟩
    · rename_i hnil
      rw [htodo] at hnil
      cases hnil
  obtain ⟨h', todo', htodo', hstep⟩ := hstep
  obtain ⟨rfl, rfl⟩ := List.cons.inj (htodo'.symm.trans htodo)
  refine ⟨_, hstep, ?_⟩
  unfold attemptHint
  split_ifs with hold hsuccess
  · exact Or.inl rfl
  · exact Or.inr ⟨hsuccess, rfl⟩
  · exact Or.inl rfl

theorem delivered_storeHints (nodeID : NodeID) (now : NodeID → ℤ) (key : Bytes)
    (siblings : SiblingSet) (s : HandoffState) (responses : List WriteResponse) :
    (s.storeHints nodeID now key siblings responses).delivered = s.delivered ∧
      (s.storeHints nodeID now key siblings responses).runs = s.runs := by
  unfold storeHints
  induction responses generalizing s with
  | nil => exact ⟨rfl, rfl⟩
  | cons resp responses ih =>
    rw [List.foldl_cons]
    split_ifs
    · exact ih (s.storeHint resp.nodeID _)
    · exact ih s

end HandoffState

/-! ## Replays -/

namespace ReplicationState

open Cluster

/-- A `RemotePut` for a replay run sends the hint that the run tries; what it has already sent is
held by the target. -/
structure Replay (s : ReplicationState) (x : ℕ) (snd : Sending) (r : ℕ) : Prop where
  waiting : s.replaying snd.sender r = some x
  progress : ∃ run h todo acked, (s.handoffs snd.sender).runs r = some run ∧
    run.todo = h :: todo ∧ run.target = snd.target ∧ h.hint.key = snd.key ∧
    h.hint.siblings = acked ++ snd.siblings ∧
    ∀ y ∈ acked, Holds s.stores snd.target snd.key y.vclock

/-- A call on a replica has the next sibling of the `RemotePut` it serves. -/
def Served (hd : Handler) (snd : Sending) : Prop :=
  snd.target = hd.node ∧ snd.key = hd.key ∧
    ∃ sib rest stamp, snd.siblings = sib :: rest ∧ hd.sibling = sib.received stamp

/-- Replays are at the hint they try, and what they have delivered is held. -/
structure Replays (s : ReplicationState) : Prop where
  replay : ∀ x snd r, s.sendings x = some snd → snd.caller = .replay r → s.Replay x snd r
  served : ∀ t hd x snd, s.handlers t = some hd → hd.service = .replicate x →
    s.sendings x = some snd → snd.handler = some t → Served hd snd
  delivered : ∀ n, ∀ p ∈ (s.handoffs n).delivered, ∀ y ∈ p.2.hint.siblings,
    Holds s.stores p.1 p.2.hint.key y.vclock

variable {s s' : ReplicationState}

theorem replays_init (opts : NodeID → StorageOptions) : (init opts).Replays :=
  ⟨fun _ _ _ h => (by cases h), fun _ _ _ _ h => (by cases h), fun _ _ h => (by cases h)⟩

theorem Replay.frame {x : ℕ} {snd : Sending} {r : ℕ} (h : s.Replay x snd r)
    (hhandoffs : s'.handoffs = s.handoffs) (hreplaying : s'.replaying = s.replaying)
    (hholds : ∀ n k c, Holds s.stores n k c → Holds s'.stores n k c) : s'.Replay x snd r := by
  obtain ⟨hwait, run, hint, todo, acked, hrun, htodo, htarget, hkey, hsibs, hacked⟩ := h
  rw [← hreplaying] at hwait
  rw [← hhandoffs] at hrun
  exact ⟨hwait, run, hint, todo, acked, hrun, htodo, htarget, hkey, hsibs,
    fun y hy => hholds _ _ _ (hacked y hy)⟩

/-- Fewer requests under way, and stores that hold at least as much. -/
theorem Replays.frame (h : s.Replays)
    (hsendings : ∀ x snd, s'.sendings x = some snd → s.sendings x = some snd)
    (hhandlers : ∀ t hd, s'.handlers t = some hd → s.handlers t = some hd)
    (hhandoffs : s'.handoffs = s.handoffs) (hreplaying : s'.replaying = s.replaying)
    (hholds : ∀ n k c, Holds s.stores n k c → Holds s'.stores n k c) : s'.Replays := by
  refine ⟨fun x snd r hx hr => ?_, fun t hd x snd ht hservice hx => ?_, fun n p hp y hy => ?_⟩
  · exact (h.replay x snd r (hsendings x snd hx) hr).frame hhandoffs hreplaying hholds
  · exact h.served t hd x snd (hhandlers t hd ht) hservice (hsendings x snd hx)
  · rw [hhandoffs] at hp
    exact hholds _ _ _ (h.delivered n p hp y hy)

theorem Replays.endSending (h : s.Replays) (x : ℕ) : (s.setSending x none).Replays := by
  refine h.frame (fun y snd hy => ?_) (fun _ _ ht => ht) rfl rfl fun _ _ _ hc => hc
  rcases update_eq_some hy with ⟨-, hy⟩ | hy
  · cases hy
  · exact hy

theorem Replays.dropHandler (h : s.Replays) (t : ℕ) : (s.setHandler t none).Replays := by
  refine h.frame (fun _ _ hx => hx) (fun u hd hu => ?_) rfl rfl fun _ _ _ hc => hc
  rcases update_eq_some hu with ⟨-, hu⟩ | hu
  · cases hu
  · exact hu

/-- A `RemotePut` that is not for a replay begins. -/
theorem Replays.beginSending (h : s.Replays) {x : ℕ} {snd : Sending}
    (hcaller : ∀ r, snd.caller ≠ .replay r) (hserved : snd.handler = none) :
    (s.setSending x (some snd)).Replays := by
  refine ⟨fun y snd' r hy hr => ?_, fun t hd y snd' ht hservice hy hserved' => ?_, h.delivered⟩
  · rcases update_eq_some hy with ⟨-, hy⟩ | hy
    · obtain rfl := Option.some.inj hy
      exact absurd hr (hcaller r)
    · exact (h.replay y snd' r hy hr).frame rfl rfl fun _ _ _ hc => hc
  · rcases update_eq_some hy with ⟨-, hy⟩ | hy
    · obtain rfl := Option.some.inj hy
      rw [hserved] at hserved'
      cases hserved'
    · exact h.served t hd y snd' ht hservice hy hserved'

/-- A call on the target takes the next request. -/
theorem Replays.serve (h : s.Replays) {t x : ℕ} {snd : Sending} {hd : Handler}
    (hfree : s.handlers t = none) (hsnd : s.sendings x = some snd)
    (hservice : hd.service = .replicate x) (hserved : Served hd snd) :
    ((s.setSending x (some { snd with handler := some t })).setHandler t (some hd)).Replays := by
  refine ⟨fun y snd' r hy hr => ?_, fun u hd' y snd' hu hservice' hy hpointer => ?_, h.delivered⟩
  · rcases update_eq_some hy with ⟨rfl, hnew⟩ | hold
    · obtain rfl := Option.some.inj hnew
      obtain ⟨hwait, hprogress⟩ := h.replay y snd r hsnd hr
      exact ⟨hwait, hprogress⟩
    · exact (h.replay y snd' r hold hr).frame rfl rfl fun _ _ _ hc => hc
  · rcases update_eq_some hy with ⟨rfl, hnew⟩ | hold
    · obtain rfl := Option.some.inj hnew
      obtain rfl := Option.some.inj hpointer
      obtain rfl := Option.some.inj ((Function.update_self t _ _).symm.trans hu)
      exact hserved
    · rcases update_eq_some hu with ⟨rfl, hnew⟩ | hold'
      · obtain rfl := Option.some.inj hnew
        obtain rfl := Service.replicate.inj (hservice.symm.trans hservice')
        obtain rfl := Option.some.inj (hsnd.symm.trans hold)
        exact hserved
      · exact h.served u hd' y snd' hold' hservice' hold hpointer

/-- The next hint of a run that waits for nothing is sent. -/
theorem Replays.replayNext (h : s.Replays) {x : ℕ} {n : NodeID} {r : ℕ} {run : ReplayRun}
    {hint : StoredHint} {todo : List StoredHint} (hrun : (s.handoffs n).runs r = some run)
    (hidle : s.replaying n r = none) (htodo : run.todo = hint :: todo) :
    ((s.setReplaying n r (some x)).setSending x
      (some ⟨.replay r, n, run.target, hint.hint.key, hint.hint.siblings, none⟩)).Replays := by
  refine ⟨fun y snd r' hy hr => ?_, fun t hd y snd ht hservice hy hserved => ?_, h.delivered⟩
  · rcases update_eq_some hy with ⟨rfl, hnew⟩ | hold
    · obtain rfl := Option.some.inj hnew
      obtain rfl := Caller.replay.inj hr
      refine ⟨?_, run, hint, todo, [], hrun, htodo, rfl, rfl, rfl, fun y hy => by cases hy⟩
      simp only [ReplicationState.setSending, ReplicationState.setReplaying, Function.update_self]
    · obtain ⟨hwait, hprogress⟩ := h.replay y snd r' hold hr
      refine ⟨?_, hprogress⟩
      -- no other request is for this run
      simp only [ReplicationState.setSending, ReplicationState.setReplaying]
      by_cases hn : snd.sender = n
      · have hr' : r' ≠ r := by
          rintro rfl
          rw [hn, hidle] at hwait
          cases hwait
        rw [hn, Function.update_self, Function.update_of_ne hr', ← hn, hwait]
      · rw [Function.update_of_ne hn, hwait]
  · rcases update_eq_some hy with ⟨-, hy⟩ | hy
    · obtain rfl := Option.some.inj hy
      cases hserved
    · exact h.served t hd y snd ht hservice hy hserved

/-- The target holds the sibling just sent, and the next one follows. -/
theorem Replays.advance (h : s.Replays) {x : ℕ} {snd : Sending} {sib : Sibling}
    {rest : List Sibling} (hsnd : s.sendings x = some snd) (hsibs : snd.siblings = sib :: rest)
    (hholds : Holds s.stores snd.target snd.key sib.vclock) :
    (s.setSending x (some { snd with siblings := rest, handler := none })).Replays := by
  refine ⟨fun y snd' r hy hr => ?_, fun t hd y snd' ht hservice hy hserved => ?_, h.delivered⟩
  · rcases update_eq_some hy with ⟨rfl, hnew⟩ | hold
    · obtain rfl := Option.some.inj hnew
      obtain ⟨hwait, run, hint, todo, acked, hrun, htodo, htarget, hkey, hall, hacked⟩ :=
        h.replay y snd r hsnd hr
      refine ⟨hwait, run, hint, todo, acked ++ [sib], hrun, htodo, htarget, hkey, ?_, fun z hz => ?_⟩
      · rw [hall, hsibs, List.append_assoc]
        rfl
      · rcases List.mem_append.1 hz with hz | hz
        · exact hacked z hz
        · rw [List.mem_singleton.1 hz]
          exact hholds
    · exact (h.replay y snd' r hold hr).frame rfl rfl fun _ _ _ hc => hc
  · rcases update_eq_some hy with ⟨-, hy⟩ | hy
    · obtain rfl := Option.some.inj hy
      cases hserved
    · exact h.served t hd y snd' ht hservice hy hserved

/-- A step of the hints of a node that leaves the runs which wait, and delivers nothing. -/
theorem Replays.setHandoff (h : s.Replays) {n : NodeID} {handoff : HandoffState}
    (hruns : ∀ r, s.replaying n r ≠ none → (∀ run, (s.handoffs n).runs r = some run →
      run.todo ≠ []) → (s.handoffs n).runs r ≠ none → handoff.runs r = (s.handoffs n).runs r)
    (hdelivered : ∀ p ∈ handoff.delivered, ∀ y ∈ p.2.hint.siblings,
      Holds s.stores p.1 p.2.hint.key y.vclock) : (s.setHandoff n handoff).Replays := by
  refine ⟨fun x snd r hx hr => ?_, h.served, fun m p hp => ?_⟩
  · obtain ⟨hwait, run, hint, todo, acked, hrun, htodo, hrest⟩ := h.replay x snd r hx hr
    refine ⟨hwait, run, hint, todo, acked, ?_, htodo, hrest⟩
    simp only [ReplicationState.setHandoff]
    by_cases hn : snd.sender = n
    · subst hn
      rw [Function.update_self, hruns r (by rw [hwait]; exact Option.some_ne_none x) ?_ ?_, hrun]
      · intro run' hrun'
        obtain rfl := Option.some.inj (hrun.symm.trans hrun')
        rw [htodo]
        exact List.cons_ne_nil _ _
      · rw [hrun]
        exact Option.some_ne_none run
    · rw [Function.update_of_ne hn, hrun]
  · by_cases hm : m = n
    · subst hm
      simp only [ReplicationState.setHandoff, Function.update_self] at hp
      exact hdelivered p hp
    · simp only [ReplicationState.setHandoff, Function.update_of_ne hm] at hp
      exact h.delivered m p hp

/-- A `RemotePut` ends; a replay that has sent all of its hint records it as delivered. -/
theorem Replays.finish (h : s.Replays) {x : ℕ} {snd : Sending} (hsnd : s.sendings x = some snd)
    {error : Option ReplicaFailure}
    (hdone : error = none → ∀ y ∈ snd.siblings, Holds s.stores snd.target snd.key y.vclock) :
    (s.finish x snd error).Replays := by
  have hended := h.endSending x
  unfold ReplicationState.finish tell
  cases hcaller : snd.caller with
  | write i => exact hended.frame (fun _ _ hx => hx) (fun _ _ ht => ht) rfl rfl fun _ _ _ hc => hc
  | background => exact hended
  | replay r =>
    obtain ⟨hwait, run, hint, todo, acked, hrun, htodo, htarget, hkey, hsibs, hacked⟩ :=
      h.replay x snd r hsnd hcaller
    obtain ⟨handoff, hstep, hdelivered⟩ :
        ∃ t, ((s.setSending x none).handoffs snd.sender).step snd.sender
          (.attempt r error.isNone) = some t ∧ _ :=
      HandoffState.exists_attempt hrun htodo error.isNone
    simp only [hstep, Option.getD_some]
    refine ⟨fun y snd' r' hy hr' => ?_, hended.served, fun m p hp y hy => ?_⟩
    · obtain ⟨hwait', run', hint', todo', acked', hrun', hrest'⟩ := hended.replay y snd' r' hy hr'
      have hother : ¬ (snd'.sender = snd.sender ∧ r' = r) := by
        rintro ⟨hsender, rfl⟩
        have hwait'' : s.replaying snd.sender r' = some y := hsender ▸ hwait'
        obtain rfl := Option.some.inj (hwait.symm.trans hwait'')
        have hgone : (s.setSending x none).sendings x = some snd' := hy
        simp only [ReplicationState.setSending, Function.update_self] at hgone
        cases hgone
      refine ⟨?_, run', hint', todo', acked', ?_, hrest'⟩
      · simp only [ReplicationState.setReplaying, ReplicationState.setHandoff]
        by_cases hsender : snd'.sender = snd.sender
        · rw [hsender, Function.update_self,
            Function.update_of_ne fun e => hother ⟨hsender, e⟩, ← hsender]
          exact hwait'
        · rw [Function.update_of_ne hsender]
          exact hwait'
      · simp only [ReplicationState.setReplaying, ReplicationState.setHandoff]
        by_cases hsender : snd'.sender = snd.sender
        · have hr : r' ≠ r := fun e => hother ⟨hsender, e⟩
          have hsame := HandoffState.runs_of_step hstep (r := r')
            (fun _ _ e => by cases e) (fun b e => hr (HandoffEvent.attempt.inj e).1.symm)
            fun e => by cases e
          rw [hsender, Function.update_self, hsame, ← hsender]
          exact hrun'
        · rw [Function.update_of_ne hsender]
          exact hrun'
    · simp only [ReplicationState.setReplaying, ReplicationState.setHandoff] at hp
      by_cases hm : m = snd.sender
      · rw [hm, Function.update_self] at hp
        rcases hdelivered with hsame | ⟨hsuccess, hmore⟩
        · rw [hsame] at hp
          exact h.delivered snd.sender p hp y hy
        · rw [hmore] at hp
          rcases List.mem_append.1 hp with hp | hp
          · exact h.delivered snd.sender p hp y hy
          · rw [List.mem_singleton.1 hp] at hy ⊢
            rw [htarget, hkey]
            rw [hsibs] at hy
            rcases List.mem_append.1 hy with hy | hy
            · exact hacked y hy
            · exact hdone (Option.isNone_iff_eq_none.1 hsuccess) y hy
      · rw [Function.update_of_ne hm] at hp
        exact h.delivered m p hp y hy

theorem Replays.failed (h : s.Replays) {x : ℕ} {snd : Sending} (hsnd : s.sendings x = some snd)
    (err : ReplicaFailure) : (s.finish x snd (some err)).Replays :=
  h.finish hsnd fun he => by cases he

/-- The outcome of a call reaches its caller; if it has succeeded, the target holds the sibling. -/
theorem Replays.reply (h : s.Replays) {t : ℕ} {hd : Handler} {error : Option StorageError}
    (hserved : ∀ x snd, hd.service = .replicate x → s.sendings x = some snd →
      snd.handler = some t → Served hd snd)
    (hholds : error = none → ∀ sib stamp, hd.sibling = Sibling.received stamp sib →
      (∃ x snd, s.sendings x = some snd ∧ snd.key = hd.key ∧ sib ∈ snd.siblings) →
      Holds s.stores hd.node hd.key sib.vclock) : (s.reply t hd error).Replays := by
  unfold ReplicationState.reply
  cases hservice : hd.service with
  | localWrite i => exact h.frame (fun _ _ hx => hx) (fun _ _ ht => ht) rfl rfl fun _ _ _ hc => hc
  | replicate x =>
    dsimp only
    split
    · rename_i snd hsnd
      split_ifs with hpointer
      · obtain ⟨htarget, hkey, sib, rest, stamp, hsibs, hsib⟩ := hserved x snd hservice hsnd hpointer
        have hmem : sib ∈ snd.siblings := by
          rw [hsibs]
          exact List.mem_cons_self
        unfold proceed
        split
        · exact h.failed hsnd _
        · have hsent : Holds s.stores snd.target snd.key sib.vclock := by
            rw [htarget, hkey]
            exact hholds rfl sib stamp hsib ⟨x, snd, hsnd, hkey, hmem⟩
          rw [hsibs, List.tail_cons]
          split
          · refine h.finish hsnd fun _ y hy => ?_
            rw [hsibs, List.mem_singleton] at hy
            rw [hy]
            exact hsent
          · exact h.advance hsnd hsibs hsent
      · exact h
    · exact h

theorem Replays.crashNode (h : s.Replays) {n : NodeID}
    (hsync : (s.stores n).opts.syncWrites = true) : (s.crashNode n).Replays := by
  have hstores := crashNode_stores_of_syncWrites hsync
  refine ⟨fun x snd r hx hr => ?_, fun t hd x snd ht hservice hx hpointer => ?_, fun m p hp => ?_⟩
  · obtain ⟨hx, hsender⟩ := Option.filter_eq_some_iff.1 hx
    have hne : snd.sender ≠ n := of_decide_eq_true hsender
    obtain ⟨hwait, run, hint, todo, acked, hrun, hrest⟩ := h.replay x snd r hx hr
    refine ⟨?_, run, hint, todo, acked, ?_, hstores ▸ hrest⟩
    · simp only [ReplicationState.crashNode, Function.update_of_ne hne]
      exact hwait
    · simp only [ReplicationState.crashNode, Function.update_of_ne hne]
      exact hrun
  · obtain ⟨hd', ht', rfl⟩ := Option.map_eq_some_iff.1 ht
    exact h.served t hd' x snd ht' hservice (Option.filter_eq_some_iff.1 hx).1 hpointer
  · rw [hstores]
    simp only [ReplicationState.crashNode] at hp
    by_cases hm : m = n
    · rw [hm, Function.update_self] at hp
      cases hp
    · rw [Function.update_of_ne hm] at hp
      exact h.delivered m p hp

/-- A step of the hints of a node other than a delivery. -/
theorem Replays.stepHandoff (h : s.Replays) {n : NodeID} {e : HandoffEvent} {handoff : HandoffState}
    (hs : (s.handoffs n).step n e = some handoff) (hstore : ∀ r, e ≠ .attempt r true)
    (hidle : ∀ r b, e = .attempt r b → s.replaying n r = none) : (s.setHandoff n handoff).Replays := by
  refine h.setHandoff (fun r hwait htodo hrun => ?_) fun p hp => ?_
  · refine HandoffState.runs_of_step hs (fun target now e' => ?_) (fun b e' => ?_) fun e' => ?_
    · subst e'
      exact hrun (HandoffState.runs_of_snapshot hs)
    · exact hwait (hidle r b e')
    · subst e'
      obtain ⟨run, hrun⟩ := Option.ne_none_iff_exists'.1 hrun
      exact htodo run hrun (HandoffState.todo_of_writeBack hs hrun)
  · rw [HandoffState.delivered_of_step hs hstore] at hp
    exact h.delivered n p hp

variable {sum64 : Bytes → UInt64} {cl : Cluster sum64} {a : ClusterState} {e : ReplicationEvent}

/-- One step. -/
theorem Replays.step (h : s.Replays) (hsim : s.Simulates a) (htraced : s.Traced)
    (hsound : cl.Sound a) (hplain : s.Plain e) (hatomic : s.Atomic e) (hsynced : s.Synced e)
    (hs : cl.replicationStep s e = some s') : s'.Replays := by
  -- the steps that touch none of this
  have same : ∀ {t : ReplicationState}, t.sendings = s.sendings → t.handlers = s.handlers →
      t.handoffs = s.handoffs → t.replaying = s.replaying → t.stores = s.stores → t.Replays := by
    intro t hsend hhandlers hhandoffs hreplaying hstores
    exact h.frame (fun _ _ hx => hsend ▸ hx) (fun _ _ ht => hhandlers ▸ ht) hhandoffs hreplaying
      fun _ _ _ hc => hstores ▸ hc
  cases moved_of_step hplain hs with
  | issue new planned => exact same rfl rfl rfl rfl rfl
  | send free write starts other =>
    rename_i x i target op
    have hstart : (s.start i target).Replays := same rfl rfl rfl rfl rfl
    refine hstart.beginSending (fun r hr => ?_) rfl
    cases hr
  | localWrite free write starts prepared =>
    refine ⟨fun x snd r hx hr => (h.replay x snd r hx hr).frame rfl rfl fun _ _ _ hc => hc,
      fun u hd x snd hu hservice hx hpointer => ?_, h.delivered⟩
    rcases update_eq_some hu with ⟨-, hnew⟩ | hold
    · obtain rfl := Option.some.inj hnew
      cases hservice
    · exact h.served u hd x snd hold hservice hx hpointer
  | localRefused write => exact same rfl rfl rfl rfl rfl
  | deliver free sending unserved head prepared =>
    exact h.serve free sending rfl ⟨rfl, rfl, _, _, _, head, rfl⟩
  | deliverRefused sending => exact h.failed sending _
  | commit handler alive written stored replied =>
    rename_i t hd s₁ ack
    obtain ⟨i, htr, -⟩ := hsim.busy t hd handler
    have hread : (a.stores (hd.transfer i).node).db.get? (hd.transfer i).key =
        (hd.transfer i).seen.db.get? (hd.transfer i).key := by
      rw [hsim.stores]
      exact hatomic hd handler
    have hstores : s₁.stores = (a.store (hd.transfer i)).stores := by
      rw [stored]
      exact (hsim.store hd i).stores.symm
    have hmono : ∀ n k c, Holds s.stores n k c → Holds s₁.stores n k c := by
      intro n k c hc
      rw [hstores]
      rw [← hsim.stores] at hc
      exact hsound.holds_store htr hread hc
    have hstored : s₁.Replays := by
      refine h.frame (fun _ _ hx => ?_) (fun u hd' hu => ?_) ?_ ?_ hmono
      · rwa [stored] at hx
      · rw [stored] at hu
        rcases update_eq_some hu with ⟨-, hu⟩ | hu
        · cases hu
        · exact hu
      · rw [stored]
        rfl
      · rw [stored]
        rfl
    have hsendings : s₁.sendings = s.sendings := by
      rw [stored]
      rfl
    rw [replied]
    split_ifs
    · refine hstored.reply (fun x snd hservice hx => ?_) fun _ sib stamp hsib hsent => ?_
      · rw [hsendings] at hx
        exact h.served t hd x snd handler hservice hx
      · -- the target holds what it was sent, and so the sibling before it was sent
        obtain ⟨x, snd, hx, hkey, hmem⟩ := hsent
        rw [hsendings] at hx
        have hids : sib.vclock.ValidIDs :=
          ((htraced.sendings x snd hx).sent sib hmem).validIDs htraced
        have hnew : Holds s₁.stores hd.node hd.key hd.sibling.vclock := by
          rw [hstores]
          exact hsound.holds_sibling htr hread
        rw [hsib] at hnew
        exact hnew.of_le (sib.received_of_validIDs hids stamp).2.1
    · exact hstored
  | commitFailed handler failed dropped replied =>
    rename_i t hd err s₁ ack
    subst dropped
    have hdropped := h.dropHandler t
    rw [replied]
    split_ifs
    · refine hdropped.reply (fun x snd hservice hx => ?_) fun herr => by cases herr
      exact h.served t hd x snd handler hservice hx
    · exact hdropped
  | abort sending => exact h.failed sending _
  | hint write answered new live =>
    rename_i i now op
    have hmark : (s.markHinted i).Replays := same rfl rfl rfl rfl rfl
    obtain ⟨hdelivered, hruns⟩ := HandoffState.delivered_storeHints op.coordinator now op.plan.key
      [op.plan.sibling] (s.handoffs op.coordinator) op.responses
    refine hmark.setHandoff (fun r _ _ _ => congrFun hruns r) fun p hp => ?_
    rw [hdelivered] at hp
    exact h.delivered _ p hp
  | snapshot step =>
    exact h.stepHandoff step (fun _ he => by cases he) fun _ _ he => by cases he
  | replay free running idle next young => exact h.replayNext running idle next
  | expire running idle next old step =>
    refine h.stepHandoff step (fun _ he => by cases he) fun r b he => ?_
    obtain ⟨rfl, -⟩ := HandoffEvent.attempt.inj he
    exact idle
  | writeBack step =>
    exact h.stepHandoff step (fun _ he => by cases he) fun _ _ he => by cases he
  | get new planned => exact same rfl rfl rfl rfl rfl
  | answer read => exact same rfl rfl rfl rfl rfl
  | failRead => exact same rfl rfl rfl rfl rfl
  | repair free read stale =>
    refine h.beginSending (fun r hr => ?_) rfl
    cases hr
  | push free record =>
    refine h.beginSending (fun r hr => ?_) rfl
    cases hr
  | flush => exact same rfl rfl rfl rfl rfl
  | crash => exact h.crashNode hsynced

end ReplicationState

end GoQuorum
