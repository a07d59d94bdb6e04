import GoQuorum.Cluster.HintedHandoff
import GoQuorum.Lib.Runs

/-!
# Replay of hints

`replayHintsForNode` of `internal/cluster/hinted_handoff.go` copies the list of a target under the
lock, tries to deliver the copies with the lock released, and then writes back those that are left
over in place of the list.  `HandoffState.step` interleaves such runs with `StoreHint`; each section
under the lock is one step, and so is each delivery.

The source keeps pointers to hints, so two hints with the same content are still two: a `StoredHint`
has a number.  Without the numbers the steps are those of `HintedHandoff` (`handoff_step`).  The lists
of what has happened to hints are there to state properties; no step depends on them.

The write-back forgets the hints that were stored after the copy was made.  In runs where this does
not happen no hint is lost (`no_hint_lost`).
-/

namespace GoQuorum

open Lib

/-- 24 hours. -/
def maxHintAge : ℤ := 24 * 60 * 60 * 1000000000

/-- A hint in memory. -/
structure StoredHint where
  id : ℕ
  hint : Hint
  deriving DecidableEq

/-- A run of `replayHintsForNode` that has copied the list: the hints it has still to try, and those
it has failed to deliver. -/
structure ReplayRun where
  target : NodeID
  now : ℤ
  snapshot : List StoredHint
  todo : List StoredHint
  remaining : List StoredHint
  bounded : todo.length + remaining.length ≤ maxHintsPerNode

/-- The pending hints and the runs of `replayHintsForNode` under way, with what has been accepted and
what has become of it. -/
structure HandoffState where
  hints : SortedMap NodeID (List StoredHint)
  bounded : ∀ p ∈ hints.toList, p.2.length ≤ maxHintsPerNode
  runs : ℕ → Option ReplayRun
  next : ℕ
  accepted : List (NodeID × StoredHint)
  delivered : List (NodeID × StoredHint)
  expired : List (NodeID × StoredHint)
  evicted : List (NodeID × StoredHint)

/-- The atomic steps: `StoreHint`, and of `replayHintsForNode` the copy, one delivery with its outcome
and the write-back. -/
inductive HandoffEvent where
  | store (target : NodeID) (key : Bytes) (siblings : SiblingSet) (now : ℤ)
  | snapshot (i : ℕ) (target : NodeID) (now : ℤ)
  | attempt (i : ℕ) (success : Bool)
  | writeBack (i : ℕ)
  deriving DecidableEq

/-! ## Sections under the lock -/

namespace HintedHandoff

variable {nodeID : NodeID}

theorem ext {a b : HintedHandoff nodeID} (h : a.hints = b.hints) : a = b := by
  cases a
  cases b
  cases h
  rfl

/-- The write-back of `replayHintsForNode`. -/
def writeBack (hh : HintedHandoff nodeID) (target : NodeID) (remaining : List Hint)
    (h : remaining.length ≤ maxHintsPerNode) : HintedHandoff nodeID where
  hints := if remaining.length = 0 then hh.hints.erase target else hh.hints.insert target remaining
  bounded := fun p hp => by
    split_ifs at hp
    · exact hh.bounded p (List.mem_filter.1 hp).1
    · rcases SortedMap.mem_toList_insert hp with rfl | hp
      · exact h
      · exact hh.bounded p hp

end HintedHandoff

namespace HandoffState

/-- Before any hint. -/
def init : HandoffState where
  hints := SortedMap.empty
  bounded := fun _ hp => absurd hp List.not_mem_nil
  runs := fun _ => none
  next := 0
  accepted := []
  delivered := []
  expired := []
  evicted := []

/-- The hints of a target. -/
def pending (s : HandoffState) (target : NodeID) : List StoredHint :=
  (s.hints.get? target).getD []

theorem length_pending_le (s : HandoffState) (target : NodeID) :
    (s.pending target).length ≤ maxHintsPerNode := by
  unfold pending
  cases hg : s.hints.get? target with
  | none => exact Nat.zero_le _
  | some list => exact s.bounded (target, list) (SortedMap.mem_toList_iff.2 hg)

/-- Replace the list of a target. -/
def setPending (s : HandoffState) (target : NodeID) (list : List StoredHint)
    (h : list.length ≤ maxHintsPerNode) : HandoffState :=
  { s with
    hints := if list.length = 0 then s.hints.erase target else s.hints.insert target list
    bounded := fun p hp => by
      split_ifs at hp
      · exact s.bounded p (List.mem_filter.1 hp).1
      · rcases SortedMap.mem_toList_insert hp with rfl | hp
        · exact h
        · exact s.bounded p hp }

/-- What gives way to a new hint. -/
def overflow (list : List StoredHint) : List StoredHint :=
  if list.length ≥ maxHintsPerNode then list.take 1 else []

/-- A list of hints with a new one, the oldest evicted at capacity. -/
def enqueue (list : List StoredHint) (h : StoredHint) : List StoredHint :=
  (if list.length ≥ maxHintsPerNode then list.tail else list) ++ [h]

theorem map_enqueue (list : List StoredHint) (h : StoredHint) :
    (enqueue list h).map StoredHint.hint =
      HintedHandoff.admitHint (list.map StoredHint.hint) h.hint := by
  rw [enqueue, HintedHandoff.admitHint, HintedHandoff.retained, List.map_append, List.length_map,
    apply_ite (List.map _), List.map_tail]
  rfl

theorem length_enqueue_le {list : List StoredHint} (h : list.length ≤ maxHintsPerNode)
    (hint : StoredHint) : (enqueue list hint).length ≤ maxHintsPerNode := by
  have hlen : (list.map StoredHint.hint).length ≤ maxHintsPerNode := by rwa [List.length_map]
  have hmap := HintedHandoff.length_admitHint_le hlen hint.hint
  rwa [← map_enqueue, List.length_map] at hmap

/-- `StoreHint` for another node. -/
def storeHint (s : HandoffState) (target : NodeID) (hint : Hint) : HandoffState :=
  let h : StoredHint := ⟨s.next, hint⟩
  { s.setPending target (enqueue (s.pending target) h)
      (length_enqueue_le (s.length_pending_le target) h) with
    next := s.next + 1
    accepted := s.accepted ++ [(target, h)]
    evicted := s.evicted ++ (overflow (s.pending target)).map (target, ·) }

/-- The copy of the list that `replayHintsForNode` works on. -/
def startRun (s : HandoffState) (target : NodeID) (now : ℤ) : ReplayRun where
  target := target
  now := now
  snapshot := s.pending target
  todo := s.pending target
  remaining := []
  bounded := s.length_pending_le target

/-- One iteration of the loop of `replayHintsForNode` for the hint `h`: it is dropped if it is too
old, and otherwise delivered or kept. -/
def attemptHint (s : HandoffState) (i : ℕ) (run : ReplayRun) (h : StoredHint)
    (todo : List StoredHint) (htodo : run.todo = h :: todo) (success : Bool) : HandoffState :=
  have hlen : todo.length + 1 + run.remaining.length ≤ maxHintsPerNode := by
    have hb := run.bounded
    rwa [htodo, List.length_cons] at hb
  let rest : ReplayRun := { run with todo, bounded := by omega }
  if run.now - h.hint.createdAt > maxHintAge then
    { s with
      runs := Function.update s.runs i (some rest)
      expired := s.expired ++ [(run.target, h)] }
  else if success then
    { s with
      runs := Function.update s.runs i (some rest)
      delivered := s.delivered ++ [(run.target, h)] }
  else
    { s with
      runs := Function.update s.runs i (some { run with
        todo
        remaining := run.remaining ++ [h]
        bounded := by
          rw [List.length_append, List.length_singleton]
          omega }) }

/-- The last section of `replayHintsForNode`. -/
def writeBack (s : HandoffState) (i : ℕ) (run : ReplayRun) : HandoffState :=
  { s.setPending run.target run.remaining (le_trans (Nat.le_add_left _ _) run.bounded) with
    runs := Function.update s.runs i none }

/-- One atomic step, on the node `nodeID`. -/
def step (nodeID : NodeID) (s : HandoffState) : HandoffEvent → Option HandoffState
  | .store target key siblings now =>
    if target = nodeID then some s else some (s.storeHint target ⟨key, siblings, now⟩)
  | .snapshot i target now =>
    match s.runs i with
    | none =>
      if (s.pending target).length = 0 then some s
      else some { s with runs := Function.update s.runs i (some (s.startRun target now)) }
    | some _ => none
  | .attempt i success =>
    match s.runs i with
    | some run =>
      match htodo : run.todo with
      | h :: todo => some (s.attemptHint i run h todo htodo success)
      | [] => none
    | none => none
  | .writeBack i =>
    match s.runs i with
    | some run => if run.todo = [] then some (s.writeBack i run) else none
    | none => none

/-- What a step does. -/
inductive Stepped (nodeID : NodeID) (s : HandoffState) : HandoffEvent → HandoffState → Prop
  | idle (e : HandoffEvent) : Stepped nodeID s e s
  | store (target : NodeID) (key : Bytes) (siblings : SiblingSet) (now : ℤ)
    (hne : target ≠ nodeID) : Stepped nodeID s (.store target key siblings now)
      (s.storeHint target ⟨key, siblings, now⟩)
  | snapshot (i : ℕ) (target : NodeID) (now : ℤ) : Stepped nodeID s (.snapshot i target now)
      { s with runs := Function.update s.runs i (some (s.startRun target now)) }
  | attempt (i : ℕ) (success : Bool) (run : ReplayRun) (h : StoredHint) (todo : List StoredHint)
    (htodo : run.todo = h :: todo) (hrun : s.runs i = some run) :
      Stepped nodeID s (.attempt i success) (s.attemptHint i run h todo htodo success)
  | writeBack (i : ℕ) (run : ReplayRun) (hrun : s.runs i = some run) (htodo : run.todo = []) :
      Stepped nodeID s (.writeBack i) (s.writeBack i run)

theorem step_cases {nodeID : NodeID} {s t : HandoffState} {e : HandoffEvent}
    (h : s.step nodeID e = some t) : Stepped nodeID s e t := by
  cases e with
  | store target key siblings now =>
    simp only [step] at h
    split_ifs at h with hne <;> obtain rfl := Option.some.inj h
    · exact .idle _
    · exact .store target key siblings now hne
  | snapshot i target now =>
    simp only [step] at h
    split at h
    · split_ifs at h <;> obtain rfl := Option.some.inj h
      · exact .idle _
      · exact .snapshot i target now
    · cases h
  | attempt i success =>
    simp only [step] at h
    split at h
    · rename_i run hrun
      split at h
      · rename_i h₀ todo htodo
        obtain rfl := Option.some.inj h
        exact .attempt i success run h₀ todo htodo hrun
      · cases h
    · cases h
  | writeBack i =>
    simp only [step] at h
    split at h
    · rename_i run hrun
      split_ifs at h with htodo
      obtain rfl := Option.some.inj h
      exact .writeBack i run hrun htodo
    · cases h

/-! ## What is pending after a step -/

theorem pending_setPending (s : HandoffState) (target : NodeID) (list : List StoredHint)
    (h : list.length ≤ maxHintsPerNode) (n : NodeID) :
    (s.setPending target list h).pending n = if n = target then list else s.pending n := by
  unfold pending setPending
  by_cases hn : n = target
  · subst hn
    rw [if_pos rfl]
    split_ifs with hl
    · rw [SortedMap.get?_erase_self, Option.getD_none, List.length_eq_zero_iff.1 hl]
    · rw [SortedMap.get?_insert_self, Option.getD_some]
  · rw [if_neg hn]
    split_ifs with hl
    · rw [SortedMap.get?_erase_of_ne _ hn]
    · rw [SortedMap.get?_insert_of_ne _ (Ne.symm hn)]

theorem pending_storeHint (s : HandoffState) (target : NodeID) (hint : Hint) (n : NodeID) :
    (s.storeHint target hint).pending n =
      if n = target then enqueue (s.pending target) ⟨s.next, hint⟩ else s.pending n :=
  pending_setPending s target _ (length_enqueue_le (s.length_pending_le target) _) n

theorem pending_writeBack (s : HandoffState) (i : ℕ) (run : ReplayRun) (n : NodeID) :
    (s.writeBack i run).pending n = if n = run.target then run.remaining else s.pending n :=
  pending_setPending s run.target _ (le_trans (Nat.le_add_left _ _) run.bounded) n

/-- A pending hint stays in the list that a new one joins, or gives way to it. -/
theorem mem_enqueue_or_overflow {list : List StoredHint} {h' : StoredHint} (hmem : h' ∈ list)
    (h : StoredHint) : h' ∈ enqueue list h ∨ h' ∈ overflow list := by
  unfold enqueue overflow
  split_ifs with hfull
  · cases list with
    | nil => cases hmem
    | cons a list =>
      rcases List.mem_cons.1 hmem with rfl | hmem
      · exact Or.inr (List.mem_singleton_self _)
      · exact Or.inl (List.mem_append_left _ hmem)
  · exact Or.inl (List.mem_append_left _ hmem)

/-- The hint for a target has been delivered, dropped as too old, or evicted. -/
def settled (s : HandoffState) (p : NodeID × StoredHint) : Bool :=
  p ∈ s.delivered ∨ p ∈ s.expired ∨ p ∈ s.evicted

theorem settled_iff {s : HandoffState} {p : NodeID × StoredHint} :
    s.settled p = true ↔ p ∈ s.delivered ∨ p ∈ s.expired ∨ p ∈ s.evicted :=
  decide_eq_true_iff

/-- An iteration takes its hint off the list of those to try, and keeps it unless it is settled; the
lists of pending hints stay as they are. -/
theorem attemptHint_spec (s : HandoffState) (i : ℕ) (run : ReplayRun) (h : StoredHint)
    (todo : List StoredHint) (htodo : run.todo = h :: todo) (success : Bool) :
    let t := s.attemptHint i run h todo htodo success
    t.hints = s.hints ∧ t.accepted = s.accepted ∧
      ∃ rest : ReplayRun, t.runs = Function.update s.runs i (some rest) ∧
        rest.target = run.target ∧ rest.snapshot = run.snapshot ∧ rest.todo = todo ∧
        run.remaining ⊆ rest.remaining ∧
        (h ∈ rest.remaining ∨ t.settled (run.target, h) = true) := by
  unfold attemptHint
  split_ifs
  · refine ⟨rfl, rfl, _, rfl, rfl, rfl, rfl, fun _ => id, Or.inr (settled_iff.2 ?_)⟩
    exact Or.inr (Or.inl (List.mem_append_right _ (List.mem_singleton_self _)))
  · refine ⟨rfl, rfl, _, rfl, rfl, rfl, rfl, fun _ => id, Or.inr (settled_iff.2 ?_)⟩
    exact Or.inl (List.mem_append_right _ (List.mem_singleton_self _))
  · refine ⟨rfl, rfl, _, rfl, rfl, rfl, rfl, List.subset_append_left _ _, Or.inl ?_⟩
    exact List.mem_append_right _ (List.mem_singleton_self _)

/-! ## The steps without the numbers -/

/-- The source's state. -/
def handoff (nodeID : NodeID) (s : HandoffState) : HintedHandoff nodeID where
  hints := s.hints.mapVal fun _ list => list.map StoredHint.hint
  bounded := fun p hp => by
    obtain ⟨q, hq, rfl⟩ := List.mem_map.1 hp
    exact le_of_eq_of_le (List.length_map _) (s.bounded q hq)

theorem pending_handoff (nodeID : NodeID) (s : HandoffState) (target : NodeID) :
    (s.handoff nodeID).pending target = (s.pending target).map StoredHint.hint := by
  unfold HintedHandoff.pending pending handoff
  rw [SortedMap.get?_mapVal]
  cases s.hints.get? target <;> rfl

theorem handoff_storeHint {nodeID target : NodeID} (hne : target ≠ nodeID) (s : HandoffState)
    (hint : Hint) :
    (s.handoff nodeID).storeHint hint.createdAt target hint.key hint.siblings =
      .ok ((s.storeHint target hint).handoff nodeID) := by
  rw [HintedHandoff.storeHint, if_neg hne]
  refine congrArg Except.ok (HintedHandoff.ext ?_)
  have hcons : (enqueue (s.pending target) ⟨s.next, hint⟩).length ≠ 0 := by
    rw [enqueue, List.length_append, List.length_singleton]
    exact Nat.succ_ne_zero _
  have hhints : (s.storeHint target hint).hints =
      s.hints.insert target (enqueue (s.pending target) ⟨s.next, hint⟩) := if_neg hcons
  change (s.handoff nodeID).hints.insert target
    (HintedHandoff.admitHint ((s.handoff nodeID).pending target) hint) =
      (s.storeHint target hint).hints.mapVal fun _ list => list.map StoredHint.hint
  rw [hhints, SortedMap.mapVal_insert, map_enqueue, pending_handoff]
  rfl

theorem handoff_writeBack (nodeID : NodeID) (s : HandoffState) (i : ℕ) (run : ReplayRun)
    (h : (run.remaining.map StoredHint.hint).length ≤ maxHintsPerNode) :
    (s.writeBack i run).handoff nodeID =
      (s.handoff nodeID).writeBack run.target (run.remaining.map StoredHint.hint) h := by
  refine HintedHandoff.ext ?_
  simp only [handoff, writeBack, setPending, HintedHandoff.writeBack, List.length_map]
  split_ifs
  · exact SortedMap.mapVal_erase _ _ _
  · exact SortedMap.mapVal_insert _ _ _ _

/-- Each step is one of the source's: `StoreHint`, the write-back, or one that leaves the lists. -/
theorem handoff_step {nodeID : NodeID} {s t : HandoffState} {e : HandoffEvent}
    (h : s.step nodeID e = some t) :
    t.handoff nodeID = s.handoff nodeID ∨
      (∃ target key siblings now, e = .store target key siblings now ∧
        (s.handoff nodeID).storeHint now target key siblings = .ok (t.handoff nodeID)) ∨
      ∃ i run hlen, e = .writeBack i ∧ s.runs i = some run ∧ run.todo = [] ∧
        t.handoff nodeID =
          (s.handoff nodeID).writeBack run.target (run.remaining.map StoredHint.hint) hlen := by
  cases step_cases h with
  | idle => exact Or.inl rfl
  | store target key siblings now hne =>
    exact Or.inr (Or.inl ⟨_, _, _, _, rfl, handoff_storeHint hne s ⟨key, siblings, now⟩⟩)
  | snapshot i target now => exact Or.inl rfl
  | attempt i success run h₀ todo htodo hrun =>
    refine Or.inl (HintedHandoff.ext ?_)
    simp only [handoff, (attemptHint_spec _ _ _ _ _ _ _).1]
  | writeBack i run hrun htodo =>
    have hlen : (run.remaining.map StoredHint.hint).length ≤ maxHintsPerNode := by
      rw [List.length_map]
      exact le_trans (Nat.le_add_left _ _) run.bounded
    exact Or.inr (Or.inr ⟨i, run, hlen, rfl, hrun, htodo, handoff_writeBack nodeID s i run hlen⟩)

/-! ## No hint is lost -/

/-- Every accepted hint is pending or settled. -/
def NoHintLost (s : HandoffState) : Prop :=
  ∀ p ∈ s.accepted, p.2 ∈ s.pending p.1 ∨ s.settled p = true

/-- The step writes back over no hint that the run has not seen, unless it is settled. -/
def replacesSeen (s : HandoffState) : HandoffEvent → Bool
  | .writeBack i =>
    match s.runs i with
    | some run => (s.pending run.target).all fun h => h ∈ run.snapshot ∨ s.settled (run.target, h)
    | none => true
  | _ => true

/-- The invariant of the runs: nothing is lost, and what a replay has copied it has still to try, has
kept, or is settled. -/
structure Kept (s : HandoffState) : Prop where
  noneLost : s.NoHintLost
  copied : ∀ i run, s.runs i = some run → ∀ h ∈ run.snapshot,
    h ∈ run.todo ∨ h ∈ run.remaining ∨ s.settled (run.target, h) = true

theorem settled_storeHint {s : HandoffState} {p : NodeID × StoredHint} (h : s.settled p = true)
    (target : NodeID) (hint : Hint) : (s.storeHint target hint).settled p = true := by
  rw [settled_iff] at h ⊢
  exact h.imp_right (Or.imp_right (List.mem_append_left _))

theorem settled_attemptHint {s : HandoffState} {p : NodeID × StoredHint} (hp : s.settled p = true)
    (i : ℕ) (run : ReplayRun) (h : StoredHint) (todo : List StoredHint)
    (htodo : run.todo = h :: todo) (success : Bool) :
    (s.attemptHint i run h todo htodo success).settled p = true := by
  rw [settled_iff] at hp ⊢
  unfold attemptHint
  split_ifs
  · exact hp.imp_right (Or.imp_left (List.mem_append_left _))
  · exact hp.imp_left (List.mem_append_left _)
  · exact hp

theorem kept_init : Kept init where
  noneLost := fun _ h => by cases h
  copied := fun _ _ h => by cases h

variable {s : HandoffState}

theorem Kept.storeHint (hs : s.Kept) (target : NodeID) (hint : Hint) :
    (s.storeHint target hint).Kept := by
  refine ⟨fun p hp => ?_, fun i run hrun h' hh' => ?_⟩
  · rw [pending_storeHint]
    rcases List.mem_append.1 hp with hp | hp
    · rcases hs.noneLost p hp with hpend | hset
      · split_ifs with ht
        · rw [ht] at hpend
          -- the new hint may have pushed this one out
          rcases mem_enqueue_or_overflow hpend ⟨s.next, hint⟩ with hin | hout
          · exact Or.inl hin
          · refine Or.inr (settled_iff.2 (Or.inr (Or.inr (List.mem_append_right _ ?_))))
            exact List.mem_map.2 ⟨p.2, hout, Prod.ext ht.symm rfl⟩
        · exact Or.inl hpend
      · exact Or.inr (settled_storeHint hset target hint)
    · rw [List.mem_singleton.1 hp, if_pos rfl]
      exact Or.inl (List.mem_append_right _ (List.mem_singleton_self _))
  · refine (hs.copied i run hrun h' hh').imp_right (Or.imp_right fun hset => ?_)
    exact settled_storeHint hset target hint

theorem Kept.startRun (hs : s.Kept) (i : ℕ) (target : NodeID) (now : ℤ) :
    Kept { s with runs := Function.update s.runs i (some (s.startRun target now)) } := by
  refine ⟨hs.noneLost, fun j run hrun h' hh' => ?_⟩
  rcases update_eq_some hrun with ⟨-, hrun⟩ | hrun
  · obtain rfl := Option.some.inj hrun
    exact Or.inl hh'
  · exact hs.copied j run hrun h' hh'

theorem Kept.attemptHint (hs : s.Kept) {i : ℕ} {run : ReplayRun} {h : StoredHint}
    {todo : List StoredHint} (htodo : run.todo = h :: todo) (hrun : s.runs i = some run)
    (success : Bool) : (s.attemptHint i run h todo htodo success).Kept := by
  have hsettled := fun p (hp : s.settled p = true) =>
    settled_attemptHint hp i run h todo htodo success
  obtain ⟨hhints, haccepted, rest, hruns, htarget, hsnap, hrest, hsub, hkept⟩ :=
    s.attemptHint_spec i run h todo htodo success
  refine ⟨fun p hp => ?_, fun j run' hrun' h' hh' => ?_⟩
  · rw [haccepted] at hp
    rw [pending, hhints]
    exact (hs.noneLost p hp).imp_right (hsettled p)
  · rw [hruns] at hrun'
    rcases update_eq_some hrun' with ⟨-, hrun'⟩ | hrun'
    · obtain rfl := Option.some.inj hrun'
      rw [hsnap] at hh'
      rw [htarget, hrest]
      rcases hs.copied i run hrun h' hh' with htry | hrem | hset
      · rw [htodo] at htry
        rcases List.mem_cons.1 htry with rfl | htry
        · exact Or.inr hkept
        · exact Or.inl htry
      · exact Or.inr (Or.inl (hsub hrem))
      · exact Or.inr (Or.inr (hsettled _ hset))
    · exact (hs.copied j run' hrun' h' hh').imp_right (Or.imp_right (hsettled _))

theorem Kept.writeBack (hs : s.Kept) {i : ℕ} {run : ReplayRun} (hrun : s.runs i = some run)
    (htodo : run.todo = []) (hok : s.replacesSeen (.writeBack i) = true) :
    (s.writeBack i run).Kept := by
  simp only [replacesSeen, hrun, List.all_eq_true, decide_eq_true_eq] at hok
  refine ⟨fun p hp => ?_, fun j run' hrun' h' hh' => ?_⟩
  · rw [pending_writeBack]
    rcases hs.noneLost p hp with hpend | hset
    · split_ifs with ht
      · -- the run has seen the hint: it is one of those left over, or settled
        rw [ht] at hpend
        have hp' : (run.target, p.2) = p := Prod.ext ht.symm rfl
        rcases hok p.2 hpend with hseen | hset
        · rcases hs.copied i run hrun p.2 hseen with htry | hrem | hset
          · rw [htodo] at htry
            cases htry
          · exact Or.inl hrem
          · exact Or.inr (hp' ▸ hset)
        · exact Or.inr (hp' ▸ hset)
      · exact Or.inl hpend
    · exact Or.inr hset
  · rcases update_eq_some hrun' with ⟨-, hrun'⟩ | hrun'
    · cases hrun'
    · exact hs.copied j run' hrun' h' hh'

theorem kept_step {nodeID : NodeID} {t : HandoffState} {e : HandoffEvent} (hs : s.Kept)
    (hok : s.replacesSeen e = true) (h : s.step nodeID e = some t) : t.Kept := by
  cases step_cases h with
  | idle => exact hs
  | store target key siblings now hne => exact hs.storeHint target ⟨key, siblings, now⟩
  | snapshot i target now => exact hs.startRun i target now
  | attempt i success run h₀ todo htodo hrun => exact hs.attemptHint htodo hrun success
  | writeBack i run hrun htodo => exact hs.writeBack hrun htodo hok

end HandoffState

/-- In every run of `StoreHint` calls and replays, with any outcomes of the deliveries and any
interleaving, in which no replay writes back over a hint that it has not seen and that is not
settled: every hint that has been accepted is pending, delivered, dropped as too old, or evicted. -/
theorem no_hint_lost (nodeID : NodeID) (s : HandoffState)
    (hrun : Runs (HandoffState.step nodeID) (fun s e => s.replacesSeen e = true)
      HandoffState.init s) : s.NoHintLost :=
  (hrun.invariant HandoffState.Kept HandoffState.kept_init
    fun _ _ _ => HandoffState.kept_step).noneLost

/-- On `n1` two hints for `n2` are stored and replayed; the first is delivered and the second is not.
A hint for `n3` is stored meanwhile. -/
def quietReplay : List HandoffEvent :=
  [.store [110, 50] [1] [] 0, .store [110, 50] [2] [] 0, .snapshot 0 [110, 50] 5,
    .attempt 0 true, .store [110, 51] [3] [] 6, .attempt 0 false, .writeBack 0]

/-- The second is still pending. -/
theorem no_hint_lost_of_quiet :
    ∃ s : HandoffState, s.accepted.length = 3 ∧ (s.pending [110, 50]).length = 1 ∧
      s.NoHintLost := by
  have hexec : (exec (HandoffState.step [110, 49]) HandoffState.init quietReplay).isSome = true ∧
      AllOk (HandoffState.step [110, 49]) (fun s e => s.replacesSeen e = true) HandoffState.init
        quietReplay := by decide
  exact ⟨stateAfter (HandoffState.step [110, 49]) HandoffState.init quietReplay, by decide,
    by decide, no_hint_lost [110, 49] _ (Runs.stateAfter hexec)⟩

/-- A second hint for `n2` is stored while the first is delivered. -/
def overlappingReplay : List HandoffEvent :=
  [.store [110, 50] [1] [] 0, .snapshot 0 [110, 50] 5, .store [110, 50] [2] [] 6,
    .attempt 0 true, .writeBack 0]

/-- The write-back deletes it: it is not pending, and has not been delivered, dropped or evicted. -/
theorem write_back_loses_hint :
    ∃ s, exec (HandoffState.step [110, 49]) HandoffState.init overlappingReplay = some s ∧
      ¬ s.NoHintLost := by
  have hexec : (exec (HandoffState.step [110, 49]) HandoffState.init overlappingReplay).isSome =
      true := by decide
  refine ⟨_, exec_eq_stateAfter hexec, fun hall => ?_⟩
  exact absurd (hall ([110, 50], ⟨1, [2], [], 6⟩) (by decide)) (by decide)

end GoQuorum
