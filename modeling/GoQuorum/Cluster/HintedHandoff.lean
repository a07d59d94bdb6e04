import GoQuorum.Cluster.Coordinator

/-!
# Hinted handoff

`StoreHint` of `internal/cluster/hinted_handoff.go`: a write that failed to reach a peer is kept as
a hint for it, at most `maxHintsPerNode` of them; at capacity the oldest gives way.  The bound is
part of the structure.  Coordinator and hinted handoff are created with the same node id, which is a
parameter here.
-/

namespace GoQuorum

open Lib

/-- A write that failed to reach its target.  The sibling set is the one the write was made with,
not a copy; times are in nanoseconds. -/
structure Hint where
  key : Bytes
  siblings : SiblingSet
  createdAt : ℤ
  deriving DecidableEq

def maxHintsPerNode : ℕ := 1000

/-- The error of `StoreHint`. -/
inductive HintError where
  | hintForSelf
  deriving DecidableEq, Repr

/-- `HintedHandoff` of the node `nodeID`: the pending hints of each target. -/
structure HintedHandoff (nodeID : NodeID) where
  hints : SortedMap NodeID (List Hint)
  bounded : ∀ p ∈ hints.toList, p.2.length ≤ maxHintsPerNode

namespace HintedHandoff

variable {nodeID : NodeID}

/-- `NewHintedHandoff`. -/
def new : HintedHandoff nodeID := ⟨SortedMap.empty, fun _ hp => absurd hp List.not_mem_nil⟩

/-- The hints of a target, none if it has no entry. -/
def pending (hh : HintedHandoff nodeID) (target : NodeID) : List Hint :=
  (hh.hints.get? target).getD []

/-- What a new hint leaves of a list: at capacity the oldest is evicted. -/
def retained (list : List Hint) : List Hint :=
  if list.length ≥ maxHintsPerNode then list.tail else list

/-- A list of hints with a new one. -/
def admitHint (list : List Hint) (hint : Hint) : List Hint := retained list ++ [hint]

theorem length_pending_le (hh : HintedHandoff nodeID) (target : NodeID) :
    (hh.pending target).length ≤ maxHintsPerNode := by
  unfold pending
  cases hg : hh.hints.get? target with
  | none => exact Nat.zero_le _
  | some list => exact hh.bounded (target, list) (SortedMap.mem_toList_iff.2 hg)

theorem length_admitHint_le {list : List Hint} (h : list.length ≤ maxHintsPerNode) (hint : Hint) :
    (admitHint list hint).length ≤ maxHintsPerNode := by
  have hpos : 0 < maxHintsPerNode := by decide
  unfold admitHint retained
  rw [List.length_append, List.length_singleton]
  split_ifs with hfull
  · rw [List.length_tail]
    omega
  · omega

/-- `StoreHint`. -/
def storeHint (now : ℤ) (hh : HintedHandoff nodeID) (target : NodeID) (key : Bytes)
    (siblings : SiblingSet) : Except HintError (HintedHandoff nodeID) :=
  if target = nodeID then .error .hintForSelf
  else .ok {
    hints := hh.hints.insert target (admitHint (hh.pending target) ⟨key, siblings, now⟩)
    bounded := fun p hp => by
      rcases SortedMap.mem_toList_insert hp with rfl | hp
      · exact length_admitHint_le (hh.length_pending_le target) _
      · exact hh.bounded p hp }

/-- The last part of `parallelWrite`: a hint for every peer that failed, errors ignored. -/
def storeHints (now : NodeID → ℤ) (key : Bytes) (siblings : SiblingSet)
    (hh : HintedHandoff nodeID) (responses : List WriteResponse) : HintedHandoff nodeID :=
  responses.foldl (fun hh resp =>
    if resp.error.isSome ∧ resp.nodeID ≠ nodeID then
      match hh.storeHint (now resp.nodeID) resp.nodeID key siblings with
      | .ok hh' => hh'
      | .error _ => hh
    else hh) hh

/-! ## What is pending -/

theorem pending_storeHint {now : ℤ} {hh hh' : HintedHandoff nodeID} {target : NodeID} {key : Bytes}
    {siblings : SiblingSet} (h : hh.storeHint now target key siblings = .ok hh') (n : NodeID) :
    hh'.pending n = if n = target then admitHint (hh.pending target) ⟨key, siblings, now⟩
      else hh.pending n := by
  unfold storeHint at h
  split_ifs at h
  obtain rfl := Except.ok.inj h
  split_ifs with hn
  · rw [hn, pending, SortedMap.get?_insert_self, Option.getD_some]
  · rw [pending, SortedMap.get?_insert_of_ne _ (Ne.symm hn)]
    rfl

variable {now : NodeID → ℤ} {key : Bytes} {siblings : SiblingSet}

theorem storeHints_cons (hh : HintedHandoff nodeID) (resp : WriteResponse)
    (responses : List WriteResponse) : ∃ hh' : HintedHandoff nodeID,
      hh.storeHints now key siblings (resp :: responses) =
        hh'.storeHints now key siblings responses ∧
      ∀ n, hh'.pending n =
        if resp.nodeID = n ∧ resp.error.isSome ∧ n ≠ nodeID then
          admitHint (hh.pending n) ⟨key, siblings, now n⟩
        else hh.pending n := by
  refine ⟨_, List.foldl_cons, fun n => ?_⟩
  by_cases hc : resp.error.isSome ∧ resp.nodeID ≠ nodeID
  · have hok : ∃ hh', hh.storeHint (now resp.nodeID) resp.nodeID key siblings = .ok hh' := by
      rw [storeHint, if_neg hc.2]
      exact ⟨_, rfl⟩
    obtain ⟨hh', hstore⟩ := hok
    rw [if_pos hc, hstore]
    by_cases hn : resp.nodeID = n
    · subst hn
      rw [if_pos ⟨rfl, hc⟩, pending_storeHint hstore, if_pos rfl]
    · rw [if_neg fun h => hn h.1, pending_storeHint hstore, if_neg (Ne.symm hn)]
  · rw [if_neg hc, if_neg]
    rintro ⟨rfl, h⟩
    exact hc h

/-- The hints of a target after a write: one more if the write failed there. -/
theorem pending_storeHints {responses : List WriteResponse}
    (hnodup : (responses.map WriteResponse.nodeID).Nodup) (hh : HintedHandoff nodeID) (n : NodeID) :
    (hh.storeHints now key siblings responses).pending n =
      if ∃ resp ∈ responses, resp.nodeID = n ∧ resp.error.isSome ∧ n ≠ nodeID then
        admitHint (hh.pending n) ⟨key, siblings, now n⟩
      else hh.pending n := by
  induction responses generalizing hh with
  | nil => rfl
  | cons resp responses ih =>
    rw [List.map_cons, List.nodup_cons] at hnodup
    obtain ⟨hh', he, hpending⟩ := storeHints_cons hh resp responses
    rw [he, ih hnodup.2, hpending]
    by_cases hn : resp.nodeID = n
    · have hno : ¬ ∃ r ∈ responses, r.nodeID = n ∧ r.error.isSome ∧ n ≠ nodeID := by
        rintro ⟨r, hr, rfl, -⟩
        exact hnodup.1 (hn ▸ List.mem_map_of_mem hr)
      rw [if_neg hno]
      simp only [List.exists_mem_cons_iff, hno, or_false]
    · simp only [List.exists_mem_cons_iff, hn, false_and, false_or, if_false]

theorem pending_storeHints_perm {responses responses' : List WriteResponse}
    (hperm : responses.Perm responses') (hnodup : (responses.map WriteResponse.nodeID).Nodup)
    (hh : HintedHandoff nodeID) : (hh.storeHints now key siblings responses).pending =
      (hh.storeHints now key siblings responses').pending := by
  funext n
  rw [pending_storeHints hnodup, pending_storeHints ((hperm.map _).nodup hnodup)]
  simp only [hperm.mem_iff]

end HintedHandoff

end GoQuorum
