import GoQuorum.VClock.Compare
import Mathlib.Data.Prod.Lex

/-!
# Merging vector clocks

`Merge` of `api/vclock/vclock.go` goes through the entries of the other clock in the order in which
Go lists a map, and keeps for each node the larger of two entries: the one with the larger counter,
and of two equal counters the newer time.  So merging is the maximum of entries in the lexicographic
order, node by node (`get?_merge`), and inherits the laws of a maximum whatever the order of the
loop (`merge_is_least_upper_bound`).
-/

namespace GoQuorum

open Lib

namespace VectorClockEntry

/-- What `Merge` makes of two entries of one node. -/
def merge (myEntry otherEntry : VectorClockEntry) : VectorClockEntry :=
  if otherEntry.counter > myEntry.counter then otherEntry
  else if otherEntry.counter = myEntry.counter then
    if otherEntry.timestamp > myEntry.timestamp then
      { myEntry with timestamp := otherEntry.timestamp }
    else myEntry
  else myEntry

/-- Entries by counter, then by time. -/
def rank (e : VectorClockEntry) : ℕ ×ₗ ℤ := toLex (e.counter.toNat, e.timestamp.toInt)

theorem rank_injective : Function.Injective rank := by
  intro a b h
  obtain ⟨hc, ht⟩ := Prod.mk.inj (toLex.injective h)
  exact congrArg₂ VectorClockEntry.mk (UInt64.toNat_inj.1 hc) (Int64.toInt_inj.1 ht)

theorem rank_lt_iff {a b : VectorClockEntry} :
    a.rank < b.rank ↔ a.counter < b.counter ∨ a.counter = b.counter ∧ a.timestamp < b.timestamp := by
  rw [rank, rank, Prod.Lex.toLex_lt_toLex, UInt64.lt_iff_toNat_lt, ← UInt64.toNat_inj,
    Int64.lt_iff_toInt_lt]

/-- `Merge` keeps the larger entry. -/
theorem merge_eq (a b : VectorClockEntry) : a.merge b = if a.rank < b.rank then b else a := by
  simp only [merge, rank_lt_iff, gt_iff_lt]
  by_cases hlt : a.counter < b.counter
  · rw [if_pos hlt, if_pos (Or.inl hlt)]
  rw [if_neg hlt]
  by_cases heq : b.counter = a.counter
  · rw [if_pos heq]
    by_cases ht : a.timestamp < b.timestamp
    · rw [if_pos ht, if_pos (Or.inr ⟨heq.symm, ht⟩)]
      cases b
      cases heq
      rfl
    · rw [if_neg ht, if_neg (not_or.2 ⟨hlt, fun h => ht h.2⟩)]
  · rw [if_neg heq, if_neg (not_or.2 ⟨hlt, fun h => heq h.1.symm⟩)]

theorem rank_merge (a b : VectorClockEntry) : (a.merge b).rank = max a.rank b.rank := by
  rw [merge_eq]
  split_ifs with h
  · exact (max_eq_right h.le).symm
  · exact (max_eq_left (not_lt.1 h)).symm

theorem counter_merge (a b : VectorClockEntry) :
    (a.merge b).counter.toNat = max a.counter.toNat b.counter.toNat := by
  rw [merge_eq]
  simp only [rank_lt_iff, UInt64.lt_iff_toNat_lt, ← UInt64.toNat_inj]
  split_ifs with h
  · omega
  · omega

instance commutative_merge : Std.Commutative merge where
  comm a b := rank_injective (by rw [rank_merge, rank_merge, max_comm])

instance associative_merge : Std.Associative merge where
  assoc a b c := rank_injective (by simp only [rank_merge, max_assoc])

instance idempotentOp_merge : Std.IdempotentOp merge where
  idempotent a := rank_injective (by rw [rank_merge, max_self])

end VectorClockEntry

namespace VectorClock

/-- One round of the loop of `Merge`. -/
def mergeEntry (vc : VectorClock) (p : NodeID × VectorClockEntry) : VectorClock :=
  match vc.entries.get? p.1 with
  | some myEntry => ⟨vc.entries.insert p.1 (myEntry.merge p.2)⟩
  | none => ⟨vc.entries.insert p.1 p.2⟩

/-- `Merge`, with the order in which the other clock is gone through. -/
def merge (order : MapOrder (NodeID × VectorClockEntry)) (vc other : VectorClock) : VectorClock :=
  (order.run other.entries.toList).foldl mergeEntry vc

theorem entries_foldl_mergeEntry (l : List (NodeID × VectorClockEntry)) (vc : VectorClock) :
    (l.foldl mergeEntry vc).entries =
      l.foldl (fun m p => m.insertWith VectorClockEntry.merge p.1 p.2) vc.entries := by
  induction l generalizing vc with
  | nil => rfl
  | cons p l ih =>
    have hround : (vc.mergeEntry p).entries =
        vc.entries.insertWith VectorClockEntry.merge p.1 p.2 := by
      unfold mergeEntry SortedMap.insertWith
      cases vc.entries.get? p.1 <;> rfl
    rw [List.foldl_cons, ih, hround, List.foldl_cons]

/-- A merged clock has, for each node, the larger of the two entries. -/
theorem get?_merge (order : MapOrder (NodeID × VectorClockEntry)) (a b : VectorClock) (n : NodeID) :
    (merge order a b).entries.get? n =
      (a.entries.get? n).merge VectorClockEntry.merge (b.entries.get? n) := by
  have hperm := order.perm b.entries.toList
  have hnodup : ((order.run b.entries.toList).map Prod.fst).Nodup :=
    (hperm.map Prod.fst).nodup_iff.2 (SortedMap.nodup_keys b.entries)
  rw [merge, entries_foldl_mergeEntry, SortedMap.get?_foldl_insertWith _ hnodup,
    SortedMap.lookup_perm hperm hnodup]
  rfl

theorem ext_get? {a b : VectorClock} (h : ∀ n, a.entries.get? n = b.entries.get? n) : a = b :=
  ext_entries (SortedMap.ext_get? h)

/-- A merged clock has seen what either clock has. -/
theorem count_merge (order : MapOrder (NodeID × VectorClockEntry)) (a b : VectorClock) (n : NodeID) :
    (merge order a b).count n = max (a.count n) (b.count n) := by
  simp only [count, get, get?_merge]
  cases a.entries.get? n with
  | none => cases b.entries.get? n <;> simp
  | some x =>
    cases b.entries.get? n with
    | none => simp
    | some y => exact x.counter_merge y

section

variable (order : MapOrder (NodeID × VectorClockEntry)) {a b c : VectorClock}

theorem le_merge_left : a ≤ merge order a b := fun n => by
  rw [count_merge]
  exact le_max_left _ _

theorem le_merge_right : b ≤ merge order a b := fun n => by
  rw [count_merge]
  exact le_max_right _ _

theorem merge_le (ha : a ≤ c) (hb : b ≤ c) : merge order a b ≤ c := fun n => by
  rw [count_merge]
  exact max_le (ha n) (hb n)

/-- A clock with those of a list merged into it, one after the other. -/
def mergeAll (start : VectorClock) (clocks : List VectorClock) : VectorClock :=
  clocks.foldl (merge order) start

theorem le_mergeAll (start : VectorClock) (clocks : List VectorClock) :
    start ≤ mergeAll order start clocks ∧ ∀ vc ∈ clocks, vc ≤ mergeAll order start clocks := by
  induction clocks generalizing start with
  | nil => exact ⟨le_rfl, fun _ h => absurd h List.not_mem_nil⟩
  | cons vc clocks ih =>
    obtain ⟨hstart, hrest⟩ := ih (merge order start vc)
    exact ⟨(le_merge_left order).trans hstart,
      List.forall_mem_cons.2 ⟨(le_merge_right order).trans hstart, hrest⟩⟩

/-- Merging takes no counter beyond a bound on all of them. -/
theorem count_mergeAll_lt {start : VectorClock} {clocks : List VectorClock} {n : NodeID} {bound : ℕ}
    (hstart : start.count n < bound) (h : ∀ vc ∈ clocks, vc.count n < bound) :
    (mergeAll order start clocks).count n < bound := by
  induction clocks generalizing start with
  | nil => exact hstart
  | cons vc clocks ih =>
    rw [List.forall_mem_cons] at h
    refine ih ?_ h.2
    rw [count_merge]
    exact max_lt hstart h.1

end

/-- Merging is commutative, associative and idempotent on whole entries, in whatever order maps are
gone through, and gives the least clock that dominates both. -/
theorem merge_is_least_upper_bound (o₁ o₂ o₃ o₄ : MapOrder (NodeID × VectorClockEntry))
    (a b c : VectorClock) :
    merge o₁ a b = merge o₂ b a ∧
    merge o₁ (merge o₂ a b) c = merge o₃ a (merge o₄ b c) ∧
    merge o₁ a a = a ∧
    (merge o₁ a b).dominates a = true ∧ (merge o₁ a b).dominates b = true ∧
    (c.dominates a = true → c.dominates b = true → c.dominates (merge o₁ a b) = true) := by
  refine ⟨?_, ?_, ?_, ?_, ?_, ?_⟩
  · apply ext_get?
    intro n
    rw [get?_merge, get?_merge]
    exact Std.Commutative.comm _ _
  · apply ext_get?
    intro n
    simp only [get?_merge]
    exact Std.Associative.assoc _ _ _
  · apply ext_get?
    intro n
    rw [get?_merge]
    exact Std.IdempotentOp.idempotent _
  · exact dominates_iff.2 (le_merge_left o₁)
  · exact dominates_iff.2 (le_merge_right o₁)
  · intro ha hb
    exact dominates_iff.2 (merge_le o₁ (dominates_iff.1 ha) (dominates_iff.1 hb))

end VectorClock

end GoQuorum
