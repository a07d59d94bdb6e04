import GoQuorum.Storage.Put

/-!
# The limit on siblings

`pruneSiblings` sorts by exchanging in place: position `i` is compared with every later position and
swapped with those that are newer.  `exchangeLoops` is that pair of loops over positions, and
`exchangeSort` what it does to the rest of the list at each round.  After the inner loop position `i`
holds a newest sibling of the rest, so the whole is sorted and what is cut off is no newer than what
stays (`pruneSiblings_keeps_newest`).
-/

namespace GoQuorum

open Lib

/-! ## The loops -/

/-- The body of the inner loop: exchange two positions if the second is newer. -/
def exchangeAt (sorted : List Sibling) (i j : ℕ) : List Sibling :=
  match sorted[i]?, sorted[j]? with
  | some x, some y => if y.timestamp > x.timestamp then (sorted.set i y).set j x else sorted
  | _, _ => sorted

/-- The inner loop, from `j` on for `n` rounds. -/
def innerLoop (i : ℕ) : ℕ → ℕ → List Sibling → List Sibling
  | 0, _, sorted => sorted
  | n + 1, j, sorted => innerLoop i n (j + 1) (exchangeAt sorted i j)

/-- The outer loop, from `i` on for `n` rounds. -/
def outerLoop : ℕ → ℕ → List Sibling → List Sibling
  | 0, _, sorted => sorted
  | n + 1, i, sorted => outerLoop n (i + 1) (innerLoop i (sorted.length - (i + 1)) (i + 1) sorted)

/-- The loops of `pruneSiblings` over the positions of its copy. -/
def exchangeLoops (siblings : List Sibling) : List Sibling := outerLoop siblings.length 0 siblings

theorem exchangeAt_append (pre mid rest : List Sibling) (x y : Sibling) :
    exchangeAt (pre ++ x :: (mid ++ y :: rest)) pre.length (pre.length + 1 + mid.length) =
      if y.timestamp > x.timestamp then pre ++ y :: (mid ++ x :: rest)
      else pre ++ x :: (mid ++ y :: rest) := by
  have hsecond : pre.length + 1 + mid.length - pre.length = mid.length + 1 := by omega
  unfold exchangeAt
  rw [List.getElem?_append_right (Nat.le_refl _),
    List.getElem?_append_right (by omega : pre.length ≤ pre.length + 1 + mid.length), hsecond,
    Nat.sub_self, List.getElem?_cons_zero, List.getElem?_cons_succ,
    List.getElem?_append_right (Nat.le_refl _), Nat.sub_self, List.getElem?_cons_zero]
  dsimp only
  split_ifs with hnewer
  · rw [List.set_append_right _ _ (Nat.le_refl _), Nat.sub_self, List.set_cons_zero,
      List.set_append_right _ _ (by omega), hsecond, List.set_cons_succ,
      List.set_append_right _ _ (Nat.le_refl _), Nat.sub_self, List.set_cons_zero]
  · rfl

/-- The inner loop brings the front of the rest to its place. -/
theorem innerLoop_append (pre mid rest : List Sibling) (front : Sibling) :
    innerLoop pre.length rest.length (pre.length + 1 + mid.length)
        (pre ++ front :: (mid ++ rest)) =
      pre ++ (exchangePass front rest).1 :: (mid ++ (exchangePass front rest).2) := by
  induction rest generalizing front mid with
  | nil => rfl
  | cons y rest ih =>
    have hnext : ∀ z : Sibling, pre.length + 1 + mid.length + 1 =
        pre.length + 1 + (mid ++ [z]).length := by
      intro z
      rw [List.length_append, List.length_singleton]
      omega
    rw [List.length_cons, innerLoop, exchangeAt_append, exchangePass]
    split_ifs with hnewer
    · have h := ih (mid ++ [front]) y
      rw [List.append_assoc, List.append_assoc, ← hnext front] at h
      exact h
    · have h := ih (mid ++ [y]) front
      rw [List.append_assoc, List.append_assoc, ← hnext y] at h
      exact h

theorem length_exchangePass (front : Sibling) (rest : List Sibling) :
    (exchangePass front rest).2.length = rest.length :=
  Nat.succ.inj (exchangePass_perm front rest).length_eq

/-- The outer loop sorts the rest behind what is already in place. -/
theorem outerLoop_append (pre rest : List Sibling) :
    outerLoop rest.length pre.length (pre ++ rest) = pre ++ exchangeSort rest.length rest := by
  induction hn : rest.length generalizing pre rest with
  | zero =>
    obtain rfl := List.length_eq_zero_iff.1 hn
    rfl
  | succ n ih =>
    cases rest with
    | nil => cases hn
    | cons front rest =>
      have hrest : rest.length = n := Nat.succ.inj hn
      have hrounds : (pre ++ front :: rest).length - (pre.length + 1) = rest.length := by
        rw [List.length_append, List.length_cons]
        omega
      have hinner := innerLoop_append pre [] rest front
      rw [List.nil_append, List.nil_append, List.length_nil, Nat.add_zero] at hinner
      have houter := ih (pre ++ [(exchangePass front rest).1]) (exchangePass front rest).2
        ((length_exchangePass front rest).trans hrest)
      rw [List.length_append, List.length_singleton, List.append_assoc, List.append_assoc] at houter
      rw [outerLoop, hrounds, hinner, exchangeSort]
      exact houter

theorem exchangeLoops_eq (siblings : List Sibling) :
    exchangeLoops siblings = exchangeSort siblings.length siblings :=
  outerLoop_append [] siblings

/-! ## The order -/

/-- After a pass the front is at least as new as everything behind it. -/
theorem timestamp_le_exchangePass (front : Sibling) (rest : List Sibling) :
    front.timestamp ≤ (exchangePass front rest).1.timestamp ∧
      ∀ sib ∈ (exchangePass front rest).2, sib.timestamp ≤ (exchangePass front rest).1.timestamp := by
  induction rest generalizing front with
  | nil => exact ⟨Int64.le_refl _, fun sib h => absurd h List.not_mem_nil⟩
  | cons y rest ih =>
    rw [exchangePass]
    split_ifs with hnewer
    · obtain ⟨hfront, hrest⟩ := ih y
      have hold := Int64.le_trans (Int64.le_of_lt hnewer) hfront
      exact ⟨hold, List.forall_mem_cons.2 ⟨hold, hrest⟩⟩
    · obtain ⟨hfront, hrest⟩ := ih front
      exact ⟨hfront, List.forall_mem_cons.2 ⟨Int64.le_trans (Int64.not_lt.1 hnewer) hfront, hrest⟩⟩

theorem exchangeSort_sorted (l : List Sibling) :
    (exchangeSort l.length l).Pairwise fun a b => b.timestamp ≤ a.timestamp := by
  induction hn : l.length generalizing l with
  | zero =>
    obtain rfl := List.length_eq_zero_iff.1 hn
    exact List.Pairwise.nil
  | succ n ih =>
    cases l with
    | nil => cases hn
    | cons front rest =>
      have hlen := (length_exchangePass front rest).trans (Nat.succ.inj hn)
      rw [exchangeSort]
      refine List.pairwise_cons.2 ⟨fun sib hsib => ?_, ih _ hlen⟩
      exact (timestamp_le_exchangePass front rest).2 sib ((exchangeSort_perm _ _).subset hsib)

/-- The loops of `pruneSiblings` sort its copy, newest first, and the beginning that it returns has
`maxCount` siblings, none of them older than one of those it drops. -/
theorem pruneSiblings_keeps_newest (siblings : List Sibling) (maxCount : ℤ) (hpos : 0 ≤ maxCount)
    (hlen : maxCount < siblings.length) :
    (exchangeLoops siblings).Perm siblings ∧
    ((exchangeLoops siblings).Pairwise fun a b => b.timestamp ≤ a.timestamp) ∧
    pruneSiblings siblings maxCount = (exchangeLoops siblings).take maxCount.toNat ∧
    ((pruneSiblings siblings maxCount).length : ℤ) = maxCount ∧
    ∃ dropped, (pruneSiblings siblings maxCount ++ dropped).Perm siblings ∧
      ∀ d ∈ dropped, ∀ k ∈ pruneSiblings siblings maxCount, d.timestamp ≤ k.timestamp := by
  have hperm : (exchangeLoops siblings).Perm siblings := by
    rw [exchangeLoops_eq]
    exact exchangeSort_perm _ _
  have hsorted : (exchangeLoops siblings).Pairwise fun a b => b.timestamp ≤ a.timestamp := by
    rw [exchangeLoops_eq]
    exact exchangeSort_sorted siblings
  have hkept : pruneSiblings siblings maxCount = (exchangeLoops siblings).take maxCount.toNat := by
    rw [pruneSiblings, if_neg (not_le.2 hlen), exchangeLoops_eq]
  have hcount : ((pruneSiblings siblings maxCount).length : ℤ) = maxCount := by
    rw [hkept, List.length_take, hperm.length_eq]
    omega
  refine ⟨hperm, hsorted, hkept, hcount, (exchangeLoops siblings).drop maxCount.toNat, ?_, ?_⟩
  · rw [hkept, List.take_append_drop]
    exact hperm
  · intro d hd k hk
    rw [hkept] at hk
    rw [← List.take_append_drop maxCount.toNat (exchangeLoops siblings),
      List.pairwise_append] at hsorted
    exact hsorted.2.2 k hk d hd

/-- Three siblings of the seconds 10, 30 and 20. -/
def unsortedSiblings : List Sibling :=
  [⟨[1], VectorClock.new, 10, false, 0⟩, ⟨[2], VectorClock.new, 30, false, 0⟩,
    ⟨[3], VectorClock.new, 20, false, 0⟩]

theorem pruneSiblings_unsortedSiblings :
    ((pruneSiblings unsortedSiblings 2).length : ℤ) = 2 ∧
      exchangeLoops unsortedSiblings =
        [⟨[2], VectorClock.new, 30, false, 0⟩, ⟨[3], VectorClock.new, 20, false, 0⟩,
          ⟨[1], VectorClock.new, 10, false, 0⟩] :=
  ⟨(pruneSiblings_keeps_newest unsortedSiblings 2 (by decide) (by decide)).2.2.2.1,
    by decide +kernel⟩

end GoQuorum
