import Mathlib.Algebra.Order.Ring.Nat
import Mathlib.Tactic.Linarith
import Mathlib.Tactic.Ring

/-!
# Complete binary hash trees

A tree over `2 ^ d` leaves, with the hashes of its internal nodes in one list: the root first, then
each level from left to right (`heap`).  A node is a function of its two children, over any type of
hashes.

`subtree` is the hash of a subtree as a function of the leaves, and `getElem?_heap` says where it
stands in the list.  A search from the root downwards that follows the subtrees whose hashes differ
ends at leaves that differ (`diffs_sublist`), and at all of them if the node hash is injective on the
hashes that occur (`diffs_eq`).
-/

namespace Lib

namespace HashTree

variable {α : Type} (node : α → α → α)

/-- The level above a list of nodes. -/
def parents : List α → List α
  | left :: right :: level => node left right :: parents level
  | _ => []

/-- The internal nodes of the tree of depth `d` over a list of leaves, root first. -/
def heap : ℕ → List α → List α
  | 0, _ => []
  | d + 1, leaves => heap d (parents node leaves) ++ parents node leaves

theorem length_parents (level : List α) : (parents node level).length = level.length / 2 := by
  fun_induction parents node level with
  | case1 left right level ih =>
    simp only [List.length_cons, ih]
    omega
  | case2 level h =>
    -- fewer than two nodes have no parent
    rcases level with _ | ⟨a, _ | ⟨b, level⟩⟩
    · simp
    · simp
    · exact absurd rfl (h a b level)

theorem length_heap {d : ℕ} {leaves : List α} (h : leaves.length = 2 ^ d) :
    (heap node d leaves).length = 2 ^ d - 1 := by
  induction d generalizing leaves with
  | zero => rfl
  | succ d ih =>
    have hpar : (parents node leaves).length = 2 ^ d := by
      rw [length_parents, h, pow_succ, Nat.mul_div_cancel _ two_pos]
    have hpos : 0 < 2 ^ d := Nat.two_pow_pos d
    rw [heap, List.length_append, ih hpar, hpar, pow_succ]
    omega

/-! ## Subtrees -/

/-- The hash of the subtree of height `k` at position `i` of its level. -/
def subtree (leaf : ℕ → α) : ℕ → ℕ → α
  | 0, i => leaf i
  | k + 1, i => node (subtree leaf k (2 * i)) (subtree leaf k (2 * i + 1))

theorem getElem?_parents (level : List α) (i : ℕ) :
    (parents node level)[i]? =
      level[2 * i]?.bind fun left => level[2 * i + 1]?.map fun right => node left right := by
  fun_induction parents node level generalizing i with
  | case1 left right level ih =>
    cases i with
    | zero => rfl
    | succ i =>
      rw [List.getElem?_cons_succ, ih, show 2 * (i + 1) = 2 * i + 1 + 1 by omega]
      rfl
  | case2 level h =>
    rcases level with _ | ⟨a, _ | ⟨b, level⟩⟩
    · simp
    · cases i <;> simp
    · exact absurd rfl (h a b level)

/-- A subtree of the level above the leaves is one of the leaves, a level higher. -/
theorem subtree_parents (leaf : ℕ → α) (k i : ℕ) :
    subtree node (fun i => node (leaf (2 * i)) (leaf (2 * i + 1))) k i =
      subtree node leaf (k + 1) i := by
  induction k generalizing i with
  | zero => rfl
  | succ k ih =>
    rw [subtree, ih, ih]
    rfl

/-- Where the hash of a subtree stands in the heap. -/
theorem getElem?_heap {d : ℕ} {leaves : List α} {leaf : ℕ → α} (hlen : leaves.length = 2 ^ d)
    (hleaf : ∀ i < 2 ^ d, leaves[i]? = some (leaf i)) {l i : ℕ} (hl : l < d) (hi : i < 2 ^ l) :
    (heap node d leaves)[2 ^ l - 1 + i]? = some (subtree node leaf (d - l) i) := by
  induction d generalizing leaves leaf with
  | zero => omega
  | succ d ih =>
    have hpar : (parents node leaves).length = 2 ^ d := by
      rw [length_parents, hlen, pow_succ, Nat.mul_div_cancel _ two_pos]
    have hparent : ∀ i < 2 ^ d, (parents node leaves)[i]? =
        some (node (leaf (2 * i)) (leaf (2 * i + 1))) := by
      intro i hi
      rw [getElem?_parents, hleaf _ (by omega), hleaf _ (by omega)]
      rfl
    have hheap := length_heap node hpar
    have hpos : 0 < 2 ^ l := Nat.two_pow_pos l
    rw [heap]
    rcases (Nat.lt_succ_iff.1 hl).eq_or_lt with rfl | hlt
    · -- the level above the leaves
      rw [List.getElem?_append_right (by omega), hheap, Nat.add_sub_cancel_left, hparent i hi,
        Nat.add_sub_cancel_left]
      rfl
    · have hpow : 2 ^ (l + 1) ≤ 2 ^ d := Nat.pow_le_pow_right two_pos hlt
      rw [pow_succ] at hpow
      rw [List.getElem?_append_left (by omega), ih hpar hparent hlt, subtree_parents,
        Nat.succ_sub (Nat.lt_succ_iff.1 hl)]

variable {node} {a b : ℕ → α}

/-- The node hash tells apart the pairs of hashes that occur. -/
def InjOn (node : α → α → α) (occurs : α → Prop) : Prop :=
  ∀ l r l' r', occurs l → occurs r → occurs l' → occurs r' → node l r = node l' r' →
    l = l' ∧ r = r'

/-- Equal hashes come from equal leaves. -/
theorem eq_of_subtree_eq {occurs : α → Prop} (hinj : InjOn node occurs) {d : ℕ}
    (ha : ∀ k < d, ∀ i < 2 ^ (d - k), occurs (subtree node a k i))
    (hb : ∀ k < d, ∀ i < 2 ^ (d - k), occurs (subtree node b k i)) {k i : ℕ} (hk : k ≤ d)
    (hi : i < 2 ^ (d - k)) (h : subtree node a k i = subtree node b k i) {j : ℕ}
    (hle : i * 2 ^ k ≤ j) (hlt : j < (i + 1) * 2 ^ k) : a j = b j := by
  induction k generalizing i with
  | zero =>
    obtain rfl : j = i := by omega
    exact h
  | succ k ih =>
    have hwidth : 2 ^ (d - k) = 2 * 2 ^ (d - (k + 1)) := by
      rw [show d - k = d - (k + 1) + 1 by omega, pow_succ, mul_comm]
    have hleft : 2 * i < 2 ^ (d - k) := by omega
    have hright : 2 * i + 1 < 2 ^ (d - k) := by omega
    obtain ⟨hl, hr⟩ := hinj _ _ _ _ (ha k hk _ hleft) (ha k hk _ hright) (hb k hk _ hleft)
      (hb k hk _ hright) h
    rcases lt_or_ge j ((2 * i + 1) * 2 ^ k) with hj | hj
    · exact ih (by omega) hleft hl (by rw [pow_succ] at hle; linarith) hj
    · exact ih (by omega) hright hr hj (by rw [pow_succ] at hlt; linarith)

/-! ## Differences -/

section

variable [DecidableEq α] (node a b)

/-- The leaves at which a search from a subtree downwards ends, if it follows the subtrees whose
hashes differ. -/
def diffs : ℕ → ℕ → List ℕ
  | 0, i => [i]
  | k + 1, i =>
    (if subtree node a k (2 * i) ≠ subtree node b k (2 * i) then diffs k (2 * i) else []) ++
      if subtree node a k (2 * i + 1) ≠ subtree node b k (2 * i + 1) then diffs k (2 * i + 1) else []

/-- The leaves of a subtree that differ. -/
def differing (k i : ℕ) : List ℕ := (List.range' (i * 2 ^ k) (2 ^ k)).filter fun j => a j ≠ b j

end

variable [DecidableEq α]

theorem differing_succ (k i : ℕ) :
    differing a b (k + 1) i = differing a b k (2 * i) ++ differing a b k (2 * i + 1) := by
  have hsplit : List.range' (i * 2 ^ (k + 1)) (2 ^ (k + 1)) =
      List.range' (2 * i * 2 ^ k) (2 ^ k) ++ List.range' ((2 * i + 1) * 2 ^ k) (2 ^ k) := by
    rw [show i * 2 ^ (k + 1) = 2 * i * 2 ^ k by ring,
      show (2 * i + 1) * 2 ^ k = 2 * i * 2 ^ k + 2 ^ k by ring, List.range'_append_1, pow_succ,
      mul_two]
  rw [differing, hsplit, List.filter_append]
  rfl

/-- A search that starts where hashes differ ends at leaves that differ, in order. -/
theorem diffs_sublist {k i : ℕ} (h : subtree node a k i ≠ subtree node b k i) :
    (diffs node a b k i).Sublist (differing a b k i) := by
  induction k generalizing i with
  | zero =>
    have hdiffer : a i ≠ b i := h
    simp [diffs, differing, hdiffer]
  | succ k ih =>
    rw [differing_succ, diffs]
    apply List.Sublist.append
    · split_ifs with hl
      · exact ih hl
      · exact List.nil_sublist _
    · split_ifs with hr
      · exact ih hr
      · exact List.nil_sublist _

section

variable {occurs : α → Prop} (hinj : InjOn node occurs) {d : ℕ}
  (ha : ∀ k < d, ∀ i < 2 ^ (d - k), occurs (subtree node a k i))
  (hb : ∀ k < d, ∀ i < 2 ^ (d - k), occurs (subtree node b k i)) {k i : ℕ}
include hinj ha hb

theorem differing_eq_nil (hk : k ≤ d) (hi : i < 2 ^ (d - k))
    (h : subtree node a k i = subtree node b k i) : differing a b k i = [] := by
  refine List.filter_eq_nil_iff.2 fun j hj => ?_
  rw [List.mem_range'_1] at hj
  have hlt : j < (i + 1) * 2 ^ k := by linarith [hj.2]
  simp [eq_of_subtree_eq hinj ha hb hk hi h hj.1 hlt]

/-- A search finds all leaves that differ if the node hash is injective on what occurs. -/
theorem diffs_eq (hk : k ≤ d) (hi : i < 2 ^ (d - k))
    (h : subtree node a k i ≠ subtree node b k i) :
    diffs node a b k i = differing a b k i := by
  induction k generalizing i with
  | zero =>
    have hdiffer : a i ≠ b i := h
    simp [diffs, differing, hdiffer]
  | succ k ih =>
    have hwidth : 2 ^ (d - k) = 2 * 2 ^ (d - (k + 1)) := by
      rw [show d - k = d - (k + 1) + 1 by omega, pow_succ, mul_comm]
    rw [differing_succ, diffs]
    congr 1
    · split_ifs with hl
      · exact ih (by omega) (by omega) hl
      · exact (differing_eq_nil hinj ha hb (by omega) (by omega) (not_not.1 hl)).symm
    · split_ifs with hr
      · exact ih (by omega) (by omega) hr
      · exact (differing_eq_nil hinj ha hb (by omega) (by omega) (not_not.1 hr)).symm

end

end HashTree

end Lib
