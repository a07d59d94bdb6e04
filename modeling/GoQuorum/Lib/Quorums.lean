import Mathlib.Data.List.Perm.Subperm
import Mathlib.Data.List.Nodup
import Mathlib.Order.Lattice
import Mathlib.Tactic.Common

/-!
# Quorums

`AtLeast k l P` says that at least `k` different elements of the list `l` satisfy `P`.  Two sets of
elements of one list that together outnumber it have an element in common, so the elements that
satisfy `P` meet every other set that is large enough (`AtLeast.meets`).  An element that satisfies
`P` and joins the list does not lower their number among the first `n` (`AtLeast.of_erase`).
-/

namespace Lib

variable {α : Type} {k n : ℕ} {l : List α} {P Q : α → Prop}

/-- At least `k` different elements of the list satisfy `P`. -/
def AtLeast (k : ℕ) (l : List α) (P : α → Prop) : Prop :=
  ∃ m : List α, m.Nodup ∧ m ⊆ l ∧ k ≤ m.length ∧ ∀ x ∈ m, P x

theorem AtLeast.mono (h : AtLeast k l P) (himp : ∀ x ∈ l, P x → Q x) : AtLeast k l Q := by
  obtain ⟨m, hm, hsub, hlen, hP⟩ := h
  exact ⟨m, hm, hsub, hlen, fun x hx => himp x (hsub hx) (hP x hx)⟩

theorem atLeast_of_forall (hl : l.Nodup) (hk : k ≤ l.length) (h : ∀ x ∈ l, P x) : AtLeast k l P :=
  ⟨l, hl, fun _ hx => hx, hk, h⟩

/-- Two sets of elements that together outnumber the list meet. -/
theorem AtLeast.meets (h : AtLeast k l P) {m : List α} (hm : m.Nodup) (hsub : m ⊆ l)
    (hlen : l.length < k + m.length) : ∃ x ∈ m, P x := by
  obtain ⟨m', hm', hsub', hlen', hP⟩ := h
  by_contra hno
  have hdisjoint : (m' ++ m).Nodup :=
    List.nodup_append.2 ⟨hm', hm, fun x hx y hy e => hno ⟨x, e ▸ hy, hP x hx⟩⟩
  have hle := (hdisjoint.subperm (List.append_subset.2 ⟨hsub', hsub⟩)).length_le
  rw [List.length_append] at hle
  omega

open Classical in
theorem atLeast_iff_countP (hl : l.Nodup) : AtLeast k l P ↔ k ≤ l.countP fun x => decide (P x) := by
  rw [List.countP_eq_length_filter]
  constructor
  · rintro ⟨m, hm, hsub, hlen, hP⟩
    have hfilter : m ⊆ l.filter fun x => decide (P x) :=
      fun x hx => List.mem_filter.2 ⟨hsub hx, decide_eq_true (hP x hx)⟩
    exact hlen.trans (hm.subperm hfilter).length_le
  · intro h
    refine ⟨l.filter fun x => decide (P x), hl.filter _, List.filter_subset_self _, h, fun x hx => ?_⟩
    exact of_decide_eq_true (List.mem_filter.1 hx).2

/-- What is counted by one of two predicates is counted by their sum. -/
theorem countP_le_add {p q r : α → Bool} (h : ∀ x, p x = true → q x = true ∨ r x = true)
    (l : List α) : l.countP p ≤ l.countP q + l.countP r := by
  induction l with
  | nil => exact le_rfl
  | cons x l ih =>
    rw [List.countP_cons, List.countP_cons, List.countP_cons]
    by_cases hp : p x = true
    · rcases h x hp with hq | hr
      · rw [if_pos hp, if_pos hq]
        omega
      · rw [if_pos hp, if_pos hr]
        omega
    · rw [if_neg hp]
      omega

/-- Inserting an element that counts into a list does not lower the count at its beginning. -/
theorem countP_take_erase_le [BEq α] [LawfulBEq α] {x : α} {p : α → Bool} (hx : p x = true) (l : List α)
    (n : ℕ) : ((l.erase x).take n).countP p ≤ (l.take n).countP p := by
  induction l generalizing n with
  | nil => exact le_rfl
  | cons y l ih =>
    cases n with
    | zero => exact le_rfl
    | succ n =>
      by_cases hy : y = x
      · subst hy
        rw [List.erase_cons_head, List.take_succ_cons, List.countP_cons_of_pos hx, List.take_add_one,
          List.countP_append]
        have hlast : (l[n]?.toList).countP p ≤ 1 :=
          List.countP_le_length.trans (by cases l[n]? <;> simp)
        omega
      · rw [List.erase_cons_tail (by simpa using hy), List.take_succ_cons, List.take_succ_cons,
          List.countP_cons, List.countP_cons]
        exact Nat.add_le_add_right (ih n) _

theorem AtLeast.of_erase [BEq α] [LawfulBEq α] {x : α} (h : AtLeast k ((l.erase x).take n) P)
    (hl : l.Nodup) (hx : P x) : AtLeast k (l.take n) P := by
  classical
  rw [atLeast_iff_countP ((hl.erase x).sublist (List.take_sublist _ _))] at h
  rw [atLeast_iff_countP (hl.sublist (List.take_sublist _ _))]
  exact h.trans (countP_take_erase_le (p := fun x => decide (P x)) (decide_eq_true hx) l n)

end Lib
