import Mathlib.Data.List.Sort

/-!
# Sorting without stability

A sort that promises no stability may return any sorted permutation of its input.  `SliceSort`
is one such choice, made for every list at once: a result about all of them is a result about
every order that elements the comparison does not separate can come out in.

A test that is monotone along a sorted list splits it where a search finds its first success
(`drop_findIdx_of_monotone`, `take_findIdx_of_monotone`), and binary search finds that place
(`search_eq_findIdx`).
-/

namespace Lib

/-- A way to sort every list by a comparison, ties in any order. -/
structure SliceSort (α : Type) (less : α → α → Bool) where
  run : List α → List α
  perm : ∀ l, (run l).Perm l
  sorted : ∀ l, (run l).Pairwise fun a b => less b a = false

namespace SliceSort

variable {α : Type} {less : α → α → Bool}

theorem mem_run (s : SliceSort α less) {l : List α} {a : α} : a ∈ s.run l ↔ a ∈ l :=
  (s.perm l).mem_iff

/-- Insertion sort, for a comparison that is the strict part of a total preorder. -/
def insertion (total : ∀ a b, less b a = false ∨ less a b = false)
    (trans : ∀ a b c, less b a = false → less c b = false → less c a = false) :
    SliceSort α less where
  run := List.insertionSort fun a b => less b a = false
  perm := List.perm_insertionSort _
  sorted l :=
    have : Std.Total fun a b => less b a = false := ⟨total⟩
    have : IsTrans α fun a b => less b a = false := ⟨trans⟩
    List.pairwise_insertionSort _ l

end SliceSort

/-! ## Searching a sorted list -/

section Search

variable {α : Type} {p : α → Bool} {l : List α}

/-- From the first element that a monotone test accepts on, it accepts all. -/
theorem drop_findIdx_of_monotone (h : l.Pairwise fun a b => p a = true → p b = true) :
    l.drop (l.findIdx p) = l.filter p := by
  induction l with
  | nil => rfl
  | cons a l ih =>
    obtain ⟨ha, hl⟩ := List.pairwise_cons.1 h
    cases hp : p a with
    | true =>
      have hall : (a :: l).filter p = a :: l :=
        List.filter_eq_self.2 (List.forall_mem_cons.2 ⟨hp, fun b hb => ha b hb hp⟩)
      rw [hall, List.findIdx_cons, hp, cond_true, List.drop_zero]
    | false =>
      rw [List.findIdx_cons, hp, cond_false, List.drop_succ_cons, ih hl,
        List.filter_cons_of_neg (by simp [hp])]

/-- Before the first element that a monotone test accepts stand those it does not accept. -/
theorem take_findIdx_of_monotone (h : l.Pairwise fun a b => p a = true → p b = true) :
    l.take (l.findIdx p) = l.filter fun a => !p a := by
  induction l with
  | nil => rfl
  | cons a l ih =>
    obtain ⟨ha, hl⟩ := List.pairwise_cons.1 h
    cases hp : p a with
    | true =>
      have hnone : (a :: l).filter (fun a => !p a) = [] := by
        refine List.filter_eq_nil_iff.2 (List.forall_mem_cons.2 ⟨by simp [hp], fun b hb => ?_⟩)
        simp [ha b hb hp]
      rw [hnone, List.findIdx_cons, hp, cond_true, List.take_zero]
    | false =>
      rw [List.findIdx_cons, hp, cond_false, List.take_succ_cons, ih hl,
        List.filter_cons_of_pos (by simp [hp])]

end Search

/-! ## Binary search -/

section BinarySearch

variable {f : ℕ → Option Bool}

/-- The loop of a binary search between `i` and `j`, by a test that may fail. -/
def searchLoop (f : ℕ → Option Bool) : ℕ → ℕ → ℕ → Option ℕ
  | 0, _, _ => none
  | fuel + 1, i, j =>
    if i < j then
      (f ((i + j) / 2)).bind fun found =>
        if found then searchLoop f fuel i ((i + j) / 2) else searchLoop f fuel ((i + j) / 2 + 1) j
    else some i

/-- `sort.Search`: the first index below `n` that passes the test, or `n`. -/
def search (n : ℕ) (f : ℕ → Option Bool) : Option ℕ := searchLoop f (n + 1) 0 n

/-- The loop keeps the place it looks for between its bounds. -/
theorem searchLoop_eq {m n : ℕ} (hf : ∀ k < n, f k = some (decide (m ≤ k))) {fuel i j : ℕ}
    (hi : i ≤ m) (hj : m ≤ j) (hn : j ≤ n) (hfuel : j - i < fuel) :
    searchLoop f fuel i j = some m := by
  induction fuel generalizing i j with
  | zero => omega
  | succ fuel ih =>
    rw [searchLoop]
    split_ifs with hlt
    · rw [hf _ (by omega), Option.bind_some]
      by_cases hm : m ≤ (i + j) / 2
      · rw [if_pos (decide_eq_true hm)]
        exact ih hi hm (by omega) (by omega)
      · rw [if_neg (by simpa using hm)]
        exact ih (by omega) hj hn (by omega)
    · exact congrArg some (by omega)

/-- Binary search for a test that is monotone along a list. -/
theorem search_eq_findIdx {α : Type} {p : α → Bool} {l : List α}
    (h : l.Pairwise fun a b => p a = true → p b = true) :
    search l.length (fun i => l[i]?.map p) = some (l.findIdx p) := by
  refine searchLoop_eq (fun k hk => ?_) (Nat.zero_le _) List.findIdx_le_length le_rfl
    (Nat.lt_succ_self _)
  rw [List.getElem?_eq_getElem hk, Option.map_some]
  refine congrArg some ?_
  rcases lt_or_ge k (l.findIdx p) with hlt | hge
  · rw [List.not_of_lt_findIdx hlt, decide_eq_false (by omega)]
  · have hfirst : p (l[l.findIdx p]) = true := List.findIdx_getElem (w := hge.trans_lt hk)
    rw [decide_eq_true hge]
    rcases hge.eq_or_lt with heq | hlt
    · simpa only [heq] using hfirst
    · exact List.pairwise_iff_getElem.1 h _ _ _ hk hlt hfirst

end BinarySearch

end Lib
