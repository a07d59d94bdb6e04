import Mathlib.Data.List.Dedup
import Mathlib.Data.List.Perm.Basic

/-!
# Loops over arrays

Counting loops whose body may fail, with their invariant rules, and the bounds-checked write they
use; reading an array is `l[i]?`.  A fold whose steps commute and cancel depends only on what occurs
an odd number of times (`foldl_oddlyOften`).  A counter that goes round modulo `N` meets every value
within `N` rounds (`exists_mod_eq`).
-/

namespace Lib

/-! ## Counting loops -/

section

variable {σ : Type} (body : ℕ → σ → Option σ) {s : σ} {n : ℕ}

/-- `for i := 0; i < n; i++`. -/
def forUp : ℕ → (ℕ → σ → Option σ) → σ → Option σ
  | 0, _, s => some s
  | n + 1, body, s => (forUp n body s).bind (body n)

/-- `for i := n - 1; i >= 0; i--`. -/
def forDown : ℕ → (ℕ → σ → Option σ) → σ → Option σ
  | 0, _, s => some s
  | n + 1, body, s => (body n s).bind (forDown n body)

/-- A loop whose body succeeds and keeps an invariant succeeds and ends with it. -/
theorem forUp_invariant (inv : ℕ → σ → Prop) (h0 : inv 0 s)
    (hstep : ∀ i < n, ∀ s, inv i s → ∃ t, body i s = some t ∧ inv (i + 1) t) :
    ∃ t, forUp n body s = some t ∧ inv n t := by
  induction n with
  | zero => exact ⟨s, rfl, h0⟩
  | succ n ih =>
    obtain ⟨t, ht, hinv⟩ := ih fun i hi => hstep i (Nat.lt_succ_of_lt hi)
    obtain ⟨u, hu, hinv'⟩ := hstep n (Nat.lt_succ_self n) t hinv
    exact ⟨u, by rw [forUp, ht, Option.bind_some, hu], hinv'⟩

theorem forDown_invariant (inv : ℕ → σ → Prop) (h : inv n s)
    (hstep : ∀ i < n, ∀ s, inv (i + 1) s → ∃ t, body i s = some t ∧ inv i t) :
    ∃ t, forDown n body s = some t ∧ inv 0 t := by
  induction n generalizing s with
  | zero => exact ⟨s, rfl, h⟩
  | succ n ih =>
    obtain ⟨t, ht, hinv⟩ := hstep n (Nat.lt_succ_self n) s h
    obtain ⟨u, hu, hinv'⟩ := ih hinv fun i hi => hstep i (Nat.lt_succ_of_lt hi)
    exact ⟨u, by rw [forDown, ht, Option.bind_some, hu], hinv'⟩

end

/-! ## Writes -/

/-- `l[i] = x`; an index out of range fails. -/
def setAt {α : Type} (l : List α) (i : ℕ) (x : α) : Option (List α) :=
  if i < l.length then some (l.set i x) else none

/-- A step of a loop that overwrites a list from the left. -/
theorem setAt_overwritten {α : Type} (l : List α) (x : α) {i : ℕ} (hi : i < l.length) :
    setAt (List.replicate i x ++ l.drop i) i x =
      some (List.replicate (i + 1) x ++ l.drop (i + 1)) := by
  have hroom : i < (List.replicate i x ++ l.drop i).length := by
    rw [List.length_append, List.length_replicate, List.length_drop]
    omega
  rw [setAt, if_pos hroom, List.set_append_right _ _ (by simp), List.length_replicate, Nat.sub_self,
    List.drop_eq_getElem_cons hi, List.set_cons_zero, List.replicate_succ', List.append_assoc]
  rfl

/-! ## Steps that cancel -/

section

variable {α β : Type} [DecidableEq α]

/-- The elements that occur an odd number of times, each once. -/
def oddlyOften (l : List α) : List α := l.dedup.filter fun x => l.count x % 2 = 1

theorem mem_oddlyOften {l : List α} {x : α} : x ∈ oddlyOften l ↔ l.count x % 2 = 1 := by
  rw [oddlyOften, List.mem_filter, List.mem_dedup, decide_eq_true_eq, and_iff_right_iff_imp]
  intro h
  by_contra hx
  rw [List.count_eq_zero.2 hx] at h
  cases h

theorem nodup_oddlyOften (l : List α) : (oddlyOften l).Nodup := (List.nodup_dedup l).filter _

theorem oddlyOften_cons_perm (x : α) (l : List α) :
    (oddlyOften (x :: l)).Perm
      (if x ∈ oddlyOften l then (oddlyOften l).erase x else x :: oddlyOften l) := by
  split_ifs with hx
  · refine (List.perm_ext_iff_of_nodup (nodup_oddlyOften _) ((nodup_oddlyOften l).erase x)).2 ?_
    intro y
    rw [(nodup_oddlyOften l).mem_erase_iff, mem_oddlyOften, mem_oddlyOften, List.count_cons]
    rw [mem_oddlyOften] at hx
    by_cases hxy : x = y
    · subst hxy
      simp only [beq_self_eq_true, if_true, ne_eq, not_true_eq_false, false_and, iff_false]
      omega
    · simp [hxy, Ne.symm hxy]
  · refine (List.perm_ext_iff_of_nodup (nodup_oddlyOften _)
      (List.nodup_cons.2 ⟨hx, nodup_oddlyOften l⟩)).2 ?_
    intro y
    rw [List.mem_cons, mem_oddlyOften, mem_oddlyOften, List.count_cons]
    rw [mem_oddlyOften] at hx
    by_cases hxy : x = y
    · subst hxy
      simp only [beq_self_eq_true, if_true, true_or, iff_true]
      omega
    · simp [hxy, Ne.symm hxy]

/-- Two equal steps cancel, so only what occurs an odd number of times matters. -/
theorem foldl_oddlyOften (f : β → α → β) [RightCommutative f] (hcancel : ∀ s x, f (f s x) x = s)
    (l : List α) (s : β) : l.foldl f s = (oddlyOften l).foldl f s := by
  have hlast : ∀ (l : List α) (x : α), (x :: l).foldl f s = f (l.foldl f s) x := by
    intro l x
    rw [(List.perm_append_singleton x l).symm.foldl_eq, List.foldl_append]
    rfl
  induction l with
  | nil => rfl
  | cons x l ih =>
    rw [hlast, ih, (oddlyOften_cons_perm x l).foldl_eq]
    split_ifs with hx
    · rw [(List.perm_cons_erase hx).foldl_eq, hlast, hcancel]
    · rw [hlast]

end

/-! ## Round robin -/

/-- Among `N` consecutive numbers there is one in each class modulo `N`. -/
theorem exists_mod_eq {N b : ℕ} (r : ℕ) (hb : b < N) : ∃ i, 1 ≤ i ∧ i ≤ N ∧ (r + i) % N = b := by
  have hN : 0 < N := Nat.zero_lt_of_lt hb
  have hr : (r + 1) % N < N := Nat.mod_lt _ hN
  refine ⟨(b + (N - (r + 1) % N)) % N + 1, Nat.le_add_left 1 _, Nat.mod_lt _ hN, ?_⟩
  calc (r + ((b + (N - (r + 1) % N)) % N + 1)) % N
      = ((r + 1) + (b + (N - (r + 1) % N)) % N) % N := by rw [Nat.add_assoc, Nat.add_comm 1]
    _ = ((r + 1) % N + (b + (N - (r + 1) % N))) % N := by rw [Nat.add_mod_mod, Nat.mod_add_mod]
    _ = (b + N) % N := by rw [show (r + 1) % N + (b + (N - (r + 1) % N)) = b + N by omega]
    _ = b := by rw [Nat.add_mod_right, Nat.mod_eq_of_lt hb]

end Lib
