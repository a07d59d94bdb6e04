import Mathlib.Order.Lattice
import Mathlib.Order.Defs.LinearOrder

/-!
# Last writer wins

A register holds at most one value.  An incoming value replaces it if its stamp is strictly larger,
so of several values with the same stamp the first stays.  After a list of values the register holds
what it held or one of the newest of the list (`acceptAll_cases`); where there is only one newest,
neither order nor repetitions matter (`acceptAll_congr`).
-/

namespace Lib

variable {α τ : Type} [LinearOrder τ] (stamp : α → τ)

/-- A value is newer than what a register holds. -/
def Newer (held : Option α) (x : α) : Prop := ∀ y ∈ held, stamp y < stamp x

instance decidableNewer (held : Option α) (x : α) : Decidable (Newer stamp held x) :=
  match held with
  | none => isTrue fun _ h => by cases h
  | some y => decidable_of_iff (stamp y < stamp x) (by simp [Newer])

/-- The register after an incoming value. -/
def accept (held : Option α) (x : α) : Option α := if Newer stamp held x then some x else held

/-- The register after a list of incoming values. -/
def acceptAll (held : Option α) (l : List α) : Option α := l.foldl (accept stamp) held

/-- A value of the list that is newer than what is held, and as new as any of the list. -/
def Newest (held : Option α) (l : List α) (x : α) : Prop :=
  x ∈ l ∧ Newer stamp held x ∧ ∀ y ∈ l, stamp y ≤ stamp x

variable {stamp} {held : Option α} {l l' : List α} {x y : α}

theorem newer_some_iff : Newer stamp (some y) x ↔ stamp y < stamp x := by
  simp [Newer]

/-- What is not newer than the register holds is at most as new as anything that is. -/
theorem Newer.le_of_not_newer (hx : Newer stamp held x) (hy : ¬ Newer stamp held y) :
    stamp y ≤ stamp x := by
  cases held with
  | none => exact absurd (fun _ h => by cases h) hy
  | some z =>
    rw [newer_some_iff] at hx hy
    exact le_trans (not_lt.1 hy) (le_of_lt hx)

theorem Newer.trans (hx : Newer stamp held x) (hy : stamp x ≤ stamp y) : Newer stamp held y :=
  fun z hz => lt_of_lt_of_le (hx z hz) hy

/-- A register keeps what it holds, or ends with one of the newest values. -/
theorem acceptAll_cases (stamp : α → τ) (held : Option α) (l : List α) :
    (acceptAll stamp held l = held ∧ ∀ x ∈ l, ¬ Newer stamp held x) ∨
      ∃ x, acceptAll stamp held l = some x ∧ Newest stamp held l x := by
  induction l generalizing held with
  | nil => exact Or.inl ⟨rfl, fun _ h => by cases h⟩
  | cons a l ih =>
    have hcons : acceptAll stamp held (a :: l) = acceptAll stamp (accept stamp held a) l := rfl
    by_cases ha : Newer stamp held a
    · rw [hcons, accept, if_pos ha]
      rcases ih (some a) with ⟨heq, hnone⟩ | ⟨x, heq, hmem, hnew, hmax⟩
      · refine Or.inr ⟨a, heq, List.mem_cons_self, ha, List.forall_mem_cons.2 ⟨le_rfl, ?_⟩⟩
        exact fun y hy => not_lt.1 (mt newer_some_iff.2 (hnone y hy))
      · have hlt := newer_some_iff.1 hnew
        exact Or.inr ⟨x, heq, List.mem_cons_of_mem _ hmem, ha.trans (le_of_lt hlt),
          List.forall_mem_cons.2 ⟨le_of_lt hlt, hmax⟩⟩
    · rw [hcons, accept, if_neg ha]
      rcases ih held with ⟨heq, hnone⟩ | ⟨x, heq, hmem, hnew, hmax⟩
      · exact Or.inl ⟨heq, List.forall_mem_cons.2 ⟨ha, hnone⟩⟩
      · exact Or.inr ⟨x, heq, List.mem_cons_of_mem _ hmem, hnew,
          List.forall_mem_cons.2 ⟨hnew.le_of_not_newer ha, hmax⟩⟩

theorem newest_congr (h : ∀ x, x ∈ l ↔ x ∈ l') : Newest stamp held l x ↔ Newest stamp held l' x := by
  simp only [Newest, h]

/-- With at most one newest value, lists of the same values have the same effect. -/
theorem acceptAll_congr (hunique : ∀ x y, Newest stamp held l x → Newest stamp held l y → x = y)
    (h : ∀ x, x ∈ l' ↔ x ∈ l) : acceptAll stamp held l' = acceptAll stamp held l := by
  rcases acceptAll_cases stamp held l with ⟨heq, hnone⟩ | ⟨x, heq, hx⟩
  · rcases acceptAll_cases stamp held l' with ⟨heq', -⟩ | ⟨y, -, hy⟩
    · rw [heq, heq']
    · exact absurd hy.2.1 (hnone y ((h y).1 hy.1))
  · rcases acceptAll_cases stamp held l' with ⟨-, hnone⟩ | ⟨y, heq', hy⟩
    · exact absurd hx.2.1 (hnone x ((h x).2 hx.1))
    · rw [heq, heq', hunique x y hx ((newest_congr h).1 hy)]

/-- A newest value that comes first stays. -/
theorem acceptAll_cons_newest (h : Newest stamp held l x) :
    acceptAll stamp held (x :: l) = some x := by
  have hcons : acceptAll stamp held (x :: l) = acceptAll stamp (accept stamp held x) l := rfl
  rw [hcons, accept, if_pos h.2.1]
  rcases acceptAll_cases stamp (some x) l with ⟨heq, -⟩ | ⟨y, -, hmem, hnew, -⟩
  · exact heq
  · exact absurd (newer_some_iff.1 hnew) (not_lt.2 (h.2.2 y hmem))

end Lib
