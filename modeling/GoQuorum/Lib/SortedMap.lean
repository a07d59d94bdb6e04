import Mathlib.Data.List.Basic
import Mathlib.Data.List.Pairwise
import Mathlib.Data.List.Perm.Basic
import Mathlib.Data.List.Sort
import Mathlib.Order.Defs.LinearOrder
import Mathlib.Algebra.BigOperators.Group.List.Basic
import Mathlib.Algebra.GroupWithZero.Nat

/-!
# Finite maps as strictly sorted association lists

`SortedMap κ ν` is the finite map from `κ` to `ν` whose entries are listed in strictly increasing
key order.  The order is a field of the structure, so a map has exactly one representation:
two maps with the same lookups are equal (`SortedMap.ext_get?`).  The representation models both
hash maps, whose iteration order a program must not depend on, and ordered key spaces, whose
iterators go through the keys in order.

`get?`, `insert`, `erase` and `filter` are computable and structurally recursive.  Each comes with
its lookup equation, and `ofList` rebuilds a map from its entries (`ofList_toList`).
-/

namespace Lib

/-- A finite map whose entries are listed in strictly increasing key order. -/
structure SortedMap (κ ν : Type) [LinearOrder κ] where
  toList : List (κ × ν)
  sorted : toList.Pairwise fun a b => a.1 < b.1

namespace SortedMap

variable {κ ν : Type} [LinearOrder κ]

/-! ## Entry lists -/

/-- The value listed first under a key. -/
def lookup (k : κ) : List (κ × ν) → Option ν
  | [] => none
  | p :: l => if p.1 = k then some p.2 else lookup k l

/-- Insertion at the place the order gives, replacing an entry with the same key. -/
def insertEntry (k : κ) (v : ν) : List (κ × ν) → List (κ × ν)
  | [] => [(k, v)]
  | p :: l =>
    if k < p.1 then (k, v) :: p :: l
    else if k = p.1 then (k, v) :: l
    else p :: insertEntry k v l

theorem lookup_insertEntry (k k' : κ) (v : ν) (l : List (κ × ν)) :
    lookup k' (insertEntry k v l) = if k = k' then some v else lookup k' l := by
  induction l with
  | nil => rfl
  | cons p l ih =>
    rw [insertEntry]
    by_cases h1 : k < p.1
    · rw [if_pos h1]
      rfl
    rw [if_neg h1]
    by_cases h2 : k = p.1
    · rw [if_pos h2]
      simp only [lookup, ← h2]
      split_ifs <;> rfl
    · rw [if_neg h2, lookup, ih, lookup]
      by_cases h3 : k = k'
      · rw [if_pos h3, if_pos h3, if_neg (h3 ▸ Ne.symm h2)]
      · rw [if_neg h3, if_neg h3]

theorem mem_insertEntry {k : κ} {v : ν} {p : κ × ν} {l : List (κ × ν)}
    (h : p ∈ insertEntry k v l) : p = (k, v) ∨ p ∈ l := by
  induction l with
  | nil => exact Or.inl (List.mem_singleton.1 h)
  | cons q l ih =>
    rw [insertEntry] at h
    split_ifs at h
    · exact List.mem_cons.1 h
    · rcases List.mem_cons.1 h with h | h
      · exact Or.inl h
      · exact Or.inr (List.mem_cons_of_mem _ h)
    · rcases List.mem_cons.1 h with h | h
      · exact Or.inr (h ▸ List.mem_cons_self)
      · exact (ih h).imp_right (List.mem_cons_of_mem _)

theorem sorted_insertEntry (k : κ) (v : ν) {l : List (κ × ν)}
    (h : l.Pairwise fun a b => a.1 < b.1) :
    (insertEntry k v l).Pairwise fun a b => a.1 < b.1 := by
  induction l with
  | nil => exact List.pairwise_singleton _ _
  | cons p l ih =>
    obtain ⟨hp, hl⟩ := List.pairwise_cons.1 h
    rw [insertEntry]
    split_ifs with h1 h2
    · refine List.pairwise_cons.2 ⟨fun q hq => ?_, h⟩
      rcases List.mem_cons.1 hq with rfl | hq
      · exact h1
      · exact h1.trans (hp q hq)
    · subst h2
      exact List.pairwise_cons.2 ⟨hp, hl⟩
    · refine List.pairwise_cons.2 ⟨fun q hq => ?_, ih hl⟩
      rcases mem_insertEntry hq with rfl | hq
      · exact lt_of_le_of_ne (not_lt.1 h1) (Ne.symm h2)
      · exact hp q hq

theorem mem_of_lookup {k : κ} {v : ν} {l : List (κ × ν)} (h : lookup k l = some v) :
    (k, v) ∈ l := by
  induction l with
  | nil => cases h
  | cons p l ih =>
    rw [lookup] at h
    split_ifs at h with hk
    · obtain rfl := Option.some.inj h
      exact hk ▸ List.mem_cons_self
    · exact List.mem_cons_of_mem _ (ih h)

theorem lookup_of_mem {k : κ} {v : ν} {l : List (κ × ν)}
    (hs : l.Pairwise fun a b => a.1 < b.1) (h : (k, v) ∈ l) : lookup k l = some v := by
  induction l with
  | nil => cases h
  | cons p l ih =>
    obtain ⟨hp, hl⟩ := List.pairwise_cons.1 hs
    rw [lookup]
    rcases List.mem_cons.1 h with rfl | h
    · rw [if_pos rfl]
    · rw [if_neg (ne_of_lt (hp _ h)), ih hl h]

theorem lookup_eq_none_of_lt {k : κ} {l : List (κ × ν)} (h : ∀ p ∈ l, k < p.1) :
    lookup k l = none := by
  rcases hk : lookup k l with _ | v
  · rfl
  · exact absurd (h _ (mem_of_lookup hk)) (lt_irrefl k)

/-! ## Maps -/

/-- The empty map. -/
def empty : SortedMap κ ν := ⟨[], List.Pairwise.nil⟩

/-- The value stored under a key. -/
def get? (m : SortedMap κ ν) (k : κ) : Option ν := lookup k m.toList

/-- Store a value under a key, replacing the value stored there. -/
def insert (m : SortedMap κ ν) (k : κ) (v : ν) : SortedMap κ ν :=
  ⟨insertEntry k v m.toList, sorted_insertEntry k v m.sorted⟩

/-- Keep the entries that satisfy a predicate. -/
def filter (m : SortedMap κ ν) (p : κ → ν → Bool) : SortedMap κ ν :=
  ⟨m.toList.filter fun e => p e.1 e.2, m.sorted.filter _⟩

/-- Remove a key. -/
def erase (m : SortedMap κ ν) (k : κ) : SortedMap κ ν := m.filter fun k' _ => k' ≠ k

/-- The keys in increasing order. -/
def keys (m : SortedMap κ ν) : List κ := m.toList.map Prod.fst

/-- The number of entries. -/
def size (m : SortedMap κ ν) : ℕ := m.toList.length

/-- The map that holds the listed entries, a later entry replacing an earlier one. -/
def ofList (l : List (κ × ν)) : SortedMap κ ν := l.foldl (fun m e => m.insert e.1 e.2) empty

/-- Apply a function to the values. -/
def mapVal {μ : Type} (f : κ → ν → μ) (m : SortedMap κ ν) : SortedMap κ μ :=
  ⟨m.toList.map fun e => (e.1, f e.1 e.2), List.pairwise_map.2 m.sorted⟩

instance [DecidableEq ν] : DecidableEq (SortedMap κ ν) := fun a b =>
  decidable_of_iff (a.toList = b.toList) ⟨fun h => by cases a; cases b; cases h; rfl, congrArg _⟩

theorem toList_inj {a b : SortedMap κ ν} (h : a.toList = b.toList) : a = b := by
  cases a
  cases b
  cases h
  rfl

theorem mem_toList_iff {m : SortedMap κ ν} {k : κ} {v : ν} :
    (k, v) ∈ m.toList ↔ m.get? k = some v :=
  ⟨lookup_of_mem m.sorted, mem_of_lookup⟩

theorem mem_keys_iff {m : SortedMap κ ν} {k : κ} : k ∈ m.keys ↔ ∃ v, m.get? k = some v := by
  simp only [keys, List.mem_map, Prod.exists, exists_and_right, exists_eq_right, mem_toList_iff]

theorem nodup_keys (m : SortedMap κ ν) : m.keys.Nodup :=
  List.pairwise_map.2 (m.sorted.imp fun h => ne_of_lt h)

theorem nodup_toList (m : SortedMap κ ν) : m.toList.Nodup :=
  m.sorted.imp fun h e => absurd (congrArg Prod.fst e) (ne_of_lt h)

/-- A map is determined by its lookups. -/
theorem ext_get? {a b : SortedMap κ ν} (h : ∀ k, a.get? k = b.get? k) : a = b := by
  have hp : a.toList.Perm b.toList := by
    rw [List.perm_ext_iff_of_nodup a.nodup_toList b.nodup_toList]
    rintro ⟨k, v⟩
    rw [mem_toList_iff, mem_toList_iff, h]
  exact toList_inj (hp.eq_of_pairwise (fun _ _ _ _ h₁ h₂ => absurd h₁ (lt_asymm h₂))
    a.sorted b.sorted)

@[simp] theorem get?_empty (k : κ) : (empty : SortedMap κ ν).get? k = none := rfl

theorem get?_insert (m : SortedMap κ ν) (k k' : κ) (v : ν) :
    (m.insert k v).get? k' = if k = k' then some v else m.get? k' :=
  lookup_insertEntry k k' v m.toList

@[simp] theorem get?_insert_self (m : SortedMap κ ν) (k : κ) (v : ν) :
    (m.insert k v).get? k = some v := by
  rw [get?_insert, if_pos rfl]

theorem get?_insert_of_ne (m : SortedMap κ ν) {k k' : κ} (h : k ≠ k') (v : ν) :
    (m.insert k v).get? k' = m.get? k' := by
  rw [get?_insert, if_neg h]

theorem get?_filter_eq_some (m : SortedMap κ ν) (p : κ → ν → Bool) (k : κ) (v : ν) :
    (m.filter p).get? k = some v ↔ m.get? k = some v ∧ p k v = true := by
  rw [← mem_toList_iff, ← mem_toList_iff]
  exact List.mem_filter

/-- A filter that keeps every entry keeps the map, and only such a one. -/
theorem filter_eq_self_iff {m : SortedMap κ ν} {p : κ → ν → Bool} :
    m.filter p = m ↔ ∀ q ∈ m.toList, p q.1 q.2 = true := by
  constructor
  · intro h
    exact List.filter_eq_self.1 (congrArg toList h)
  · intro h
    exact toList_inj (List.filter_eq_self.2 h)

@[simp] theorem get?_erase_self (m : SortedMap κ ν) (k : κ) : (m.erase k).get? k = none := by
  rcases h : (m.erase k).get? k with _ | v
  · rfl
  · have := ((get?_filter_eq_some m _ k v).1 h).2
    simp at this

theorem get?_erase_of_ne (m : SortedMap κ ν) {k k' : κ} (h : k' ≠ k) :
    (m.erase k).get? k' = m.get? k' := by
  apply Option.ext
  intro v
  rw [erase, get?_filter_eq_some]
  simp [h]

theorem erase_insert (m : SortedMap κ ν) (k : κ) (v : ν) : (m.insert k v).erase k = m.erase k := by
  apply ext_get?
  intro k'
  by_cases h : k' = k
  · rw [h, get?_erase_self, get?_erase_self]
  · rw [get?_erase_of_ne _ h, get?_erase_of_ne _ h, get?_insert_of_ne _ (Ne.symm h)]

theorem erase_of_get?_eq_none {m : SortedMap κ ν} {k : κ} (h : m.get? k = none) : m.erase k = m := by
  apply ext_get?
  intro k'
  by_cases hk : k' = k
  · rw [hk, get?_erase_self, h]
  · rw [get?_erase_of_ne _ hk]

/-- The entries of a map, up to order: one that is present, and the others. -/
theorem toList_perm_cons_erase {m : SortedMap κ ν} {k : κ} {v : ν} (h : m.get? k = some v) :
    m.toList.Perm ((k, v) :: (m.erase k).toList) := by
  have hnotMem : (k, v) ∉ (m.erase k).toList := by
    rw [mem_toList_iff, get?_erase_self]
    exact nofun
  refine (List.perm_ext_iff_of_nodup m.nodup_toList
    (List.nodup_cons.2 ⟨hnotMem, (m.erase k).nodup_toList⟩)).2 ?_
  rintro ⟨k', v'⟩
  rw [List.mem_cons, mem_toList_iff, mem_toList_iff]
  by_cases hk : k' = k
  · rw [hk, get?_erase_self, h]
    simp [eq_comm]
  · rw [get?_erase_of_ne _ hk]
    simp [hk]

theorem get?_mapVal {μ : Type} (f : κ → ν → μ) (m : SortedMap κ ν) (k : κ) :
    (m.mapVal f).get? k = (m.get? k).map (f k) := by
  change lookup k (m.toList.map fun e => (e.1, f e.1 e.2)) = (lookup k m.toList).map (f k)
  induction m.toList with
  | nil => rfl
  | cons p l ih =>
    simp only [List.map_cons, lookup]
    split_ifs with h
    · subst h
      rfl
    · exact ih

theorem mapVal_insert {μ : Type} (f : κ → ν → μ) (m : SortedMap κ ν) (k : κ) (v : ν) :
    (m.insert k v).mapVal f = (m.mapVal f).insert k (f k v) := by
  refine ext_get? fun k' => ?_
  rw [get?_mapVal, get?_insert, get?_insert, get?_mapVal]
  split_ifs with h
  · rw [h, Option.map_some]
  · rfl

theorem mapVal_erase {μ : Type} (f : κ → ν → μ) (m : SortedMap κ ν) (k : κ) :
    (m.erase k).mapVal f = (m.mapVal f).erase k := by
  refine ext_get? fun k' => ?_
  by_cases h : k' = k
  · rw [h, get?_mapVal, get?_erase_self, get?_erase_self, Option.map_none]
  · rw [get?_mapVal, get?_erase_of_ne _ h, get?_erase_of_ne _ h, get?_mapVal]

/-- Inserting the entries of a sorted list one by one makes their lookups visible. -/
theorem get?_foldl_insert (l : List (κ × ν)) (hs : l.Pairwise fun a b => a.1 < b.1)
    (m : SortedMap κ ν) (k : κ) :
    (l.foldl (fun m e => m.insert e.1 e.2) m).get? k = (lookup k l).or (m.get? k) := by
  induction l generalizing m with
  | nil => rfl
  | cons p l ih =>
    obtain ⟨hp, hl⟩ := List.pairwise_cons.1 hs
    rw [List.foldl_cons, ih hl, get?_insert, lookup]
    split_ifs with h
    · subst h
      rw [lookup_eq_none_of_lt hp]
      rfl
    · rfl

@[simp] theorem ofList_toList (m : SortedMap κ ν) : ofList m.toList = m := by
  apply ext_get?
  intro k
  rw [ofList, get?_foldl_insert _ m.sorted, get?_empty, Option.or_none]
  rfl

/-! ## Merging -/

/-- In a list without repeated keys a value is found exactly if it is listed. -/
theorem lookup_eq_some_iff {l : List (κ × ν)} (hl : (l.map Prod.fst).Nodup) {k : κ} {v : ν} :
    lookup k l = some v ↔ (k, v) ∈ l := by
  refine ⟨mem_of_lookup, fun h => ?_⟩
  induction l with
  | nil => cases h
  | cons p l ih =>
    obtain ⟨hp, hl⟩ := List.nodup_cons.1 hl
    rw [lookup]
    rcases List.mem_cons.1 h with rfl | h
    · rw [if_pos rfl]
    · have hne : p.1 ≠ k := fun e => hp (List.mem_map.2 ⟨(k, v), h, e.symm⟩)
      rw [if_neg hne, ih hl h]

/-- The order of a list without repeated keys does not matter for lookups. -/
theorem lookup_perm {l l' : List (κ × ν)} (h : l.Perm l') (hl : (l.map Prod.fst).Nodup) (k : κ) :
    lookup k l = lookup k l' := by
  have hl' : (l'.map Prod.fst).Nodup := (h.map Prod.fst).nodup_iff.1 hl
  apply Option.ext
  intro v
  rw [lookup_eq_some_iff hl, lookup_eq_some_iff hl', h.mem_iff]

/-- Insert an entry, combined with the one that its key already has. -/
def insertWith (f : ν → ν → ν) (m : SortedMap κ ν) (k : κ) (v : ν) : SortedMap κ ν :=
  m.insert k ((m.get? k).elim v fun u => f u v)

theorem get?_insertWith (f : ν → ν → ν) (m : SortedMap κ ν) (k k' : κ) (v : ν) :
    (m.insertWith f k v).get? k' =
      if k = k' then (m.get? k).merge f (some v) else m.get? k' := by
  rw [insertWith, get?_insert]
  cases m.get? k <;> rfl

/-- Merging entries with different keys one by one merges, for each key, the two values. -/
theorem get?_foldl_insertWith (f : ν → ν → ν) {l : List (κ × ν)} (hl : (l.map Prod.fst).Nodup)
    (m : SortedMap κ ν) (k : κ) :
    (l.foldl (fun m p => m.insertWith f p.1 p.2) m).get? k = (m.get? k).merge f (lookup k l) := by
  induction l generalizing m with
  | nil => exact Option.merge_none_right.symm
  | cons p l ih =>
    obtain ⟨hp, hl⟩ := List.nodup_cons.1 hl
    rw [List.foldl_cons, ih hl, get?_insertWith, lookup]
    split_ifs with h
    · subst h
      have hnone : lookup p.1 l = none := by
        rcases hk : lookup p.1 l with _ | v
        · rfl
        · exact absurd (List.mem_map_of_mem (mem_of_lookup hk)) hp
      rw [hnone, Option.merge_none_right]
    · rfl

/-- A map made of entries with different keys has these entries. -/
theorem get?_ofList {l : List (κ × ν)} (hl : (l.map Prod.fst).Nodup) (k : κ) :
    (ofList l).get? k = lookup k l := by
  have hinsert : (fun (m : SortedMap κ ν) (p : κ × ν) => m.insert p.1 p.2) =
      fun m p => m.insertWith (fun _ v => v) p.1 p.2 := by
    funext m p
    unfold insertWith
    cases m.get? p.1 <;> rfl
  rw [ofList, hinsert, get?_foldl_insertWith _ hl, get?_empty, Option.merge_none_left]

theorem toList_ofList_perm {l : List (κ × ν)} (hl : (l.map Prod.fst).Nodup) :
    (ofList l).toList.Perm l := by
  refine (List.perm_ext_iff_of_nodup (nodup_toList _) hl.of_map).2 ?_
  rintro ⟨k, v⟩
  rw [mem_toList_iff, get?_ofList hl, lookup_eq_some_iff hl]

/-- Inserting the entries of a map in any order makes the map again. -/
theorem ofList_of_perm {m : SortedMap κ ν} {l : List (κ × ν)} (h : l.Perm m.toList) :
    ofList l = m := by
  have hnodup : (l.map Prod.fst).Nodup := (h.map Prod.fst).nodup_iff.2 (nodup_keys m)
  apply ext_get?
  intro k
  rw [get?_ofList hnodup, lookup_perm h hnodup]
  rfl

/-! ## Weights -/

/-- The sum of a function over the entries. -/
def weight (f : κ × ν → ℕ) (m : SortedMap κ ν) : ℕ := (m.toList.map f).sum

theorem mem_toList_insert {m : SortedMap κ ν} {k : κ} {v : ν} {p : κ × ν}
    (h : p ∈ (m.insert k v).toList) : p = (k, v) ∨ p ∈ m.toList :=
  mem_insertEntry h

theorem weight_insert_le (f : κ × ν → ℕ) (m : SortedMap κ ν) (k : κ) (v : ν) :
    (m.insert k v).weight f ≤ m.weight f + f (k, v) := by
  change ((insertEntry k v m.toList).map f).sum ≤ (m.toList.map f).sum + f (k, v)
  induction m.toList with
  | nil => simp [insertEntry]
  | cons p l ih =>
    rw [insertEntry]
    split_ifs <;> simp only [List.map_cons, List.sum_cons] <;> omega

theorem mem_toList_foldl_insert {l : List (κ × ν)} {m : SortedMap κ ν} {p : κ × ν}
    (h : p ∈ (l.foldl (fun m e => m.insert e.1 e.2) m).toList) : p ∈ l ∨ p ∈ m.toList := by
  induction l generalizing m with
  | nil => exact Or.inr h
  | cons q l ih =>
    rcases ih h with h | h
    · exact Or.inl (List.mem_cons_of_mem _ h)
    · rcases mem_toList_insert h with rfl | h
      · exact Or.inl List.mem_cons_self
      · exact Or.inr h

theorem weight_foldl_insert_le (f : κ × ν → ℕ) (l : List (κ × ν)) (m : SortedMap κ ν) :
    (l.foldl (fun m e => m.insert e.1 e.2) m).weight f ≤ m.weight f + (l.map f).sum := by
  induction l generalizing m with
  | nil => rfl
  | cons p l ih =>
    have h₁ := ih (m.insert p.1 p.2)
    have h₂ : _ ≤ _ + f p := weight_insert_le f m p.1 p.2
    simp only [List.foldl_cons, List.map_cons, List.sum_cons]
    omega

theorem size_ofList_le (l : List (κ × ν)) : (ofList l).size ≤ l.length := by
  have h := weight_foldl_insert_le (fun _ => 1) l empty
  simpa [weight, ofList, size, empty] using h

end SortedMap

end Lib
