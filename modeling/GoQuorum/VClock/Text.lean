import GoQuorum.Config
import GoQuorum.VClock.Merge

/-!
# The printed clock

Deduplication identifies clocks by their text.  The text does not mark where a node id ends, so an
id can spell out whole entries: two clocks print alike exactly when the ids of one respell entries of
the other (`string_eq_iff`).  No valid id has a `:`, so the text of a clock whose node ids pass
`ValidateNodeID` determines the clock (`string_injOn`).
-/

namespace GoQuorum

open Lib

namespace VectorClock

/-- Every node id of the clock passes `ValidateNodeID`. -/
def ValidIDs (vc : VectorClock) : Prop := ∀ p ∈ vc.entries.toList, ValidNodeID p.1

instance (vc : VectorClock) : Decidable vc.ValidIDs :=
  inferInstanceAs (Decidable (∀ p ∈ vc.entries.toList, ValidNodeID p.1))

theorem ne_colon_of_isNodeIDByte {b : UInt8} (h : isNodeIDByte b = true) : b ≠ 58 := by
  rintro rfl
  exact absurd h (by decide)

theorem ne_at_of_isDigit {b : UInt8} (h : isDigit b = true) : b ≠ 64 := by
  rintro rfl
  exact absurd h (by decide)

/-! ## Reading a text -/

/-- `"%d@%d"` of an entry. -/
def stampText (e : VectorClockEntry) : Bytes :=
  decimal e.counter.toNat ++ 64 :: decimalInt e.timestamp.toInt

theorem entryText_eq (p : NodeID × VectorClockEntry) :
    entryText p = p.1 ++ 58 :: stampText p.2 := by
  simp only [entryText, stampText, List.append_assoc, List.cons_append]

theorem colon_notMem_stampText (e : VectorClockEntry) : 58 ∉ stampText e := by
  intro h
  rcases List.mem_append.1 h with h | h
  · exact absurd (isDigit_of_mem_decimal h) (by decide)
  rcases List.mem_cons.1 h with h | h
  · exact absurd h (by decide)
  · exact absurd (mem_decimalInt h) (by decide)

/-- The rest of the text after an entry begins with a comma or the closing bracket. -/
theorem entriesText_head (l : List (NodeID × VectorClockEntry)) :
    ∃ x t, entriesText l = x :: t ∧ (x = 44 ∨ x = 93) := by
  cases l with
  | nil => exact ⟨93, [], rfl, Or.inr rfl⟩
  | cons p l => exact ⟨44, 32 :: (entryText p ++ entriesText l), rfl, Or.inl rfl⟩

/-- After an id, counter and time can be read off a text. -/
theorem stampText_append_inj {d e : VectorClockEntry} {l m : List (NodeID × VectorClockEntry)}
    (h : stampText d ++ entriesText l = stampText e ++ entriesText m) :
    d = e ∧ entriesText l = entriesText m := by
  obtain ⟨x, t, ht, hx⟩ := entriesText_head l
  obtain ⟨y, u, hu, hy⟩ := entriesText_head m
  obtain ⟨c, τ⟩ := d
  obtain ⟨c', σ⟩ := e
  simp only [stampText, List.append_assoc, List.cons_append] at h
  -- the counter ends at the first at sign
  obtain ⟨hc, h⟩ := append_inj_of_head (p := fun b => b ≠ 64)
    (fun b hb => ne_at_of_isDigit (isDigit_of_mem_decimal hb))
    (fun b hb => ne_at_of_isDigit (isDigit_of_mem_decimal hb))
    (by simp) (by simp) h
  -- the time ends at a comma or at the bracket
  have htail := (List.cons.inj h).2
  rw [ht, hu] at htail
  have outside : ∀ z : UInt8, z = 44 ∨ z = 93 → ¬ (isDigit z = true ∨ z = 45) := by
    rintro z (rfl | rfl) <;> decide
  obtain ⟨hτ, hrest⟩ := append_inj_of_head (p := fun b => isDigit b = true ∨ b = 45)
    (fun b hb => mem_decimalInt hb) (fun b hb => mem_decimalInt hb)
    (outside x hx) (outside y hy) htail
  obtain rfl := UInt64.toNat_inj.1 (decimal_injective hc)
  obtain rfl := Int64.toInt_inj.1 (decimalInt_injective hτ)
  exact ⟨rfl, by rw [ht, hu, hrest]⟩

/-- If a longer id also ends at a colon, it has swallowed the rest of the entry, the comma and the
beginning of another id. -/
theorem swallowed_of_append_eq {e : VectorClockEntry} {l : List (NodeID × VectorClockEntry)}
    {r u : Bytes} (h : stampText e ++ entriesText l = r ++ 58 :: u) :
    ∃ r', r = stampText e ++ [44, 32] ++ r' ∧ entriesText l = [44, 32] ++ r' ++ 58 :: u := by
  rcases List.append_eq_append_iff.1 h with ⟨a, rfl, ha⟩ | ⟨a, he, ha⟩
  · cases l with
    | nil =>
      have hcolon : (58 : UInt8) ∈ entriesText [] := by
        rw [ha]
        exact List.mem_append_right _ List.mem_cons_self
      exact absurd hcolon (by decide)
    | cons p l =>
      -- neither byte of the separator is a colon
      cases a with
      | nil => exact absurd (List.cons.inj ha).1 (by decide)
      | cons x a =>
        obtain ⟨rfl, hrest⟩ := List.cons.inj ha
        cases a with
        | nil => exact absurd (List.cons.inj hrest).1 (by decide)
        | cons y r' =>
          obtain ⟨rfl, -⟩ := List.cons.inj hrest
          exact ⟨r', by rw [List.append_assoc]; rfl, ha⟩
  · cases a with
    | nil =>
      obtain ⟨x, t, ht, hx⟩ := entriesText_head l
      rw [List.nil_append, ht] at ha
      rw [← (List.cons.inj ha).1] at hx
      exact absurd hx (by decide)
    | cons x a =>
      have hcolon : (58 : UInt8) ∈ stampText e := by
        rw [he, ← (List.cons.inj ha).1]
        exact List.mem_append_right _ List.mem_cons_self
      exact absurd hcolon (colon_notMem_stampText e)

/-! ## What prints alike -/

/-- The ids of one list spell out entries of the other: the lists agree except where an id is the
text of an entry, a comma and a further id. -/
inductive Respells : List (NodeID × VectorClockEntry) → List (NodeID × VectorClockEntry) → Prop
  | nil : Respells [] []
  | cons (p : NodeID × VectorClockEntry) {l m : List (NodeID × VectorClockEntry)} :
      Respells l m → Respells (p :: l) (p :: m)
  | right (p : NodeID × VectorClockEntry) {l m : List (NodeID × VectorClockEntry)} {r : NodeID}
      {e : VectorClockEntry} : Respells l ((r, e) :: m) →
      Respells (p :: l) ((entryText p ++ [44, 32] ++ r, e) :: m)
  | left (p : NodeID × VectorClockEntry) {l m : List (NodeID × VectorClockEntry)} {r : NodeID}
      {e : VectorClockEntry} : Respells ((r, e) :: m) l →
      Respells ((entryText p ++ [44, 32] ++ r, e) :: m) (p :: l)

theorem entriesText_of_respells {l m : List (NodeID × VectorClockEntry)} (h : Respells l m) :
    entriesText l = entriesText m := by
  induction h with
  | nil => rfl
  | cons p h ih => rw [entriesText, entriesText, ih]
  | right p h ih => simp only [entriesText, ih, entryText, List.append_assoc, List.cons_append]
  | left p h ih => simp only [entriesText, ← ih, entryText, List.append_assoc, List.cons_append]

/-- What follows an id that another one continues by `a`. -/
theorem respelled_of_append_eq {d e : VectorClockEntry} {a : Bytes}
    {l m : List (NodeID × VectorClockEntry)}
    (h : 58 :: (stampText d ++ entriesText l) = a ++ 58 :: (stampText e ++ entriesText m)) :
    (a = [] ∧ d = e ∧ entriesText l = entriesText m) ∨
    ∃ r, a = 58 :: stampText d ++ [44, 32] ++ r ∧ entriesText l = entriesText ((r, e) :: m) := by
  cases a with
  | nil => exact Or.inl ⟨rfl, stampText_append_inj (List.cons.inj h).2⟩
  | cons x a =>
    obtain ⟨rfl, hcont⟩ := List.cons.inj h
    obtain ⟨r, rfl, hl⟩ := swallowed_of_append_eq hcont
    refine Or.inr ⟨r, rfl, ?_⟩
    rw [hl]
    simp only [entriesText, entryText_eq, List.append_assoc, List.cons_append]

/-- How two texts that begin with an entry can be equal. -/
theorem entryText_append_eq {p q : NodeID × VectorClockEntry}
    {l m : List (NodeID × VectorClockEntry)}
    (h : entryText p ++ entriesText l = entryText q ++ entriesText m) :
    (p = q ∧ entriesText l = entriesText m) ∨
    (∃ r, q.1 = entryText p ++ [44, 32] ++ r ∧ entriesText l = entriesText ((r, q.2) :: m)) ∨
    ∃ r, p.1 = entryText q ++ [44, 32] ++ r ∧ entriesText m = entriesText ((r, p.2) :: l) := by
  obtain ⟨i, d⟩ := p
  obtain ⟨j, e⟩ := q
  simp only [entryText_eq, List.append_assoc, List.cons_append] at h ⊢
  -- one of the ids continues the other
  rcases List.append_eq_append_iff.1 h with ⟨a, rfl, ha⟩ | ⟨a, rfl, ha⟩
  · rcases respelled_of_append_eq ha with ⟨rfl, rfl, hrest⟩ | ⟨r, rfl, hrest⟩
    · exact Or.inl ⟨by rw [List.append_nil], hrest⟩
    · exact Or.inr (Or.inl ⟨r, by simp, hrest⟩)
  · rcases respelled_of_append_eq ha with ⟨rfl, rfl, hrest⟩ | ⟨r, rfl, hrest⟩
    · exact Or.inl ⟨by rw [List.append_nil], hrest.symm⟩
    · exact Or.inr (Or.inr ⟨r, by simp, hrest⟩)

theorem respells_of_entriesText {l m : List (NodeID × VectorClockEntry)}
    (h : entriesText l = entriesText m) : Respells l m := by
  -- reading an entry off one list leaves fewer entries in all
  induction hn : l.length + m.length using Nat.strong_induction_on generalizing l m with
  | _ n ih =>
    subst hn
    cases l with
    | nil =>
      cases m with
      | nil => exact .nil
      | cons q m => exact absurd (List.cons.inj h).1 (by decide)
    | cons p l =>
      cases m with
      | nil => exact absurd (List.cons.inj h).1 (by decide)
      | cons q m =>
        obtain ⟨i, d⟩ := p
        obtain ⟨j, e⟩ := q
        have hentry : entryText (i, d) ++ entriesText l = entryText (j, e) ++ entriesText m := by
          simpa [entriesText] using h
        rcases entryText_append_eq hentry with ⟨hpq, hrest⟩ | ⟨r, rfl, hrest⟩ | ⟨r, rfl, hrest⟩
        · rw [hpq]
          exact .cons _ (ih _ (by simp only [List.length_cons]; omega) hrest rfl)
        · exact .right (i, d) (ih _ (by simp only [List.length_cons]; omega) hrest rfl)
        · exact .left (j, e) (ih _ (by simp only [List.length_cons]; omega) hrest.symm rfl)

/-- Two clocks print alike exactly when the ids of one respell entries of the other. -/
theorem string_eq_iff {a b : VectorClock} :
    a.string = b.string ↔ Respells a.entries.toList b.entries.toList := by
  -- the text of a clock is that of its entries without the first comma
  have hempty : ∀ (p : NodeID × VectorClockEntry) (l : List (NodeID × VectorClockEntry)),
      entryText p ++ entriesText l ≠ [93] := by
    intro p l h
    have hcolon : (58 : UInt8) ∈ entryText p ++ entriesText l := by
      rw [entryText_eq]
      simp
    rw [h] at hcolon
    exact absurd hcolon (by decide)
  have htext : a.string = b.string ↔
      entriesText a.entries.toList = entriesText b.entries.toList := by
    unfold string
    cases a.entries.toList with
    | nil =>
      cases b.entries.toList with
      | nil => exact iff_of_true rfl rfl
      | cons q m =>
        exact iff_of_false (fun h => hempty q m (List.cons.inj h).2.symm)
          fun h => absurd (List.cons.inj h).1 (by decide)
    | cons p l =>
      cases b.entries.toList with
      | nil =>
        exact iff_of_false (fun h => hempty p l (List.cons.inj h).2)
          fun h => absurd (List.cons.inj h).1 (by decide)
      | cons q m => simp [entriesText]
  rw [htext]
  exact ⟨respells_of_entriesText, entriesText_of_respells⟩

/-- Valid ids spell out nothing. -/
theorem eq_of_respells {l m : List (NodeID × VectorClockEntry)} (h : Respells l m)
    (hl : ∀ p ∈ l, ValidNodeID p.1) (hm : ∀ p ∈ m, ValidNodeID p.1) : l = m := by
  have hcolon : ∀ (p : NodeID × VectorClockEntry) (r : NodeID),
      ¬ ValidNodeID (entryText p ++ [44, 32] ++ r) := by
    intro p r hvalid
    refine ne_colon_of_isNodeIDByte (((validNodeID_iff _).1 hvalid).2.2 58 ?_) rfl
    simp [entryText_eq]
  induction h with
  | nil => rfl
  | cons p h ih =>
    rw [List.forall_mem_cons] at hl hm
    rw [ih hl.2 hm.2]
  | right p h ih => exact absurd (hm _ List.mem_cons_self) (hcolon _ _)
  | left p h ih => exact absurd (hl _ List.mem_cons_self) (hcolon _ _)

/-- Clocks with valid node ids that print alike are equal. -/
theorem string_injOn {a b : VectorClock} (ha : a.ValidIDs) (hb : b.ValidIDs)
    (h : a.string = b.string) : a = b :=
  ext_entries (SortedMap.toList_inj (eq_of_respells (string_eq_iff.1 h) ha hb))

/-! ## Valid ids are kept -/

theorem ValidIDs.tick {vc : VectorClock} (h : vc.ValidIDs) {n : NodeID} (hn : ValidNodeID n)
    (now : Int64) : (vc.tick now n).ValidIDs := by
  intro p hp
  unfold VectorClock.tick at hp
  split at hp
  all_goals
    rcases SortedMap.mem_toList_insert hp with rfl | hp
    · exact hn
    · exact h p hp

theorem ValidIDs.merge (order : MapOrder (NodeID × VectorClockEntry)) {a b : VectorClock}
    (ha : a.ValidIDs) (hb : b.ValidIDs) : (a.merge order b).ValidIDs := by
  rintro ⟨n, e⟩ hp
  rw [SortedMap.mem_toList_iff, get?_merge] at hp
  cases hget : a.entries.get? n with
  | some x => exact ha (n, x) (SortedMap.mem_toList_iff.2 hget)
  | none =>
    rw [hget, Option.merge_none_left] at hp
    exact hb (n, e) (SortedMap.mem_toList_iff.2 hp)

theorem ValidIDs.mergeAll (order : MapOrder (NodeID × VectorClockEntry)) {start : VectorClock}
    (hstart : start.ValidIDs) {clocks : List VectorClock} (h : ∀ vc ∈ clocks, vc.ValidIDs) :
    (VectorClock.mergeAll order start clocks).ValidIDs := by
  induction clocks generalizing start with
  | nil => exact hstart
  | cons vc clocks ih =>
    rw [List.forall_mem_cons] at h
    exact ih (hstart.merge order h.1) h.2

/-- Clocks with the same counters have the same ids. -/
theorem ValidIDs.of_counters {a b : VectorClock} (h : a.ValidIDs) (e : a.counters = b.counters) :
    b.ValidIDs := by
  intro p hp
  have hmem : (p.1, p.2.counter) ∈ b.counters.toList := List.mem_map.2 ⟨p, hp, rfl⟩
  rw [← e] at hmem
  obtain ⟨q, hq, hpq⟩ := List.mem_map.1 hmem
  rw [← (Prod.mk.inj hpq).1]
  exact h q hq

end VectorClock

end GoQuorum
