import GoQuorum.VClock.Clock
import Mathlib.Order.Comparable

/-!
# Causal comparison of vector clocks

`compare` follows `api/vclock/compare.go`: it scans the nodes of both clocks and records whether
some counter is smaller and whether some counter is larger.  The causal order itself is the
pointwise order of the counters, an absent entry counting as `0`; it is a preorder, since two
different clocks may have the same counters.  `compare_eq_before` and its three companions say that
the scan decides this order, and everything later is stated in it.
-/

namespace GoQuorum

open Lib

/-- The relationship between two clocks. -/
inductive Ordering where
  | before
  | after
  | equal
  | concurrent
  deriving DecidableEq, Repr

namespace VectorClock

/-- The flags `less` and `greater` after the loop over a list of nodes. -/
def scan (vc other : VectorClock) (allNodes : List NodeID) : Bool × Bool :=
  allNodes.foldl (fun f n => (f.1 || decide (vc.get n < other.get n),
    f.2 || decide (vc.get n > other.get n))) (false, false)

/-- `Compare`. -/
def compare (vc other : VectorClock) : Ordering :=
  let (less, greater) := vc.scan other (vc.entries.keys ++ other.entries.keys)
  if less && !greater then .before
  else if greater && !less then .after
  else if !less && !greater then .equal
  else .concurrent

/-- `HappensAfter`. -/
def happensAfter (vc other : VectorClock) : Bool := vc.compare other == .after

/-- `HappensBefore`. -/
def happensBefore (vc other : VectorClock) : Bool := vc.compare other == .before

/-- `IsConcurrentWith`. -/
def isConcurrentWith (vc other : VectorClock) : Bool := vc.compare other == .concurrent

/-- `Equals`. -/
def equals (vc other : VectorClock) : Bool := vc.compare other == .equal

/-- `Dominates`: after or equal. -/
def dominates (vc other : VectorClock) : Bool :=
  vc.compare other == .after || vc.compare other == .equal

/-! ## The causal order -/

/-- The number of events of a node that a clock has seen. -/
def count (vc : VectorClock) (n : NodeID) : ℕ := (vc.get n).toNat

instance : Preorder VectorClock := Preorder.lift count

theorem le_iff {a b : VectorClock} : a ≤ b ↔ ∀ n, a.count n ≤ b.count n := Iff.rfl

theorem not_le_iff {a b : VectorClock} : ¬ a ≤ b ↔ ∃ n, b.count n < a.count n := by
  rw [le_iff]
  push Not
  rfl

theorem count_eq_zero_of_notMem {vc : VectorClock} {n : NodeID} (h : n ∉ vc.entries.keys) :
    vc.count n = 0 := by
  rw [SortedMap.mem_keys_iff, not_exists] at h
  have hn : vc.entries.get? n = none := Option.eq_none_iff_forall_ne_some.2 h
  rw [count, get, hn]
  rfl

theorem antisymmRel_of_counters {a b : VectorClock} (h : a.counters = b.counters) :
    AntisymmRel (· ≤ ·) a b := by
  have e : ∀ n, a.count n = b.count n := fun n => congrArg UInt64.toNat (get_congr h n)
  exact ⟨fun n => (e n).le, fun n => (e n).ge⟩

theorem scan_eq (a b : VectorClock) (l : List NodeID) :
    a.scan b l = (decide (∃ n ∈ l, a.get n < b.get n), decide (∃ n ∈ l, a.get n > b.get n)) := by
  -- the loop adds the nodes of the list to what the flags already record
  have loop : ∀ (l : List NodeID) (f : Bool × Bool),
      l.foldl (fun f n => (f.1 || decide (a.get n < b.get n),
        f.2 || decide (a.get n > b.get n))) f =
      (f.1 || decide (∃ n ∈ l, a.get n < b.get n), f.2 || decide (∃ n ∈ l, a.get n > b.get n)) := by
    intro l
    induction l with
    | nil => intro f; simp
    | cons n l ih =>
      intro f
      rw [List.foldl_cons, ih]
      simp [Bool.or_assoc]
  rw [scan, loop]
  simp

/-- The flag `less` says that the other clock is not below this one. -/
theorem exists_get_lt_iff (a b : VectorClock) :
    (∃ n ∈ a.entries.keys ++ b.entries.keys, a.get n < b.get n) ↔ ¬ b ≤ a := by
  rw [not_le_iff]
  constructor
  · rintro ⟨n, -, h⟩
    exact ⟨n, UInt64.lt_iff_toNat_lt.1 h⟩
  · rintro ⟨n, h⟩
    refine ⟨n, List.mem_append_right _ ?_, UInt64.lt_iff_toNat_lt.2 h⟩
    by_contra hn
    rw [count_eq_zero_of_notMem hn] at h
    exact absurd h (Nat.not_lt_zero _)

theorem exists_get_gt_iff (a b : VectorClock) :
    (∃ n ∈ a.entries.keys ++ b.entries.keys, a.get n > b.get n) ↔ ¬ a ≤ b := by
  rw [← exists_get_lt_iff]
  constructor
  all_goals
    rintro ⟨n, hn, h⟩
    exact ⟨n, List.mem_append.2 (List.mem_append.1 hn).symm, h⟩

open scoped Classical in
/-- `Compare` decides the causal order in both directions. -/
theorem compare_eq (a b : VectorClock) :
    a.compare b = if a ≤ b then (if b ≤ a then .equal else .before)
      else (if b ≤ a then .after else .concurrent) := by
  rw [compare, scan_eq]
  simp only [exists_get_lt_iff, exists_get_gt_iff]
  by_cases h₁ : a ≤ b <;> by_cases h₂ : b ≤ a <;> simp [h₁, h₂]

theorem compare_eq_before {a b : VectorClock} : a.compare b = .before ↔ a < b := by
  rw [compare_eq, lt_iff_le_not_ge]
  split_ifs <;> simp_all

theorem compare_eq_after {a b : VectorClock} : a.compare b = .after ↔ b < a := by
  rw [compare_eq, lt_iff_le_not_ge]
  split_ifs <;> simp_all

theorem compare_eq_equal {a b : VectorClock} :
    a.compare b = .equal ↔ AntisymmRel (· ≤ ·) a b := by
  rw [compare_eq, AntisymmRel]
  split_ifs <;> simp_all

theorem compare_eq_concurrent {a b : VectorClock} :
    a.compare b = .concurrent ↔ IncompRel (· ≤ ·) a b := by
  rw [compare_eq, IncompRel]
  split_ifs <;> simp_all

theorem happensAfter_iff {a b : VectorClock} : a.happensAfter b = true ↔ b < a := by
  rw [happensAfter, beq_iff_eq, compare_eq_after]

theorem happensBefore_iff {a b : VectorClock} : a.happensBefore b = true ↔ a < b := by
  rw [happensBefore, beq_iff_eq, compare_eq_before]

theorem equals_iff {a b : VectorClock} : a.equals b = true ↔ AntisymmRel (· ≤ ·) a b := by
  rw [equals, beq_iff_eq, compare_eq_equal]

theorem dominates_iff {a b : VectorClock} : a.dominates b = true ↔ b ≤ a := by
  rw [dominates, Bool.or_eq_true, beq_iff_eq, beq_iff_eq, compare_eq]
  split_ifs <;> simp_all

instance : DecidableLE VectorClock := fun a b =>
  decidable_of_iff (b.dominates a = true) dominates_iff

instance : DecidableLT VectorClock := fun a b =>
  decidable_of_iff (a.happensBefore b = true) happensBefore_iff

/-! ## Ticks -/

theorem get_tick_self (now : Int64) (vc : VectorClock) (n : NodeID) :
    (vc.tick now n).get n = vc.get n + 1 := by
  unfold tick get
  cases vc.entries.get? n with
  | none => simp only [SortedMap.get?_insert_self, UInt64.zero_add]
  | some e => simp only [SortedMap.get?_insert_self]

theorem get_tick_of_ne (now : Int64) (vc : VectorClock) {n m : NodeID} (h : n ≠ m) :
    (vc.tick now n).get m = vc.get m := by
  unfold tick get
  cases vc.entries.get? n with
  | none => simp only [SortedMap.get?_insert_of_ne _ h]
  | some e => simp only [SortedMap.get?_insert_of_ne _ h]

theorem isEmpty_tick (now : Int64) (vc : VectorClock) (n : NodeID) :
    (vc.tick now n).isEmpty = false := by
  have hentry : ∃ e, (vc.tick now n).entries.get? n = some e := by
    unfold tick
    split
    all_goals exact ⟨_, SortedMap.get?_insert_self _ _ _⟩
  obtain ⟨e, he⟩ := hentry
  rw [isEmpty, Bool.eq_false_iff, Ne, List.isEmpty_iff]
  exact List.ne_nil_of_mem (SortedMap.mem_toList_iff.2 he)

/-- A tick advances a clock unless the counter wraps around. -/
theorem lt_tick_iff {now : Int64} {vc : VectorClock} {n : NodeID} :
    vc < vc.tick now n ↔ vc.get n ≠ 18446744073709551615 := by
  have hself : (vc.tick now n).count n = (vc.count n + 1) % 2 ^ 64 := by
    rw [count, get_tick_self, UInt64.toNat_add]
    rfl
  have hother : ∀ m, n ≠ m → (vc.tick now n).count m = vc.count m := fun m h => by
    rw [count, get_tick_of_ne now vc h, count]
  have hbound : vc.count n < 2 ^ 64 := UInt64.toNat_lt _
  have hmax : vc.get n = 18446744073709551615 ↔ vc.count n = 2 ^ 64 - 1 := UInt64.toNat_inj.symm
  rw [Ne, hmax]
  constructor
  · intro h hcount
    have hle : vc.count n ≤ (vc.tick now n).count n := h.le n
    rw [hself, hcount] at hle
    omega
  · intro hcount
    have hstep : vc.count n < (vc.tick now n).count n := by
      rw [hself, Nat.mod_eq_of_lt (by omega)]
      exact Nat.lt_succ_self _
    refine lt_of_le_not_ge (fun m => ?_) (not_le_iff.2 ⟨n, hstep⟩)
    by_cases hm : n = m
    · exact hm ▸ hstep.le
    · exact (hother m hm).ge

/-! ## The laws of the order -/

theorem le_iff_get {a b : VectorClock} : a ≤ b ↔ ∀ n, a.get n ≤ b.get n :=
  forall_congr' fun _ => UInt64.le_iff_toNat_le.symm

theorem lt_iff_get {a b : VectorClock} :
    a < b ↔ (∀ n, a.get n ≤ b.get n) ∧ ∃ n, a.get n < b.get n := by
  rw [lt_iff_le_not_ge, not_le_iff, le_iff_get]
  exact and_congr_right fun _ => exists_congr fun _ => UInt64.lt_iff_toNat_lt.symm

theorem antisymmRel_iff_get {a b : VectorClock} :
    AntisymmRel (· ≤ ·) a b ↔ ∀ n, a.get n = b.get n := by
  rw [AntisymmRel, le_iff_get, le_iff_get, ← forall_and]
  exact forall_congr' fun _ => ⟨fun h => UInt64.le_antisymm h.1 h.2,
    fun h => ⟨UInt64.le_of_eq h, UInt64.le_of_eq h.symm⟩⟩

theorem incompRel_iff_get {a b : VectorClock} :
    IncompRel (· ≤ ·) a b ↔ (∃ n, a.get n < b.get n) ∧ ∃ n, b.get n < a.get n := by
  rw [IncompRel, not_le_iff, not_le_iff, and_comm]
  exact and_congr (exists_congr fun _ => UInt64.lt_iff_toNat_lt.symm)
    (exists_congr fun _ => UInt64.lt_iff_toNat_lt.symm)

/-- Equal clocks are related alike to equal clocks. -/
theorem lt_congr {a a' b b' : VectorClock} (ha : AntisymmRel (· ≤ ·) a a')
    (hb : AntisymmRel (· ≤ ·) b b') : a < b ↔ a' < b' :=
  ⟨fun h => lt_of_lt_of_le (lt_of_le_of_lt ha.2 h) hb.1,
    fun h => lt_of_lt_of_le (lt_of_le_of_lt ha.1 h) hb.2⟩

/-- `Compare` is the pointwise order of the counters of all nodes, so `HappensBefore` is a strict
partial order with converse `HappensAfter`, `Equals` an equivalence that both respect, and
`Dominates` a preorder that relates equal clocks both ways. -/
theorem compare_is_causal_order :
    (∀ a b : VectorClock,
      (a.compare b = .before ↔ (∀ n, a.get n ≤ b.get n) ∧ ∃ n, a.get n < b.get n) ∧
      (a.compare b = .after ↔ (∀ n, b.get n ≤ a.get n) ∧ ∃ n, b.get n < a.get n) ∧
      (a.compare b = .equal ↔ ∀ n, a.get n = b.get n) ∧
      (a.compare b = .concurrent ↔ (∃ n, a.get n < b.get n) ∧ ∃ n, b.get n < a.get n)) ∧
    IsStrictOrder VectorClock (fun a b => a.happensBefore b = true) ∧
    (∀ a b : VectorClock, a.happensAfter b = b.happensBefore a) ∧
    Equivalence (fun a b : VectorClock => a.equals b = true) ∧
    (∀ a a' b b' : VectorClock, a.equals a' = true → b.equals b' = true →
      a.happensBefore b = a'.happensBefore b' ∧ a.happensAfter b = a'.happensAfter b') ∧
    IsPreorder VectorClock (fun a b => a.dominates b = true) ∧
    ∀ a b : VectorClock, a.dominates b = true ∧ b.dominates a = true ↔ a.equals b = true := by
  refine ⟨fun a b => ⟨?_, ?_, ?_, ?_⟩, ?_, fun a b => ?_, ?_, fun a a' b b' ha hb => ?_, ?_,
    fun a b => ?_⟩
  · rw [compare_eq_before, lt_iff_get]
  · rw [compare_eq_after, lt_iff_get]
  · rw [compare_eq_equal, antisymmRel_iff_get]
  · rw [compare_eq_concurrent, incompRel_iff_get]
  · simp only [happensBefore_iff]
    exact { irrefl := lt_irrefl, trans := fun _ _ _ => lt_trans }
  · rw [Bool.eq_iff_iff, happensAfter_iff, happensBefore_iff]
  · simp only [equals_iff]
    exact ⟨fun _ => AntisymmRel.rfl, AntisymmRel.symm, AntisymmRel.trans⟩
  · rw [equals_iff] at ha hb
    constructor
    · rw [Bool.eq_iff_iff, happensBefore_iff, happensBefore_iff, lt_congr ha hb]
    · rw [Bool.eq_iff_iff, happensAfter_iff, happensAfter_iff, lt_congr hb ha]
  · simp only [dominates_iff]
    exact { refl := le_refl, trans := fun _ _ _ hab hbc => hbc.trans hab }
  · rw [dominates_iff, dominates_iff, equals_iff, and_comm]
    rfl

end VectorClock

end GoQuorum
