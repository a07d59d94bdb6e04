import GoQuorum.Lib.Bytes
import GoQuorum.Lib.Durations
import GoQuorum.Lib.SliceSort
import GoQuorum.Lib.SortedMap

/-!
# Vector clocks

The clock of a version is a finite map from node ids to counters, each with the time it was last
set.  `VectorClock` follows `api/vclock/vclock.go`: every operation that reads the wall clock takes
the reading as an argument, and `Prune` takes the order in which `sort.Slice` leaves entries of
equal age.

Counters are `uint64` and wrap on overflow; times are Unix seconds in `int64`.
-/

namespace GoQuorum

open Lib

/-- Node ids are Go strings, that is, byte strings. -/
abbrev NodeID := Bytes

/-- One entry of a clock.  The source repeats the map key in a field `NodeID`; the two are always
equal. -/
structure VectorClockEntry where
  counter : UInt64
  timestamp : Int64
  deriving DecidableEq

/-- `map[NodeID]*VectorClockEntry`. -/
structure VectorClock where
  entries : SortedMap NodeID VectorClockEntry
  deriving DecidableEq

/-- The comparison of `Prune`: newer entries first. -/
def newerFirst (a b : NodeID × VectorClockEntry) : Bool := a.2.timestamp > b.2.timestamp

/-- The order in which `sort.Slice` lists entries, newest first. -/
abbrev NewestFirst := SliceSort (NodeID × VectorClockEntry) newerFirst

/-- The order in which Go goes through a map. -/
structure MapOrder (α : Type) where
  run : List α → List α
  perm : ∀ l, (run l).Perm l

/-- The order of the list itself. -/
def MapOrder.inOrder (α : Type) : MapOrder α := ⟨id, fun l => List.Perm.refl l⟩

/-- The newest-first order that insertion sort gives. -/
def NewestFirst.insertion : NewestFirst :=
  SliceSort.insertion
    (fun a b => by
      simp only [newerFirst, decide_eq_false_iff_not, Int64.not_lt]
      exact Int64.le_total _ _)
    (fun a b c h₁ h₂ => by
      simp only [newerFirst, decide_eq_false_iff_not, Int64.not_lt] at h₁ h₂ ⊢
      exact Int64.le_trans h₂ h₁)

namespace VectorClock

/-- `NewVectorClock`. -/
def new : VectorClock := ⟨SortedMap.empty⟩

/-- `Entries`: the counters, as the API shows them. -/
def counters (vc : VectorClock) : SortedMap NodeID UInt64 :=
  vc.entries.mapVal fun _ e => e.counter

/-- `Get`: the counter of a node, `0` if it has none. -/
def get (vc : VectorClock) (nodeID : NodeID) : UInt64 :=
  match vc.entries.get? nodeID with
  | some e => e.counter
  | none => 0

/-- `Set` and `SetString`. -/
def set (now : Int64) (vc : VectorClock) (nodeID : NodeID) (counter : UInt64) : VectorClock :=
  ⟨vc.entries.insert nodeID ⟨counter, now⟩⟩

/-- `Tick`: count one event of a node. -/
def tick (now : Int64) (vc : VectorClock) (nodeID : NodeID) : VectorClock :=
  match vc.entries.get? nodeID with
  | some e => ⟨vc.entries.insert nodeID ⟨e.counter + 1, now⟩⟩
  | none => ⟨vc.entries.insert nodeID ⟨1, now⟩⟩

/-- `Copy`: entries are values here, so a copy is the clock itself. -/
def copy (vc : VectorClock) : VectorClock := vc

/-- `IsEmpty`. -/
def isEmpty (vc : VectorClock) : Bool := vc.entries.toList.isEmpty

/-- `Size`. -/
def size (vc : VectorClock) : ℕ := vc.entries.size

/-- Step 1 of `Prune`: drop the entries older than the threshold, in `int64` arithmetic. -/
def dropOld (now pruneThresholdSec : Int64) (vc : VectorClock) : VectorClock :=
  ⟨vc.entries.filter fun _ e => ¬ (now - e.timestamp > pruneThresholdSec)⟩

/-- Step 2 of `Prune`: if there are still more than `maxEntries` entries, keep that many of the
newest. -/
def keepNewest (maxEntries : ℤ) (newest : NewestFirst) (vc : VectorClock) : VectorClock :=
  if (vc.size : ℤ) > maxEntries then
    ⟨SortedMap.ofList ((newest.run vc.entries.toList).take maxEntries.toNat)⟩
  else vc

/-- `Prune`: the remaining clock and the number of entries removed. -/
def prune (now : Int64) (threshold : Duration) (maxEntries : ℤ) (newest : NewestFirst)
    (vc : VectorClock) : VectorClock × ℕ :=
  let young := vc.dropOld now threshold.wholeSeconds
  let kept := young.keepNewest maxEntries newest
  (kept, (vc.size - young.size) + (young.size - kept.size))

/-- `"%s:%d@%d"` of an entry. -/
def entryText (p : NodeID × VectorClockEntry) : Bytes :=
  p.1 ++ 58 :: decimal p.2.counter.toNat ++ 64 :: decimalInt p.2.timestamp.toInt

/-- The loop of `String`: the entries in id order, all but the first after `", "`, then `"]"`. -/
def entriesText : List (NodeID × VectorClockEntry) → Bytes
  | [] => [93]
  | p :: l => [44, 32] ++ entryText p ++ entriesText l

/-- `String`, for example `[node1:5@1704067200, node2:3@1704067100]`. -/
def string (vc : VectorClock) : Bytes :=
  match vc.entries.toList with
  | [] => [91, 93]
  | p :: l => 91 :: (entryText p ++ entriesText l)

/-! ## Counters -/

theorem get_eq_counters (vc : VectorClock) (n : NodeID) : vc.get n = (vc.counters.get? n).getD 0 := by
  rw [get, counters, SortedMap.get?_mapVal]
  cases vc.entries.get? n <;> rfl

theorem get_congr {a b : VectorClock} (h : a.counters = b.counters) (n : NodeID) :
    a.get n = b.get n := by
  rw [get_eq_counters, get_eq_counters, h]

theorem keys_counters (vc : VectorClock) : vc.counters.keys = vc.entries.keys :=
  List.map_map

/-- Clocks with the same counters have the same node ids. -/
theorem keys_of_counters {a b : VectorClock} (h : a.counters = b.counters) :
    a.entries.keys = b.entries.keys := by
  rw [← keys_counters, h, keys_counters]

theorem ext_entries {a b : VectorClock} (h : a.entries = b.entries) : a = b := by
  cases a
  cases b
  cases h
  rfl

end VectorClock

end GoQuorum
