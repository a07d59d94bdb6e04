import GoQuorum.Cluster.RingChanges

/-!
# The lookups of the ring, index by index

`GetPreferenceList` and `GetExtendedPreferenceList` of `internal/cluster/hashring.go` as the code
runs them: a binary search for the first position, a walk over indices modulo the number of positions
that stops after one lap, and 64-bit numbers of nodes.  A result `none` is a panic, from an index out
of range or from a slice with a negative capacity.

Both are the lookups of `HashRing` as long as the number of nodes wanted is an `int` (`lookup_eq`), and
return the distinct owners clockwise from the key (`preference_lists_are_owners`).
-/

namespace GoQuorum

open Lib Lib.Versions

namespace RingWalk

variable {sum64 : Bytes → UInt64}

/-! ## Lookups -/

/-- The loop of both lookups; the first number bounds its iterations. -/
def walk (vnodes : List VirtualNode) (idx : ℕ) (want : ℤ) :
    ℕ → ℕ → List NodeID → List NodeID → Option (List NodeID)
  | 0, _, _, _ => none
  | fuel + 1, i, result, seen =>
    if (result.length : ℤ) < want ∧ i < vnodes.length then do
      let vnodeIdx := (idx + i) % vnodes.length
      let vnode ← vnodes[vnodeIdx]?
      if vnode.nodeID ∉ seen then
        walk vnodes idx want fuel (i + 1) (result ++ [vnode.nodeID]) (vnode.nodeID :: seen)
      else walk vnodes idx want fuel (i + 1) result seen
    else some result

/-- What both lookups do. -/
def lookup (ring : HashRing sum64) (key : Bytes) (want : Int64) :
    Option (Except RingError (List NodeID)) :=
  if ring.nodes.length = 0 then some (.error .emptyRing)
  else do
    let want := if want.toInt > ring.nodes.length then (ring.nodes.length : ℤ) else want.toInt
    let keyHash := sum64 key
    let idx ← search ring.vnodes.length fun i => ring.vnodes[i]?.map fun v => v.hash ≥ keyHash
    let idx := if idx ≥ ring.vnodes.length then 0 else idx
    -- `make` with a negative capacity panics
    if want < 0 then none
    else (walk ring.vnodes idx want (ring.vnodes.length + 1) 0 [] []).map .ok

/-- `GetPreferenceList`. -/
def getPreferenceList (ring : HashRing sum64) (key : Bytes) (N : Int64) :
    Option (Except RingError (List NodeID)) :=
  lookup ring key N

/-- `GetExtendedPreferenceList`; the sum wraps around. -/
def getExtendedPreferenceList (ring : HashRing sum64) (key : Bytes) (N extra : Int64) :
    Option (Except RingError (List NodeID)) :=
  lookup ring key (N + extra)

/-! ## The walk -/

/-- The loop collects the distinct owners of the positions that are left of one lap. -/
theorem walk_eq {vnodes : List VirtualNode} {idx : ℕ} {want : ℤ} {fuel i : ℕ}
    {result seen : List NodeID} (hseen : ∀ n, n ∈ seen ↔ n ∈ result)
    (hfuel : vnodes.length - i < fuel) :
    walk vnodes idx want fuel i result seen =
      some (HashRing.collectDistinct want result ((vnodes.rotate idx).drop i)) := by
  induction fuel generalizing i result seen with
  | zero => omega
  | succ fuel ih =>
    rw [walk]
    rcases lt_or_ge i vnodes.length with hi | hi
    · have hlen : i < (vnodes.rotate idx).length := by rwa [List.length_rotate]
      have hget : vnodes[(idx + i) % vnodes.length]? = some (vnodes.rotate idx)[i] := by
        rw [add_comm, ← List.getElem?_rotate hi, List.getElem?_eq_getElem]
      rw [List.drop_eq_getElem_cons hlen, HashRing.collectDistinct]
      simp only [hi, and_true, hget, Option.bind_eq_bind, Option.bind_some, hseen]
      split_ifs with hwant hmem
      · exact ih hseen (by omega)
      · refine ih (fun n => ?_) (by omega)
        rw [List.mem_cons, List.mem_append, List.mem_singleton, hseen, or_comm]
      · rfl
    · rw [if_neg (by omega), List.drop_of_length_le (by rwa [List.length_rotate])]
      rfl

/-- The walk starts where the binary search ends, at the beginning if that is past the last
position. -/
theorem clockwise_eq_rotate (ring : HashRing sum64) (keyHash : UInt64) {idx : ℕ}
    (hidx : idx = ring.vnodes.findIdx fun v => v.hash ≥ keyHash) :
    ring.vnodes.rotate (if idx ≥ ring.vnodes.length then 0 else idx) = ring.clockwise keyHash := by
  have hle : idx ≤ ring.vnodes.length := hidx ▸ List.findIdx_le_length
  rw [HashRing.clockwise, ← hidx]
  split_ifs with hend
  · obtain rfl := le_antisymm hle hend
    rw [List.rotate_zero, List.drop_length, List.take_length, List.nil_append]
  · exact List.rotate_eq_drop_append_take hle

/-- The lookups are those of the ring unless a negative number of nodes is wanted. -/
theorem lookup_eq (ring : HashRing sum64) (key : Bytes) {want : Int64} (hwant : 0 ≤ want.toInt) :
    lookup ring key want = some (ring.lookup key want.toInt) := by
  unfold lookup HashRing.lookup
  simp only [List.length_eq_zero_iff]
  by_cases hnil : ring.nodes = []
  · rw [if_pos hnil, if_pos hnil]
  rw [if_neg hnil, if_neg hnil]
  have hcap : ¬ (if want.toInt > ring.nodes.length then (ring.nodes.length : ℤ)
      else want.toInt) < 0 := by
    split_ifs <;> omega
  simp only [search_eq_findIdx (ring.pairwise_hash_ge (sum64 key)), Option.bind_eq_bind,
    Option.bind_some]
  rw [if_neg hcap, walk_eq (fun _ => Iff.rfl) (by omega), List.drop_zero,
    clockwise_eq_rotate _ _ rfl]
  rfl

/-- The owners that a lookup returns, for any number of nodes that is an `int`. -/
theorem lookup_eq_take {ring : HashRing sum64} (hne : ring.nodes ≠ []) (key : Bytes) {want : Int64}
    (hwant : 0 ≤ want.toInt) :
    lookup ring key want = some (.ok ((ring.owners key).take want.toInt.toNat)) := by
  have hlist := ring.preferenceList_eq_take key hwant
  rw [lookup_eq ring key hwant, ← hlist, HashRing.preferenceList, HashRing.getPreferenceList,
    HashRing.lookup, if_neg hne]

theorem toInt_add_of_lt {N extra : Int64} (hN : 1 ≤ N) (hextra : 0 ≤ extra)
    (hsum : N.toInt + extra.toInt < 2 ^ 63) : (N + extra).toInt = N.toInt + extra.toInt := by
  rw [Int64.le_iff_toInt_le] at hN hextra
  have hone : (1 : Int64).toInt = 1 := by decide
  have hzero : (0 : Int64).toInt = 0 := by decide
  rw [Int64.toInt_add]
  exact Int.bmod_eq_of_le (by omega) (by omega)

/-- The preference list of a key is the beginning of the distinct owners clockwise from it, as many as
asked for or all members.  The extended list continues it with other members. -/
theorem preference_lists_are_owners (ring : HashRing sum64) (hne : ring.nodes ≠ []) (key : Bytes)
    {N extra : Int64} (hN : 1 ≤ N) (hextra : 0 ≤ extra) (hsum : N.toInt + extra.toInt < 2 ^ 63) :
    ∃ prefList overflow,
      getPreferenceList ring key N = some (.ok prefList) ∧
      getExtendedPreferenceList ring key N extra = some (.ok (prefList ++ overflow)) ∧
      prefList = (ring.owners key).take N.toInt.toNat ∧
      prefList ++ overflow = (ring.owners key).take (N.toInt + extra.toInt).toNat ∧
      (prefList.length : ℤ) = min N.toInt ring.nodes.length ∧
      ((prefList ++ overflow).length : ℤ) = min (N.toInt + extra.toInt) ring.nodes.length ∧
      (prefList ++ overflow).Nodup ∧ prefList ++ overflow ⊆ ring.nodes := by
  have hN' : 0 ≤ N.toInt := by
    rw [Int64.le_iff_toInt_le] at hN
    exact le_trans (by decide) hN
  have hextra' : 0 ≤ extra.toInt := by
    rw [Int64.le_iff_toInt_le] at hextra
    exact le_trans (by decide) hextra
  have hadd := toInt_add_of_lt hN hextra hsum
  have hsplit : (ring.owners key).take N.toInt.toNat ++
      ((ring.owners key).drop N.toInt.toNat).take extra.toInt.toNat =
      (ring.owners key).take (N.toInt + extra.toInt).toNat := by
    rw [← List.take_add, Int.toNat_add hN' hextra']
  refine ⟨(ring.owners key).take N.toInt.toNat,
    ((ring.owners key).drop N.toInt.toNat).take extra.toInt.toNat, lookup_eq_take hne key hN', ?_⟩
  rw [hsplit, List.length_take, List.length_take, ring.length_owners, ← hadd]
  refine ⟨lookup_eq_take hne key (by omega), rfl, rfl, by omega, by omega, ?_, ?_⟩
  · exact (ring.nodup_owners key).sublist (List.take_sublist _ _)
  · exact List.Subset.trans (List.take_subset _ _) (ring.owners_subset_nodes key)

/-- The ring of three members with one position each. -/
def threeMembers : Option (HashRing sampleSum64) :=
  exec HashRing.change (HashRing.new 1) [.add RingSort.insertion [110, 49],
    .add RingSort.insertion [110, 50], .add RingSort.insertion [110, 51]]

/-- Two nodes of three, and the third for overflow. -/
theorem preference_lists_of_three_members : ∃ ring, threeMembers = some ring ∧
    getPreferenceList ring [107] 2 = some (.ok [[110, 50], [110, 51]]) ∧
    getExtendedPreferenceList ring [107] 2 1 = some (.ok [[110, 50], [110, 51], [110, 49]]) := by
  have hring : threeMembers.map (fun ring => (ring.nodes, ring.owners [107])) =
      some ([[110, 49], [110, 50], [110, 51]], [[110, 50], [110, 51], [110, 49]]) := by
    decide +kernel
  obtain ⟨ring, hring, hparts⟩ := Option.map_eq_some_iff.1 hring
  obtain ⟨hnodes, howners⟩ := Prod.mk.inj hparts
  have hne : ring.nodes ≠ [] := hnodes ▸ List.cons_ne_nil _ _
  obtain ⟨prefList, overflow, hget, hextended, hpref, hall, -⟩ := preference_lists_are_owners ring hne
    [107] (N := 2) (show 1 ≤ 2 by decide) (show 0 ≤ 1 by decide) (by decide)
  rw [howners] at hpref hall
  rw [hpref] at hget
  rw [hall] at hextended
  exact ⟨ring, hring, hget, hextended⟩

/-- Where the sum of the numbers of nodes is no `int` any more, the extended lookup panics. -/
theorem overflowing_sum_panics : ∃ ring, threeMembers = some ring ∧
    getPreferenceList ring [107] Int64.maxValue = some (.ok [[110, 50], [110, 51], [110, 49]]) ∧
    getExtendedPreferenceList ring [107] Int64.maxValue 1 = none := by
  have hring : threeMembers.map (fun ring => (getPreferenceList ring [107] Int64.maxValue,
      getExtendedPreferenceList ring [107] Int64.maxValue 1)) =
      some (some (.ok [[110, 50], [110, 51], [110, 49]]), none) := by
    decide +kernel
  obtain ⟨ring, hring, hparts⟩ := Option.map_eq_some_iff.1 hring
  exact ⟨ring, hring, Prod.mk.inj hparts⟩

end RingWalk

end GoQuorum
