import GoQuorum.Storage.Antichain

/-!
# Pruning and causality

`Put` bounds the size of clocks: after reconciliation it drops from each of them the entries that are
too old or too many.  An entry that is gone counts as `0`, so a clock that loses its only lead over
another falls behind it (`pruning_breaks_concurrency`).  Two siblings stay concurrent when each of
them keeps an entry in which it is ahead of the other (`concurrent_after_put`): pruning never raises
a counter.
-/

namespace GoQuorum

open Lib

namespace VectorClock

variable {now : Int64} {threshold : Duration} {max : ℤ} {newest : NewestFirst} {vc : VectorClock}
  {n : NodeID}

theorem get?_prune {e : VectorClockEntry}
    (h : (vc.prune now threshold max newest).1.entries.get? n = some e) :
    vc.entries.get? n = some e :=
  SortedMap.mem_toList_iff.1 (mem_entries_prune (SortedMap.mem_toList_iff.2 h))

/-- An entry that is kept keeps its counter. -/
theorem count_prune_of_mem (h : n ∈ (vc.prune now threshold max newest).1.entries.keys) :
    (vc.prune now threshold max newest).1.count n = vc.count n := by
  obtain ⟨e, he⟩ := SortedMap.mem_keys_iff.1 h
  simp only [count, get, he, get?_prune he]

/-- Pruning raises no counter. -/
theorem count_prune_le (vc : VectorClock) (n : NodeID) :
    (vc.prune now threshold max newest).1.count n ≤ vc.count n := by
  by_cases h : n ∈ (vc.prune now threshold max newest).1.entries.keys
  · exact (count_prune_of_mem h).le
  · rw [count_eq_zero_of_notMem h]
    exact Nat.zero_le _

end VectorClock

/-- Of the clock `x`, what is left as `x'` has an entry in which `x` is ahead of `y`. -/
def KeepsLead (x x' y : VectorClock) : Prop := ∃ n ∈ x'.entries.keys, y.get n < x.get n

instance (x x' y : VectorClock) : Decidable (KeepsLead x x' y) :=
  inferInstanceAs (Decidable (∃ n ∈ _, _))

/-- A clock that keeps a lead is not below the other one, pruned or not. -/
theorem not_le_of_keepsLead {env : CallEnv} {opts : StorageOptions} {i j : ℕ} {x y : VectorClock}
    (h : KeepsLead x (env.pruneClock opts i x) y) :
    ¬ env.pruneClock opts i x ≤ env.pruneClock opts j y := by
  obtain ⟨n, hn, hlt⟩ := h
  refine VectorClock.not_le_iff.2 ⟨n, ?_⟩
  calc (env.pruneClock opts j y).count n ≤ y.count n := VectorClock.count_prune_le y n
    _ < x.count n := UInt64.lt_iff_toNat_lt.1 hlt
    _ = (env.pruneClock opts i x).count n := (VectorClock.count_prune_of_mem hn).symm

/-- A successful `Put` writes some of the reconciled siblings with their clocks pruned, and two of
them that were concurrent still are if each has kept an entry in which it is ahead of the other. -/
theorem concurrent_after_put (env : CallEnv) (s s' : Storage) (key : Bytes)
    (siblings merged : SiblingSet) (hmerge : s.merge env key siblings = .ok merged)
    (hput : s.put env key siblings = .ok s') :
    (∃ written data, s'.db.get? key = some data ∧ encodeSiblingSet written = .ok data ∧
      written.Subperm (env.pruneClocks s.opts merged)) ∧
    ∀ i j, (hi : i < merged.length) → (hj : j < merged.length) →
      (merged.get ⟨i, hi⟩).vclock.isConcurrentWith (merged.get ⟨j, hj⟩).vclock = true →
      let x := (merged.get ⟨i, hi⟩).vclock
      let y := (merged.get ⟨j, hj⟩).vclock
      KeepsLead x (env.pruneClock s.opts i x) y → KeepsLead y (env.pruneClock s.opts j y) x →
      (env.pruneClock s.opts i x).isConcurrentWith (env.pruneClock s.opts j y) = true := by
  constructor
  · obtain ⟨data, hdata, -, rfl⟩ := Storage.put_eq_ok.1 hput
    obtain ⟨merged', hmerge', henc⟩ := Storage.prepare_eq_ok hdata
    obtain rfl := Except.ok.inj (hmerge.symm.trans hmerge')
    exact ⟨_, data, SortedMap.get?_insert_self .., henc, enforceLimits_subperm env s.opts merged⟩
  · intro i j hi hj _ x y hx hy
    exact isConcurrentWith_iff.2 ⟨not_le_of_keepsLead hx, not_le_of_keepsLead hy⟩

/-- A version of the key `k` written at time 0. -/
def oldVersion : Sibling := ⟨[1], VectorClock.new.set 0 [98] 1, 0, false, 0⟩

/-- The store that `Put` leaves with it. -/
def storeWithOldVersion : Storage :=
  ((Storage.new defaultStorageOptions).put (CallEnv.steady 0) [107] [oldVersion]).toOption.getD
    (Storage.new defaultStorageOptions)

/-- A concurrent version, written at a later time. -/
def laterVersion (now : Int64) : Sibling := ⟨[2], VectorClock.new.set now [97] 1, now, false, 0⟩

/-- `Put` of the later version keeps both. -/
theorem merge_laterVersion_1000 :
    storeWithOldVersion.merge (CallEnv.steady 1000) [107] [laterVersion 1000] =
      .ok [laterVersion 1000, oldVersion] := by
  decide +kernel

theorem opts_storeWithOldVersion : storeWithOldVersion.opts = defaultStorageOptions := by
  unfold storeWithOldVersion
  cases hput : (Storage.new defaultStorageOptions).put (CallEnv.steady 0) [107] [oldVersion] with
  | error err => rfl
  | ok t =>
    obtain ⟨data, -, -, rfl⟩ := Storage.put_eq_ok.1 hput
    rfl

/-- While the entries are young, the two versions stay concurrent. -/
theorem concurrent_after_put_of_young : ∃ s',
    storeWithOldVersion.put (CallEnv.steady 1000) [107] [laterVersion 1000] = .ok s' ∧
    ((CallEnv.steady 1000).pruneClock defaultStorageOptions 0
        (laterVersion 1000).vclock).isConcurrentWith
      ((CallEnv.steady 1000).pruneClock defaultStorageOptions 1 oldVersion.vclock) = true := by
  obtain ⟨s', hput⟩ : ∃ s',
      storeWithOldVersion.put (CallEnv.steady 1000) [107] [laterVersion 1000] = .ok s' :=
    isOk_iff.1 (by decide +kernel)
  refine ⟨s', hput, ?_⟩
  have h := concurrent_after_put (CallEnv.steady 1000) storeWithOldVersion s' [107] _ _
    merge_laterVersion_1000 hput
  rw [opts_storeWithOldVersion] at h
  exact h.2 0 1 (by decide) (by decide) (by decide +kernel) (by decide +kernel) (by decide +kernel)

/-- Eleven days later the old version has lost the only entry of its clock: the two versions, which
were concurrent when they were reconciled, are stored with clocks of which one is after the other. -/
theorem pruning_breaks_concurrency : ∃ s' merged,
    storeWithOldVersion.merge (CallEnv.steady 1000000) [107] [laterVersion 1000000] = .ok merged ∧
    (merged.Pairwise fun a b => a.vclock.isConcurrentWith b.vclock = true) ∧
    storeWithOldVersion.put (CallEnv.steady 1000000) [107] [laterVersion 1000000] = .ok s' ∧
    ∃ x y, s'.stored [107] = .ok [x, y] ∧ [x.value, y.value] = merged.map Sibling.value ∧
      x.vclock.happensAfter y.vclock = true := by
  have hmerge : storeWithOldVersion.merge (CallEnv.steady 1000000) [107] [laterVersion 1000000] =
      .ok [laterVersion 1000000, oldVersion] := by decide +kernel
  have hstored : (storeWithOldVersion.put (CallEnv.steady 1000000) [107]
      [laterVersion 1000000]).toOption.map (fun s' => s'.stored [107]) =
      some (.ok [laterVersion 1000000, { oldVersion with vclock := VectorClock.new }]) := by
    decide +kernel
  obtain ⟨s', hput, hset⟩ := Option.map_eq_some_iff.1 hstored
  exact ⟨s', _, hmerge, by decide +kernel, toOption_eq_some.1 hput, _, _, hset, rfl,
    by decide +kernel⟩

end GoQuorum
