import GoQuorum.VClock.Clock

/-!
# What `Prune` keeps

`Prune` removes the entries that are older than the threshold and, if more than `maxEntries` are
left, all but that many of the newest.  Entries of the same age may be kept or removed in any way
that `sort.Slice` can order them.

Ages are whole seconds, and the threshold is a duration that `Prune` converts to whole seconds through
`float64`.  A threshold just below a whole second may be rounded up to it, and entries of that age are
then kept although they are older (`prune_keeps_older_entry`); `prune_keeps_newest_iff` says when this
does not matter.
-/

namespace GoQuorum

open Lib

namespace VectorClock

/-- The age of an entry in seconds, as an exact number. -/
def age (now : Int64) (p : NodeID × VectorClockEntry) : ℤ := now.toInt - p.2.timestamp.toInt

/-- The entry is not older than the threshold, as exact numbers. -/
def Recent (now : Int64) (threshold : Duration) (p : NodeID × VectorClockEntry) : Prop :=
  age now p * 1000000000 ≤ threshold.toInt

instance (now : Int64) (threshold : Duration) : DecidablePred (Recent now threshold) := fun _ =>
  inferInstanceAs (Decidable (_ ≤ _))

/-- The age of every entry is an `int64`. -/
def AgesFit (now : Int64) (vc : VectorClock) : Prop :=
  ∀ p ∈ vc.entries.toList, -2 ^ 63 ≤ age now p ∧ age now p < 2 ^ 63

instance (now : Int64) (vc : VectorClock) : Decidable (vc.AgesFit now) :=
  inferInstanceAs (Decidable (∀ p ∈ vc.entries.toList, _ ∧ _))

/-- A clock keeps entries of another one as they are, and only admissible ones; it keeps as many of
these as it may, none of them older than one that is missing; and the number of removed entries is
right. -/
structure KeepsNewest (recent : NodeID × VectorClockEntry → Prop) [DecidablePred recent]
    (maxEntries : ℤ) (vc kept : VectorClock) (removed : ℕ) : Prop where
  mem : ∀ p ∈ kept.entries.toList, p ∈ vc.entries.toList ∧ recent p
  size_eq : (kept.size : ℤ) = min maxEntries (vc.entries.toList.countP fun p => recent p)
  newest : ∀ p ∈ vc.entries.toList, p ∉ kept.entries.toList → recent p →
    ∀ q ∈ kept.entries.toList, p.2.timestamp ≤ q.2.timestamp
  removed_add : removed + kept.size = vc.size

/-! ## The two steps -/

/-- The first step of `Prune` keeps the entries of at most so many seconds. -/
theorem toList_dropOld {now : Int64} (seconds : Int64) {vc : VectorClock} (h : vc.AgesFit now) :
    (vc.dropOld now seconds).entries.toList =
      vc.entries.toList.filter fun p => age now p ≤ seconds.toInt := by
  refine List.filter_congr fun p hp => ?_
  obtain ⟨hlow, hhigh⟩ := h p hp
  have hage : (now - p.2.timestamp).toInt = age now p := by
    rw [Int64.toInt_sub, ← age, Int.bmod_eq_of_le (by omega) (by omega)]
  rw [decide_eq_decide, gt_iff_lt, Int64.lt_iff_toInt_lt, hage, not_lt]

/-- The second step keeps a beginning of the entries in their sorted order. -/
theorem toList_keepNewest_perm {maxEntries : ℤ} {vc : VectorClock} (newest : NewestFirst)
    (h : (vc.size : ℤ) > maxEntries) : (vc.keepNewest maxEntries newest).entries.toList.Perm
      ((newest.run vc.entries.toList).take maxEntries.toNat) := by
  rw [keepNewest, if_pos h]
  refine SortedMap.toList_ofList_perm ?_
  have hkeys : ((newest.run vc.entries.toList).map Prod.fst).Nodup :=
    ((newest.perm _).map Prod.fst).nodup_iff.2 (SortedMap.nodup_keys _)
  rw [List.map_take]
  exact hkeys.sublist (List.take_sublist _ _)

/-- In the sorted order nothing is older than what comes after it. -/
theorem timestamp_le_of_mem_drop (newest : NewestFirst) {l : List (NodeID × VectorClockEntry)}
    {n : ℕ} {p q : NodeID × VectorClockEntry} (hp : p ∈ (newest.run l).drop n)
    (hq : q ∈ (newest.run l).take n) : p.2.timestamp ≤ q.2.timestamp := by
  have hsorted := newest.sorted l
  rw [← List.take_append_drop n (newest.run l), List.pairwise_append] at hsorted
  have hless := hsorted.2.2 q hq p hp
  simpa [newerFirst, Int64.not_lt] using hless

/-- `Prune` keeps the newest entries of at most the whole seconds of the threshold. -/
theorem keepsNewest_wholeSeconds {vc : VectorClock} {now : Int64} (threshold : Duration)
    {maxEntries : ℤ} (newest : NewestFirst) (hmax : 0 < maxEntries) (hages : vc.AgesFit now) :
    KeepsNewest (fun p => age now p ≤ threshold.wholeSeconds.toInt) maxEntries vc
      (vc.prune now threshold maxEntries newest).1 (vc.prune now threshold maxEntries newest).2 := by
  have hrecent := toList_dropOld threshold.wholeSeconds hages
  have hyoung : (vc.dropOld now threshold.wholeSeconds).size =
      vc.entries.toList.countP fun p => age now p ≤ threshold.wholeSeconds.toInt := by
    rw [VectorClock.size, SortedMap.size, hrecent, List.countP_eq_length_filter]
  have hle : (vc.dropOld now threshold.wholeSeconds).size ≤ vc.size := List.length_filter_le _ _
  have hmem : ∀ p, p ∈ (vc.dropOld now threshold.wholeSeconds).entries.toList ↔
      p ∈ vc.entries.toList ∧ age now p ≤ threshold.wholeSeconds.toInt := by
    intro p
    rw [hrecent, List.mem_filter, decide_eq_true_eq]
  simp only [prune]
  generalize vc.dropOld now threshold.wholeSeconds = young at *
  by_cases hmany : (young.size : ℤ) > maxEntries
  · have hkept := toList_keepNewest_perm newest hmany
    have hall := newest.perm young.entries.toList
    have hlen : (newest.run young.entries.toList).length = young.size := hall.length_eq
    have hsize : (young.keepNewest maxEntries newest).size = maxEntries.toNat := by
      rw [VectorClock.size, SortedMap.size, hkept.length_eq, List.length_take, hlen]
      omega
    refine ⟨fun p hp => ?_, by omega, fun p hp hdropped hnew q hq => ?_, by omega⟩
    · exact (hmem p).1 (hall.subset (List.mem_of_mem_take (hkept.subset hp)))
    · have hrun : p ∈ newest.run young.entries.toList := hall.mem_iff.2 ((hmem p).2 ⟨hp, hnew⟩)
      rw [← List.take_append_drop maxEntries.toNat (newest.run _), List.mem_append] at hrun
      have hdrop := hrun.resolve_left fun h => hdropped (hkept.mem_iff.2 h)
      exact timestamp_le_of_mem_drop newest hdrop (hkept.subset hq)
  · rw [keepNewest, if_neg hmany]
    exact ⟨fun p => (hmem p).1, by omega,
      fun p hp hdropped hnew => absurd ((hmem p).2 ⟨hp, hnew⟩) hdropped, by omega⟩

/-! ## The rounded threshold -/

section Rounding

variable {recent recent' : NodeID × VectorClockEntry → Prop} [DecidablePred recent]
  [DecidablePred recent'] {maxEntries : ℤ} {vc kept : VectorClock} {removed : ℕ}

/-- Only the entries of the clock matter. -/
theorem KeepsNewest.congr (h : KeepsNewest recent maxEntries vc kept removed)
    (hiff : ∀ p ∈ vc.entries.toList, recent p ↔ recent' p) :
    KeepsNewest recent' maxEntries vc kept removed where
  mem := fun p hp => ⟨(h.mem p hp).1, (hiff p (h.mem p hp).1).1 (h.mem p hp).2⟩
  size_eq := by
    have hcount : vc.entries.toList.countP (fun p => recent p) =
        vc.entries.toList.countP fun p => recent' p :=
      List.countP_congr fun p hp => by simpa using hiff p hp
    rw [h.size_eq, hcount]
  newest := fun p hp hdropped hnew => h.newest p hp hdropped ((hiff p hp).2 hnew)
  removed_add := h.removed_add

/-- Where there are enough younger entries, allowing some older ones changes nothing. -/
theorem KeepsNewest.of_enough (h : KeepsNewest recent maxEntries vc kept removed)
    (hsub : ∀ p ∈ vc.entries.toList, recent' p → recent p)
    (holder : ∀ p ∈ vc.entries.toList, recent' p → ∀ q ∈ vc.entries.toList, ¬recent' q →
      q.2.timestamp < p.2.timestamp)
    (henough : maxEntries ≤ vc.entries.toList.countP fun p => recent' p) :
    KeepsNewest recent' maxEntries vc kept removed := by
  have hle : vc.entries.toList.countP (fun p => recent' p) ≤
      vc.entries.toList.countP fun p => recent p :=
    List.countP_mono_left fun p hp => by simpa using hsub p hp
  have hsize := h.size_eq
  have hyoung : ∀ p ∈ kept.entries.toList, recent' p := by
    intro q hq
    by_contra hold
    -- some younger entry is missing, and it would have been kept instead
    obtain ⟨p, hp, hyoung, hmissing⟩ :
        ∃ p ∈ vc.entries.toList, recent' p ∧ p ∉ kept.entries.toList := by
      by_contra hall
      simp only [not_exists, not_and, not_not] at hall
      have hsubperm : (vc.entries.toList.filter fun p => recent' p).Subperm
          (kept.entries.toList.filter fun p => recent' p) := by
        refine List.subperm_of_subset (vc.entries.nodup_toList.filter _) fun p hp => ?_
        obtain ⟨hmem, hnew⟩ := List.mem_filter.1 hp
        exact List.mem_filter.2 ⟨hall p hmem (of_decide_eq_true hnew), hnew⟩
      have hlength := hsubperm.length_le
      have hcount := List.length_eq_countP_add_countP (fun p => decide (recent' p))
        (l := kept.entries.toList)
      have hpos : 0 < kept.entries.toList.countP fun p => ¬decide (recent' p) = true :=
        List.countP_pos_iff.2 ⟨q, hq, by simpa using hold⟩
      rw [← List.countP_eq_length_filter, ← List.countP_eq_length_filter] at hlength
      change (kept.entries.toList.length : ℤ) = _ at hsize
      omega
    exact absurd (h.newest p hp hmissing (hsub p hp hyoung) q hq)
      (Int64.not_le.2 (holder p hp hyoung q (h.mem q hq).1 hold))
  exact {
    mem := fun p hp => ⟨(h.mem p hp).1, hyoung p hp⟩
    size_eq := by omega
    newest := fun p hp hdropped hnew => h.newest p hp hdropped (hsub p hp hnew)
    removed_add := h.removed_add }

end Rounding

/-- `Prune` keeps the newest entries that are not older than the threshold exactly if the threshold is
not rounded up to the next second, or no entry is of that age, or there are enough younger ones. -/
theorem prune_keeps_newest_iff (vc : VectorClock) (now : Int64) (threshold : Duration)
    (maxEntries : ℤ) (newest : NewestFirst) (hmax : 0 < maxEntries)
    (hthreshold : 0 ≤ threshold.toInt) (hages : vc.AgesFit now) :
    KeepsNewest (Recent now threshold) maxEntries vc
        (vc.prune now threshold maxEntries newest).1
        (vc.prune now threshold maxEntries newest).2 ↔
      ¬threshold.RoundsUp ∨
        (∀ p ∈ vc.entries.toList, age now p ≠ threshold.toInt / 1000000000 + 1) ∨
        maxEntries ≤ vc.entries.toList.countP fun p => Recent now threshold p := by
  have hkeeps := keepsNewest_wholeSeconds threshold newest hmax hages
  have hseconds := Duration.toInt_wholeSeconds hthreshold
  have hrecent : ∀ p, Recent now threshold p ↔ age now p ≤ threshold.toInt / 1000000000 := by
    intro p
    rw [Recent, Int.le_ediv_iff_mul_le (by decide)]
  constructor
  · intro h
    by_contra hnot
    simp only [not_or, not_not, not_forall, not_le] at hnot
    obtain ⟨hup, ⟨p, hp, hage⟩, hfew⟩ := hnot
    -- the entry of the next second is counted, so one entry too many is kept
    have hmore : vc.entries.toList.countP (fun q => Recent now threshold q) + 1 ≤
        vc.entries.toList.countP fun q => age now q ≤ threshold.wholeSeconds.toInt := by
      have hmono : ∀ l : List (NodeID × VectorClockEntry), l.countP (fun q => Recent now threshold q) ≤
          l.countP fun q => age now q ≤ threshold.wholeSeconds.toInt := by
        refine fun l => List.countP_mono_left fun q _ hq => ?_
        rw [decide_eq_true_eq, hrecent] at hq
        rw [decide_eq_true_eq, hseconds, if_pos hup]
        omega
      have hold : ¬Recent now threshold p := by
        rw [hrecent, hage]
        omega
      have hcounted : age now p ≤ threshold.wholeSeconds.toInt := by
        rw [hseconds, if_pos hup, hage]
      obtain ⟨before, after, hsplit⟩ := List.append_of_mem hp
      rw [hsplit, List.countP_append, List.countP_append,
        List.countP_cons_of_neg (by simpa using hold),
        List.countP_cons_of_pos (by simpa using hcounted)]
      have hbefore := hmono before
      have hafter := hmono after
      omega
    have hsize := h.size_eq
    have hsize' := hkeeps.size_eq
    omega
  · rintro (hdown | hnone | henough)
    · refine hkeeps.congr fun p _ => ?_
      rw [hrecent, hseconds, if_neg hdown, add_zero]
    · refine hkeeps.congr fun p hp => ?_
      have hage := hnone p hp
      rw [hrecent, hseconds]
      split_ifs <;> omega
    · refine hkeeps.of_enough (fun p _ hp => ?_) (fun p _ hp q _ hq => ?_) henough
      · rw [hrecent] at hp
        rw [hseconds]
        split_ifs <;> omega
      · rw [hrecent, age] at hp hq
        rw [Int64.lt_iff_toInt_lt]
        omega

/-- A clock with entries of the seconds 90, 95 and 10. -/
def agingClock : VectorClock := ((new.set 90 [97] 1).set 95 [98] 2).set 10 [99] 3

/-- At second 100, with a threshold of 50 seconds and room for one entry, the newest is kept. -/
theorem prune_agingClock :
    KeepsNewest (Recent 100 50000000000) 1 agingClock
      (agingClock.prune 100 50000000000 1 NewestFirst.insertion).1
      (agingClock.prune 100 50000000000 1 NewestFirst.insertion).2 :=
  (prune_keeps_newest_iff agingClock 100 50000000000 1 NewestFirst.insertion (by decide)
    (by decide) (by decide +kernel)).2 (Or.inl (by decide +kernel))

/-- A clock with one entry, of second 100. -/
def agedClock : VectorClock := new.set 100 [97] 1

/-- A threshold of one nanosecond less than 16777217 seconds counts as 16777217 seconds, and an entry
of that age, which is older, is kept. -/
theorem prune_keeps_older_entry :
    agedClock.AgesFit 16777317 ∧
      ∃ p ∈ (agedClock.prune 16777317 16777216999999999 50 NewestFirst.insertion).1.entries.toList,
        ¬Recent 16777317 16777216999999999 p := by
  decide +kernel

end VectorClock

end GoQuorum
