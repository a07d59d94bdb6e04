import GoQuorum.Storage.Put

/-!
# What a write does to the set of its caller

`Put` prunes the clocks of the merged set in place.  With no existing sibling the merged set is the
one the caller has passed; otherwise it is a copy, whose clocks share their maps with the caller's
until `Prune` replaces a map, so the caller sees only the removal of old entries.  The set of a
coordinator's write is shared further: the requests to the peers are made from it while the
coordinator's own write runs, and hints keep it.

The caller's set stays as it is exactly if the clock has no old entry, and not too many where it is
stored alone (`callerClock_eq_self_iff`).
-/

namespace GoQuorum

open Lib

/-! ## Clocks that pruning leaves alone -/

namespace VectorClock

/-- No entry is older than so many seconds, in `int64` arithmetic. -/
def NoneOlder (now seconds : Int64) (vc : VectorClock) : Prop :=
  ∀ p ∈ vc.entries.toList, ¬now - p.2.timestamp > seconds

instance (now seconds : Int64) (vc : VectorClock) : Decidable (vc.NoneOlder now seconds) :=
  inferInstanceAs (Decidable (∀ p ∈ vc.entries.toList, _))

variable {now : Int64} {vc : VectorClock}

theorem dropOld_eq_self_iff {seconds : Int64} :
    vc.dropOld now seconds = vc ↔ vc.NoneOlder now seconds := by
  have hfilter : vc.dropOld now seconds = vc ↔ (vc.dropOld now seconds).entries = vc.entries :=
    ⟨congrArg VectorClock.entries, ext_entries⟩
  rw [hfilter, dropOld, SortedMap.filter_eq_self_iff]
  exact forall₂_congr fun p _ => decide_eq_true_iff

/-- A clock that is pruned to itself has no old entries and not too many. -/
theorem prune_fst_eq_self_iff {threshold : Duration} {max : ℤ} (hmax : 0 < max)
    {newest : NewestFirst} : (vc.prune now threshold max newest).1 = vc ↔
      vc.NoneOlder now threshold.wholeSeconds ∧ (vc.size : ℤ) ≤ max := by
  constructor
  · intro h
    have hyoung : ∀ p ∈ vc.entries.toList,
        p ∈ (vc.dropOld now threshold.wholeSeconds).entries.toList := by
      intro p hp
      rw [← h] at hp
      simp only [prune, keepNewest] at hp
      split_ifs at hp
      · have hrun := (SortedMap.mem_toList_foldl_insert hp).resolve_right List.not_mem_nil
        exact newest.mem_run.1 (List.mem_of_mem_take hrun)
      · exact hp
    have hnone : vc.NoneOlder now threshold.wholeSeconds := fun p hp =>
      of_decide_eq_true (List.mem_filter.1 (hyoung p hp)).2
    refine ⟨hnone, not_lt.1 fun hmany => ?_⟩
    rw [prune, dropOld_eq_self_iff.2 hnone, keepNewest, if_pos hmany] at h
    have hle := SortedMap.size_ofList_le ((newest.run vc.entries.toList).take max.toNat)
    have htake := List.length_take_le max.toNat (newest.run vc.entries.toList)
    have hsize := congrArg VectorClock.size h
    simp only [VectorClock.size] at hsize hmany
    omega
  · rintro ⟨hnone, hfew⟩
    rw [prune, dropOld_eq_self_iff.2 hnone, keepNewest, if_neg (not_lt.2 hfew)]

end VectorClock

/-! ## The caller's set -/

/-- The incoming sibling comes first in the reconciled set. -/
theorem exists_reconcileSiblings_eq_cons (existing : SiblingSet) (sib : Sibling) :
    ∃ rest, reconcileSiblings existing [sib] = sib :: rest := by
  unfold reconcileSiblings
  split_ifs with hnone hsome
  · exact ⟨[], rfl⟩
  · cases hsome
  · rw [dedupSiblings, List.singleton_append, Versions.dedupBy, if_neg List.not_mem_nil]
    exact ⟨_, rfl⟩

namespace Storage

/-- The sibling set that the caller of `Put` is left with. -/
def callerSet (env : CallEnv) (s : Storage) (key : Bytes) (sib : Sibling) : SiblingSet :=
  match s.merge env key [sib], s.readExisting env key with
  | .ok _, .ok [] => env.enforceLimits s.opts [sib]
  | .ok _, _ =>
    [{ sib with
        vclock := sib.vclock.dropOld (env.pruneNow 0) s.opts.vclockPruneThreshold.wholeSeconds }]
  | .error _, _ => [sib]

/-- The clock in that set. -/
def callerClock (env : CallEnv) (s : Storage) (key : Bytes) (sib : Sibling) : VectorClock :=
  match s.merge env key [sib], s.readExisting env key with
  | .ok _, .ok [] => env.pruneClock s.opts 0 sib.vclock
  | .ok _, _ => sib.vclock.dropOld (env.pruneNow 0) s.opts.vclockPruneThreshold.wholeSeconds
  | .error _, _ => sib.vclock

/-- A copy of the clock that the caller has made before, which shares the map. -/
def copiedClock (env : CallEnv) (s : Storage) (key : Bytes) (sib : Sibling) : VectorClock :=
  match s.merge env key [sib] with
  | .ok _ => sib.vclock.dropOld (env.pruneNow 0) s.opts.vclockPruneThreshold.wholeSeconds
  | .error _ => sib.vclock

/-- The clock as somebody reads it who shares the set while the write runs: of the entries that the
write removes, `gone` says which are missing already. -/
def sharedClock (env : CallEnv) (s : Storage) (key : Bytes) (sib : Sibling) (gone : NodeID → Bool) :
    VectorClock :=
  ⟨sib.vclock.entries.filter fun id _ => id ∈ (s.callerClock env key sib).entries.keys ∨ ¬gone id⟩

/-- A write that gets as far as pruning finds no old entry in the caller's clock, and not too many
where no sibling exists. -/
def LeavesCaller (env : CallEnv) (s : Storage) (key : Bytes) (sib : Sibling) : Prop :=
  match s.merge env key [sib], s.readExisting env key with
  | .ok _, .ok existing =>
    sib.vclock.NoneOlder (env.pruneNow 0) s.opts.vclockPruneThreshold.wholeSeconds ∧
      (existing = [] → (sib.vclock.size : ℤ) ≤ s.opts.vclockMaxEntries)
  | _, _ => True

instance (env : CallEnv) (s : Storage) (key : Bytes) (sib : Sibling) :
    Decidable (s.LeavesCaller env key sib) := by
  unfold LeavesCaller
  split
  · exact instDecidableAnd
  · exact isTrue trivial

variable {env : CallEnv} {s : Storage} {key : Bytes} {sib : Sibling}

theorem callerSet_eq (env : CallEnv) (s : Storage) (key : Bytes) (sib : Sibling) :
    s.callerSet env key sib = [{ sib with vclock := s.callerClock env key sib }] := by
  unfold callerSet callerClock
  split
  · exact enforceLimits_of_length_le (by exact_mod_cast s.opts.maxSiblings_pos)
  · rfl
  · rfl

/-- The caller's clock stays as it is exactly if the write finds nothing to prune in it. -/
theorem callerClock_eq_self_iff :
    s.callerClock env key sib = sib.vclock ↔ s.LeavesCaller env key sib := by
  have hexisting : ∀ merged, s.merge env key [sib] = .ok merged →
      ∃ existing, s.readExisting env key = .ok existing := by
    intro merged hmerge
    obtain ⟨-, -, -, existing, hex, -⟩ := merge_singleton_eq_ok.1 hmerge
    exact ⟨existing, hex⟩
  unfold callerClock LeavesCaller
  cases hmerge : s.merge env key [sib] with
  | error err => exact iff_of_true rfl trivial
  | ok merged =>
    obtain ⟨existing, hex⟩ := hexisting merged hmerge
    rw [hex]
    cases existing with
    | nil =>
      simp only [forall_const]
      exact VectorClock.prune_fst_eq_self_iff s.opts.vclockMaxEntries_pos
    | cons e rest =>
      simp only [reduceCtorEq, false_implies, and_true]
      exact VectorClock.dropOld_eq_self_iff

/-- The caller's set stays as it is exactly if its clock does. -/
theorem callerSet_eq_self_iff : s.callerSet env key sib = [sib] ↔ s.LeavesCaller env key sib := by
  rw [callerSet_eq, ← callerClock_eq_self_iff]
  constructor
  · intro h
    exact congrArg Sibling.vclock (List.singleton_inj.1 h)
  · intro h
    rw [h]

/-- A write that prunes nothing leaves the caller's clock. -/
theorem leavesCaller_of_noPrune (h : NoPrune env s key [sib]) : s.LeavesCaller env key sib := by
  unfold LeavesCaller
  split
  · rename_i merged existing hmerge hex
    have hkeep := h merged hmerge
    obtain ⟨-, -, -, existing', hex', rfl⟩ := merge_singleton_eq_ok.1 hmerge
    obtain rfl := Except.ok.inj (hex.symm.trans hex')
    obtain ⟨rest, hhead⟩ := exists_reconcileSiblings_eq_cons existing sib
    have hlen := length_enforceLimits_le env s.opts (reconcileSiblings existing [sib])
    rw [hkeep] at hlen
    rw [enforceLimits_of_length_le hlen, hhead, CallEnv.pruneClocks, List.mapIdx_cons] at hkeep
    have hclock : env.pruneClock s.opts 0 sib.vclock = sib.vclock :=
      congrArg Sibling.vclock (List.cons.inj hkeep).1
    obtain ⟨hnone, hfew⟩ :=
      (VectorClock.prune_fst_eq_self_iff s.opts.vclockMaxEntries_pos).1 hclock
    exact ⟨hnone, fun _ => hfew⟩
  · trivial

/-- Nobody sees a change where there is none. -/
theorem sharedClock_of_leavesCaller (h : s.LeavesCaller env key sib) (gone : NodeID → Bool) :
    s.sharedClock env key sib gone = sib.vclock := by
  apply VectorClock.ext_entries
  rw [sharedClock, callerClock_eq_self_iff.2 h, SortedMap.filter_eq_self_iff]
  exact fun p hp => decide_eq_true (Or.inl (List.mem_map_of_mem hp))

end Storage

end GoQuorum
