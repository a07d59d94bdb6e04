import GoQuorum.Storage.Put

/-!
# Deduplication

`dedupSiblings` recognises a duplicate by the printed clock.  What it drops is a duplicate exactly
when no two siblings of the list with different counters have clocks of which one respells entries
of the other (`drops_only_duplicates_iff`).  Valid node ids cannot do that, but the ids of a client's
context are not validated, and a version can be dropped for one that knows nothing of it
(`respelled_version_dropped`).
-/

namespace GoQuorum

open Lib Lib.Versions

/-- Whatever `dedupSiblings` drops, an earlier sibling in the result has the same node ids and
counters; clocks that print alike have the same node ids and counters. -/
def DropsOnlyDuplicates (siblings : List Sibling) : Prop :=
  (∀ before sib after, siblings = before ++ sib :: after →
    dedupSiblings (before ++ [sib]) = dedupSiblings before →
    ∃ kept ∈ before, kept ∈ dedupSiblings siblings ∧
      kept.vclock.counters = sib.vclock.counters) ∧
  ∀ x ∈ siblings, ∀ y ∈ siblings, x.vclock.string = y.vclock.string →
    x.vclock.counters = y.vclock.counters

/-- A dropped sibling prints like an earlier one that is kept. -/
theorem exists_kept_of_dropped {before after : List Sibling} {sib : Sibling}
    (h : dedupSiblings (before ++ [sib]) = dedupSiblings before) :
    ∃ kept ∈ before, kept ∈ dedupSiblings (before ++ sib :: after) ∧
      kept.vclock.string = sib.vclock.string := by
  obtain ⟨kept, hkept, hprint⟩ := exists_mem_dedupBy (fun sib : Sibling => sib.vclock.string) []
    (List.mem_append_right before (List.mem_singleton_self sib)) List.not_mem_nil
  have hbefore : kept ∈ dedupSiblings before := h ▸ hkept
  exact ⟨kept, (dedupBy_sublist _ _ _).subset hbefore, dedupBy_append_subset _ _ _ _ hbefore, hprint⟩

theorem dropsOnlyDuplicates_of_print {siblings : List Sibling}
    (h : ∀ x ∈ siblings, ∀ y ∈ siblings, x.vclock.string = y.vclock.string →
      x.vclock.counters = y.vclock.counters) : DropsOnlyDuplicates siblings := by
  refine ⟨?_, h⟩
  rintro before sib after rfl hdropped
  obtain ⟨kept, hbefore, hkept, hprint⟩ := exists_kept_of_dropped hdropped
  exact ⟨kept, hbefore, hkept, h kept (List.mem_append_left _ hbefore) sib
    (List.mem_append_right _ List.mem_cons_self) hprint⟩

/-- `dedupSiblings` drops only duplicates exactly when no clock of the list respells one with other
counters. -/
theorem drops_only_duplicates_iff (siblings : List Sibling) :
    DropsOnlyDuplicates siblings ↔ ∀ x ∈ siblings, ∀ y ∈ siblings,
      VectorClock.Respells x.vclock.entries.toList y.vclock.entries.toList →
        x.vclock.counters = y.vclock.counters := by
  simp only [← VectorClock.string_eq_iff]
  exact ⟨fun h => h.2, dropsOnlyDuplicates_of_print⟩

/-- A version whose only node id is `a:1@5, b`. -/
def oddlyNamedVersion : Sibling :=
  ⟨[1], VectorClock.new.set 5 [97, 58, 49, 64, 53, 44, 32, 98] 1, 5, false, 0⟩

/-- A version that has seen the first writes of `a` and of `b`. -/
def plainlyNamedVersion : Sibling :=
  ⟨[2], (VectorClock.new.set 5 [97] 1).set 5 [98] 1, 5, false, 0⟩

/-- Both print as `[a:1@5, b:1@5]`, so the second is dropped, although neither has seen the
other. -/
theorem respelled_version_dropped :
    dedupSiblings [oddlyNamedVersion, plainlyNamedVersion] = [oddlyNamedVersion] ∧
      oddlyNamedVersion.vclock.counters ≠ plainlyNamedVersion.vclock.counters ∧
      oddlyNamedVersion.vclock.compare plainlyNamedVersion.vclock = .concurrent := by
  decide +kernel

end GoQuorum
