import GoQuorum.Lib.Runs
import GoQuorum.Storage.Put

/-!
# Bounds of the store

Whatever sequence of `Put`, `Delete` and `runTombstoneGC` a store has seen, with any Pebble errors, its
records keep the configured limits (`store_within_bounds`).  `Put` restores the limits on the way to
the encoder; the collector checks nothing, but only takes siblings away.

`Storage.put` yields a new store or an error.  Here `Put` is also an action on the store, with
`db.Set` as its only effect, so that what an error leaves behind is a theorem (`StorageM.run_put`).
-/

namespace GoQuorum

open Lib

/-! ## `Put` as an action -/

/-- Actions on a store.  What an action has done before it fails stays done. -/
abbrev StorageM := ExceptT StorageError (StateM Storage)

namespace StorageM

/-- A step that does not write. -/
def reading {α : Type} (x : Except StorageError α) : StorageM α := ExceptT.mk (pure x)

/-- `db.Set`: its error, if any; then nothing is written. -/
def dbSet (setError : Option PebbleError) (key data : Bytes) : StateM Storage (Option PebbleError) :=
  fun s => match setError with
    | none => (none, { s with db := s.db.insert key data })
    | some err => (some err, s)

/-- The end of `Put`, from `db.Set` on. -/
def writeRecord (env : CallEnv) (key data : Bytes) : StorageM Unit := do
  match ← dbSet env.setError key data with
  | none => pure ()
  | some .noSpace => throw .storageFull
  | some .inputOutput => throw .storageIOFailure
  | some .other => throw (.pebbleSet .other)

/-- `Put` on a store that is `s` when the call begins. -/
def putOn (s : Storage) (env : CallEnv) (key : Bytes) (siblings : SiblingSet) : StorageM Unit :=
  if s.closed then throw .storageClosed
  else do
    reading ((validateKey key).mapError .invalidKey)
    reading (Storage.validateValues 0 siblings)
    let existing ← reading (s.readExisting env key)
    let merged := env.enforceLimits s.opts (reconcileSiblings existing siblings)
    let data ← reading ((encodeSiblingSet merged).mapError .encode)
    writeRecord env key data

/-- `Put`. -/
def put (env : CallEnv) (key : Bytes) (siblings : SiblingSet) : StorageM Unit := do
  let s ← get
  putOn s env key siblings

/-- The outcome of an action that yields a new store or leaves the old one. -/
def outcome (s : Storage) : Except StorageError Storage → Except StorageError Unit × Storage
  | .ok s' => (.ok (), s')
  | .error err => (.error err, s)

theorem run_reading_bind {α β : Type} (x : Except StorageError α) (f : α → StorageM β)
    (s : Storage) : (reading x >>= f).run.run s =
      match x with
      | .ok a => (f a).run.run s
      | .error err => (.error err, s) := by
  cases x <;> rfl

theorem run_writeRecord (env : CallEnv) (s : Storage) (key data : Bytes) :
    (writeRecord env key data).run.run s = outcome s (s.commit env key data) := by
  unfold Storage.commit
  cases h : env.setError with
  | none =>
    unfold writeRecord
    rw [h]
    rfl
  | some err =>
    unfold writeRecord
    rw [h]
    cases err <;> rfl

/-- The action and the function agree; an error leaves the store as it was. -/
theorem run_put (env : CallEnv) (s : Storage) (key : Bytes) (siblings : SiblingSet) :
    (put env key siblings).run.run s = outcome s (s.put env key siblings) := by
  change (putOn s env key siblings).run.run s = _
  rw [putOn, Storage.put, Storage.prepare, Storage.merge]
  split_ifs
  · rfl
  rw [run_reading_bind]
  cases (validateKey key).mapError StorageError.invalidKey with
  | error err => rfl
  | ok u =>
    dsimp only [ok_bind]
    rw [run_reading_bind]
    cases Storage.validateValues 0 siblings with
    | error err => rfl
    | ok u =>
      dsimp only [ok_bind]
      rw [run_reading_bind]
      cases s.readExisting env key with
      | error err => rfl
      | ok existing =>
        dsimp only [ok_bind]
        rw [run_reading_bind]
        simp only [pure, Except.pure, ok_bind]
        cases (encodeSiblingSet (env.enforceLimits s.opts
            (reconcileSiblings existing siblings))).mapError StorageError.encode with
        | error err => rfl
        | ok data => exact run_writeRecord env s key data

end StorageM

/-! ## Operations -/

namespace Storage

/-- `runTombstoneGC` when Pebble may fail: the iterator ends after some of the records, and the writes
to some of the keys are lost. -/
def gcPass (now : Int64) (seen : ℕ) (lost : Bytes → Bool) (s : Storage) : Storage :=
  (s.db.toList.take seen).foldl (fun s' p =>
    if lost p.1 then s' else s'.applyGC p.1 (gcAction now s.opts.tombstoneTTL.wholeSeconds p.2)) s

/-- Without errors it is `runTombstoneGC`. -/
theorem gcPass_eq_runTombstoneGC (now : Int64) (s : Storage) :
    s.gcPass now s.db.size (fun _ => false) = s.runTombstoneGC now := by
  rw [gcPass, SortedMap.size, List.take_length]
  rfl

end Storage

/-- A call of `Put` or `Delete`, or a pass of the collector. -/
inductive StorageOp where
  | put (env : CallEnv) (key : Bytes) (siblings : SiblingSet)
  | delete (env : CallEnv) (now : Int64) (key : Bytes) (vclock : VectorClock)
  | gc (now : Int64) (seen : ℕ) (lost : Bytes → Bool)

namespace Storage

/-- What an operation returns, and the store it leaves. -/
def apply (s : Storage) : StorageOp → Except StorageError Unit × Storage
  | .put env key siblings => (StorageM.put env key siblings).run.run s
  | .delete env now key vclock => (StorageM.put env key [tombstoneOf now vclock]).run.run s
  | .gc now seen lost => (.ok (), s.gcPass now seen lost)

/-- The store after an operation. -/
def step (s : Storage) (op : StorageOp) : Option Storage := some (s.apply op).2

/-! ## The limits -/

/-- A record within the limits: as many siblings, clock entries and bytes as the options allow. -/
structure InLimits (opts : StorageOptions) (set : SiblingSet) : Prop where
  pos : 1 ≤ set.length
  siblings : (set.length : ℤ) ≤ opts.maxSiblings
  clocks : ∀ sib ∈ set, (sib.vclock.size : ℤ) ≤ opts.vclockMaxEntries
  values : ∀ sib ∈ set, sib.value.length ≤ maxValueSize

/-- Every record that decodes is within the limits. -/
def WithinBounds (opts : StorageOptions) (s : Storage) : Prop :=
  s.opts = opts ∧ ∀ key data set, s.db.get? key = some data → decodeSiblingSet data = .ok set →
    InLimits opts set

end Storage

/-- `Prune` leaves no more entries than it is told to. -/
theorem size_prune_le (now : Int64) (threshold : Duration) {maxEntries : ℤ} (hpos : 0 < maxEntries)
    (newest : NewestFirst) (vc : VectorClock) :
    ((vc.prune now threshold maxEntries newest).1.size : ℤ) ≤ maxEntries := by
  simp only [VectorClock.prune, VectorClock.keepNewest]
  split_ifs with h
  · have hle := SortedMap.size_ofList_le
      ((newest.run (vc.dropOld now threshold.wholeSeconds).entries.toList).take maxEntries.toNat)
    have htake := List.length_take_le maxEntries.toNat
      (newest.run (vc.dropOld now threshold.wholeSeconds).entries.toList)
    simp only [VectorClock.size]
    omega
  · exact not_lt.1 h

theorem size_of_mem_enforceLimits {env : CallEnv} {opts : StorageOptions} {merged : SiblingSet}
    {x : Sibling} (h : x ∈ env.enforceLimits opts merged) :
    (x.vclock.size : ℤ) ≤ opts.vclockMaxEntries := by
  obtain ⟨i, sib, -, rfl⟩ := mem_enforceLimits h
  exact size_prune_le _ _ opts.vclockMaxEntries_pos _ _

namespace Storage

variable {opts : StorageOptions} {s s' : Storage}

/-! ## What an operation preserves -/

theorem withinBounds_new (opts : StorageOptions) : (new opts).WithinBounds opts :=
  ⟨rfl, fun _ _ _ h => by cases h⟩

/-- A write of a record within the limits. -/
theorem WithinBounds.insert (hs : s.WithinBounds opts) {key data : Bytes}
    (h : ∀ set, decodeSiblingSet data = .ok set → InLimits opts set) :
    ({ s with db := s.db.insert key data } : Storage).WithinBounds opts := by
  refine ⟨hs.1, fun k data' set hget hdec => ?_⟩
  rw [SortedMap.get?_insert] at hget
  split_ifs at hget
  · obtain rfl := Option.some.inj hget
    exact h set hdec
  · exact hs.2 k data' set hget hdec

theorem WithinBounds.erase (hs : s.WithinBounds opts) (key : Bytes) :
    ({ s with db := s.db.erase key } : Storage).WithinBounds opts := by
  refine ⟨hs.1, fun k data set hget hdec => ?_⟩
  by_cases hk : k = key
  · rw [hk, SortedMap.get?_erase_self] at hget
    cases hget
  · rw [SortedMap.get?_erase_of_ne _ hk] at hget
    exact hs.2 k data set hget hdec

/-- The values that `Put` merges are within the limit: the incoming ones have been checked, and the
stored ones fit the format. -/
theorem value_length_of_merge {env : CallEnv} {key data : Bytes} {siblings merged : SiblingSet}
    (hprep : s.prepare env key siblings = .ok data) (hmerge : s.merge env key siblings = .ok merged) :
    ∀ sib ∈ merged, sib.value.length ≤ maxValueSize := by
  intro sib hsib
  obtain ⟨all, hall, rfl⟩ := merge_eq_ok hmerge
  rcases mem_of_mem_reconcile hsib with hsib | hsib
  · exact value_length_of_prepare hprep sib hsib
  · exact (storable_of_stored hall sib (mem_of_mem_unexpired hsib)).value

/-- What `Put` writes is within the limits. -/
theorem inLimits_of_prepare {env : CallEnv} {key data : Bytes} {siblings set : SiblingSet}
    (hprep : s.prepare env key siblings = .ok data) (hdec : decodeSiblingSet data = .ok set) :
    InLimits s.opts set := by
  obtain ⟨merged, hmerge, henc⟩ := prepare_eq_ok hprep
  obtain rfl := eq_of_decodeSiblingSet henc hdec
  refine ⟨List.length_pos_of_ne_nil (decodeSiblingSet_eq_ok hdec).1, length_enforceLimits_le _ _ _,
    fun _ => size_of_mem_enforceLimits, fun x hx => ?_⟩
  obtain ⟨i, sib, hsib, rfl⟩ := mem_enforceLimits hx
  exact value_length_of_merge hprep hmerge sib hsib

theorem WithinBounds.put (hs : s.WithinBounds opts) (env : CallEnv) (key : Bytes)
    (siblings : SiblingSet) :
    ((StorageM.put env key siblings).run.run s).2.WithinBounds opts := by
  rw [StorageM.run_put]
  cases hput : s.put env key siblings with
  | error err => exact hs
  | ok s' =>
    obtain ⟨data, hprep, -, rfl⟩ := put_eq_ok.1 hput
    refine hs.insert fun set hdec => ?_
    rw [← hs.1]
    exact inLimits_of_prepare hprep hdec

/-- Taking siblings away keeps the limits, as long as one is left. -/
theorem InLimits.filter {set : SiblingSet} (h : InLimits opts set) {p : Sibling → Bool}
    (hne : set.filter p ≠ []) : InLimits opts (set.filter p) where
  pos := List.length_pos_of_ne_nil hne
  siblings := le_trans (by exact_mod_cast List.length_filter_le p set) h.siblings
  clocks := fun sib hsib => h.clocks sib (List.mem_filter.1 hsib).1
  values := fun sib hsib => h.values sib (List.mem_filter.1 hsib).1

/-- The collector writes what it has left of a record. -/
theorem WithinBounds.applyGC (hs : s.WithinBounds opts) {key data : Bytes}
    (h : ∀ set, decodeSiblingSet data = .ok set → InLimits opts set) (now ttl : Int64) :
    (s.applyGC key (gcAction now ttl data)).WithinBounds opts := by
  cases ha : gcAction now ttl data with
  | keep => exact hs
  | delete => exact hs.erase key
  | rewrite data' =>
    refine hs.insert fun set hdec => ?_
    obtain ⟨set₀, hdec₀, hdec'⟩ := gcAction_eq_rewrite ha
    rw [hdec'] at hdec
    obtain rfl := Except.ok.inj hdec
    exact (h set₀ hdec₀).filter (decodeSiblingSet_eq_ok hdec').1

theorem WithinBounds.gcPass (hs : s.WithinBounds opts) (now : Int64) (seen : ℕ)
    (lost : Bytes → Bool) : (s.gcPass now seen lost).WithinBounds opts := by
  -- the records are those of the store that the pass began with
  have loop : ∀ (l : List (Bytes × Bytes)), l ⊆ s.db.toList → ∀ t : Storage, t.WithinBounds opts →
      (l.foldl (fun s' p => if lost p.1 then s'
        else s'.applyGC p.1 (gcAction now s.opts.tombstoneTTL.wholeSeconds p.2)) t).WithinBounds
          opts := by
    intro l
    induction l with
    | nil => exact fun _ t ht => ht
    | cons p l ih =>
      intro hsub t ht
      obtain ⟨hp, hl⟩ := List.cons_subset.1 hsub
      refine ih hl _ ?_
      dsimp only
      split_ifs
      · exact ht
      · exact ht.applyGC (hs.2 p.1 p.2 · (SortedMap.mem_toList_iff.1 hp)) _ _
  exact loop _ (List.take_subset _ _) s hs

theorem WithinBounds.step {op : StorageOp} (hs : s.WithinBounds opts) (h : s.step op = some s') :
    s'.WithinBounds opts := by
  obtain rfl := Option.some.inj h
  cases op with
  | put env key siblings => exact hs.put env key siblings
  | delete env now key vclock => exact hs.put env key _
  | gc now seen lost => exact hs.gcPass now seen lost

end Storage

/-- After every sequence of `Put`, `Delete` and `runTombstoneGC` on an empty store, with any Pebble
errors: every record that decodes has between one and `MaxSiblings` siblings, with at most
`VClockMaxEntries` clock entries and at most a megabyte each; a `Put` that returns an error leaves the
store as it was, and one that does not changes no other key. -/
theorem store_within_bounds (opts : StorageOptions) (s : Storage)
    (hrun : Runs Storage.step (fun _ _ => True) (Storage.new opts) s) :
    (∀ key data set, s.db.get? key = some data → decodeSiblingSet data = .ok set →
      1 ≤ set.length ∧ (set.length : ℤ) ≤ opts.maxSiblings ∧
        ∀ sib ∈ set, (sib.vclock.size : ℤ) ≤ opts.vclockMaxEntries ∧
          sib.value.length ≤ maxValueSize) ∧
    ∀ env key siblings,
      (∀ err, (s.apply (.put env key siblings)).1 = .error err →
        (s.apply (.put env key siblings)).2 = s) ∧
      ((s.apply (.put env key siblings)).1 = .ok () →
        (s.apply (.put env key siblings)).2.opts = s.opts ∧
        (s.apply (.put env key siblings)).2.closed = s.closed ∧
        ∀ key', key' ≠ key →
          (s.apply (.put env key siblings)).2.db.get? key' = s.db.get? key') := by
  have hs : s.WithinBounds opts := hrun.invariant (Storage.WithinBounds opts)
    (Storage.withinBounds_new opts) fun _ _ _ hs _ => hs.step
  refine ⟨fun key data set hget hdec => ?_, fun env key siblings => ?_⟩
  · have h := hs.2 key data set hget hdec
    exact ⟨h.pos, h.siblings, fun sib hsib => ⟨h.clocks sib hsib, h.values sib hsib⟩⟩
  · rw [Storage.apply, StorageM.run_put]
    cases hput : s.put env key siblings with
    | error err => exact ⟨fun _ _ => rfl, fun h => by cases h⟩
    | ok s' =>
      obtain ⟨data, -, -, rfl⟩ := Storage.put_eq_ok.1 hput
      refine ⟨fun _ h => ?_, fun _ => ⟨rfl, rfl, fun key' hk => ?_⟩⟩
      · cases h
      · exact SortedMap.get?_insert_of_ne _ (Ne.symm hk) _

/-- Room for one sibling of each key. -/
def oneSiblingOptions : StorageOptions :=
  { defaultStorageOptions with maxSiblings := 1, maxSiblings_pos := by decide }

/-- Two concurrent writes of the key `k`, and a pass of the collector. -/
def concurrentWrites : List StorageOp :=
  [.put (CallEnv.steady 100) [107] [⟨[1], VectorClock.new.set 100 [97] 1, 100, false, 0⟩],
    .put (CallEnv.steady 100) [107] [⟨[2], VectorClock.new.set 100 [98] 1, 101, false, 0⟩],
    .gc 200 1 fun _ => false]

set_option maxRecDepth 4000 in
/-- One of them is left. -/
theorem store_within_bounds_of_two_writes :
    ∃ (s : Storage) (data : Bytes) (set : SiblingSet), s.db.get? [107] = some data ∧
      decodeSiblingSet data = .ok set ∧ 1 ≤ set.length ∧ (set.length : ℤ) ≤ 1 := by
  have hexec : (exec Storage.step (Storage.new oneSiblingOptions) concurrentWrites).isSome = true :=
    rfl
  have hget : ∃ data, (stateAfter Storage.step (Storage.new oneSiblingOptions)
      concurrentWrites).db.get? [107] = some data ∧ decodeSiblingSet data =
        .ok [⟨[2], VectorClock.new.set 100 [98] 1, 101, false, 0⟩] := by
    refine ⟨_, Option.some_get (by decide +kernel) |>.symm, by decide +kernel⟩
  obtain ⟨data, hdata, hdec⟩ := hget
  have h := (store_within_bounds oneSiblingOptions _ (Runs.stateAfter ⟨hexec, by
    decide +kernel⟩)).1 [107] data _ hdata hdec
  exact ⟨_, data, _, hdata, hdec, h.1, h.2.1⟩

end GoQuorum
