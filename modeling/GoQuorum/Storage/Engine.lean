import GoQuorum.Lib.Versions
import GoQuorum.Storage.RoundTrip
import GoQuorum.VClock.Compare

/-!
# The storage engine

`internal/storage/engine.go` over a Pebble database, which is a sorted map from keys to records.
`Storage.Put` reads the record of a key, reconciles it with the incoming siblings, prunes, encodes
and writes it back.  It is split into `prepare`, which computes the record to write, and `commit`,
which writes it, so that other operations can run between the two; `put` is the two in one step.

What a call reads from its surroundings (the wall clock, Pebble's errors, the order `sort.Slice`
gives entries of equal age) is a `CallEnv`.
-/

namespace GoQuorum

open Lib Lib.Versions

/-! ## Options, errors and surroundings -/

/-- The options the modelled operations read, as `Validate` accepts them. -/
structure StorageOptions where
  syncWrites : Bool
  maxSiblings : ℤ
  vclockPruneThreshold : Duration
  vclockMaxEntries : ℤ
  tombstoneTTL : Duration
  maxSiblings_pos : 0 < maxSiblings
  vclockPruneThreshold_nonneg : 0 ≤ vclockPruneThreshold
  vclockMaxEntries_pos : 0 < vclockMaxEntries
  tombstoneTTL_nonneg : 0 ≤ tombstoneTTL

/-- `DefaultStorageOptions`: a hundred siblings, fifty clock entries, seven days. -/
def defaultStorageOptions : StorageOptions where
  syncWrites := true
  maxSiblings := 100
  vclockPruneThreshold := 604800000000000
  vclockMaxEntries := 50
  tombstoneTTL := 604800000000000
  maxSiblings_pos := by decide
  vclockPruneThreshold_nonneg := by decide
  vclockMaxEntries_pos := by decide
  tombstoneTTL_nonneg := by decide

/-- Pebble's errors, as far as `isDiskFullError` and `isIOError` tell them apart. -/
inductive PebbleError where
  | noSpace
  | inputOutput
  | other
  deriving DecidableEq, Repr

/-- The errors of the engine. -/
inductive StorageError where
  | storageClosed
  | invalidKey (err : KeyError)
  | invalidValue (i length : ℕ)
  | keyNotFound
  | pebbleGet (err : PebbleError)
  | decode (err : DecodeError)
  | readExisting (err : StorageError)
  | encode (err : EncodeError)
  | storageFull
  | storageIOFailure
  | pebbleSet (err : PebbleError)
  deriving DecidableEq, Repr

/-- What one call meets: Pebble's answers, the times it reads, and how `sort.Slice` orders the
entries of the `i`-th clock it prunes. -/
structure CallEnv where
  getError : Option PebbleError
  setError : Option PebbleError
  readNow : Int64
  pruneNow : ℕ → Int64
  newest : ℕ → NewestFirst

/-- A call at one moment, without Pebble errors. -/
def CallEnv.steady (now : Int64) : CallEnv :=
  ⟨none, none, now, fun _ => now, fun _ => NewestFirst.insertion⟩

/-- A node's storage. -/
structure Storage where
  opts : StorageOptions
  db : SortedMap Bytes Bytes
  closed : Bool

/-- `NewStorage` on an empty directory. -/
def Storage.new (opts : StorageOptions) : Storage := ⟨opts, SortedMap.empty, false⟩

/-! ## Sibling sets -/

/-- `filterTombstones`. -/
def filterTombstones (siblings : List Sibling) : List Sibling :=
  siblings.filter fun sib => ¬ sib.tombstone

/-- The expiry test of `GetRaw`. -/
def Sibling.expired (now : Int64) (sib : Sibling) : Bool :=
  sib.expiresAt ≠ 0 && now ≥ sib.expiresAt

/-- The loop of `GetRaw` over expired siblings. -/
def unexpired (now : Int64) (siblings : List Sibling) : List Sibling :=
  siblings.filter fun sib => ¬ sib.expired now

/-- `dedupSiblings`: the first sibling of each printed clock. -/
def dedupSiblings (siblings : List Sibling) : List Sibling :=
  dedupBy (fun sib => sib.vclock.string) [] siblings

/-- `reconcileSiblings`: the incoming siblings, then the existing ones that no incoming one
supersedes. -/
def reconcileSiblings (existing incoming : SiblingSet) : SiblingSet :=
  if existing = [] then incoming
  else if incoming = [] then existing
  else dedupSiblings (incoming ++ existing.filter fun existingSib =>
    ¬ incoming.any fun incomingSib => incomingSib.vclock.happensAfter existingSib.vclock)

/-- The inner loop of `pruneSiblings`: the sibling that ends at the front and the others. -/
def exchangePass (front : Sibling) : List Sibling → Sibling × List Sibling
  | [] => (front, [])
  | sib :: rest =>
    if sib.timestamp > front.timestamp then
      let (first, others) := exchangePass sib rest
      (first, front :: others)
    else
      let (first, others) := exchangePass front rest
      (first, sib :: others)

/-- The outer loop of `pruneSiblings`, over the positions of the list. -/
def exchangeSort : ℕ → List Sibling → List Sibling
  | n + 1, sib :: rest =>
    let (first, others) := exchangePass sib rest
    first :: exchangeSort n others
  | _, siblings => siblings

/-- `pruneSiblings`: keep `maxCount` of the newest. -/
def pruneSiblings (siblings : List Sibling) (maxCount : ℤ) : List Sibling :=
  if (siblings.length : ℤ) ≤ maxCount then siblings
  else (exchangeSort siblings.length siblings).take maxCount.toNat

namespace CallEnv

/-- The clock of the `i`-th sibling after `Prune`. -/
def pruneClock (env : CallEnv) (opts : StorageOptions) (i : ℕ) (vc : VectorClock) : VectorClock :=
  (vc.prune (env.pruneNow i) opts.vclockPruneThreshold opts.vclockMaxEntries (env.newest i)).1

/-- The loop of `Put` that prunes the clocks. -/
def pruneClocks (env : CallEnv) (opts : StorageOptions) (merged : SiblingSet) : SiblingSet :=
  merged.mapIdx fun i sib => { sib with vclock := env.pruneClock opts i sib.vclock }

/-- What `Put` keeps of the reconciled siblings. -/
def enforceLimits (env : CallEnv) (opts : StorageOptions) (merged : SiblingSet) : SiblingSet :=
  let pruned := env.pruneClocks opts merged
  if (pruned.length : ℤ) > opts.maxSiblings then pruneSiblings pruned opts.maxSiblings else pruned

end CallEnv

/-! ## Operations -/

namespace Storage

/-- The common part of `Get` and `GetRaw`: the decoded record of a key. -/
def readRecord (env : CallEnv) (s : Storage) (key : Bytes) : Except StorageError SiblingSet :=
  if s.closed then .error .storageClosed
  else do
    (validateKey key).mapError .invalidKey
    match env.getError with
    | some err => .error (.pebbleGet err)
    | none =>
      match s.db.get? key with
      | none => .error .keyNotFound
      | some data => (decodeSiblingSet data).mapError .decode

/-- A filtered record, not found if nothing is left of it. -/
def foundOr (siblings : SiblingSet) : Except StorageError SiblingSet :=
  if siblings = [] then .error .keyNotFound else .ok siblings

/-- `Get`: tombstones are hidden. -/
def get (env : CallEnv) (s : Storage) (key : Bytes) : Except StorageError SiblingSet := do
  let siblings ← s.readRecord env key
  foundOr (filterTombstones siblings)

/-- `GetRaw`: tombstones are visible, expired siblings are not. -/
def getRaw (env : CallEnv) (s : Storage) (key : Bytes) : Except StorageError SiblingSet := do
  let siblings ← s.readRecord env key
  foundOr (unexpired env.readNow siblings)

/-- The read of `Put`: a missing key is an empty set. -/
def readExisting (env : CallEnv) (s : Storage) (key : Bytes) : Except StorageError SiblingSet :=
  match s.getRaw env key with
  | .ok existing => .ok existing
  | .error .keyNotFound => .ok []
  | .error err => .error (.readExisting err)

/-- The loop of `Put` over `ValidateValue`. -/
def validateValues : ℕ → List Sibling → Except StorageError Unit
  | _, [] => .ok ()
  | i, sib :: rest => do
    (validateValue sib.value).mapError (.invalidValue i)
    validateValues (i + 1) rest

/-- `Put` up to the reconciled set. -/
def merge (env : CallEnv) (s : Storage) (key : Bytes) (siblings : SiblingSet) :
    Except StorageError SiblingSet :=
  if s.closed then .error .storageClosed
  else do
    (validateKey key).mapError .invalidKey
    validateValues 0 siblings
    let existing ← s.readExisting env key
    return reconcileSiblings existing siblings

/-- `Put` up to the record it writes. -/
def prepare (env : CallEnv) (s : Storage) (key : Bytes) (siblings : SiblingSet) :
    Except StorageError Bytes := do
  let merged ← s.merge env key siblings
  (encodeSiblingSet (env.enforceLimits s.opts merged)).mapError .encode

/-- The write of `Put`. -/
def commit (env : CallEnv) (s : Storage) (key data : Bytes) : Except StorageError Storage :=
  match env.setError with
  | none => .ok { s with db := s.db.insert key data }
  | some .noSpace => .error .storageFull
  | some .inputOutput => .error .storageIOFailure
  | some .other => .error (.pebbleSet .other)

/-- `Put`. -/
def put (env : CallEnv) (s : Storage) (key : Bytes) (siblings : SiblingSet) :
    Except StorageError Storage := do
  let data ← s.prepare env key siblings
  s.commit env key data

/-- The sibling `Delete` writes. -/
def tombstoneOf (now : Int64) (vclock : VectorClock) : Sibling := ⟨[], vclock, now, true, 0⟩

/-- `Delete`. -/
def delete (env : CallEnv) (now : Int64) (s : Storage) (key : Bytes) (vclock : VectorClock) :
    Except StorageError Storage :=
  s.put env key [tombstoneOf now vclock]

end Storage

/-! ## Tombstone collection -/

/-- The test of `runTombstoneGC`, in `int64` arithmetic. -/
def Sibling.collectable (now ttl : Int64) (sib : Sibling) : Bool :=
  sib.tombstone && (now - sib.timestamp > ttl)

/-- What `runTombstoneGC` does with one record. -/
inductive GCAction where
  | keep
  | delete
  | rewrite (data : Bytes)
  deriving DecidableEq

/-- The body of the loop of `runTombstoneGC`: records that do not decode are left alone, and the
error of the encoder is ignored. -/
def gcAction (now ttl : Int64) (data : Bytes) : GCAction :=
  match decodeSiblingSet data with
  | .error _ => .keep
  | .ok siblings =>
    let filtered := siblings.filter fun sib => ¬ sib.collectable now ttl
    if filtered.length = siblings.length then .keep
    else if filtered = [] then .delete
    else .rewrite ((encodeSiblingSet filtered).toOption.getD [])

namespace Storage

/-- The write of one round of `runTombstoneGC`. -/
def applyGC (s : Storage) (key : Bytes) : GCAction → Storage
  | .keep => s
  | .delete => { s with db := s.db.erase key }
  | .rewrite data => { s with db := s.db.insert key data }

/-- `runTombstoneGC` with nothing else running: the records are those of the iterator's snapshot. -/
def runTombstoneGC (now : Int64) (s : Storage) : Storage :=
  s.db.toList.foldl (fun s' p => s'.applyGC p.1 (gcAction now s.opts.tombstoneTTL.wholeSeconds p.2)) s

end Storage

/-! ## What is stored -/

namespace Storage

/-- The siblings stored under a key, none if the key is absent. -/
def stored (s : Storage) (key : Bytes) : Except DecodeError SiblingSet :=
  match s.db.get? key with
  | none => .ok []
  | some data => decodeSiblingSet data

/-- The siblings that can be read under a key. -/
def held (s : Storage) (key : Bytes) : SiblingSet := (s.stored key).toOption.getD []

variable {env : CallEnv} {s s' : Storage} {key : Bytes}

theorem readRecord_eq_ok {set : SiblingSet} (h : s.readRecord env key = .ok set) :
    s.stored key = .ok set ∧ ∃ data, s.db.get? key = some data := by
  unfold readRecord at h
  split_ifs at h
  obtain ⟨-, -, h⟩ := bind_eq_ok.1 h
  unfold stored
  cases hg : env.getError with
  | some e => simp [hg] at h
  | none =>
    cases hd : s.db.get? key with
    | none => simp [hg, hd] at h
    | some data =>
      simp only [hg, hd, mapError_eq_ok] at h
      exact ⟨h, data, rfl⟩

/-- How reading a record fails on its data: there is none, or it does not decode. -/
theorem readRecord_eq_error {err : StorageError} (h : s.readRecord env key = .error err)
    (hnotFound : err = .keyNotFound ∨ ∃ e, err = .decode e) :
    match err with
    | .decode e => s.stored key = .error e
    | _ => s.stored key = .ok [] := by
  unfold readRecord at h
  split_ifs at h
  · cases h
    rcases hnotFound with h | ⟨e, h⟩ <;> cases h
  rcases bind_eq_error.1 h with h | ⟨-, -, h⟩
  · obtain ⟨e, -, rfl⟩ := mapError_eq_error.1 h
    rcases hnotFound with h | ⟨e, h⟩ <;> cases h
  unfold stored
  cases hg : env.getError with
  | some e =>
    rw [hg] at h
    cases h
    rcases hnotFound with h | ⟨e, h⟩ <;> cases h
  | none =>
    rw [hg] at h
    cases hd : s.db.get? key with
    | none =>
      rw [hd] at h
      cases h
      rfl
    | some data =>
      simp only [hd] at h
      obtain ⟨e, he, rfl⟩ := mapError_eq_error.1 h
      exact he

/-- A read that does not find the key has met no record. -/
theorem stored_of_keyNotFound (h : s.readRecord env key = .error .keyNotFound) :
    s.stored key = .ok [] :=
  readRecord_eq_error h (Or.inl rfl)

/-- A read that fails to decode has met a record that does not. -/
theorem stored_of_decodeError {err : DecodeError} (h : s.readRecord env key = .error (.decode err)) :
    s.stored key = .error err :=
  readRecord_eq_error h (Or.inr ⟨err, rfl⟩)

theorem foundOr_eq_ok {l set : SiblingSet} : foundOr l = .ok set ↔ l = set ∧ l ≠ [] := by
  unfold foundOr
  split_ifs with h
  · exact iff_of_false nofun fun hc => hc.2 h
  · rw [Except.ok.injEq]
    exact ⟨fun e => ⟨e, h⟩, fun e => e.1⟩

/-- `GetRaw` returns the unexpired part of what is stored. -/
theorem getRaw_eq_ok {set : SiblingSet} (h : s.getRaw env key = .ok set) :
    ∃ all, s.stored key = .ok all ∧ set = unexpired env.readNow all := by
  obtain ⟨all, hall, hf⟩ := bind_eq_ok.1 h
  exact ⟨all, (readRecord_eq_ok hall).1, (foundOr_eq_ok.1 hf).1.symm⟩

theorem eq_nil_of_bind_foundOr {x : Except StorageError SiblingSet} {f : SiblingSet → SiblingSet}
    (h : (x >>= fun l => foundOr (f l)) = .error .keyNotFound) :
    x = .error .keyNotFound ∨ ∃ all, x = .ok all ∧ f all = [] := by
  cases x with
  | error e => exact Or.inl (by simpa using h)
  | ok all =>
    refine Or.inr ⟨all, rfl, ?_⟩
    by_contra hne
    simp only [ok_bind, foundOr, if_neg hne, reduceCtorEq] at h

/-- `GetRaw` does not find a key when nothing stored under it is unexpired. -/
theorem getRaw_keyNotFound (h : s.getRaw env key = .error .keyNotFound) :
    ∃ all, s.stored key = .ok all ∧ unexpired env.readNow all = [] := by
  rcases eq_nil_of_bind_foundOr h with h | ⟨all, hall, hnil⟩
  · exact ⟨[], stored_of_keyNotFound h, rfl⟩
  · exact ⟨all, (readRecord_eq_ok hall).1, hnil⟩

theorem readExisting_eq_ok {existing : SiblingSet} (h : s.readExisting env key = .ok existing) :
    ∃ all, s.stored key = .ok all ∧ existing = unexpired env.readNow all := by
  unfold readExisting at h
  split at h
  · rename_i set hset
    obtain rfl := Except.ok.inj h
    exact getRaw_eq_ok hset
  · rename_i hnf
    obtain rfl := Except.ok.inj h
    obtain ⟨all, hall, hnil⟩ := getRaw_keyNotFound hnf
    exact ⟨all, hall, hnil.symm⟩
  · cases h

/-- What `Put` reconciles: the incoming siblings with the unexpired stored ones. -/
theorem merge_eq_ok {siblings merged : SiblingSet} (h : s.merge env key siblings = .ok merged) :
    ∃ all, s.stored key = .ok all ∧
      merged = reconcileSiblings (unexpired env.readNow all) siblings := by
  unfold merge at h
  split_ifs at h
  obtain ⟨-, -, h⟩ := bind_eq_ok.1 h
  obtain ⟨-, -, h⟩ := bind_eq_ok.1 h
  obtain ⟨existing, hex, h⟩ := bind_eq_ok.1 h
  obtain ⟨all, hall, rfl⟩ := readExisting_eq_ok hex
  exact ⟨all, hall, (Except.ok.inj h).symm⟩

/-- What `Put` writes: the encoding of what the limits leave of the reconciled set. -/
theorem prepare_eq_ok {siblings : SiblingSet} {data : Bytes}
    (h : s.prepare env key siblings = .ok data) :
    ∃ merged, s.merge env key siblings = .ok merged ∧
      encodeSiblingSet (env.enforceLimits s.opts merged) = .ok data := by
  obtain ⟨merged, hm, he⟩ := bind_eq_ok.1 h
  exact ⟨merged, hm, mapError_eq_ok.1 he⟩

theorem commit_eq_ok {data : Bytes} :
    s.commit env key data = .ok s' ↔
      env.setError = none ∧ s' = { s with db := s.db.insert key data } := by
  unfold commit
  cases env.setError with
  | none => simp [eq_comm]
  | some e => cases e <;> simp

/-- A successful `Put` has written what it prepared. -/
theorem put_eq_ok {siblings : SiblingSet} :
    s.put env key siblings = .ok s' ↔
      ∃ data, s.prepare env key siblings = .ok data ∧ env.setError = none ∧
        s' = { s with db := s.db.insert key data } := by
  unfold put
  simp only [bind_eq_ok, commit_eq_ok]

end Storage

/-! ## Reconciliation as a join -/

/-- Reconciliation with a nonempty record joins the incoming siblings with the stored ones. -/
theorem reconcileSiblings_eq_join {existing incoming : SiblingSet} (he : existing ≠ [])
    (hi : incoming ≠ []) :
    reconcileSiblings existing incoming =
      join Sibling.vclock (fun sib => sib.vclock.string) incoming existing := by
  rw [reconcileSiblings, if_neg he, if_neg hi, dedupSiblings, join, retained]
  congr 2
  refine List.filter_congr fun e _ => ?_
  simp only [List.any_eq_true, VectorClock.happensAfter_iff]

theorem mem_of_mem_reconcile {existing incoming : SiblingSet} {x : Sibling}
    (h : x ∈ reconcileSiblings existing incoming) : x ∈ incoming ∨ x ∈ existing := by
  by_cases he : existing = []
  · rw [reconcileSiblings, if_pos he] at h
    exact Or.inl h
  by_cases hi : incoming = []
  · rw [reconcileSiblings, if_neg he, if_pos hi] at h
    exact Or.inr h
  rw [reconcileSiblings_eq_join he hi] at h
  exact mem_of_mem_join h

end GoQuorum
