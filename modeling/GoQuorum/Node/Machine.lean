import GoQuorum.Lib.Runs
import GoQuorum.Server.InternalAPI

/-!
# Writes in progress on one node

A node runs many writes at once.  Each reads the record of its key, computes the new record and
writes it back: `Storage.Put`, reached from a `Replicate` request or from `Coordinator.localWrite`.
Only `localWrite` takes the lock of the key first.  Meanwhile a pass of `runTombstoneGC` walks over
a snapshot of the database.

Pebble's `Get`, `Set` and `Delete` are atomic steps; `NodeState.step` interleaves them freely.  The
log of committed writes and the length it had when a write read its record are there to state
properties; no step depends on them.
-/

namespace GoQuorum

open Lib

/-- A write: what it passes to `Storage.Put`, and whether it holds the lock of its key. -/
structure WriteTask where
  key : Bytes
  siblings : SiblingSet
  locks : Bool
  env : CallEnv

/-- The two ways a write reaches the storage of a node. -/
inductive WriteRequest where
  | replicate (req : ReplicateReq) (stamp : NodeID → Int64) (env : CallEnv)
  | localWrite (key : Bytes) (siblings : SiblingSet) (env : CallEnv)

/-- `Replicate` does not lock, `localWrite` does. -/
def WriteRequest.task : WriteRequest → WriteTask
  | replicate req stamp env => ⟨req.key, req.siblings stamp, false, env⟩
  | localWrite key siblings env => ⟨key, siblings, true, env⟩

/-- How far a write has come.  `prepared` holds the record it will write and the length of the log
when it read. -/
inductive Phase where
  | waiting
  | locked
  | prepared (data : Bytes) (seen : ℕ)
  | done
  | failed (err : StorageError)
  deriving DecidableEq

/-- A pass of `runTombstoneGC`: its time and the rest of its snapshot. -/
structure GCPass where
  now : Int64
  remaining : List (Bytes × Bytes)

/-- A node: its store, its writes, the holders of its key locks, the committed writes in order, and
the pass of the garbage collector. -/
structure NodeState (ι : Type) where
  store : Storage
  phase : ι → Phase
  holder : Bytes → Option ι
  log : List ι
  gc : Option GCPass

/-- The atomic steps.  `gcNext` says whether Pebble took the write of the collector, whose error is
ignored. -/
inductive NodeEvent (ι : Type) where
  | lock (i : ι)
  | read (i : ι)
  | write (i : ι)
  | gcStart (now : Int64)
  | gcNext (applied : Bool)
  | gcStop

namespace NodeState

variable {ι : Type} [DecidableEq ι] (task : ι → WriteTask)

/-- A node before any of its writes. -/
def init (store : Storage) (gc : Option GCPass) : NodeState ι :=
  ⟨store, fun _ => .waiting, fun _ => none, [], gc⟩

/-- The lock of a write's key is free again if the write held it. -/
def released (s : NodeState ι) (i : ι) : Bytes → Option ι :=
  if (task i).locks then Function.update s.holder (task i).key none else s.holder

/-- A write stops with an error. -/
def fail (s : NodeState ι) (i : ι) (err : StorageError) : NodeState ι :=
  { s with phase := Function.update s.phase i (.failed err), holder := s.released task i }

/-- A write stores its record. -/
def finish (s : NodeState ι) (i : ι) (store : Storage) : NodeState ι :=
  { s with
    store := store
    phase := Function.update s.phase i .done
    holder := s.released task i
    log := s.log ++ [i] }

/-- A write may read once it holds its lock, or at once if it takes none. -/
def MayRead (s : NodeState ι) (i : ι) : Prop :=
  s.phase i = if (task i).locks then .locked else .waiting

instance (s : NodeState ι) (i : ι) : Decidable (s.MayRead task i) :=
  inferInstanceAs (Decidable (_ = _))

/-- One atomic step. -/
def step (s : NodeState ι) : NodeEvent ι → Option (NodeState ι)
  | .lock i =>
    if (task i).locks = true ∧ s.phase i = .waiting ∧ s.holder (task i).key = none then
      some { s with
        phase := Function.update s.phase i .locked
        holder := Function.update s.holder (task i).key (some i) }
    else none
  | .read i =>
    if s.MayRead task i then
      match s.store.prepare (task i).env (task i).key (task i).siblings with
      | .ok data =>
        some { s with phase := Function.update s.phase i (.prepared data s.log.length) }
      | .error err => some (s.fail task i err)
    else none
  | .write i =>
    match s.phase i with
    | .prepared data _ =>
      match s.store.commit (task i).env (task i).key data with
      | .ok store => some (s.finish task i store)
      | .error err => some (s.fail task i err)
    | _ => none
  | .gcStart now =>
    match s.gc with
    | none => some { s with gc := some ⟨now, s.store.db.toList⟩ }
    | some _ => none
  | .gcNext applied =>
    match s.gc with
    | some ⟨now, (key, data) :: rest⟩ =>
      some { s with
        store := if applied then
            s.store.applyGC key (gcAction now s.store.opts.tombstoneTTL.wholeSeconds data)
          else s.store
        gc := some ⟨now, rest⟩ }
    | _ => none
  | .gcStop =>
    match s.gc with
    | some ⟨_, []⟩ => some { s with gc := none }
    | _ => none

/-! ## What each step can do -/

variable {task} {s t : NodeState ι} {i : ι}

theorem step_lock (h : s.step task (.lock i) = some t) :
    (task i).locks = true ∧ s.phase i = .waiting ∧ s.holder (task i).key = none ∧
      t = { s with
        phase := Function.update s.phase i .locked
        holder := Function.update s.holder (task i).key (some i) } := by
  simp only [step] at h
  split_ifs at h with hc
  exact ⟨hc.1, hc.2.1, hc.2.2, (Option.some.inj h).symm⟩

theorem step_read (h : s.step task (.read i) = some t) :
    s.MayRead task i ∧
      ((∃ data, s.store.prepare (task i).env (task i).key (task i).siblings = .ok data ∧
        t = { s with phase := Function.update s.phase i (.prepared data s.log.length) }) ∨
      ∃ err, t = s.fail task i err) := by
  simp only [step] at h
  split_ifs at h with hc
  refine ⟨hc, ?_⟩
  cases hp : s.store.prepare (task i).env (task i).key (task i).siblings with
  | ok data =>
    rw [hp] at h
    exact Or.inl ⟨data, rfl, (Option.some.inj h).symm⟩
  | error err =>
    rw [hp] at h
    exact Or.inr ⟨err, (Option.some.inj h).symm⟩

theorem step_write (h : s.step task (.write i) = some t) :
    ∃ data seen, s.phase i = .prepared data seen ∧
      (t = s.finish task i { s.store with db := s.store.db.insert (task i).key data } ∨
      ∃ err, t = s.fail task i err) := by
  simp only [step] at h
  cases hp : s.phase i with
  | prepared data seen =>
    refine ⟨data, seen, rfl, ?_⟩
    simp only [hp] at h
    cases hc : s.store.commit (task i).env (task i).key data with
    | ok store =>
      simp only [hc] at h
      obtain ⟨-, rfl⟩ := Storage.commit_eq_ok.1 hc
      exact Or.inl (Option.some.inj h).symm
    | error err =>
      simp only [hc] at h
      exact Or.inr ⟨err, (Option.some.inj h).symm⟩
  | waiting => simp [hp] at h
  | locked => simp [hp] at h
  | done => simp [hp] at h
  | failed err => simp [hp] at h

theorem step_gcStart {now : Int64} (h : s.step task (.gcStart now) = some t) :
    s.gc = none ∧ t = { s with gc := some ⟨now, s.store.db.toList⟩ } := by
  simp only [step] at h
  cases hg : s.gc with
  | none =>
    rw [hg] at h
    exact ⟨rfl, (Option.some.inj h).symm⟩
  | some pass =>
    rw [hg] at h
    cases h

theorem step_gcNext {applied : Bool} (h : s.step task (.gcNext applied) = some t) :
    ∃ now key data rest, s.gc = some ⟨now, (key, data) :: rest⟩ ∧
      t = { s with
        store := if applied then
            s.store.applyGC key (gcAction now s.store.opts.tombstoneTTL.wholeSeconds data)
          else s.store
        gc := some ⟨now, rest⟩ } := by
  simp only [step] at h
  split at h
  · rename_i now key data rest hg
    exact ⟨now, key, data, rest, hg, (Option.some.inj h).symm⟩
  · cases h

theorem step_gcStop (h : s.step task .gcStop = some t) : t = { s with gc := none } := by
  simp only [step] at h
  split at h
  · exact (Option.some.inj h).symm
  · cases h

end NodeState

end GoQuorum
