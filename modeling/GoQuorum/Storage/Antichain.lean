import GoQuorum.Lib.Runs
import GoQuorum.Storage.Put

/-!
# When stored siblings are concurrent

The engine is meant to keep only truly concurrent versions of a key side by side.  Reconciliation
removes stored siblings that an incoming one supersedes, but not an incoming sibling that a stored
one supersedes, and it recognises equal clocks by their text, which includes times.  So the stored
siblings of a key are pairwise concurrent after a run of writes as long as no write is late
(`stored_pairwise_concurrent`), and a single late write breaks this
(`late_write_breaks_concurrency`).
-/

namespace GoQuorum

open Lib Lib.Versions

/-- A write call on one key. -/
inductive StoreCall where
  | put (env : CallEnv) (siblings : SiblingSet)
  | delete (env : CallEnv) (now : Int64) (vclock : VectorClock)

namespace StoreCall

def env : StoreCall → CallEnv
  | put env _ => env
  | delete env _ _ => env

/-- The siblings the call brings to `Storage.Put`. -/
def incoming : StoreCall → SiblingSet
  | put _ siblings => siblings
  | delete _ now vclock => [Storage.tombstoneOf now vclock]

end StoreCall

/-- The result of a call. -/
def Storage.perform (key : Bytes) (s : Storage) : StoreCall → Except StorageError Storage
  | .put env siblings => s.put env key siblings
  | .delete env now vclock => s.delete env now key vclock

/-- The store after a call; a call that fails leaves it as it was. -/
def Storage.call (key : Bytes) (s : Storage) (c : StoreCall) : Option Storage :=
  match s.perform key c with
  | .ok s' => some s'
  | .error _ => some s

theorem Storage.perform_eq_put (key : Bytes) (s : Storage) (c : StoreCall) :
    s.perform key c = s.put c.env key c.incoming := by
  cases c <;> rfl

/-- The calls considered: concurrent incoming siblings that do not expire, nothing pruned. -/
def PlainCall (key : Bytes) (s : Storage) (c : StoreCall) : Prop :=
  (c.incoming.Pairwise fun a b => a.vclock.isConcurrentWith b.vclock = true) ∧
    NoTTL c.incoming ∧ Storage.NoPrune c.env s key c.incoming

instance (key : Bytes) (s : Storage) (c : StoreCall) : Decidable (PlainCall key s c) :=
  inferInstanceAs (Decidable (_ ∧ _ ∧ _))

/-- A call that is not late: no incoming clock is before a stored one, and an incoming clock that
equals a stored one also prints like it. -/
def InOrder (key : Bytes) (s : Storage) (c : StoreCall) : Prop :=
  match s.stored key with
  | .ok set => ∀ i ∈ c.incoming, ∀ e ∈ set, i.vclock.happensBefore e.vclock = false ∧
      (i.vclock.equals e.vclock = true → i.vclock.string = e.vclock.string)
  | .error _ => True

instance (key : Bytes) (s : Storage) (c : StoreCall) : Decidable (InOrder key s c) :=
  match h : s.stored key with
  | .ok set => decidable_of_iff (∀ i ∈ c.incoming, ∀ e ∈ set,
      i.vclock.happensBefore e.vclock = false ∧
        (i.vclock.equals e.vclock = true → i.vclock.string = e.vclock.string))
      (by simp only [InOrder, h])
  | .error _ => isTrue (by simp only [InOrder, h])

theorem isConcurrentWith_iff {a b : VectorClock} :
    a.isConcurrentWith b = true ↔ IncompRel (· ≤ ·) a b := by
  rw [VectorClock.isConcurrentWith, beq_iff_eq, VectorClock.compare_eq_concurrent]

theorem pairwise_concurrent_iff {set : SiblingSet} :
    (set.Pairwise fun a b => a.vclock.isConcurrentWith b.vclock = true) ↔
      Antichain Sibling.vclock set := by
  simp only [isConcurrentWith_iff, Antichain]

/-- Reconciliation of concurrent siblings with concurrent stored ones, in order. -/
theorem antichain_reconcile {existing incoming : SiblingSet}
    (he : Antichain Sibling.vclock existing) (hi : Antichain Sibling.vclock incoming)
    (hlt : ∀ i ∈ incoming, ∀ e ∈ existing, ¬ i.vclock < e.vclock)
    (heq : ∀ i ∈ incoming, ∀ e ∈ existing,
      AntisymmRel (· ≤ ·) i.vclock e.vclock → i.vclock.string = e.vclock.string) :
    Antichain Sibling.vclock (reconcileSiblings existing incoming) := by
  by_cases hen : existing = []
  · rw [reconcileSiblings, if_pos hen]
    exact hi
  by_cases hin : incoming = []
  · rw [reconcileSiblings, if_neg hen, if_pos hin]
    exact he
  rw [reconcileSiblings_eq_join hen hin]
  exact antichain_join hi he hlt heq

/-- The invariant of a run of calls that are in order. -/
def ConcurrentRecord (key : Bytes) (s : Storage) : Prop :=
  ∀ set, s.stored key = .ok set → Antichain Sibling.vclock set ∧ NoTTL set

theorem concurrentRecord_call {key : Bytes} {s s' : Storage} {c : StoreCall}
    (hs : ConcurrentRecord key s) (hplain : PlainCall key s c) (horder : InOrder key s c)
    (h : s.call key c = some s') : ConcurrentRecord key s' := by
  obtain ⟨hconc, httl, hprune⟩ := hplain
  unfold Storage.call at h
  rw [Storage.perform_eq_put] at h
  cases hput : s.put c.env key c.incoming with
  | error e =>
    rw [hput] at h
    obtain rfl := Option.some.inj h
    exact hs
  | ok t =>
    rw [hput] at h
    obtain rfl := Option.some.inj h
    obtain ⟨data, hdata, -, rfl⟩ := Storage.put_eq_ok.1 hput
    obtain ⟨old, hold, henc⟩ := Storage.prepare_of_noPrune hdata hprune
    obtain ⟨hanti, hnottl⟩ := hs old hold
    rw [unexpired_of_noTTL hnottl] at henc
    intro set hset
    rw [Storage.stored_insert_self] at hset
    obtain rfl := eq_of_decodeSiblingSet henc hset
    simp only [InOrder, hold] at horder
    refine ⟨antichain_reconcile hanti (pairwise_concurrent_iff.1 hconc) ?_ ?_,
      hnottl.reconcile httl⟩
    · intro i hi e he hlt
      have := (horder i hi e he).1
      rw [VectorClock.happensBefore_iff.2 hlt] at this
      cases this
    · intro i hi e he heq
      exact (horder i hi e he).2 (VectorClock.equals_iff.2 heq)

/-- After any run of writes on a key that are all in order, any two stored siblings have
concurrent clocks. -/
theorem stored_pairwise_concurrent (opts : StorageOptions) (key : Bytes) (s : Storage)
    (set : SiblingSet)
    (hrun : Runs (Storage.call key) (fun s c => PlainCall key s c ∧ InOrder key s c)
      (Storage.new opts) s)
    (hset : s.stored key = .ok set) :
    set.Pairwise fun a b => a.vclock.isConcurrentWith b.vclock = true := by
  have hinit : ConcurrentRecord key (Storage.new opts) := by
    intro set hset
    obtain rfl : set = [] := (Except.ok.inj hset).symm
    exact ⟨List.Pairwise.nil, fun sib hs => absurd hs List.not_mem_nil⟩
  have hinv := hrun.invariant (ConcurrentRecord key) hinit fun s c t hs hc =>
    concurrentRecord_call hs hc.1 hc.2
  exact pairwise_concurrent_iff.2 (hinv set hset).1

/-- A version of the key `k` with the value `v`, written at time 100. -/
def versionAt100 (v : UInt8) (vclock : VectorClock) : Sibling := ⟨[v], vclock, 100, false, 0⟩

/-- A put of one version at time 100. -/
def putAt100 (v : UInt8) (vclock : VectorClock) : StoreCall :=
  .put (CallEnv.steady 100) [versionAt100 v vclock]

set_option maxRecDepth 4000 in
theorem stored_pairwise_concurrent_of_two_writers :
    ∃ s : Storage, ∃ a b : Sibling, s.stored [107] = .ok [b, a] ∧
      [b, a].Pairwise fun x y => x.vclock.isConcurrentWith y.vclock = true := by
  obtain ⟨s, hrun, hset⟩ := Runs.exists_of_exec (Storage.call [107])
    (fun s c => PlainCall [107] s c ∧ InOrder [107] s c) (Storage.new defaultStorageOptions)
    [putAt100 1 (VectorClock.new.set 100 [97] 1), putAt100 2 (VectorClock.new.set 100 [98] 1)]
    (fun s => s.stored [107])
    (by decide +kernel : _ = some (.ok [versionAt100 2 (VectorClock.new.set 100 [98] 1),
      versionAt100 1 (VectorClock.new.set 100 [97] 1)])) (by decide +kernel)
  exact ⟨s, _, _, hset, stored_pairwise_concurrent _ _ s _ hrun hset⟩

set_option maxRecDepth 4000 in
/-- An old version that arrives after its successor is stored beside it. -/
theorem late_write_breaks_concurrency :
    ∃ s set, Runs (Storage.call [107]) (PlainCall [107]) (Storage.new defaultStorageOptions) s ∧
      s.stored [107] = .ok set ∧
      ¬ set.Pairwise fun a b => a.vclock.isConcurrentWith b.vclock = true := by
  obtain ⟨s, hrun, hset⟩ := Runs.exists_of_exec (Storage.call [107]) (PlainCall [107])
    (Storage.new defaultStorageOptions)
    [putAt100 2 (VectorClock.new.set 100 [97] 2), putAt100 1 (VectorClock.new.set 100 [97] 1)]
    (fun s => s.stored [107])
    (by decide +kernel : _ = some (.ok [versionAt100 1 (VectorClock.new.set 100 [97] 1),
      versionAt100 2 (VectorClock.new.set 100 [97] 2)])) (by decide +kernel)
  exact ⟨s, _, hrun, hset, by decide +kernel⟩

end GoQuorum
