import GoQuorum.Node.Machine

/-!
# Records that cannot be read back

The engine writes clocks that its decoder rejects: node ids that are empty or longer than 1024
bytes, and clocks longer than 10000 bytes.  One such write makes its key unreadable, and since every
later `Put` has to read the record first, unwritable as well (`empty_node_id_blocks_key`).  As long
as every incoming clock fits the decoder's limits after pruning, every record of the store can be
read, whatever else runs on the node (`records_stay_readable`).
-/

namespace GoQuorum

open Lib

/-- Every record of the store decodes. -/
def Storage.Readable (s : Storage) : Prop :=
  ∀ key data, s.db.get? key = some data → ∃ set, decodeSiblingSet data = .ok set

theorem Storage.Readable.insert {s : Storage} (h : s.Readable) {data : Bytes} {set : SiblingSet}
    (hd : decodeSiblingSet data = .ok set) (key : Bytes) :
    ({ s with db := s.db.insert key data } : Storage).Readable := by
  intro k d hk
  dsimp only at hk
  rw [SortedMap.get?_insert] at hk
  split_ifs at hk
  · obtain rfl := Option.some.inj hk
    exact ⟨set, hd⟩
  · exact h k d hk

theorem Storage.Readable.applyGC {s : Storage} (h : s.Readable) (now ttl : Int64)
    (key data : Bytes) : (s.applyGC key (gcAction now ttl data)).Readable := by
  cases ha : gcAction now ttl data with
  | keep => exact h
  | delete =>
    intro k d hk
    exact h k d ((SortedMap.get?_filter_eq_some s.db _ k d).1 hk).1
  | rewrite data' =>
    obtain ⟨set, -, hdec⟩ := gcAction_eq_rewrite ha
    exact h.insert hdec key

/-- What `Put` prepares from clocks that fit can be read back. -/
theorem decode_of_prepare {env : CallEnv} {s : Storage} {key data : Bytes} {siblings : SiblingSet}
    (h : s.prepare env key siblings = .ok data)
    (hfit : ∀ x ∈ siblings, ∀ n, (env.pruneClock s.opts n x.vclock).Readable) :
    ∃ set, decodeSiblingSet data = .ok set := by
  obtain ⟨merged, hm, henc⟩ := Storage.prepare_eq_ok h
  obtain ⟨all, hall, rfl⟩ := Storage.merge_eq_ok hm
  refine ⟨_, decodeSiblingSet_encodeSiblingSet henc fun x hx => ?_⟩
  obtain ⟨n, sib, hsib, rfl⟩ := mem_enforceLimits hx
  rcases mem_of_mem_reconcile hsib with hsib | hsib
  · exact hfit sib hsib n
  · exact (Storage.storable_of_stored hall sib (mem_of_mem_unexpired hsib)).clock.prune _ _ _ _

/-- Reading a readable store does not fail to decode. -/
theorem Storage.Readable.readRecord_ne {s : Storage} (h : s.Readable) (env : CallEnv) (key : Bytes)
    (err : DecodeError) : s.readRecord env key ≠ .error (.decode err) := by
  intro hr
  have hst := Storage.stored_of_decodeError hr
  unfold Storage.stored at hst
  cases hd : s.db.get? key with
  | none =>
    rw [hd] at hst
    cases hst
  | some data =>
    obtain ⟨set, hset⟩ := h key data hd
    simp only [hd, hset, reduceCtorEq] at hst

theorem bind_foundOr_ne {x : Except StorageError SiblingSet} {f : SiblingSet → SiblingSet}
    {err : DecodeError} (hx : x ≠ .error (.decode err)) :
    (x >>= fun l => Storage.foundOr (f l)) ≠ .error (.decode err) := by
  cases x with
  | error e => exact fun h => hx h
  | ok l =>
    rw [ok_bind, Storage.foundOr]
    intro h
    split_ifs at h
    cases h

theorem Storage.Readable.get_ne {s : Storage} (h : s.Readable) (env : CallEnv) (key : Bytes)
    (err : DecodeError) : s.get env key ≠ .error (.decode err) :=
  bind_foundOr_ne (h.readRecord_ne env key err)

theorem Storage.Readable.getRaw_ne {s : Storage} (h : s.Readable) (env : CallEnv) (key : Bytes)
    (err : DecodeError) : s.getRaw env key ≠ .error (.decode err) :=
  bind_foundOr_ne (h.readRecord_ne env key err)

theorem validateValues_ne (i : ℕ) (l : List Sibling) (err : StorageError) :
    Storage.validateValues i l ≠ .error (.readExisting err) := by
  induction l generalizing i with
  | nil =>
    intro h
    cases h
  | cons x l ih =>
    rw [Storage.validateValues]
    cases hv : validateValue x.value with
    | error n =>
      intro h
      cases h
    | ok u => exact ih (i + 1)

/-- A write that is refused for what is stored has failed to read it. -/
theorem getRaw_of_put_readExisting {env : CallEnv} {s : Storage} {key : Bytes}
    {siblings : SiblingSet} {err : StorageError}
    (h : s.put env key siblings = .error (.readExisting err)) : s.getRaw env key = .error err := by
  unfold Storage.put at h
  rcases bind_eq_error.1 h with h | ⟨data, -, h⟩
  swap
  · unfold Storage.commit at h
    split at h <;> cases h
  unfold Storage.prepare at h
  rcases bind_eq_error.1 h with h | ⟨merged, -, h⟩
  swap
  · obtain ⟨e, -, he⟩ := mapError_eq_error.1 h
    cases he
  unfold Storage.merge at h
  split_ifs at h
  · cases h
  rcases bind_eq_error.1 h with h | ⟨-, -, h⟩
  · obtain ⟨e, -, he⟩ := mapError_eq_error.1 h
    cases he
  rcases bind_eq_error.1 h with h | ⟨-, -, h⟩
  · exact absurd h (validateValues_ne 0 siblings err)
  rcases bind_eq_error.1 h with h | ⟨existing, -, h⟩
  swap
  · cases h
  unfold Storage.readExisting at h
  split at h
  · cases h
  · cases h
  · rename_i e hraw
    obtain rfl := StorageError.readExisting.inj (Except.error.inj h)
    exact hraw

/-- A write on a readable store is not refused for what is stored. -/
theorem Storage.Readable.put_ne {s : Storage} (h : s.Readable) (env : CallEnv) (key : Bytes)
    (siblings : SiblingSet) (err : DecodeError) :
    s.put env key siblings ≠ .error (.readExisting (.decode err)) :=
  fun hput => h.getRaw_ne env key err (getRaw_of_put_readExisting hput)

namespace NodeState

variable {ι : Type} {task : ι → WriteTask} {s t : NodeState ι}

variable (task) in
/-- A write reads only with clocks that the decoder accepts once they are pruned. -/
def IncomingFits (s : NodeState ι) : NodeEvent ι → Prop
  | .read i => ∀ x ∈ (task i).siblings, ∀ n,
      ((task i).env.pruneClock s.store.opts n x.vclock).Readable
  | _ => True

/-- Every stored record and every record about to be stored decodes. -/
structure ReadableInv (s : NodeState ι) : Prop where
  store : s.store.Readable
  pending : ∀ i d n, s.phase i = .prepared d n → ∃ set, decodeSiblingSet d = .ok set

variable [DecidableEq ι]

theorem pending_update {i : ι} {p : Phase} (h : ReadableInv s)
    (hp : ∀ d n, p = .prepared d n → ∃ set, decodeSiblingSet d = .ok set) (j : ι) (d : Bytes) (n : ℕ)
    (hj : Function.update s.phase i p j = .prepared d n) : ∃ set, decodeSiblingSet d = .ok set := by
  by_cases hne : j = i
  · rw [hne, Function.update_self] at hj
    exact hp d n hj
  · rw [Function.update_of_ne hne] at hj
    exact h.pending j d n hj

theorem ReadableInv.step (h : ReadableInv s) {e : NodeEvent ι} (hfit : IncomingFits task s e)
    (hs : s.step task e = some t) : ReadableInv t := by
  cases e with
  | lock i =>
    obtain ⟨-, -, -, rfl⟩ := step_lock hs
    exact ⟨h.store, pending_update h (by intro d n hp; cases hp)⟩
  | read i =>
    obtain ⟨-, ⟨data, hprep, rfl⟩ | ⟨err, rfl⟩⟩ := step_read hs
    · refine ⟨h.store, pending_update h ?_⟩
      intro d n hp
      obtain ⟨rfl, -⟩ := Phase.prepared.inj hp
      exact decode_of_prepare hprep hfit
    · exact ⟨h.store, pending_update h (by intro d n hp; cases hp)⟩
  | write i =>
    obtain ⟨data, seen, hp, rfl | ⟨err, rfl⟩⟩ := step_write hs
    · obtain ⟨set, hset⟩ := h.pending i data seen hp
      exact ⟨h.store.insert hset _, pending_update h (by intro d n hp; cases hp)⟩
    · exact ⟨h.store, pending_update h (by intro d n hp; cases hp)⟩
  | gcStart now =>
    obtain ⟨-, rfl⟩ := step_gcStart hs
    exact ⟨h.store, h.pending⟩
  | gcNext applied =>
    obtain ⟨now, key, data, rest, -, rfl⟩ := step_gcNext hs
    refine ⟨?_, h.pending⟩
    dsimp only
    split_ifs
    · exact h.store.applyGC now _ key data
    · exact h.store
  | gcStop =>
    obtain rfl := step_gcStop hs
    exact ⟨h.store, h.pending⟩

end NodeState

open NodeState

/-- Whatever writes and collections run on a node, in any interleaving, as long as every incoming
clock fits the decoder's limits after pruning: no key ever fails to decode, and no write is refused
because the stored record does. -/
theorem records_stay_readable {ι : Type} [DecidableEq ι] (task : ι → WriteTask)
    (opts : StorageOptions) (s : NodeState ι)
    (hrun : Runs (step task) (IncomingFits task) (init (Storage.new opts) none) s)
    (env : CallEnv) (key : Bytes) (err : DecodeError) :
    s.store.get env key ≠ .error (.decode err) ∧ s.store.getRaw env key ≠ .error (.decode err) ∧
      ∀ siblings, s.store.put env key siblings ≠ .error (.readExisting (.decode err)) := by
  have hinit : ReadableInv (init (Storage.new opts) none : NodeState ι) :=
    ⟨fun k d hk => (nomatch hk), fun i d n hi => (nomatch hi)⟩
  have hinv := hrun.invariant ReadableInv hinit fun _ _ _ h hfit hs => h.step hfit hs
  exact ⟨hinv.store.get_ne env key err, hinv.store.getRaw_ne env key err,
    fun siblings => hinv.store.put_ne env key siblings err⟩

/-- One write of the value `v` under the key `k` with the counter of one node. -/
def putByNode (node : NodeID) : WriteTask :=
  ⟨[107], [⟨[118], VectorClock.new.set 100 node 1, 100, false, 0⟩], false, CallEnv.steady 100⟩

set_option maxRecDepth 4000 in
theorem records_stay_readable_after_put :
    ∃ s : NodeState Unit, s.phase () = .done ∧
      ∀ err, s.store.getRaw (CallEnv.steady 100) [107] ≠ .error (.decode err) := by
  obtain ⟨s, hrun, hdone⟩ := Runs.exists_of_exec (step fun _ : Unit => putByNode [110, 49])
    (fun _ _ => True) (init (Storage.new defaultStorageOptions) none) [.read (), .write ()]
    (fun s => s.phase ()) (by decide +kernel : _ = some .done) (by decide +kernel)
  have hclock : (VectorClock.new.set 100 [110, 49] 1).Readable := by decide +kernel
  have hfit : ∀ s e, IncomingFits (fun _ : Unit => putByNode [110, 49]) s e := by
    intro s e
    cases e with
    | read i =>
      intro x hx n
      obtain rfl := List.mem_singleton.1 hx
      exact hclock.prune _ _ _ _
    | _ => trivial
  exact ⟨s, hdone, fun err =>
    (records_stay_readable _ _ s (hrun.mono fun s e _ => hfit s e) _ _ err).2.1⟩

/-- The error with which a write is refused. -/
def refusal : Except StorageError Storage → Option StorageError
  | .ok _ => none
  | .error err => some err

set_option maxRecDepth 4000 in
/-- A write with an empty node id in its clock succeeds.  After it the key can be neither read nor
written, though the next write fits all limits. -/
theorem empty_node_id_blocks_key :
    ∃ s : NodeState Unit,
      Runs (step fun _ : Unit => putByNode []) (fun _ _ => True)
        (init (Storage.new defaultStorageOptions) none) s ∧
      s.phase () = .done ∧
      s.store.getRaw (CallEnv.steady 100) [107] =
        .error (.decode (.unmarshalVClock 0 (.invalidNodeIDLength 0))) ∧
      refusal (s.store.put (CallEnv.steady 100) [107] (putByNode [110, 49]).siblings) =
        some (.readExisting (.decode (.unmarshalVClock 0 (.invalidNodeIDLength 0)))) := by
  obtain ⟨s, hrun, h⟩ := Runs.exists_of_exec (step fun _ : Unit => putByNode [])
    (fun _ _ => True) (init (Storage.new defaultStorageOptions) none) [.read (), .write ()]
    (fun s => (s.phase (), s.store.getRaw (CallEnv.steady 100) [107],
      refusal (s.store.put (CallEnv.steady 100) [107] (putByNode [110, 49]).siblings)))
    (by decide +kernel : _ = some (Phase.done,
      .error (.decode (.unmarshalVClock 0 (.invalidNodeIDLength 0))),
      some (.readExisting (.decode (.unmarshalVClock 0 (.invalidNodeIDLength 0))))))
    (by decide +kernel)
  obtain ⟨hdone, h⟩ := Prod.mk.inj h
  exact ⟨s, hrun, hdone, Prod.mk.inj h⟩

end GoQuorum
