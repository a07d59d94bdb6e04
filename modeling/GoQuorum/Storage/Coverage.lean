import GoQuorum.Storage.Antichain

/-!
# Nothing that was written is lost

Reconciliation drops stored siblings that an incoming one supersedes, and siblings that print like
an earlier one.  Over a whole run of writes on a key, as long as nothing is pruned and nothing
expires, every sibling that was ever accepted is dominated by one that is stored
(`accepted_dominated`): domination is transitive, and clocks with valid node ids that print alike
are equal.
-/

namespace GoQuorum

open Lib Lib.Versions

/-- The store and the siblings passed to the calls that returned no error. -/
structure WriteHistory where
  store : Storage
  accepted : List Sibling

/-- One call of `Put` or `Delete`; a call that fails leaves the store as it was. -/
def WriteHistory.call (key : Bytes) (h : WriteHistory) (c : StoreCall) : Option WriteHistory :=
  match h.store.perform key c with
  | .ok store => some ⟨store, h.accepted ++ c.incoming⟩
  | .error _ => some h

/-- No stored sibling of the key has expired when the call reads the record. -/
def NothingExpired (key : Bytes) (s : Storage) (c : StoreCall) : Prop :=
  match s.stored key with
  | .ok set => ∀ sib ∈ set, sib.expired c.env.readNow = false
  | .error _ => True

instance (key : Bytes) (s : Storage) (c : StoreCall) : Decidable (NothingExpired key s c) :=
  match h : s.stored key with
  | .ok set => decidable_of_iff (∀ sib ∈ set, sib.expired c.env.readNow = false)
      (by simp only [NothingExpired, h])
  | .error _ => isTrue (by simp only [NothingExpired, h])

/-- The record of the key can be decoded. -/
def Decodable (key : Bytes) (s : Storage) : Prop := (s.stored key).isOk = true

instance (key : Bytes) (s : Storage) : Decidable (Decodable key s) :=
  inferInstanceAs (Decidable (_ = true))

/-- The calls considered: clocks with valid node ids, nothing pruned, nothing expired, and a record
that stays decodable. -/
def LosslessCall (key : Bytes) (h : WriteHistory) (c : StoreCall) : Prop :=
  (∀ sib ∈ c.incoming, sib.vclock.ValidIDs) ∧ Storage.NoPrune c.env h.store key c.incoming ∧
    NothingExpired key h.store c ∧ ∀ s ∈ (h.store.perform key c).toOption, Decodable key s

instance (key : Bytes) (h : WriteHistory) (c : StoreCall) : Decidable (LosslessCall key h c) :=
  inferInstanceAs (Decidable (_ ∧ _ ∧ _ ∧ _))

/-- Siblings whose clocks have valid node ids. -/
def HasValidIDs (sib : Sibling) : Prop := sib.vclock.ValidIDs

theorem printsFaithfully_hasValidIDs : PrintsFaithfully HasValidIDs :=
  printsFaithfully_of_validIDs fun _ h => h

/-- The invariant of a run: the record tracks the clocks of all accepted siblings. -/
def TracksAccepted (key : Bytes) (h : WriteHistory) : Prop :=
  h.accepted ≠ [] → ∃ set, h.store.stored key = .ok set ∧
    ∀ sib ∈ h.accepted, Tracked HasValidIDs set sib.vclock

theorem unexpired_of_nothingExpired {key : Bytes} {s : Storage} {c : StoreCall} {set : SiblingSet}
    (h : NothingExpired key s c) (hset : s.stored key = .ok set) :
    unexpired c.env.readNow set = set := by
  simp only [NothingExpired, hset] at h
  exact List.filter_eq_self.2 fun sib hs => by simp [h sib hs]

/-- What a lossless call that succeeds stores. -/
theorem stored_of_losslessCall {key : Bytes} {h : WriteHistory} {c : StoreCall} {s : Storage}
    (hc : LosslessCall key h c) (hs : h.store.perform key c = .ok s) :
    ∃ old, h.store.stored key = .ok old ∧
      s.stored key = .ok (reconcileSiblings old c.incoming) := by
  obtain ⟨-, hprune, hexp, hdec⟩ := hc
  have hsome : Decodable key s := hdec s (by rw [hs]; rfl)
  rw [Storage.perform_eq_put] at hs
  obtain ⟨data, hdata, -, rfl⟩ := Storage.put_eq_ok.1 hs
  obtain ⟨old, hold, henc⟩ := Storage.prepare_of_noPrune hdata hprune
  rw [unexpired_of_nothingExpired hexp hold] at henc
  refine ⟨old, hold, ?_⟩
  obtain ⟨set, hset⟩ := isOk_iff.1 hsome
  rw [hset]
  rw [Storage.stored_insert_self] at hset
  rw [eq_of_decodeSiblingSet henc hset]

theorem tracksAccepted_call {key : Bytes} {h h' : WriteHistory} {c : StoreCall}
    (hinv : TracksAccepted key h) (hc : LosslessCall key h c) (hstep : h.call key c = some h') :
    TracksAccepted key h' := by
  unfold WriteHistory.call at hstep
  cases hs : h.store.perform key c with
  | error e =>
    rw [hs] at hstep
    obtain rfl := Option.some.inj hstep
    exact hinv
  | ok s =>
    rw [hs] at hstep
    obtain rfl := Option.some.inj hstep
    obtain ⟨old, hold, hset⟩ := stored_of_losslessCall hc hs
    refine fun _ => ⟨_, hset, fun sib hsib => ?_⟩
    rcases List.mem_append.1 hsib with hsib | hsib
    · -- an earlier sibling: what covered it is still there, or has been superseded
      obtain ⟨set, hstored, htracked⟩ := hinv (List.ne_nil_of_mem hsib)
      obtain rfl : old = set := Except.ok.inj (hold.symm.trans hstored)
      exact tracks_reconcile_old printsFaithfully_hasValidIDs hc.1 (htracked sib hsib)
    · exact tracks_reconcile_new printsFaithfully_hasValidIDs hc.1 hsib

/-- After any run of lossless calls on a key, from any store, every sibling passed to a call that
succeeded is dominated by a stored one. -/
theorem accepted_dominated (key : Bytes) (s : Storage) (h : WriteHistory) (sib : Sibling)
    (hrun : Runs (WriteHistory.call key) (LosslessCall key) ⟨s, []⟩ h)
    (hsib : sib ∈ h.accepted) :
    ∃ set, h.store.stored key = .ok set ∧ ∃ x ∈ set, x.vclock.dominates sib.vclock = true := by
  have hinit : TracksAccepted key ⟨s, []⟩ := fun hne => absurd rfl hne
  have hinv := hrun.invariant (TracksAccepted key) hinit fun _ _ _ => tracksAccepted_call
  obtain ⟨set, hset, htracked⟩ := hinv (List.ne_nil_of_mem hsib)
  obtain ⟨x, hx, hle⟩ := (htracked sib hsib).covers
  exact ⟨set, hset, x, hx, VectorClock.dominates_iff.2 hle⟩

set_option maxRecDepth 4000 in
/-- Two concurrent writes, then one that supersedes the first: the first is still dominated. -/
theorem accepted_dominated_of_overwrite :
    ∃ h : WriteHistory, versionAt100 1 (VectorClock.new.set 100 [97] 1) ∈ h.accepted ∧
      ∃ set, h.store.stored [107] = .ok set ∧ ∃ x ∈ set,
        x.vclock.dominates (versionAt100 1 (VectorClock.new.set 100 [97] 1)).vclock = true := by
  obtain ⟨h, hrun, hacc⟩ := Runs.exists_of_exec (WriteHistory.call [107]) (LosslessCall [107])
    ⟨Storage.new defaultStorageOptions, []⟩
    [putAt100 1 (VectorClock.new.set 100 [97] 1), putAt100 2 (VectorClock.new.set 100 [98] 1),
      putAt100 3 (VectorClock.new.set 100 [97] 2)]
    (fun h => decide (versionAt100 1 (VectorClock.new.set 100 [97] 1) ∈ h.accepted))
    (by decide +kernel : _ = some true) (by decide +kernel)
  have hmem := of_decide_eq_true hacc
  exact ⟨h, hmem, accepted_dominated [107] _ h _ hrun hmem⟩

end GoQuorum
