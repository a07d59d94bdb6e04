import GoQuorum.Cluster.Coordinator
import GoQuorum.Lib.Utf8

/-!
# Requests between nodes

`RemotePut` and `RemoteGet` of `internal/cluster/rpc_client.go`, with the handlers they reach.  A
request travels as JSON, which carries keys and values as base64 but node ids as text, so bytes of an
id that are not UTF-8 arrive as U+FFFD.

A coordinator reads its own replica with `GetRaw` and the others with `RemoteGet`, which is served by
`Storage.Get`.  `reads_agree_iff` says for which stores the two give the same answer.
-/

namespace GoQuorum

open Lib

/-! ## The wire -/

/-- A sibling after encoding and decoding as JSON. -/
def SiblingData.overJSON (d : SiblingData) : SiblingData :=
  { d with context := d.context.map fun entry => (toValidUTF8 entry.1, entry.2) }

/-- A sibling as a peer receives it. -/
def Sibling.received (stamp : NodeID → Int64) (sib : Sibling) : Sibling :=
  sib.toData.overJSON.toSibling stamp

/-- What becomes of a request: it is answered, or it is carried out and the answer is lost, or it
does not arrive. -/
inductive RequestOutcome where
  | answered
  | unanswered
  | lost
  deriving DecidableEq, Repr

/-- What one `/internal/replicate` request meets. -/
structure Request where
  outcome : RequestOutcome
  env : CallEnv
  stamp : NodeID → Int64

/-- `RemotePut`: one request for each sibling until one fails; the result, and the peer's store. -/
def remotePut (key : Bytes) : (ℕ → Request) → Storage → List Sibling →
    Except RPCFailure Unit × Storage
  | _, s, [] => (.ok (), s)
  | net, s, sib :: rest =>
    let (resp, s') := replicate (net 0).env (net 0).stamp s ⟨key, sib.toData.overJSON⟩
    match (net 0).outcome with
    | .lost => (.error .unreachable, s)
    | .unanswered => (.error .unreachable, s')
    | .answered =>
      if resp.success then remotePut key (fun i => net (i + 1)) s' rest
      else (.error (resp.error.elim .unreachable .refused), s')

/-- A `RemotePut` that succeeds has had its first sibling put as it was received, and goes on with
the others. -/
theorem remotePut_cons_eq_ok {key : Bytes} {net : ℕ → Request} {s : Storage} {sib : Sibling}
    {rest : List Sibling} (h : (remotePut key net s (sib :: rest)).1 = .ok ()) :
    (net 0).outcome = .answered ∧
      ∃ t, s.put (net 0).env key [sib.received (net 0).stamp] = .ok t ∧
        remotePut key net s (sib :: rest) = remotePut key (fun i => net (i + 1)) t rest := by
  rw [remotePut] at h ⊢
  cases hout : (net 0).outcome with
  | lost => rw [hout] at h; cases h
  | unanswered => rw [hout] at h; cases h
  | answered =>
    rw [hout] at h
    dsimp only at h ⊢
    cases hput : s.put (net 0).env (ReplicateReq.mk key sib.toData.overJSON).key
        (ReplicateReq.siblings (net 0).stamp ⟨key, sib.toData.overJSON⟩) with
    | error err => rw [replicate, hput] at h; cases h
    | ok t => exact ⟨rfl, t, hput, by rw [replicate, hput]; rfl⟩

/-- `RemoteGet` from a peer that answers. -/
def remoteGet (env : CallEnv) (stamp : ℕ → NodeID → Int64) (s : Storage) (key : Bytes) :
    Except RPCFailure (Option SiblingSet) :=
  let resp := read env s key
  .ok (InternalReadResp.toSiblingSet stamp
    { resp with siblings := resp.siblings.map SiblingData.overJSON })

/-- The local read of `parallelRead`: a missing key is an empty answer. -/
def localGet (env : CallEnv) (s : Storage) (key : Bytes) :
    Except StorageError (Option SiblingSet) :=
  match s.getRaw env key with
  | .ok siblingSet => .ok (some siblingSet)
  | .error .keyNotFound => .ok none
  | .error err => .error err

/-! ## What the wire keeps -/

/-- Every node id of the clock is UTF-8. -/
def VectorClock.TextIDs (vc : VectorClock) : Prop :=
  ∀ p ∈ vc.entries.toList, toValidUTF8 p.1 = p.1

instance (vc : VectorClock) : Decidable vc.TextIDs :=
  inferInstanceAs (Decidable (∀ p ∈ vc.entries.toList, toValidUTF8 p.1 = p.1))

/-- The entries of a clock as they arrive. -/
def VectorClock.sentCounters (vc : VectorClock) : SortedMap NodeID UInt64 :=
  SortedMap.ofList (vc.counters.toList.map fun entry => (toValidUTF8 entry.1, entry.2))

theorem counters_received (stamp : NodeID → Int64) (sib : Sibling) :
    (sib.received stamp).vclock.counters = sib.vclock.sentCounters :=
  counters_entriesToVClock stamp _

/-- JSON keeps the counters of a clock exactly when its ids are UTF-8. -/
theorem sentCounters_eq_iff {vc : VectorClock} : vc.sentCounters = vc.counters ↔ vc.TextIDs := by
  constructor
  · intro h p hp
    -- the id arrives as the text of some id, and text arrives unchanged
    have hmem : (p.1, p.2.counter) ∈ vc.sentCounters.toList := by
      rw [h]
      exact List.mem_map.2 ⟨p, hp, rfl⟩
    have hsent := (SortedMap.mem_toList_foldl_insert hmem).resolve_right List.not_mem_nil
    obtain ⟨q, -, hq⟩ := List.mem_map.1 hsent
    rw [← (Prod.mk.inj hq).1, toValidUTF8_idem]
  · intro h
    have hkept : ∀ entry ∈ vc.counters.toList, (toValidUTF8 entry.1, entry.2) = id entry := by
      intro entry he
      obtain ⟨p, hp, rfl⟩ := List.mem_map.1 he
      exact congrArg (fun n => (n, p.2.counter)) (h p hp)
    have hmap := (List.map_congr_left hkept).trans (List.map_id _)
    rw [VectorClock.sentCounters, hmap, SortedMap.ofList_toList]

/-- Text arrives unchanged. -/
theorem Sibling.overJSON_toData {sib : Sibling} (h : sib.vclock.TextIDs) :
    sib.toData.overJSON = sib.toData := by
  have hkept : ∀ entry ∈ sib.vclock.counters.toList, (toValidUTF8 entry.1, entry.2) = id entry := by
    intro entry he
    obtain ⟨p, hp, rfl⟩ := List.mem_map.1 he
    exact congrArg (fun n => (n, p.2.counter)) (h p hp)
  have hmap := (List.map_congr_left hkept).trans (List.map_id _)
  exact congrArg (fun context => { sib.toData with context := context }) hmap

theorem isASCII_of_isNodeIDByte {b : UInt8} (h : isNodeIDByte b = true) : b < 0x80 := by
  simp only [isNodeIDByte, Bool.or_eq_true, Bool.and_eq_true, decide_eq_true_eq, beq_iff_eq] at h
  rcases h with (((h | h) | h) | rfl) | rfl
  · exact lt_of_le_of_lt h.2 (by decide)
  · exact lt_of_le_of_lt h.2 (by decide)
  · exact lt_of_le_of_lt h.2 (by decide)
  · decide
  · decide

/-- The node ids that `ValidateNodeID` accepts are ASCII. -/
theorem VectorClock.ValidIDs.textIDs {vc : VectorClock} (h : vc.ValidIDs) : vc.TextIDs :=
  fun p hp => toValidUTF8_of_ascii fun b hb =>
    isASCII_of_isNodeIDByte (((validNodeID_iff p.1).1 (h p hp)).2.2 b hb)

/-- Valid node ids survive the way to a peer, and so do the counters. -/
theorem Sibling.received_of_validIDs {sib : Sibling} (h : sib.vclock.ValidIDs)
    (stamp : NodeID → Int64) : (sib.received stamp).vclock.ValidIDs ∧
      AntisymmRel (· ≤ ·) sib.vclock (sib.received stamp).vclock := by
  have hcounters : sib.vclock.counters = (sib.received stamp).vclock.counters := by
    rw [counters_received, sentCounters_eq_iff.2 h.textIDs]
  exact ⟨h.of_counters hcounters, VectorClock.antisymmRel_of_counters hcounters⟩

/-! ## Local and remote reads -/

/-- What a read is about: the value, the counters, the tombstone flag and the time of a sibling. -/
def Sibling.shown (sib : Sibling) : Bytes × SortedMap NodeID UInt64 × Bool × Int64 :=
  (sib.value, sib.vclock.counters, sib.tombstone, sib.timestamp)

/-- The coordinator obtains the same from the store whether it is its own or that of a peer: the same
siblings, or in both cases an error. -/
def ReadsAgree (env : CallEnv) (stamp : ℕ → NodeID → Int64) (s : Storage) (key : Bytes) : Prop :=
  match localGet env s key, remoteGet env stamp s key with
  | .ok here, .ok there => there.map (List.map Sibling.shown) = here.map (List.map Sibling.shown)
  | .error _, .error _ => True
  | _, _ => False

/-- Nothing keeps a read from the record: the store is open, the key valid, and Pebble answers. -/
def Storage.Serves (env : CallEnv) (s : Storage) (key : Bytes) : Prop :=
  s.closed = false ∧ validateKey key = .ok () ∧ env.getError = none

/-- The state in which the two reads agree: the record can be read, its tombstones are exactly its
expired siblings, and the node ids of the others are UTF-8. -/
def ReadsAlike (env : CallEnv) (s : Storage) (key : Bytes) : Prop :=
  s.Serves env key ∧
  ∃ set, s.stored key = .ok set ∧ (∀ sib ∈ set, sib.tombstone = sib.expired env.readNow) ∧
    ∀ sib ∈ set, sib.tombstone = false → sib.vclock.TextIDs

section

variable {env : CallEnv} {s : Storage} {key : Bytes} {set : SiblingSet}

/-- A list of siblings as an answer, `nil` if it is empty. -/
def answerOf (siblings : SiblingSet) : Option SiblingSet :=
  if siblings = [] then none else some siblings

theorem readRecord_of_serves (h : s.Serves env key) :
    s.readRecord env key = match s.db.get? key with
      | none => .error .keyNotFound
      | some data => (decodeSiblingSet data).mapError .decode := by
  rw [Storage.readRecord, h.1, h.2.1, h.2.2]
  rfl

/-- A read through a filter fails to find the key when the filter leaves nothing. -/
theorem readRecord_bind_of_serves (h : s.Serves env key) (hset : s.stored key = .ok set)
    {f : SiblingSet → SiblingSet} (hf : f [] = []) :
    (s.readRecord env key >>= fun l => Storage.foundOr (f l)) = Storage.foundOr (f set) := by
  rw [readRecord_of_serves h]
  unfold Storage.stored at hset
  cases hd : s.db.get? key with
  | none =>
    rw [hd] at hset
    obtain rfl := Except.ok.inj hset
    rw [error_bind, hf, Storage.foundOr, if_pos rfl]
  | some data =>
    rw [hd] at hset
    dsimp only at hset ⊢
    rw [hset, mapError_ok, ok_bind]

/-- A local read shows the unexpired siblings. -/
theorem localGet_of_serves (h : s.Serves env key) (hset : s.stored key = .ok set) :
    localGet env s key = .ok (answerOf (unexpired env.readNow set)) := by
  rw [localGet, Storage.getRaw, readRecord_bind_of_serves h hset rfl, Storage.foundOr, answerOf]
  split_ifs <;> rfl

/-- A remote read shows the siblings that are not tombstones. -/
theorem remoteGet_of_serves (h : s.Serves env key) (hset : s.stored key = .ok set)
    (stamp : ℕ → NodeID → Int64) :
    remoteGet env stamp s key = .ok ((answerOf (filterTombstones set)).map fun l =>
      l.mapIdx fun i sib => sib.received (stamp i)) := by
  have hread : read env s key = if filterTombstones set = [] then ⟨false, []⟩
      else ⟨true, (filterTombstones set).map Sibling.toData⟩ := by
    rw [read, Storage.get, readRecord_bind_of_serves h hset rfl, Storage.foundOr]
    split_ifs with hnil
    · rfl
    · exact if_neg hnil
  rw [remoteGet, hread, answerOf]
  split_ifs
  · rfl
  · refine congrArg (Except.ok ∘ some) (List.ext_getElem (by simp) fun i h₁ h₂ => ?_)
    simp only [List.getElem_mapIdx, List.getElem_map, Sibling.received]

/-- A read that fails at most on a missing key has met a record that decodes, or none. -/
theorem serves_of_readRecord
    (h : ∀ err, s.readRecord env key = .error err → err = .keyNotFound) :
    s.Serves env key ∧ ∃ set, s.stored key = .ok set := by
  cases hc : s.closed with
  | true => cases h .storageClosed (by rw [Storage.readRecord, if_pos hc])
  | false =>
    have hread : s.readRecord env key = _ := if_neg (by rw [hc]; exact Bool.false_ne_true)
    cases hk : validateKey key with
    | error e => cases h (.invalidKey e) (by rw [hread, hk]; rfl)
    | ok u =>
      cases hg : env.getError with
      | some e => cases h (.pebbleGet e) (by rw [hread, hk, hg]; rfl)
      | none =>
        have hserves : s.Serves env key := ⟨hc, hk, hg⟩
        refine ⟨hserves, ?_⟩
        unfold Storage.stored
        cases hd : s.db.get? key with
        | none => exact ⟨[], rfl⟩
        | some data =>
          cases hdec : decodeSiblingSet data with
          | ok set => exact ⟨set, hdec⟩
          | error e =>
            cases h (.decode e) (by
              rw [readRecord_of_serves hserves, hd]
              dsimp only
              rw [hdec]
              rfl)

/-- So has a local read that does not fail. -/
theorem serves_of_localGet {here : Option SiblingSet} (h : localGet env s key = .ok here) :
    s.Serves env key ∧ ∃ set, s.stored key = .ok set := by
  refine serves_of_readRecord fun err herr => ?_
  rw [localGet, Storage.getRaw, herr, error_bind] at h
  cases err with
  | keyNotFound => rfl
  | _ => cases h

end

theorem map_shown_received (stamp : ℕ → NodeID → Int64) (l : List Sibling) :
    (l.mapIdx fun i sib => sib.received (stamp i)).map Sibling.shown =
      l.map fun sib => (sib.value, sib.vclock.sentCounters, sib.tombstone, sib.timestamp) := by
  refine List.ext_getElem (by simp) fun i h₁ h₂ => ?_
  simp only [List.getElem_map, List.getElem_mapIdx, Sibling.shown, counters_received]
  rfl

/-- The two filters keep the same siblings exactly when tombstones and expired siblings coincide. -/
theorem unexpired_eq_filterTombstones_iff {now : Int64} {set : SiblingSet} :
    unexpired now set = filterTombstones set ↔
      ∀ sib ∈ set, sib.tombstone = sib.expired now := by
  constructor
  · intro h sib hs
    have hmem : sib ∈ unexpired now set ↔ sib ∈ filterTombstones set := by rw [h]
    simp only [unexpired, filterTombstones, List.mem_filter, hs, true_and,
      decide_eq_true_eq] at hmem
    cases htomb : sib.tombstone <;> cases hexp : sib.expired now <;> simp [htomb, hexp] at hmem ⊢
  · intro h
    exact List.filter_congr fun sib hs => by rw [h sib hs]

/-- Siblings that look alike on both ways are the same ones: no unexpired sibling is a tombstone, so
the one list is part of the other. -/
theorem unexpired_eq_of_shown {now : Int64} {set : SiblingSet}
    (h : ((filterTombstones set).map fun sib =>
        (sib.value, sib.vclock.sentCounters, sib.tombstone, sib.timestamp)) =
      (unexpired now set).map Sibling.shown) : unexpired now set = filterTombstones set := by
  have hlive : ∀ sib ∈ set, sib.expired now = false → sib.tombstone = false := by
    intro sib hs hexp
    have hmem : sib.shown ∈ (unexpired now set).map Sibling.shown :=
      List.mem_map_of_mem (List.mem_filter.2 ⟨hs, by simp [hexp]⟩)
    rw [← h] at hmem
    obtain ⟨x, hx, hshown⟩ := List.mem_map.1 hmem
    have hx : x.tombstone = false := by simpa using (List.mem_filter.1 hx).2
    simp only [Sibling.shown, Prod.mk.injEq] at hshown
    rw [← hshown.2.2.1, hx]
  have hsub : (unexpired now set).Sublist (filterTombstones set) := by
    have hfilter : unexpired now set = unexpired now (filterTombstones set) := by
      rw [unexpired, filterTombstones, unexpired, List.filter_filter]
      refine List.filter_congr fun sib hs => ?_
      cases hexp : sib.expired now with
      | true => simp
      | false => simp [hlive sib hs hexp]
    rw [hfilter]
    exact List.filter_sublist
  apply hsub.eq_of_length
  simpa using (congrArg List.length h).symm

/-- The unexpired siblings of a set look like those that are not tombstones, as they arrive, exactly
when they are the same ones and their ids are UTF-8. -/
theorem shown_unexpired_iff (now : Int64) (set : SiblingSet) :
    ((filterTombstones set).map fun sib =>
        (sib.value, sib.vclock.sentCounters, sib.tombstone, sib.timestamp)) =
      (unexpired now set).map Sibling.shown ↔
    (∀ sib ∈ set, sib.tombstone = sib.expired now) ∧
      ∀ sib ∈ set, sib.tombstone = false → sib.vclock.TextIDs := by
  constructor
  · intro h
    have heq := unexpired_eq_of_shown h
    refine ⟨unexpired_eq_filterTombstones_iff.1 heq, fun sib hs htomb => ?_⟩
    rw [heq] at h
    have hsib := List.map_inj_left.1 h sib (List.mem_filter.2 ⟨hs, by simp [htomb]⟩)
    simp only [Sibling.shown, Prod.mk.injEq] at hsib
    exact sentCounters_eq_iff.1 hsib.2.1
  · rintro ⟨htomb, hids⟩
    rw [unexpired_eq_filterTombstones_iff.2 htomb]
    refine List.map_inj_left.2 fun sib hs => ?_
    obtain ⟨hs, hlive⟩ := List.mem_filter.1 hs
    rw [sentCounters_eq_iff.2 (hids sib hs (by simpa using hlive))]
    rfl

/-- What the coordinator obtains does not depend on where the replica is exactly when the record can
be read, its tombstones are its expired siblings, and the ids of the others are UTF-8. -/
theorem reads_agree_iff (env : CallEnv) (stamp : ℕ → NodeID → Int64) (s : Storage) (key : Bytes) :
    ReadsAgree env stamp s key ↔ ReadsAlike env s key := by
  -- on a record that is served, both sides speak of the same two lists
  have served : ∀ set, s.Serves env key → s.stored key = .ok set →
      (ReadsAgree env stamp s key ↔ (∀ sib ∈ set, sib.tombstone = sib.expired env.readNow) ∧
        ∀ sib ∈ set, sib.tombstone = false → sib.vclock.TextIDs) := by
    intro set hserves hset
    rw [← shown_unexpired_iff]
    simp only [ReadsAgree, localGet_of_serves hserves hset, remoteGet_of_serves hserves hset,
      answerOf]
    split_ifs with h₁ h₂ h₂
    · simp [h₁, h₂]
    · simp [h₁, h₂]
    · simp [h₁, h₂]
    · rw [Option.map_some, Option.map_some, Option.map_some, Option.some.injEq, map_shown_received]
  constructor
  · intro h
    cases hl : localGet env s key with
    | error err => simp only [ReadsAgree, hl, remoteGet] at h
    | ok here =>
      obtain ⟨hserves, set, hset⟩ := serves_of_localGet hl
      exact ⟨hserves, set, hset, (served set hserves hset).1 h⟩
  · rintro ⟨hserves, set, hset, hsame⟩
    exact (served set hserves hset).2 hsame

/-- A store in which the key `k` has been deleted at time 100. -/
def storeAfterDelete : Storage :=
  ((Storage.new defaultStorageOptions).delete (CallEnv.steady 100) 100 [107]
    (VectorClock.new.set 100 [110, 49] 1)).toOption.getD (Storage.new defaultStorageOptions)

/-- The coordinator sees the tombstone in its own store, and nothing in the same store of a peer. -/
theorem tombstone_hidden_from_peers :
    ¬ ReadsAgree (CallEnv.steady 100) (fun _ _ => 100) storeAfterDelete [107] := by
  have hlocal : localGet (CallEnv.steady 100) storeAfterDelete [107] =
      .ok (some [Storage.tombstoneOf 100 (VectorClock.new.set 100 [110, 49] 1)]) := by
    decide +kernel
  have hremote : remoteGet (CallEnv.steady 100) (fun _ _ => 100) storeAfterDelete [107] =
      .ok none := by decide +kernel
  simp [ReadsAgree, hlocal, hremote]

end GoQuorum
