import GoQuorum.Cluster.FaultTolerance
import GoQuorum.Server.ClientAPI
import GoQuorum.Server.RemoteWrites
import GoQuorum.Storage.CallerSet

/-!
# The sweeper of expired keys

`internal/cluster/ttl_sweeper.go` and the parts of the coordinator that it drives: `Delete` with its
fan-out to the stores of the replicas, and `Get` on the stores.  A sweep goes through the local
records in the order of their keys.  Where one sibling has expired it deletes the key, with a context
merged from all siblings of the record, until it has made a thousand deletes.

The requests of a `Delete` to the peers are made from one tombstone while the local write prunes its
clock in place, so they may carry any part of what the pruning removes.

A key without expired siblings is left alone.  A key with one is deleted as a whole: where the clock
of the tombstone is not pruned, whatever `Get` returns afterwards is a version that no sibling of the
record has seen, so concurrent siblings that have not expired go with the expired one
(`sweep_removes_expired_keys`).
-/

namespace GoQuorum

open Lib Lib.Versions

/-! ## Calls of the coordinator on stores -/

/-- What the writes of one key meet: the local `Put`, the requests to each peer, and which of the
clock entries that the local `Put` removes are gone when the request to a peer is made. -/
structure FanOutEnv where
  put : CallEnv
  net : NodeID → ℕ → Request
  gone : NodeID → NodeID → Bool

/-- What the reads of a `Get` meet: who answers, in which order and when, and which requests to peers
fail. -/
structure ReadEnv where
  answering : ∀ nodes : List NodeID, { order : List NodeID // order.Subperm nodes }
  env : NodeID → CallEnv
  stamp : NodeID → ℕ → NodeID → Int64
  failure : NodeID → Option RPCFailure

/-- What a sweep meets: the time it starts at, the order in which clocks are merged, and for each key
the times and the writes of its delete. -/
structure SweepEnv where
  now : Int64
  mergeOrder : MapOrder (NodeID × VectorClockEntry)
  tick : Bytes → Int64
  times : Bytes → WriteTimes
  writes : Bytes → FanOutEnv

/-- The stores, the number of successful deletes, and the responses to each delete. -/
structure SweepState where
  stores : NodeID → Storage
  deleted : ℕ
  log : List (Bytes × List WriteResponse)

def ttlSweepMaxPerRound : ℕ := 1000

namespace Coordinator

variable {sum64 : Bytes → UInt64} (c : Coordinator sum64)

/-- The write of `parallelWrite` to one replica: its response, and the store as it leaves it. -/
def writeReplica (env : FanOutEnv) (key : Bytes) (siblings : SiblingSet) (nid : NodeID)
    (store : Storage) : WriteResponse × Storage :=
  if nid = c.nodeID then
    match store.put env.put key siblings with
    | .ok store' => (⟨nid, none⟩, store')
    | .error err => (⟨nid, some (.storage err)⟩, store)
  else
    match remotePut key (env.net nid) store siblings with
    | (.ok (), store') => (⟨nid, none⟩, store')
    | (.error err, store') => (⟨nid, some (.remote nid err)⟩, store')

/-- The read of `parallelRead` from one replica. -/
def readFrom (renv : ReadEnv) (stores : NodeID → Storage) (key : Bytes) (nid : NodeID) :
    ReadResponse :=
  if nid = c.nodeID then
    match localGet (renv.env nid) (stores nid) key with
    | .ok siblingSet => ⟨nid, siblingSet, none⟩
    | .error err => ⟨nid, none, some (.storage err)⟩
  else
    match renv.failure nid with
    | some err => ⟨nid, none, some (.remote nid err)⟩
    | none =>
      match remoteGet (renv.env nid) (renv.stamp nid) (stores nid) key with
      | .ok siblingSet => ⟨nid, siblingSet, none⟩
      | .error err => ⟨nid, none, some (.remote nid err)⟩

theorem nodeID_readFrom (renv : ReadEnv) (stores : NodeID → Storage) (key : Bytes) (nid : NodeID) :
    (c.readFrom renv stores key nid).nodeID = nid := by
  unfold readFrom
  split_ifs
  · split <;> rfl
  · split
    · rfl
    · split <;> rfl

/-- Where the request goes through and the node ids are text, this is the read of one replica. -/
theorem readFrom_eq_readReplica {renv : ReadEnv} {stores : NodeID → Storage} {key : Bytes}
    {n : NodeID} (hreached : n ≠ c.nodeID → renv.failure n = none)
    (hids : ∀ set, (stores n).stored key = .ok set → ∀ sib ∈ set, sib.vclock.TextIDs) :
    c.readFrom renv stores key n =
      c.readReplica (renv.env n) (renv.stamp n) (stores n) key n := by
  unfold readFrom readReplica
  split_ifs with hn
  · unfold localGet
    cases (stores n).getRaw (renv.env n) key with
    | ok siblingSet => rfl
    | error err => cases err <;> rfl
  · have hwire : (read (renv.env n) (stores n) key).siblings.map SiblingData.overJSON =
        (read (renv.env n) (stores n) key).siblings := by
      unfold read
      split
      · rfl
      · rename_i siblings hget
        obtain ⟨set, hread, hfound⟩ := bind_eq_ok.1 hget
        obtain ⟨rfl, hne⟩ := Storage.foundOr_eq_ok.1 hfound
        rw [if_neg hne, List.map_map]
        exact List.map_congr_left fun sib hsib => Sibling.overJSON_toData
          (hids set (Storage.readRecord_eq_ok hread).1 sib (List.mem_filter.1 hsib).1)
    rw [hreached hn]
    simp only [remoteGet, hwire]

/-- The responses of the replicas, as they arrive. -/
def arrivalsFrom (renv : ReadEnv) (stores : NodeID → Storage) (key : Bytes) (nodes : List NodeID) :
    ReadArrivals nodes where
  responses := (renv.answering nodes).1.map (c.readFrom renv stores key)
  answered := by
    have hids : ((renv.answering nodes).1.map (c.readFrom renv stores key)).map ReadResponse.nodeID =
        (renv.answering nodes).1 := by
      rw [List.map_map]
      exact (List.map_congr_left fun n _ => c.nodeID_readFrom renv stores key n).trans (List.map_id _)
    rw [hids]
    exact (renv.answering nodes).2

/-- `Get` on the stores of the replicas. -/
def getFrom (renv : ReadEnv) (stores : NodeID → Storage) (key : Bytes) :
    Except CoordinatorError (List Sibling) :=
  c.get (c.arrivalsFrom renv stores key) key

/-- The sibling that the write to one replica is made from.  The peers share its clock with the local
write, which prunes it. -/
def sharedSibling (env : FanOutEnv) (stores : NodeID → Storage) (plan : WritePlan) (nid : NodeID) :
    Sibling :=
  if nid = c.nodeID ∨ (c.nodeID : NodeID) ∉ plan.prefList then plan.sibling
  else { plan.sibling with
    vclock := (stores c.nodeID).sharedClock env.put plan.key plan.sibling (env.gone nid) }

/-- `Delete` on the stores of the replicas: its result, the responses of the fan-out, and the stores
as it leaves them. -/
def deleteOn (env : FanOutEnv) (times : WriteTimes) (stores : NodeID → Storage) (key : Bytes)
    (context : VectorClock) :
    Except CoordinatorError Unit × List WriteResponse × (NodeID → Storage) :=
  match c.plan times (.delete key context) with
  | .error err => (.error err, [], stores)
  | .ok plan =>
    let write := fun nid => c.writeReplica env key [c.sharedSibling env stores plan nid] nid (stores nid)
    let responses := plan.prefList.map fun nid => (write nid).1
    (c.finishDelete responses, responses,
      fun nid => if nid ∈ plan.prefList then (write nid).2 else stores nid)

/-! ## The sweep -/

/-- The context with which a record is deleted: the clocks of all its siblings, and a tick. -/
def sweepContext (env : SweepEnv) (key : Bytes) (siblings : SiblingSet) : VectorClock :=
  (VectorClock.mergeAll env.mergeOrder VectorClock.new (siblings.map Sibling.vclock)).tick
    (env.tick key) c.nodeID

/-- The tombstone that this context leads to. -/
def sweepTombstone (env : SweepEnv) (key : Bytes) (siblings : SiblingSet) : Sibling :=
  c.newSibling (env.times key) (.delete key (c.sweepContext env key siblings))

/-- The delete of a record with an expired sibling. -/
def expire (env : SweepEnv) (s : SweepState) (key : Bytes) (siblings : SiblingSet) : SweepState :=
  let (result, responses, stores) :=
    c.deleteOn (env.writes key) (env.times key) s.stores key (c.sweepContext env key siblings)
  ⟨stores, if result.isOk then s.deleted + 1 else s.deleted, s.log ++ [(key, responses)]⟩

/-- The loop of `Scan` with the function of `sweep`; records that do not decode are skipped. -/
def sweepLoop (env : SweepEnv) (s : SweepState) : List (Bytes × Bytes) → SweepState
  | [] => s
  | (key, data) :: rest =>
    match decodeSiblingSet data with
    | .error _ => sweepLoop env s rest
    | .ok siblings =>
      if s.deleted ≥ ttlSweepMaxPerRound then s
      else if siblings.any (Sibling.expired env.now) then
        sweepLoop env (c.expire env s key siblings) rest
      else sweepLoop env s rest

/-- `sweep`.  The iterator sees the local records as they are at the start. -/
def sweep (env : SweepEnv) (stores : NodeID → Storage) : SweepState :=
  let s : SweepState := ⟨stores, 0, []⟩
  if (stores c.nodeID).closed then s else c.sweepLoop env s (stores c.nodeID).db.toList

end Coordinator

/-! ## What a write does to the stores -/

/-- Two stores have the same record under a key. -/
structure Storage.SameUnder (key : Bytes) (s t : Storage) : Prop where
  opts : t.opts = s.opts
  closed : t.closed = s.closed
  record : t.db.get? key = s.db.get? key

namespace Storage

variable {key key' : Bytes} {s t u : Storage}

theorem SameUnder.refl (key : Bytes) (s : Storage) : SameUnder key s s := ⟨rfl, rfl, rfl⟩

theorem SameUnder.trans (h₁ : SameUnder key s t) (h₂ : SameUnder key t u) : SameUnder key s u :=
  ⟨h₂.opts.trans h₁.opts, h₂.closed.trans h₁.closed, h₂.record.trans h₁.record⟩

theorem SameUnder.stored_eq (h : SameUnder key s t) : t.stored key = s.stored key :=
  stored_congr h.record

/-- A `Put` touches no other key. -/
theorem sameUnder_of_put {env : CallEnv} {siblings : SiblingSet}
    (h : s.put env key siblings = .ok t) (hne : key ≠ key') : SameUnder key' s t := by
  obtain ⟨data, -, -, rfl⟩ := put_eq_ok.1 h
  exact ⟨rfl, rfl, SortedMap.get?_insert_of_ne _ hne _⟩

theorem SameUnder.readRecord_eq (h : SameUnder key s t) (env : CallEnv) :
    t.readRecord env key = s.readRecord env key := by
  unfold readRecord
  rw [h.closed, h.record]

/-- What a write prunes depends on the record of its key. -/
theorem SameUnder.leavesCaller (h : SameUnder key s t) {env : CallEnv} {sib : Sibling}
    (hleaves : s.LeavesCaller env key sib) : t.LeavesCaller env key sib := by
  have hexisting : t.readExisting env key = s.readExisting env key := by
    simp only [readExisting, getRaw, h.readRecord_eq]
  have hmerge : t.merge env key [sib] = s.merge env key [sib] := by
    simp only [merge, h.closed, hexisting]
  unfold LeavesCaller at hleaves ⊢
  rwa [hmerge, hexisting, h.opts]

/-- After a `Put` of one sibling a record has what comes of this sibling, and stored siblings that it
does not supersede. -/
theorem mem_stored_of_put {env : CallEnv} {w x : Sibling} {set' : SiblingSet}
    (hput : s.put env key [w] = .ok t) (hset' : t.stored key = .ok set') (hx : x ∈ set') :
    x.tombstone = w.tombstone ∨ ∃ set, s.stored key = .ok set ∧ ∃ e ∈ set, ¬e.vclock < w.vclock ∧
      e.value = x.value ∧ e.timestamp = x.timestamp := by
  obtain ⟨-, -, existing, data, hex, henc, rfl⟩ := put_singleton_eq_ok.1 hput
  obtain ⟨all, hall, rfl⟩ := readExisting_eq_ok hex
  rw [stored_insert_self] at hset'
  rw [eq_of_decodeSiblingSet henc hset'] at hx
  obtain ⟨i, sib, hsib, rfl⟩ := mem_enforceLimits hx
  rcases mem_of_mem_reconcile hsib with h | h
  · rw [List.mem_singleton.1 h]
    exact Or.inl rfl
  · exact Or.inr ⟨all, hall, sib, mem_of_mem_unexpired h, not_lt_of_mem_reconcile hsib, rfl, rfl⟩

end Storage

/-- The store of a peer after `RemotePut` of one sibling. -/
theorem remotePut_singleton_store (key : Bytes) (net : ℕ → Request) (s : Storage) (x : Sibling) :
    (remotePut key net s [x]).2 = s ∧ (remotePut key net s [x]).1 ≠ .ok () ∨
      s.put (net 0).env key [x.received (net 0).stamp] = .ok (remotePut key net s [x]).2 := by
  rw [remotePut]
  cases hput : s.put (net 0).env (ReplicateReq.mk key x.toData.overJSON).key
      (ReplicateReq.siblings (net 0).stamp ⟨key, x.toData.overJSON⟩) with
  | ok t =>
    rw [replicate, hput]
    cases (net 0).outcome with
    | lost => exact Or.inl ⟨rfl, fun h => by cases h⟩
    | unanswered => exact Or.inr hput
    | answered => exact Or.inr hput
  | error err =>
    left
    rw [replicate, hput]
    cases (net 0).outcome with
    | lost => exact ⟨rfl, fun h => by cases h⟩
    | unanswered => exact ⟨rfl, fun h => by cases h⟩
    | answered => exact ⟨rfl, fun h => by cases h⟩

namespace Coordinator

variable {sum64 : Bytes → UInt64} {c : Coordinator sum64}

/-- A write to one replica fails and leaves the store as it is, or puts the sibling as the replica
receives it. -/
theorem writeReplica_cases (env : FanOutEnv) (key : Bytes) (x : Sibling) (n : NodeID)
    (store : Storage) :
    (c.writeReplica env key [x] n store).2 = store ∧
        (c.writeReplica env key [x] n store).1.error ≠ none ∨
      ∃ putEnv w, (w = x ∨ ∃ stamp, w = x.received stamp) ∧
        store.put putEnv key [w] = .ok (c.writeReplica env key [x] n store).2 := by
  unfold writeReplica
  split_ifs with hn
  · cases hput : store.put env.put key [x] with
    | ok t => exact Or.inr ⟨env.put, x, Or.inl rfl, hput⟩
    | error err => exact Or.inl ⟨rfl, fun h => by cases h⟩
  · rcases remotePut_singleton_store key (env.net n) store x with ⟨hstore, herr⟩ | hput
    · left
      split
      next hremote => exact absurd (congrArg Prod.fst hremote) herr
      next err t hremote =>
        exact ⟨(congrArg Prod.snd hremote).symm.trans hstore, fun h => by cases h⟩
    · right
      refine ⟨_, _, Or.inr ⟨_, rfl⟩, hput.trans ?_⟩
      split
      next t hremote => exact congrArg Except.ok (congrArg Prod.snd hremote)
      next err t hremote => exact congrArg Except.ok (congrArg Prod.snd hremote)

theorem sameUnder_deleteOn {key key' : Bytes} (hne : key ≠ key') (env : FanOutEnv)
    (times : WriteTimes) (stores : NodeID → Storage) (context : VectorClock) (n : NodeID) :
    Storage.SameUnder key' (stores n) ((c.deleteOn env times stores key context).2.2 n) := by
  unfold deleteOn
  split
  · exact .refl key' _
  next plan hplan =>
    dsimp only
    split_ifs
    · rcases writeReplica_cases (c := c) env key (c.sharedSibling env stores plan n) n (stores n) with
        ⟨hstore, -⟩ | ⟨putEnv, w, -, hput⟩
      · rw [hstore]
        exact .refl key' _
      · exact Storage.sameUnder_of_put hput hne
    · exact .refl key' _

theorem sameUnder_expire {key key' : Bytes} (hne : key ≠ key') (env : SweepEnv) (s : SweepState)
    (siblings : SiblingSet) (n : NodeID) :
    Storage.SameUnder key' (s.stores n) ((c.expire env s key siblings).stores n) :=
  sameUnder_deleteOn hne _ _ _ _ n

theorem deleted_expire_le (env : SweepEnv) (s : SweepState) (key : Bytes) (siblings : SiblingSet) :
    (c.expire env s key siblings).deleted ≤ s.deleted + 1 := by
  dsimp only [expire]
  split_ifs <;> omega

/-! ## What a sweep does to the stores -/

/-- A record has an expired sibling. -/
def hasExpired (now : Int64) (data : Bytes) : Bool :=
  match decodeSiblingSet data with
  | .ok siblings => siblings.any (Sibling.expired now)
  | .error _ => false

/-- A sweep leaves the records of a key alone whose local record has no expired sibling. -/
theorem sameUnder_sweepLoop (env : SweepEnv) {key : Bytes} {records : List (Bytes × Bytes)}
    (h : ∀ data, (key, data) ∈ records → hasExpired env.now data = false) (s : SweepState)
    (n : NodeID) : Storage.SameUnder key (s.stores n) ((c.sweepLoop env s records).stores n) := by
  induction records generalizing s with
  | nil => exact .refl key _
  | cons p rest ih =>
    obtain ⟨k, data⟩ := p
    have hrest := ih fun data hmem => h data (List.mem_cons_of_mem _ hmem)
    rw [sweepLoop]
    split
    · exact hrest s
    next siblings hdecode =>
      split_ifs with hlimit hexpired
      · exact .refl key _
      · have hne : k ≠ key := by
          rintro rfl
          have hfresh := h data List.mem_cons_self
          rw [hasExpired, hdecode] at hfresh
          exact Bool.false_ne_true (hfresh.symm.trans hexpired)
        exact (sameUnder_expire hne env s siblings n).trans (hrest _)
      · exact hrest s

/-- The deletes of a sweep stay on record. -/
theorem log_sweepLoop (env : SweepEnv) (records : List (Bytes × Bytes)) (s : SweepState) :
    s.log <+: (c.sweepLoop env s records).log := by
  induction records generalizing s with
  | nil => exact List.prefix_rfl
  | cons p rest ih =>
    rw [sweepLoop]
    split
    · exact ih s
    · split_ifs
      · exact List.prefix_rfl
      · exact List.IsPrefix.trans (List.prefix_append _ _) (ih (c.expire env s _ _))
      · exact ih s

/-- Only records with expired siblings count against the limit. -/
theorem deleted_sweepLoop_le (env : SweepEnv) (records : List (Bytes × Bytes)) (s : SweepState) :
    (c.sweepLoop env s records).deleted ≤
      s.deleted + records.countP fun p => hasExpired env.now p.2 := by
  induction records generalizing s with
  | nil => exact le_rfl
  | cons p rest ih =>
    obtain ⟨key, data⟩ := p
    rw [sweepLoop, List.countP_cons, hasExpired]
    split
    next err hdecode => exact (ih s).trans (by omega)
    next siblings hdecode =>
      simp only [hdecode]
      have hskip := ih s
      have hstep := ih (c.expire env s key siblings)
      have hdeleted := deleted_expire_le (c := c) env s key siblings
      split_ifs <;> omega

/-- A sweep that has not reached its limit goes on after a part of the records. -/
theorem sweepLoop_append (env : SweepEnv) {pre : List (Bytes × Bytes)} {s : SweepState}
    (h : s.deleted + pre.countP (fun p => hasExpired env.now p.2) < ttlSweepMaxPerRound)
    (records : List (Bytes × Bytes)) :
    c.sweepLoop env s (pre ++ records) = c.sweepLoop env (c.sweepLoop env s pre) records := by
  induction pre generalizing s with
  | nil => rfl
  | cons p pre ih =>
    obtain ⟨key, data⟩ := p
    rw [List.countP_cons, hasExpired] at h
    rw [List.cons_append, sweepLoop, sweepLoop]
    split at h
    next siblings hdecode =>
      simp only [hdecode]
      have hlimit : ¬s.deleted ≥ ttlSweepMaxPerRound := by omega
      rw [if_neg hlimit, if_neg hlimit]
      split_ifs at h ⊢ with hexpired
      · apply ih
        have hdeleted := deleted_expire_le (c := c) env s key siblings
        omega
      · exact ih h
    next err hdecode =>
      simp only [hdecode]
      exact ih h

/-! ## What a read shows -/

theorem getD_answerOf (siblings : SiblingSet) : (answerOf siblings).getD [] = siblings := by
  unfold answerOf
  split_ifs with h
  · exact h.symm
  · rfl

theorem mem_localGet {env : CallEnv} {s : Storage} {key : Bytes} {answer : Option SiblingSet}
    (h : localGet env s key = .ok answer) {x : Sibling} (hx : x ∈ answer.getD []) :
    ∃ set, s.stored key = .ok set ∧ x ∈ set := by
  obtain ⟨hserves, set, hset⟩ := serves_of_localGet h
  rw [localGet_of_serves hserves hset] at h
  obtain rfl := Except.ok.inj h
  rw [getD_answerOf] at hx
  exact ⟨set, hset, mem_of_mem_unexpired hx⟩

theorem mem_remoteGet {env : CallEnv} {stamp : ℕ → NodeID → Int64} {s : Storage} {key : Bytes}
    {answer : Option SiblingSet} (hanswer : remoteGet env stamp s key = .ok answer) {x : Sibling}
    (h : x ∈ answer.getD []) :
    ∃ set, s.stored key = .ok set ∧
      ∃ y ∈ set, y.value = x.value ∧ y.timestamp = x.timestamp ∧ y.tombstone = x.tombstone := by
  obtain rfl := Except.ok.inj hanswer
  unfold read at h
  cases hget : s.get env key with
  | error err =>
    rw [hget] at h
    cases h
  | ok live =>
    rw [hget] at h
    obtain ⟨set, hread, hfound⟩ := bind_eq_ok.1 hget
    obtain ⟨rfl, hne⟩ := Storage.foundOr_eq_ok.1 hfound
    refine ⟨set, (Storage.readRecord_eq_ok hread).1, ?_⟩
    dsimp only at h
    rw [if_neg hne] at h
    obtain ⟨i, hi, rfl⟩ := List.mem_mapIdx.1 h
    rw [List.length_map, List.length_map] at hi
    refine ⟨(filterTombstones set)[i], (List.mem_filter.1 (List.getElem_mem hi)).1, ?_⟩
    simp only [List.getElem_map]
    exact ⟨rfl, rfl, rfl⟩

/-- A read shows stored siblings, with their values, times and tombstone flags. -/
theorem mem_siblings_readFrom {renv : ReadEnv} {stores : NodeID → Storage} {key : Bytes}
    {n : NodeID} {x : Sibling} (h : x ∈ (c.readFrom renv stores key n).siblings) :
    ∃ set, (stores n).stored key = .ok set ∧
      ∃ y ∈ set, y.value = x.value ∧ y.timestamp = x.timestamp ∧ y.tombstone = x.tombstone := by
  unfold readFrom at h
  split_ifs at h with hn
  · cases hget : localGet (renv.env n) (stores n) key with
    | error err =>
      rw [hget] at h
      cases h
    | ok here =>
      rw [hget] at h
      obtain ⟨set, hset, hx⟩ := mem_localGet hget h
      exact ⟨set, hset, x, hx, rfl, rfl, rfl⟩
  · cases hfail : renv.failure n with
    | some err =>
      rw [hfail] at h
      cases h
    | none =>
      rw [hfail] at h
      exact mem_remoteGet rfl h

theorem getFrom_congr {renv : ReadEnv} {stores stores' : NodeID → Storage} {key : Bytes}
    (h : ∀ n, Storage.SameUnder key (stores n) (stores' n)) :
    c.getFrom renv stores' key = c.getFrom renv stores key := by
  have hread : c.readFrom renv stores' key = c.readFrom renv stores key := by
    funext n
    simp only [readFrom, localGet, remoteGet, read, Storage.getRaw, Storage.get,
      (h n).readRecord_eq]
  have harrivals : c.arrivalsFrom renv stores' key = c.arrivalsFrom renv stores key := by
    funext nodes
    simp only [arrivalsFrom, hread]
  rw [getFrom, getFrom, harrivals]

/-- What `Get` returns is no tombstone, and some replica has shown it. -/
theorem get_eq_ok {arrivals : ∀ nodes, ReadArrivals nodes} {key : Bytes} {l : List Sibling}
    (h : c.get arrivals key = .ok l) :
    ∃ prefList, c.ring.getPreferenceList key c.quorumConfig.N = .ok prefList ∧
      ∀ x ∈ l, x.tombstone = false ∧ ∃ resp ∈ (arrivals prefList).responses, x ∈ resp.siblings := by
  unfold get at h
  cases hplan : c.planGet key with
  | error err =>
    rw [hplan] at h
    cases h
  | ok prefList =>
    rw [hplan] at h
    refine ⟨prefList, planGet_eq_ok hplan, fun x hx => ?_⟩
    dsimp only [finishGet] at h
    split_ifs at h
    obtain rfl := Except.ok.inj h
    obtain ⟨hmem, hlive⟩ := List.mem_filter.1 hx
    rw [mergeAllSiblings_eq_maximals] at hmem
    obtain ⟨resp, hresp, hx⟩ := List.mem_flatMap.1 (mem_of_mem_maximals hmem).1
    obtain ⟨collected, hprefix, hcollected⟩ := collectReads_eq c.quorumConfig.R []
      (arrivals prefList).responses
    rw [hcollected, List.nil_append] at hresp
    exact ⟨by simpa using hlive, resp, hprefix.subset hresp, hx⟩

/-! ## Expired keys -/

/-- The clock of the sweep's tombstone is newer than those of all siblings of the record. -/
theorem lt_vclock_of_sweep {env : SweepEnv} {key : Bytes} {siblings : SiblingSet}
    (hcounter : ∀ sib ∈ siblings, sib.vclock.get c.nodeID < 18446744073709551614) {sib : Sibling}
    (hsib : sib ∈ siblings) (times : WriteTimes) :
    sib.vclock < c.newVClock times (c.sweepContext env key siblings) := by
  let merged := VectorClock.mergeAll env.mergeOrder VectorClock.new (siblings.map Sibling.vclock)
  have hcount : merged.count c.nodeID < 18446744073709551614 := by
    refine VectorClock.count_mergeAll_lt _ (show 0 < _ by decide) fun vc hvc => ?_
    obtain ⟨y, hy, rfl⟩ := List.mem_map.1 hvc
    exact UInt64.lt_iff_toNat_lt.1 (hcounter y hy)
  have hmerged : sib.vclock ≤ merged :=
    (VectorClock.le_mergeAll _ _ _).2 _ (List.mem_map_of_mem hsib)
  -- the sweeper ticks the merged clock, and `Delete` ticks it again
  have hfirst : merged < c.sweepContext env key siblings := by
    rw [sweepContext, VectorClock.lt_tick_iff, Ne, ← UInt64.toNat_inj]
    exact ne_of_lt (lt_trans hcount (by decide))
  have hsecond : c.sweepContext env key siblings <
      c.newVClock times (c.sweepContext env key siblings) := by
    rw [context_lt_newVClock_iff, sweepContext, VectorClock.get_tick_self, Ne, ← UInt64.toNat_inj,
      UInt64.toNat_add]
    change (merged.count c.nodeID + 1) % 2 ^ 64 ≠ 18446744073709551615
    omega
  exact lt_of_le_of_lt hmerged (hfirst.trans hsecond)

theorem validIDs_sweepContext {env : SweepEnv} {key : Bytes} {siblings : SiblingSet}
    (hids : ∀ sib ∈ siblings, sib.vclock.ValidIDs) :
    (c.sweepContext env key siblings).ValidIDs := by
  refine VectorClock.ValidIDs.tick ?_ c.nodeID.2 _
  refine VectorClock.ValidIDs.mergeAll _ (fun p hp => absurd hp List.not_mem_nil) fun vc hvc => ?_
  obtain ⟨sib, hsib, rfl⟩ := List.mem_map.1 hvc
  exact hids sib hsib

/-- Where a key has a preference list, a delete with a context is sent to it. -/
theorem plan_delete_of_ok {key : Bytes} {prefList : List NodeID} {context : VectorClock}
    (hcontext : context.isEmpty = false)
    (h : c.ring.getPreferenceList key c.quorumConfig.N = .ok prefList) (times : WriteTimes) :
    c.plan times (.delete key context) =
      .ok ⟨key, c.newSibling times (.delete key context), prefList⟩ := by
  simp only [plan, WriteCall.check, WriteCall.key, Coordinator.prefList, h, hcontext]
  rfl

/-- The sweep comes to an expired record before its limit: what it does before and after leaves the
records of the key alone. -/
theorem sweep_of_expired {env : SweepEnv} {stores : NodeID → Storage} {key data : Bytes}
    {siblings : SiblingSet} (hopen : (stores c.nodeID).closed = false)
    (hget : (stores c.nodeID).db.get? key = some data)
    (hdecode : decodeSiblingSet data = .ok siblings)
    (hexpired : siblings.any (Sibling.expired env.now) = true)
    (hfew : (stores c.nodeID).db.toList.countP (fun p => p.1 < key && hasExpired env.now p.2) <
      ttlSweepMaxPerRound) :
    ∃ s, (∀ n, Storage.SameUnder key (stores n) (s.stores n)) ∧
      (∀ n, Storage.SameUnder key ((c.expire env s key siblings).stores n)
        ((c.sweep env stores).stores n)) ∧
      (c.expire env s key siblings).log <+: (c.sweep env stores).log := by
  obtain ⟨pre, post, hsplit⟩ := List.append_of_mem (SortedMap.mem_toList_iff.2 hget)
  have hsorted := (stores c.nodeID).db.sorted
  rw [hsplit] at hsorted hfew
  obtain ⟨-, htail, hbefore⟩ := List.pairwise_append.1 hsorted
  have hpre : ∀ p ∈ pre, p.1 < key := fun p hp => hbefore p hp _ List.mem_cons_self
  have hpost : ∀ p ∈ post, key < p.1 := (List.pairwise_cons.1 htail).1
  have hcount : pre.countP (fun p => hasExpired env.now p.2) < ttlSweepMaxPerRound := by
    rw [List.countP_append] at hfew
    refine lt_of_le_of_lt (le_of_eq ?_) (lt_of_le_of_lt (Nat.le_add_right _ _) hfew)
    exact List.countP_congr fun p hp => by simp [hpre p hp]
  let start : SweepState := ⟨stores, 0, []⟩
  have hrun : c.sweep env stores =
      c.sweepLoop env (c.expire env (c.sweepLoop env start pre) key siblings) post := by
    have hlimit : ¬(c.sweepLoop env start pre).deleted ≥ ttlSweepMaxPerRound := by
      have hle := deleted_sweepLoop_le (c := c) env pre start
      change _ ≤ 0 + _ at hle
      omega
    have hstart : start.deleted + pre.countP (fun p => hasExpired env.now p.2) <
        ttlSweepMaxPerRound := by
      change 0 + _ < _
      omega
    rw [sweep, hopen, if_neg Bool.false_ne_true, hsplit]
    change c.sweepLoop env start _ = _
    rw [sweepLoop_append env hstart, sweepLoop]
    simp only [hdecode]
    rw [if_neg hlimit, if_pos hexpired]
  rw [hrun]
  refine ⟨c.sweepLoop env start pre, fun n => ?_, fun n => ?_, log_sweepLoop env post _⟩
  · refine sameUnder_sweepLoop env (fun d hmem => ?_) start n
    exact absurd (hpre _ hmem) (lt_irrefl _)
  · refine sameUnder_sweepLoop env (fun d hmem => ?_) _ n
    exact absurd (hpost _ hmem) (lt_irrefl _)

/-- A sweep that all replicas answer without an error has put its tombstone on each of them, if the
local write does not change it. -/
theorem put_of_expire {env : SweepEnv} {s : SweepState} {key : Bytes} {siblings : SiblingSet}
    {prefList : List NodeID} (hpref : c.ring.getPreferenceList key c.quorumConfig.N = .ok prefList)
    (hwrites : ∀ entry ∈ (c.expire env s key siblings).log, ∀ resp ∈ entry.2, resp.error = none)
    (hleaves : (c.nodeID : NodeID) ∈ prefList → (s.stores c.nodeID).LeavesCaller (env.writes key).put
      key (c.sweepTombstone env key siblings)) {n : NodeID} (hn : n ∈ prefList) :
    ∃ putEnv w, (w = c.sweepTombstone env key siblings ∨
        ∃ stamp, w = (c.sweepTombstone env key siblings).received stamp) ∧
      (s.stores n).put putEnv key [w] = .ok ((c.expire env s key siblings).stores n) := by
  have hcontext : (c.sweepContext env key siblings).isEmpty = false := VectorClock.isEmpty_tick _ _ _
  have hplan := plan_delete_of_ok hcontext hpref (env.times key)
  let plan : WritePlan := ⟨key, c.sweepTombstone env key siblings, prefList⟩
  let write := fun n => c.writeReplica (env.writes key) key
    [c.sharedSibling (env.writes key) s.stores plan n] n (s.stores n)
  have hdelete : c.deleteOn (env.writes key) (env.times key) s.stores key
        (c.sweepContext env key siblings) =
      (c.finishDelete (prefList.map fun n => (write n).1), prefList.map fun n => (write n).1,
        fun n => if n ∈ prefList then (write n).2 else s.stores n) := by
    rw [deleteOn, hplan]
    rfl
  have hstore : (c.expire env s key siblings).stores n = (write n).2 := by
    dsimp only [expire]
    rw [hdelete]
    exact if_pos hn
  have hok : (write n).1.error = none := by
    refine hwrites (key, prefList.map fun n => (write n).1) ?_ _ (List.mem_map_of_mem hn)
    dsimp only [expire]
    rw [hdelete]
    exact List.mem_append_right _ List.mem_cons_self
  have hshared : c.sharedSibling (env.writes key) s.stores plan n = plan.sibling := by
    unfold sharedSibling
    split_ifs with hown
    · rfl
    · rw [not_or, not_not] at hown
      rw [Storage.sharedClock_of_leavesCaller (hleaves hown.2)]
  rw [hstore]
  rcases writeReplica_cases (c := c) (env.writes key) key
      (c.sharedSibling (env.writes key) s.stores plan n) n (s.stores n) with ⟨-, herr⟩ | hput
  · exact absurd hok herr
  · obtain ⟨putEnv, w, hw, hput⟩ := hput
    rw [hshared] at hw
    exact ⟨putEnv, w, hw, hput⟩

/-- After the delete of an expired record a replica of the key has the tombstone, and siblings that no
sibling of the record has seen. -/
theorem mem_stored_of_expire {env : SweepEnv} {s : SweepState} {key : Bytes} {siblings : SiblingSet}
    {prefList : List NodeID} (hpref : c.ring.getPreferenceList key c.quorumConfig.N = .ok prefList)
    (hwrites : ∀ entry ∈ (c.expire env s key siblings).log, ∀ resp ∈ entry.2, resp.error = none)
    (hids : ∀ sib ∈ siblings, sib.vclock.ValidIDs)
    (hcounter : ∀ sib ∈ siblings, sib.vclock.get c.nodeID < 18446744073709551614)
    (hleaves : (c.nodeID : NodeID) ∈ prefList → (s.stores c.nodeID).LeavesCaller (env.writes key).put
      key (c.sweepTombstone env key siblings)) {n : NodeID} (hn : n ∈ prefList) {set' : SiblingSet}
    (hset' : ((c.expire env s key siblings).stores n).stored key = .ok set') {x : Sibling}
    (hx : x ∈ set') :
    x.tombstone = true ∨ ∃ set, (s.stores n).stored key = .ok set ∧ ∃ e ∈ set,
      (e.value = x.value ∧ e.timestamp = x.timestamp) ∧ ∀ sib ∈ siblings, ¬e.vclock ≤ sib.vclock := by
  obtain ⟨putEnv, w, hw, hput⟩ := put_of_expire hpref hwrites hleaves hn
  have hkept : (c.sweepTombstone env key siblings).vclock ≤ w.vclock ∧ w.tombstone = true := by
    rcases hw with rfl | ⟨stamp, rfl⟩
    · exact ⟨le_rfl, rfl⟩
    · have hnew : (c.sweepTombstone env key siblings).vclock.ValidIDs :=
        VectorClock.ValidIDs.tick (validIDs_sweepContext hids) c.nodeID.2 _
      exact ⟨(Sibling.received_of_validIDs hnew stamp).2.1, rfl⟩
  rcases Storage.mem_stored_of_put hput hset' hx with htomb | ⟨set, hset, e, he, hnot, hvalue, htime⟩
  · exact Or.inl (htomb.trans hkept.2)
  · refine Or.inr ⟨set, hset, e, he, ⟨hvalue, htime⟩, fun sib hsib hle => hnot ?_⟩
    exact lt_of_le_of_lt hle (lt_of_lt_of_le (lt_vclock_of_sweep hcounter hsib _) hkept.1)

/-- A sweep does not change what `Get` returns for a key whose local record has no expired sibling.
If the record has one and the limit is not reached, all replicas take the tombstone, and the local
write finds nothing to prune in its clock, `Get` afterwards returns only versions that no sibling of
the record, expired or not, has seen. -/
theorem sweep_removes_expired_keys (sum64 : Bytes → UInt64) (c : Coordinator sum64)
    (env : SweepEnv) (stores : NodeID → Storage) (key : Bytes) (siblings : SiblingSet)
    (hopen : (stores c.nodeID).closed = false)
    (hstored : (stores c.nodeID).stored key = .ok siblings) :
    ((∀ sib ∈ siblings, sib.expired env.now = false) →
      ∀ renv, c.getFrom renv (c.sweep env stores).stores key = c.getFrom renv stores key) ∧
    ((∃ sib ∈ siblings, sib.expired env.now = true) →
      (stores c.nodeID).db.toList.countP (fun p => p.1 < key && hasExpired env.now p.2) <
        ttlSweepMaxPerRound →
      (∀ entry ∈ (c.sweep env stores).log, ∀ resp ∈ entry.2, resp.error = none) →
      (∀ sib ∈ siblings, sib.vclock.ValidIDs) →
      (∀ sib ∈ siblings, sib.vclock.get c.nodeID < 18446744073709551614) →
      ((c.nodeID : NodeID) ∈ c.replicas key → (stores c.nodeID).LeavesCaller (env.writes key).put key
        (c.sweepTombstone env key siblings)) →
      ∀ renv l, c.getFrom renv (c.sweep env stores).stores key = .ok l → ∀ x ∈ l,
        ∃ n ∈ c.replicas key, ∃ e ∈ (stores n).held key,
          (e.value = x.value ∧ e.timestamp = x.timestamp) ∧
            ∀ sib ∈ siblings, ¬e.vclock ≤ sib.vclock) := by
  constructor
  · intro hfresh renv
    refine getFrom_congr fun n => ?_
    rw [sweep, hopen, if_neg Bool.false_ne_true]
    refine sameUnder_sweepLoop env (fun data hmem => ?_) ⟨stores, 0, []⟩ n
    rw [Storage.stored_of_get? (SortedMap.mem_toList_iff.1 hmem)] at hstored
    rw [hasExpired, hstored]
    exact List.any_eq_false.2 fun sib hsib => by simp [hfresh sib hsib]
  · rintro ⟨sib, hsib, hexpired⟩ hfew hwrites hids hcounter hleaves renv l hl x hx
    obtain ⟨data, hget⟩ : ∃ data, (stores c.nodeID).db.get? key = some data := by
      unfold Storage.stored at hstored
      split at hstored
      · cases hstored
        exact absurd hsib List.not_mem_nil
      · exact ⟨_, by assumption⟩
    rw [Storage.stored_of_get? hget] at hstored
    obtain ⟨s, hbefore, hafter, hlog⟩ := sweep_of_expired hopen hget hstored
      (List.any_eq_true.2 ⟨sib, hsib, hexpired⟩) hfew
    obtain ⟨prefList, hpref, hreturned⟩ := get_eq_ok hl
    obtain ⟨hlive, resp, hresp, hshown⟩ := hreturned x hx
    obtain ⟨n, hn, rfl⟩ := List.mem_map.1 hresp
    have hn : n ∈ prefList := (renv.answering prefList).2.subset hn
    obtain ⟨set', hset', y, hy, hvalue, htime, htomb⟩ := mem_siblings_readFrom hshown
    rw [(hafter n).stored_eq] at hset'
    have hreplicas : c.replicas key = prefList := by
      rw [replicas, HashRing.preferenceList, hpref]
    rcases mem_stored_of_expire hpref (fun entry hentry => hwrites entry (hlog.subset hentry)) hids
      hcounter (fun hself => (hbefore c.nodeID).leavesCaller (hleaves (hreplicas ▸ hself))) hn hset'
      hy with hdead | ⟨set, hset, e, he, ⟨hvalue', htime'⟩, hunseen⟩
    · rw [htomb, hlive] at hdead
      cases hdead
    · rw [(hbefore n).stored_eq] at hset
      have hheld : e ∈ (stores n).held key := by
        rw [Storage.held, hset]
        exact he
      exact ⟨n, hreplicas ▸ hn, e, hheld, ⟨hvalue'.trans hvalue, htime'.trans htime⟩, hunseen⟩

end Coordinator

/-- A version of the key `k` that expires at second 50, and a concurrent one that does not. -/
def mixedVersions : SiblingSet :=
  [⟨[1], VectorClock.new.set 40 [110, 49] 1, 40, false, 50⟩,
    ⟨[2], VectorClock.new.set 40 [110, 50] 1, 40, false, 0⟩]

/-- A store that holds both. -/
def mixedStore : Storage :=
  ((Storage.new defaultStorageOptions).put (CallEnv.steady 40) [107]
    mixedVersions).toOption.getD (Storage.new defaultStorageOptions)

/-- A sweep at second 100, when everything works. -/
def promptSweep : SweepEnv :=
  ⟨100, MapOrder.inOrder _, fun _ => 100, fun _ => ⟨100, 100, 100⟩,
    fun _ => ⟨CallEnv.steady 100, fun _ => promptNet, fun _ _ => true⟩⟩

/-- A `Get` at second 100 that every replica answers. -/
def promptRead : ReadEnv :=
  ⟨fun nodes => ⟨nodes, List.Subperm.refl _⟩, fun _ => CallEnv.steady 100, fun _ _ _ => 100,
    fun _ => none⟩

set_option maxRecDepth 8000 in
/-- The key `k` of the store is swept, and another key is not. -/
theorem sweep_of_mixed_key :
    (∀ renv l, writerN1.getFrom renv (writerN1.sweep promptSweep fun _ => mixedStore).stores [107] =
      .ok l → ∀ x ∈ l, ∃ n ∈ writerN1.replicas [107], ∃ e ∈ mixedStore.held [107],
        (e.value = x.value ∧ e.timestamp = x.timestamp) ∧
          ∀ sib ∈ mixedVersions, ¬e.vclock ≤ sib.vclock) ∧
      ∀ renv, writerN1.getFrom renv (writerN1.sweep promptSweep fun _ => mixedStore).stores [108] =
        writerN1.getFrom renv (fun _ => mixedStore) [108] := by
  constructor
  · exact (Coordinator.sweep_removes_expired_keys sampleSum64 writerN1 promptSweep
      (fun _ => mixedStore) [107] mixedVersions (by decide +kernel) (by decide +kernel)).2
      (by decide +kernel) (by decide +kernel) (by decide +kernel) (by decide +kernel)
      (by decide +kernel) (by decide +kernel)
  · exact (Coordinator.sweep_removes_expired_keys sampleSum64 writerN1 promptSweep
      (fun _ => mixedStore) [108] [] (by decide +kernel) (by decide +kernel)).1 (by decide)

set_option maxRecDepth 8000 in
/-- The version that does not expire is returned before the sweep and is gone after it. -/
theorem sweep_removes_live_sibling :
    (writerN1.sweep promptSweep fun _ => mixedStore).log = [([107], [⟨[110, 49], none⟩])] ∧
      (∀ sib ∈ mixedVersions, sib.value = [2] → sib.tombstone = false ∧ sib.expired 100 = false) ∧
      (writerN1.getFrom promptRead (fun _ => mixedStore) [107]).toOption.map
        (List.map Sibling.value) = some [[2]] ∧
      writerN1.getFrom promptRead (writerN1.sweep promptSweep fun _ => mixedStore).stores [107] =
        .error .keyNotFound := by
  decide +kernel

end GoQuorum
