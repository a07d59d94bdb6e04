import GoQuorum.Cluster.Senders
import GoQuorum.Cluster.Reads
import GoQuorum.Cluster.ReadRepair
import GoQuorum.Lib.Quorums

/-!
# Reads that repair before they return

`Get` of `internal/cluster/coordinator.go` with read repair on, `Async` off and `Probability` 1: the
coordinator collects the responses of `R` replicas, merges them, sends what is merged to the
replicas that answered without it, and then returns.  Any number of calls run at once, among writes
to the stores; `GetState.step` interleaves the calls of `Storage.Put` that serve all of them.  A call
that does not get its `R` responses returns an error; here it stays as it is.

Sent without interruption, the repairs of a call are those of `TriggerRepair`
(`exec_triggerRepair`). A call whose repairs succeed leaves what it returns on all replicas that
answered it, except on the coordinator's own, which `sendRepair` skips.  If these meet every later
read quorum, reads are monotonic: a later `Get` returns nothing older (`reads_are_monotonic`).
-/

namespace GoQuorum

open Lib Lib.Versions

/-! ## Calls -/

/-- Where a call is; once it has returned, whether one of its repairs has failed. -/
inductive GetPhase where
  | collecting
  | repairing (sender : Sender)
  | returned (failed : Bool)
  deriving DecidableEq

structure GetCall where
  coordinator : MemberID
  key : Bytes
  prefList : List NodeID
  responses : List ReadResponse
  phase : GetPhase

namespace GetCall

def merged (c : GetCall) : List Sibling :=
  mergeAllSiblings (c.responses.flatMap ReadResponse.siblings)

/-- The goroutine that repairs. -/
def sender (c : GetCall) : Option Sender :=
  match c.phase with
  | .repairing sender => some sender
  | .collecting | .returned _ => none

/-- The repairs of `TriggerRepair`, the coordinator's own store skipped. -/
def repairs (c : GetCall) : List RemoteWrite :=
  (c.responses.filter fun resp => resp.error = none ∧
    checkNeedsRepair c.merged resp.siblingSet = true ∧ resp.nodeID ≠ (c.coordinator : NodeID)).map
      fun resp => ⟨resp.nodeID, c.key, c.merged⟩

/-- The replicas that answered and are up to date or repaired. -/
def settled (c : GetCall) : List NodeID :=
  (c.responses.filter fun resp => resp.error = none ∧
    (resp.nodeID ≠ (c.coordinator : NodeID) ∨
      checkNeedsRepair c.merged resp.siblingSet = false)).map ReadResponse.nodeID

/-- The answer of the coordinator's own store, if it is among the responses, needs no repair. -/
def CoordinatorCurrent (c : GetCall) : Prop :=
  ∀ resp ∈ c.responses, resp.error = none → resp.nodeID = (c.coordinator : NodeID) →
    checkNeedsRepair c.merged resp.siblingSet = false

instance (c : GetCall) : Decidable c.CoordinatorCurrent :=
  inferInstanceAs (Decidable (∀ resp ∈ c.responses, _))

/-- One more response; with the last one that is needed the repairs begin. -/
def respond (R : ℤ) (c : GetCall) (resp : ReadResponse) : GetCall :=
  let c' := { c with responses := c.responses ++ [resp] }
  if readSuccesses c'.responses ≥ R then
    { c' with phase := .repairing ⟨c'.repairs, none, false⟩ }
  else c'

@[simp] theorem key_respond (R : ℤ) (c : GetCall) (resp : ReadResponse) :
    (c.respond R resp).key = c.key := by
  simp only [respond]
  split_ifs <;> rfl

@[simp] theorem responses_respond (R : ℤ) (c : GetCall) (resp : ReadResponse) :
    (c.respond R resp).responses = c.responses ++ [resp] := by
  simp only [respond]
  split_ifs <;> rfl

end GetCall

/-- The stores and the calls. -/
structure GetState where
  replicas : Replicas
  gets : ℕ → Option GetCall

inductive GetEvent where
  /-- Another call of `Storage.Put` reads. -/
  | put (t : ℕ) (n : NodeID) (env : CallEnv) (key : Bytes) (siblings : SiblingSet)
  /-- A call of `Storage.Put` writes. -/
  | commit (t : ℕ)
  /-- A coordinator begins a `Get`. -/
  | get (i : ℕ) (coordinator : MemberID) (key : Bytes)
  /-- A replica answers. -/
  | answer (i : ℕ) (n : NodeID) (env : CallEnv) (stamp : ℕ → NodeID → Int64)
  /-- The read of a replica fails. -/
  | failRead (i : ℕ) (n : NodeID) (err : ReplicaFailure)
  /-- The repairs of a call go on. -/
  | send (i : ℕ) (e : SenderEvent)
  /-- The call returns. -/
  | finish (i : ℕ)

namespace GetState

def stores (s : GetState) : NodeID → Storage := s.replicas.stores

def setGet (s : GetState) (i : ℕ) (c : GetCall) : GetState :=
  { s with gets := Function.update s.gets i (some c) }

/-- The state after a step of the repairs of a call. -/
def setSender (s : GetState) (i : ℕ) (c : GetCall) (next : Replicas × Sender) : GetState :=
  { s with replicas := next.1 }.setGet i { c with phase := .repairing next.2 }

variable {sum64 : Bytes → UInt64} (ring : HashRing sum64) (cfg : QuorumConfig)

/-- The coordinator takes one response of each replica, while it collects. -/
def respond (s : GetState) (i : ℕ) (c : GetCall) (resp : ReadResponse) : Option GetState :=
  match c.phase with
  | .collecting =>
    if resp.nodeID ∈ c.prefList ∧ resp.nodeID ∉ c.responses.map ReadResponse.nodeID then
      some (s.setGet i (c.respond cfg.R resp))
    else none
  | _ => none

def step (s : GetState) : GetEvent → Option GetState
  | .put t n env key siblings =>
    (s.replicas.beginPut t n env key siblings).map fun next => { s with replicas := next.2 }
  | .commit t => (s.replicas.commit t).map fun replicas => { s with replicas }
  | .get i coordinator key =>
    match s.gets i, (Coordinator.mk coordinator ring cfg).planGet key with
    | none, .ok prefList => some (s.setGet i ⟨coordinator, key, prefList, [], .collecting⟩)
    | _, _ => none
  | .answer i n env stamp =>
    (s.gets i).bind fun c => s.respond cfg i c
      ((Coordinator.mk c.coordinator ring cfg).readReplica env stamp (s.stores n) c.key n)
  | .failRead i n err => (s.gets i).bind fun c => s.respond cfg i c ⟨n, none, some err⟩
  | .send i e =>
    (s.gets i).bind fun c => c.sender.bind fun sender =>
      (sender.step s.replicas e).map (s.setSender i c)
  | .finish i =>
    (s.gets i).bind fun c => c.sender.bind fun sender =>
      if sender.todo = [] then some (s.setGet i { c with phase := .returned sender.failed })
      else none

/-- No call of `Storage.Put` prunes anything or writes over a record that has changed since it read
it, what is written is not deleted, does not expire and has valid node ids, and reads of stores do not
fail unnoticed. -/
def Gentle (s : GetState) : GetEvent → Prop
  | .put _ n env key siblings => Storage.NoPrune env (s.stores n) key siblings ∧
      ∀ x ∈ siblings, Lasting x ∧ x.vclock.Readable ∧ x.tombstone = false
  | .commit t => s.replicas.Atomic t
  | .answer i n env _ => ∀ c ∈ s.gets i, (s.stores n).readsWell env c.key = true
  | .send i e => ∀ c ∈ s.gets i, ∀ sender ∈ c.sender, sender.Gentle s.replicas e
  | .get _ _ _ | .failRead _ _ _ | .finish _ => True

instance (s : GetState) : DecidablePred s.Gentle
  | .put _ _ _ _ _ => inferInstanceAs (Decidable (_ ∧ _))
  | .commit t => inferInstanceAs (Decidable (s.replicas.Atomic t))
  | .answer i _ _ _ => inferInstanceAs (Decidable (∀ c ∈ s.gets i, _))
  | .send i _ => inferInstanceAs (Decidable (∀ c ∈ s.gets i, ∀ sender ∈ c.sender, _))
  | .get _ _ _ | .failRead _ _ _ | .finish _ => isTrue trivial

/-! ## What a step does -/

/-- What a step does. -/
inductive Moved (s : GetState) : GetEvent → GetState → Prop
  | put (u : ℕ) (n : NodeID) (env : CallEnv) (key : Bytes) (siblings : SiblingSet)
      (err : Option StorageError) (r : Replicas)
      (hput : s.replicas.beginPut u n env key siblings = some (err, r)) :
      Moved s (.put u n env key siblings) { s with replicas := r }
  | committed (u : ℕ) (r : Replicas) (hcommit : s.replicas.commit u = some r) :
      Moved s (.commit u) { s with replicas := r }
  | get (i : ℕ) (coordinator : MemberID) (key : Bytes) (prefList : List NodeID)
      (hnew : s.gets i = none)
      (hplan : (Coordinator.mk coordinator ring cfg).planGet key = .ok prefList) :
      Moved s (.get i coordinator key) (s.setGet i ⟨coordinator, key, prefList, [], .collecting⟩)
  | respond (i : ℕ) (c : GetCall) (e : GetEvent) (resp : ReadResponse) (hc : s.gets i = some c)
      (hphase : c.phase = .collecting)
      (hnode : resp.nodeID ∈ c.prefList ∧ resp.nodeID ∉ c.responses.map ReadResponse.nodeID)
      (hresp : (∃ n err, e = .failRead i n err ∧ resp = ⟨n, none, some err⟩) ∨
        ∃ n env stamp, e = .answer i n env stamp ∧ resp =
          (Coordinator.mk c.coordinator ring cfg).readReplica env stamp (s.stores n) c.key n) :
      Moved s e (s.setGet i (c.respond cfg.R resp))
  | sent (i : ℕ) (c : GetCall) (e : SenderEvent) (sender : Sender) (next : Replicas × Sender)
      (hc : s.gets i = some c) (hphase : c.phase = .repairing sender)
      (hsend : sender.step s.replicas e = some next) : Moved s (.send i e) (s.setSender i c next)
  | finish (i : ℕ) (c : GetCall) (sender : Sender) (hc : s.gets i = some c)
      (hphase : c.phase = .repairing sender) (htodo : sender.todo = []) :
      Moved s (.finish i) (s.setGet i { c with phase := .returned sender.failed })

variable {ring cfg} {s t : GetState} {e : GetEvent}

theorem respond_eq_some {i : ℕ} {c : GetCall} {resp : ReadResponse}
    (h : s.respond cfg i c resp = some t) : c.phase = .collecting ∧
      (resp.nodeID ∈ c.prefList ∧ resp.nodeID ∉ c.responses.map ReadResponse.nodeID) ∧
      t = s.setGet i (c.respond cfg.R resp) := by
  unfold respond at h
  split at h
  · rename_i hphase
    split_ifs at h with hnode
    exact ⟨hphase, hnode, (Option.some.inj h).symm⟩
  · cases h

theorem phase_of_sender {c : GetCall} {sender : Sender} (h : c.sender = some sender) :
    c.phase = .repairing sender := by
  unfold GetCall.sender at h
  split at h
  · rename_i sender' hphase
    rw [hphase, Option.some.inj h]
  · cases h
  · cases h

theorem moved_of_step (h : s.step ring cfg e = some t) : Moved ring cfg s e t := by
  cases e with
  | put u n env key siblings =>
    obtain ⟨⟨err, r⟩, hput, rfl⟩ := Option.map_eq_some_iff.1 h
    exact .put u n env key siblings err r hput
  | commit u =>
    obtain ⟨r, hcommit, rfl⟩ := Option.map_eq_some_iff.1 h
    exact .committed u r hcommit
  | get i coordinator key =>
    simp only [step] at h
    split at h
    · rename_i hnew hplan
      cases h
      exact .get i coordinator key _ hnew hplan
    · cases h
  | answer i n env stamp =>
    obtain ⟨c, hc, hresp⟩ := Option.bind_eq_some_iff.1 h
    obtain ⟨hphase, hnode, rfl⟩ := respond_eq_some hresp
    exact .respond i c _ _ hc hphase hnode (Or.inr ⟨n, env, stamp, rfl, rfl⟩)
  | failRead i n err =>
    obtain ⟨c, hc, hresp⟩ := Option.bind_eq_some_iff.1 h
    obtain ⟨hphase, hnode, rfl⟩ := respond_eq_some hresp
    exact .respond i c _ _ hc hphase hnode (Or.inl ⟨n, err, rfl, rfl⟩)
  | send i e =>
    obtain ⟨c, hc, h⟩ := Option.bind_eq_some_iff.1 h
    obtain ⟨sender, hsender, h⟩ := Option.bind_eq_some_iff.1 h
    obtain ⟨next, hsend, rfl⟩ := Option.map_eq_some_iff.1 h
    exact .sent i c e sender next hc (phase_of_sender hsender) hsend
  | finish i =>
    obtain ⟨c, hc, h⟩ := Option.bind_eq_some_iff.1 h
    obtain ⟨sender, hsender, h⟩ := Option.bind_eq_some_iff.1 h
    obtain ⟨htodo, h⟩ := Option.ite_none_right_eq_some.1 h
    cases h
    exact .finish i c sender hc (phase_of_sender hsender) htodo

end GetState

/-! ## Repairs without interruption -/

namespace GetState

variable {sum64 : Bytes → UInt64} (ring : HashRing sum64) (cfg : QuorumConfig) {s : GetState}
  {i : ℕ} {c : GetCall}

/-- A step of a sender, and of the calls that serve it, as one of the repairs of a call. -/
def ofLone (i : ℕ) : Sender.LoneEvent → GetEvent
  | .send e => .send i e
  | .commit t => .commit t

theorem setSender_setSender (s : GetState) (i : ℕ) (c : GetCall) (phase : GetPhase)
    (next next' : Replicas × Sender) :
    (s.setSender i c next).setSender i { c with phase } next' = s.setSender i c next' := by
  simp only [setSender, setGet, Function.update_idem]

theorem step_ofLone (s : GetState) (i : ℕ) (c : GetCall) (next : Replicas × Sender)
    (e : Sender.LoneEvent) : (s.setSender i c next).step ring cfg (ofLone i e) =
      (Sender.lone next e).map (s.setSender i c) := by
  cases e with
  | send e =>
    have hc : (s.setSender i c next).gets i = some { c with phase := .repairing next.2 } :=
      Function.update_self _ _ _
    have hsender : GetCall.sender { c with phase := .repairing next.2 } = some next.2 := rfl
    simp only [ofLone, step, hc, hsender, Option.bind_some, Sender.lone]
    exact congrArg (Option.map · _) (funext (s.setSender_setSender i c _ next))
  | commit t =>
    simp only [ofLone, step, Sender.lone, Option.map_map]
    rfl

/-- The repairs of a call, sent without interruption, are those of `TriggerRepair`. -/
theorem exec_triggerRepair (hroom : s.replicas.Roomy) (hc : s.gets i = some c)
    (hphase : c.phase = .repairing ⟨c.repairs, none, false⟩) (net : NodeID → ℕ → Request) :
    ∃ es t failed, exec (step ring cfg) s es = some t ∧
      t.stores = (ReadRepairer.mk c.coordinator true).triggerRepair true net c.key c.merged
        c.responses s.stores ∧
      t.gets i = some { c with phase := .returned failed } := by
  obtain ⟨es, r, failed, hes, -, hstores⟩ := Sender.exec_todo hroom c.repairs false
    fun w => net w.target
  have hs : s.setSender i c (s.replicas, ⟨c.repairs, none, false⟩) = s := by
    have hself : Function.update s.gets i (some c) = s.gets := by
      rw [Function.update_eq_self_iff]
      exact hc.symm
    simp only [setSender, setGet, ← hphase, hself]
  have hrepairs := exec_map (s.setSender i c) (ofLone i) (step_ofLone ring cfg s i c)
    (s.replicas, ⟨c.repairs, none, false⟩) es
  rw [hs, hes, Option.map_some] at hrepairs
  refine ⟨es.map (ofLone i) ++ [.finish i], ({ s with replicas := r }.setGet i
    { c with phase := .returned failed }), failed, ?_, ?_, Function.update_self _ _ _⟩
  · rw [exec_append, hrepairs]
    simp only [Option.bind_some, exec, step, setSender, setGet, Function.update_self,
      GetCall.sender, if_true, Function.update_idem]
  · refine hstores.trans ?_
    rw [GetCall.repairs, List.foldl_map, List.foldl_filter]
    change _ = c.responses.foldl _ s.stores
    congr 1
    funext stores resp
    unfold ReadRepairer.repairResponse ReadRepairer.sendRepair RemoteWrite.sent
    by_cases hself : resp.nodeID = (c.coordinator : NodeID)
    · simp [hself]
    · simp [hself, Option.isNone_iff_eq_none]

end GetState

/-! ## Stores -/

/-- What is in the stores and is sent: it has valid node ids, does not expire and is not deleted. -/
def Alive (_ : NodeID) (_ : Bytes) (x : Sibling) : Prop :=
  Lasting x ∧ x.vclock.Readable ∧ x.tombstone = false

/-- Versions that can be sent to a peer and stored there. -/
structure Sendable (x : Sibling) : Prop where
  ids : x.vclock.ValidIDs
  readable : x.vclock.Readable
  live : x.tombstone = false

theorem Sendable.of_view {x y : Sibling} (h : Sendable x) (e : x.view = y.view) : Sendable y := by
  have hcounters : x.vclock.counters = y.vclock.counters := (Prod.mk.inj (Prod.mk.inj e).2).1
  exact ⟨h.ids.of_counters hcounters, h.readable.of_counters hcounters,
    (tombstone_of_view e).symm.trans h.live⟩

theorem Alive.sendable {n : NodeID} {key : Bytes} {x : Sibling} (h : Alive n key x) : Sendable x :=
  ⟨h.1.2, h.2.1, h.2.2⟩

theorem Sendable.sends {x : Sibling} (h : Sendable x) (n : NodeID) (key : Bytes) :
    Sender.Sends Alive n key x := by
  refine ⟨h.ids, fun stamp => ?_⟩
  have hcounters : (x.received stamp).vclock.counters = x.vclock.counters := by
    rw [counters_received, sentCounters_eq_iff.2 h.ids.textIDs]
  exact ⟨⟨rfl, h.ids.of_counters hcounters.symm⟩, h.readable.of_counters hcounters.symm, h.live⟩

theorem Coordinator.nodeID_readReplica {sum64 : Bytes → UInt64} (c : Coordinator sum64)
    (env : CallEnv) (stamp : ℕ → NodeID → Int64) (store : Storage) (key : Bytes) (n : NodeID) :
    (c.readReplica env stamp store key n).nodeID = n := by
  unfold readReplica
  split_ifs
  · split <;> rfl
  · rfl

/-- What a store answers that holds nothing deleted: versions like its own, and one for each. -/
theorem Coordinator.readReplica_of_live {sum64 : Bytes → UInt64} (c : Coordinator sum64)
    {env : CallEnv} {store : Storage} {key : Bytes} (hsound : store.Sound)
    (hlive : ∀ x ∈ store.held key, x.tombstone = false) (hwell : store.readsWell env key = true)
    (stamp : ℕ → NodeID → Int64) (n : NodeID) :
    (∀ x ∈ (c.readReplica env stamp store key n).siblings,
        ∃ y ∈ store.held key, y.view = x.view) ∧
      ∀ y ∈ store.held key,
        ∃ x ∈ (c.readReplica env stamp store key n).siblings, y.view = x.view := by
  obtain ⟨hstored, hlast⟩ := hsound.stored_eq key
  have httl : ∀ set, store.stored key = .ok set → NoTTL set := by
    intro set hset x hx
    obtain rfl := Except.ok.inj (hstored.symm.trans hset)
    exact (hlast x hx).1
  obtain ⟨set, hset, hview⟩ := c.siblings_readReplica hwell httl stamp n
  obtain rfl := Except.ok.inj (hstored.symm.trans hset)
  constructor
  · intro x hx
    have hmem := List.mem_map_of_mem (f := Sibling.view) hx
    rw [hview] at hmem
    obtain ⟨y, hy, e⟩ := List.mem_map.1 hmem
    exact ⟨y, mem_of_mem_visible hy, e⟩
  · intro y hy
    have hmem := List.mem_map_of_mem (f := Sibling.view)
      (mem_visible_of_live hy (hlive y hy) c.nodeID n)
    rw [← hview] at hmem
    obtain ⟨x, hx, e⟩ := List.mem_map.1 hmem
    exact ⟨x, hx, e.symm⟩

/-! ## During a run -/

namespace GetState

variable {sum64 : Bytes → UInt64} {ring : HashRing sum64} {cfg : QuorumConfig} {s t : GetState}
  {e : GetEvent}

/-- The stores and the calls on them go on from one state to another. -/
structure Later (s t : GetState) : Prop where
  stores : ∀ n, (s.stores n).Advances (t.stores n)
  calls : s.replicas.Extends t.replicas

/-- What holds of a call. -/
structure Honest (ring : HashRing sum64) (cfg : QuorumConfig) (s : GetState) (c : GetCall) :
    Prop where
  planned : (Coordinator.mk c.coordinator ring cfg).planGet c.key = .ok c.prefList
  nodup : (c.responses.map ReadResponse.nodeID).Nodup
  subset : ∀ resp ∈ c.responses, resp.nodeID ∈ c.prefList
  sendable : ∀ resp ∈ c.responses, ∀ x ∈ resp.siblings, Sendable x
  kept : ∀ resp ∈ c.responses, ∀ x ∈ resp.siblings,
    Covers Sibling.vclock ((s.stores resp.nodeID).held c.key) x.vclock
  quorum : c.phase ≠ .collecting → cfg.R ≤ readSuccesses c.responses
  sender : ∀ sender, c.phase = .repairing sender → sender.Valid Alive s.replicas
  /-- What is not left to be sent has arrived. -/
  owed : ∀ sender, c.phase = .repairing sender → sender.failed = false →
    ∀ n ∈ c.settled, ∀ m ∈ c.merged, sender.Owes n c.key m.vclock ∨
      Covers Sibling.vclock ((s.stores n).held c.key) m.vclock
  repaired : c.phase = .returned false → ∀ n ∈ c.settled, ∀ m ∈ c.merged,
    Covers Sibling.vclock ((s.stores n).held c.key) m.vclock

/-- What holds of a state. -/
structure Sane (ring : HashRing sum64) (cfg : QuorumConfig) (s : GetState) : Prop where
  replicas : s.replicas.Clean Alive
  calls : ∀ i c, s.gets i = some c → s.Honest ring cfg c

theorem Sane.later_of_replicas (h : s.Sane ring cfg) (hreplicas : t.replicas = s.replicas) :
    s.Later t := by
  constructor
  · intro n
    unfold stores
    rw [hreplicas]
    exact (h.replicas.sound n).advances_self
  · rw [hreplicas]
    exact Replicas.Extends.refl _

/-- The stores of a call may go on. -/
theorem Honest.mono {c : GetCall} (h : s.Honest ring cfg c) (hlater : s.Later t) :
    t.Honest ring cfg c where
  planned := h.planned
  nodup := h.nodup
  subset := h.subset
  sendable := h.sendable
  kept := fun resp hresp x hx => (hlater.stores resp.nodeID).2 _ _ (h.kept resp hresp x hx)
  quorum := h.quorum
  sender := fun sender hphase => (h.sender sender hphase).mono hlater.calls
  owed := fun sender hphase hfailed n hn m hm =>
    (h.owed sender hphase hfailed n hn m hm).imp_right ((hlater.stores n).2 _ _)
  repaired := fun hphase n hn m hm => (hlater.stores n).2 _ _ (h.repaired hphase n hn m hm)

theorem Honest.sendable_merged {c : GetCall} (h : s.Honest ring cfg c) {m : Sibling}
    (hm : m ∈ c.merged) : Sendable m := by
  obtain ⟨resp, hresp, hx⟩ := List.mem_flatMap.1 (mem_of_mem_mergeAllSiblings hm)
  exact h.sendable resp hresp m hx

/-- A replica that needs no repair covers what is merged. -/
theorem Honest.covers_of_not_needsRepair {c : GetCall} (h : s.Honest ring cfg c)
    {resp : ReadResponse} (hresp : resp ∈ c.responses) (herr : resp.error = none)
    (hneeds : checkNeedsRepair c.merged resp.siblingSet = false) {m : Sibling} (hm : m ∈ c.merged) :
    Covers Sibling.vclock ((s.stores resp.nodeID).held c.key) m.vclock := by
  cases hset : resp.siblingSet with
  | none =>
    rw [hset] at hneeds
    cases hneeds
  | some set =>
    rw [hset, checkNeedsRepair, List.any_eq_false] at hneeds
    have hcovered := hneeds m hm
    rw [Bool.not_eq_true', Bool.not_eq_false, isDominatedOrEqual_iff] at hcovered
    obtain ⟨x, hx, hle⟩ := hcovered
    have hmem : x ∈ resp.siblings := by
      rw [ReadResponse.siblings, herr, hset]
      exact hx
    obtain ⟨y, hy, hxy⟩ := h.kept resp hresp x hmem
    exact ⟨y, hy, hle.trans hxy⟩

/-- A call that still collects is owed nothing. -/
theorem Honest.of_collecting {c : GetCall} (hphase : c.phase = .collecting)
    (planned : (Coordinator.mk c.coordinator ring cfg).planGet c.key = .ok c.prefList)
    (nodup : (c.responses.map ReadResponse.nodeID).Nodup)
    (subset : ∀ resp ∈ c.responses, resp.nodeID ∈ c.prefList)
    (sendable : ∀ resp ∈ c.responses, ∀ x ∈ resp.siblings, Sendable x)
    (kept : ∀ resp ∈ c.responses, ∀ x ∈ resp.siblings,
      Covers Sibling.vclock ((s.stores resp.nodeID).held c.key) x.vclock) :
    s.Honest ring cfg c where
  planned := planned
  nodup := nodup
  subset := subset
  sendable := sendable
  kept := kept
  quorum := fun hne => absurd hphase hne
  sender := fun sender h => by rw [hphase] at h; cases h
  owed := fun sender h => by rw [hphase] at h; cases h
  repaired := fun h => by rw [hphase] at h; cases h

/-- The repairs of a call: a replica that is settled covers what is merged, or is to be sent it. -/
theorem Honest.owes_repairs {c : GetCall} (h : s.Honest ring cfg c) {n : NodeID}
    (hn : n ∈ c.settled) {m : Sibling} (hm : m ∈ c.merged) :
    Sender.Owes ⟨c.repairs, none, false⟩ n c.key m.vclock ∨
      Covers Sibling.vclock ((s.stores n).held c.key) m.vclock := by
  obtain ⟨r, hr, rfl⟩ := List.mem_map.1 hn
  obtain ⟨hr, hcond⟩ := List.mem_filter.1 hr
  obtain ⟨herr, hsettled⟩ := of_decide_eq_true hcond
  cases hneeds : checkNeedsRepair c.merged r.siblingSet with
  | false => exact Or.inr (h.covers_of_not_needsRepair hr herr hneeds hm)
  | true =>
    refine Or.inl ⟨⟨r.nodeID, c.key, c.merged⟩, List.mem_map.2 ⟨r, List.mem_filter.2 ⟨hr, ?_⟩, rfl⟩,
      rfl, rfl, m, hm, le_rfl⟩
    refine decide_eq_true ⟨herr, hneeds, hsettled.resolve_right ?_⟩
    rw [hneeds]
    nofun

/-- One more response keeps the call honest. -/
theorem Honest.respond {c : GetCall} (h : s.Honest ring cfg c) (hphase : c.phase = .collecting)
    {resp : ReadResponse}
    (hnode : resp.nodeID ∈ c.prefList ∧ resp.nodeID ∉ c.responses.map ReadResponse.nodeID)
    (hsend : ∀ x ∈ resp.siblings, Sendable x) (hkept : ∀ x ∈ resp.siblings,
      Covers Sibling.vclock ((s.stores resp.nodeID).held c.key) x.vclock) :
    s.Honest ring cfg (c.respond cfg.R resp) := by
  obtain ⟨hnodup, hsub⟩ := Cluster.one_each_append h.nodup h.subset hnode
  let c' : GetCall := { c with responses := c.responses ++ [resp] }
  have hcollecting : s.Honest ring cfg c' := by
    refine .of_collecting hphase h.planned hnodup hsub (fun r hr => ?_) fun r hr => ?_
    · rcases List.mem_append.1 hr with hr | hr
      · exact h.sendable r hr
      · rw [List.mem_singleton.1 hr]
        exact hsend
    · rcases List.mem_append.1 hr with hr | hr
      · exact h.kept r hr
      · rw [List.mem_singleton.1 hr]
        exact hkept
  unfold GetCall.respond
  simp only
  split_ifs with hR
  · refine ⟨h.planned, hnodup, hsub, hcollecting.sendable, hcollecting.kept, fun _ => hR, ?_, ?_,
      fun hreturned => by cases hreturned⟩
    · rintro sender ⟨⟩
      refine Sender.valid_of_todo fun w hw x hx => ?_
      obtain ⟨r, -, rfl⟩ := List.mem_map.1 hw
      exact (hcollecting.sendable_merged hx).sends _ _
    · rintro sender ⟨⟩ - n hn m hm
      exact hcollecting.owes_repairs hn hm
  · exact hcollecting

theorem Sane.later (h : s.Sane ring cfg) (hclean : t.replicas.Clean Alive) (hlater : s.Later t)
    (hgets : t.gets = s.gets) : t.Sane ring cfg where
  replicas := hclean
  calls := fun i c hc => (h.calls i c (hgets ▸ hc)).mono hlater

theorem Sane.setGet (h : s.Sane ring cfg) (i : ℕ) {c : GetCall} (hc : s.Honest ring cfg c) :
    (s.setGet i c).Sane ring cfg where
  replicas := h.replicas
  calls := fun j c' hc' => by
    have hlater : s.Later (s.setGet i c) := h.later_of_replicas rfl
    rcases update_eq_some hc' with ⟨-, hnew⟩ | hold
    · obtain rfl := Option.some.inj hnew
      exact hc.mono hlater
    · exact (h.calls j c' hold).mono hlater

/-- The response of an event. -/
theorem Sane.response (h : s.Sane ring cfg) (hgentle : s.Gentle e) {i : ℕ} {c : GetCall}
    (hc : s.gets i = some c) {resp : ReadResponse}
    (hresp : (∃ n err, e = .failRead i n err ∧ resp = ⟨n, none, some err⟩) ∨
      ∃ n env stamp, e = .answer i n env stamp ∧ resp =
        (Coordinator.mk c.coordinator ring cfg).readReplica env stamp (s.stores n) c.key n) :
    (∀ x ∈ resp.siblings, ∃ y ∈ (s.stores resp.nodeID).held c.key, y.view = x.view) ∧
      (resp.error = none → ∀ y ∈ (s.stores resp.nodeID).held c.key,
        ∃ x ∈ resp.siblings, y.view = x.view) := by
  rcases hresp with ⟨n, err, -, rfl⟩ | ⟨n, env, stamp, rfl, rfl⟩
  · constructor
    · intro x hx
      cases hx
    · intro herr
      cases herr
  · obtain ⟨hfrom, hall⟩ := Coordinator.readReplica_of_live ⟨c.coordinator, ring, cfg⟩
      (h.replicas.sound n) (fun x hx => (h.replicas.held n c.key x hx).2.2) (hgentle c hc) stamp n
    rw [Coordinator.nodeID_readReplica]
    exact ⟨hfrom, fun _ => hall⟩

/-- The stores after a step. -/
theorem Sane.replicas_moved (h : s.Sane ring cfg) (hgentle : s.Gentle e)
    (hmoved : Moved ring cfg s e t) : t.replicas.Clean Alive ∧ s.Later t := by
  cases hmoved with
  | put u n env key siblings err r hput =>
    obtain ⟨hstores, hext, -⟩ := Replicas.beginPut_cases hput
    refine ⟨h.replicas.beginPut hgentle.1 hgentle.2 hput, fun n => ?_, hext⟩
    simp only [stores, hstores]
    exact (h.replicas.sound n).advances_self
  | committed u r hcommit =>
    obtain ⟨hclean, hadv⟩ := h.replicas.commit (fun _ _ _ hx => ⟨hx.1, hx.2.1⟩) hgentle hcommit
    obtain ⟨-, -, hext, -⟩ := Replicas.commit_cases hcommit
    exact ⟨hclean, hadv, hext⟩
  | sent i c e sender next hc hphase hsend =>
    have hsender : c.sender = some sender := by rw [GetCall.sender, hphase]
    obtain ⟨hstores, hext⟩ := Sender.stores_step hsend
    refine ⟨Sender.clean_step h.replicas ((h.calls i c hc).sender sender hphase)
      (hgentle c hc sender hsender) hsend, fun n => ?_, hext⟩
    have hsame : (s.setSender i c next).stores n = s.stores n := congrFun hstores n
    rw [hsame]
    exact (h.replicas.sound n).advances_self
  | get => exact ⟨h.replicas, h.later_of_replicas rfl⟩
  | respond => exact ⟨h.replicas, h.later_of_replicas rfl⟩
  | finish => exact ⟨h.replicas, h.later_of_replicas rfl⟩

/-- The repairs of a call go on. -/
theorem Honest.sent {c : GetCall} {sender : Sender} {e : SenderEvent} {next : Replicas × Sender}
    {i : ℕ} (h : s.Sane ring cfg) (hc : s.gets i = some c) (hphase : c.phase = .repairing sender)
    (hsend : sender.step s.replicas e = some next) (hlater : s.Later (s.setSender i c next)) :
    (s.setSender i c next).Honest ring cfg { c with phase := .repairing next.2 } := by
  have hcall := h.calls i c hc
  have hmono := hcall.mono hlater
  have hne : c.phase ≠ .collecting := by rw [hphase]; nofun
  refine ⟨hmono.planned, hmono.nodup, hmono.subset, hmono.sendable, hmono.kept,
    fun _ => hmono.quorum hne, ?_, ?_, fun hreturned => by cases hreturned⟩
  · rintro sender' ⟨⟩
    exact (hcall.sender sender hphase).step hsend
  · rintro sender' ⟨⟩ hfailed n hn m hm
    rcases hmono.owed sender hphase (Sender.failed_step hsend hfailed) n hn m hm with howes | hcov
    · exact Sender.owes_step h.replicas (hcall.sender sender hphase) hsend hfailed howes
    · exact Or.inr hcov

/-- A call returns. -/
theorem Honest.finish {c : GetCall} {sender : Sender} (h : s.Honest ring cfg c)
    (hphase : c.phase = .repairing sender) (htodo : sender.todo = []) :
    s.Honest ring cfg { c with phase := .returned sender.failed } := by
  have hne : c.phase ≠ .collecting := by rw [hphase]; nofun
  refine ⟨h.planned, h.nodup, h.subset, h.sendable, h.kept, fun _ => h.quorum hne,
    fun _ hsender => (by cases hsender), fun _ hsender => (by cases hsender),
    fun hreturned n hn m hm => ?_⟩
  rcases h.owed sender hphase (GetPhase.returned.inj hreturned) n hn m hm with ⟨w, hw, -⟩ | hcov
  · rw [htodo] at hw
    cases hw
  · exact hcov

theorem Sane.step (h : s.Sane ring cfg) (hgentle : s.Gentle e) (hmoved : Moved ring cfg s e t) :
    t.Sane ring cfg ∧ s.Later t := by
  obtain ⟨hclean, hlater⟩ := h.replicas_moved hgentle hmoved
  refine ⟨?_, hlater⟩
  cases hmoved with
  | put => exact h.later hclean hlater rfl
  | committed => exact h.later hclean hlater rfl
  | get i coordinator key prefList hnew hplan =>
    refine h.setGet i (.of_collecting rfl hplan List.nodup_nil ?_ ?_ ?_)
    · exact List.forall_mem_nil _
    · exact List.forall_mem_nil _
    · exact List.forall_mem_nil _
  | respond i c e resp hc hphase hnode hresp =>
    obtain ⟨hfrom, -⟩ := h.response hgentle hc hresp
    refine h.setGet i ((h.calls i c hc).respond hphase hnode ?_ ?_)
    · intro x hx
      obtain ⟨y, hy, hview⟩ := hfrom x hx
      exact (h.replicas.held resp.nodeID c.key y hy).sendable.of_view hview
    · intro x hx
      obtain ⟨y, hy, hview⟩ := hfrom x hx
      exact ⟨y, hy, le_of_view hview.symm⟩
  | sent i c e sender next hc hphase hsend =>
    let u : GetState := { s with replicas := next.1 }
    have hu : u.Sane ring cfg := h.later hclean ⟨hlater.stores, hlater.calls⟩ rfl
    have hsent := Honest.sent h hc hphase hsend hlater
    exact hu.setGet i (hsent.mono
      ⟨fun n => (hclean.sound n).advances_self, Replicas.Extends.refl next.1⟩)
  | finish i c sender hc hphase htodo =>
    exact h.setGet i ((h.calls i c hc).finish hphase htodo)

/-! ## A later read -/

/-- The nodes cover a version, and a call has seen it on those of them that have answered it. -/
structure Seen (nodes : List NodeID) (key : Bytes) (vc : VectorClock) (j : ℕ) (s : GetState) :
    Prop where
  stores : ∀ n ∈ nodes, Covers Sibling.vclock ((s.stores n).held key) vc
  responses : ∀ c, s.gets j = some c → c.key = key → ∀ resp ∈ c.responses, resp.error = none →
    resp.nodeID ∈ nodes → Covers Sibling.vclock resp.siblings vc

variable {nodes : List NodeID} {key : Bytes} {vc : VectorClock} {j : ℕ}

/-- A step that gives calls no new responses. -/
theorem Seen.later (h : Seen nodes key vc j s) (hlater : s.Later t)
    (hgets : ∀ c, t.gets j = some c → c.responses = [] ∨
      ∃ c', s.gets j = some c' ∧ c.key = c'.key ∧ c.responses = c'.responses) :
    Seen nodes key vc j t := by
  constructor
  · exact fun n hn => (hlater.stores n).2 _ _ (h.stores n hn)
  · intro c hc hkey resp hresp
    rcases hgets c hc with hnil | ⟨c', hc', hsame, hresponses⟩
    · rw [hnil] at hresp
      cases hresp
    · rw [hresponses] at hresp
      exact h.responses c' hc' (hsame ▸ hkey) resp hresp

theorem Seen.step (h : Seen nodes key vc j s) (hs : s.Sane ring cfg) (hgentle : s.Gentle e)
    (hmoved : Moved ring cfg s e t) : Seen nodes key vc j t := by
  have hlater := (hs.step hgentle hmoved).2
  -- a call that is put back with its key and its responses
  have hkeep : ∀ {i : ℕ} {c c' : GetCall} {u : GetState}, s.gets i = some c → u.gets = s.gets →
      c'.key = c.key → c'.responses = c.responses → ∀ d, (u.setGet i c').gets j = some d →
      d.responses = [] ∨
        ∃ d', s.gets j = some d' ∧ d.key = d'.key ∧ d.responses = d'.responses := by
    intro i c c' u hc hu hkey hresponses d hd
    rcases update_eq_some hd with ⟨rfl, hnew⟩ | hold
    · obtain rfl := Option.some.inj hnew
      exact Or.inr ⟨c, hc, hkey, hresponses⟩
    · exact Or.inr ⟨d, hu ▸ hold, rfl, rfl⟩
  cases hmoved with
  | put => exact h.later hlater fun c hc => Or.inr ⟨c, hc, rfl, rfl⟩
  | committed => exact h.later hlater fun c hc => Or.inr ⟨c, hc, rfl, rfl⟩
  | get i coordinator key prefList hnew hplan =>
    refine h.later hlater fun c hc => ?_
    rcases update_eq_some hc with ⟨-, hc⟩ | hc
    · obtain rfl := Option.some.inj hc
      exact Or.inl rfl
    · exact Or.inr ⟨c, hc, rfl, rfl⟩
  | respond i c e resp hc hphase hnode hresp =>
    refine ⟨h.stores, fun d hd hkey r hr herr hr' => ?_⟩
    rcases update_eq_some hd with ⟨rfl, hnew⟩ | hold
    · obtain rfl := Option.some.inj hnew
      have hckey : c.key = key := by
        rw [← hkey, GetCall.key_respond]
      rw [GetCall.responses_respond] at hr
      rcases List.mem_append.1 hr with hr | hr
      · exact h.responses c hc hckey r hr herr hr'
      · rw [List.mem_singleton.1 hr] at herr hr' ⊢
        obtain ⟨y, hy, hle⟩ := h.stores _ hr'
        rw [← hckey] at hy
        obtain ⟨x, hx, hview⟩ := (hs.response hgentle hc hresp).2 herr y hy
        exact ⟨x, hx, hle.trans (le_of_view hview)⟩
    · exact h.responses d hold hkey r hr herr hr'
  | sent i c e sender next hc =>
    exact h.later hlater (hkeep (u := { s with replicas := next.1 }) hc rfl rfl rfl)
  | finish i c sender hc => exact h.later hlater (hkeep hc rfl rfl rfl)

/-- Only the coordinator can be left out of the repairs. -/
theorem Honest.readSuccesses_le {c : GetCall} (h : s.Honest ring cfg c) :
    readSuccesses c.responses ≤ c.settled.length + 1 := by
  have hcount :
      c.responses.countP (fun resp => decide (resp.nodeID = (c.coordinator : NodeID))) ≤ 1 := by
    have hle := List.nodup_iff_count_le_one.1 h.nodup (c.coordinator : NodeID)
    rw [List.count, List.countP_map] at hle
    refine le_trans (List.countP_mono_left fun resp _ heq => ?_) hle
    simpa using heq
  rw [GetCall.settled, List.length_map, ← List.countP_eq_length_filter]
  refine le_trans (countP_le_add ?_ c.responses) (Nat.add_le_add_left hcount _)
  intro resp herr
  by_cases hn : resp.nodeID = (c.coordinator : NodeID)
  · exact Or.inr (decide_eq_true hn)
  · exact Or.inl (decide_eq_true ⟨Option.isNone_iff_eq_none.1 herr, Or.inl hn⟩)

theorem readSuccesses_le_of_current {c : GetCall} (h : c.CoordinatorCurrent) :
    readSuccesses c.responses ≤ c.settled.length := by
  rw [GetCall.settled, List.length_map, ← List.countP_eq_length_filter]
  refine List.countP_mono_left fun resp hresp herr => ?_
  have hnone := Option.isNone_iff_eq_none.1 herr
  refine decide_eq_true ⟨hnone, ?_⟩
  by_cases hn : resp.nodeID = (c.coordinator : NodeID)
  · exact Or.inr (h resp hresp hnone hn)
  · exact Or.inl hn

theorem Honest.nodup_settled {c : GetCall} (h : s.Honest ring cfg c) :
    c.settled.Nodup ∧ c.settled ⊆ c.prefList := by
  constructor
  · exact h.nodup.sublist (List.filter_sublist.map _)
  · intro n hn
    obtain ⟨resp, hresp, rfl⟩ := List.mem_map.1 hn
    exact h.subset resp (List.mem_filter.1 hresp).1

/-- A call that has its quorum has heard one of the nodes, if they are enough. -/
theorem Honest.exists_response {c : GetCall} (h : s.Honest ring cfg c)
    (hphase : c.phase ≠ .collecting) {nodes : List NodeID} (hnodup : nodes.Nodup)
    (hsub : nodes ⊆ c.prefList) (hlen : c.prefList.length < nodes.length + cfg.R) :
    ∃ resp ∈ c.responses, resp.error = none ∧ resp.nodeID ∈ nodes := by
  have hquorum := h.quorum hphase
  obtain ⟨answered, hanswered⟩ : ∃ l, l = c.responses.filter fun resp => resp.error.isNone :=
    ⟨_, rfl⟩
  have hcount : readSuccesses c.responses = (answered.map ReadResponse.nodeID).length := by
    rw [List.length_map, readSuccesses, List.countP_eq_length_filter, hanswered]
  have hmeets : AtLeast nodes.length c.prefList (· ∈ nodes) :=
    ⟨nodes, hnodup, hsub, le_rfl, fun _ hn => hn⟩
  have hsubset : answered.map ReadResponse.nodeID ⊆ c.prefList := by
    intro n hn
    obtain ⟨resp, hresp, rfl⟩ := List.mem_map.1 hn
    rw [hanswered] at hresp
    exact h.subset resp (List.mem_filter.1 hresp).1
  have hone : (answered.map ReadResponse.nodeID).Nodup := by
    rw [hanswered]
    exact h.nodup.sublist (List.filter_sublist.map _)
  obtain ⟨n, hn, hnodes⟩ := hmeets.meets hone hsubset (by omega)
  obtain ⟨resp, hresp, rfl⟩ := List.mem_map.1 hn
  rw [hanswered] at hresp
  obtain ⟨hmem, herr⟩ := List.mem_filter.1 hresp
  exact ⟨resp, hmem, Option.isNone_iff_eq_none.1 herr, hnodes⟩

/-- What a call returns when it has its quorum and nothing it has seen is deleted. -/
theorem Honest.finishGet {c : GetCall} (h : s.Honest ring cfg c) (hphase : c.phase ≠ .collecting) :
    (Coordinator.mk c.coordinator ring cfg).finishGet c.prefList c.responses =
      if c.merged = [] then .error .keyNotFound else .ok c.merged := by
  have hlive : filterTombstones c.merged = c.merged := by
    refine List.filter_eq_self.2 fun m hm => ?_
    rw [(h.sendable_merged hm).live]
    rfl
  rw [Coordinator.finishGet_of_quorum (h.quorum hphase), ← mergeAllSiblings_eq_maximals]
  change (if filterTombstones c.merged = [] then _ else Except.ok (filterTombstones c.merged)) = _
  rw [hlive]

variable {s₀ s₁ s₂ : GetState}

theorem sane_of_runs (hclean : s₀.replicas.Clean Alive) (hidle : ∀ i, s₀.gets i = none)
    (hrun : Runs (GetState.step ring cfg) Gentle s₀ s₁) : s₁.Sane ring cfg := by
  refine hrun.invariant _ ⟨hclean, fun i c hc => ?_⟩ fun s e t hs hok hstep =>
    (hs.step hok (moved_of_step hstep)).1
  rw [hidle] at hc
  cases hc

/-- Reads that repair synchronously are monotonic.  A call has returned versions, and its repairs
have succeeded.  Whatever other calls and writes have gone on, every call that begins later returns
versions that cover them, if read quorums meet in a replica other than the first coordinator's, or in
any replica when the first coordinator's own answer was up to date. -/
theorem reads_are_monotonic {i j : ℕ} {c₁ c₂ : GetCall} {l₁ : List Sibling}
    (hclean : s₀.replicas.Clean Alive) (hidle : ∀ i, s₀.gets i = none)
    (hrun₁ : Runs (GetState.step ring cfg) Gentle s₀ s₁)
    (hc₁ : s₁.gets i = some c₁) (hreturned : c₁.phase = .returned false)
    (hl₁ : (Coordinator.mk c₁.coordinator ring cfg).finishGet c₁.prefList c₁.responses = .ok l₁)
    (hquorum : (c₁.prefList.length : ℤ) + 1 < 2 * cfg.R ∨
      (c₁.prefList.length : ℤ) < 2 * cfg.R ∧ c₁.CoordinatorCurrent)
    (hnew : s₁.gets j = none) (hrun₂ : Runs (GetState.step ring cfg) Gentle s₁ s₂)
    (hc₂ : s₂.gets j = some c₂) (hkey : c₂.key = c₁.key) (hdone : c₂.phase ≠ .collecting) :
    ∃ l₂, (Coordinator.mk c₂.coordinator ring cfg).finishGet c₂.prefList c₂.responses = .ok l₂ ∧
      ∀ m ∈ l₁, Covers Sibling.vclock l₂ m.vclock := by
  have hsane₁ := sane_of_runs hclean hidle hrun₁
  have hone := hsane₁.calls i c₁ hc₁
  have hphase₁ : c₁.phase ≠ .collecting := by rw [hreturned]; nofun
  have hsane₂ : s₂.Sane ring cfg := sane_of_runs hclean hidle (hrun₁.trans hrun₂)
  have htwo := hsane₂.calls j c₂ hc₂
  have hprefList : c₂.prefList = c₁.prefList := by
    have hplanned := htwo.planned
    rw [hkey] at hplanned
    exact Except.ok.inj (hplanned.symm.trans hone.planned)
  -- the settled replicas are enough to meet a read quorum
  have hlen : c₂.prefList.length < c₁.settled.length + cfg.R := by
    have hR := hone.quorum hphase₁
    rw [hprefList]
    rcases hquorum with hmany | ⟨hmany, hcurrent⟩
    · have hle := hone.readSuccesses_le
      omega
    · have hle := readSuccesses_le_of_current hcurrent
      omega
  have hcovers : ∀ m ∈ c₁.merged, Covers Sibling.vclock c₂.merged m.vclock := by
    intro m hm
    have hstart : Seen c₁.settled c₁.key m.vclock j s₁ := by
      refine ⟨fun n hn => hone.repaired hreturned n hn m hm, fun c hc => ?_⟩
      rw [hnew] at hc
      cases hc
    have hseen := hrun₂.invariant (fun s => s.Sane ring cfg ∧ Seen c₁.settled c₁.key m.vclock j s)
      ⟨hsane₁, hstart⟩ fun s e t hs hok hstep => ⟨(hs.1.step hok (moved_of_step hstep)).1,
        hs.2.step hs.1 hok (moved_of_step hstep)⟩
    obtain ⟨resp, hresp, herr, hnode⟩ := htwo.exists_response hdone hone.nodup_settled.1
      (hprefList ▸ hone.nodup_settled.2) hlen
    obtain ⟨x, hx, hle⟩ := hseen.2.responses c₂ hc₂ hkey resp hresp herr hnode
    obtain ⟨y, hy, hxy⟩ := covers_mergeAllSiblings (List.mem_flatMap.2 ⟨resp, hresp, hx⟩)
    exact ⟨y, hy, hle.trans hxy⟩
  rw [hone.finishGet hphase₁] at hl₁
  split_ifs at hl₁ with hnil
  obtain rfl := Except.ok.inj hl₁
  obtain ⟨m, rest, hcons⟩ := List.exists_cons_of_ne_nil hnil
  obtain ⟨x, hx, -⟩ := hcovers m (hcons ▸ List.mem_cons_self)
  refine ⟨c₂.merged, ?_, hcovers⟩
  rw [htwo.finishGet hdone, if_neg (List.ne_nil_of_mem hx)]

theorem clean_new (opts : StorageOptions) :
    (Replicas.idle fun _ => Storage.new opts).Clean Alive := by
  refine Replicas.clean_idle (fun _ => List.forall_mem_nil _) fun n key x hx => ?_
  cases hx

/-- Three replicas, of which two answer a read. -/
def threeReplicas : QuorumConfig := ⟨3, 2, 2, false⟩

/-- The version is on `n1` only; a read by `n3` finds it there and repairs `n2`. -/
def repairingRead : List GetEvent :=
  [.put 0 n1 (CallEnv.steady 100) [107] [versionBy n1 1 100], .commit 0, .get 0 n3 [107],
    .answer 0 n2 (CallEnv.steady 100) fun _ _ => 100,
    .answer 0 n1 (CallEnv.steady 100) fun _ _ => 100,
    .send 0 (.deliver 1 (fun _ => 100) (CallEnv.steady 100)), .commit 1, .send 0 .learn,
    .send 0 .next, .finish 0]

def afterRepair : GetState :=
  stateAfter (GetState.step (sampleRing [n1, n2, n3]) threeReplicas)
    ⟨Replicas.idle fun _ => Storage.new defaultStorageOptions, fun _ => none⟩ repairingRead

/-- A later read by `n1` from the other two. -/
def afterLaterRead : GetState :=
  stateAfter (GetState.step (sampleRing [n1, n2, n3]) threeReplicas) afterRepair
    [.get 1 n1 [107], .answer 1 n2 (CallEnv.steady 100) fun _ _ => 100,
      .answer 1 n3 (CallEnv.steady 100) fun _ _ => 100]

set_option maxRecDepth 8000 in
/-- The later read returns the version although it does not ask `n1`. -/
theorem reads_are_monotonic_after_repair : ∃ c₁ c₂ l₂, afterRepair.gets 0 = some c₁ ∧
    afterLaterRead.gets 1 = some c₂ ∧ c₂.responses.map ReadResponse.nodeID = [↑n2, ↑n3] ∧
    (Coordinator.mk c₂.coordinator (sampleRing [n1, n2, n3]) threeReplicas).finishGet c₂.prefList
      c₂.responses = .ok l₂ ∧ Covers Sibling.vclock l₂ (versionBy n1 1 100).vclock := by
  have hrun₁ : Runs (GetState.step (sampleRing [n1, n2, n3]) threeReplicas) Gentle
      ⟨Replicas.idle fun _ => Storage.new defaultStorageOptions, fun _ => none⟩ afterRepair :=
    Runs.stateAfter (by decide +kernel)
  have hrun₂ : Runs (GetState.step (sampleRing [n1, n2, n3]) threeReplicas) Gentle afterRepair
      afterLaterRead :=
    Runs.stateAfter (by decide +kernel)
  obtain ⟨c₁, hc₁⟩ : ∃ c, afterRepair.gets 0 = some c :=
    Option.isSome_iff_exists.1 (by decide +kernel)
  obtain ⟨c₂, hc₂⟩ : ∃ c, afterLaterRead.gets 1 = some c :=
    Option.isSome_iff_exists.1 (by decide +kernel)
  have hone : ∀ c ∈ afterRepair.gets 0, c.phase = .returned false ∧
      c.key = [107] ∧ (c.prefList.length : ℤ) < 2 * threeReplicas.R ∧ c.CoordinatorCurrent ∧
      ((Coordinator.mk c.coordinator (sampleRing [n1, n2, n3]) threeReplicas).finishGet c.prefList
        c.responses).toOption = some [versionBy n1 1 100] := by decide +kernel
  have htwo : ∀ c ∈ afterLaterRead.gets 1, c.phase ≠ .collecting ∧ c.key = [107] ∧
      c.responses.map ReadResponse.nodeID = [↑n2, ↑n3] := by decide +kernel
  obtain ⟨hreturned, hkey₁, hmany, hcurrent, hl₁⟩ := hone c₁ hc₁
  obtain ⟨hdone, hkey₂, hnodes⟩ := htwo c₂ hc₂
  obtain ⟨l₂, hl₂, hcovers⟩ := reads_are_monotonic (clean_new _) (fun _ => rfl) hrun₁ hc₁
    hreturned (toOption_eq_some.1 hl₁) (Or.inr ⟨hmany, hcurrent⟩) (by decide +kernel)
    hrun₂ hc₂ (hkey₂.trans hkey₁.symm) hdone
  exact ⟨c₁, c₂, l₂, hc₁, hc₂, hnodes, hl₂, hcovers _ List.mem_cons_self⟩

end GetState

end GoQuorum
