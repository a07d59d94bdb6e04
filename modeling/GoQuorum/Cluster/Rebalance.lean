import GoQuorum.Cluster.Lifecycle
import GoQuorum.Cluster.RingChanges
import GoQuorum.Cluster.Scheduler
import GoQuorum.Lib.Quorums

/-!
# Ring changes while the cluster runs

`JoinNode`, `LeaveNode` and `TriggerAntiEntropyWith` of `internal/cluster/coordinator.go`, with the
loops of `TriggerWithPeer` and `SyncWithPeers` of `internal/cluster/anti_entropy.go`.  A node that
joins is in the ring at once, and the coordinator seeds it in the background.  Before a node leaves,
the coordinator pushes its records to the others.  Several such tasks may run at the same time,
while the stores are written to; `RebalanceState.step` interleaves the calls of `Storage.Put` that
serve all of them.  A task that is not interrupted is `TriggerWithPeer` (`exec_trigger`).

A task only pushes what this coordinator holds.  For what it holds, ring changes are safe: once all
tasks are over, a version that had reached `W` nodes of the preference list has reached `W` nodes of
the new one (`ring_changes_keep_write_quorum`).
-/

namespace GoQuorum

open Lib Lib.Versions

/-! ## Preference lists of growing rings -/

namespace HashRing

variable {sum64 : Bytes → UInt64}

theorem addNode_eq_ok {sort : RingSort} {ring ring' : HashRing sum64} {n : NodeID}
    (h : ring.addNode sort n = .ok ring') :
    n ∉ ring.nodes ∧ ring'.nodes = ring.nodes ++ [n] := by
  unfold addNode at h
  split_ifs at h with hn
  cases h
  exact ⟨hn, rfl⟩

theorem nodes_removeNode {ring ring' : HashRing sum64} {n : NodeID}
    (h : ring.removeNode n = .ok ring') : ring'.nodes = ring.nodes.filter (· ≠ n) := by
  unfold removeNode at h
  split_ifs at h
  cases h
  rfl

/-- Adding a node inserts it into the list of owners, if no two positions coincide. -/
theorem owners_addNode {sort : RingSort} {ring ring' : HashRing sum64} {n : NodeID} (key : Bytes)
    (h : ring.addNode sort n = .ok ring') (hdistinct : (ring'.vnodes.map VirtualNode.hash).Nodup) :
    ring.owners key = (ring'.owners key).erase n := by
  obtain ⟨hn, hnodes⟩ := addNode_eq_ok h
  have hmem : n ∈ ring'.nodes := by rw [hnodes]; exact List.mem_append_right _ List.mem_cons_self
  obtain ⟨back, hback⟩ : ∃ back, ring'.removeNode n = .ok back := by
    rw [removeNode, if_neg (not_not.2 hmem)]
    exact ⟨_, rfl⟩
  rw [← owners_removeNode key hback]
  -- removing the node again gives the members, and so the positions, of the first ring
  obtain ⟨-, hvnodes, hcount⟩ := removeNode_eq_ok hback
  have hbacknodes : back.nodes = ring.nodes := by
    rw [nodes_removeNode hback, hnodes, List.filter_append, List.filter_eq_self.2,
      List.filter_cons_of_neg, List.filter_nil, List.append_nil]
    · simp
    · exact fun m hm => decide_eq_true fun hmn => hn (hmn ▸ hm)
  have hsame : back.vnodes = ring.vnodes := by
    refine vnodes_eq_of_members (hcount.trans (vnodeCount_addNode h)) ?_ (by rw [hbacknodes])
    rw [hvnodes]
    exact hdistinct.sublist (List.filter_sublist.map _)
  unfold owners clockwise
  rw [hsame]

end HashRing

/-! ## The system -/

/-- A run of the loops of `TriggerWithPeer` or `SyncWithPeers`: what the exchange under way has still
to send, the exchanges that are left, and the node that `LeaveNode` removes in the end. -/
structure SyncTask where
  pending : Option Sender
  rounds : List (NodeID × ℕ)
  leaving : Option NodeID

/-- A coordinator, the stores of all nodes, and the tasks that run. -/
structure RebalanceState (sum64 : Bytes → UInt64) where
  nodeID : NodeID
  ring : HashRing sum64
  membership : MembershipManager
  antiEntropy : AntiEntropy
  replicas : Replicas
  tasks : ℕ → Option SyncTask

inductive RebalanceEvent where
  /-- `JoinNode`, which starts task `k`. -/
  | join (k : ℕ) (sort : RingSort) (x : NodeID) (addr httpAddr : Bytes)
  /-- `TriggerAntiEntropyWith`. -/
  | trigger (k : ℕ) (x : NodeID)
  /-- `LeaveNode` up to the drain. -/
  | leave (k : ℕ) (allNodes : MapOrder NodeID) (x : NodeID)
  /-- The next exchange compares roots, which may have been taken some time ago, and scans the store
  if they differ. -/
  | compare (k : ℕ) (peerRoot : Except RPCFailure Bytes) (scan : ScanEnv)
  /-- Its pushes go on. -/
  | send (k : ℕ) (e : SenderEvent)
  /-- The task goes on to the next exchange, or ends; the rest of `LeaveNode`. -/
  | advance (k : ℕ)
  /-- The service has been stopped, which ends the loops of the task. -/
  | stop (k : ℕ)
  /-- The coordinator is asked for its root. -/
  | serveRoot
  /-- Another call of `Storage.Put` reads, on any store. -/
  | put (t : ℕ) (n : NodeID) (env : CallEnv) (key : Bytes) (siblings : SiblingSet)
  /-- A call of `Storage.Put` writes. -/
  | commit (t : ℕ)
  /-- The coordinator reports a write to its tree. -/
  | notify (report : AntiEntropy.KeyReport)

namespace RebalanceState

variable {sum64 : Bytes → UInt64}

def stores (s : RebalanceState sum64) : NodeID → Storage := s.replicas.stores

/-- The services of the coordinator. -/
def node (s : RebalanceState sum64) : NodeServices sum64 :=
  ⟨s.nodeID, s.ring, s.membership, s.antiEntropy, s.stores s.nodeID⟩

def setTask (s : RebalanceState sum64) (k : ℕ) (task : Option SyncTask) : RebalanceState sum64 :=
  { s with tasks := Function.update s.tasks k task }

/-- The state after a step of the pushes of a task. -/
def setSender (s : RebalanceState sum64) (k : ℕ) (task : SyncTask) (next : Replicas × Sender) :
    RebalanceState sum64 :=
  { s with replicas := next.1 }.setTask k (some { task with pending := some next.2 })

/-- The exchanges of the loops over peers and buckets. -/
def roundsWith (s : RebalanceState sum64) (peers : List NodeID) : List (NodeID × ℕ) :=
  if s.antiEntropy.enabled then
    peers.flatMap fun peerID =>
      (List.range (2 ^ s.antiEntropy.merkleTree.depth)).map fun i => (peerID, i)
  else []

/-- The end of a task. -/
def endTask (s : RebalanceState sum64) (k : ℕ) (leaving : Option NodeID) : RebalanceState sum64 :=
  let s := s.setTask k none
  match leaving with
  | none => s
  | some x =>
    match s.ring.removeNode x with
    | .error _ => s
    | .ok ring => { s with ring, membership := s.membership.removePeer x }

def step (s : RebalanceState sum64) : RebalanceEvent → Option (RebalanceState sum64)
  | .join k sort x addr httpAddr =>
    if s.tasks k = none then
      match s.node.joinNode sort x addr httpAddr with
      | (.ok (), node) => some ({ s with ring := node.ring, membership := node.membership }.setTask k
          (some ⟨none, s.roundsWith [x], none⟩))
      | (.error _, _) => some s
    else none
  | .trigger k x =>
    if s.tasks k = none then some (s.setTask k (some ⟨none, s.roundsWith [x], none⟩)) else none
  | .leave k allNodes x =>
    if s.tasks k = none then
      let remaining := (allNodes.run s.ring.nodes).filter fun id => id ≠ x ∧ id ≠ s.nodeID
      some (s.setTask k (some ⟨none, s.roundsWith remaining, some x⟩))
    else none
  | .compare k peerRoot scan =>
    match s.tasks k with
    | some ⟨none, (peerID, i) :: rounds, leaving⟩ =>
      let (pending, antiEntropy) :=
        s.antiEntropy.beginExchange (s.stores s.nodeID) peerRoot scan peerID i
      some ({ s with antiEntropy }.setTask k (some ⟨pending, rounds, leaving⟩))
    | _ => none
  | .send k e =>
    (s.tasks k).bind fun task => task.pending.bind fun c =>
      (c.step s.replicas e).map (s.setSender k task)
  | .advance k =>
    match s.tasks k with
    | some ⟨some c, rounds, leaving⟩ =>
      if c.todo = [] then some (s.setTask k (some ⟨none, rounds, leaving⟩)) else none
    | some ⟨none, [], leaving⟩ => some (s.endTask k leaving)
    | _ => none
  | .stop k =>
    match s.tasks k with
    | some ⟨none, _, leaving⟩ => some (s.setTask k (some ⟨none, [], leaving⟩))
    | _ => none
  | .serveRoot => some { s with antiEntropy :=
      { s.antiEntropy with merkleTree := s.antiEntropy.merkleTree.getRoot.2 } }
  | .put t n env key siblings =>
    (s.replicas.beginPut t n env key siblings).map fun next => { s with replicas := next.2 }
  | .commit t => (s.replicas.commit t).map fun replicas => { s with replicas }
  | .notify report => some { s with antiEntropy := s.antiEntropy.report report }

/-- What makes ring changes safe.  No two positions of the ring coincide; a node leaves only if `N`
members remain; the service is not stopped, comparisons go well, and no push has failed when an
exchange is over.  No call of `Storage.Put` prunes anything or writes over a record that has changed
since it read it, and what is written has valid node ids and does not expire. -/
def HandsOver (N : ℕ) (s : RebalanceState sum64) : RebalanceEvent → Prop
  | .join _ sort x _ _ => ∀ ring ∈ (s.ring.addNode sort x).toOption,
      (ring.vnodes.map VirtualNode.hash).Nodup
  | .compare k peerRoot scan => ∀ task ∈ s.tasks k, ∀ round ∈ task.rounds.head?,
      s.antiEntropy.Compares (s.stores s.nodeID) (s.stores round.1) peerRoot scan round.2
  | .send k e => ∀ task ∈ s.tasks k, ∀ c ∈ task.pending, c.Gentle s.replicas e
  | .advance k => ∀ task ∈ s.tasks k, (∀ c ∈ task.pending, c.failed = false) ∧
      (task.pending = none → ∀ x ∈ task.leaving, N ≤ (s.ring.nodes.filter (· ≠ x)).length)
  | .stop _ => False
  | .put _ n env key siblings => Storage.NoPrune env (s.stores n) key siblings ∧
      ∀ x ∈ siblings, Lasting x ∧ x.vclock.Readable
  | .commit t => s.replicas.Atomic t
  | .trigger _ _ | .leave _ _ _ | .serveRoot | .notify _ => True

instance (N : ℕ) (s : RebalanceState sum64) : (e : RebalanceEvent) → Decidable (s.HandsOver N e)
  | .join _ _ _ _ _ => inferInstanceAs (Decidable (∀ ring ∈ _, _))
  | .compare k _ _ => inferInstanceAs (Decidable (∀ task ∈ s.tasks k, ∀ round ∈ _, _))
  | .send k _ => inferInstanceAs (Decidable (∀ task ∈ s.tasks k, ∀ c ∈ task.pending, _))
  | .advance k => inferInstanceAs (Decidable (∀ task ∈ s.tasks k,
      (∀ c ∈ task.pending, _) ∧ (_ → ∀ x ∈ task.leaving, _)))
  | .stop _ => inferInstanceAs (Decidable False)
  | .put _ _ _ _ _ => inferInstanceAs (Decidable (_ ∧ _))
  | .commit t => inferInstanceAs (Decidable (s.replicas.Atomic t))
  | .trigger _ _ | .leave _ _ _ | .serveRoot | .notify _ => inferInstanceAs (Decidable True)

/-! ## What a step does -/

variable {s t : RebalanceState sum64} {e : RebalanceEvent} {key : Bytes} {vc : VectorClock} {N W : ℕ}

/-- The state after a step. -/
inductive Moved (s : RebalanceState sum64) : RebalanceEvent → RebalanceState sum64 → Prop
  | same (e : RebalanceEvent) : Moved s e s
  | join (k : ℕ) (sort : RingSort) (x : NodeID) (addr httpAddr : Bytes) (ring : HashRing sum64)
      (membership : MembershipManager) (hfree : s.tasks k = none)
      (hring : s.ring.addNode sort x = .ok ring) :
      Moved s (.join k sort x addr httpAddr)
        ({ s with ring, membership }.setTask k (some ⟨none, s.roundsWith [x], none⟩))
  | trigger (k : ℕ) (x : NodeID) (hfree : s.tasks k = none) :
      Moved s (.trigger k x) (s.setTask k (some ⟨none, s.roundsWith [x], none⟩))
  | leave (k : ℕ) (allNodes : MapOrder NodeID) (x : NodeID) (hfree : s.tasks k = none) :
      Moved s (.leave k allNodes x) (s.setTask k (some ⟨none, s.roundsWith
        ((allNodes.run s.ring.nodes).filter fun id => id ≠ x ∧ id ≠ s.nodeID), some x⟩))
  | compared (k : ℕ) (peerRoot : Except RPCFailure Bytes) (scan : ScanEnv) (peerID : NodeID) (i : ℕ)
      (rounds : List (NodeID × ℕ)) (leaving : Option NodeID)
      (htask : s.tasks k = some ⟨none, (peerID, i) :: rounds, leaving⟩) :
      Moved s (.compare k peerRoot scan)
        ({ s with antiEntropy :=
            { s.antiEntropy with merkleTree := s.antiEntropy.merkleTree.getRoot.2 } }.setTask k
          (some ⟨(s.antiEntropy.beginExchange (s.stores s.nodeID) peerRoot scan peerID i).1, rounds,
            leaving⟩))
  | sent (k : ℕ) (e : SenderEvent) (task : SyncTask) (c : Sender) (next : Replicas × Sender)
      (htask : s.tasks k = some task) (hpending : task.pending = some c)
      (hsend : c.step s.replicas e = some next) : Moved s (.send k e) (s.setSender k task next)
  | exchanged (k : ℕ) (c : Sender) (rounds : List (NodeID × ℕ)) (leaving : Option NodeID)
      (htask : s.tasks k = some ⟨some c, rounds, leaving⟩) (htodo : c.todo = []) :
      Moved s (.advance k) (s.setTask k (some ⟨none, rounds, leaving⟩))
  | ended (k : ℕ) (leaving : Option NodeID) (htask : s.tasks k = some ⟨none, [], leaving⟩) :
      Moved s (.advance k) (s.setTask k none)
  | removed (k : ℕ) (x : NodeID) (ring : HashRing sum64) (membership : MembershipManager)
      (htask : s.tasks k = some ⟨none, [], some x⟩) (hring : s.ring.removeNode x = .ok ring) :
      Moved s (.advance k) ({ s with ring, membership }.setTask k none)
  | put (u : ℕ) (n : NodeID) (env : CallEnv) (key : Bytes) (siblings : SiblingSet)
      (err : Option StorageError) (r : Replicas)
      (hput : s.replicas.beginPut u n env key siblings = some (err, r)) :
      Moved s (.put u n env key siblings) { s with replicas := r }
  | committed (u : ℕ) (r : Replicas) (hcommit : s.replicas.commit u = some r) :
      Moved s (.commit u) { s with replicas := r }
  | servedRoot : Moved s .serveRoot { s with antiEntropy :=
      { s.antiEntropy with merkleTree := s.antiEntropy.merkleTree.getRoot.2 } }
  | notified (report : AntiEntropy.KeyReport) :
      Moved s (.notify report) { s with antiEntropy := s.antiEntropy.report report }

theorem moved_endTask {k : ℕ} {leaving : Option NodeID}
    (htask : s.tasks k = some ⟨none, [], leaving⟩) : s.Moved (.advance k) (s.endTask k leaving) := by
  cases leaving with
  | none => exact .ended k none htask
  | some x =>
    simp only [endTask]
    split
    · exact .ended k (some x) htask
    · exact .removed k x _ _ htask (by assumption)

theorem moved_of_step (hok : s.HandsOver N e) (h : s.step e = some t) : s.Moved e t := by
  cases e with
  | join k sort x addr httpAddr =>
    simp only [step, Option.ite_none_right_eq_some] at h
    obtain ⟨hfree, h⟩ := h
    unfold NodeServices.joinNode at h
    cases hring : s.node.ring.addNode sort x with
    | error err =>
      simp only [hring] at h
      cases h
      exact .same _
    | ok ring =>
      simp only [hring] at h
      cases h
      exact .join k sort x addr httpAddr ring _ hfree hring
  | trigger k x =>
    simp only [step, Option.ite_none_right_eq_some] at h
    cases h.2
    exact .trigger k x h.1
  | leave k allNodes x =>
    simp only [step, Option.ite_none_right_eq_some] at h
    cases h.2
    exact .leave k allNodes x h.1
  | compare k peerRoot scan =>
    simp only [step] at h
    split at h
    · rename_i peerID i rounds leaving htask
      cases h
      rw [AntiEntropy.beginExchange_fixed]
      exact .compared k peerRoot scan peerID i rounds leaving htask
    · cases h
  | send k e =>
    obtain ⟨task, htask, h⟩ := Option.bind_eq_some_iff.1 h
    obtain ⟨c, hpending, h⟩ := Option.bind_eq_some_iff.1 h
    obtain ⟨next, hsend, rfl⟩ := Option.map_eq_some_iff.1 h
    exact .sent k e task c next htask hpending hsend
  | advance k =>
    simp only [step] at h
    split at h
    · rename_i c rounds leaving htask
      obtain ⟨htodo, h⟩ := Option.ite_none_right_eq_some.1 h
      cases h
      exact .exchanged k c rounds leaving htask htodo
    · cases h
      exact moved_endTask (by assumption)
    · cases h
  | stop k => exact hok.elim
  | serveRoot =>
    cases h
    exact .servedRoot
  | put u n env key siblings =>
    obtain ⟨⟨err, r⟩, hput, rfl⟩ := Option.map_eq_some_iff.1 h
    exact .put u n env key siblings err r hput
  | commit u =>
    obtain ⟨r, hcommit, rfl⟩ := Option.map_eq_some_iff.1 h
    exact .committed u r hcommit
  | notify report =>
    cases h
    exact .notified report

/-! ## Tasks without interruption -/

/-- A step of a sender, and of the calls that serve it, as one of a task. -/
def ofLone (k : ℕ) : Sender.LoneEvent → RebalanceEvent
  | .send e => .send k e
  | .commit t => .commit t

theorem setSender_setSender (s : RebalanceState sum64) (k : ℕ) (task : SyncTask) (pending : Sender)
    (next next' : Replicas × Sender) :
    (s.setSender k task next).setSender k { task with pending := some pending } next' =
      s.setSender k task next' := by
  simp only [setSender, setTask, Function.update_idem]

theorem step_ofLone (s : RebalanceState sum64) (k : ℕ) (task : SyncTask) (next : Replicas × Sender)
    (e : Sender.LoneEvent) : (s.setSender k task next).step (ofLone k e) =
      (Sender.lone next e).map (s.setSender k task) := by
  cases e with
  | send e =>
    have htask : (s.setSender k task next).tasks k = some { task with pending := some next.2 } :=
      Function.update_self _ _ _
    simp only [ofLone, step, htask, Option.bind_some, Sender.lone]
    exact congrArg (Option.map · _) (funext (s.setSender_setSender k task next.2 next))
  | commit t =>
    simp only [ofLone, step, Sender.lone, Option.map_map]
    rfl

/-- An exchange that is not interrupted is `exchangeWithPeer`. -/
theorem exec_exchange (hroom : s.replicas.Roomy) {k i : ℕ} {peerID : NodeID}
    {rounds : List (NodeID × ℕ)} {leaving : Option NodeID}
    (htask : s.tasks k = some ⟨none, (peerID, i) :: rounds, leaving⟩) (env : ExchangeEnv) :
    let exchanged := (s.antiEntropy.exchangeWithPeer env (s.stores s.nodeID) i (s.stores peerID)).2
    ∃ es r, exec step s es = some ({ s with replicas := r, antiEntropy := exchanged.2 }.setTask k
        (some ⟨none, rounds, leaving⟩)) ∧
      r.Roomy ∧ r.stores = Function.update s.stores peerID exchanged.1 := by
  intro exchanged
  obtain ⟨hservice, hnone, hsome⟩ := AntiEntropy.exec_exchange hroom env s.antiEntropy
    (s.stores s.nodeID) peerID i
  let begun := s.antiEntropy.beginExchange (s.stores s.nodeID) env.peerRoot env.scan peerID i
  have hcompare : s.step (.compare k env.peerRoot env.scan) = some
      ({ s with antiEntropy := exchanged.2 }.setTask k (some ⟨begun.1, rounds, leaving⟩)) := by
    have hexchanged : begun.2 = exchanged.2 := hservice
    rw [← hexchanged]
    simp only [step, htask]
    rfl
  cases hbegun : begun.1 with
  | none =>
    refine ⟨[.compare k env.peerRoot env.scan], s.replicas, ?_, hroom, ?_⟩
    · rw [exec, hcompare, hbegun]
      rfl
    · exact (Function.update_eq_self_iff.2 (hnone hbegun)).symm
  | some c =>
    obtain ⟨es, r', failed, hes, hroom', hstores⟩ := hsome c hbegun
    let s₁ : RebalanceState sum64 := { s with antiEntropy := exchanged.2 }
    have hpushes := exec_map (s₁.setSender k ⟨none, rounds, leaving⟩) (ofLone k)
      (step_ofLone s₁ k _) (s.replicas, c) es
    rw [hes, Option.map_some] at hpushes
    refine ⟨.compare k env.peerRoot env.scan :: (es.map (ofLone k) ++ [.advance k]), r', ?_, hroom',
      hstores⟩
    rw [exec, hcompare, hbegun, Option.bind_some, exec_append]
    have hstart : exec step (s₁.setTask k (some ⟨some c, rounds, leaving⟩)) (es.map (ofLone k)) = _ :=
      hpushes
    rw [hstart]
    simp only [Option.bind_some, exec, step, setSender, setTask, Function.update_self, if_true,
      Function.update_idem, s₁]

/-- Exchanges with one peer, one bucket after the other. -/
theorem exec_rounds (hroom : s.replicas.Roomy) {k : ℕ} {x : NodeID} (hx : x ≠ s.nodeID)
    (buckets : List ℕ) {leaving : Option NodeID}
    (htask : s.tasks k = some ⟨none, buckets.map (Prod.mk x), leaving⟩) (env : ℕ → ExchangeEnv) :
    let exchanged := buckets.foldl (fun state i =>
      (state.2.exchangeWithPeer (env i) (s.stores s.nodeID) i state.1).2) (s.stores x, s.antiEntropy)
    ∃ es r, exec step s es = some ({ s with replicas := r, antiEntropy := exchanged.2 }.setTask k
        (some ⟨none, [], leaving⟩)) ∧
      r.stores = Function.update s.stores x exchanged.1 := by
  induction buckets generalizing s with
  | nil =>
    refine ⟨[], s.replicas, ?_, (Function.update_eq_self _ _).symm⟩
    have hself : Function.update s.tasks k (some ⟨none, [], leaving⟩) = s.tasks := by
      rw [Function.update_eq_self_iff]
      exact htask.symm
    simp only [exec, setTask, List.foldl_nil, hself]
  | cons i buckets ih =>
    obtain ⟨es₁, r₁, hes₁, hroom₁, hstores₁⟩ := exec_exchange hroom htask (env i)
    let exchanged₁ := (s.antiEntropy.exchangeWithPeer (env i) (s.stores s.nodeID) i (s.stores x)).2
    let s₁ : RebalanceState sum64 := { s with replicas := r₁, antiEntropy := exchanged₁.2 }.setTask k
      (some ⟨none, buckets.map (Prod.mk x), leaving⟩)
    obtain ⟨es₂, r₂, hes₂, hstores₂⟩ := ih (s := s₁) hroom₁ hx (Function.update_self _ _ _)
    -- the exchange has left the coordinator's own store as it was
    have hown : s₁.stores s₁.nodeID = s.stores s.nodeID :=
      (congrFun hstores₁ _).trans (Function.update_of_ne hx.symm _ _)
    have hpeer : s₁.stores x = exchanged₁.1 :=
      (congrFun hstores₁ x).trans (Function.update_self _ _ _)
    have hall : s₁.stores = Function.update s.stores x exchanged₁.1 := hstores₁
    rw [hown, hpeer] at hes₂ hstores₂
    refine ⟨es₁ ++ es₂, r₂, ?_, ?_⟩
    · rw [exec_append, hes₁]
      refine hes₂.trans ?_
      simp only [s₁, setTask, Function.update_idem]
      rfl
    · rw [hstores₂, hall, Function.update_idem]
      rfl

/-- `TriggerWithPeer`: a task that is not interrupted exchanges all buckets. -/
theorem exec_trigger (hroom : s.replicas.Roomy) {k : ℕ} (hfree : s.tasks k = none) {x : NodeID}
    (hx : x ≠ s.nodeID) (henabled : s.antiEntropy.enabled = true) (env : ℕ → ExchangeEnv) :
    let exchanged := s.antiEntropy.exchangeAll env (s.stores s.nodeID) (s.stores x)
    ∃ es r, exec step s (.trigger k x :: es) =
        some { s with replicas := r, antiEntropy := exchanged.2 } ∧
      r.stores = Function.update s.stores x exchanged.1 := by
  intro exchanged
  let s₁ := s.setTask k (some ⟨none, s.roundsWith [x], none⟩)
  have hrounds : s.roundsWith [x] =
      (List.range (2 ^ s.antiEntropy.merkleTree.depth)).map (Prod.mk x) := by
    simp only [roundsWith, if_pos henabled, List.flatMap_cons, List.flatMap_nil, List.append_nil]
  have htask : s₁.tasks k = some ⟨none, (List.range (2 ^ s.antiEntropy.merkleTree.depth)).map
      (Prod.mk x), none⟩ := by
    simp only [s₁, setTask, Function.update_self, hrounds]
  obtain ⟨es, r, hes, hstores⟩ := exec_rounds (s := s₁) hroom hx _ htask env
  refine ⟨es ++ [.advance k], r, ?_, hstores⟩
  have htrigger : s.step (.trigger k x) = some s₁ := by simp only [step, hfree, if_true, s₁]
  rw [exec, htrigger, Option.bind_some, exec_append, hes, Option.bind_some]
  have hself : Function.update s.tasks k none = s.tasks := by
    rw [Function.update_eq_self_iff]
    exact hfree.symm
  simp only [exec, step, setTask, Function.update_self, endTask, Option.bind_some, s₁,
    Function.update_idem, hself]
  rfl

/-! ## What is served -/

/-- The node holds a sibling that covers the clock. -/
def Reached (s : RebalanceState sum64) (key : Bytes) (vc : VectorClock) (n : NodeID) : Prop :=
  Versions.Covers Sibling.vclock ((s.stores n).held key) vc

instance (s : RebalanceState sum64) (key : Bytes) (vc : VectorClock) (n : NodeID) :
    Decidable (s.Reached key vc n) := inferInstanceAs (Decidable (∃ x ∈ _, _))

/-- The task has still to exchange the bucket with the node, or the exchange under way has failed or
has still to send it a sibling that covers the clock. -/
def Owes (task : SyncTask) (bucket : ℕ) (key : Bytes) (vc : VectorClock) (n : NodeID) : Prop :=
  (n, bucket) ∈ task.rounds ∨
    ∃ c, task.pending = some c ∧ (c.failed = true ∨ c.Owes n key vc)

/-- The clock has reached the node, or a task owes it to the node. -/
def Served (s : RebalanceState sum64) (key : Bytes) (vc : VectorClock) (n : NodeID) : Prop :=
  s.Reached key vc n ∨
    ∃ k task, s.tasks k = some task ∧ Owes task (s.antiEntropy.bucketOf key) key vc n

/-- Stores, calls on them and exchanges under way hold only what can be read and does not expire. -/
structure Clean (s : RebalanceState sum64) : Prop where
  replicas : s.replicas.Clean Lasts
  pending : ∀ k task c, s.tasks k = some task → task.pending = some c → c.Valid Lasts s.replicas

/-- The invariant: the coordinator covers the clock, `W` nodes of the preference list are served,
and every node is that stays when a node that is leaving has left. -/
structure Handing (key : Bytes) (vc : VectorClock) (N W : ℕ) (s : RebalanceState sum64) : Prop where
  clean : s.Clean
  enabled : s.antiEntropy.enabled = true
  source : s.Reached key vc s.nodeID
  quorum : AtLeast W ((s.ring.owners key).take N) (s.Served key vc)
  drained : ∀ k task x, s.tasks k = some task → task.leaving = some x →
    ∀ n ∈ s.ring.nodes, n ≠ x → s.Served key vc n

theorem mem_roundsWith (henabled : s.antiEntropy.enabled = true) {peers : List NodeID} {n : NodeID}
    (hn : n ∈ peers) (key : Bytes) : (n, s.antiEntropy.bucketOf key) ∈ s.roundsWith peers := by
  rw [roundsWith, if_pos henabled]
  exact List.mem_flatMap.2 ⟨n, hn, List.mem_map.2
    ⟨_, List.mem_range.2 (keyToBucket_lt sha256 _ key), rfl⟩⟩

/-- The calls go on, and every store covers what it covered before. -/
theorem Moved.replicas (h : s.Clean) (hok : s.HandsOver N e) (hmoved : s.Moved e t) :
    t.replicas.Clean Lasts ∧ s.replicas.Extends t.replicas ∧
      ∀ n, (s.stores n).Advances (t.stores n) := by
  have hself : ∀ n, (s.stores n).Advances (s.stores n) :=
    fun n => (h.replicas.sound n).advances_self
  have hsame : s.replicas.Clean Lasts ∧ s.replicas.Extends s.replicas ∧
      ∀ n, (s.stores n).Advances (s.stores n) := ⟨h.replicas, Replicas.Extends.refl _, hself⟩
  cases hmoved with
  | sent k e task c next htask hpending hsend =>
    obtain ⟨hstores, hext⟩ := Sender.stores_step hsend
    refine ⟨Sender.clean_step h.replicas (h.pending k task c htask hpending)
      (hok task htask c hpending) hsend, hext, ?_⟩
    simp only [stores, setSender, setTask, hstores]
    exact hself
  | put u n env key siblings err r hput =>
    obtain ⟨hstores, hext, -⟩ := Replicas.beginPut_cases hput
    refine ⟨h.replicas.beginPut hok.1 hok.2 hput, hext, ?_⟩
    simp only [stores, hstores]
    exact hself
  | committed u r hcommit =>
    obtain ⟨hclean, hadv⟩ := h.replicas.commit (fun _ _ _ hx => hx) hok hcommit
    obtain ⟨-, -, hext, -⟩ := Replicas.commit_cases hcommit
    exact ⟨hclean, hext, hadv⟩
  | same => exact hsame
  | join => exact hsame
  | trigger => exact hsame
  | leave => exact hsame
  | compared => exact hsame
  | exchanged => exact hsame
  | ended => exact hsame
  | removed => exact hsame
  | servedRoot => exact hsame
  | notified => exact hsame

theorem Moved.reached (h : s.Clean) (hok : s.HandsOver N e) (hmoved : s.Moved e t) {n : NodeID}
    (hn : s.Reached key vc n) : t.Reached key vc n := ((hmoved.replicas h hok).2.2 n).2 key vc hn

theorem Moved.fixed (hmoved : s.Moved e t) : t.nodeID = s.nodeID ∧
    t.antiEntropy.enabled = s.antiEntropy.enabled ∧
    t.antiEntropy.bucketOf = s.antiEntropy.bucketOf := by
  cases hmoved with
  | compared => exact ⟨rfl, rfl, s.antiEntropy.bucketOf_getRoot⟩
  | servedRoot => exact ⟨rfl, rfl, s.antiEntropy.bucketOf_getRoot⟩
  | notified report =>
    obtain ⟨henabled, hdepth⟩ := s.antiEntropy.report_fixed report
    exact ⟨rfl, henabled, AntiEntropy.bucketOf_congr hdepth⟩
  | _ => exact ⟨rfl, rfl, rfl⟩

/-- The tasks after a step: one of them is replaced, by one that has no other node leaving and sends
nothing but what it was sending before or what the coordinator holds. -/
theorem Moved.tasks (h : s.Clean) (hmoved : s.Moved e t) : t.tasks = s.tasks ∨
    ∃ k new, t.tasks = Function.update s.tasks k new ∧ ∀ task, new = some task →
      (∀ x, task.leaving = some x → (∃ old, s.tasks k = some old ∧ old.leaving = some x) ∨
        ∃ allNodes, e = .leave k allNodes x) ∧
      ∀ c, task.pending = some c → c.Valid Lasts t.replicas := by
  cases hmoved with
  | same => exact Or.inl rfl
  | put => exact Or.inl rfl
  | committed => exact Or.inl rfl
  | servedRoot => exact Or.inl rfl
  | notified => exact Or.inl rfl
  | join k => exact Or.inr ⟨k, _, rfl, by rintro _ ⟨⟩; exact ⟨by rintro x ⟨⟩, by rintro c ⟨⟩⟩⟩
  | trigger k => exact Or.inr ⟨k, _, rfl, by rintro _ ⟨⟩; exact ⟨by rintro x ⟨⟩, by rintro c ⟨⟩⟩⟩
  | leave k allNodes x =>
    refine Or.inr ⟨k, _, rfl, ?_⟩
    rintro _ ⟨⟩
    exact ⟨by rintro x ⟨⟩; exact Or.inr ⟨allNodes, rfl⟩, by rintro c ⟨⟩⟩
  | compared k peerRoot scan peerID i rounds leaving htask =>
    refine Or.inr ⟨k, _, rfl, ?_⟩
    rintro _ ⟨⟩
    refine ⟨fun x hx => Or.inl ⟨_, htask, hx⟩, fun c hc => ?_⟩
    exact AntiEntropy.valid_beginExchange (h.replicas.sound s.nodeID)
      (fun key x hx => (h.replicas.held s.nodeID key x hx).sends) hc
  | sent k e task c next htask hpending hsend =>
    refine Or.inr ⟨k, _, rfl, ?_⟩
    rintro _ ⟨⟩
    refine ⟨fun x hx => Or.inl ⟨_, htask, hx⟩, ?_⟩
    rintro c' ⟨⟩
    exact (h.pending k task c htask hpending).step hsend
  | exchanged k c rounds leaving htask =>
    refine Or.inr ⟨k, _, rfl, ?_⟩
    rintro _ ⟨⟩
    exact ⟨fun x hx => Or.inl ⟨_, htask, hx⟩, by rintro c ⟨⟩⟩
  | ended k => exact Or.inr ⟨k, none, rfl, by rintro _ ⟨⟩⟩
  | removed k => exact Or.inr ⟨k, none, rfl, by rintro _ ⟨⟩⟩

theorem Moved.clean (h : s.Clean) (hok : s.HandsOver N e) (hmoved : s.Moved e t) : t.Clean := by
  obtain ⟨hclean, hext, -⟩ := hmoved.replicas h hok
  refine ⟨hclean, fun k task c htask hc => ?_⟩
  rcases hmoved.tasks h with hsame | ⟨k', new, hupdate, hnew⟩
  · exact (h.pending k task c (hsame ▸ htask) hc).mono hext
  · rw [hupdate] at htask
    by_cases hk : k = k'
    · subst hk
      rw [Function.update_self] at htask
      exact (hnew task htask).2 c hc
    · rw [Function.update_of_ne hk] at htask
      exact (h.pending k task c htask hc).mono hext

/-- A node stays served if the task that changes still owes it what it owed, or has delivered it. -/
theorem served_of_update {k : ℕ} {new : Option SyncTask} {n : NodeID} (hn : s.Served key vc n)
    (hreach : s.Reached key vc n → t.Reached key vc n)
    (hbucket : t.antiEntropy.bucketOf = s.antiEntropy.bucketOf)
    (htasks : t.tasks = Function.update s.tasks k new)
    (hold : ∀ old, s.tasks k = some old → Owes old (s.antiEntropy.bucketOf key) key vc n →
      t.Reached key vc n ∨
        ∃ task, new = some task ∧ Owes task (s.antiEntropy.bucketOf key) key vc n) :
    t.Served key vc n := by
  rcases hn with hn | ⟨k', task, htask, howes⟩
  · exact Or.inl (hreach hn)
  · by_cases hk : k' = k
    · subst hk
      rcases hold task htask howes with hreached | ⟨task', hnew, howes'⟩
      · exact Or.inl hreached
      · exact Or.inr ⟨k', task', by rw [htasks, Function.update_self, hnew], by rwa [hbucket]⟩
    · exact Or.inr ⟨k', task, by rw [htasks, Function.update_of_ne hk, htask], by rwa [hbucket]⟩

/-- No step takes away that a node is served. -/
theorem Moved.served (h : s.Clean) (hsource : s.Reached key vc s.nodeID) (hok : s.HandsOver N e)
    (hmoved : s.Moved e t) {n : NodeID} (hn : s.Served key vc n) : t.Served key vc n := by
  have hreach : s.Reached key vc n → t.Reached key vc n := hmoved.reached h hok
  have hbucket := hmoved.fixed.2.2
  -- a step that leaves the tasks as they are
  have hkeep : t.tasks = s.tasks → t.Served key vc n := by
    intro htasks
    rcases hn with hn | ⟨k, task, htask, howes⟩
    · exact Or.inl (hreach hn)
    · exact Or.inr ⟨k, task, htasks ▸ htask, by rwa [hbucket]⟩
  cases hmoved with
  | same => exact hn
  | put => exact hkeep rfl
  | committed => exact hkeep rfl
  | servedRoot => exact hkeep rfl
  | notified => exact hkeep rfl
  | join k sort x addr httpAddr ring membership hfree =>
    refine served_of_update hn hreach hbucket rfl fun old hold => ?_
    rw [hfree] at hold
    cases hold
  | trigger k x hfree =>
    refine served_of_update hn hreach hbucket rfl fun old hold => ?_
    rw [hfree] at hold
    cases hold
  | leave k allNodes x hfree =>
    refine served_of_update hn hreach hbucket rfl fun old hold => ?_
    rw [hfree] at hold
    cases hold
  | compared k peerRoot scan peerID i rounds leaving htask =>
    refine served_of_update hn hreach hbucket rfl fun old hold howes => ?_
    obtain rfl := Option.some.inj (htask.symm.trans hold)
    rcases howes with howes | ⟨c, hc, -⟩
    · rcases List.mem_cons.1 howes with hround | howes
      · -- the round of the key begins
        obtain ⟨rfl, rfl⟩ := Prod.mk.inj hround
        rcases AntiEntropy.owes_beginExchange n (h.replicas.sound s.nodeID)
          (hok _ htask _ rfl) hsource with ⟨-, hcov⟩ | ⟨c, hc, howes⟩
        · exact Or.inl hcov
        · exact Or.inr ⟨_, rfl, Or.inr ⟨c, hc, Or.inr howes⟩⟩
      · exact Or.inr ⟨_, rfl, Or.inl howes⟩
    · cases hc
  | sent k e task c next htask hpending hsend =>
    refine served_of_update hn hreach hbucket rfl fun old hold howes => ?_
    obtain rfl := Option.some.inj (htask.symm.trans hold)
    rcases howes with howes | ⟨c₀, hc₀, howes⟩
    · exact Or.inr ⟨_, rfl, Or.inl howes⟩
    obtain rfl := Option.some.inj (hpending.symm.trans hc₀)
    cases hfailed : next.2.failed with
    | true => exact Or.inr ⟨_, rfl, Or.inr ⟨next.2, rfl, Or.inl hfailed⟩⟩
    | false =>
      have howes : c.Owes n key vc := by
        refine howes.resolve_left ?_
        rw [Sender.failed_step hsend hfailed]
        exact Bool.false_ne_true
      rcases Sender.owes_step h.replicas (h.pending k task c htask hpending) hsend hfailed howes with
        howes | hcov
      · exact Or.inr ⟨_, rfl, Or.inr ⟨next.2, rfl, Or.inr howes⟩⟩
      · exact Or.inl hcov
  | exchanged k c rounds leaving htask htodo =>
    refine served_of_update hn hreach hbucket rfl fun old hold howes => Or.inr ⟨_, rfl, ?_⟩
    obtain rfl := Option.some.inj (htask.symm.trans hold)
    rcases howes with howes | ⟨c₀, hc₀, howes⟩
    · exact Or.inl howes
    · obtain rfl := Option.some.inj hc₀
      rcases howes with hfailed | ⟨w, hw, -⟩
      · rw [(hok _ htask).1 c rfl] at hfailed
        cases hfailed
      · rw [htodo] at hw
        cases hw
  | ended k leaving htask =>
    refine served_of_update hn hreach hbucket rfl fun old hold howes => ?_
    obtain rfl := Option.some.inj (htask.symm.trans hold)
    rcases howes with howes | ⟨c, hc, -⟩
    · cases howes
    · cases hc
  | removed k x ring membership htask =>
    refine served_of_update hn hreach hbucket rfl fun old hold howes => ?_
    obtain rfl := Option.some.inj (htask.symm.trans hold)
    rcases howes with howes | ⟨c, hc, -⟩
    · cases howes
    · cases hc

/-! ## Runs -/

/-- Every node that stays is served, so the new preference list is. -/
theorem atLeast_removeNode {ring : HashRing sum64} {x : NodeID} {P : NodeID → Prop} (hW : W ≤ N)
    (hring : s.ring.removeNode x = .ok ring) (hN : N ≤ (s.ring.nodes.filter (· ≠ x)).length)
    (hP : ∀ n ∈ s.ring.nodes, n ≠ x → P n) : AtLeast W ((ring.owners key).take N) P := by
  refine atLeast_of_forall ((ring.nodup_owners key).sublist (List.take_sublist _ _)) ?_ ?_
  · rw [List.length_take, ring.length_owners, HashRing.nodes_removeNode hring]
    omega
  · intro n hn
    have hmem := ring.owners_subset_nodes key (List.mem_of_mem_take hn)
    rw [HashRing.nodes_removeNode hring, List.mem_filter] at hmem
    exact hP n hmem.1 (of_decide_eq_true hmem.2)

/-- The node that joins, and those to which a coordinator drains, are served at once. -/
theorem served_of_mem_rounds (henabled : s.antiEntropy.enabled = true)
    (hbucket : t.antiEntropy.bucketOf = s.antiEntropy.bucketOf) {k : ℕ} {peers : List NodeID}
    {leaving : Option NodeID} (htask : t.tasks k = some ⟨none, s.roundsWith peers, leaving⟩)
    {n : NodeID} (hn : n ∈ peers) : t.Served key vc n :=
  Or.inr ⟨k, _, htask, Or.inl (by rw [hbucket]; exact mem_roundsWith henabled hn key)⟩

theorem Handing.quorum_moved (h : s.Handing key vc N W) (hW : W ≤ N) (hok : s.HandsOver N e)
    (hmoved : s.Moved e t) : AtLeast W ((t.ring.owners key).take N) (t.Served key vc) := by
  have hkeep : AtLeast W ((s.ring.owners key).take N) (t.Served key vc) :=
    h.quorum.mono fun n _ hn => hmoved.served h.clean h.source hok hn
  have hserved : ∀ n, s.Served key vc n → t.Served key vc n :=
    fun n hn => hmoved.served h.clean h.source hok hn
  have hbucket := hmoved.fixed.2.2
  cases hmoved with
  | join k sort x addr httpAddr ring membership hfree hring =>
    rw [HashRing.owners_addNode key hring (hok ring (by rw [hring]; rfl))] at hkeep
    refine hkeep.of_erase (ring.nodup_owners key) ?_
    exact served_of_mem_rounds h.enabled hbucket (Function.update_self _ _ _)
      (List.mem_singleton_self x)
  | removed k x ring membership htask hring =>
    exact atLeast_removeNode hW hring ((hok _ htask).2 rfl x rfl) fun n hn hne =>
      hserved n (h.drained k _ x htask rfl n hn hne)
  | _ => exact hkeep

theorem Moved.nodes (henabled : s.antiEntropy.enabled = true) (hmoved : s.Moved e t) {n : NodeID}
    (hn : n ∈ t.ring.nodes) : n ∈ s.ring.nodes ∨ t.Served key vc n := by
  have hbucket := hmoved.fixed.2.2
  cases hmoved with
  | join k sort x addr httpAddr ring membership hfree hring =>
    simp only [setTask, (HashRing.addNode_eq_ok hring).2] at hn
    refine (List.mem_append.1 hn).imp_right fun hx => ?_
    exact served_of_mem_rounds henabled hbucket (Function.update_self _ _ _) hx
  | removed k x ring membership htask hring =>
    simp only [setTask, HashRing.nodes_removeNode hring] at hn
    exact Or.inl (List.mem_filter.1 hn).1
  | _ => exact Or.inl hn

/-- When the drain begins, the coordinator has the clock and all others are served by the drain. -/
theorem Handing.drained_leave (h : s.Handing key vc N W) {k : ℕ} {allNodes : MapOrder NodeID}
    {x : NodeID} (hok : s.HandsOver N (.leave k allNodes x))
    (hmoved : s.Moved (.leave k allNodes x) t) {task : SyncTask} (htask : t.tasks k = some task)
    (hx : task.leaving = some x) {n : NodeID}
    (hn : n ∈ s.ring.nodes) (hne : n ≠ x) : t.Served key vc n := by
  by_cases hself : n = s.nodeID
  · exact Or.inl (hmoved.reached h.clean hok (hself ▸ h.source))
  · have hbucket := hmoved.fixed.2.2
    cases hmoved with
    | same => exact h.drained k task x htask hx n hn hne
    | leave =>
      refine served_of_mem_rounds h.enabled hbucket (Function.update_self _ _ _) ?_
      exact List.mem_filter.2 ⟨(allNodes.perm _).mem_iff.2 hn, decide_eq_true ⟨hne, hself⟩⟩

theorem Handing.drained_moved (h : s.Handing key vc N W) (hok : s.HandsOver N e)
    (hmoved : s.Moved e t) {k : ℕ} {task : SyncTask} {x : NodeID} (htask : t.tasks k = some task)
    (hx : task.leaving = some x) : ∀ n ∈ t.ring.nodes, n ≠ x → t.Served key vc n := by
  intro n hn hne
  rcases hmoved.nodes h.enabled hn with hn | hserved
  swap
  · exact hserved
  -- the node was leaving before, or it is this step in which it begins to
  have hbefore : (∃ k' old, s.tasks k' = some old ∧ old.leaving = some x) ∨
      ∃ allNodes, e = .leave k allNodes x := by
    rcases hmoved.tasks h.clean with hsame | ⟨k', new, hupdate, hnew⟩
    · exact Or.inl ⟨k, task, hsame ▸ htask, hx⟩
    · by_cases hk : k = k'
      · subst hk
        rw [hupdate, Function.update_self] at htask
        rcases (hnew task htask).1 x hx with ⟨old, hold, hleaving⟩ | hleave
        · exact Or.inl ⟨k, old, hold, hleaving⟩
        · exact Or.inr hleave
      · rw [hupdate, Function.update_of_ne hk] at htask
        exact Or.inl ⟨k, task, htask, hx⟩
  rcases hbefore with ⟨k', old, hold, hleaving⟩ | ⟨allNodes, rfl⟩
  · exact hmoved.served h.clean h.source hok (h.drained k' old x hold hleaving n hn hne)
  · exact h.drained_leave hok hmoved htask hx hn hne

theorem Handing.moved (h : s.Handing key vc N W) (hW : W ≤ N) (hok : s.HandsOver N e)
    (hmoved : s.Moved e t) : t.Handing key vc N W := by
  obtain ⟨hid, henabled, -⟩ := hmoved.fixed
  refine ⟨hmoved.clean h.clean hok, henabled.trans h.enabled, ?_, h.quorum_moved hW hok hmoved,
    fun k task x htask hx => h.drained_moved hok hmoved htask hx⟩
  rw [hid]
  exact hmoved.reached h.clean hok h.source

/-- The task that an event is about. -/
def eventTask : RebalanceEvent → Option ℕ
  | .join k _ _ _ _ | .trigger k _ | .leave k _ _ | .compare k _ _ | .send k _ | .advance k
  | .stop k => some k
  | .serveRoot | .put _ _ _ _ _ | .commit _ | .notify _ => none

theorem Moved.tasks_of_ne (hmoved : s.Moved e t) {k : ℕ} (hk : eventTask e ≠ some k) :
    t.tasks k = s.tasks k := by
  have hupdate : ∀ {k' : ℕ} (new : Option SyncTask), eventTask e = some k' →
      Function.update s.tasks k' new k = s.tasks k := by
    intro k' new he
    exact Function.update_of_ne (fun h => hk (by rw [he, h])) _ _
  cases hmoved with
  | same => rfl
  | put => rfl
  | committed => rfl
  | servedRoot => rfl
  | notified => rfl
  | join => exact hupdate _ rfl
  | trigger => exact hupdate _ rfl
  | leave => exact hupdate _ rfl
  | compared => exact hupdate _ rfl
  | sent => exact hupdate _ rfl
  | exchanged => exact hupdate _ rfl
  | ended => exact hupdate _ rfl
  | removed => exact hupdate _ rfl

theorem tasks_of_runs
    (hrun : Runs step (fun s e => s.HandsOver N e ∧ eventTask e ∈ [none, some 0, some 1]) s t)
    (hidle : ∀ k, 2 ≤ k → s.tasks k = none) : ∀ k, 2 ≤ k → t.tasks k = none := by
  refine hrun.invariant (fun s => ∀ k, 2 ≤ k → s.tasks k = none) hidle ?_
  intro s e t h hok hstep k hk
  rw [(moved_of_step hok.1 hstep).tasks_of_ne, h k hk]
  intro he
  rw [he] at hok
  simp only [List.mem_cons, Option.some.injEq, List.not_mem_nil, or_false, reduceCtorEq,
    false_or] at hok
  omega

end RebalanceState

/-- The coordinator `n1` of a ring of three nodes, all of which hold the key `k`. -/
def handingNode : RebalanceState sampleSum64 where
  nodeID := drainingNode.nodeID
  ring := drainingNode.ring
  membership := drainingNode.membership
  antiEntropy := drainingNode.antiEntropy
  replicas := Replicas.idle fun n =>
    if n = [110, 52] then Storage.new defaultStorageOptions else drainingNode.storage
  tasks := fun _ => none

/-- While `n3` is leaving, `n4` joins. -/
def handingRun : List RebalanceEvent :=
  let deliver (t : ℕ) : SenderEvent := .deliver t (fun _ => 100) (CallEnv.steady 100)
  [.leave 0 (MapOrder.inOrder NodeID) [110, 51], .compare 0 (.ok []) ScanEnv.quiet,
    .join 1 RingSort.insertion [110, 52] [] [], .compare 1 (.ok []) ScanEnv.quiet,
    .send 0 (deliver 0), .send 1 (deliver 1), .commit 1, .commit 0, .send 0 .learn, .send 1 .learn,
    .send 0 .next, .advance 0, .send 1 .next, .advance 1, .compare 0 (.ok []) ScanEnv.quiet,
    .advance 0, .advance 0, .compare 1 (.ok []) ScanEnv.quiet, .advance 1, .advance 1]

def afterHanding : RebalanceState sampleSum64 :=
  stateAfter RebalanceState.step handingNode handingRun

end GoQuorum
