import GoQuorum.Cluster.Senders
import GoQuorum.Lib.Loops

/-!
# Anti-entropy between all nodes

`schedulerLoop` and `exchangeRange` of `internal/cluster/anti_entropy.go`.  At each tick of its
clock a node takes the next bucket and exchanges it with every other node of the ring: it asks for
the peer's root and, if it differs from its own, pushes its records of the bucket, one request for
each sibling.  The schedulers of all nodes run at the same time, and clients write to the stores
meanwhile; `SyncState.step` interleaves the calls of `Storage.Put` that serve all of them.  Without
interruption an exchange is `exchangeWithPeer` (`exec_exchange`).

Once a node has been through all buckets, every peer covers what the node held at the beginning
(`versions_spread`).  When all nodes have, and no client writes, the stores agree
(`schedulers_converge`).
-/

namespace GoQuorum

open Lib Lib.Versions

/-! ## The system -/

/-- The goroutine of `schedulerLoop`: the bucket that is next, the peers of the present tick that
are still to be visited, and what the exchange under way has still to send.  The number of ticks that
are over is there to state properties. -/
structure Scheduler where
  running : Bool
  rangeIdx : ℕ
  peers : List NodeID
  pending : Option Sender
  completed : ℕ

/-- The stores, the anti-entropy services and their schedulers. -/
structure SyncState where
  replicas : Replicas
  services : NodeID → AntiEntropy
  schedulers : NodeID → Scheduler

/-- The steps. -/
inductive SyncEvent where
  /-- The ticker of a node fires; `GetAllNodes` gives the members in any order. -/
  | tick (n : NodeID) (allNodes : MapOrder NodeID)
  /-- The node compares the root that the next peer has sent with its own, and scans its store if
  they differ.  Both may have been taken some time ago, so the peer's is any. -/
  | compare (n : NodeID) (peerRoot : Except RPCFailure Bytes) (scan : ScanEnv)
  /-- Its pushes go on. -/
  | send (n : NodeID) (e : SenderEvent)
  /-- It goes on to the next peer, or to the end of the tick. -/
  | advance (n : NodeID)
  /-- A node is asked for its root. -/
  | serveRoot (n : NodeID)
  /-- Another call of `Storage.Put` reads. -/
  | put (t : ℕ) (n : NodeID) (env : CallEnv) (key : Bytes) (siblings : SiblingSet)
  /-- A call of `Storage.Put` writes. -/
  | commit (t : ℕ)
  /-- The coordinator of a node reports a write to its tree. -/
  | notify (n : NodeID) (report : AntiEntropy.KeyReport)

/-- The scheduler that takes the step. -/
def SyncEvent.scheduler : SyncEvent → Option NodeID
  | .tick n _ | .compare n _ _ | .send n _ | .advance n => some n
  | .serveRoot _ | .put _ _ _ _ _ | .commit _ | .notify _ _ => none

def SyncEvent.isPut : SyncEvent → Bool
  | .put _ _ _ _ _ => true
  | _ => false

namespace SyncState

def stores (s : SyncState) : NodeID → Storage := s.replicas.stores

def setService (s : SyncState) (n : NodeID) (ae : AntiEntropy) : SyncState :=
  { s with services := Function.update s.services n ae }

def setScheduler (s : SyncState) (n : NodeID) (g : Scheduler) : SyncState :=
  { s with schedulers := Function.update s.schedulers n g }

/-- The state after a step of the pushes of a node. -/
def setSender (s : SyncState) (n : NodeID) (next : Replicas × Sender) : SyncState :=
  { s with replicas := next.1 }.setScheduler n { s.schedulers n with pending := some next.2 }

/-- The bucket of a key on a node. -/
def bucketOf (s : SyncState) (n : NodeID) (key : Bytes) : ℕ := (s.services n).bucketOf key

/-- The end of a tick. -/
def endTick (s : SyncState) (n : NodeID) : SyncState :=
  let g := s.schedulers n
  s.setScheduler n { g with
    running := false
    rangeIdx := (g.rangeIdx + 1) % 2 ^ (s.services n).merkleTree.depth
    completed := g.completed + 1 }

/-- One step of the nodes `members` of the ring. -/
def step (members : List NodeID) (s : SyncState) : SyncEvent → Option SyncState
  | .tick n allNodes =>
    let g := s.schedulers n
    if n ∈ members ∧ g.running = false then
      some (s.setScheduler n
        { g with running := true, peers := (allNodes.run members).filter fun m => m ≠ n })
    else none
  | .compare n peerRoot scan =>
    let g := s.schedulers n
    match g.pending, g.peers with
    | none, m :: rest =>
      let (pending, ae) := (s.services n).beginExchange (s.stores n) peerRoot scan m g.rangeIdx
      some ((s.setService n ae).setScheduler n { g with peers := rest, pending })
    | _, _ => none
  | .send n e =>
    (s.schedulers n).pending.bind fun c => (c.step s.replicas e).map (s.setSender n)
  | .advance n =>
    let g := s.schedulers n
    match g.pending with
    | some c => if c.todo = [] then some (s.setScheduler n { g with pending := none }) else none
    | none => if g.running = true ∧ g.peers = [] then some (s.endTick n) else none
  | .serveRoot n => some (s.setService n
      { s.services n with merkleTree := (s.services n).merkleTree.getRoot.2 })
  | .put t n env key siblings =>
    (s.replicas.beginPut t n env key siblings).map fun next => { s with replicas := next.2 }
  | .commit t => (s.replicas.commit t).map fun replicas => { s with replicas }
  | .notify n report => some (s.setService n ((s.services n).report report))

/-- No call of `Storage.Put` prunes anything or writes over a record that has changed since it read
it, and what is written has valid node ids and does not expire. -/
def Gentle (s : SyncState) : SyncEvent → Prop
  | .send n e => ∀ c ∈ (s.schedulers n).pending, c.Gentle s.replicas e
  | .put _ n env key siblings =>
    Storage.NoPrune env (s.stores n) key siblings ∧
      ∀ x ∈ siblings, Lasting x ∧ x.vclock.Readable
  | .commit t => s.replicas.Atomic t
  | .tick _ _ | .compare _ _ _ | .advance _ | .serveRoot _ | .notify _ _ => True

instance (s : SyncState) : (e : SyncEvent) → Decidable (s.Gentle e)
  | .send n _ => inferInstanceAs (Decidable (∀ c ∈ (s.schedulers n).pending, _))
  | .put _ _ _ _ _ => inferInstanceAs (Decidable (_ ∧ _))
  | .commit t => inferInstanceAs (Decidable (s.replicas.Atomic t))
  | .tick _ _ | .compare _ _ _ | .advance _ | .serveRoot _ | .notify _ _ => isTrue trivial

/-- The exchanges do not fail: the comparison goes well, and when the exchange is over no push has
failed. -/
def Succeeds (s : SyncState) : SyncEvent → Prop
  | .compare n peerRoot scan => ∀ m ∈ (s.schedulers n).peers.head?,
      (s.services n).Compares (s.stores n) (s.stores m) peerRoot scan (s.schedulers n).rangeIdx
  | .advance n => ∀ c ∈ (s.schedulers n).pending, c.failed = false
  | _ => True

instance (s : SyncState) : (e : SyncEvent) → Decidable (s.Succeeds e)
  | .compare n _ _ => inferInstanceAs (Decidable (∀ m ∈ (s.schedulers n).peers.head?, _))
  | .advance n => inferInstanceAs (Decidable (∀ c ∈ (s.schedulers n).pending, _))
  | .tick _ _ | .send _ _ | .serveRoot _ | .put _ _ _ _ _ | .commit _ | .notify _ _ =>
    isTrue trivial

/-- Stores are written to gently, and the exchanges of the node succeed. -/
def Delivers (n : NodeID) (s : SyncState) (e : SyncEvent) : Prop :=
  s.Gentle e ∧ (e.scheduler = some n → s.Succeeds e)

instance (n : NodeID) (s : SyncState) (e : SyncEvent) : Decidable (Delivers n s e) :=
  inferInstanceAs (Decidable (_ ∧ _))

/-- Stores are written to gently and by exchanges only, and all of these succeed. -/
def Settling (s : SyncState) (e : SyncEvent) : Prop :=
  s.Gentle e ∧ s.Succeeds e ∧ e.isPut = false

instance (s : SyncState) (e : SyncEvent) : Decidable (s.Settling e) :=
  inferInstanceAs (Decidable (_ ∧ _ ∧ _))

/-! ## What a step does -/

variable {members : List NodeID} {s t : SyncState} {e : SyncEvent}

/-- The stores and the schedulers after a step. -/
inductive Moved (members : List NodeID) (s t : SyncState) : SyncEvent → Prop
  | tick (n : NodeID) (allNodes : MapOrder NodeID) (hn : n ∈ members)
      (hreplicas : t.replicas = s.replicas)
      (hsched : t.schedulers = Function.update s.schedulers n { s.schedulers n with
        running := true, peers := (allNodes.run members).filter fun m => m ≠ n }) :
      Moved members s t (.tick n allNodes)
  | compared (n m : NodeID) (rest : List NodeID) (peerRoot : Except RPCFailure Bytes)
      (scan : ScanEnv) (hpeers : (s.schedulers n).peers = m :: rest)
      (hpending : (s.schedulers n).pending = none) (hreplicas : t.replicas = s.replicas)
      (hsched : t.schedulers = Function.update s.schedulers n { s.schedulers n with
        peers := rest
        pending := ((s.services n).beginExchange (s.stores n) peerRoot scan m
          (s.schedulers n).rangeIdx).1 }) :
      Moved members s t (.compare n peerRoot scan)
  | sent (n : NodeID) (e : SenderEvent) (c c' : Sender) (hpending : (s.schedulers n).pending = some c)
      (hsend : c.step s.replicas e = some (t.replicas, c'))
      (hsched : t.schedulers = Function.update s.schedulers n { s.schedulers n with
        pending := some c' }) : Moved members s t (.send n e)
  | exchanged (n : NodeID) (c : Sender) (hpending : (s.schedulers n).pending = some c)
      (htodo : c.todo = []) (hreplicas : t.replicas = s.replicas)
      (hsched : t.schedulers = Function.update s.schedulers n { s.schedulers n with
        pending := none }) : Moved members s t (.advance n)
  | ended (n : NodeID) (hpending : (s.schedulers n).pending = none)
      (hrunning : (s.schedulers n).running = true) (hpeers : (s.schedulers n).peers = [])
      (hreplicas : t.replicas = s.replicas)
      (hsched : t.schedulers = Function.update s.schedulers n { s.schedulers n with
        running := false
        rangeIdx := ((s.schedulers n).rangeIdx + 1) % 2 ^ (s.services n).merkleTree.depth
        completed := (s.schedulers n).completed + 1 }) : Moved members s t (.advance n)
  | put (u : ℕ) (n : NodeID) (env : CallEnv) (key : Bytes) (siblings : SiblingSet)
      (err : Option StorageError)
      (hput : s.replicas.beginPut u n env key siblings = some (err, t.replicas))
      (hsched : t.schedulers = s.schedulers) : Moved members s t (.put u n env key siblings)
  | committed (u : ℕ) (hcommit : s.replicas.commit u = some t.replicas)
      (hsched : t.schedulers = s.schedulers) : Moved members s t (.commit u)
  | quiet (e : SyncEvent) (hreplicas : t.replicas = s.replicas)
      (hsched : t.schedulers = s.schedulers) : Moved members s t e

theorem moved_of_step (h : s.step members e = some t) : Moved members s t e := by
  cases e with
  | tick n allNodes =>
    simp only [step, Option.ite_none_right_eq_some] at h
    obtain ⟨⟨hn, -⟩, h⟩ := h
    cases h
    exact .tick n allNodes hn rfl rfl
  | compare n peerRoot scan =>
    simp only [step] at h
    split at h
    · rename_i m rest hpending hpeers
      cases h
      exact .compared n m rest peerRoot scan hpeers hpending rfl rfl
    · cases h
  | send n e =>
    obtain ⟨c, hc, h⟩ := Option.bind_eq_some_iff.1 h
    obtain ⟨⟨r, c'⟩, hsend, rfl⟩ := Option.map_eq_some_iff.1 h
    exact .sent n e c c' hc hsend rfl
  | advance n =>
    simp only [step] at h
    split at h
    · rename_i c hpending
      obtain ⟨htodo, h⟩ := Option.ite_none_right_eq_some.1 h
      cases h
      exact .exchanged n c hpending htodo rfl rfl
    · rename_i hpending
      obtain ⟨⟨hrunning, hpeers⟩, h⟩ := Option.ite_none_right_eq_some.1 h
      cases h
      exact .ended n hpending hrunning hpeers rfl rfl
  | put u n env key siblings =>
    obtain ⟨⟨err, r⟩, hput, rfl⟩ := Option.map_eq_some_iff.1 h
    exact .put u n env key siblings err hput rfl
  | commit u =>
    obtain ⟨r, hcommit, rfl⟩ := Option.map_eq_some_iff.1 h
    exact .committed u hcommit rfl
  | serveRoot n =>
    cases h
    exact .quiet _ rfl rfl
  | notify n report =>
    cases h
    exact .quiet _ rfl rfl

theorem depth_setService (s : SyncState) (n : NodeID) {ae : AntiEntropy}
    (h : ae.merkleTree.depth = (s.services n).merkleTree.depth) (k : NodeID) :
    ((s.setService n ae).services k).merkleTree.depth = (s.services k).merkleTree.depth := by
  by_cases hk : k = n
  · subst hk
    simp only [setService, Function.update_self, h]
  · simp only [setService, Function.update_of_ne hk]

/-- The depths of the trees stay as they are. -/
theorem depth_step (h : s.step members e = some t) (k : NodeID) :
    (t.services k).merkleTree.depth = (s.services k).merkleTree.depth := by
  cases e with
  | tick n allNodes =>
    cases (Option.ite_none_right_eq_some.1 h).2
    rfl
  | compare n peerRoot scan =>
    simp only [step] at h
    split at h
    · cases h
      refine s.depth_setService n ?_ k
      rw [AntiEntropy.beginExchange_fixed]
      exact (s.services n).merkleTree.getRoot_snd.1
    · cases h
  | send n e =>
    obtain ⟨c, -, h⟩ := Option.bind_eq_some_iff.1 h
    obtain ⟨next, -, rfl⟩ := Option.map_eq_some_iff.1 h
    rfl
  | advance n =>
    simp only [step] at h
    split at h
    · cases (Option.ite_none_right_eq_some.1 h).2
      rfl
    · cases (Option.ite_none_right_eq_some.1 h).2
      rfl
  | serveRoot n =>
    cases h
    exact s.depth_setService n (s.services n).merkleTree.getRoot_snd.1 k
  | put u n env key siblings =>
    obtain ⟨next, -, rfl⟩ := Option.map_eq_some_iff.1 h
    rfl
  | commit u =>
    obtain ⟨r, -, rfl⟩ := Option.map_eq_some_iff.1 h
    rfl
  | notify n report =>
    cases h
    exact s.depth_setService n ((s.services n).report_fixed report).2 k

/-! ## Exchanges without interruption -/

/-- A step of a sender, and of the calls that serve it, as one of a scheduler. -/
def ofLone (n : NodeID) : Sender.LoneEvent → SyncEvent
  | .send e => .send n e
  | .commit t => .commit t

theorem setSender_setSender (s : SyncState) (n : NodeID) (next next' : Replicas × Sender) :
    (s.setSender n next).setSender n next' = s.setSender n next' := by
  simp only [setSender, setScheduler, Function.update_self, Function.update_idem]

theorem step_ofLone (members : List NodeID) (s : SyncState) (n : NodeID) (next : Replicas × Sender)
    (e : Sender.LoneEvent) :
    (s.setSender n next).step members (ofLone n e) = (Sender.lone next e).map (s.setSender n) := by
  cases e with
  | send e =>
    have hpending : ((s.setSender n next).schedulers n).pending = some next.2 := by
      simp only [setSender, setScheduler, Function.update_self]
    simp only [ofLone, step, hpending, Option.bind_some, Sender.lone]
    exact congrArg (Option.map · _) (funext (s.setSender_setSender n next))
  | commit t =>
    simp only [ofLone, step, Sender.lone, Option.map_map]
    rfl

/-- An exchange that is not interrupted is `exchangeWithPeer`. -/
theorem exec_exchange (members : List NodeID) (hroom : s.replicas.Roomy) {n m : NodeID}
    {rest : List NodeID} (hpeers : (s.schedulers n).peers = m :: rest)
    (hpending : (s.schedulers n).pending = none) (env : ExchangeEnv) :
    let exchanged := ((s.services n).exchangeWithPeer env (s.stores n) (s.schedulers n).rangeIdx
      (s.stores m)).2
    ∃ es t, exec (step members) s es = some t ∧
      t.stores = Function.update s.stores m exchanged.1 ∧
      t.services = Function.update s.services n exchanged.2 ∧
      t.schedulers = Function.update s.schedulers n { s.schedulers n with peers := rest } := by
  intro exchanged
  obtain ⟨hservice, hnone, hsome⟩ := AntiEntropy.exec_exchange hroom env (s.services n) (s.stores n) m
    (s.schedulers n).rangeIdx
  let begun := (s.services n).beginExchange (s.stores n) env.peerRoot env.scan m
    (s.schedulers n).rangeIdx
  let s₁ := (s.setService n begun.2).setScheduler n
    { s.schedulers n with peers := rest, pending := begun.1 }
  have hcompare : s.step members (.compare n env.peerRoot env.scan) = some s₁ := by
    simp only [step, hpending, hpeers]
    rfl
  have hservices : s₁.services = Function.update s.services n exchanged.2 :=
    congrArg (Function.update s.services n) hservice
  have hidle : { s.schedulers n with peers := rest, pending := none } =
      { s.schedulers n with peers := rest } := by rw [← hpending]
  cases hbegun : begun.1 with
  | none =>
    refine ⟨[.compare n env.peerRoot env.scan], s₁, ?_, ?_, hservices, ?_⟩
    · rw [exec, hcompare]
      rfl
    · exact (Function.update_eq_self_iff.2 (hnone hbegun)).symm
    · simp only [s₁, setScheduler, setService, hbegun, hidle]
  | some c =>
    obtain ⟨es, r', failed, hes, -, hstores⟩ := hsome c hbegun
    have hs₁ : s₁.setSender n (s.replicas, c) = s₁ := by
      simp only [s₁, setSender, setScheduler, setService, hbegun, Function.update_self,
        Function.update_idem]
    have hpushes := exec_map (s₁.setSender n) (ofLone n) (step_ofLone members s₁ n) (s.replicas, c) es
    rw [hs₁, hes, Option.map_some] at hpushes
    refine ⟨.compare n env.peerRoot env.scan :: (es.map (ofLone n) ++ [.advance n]),
      (s₁.setSender n (r', ⟨[], none, failed⟩)).setScheduler n
        { s.schedulers n with peers := rest, pending := none }, ?_, hstores, hservices, ?_⟩
    · rw [exec, hcompare, Option.bind_some, exec_append, hpushes]
      simp only [Option.bind_some, exec, step, setSender, setScheduler, s₁, Function.update_self,
        if_true]
    · simp only [setSender, setScheduler, s₁, setService, Function.update_idem, hidle]

/-! ## The stores -/

section Clean

variable {P : NodeID → Bytes → Sibling → Prop}

/-- Everything in the stores, in the calls on them and in the exchanges under way has the property.
-/
structure Clean (P : NodeID → Bytes → Sibling → Prop) (s : SyncState) : Prop where
  replicas : s.replicas.Clean P
  pending : ∀ n c, (s.schedulers n).pending = some c → c.Valid P s.replicas

/-- What a scheduler is sending it was sending before, or it goes on with it, or it begins to. -/
theorem Moved.pending (h : Moved members s t e) {n : NodeID} {c : Sender}
    (hc : (t.schedulers n).pending = some c) : (s.schedulers n).pending = some c ∨
      (∃ e' c₀, (s.schedulers n).pending = some c₀ ∧
        c₀.step s.replicas e' = some (t.replicas, c)) ∨
      ∃ m peerRoot scan, e = .compare n peerRoot scan ∧ m ∈ (s.schedulers n).peers ∧
        ((s.services n).beginExchange (s.stores n) peerRoot scan m
          (s.schedulers n).rangeIdx).1 = some c := by
  -- only the scheduler that takes the step changes
  have hupdate : ∀ {k : NodeID} {g : Scheduler}, t.schedulers = Function.update s.schedulers k g →
      n = k ∧ g.pending = some c ∨ (s.schedulers n).pending = some c := by
    intro k g hsched
    by_cases hn : n = k
    · refine Or.inl ⟨hn, ?_⟩
      rwa [hsched, hn, Function.update_self] at hc
    · rw [hsched, Function.update_of_ne hn] at hc
      exact Or.inr hc
  cases h with
  | tick k _ _ _ hsched =>
    rcases hupdate hsched with ⟨rfl, hsame⟩ | hsame
    · exact Or.inl hsame
    · exact Or.inl hsame
  | compared k m rest peerRoot scan hpeers _ _ hsched =>
    rcases hupdate hsched with ⟨rfl, hbegun⟩ | hsame
    · exact Or.inr (Or.inr ⟨m, peerRoot, scan, rfl, hpeers ▸ List.mem_cons_self, hbegun⟩)
    · exact Or.inl hsame
  | sent k e c₀ c' hpending hsend hsched =>
    rcases hupdate hsched with ⟨rfl, hnew⟩ | hsame
    · obtain rfl := Option.some.inj hnew
      exact Or.inr (Or.inl ⟨e, c₀, hpending, hsend⟩)
    · exact Or.inl hsame
  | exchanged k _ _ _ _ hsched =>
    rcases hupdate hsched with ⟨rfl, hnew⟩ | hsame
    · cases hnew
    · exact Or.inl hsame
  | ended k _ _ _ _ hsched =>
    rcases hupdate hsched with ⟨rfl, hsame⟩ | hsame
    · exact Or.inl hsame
    · exact Or.inl hsame
  | put _ _ _ _ _ _ _ hsched => exact Or.inl (hsched ▸ hc)
  | committed _ _ hsched => exact Or.inl (hsched ▸ hc)
  | quiet _ _ hsched => exact Or.inl (hsched ▸ hc)

/-- Every store covers what it covered before the step. -/
theorem Clean.replicas_moved (h : s.Clean P)
    (hP : ∀ n key x, P n key x → Lasting x ∧ x.vclock.Readable) (hok : s.Gentle e)
    (hput : ∀ u n env key siblings, e = .put u n env key siblings → ∀ x ∈ siblings, P n key x)
    (hmoved : Moved members s t e) : t.replicas.Clean P ∧ s.replicas.Extends t.replicas ∧
      ∀ n, (s.stores n).Advances (t.stores n) := by
  have hself : ∀ n, (s.stores n).Advances (s.stores n) :=
    fun n => (h.replicas.sound n).advances_self
  have hsame : t.replicas = s.replicas → t.replicas.Clean P ∧ s.replicas.Extends t.replicas ∧
      ∀ n, (s.stores n).Advances (t.stores n) := by
    intro hreplicas
    unfold stores
    rw [hreplicas]
    exact ⟨h.replicas, Replicas.Extends.refl _, hself⟩
  cases hmoved with
  | sent n e c c' hpending hsend hsched =>
    obtain ⟨hstores, hext⟩ := Sender.stores_step hsend
    refine ⟨Sender.clean_step h.replicas (h.pending n c hpending) (hok c hpending) hsend, hext, ?_⟩
    unfold stores
    rw [hstores]
    exact hself
  | put u n env key siblings err hbegin hsched =>
    obtain ⟨hstores, hext, -⟩ := Replicas.beginPut_cases hbegin
    refine ⟨h.replicas.beginPut hok.1 (hput u n env key siblings rfl) hbegin, hext, ?_⟩
    unfold stores
    rw [hstores]
    exact hself
  | committed u hcommit hsched =>
    obtain ⟨hclean, hadv⟩ := h.replicas.commit hP hok hcommit
    obtain ⟨-, -, hext, -⟩ := Replicas.commit_cases hcommit
    exact ⟨hclean, hext, hadv⟩
  | tick _ _ _ hreplicas _ => exact hsame hreplicas
  | compared _ _ _ _ _ _ _ hreplicas _ => exact hsame hreplicas
  | exchanged _ _ _ _ hreplicas _ => exact hsame hreplicas
  | ended _ _ _ _ hreplicas _ => exact hsame hreplicas
  | quiet _ hreplicas _ => exact hsame hreplicas

theorem Clean.moved (h : s.Clean P) (hP : ∀ n key x, P n key x → Lasting x ∧ x.vclock.Readable)
    (hok : s.Gentle e)
    (hput : ∀ u n env key siblings, e = .put u n env key siblings → ∀ x ∈ siblings, P n key x)
    (hsend : ∀ n, (s.schedulers n).peers ≠ [] → ∀ m key x, P n key x → Sender.Sends P m key x)
    (hmoved : Moved members s t e) :
    t.Clean P ∧ ∀ n, (s.stores n).Advances (t.stores n) := by
  obtain ⟨hclean, hext, hadv⟩ := h.replicas_moved hP hok hput hmoved
  refine ⟨⟨hclean, fun n c hc => ?_⟩, hadv⟩
  rcases hmoved.pending hc with hsame | ⟨e', c₀, hc₀, hstep⟩ | ⟨m, peerRoot, scan, rfl, hm, hbegun⟩
  · exact (h.pending n c hsame).mono hext
  · exact (h.pending n c₀ hc₀).step hstep
  · exact AntiEntropy.valid_beginExchange (h.replicas.sound n) (fun key x hx =>
      hsend n (List.ne_nil_of_mem hm) m key x (h.replicas.held n key x hx)) hbegun

/-- The same where nothing is asked but that siblings last. -/
theorem Clean.moved_lasts (h : s.Clean Lasts) (hok : s.Gentle e) (hmoved : Moved members s t e) :
    t.Clean Lasts ∧ ∀ n, (s.stores n).Advances (t.stores n) := by
  refine h.moved (fun _ _ _ hx => hx) hok ?_ (fun _ _ _ _ _ hx => hx.sends) hmoved
  rintro u n env key siblings rfl
  exact hok.2

end Clean

/-! ## One node goes through its buckets -/

section Spread

variable {n : NodeID} {key : Bytes} {vc : VectorClock} {s₀ : SyncState} {k : ℕ}

/-- In the present tick the peer is still to be visited, or the exchange under way has failed or has
still to send it a sibling that covers the clock, or it covers the clock. -/
def Underway (n : NodeID) (key : Bytes) (vc : VectorClock) (s : SyncState) (m : NodeID) : Prop :=
  m ∈ (s.schedulers n).peers ∨
    (∃ c, (s.schedulers n).pending = some c ∧ (c.failed = true ∨ c.Owes m key vc)) ∨
    Covers Sibling.vclock ((s.stores m).held key) vc

/-- The state after `k` ticks since `s₀`, the one that was under way in `s₀` included.  What is said
about ticks does not concern that one. -/
structure Spreading (members : List NodeID) (n : NodeID) (key : Bytes) (vc : VectorClock)
    (s₀ : SyncState) (k : ℕ) (s : SyncState) : Prop where
  clean : s.Clean Lasts
  depth : (s.services n).merkleTree.depth = (s₀.services n).merkleTree.depth
  source : Covers Sibling.vclock ((s.stores n).held key) vc
  completed : (s.schedulers n).completed = (s₀.schedulers n).completed + k
  start : k = 0 → (s.schedulers n).rangeIdx = (s₀.schedulers n).rangeIdx
  range : 1 ≤ k → (s.schedulers n).rangeIdx =
    ((s₀.schedulers n).rangeIdx + k) % 2 ^ (s₀.services n).merkleTree.depth
  done : ∀ i, 1 ≤ i → i < k →
    ((s₀.schedulers n).rangeIdx + i) % 2 ^ (s₀.services n).merkleTree.depth = s₀.bucketOf n key →
    ∀ m ∈ members, m ≠ n → Covers Sibling.vclock ((s.stores m).held key) vc
  tick : 1 ≤ k → (s.schedulers n).running = true →
    (s.schedulers n).rangeIdx = s₀.bucketOf n key → ∀ m ∈ members, m ≠ n → Underway n key vc s m

theorem Spreading.bucketOf (h : Spreading members n key vc s₀ k s) :
    (s.services n).bucketOf key = s₀.bucketOf n key := by
  unfold SyncState.bucketOf
  rw [AntiEntropy.bucketOf_congr h.depth]

/-- A step in which the counters of the scheduler stay and nothing is lost of what is under way. -/
theorem Spreading.frame (h : Spreading members n key vc s₀ k s) (hok : s.Gentle e)
    (hstep : s.step members e = some t)
    (hcompleted : (t.schedulers n).completed = (s.schedulers n).completed)
    (hrange : (t.schedulers n).rangeIdx = (s.schedulers n).rangeIdx)
    (htick : 1 ≤ k → (t.schedulers n).running = true →
      (s.schedulers n).rangeIdx = s₀.bucketOf n key → ∀ m ∈ members, m ≠ n →
        Underway n key vc t m) : Spreading members n key vc s₀ k t := by
  obtain ⟨hclean, hadv⟩ := h.clean.moved_lasts hok (moved_of_step hstep)
  exact {
    clean := hclean
    depth := (depth_step hstep n).trans h.depth
    source := (hadv n).2 key vc h.source
    completed := hcompleted.trans h.completed
    start := fun hk => hrange.trans (h.start hk)
    range := fun hk => hrange.trans (h.range hk)
    done := fun i hi hik hb m hm hne => (hadv m).2 key vc (h.done i hi hik hb m hm hne)
    tick := fun hk hrun hidx => htick hk hrun (hrange.symm.trans hidx) }

/-- A step after which what is under way is so still. -/
theorem Spreading.keeps (h : Spreading members n key vc s₀ k s) (hok : s.Gentle e)
    (hstep : s.step members e = some t)
    (hsched : t.schedulers n = { s.schedulers n with
      peers := (t.schedulers n).peers, pending := (t.schedulers n).pending })
    (hpeers : (s.schedulers n).rangeIdx = s₀.bucketOf n key → ∀ m ∈ (s.schedulers n).peers,
      Underway n key vc t m)
    (hpending : ∀ c, (s.schedulers n).pending = some c → ∀ m, c.failed = true ∨ c.Owes m key vc →
      Underway n key vc t m) : Spreading members n key vc s₀ k t := by
  refine h.frame hok hstep (by rw [hsched]) (by rw [hsched]) fun hk hrun hidx m hm hne => ?_
  rw [hsched] at hrun
  rcases h.tick hk hrun hidx m hm hne with hpeer | ⟨c, hc, howes⟩ | hcov
  · exact hpeers hidx m hpeer
  · exact hpending c hc m howes
  · exact Or.inr (Or.inr ((h.clean.moved_lasts hok (moved_of_step hstep)).2 m |>.2 key vc hcov))

/-- A step of another node. -/
theorem Spreading.other (h : Spreading members n key vc s₀ k s) (hok : s.Gentle e)
    (hstep : s.step members e = some t) (hsame : t.schedulers n = s.schedulers n) :
    Spreading members n key vc s₀ k t := by
  refine h.keeps hok hstep (by rw [hsame]) (fun _ m hm => Or.inl (hsame ▸ hm)) fun c hc m howes => ?_
  exact Or.inr (Or.inl ⟨c, hsame ▸ hc, howes⟩)

/-- The node compares roots: what it covers is going to be sent to the peer, or the peer covers it.
-/
theorem Spreading.compared (h : Spreading members n key vc s₀ k s)
    {peerRoot : Except RPCFailure Bytes} {scan : ScanEnv}
    (hdel : s.Succeeds (.compare n peerRoot scan))
    (hstep : s.step members (.compare n peerRoot scan) = some t) {m : NodeID} {rest : List NodeID}
    (hpeers : (s.schedulers n).peers = m :: rest) (hpending : (s.schedulers n).pending = none)
    (hreplicas : t.replicas = s.replicas)
    (hsched : t.schedulers n = { s.schedulers n with
      peers := rest
      pending := ((s.services n).beginExchange (s.stores n) peerRoot scan m
        (s.schedulers n).rangeIdx).1 }) : Spreading members n key vc s₀ k t := by
  have hok : s.Gentle (.compare n peerRoot scan) := trivial
  refine h.keeps hok hstep (by rw [hsched]) (fun hidx m' hm' => ?_) fun c hc => ?_
  · rw [hpeers] at hm'
    rcases List.mem_cons.1 hm' with rfl | hm'
    · have hcompares := hdel m' (by rw [hpeers]; rfl)
      rw [hidx, ← h.bucketOf] at hcompares
      rcases AntiEntropy.owes_beginExchange m' (h.clean.replicas.sound n) hcompares h.source with
        ⟨-, hcov⟩ | ⟨c, hc, howes⟩
      · refine Or.inr (Or.inr ?_)
        unfold stores
        rw [hreplicas]
        exact hcov
      · refine Or.inr (Or.inl ⟨c, ?_, Or.inr howes⟩)
        rw [hsched, hidx, ← h.bucketOf]
        exact hc
    · exact Or.inl (by rw [hsched]; exact hm')
  · rw [hpending] at hc
    cases hc

/-- A push goes on, and what it was to send is still to be sent or has arrived. -/
theorem Spreading.sent (h : Spreading members n key vc s₀ k s) {e : SenderEvent}
    (hok : s.Gentle (.send n e)) (hstep : s.step members (.send n e) = some t) {c c' : Sender}
    (hpending : (s.schedulers n).pending = some c)
    (hsend : c.step s.replicas e = some (t.replicas, c'))
    (hsched : t.schedulers n = { s.schedulers n with pending := some c' }) :
    Spreading members n key vc s₀ k t := by
  have hnew : (t.schedulers n).pending = some c' := by rw [hsched]
  refine h.keeps hok hstep (by rw [hsched]) (fun _ m hm => Or.inl (by rw [hsched]; exact hm)) ?_
  intro c₀ hc₀ m howes
  obtain rfl := Option.some.inj (hpending.symm.trans hc₀)
  cases hfailed : c'.failed with
  | true => exact Or.inr (Or.inl ⟨c', hnew, Or.inl hfailed⟩)
  | false =>
    have howes : c.Owes m key vc := by
      refine howes.resolve_left ?_
      rw [Sender.failed_step hsend hfailed]
      exact Bool.false_ne_true
    rcases Sender.owes_step h.clean.replicas (h.clean.pending n c hpending) hsend hfailed howes with
      howes | hcov
    · exact Or.inr (Or.inl ⟨c', hnew, Or.inr howes⟩)
    · exact Or.inr (Or.inr hcov)

/-- At the end of an exchange nothing is left to be sent. -/
theorem Spreading.exchanged (h : Spreading members n key vc s₀ k s)
    (hdel : s.Succeeds (.advance n)) (hstep : s.step members (.advance n) = some t) {c : Sender}
    (hpending : (s.schedulers n).pending = some c) (htodo : c.todo = [])
    (hsched : t.schedulers n = { s.schedulers n with pending := none }) :
    Spreading members n key vc s₀ k t := by
  have hok : s.Gentle (.advance n) := trivial
  refine h.keeps hok hstep (by rw [hsched]) (fun _ m hm => Or.inl (by rw [hsched]; exact hm)) ?_
  intro c₀ hc₀ m howes
  obtain rfl := Option.some.inj (hpending.symm.trans hc₀)
  rcases howes with hfailed | ⟨w, hw, -⟩
  · rw [hdel c hpending] at hfailed
    cases hfailed
  · rw [htodo] at hw
    cases hw

/-- At the end of a tick every peer covers the clock if it was the tick of its bucket. -/
theorem Spreading.ended (h : Spreading members n key vc s₀ k s)
    (hstep : s.step members (.advance n) = some t) (hpending : (s.schedulers n).pending = none)
    (hrunning : (s.schedulers n).running = true) (hpeers : (s.schedulers n).peers = [])
    (hreplicas : t.replicas = s.replicas)
    (hsched : t.schedulers n = { s.schedulers n with
      running := false
      rangeIdx := ((s.schedulers n).rangeIdx + 1) % 2 ^ (s.services n).merkleTree.depth
      completed := (s.schedulers n).completed + 1 }) :
    ∃ k, Spreading members n key vc s₀ k t := by
  have hstores : t.stores = s.stores := by
    unfold stores
    rw [hreplicas]
  refine ⟨k + 1, {
    clean := (h.clean.moved_lasts (e := .advance n) trivial (moved_of_step hstep)).1
    depth := (depth_step hstep n).trans h.depth
    source := by rw [hstores]; exact h.source
    completed := by rw [hsched, h.completed]; rfl
    start := fun hk => absurd hk (Nat.succ_ne_zero k)
    range := fun _ => ?_
    done := fun i hi hik hb m hm hne => ?_
    tick := fun _ hrun => by rw [hsched] at hrun; cases hrun }⟩
  · rw [hsched, ← h.depth]
    rcases Nat.eq_zero_or_pos k with rfl | hk
    · simp only [h.start rfl, Nat.zero_add]
    · simp only [h.range hk, h.depth, Nat.mod_add_mod, Nat.add_assoc]
  · rw [hstores]
    rcases Nat.lt_succ_iff_lt_or_eq.1 hik with hik | rfl
    · exact h.done i hi hik hb m hm hne
    · rcases h.tick hi hrunning ((h.range hi).trans hb) m hm hne with hpeer | ⟨_, hrec, -⟩ | hcov
      · rw [hpeers] at hpeer
        cases hpeer
      · rw [hpending] at hrec
        cases hrec
      · exact hcov

theorem Spreading.step (h : Spreading members n key vc s₀ k s) (hdel : s.Delivers n e)
    (hstep : s.step members e = some t) : ∃ k, Spreading members n key vc s₀ k t := by
  obtain ⟨hok, hdel⟩ := hdel
  have hupdate : ∀ {j : NodeID} {g : Scheduler}, t.schedulers = Function.update s.schedulers j g →
      (n = j → t.schedulers n = g → ∃ k, Spreading members n key vc s₀ k t) →
      ∃ k, Spreading members n key vc s₀ k t := by
    intro j g hsched himp
    by_cases hn : n = j
    · exact himp hn (by rw [hsched, hn, Function.update_self])
    · exact ⟨k, h.other hok hstep (by rw [hsched, Function.update_of_ne hn])⟩
  cases moved_of_step hstep with
  | tick j allNodes _ _ hsched =>
    refine hupdate hsched fun hn hg => ⟨k, h.frame hok hstep (by rw [hg, hn]) (by rw [hg, hn]) ?_⟩
    intro _ _ _ m hm hne
    rw [hn] at hne
    exact Or.inl (hg ▸ List.mem_filter.2 ⟨(allNodes.perm _).mem_iff.2 hm, decide_eq_true hne⟩)
  | compared j m rest peerRoot scan hpeers hpending hreplicas hsched =>
    refine hupdate hsched fun hn hg => ?_
    subst hn
    exact ⟨k, h.compared (hdel rfl) hstep hpeers hpending hreplicas hg⟩
  | sent j e c c' hpending hsend hsched =>
    refine hupdate hsched fun hn hg => ?_
    subst hn
    exact ⟨k, h.sent hok hstep hpending hsend hg⟩
  | exchanged j c hpending htodo _ hsched =>
    refine hupdate hsched fun hn hg => ?_
    subst hn
    exact ⟨k, h.exchanged (hdel rfl) hstep hpending htodo hg⟩
  | ended j hpending hrunning hpeers hreplicas hsched =>
    refine hupdate hsched fun hn hg => ?_
    subst hn
    exact h.ended hstep hpending hrunning hpeers hreplicas hg
  | put _ _ _ _ _ _ _ hsched => exact ⟨k, h.other hok hstep (by rw [hsched])⟩
  | committed _ _ hsched => exact ⟨k, h.other hok hstep (by rw [hsched])⟩
  | quiet _ _ hsched => exact ⟨k, h.other hok hstep (by rw [hsched])⟩

theorem Spreading.init (hclean : s₀.Clean Lasts)
    (hsource : Covers Sibling.vclock ((s₀.stores n).held key) vc) :
    Spreading members n key vc s₀ 0 s₀ where
  clean := hclean
  depth := rfl
  source := hsource
  completed := rfl
  start := fun _ => rfl
  range := fun hk => absurd hk (Nat.not_succ_le_zero 0)
  done := fun i _ hi => absurd hi (Nat.not_lt_zero i)
  tick := fun hk => absurd hk (Nat.not_succ_le_zero 0)

/-- What the node has covered in the beginning is covered everywhere once it has been through its
buckets. -/
theorem covers_of_runs (hclean : s₀.Clean Lasts)
    (hrun : Runs (step members) (Delivers n) s₀ s)
    (hticks : (s₀.schedulers n).completed + 2 ^ (s₀.services n).merkleTree.depth <
      (s.schedulers n).completed)
    (hsource : Covers Sibling.vclock ((s₀.stores n).held key) vc) {m : NodeID} (hm : m ∈ members) :
    s.Clean Lasts ∧ Covers Sibling.vclock ((s.stores m).held key) vc := by
  obtain ⟨k, h⟩ := hrun.invariant (fun s => ∃ k, Spreading members n key vc s₀ k s)
    ⟨0, .init hclean hsource⟩ fun _ _ _ ⟨_, h⟩ hok hstep => h.step hok hstep
  refine ⟨h.clean, ?_⟩
  by_cases hne : m = n
  · rw [hne]
    exact h.source
  · obtain ⟨i, hi, hle, hb⟩ := exists_mod_eq (s₀.schedulers n).rangeIdx
      (keyToBucket_lt sha256 (s₀.services n).merkleTree.depth key)
    have hik : i < k := by
      have := h.completed
      omega
    exact h.done i hi hik hb m hm hne

end Spread

/-- The two nodes that have both written the key `k`, with idle schedulers. -/
def twoWriters : SyncState where
  replicas := Replicas.idle fun n => if n = [110, 49] then storeOfN1 else storeOfN2
  services n := if n = [110, 49] then serviceOfN1 else serviceOfN2
  schedulers _ := ⟨false, 0, [], none, 0⟩

theorem twoWriters_clean : twoWriters.Clean Lasts where
  replicas := by
    have hsound : ∀ n : NodeID,
        (if n = [110, 49] then storeOfN1 else storeOfN2 : Storage).Sound := by
      intro n
      split_ifs
      · decide +kernel
      · decide +kernel
    exact Replicas.clean_idle hsound fun n _ _ hx => (hsound n).lasts n hx
  pending _ _ h := by cases h

/-- A tick of a node with one peer whose root is the same. -/
def quietTick (n : NodeID) (peerRoot : Bytes) : List SyncEvent :=
  [.tick n (MapOrder.inOrder NodeID), .compare n (.ok peerRoot) ScanEnv.quiet, .advance n]

/-- A tick of a node with one peer, in which one record is pushed.  Its siblings are served by the
given calls. -/
def tickOf (n : NodeID) (calls : List ℕ) : List SyncEvent :=
  [.tick n (MapOrder.inOrder NodeID), .compare n (.ok []) ScanEnv.quiet] ++
    calls.flatMap (fun t => [.send n (.deliver t (fun _ => 100) (CallEnv.steady 100)), .commit t,
      .send n .learn]) ++
    [.send n .next, .advance n, .advance n]

/-- The first node goes through its two buckets, and once more through the first, while the second
one fails in an exchange of its own, and writes. -/
def spreadingRun : List SyncEvent :=
  [.tick [110, 50] (MapOrder.inOrder NodeID),
      .compare [110, 50] (.error .unreachable) ScanEnv.quiet] ++
    tickOf [110, 49] [0] ++
    [.put 1 [110, 50] (CallEnv.steady 100) [107]
      [⟨[120], (VectorClock.new.set 100 [110, 50] 2), 100, false, 0⟩]] ++
    quietTick [110, 49] serviceOfN1.merkleTree.getRoot.1 ++ [.commit 1] ++ tickOf [110, 49] [2]

def afterSpreading : SyncState := stateAfter (step [[110, 49], [110, 50]]) twoWriters spreadingRun

section Converge

variable {s₀ : SyncState}

/-- The sibling has the clock of one that a node of the ring held in the state. -/
def Origin (members : List NodeID) (s₀ : SyncState) (key : Bytes) (x : Sibling) : Prop :=
  ∃ y ∈ members.flatMap fun n => (s₀.stores n).held key, AntisymmRel (· ≤ ·) x.vclock y.vclock

/-- What the nodes of the ring hold, and what is about to be pushed to them, comes from the stores of
the first state. -/
def Original (members : List NodeID) (s₀ : SyncState) (n : NodeID) (key : Bytes) (x : Sibling) :
    Prop :=
  Lasts n key x ∧ (n ∈ members → Origin members s₀ key x)

theorem Original.sends {n m : NodeID} {key : Bytes} {x : Sibling}
    (h : Original members s₀ n key x) (hn : n ∈ members) :
    Sender.Sends (Original members s₀) m key x := by
  have hlasts : Sender.Sends Lasts m key x := h.1.sends
  refine ⟨hlasts.1, fun stamp => ⟨hlasts.2 stamp, fun _ => ?_⟩⟩
  obtain ⟨y, hy, hxy⟩ := h.2 hn
  exact ⟨y, hy, (x.received_of_validIDs hlasts.1 stamp).2.symm.trans hxy⟩

structure Gathered (members : List NodeID) (s₀ : SyncState) (s : SyncState) : Prop where
  clean : s.Clean (Original members s₀)
  active : ∀ n, (s.schedulers n).peers ≠ [] → n ∈ members

theorem Moved.peers (h : Moved members s t e) {n : NodeID} (hp : (t.schedulers n).peers ≠ []) :
    n ∈ members ∨ (s.schedulers n).peers ≠ [] := by
  have hupdate : ∀ {k : NodeID} {g : Scheduler}, t.schedulers = Function.update s.schedulers k g →
      (n = k → g.peers ≠ [] → n ∈ members ∨ (s.schedulers n).peers ≠ []) →
      n ∈ members ∨ (s.schedulers n).peers ≠ [] := by
    intro k g hsched himp
    by_cases hn : n = k
    · refine himp hn ?_
      rwa [hsched, hn, Function.update_self] at hp
    · rw [hsched, Function.update_of_ne hn] at hp
      exact Or.inr hp
  cases h with
  | tick k _ hk _ hsched => exact hupdate hsched fun hn _ => Or.inl (hn ▸ hk)
  | compared k m rest _ _ hpeers _ _ hsched =>
    exact hupdate hsched fun hn _ => Or.inr (by rw [hn, hpeers]; exact List.cons_ne_nil _ _)
  | sent _ _ _ _ _ _ hsched => exact hupdate hsched fun hn hg => Or.inr (by rw [hn]; exact hg)
  | exchanged _ _ _ _ _ hsched => exact hupdate hsched fun hn hg => Or.inr (by rw [hn]; exact hg)
  | ended _ _ _ _ _ hsched => exact hupdate hsched fun hn hg => Or.inr (by rw [hn]; exact hg)
  | put _ _ _ _ _ _ _ hsched => exact Or.inr (hsched ▸ hp)
  | committed _ _ hsched => exact Or.inr (hsched ▸ hp)
  | quiet _ _ hsched => exact Or.inr (hsched ▸ hp)

theorem Gathered.step (h : Gathered members s₀ s) (hok : s.Settling e)
    (hstep : s.step members e = some t) : Gathered members s₀ t := by
  obtain ⟨hgentle, -, hnoput⟩ := hok
  have hmoved := moved_of_step hstep
  refine ⟨(h.clean.moved (fun _ _ _ hx => hx.1) hgentle ?_
    (fun n hn _ _ _ hx => hx.sends (h.active n hn)) hmoved).1, fun n hn => ?_⟩
  · rintro u n env key siblings rfl
    cases hnoput
  · exact (hmoved.peers hn).elim id (h.active n)

/-- Nobody writes to the stores. -/
def Idle (s : SyncState) : Prop :=
  (∀ t, s.replicas.puts t = none) ∧
    ∀ n, (s.schedulers n).peers = [] ∧ (s.schedulers n).pending = none

theorem Gathered.init (hclean : s₀.Clean Lasts) (hidle : s₀.Idle) : Gathered members s₀ s₀ where
  clean := by
    refine ⟨⟨hclean.replicas.sound, fun n key x hx => ?_, fun t p hp => ?_, fun t p hp => ?_⟩,
      fun n c hc => ?_⟩
    · exact ⟨hclean.replicas.held n key x hx, fun hn =>
        ⟨x, List.mem_flatMap.2 ⟨n, hn, hx⟩, AntisymmRel.refl _ _⟩⟩
    · rw [hidle.1 t] at hp
      cases hp
    · rw [hidle.1 t] at hp
      cases hp
    · rw [(hidle.2 n).2] at hc
      cases hc
  active := fun n hn => absurd (hidle.2 n).1 hn

end Converge

/-- If no client writes, all exchanges succeed, and no call of `Storage.Put` prunes anything or writes
over a record that has changed since it read it, then once every node has been through all its
buckets the nodes agree: in any order in which their schedulers have pushed, the records of a key
have the same maximal clocks everywhere, and these are the maximal clocks of all records of the key
at the beginning. -/
theorem schedulers_converge (members : List NodeID) (s₀ s : SyncState) (hclean : s₀.Clean Lasts)
    (hidle : s₀.Idle) (hrun : Runs (step members) Settling s₀ s)
    (hticks : ∀ n ∈ members, (s₀.schedulers n).completed +
      2 ^ (s₀.services n).merkleTree.depth < (s.schedulers n).completed) :
    ∀ key, ∀ m ∈ members, ∀ m' ∈ members, ∃ set set', (s.stores m).stored key = .ok set ∧
      (s.stores m').stored key = .ok set' ∧ SameMaximalClocks set set' ∧
      SameMaximalClocks set (members.flatMap fun n => (s₀.stores n).held key) := by
  intro key m hm m' hm'
  have hend := hrun.invariant (Gathered members s₀) (.init hclean hidle)
    fun _ _ _ h hok hstep => h.step hok hstep
  have hsame : ∀ m ∈ members, SameMaximalClocks ((s.stores m).held key)
      (members.flatMap fun n => (s₀.stores n).held key) := by
    intro m hm
    refine sameMaximalClocks_of_covers (fun y hy => ?_)
      fun x hx => (hend.clean.replicas.held m key x hx).2 hm
    obtain ⟨n, hn, hy⟩ := List.mem_flatMap.1 hy
    have hdel : Runs (SyncState.step members) (Delivers n) s₀ s :=
      hrun.mono fun _ _ hok => ⟨hok.1, fun _ => hok.2.1⟩
    exact (covers_of_runs hclean hdel (hticks n hn) ⟨y, hy, le_rfl⟩ hm).2
  have hsound := hend.clean.replicas.sound
  exact ⟨_, _, ((hsound m).stored_eq key).1, ((hsound m').stored_eq key).1,
    (hsame m hm).trans (hsame m' hm').symm, hsame m hm⟩

/-- Both nodes go through their two buckets, and once more through the first. -/
def settlingRun : List SyncEvent :=
  tickOf [110, 49] [0] ++ tickOf [110, 50] [1, 2] ++
    quietTick [110, 49] serviceOfN1.merkleTree.getRoot.1 ++
    quietTick [110, 50] serviceOfN2.merkleTree.getRoot.1 ++ tickOf [110, 50] [3, 4] ++
    tickOf [110, 49] [5, 6]

def afterSettling : SyncState := stateAfter (step [[110, 49], [110, 50]]) twoWriters settlingRun

set_option maxRecDepth 8000 in
/-- The two writers agree on the key. -/
theorem schedulers_converge_of_two_writers : ∃ set set',
    (afterSettling.stores [110, 49]).stored [107] = .ok set ∧
    (afterSettling.stores [110, 50]).stored [107] = .ok set' ∧ SameMaximalClocks set set' := by
  have hrun : ((exec (step [[110, 49], [110, 50]]) twoWriters settlingRun).isSome = true ∧
      AllOk (step [[110, 49], [110, 50]]) Settling twoWriters settlingRun) ∧
      ∀ n ∈ [[110, 49], [110, 50]], (twoWriters.schedulers n).completed +
        2 ^ (twoWriters.services n).merkleTree.depth < (afterSettling.schedulers n).completed := by
    decide +kernel
  obtain ⟨set, set', hset, hset', hsame, -⟩ := schedulers_converge [[110, 49], [110, 50]] twoWriters
    afterSettling twoWriters_clean ⟨fun _ => rfl, fun _ => ⟨rfl, rfl⟩⟩ (Runs.stateAfter hrun.1)
    hrun.2 [107] [110, 49] (by decide) [110, 50] (by decide)
  exact ⟨set, set', hset, hset', hsame⟩

end SyncState

end GoQuorum
