import GoQuorum.Cluster.HintReplay
import GoQuorum.Cluster.ReadRepair
import GoQuorum.Cluster.Reads
import GoQuorum.Storage.CallerSet

/-!
# Everything that writes to replicas

`Cluster.System` lets the sibling of any write reach any node at any time.  Here is what the nodes
really do.  A write is sent to each node of its preference list by a goroutine of its own
(`parallelWrite`); what fails becomes a hint that a replay run delivers later (`HandoffState`); a
`Get` sends what it has merged to the replicas that miss some of it; anti-entropy sends records of
the own store.  All but the local write go through `RemotePut`, which sends the siblings of a key
one request after the other.  A node may crash and come back: its hints, its calls and the requests
it was serving are gone, and its store is as it was if it runs with `SyncWrites`; without, it has no
write-ahead log and only what Pebble has flushed is left.

As in `Cluster.System`, `Storage.Put` reads and writes in two separate steps, and a caller learns
the outcome of a request when the request has been carried out, or not at all.
-/

namespace GoQuorum

open Lib

/-! ## States -/

/-- Who waits for a `RemotePut`: the fan-out of a write, a run of `replayHintsForNode`, or nobody,
as read repair and anti-entropy only count failures. -/
inductive Caller where
  | write (i : ℕ)
  | replay (r : ℕ)
  | background
  deriving DecidableEq

/-- A `RemotePut` under way: the siblings it has still to send, the first of which is on its way,
and the call on the target that has taken it. -/
structure Sending where
  caller : Caller
  sender : NodeID
  target : NodeID
  key : Bytes
  siblings : List Sibling
  handler : Option ℕ

/-- What `Storage.Put` is called for: the local write of a write, or the request of a `RemotePut`.
-/
inductive Service where
  | localWrite (i : ℕ)
  | replicate (x : ℕ)
  deriving DecidableEq

/-- A `Storage.Put` that has read the record of its key, in the store `seen`, and not yet written
it. It is dead once its node has crashed. -/
structure Handler where
  service : Service
  node : NodeID
  key : Bytes
  sibling : Sibling
  env : CallEnv
  seen : Storage
  data : Bytes
  alive : Bool

/-- The stores of the nodes, their hints and replay runs, and all that is under way. -/
structure ReplicationState where
  stores : NodeID → Storage
  /-- What a node without `SyncWrites` has on disk. -/
  flushed : NodeID → Storage
  writes : ℕ → Option WriteOp
  reads : ℕ → Option ReadOp
  /-- The replicas for which the goroutine of a write has begun. -/
  started : ℕ → List NodeID
  /-- The writes that have stored their hints. -/
  hinted : ℕ → Bool
  /-- The writes and reads whose coordinator has crashed. -/
  lostWrites : ℕ → Bool
  lostReads : ℕ → Bool
  sendings : ℕ → Option Sending
  handlers : ℕ → Option Handler
  handoffs : NodeID → HandoffState
  /-- The `RemotePut` that a replay run waits for. -/
  replaying : NodeID → ℕ → Option ℕ

/-- The steps. -/
inductive ReplicationEvent where
  /-- A coordinator begins a write. -/
  | issue (i : ℕ) (coordinator : MemberID) (times : WriteTimes) (call : WriteCall)
  /-- A goroutine of a write begins the `RemotePut` to its replica. -/
  | send (x i : ℕ) (target : NodeID)
  /-- The goroutine for the own node calls `Storage.Put`, which reads. -/
  | localWrite (t i : ℕ) (env : CallEnv)
  /-- The next sibling of a `RemotePut` reaches the target, and `Storage.Put` reads. -/
  | deliver (t x : ℕ) (stamp : NodeID → Int64) (env : CallEnv)
  /-- `Storage.Put` writes; `ack` says whether the caller learns of it. -/
  | commit (t : ℕ) (ack : Bool)
  /-- A `RemotePut` is given up. -/
  | abort (x : ℕ)
  /-- A write that all replicas have answered stores hints for those that failed. -/
  | hint (i : ℕ) (now : NodeID → ℤ)
  /-- `replayHintsForNode` copies the hints of a target, sends the next one, drops it as too old, and
  writes back what is left. -/
  | snapshot (n : NodeID) (r : ℕ) (target : NodeID) (now : ℤ)
  | replay (x : ℕ) (n : NodeID) (r : ℕ)
  | expire (n : NodeID) (r : ℕ)
  | writeBack (n : NodeID) (r : ℕ)
  /-- A coordinator begins a read. -/
  | get (j : ℕ) (coordinator : MemberID) (key : Bytes)
  /-- A replica answers a read, or does not. -/
  | answer (j : ℕ) (node : NodeID) (env : CallEnv) (stamp : ℕ → NodeID → Int64)
  | failRead (j : ℕ) (node : NodeID) (err : ReplicaFailure)
  /-- A `Get` with these arrivals repairs a replica. -/
  | repair (x j : ℕ) (arrivals : List ReadResponse) (resp : ReadResponse)
  /-- Anti-entropy sends a record to a peer. -/
  | push (x : ℕ) (sender target : NodeID) (key : Bytes)
  /-- Pebble flushes what it has in memory, by itself or because the node is shut down. -/
  | flush (n : NodeID)
  /-- A node stops and is started again. -/
  | crash (n : NodeID)

/-- The write with this clock in its sibling. -/
def WriteOp.share (op : WriteOp) (clock : VectorClock) : WriteOp :=
  { op with plan := { op.plan with sibling := { op.plan.sibling with vclock := clock } } }

/-- The last part of `parallelWrite`, on numbered hints. -/
def HandoffState.storeHints (nodeID : NodeID) (now : NodeID → ℤ) (key : Bytes)
    (siblings : SiblingSet) (s : HandoffState) (responses : List WriteResponse) : HandoffState :=
  responses.foldl (fun s resp =>
    if resp.error.isSome ∧ resp.nodeID ≠ nodeID then
      s.storeHint resp.nodeID ⟨key, siblings, now resp.nodeID⟩
    else s) s

/-- Without the numbers it is that of `HintedHandoff`. -/
theorem HandoffState.handoff_storeHints {nodeID : NodeID} (now : NodeID → ℤ) (key : Bytes)
    (siblings : SiblingSet) (s : HandoffState) (responses : List WriteResponse) :
    (s.storeHints nodeID now key siblings responses).handoff nodeID =
      (s.handoff nodeID).storeHints now key siblings responses := by
  unfold storeHints HintedHandoff.storeHints
  induction responses generalizing s with
  | nil => rfl
  | cons resp responses ih =>
    rw [List.foldl_cons, List.foldl_cons, ih]
    split_ifs with hfailed
    · rw [handoff_storeHint hfailed.2 s ⟨key, siblings, now resp.nodeID⟩]
    · rfl

namespace ReplicationState

/-! ## Parts of steps -/

/-- Nothing has happened yet. -/
def init (opts : NodeID → StorageOptions) : ReplicationState where
  stores n := Storage.new (opts n)
  flushed n := Storage.new (opts n)
  writes _ := none
  reads _ := none
  started _ := []
  hinted _ := false
  lostWrites _ := false
  lostReads _ := false
  sendings _ := none
  handlers _ := none
  handoffs _ := HandoffState.init
  replaying _ _ := none

def respond (s : ReplicationState) (i : ℕ) (resp : WriteResponse) : ReplicationState :=
  { s with writes := Function.update s.writes i ((s.writes i).map (·.respond resp)) }

def respondRead (s : ReplicationState) (j : ℕ) (resp : ReadResponse) : ReplicationState :=
  { s with reads := Function.update s.reads j ((s.reads j).map (·.respond resp)) }

/-- Change the hints of a node. -/
def setHandoff (s : ReplicationState) (n : NodeID) (handoff : HandoffState) : ReplicationState :=
  { s with handoffs := Function.update s.handoffs n handoff }

/-- A replay run waits for a `RemotePut`, or no longer does. -/
def setReplaying (s : ReplicationState) (n : NodeID) (r : ℕ) (x : Option ℕ) : ReplicationState :=
  { s with replaying := Function.update s.replaying n (Function.update (s.replaying n) r x) }

/-- The goroutine of the write `i` for a replica may begin. -/
def mayStart (s : ReplicationState) (i : ℕ) (op : WriteOp) (n : NodeID) : Prop :=
  n ∈ op.plan.prefList ∧ n ∉ s.started i ∧ s.lostWrites i = false

instance (s : ReplicationState) (i : ℕ) (op : WriteOp) (n : NodeID) : Decidable (s.mayStart i op n) :=
  inferInstanceAs (Decidable (_ ∧ _ ∧ _))

def start (s : ReplicationState) (i : ℕ) (n : NodeID) : ReplicationState :=
  { s with started := Function.update s.started i (n :: s.started i) }

/-- The own write of a coordinator leaves the sibling set, which the requests and hints share, with
this clock. -/
def share (s : ReplicationState) (i : ℕ) (clock : VectorClock) : ReplicationState :=
  { s with writes := Function.update s.writes i ((s.writes i).map (·.share clock)) }

def markHinted (s : ReplicationState) (i : ℕ) : ReplicationState :=
  { s with hinted := Function.update s.hinted i true }

def setSending (s : ReplicationState) (x : ℕ) (snd : Option Sending) : ReplicationState :=
  { s with sendings := Function.update s.sendings x snd }

def setHandler (s : ReplicationState) (t : ℕ) (h : Option Handler) : ReplicationState :=
  { s with handlers := Function.update s.handlers t h }

/-- `Storage.Put` stores its record. -/
def store (s : ReplicationState) (h : Handler) : ReplicationState :=
  let store := s.stores h.node
  { s with
    stores := Function.update s.stores h.node { store with db := store.db.insert h.key h.data } }

/-- The outcome of a `RemotePut` reaches its caller. -/
def tell (s : ReplicationState) (snd : Sending) (error : Option ReplicaFailure) :
    ReplicationState :=
  match snd.caller with
  | .write i => s.respond i ⟨snd.target, error⟩
  | .replay r =>
    let handoff := s.handoffs snd.sender
    (s.setHandoff snd.sender
      ((handoff.step snd.sender (.attempt r error.isNone)).getD handoff)).setReplaying
        snd.sender r none
  | .background => s

/-- A `RemotePut` is over. -/
def finish (s : ReplicationState) (x : ℕ) (snd : Sending) (error : Option ReplicaFailure) :
    ReplicationState :=
  (s.setSending x none).tell snd error

/-- A `RemotePut` goes on after an answer to its present request: with the next sibling, or to its
end. -/
def proceed (s : ReplicationState) (x : ℕ) (snd : Sending) : Option StorageError → ReplicationState
  | some err => s.finish x snd (some (.remote snd.target (.refused err)))
  | none =>
    match snd.siblings.tail with
    | [] => s.finish x snd none
    | rest => s.setSending x (some { snd with siblings := rest, handler := none })

/-- The caller of `Storage.Put` learns its outcome; a `RemotePut` that has been given up does not.
-/
def reply (s : ReplicationState) (t : ℕ) (h : Handler) (error : Option StorageError) :
    ReplicationState :=
  match h.service with
  | .localWrite i => s.respond i ⟨h.node, error.map .storage⟩
  | .replicate x =>
    match s.sendings x with
    | some snd => if snd.handler = some t then s.proceed x snd error else s
    | none => s

/-- What a node has in memory reaches its disk. -/
def flush (s : ReplicationState) (n : NodeID) : ReplicationState :=
  { s with flushed := Function.update s.flushed n (s.stores n) }

/-- The store that a node finds when it is started again. -/
def restored (s : ReplicationState) (n : NodeID) : Storage :=
  if (s.stores n).opts.syncWrites then s.stores n else s.flushed n

/-- A node stops and is started again. -/
def crashNode (s : ReplicationState) (n : NodeID) : ReplicationState :=
  { s with
    stores := Function.update s.stores n (s.restored n)
    lostWrites := fun i => s.lostWrites i || (s.writes i).any fun op => op.coordinator = n
    lostReads := fun j => s.lostReads j || (s.reads j).any fun op => op.coordinator = n
    sendings := fun x => (s.sendings x).filter fun snd => snd.sender ≠ n
    handlers := fun t => (s.handlers t).map fun h => { h with alive := h.alive && h.node ≠ n }
    handoffs := Function.update s.handoffs n HandoffState.init
    replaying := Function.update s.replaying n fun _ => none }

end ReplicationState

namespace Cluster

open ReplicationState

variable {sum64 : Bytes → UInt64} (cl : Cluster sum64)

/-- What a `Get` has merged. -/
def merged (arrivals : List ReadResponse) : List Sibling :=
  mergeAllSiblings ((cl.collected arrivals).flatMap ReadResponse.siblings)

/-- The `Get` with these arrivals reaches its quorum and finds that the replica needs repair. -/
def Repairs (op : ReadOp) (arrivals : List ReadResponse) (resp : ReadResponse) : Prop :=
  arrivals.Subperm op.answers ∧ cl.quorumConfig.R ≤ readSuccesses (cl.collected arrivals) ∧
    resp ∈ cl.collected arrivals ∧ resp.error = none ∧
    checkNeedsRepair (cl.merged arrivals) resp.siblingSet = true ∧ resp.nodeID ≠ op.coordinator

instance (op : ReadOp) (arrivals : List ReadResponse) (resp : ReadResponse) :
    Decidable (cl.Repairs op arrivals resp) :=
  inferInstanceAs (Decidable (_ ∧ _ ∧ _ ∧ _ ∧ _ ∧ _))

/-! ## Steps -/

/-- One step. -/
def replicationStep (s : ReplicationState) : ReplicationEvent → Option ReplicationState
  | .issue i coordinator times call =>
    match s.writes i, (cl.coordinator coordinator).plan times call with
    | none, .ok plan =>
      some { s with writes := Function.update s.writes i (some ⟨coordinator, plan, []⟩) }
    | _, _ => none
  | .send x i target =>
    match s.sendings x, s.writes i with
    | none, some op =>
      if s.mayStart i op target ∧ target ≠ op.coordinator then
        some ((s.start i target).setSending x
          (some ⟨.write i, op.coordinator, target, op.plan.key, [op.plan.sibling], none⟩))
      else none
    | _, _ => none
  | .localWrite t i env =>
    match s.handlers t, s.writes i with
    | none, some op =>
      let n : NodeID := op.coordinator
      if s.mayStart i op n then
        let s' := (s.start i n).share i
          ((s.stores n).callerClock env op.plan.key op.plan.sibling)
        match (s.stores n).prepare env op.plan.key [op.plan.sibling] with
        | .ok data =>
          some (s'.setHandler t
            (some ⟨.localWrite i, n, op.plan.key, op.plan.sibling, env, s.stores n, data, true⟩))
        | .error err => some (s'.respond i ⟨n, some (.storage err)⟩)
      else none
    | _, _ => none
  | .deliver t x stamp env =>
    match s.handlers t, s.sendings x with
    | none, some snd =>
      match snd.handler, snd.siblings with
      | none, sib :: _ =>
        let store := s.stores snd.target
        let sibling := sib.received stamp
        match store.prepare env snd.key [sibling] with
        | .ok data =>
          some ((s.setSending x (some { snd with handler := some t })).setHandler t
            (some ⟨.replicate x, snd.target, snd.key, sibling, env, store, data, true⟩))
        | .error err => some (s.proceed x snd (some err))
      | _, _ => none
    | _, _ => none
  | .commit t ack =>
    match s.handlers t with
    | some h =>
      if h.alive then
        match (s.stores h.node).commit h.env h.key h.data with
        | .ok store =>
          let s := { s with stores := Function.update s.stores h.node store }.setHandler t none
          some (if ack then s.reply t h none else s)
        | .error err =>
          let s := s.setHandler t none
          some (if ack then s.reply t h (some err) else s)
      else none
    | none => none
  | .abort x =>
    match s.sendings x with
    | some snd => some (s.finish x snd (some (.remote snd.target .unreachable)))
    | none => none
  | .hint i now =>
    match s.writes i with
    | some op =>
      let n : NodeID := op.coordinator
      if op.responses.length = op.plan.prefList.length ∧ s.hinted i = false ∧
          s.lostWrites i = false then
        some ((s.markHinted i).setHandoff n
          ((s.handoffs n).storeHints n now op.plan.key [op.plan.sibling] op.responses))
      else none
    | none => none
  | .snapshot n r target now =>
    ((s.handoffs n).step n (.snapshot r target now)).map (s.setHandoff n)
  | .replay x n r =>
    match s.sendings x, (s.handoffs n).runs r, s.replaying n r with
    | none, some run, none =>
      match run.todo with
      | h :: _ =>
        if run.now - h.hint.createdAt > maxHintAge then none
        else some ((s.setReplaying n r (some x)).setSending x
          (some ⟨.replay r, n, run.target, h.hint.key, h.hint.siblings, none⟩))
      | [] => none
    | _, _, _ => none
  | .expire n r =>
    match (s.handoffs n).runs r, s.replaying n r with
    | some run, none =>
      match run.todo with
      | h :: _ =>
        if run.now - h.hint.createdAt > maxHintAge then
          ((s.handoffs n).step n (.attempt r false)).map (s.setHandoff n)
        else none
      | [] => none
    | _, _ => none
  | .writeBack n r => ((s.handoffs n).step n (.writeBack r)).map (s.setHandoff n)
  | .get j coordinator key =>
    match s.reads j, (cl.coordinator coordinator).planGet key with
    | none, .ok prefList =>
      some { s with reads := Function.update s.reads j (some ⟨coordinator, key, prefList, []⟩) }
    | _, _ => none
  | .answer j node env stamp =>
    match s.reads j with
    | some op =>
      if s.lostReads j = false then
        some (s.respondRead j
          ((cl.coordinator op.coordinator).readReplica env stamp (s.stores node) op.key node))
      else none
    | none => none
  | .failRead j node err =>
    if s.lostReads j = false then some (s.respondRead j ⟨node, none, some err⟩) else none
  | .repair x j arrivals resp =>
    match s.sendings x, s.reads j with
    | none, some op =>
      if s.lostReads j = false ∧ cl.Repairs op arrivals resp then
        some (s.setSending x (some ⟨.background, op.coordinator, resp.nodeID, op.key,
          cl.merged arrivals, none⟩))
      else none
    | _, _ => none
  | .push x sender target key =>
    match s.sendings x, (s.stores sender).stored key with
    | none, .ok set =>
      if target = sender then none
      else some (s.setSending x (some ⟨.background, sender, target, key, set, none⟩))
    | _, _ => none
  | .flush n => some (s.flush n)
  | .crash n => some (s.crashNode n)

end Cluster

/-! ## Conditions on runs -/

namespace ReplicationState

/-- Contexts have valid node ids, nothing expires, nothing is pruned, and storage reads do not
fail. -/
def Plain (s : ReplicationState) : ReplicationEvent → Prop
  | .issue _ _ _ call => call.context.ValidIDs ∧ call.NoTTL
  | .localWrite _ i env =>
    ∀ op ∈ s.writes i,
      Storage.NoPrune env (s.stores op.coordinator) op.plan.key [op.plan.sibling]
  | .deliver _ x stamp env =>
    ∀ snd ∈ s.sendings x, ∀ sib ∈ snd.siblings.head?,
      Storage.NoPrune env (s.stores snd.target) snd.key [sib.received stamp]
  | .answer j node env _ => ∀ op ∈ s.reads j, (s.stores node).readsWell env op.key = true
  | _ => True

/-- No `Storage.Put` writes a record that has changed since it read it. -/
def Atomic (s : ReplicationState) : ReplicationEvent → Prop
  | .commit t _ => ∀ h ∈ s.handlers t, (s.stores h.node).db.get? h.key = h.seen.db.get? h.key
  | _ => True

instance (s : ReplicationState) : (e : ReplicationEvent) → Decidable (s.Plain e)
  | .issue .. => inferInstanceAs (Decidable (_ ∧ _))
  | .localWrite _ i _ => inferInstanceAs (Decidable (∀ op ∈ s.writes i, _))
  | .deliver _ x _ _ =>
    inferInstanceAs (Decidable (∀ snd ∈ s.sendings x, ∀ sib ∈ snd.siblings.head?, _))
  | .answer j _ _ _ => inferInstanceAs (Decidable (∀ op ∈ s.reads j, _))
  | .send .. | .commit .. | .abort .. | .hint .. | .snapshot .. | .replay .. | .expire ..
  | .writeBack .. | .get .. | .failRead .. | .repair .. | .push .. | .flush .. | .crash .. =>
    isTrue trivial

instance (s : ReplicationState) : (e : ReplicationEvent) → Decidable (s.Atomic e)
  | .commit t _ => inferInstanceAs (Decidable (∀ h ∈ s.handlers t, _))
  | .issue .. | .send .. | .localWrite .. | .deliver .. | .abort .. | .hint .. | .snapshot ..
  | .replay .. | .expire .. | .writeBack .. | .get .. | .answer .. | .failRead .. | .repair ..
  | .push .. | .flush .. | .crash .. => isTrue trivial

/-- A node that crashes runs with `SyncWrites`. -/
def Synced (s : ReplicationState) : ReplicationEvent → Prop
  | .crash n => (s.stores n).opts.syncWrites = true
  | _ => True

instance (s : ReplicationState) : (e : ReplicationEvent) → Decidable (s.Synced e)
  | .crash n => inferInstanceAs (Decidable ((s.stores n).opts.syncWrites = true))
  | .issue .. | .send .. | .localWrite .. | .deliver .. | .commit .. | .abort .. | .hint ..
  | .snapshot .. | .replay .. | .expire .. | .writeBack .. | .get .. | .answer .. | .failRead ..
  | .repair .. | .push .. | .flush .. => isTrue trivial

variable {s : ReplicationState}

/-- A local write that prunes nothing leaves the sibling of its write. -/
theorem share_of_noPrune {i : ℕ} {op : WriteOp} {env : CallEnv} (hop : s.writes i = some op)
    (h : Storage.NoPrune env (s.stores op.coordinator) op.plan.key [op.plan.sibling]) (n : NodeID) :
    (s.start i n).share i
      ((s.stores op.coordinator).callerClock env op.plan.key op.plan.sibling) = s.start i n := by
  have hclock := Storage.callerClock_eq_self_iff.2 (Storage.leavesCaller_of_noPrune h)
  have hwrites : Function.update s.writes i ((s.writes i).map (·.share op.plan.sibling.vclock)) =
      s.writes := by
    rw [hop, Function.update_eq_self_iff, hop]
    rfl
  rw [hclock]
  exact congrArg (fun writes => { s.start i n with writes := writes }) hwrites

theorem crashNode_stores_of_syncWrites {n : NodeID} (h : (s.stores n).opts.syncWrites = true) :
    (s.crashNode n).stores = s.stores := by
  rw [crashNode, restored, if_pos h, Function.update_eq_self]

end ReplicationState

/-- No `Delete` is issued. -/
def ReplicationEvent.NoDelete : ReplicationEvent → Prop
  | .issue _ _ _ (.delete _ _) => False
  | _ => True

instance (e : ReplicationEvent) : Decidable e.NoDelete :=
  match e with
  | .issue _ _ _ (.delete _ _) => isFalse id
  | .issue _ _ _ (.put _ _ _ _) => isTrue trivial
  | .send .. | .localWrite .. | .deliver .. | .commit .. | .abort .. | .hint .. | .snapshot ..
  | .replay .. | .expire .. | .writeBack .. | .get .. | .answer .. | .failRead .. | .repair ..
  | .push .. | .flush .. | .crash .. => isTrue trivial

/-! ## What each step can do -/

namespace Cluster

variable {sum64 : Bytes → UInt64} (cl : Cluster sum64)

open ReplicationState

/-- What each step does where nothing is pruned, and when. -/
inductive Moved (s : ReplicationState) : ReplicationEvent → ReplicationState → Prop
  | issue {i : ℕ} {coordinator : MemberID} {times : WriteTimes} {call : WriteCall}
      {plan : WritePlan} (new : s.writes i = none)
      (planned : (cl.coordinator coordinator).plan times call = .ok plan) :
      Moved s (.issue i coordinator times call)
        { s with writes := Function.update s.writes i (some ⟨coordinator, plan, []⟩) }
  | send {x i : ℕ} {target : NodeID} {op : WriteOp} (free : s.sendings x = none)
      (write : s.writes i = some op) (starts : s.mayStart i op target)
      (other : target ≠ op.coordinator) :
      Moved s (.send x i target) ((s.start i target).setSending x
        (some ⟨.write i, op.coordinator, target, op.plan.key, [op.plan.sibling], none⟩))
  | localWrite {t i : ℕ} {env : CallEnv} {op : WriteOp} {data : Bytes} (free : s.handlers t = none)
      (write : s.writes i = some op) (starts : s.mayStart i op op.coordinator)
      (prepared : (s.stores op.coordinator).prepare env op.plan.key [op.plan.sibling] = .ok data) :
      Moved s (.localWrite t i env) ((s.start i op.coordinator).setHandler t
        (some ⟨.localWrite i, op.coordinator, op.plan.key, op.plan.sibling, env,
          s.stores op.coordinator, data, true⟩))
  | localRefused {t i : ℕ} {env : CallEnv} {op : WriteOp} {err : StorageError}
      (write : s.writes i = some op) :
      Moved s (.localWrite t i env)
        ((s.start i op.coordinator).respond i ⟨op.coordinator, some (.storage err)⟩)
  | deliver {t x : ℕ} {stamp : NodeID → Int64} {env : CallEnv} {snd : Sending} {sib : Sibling}
      {rest : List Sibling} {data : Bytes} (free : s.handlers t = none)
      (sending : s.sendings x = some snd) (unserved : snd.handler = none)
      (head : snd.siblings = sib :: rest)
      (prepared : (s.stores snd.target).prepare env snd.key [sib.received stamp] = .ok data) :
      Moved s (.deliver t x stamp env)
        ((s.setSending x (some { snd with handler := some t })).setHandler t
          (some ⟨.replicate x, snd.target, snd.key, sib.received stamp, env, s.stores snd.target,
            data, true⟩))
  | deliverRefused {t x : ℕ} {stamp : NodeID → Int64} {env : CallEnv} {snd : Sending}
      {err : StorageError} (sending : s.sendings x = some snd) :
      Moved s (.deliver t x stamp env)
        (s.finish x snd (some (.remote snd.target (.refused err))))
  | commit {t : ℕ} {h : Handler} {s₁ s₂ : ReplicationState} {ack : Bool}
      (handler : s.handlers t = some h) (alive : h.alive = true) (written : h.env.setError = none)
      (stored : s₁ = (s.store h).setHandler t none)
      (replied : s₂ = if ack then s₁.reply t h none else s₁) : Moved s (.commit t ack) s₂
  | commitFailed {t : ℕ} {h : Handler} {err : StorageError} {s₁ s₂ : ReplicationState} {ack : Bool}
      (handler : s.handlers t = some h) (failed : h.env.setError ≠ none)
      (dropped : s₁ = s.setHandler t none)
      (replied : s₂ = if ack then s₁.reply t h (some err) else s₁) : Moved s (.commit t ack) s₂
  | abort {x : ℕ} {snd : Sending} (sending : s.sendings x = some snd) :
      Moved s (.abort x) (s.finish x snd (some (.remote snd.target .unreachable)))
  | hint {i : ℕ} {now : NodeID → ℤ} {op : WriteOp} (write : s.writes i = some op)
      (answered : op.responses.length = op.plan.prefList.length) (new : s.hinted i = false)
      (live : s.lostWrites i = false) :
      Moved s (.hint i now)
        ((s.markHinted i).setHandoff op.coordinator ((s.handoffs op.coordinator).storeHints
          op.coordinator now op.plan.key [op.plan.sibling] op.responses))
  | snapshot {n : NodeID} {r : ℕ} {target : NodeID} {now : ℤ} {handoff : HandoffState}
      (step : (s.handoffs n).step n (.snapshot r target now) = some handoff) :
      Moved s (.snapshot n r target now) (s.setHandoff n handoff)
  | replay {x : ℕ} {n : NodeID} {r : ℕ} {run : ReplayRun} {h : StoredHint} {todo : List StoredHint}
      (free : s.sendings x = none) (running : (s.handoffs n).runs r = some run)
      (idle : s.replaying n r = none) (next : run.todo = h :: todo)
      (young : ¬ run.now - h.hint.createdAt > maxHintAge) :
      Moved s (.replay x n r) ((s.setReplaying n r (some x)).setSending x
        (some ⟨.replay r, n, run.target, h.hint.key, h.hint.siblings, none⟩))
  | expire {n : NodeID} {r : ℕ} {run : ReplayRun} {h : StoredHint} {todo : List StoredHint}
      {handoff : HandoffState} (running : (s.handoffs n).runs r = some run)
      (idle : s.replaying n r = none) (next : run.todo = h :: todo)
      (old : run.now - h.hint.createdAt > maxHintAge)
      (step : (s.handoffs n).step n (.attempt r false) = some handoff) :
      Moved s (.expire n r) (s.setHandoff n handoff)
  | writeBack {n : NodeID} {r : ℕ} {handoff : HandoffState}
      (step : (s.handoffs n).step n (.writeBack r) = some handoff) :
      Moved s (.writeBack n r) (s.setHandoff n handoff)
  | get {j : ℕ} {coordinator : MemberID} {key : Bytes} {prefList : List NodeID}
      (new : s.reads j = none)
      (planned : (cl.coordinator coordinator).planGet key = .ok prefList) :
      Moved s (.get j coordinator key)
        { s with reads := Function.update s.reads j (some ⟨coordinator, key, prefList, []⟩) }
  | answer {j : ℕ} {node : NodeID} {env : CallEnv} {stamp : ℕ → NodeID → Int64} {op : ReadOp}
      (read : s.reads j = some op) :
      Moved s (.answer j node env stamp) (s.respondRead j
        ((cl.coordinator op.coordinator).readReplica env stamp (s.stores node) op.key node))
  | failRead {j : ℕ} {node : NodeID} {err : ReplicaFailure} :
      Moved s (.failRead j node err) (s.respondRead j ⟨node, none, some err⟩)
  | repair {x j : ℕ} {arrivals : List ReadResponse} {resp : ReadResponse} {op : ReadOp}
      (free : s.sendings x = none) (read : s.reads j = some op)
      (stale : cl.Repairs op arrivals resp) :
      Moved s (.repair x j arrivals resp) (s.setSending x (some ⟨.background, op.coordinator,
        resp.nodeID, op.key, cl.merged arrivals, none⟩))
  | push {x : ℕ} {sender target : NodeID} {key : Bytes} {set : SiblingSet}
      (free : s.sendings x = none) (record : (s.stores sender).stored key = .ok set) :
      Moved s (.push x sender target key)
        (s.setSending x (some ⟨.background, sender, target, key, set, none⟩))
  | flush {n : NodeID} : Moved s (.flush n) (s.flush n)
  | crash {n : NodeID} : Moved s (.crash n) (s.crashNode n)

variable {cl}

theorem moved_of_step {s s' : ReplicationState} {e : ReplicationEvent} (hplain : s.Plain e)
    (h : cl.replicationStep s e = some s') : cl.Moved s e s' := by
  cases e with
  | issue i coordinator times call =>
    simp only [replicationStep] at h
    split at h
    · rename_i plan new planned
      obtain rfl := Option.some.inj h
      exact .issue new planned
    · cases h
  | send x i target =>
    simp only [replicationStep] at h
    split at h
    · rename_i op free write
      split_ifs at h with starts
      obtain rfl := Option.some.inj h
      exact .send free write starts.1 starts.2
    · cases h
  | localWrite t i env =>
    simp only [replicationStep] at h
    split at h
    · rename_i op free write
      split_ifs at h with starts
      rw [share_of_noPrune write (hplain op write)] at h
      split at h
      · rename_i data prepared
        obtain rfl := Option.some.inj h
        exact .localWrite free write starts prepared
      · obtain rfl := Option.some.inj h
        exact .localRefused write
    · cases h
  | deliver t x stamp env =>
    simp only [replicationStep] at h
    split at h
    · rename_i snd free sending
      split at h
      · rename_i sib rest unserved head
        split at h
        · rename_i data prepared
          obtain rfl := Option.some.inj h
          exact .deliver free sending unserved head prepared
        · obtain rfl := Option.some.inj h
          exact .deliverRefused sending
      · cases h
    · cases h
  | commit t ack =>
    simp only [replicationStep] at h
    split at h
    · rename_i hd handler
      by_cases alive : hd.alive = true
      swap
      · rw [if_neg alive] at h
        cases h
      rw [if_pos alive] at h
      split at h
      · rename_i store committed
        obtain ⟨written, rfl⟩ := Storage.commit_eq_ok.1 committed
        exact .commit handler alive written rfl (Option.some.inj h).symm
      · rename_i err committed
        refine .commitFailed handler (fun written => ?_) rfl (Option.some.inj h).symm
        rw [Storage.commit_eq_ok.2 ⟨written, rfl⟩] at committed
        cases committed
    · cases h
  | abort x =>
    simp only [replicationStep] at h
    split at h
    · rename_i snd sending
      obtain rfl := Option.some.inj h
      exact .abort sending
    · cases h
  | hint i now =>
    simp only [replicationStep] at h
    split at h
    · rename_i op write
      split_ifs at h with guard
      obtain rfl := Option.some.inj h
      exact .hint write guard.1 guard.2.1 guard.2.2
    · cases h
  | snapshot n r target now =>
    obtain ⟨handoff, step, rfl⟩ := Option.map_eq_some_iff.1 h
    exact .snapshot step
  | replay x n r =>
    simp only [replicationStep] at h
    split at h
    · rename_i run free running idle
      split at h
      · rename_i hint todo next
        split_ifs at h with young
        obtain rfl := Option.some.inj h
        exact .replay free running idle next young
      · cases h
    · cases h
  | expire n r =>
    simp only [replicationStep] at h
    split at h
    · rename_i run running idle
      split at h
      · rename_i hint todo next
        split_ifs at h with old
        obtain ⟨handoff, step, rfl⟩ := Option.map_eq_some_iff.1 h
        exact .expire running idle next old step
      · cases h
    · cases h
  | writeBack n r =>
    obtain ⟨handoff, step, rfl⟩ := Option.map_eq_some_iff.1 h
    exact .writeBack step
  | get j coordinator key =>
    simp only [replicationStep] at h
    split at h
    · rename_i prefList new planned
      obtain rfl := Option.some.inj h
      exact .get new planned
    · cases h
  | answer j node env stamp =>
    simp only [replicationStep] at h
    split at h
    · rename_i op read
      split_ifs at h
      obtain rfl := Option.some.inj h
      exact .answer read
    · cases h
  | failRead j node err =>
    simp only [replicationStep] at h
    split_ifs at h
    obtain rfl := Option.some.inj h
    exact .failRead
  | repair x j arrivals resp =>
    simp only [replicationStep] at h
    split at h
    · rename_i op free read
      split_ifs at h with guard
      obtain rfl := Option.some.inj h
      exact .repair free read guard.2
    · cases h
  | push x sender target key =>
    simp only [replicationStep] at h
    split at h
    · rename_i set free record
      split_ifs at h
      obtain rfl := Option.some.inj h
      exact .push free record
    · cases h
  | flush n =>
    obtain rfl := Option.some.inj h
    exact .flush
  | crash n =>
    obtain rfl := Option.some.inj h
    exact .crash

end Cluster

end GoQuorum
