import GoQuorum.Cluster.ReplicationTraces

/-!
# Replication refines the abstract system

Since every sibling under way belongs to a write, the arrival of any request is a step of
`Cluster.System`, and everything else that the nodes do is no step there (`Simulates.step`).  To
every run with hints, replays, repairs, exchanges and crashes of nodes with `SyncWrites` there is one
of the abstract system with the same stores, writes and reads (`replication_refines`), so what holds
there holds here: a `Get` sees every acknowledged `Put` (`get_dominates_put_amid_traffic`).  A node
without `SyncWrites` may lose what it has acknowledged; what it comes back with was written by
somebody all the same (`every_sibling_was_written`).
-/

namespace GoQuorum

open Lib Lib.Versions

/-! ## States that correspond -/

/-- The replica write of `Cluster.System` for the write `i`. -/
def Handler.transfer (h : Handler) (i : ℕ) : Transfer :=
  ⟨i, h.node, h.key, h.sibling, h.env, h.seen, h.data⟩

namespace ReplicationState

open Cluster

/-- Whenever the outcome of the call reaches a write, it is the write `i`. -/
def AcksFor (s : ReplicationState) (t : ℕ) (h : Handler) (i : ℕ) : Prop :=
  match h.service with
  | .localWrite k => k = i
  | .replicate x => ∀ snd, s.sendings x = some snd → snd.handler = some t →
    snd.target = h.node ∧ ∀ k, snd.caller = .write k → k = i

/-- The abstract state has the same stores, writes and reads, and a replica write for every call of
`Storage.Put` that is under way. -/
structure Simulates (s : ReplicationState) (a : ClusterState) : Prop where
  stores : a.stores = s.stores
  writes : a.writes = s.writes
  reads : a.reads = s.reads
  idle : ∀ t, s.handlers t = none → a.transfers t = none
  busy : ∀ t h, s.handlers t = some h → ∃ i, a.transfers t = some (h.transfer i) ∧ s.AcksFor t h i

variable {s s' : ReplicationState} {a : ClusterState}

theorem simulates_init (opts : NodeID → StorageOptions) :
    Simulates (init opts) (ClusterState.init opts) :=
  ⟨rfl, rfl, rfl, fun _ _ => rfl, fun t h hh => by cases hh⟩

theorem AcksFor.frame {t : ℕ} {h : Handler} {i : ℕ} (hacks : s.AcksFor t h i)
    (hsend : ∀ x snd, s'.sendings x = some snd → snd.handler ≠ none → s.sendings x = some snd) :
    s'.AcksFor t h i := by
  unfold AcksFor at hacks ⊢
  split at hacks
  · exact hacks
  · intro snd hsnd hserved
    have hne : snd.handler ≠ none := by
      rw [hserved]
      exact Option.some_ne_none t
    exact hacks snd (hsend _ snd hsnd hne) hserved

/-- Changes that the abstract system does not see. -/
theorem Simulates.frame (h : s.Simulates a) (hstores : s'.stores = s.stores)
    (hwrites : s'.writes = s.writes) (hreads : s'.reads = s.reads)
    (hhandlers : s'.handlers = s.handlers)
    (hsend : ∀ x snd, s'.sendings x = some snd → snd.handler ≠ none → s.sendings x = some snd) :
    s'.Simulates a := by
  refine ⟨h.stores.trans hstores.symm, h.writes.trans hwrites.symm, h.reads.trans hreads.symm,
    fun t ht => h.idle t (hhandlers ▸ ht), fun t hd hh => ?_⟩
  obtain ⟨i, htr, hacks⟩ := h.busy t hd (hhandlers ▸ hh)
  exact ⟨i, htr, hacks.frame hsend⟩

/-- A `RemotePut` ends, or one begins or goes on to its next request. -/
theorem Simulates.setSending (h : s.Simulates a) {x : ℕ} {snd : Option Sending}
    (hnew : ∀ snd', snd = some snd' → snd'.handler = none) : (s.setSending x snd).Simulates a := by
  refine h.frame rfl rfl rfl rfl fun y snd' hy hne => ?_
  rcases update_eq_some hy with ⟨-, hy⟩ | hy
  · exact absurd (hnew snd' hy) hne
  · exact hy

/-- A call that begins takes the request of a `RemotePut`. -/
theorem Simulates.assign (h : s.Simulates a) {t : ℕ} (hfree : s.handlers t = none) (x : ℕ)
    (snd : Sending) : (s.setSending x (some { snd with handler := some t })).Simulates a := by
  refine ⟨h.stores, h.writes, h.reads, h.idle, fun u hd hu => ?_⟩
  obtain ⟨i, htr, hacks⟩ := h.busy u hd hu
  refine ⟨i, htr, ?_⟩
  unfold AcksFor at hacks ⊢
  split at hacks
  · exact hacks
  · intro snd' hsnd' hserved
    rcases update_eq_some hsnd' with ⟨-, hnew⟩ | hold
    · -- the new call is the only one that serves it
      obtain rfl := Option.some.inj hnew
      obtain rfl := Option.some.inj hserved
      have hnone : s.handlers t = some hd := hu
      rw [hfree] at hnone
      cases hnone
    · exact hacks snd' hold hserved

theorem Simulates.start (h : s.Simulates a) (i : ℕ) (n : NodeID) : (s.start i n).Simulates a :=
  h.frame rfl rfl rfl rfl fun _ _ hx _ => hx

theorem Simulates.setReplaying (h : s.Simulates a) (n : NodeID) (r : ℕ) (x : Option ℕ) :
    (s.setReplaying n r x).Simulates a :=
  h.frame rfl rfl rfl rfl fun _ _ hx _ => hx

theorem Simulates.setHandoff (h : s.Simulates a) (n : NodeID) (handoff : HandoffState) :
    (s.setHandoff n handoff).Simulates a :=
  h.frame rfl rfl rfl rfl fun _ _ hx _ => hx

theorem Simulates.respond (h : s.Simulates a) (i : ℕ) (resp : WriteResponse) :
    (s.respond i resp).Simulates (a.respond i resp) := by
  refine ⟨h.stores, ?_, h.reads, h.idle, h.busy⟩
  simp only [ClusterState.respond, ReplicationState.respond, h.writes]

theorem Simulates.respondRead (h : s.Simulates a) (j : ℕ) (resp : ReadResponse) :
    (s.respondRead j resp).Simulates (a.respondRead j resp) := by
  refine ⟨h.stores, h.writes, ?_, h.idle, h.busy⟩
  simp only [ClusterState.respondRead, ReplicationState.respondRead, h.reads]

theorem Simulates.store (h : s.Simulates a) (hd : Handler) (i : ℕ) :
    (s.store hd).Simulates (a.store (hd.transfer i)) := by
  refine ⟨?_, h.writes, h.reads, h.idle, h.busy⟩
  simp only [ClusterState.store, ReplicationState.store, Handler.transfer, h.stores]

theorem Simulates.drop (h : s.Simulates a) (t : ℕ) : (s.setHandler t none).Simulates (a.drop t) := by
  refine ⟨h.stores, h.writes, h.reads, fun u hu => ?_, fun u hd hu => ?_⟩
  · by_cases hut : u = t
    · rw [hut]
      exact Function.update_self t none a.transfers
    · simp only [ReplicationState.setHandler, Function.update_of_ne hut] at hu
      simp only [ClusterState.drop, Function.update_of_ne hut]
      exact h.idle u hu
  · rcases update_eq_some hu with ⟨-, hu⟩ | hu'
    · cases hu
    · have hut : u ≠ t := by
        rintro rfl
        simp only [ReplicationState.setHandler, Function.update_self] at hu
        cases hu
      obtain ⟨i, htr, hacks⟩ := h.busy u hd hu'
      exact ⟨i, by simp only [ClusterState.drop, Function.update_of_ne hut, htr], hacks⟩

/-- A new call of `Storage.Put`. -/
theorem Simulates.serve (h : s.Simulates a) {t : ℕ} (hfree : s.handlers t = none) {hd : Handler}
    {i : ℕ} (hacks : s.AcksFor t hd i) : (s.setHandler t (some hd)).Simulates
      { a with transfers := Function.update a.transfers t (some (hd.transfer i)) } := by
  refine ⟨h.stores, h.writes, h.reads, fun u hu => ?_, fun u hd' hu => ?_⟩
  · have hut : u ≠ t := by
      rintro rfl
      simp only [ReplicationState.setHandler, Function.update_self] at hu
      cases hu
    simp only [ReplicationState.setHandler, Function.update_of_ne hut] at hu
    simp only [Function.update_of_ne hut]
    exact h.idle u hu
  · rcases update_eq_some hu with ⟨rfl, hnew⟩ | hold
    · obtain rfl := Option.some.inj hnew
      exact ⟨i, Function.update_self _ _ _, hacks⟩
    · have hut : u ≠ t := by
        rintro rfl
        rw [hfree] at hold
        cases hold
      obtain ⟨k, htr, hk⟩ := h.busy u hd' hold
      exact ⟨k, by simp only [Function.update_of_ne hut, htr], hk⟩

theorem Simulates.crashNode (h : s.Simulates a) {n : NodeID}
    (hsync : (s.stores n).opts.syncWrites = true) : (s.crashNode n).Simulates a := by
  refine ⟨h.stores.trans (crashNode_stores_of_syncWrites hsync).symm, h.writes, h.reads,
    fun t ht => h.idle t (Option.map_eq_none_iff.1 ht), fun t hd hh => ?_⟩
  obtain ⟨hd', hh', rfl⟩ := Option.map_eq_some_iff.1 hh
  obtain ⟨i, htr, hacks⟩ := h.busy t hd' hh'
  refine ⟨i, htr, AcksFor.frame (s := s) hacks fun x snd hx _ => ?_⟩
  exact (Option.filter_eq_some_iff.1 hx).1

/-- The abstract state after the outcome of a `RemotePut` is known: only a write records it. -/
theorem Simulates.tell (h : s.Simulates a) (snd : Sending) (error : Option ReplicaFailure) :
    ∃ a', (s.tell snd error).Simulates a' ∧
      (a' = a ∨ ∃ i, snd.caller = .write i ∧ a' = a.respond i ⟨snd.target, error⟩) := by
  unfold ReplicationState.tell
  split
  · rename_i i hi
    exact ⟨_, h.respond _ _, Or.inr ⟨i, hi, rfl⟩⟩
  · exact ⟨a, (h.setHandoff _ _).setReplaying _ _ _, Or.inl rfl⟩
  · exact ⟨a, h, Or.inl rfl⟩

theorem Simulates.finish (h : s.Simulates a) (x : ℕ) (snd : Sending)
    (error : Option ReplicaFailure) : ∃ a', (s.finish x snd error).Simulates a' ∧
      (a' = a ∨ ∃ i, snd.caller = .write i ∧ a' = a.respond i ⟨snd.target, error⟩) :=
  (h.setSending (x := x) fun _ he => by cases he).tell snd error

/-- The abstract state after the outcome of `Storage.Put` has reached its caller. -/
theorem Simulates.reply (h : s.Simulates a) {t : ℕ} {hd : Handler} {i : ℕ}
    (hacks : s.AcksFor t hd i) (error : Option StorageError) :
    ∃ a', (s.reply t hd error).Simulates a' ∧
      (a' = a ∨ ∃ failure, failure.isNone = error.isNone ∧ a' = a.respond i ⟨hd.node, failure⟩) := by
  unfold AcksFor at hacks
  unfold ReplicationState.reply
  cases hservice : hd.service with
  | localWrite k =>
    rw [hservice] at hacks
    obtain rfl : k = i := hacks
    exact ⟨_, h.respond _ _, Or.inr ⟨_, Option.isNone_map, rfl⟩⟩
  | replicate x =>
    rw [hservice] at hacks
    dsimp only at hacks ⊢
    -- a request that ends the `RemotePut` tells its caller
    have ends : ∀ snd, s.sendings x = some snd → snd.handler = some t → ∀ failure,
        failure.isNone = error.isNone → ∃ a', (s.finish x snd failure).Simulates a' ∧
          (a' = a ∨ ∃ failure, failure.isNone = error.isNone ∧
            a' = a.respond i ⟨hd.node, failure⟩) := by
      intro snd hsnd hserved failure hfailure
      obtain ⟨htarget, hcaller⟩ := hacks snd hsnd hserved
      obtain ⟨a', ha', hor⟩ := h.finish x snd failure
      refine ⟨a', ha', hor.imp_right ?_⟩
      rintro ⟨k, hk, rfl⟩
      exact ⟨failure, hfailure, by rw [hcaller k hk, htarget]⟩
    split
    · rename_i snd hsnd
      split_ifs with hserved
      · unfold proceed
        split
        · exact ends snd hsnd hserved _ rfl
        · split
          · exact ends snd hsnd hserved _ rfl
          · refine ⟨a, h.setSending fun snd' he => ?_, Or.inl rfl⟩
            obtain rfl := Option.some.inj he
            rfl
      · exact ⟨a, h, Or.inl rfl⟩
    · exact ⟨a, h, Or.inl rfl⟩

/-! ## Steps and runs -/

variable {sum64 : Bytes → UInt64} {cl : Cluster sum64} {e : ReplicationEvent} {d : Prop}

/-- The conditions on the steps of the abstract system; no `Delete` is issued if `d` holds. -/
def Follows (d : Prop) (a : ClusterState) (e : ClusterEvent) : Prop :=
  (d → e.NoDelete) ∧ a.Plain e ∧ a.Atomic e

/-- A step of the abstract system that issues nothing, receives nothing and stores nothing. -/
theorem runs_fail (a : ClusterState) (i : ℕ) (n : NodeID) (err : ReplicaFailure) :
    Runs cl.step (Follows d) a (a.respond i ⟨n, some err⟩) :=
  Runs.single (e := .fail i n err) ⟨fun _ => trivial, trivial, trivial⟩ rfl

/-- A `RemotePut` that fails. -/
theorem Simulates.failed (h : s.Simulates a) (x : ℕ) (snd : Sending) (err : ReplicaFailure) :
    ∃ a', Runs cl.step (Follows d) a a' ∧ (s.finish x snd (some err)).Simulates a' := by
  obtain ⟨a', ha', rfl | ⟨i, -, rfl⟩⟩ := h.finish x snd (some err)
  · exact ⟨_, Runs.refl _, ha'⟩
  · exact ⟨_, runs_fail a i _ err, ha'⟩

/-- A sibling of the write `i` reaches a node. -/
theorem runs_receive (h : s.Simulates a) {t i : ℕ} {n : NodeID} {stamp : Option (NodeID → Int64)}
    {env : CallEnv} {key data : Bytes} {sib : Sibling} (hfree : s.handlers t = none)
    (harr : a.arriving i n stamp = some (key, sib))
    (hprep : (s.stores n).prepare env key [sib] = .ok data)
    (hprune : Storage.NoPrune env (s.stores n) key [sib]) :
    Runs cl.step (Follows d) a { a with
      transfers := Function.update a.transfers t
        (some ⟨i, n, key, sib, env, s.stores n, data⟩) } := by
  refine Runs.single (e := .receive t i n stamp env) ⟨fun _ => trivial, ?_, trivial⟩ ?_
  · intro p hp
    obtain rfl := Option.some.inj (harr.symm.trans hp)
    rw [h.stores]
    exact hprune
  · simp only [Cluster.step, h.idle t hfree, harr, h.stores, hprep]

/-- The abstract system follows each step. -/
theorem Simulates.step (h : s.Simulates a) (htraced : s.Traced) (hdelete : d → e.NoDelete)
    (hplain : s.Plain e) (hatomic : s.Atomic e) (hsynced : s.Synced e)
    (hs : cl.replicationStep s e = some s') :
    ∃ a', Runs cl.step (Follows d) a a' ∧ s'.Simulates a' := by
  -- what the abstract system does not see
  have stutters : s'.Simulates a → ∃ a', Runs cl.step (Follows d) a a' ∧ s'.Simulates a' :=
    fun h' => ⟨a, Runs.refl a, h'⟩
  cases moved_of_step hplain hs with
  | issue new planned =>
    rename_i i coordinator times call plan
    have hstep : cl.step a (.issue i coordinator times call) = some { a with
        writes := Function.update s.writes i (some ⟨coordinator, plan, []⟩) } := by
      simp only [Cluster.step, h.writes, new, planned]
    refine ⟨_, Runs.single (e := .issue i coordinator times call) ⟨fun hd => ?_, hplain, trivial⟩ hstep,
      ⟨h.stores, rfl, h.reads, h.idle, h.busy⟩⟩
    cases call with
    | put key value context ttlSeconds => trivial
    | delete key context => exact hdelete hd
  | send free write starts other =>
    refine stutters ((h.start _ _).setSending fun snd he => ?_)
    obtain rfl := Option.some.inj he
    rfl
  | localWrite free write starts prepared =>
    rename_i t i env op data
    have harr : a.arriving i op.coordinator none = some (op.plan.key, op.plan.sibling) := by
      simp only [ClusterState.arriving, h.writes, write, Option.bind_some, WriteOp.arriving, if_true]
    let hd : Handler := ⟨.localWrite i, op.coordinator, op.plan.key, op.plan.sibling, env,
      s.stores op.coordinator, data, true⟩
    have hacks : (s.start i op.coordinator).AcksFor t hd i := rfl
    exact ⟨_, runs_receive h free harr prepared (hplain op write),
      (h.start _ _).serve free hacks⟩
  | localRefused write =>
    rename_i i env op err
    exact ⟨_, runs_fail a i _ _, (h.start _ _).respond _ _⟩
  | deliver free sending unserved head prepared =>
    rename_i t x stamp env snd sib rest data
    have hmem : sib ∈ snd.siblings := by
      rw [head]
      exact List.mem_cons_self
    have hsends := htraced.sendings x snd sending
    -- the write that the sibling belongs to; that of the fan-out if there is one
    obtain ⟨i, hfrom, howner⟩ : ∃ i, FromWrite s.writes i snd.key sib ∧
        ∀ k, snd.caller = .write k → k = i := by
      cases hcaller : snd.caller with
      | write i => exact ⟨i, hsends.own i hcaller sib hmem, fun k hk => (Caller.write.inj hk).symm⟩
      | replay r =>
        obtain ⟨i, hi⟩ := hsends.sent sib hmem
        exact ⟨i, hi, fun k hk => by cases hk⟩
      | background =>
        obtain ⟨i, hi⟩ := hsends.sent sib hmem
        exact ⟨i, hi, fun k hk => by cases hk⟩
    have hids : sib.vclock.ValidIDs := Sent.validIDs (s := s) ⟨i, hfrom⟩ htraced
    have harr : a.arriving i snd.target (some stamp) = some (snd.key, sib.received stamp) := by
      obtain ⟨op, hop, hkey, hdata⟩ := hfrom
      rw [sib.received_eq hids.textIDs, hdata, ← hkey]
      simp only [ClusterState.arriving, h.writes, hop, Option.bind_some, WriteOp.arriving]
    have hprune := hplain snd sending sib (by rw [head]; rfl)
    let hd : Handler := ⟨.replicate x, snd.target, snd.key, sib.received stamp, env,
      s.stores snd.target, data, true⟩
    have hacks : (s.setSending x (some { snd with handler := some t })).AcksFor t hd i := by
      intro snd' hsnd' _
      obtain rfl := Option.some.inj ((Function.update_self x _ s.sendings).symm.trans hsnd')
      exact ⟨rfl, howner⟩
    exact ⟨_, runs_receive h free harr prepared hprune,
      (h.assign free x snd).serve free hacks⟩
  | deliverRefused sending => exact h.failed _ _ _
  | commit handler alive written stored replied =>
    rename_i t hd s₁ ack
    obtain ⟨i, htr, hacks⟩ := h.busy t hd handler
    have hatomic' : ∀ b, a.Atomic (.commit t b) := by
      intro b tr htr'
      obtain rfl := Option.some.inj (htr.symm.trans htr')
      rw [h.stores]
      exact hatomic hd handler
    have hcommit : ∀ b, cl.step a (.commit t b) =
        some (if b then ((a.store (hd.transfer i)).drop t).respond i ⟨hd.node, none⟩
          else (a.store (hd.transfer i)).drop t) := by
      intro b
      have hset : (hd.transfer i).env.setError = none := written
      simp only [Cluster.step, htr, hset]
      rfl
    have hruns : ∀ b a', cl.step a (.commit t b) = some a' → Runs cl.step (Follows d) a a' :=
      fun b _ => Runs.single (e := ClusterEvent.commit t b) ⟨fun _ => trivial, trivial, hatomic' b⟩
    have hstored : s₁.Simulates ((a.store (hd.transfer i)).drop t) := by
      rw [stored]
      exact (h.store hd i).drop t
    have hacks₁ : s₁.AcksFor t hd i := by
      rw [stored]
      exact hacks
    rw [replied]
    split_ifs
    · obtain ⟨a', ha', rfl | ⟨failure, hfailure, rfl⟩⟩ := hstored.reply hacks₁ none
      · exact ⟨_, hruns false _ (hcommit false), ha'⟩
      · obtain rfl : failure = none := Option.isNone_iff_eq_none.1 hfailure
        exact ⟨_, hruns true _ (hcommit true), ha'⟩
    · exact ⟨_, hruns false _ (hcommit false), hstored⟩
  | commitFailed handler failed dropped replied =>
    rename_i t hd err s₁ ack
    obtain ⟨i, htr, hacks⟩ := h.busy t hd handler
    have hatomic' : a.Atomic (.commit t ack) := by
      intro tr htr'
      obtain rfl := Option.some.inj (htr.symm.trans htr')
      rw [h.stores]
      exact hatomic hd handler
    have hdropped : s₁.Simulates (a.drop t) := by
      rw [dropped]
      exact h.drop t
    have hacks₁ : s₁.AcksFor t hd i := by
      rw [dropped]
      exact hacks
    have hruns : Runs cl.step (Follows d) a (a.drop t) := by
      refine Runs.single (e := .commit t ack) ⟨fun _ => trivial, trivial, hatomic'⟩ ?_
      obtain ⟨perr, hset⟩ := Option.ne_none_iff_exists'.1 failed
      have hset' : (hd.transfer i).env.setError = some perr := hset
      simp only [Cluster.step, htr, hset']
    rw [replied]
    split_ifs
    · obtain ⟨a', ha', rfl | ⟨failure, hfailure, rfl⟩⟩ := hdropped.reply hacks₁ (some err)
      · exact ⟨_, hruns, ha'⟩
      · cases failure with
        | none => cases hfailure
        | some failure => exact ⟨_, hruns.trans (runs_fail _ i _ failure), ha'⟩
    · exact ⟨_, hruns, hdropped⟩
  | abort sending => exact h.failed _ _ _
  | hint write answered new live => exact stutters (h.frame rfl rfl rfl rfl fun _ _ hx _ => hx)
  | snapshot step => exact stutters (h.setHandoff _ _)
  | replay free running idle next young =>
    refine stutters ((h.setReplaying _ _ _).setSending fun snd he => ?_)
    obtain rfl := Option.some.inj he
    rfl
  | expire running idle next old step => exact stutters (h.setHandoff _ _)
  | writeBack step => exact stutters (h.setHandoff _ _)
  | get new planned =>
    rename_i j coordinator key prefList
    have hstep : cl.step a (.get j coordinator key) = some { a with
        reads := Function.update s.reads j (some ⟨coordinator, key, prefList, []⟩) } := by
      simp only [Cluster.step, h.reads, new, planned]
    exact ⟨_, Runs.single (e := .get j coordinator key) ⟨fun _ => trivial, trivial, trivial⟩ hstep,
      ⟨h.stores, h.writes, rfl, h.idle, h.busy⟩⟩
  | answer read =>
    rename_i j node env stamp op
    refine ⟨_, Runs.single (e := .answer j node env stamp) ⟨fun _ => trivial, ?_, trivial⟩ ?_,
      h.respondRead _ _⟩
    · intro op' hop'
      rw [h.reads] at hop'
      rw [h.stores]
      exact hplain op' hop'
    · simp only [Cluster.step, h.reads, read, h.stores]
  | failRead =>
    rename_i j node err
    exact ⟨_, Runs.single (e := .failRead j node err) ⟨fun _ => trivial, trivial, trivial⟩ rfl,
      h.respondRead _ _⟩
  | repair free read stale =>
    refine stutters (h.setSending fun snd he => ?_)
    obtain rfl := Option.some.inj he
    rfl
  | push free record =>
    refine stutters (h.setSending fun snd he => ?_)
    obtain rfl := Option.some.inj he
    rfl
  | flush => exact stutters (h.frame rfl rfl rfl rfl fun _ _ hx _ => hx)
  | crash => exact stutters (h.crashNode hsynced)

/-- The abstract system follows a step, and every sibling stays traced. -/
theorem follows_step (h : s.Simulates a ∧ s.Traced ∧ cl.Sound a) (hdelete : d → e.NoDelete)
    (hplain : s.Plain e) (hatomic : s.Atomic e) (hsynced : s.Synced e)
    (hs : cl.replicationStep s e = some s') :
    ∃ b, Runs cl.step (Follows d) a b ∧ s'.Simulates b ∧ s'.Traced ∧ cl.Sound b := by
  obtain ⟨hsim, htraced, hsound⟩ := h
  obtain ⟨b, hb, hsim'⟩ := hsim.step htraced hdelete hplain hatomic hsynced hs
  exact ⟨b, hb, hsim', htraced.step hplain hs,
    sound_of_runs (fun _ _ hf => hf.2) hsound hb⟩

/-- The abstract system follows whole runs. -/
theorem follows_run {s₁ s₂ : ReplicationState} {a₁ : ClusterState}
    {ok : ReplicationState → ReplicationEvent → Prop}
    (hok : ∀ s e, ok s e → (d → e.NoDelete) ∧ s.Plain e ∧ s.Atomic e ∧ s.Synced e)
    (hrun : Runs cl.replicationStep ok s₁ s₂)
    (h : s₁.Simulates a₁ ∧ s₁.Traced ∧ cl.Sound a₁) :
    ∃ a₂, Runs cl.step (Follows d) a₁ a₂ ∧ s₂.Simulates a₂ ∧ s₂.Traced ∧ cl.Sound a₂ := by
  refine hrun.simulate (R := fun s a => s.Simulates a ∧ s.Traced ∧ cl.Sound a) h
    fun s e t a hR hc hs => ?_
  obtain ⟨hdelete, hplain, hatomic, hsynced⟩ := hok s e hc
  exact follows_step hR hdelete hplain hatomic hsynced hs

theorem follows_init (opts : NodeID → StorageOptions) :
    (init opts).Simulates (ClusterState.init opts) ∧ (init opts).Traced ∧
      cl.Sound (ClusterState.init opts) :=
  ⟨simulates_init opts, traced_init opts, sound_init opts⟩

end ReplicationState

open Cluster ReplicationState

/-- A `Put` by `n1` that `n1` and `n2` take; `n3` is not reached and gets a hint. -/
def putWithHint : List ReplicationEvent :=
  [.issue 0 n1 ⟨100, 100, 100⟩ (.put [107] [1] VectorClock.new 0),
    .localWrite 0 0 (CallEnv.steady 100), .commit 0 true,
    .send 0 0 n2, .deliver 0 0 (fun _ => 100) (CallEnv.steady 100), .commit 0 true,
    .send 1 0 n3, .abort 1, .hint 0 fun _ => 0]

/-- The hint is replayed, `n1` crashes, `n2` pushes the record to `n3`, and `n3` reads its own store
and that of `n2`. -/
def trafficAndGet : List ReplicationEvent :=
  [.snapshot n1 0 n3 5, .replay 2 n1 0, .deliver 0 2 (fun _ => 101) (CallEnv.steady 101),
    .commit 0 true, .writeBack n1 0, .crash n1,
    .push 3 n2 n3 [107], .deliver 1 3 (fun _ => 102) (CallEnv.steady 102), .commit 1 true,
    .get 0 n3 [107], .answer 0 n3 (CallEnv.steady 103) (fun _ _ => 103),
    .answer 0 n2 (CallEnv.steady 103) fun _ _ => 103]

/-- The cluster before anything has happened. -/
def replicationStart : ReplicationState := init fun _ => defaultStorageOptions

/-- The state after both. -/
def afterTraffic : ReplicationState :=
  stateAfter sampleCluster.replicationStep replicationStart (putWithHint ++ trafficAndGet)

/-- The cluster with fan-outs, hints, replays, read repairs, anti-entropy and crashes refines the
abstract system: every run that prunes and expires nothing, in which `Storage.Put` is atomic and only
nodes with `SyncWrites` crash, has a counterpart with the same stores, writes and reads. -/
theorem replication_refines {sum64 : Bytes → UInt64} (cl : Cluster sum64)
    (opts : NodeID → StorageOptions) (s : ReplicationState)
    (hrun : Runs cl.replicationStep (fun s e => s.Plain e ∧ s.Atomic e ∧ s.Synced e) (init opts) s) :
    ∃ a : ClusterState,
      Runs cl.step (fun a e => a.Plain e ∧ a.Atomic e) (ClusterState.init opts) a ∧
        a.stores = s.stores ∧ a.writes = s.writes ∧ a.reads = s.reads := by
  obtain ⟨a, ha, hsim, -, -⟩ := follows_run (d := False) (fun s e hc => ⟨False.elim, hc⟩) hrun
    (follows_init opts)
  exact ⟨a, ha.mono fun _ _ hf => hf.2, hsim.stores, hsim.writes, hsim.reads⟩

set_option maxRecDepth 8000 in
theorem replication_refines_replayed_hint :
    ((afterTraffic.stores n3).db.get? [107]).isSome = true ∧
      ∃ a : ClusterState, Runs sampleCluster.step (fun a e => a.Plain e ∧ a.Atomic e)
        (ClusterState.init fun _ => defaultStorageOptions) a ∧ a.stores = afterTraffic.stores := by
  obtain ⟨a, ha, hstores, -, -⟩ := replication_refines sampleCluster
    (fun _ => defaultStorageOptions) afterTraffic (Runs.stateAfter (by decide +kernel))
  exact ⟨by decide +kernel, a, ha, hstores⟩

/-- Every sibling anywhere in the cluster, on a replica, on its disk, about to be written, on its
way, in a hint or in the answers of a read, has the value, counters, tombstone flag and timestamp of
a write that was issued for the same key. -/
theorem every_sibling_was_written {sum64 : Bytes → UInt64} (cl : Cluster sum64)
    (opts : NodeID → StorageOptions) (s : ReplicationState)
    (hrun : Runs cl.replicationStep (fun s e => s.Plain e) (init opts) s) : s.Traced :=
  hrun.invariant Traced (traced_init opts) fun _ _ _ h hplain hs => h.step hplain hs

set_option maxRecDepth 8000 in
theorem every_sibling_was_written_replayed_hint :
    (afterTraffic.stores n3).stored [107] ≠ .ok [] ∧ afterTraffic.Traced :=
  ⟨by decide +kernel, every_sibling_was_written sampleCluster (fun _ => defaultStorageOptions)
    afterTraffic (Runs.stateAfter (by decide +kernel))⟩

/-- With overlapping quorums, whatever hints, replays, repairs, exchanges and crashes of nodes with
`SyncWrites` there are:
once a `Put` has returned its clock, every later `Get` on the key fails for want of a quorum or
returns a sibling whose clock dominates it. -/
theorem get_dominates_put_amid_traffic {sum64 : Bytes → UInt64} (cl : Cluster sum64)
    (opts : NodeID → StorageOptions) (s₁ s₂ : ReplicationState) (i j : ℕ) (w : WriteOp) (r : ReadOp)
    (c : VectorClock) (arrivals : List ReadResponse)
    (h₁ : Runs cl.replicationStep (fun s e =>
      e.NoDelete ∧ s.Plain e ∧ s.Atomic e ∧ s.Synced e) (init opts) s₁)
    (hw : s₁.writes i = some w) (hput : cl.putResult w = some (.ok c)) (hnew : s₁.reads j = none)
    (h₂ : Runs cl.replicationStep (fun s e =>
      e.NoDelete ∧ s.Plain e ∧ s.Atomic e ∧ s.Synced e) s₁ s₂)
    (hr : s₂.reads j = some r) (hkey : r.key = w.plan.key)
    (harr : arrivals.Subperm r.answers) :
    (∃ q, cl.getResult r arrivals = .error (.quorum q)) ∨
      ∃ sibs, cl.getResult r arrivals = .ok sibs ∧ ∃ sib ∈ sibs, sib.vclock.dominates c = true := by
  obtain ⟨hW, rfl⟩ := acks_of_putResult hput
  obtain ⟨a₁, ha₁, hR₁⟩ := follows_run (d := True) (fun _ _ hc => ⟨fun _ => hc.1, hc.2⟩) h₁
    (follows_init opts)
  obtain ⟨a₂, ha₂, hsim₂, -, hsound₂⟩ :=
    follows_run (d := True) (fun _ _ hc => ⟨fun _ => hc.1, hc.2⟩) h₂ hR₁
  obtain ⟨hsim₁, -, hsound₁⟩ := hR₁
  rw [← hsim₁.writes] at hw
  rw [← hsim₁.reads] at hnew
  rw [← hsim₂.reads] at hr
  have hlive : AllLive a₂ := (ha₁.trans ha₂).invariant AllLive (fun _ _ h => by cases h)
    fun _ _ _ h hc => h.step (hc.1 trivial)
  obtain ⟨-, -, hshows⟩ := shows_durable (fun _ _ hf => hf.2) hsound₁ hnew ha₂
  by_cases hR : cl.quorumConfig.R ≤ readSuccesses (cl.collected arrivals)
  swap
  · exact Or.inl (getResult_of_no_quorum hR)
  have live : ∀ x, a₂.Issued r.key x → x.tombstone = false := by
    rintro x ⟨k, op, hop, -, hview⟩
    rw [tombstone_of_view hview]
    exact hlive k op hop
  obtain ⟨x, -, hissued, hcovers⟩ :=
    exists_covering hsound₁ hw hW hsound₂ hshows hr hkey harr hR
  obtain ⟨z, hz, hle, hgathered⟩ := exists_merged (hcovers (live x hissued))
  obtain ⟨sibs, hres, hmem⟩ :=
    getResult_of_live (r := r) hR hz (live z (issued_of_gathered hshows hr harr hgathered))
  exact Or.inr ⟨sibs, hres, z, hmem, VectorClock.dominates_iff.2 hle⟩

set_option maxRecDepth 8000 in
theorem get_dominates_put_amid_traffic_after_crash :
    ∃ (w : WriteOp) (r : ReadOp),
      sampleCluster.putResult w = some (.ok (VectorClock.new.set 100 [110, 49] 1)) ∧
      r.answers.length = 2 ∧
      ((∃ q, sampleCluster.getResult r r.answers = .error (.quorum q)) ∨
        ∃ sibs, sampleCluster.getResult r r.answers = .ok sibs ∧
          ∃ sib ∈ sibs, sib.vclock.dominates (VectorClock.new.set 100 [110, 49] 1) = true) := by
  let s₁ := stateAfter sampleCluster.replicationStep replicationStart putWithHint
  let s₂ := stateAfter sampleCluster.replicationStep s₁ trafficAndGet
  obtain ⟨w, hw, hput⟩ := Option.map_eq_some_iff.1
    (by decide +kernel : (s₁.writes 0).map (fun w => (sampleCluster.putResult w, w.plan.key)) =
      some (some (.ok (VectorClock.new.set 100 [110, 49] 1)), [107]))
  obtain ⟨r, hr, hread⟩ := Option.map_eq_some_iff.1
    (by decide +kernel : (s₂.reads 0).map (fun r => (r.key, r.answers.length)) = some ([107], 2))
  obtain ⟨hput, hwkey⟩ := Prod.mk.inj hput
  obtain ⟨hrkey, hlen⟩ := Prod.mk.inj hread
  refine ⟨w, r, hput, hlen, get_dominates_put_amid_traffic sampleCluster
    (fun _ => defaultStorageOptions) s₁ s₂ 0 0 w r _ _ ?_ hw hput ?_ ?_ hr
    (hrkey.trans hwkey.symm) (List.Subperm.refl _)⟩
  · exact Runs.stateAfter (by decide +kernel)
  · exact Option.isNone_iff_eq_none.1 (by decide +kernel)
  · exact Runs.stateAfter (by decide +kernel)

end GoQuorum
