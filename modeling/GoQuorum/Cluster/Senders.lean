import GoQuorum.Cluster.Replicas

/-!
# Goroutines that send records to peers

Anti-entropy and read repair make one `RemotePut` after the other, and each of them sends one request
for each sibling until one fails.  A `Sender` is such a goroutine; its requests are served by calls
on the `Replicas`, whose outcome it learns unless it gives up before.

Served without interruption, a sender does what `remotePut` does (`exec_todo`), and the sender of an
exchange does what `exchangeWithPeer` does (`exec_exchange`).  Among other calls: as long as no
request has failed, what was to be sent is still to be sent, or covered by its target
(`owes_step`).
-/

namespace GoQuorum

open Lib Lib.Versions

/-! ## Senders -/

/-- A `RemotePut`, with the siblings it has still to send. -/
structure RemoteWrite where
  target : NodeID
  key : Bytes
  siblings : List Sibling
  deriving DecidableEq

/-- The `RemotePut`s that a goroutine has still to make, the first of which is under way, the call
that serves its present request, and whether one of them has failed. -/
structure Sender where
  todo : List RemoteWrite
  request : Option ℕ
  failed : Bool
  deriving DecidableEq

inductive SenderEvent where
  /-- The next sibling reaches its target, where `Storage.Put` reads as call `t`. -/
  | deliver (t : ℕ) (stamp : NodeID → Int64) (env : CallEnv)
  /-- The answer to the present request arrives. -/
  | learn
  /-- The `RemotePut` is given up: its request or the answer is lost, or its time is over. -/
  | abort
  /-- The `RemotePut` has sent all its siblings. -/
  | next

namespace Sender

/-- The present `RemotePut` fails, and the next one follows. -/
def giveUp (c : Sender) : Sender := ⟨c.todo.tail, none, true⟩

/-- One step of a sender. -/
def step (c : Sender) (r : Replicas) : SenderEvent → Option (Replicas × Sender)
  | .deliver t stamp env =>
    match c.request, c.todo with
    | none, ⟨target, key, sib :: _⟩ :: _ =>
      match r.beginPut t target env key [sib.received stamp] with
      | some (none, r') => some (r', { c with request := some t })
      | some (some _, r') => some (r', c.giveUp)
      | none => none
    | _, _ => none
  | .learn =>
    match c.request, c.todo with
    | some t, ⟨target, key, _ :: rest⟩ :: todo =>
      match (r.puts t).bind StorePut.outcome with
      | some (.ok ()) => some (r, ⟨⟨target, key, rest⟩ :: todo, none, c.failed⟩)
      | some (.error _) => some (r, c.giveUp)
      | none => none
    | _, _ => none
  | .abort =>
    match c.todo with
    | ⟨_, _, _ :: _⟩ :: _ => some (r, c.giveUp)
    | _ => none
  | .next =>
    match c.todo with
    | ⟨_, _, []⟩ :: todo => some (r, { c with todo })
    | _ => none

/-- The request prunes nothing at its target. -/
def Gentle (r : Replicas) (c : Sender) : SenderEvent → Prop
  | .deliver _ stamp env => ∀ w ∈ c.todo.head?, ∀ sib ∈ w.siblings.head?,
      Storage.NoPrune env (r.stores w.target) w.key [sib.received stamp]
  | .learn | .abort | .next => True

instance (r : Replicas) (c : Sender) : (e : SenderEvent) → Decidable (c.Gentle r e)
  | .deliver _ _ _ => inferInstanceAs (Decidable (∀ w ∈ c.todo.head?, _))
  | .learn | .abort | .next => isTrue trivial

/-- What a step does. -/
inductive Moved (r : Replicas) (c : Sender) : SenderEvent → Replicas → Sender → Prop
  | delivered (t : ℕ) (stamp : NodeID → Int64) (env : CallEnv) (w : RemoteWrite) (sib : Sibling)
      (rest : List Sibling) (todo : List RemoteWrite) (r' : Replicas) (hrequest : c.request = none)
      (htodo : c.todo = w :: todo) (hsib : w.siblings = sib :: rest)
      (hput : r.beginPut t w.target env w.key [sib.received stamp] = some (none, r')) :
      Moved r c (.deliver t stamp env) r' { c with request := some t }
  | accepted (t : ℕ) (w : RemoteWrite) (sib : Sibling) (rest : List Sibling)
      (todo : List RemoteWrite) (hrequest : c.request = some t) (htodo : c.todo = w :: todo)
      (hsib : w.siblings = sib :: rest)
      (hout : (r.puts t).bind StorePut.outcome = some (.ok ())) :
      Moved r c .learn r ⟨⟨w.target, w.key, rest⟩ :: todo, none, c.failed⟩
  | failed (e : SenderEvent) : Moved r c e r c.giveUp
  | next (w : RemoteWrite) (todo : List RemoteWrite) (htodo : c.todo = w :: todo)
      (hsib : w.siblings = []) : Moved r c .next r { c with todo }

variable {r r' : Replicas} {c c' : Sender} {e : SenderEvent}

theorem moved_of_step (h : c.step r e = some (r', c')) : c.Moved r e r' c' := by
  cases e with
  | deliver t stamp env =>
    simp only [step] at h
    split at h
    · rename_i target key sib rest todo hrequest htodo
      split at h
      · rename_i r₁ hput
        obtain ⟨rfl, rfl⟩ := Prod.mk.inj (Option.some.inj h)
        exact .delivered t stamp env _ sib rest todo r₁ hrequest htodo rfl hput
      · rename_i err r₁ hput
        obtain ⟨rfl, rfl⟩ := Prod.mk.inj (Option.some.inj h)
        obtain ⟨-, -, ⟨herr, -⟩ | ⟨-, rfl⟩⟩ := Replicas.beginPut_cases hput
        · cases herr
        · exact .failed _
      · cases h
    · cases h
  | learn =>
    simp only [step] at h
    split at h
    · rename_i t target key sib rest todo hrequest htodo
      split at h
      · rename_i hout
        obtain ⟨rfl, rfl⟩ := Prod.mk.inj (Option.some.inj h)
        exact .accepted t ⟨target, key, sib :: rest⟩ sib rest todo hrequest htodo rfl hout
      · obtain ⟨rfl, rfl⟩ := Prod.mk.inj (Option.some.inj h)
        exact .failed _
      · cases h
    · cases h
  | abort =>
    simp only [step] at h
    split at h
    · obtain ⟨rfl, rfl⟩ := Prod.mk.inj (Option.some.inj h)
      exact .failed _
    · cases h
  | next =>
    simp only [step] at h
    split at h
    · rename_i target key todo htodo
      obtain ⟨rfl, rfl⟩ := Prod.mk.inj (Option.some.inj h)
      exact .next ⟨target, key, []⟩ todo htodo rfl
    · cases h

/-! ## Among other calls -/

/-- A step begins at most a call. -/
theorem stores_step (h : c.step r e = some (r', c')) : r'.stores = r.stores ∧ r.Extends r' := by
  cases moved_of_step h with
  | delivered t stamp env w sib rest todo r' hrequest htodo hsib hput =>
    obtain ⟨hstores, hext, -⟩ := Replicas.beginPut_cases hput
    exact ⟨hstores, hext⟩
  | accepted => exact ⟨rfl, Replicas.Extends.refl r⟩
  | failed => exact ⟨rfl, Replicas.Extends.refl r⟩
  | next => exact ⟨rfl, Replicas.Extends.refl r⟩

theorem failed_step (h : c.step r e = some (r', c')) (hc : c'.failed = false) :
    c.failed = false := by
  cases moved_of_step h with
  | delivered => exact hc
  | accepted => exact hc
  | failed => cases hc
  | next => exact hc

section

variable {P : NodeID → Bytes → Sibling → Prop}

/-- The sibling has the property at its target, whenever it arrives. -/
def Sends (P : NodeID → Bytes → Sibling → Prop) (n : NodeID) (key : Bytes) (x : Sibling) : Prop :=
  x.vclock.ValidIDs ∧ ∀ stamp, P n key (x.received stamp)

/-- What is to be sent has the property, and the call that serves the present request is for the
next sibling. -/
structure Valid (P : NodeID → Bytes → Sibling → Prop) (r : Replicas) (c : Sender) : Prop where
  todo : ∀ w ∈ c.todo, ∀ x ∈ w.siblings, Sends P w.target w.key x
  request : ∀ t, c.request = some t → ∃ w todo sib rest, c.todo = w :: todo ∧
    w.siblings = sib :: rest ∧ ∃ p stamp, r.puts t = some p ∧ p.node = w.target ∧ p.key = w.key ∧
      p.siblings = [sib.received stamp]

theorem Valid.mono (h : c.Valid P r) (hext : r.Extends r') : c.Valid P r' := by
  refine ⟨h.todo, fun t ht => ?_⟩
  obtain ⟨w, todo, sib, rest, htodo, hsib, p, stamp, hp, hnode, hkey, hsibs⟩ := h.request t ht
  obtain ⟨p', hp', hnode', hkey', hsibs'⟩ := hext t p hp
  exact ⟨w, todo, sib, rest, htodo, hsib, p', stamp, hp', hnode'.trans hnode, hkey'.trans hkey,
    hsibs'.trans hsibs⟩

/-- A sender that has not yet begun. -/
theorem valid_of_todo {todo : List RemoteWrite}
    (h : ∀ w ∈ todo, ∀ x ∈ w.siblings, Sends P w.target w.key x) :
    Valid P r ⟨todo, none, false⟩ := ⟨h, fun _ ht => by cases ht⟩

theorem Valid.step (h : c.Valid P r) (hs : c.step r e = some (r', c')) : c'.Valid P r' := by
  have hmono := h.mono (stores_step hs).2
  cases moved_of_step hs with
  | delivered t stamp env w sib rest todo r' hrequest htodo hsib hput =>
    refine ⟨h.todo, fun u hu => ?_⟩
    obtain rfl := Option.some.inj hu
    obtain ⟨-, -, ⟨-, p, hputs, hnode, hkey, hsibs, -⟩ | ⟨herr, -⟩⟩ := Replicas.beginPut_cases hput
    · refine ⟨w, todo, sib, rest, htodo, hsib, p, stamp, ?_, hnode, hkey, hsibs⟩
      rw [hputs, Function.update_self]
    · exact absurd rfl herr
  | accepted t w sib rest todo hrequest htodo hsib hout =>
    refine ⟨fun w' hw' x hx => ?_, fun u hu => by cases hu⟩
    have hold := h.todo
    rw [htodo] at hold
    rcases List.mem_cons.1 hw' with rfl | hw'
    · exact hold w List.mem_cons_self x (by rw [hsib]; exact List.mem_cons_of_mem _ hx)
    · exact hold w' (List.mem_cons_of_mem _ hw') x hx
  | failed => exact ⟨fun w hw => h.todo w (List.mem_of_mem_tail hw), fun u hu => by cases hu⟩
  | next w todo htodo hsib =>
    refine ⟨fun w' hw' => h.todo w' ?_, fun t ht => ?_⟩
    · rw [htodo]
      exact List.mem_cons_of_mem _ hw'
    · -- a request under way is for a sibling
      obtain ⟨w', todo', sib, rest, htodo', hsib', -⟩ := h.request t ht
      obtain ⟨rfl, -⟩ := List.cons.inj (htodo.symm.trans htodo')
      rw [hsib] at hsib'
      cases hsib'

/-- The sender has still to send the target a sibling that covers the clock. -/
def Owes (c : Sender) (n : NodeID) (key : Bytes) (vc : VectorClock) : Prop :=
  ∃ w ∈ c.todo, w.target = n ∧ w.key = key ∧ Covers Sibling.vclock w.siblings vc

/-- What was to be sent still is, or is covered by its target, as long as nothing fails. -/
theorem owes_step (hclean : r.Clean P) (h : c.Valid P r) (hs : c.step r e = some (r', c'))
    (hc : c'.failed = false) {n : NodeID} {key : Bytes} {vc : VectorClock}
    (howes : c.Owes n key vc) :
    c'.Owes n key vc ∨ Covers Sibling.vclock ((r'.stores n).held key) vc := by
  cases moved_of_step hs with
  | delivered => exact Or.inl howes
  | failed => cases hc
  | accepted t w sib rest todo hrequest htodo hsib hout =>
    obtain ⟨w', hw', rfl, rfl, x, hx, hle⟩ := howes
    rw [htodo] at hw'
    rcases List.mem_cons.1 hw' with rfl | hw'
    swap
    · exact Or.inl ⟨w', List.mem_cons_of_mem _ hw', rfl, rfl, x, hx, hle⟩
    rw [hsib] at hx
    rcases List.mem_cons.1 hx with rfl | hx
    swap
    · exact Or.inl ⟨_, List.mem_cons_self, rfl, rfl, x, hx, hle⟩
    -- the sibling is the one that the call has stored
    right
    have hsends := h.todo w' (by rw [htodo]; exact List.mem_cons_self) x
      (by rw [hsib]; exact List.mem_cons_self)
    obtain ⟨w, todo', sib', rest', htodo', hsib', p, stamp, hp, hnode, hkey, hsibs⟩ :=
      h.request t hrequest
    obtain ⟨rfl, -⟩ := List.cons.inj (htodo.symm.trans htodo')
    obtain ⟨rfl, -⟩ := List.cons.inj (hsib.symm.trans hsib')
    rw [hp] at hout
    obtain ⟨y, hy, hxy⟩ := hclean.acked t p hp hout (x.received stamp)
      (by rw [hsibs]; exact List.mem_cons_self)
    rw [hnode, hkey] at hy
    exact ⟨y, hy, hle.trans ((x.received_of_validIDs hsends.1 stamp).2.1.trans hxy)⟩
  | next w todo htodo hsib =>
    obtain ⟨w', hw', rfl, rfl, x, hx, hle⟩ := howes
    rw [htodo] at hw'
    rcases List.mem_cons.1 hw' with rfl | hw'
    · rw [hsib] at hx
      cases hx
    · exact Or.inl ⟨w', hw', rfl, rfl, x, hx, hle⟩

theorem clean_step (hclean : r.Clean P) (h : c.Valid P r) (hok : c.Gentle r e)
    (hs : c.step r e = some (r', c')) : r'.Clean P := by
  cases moved_of_step hs with
  | delivered t stamp env w sib rest todo r' hrequest htodo hsib hput =>
    refine hclean.beginPut ?_ (fun x hx => ?_) hput
    · exact hok w (by rw [htodo]; rfl) sib (by rw [hsib]; rfl)
    · rw [List.mem_singleton.1 hx]
      refine (h.todo w ?_ sib ?_).2 stamp
      · rw [htodo]
        exact List.mem_cons_self
      · rw [hsib]
        exact List.mem_cons_self
  | accepted => exact hclean
  | failed => exact hclean
  | next => exact hclean

end

/-! ## Without interruption -/

/-- The steps of a sender with nobody else. -/
inductive LoneEvent where
  | send (e : SenderEvent)
  | commit (t : ℕ)

def lone (st : Replicas × Sender) : LoneEvent → Option (Replicas × Sender)
  | .send e => st.2.step st.1 e
  | .commit t => (st.1.commit t).map fun r => (r, st.2)

end Sender

/-- There is always a number for a further call. -/
def Replicas.Roomy (r : Replicas) : Prop := ∀ k, ∃ t, k ≤ t ∧ r.puts t = none

theorem Replicas.Roomy.of_update {r r' : Replicas} {t : ℕ} {p : Option StorePut} (h : r.Roomy)
    (hputs : r'.puts = Function.update r.puts t p) : r'.Roomy := by
  intro k
  obtain ⟨u, hu, hfree⟩ := h (max k (t + 1))
  have hne : u ≠ t := by omega
  exact ⟨u, by omega, by rw [hputs, Function.update_of_ne hne, hfree]⟩

/-- A call that is not interrupted: it fails before it has read, or reads and writes, and its outcome
is that of `Put`. -/
theorem Replicas.exists_put {r : Replicas} (hroom : r.Roomy) (n : NodeID) (env : CallEnv)
    (key : Bytes) (siblings : SiblingSet) :
    (∃ t err, (r.stores n).put env key siblings = .error err ∧
      r.beginPut t n env key siblings = some (some err, r)) ∨
    ∃ t r₁ r₂, r.beginPut t n env key siblings = some (none, r₁) ∧ r₁.commit t = some r₂ ∧
      r₂.Roomy ∧
      ((∃ store, (r.stores n).put env key siblings = .ok store ∧
          r₂.stores = Function.update r.stores n store ∧
          (r₂.puts t).bind StorePut.outcome = some (.ok ())) ∨
        ∃ err, (r.stores n).put env key siblings = .error err ∧ r₂.stores = r.stores ∧
          (r₂.puts t).bind StorePut.outcome = some (.error err)) := by
  obtain ⟨t, -, hfree⟩ := hroom 0
  cases hprep : (r.stores n).prepare env key siblings with
  | error err =>
    refine Or.inl ⟨t, err, ?_, ?_⟩
    · rw [Storage.put, hprep]
      rfl
    · simp only [beginPut, hfree]
      split
      · rename_i data hdata
        rw [hprep] at hdata
        cases hdata
      · rename_i err' herr
        rw [hprep] at herr
        obtain rfl := Except.error.inj herr
        rfl
  | ok data =>
    right
    let p : StorePut := ⟨n, key, siblings, env, r.stores n, data, hprep, none⟩
    let r₁ := r.setPut t p ⟨rfl, rfl⟩
    have hbegin : r.beginPut t n env key siblings = some (none, r₁) := by
      simp only [beginPut, hfree]
      split
      · rename_i data' hdata
        obtain rfl := Except.ok.inj (hprep.symm.trans hdata)
        rfl
      · rename_i err herr
        rw [hprep] at herr
        cases herr
    have hp : r₁.puts t = some p := Function.update_self _ _ _
    have hroom₁ : r₁.Roomy := hroom.of_update rfl
    cases hset : (r.stores n).commit env key data with
    | ok store =>
      obtain ⟨-, rfl⟩ := Storage.commit_eq_ok.1 hset
      refine ⟨t, r₁, r₁.write t p hp, hbegin, ?_, hroom₁.of_update rfl, Or.inl ⟨_, ?_, rfl, ?_⟩⟩
      · unfold commit
        split
        · rename_i hnone
          rw [hp] at hnone
          cases hnone
        · rename_i q hq
          obtain rfl := Option.some.inj (hp.symm.trans hq)
          have hset' : (r₁.stores p.node).commit p.env p.key p.data = .ok _ := hset
          simp only [p, hset']
      · rw [Storage.put, hprep]
        exact hset
      · simp only [write, Function.update_self, Option.bind_some]
    | error err =>
      refine ⟨t, r₁, r₁.setPut t { p with outcome := some (.error err) } ⟨rfl, rfl⟩, hbegin, ?_,
        hroom₁.of_update rfl, Or.inr ⟨err, ?_, rfl, ?_⟩⟩
      · unfold commit
        split
        · rename_i hnone
          rw [hp] at hnone
          cases hnone
        · rename_i q hq
          obtain rfl := Option.some.inj (hp.symm.trans hq)
          have hset' : (r₁.stores p.node).commit p.env p.key p.data = .error err := hset
          simp only [p, hset']
      · rw [Storage.put, hprep]
        exact hset
      · simp only [setPut, Function.update_self, Option.bind_some]

/-- The stores after a `RemotePut`. -/
def RemoteWrite.sent (net : RemoteWrite → ℕ → Request) (stores : NodeID → Storage)
    (w : RemoteWrite) : NodeID → Storage :=
  Function.update stores w.target (remotePut w.key (net w) (stores w.target) w.siblings).2

namespace Sender

variable {r : Replicas}

/-- A request that arrives: it is refused, or call `t` serves it and the store of the target becomes
what `Replicate` makes of it. -/
theorem exec_request (hroom : r.Roomy) (target : NodeID) (key : Bytes) (sib : Sibling)
    (rest : List Sibling) (todo : List RemoteWrite) (failed : Bool) (env : CallEnv)
    (stamp : NodeID → Int64) :
    let c : Sender := ⟨⟨target, key, sib :: rest⟩ :: todo, none, failed⟩
    let served := replicate env stamp (r.stores target) ⟨key, sib.toData.overJSON⟩
    ∃ r' es, r'.Roomy ∧ r'.stores = Function.update r.stores target served.2 ∧
      (exec lone (r, c) (es ++ [.send .abort]) = some (r', c.giveUp)) ∧
      ∃ es', exec lone (r, c) es' = some (r', if served.1.success then
        ⟨⟨target, key, rest⟩ :: todo, none, failed⟩ else c.giveUp) := by
  intro c served
  have hsibs : ReplicateReq.siblings stamp ⟨key, sib.toData.overJSON⟩ = [sib.received stamp] := rfl
  have habort : ∀ (r' : Replicas) (request : Option ℕ), exec lone
      (r', ⟨⟨target, key, sib :: rest⟩ :: todo, request, failed⟩) [.send .abort] =
        some (r', c.giveUp) := fun _ _ => rfl
  rcases Replicas.exists_put hroom target env key [sib.received stamp] with
    ⟨t, err, hput, hbegin⟩ | ⟨t, r₁, r₂, hbegin, hcommit, hroom₂, hresult⟩
  · have hserved : served = (⟨false, some err⟩, r.stores target) := by
      simp only [served, replicate, hsibs, hput]
    refine ⟨r, [], hroom, ?_, habort r none, [.send (.deliver t stamp env)], ?_⟩
    · rw [hserved, Function.update_eq_self]
    · simp only [exec, lone, step, c, hbegin, hserved, Option.bind_some, Bool.false_eq_true,
        if_false]
  · have hserve : exec lone (r, c) [.send (.deliver t stamp env), .commit t] =
        some (r₂, { c with request := some t }) := by
      simp only [exec, lone, step, c, hbegin, hcommit, Option.bind_some, Option.map_some]
    refine ⟨r₂, [.send (.deliver t stamp env), .commit t], hroom₂, ?_, ?_,
      [.send (.deliver t stamp env), .commit t] ++ [.send .learn], ?_⟩
    · rcases hresult with ⟨store, hput, hstores, -⟩ | ⟨err, hput, hstores, -⟩
      · simp only [served, replicate, hsibs, hput, hstores]
      · simp only [served, replicate, hsibs, hput, hstores, Function.update_eq_self]
    · rw [exec_append, hserve]
      exact habort r₂ (some t)
    · rw [exec_append, hserve, Option.bind_some]
      rcases hresult with ⟨store, hput, -, hout⟩ | ⟨err, hput, -, hout⟩
      · have hserved : served = (⟨true, none⟩, store) := by
          simp only [served, replicate, hsibs, hput]
        simp only [exec, lone, step, c, hout, hserved, Option.bind_some, if_true]
      · have hserved : served = (⟨false, some err⟩, r.stores target) := by
          simp only [served, replicate, hsibs, hput]
        simp only [exec, lone, step, c, hout, hserved, Option.bind_some, Bool.false_eq_true,
          if_false]
        rfl

/-- One `RemotePut` without interruption. -/
theorem exec_remotePut (hroom : r.Roomy) (target : NodeID) (key : Bytes) (siblings : List Sibling)
    (todo : List RemoteWrite) (failed : Bool) (net : ℕ → Request) : ∃ es r' failed',
      exec lone (r, ⟨⟨target, key, siblings⟩ :: todo, none, failed⟩) es =
        some (r', ⟨todo, none, failed'⟩) ∧ r'.Roomy ∧
      r'.stores = Function.update r.stores target
        (remotePut key net (r.stores target) siblings).2 := by
  induction siblings generalizing r net failed with
  | nil => exact ⟨[.send .next], r, failed, rfl, hroom, (Function.update_eq_self _ _).symm⟩
  | cons sib rest ih =>
    obtain ⟨r', es, hroom', hstores, hlost, es', hanswered⟩ :=
      exec_request hroom target key sib rest todo failed (net 0).env (net 0).stamp
    cases hout : (net 0).outcome with
    | lost =>
      refine ⟨[.send .abort], r, true, rfl, hroom, ?_⟩
      simp only [remotePut, hout, Function.update_eq_self]
    | unanswered =>
      refine ⟨_, r', true, hlost, hroom', ?_⟩
      simp only [remotePut, hout, hstores]
    | answered =>
      split_ifs at hanswered with hsuccess
      · obtain ⟨es'', r'', failed', hrest, hroom'', hstores'⟩ := ih hroom' failed
          fun i => net (i + 1)
        refine ⟨es' ++ es'', r'', failed', ?_, hroom'', ?_⟩
        · rw [exec_append, hanswered]
          exact hrest
        · simp only [remotePut, hout, hsuccess, if_true, hstores', hstores, Function.update_self,
            Function.update_idem]
      · refine ⟨es', r', true, hanswered, hroom', ?_⟩
        simp only [remotePut, hout, hsuccess, if_false, hstores, Bool.false_eq_true]

/-- All that a sender has to do, without interruption: one `RemotePut` after the other. -/
theorem exec_todo (hroom : r.Roomy) (todo : List RemoteWrite) (failed : Bool)
    (net : RemoteWrite → ℕ → Request) : ∃ es r' failed',
      exec lone (r, ⟨todo, none, failed⟩) es = some (r', ⟨[], none, failed'⟩) ∧ r'.Roomy ∧
      r'.stores = todo.foldl (RemoteWrite.sent net) r.stores := by
  induction todo generalizing r failed with
  | nil => exact ⟨[], r, failed, rfl, hroom, rfl⟩
  | cons w todo ih =>
    obtain ⟨es, r₁, failed₁, hes, hroom₁, hstores⟩ :=
      exec_remotePut hroom w.target w.key w.siblings todo failed (net w)
    obtain ⟨es', r₂, failed₂, hes', hroom₂, hstores'⟩ := ih hroom₁ failed₁
    refine ⟨es ++ es', r₂, failed₂, ?_, hroom₂, ?_⟩
    · rw [exec_append, hes]
      exact hes'
    · rw [hstores', hstores]
      rfl

end Sender

/-! ## Exchanges -/

/-- Whatever has valid node ids and does not expire. -/
def Lasts (_ : NodeID) (_ : Bytes) (x : Sibling) : Prop := Lasting x ∧ x.vclock.Readable

theorem Storage.Sound.lasts {s : Storage} (hs : s.Sound) (n : NodeID) {key : Bytes} {x : Sibling}
    (hx : x ∈ s.held key) : Lasts n key x := by
  obtain ⟨hstored, hlast⟩ := hs.stored_eq key
  exact ⟨hlast x hx, (Storage.storable_of_stored hstored x hx).clock⟩

/-- A sibling that lasts does so at its target. -/
theorem Lasts.sends {n m : NodeID} {key : Bytes} {x : Sibling} (h : Lasts n key x) :
    Sender.Sends Lasts m key x := by
  refine ⟨h.1.2, fun stamp => ⟨⟨rfl, (x.received_of_validIDs h.1.2 stamp).1⟩, ?_⟩⟩
  exact h.2.of_counters ((counters_received _ _).trans (sentCounters_eq_iff.2 h.1.2.textIDs)).symm

namespace AntiEntropy

/-- The records of a bucket that a scan finds. -/
def bucketRecords (ae : AntiEntropy) (store : Storage) (scan : ScanEnv) (rangeIdx : ℕ) :
    List (Bytes × SiblingSet) :=
  (store.scan scan).1.filter fun p => ae.bucketOf p.1 = rangeIdx

/-- `exchangeWithPeer` up to the first push, and what it is then going to send. -/
def beginExchange (ae : AntiEntropy) (store : Storage) (peerRoot : Except RPCFailure Bytes)
    (scan : ScanEnv) (peerID : NodeID) (rangeIdx : ℕ) : Option Sender × AntiEntropy :=
  let (myRoot, merkleTree) := ae.merkleTree.getRoot
  let ae := { ae with merkleTree }
  match peerRoot with
  | .error _ => (none, ae)
  | .ok peerRoot =>
    if myRoot = peerRoot then (none, ae)
    else
      let records := ae.bucketRecords store scan rangeIdx
      (some ⟨records.map fun p => ⟨peerID, p.1, p.2⟩, none, false⟩, ae)

/-- The peer covers the records of the bucket. -/
def InSync (ae : AntiEntropy) (store peer : Storage) (rangeIdx : ℕ) : Prop :=
  ∀ p ∈ store.records, ae.bucketOf p.1 = rangeIdx →
    ∀ x ∈ p.2, Covers Sibling.vclock (peer.held p.1) x.vclock

instance (ae : AntiEntropy) (store peer : Storage) (rangeIdx : ℕ) :
    Decidable (ae.InSync store peer rangeIdx) :=
  inferInstanceAs (Decidable (∀ p ∈ store.records, _ → ∀ x ∈ p.2, ∃ y ∈ _, _))

/-- The peer's root arrives, it is the node's own only if the peer covers the records of the bucket,
and the scan goes through. -/
def Compares (ae : AntiEntropy) (store peer : Storage) (peerRoot : Except RPCFailure Bytes)
    (scan : ScanEnv) (rangeIdx : ℕ) : Prop :=
  (∃ root ∈ peerRoot.toOption, ae.merkleTree.getRoot.1 = root → ae.InSync store peer rangeIdx) ∧
    (store.scan scan).2 = none

instance (ae : AntiEntropy) (store peer : Storage) (peerRoot : Except RPCFailure Bytes)
    (scan : ScanEnv) (rangeIdx : ℕ) : Decidable (ae.Compares store peer peerRoot scan rangeIdx) :=
  inferInstanceAs (Decidable ((∃ root ∈ peerRoot.toOption, _ → _) ∧ _))

variable {ae : AntiEntropy} {store peer : Storage} {peerRoot : Except RPCFailure Bytes}
  {scan : ScanEnv} {peerID : NodeID} {rangeIdx : ℕ} {c : Sender}

/-- `GetRoot` leaves the settings and the depth as they are. -/
theorem beginExchange_fixed : (ae.beginExchange store peerRoot scan peerID rangeIdx).2 =
    { ae with merkleTree := ae.merkleTree.getRoot.2 } := by
  cases peerRoot with
  | error err => rfl
  | ok root =>
    simp only [beginExchange]
    split_ifs <;> rfl

theorem bucketOf_getRoot (ae : AntiEntropy) :
    bucketOf { ae with merkleTree := ae.merkleTree.getRoot.2 } = ae.bucketOf :=
  bucketOf_congr ae.merkleTree.getRoot_snd.1

/-- Nothing is sent if the peer's root is not known or the same; otherwise the records of the bucket
are. -/
theorem beginExchange_cases (ae : AntiEntropy) (store : Storage)
    (peerRoot : Except RPCFailure Bytes) (scan : ScanEnv) (peerID : NodeID) (rangeIdx : ℕ) :
    ((∀ root ∈ peerRoot.toOption, ae.merkleTree.getRoot.1 = root) ∧
      (ae.beginExchange store peerRoot scan peerID rangeIdx).1 = none) ∨
    (ae.beginExchange store peerRoot scan peerID rangeIdx).1 =
      some ⟨(ae.bucketRecords store scan rangeIdx).map fun p => ⟨peerID, p.1, p.2⟩, none, false⟩ := by
  cases peerRoot with
  | error err => exact Or.inl ⟨fun root hroot => (by cases hroot), rfl⟩
  | ok root =>
    simp only [beginExchange, bucketRecords, bucketOf_getRoot]
    split_ifs with hroot
    · exact Or.inl ⟨fun root' hroot' => hroot.trans (Option.some.inj hroot'), rfl⟩
    · exact Or.inr rfl

/-- What an exchange sends is held by the node. -/
theorem valid_beginExchange {P : NodeID → Bytes → Sibling → Prop} {r : Replicas}
    (hstore : store.Sound) (hsend : ∀ key, ∀ x ∈ store.held key, Sender.Sends P peerID key x)
    (h : (ae.beginExchange store peerRoot scan peerID rangeIdx).1 = some c) : c.Valid P r := by
  rcases beginExchange_cases ae store peerRoot scan peerID rangeIdx with ⟨-, hnone⟩ | hbegun
  · rw [hnone] at h
    cases h
  · obtain rfl := Option.some.inj (hbegun.symm.trans h)
    refine Sender.valid_of_todo fun w hw x hx => ?_
    obtain ⟨⟨key, set⟩, hp, rfl⟩ := List.mem_map.1 hw
    have hrec : (key, set) ∈ store.records :=
      (Storage.scan_sublist scan _).subset (List.mem_filter.1 hp).1
    obtain ⟨-, rfl⟩ := hstore.mem_records_iff.1 hrec
    exact hsend key x hx

/-- What the node covers is covered by the peer, or is going to be sent. -/
theorem owes_beginExchange (peerID : NodeID) {key : Bytes} {vc : VectorClock} (hstore : store.Sound)
    (hok : ae.Compares store peer peerRoot scan (ae.bucketOf key))
    (hsource : Covers Sibling.vclock (store.held key) vc) :
    (ae.beginExchange store peerRoot scan peerID (ae.bucketOf key)).1 = none ∧
        Covers Sibling.vclock (peer.held key) vc ∨
      ∃ c, (ae.beginExchange store peerRoot scan peerID (ae.bucketOf key)).1 = some c ∧
        c.Owes peerID key vc := by
  obtain ⟨⟨root, hroot, hsync⟩, hscan⟩ := hok
  obtain ⟨x, hx, hle⟩ := hsource
  have hrec : (key, store.held key) ∈ store.records :=
    hstore.mem_records_iff.2 ⟨hstore.mem_keys_iff.2 (List.ne_nil_of_mem hx), rfl⟩
  rcases beginExchange_cases ae store peerRoot scan peerID (ae.bucketOf key) with
    ⟨hsame, hnone⟩ | hbegun
  · obtain ⟨y, hy, hxy⟩ := hsync (hsame root hroot) _ hrec rfl x hx
    exact Or.inl ⟨hnone, y, hy, hle.trans hxy⟩
  · have hmem : (key, store.held key) ∈ ae.bucketRecords store scan (ae.bucketOf key) :=
      List.mem_filter.2 ⟨by rwa [Storage.scan_eq hscan], decide_eq_true rfl⟩
    exact Or.inr ⟨_, hbegun, _, List.mem_map_of_mem hmem, rfl, rfl, x, hx, hle⟩

/-- The pushes of an exchange, for all records of a scan. -/
theorem foldl_sent (env : ExchangeEnv) (ae : AntiEntropy) (peerID : NodeID) (rangeIdx : ℕ)
    (visited : List (Bytes × SiblingSet)) (stores : NodeID → Storage) :
    (((visited.filter fun p => ae.bucketOf p.1 = rangeIdx).map fun p =>
        (⟨peerID, p.1, p.2⟩ : RemoteWrite)).foldl (RemoteWrite.sent fun w => env.net w.key) stores) =
      Function.update stores peerID (visited.foldl (ae.pushRecord env rangeIdx) (stores peerID)) := by
  induction visited generalizing stores with
  | nil => exact (Function.update_eq_self _ _).symm
  | cons p visited ih =>
    by_cases hbucket : ae.bucketOf p.1 = rangeIdx
    · rw [List.filter_cons_of_pos (by simpa using hbucket), List.map_cons, List.foldl_cons, ih]
      simp only [RemoteWrite.sent, Function.update_self, Function.update_idem, List.foldl_cons,
        pushRecord, if_pos hbucket]
    · rw [List.filter_cons_of_neg (by simpa using hbucket), ih, List.foldl_cons, pushRecord,
        if_neg hbucket]

/-- An exchange whose requests are served without interruption is `exchangeWithPeer`. -/
theorem exec_exchange {r : Replicas} (hroom : r.Roomy) (env : ExchangeEnv) (ae : AntiEntropy)
    (store : Storage) (peerID : NodeID) (rangeIdx : ℕ) :
    let begun := ae.beginExchange store env.peerRoot env.scan peerID rangeIdx
    let exchanged := (ae.exchangeWithPeer env store rangeIdx (r.stores peerID)).2
    begun.2 = exchanged.2 ∧ (begun.1 = none → exchanged.1 = r.stores peerID) ∧
      ∀ c, begun.1 = some c → ∃ es r' failed,
        exec Sender.lone (r, c) es = some (r', ⟨[], none, failed⟩) ∧ r'.Roomy ∧
          r'.stores = Function.update r.stores peerID exchanged.1 := by
  intro begun exchanged
  cases hroot : env.peerRoot with
  | error err =>
    have hbegun : begun = (none, { ae with merkleTree := ae.merkleTree.getRoot.2 }) := by
      simp only [begun, beginExchange, hroot]
    have hexchanged : exchanged =
        (r.stores peerID, { ae with merkleTree := ae.merkleTree.getRoot.2 }) := by
      simp only [exchanged, exchangeWithPeer, hroot]
    rw [hbegun, hexchanged]
    exact ⟨rfl, fun _ => rfl, fun c hc => by cases hc⟩
  | ok root =>
    by_cases hsame : ae.merkleTree.getRoot.1 = root
    · have hbegun : begun = (none, { ae with merkleTree := ae.merkleTree.getRoot.2 }) := by
        simp only [begun, beginExchange, hroot, if_pos hsame]
      have hexchanged : exchanged =
          (r.stores peerID, { ae with merkleTree := ae.merkleTree.getRoot.2 }) := by
        simp only [exchanged, exchangeWithPeer, hroot, if_pos hsame]
      rw [hbegun, hexchanged]
      exact ⟨rfl, fun _ => rfl, fun c hc => by cases hc⟩
    · let ae' : AntiEntropy := { ae with merkleTree := ae.merkleTree.getRoot.2 }
      have hbegun : begun = (some ⟨(ae'.bucketRecords store env.scan rangeIdx).map fun p =>
          ⟨peerID, p.1, p.2⟩, none, false⟩, ae') := by
        simp only [begun, beginExchange, hroot, if_neg hsame, ae']
      have hexchanged : exchanged = ((store.scan env.scan).1.foldl (ae'.pushRecord env rangeIdx)
          (r.stores peerID), ae') := by
        simp only [exchanged, exchangeWithPeer, hroot, if_neg hsame, ae']
      rw [hbegun, hexchanged]
      refine ⟨rfl, fun h => (by cases h), fun c hc => ?_⟩
      obtain rfl := Option.some.inj hc
      obtain ⟨es, r', failed, hes, hroom', hstores⟩ :=
        Sender.exec_todo hroom _ false fun w => env.net w.key
      exact ⟨es, r', failed, hes, hroom', hstores.trans (foldl_sent env ae' peerID rangeIdx _ _)⟩

end AntiEntropy

end GoQuorum
