import GoQuorum.Cluster.Exchange

/-!
# Stores that are written to at the same time

`Storage.Put` takes no lock.  It reads the record of its key, reconciles it with what it is given and
writes the result back, and any other call may come in between.  Whoever waits for the call learns
its outcome later, or not at all.  `Replicas` are the stores of all nodes with the calls on them: a
call reads (`beginPut`) and writes (`commit`) in two steps.

A call that writes over a record which has changed since it read it takes back what has been written
meanwhile.  If no call does (`Atomic`), and none prunes anything, every store goes on covering what it
has covered, and covers what a successful call has brought (`Clean.commit`).
-/

namespace GoQuorum

open Lib Lib.Versions

/-- A call of `Storage.Put` that has read the record of its key, in the store `seen`, and what it has
returned once it has written. -/
structure StorePut where
  node : NodeID
  key : Bytes
  siblings : SiblingSet
  env : CallEnv
  seen : Storage
  data : Bytes
  prepared : seen.prepare env key siblings = .ok data
  outcome : Option (Except StorageError Unit)

/-- The stores of the nodes, and the calls of `Storage.Put` on them.  The options of a store do not
change, and it is not closed. -/
structure Replicas where
  stores : NodeID → Storage
  puts : ℕ → Option StorePut
  fits : ∀ t p, puts t = some p →
    (stores p.node).opts = p.seen.opts ∧ (stores p.node).closed = p.seen.closed

namespace Replicas

/-! ## Steps -/

/-- Stores on which there has been no call. -/
def idle (stores : NodeID → Storage) : Replicas := ⟨stores, fun _ => none, fun _ _ h => by cases h⟩

def setPut (r : Replicas) (t : ℕ) (p : StorePut)
    (hfits : (r.stores p.node).opts = p.seen.opts ∧ (r.stores p.node).closed = p.seen.closed) :
    Replicas where
  stores := r.stores
  puts := Function.update r.puts t (some p)
  fits u q hu := by
    rcases update_eq_some hu with ⟨-, hnew⟩ | hold
    · obtain rfl := Option.some.inj hnew
      exact hfits
    · exact r.fits u q hold

/-- `Storage.Put` up to the record it is going to write, as call `t`; the error if it does not get so
far. -/
def beginPut (r : Replicas) (t : ℕ) (node : NodeID) (env : CallEnv) (key : Bytes)
    (siblings : SiblingSet) : Option (Option StorageError × Replicas) :=
  match r.puts t with
  | some _ => none
  | none =>
    match h : (r.stores node).prepare env key siblings with
    | .ok data =>
      some (none, r.setPut t ⟨node, key, siblings, env, r.stores node, data, h, none⟩ ⟨rfl, rfl⟩)
    | .error err => some (some err, r)

/-- The record of a call is written. -/
def write (r : Replicas) (t : ℕ) (p : StorePut) (h : r.puts t = some p) : Replicas where
  stores := Function.update r.stores p.node
    { r.stores p.node with db := (r.stores p.node).db.insert p.key p.data }
  puts := Function.update r.puts t (some { p with outcome := some (.ok ()) })
  fits u q hu := by
    have hq : (r.stores q.node).opts = q.seen.opts ∧ (r.stores q.node).closed = q.seen.closed := by
      rcases update_eq_some hu with ⟨-, hnew⟩ | hold
      · obtain rfl := Option.some.inj hnew
        exact r.fits t p h
      · exact r.fits u q hold
    by_cases hn : q.node = p.node
    · rw [hn, Function.update_self]
      exact hn ▸ hq
    · rw [Function.update_of_ne hn]
      exact hq

/-- The rest of `Storage.Put`. -/
def commit (r : Replicas) (t : ℕ) : Option Replicas :=
  match h : r.puts t with
  | none => none
  | some p =>
    match p.outcome with
    | some _ => none
    | none =>
      match (r.stores p.node).commit p.env p.key p.data with
      | .ok _ => some (r.write t p h)
      | .error err => some (r.setPut t { p with outcome := some (.error err) } (r.fits t p h))

/-- The call does not write over a record that has changed since it read it. -/
def Atomic (r : Replicas) (t : ℕ) : Prop :=
  ∀ p ∈ r.puts t, (r.stores p.node).db.get? p.key = p.seen.db.get? p.key

instance (r : Replicas) (t : ℕ) : Decidable (r.Atomic t) :=
  inferInstanceAs (Decidable (∀ p ∈ r.puts t, _))

/-- Every call is still there, for the same siblings. -/
def Extends (r r' : Replicas) : Prop :=
  ∀ t p, r.puts t = some p → ∃ p', r'.puts t = some p' ∧
    p'.node = p.node ∧ p'.key = p.key ∧ p'.siblings = p.siblings

variable {r r' r'' : Replicas} {t : ℕ}

theorem Extends.refl (r : Replicas) : r.Extends r := fun _ p h => ⟨p, h, rfl, rfl, rfl⟩

/-- A call that reads: it takes a free number, or fails and leaves everything as it is. -/
theorem beginPut_cases {node : NodeID} {env : CallEnv} {key : Bytes} {siblings : SiblingSet}
    {err : Option StorageError} (h : r.beginPut t node env key siblings = some (err, r')) :
    r'.stores = r.stores ∧ r.Extends r' ∧
      (err = none ∧ (∃ p, r'.puts = Function.update r.puts t (some p) ∧ p.node = node ∧
        p.key = key ∧ p.siblings = siblings ∧ p.env = env ∧ p.seen = r.stores node ∧
        p.outcome = none) ∨ err ≠ none ∧ r' = r) := by
  unfold beginPut at h
  split at h
  · cases h
  · rename_i hfree
    split at h
    · obtain ⟨rfl, rfl⟩ := Prod.mk.inj (Option.some.inj h)
      refine ⟨rfl, fun u p hu => ⟨p, ?_, rfl, rfl, rfl⟩,
        Or.inl ⟨rfl, _, rfl, rfl, rfl, rfl, rfl, rfl, rfl⟩⟩
      have hne : u ≠ t := by
        rintro rfl
        rw [hfree] at hu
        cases hu
      exact (Function.update_of_ne hne _ _).trans hu
    · obtain ⟨rfl, rfl⟩ := Prod.mk.inj (Option.some.inj h)
      exact ⟨rfl, Extends.refl r, Or.inr ⟨Option.some_ne_none _, rfl⟩⟩

/-- A call that writes: the stores stay, or the record of its key is the one it has prepared. -/
theorem commit_cases (h : r.commit t = some r') : ∃ p, r.puts t = some p ∧ r.Extends r' ∧
    ∃ outcome, r'.puts = Function.update r.puts t (some { p with outcome := some outcome }) ∧
      (outcome ≠ .ok () ∧ r'.stores = r.stores ∨ p.env.setError = none ∧
        r'.stores = Function.update r.stores p.node
          { r.stores p.node with db := (r.stores p.node).db.insert p.key p.data }) := by
  unfold commit at h
  split at h
  · cases h
  rename_i p hp
  split at h
  · cases h
  have hext : ∀ {r' : Replicas} {outcome : Except StorageError Unit},
      r'.puts = Function.update r.puts t (some { p with outcome := some outcome }) →
      r.Extends r' := by
    intro r' outcome hputs u q hu
    rw [hputs]
    by_cases hne : u = t
    · subst hne
      obtain rfl := Option.some.inj (hp.symm.trans hu)
      exact ⟨_, Function.update_self _ _ _, rfl, rfl, rfl⟩
    · exact ⟨q, (Function.update_of_ne hne _ _).trans hu, rfl, rfl, rfl⟩
  split at h
  · rename_i store hstore
    obtain rfl := Option.some.inj h
    obtain ⟨hset, -⟩ := Storage.commit_eq_ok.1 hstore
    exact ⟨p, hp, hext rfl, .ok (), rfl, Or.inr ⟨hset, rfl⟩⟩
  · rename_i err herr
    obtain rfl := Option.some.inj h
    exact ⟨p, hp, hext rfl, .error err, rfl, Or.inl ⟨fun h => (by cases h), rfl⟩⟩

/-- A call that writes over what it has read is a `Put` in one step. -/
theorem put_of_atomic {p : StorePut} (hp : r.puts t = some p) (hatomic : r.Atomic t)
    (hset : p.env.setError = none) : (r.stores p.node).put p.env p.key p.siblings =
      .ok { r.stores p.node with db := (r.stores p.node).db.insert p.key p.data } := by
  obtain ⟨hopts, hclosed⟩ := r.fits t p hp
  refine Storage.put_eq_ok.2 ⟨p.data, ?_, hset, rfl⟩
  rw [Storage.prepare_congr hopts hclosed (hatomic p hp)]
  exact p.prepared

/-! ## What the stores hold -/

/-- The stores can be read, everything in them and in the calls has a property, calls prune nothing,
and what a successful call has brought is covered. -/
structure Clean (P : NodeID → Bytes → Sibling → Prop) (r : Replicas) : Prop where
  sound : ∀ n, (r.stores n).Sound
  held : ∀ n key, ∀ x ∈ (r.stores n).held key, P n key x
  puts : ∀ t p, r.puts t = some p → Storage.NoPrune p.env p.seen p.key p.siblings ∧
    ∀ x ∈ p.siblings, P p.node p.key x
  acked : ∀ t p, r.puts t = some p → p.outcome = some (.ok ()) → ∀ x ∈ p.siblings,
    Covers Sibling.vclock ((r.stores p.node).held p.key) x.vclock

variable {P : NodeID → Bytes → Sibling → Prop}

theorem clean_idle {stores : NodeID → Storage} (hsound : ∀ n, (stores n).Sound)
    (hheld : ∀ n key, ∀ x ∈ (stores n).held key, P n key x) : (idle stores).Clean P :=
  ⟨hsound, hheld, fun _ _ h => (by cases h), fun _ _ h => (by cases h)⟩

theorem Clean.beginPut (h : r.Clean P) {node : NodeID} {env : CallEnv} {key : Bytes}
    {siblings : SiblingSet} (hok : Storage.NoPrune env (r.stores node) key siblings)
    (hsib : ∀ x ∈ siblings, P node key x) {err : Option StorageError}
    (hs : r.beginPut t node env key siblings = some (err, r')) : r'.Clean P := by
  obtain ⟨hstores, -, ⟨-, p, hputs, rfl, rfl, rfl, rfl, hseen, hout⟩ | ⟨-, rfl⟩⟩ := beginPut_cases hs
  swap
  · exact h
  have hnew : ∀ u q, r'.puts u = some q → q = p ∨ r.puts u = some q := by
    intro u q hu
    rw [hputs] at hu
    exact (update_eq_some hu).imp_left fun ⟨_, hq⟩ => (Option.some.inj hq).symm
  refine ⟨hstores ▸ h.sound, hstores ▸ h.held, fun u q hu => ?_, fun u q hu hq => ?_⟩
  · rcases hnew u q hu with rfl | hold
    · rw [hseen]
      exact ⟨hok, hsib⟩
    · exact h.puts u q hold
  · rcases hnew u q hu with rfl | hold
    · rw [hout] at hq
      cases hq
    · rw [hstores]
      exact h.acked u q hold hq

/-- A write over what was read: nothing that was covered is lost. -/
theorem Clean.commit (h : r.Clean P) (hP : ∀ n key x, P n key x → Lasting x ∧ x.vclock.Readable)
    (hatomic : r.Atomic t) (hs : r.commit t = some r') :
    r'.Clean P ∧ ∀ n, (r.stores n).Advances (r'.stores n) := by
  obtain ⟨p, hp, -, outcome, hputs, hcase⟩ := commit_cases hs
  obtain ⟨hprune, hsib⟩ := h.puts t p hp
  -- the calls are the same but for the outcome of this one
  have hold : ∀ u q, r'.puts u = some q → ∃ q', r.puts u = some q' ∧
      q = { q' with outcome := q.outcome } ∧
        (q'.outcome = q.outcome ∨ u = t ∧ q.outcome = some outcome) := by
    intro u q hu
    rw [hputs] at hu
    rcases update_eq_some hu with ⟨rfl, hnew⟩ | hsame
    · obtain rfl := Option.some.inj hnew
      exact ⟨p, hp, rfl, Or.inr ⟨rfl, rfl⟩⟩
    · exact ⟨q, hsame, rfl, Or.inl rfl⟩
  have hcalls : ∀ u q, r'.puts u = some q → Storage.NoPrune q.env q.seen q.key q.siblings ∧
      ∀ x ∈ q.siblings, P q.node q.key x := by
    intro u q hu
    obtain ⟨q', hq', hqq, -⟩ := hold u q hu
    rw [hqq]
    exact h.puts u q' hq'
  rcases hcase with ⟨hfail, hstores⟩ | ⟨hset, hstores⟩
  · refine ⟨⟨hstores ▸ h.sound, hstores ▸ h.held, hcalls, fun u q hu hq => ?_⟩, fun n => ?_⟩
    · obtain ⟨q', hq', hqq, hsame | ⟨-, hnew⟩⟩ := hold u q hu
      · rw [hstores, hqq]
        exact h.acked u q' hq' (hsame.trans hq)
      · exact absurd (Option.some.inj (hnew.symm.trans hq)) hfail
    · rw [hstores]
      exact (h.sound n).advances_self
  · have hput := put_of_atomic hp hatomic hset
    obtain ⟨hopts, hclosed⟩ := r.fits t p hp
    have hprune' := hprune.congr hopts.symm hclosed.symm (hatomic p hp).symm
    have hgood : ∀ x ∈ p.siblings, Lasting x ∧ x.vclock.Readable := fun x hx => hP _ _ x (hsib x hx)
    have hadv : ∀ n, (r.stores n).Advances (r'.stores n) := by
      intro n
      rw [hstores]
      by_cases hn : n = p.node
      · rw [hn, Function.update_self]
        exact advances_put (h.sound p.node) hgood hprune' hput
      · rw [Function.update_of_ne hn]
        exact (h.sound n).advances_self
    refine ⟨⟨fun n => (hadv n).1, fun n key x hx => ?_, hcalls, fun u q hu hq x hx => ?_⟩, hadv⟩
    · rw [hstores] at hx
      by_cases hn : n = p.node
      · subst hn
        rw [Function.update_self] at hx
        obtain ⟨-, hself, hother⟩ := held_put (h.sound p.node) hgood hprune' hput
        by_cases hk : key = p.key
        · subst hk
          rw [hself] at hx
          rcases mem_of_mem_reconcile hx with hx | hx
          · exact hsib x hx
          · exact h.held p.node p.key x hx
        · rw [hother key hk] at hx
          exact h.held p.node key x hx
      · rw [Function.update_of_ne hn] at hx
        exact h.held n key x hx
    · obtain ⟨q', hq', hqq, hsame | ⟨rfl, -⟩⟩ := hold u q hu
      · rw [hqq] at hx ⊢
        exact (hadv q'.node).2 _ _ (h.acked u q' hq' (hsame.trans hq) x hx)
      · obtain rfl := Option.some.inj (hp.symm.trans hq')
        rw [hqq] at hx ⊢
        rw [hstores]
        simp only [Function.update_self]
        exact covers_put (h.sound p.node) hgood hprune' hput hx

end Replicas

end GoQuorum
