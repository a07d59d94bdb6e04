import GoQuorum.Cluster.AntiEntropy

/-!
# Two-way anti-entropy converges

A node pushes all its records to a peer, bucket after bucket, and then the peer pushes what it has
to the node.  If every request succeeds and nothing is pruned, both hold every key of either
afterwards, and the maximal clocks of the two records of a key are those of the two original
records together (`exchange_converges`).

The record of a key at the receiver is described by two facts that each push preserves: everything
in it comes from the two original records, up to the times of clock entries, and what it has once
covered it goes on covering.
-/

namespace GoQuorum

open Lib Lib.Versions

/-! ## Maximal clocks -/

/-- A clock of the set that no clock of the set is after. -/
def MaximalClock (set : SiblingSet) (vc : VectorClock) : Prop :=
  ∃ sib ∈ set, sib.vclock = vc ∧ ∀ other ∈ set, other.vclock.happensAfter vc = false

/-- The two sets have the same maximal clocks, up to `Equal`. -/
def SameMaximalClocks (S T : SiblingSet) : Prop :=
  (∀ vc, MaximalClock S vc → ∃ vc', MaximalClock T vc' ∧ vc.equals vc' = true) ∧
    ∀ vc', MaximalClock T vc' → ∃ vc, MaximalClock S vc ∧ vc.equals vc' = true

theorem maximalClock_iff {set : SiblingSet} {vc : VectorClock} :
    MaximalClock set vc ↔ ∃ sib, IsMaximal Sibling.vclock set sib ∧ sib.vclock = vc := by
  constructor
  · rintro ⟨sib, hsib, rfl, hmax⟩
    refine ⟨sib, ⟨hsib, fun y hy hlt => ?_⟩, rfl⟩
    exact Bool.eq_false_iff.1 (hmax y hy) (VectorClock.happensAfter_iff.2 hlt)
  · rintro ⟨sib, ⟨hsib, hmax⟩, rfl⟩
    refine ⟨sib, hsib, rfl, fun y hy => Bool.eq_false_iff.2 fun h => ?_⟩
    exact hmax y hy (VectorClock.happensAfter_iff.1 h)

theorem sameMaximalClocks_of_covers {S T : SiblingSet}
    (hcov : ∀ y ∈ T, Covers Sibling.vclock S y.vclock)
    (hfrom : ∀ x ∈ S, ∃ y ∈ T, AntisymmRel (· ≤ ·) x.vclock y.vclock) :
    SameMaximalClocks S T := by
  obtain ⟨hST, hTS⟩ := exists_isMaximal_of_covers hcov hfrom
  constructor
  · intro vc hvc
    obtain ⟨x, hx, rfl⟩ := maximalClock_iff.1 hvc
    obtain ⟨y, hy, hxy⟩ := hST x hx
    exact ⟨y.vclock, maximalClock_iff.2 ⟨y, hy, rfl⟩, VectorClock.equals_iff.2 hxy⟩
  · intro vc hvc
    obtain ⟨y, hy, rfl⟩ := maximalClock_iff.1 hvc
    obtain ⟨x, hx, hxy⟩ := hTS y hy
    exact ⟨x.vclock, maximalClock_iff.2 ⟨x, hx, rfl⟩, VectorClock.equals_iff.2 hxy⟩

theorem SameMaximalClocks.symm {S T : SiblingSet} (h : SameMaximalClocks S T) :
    SameMaximalClocks T S := by
  constructor
  · intro vc hvc
    obtain ⟨vc', hvc', heq⟩ := h.2 vc hvc
    exact ⟨vc', hvc', VectorClock.equals_iff.2 (VectorClock.equals_iff.1 heq).symm⟩
  · intro vc hvc
    obtain ⟨vc', hvc', heq⟩ := h.1 vc hvc
    exact ⟨vc', hvc', VectorClock.equals_iff.2 (VectorClock.equals_iff.1 heq).symm⟩

theorem SameMaximalClocks.trans {S T U : SiblingSet} (h₁ : SameMaximalClocks S T)
    (h₂ : SameMaximalClocks T U) : SameMaximalClocks S U := by
  have hequal : ∀ {a b c : VectorClock}, a.equals b = true → b.equals c = true →
      a.equals c = true := fun hab hbc =>
    VectorClock.equals_iff.2 ((VectorClock.equals_iff.1 hab).trans (VectorClock.equals_iff.1 hbc))
  constructor
  · intro vc hvc
    obtain ⟨vc', hvc', heq⟩ := h₁.1 vc hvc
    obtain ⟨vc'', hvc'', heq'⟩ := h₂.1 vc' hvc'
    exact ⟨vc'', hvc'', hequal heq heq'⟩
  · intro vc hvc
    obtain ⟨vc', hvc', heq⟩ := h₂.2 vc hvc
    obtain ⟨vc'', hvc'', heq'⟩ := h₁.2 vc' hvc'
    exact ⟨vc'', hvc'', hequal heq' heq⟩

/-! ## Stores -/

/-- Siblings without expiry whose clocks have valid node ids. -/
def Lasting (sib : Sibling) : Prop := sib.expiresAt = 0 ∧ sib.vclock.ValidIDs

instance (sib : Sibling) : Decidable (Lasting sib) := inferInstanceAs (Decidable (_ ∧ _))

/-- Every record of the store can be read, and its siblings last. -/
def Storage.Sound (s : Storage) : Prop :=
  ∀ p ∈ s.db.toList, ∃ set ∈ (decodeSiblingSet p.2).toOption, ∀ sib ∈ set, Lasting sib

instance (s : Storage) : Decidable s.Sound :=
  inferInstanceAs (Decidable (∀ p ∈ s.db.toList, ∃ set ∈ _, _))

/-- The push prunes nothing. -/
def Unpruned (s : Storage) (p : Push) : Prop :=
  Storage.NoPrune p.request.env s p.key [p.incoming]

instance (s : Storage) (p : Push) : Decidable (Unpruned s p) :=
  inferInstanceAs (Decidable (Storage.NoPrune _ _ _ _))

theorem printsFaithfully_lasting : PrintsFaithfully Lasting :=
  printsFaithfully_of_validIDs fun _ h => h.2

namespace Storage

variable {s t : Storage} {key : Bytes}

theorem Sound.stored_eq (h : s.Sound) (key : Bytes) :
    s.stored key = .ok (s.held key) ∧ ∀ sib ∈ s.held key, Lasting sib := by
  cases hd : s.db.get? key with
  | none =>
    have hstored : s.stored key = .ok [] := by simp only [stored, hd]
    simp only [held, hstored]
    exact ⟨rfl, fun sib hs => absurd hs List.not_mem_nil⟩
  | some data =>
    obtain ⟨set, hset, hlast⟩ := h (key, data) (SortedMap.mem_toList_iff.2 hd)
    have hstored : s.stored key = .ok set := by
      rw [stored_of_get? hd]
      exact toOption_eq_some.1 hset
    simp only [held, hstored]
    exact ⟨rfl, hlast⟩

/-- A key is present exactly if something is held for it. -/
theorem Sound.mem_keys_iff (h : s.Sound) : key ∈ s.db.keys ↔ s.held key ≠ [] := by
  have hstored := (h.stored_eq key).1
  rw [SortedMap.mem_keys_iff]
  cases hd : s.db.get? key with
  | none =>
    refine iff_of_false (by rintro ⟨v, hv⟩; cases hv) (not_not.2 ?_)
    simp only [stored, hd, Except.ok.injEq] at hstored
    exact hstored.symm
  | some data =>
    rw [stored_of_get? hd] at hstored
    exact iff_of_true ⟨data, rfl⟩ (decodeSiblingSet_eq_ok hstored).1

theorem Sound.mem_records_iff (h : s.Sound) {set : SiblingSet} :
    (key, set) ∈ s.records ↔ key ∈ s.db.keys ∧ set = s.held key := by
  have hstored := (h.stored_eq key).1
  simp only [records, List.mem_filterMap, scanRecord, Option.map_eq_some_iff, Prod.mk.injEq,
    toOption_eq_some, SortedMap.mem_keys_iff]
  constructor
  · rintro ⟨⟨k, data⟩, hmem, set', hset', rfl, rfl⟩
    have hd := SortedMap.mem_toList_iff.1 hmem
    rw [stored_of_get? hd, hset'] at hstored
    exact ⟨⟨data, hd⟩, Except.ok.inj hstored⟩
  · rintro ⟨⟨data, hd⟩, rfl⟩
    rw [stored_of_get? hd] at hstored
    exact ⟨(key, data), SortedMap.mem_toList_iff.2 hd, s.held key, hstored, rfl, rfl⟩

end Storage

/-! ## One push -/

/-- A sibling that lasts arrives with its counters, and lasts. -/
theorem counters_incoming {p : Push} (h : Lasting p.sibling) :
    p.incoming.vclock.counters = p.sibling.vclock.counters :=
  (counters_received _ _).trans (sentCounters_eq_iff.2 h.2.textIDs)

theorem lasting_incoming {p : Push} (h : Lasting p.sibling) : Lasting p.incoming :=
  ⟨rfl, h.2.of_counters (counters_incoming h).symm⟩

theorem antisymmRel_incoming {p : Push} (h : Lasting p.sibling) :
    AntisymmRel (· ≤ ·) p.incoming.vclock p.sibling.vclock :=
  VectorClock.antisymmRel_of_counters (counters_incoming h)

/-- What a put that prunes nothing leaves: the siblings are reconciled with the record of their key,
and the other records stay. -/
theorem held_put {s t : Storage} {env : CallEnv} {key : Bytes} {siblings : SiblingSet} (hs : s.Sound)
    (hlast : ∀ x ∈ siblings, Lasting x ∧ x.vclock.Readable)
    (hok : Storage.NoPrune env s key siblings) (h : s.put env key siblings = .ok t) :
    t.Sound ∧ t.held key = reconcileSiblings (s.held key) siblings ∧
      ∀ k, k ≠ key → t.held k = s.held k := by
  obtain ⟨data, hdata, -, rfl⟩ := Storage.put_eq_ok.1 h
  obtain ⟨all, hall, hdec⟩ := Storage.decode_of_noPrune hdata hok fun x hx => (hlast x hx).2
  obtain ⟨hstored, hheld⟩ := hs.stored_eq key
  obtain rfl : all = s.held key := Except.ok.inj (hall.symm.trans hstored)
  rw [unexpired_of_noTTL fun sib hsib => (hheld sib hsib).1] at hdec
  have hlasting : ∀ sib ∈ reconcileSiblings (s.held key) siblings, Lasting sib := by
    intro sib hsib
    rcases mem_of_mem_reconcile hsib with hsib | hsib
    · exact (hlast sib hsib).1
    · exact hheld sib hsib
  refine ⟨?_, ?_, fun k hk => ?_⟩
  · rintro q hq
    rcases SortedMap.mem_toList_insert hq with rfl | hq
    · exact ⟨_, toOption_eq_some.2 hdec, hlasting⟩
    · exact hs q hq
  · rw [Storage.held, Storage.stored_insert_self, hdec]
    rfl
  · rw [Storage.held, Storage.stored_insert_of_ne s data hk.symm]
    rfl

/-- The same for a push. -/
theorem held_accept {s t : Storage} {p : Push} (hs : s.Sound) (hlast : Lasting p.sibling)
    (hread : p.sibling.vclock.Readable) (hok : Unpruned s p) (h : s.accept p = some t) :
    t.Sound ∧ t.held p.key = reconcileSiblings (s.held p.key) [p.incoming] ∧
      ∀ key, key ≠ p.key → t.held key = s.held key :=
  held_put hs (List.forall_mem_singleton.2
    ⟨lasting_incoming hlast, hread.of_counters (counters_incoming hlast).symm⟩) hok
    (Storage.accept_eq_some.1 h).2

/-! ## All pushes -/

/-- What is held in `t` comes from `s` and from the pushes. -/
def ComesFrom (t s : Storage) (pushes : List Push) : Prop :=
  ∀ key, ∀ x ∈ t.held key, (∃ y ∈ s.held key, AntisymmRel (· ≤ ·) x.vclock y.vclock) ∨
    ∃ p ∈ pushes, p.key = key ∧ AntisymmRel (· ≤ ·) x.vclock p.sibling.vclock

/-- The store tracks a clock under a key. -/
def TracksAt (s : Storage) (key : Bytes) (vc : VectorClock) : Prop := Tracked Lasting (s.held key) vc

theorem tracksAt_accept {s t : Storage} {p : Push} {key : Bytes} {vc : VectorClock}
    (hlast : Lasting p.sibling)
    (hself : t.held p.key = reconcileSiblings (s.held p.key) [p.incoming])
    (hother : ∀ key, key ≠ p.key → t.held key = s.held key) (h : TracksAt s key vc) :
    TracksAt t key vc := by
  unfold TracksAt at h ⊢
  by_cases hkey : key = p.key
  · subst hkey
    rw [hself]
    exact tracks_reconcile_old printsFaithfully_lasting
      (List.forall_mem_singleton.2 (lasting_incoming hlast)) h
  · rwa [hother key hkey]

/-- After pushes that succeed and prune nothing the store is sound, tracks what it tracked and what
was pushed, and holds nothing else. -/
theorem exec_accept {s t : Storage} {pushes : List Push} (hs : s.Sound)
    (hlast : ∀ p ∈ pushes, Lasting p.sibling ∧ p.sibling.vclock.Readable)
    (hok : AllOk Storage.accept Unpruned s pushes) (h : exec Storage.accept s pushes = some t) :
    t.Sound ∧ (∀ key vc, TracksAt s key vc → TracksAt t key vc) ∧
      (∀ p ∈ pushes, TracksAt t p.key p.sibling.vclock) ∧ ComesFrom t s pushes := by
  induction pushes generalizing s with
  | nil =>
    obtain rfl := Option.some.inj h
    exact ⟨hs, fun _ _ h => h, fun p hp => absurd hp List.not_mem_nil,
      fun key x hx => Or.inl ⟨x, hx, AntisymmRel.refl _ _⟩⟩
  | cons p pushes ih =>
    obtain ⟨u, hu, ht⟩ := Option.bind_eq_some_iff.1 h
    simp only [AllOk, hu] at hok
    obtain ⟨⟨hp, hread⟩, hlast⟩ := List.forall_mem_cons.1 hlast
    obtain ⟨hsound, hself, hother⟩ := held_accept hs hp hread hok.1 hu
    obtain ⟨htsound, hkeep, hnew, hfrom⟩ := ih hsound hlast hok.2 ht
    refine ⟨htsound, fun key vc hvc => hkeep key vc (tracksAt_accept hp hself hother hvc),
      List.forall_mem_cons.2 ⟨hkeep _ _ ?_, hnew⟩, fun key x hx => ?_⟩
    · -- the pushed sibling is tracked at once
      have htracked : TracksAt u p.key p.incoming.vclock := by
        unfold TracksAt
        rw [hself]
        exact tracks_reconcile_new printsFaithfully_lasting
          (List.forall_mem_singleton.2 (lasting_incoming hp)) List.mem_cons_self
      exact Tracks.of_le htracked (antisymmRel_incoming hp).2
    · rcases hfrom key x hx with ⟨y, hy, hxy⟩ | ⟨q, hq, hkey, hxq⟩
      · by_cases hkey : key = p.key
        · subst hkey
          rw [hself] at hy
          rcases mem_of_mem_reconcile hy with hy | hy
          · obtain rfl := List.mem_singleton.1 hy
            exact Or.inr ⟨p, List.mem_cons_self, rfl, hxy.trans (antisymmRel_incoming hp)⟩
          · exact Or.inl ⟨y, hy, hxy⟩
        · rw [hother key hkey] at hy
          exact Or.inl ⟨y, hy, hxy⟩
      · exact Or.inr ⟨q, List.mem_cons_of_mem _ hq, hkey, hxq⟩

/-! ## Coverage -/

/-- The second store can be read and covers, under every key, what the first one covers. -/
def Storage.Advances (s t : Storage) : Prop :=
  t.Sound ∧ ∀ key vc, Versions.Covers Sibling.vclock (s.held key) vc →
    Versions.Covers Sibling.vclock (t.held key) vc

theorem Storage.Sound.advances_self {s : Storage} (hs : s.Sound) : s.Advances s :=
  ⟨hs, fun _ _ h => h⟩

section Put

variable {s t : Storage} {env : CallEnv} {key : Bytes} {siblings : SiblingSet}

theorem advances_put (hs : s.Sound) (hlast : ∀ x ∈ siblings, Lasting x ∧ x.vclock.Readable)
    (hok : Storage.NoPrune env s key siblings) (h : s.put env key siblings = .ok t) :
    s.Advances t := by
  obtain ⟨hsound, hself, hother⟩ := held_put hs hlast hok h
  refine ⟨hsound, fun k vc hvc => ?_⟩
  by_cases hk : k = key
  · subst hk
    obtain ⟨x, hx, hle⟩ := hvc
    have htracked : TracksAt s k x.vclock :=
      tracks_self printsFaithfully_lasting (hs.stored_eq k).2 hx
    rw [hself]
    exact ((tracks_reconcile_old printsFaithfully_lasting (fun y hy => (hlast y hy).1)
      htracked).of_le hle).covers
  · rwa [hother k hk]

theorem covers_put (hs : s.Sound) (hlast : ∀ x ∈ siblings, Lasting x ∧ x.vclock.Readable)
    (hok : Storage.NoPrune env s key siblings) (h : s.put env key siblings = .ok t) {x : Sibling}
    (hx : x ∈ siblings) : Covers Sibling.vclock (t.held key) x.vclock := by
  rw [(held_put hs hlast hok h).2.1]
  exact (tracks_reconcile_new printsFaithfully_lasting (fun y hy => (hlast y hy).1) hx).covers

end Put

/-! ## Exchanges in both directions -/

/-- Exchanges for all buckets in which roots differ, every request succeeds and nothing is pruned.
-/
structure FullExchange (env : ℕ → ExchangeEnv) (ae : AntiEntropy) (store peer : Storage) :
    Prop where
  diverges : ae.Diverges env store
  delivered : (exec Storage.accept peer (ae.allPushes env store.records)).isSome = true
  unpruned : AllOk Storage.accept Unpruned peer (ae.allPushes env store.records)

/-- The peer ends with a sound store that covers what both held and holds nothing else. -/
theorem FullExchange.held {env : ℕ → ExchangeEnv} {ae : AntiEntropy} {store peer : Storage}
    (h : FullExchange env ae store peer) (hstore : store.Sound) (hpeer : peer.Sound) :
    (ae.exchangeAll env store peer).1.Sound ∧ ∀ key,
      (∀ y ∈ store.held key ++ peer.held key,
        Covers Sibling.vclock ((ae.exchangeAll env store peer).1.held key) y.vclock) ∧
      ∀ x ∈ (ae.exchangeAll env store peer).1.held key,
        ∃ y ∈ store.held key ++ peer.held key, AntisymmRel (· ≤ ·) x.vclock y.vclock := by
  obtain ⟨peer', hexec⟩ := Option.isSome_iff_exists.1 h.delivered
  rw [AntiEntropy.exchangeAll_eq h.diverges hexec]
  -- what is pushed is held by the node
  have hheld : ∀ p ∈ ae.allPushes env store.records, p.sibling ∈ store.held p.key := by
    intro p hp
    obtain ⟨⟨key, set⟩, hrec, hkey, hsib⟩ := AntiEntropy.mem_allPushes hp
    rw [hkey, ← ((Storage.Sound.mem_records_iff hstore).1 hrec).2]
    exact hsib
  have hlast : ∀ p ∈ ae.allPushes env store.records,
      Lasting p.sibling ∧ p.sibling.vclock.Readable := by
    intro p hp
    obtain ⟨hstored, hlasting⟩ := hstore.stored_eq p.key
    exact ⟨hlasting _ (hheld p hp), (Storage.storable_of_stored hstored _ (hheld p hp)).clock⟩
  obtain ⟨hsound, hkeep, hnew, hfrom⟩ := exec_accept hpeer hlast h.unpruned hexec
  refine ⟨hsound, fun key => ⟨fun y hy => ?_, fun x hx => ?_⟩⟩
  · rcases List.mem_append.1 hy with hy | hy
    · -- a sibling of the node has been pushed
      have hrec : (key, store.held key) ∈ store.records :=
        hstore.mem_records_iff.2 ⟨hstore.mem_keys_iff.2 (List.ne_nil_of_mem hy), rfl⟩
      obtain ⟨p, hp, hkey, rfl⟩ := AntiEntropy.exists_mem_allPushes env hrec hy
      have htracked := hnew p hp
      rw [hkey] at htracked
      exact htracked.covers
    · have htracked : TracksAt peer key y.vclock :=
        tracks_self printsFaithfully_lasting (hpeer.stored_eq key).2 hy
      exact (hkeep key _ htracked).covers
  · rcases hfrom key x hx with ⟨y, hy, hxy⟩ | ⟨p, hp, rfl, hxp⟩
    · exact ⟨y, List.mem_append_right _ hy, hxy⟩
    · exact ⟨p.sibling, List.mem_append_left _ (hheld p hp), hxp⟩

/-- For any two stores whose records can be read and have valid node ids and no expiry: after
exchanges for all buckets from the first to the second and then back, with every request succeeding
and nothing pruned, both hold every key of either, and for every key the maximal clocks of their
records are the same, and those of the two original records together. -/
theorem exchange_converges (A B : Storage) (aeA aeB : AntiEntropy) (envA envB : ℕ → ExchangeEnv)
    (hA : A.Sound) (hB : B.Sound) (hAB : FullExchange envA aeA A B)
    (hBA : FullExchange envB aeB (aeA.exchangeAll envA A B).1 A) :
    let B' := (aeA.exchangeAll envA A B).1
    let A' := (aeB.exchangeAll envB B' A).1
    ∀ key, (key ∈ A.db.keys ∨ key ∈ B.db.keys → key ∈ A'.db.keys ∧ key ∈ B'.db.keys) ∧
      ∃ setA setB setA' setB', A.stored key = .ok setA ∧ B.stored key = .ok setB ∧
        A'.stored key = .ok setA' ∧ B'.stored key = .ok setB' ∧ SameMaximalClocks setA' setB' ∧
        SameMaximalClocks setA' (setA ++ setB) ∧ SameMaximalClocks setB' (setA ++ setB) := by
  intro B' A' key
  obtain ⟨hB', hheldB⟩ := hAB.held hA hB
  obtain ⟨hA', hheldA⟩ := hBA.held hB' hA
  obtain ⟨hcovB, hfromB⟩ := hheldB key
  obtain ⟨hcovA, hfromA⟩ := hheldA key
  -- the second direction pushes what the first has left
  have hcov : ∀ y ∈ A.held key ++ B.held key,
      Covers Sibling.vclock (A'.held key) y.vclock := by
    intro y hy
    obtain ⟨x, hx, hyx⟩ := hcovB y hy
    obtain ⟨z, hz, hxz⟩ := hcovA x (List.mem_append_left _ hx)
    exact ⟨z, hz, hyx.trans hxz⟩
  have hfrom : ∀ x ∈ A'.held key,
      ∃ y ∈ A.held key ++ B.held key, AntisymmRel (· ≤ ·) x.vclock y.vclock := by
    intro x hx
    obtain ⟨y, hy, hxy⟩ := hfromA x hx
    rcases List.mem_append.1 hy with hy | hy
    · obtain ⟨z, hz, hyz⟩ := hfromB y hy
      exact ⟨z, hz, hxy.trans hyz⟩
    · exact ⟨y, List.mem_append_left _ hy, hxy⟩
  have hmaxA := sameMaximalClocks_of_covers hcov hfrom
  have hmaxB := sameMaximalClocks_of_covers hcovB hfromB
  refine ⟨fun hkey => ?_, A.held key, B.held key, A'.held key, B'.held key,
    (hA.stored_eq key).1, (hB.stored_eq key).1, (hA'.stored_eq key).1, (hB'.stored_eq key).1,
    hmaxA.trans hmaxB.symm, hmaxA, hmaxB⟩
  -- a nonempty set is not covered by an empty one
  have hne : ∃ y, y ∈ A.held key ++ B.held key := by
    rcases hkey with hkey | hkey
    · obtain ⟨y, hy⟩ := List.exists_mem_of_ne_nil _ (hA.mem_keys_iff.1 hkey)
      exact ⟨y, List.mem_append_left _ hy⟩
    · obtain ⟨y, hy⟩ := List.exists_mem_of_ne_nil _ (hB.mem_keys_iff.1 hkey)
      exact ⟨y, List.mem_append_right _ hy⟩
  obtain ⟨y, hy⟩ := hne
  obtain ⟨a, ha, -⟩ := hcov y hy
  obtain ⟨b, hb, -⟩ := hcovB y hy
  exact ⟨hA'.mem_keys_iff.2 (List.ne_nil_of_mem ha), hB'.mem_keys_iff.2 (List.ne_nil_of_mem hb)⟩

/-- The store of a node that has written the key `k` at time 100. -/
def storeOf (nodeID : NodeID) : Storage :=
  ((Storage.new defaultStorageOptions).put (CallEnv.steady 100) [107]
    [⟨nodeID, VectorClock.new.set 100 nodeID 1, 100, false, 0⟩]).toOption.getD
    (Storage.new defaultStorageOptions)

def storeOfN1 : Storage := storeOf [110, 49]
def storeOfN2 : Storage := storeOf [110, 50]

/-- The service of a node with two buckets, started on its store. -/
def serviceOf (store : Storage) : AntiEntropy :=
  ((AntiEntropy.new true 1).start ScanEnv.quiet store).2

def serviceOfN1 : AntiEntropy := serviceOf storeOfN1
def serviceOfN2 : AntiEntropy := serviceOf storeOfN2

/-- Exchanges with a peer of the given service, at time 100. -/
def exchangesWith (peer : AntiEntropy) (_ : ℕ) : ExchangeEnv :=
  ⟨.ok peer.merkleTree.getRoot.1, ScanEnv.quiet,
    fun _ _ => ⟨.answered, CallEnv.steady 100, fun _ => 100⟩⟩

/-- The pushes from `n1` to `n2`, and what they make of the store of `n2`. -/
def pushesToN2 : List Push := serviceOfN1.allPushes (exchangesWith serviceOfN2) storeOfN1.records
def mergedAtN2 : Storage := stateAfter Storage.accept storeOfN2 pushesToN2

theorem diverges_of_roots {ae peer : AntiEntropy} {store : Storage}
    (hroot : ae.merkleTree.getRoot.1 ≠ peer.merkleTree.getRoot.1) (hopen : store.closed = false) :
    ae.Diverges (exchangesWith peer) store :=
  ⟨fun _ => ⟨_, rfl, hroot⟩, fun _ => congrArg Prod.snd (Storage.scan_quiet hopen)⟩

set_option maxRecDepth 4000 in
/-- Two nodes that have both written the key `k` exchange their records. -/
theorem exchange_converges_of_two_writers : ∃ A' B' setA' setB',
    B' = (serviceOfN1.exchangeAll (exchangesWith serviceOfN2) storeOfN1 storeOfN2).1 ∧
    A' = (serviceOfN2.exchangeAll (exchangesWith serviceOfN1) B' storeOfN1).1 ∧
    A'.stored [107] = .ok setA' ∧ B'.stored [107] = .ok setB' ∧ SameMaximalClocks setA' setB' := by
  have hroot : serviceOfN1.merkleTree.getRoot.1 ≠ serviceOfN2.merkleTree.getRoot.1 := by
    decide +kernel
  have hAB : FullExchange (exchangesWith serviceOfN2) serviceOfN1 storeOfN1 storeOfN2 :=
    ⟨diverges_of_roots hroot (by decide +kernel), by decide +kernel, by decide +kernel⟩
  have hmerged : (serviceOfN1.exchangeAll (exchangesWith serviceOfN2) storeOfN1 storeOfN2).1 =
      mergedAtN2 := AntiEntropy.exchangeAll_eq hAB.diverges (exec_eq_stateAfter hAB.delivered)
  have hBA : FullExchange (exchangesWith serviceOfN1) serviceOfN2 mergedAtN2 storeOfN1 :=
    ⟨diverges_of_roots hroot.symm (by decide +kernel), by decide +kernel, by decide +kernel⟩
  obtain ⟨-, -, -, setA', setB', -, -, hA', hB', hsame, -⟩ :=
    exchange_converges storeOfN1 storeOfN2 serviceOfN1 serviceOfN2 (exchangesWith serviceOfN2)
      (exchangesWith serviceOfN1) (by decide +kernel) (by decide +kernel) hAB
      (hmerged ▸ hBA) [107]
  exact ⟨_, _, setA', setB', rfl, rfl, hA', hB', hsame⟩

end GoQuorum
