import GoQuorum.Storage.Engine
import GoQuorum.VClock.Text

/-!
# What a write does to the record of a key

`Put` without pruning replaces the record by the encoding of the reconciled set.  This module says
what that does to the siblings stored under the key (`prepare_of_noPrune`, `stored_insert_self`) and
to the others (`stored_insert_of_ne`), and that reconciliation loses nothing that a class of
faithfully printed siblings tracks (`tracks_reconcile_new`, `tracks_reconcile_old`).
-/

namespace GoQuorum

open Lib Lib.Versions

/-- No sibling of the set expires. -/
def NoTTL (set : SiblingSet) : Prop := ∀ sib ∈ set, sib.expiresAt = 0

instance (set : SiblingSet) : Decidable (NoTTL set) :=
  inferInstanceAs (Decidable (∀ sib ∈ set, sib.expiresAt = 0))

theorem unexpired_of_noTTL {set : SiblingSet} (h : NoTTL set) (now : Int64) :
    unexpired now set = set := by
  refine List.filter_eq_self.2 fun sib hs => ?_
  simp [Sibling.expired, h sib hs]

theorem mem_of_mem_unexpired {set : SiblingSet} {now : Int64} {sib : Sibling}
    (h : sib ∈ unexpired now set) : sib ∈ set :=
  (List.mem_filter.1 h).1

theorem NoTTL.reconcile {existing incoming : SiblingSet} (he : NoTTL existing)
    (hi : NoTTL incoming) : NoTTL (reconcileSiblings existing incoming) :=
  fun sib hs => (mem_of_mem_reconcile hs).elim (hi sib) (he sib)

/-- The key under which siblings are deduplicated. -/
def Sibling.printed (sib : Sibling) : Bytes := sib.vclock.string

/-- What the siblings of a set cover stays covered by later writes of class `T`. -/
abbrev Tracked (T : Sibling → Prop) (set : SiblingSet) (c : VectorClock) : Prop :=
  Tracks Sibling.vclock Sibling.printed T set c

/-- Siblings of class `T` that print alike have equal clocks. -/
def PrintsFaithfully (T : Sibling → Prop) : Prop :=
  ∀ x y, T x → T y → y.printed = x.printed → x.vclock ≤ y.vclock

/-- Clocks with valid node ids print faithfully. -/
theorem printsFaithfully_of_validIDs {T : Sibling → Prop} (h : ∀ x, T x → x.vclock.ValidIDs) :
    PrintsFaithfully T :=
  fun x y hx hy e => (VectorClock.string_injOn (h y hy) (h x hx) e).ge

theorem tracks_reconcile_new {T : Sibling → Prop} (hT : PrintsFaithfully T)
    {existing incoming : SiblingSet} (hin : ∀ x ∈ incoming, T x) {x : Sibling}
    (hx : x ∈ incoming) : Tracked T (reconcileSiblings existing incoming) x.vclock := by
  by_cases he : existing = []
  · rw [reconcileSiblings, if_pos he]
    exact tracks_self hT hin hx
  · rw [reconcileSiblings_eq_join he (List.ne_nil_of_mem hx)]
    exact tracks_join_new hT hin hx

theorem tracks_reconcile_old {T : Sibling → Prop} (hT : PrintsFaithfully T)
    {existing incoming : SiblingSet} (hin : ∀ x ∈ incoming, T x) {c : VectorClock}
    (h : Tracked T existing c) : Tracked T (reconcileSiblings existing incoming) c := by
  have he : existing ≠ [] := by
    obtain ⟨x, hx, -⟩ := h
    exact List.ne_nil_of_mem hx
  by_cases hi : incoming = []
  · rw [reconcileSiblings, if_neg he, if_pos hi]
    exact h
  · rw [reconcileSiblings_eq_join he hi]
    exact tracks_join_old hT hin h

/-- Reconciliation with one sibling is a join, also when nothing was stored. -/
theorem reconcile_singleton (set : SiblingSet) (x : Sibling) :
    reconcileSiblings set [x] = join Sibling.vclock Sibling.printed [x] set := by
  by_cases h : set = []
  · rw [reconcileSiblings, if_pos h, h, join, retained, List.filter_nil, List.append_nil, dedupBy,
      if_neg List.not_mem_nil, dedupBy]
  · exact reconcileSiblings_eq_join h (List.cons_ne_nil _ _)

/-- Reconciliation with one sibling puts it first. -/
theorem reconcile_eq_cons (existing : SiblingSet) (x : Sibling) :
    reconcileSiblings existing [x] = x :: dedupBy Sibling.printed [x.printed]
      (existing.filter fun e => ¬ x.vclock.happensAfter e.vclock) := by
  rw [reconcile_singleton, join, List.singleton_append, dedupBy, if_neg List.not_mem_nil, retained]
  refine congrArg (fun l => x :: dedupBy Sibling.printed [x.printed] l)
    (List.filter_congr fun e _ => ?_)
  simp [VectorClock.happensAfter_iff]

/-- Nothing older than a single incoming sibling survives its reconciliation. -/
theorem not_lt_of_mem_reconcile {existing : SiblingSet} {sib x : Sibling}
    (h : x ∈ reconcileSiblings existing [sib]) : ¬ x.vclock < sib.vclock := by
  by_cases hx : x = sib
  · rw [hx]
    exact lt_irrefl _
  · rw [reconcile_singleton] at h
    exact not_lt_of_mem_join h (fun hm => hx (List.mem_singleton.1 hm)) List.mem_cons_self

namespace Storage

variable {env : CallEnv} {s : Storage} {key key' data : Bytes} {siblings : SiblingSet}

/-- The call prunes neither a clock entry nor a sibling. -/
def NoPrune (env : CallEnv) (s : Storage) (key : Bytes) (siblings : SiblingSet) : Prop :=
  ∀ merged, s.merge env key siblings = .ok merged → env.enforceLimits s.opts merged = merged

instance (env : CallEnv) (s : Storage) (key : Bytes) (siblings : SiblingSet) :
    Decidable (NoPrune env s key siblings) :=
  match h : s.merge env key siblings with
  | .ok merged =>
    decidable_of_iff (env.enforceLimits s.opts merged = merged)
      ⟨fun e m hm => by rw [h] at hm; cases hm; exact e, fun hp => hp merged h⟩
  | .error _ => isTrue fun m hm => by rw [h] at hm; cases hm

/-- Of the database a call reads only the record of its key. -/
theorem merge_congr {t : Storage} (hclosed : s.closed = t.closed)
    (hget : s.db.get? key = t.db.get? key) : s.merge env key siblings = t.merge env key siblings := by
  simp only [merge, readExisting, getRaw, readRecord, hclosed, hget]

theorem prepare_congr {t : Storage} (hopts : s.opts = t.opts) (hclosed : s.closed = t.closed)
    (hget : s.db.get? key = t.db.get? key) :
    s.prepare env key siblings = t.prepare env key siblings := by
  rw [prepare, prepare, merge_congr hclosed hget, hopts]

theorem NoPrune.congr {t : Storage} (h : NoPrune env s key siblings) (hopts : s.opts = t.opts)
    (hclosed : s.closed = t.closed) (hget : s.db.get? key = t.db.get? key) :
    NoPrune env t key siblings := by
  intro merged hmerge
  rw [← hopts]
  exact h merged ((merge_congr hclosed hget).trans hmerge)

theorem prepare_of_noPrune (h : s.prepare env key siblings = .ok data)
    (hp : NoPrune env s key siblings) :
    ∃ all, s.stored key = .ok all ∧
      encodeSiblingSet (reconcileSiblings (unexpired env.readNow all) siblings) = .ok data := by
  obtain ⟨merged, hm, henc⟩ := prepare_eq_ok h
  rw [hp merged hm] at henc
  obtain ⟨all, hall, rfl⟩ := merge_eq_ok hm
  exact ⟨all, hall, henc⟩

theorem value_length_of_validateValues {i : ℕ} {l : List Sibling}
    (h : validateValues i l = .ok ()) : ∀ sib ∈ l, sib.value.length ≤ maxValueSize := by
  induction l generalizing i with
  | nil => exact fun sib hs => absurd hs List.not_mem_nil
  | cons x l ih =>
    obtain ⟨_, hv, hl⟩ := bind_eq_ok.1 h
    rw [mapError_eq_ok, validateValue] at hv
    split_ifs at hv with hlen
    exact List.forall_mem_cons.2 ⟨not_lt.1 hlen, ih hl⟩

/-- `Put` has checked the sizes of the incoming values. -/
theorem value_length_of_prepare (h : s.prepare env key siblings = .ok data) :
    ∀ sib ∈ siblings, sib.value.length ≤ maxValueSize := by
  obtain ⟨merged, hm, -⟩ := prepare_eq_ok h
  unfold merge at hm
  split_ifs at hm
  obtain ⟨-, -, hm⟩ := bind_eq_ok.1 hm
  obtain ⟨_, hv, -⟩ := bind_eq_ok.1 hm
  exact value_length_of_validateValues hv

theorem merge_singleton_eq_ok {env : CallEnv} {s : Storage} {key : Bytes} {x : Sibling}
    {merged : SiblingSet} : s.merge env key [x] = .ok merged ↔
      s.closed = false ∧ validateKey key = .ok () ∧ validateValue x.value = .ok () ∧
        ∃ existing, s.readExisting env key = .ok existing ∧
          merged = reconcileSiblings existing [x] := by
  unfold Storage.merge
  cases hc : s.closed with
  | true => simp
  | false =>
    simp only [Bool.false_eq_true, if_false, Storage.validateValues, bind_eq_ok, mapError_eq_ok,
      pure, Except.pure, Except.ok.injEq, true_and]
    constructor
    · rintro ⟨_, hk, _, ⟨_, hv, -⟩, existing, hex, rfl⟩
      exact ⟨hk, hv, existing, hex, rfl⟩
    · rintro ⟨hk, hv, existing, hex, rfl⟩
      exact ⟨(), hk, (), ⟨(), hv, trivial⟩, existing, hex, rfl⟩

/-- When `Put` of one sibling succeeds, and what it writes. -/
theorem put_singleton_eq_ok {env : CallEnv} {s t : Storage} {key : Bytes} {x : Sibling} :
    s.put env key [x] = .ok t ↔
      (s.closed = false ∧ validateKey key = .ok () ∧ validateValue x.value = .ok ()) ∧
      env.setError = none ∧ ∃ existing data, s.readExisting env key = .ok existing ∧
        encodeSiblingSet (env.enforceLimits s.opts (reconcileSiblings existing [x])) = .ok data ∧
        t = { s with db := s.db.insert key data } := by
  constructor
  · intro h
    obtain ⟨data, hdata, hset, rfl⟩ := Storage.put_eq_ok.1 h
    obtain ⟨merged, hmerge, henc⟩ := Storage.prepare_eq_ok hdata
    obtain ⟨hc, hk, hv, existing, hex, rfl⟩ := merge_singleton_eq_ok.1 hmerge
    exact ⟨⟨hc, hk, hv⟩, hset, existing, data, hex, henc, rfl⟩
  · rintro ⟨⟨hc, hk, hv⟩, hset, existing, data, hex, henc, rfl⟩
    have hmerge := merge_singleton_eq_ok.2 ⟨hc, hk, hv, existing, hex, rfl⟩
    exact Storage.put_eq_ok.2
      ⟨data, bind_eq_ok.2 ⟨_, hmerge, mapError_eq_ok.2 henc⟩, hset, rfl⟩

theorem stored_insert_self (s : Storage) (key data : Bytes) :
    ({ s with db := s.db.insert key data } : Storage).stored key = decodeSiblingSet data := by
  simp only [stored, SortedMap.get?_insert_self]

theorem stored_insert_of_ne (s : Storage) (data : Bytes) (h : key ≠ key') :
    ({ s with db := s.db.insert key data } : Storage).stored key' = s.stored key' := by
  simp only [stored, SortedMap.get?_insert_of_ne _ h]

theorem stored_erase_of_ne (s : Storage) (h : key' ≠ key) :
    ({ s with db := s.db.erase key } : Storage).stored key' = s.stored key' := by
  simp only [stored, SortedMap.get?_erase_of_ne _ h]

theorem stored_of_get? (h : s.db.get? key = some data) : s.stored key = decodeSiblingSet data := by
  simp only [stored, h]

theorem stored_congr {t : Storage} (h : s.db.get? key = t.db.get? key) :
    s.stored key = t.stored key := by
  unfold stored
  rw [h]

/-- The garbage collector touches only the key it is at. -/
theorem stored_applyGC_of_ne (s : Storage) (a : GCAction) (h : key ≠ key') :
    (s.applyGC key a).stored key' = s.stored key' := by
  cases a with
  | keep => rfl
  | delete => exact stored_erase_of_ne s h.symm
  | rewrite data => exact stored_insert_of_ne s data h

/-- What is stored fits the record format. -/
theorem storable_of_stored {set : SiblingSet} (h : s.stored key = .ok set) :
    ∀ sib ∈ set, sib.Storable := by
  unfold stored at h
  cases hd : s.db.get? key with
  | none =>
    rw [hd] at h
    obtain rfl := Except.ok.inj h
    exact fun sib hs => absurd hs List.not_mem_nil
  | some data =>
    rw [hd] at h
    exact (decodeSiblingSet_eq_ok h).2.2

/-- The record that an unpruned write of readable clocks prepares decodes to the reconciled set. -/
theorem decode_of_noPrune (h : s.prepare env key siblings = .ok data)
    (hp : NoPrune env s key siblings) (hread : ∀ sib ∈ siblings, sib.vclock.Readable) :
    ∃ all, s.stored key = .ok all ∧ decodeSiblingSet data =
      .ok (reconcileSiblings (unexpired env.readNow all) siblings) := by
  obtain ⟨all, hall, henc⟩ := prepare_of_noPrune h hp
  refine ⟨all, hall, decodeSiblingSet_encodeSiblingSet henc fun sib hsib => ?_⟩
  rcases mem_of_mem_reconcile hsib with hsib | hsib
  · exact hread sib hsib
  · exact (storable_of_stored hall sib (mem_of_mem_unexpired hsib)).clock

/-! ### Records as they are written -/

/-- The record of a key consists of these siblings: it reads as them, or it is their encoding. -/
def Keeps (s : Storage) (key : Bytes) (set : SiblingSet) : Prop :=
  s.stored key = .ok set ∨ ∃ data, s.db.get? key = some data ∧ encodeSiblingSet set = .ok data

/-- A record that can be read reads as the siblings it consists of. -/
theorem Keeps.eq_of_stored {s : Storage} {key : Bytes} {set set' : SiblingSet}
    (h : s.Keeps key set) (hstored : s.stored key = .ok set') : set' = set := by
  rcases h with h | ⟨data, hget, henc⟩
  · exact Except.ok.inj (hstored.symm.trans h)
  · rw [stored_of_get? hget] at hstored
    exact eq_of_decodeSiblingSet henc hstored

/-- No sibling of the record has expired when the call reads it. -/
def Unexpired (env : CallEnv) (s : Storage) (key : Bytes) : Prop :=
  ∀ sib ∈ s.held key, sib.expired env.readNow = false

instance (env : CallEnv) (s : Storage) (key : Bytes) : Decidable (s.Unexpired env key) :=
  inferInstanceAs (Decidable (∀ sib ∈ s.held key, sib.expired env.readNow = false))

theorem Unexpired.unexpired_eq {env : CallEnv} {s : Storage} {key : Bytes}
    {set : SiblingSet} (h : s.Unexpired env key) (hset : s.stored key = .ok set) :
    unexpired env.readNow set = set := by
  have hheld : s.held key = set := by
    rw [held, hset]
    rfl
  refine List.filter_eq_self.2 fun sib hsib => ?_
  rw [h sib (hheld ▸ hsib)]
  rfl

/-- `Put` of one sibling that prunes nothing leaves the reconciled siblings. -/
theorem Keeps.put {env : CallEnv} {s t : Storage} {key : Bytes} {set : SiblingSet}
    {x : Sibling} (h : s.Keeps key set) (hput : s.put env key [x] = .ok t)
    (hprune : NoPrune env s key [x]) : s.stored key = .ok set ∧
      t.Keeps key (reconcileSiblings (unexpired env.readNow set) [x]) := by
  obtain ⟨data, hdata, -, rfl⟩ := put_eq_ok.1 hput
  obtain ⟨all, hall, henc⟩ := prepare_of_noPrune hdata hprune
  obtain rfl := h.eq_of_stored hall
  exact ⟨hall, Or.inr ⟨data, SortedMap.get?_insert_self _ _ _, henc⟩⟩

end Storage

/-! ## The garbage collector -/

/-- A record that the collector rewrites reads back as what it left of it. -/
theorem gcAction_eq_rewrite {now ttl : Int64} {data data' : Bytes}
    (h : gcAction now ttl data = .rewrite data') :
    ∃ set, decodeSiblingSet data = .ok set ∧
      decodeSiblingSet data' = .ok (set.filter fun sib => ¬ sib.collectable now ttl) := by
  unfold gcAction at h
  cases hd : decodeSiblingSet data with
  | error e =>
    rw [hd] at h
    cases h
  | ok set =>
    rw [hd] at h
    dsimp only at h
    split_ifs at h with hlen hnil
    obtain ⟨-, hmax, hstor⟩ := decodeSiblingSet_eq_ok hd
    obtain ⟨enc, henc, hdec⟩ := encodeSiblingSet_ok hnil
      ((List.length_filter_le _ _).trans hmax) fun sib hs => hstor sib (List.mem_filter.1 hs).1
    rw [henc] at h
    obtain rfl := GCAction.rewrite.inj h
    exact ⟨set, rfl, hdec⟩

/-! ## Clocks within the limits -/

theorem exchangePass_perm (front : Sibling) (l : List Sibling) :
    ((exchangePass front l).1 :: (exchangePass front l).2).Perm (front :: l) := by
  induction l generalizing front with
  | nil => exact List.Perm.refl _
  | cons sib rest ih =>
    rw [exchangePass]
    split_ifs
    · exact (List.Perm.swap _ _ _).trans ((ih sib).cons front)
    · exact (List.Perm.swap _ _ _).trans (((ih front).cons sib).trans (List.Perm.swap _ _ _))

theorem exchangeSort_perm (n : ℕ) (l : List Sibling) : (exchangeSort n l).Perm l := by
  induction n generalizing l with
  | zero => rw [exchangeSort.eq_def]
  | succ n ih =>
    cases l with
    | nil => exact List.Perm.refl _
    | cons sib rest =>
      rw [exchangeSort]
      exact ((ih _).cons _).trans (exchangePass_perm sib rest)

/-- What the limits of `Put` keep is, up to order, part of the pruned siblings. -/
theorem enforceLimits_subperm (env : CallEnv) (opts : StorageOptions) (merged : SiblingSet) :
    (env.enforceLimits opts merged).Subperm (env.pruneClocks opts merged) := by
  unfold CallEnv.enforceLimits pruneSiblings
  dsimp only
  split_ifs
  · exact List.Subperm.refl _
  · exact (List.take_sublist _ _).subperm.trans (exchangeSort_perm _ _).subperm
  · exact List.Subperm.refl _

theorem enforceLimits_of_length_le {env : CallEnv} {opts : StorageOptions} {l : SiblingSet}
    (h : (l.length : ℤ) ≤ opts.maxSiblings) : env.enforceLimits opts l = env.pruneClocks opts l := by
  have hlen : (env.pruneClocks opts l).length = l.length := List.length_mapIdx
  unfold CallEnv.enforceLimits
  dsimp only
  rw [hlen, if_neg (not_lt.2 h)]

/-- The limit of `Put` on the number of siblings. -/
theorem length_enforceLimits_le (env : CallEnv) (opts : StorageOptions) (merged : SiblingSet) :
    ((env.enforceLimits opts merged).length : ℤ) ≤ opts.maxSiblings := by
  have hpos := opts.maxSiblings_pos
  unfold CallEnv.enforceLimits pruneSiblings
  dsimp only
  split_ifs with h h'
  · exact h'
  · rw [List.length_take]
    omega
  · exact not_lt.1 h

/-- A sibling that the limits of `Put` keep is one of the merged ones with its clock pruned. -/
theorem mem_enforceLimits {env : CallEnv} {opts : StorageOptions} {merged : SiblingSet}
    {x : Sibling} (h : x ∈ env.enforceLimits opts merged) :
    ∃ i, ∃ sib ∈ merged, x = { sib with vclock := env.pruneClock opts i sib.vclock } := by
  have hp : x ∈ env.pruneClocks opts merged := (enforceLimits_subperm env opts merged).subset h
  obtain ⟨i, hi, rfl⟩ := List.mem_mapIdx.1 hp
  exact ⟨i, merged[i], List.getElem_mem hi, rfl⟩

end GoQuorum
