import GoQuorum.Node.Machine

/-!
# No lost update on a node

A write is lost when another one reads the record before it and writes after it.  The key lock
rules that out between two `localWrite`s (`LockInv`), but `Replicate` does not take it, and neither
does the garbage collector.  Where no such overlap happens, every committed sibling stays covered by
the stored record (`Covering`, `committed_covered`).

The two results about the code are `no_lost_update`, for interleaved requests, and
`gc_keeps_concurrent_writes`, for writes that run during a pass of the garbage collector; each has a
run next to it that shows what happens otherwise.
-/

namespace GoQuorum

open Lib Lib.Versions

namespace NodeState

variable {ι : Type} {task : ι → WriteTask} {s t : NodeState ι}

/-! ## The key lock -/

variable (task) in
/-- What the key lock ensures: a write that locks holds the lock until it is over, and no other
write that locks has committed on its key since it read. -/
structure LockInv (s : NodeState ι) : Prop where
  held : ∀ i, (task i).locks = true →
    (s.phase i = .locked ∨ ∃ d n, s.phase i = .prepared d n) → s.holder (task i).key = some i
  seen : ∀ i d n, s.phase i = .prepared d n → n ≤ s.log.length
  unlocked : ∀ i d n, (task i).locks = true → s.phase i = .prepared d n →
    ∀ j ∈ s.log.drop n, (task j).key = (task i).key → (task j).locks = false
  logged : ∀ i, s.phase i = .done → i ∈ s.log

theorem lockInv_init (store : Storage) (gc : Option GCPass) :
    LockInv task (init store gc : NodeState ι) := by
  refine ⟨fun i _ h => ?_, fun i d n h => ?_, fun i d n _ h => ?_, fun i h => ?_⟩
  · rcases h with h | ⟨_, _, h⟩ <;> cases h
  all_goals cases h

/-- The invariant depends only on phases, locks and the log. -/
theorem LockInv.frame (h : LockInv task s) (hp : t.phase = s.phase) (hh : t.holder = s.holder)
    (hl : t.log = s.log) : LockInv task t := by
  obtain ⟨h₁, h₂, h₃, h₄⟩ := h
  constructor <;> simpa only [hp, hh, hl]

theorem held_of_mayRead (h : LockInv task s) {i : ι} (hr : s.MayRead task i)
    (hl : (task i).locks = true) : s.holder (task i).key = some i := by
  rw [MayRead, if_pos hl] at hr
  exact h.held i hl (Or.inl hr)

/-- Two writes do not hold the lock of one key. -/
theorem key_ne_of_held {i j : ι} (hi : s.holder (task i).key = some i)
    (hj : s.holder (task j).key = some j) (hne : j ≠ i) : (task i).key ≠ (task j).key := by
  intro hk
  rw [hk, hj] at hi
  exact hne (Option.some.inj hi)

/-- Releasing one write's lock leaves the others' alone. -/
theorem released_of_ne {i j : ι} (hi : (task i).locks = true → s.holder (task i).key = some i)
    (hne : j ≠ i) (hj : s.holder (task j).key = some j) :
    s.released task i (task j).key = some j := by
  unfold released
  split_ifs with hl
  · rw [Function.update_of_ne (key_ne_of_held (hi hl) hj hne).symm, hj]
  · exact hj

section

variable [DecidableEq ι]

/-- One write `i` moves to a new phase, keeping the locks of the others; it is logged when it is
done, and it has read just now if it is prepared. -/
theorem LockInv.move (h : LockInv task s) (i : ι) {p : Phase} {extra : List ι}
    (hphase : t.phase = Function.update s.phase i p) (hlog : t.log = s.log ++ extra)
    (others : ∀ j, j ≠ i → s.holder (task j).key = some j → t.holder (task j).key = some j)
    (self : (task i).locks = true → (p = .locked ∨ ∃ d n, p = .prepared d n) →
      t.holder (task i).key = some i)
    (prepared : ∀ d n, p = .prepared d n → n = s.log.length ∧ extra = [])
    (fresh : ∀ k ∈ extra, ∀ j, j ≠ i → s.holder (task j).key = some j →
      (task k).key = (task j).key → (task k).locks = false)
    (done : p = .done → i ∈ extra) : LockInv task t := by
  have at_i : t.phase i = p := by rw [hphase, Function.update_self]
  have same : ∀ j, j ≠ i → t.phase j = s.phase j :=
    fun j hj => by rw [hphase, Function.update_of_ne hj]
  refine ⟨fun j hl hj => ?_, fun j d n hj => ?_, fun j d n hl hj k hk hkey => ?_, fun j hj => ?_⟩
  all_goals by_cases hne : j = i
  · rw [hne] at hl hj ⊢
    rw [at_i] at hj
    exact self hl hj
  · rw [same j hne] at hj
    exact others j hne (h.held j hl hj)
  · rw [hne, at_i] at hj
    rw [hlog, (prepared d n hj).1, List.length_append]
    exact Nat.le_add_right _ _
  · rw [same j hne] at hj
    rw [hlog, List.length_append]
    exact (h.seen j d n hj).trans (Nat.le_add_right _ _)
  · rw [hne, at_i] at hj
    obtain ⟨hn, hextra⟩ := prepared d n hj
    rw [hlog, hextra, List.append_nil, hn, List.drop_length] at hk
    exact absurd hk List.not_mem_nil
  · rw [same j hne] at hj
    rw [hlog, List.drop_append_of_le_length (h.seen j d n hj)] at hk
    rcases List.mem_append.1 hk with hk | hk
    · exact h.unlocked j d n hl hj k hk hkey
    · exact fresh k hk j hne (h.held j hl (Or.inr ⟨d, n, hj⟩)) hkey
  · rw [hne, at_i] at hj
    rw [hlog, hne]
    exact List.mem_append_right _ (done hj)
  · rw [same j hne] at hj
    rw [hlog]
    exact List.mem_append_left _ (h.logged j hj)

theorem LockInv.fail (h : LockInv task s) {i : ι}
    (hi : (task i).locks = true → s.holder (task i).key = some i) (err : StorageError) :
    LockInv task (s.fail task i err) := by
  refine h.move i rfl (List.append_nil _).symm (fun j hne hj => released_of_ne hi hne hj) ?_ ?_ ?_ ?_
  · rintro - (hp | ⟨_, _, hp⟩) <;> cases hp
  · intro d n hp
    cases hp
  · exact fun k hk => absurd hk List.not_mem_nil
  · intro hp
    cases hp

theorem LockInv.step (h : LockInv task s) {e : NodeEvent ι} (hs : s.step task e = some t) :
    LockInv task t := by
  cases e with
  | lock i =>
    obtain ⟨hl, -, hfree, rfl⟩ := step_lock hs
    refine h.move i rfl (List.append_nil _).symm (fun j hne hj => ?_)
      (fun _ _ => Function.update_self _ _ _) ?_ (fun k hk => absurd hk List.not_mem_nil) ?_
    · dsimp only
      rw [Function.update_of_ne, hj]
      intro hk
      rw [hk, hfree] at hj
      cases hj
    · intro d n hp
      cases hp
    · intro hp
      cases hp
  | read i =>
    obtain ⟨hr, ⟨data, -, rfl⟩ | ⟨err, rfl⟩⟩ := step_read hs
    · refine h.move i rfl (List.append_nil _).symm (fun j _ hj => hj)
        (fun hl _ => held_of_mayRead h hr hl) ?_ (fun k hk => absurd hk List.not_mem_nil) ?_
      · intro d n hp
        exact ⟨(Phase.prepared.inj hp).2.symm, rfl⟩
      · intro hp
        cases hp
    · exact h.fail (held_of_mayRead h hr) err
  | write i =>
    obtain ⟨data, seen, hp, rfl | ⟨err, rfl⟩⟩ := step_write hs
    · have hi : (task i).locks = true → s.holder (task i).key = some i :=
        fun hl => h.held i hl (Or.inr ⟨data, seen, hp⟩)
      refine h.move i rfl rfl (fun j hne hj => released_of_ne hi hne hj) ?_ ?_ ?_
        (fun _ => List.mem_cons_self)
      · rintro - (hp | ⟨_, _, hp⟩) <;> cases hp
      · intro d n hp
        cases hp
      · intro k hk j hne hj hkey
        obtain rfl := List.mem_singleton.1 hk
        by_contra hl
        exact key_ne_of_held (hi (Bool.eq_true_of_not_eq_false hl)) hj hne hkey
    · exact h.fail (fun hl => h.held i hl (Or.inr ⟨data, seen, hp⟩)) err
  | gcStart now =>
    obtain ⟨-, rfl⟩ := step_gcStart hs
    exact h.frame rfl rfl rfl
  | gcNext applied =>
    obtain ⟨_, _, _, _, -, rfl⟩ := step_gcNext hs
    exact h.frame rfl rfl rfl
  | gcStop =>
    obtain rfl := step_gcStop hs
    exact h.frame rfl rfl rfl

end

/-! ## What stays covered -/

variable (task) in
/-- The siblings the writes bring. -/
def Incoming (x : Sibling) : Prop := ∃ i, x ∈ (task i).siblings

variable (task) in
/-- What the results below ask of the writes: siblings that print alike have equal clocks, clocks
fit the record format, and nothing expires. -/
structure Admissible : Prop where
  prints : PrintsFaithfully (Incoming task)
  clocks : ∀ i, ∀ x ∈ (task i).siblings, x.vclock.Readable
  noTTL : ∀ i, NoTTL (task i).siblings

variable (task) in
/-- A set covers every sibling of a write, for as long as only such writes follow. -/
def CoversTask (set : SiblingSet) (i : ι) : Prop :=
  ∀ x ∈ (task i).siblings, Tracked (Incoming task) set x.vclock

variable (task) in
/-- Every committed write is covered by the record of its key, and what a write is about to store
covers it and every write on its key that had committed when it read. -/
structure Covering (s : NodeState ι) : Prop where
  noTTL : ∀ k set, s.store.stored k = .ok set → NoTTL set
  snapshot : ∀ pass, s.gc = some pass → ∀ p ∈ pass.remaining, ∀ set,
    decodeSiblingSet p.2 = .ok set → NoTTL set
  stored : ∀ i ∈ s.log, ∃ set, s.store.stored (task i).key = .ok set ∧ CoversTask task set i
  pending : ∀ i d n, s.phase i = .prepared d n → ∃ set, decodeSiblingSet d = .ok set ∧ NoTTL set ∧
    ∀ j, j = i ∨ j ∈ s.log.take n → (task j).key = (task i).key → CoversTask task set j

variable (task) in
/-- A read that leads to no pruning. -/
def Unpruned (s : NodeState ι) : NodeEvent ι → Prop
  | .read i => Storage.NoPrune (task i).env s.store (task i).key (task i).siblings
  | _ => True

variable (task) in
/-- No write stores its record after another one on the key has done so since it read, unless both
hold the lock. -/
def Serial (s : NodeState ι) : NodeEvent ι → Prop
  | .write i =>
    match s.phase i with
    | .prepared _ seen => ∀ j ∈ s.log.drop seen, (task j).key = (task i).key →
        (task i).locks = true ∧ (task j).locks = true
    | _ => True
  | _ => True

variable (task) in
/-- The collector changes no key on which a write has committed, and no further pass begins. -/
def CollectorClear (s : NodeState ι) : NodeEvent ι → Prop
  | .gcStart _ => False
  | .gcNext _ =>
    match s.gc with
    | some ⟨now, (key, data) :: _⟩ =>
      gcAction now s.store.opts.tombstoneTTL.wholeSeconds data = .keep ∨ ∀ j ∈ s.log, (task j).key ≠ key
    | _ => True
  | _ => True

instance (s : NodeState ι) : (e : NodeEvent ι) → Decidable (Unpruned task s e)
  | .read _ => inferInstanceAs (Decidable (Storage.NoPrune _ _ _ _))
  | .lock _ | .write _ | .gcStart _ | .gcNext _ | .gcStop => isTrue trivial

instance (s : NodeState ι) : (e : NodeEvent ι) → Decidable (Serial task s e)
  | .write i =>
    match h : s.phase i with
    | .prepared _ seen =>
      decidable_of_iff (∀ j ∈ s.log.drop seen, (task j).key = (task i).key →
        (task i).locks = true ∧ (task j).locks = true) (by simp only [Serial, h])
    | .waiting | .locked | .done | .failed _ => isTrue (by simp only [Serial, h])
  | .lock _ | .read _ | .gcStart _ | .gcNext _ | .gcStop => isTrue trivial

instance (s : NodeState ι) : (e : NodeEvent ι) → Decidable (CollectorClear task s e)
  | .gcStart _ => isFalse id
  | .gcNext _ =>
    match h : s.gc with
    | some ⟨now, (key, data) :: _⟩ =>
      decidable_of_iff (gcAction now s.store.opts.tombstoneTTL.wholeSeconds data = .keep ∨
        ∀ j ∈ s.log, (task j).key ≠ key) (by simp only [CollectorClear, h])
    | some ⟨_, []⟩ | none => isTrue (by simp only [CollectorClear, h])
  | .lock _ | .read _ | .write _ | .gcStop => isTrue trivial

/-- The record a write prepares covers the write and whatever the stored record covered. -/
theorem covers_of_prepare (hadm : Admissible task) {i : ι} {data : Bytes} {store : Storage}
    (hprep : store.prepare (task i).env (task i).key (task i).siblings = .ok data)
    (hprune : Storage.NoPrune (task i).env store (task i).key (task i).siblings)
    (httl : ∀ k set, store.stored k = .ok set → NoTTL set) :
    ∃ old set, store.stored (task i).key = .ok old ∧ decodeSiblingSet data = .ok set ∧ NoTTL set ∧
      CoversTask task set i ∧ ∀ j, CoversTask task old j → CoversTask task set j := by
  obtain ⟨old, hold, hdec⟩ := Storage.decode_of_noPrune hprep hprune (hadm.clocks i)
  have hnottl := httl _ old hold
  rw [unexpired_of_noTTL hnottl] at hdec
  have hin : ∀ x ∈ (task i).siblings, Incoming task x := fun x hx => ⟨i, hx⟩
  exact ⟨old, _, hold, hdec, hnottl.reconcile (hadm.noTTL i),
    fun x hx => tracks_reconcile_new hadm.prints hin hx,
    fun j hj x hx => tracks_reconcile_old hadm.prints hin (hj x hx)⟩

theorem Covering.frame (h : Covering task s) (hs : t.store = s.store) (hg : t.gc = s.gc)
    (hl : t.log = s.log) (hp : ∀ i d n, t.phase i = .prepared d n → s.phase i = .prepared d n) :
    Covering task t := by
  obtain ⟨h₁, h₂, h₃, h₄⟩ := h
  refine ⟨by rwa [hs], by rwa [hg], by rwa [hs, hl], fun i d n hi => ?_⟩
  rw [hl]
  exact h₄ i d n (hp i d n hi)

/-- The collector keeps the invariant where it leaves the keys of committed writes alone. -/
theorem Covering.collect (h : Covering task s) {now ttl : Int64} {key data : Bytes}
    {rest : List (Bytes × Bytes)} (hg : s.gc = some ⟨now, (key, data) :: rest⟩)
    (hclear : gcAction now ttl data = .keep ∨ ∀ j ∈ s.log, (task j).key ≠ key) :
    Covering task
      { s with store := s.store.applyGC key (gcAction now ttl data), gc := some ⟨now, rest⟩ } := by
  have hsnap := h.snapshot _ hg
  refine ⟨fun k set hk => ?_, ?_, fun j hj => ?_, h.pending⟩
  · dsimp only at hk
    by_cases hkey : key = k
    · cases ha : gcAction now ttl data with
      | keep =>
        rw [ha] at hk
        exact h.noTTL k set hk
      | delete =>
        rw [ha, ← hkey] at hk
        simp only [Storage.applyGC, Storage.stored, SortedMap.get?_erase_self] at hk
        obtain rfl := Except.ok.inj hk
        exact fun sib hs => absurd hs List.not_mem_nil
      | rewrite data' =>
        obtain ⟨old, hold, hdec⟩ := gcAction_eq_rewrite ha
        rw [ha, ← hkey] at hk
        rw [Storage.applyGC, Storage.stored_insert_self, hdec] at hk
        obtain rfl := Except.ok.inj hk
        exact fun sib hs => hsnap _ List.mem_cons_self old hold sib (List.mem_filter.1 hs).1
    · exact h.noTTL k set ((Storage.stored_applyGC_of_ne s.store _ hkey).symm.trans hk)
  · intro pass hpass p hp
    obtain rfl := Option.some.inj hpass
    exact hsnap p (List.mem_cons_of_mem _ hp)
  · obtain ⟨set, hs, hc⟩ := h.stored j hj
    refine ⟨set, ?_, hc⟩
    dsimp only
    rcases hclear with hkeep | hother
    · rw [hkeep]
      exact hs
    · rw [Storage.stored_applyGC_of_ne s.store _ (hother j hj).symm]
      exact hs

/-- Every write that has returned success is covered by the record of its key. -/
theorem committed_covered (h : Covering task s) (hlock : LockInv task s) {i : ι}
    (hdone : s.phase i = .done) :
    ∃ set, s.store.stored (task i).key = .ok set ∧ ∀ x ∈ (task i).siblings,
      x ∈ set ∨ ∃ e ∈ set, e.vclock.dominates x.vclock = true := by
  obtain ⟨set, hs, hcov⟩ := h.stored i (hlock.logged i hdone)
  refine ⟨set, hs, fun x hx => Or.inr ?_⟩
  obtain ⟨e, he, hle⟩ := (hcov x hx).covers
  exact ⟨e, he, VectorClock.dominates_iff.2 hle⟩

section

variable [DecidableEq ι]

theorem prepared_of_update {i j : ι} {p : Phase} {d : Bytes} {n : ℕ}
    (hp : ∀ d n, p ≠ .prepared d n) (h : Function.update s.phase i p j = .prepared d n) :
    s.phase j = .prepared d n := by
  have hne : j ≠ i := by
    rintro rfl
    rw [Function.update_self] at h
    exact hp d n h
  rwa [Function.update_of_ne hne] at h

theorem Covering.fail (h : Covering task s) (i : ι) (err : StorageError) :
    Covering task (s.fail task i err) :=
  h.frame rfl rfl rfl fun _ _ _ hj => prepared_of_update (p := .failed err) nofun hj

theorem Covering.read (h : Covering task s) (hadm : Admissible task) {i : ι} {data : Bytes}
    (hprep : s.store.prepare (task i).env (task i).key (task i).siblings = .ok data)
    (hprune : Storage.NoPrune (task i).env s.store (task i).key (task i).siblings) :
    Covering task
      { s with phase := Function.update s.phase i (.prepared data s.log.length) } := by
  refine ⟨h.noTTL, h.snapshot, h.stored, fun j d n hj => ?_⟩
  dsimp only at hj
  by_cases hne : j = i
  · rw [hne, Function.update_self] at hj
    obtain ⟨rfl, rfl⟩ := Phase.prepared.inj hj
    obtain ⟨old, set, hold, hdec, hnottl, hself, hkeep⟩ := covers_of_prepare hadm hprep hprune h.noTTL
    refine ⟨set, hdec, hnottl, fun k hk hkey => ?_⟩
    rw [hne] at hk hkey
    rcases hk with rfl | hk
    · exact hself
    · obtain ⟨old', hold', hcov⟩ := h.stored k (List.mem_of_mem_take hk)
      rw [hkey, hold] at hold'
      obtain rfl := Except.ok.inj hold'
      exact hkeep k hcov
  · rw [Function.update_of_ne hne] at hj
    exact h.pending j d n hj

/-- A write that is not disturbed commits a record that covers every committed write. -/
theorem Covering.finish (h : Covering task s) (hlock : LockInv task s) {i : ι} {data : Bytes}
    {seen : ℕ} (hp : s.phase i = .prepared data seen)
    (hfresh : ∀ j ∈ s.log.drop seen, (task j).key ≠ (task i).key) :
    Covering task
      (s.finish task i { s.store with db := s.store.db.insert (task i).key data }) := by
  obtain ⟨set, hdec, hnottl, hcov⟩ := h.pending i data seen hp
  have hself : ({ s.store with db := s.store.db.insert (task i).key data } : Storage).stored
      (task i).key = .ok set := by
    rw [Storage.stored_insert_self, hdec]
  refine ⟨fun k set' hk => ?_, h.snapshot, fun j hj => ?_, fun j d n hj => ?_⟩
  · by_cases hkey : (task i).key = k
    · rw [← hkey] at hk
      obtain rfl := Except.ok.inj (hself.symm.trans hk)
      exact hnottl
    · exact h.noTTL k set' ((Storage.stored_insert_of_ne s.store data hkey).symm.trans hk)
  · by_cases hkey : (task j).key = (task i).key
    · refine ⟨set, by rw [hkey]; exact hself, hcov j ?_ hkey⟩
      rcases List.mem_append.1 hj with hj | hj
      · rw [← List.take_append_drop seen s.log] at hj
        rcases List.mem_append.1 hj with hj | hj
        · exact Or.inr hj
        · exact absurd hkey (hfresh j hj)
      · exact Or.inl (List.mem_singleton.1 hj)
    · have hlog : j ∈ s.log := by
        rcases List.mem_append.1 hj with hj | hj
        · exact hj
        · exact absurd (congrArg (fun k => (task k).key) (List.mem_singleton.1 hj)) hkey
      obtain ⟨set', hs', hc'⟩ := h.stored j hlog
      exact ⟨set', (Storage.stored_insert_of_ne s.store data (Ne.symm hkey)).trans hs', hc'⟩
  · have hj := prepared_of_update (p := .done) nofun hj
    have htake : (s.log ++ [i]).take n = s.log.take n :=
      List.take_append_of_le_length (hlock.seen j d n hj)
    change ∃ set, _ ∧ _ ∧ ∀ k, k = j ∨ k ∈ (s.log ++ [i]).take n → _
    rw [htake]
    exact h.pending j d n hj

theorem Covering.step (h : Covering task s) (hlock : LockInv task s) (hadm : Admissible task)
    {e : NodeEvent ι} (hprune : Unpruned task s e) (hserial : Serial task s e)
    (hclear : CollectorClear task s e) (hs : s.step task e = some t) : Covering task t := by
  cases e with
  | lock i =>
    obtain ⟨-, -, -, rfl⟩ := step_lock hs
    exact h.frame rfl rfl rfl fun _ _ _ hj => prepared_of_update (p := .locked) nofun hj
  | read i =>
    obtain ⟨-, ⟨data, hprep, rfl⟩ | ⟨err, rfl⟩⟩ := step_read hs
    · exact h.read hadm hprep hprune
    · exact h.fail i err
  | write i =>
    obtain ⟨data, seen, hp, rfl | ⟨err, rfl⟩⟩ := step_write hs
    · simp only [Serial, hp] at hserial
      refine h.finish hlock hp fun j hj hkey => ?_
      -- where both would hold the lock, the lock has kept the other out
      obtain ⟨hli, hlj⟩ := hserial j hj hkey
      rw [hlock.unlocked i data seen hli hp j hj hkey] at hlj
      cases hlj
    · exact h.fail i err
  | gcStart now => exact hclear.elim
  | gcNext applied =>
    obtain ⟨now, key, data, rest, hg, rfl⟩ := step_gcNext hs
    simp only [CollectorClear, hg] at hclear
    cases applied with
    | true => exact h.collect hg hclear
    | false =>
      refine ⟨h.noTTL, fun pass hpass p hp => ?_, h.stored, h.pending⟩
      obtain rfl := Option.some.inj hpass
      exact h.snapshot _ hg p (List.mem_cons_of_mem _ hp)
  | gcStop =>
    obtain rfl := step_gcStop hs
    exact ⟨h.noTTL, fun pass hpass => (by cases hpass), h.stored, h.pending⟩

/-- The invariants hold from the start of any run that meets the conditions. -/
theorem covering_of_runs (hadm : Admissible task) {store : Storage} {gc : Option GCPass}
    (httl : ∀ k set, store.stored k = .ok set → NoTTL set)
    (hsnap : ∀ pass, gc = some pass → ∀ p ∈ pass.remaining, ∀ set,
      decodeSiblingSet p.2 = .ok set → NoTTL set)
    (hrun : Runs (step task) (fun s e => Unpruned task s e ∧ Serial task s e ∧
      CollectorClear task s e) (init store gc) s) : LockInv task s ∧ Covering task s := by
  have hinit : LockInv task (init store gc) ∧ Covering task (init store gc) :=
    ⟨lockInv_init store gc, httl, hsnap, fun i hi => absurd hi List.not_mem_nil,
      fun i d n hi => by cases hi⟩
  refine hrun.invariant (fun s => LockInv task s ∧ Covering task s) hinit ?_
  rintro s e t ⟨hlock, hcov⟩ ⟨hprune, hserial, hclear⟩ hs
  exact ⟨hlock.step hs, hcov.step hlock hadm hprune hserial hclear hs⟩

end

end NodeState

/-! ## Interleaved requests -/

/-- The steps of requests, without those of the collector. -/
def NodeEvent.OfRequest {ι : Type} : NodeEvent ι → Prop
  | .lock _ | .read _ | .write _ => True
  | .gcStart _ | .gcNext _ | .gcStop => False

instance {ι : Type} : (e : NodeEvent ι) → Decidable e.OfRequest
  | .lock _ | .read _ | .write _ => isTrue trivial
  | .gcStart _ | .gcNext _ | .gcStop => isFalse id

open NodeState

/-- Valid node ids make writes with readable clocks that do not expire admissible. -/
theorem admissible_of_validIDs {ι : Type} {task : ι → WriteTask}
    (h : ∀ i, ∀ x ∈ (task i).siblings, x.vclock.ValidIDs ∧ x.vclock.Readable ∧ x.expiresAt = 0) :
    Admissible task :=
  ⟨printsFaithfully_of_validIDs fun x ⟨i, hx⟩ => (h i x hx).1, fun i x hx => (h i x hx).2.1,
    fun i x hx => (h i x hx).2.2⟩

theorem noTTL_of_new (opts : StorageOptions) (k : Bytes) (set : SiblingSet)
    (h : (Storage.new opts).stored k = .ok set) : NoTTL set := by
  obtain rfl : set = [] := (Except.ok.inj h).symm
  exact fun sib hs => absurd hs List.not_mem_nil

/-- In any interleaving of `Replicate` and `localWrite` requests in which no request stores its
record after another has done so since it read, except where the lock excludes it, every sibling of
a request that returned success is stored or dominated by a stored one. -/
theorem no_lost_update {ι : Type} [DecidableEq ι] (req : ι → WriteRequest) (store : Storage)
    (s : NodeState ι) (hadm : Admissible fun i => (req i).task)
    (httl : ∀ k set, store.stored k = .ok set → NoTTL set)
    (hrun : Runs (step fun i => (req i).task)
      (fun s e => e.OfRequest ∧ Unpruned (fun i => (req i).task) s e ∧
        Serial (fun i => (req i).task) s e) (init store none) s)
    (hdone : ∀ i, s.phase i = .done) (i : ι) :
    ∃ set, s.store.stored (req i).task.key = .ok set ∧ ∀ x ∈ (req i).task.siblings,
      x ∈ set ∨ ∃ e ∈ set, e.vclock.dominates x.vclock = true := by
  have hclear : Runs (step fun i => (req i).task)
      (fun s e => Unpruned (fun i => (req i).task) s e ∧ Serial (fun i => (req i).task) s e ∧
        CollectorClear (fun i => (req i).task) s e) (init store none) s := by
    refine hrun.mono ?_
    rintro s e ⟨hreq, hprune, hserial⟩
    refine ⟨hprune, hserial, ?_⟩
    cases e <;> first | exact hreq.elim | trivial
  obtain ⟨hlock, hcov⟩ := covering_of_runs hadm httl (fun _ h => by cases h) hclear
  exact committed_covered hcov hlock (hdone i)

/-- A request from each side for the key `k`: a replica write of `a`, and a local write of `b`. -/
def twoRequests : Bool → WriteRequest
  | false => .replicate ⟨[107], ⟨[97], [([97], 1)], false, 100⟩⟩ (fun _ => 100) (CallEnv.steady 100)
  | true => .localWrite [107] [⟨[98], VectorClock.new.set 100 [98] 1, 100, false, 0⟩]
      (CallEnv.steady 100)

set_option maxRecDepth 4000 in
theorem no_lost_update_one_after_the_other :
    ∃ s : NodeState Bool, (∀ i, s.phase i = .done) ∧ ∃ set,
      s.store.stored [107] = .ok set ∧ ∀ x ∈ (twoRequests false).task.siblings,
        x ∈ set ∨ ∃ e ∈ set, e.vclock.dominates x.vclock = true := by
  obtain ⟨s, hrun, hphase⟩ := Runs.exists_of_exec (step fun i => (twoRequests i).task)
    (fun s e => e.OfRequest ∧ Unpruned (fun i => (twoRequests i).task) s e ∧
      Serial (fun i => (twoRequests i).task) s e) (init (Storage.new defaultStorageOptions) none)
    [.read false, .write false, .lock true, .read true, .write true]
    (fun s => (s.phase false, s.phase true))
    (by decide +kernel : _ = some (.done, .done)) (by decide +kernel)
  have hdone : ∀ i, s.phase i = .done := by
    rintro (_ | _)
    · exact congrArg Prod.fst hphase
    · exact congrArg Prod.snd hphase
  refine ⟨s, hdone, no_lost_update twoRequests _ s (admissible_of_validIDs ?_) (noTTL_of_new _) hrun
    hdone false⟩
  decide +kernel

set_option maxRecDepth 4000 in
/-- A replica write between the read and the write of a local one is lost, although both requests
return success. -/
theorem overlapping_requests_lose_update :
    ∃ s : NodeState Bool, Runs (step fun i => (twoRequests i).task)
        (fun s e => e.OfRequest ∧ Unpruned (fun i => (twoRequests i).task) s e)
        (init (Storage.new defaultStorageOptions) none) s ∧
      (∀ i, s.phase i = .done) ∧ ∃ set, s.store.stored [107] = .ok set ∧
        ∃ x ∈ (twoRequests false).task.siblings,
          ¬ (x ∈ set ∨ ∃ e ∈ set, e.vclock.dominates x.vclock = true) := by
  obtain ⟨s, hrun, hf⟩ := Runs.exists_of_exec (step fun i => (twoRequests i).task)
    (fun s e => e.OfRequest ∧ Unpruned (fun i => (twoRequests i).task) s e)
    (init (Storage.new defaultStorageOptions) none)
    [.lock true, .read true, .read false, .write false, .write true]
    (fun s => (s.phase false, s.phase true, s.store.stored [107]))
    (by decide +kernel : _ = some (.done, .done, .ok (twoRequests true).task.siblings))
    (by decide +kernel)
  refine ⟨s, hrun, ?_, _, congrArg (fun p => p.2.2) hf, _, List.mem_cons_self, by decide +kernel⟩
  rintro (_ | _)
  · exact congrArg Prod.fst hf
  · exact congrArg (fun p => p.2.1) hf

/-! ## Writes during a collection -/

/-- Every sibling of writes that run during one pass of the garbage collector and return success is
stored or dominated by a stored one at the end, as long as the collector does not touch a key on
which one of them has committed and no write stores its record over one it has not read. -/
theorem gc_keeps_concurrent_writes {ι : Type} [DecidableEq ι] (task : ι → WriteTask)
    (store : Storage) (now : Int64) (s : NodeState ι) (hadm : Admissible task)
    (httl : ∀ k set, store.stored k = .ok set → NoTTL set)
    (hrun : Runs (step task)
      (fun s e => Unpruned task s e ∧ Serial task s e ∧ CollectorClear task s e)
      (init store (some ⟨now, store.db.toList⟩)) s)
    (hdone : ∀ i, s.phase i = .done) (i : ι) :
    ∃ set, s.store.stored (task i).key = .ok set ∧ ∀ x ∈ (task i).siblings,
      x ∈ set ∨ ∃ e ∈ set, e.vclock.dominates x.vclock = true := by
  have hsnap : ∀ pass, some (GCPass.mk now store.db.toList) = some pass →
      ∀ p ∈ pass.remaining, ∀ set, decodeSiblingSet p.2 = .ok set → NoTTL set := by
    intro pass hpass p hp set hdec
    obtain rfl := Option.some.inj hpass
    exact httl p.1 set ((Storage.stored_of_get? (SortedMap.mem_toList_iff.1 hp)).trans hdec)
  obtain ⟨hlock, hcov⟩ := covering_of_runs hadm httl hsnap hrun
  exact committed_covered hcov hlock (hdone i)

/-- Options with tombstones that live for ten seconds. -/
def tenSecondTombstones : StorageOptions :=
  { defaultStorageOptions with tombstoneTTL := 10000000000, tombstoneTTL_nonneg := by decide }

/-- A store with one expired tombstone, under the key `k`. -/
def storeWithTombstone : Storage :=
  match (Storage.new tenSecondTombstones).delete (CallEnv.steady 50) 50 [107]
      (VectorClock.new.set 50 [97] 1) with
  | .ok s => s
  | .error _ => Storage.new tenSecondTombstones

/-- A write on the key `k` and one on the key `l`. -/
def twoPuts : Bool → WriteTask
  | false => ⟨[107], [⟨[1], VectorClock.new.set 100 [98] 1, 100, false, 0⟩], false,
      CallEnv.steady 100⟩
  | true => ⟨[108], [⟨[2], VectorClock.new.set 100 [98] 1, 100, false, 0⟩], false,
      CallEnv.steady 100⟩

theorem noTTL_of_storeWithTombstone (k : Bytes) (set : SiblingSet)
    (h : storeWithTombstone.stored k = .ok set) : NoTTL set := by
  by_cases hk : ([107] : Bytes) = k
  · have hset : storeWithTombstone.stored [107] =
        .ok [Storage.tombstoneOf 50 (VectorClock.new.set 50 [97] 1)] := by decide +kernel
    rw [← hk, hset] at h
    obtain rfl := Except.ok.inj h
    decide +kernel
  · have hnone : ∀ p ∈ storeWithTombstone.db.toList, p.1 = [107] := by decide +kernel
    cases hget : storeWithTombstone.db.get? k with
    | none =>
      rw [Storage.stored, hget] at h
      obtain rfl := Except.ok.inj h
      exact fun sib hs => absurd hs List.not_mem_nil
    | some data => exact absurd (hnone _ (SortedMap.mem_toList_iff.2 hget)).symm hk

set_option maxRecDepth 4000 in
theorem gc_keeps_concurrent_writes_elsewhere :
    ∃ s : NodeState Bool, s.gc.isNone ∧ (∀ i, s.phase i = .done) ∧ ∃ set,
      s.store.stored [107] = .ok set ∧ ∀ x ∈ (twoPuts false).siblings,
        x ∈ set ∨ ∃ e ∈ set, e.vclock.dominates x.vclock = true := by
  obtain ⟨s, hrun, hf⟩ := Runs.exists_of_exec (step twoPuts)
    (fun s e => Unpruned twoPuts s e ∧ Serial twoPuts s e ∧ CollectorClear twoPuts s e)
    (init storeWithTombstone (some ⟨100, storeWithTombstone.db.toList⟩))
    [.read true, .write true, .gcNext true, .read false, .write false, .gcStop]
    (fun s => (s.gc.isNone, s.phase false, s.phase true))
    (by decide +kernel : _ = some (true, .done, .done)) (by decide +kernel)
  have hdone : ∀ i, s.phase i = .done := by
    rintro (_ | _)
    · exact congrArg (fun p => p.2.1) hf
    · exact congrArg (fun p => p.2.2) hf
  refine ⟨s, congrArg Prod.fst hf, hdone, gc_keeps_concurrent_writes twoPuts _ 100 s
    (admissible_of_validIDs ?_) noTTL_of_storeWithTombstone hrun hdone false⟩
  decide +kernel

set_option maxRecDepth 4000 in
/-- A write that commits after the collector took its snapshot is deleted with the expired tombstone
that the snapshot shows under its key. -/
theorem gc_destroys_concurrent_write :
    ∃ s : NodeState Bool, Runs (step twoPuts) (Unpruned twoPuts)
        (init storeWithTombstone (some ⟨100, storeWithTombstone.db.toList⟩)) s ∧
      s.gc.isNone ∧ (∀ i, s.phase i = .done) ∧ ∃ set, s.store.stored [107] = .ok set ∧
        ∃ x ∈ (twoPuts false).siblings,
          ¬ (x ∈ set ∨ ∃ e ∈ set, e.vclock.dominates x.vclock = true) := by
  obtain ⟨s, hrun, hf⟩ := Runs.exists_of_exec (step twoPuts) (Unpruned twoPuts)
    (init storeWithTombstone (some ⟨100, storeWithTombstone.db.toList⟩))
    [.read true, .write true, .read false, .write false, .gcNext true, .gcStop]
    (fun s => (s.gc.isNone, s.phase false, s.phase true, s.store.stored [107]))
    (by decide +kernel : _ = some (true, .done, .done, .ok [])) (by decide +kernel)
  refine ⟨s, hrun, congrArg Prod.fst hf, ?_, [], congrArg (fun p => p.2.2.2) hf, _,
    List.mem_cons_self, by simp⟩
  rintro (_ | _)
  · exact congrArg (fun p => p.2.1) hf
  · exact congrArg (fun p => p.2.2.1) hf

end GoQuorum
