import GoQuorum.Server.ClientAPI

/-!
# Time to live

A `Put` with a time to live stores the second at which the sibling expires, and `GetRaw` leaves out
what has expired.  The sum of the clock and of the client's number is computed in `int64` and not
checked, and the expiry `0` stands for none.  A time to live is honoured exactly when the sum is
neither too large nor zero and the record can be read (`ttl_honoured_iff`).
-/

namespace GoQuorum

open Lib

/-- `GetRaw` returns the sibling. -/
def Storage.Returns (env : CallEnv) (s : Storage) (key : Bytes) (sib : Sibling) : Prop :=
  ∃ set, s.getRaw env key = .ok set ∧ sib ∈ set

/-- `GetRaw` on an open store returns what is stored and has not expired. -/
theorem Storage.returns_iff {env : CallEnv} {s : Storage} {key : Bytes} {set : SiblingSet}
    {sib : Sibling} (hopen : s.closed = false) (hkey : validateKey key = .ok ())
    (hget : env.getError = none) (hset : s.stored key = .ok set) (hsib : sib ∈ set) :
    s.Returns env key sib ↔ sib.expired env.readNow = false := by
  constructor
  · rintro ⟨set', hraw, hmem⟩
    obtain ⟨all, -, rfl⟩ := Storage.getRaw_eq_ok hraw
    simpa using (List.mem_filter.1 hmem).2
  · intro hfresh
    have hread : s.readRecord env key = .ok set := by
      unfold Storage.stored at hset
      cases hdata : s.db.get? key with
      | none =>
        rw [hdata] at hset
        obtain rfl := Except.ok.inj hset
        exact absurd hsib List.not_mem_nil
      | some data =>
        rw [hdata] at hset
        simp [Storage.readRecord, hopen, hkey, hget, hdata, hset]
    have hmem : sib ∈ unexpired env.readNow set := List.mem_filter.2 ⟨hsib, by simp [hfresh]⟩
    refine ⟨_, ?_, hmem⟩
    rw [Storage.getRaw, hread, ok_bind, Storage.foundOr, if_neg (List.ne_nil_of_mem hmem)]

/-! ## The expiry of a sibling -/

/-- The sibling expires at a sum of seconds that is neither too large nor zero. -/
theorem expired_iff_of_fits {t ttl now : Int64} {sib : Sibling} (hsib : sib.expiresAt = t + ttl)
    (hpos : 0 < ttl.toInt) (hfits : t.toInt + ttl.toInt < 2 ^ 63) (hzero : t.toInt + ttl.toInt ≠ 0) :
    sib.expired now = true ↔ t.toInt + ttl.toInt ≤ now.toInt := by
  have hlow := t.le_toInt
  have hsum : (t + ttl).toInt = t.toInt + ttl.toInt := by
    rw [Int64.toInt_add, Int.bmod_eq_of_le (by omega) (by omega)]
  have hne : t + ttl ≠ 0 := by
    intro h
    rw [h] at hsum
    exact hzero hsum.symm
  rw [Sibling.expired, hsib, Bool.and_eq_true, decide_eq_true_eq, decide_eq_true_eq,
    and_iff_right hne, ge_iff_le, Int64.le_iff_toInt_le, hsum]

/-- A sum that is too large has passed at once. -/
theorem expired_of_overflow {t ttl : Int64} {sib : Sibling} (hsib : sib.expiresAt = t + ttl)
    (hover : 2 ^ 63 ≤ t.toInt + ttl.toInt) : sib.expired t = true := by
  have ht := t.toInt_lt
  have httl := ttl.toInt_lt
  have hsum : (t + ttl).toInt = t.toInt + ttl.toInt - 2 ^ 64 := by
    rw [Int64.toInt_add, Int.bmod_def]
    omega
  have hne : t + ttl ≠ 0 := by
    intro h
    rw [h, Int64.toInt_zero] at hsum
    omega
  rw [Sibling.expired, hsib, Bool.and_eq_true, decide_eq_true_eq, decide_eq_true_eq,
    ge_iff_le, Int64.le_iff_toInt_le, hsum]
  exact ⟨hne, by omega⟩

/-- A sum of zero never passes. -/
theorem expired_of_zero {t ttl now : Int64} {sib : Sibling} (hsib : sib.expiresAt = t + ttl)
    (hzero : t.toInt + ttl.toInt = 0) : sib.expired now = false := by
  have hsum : t + ttl = 0 := by
    rw [← Int64.toInt_inj, Int64.toInt_add, hzero]
    rfl
  rw [Sibling.expired, hsib, hsum]
  rfl

/-! ## The write -/

/-- The new sibling as `Put` stores it, with its clock pruned. -/
def storedSibling (env : CallEnv) (s : Storage) (sib : Sibling) : Sibling :=
  { sib with vclock := env.pruneClock s.opts 0 sib.vclock }

/-- The limits of `Put` leave the new sibling in the record. -/
def StoresSibling (env : CallEnv) (s : Storage) (key : Bytes) (sib : Sibling) : Prop :=
  ∃ merged, s.merge env key [sib] = .ok merged ∧
    storedSibling env s sib ∈ env.enforceLimits s.opts merged

/-- The sibling is in the record that the write has left, with its expiry; and whatever happens to
the store, as long as the record has the sibling, possibly with fewer clock entries, `GetRaw` returns
it from second `t` until `ttl` seconds have passed and not afterwards. -/
def HonoursTTL (s : Storage) (key : Bytes) (sib : Sibling) (t ttl : Int64) : Prop :=
  (∃ set, s.stored key = .ok set ∧ sib ∈ set) ∧
  ∀ (s' : Storage) (set : SiblingSet) (vclock : VectorClock) (env : CallEnv), s'.closed = false →
    env.getError = none → s'.stored key = .ok set → { sib with vclock := vclock } ∈ set →
    (t.toInt ≤ env.readNow.toInt → env.readNow.toInt < t.toInt + ttl.toInt →
      s'.Returns env key { sib with vclock := vclock }) ∧
    (t.toInt + ttl.toInt ≤ env.readNow.toInt → ¬ s'.Returns env key { sib with vclock := vclock })

/-- The record of a `Put` can be read when the clock of the new sibling fits the format. -/
theorem stored_of_put {env : CallEnv} {s s' : Storage} {key : Bytes} {sib : Sibling}
    (hput : s.put env key [sib] = .ok s') (hstores : StoresSibling env s key sib) :
    (∃ set, s'.stored key = .ok set ∧ storedSibling env s sib ∈ set) ↔
      (env.pruneClock s.opts 0 sib.vclock).Readable := by
  constructor
  · rintro ⟨set, hset, hmem⟩
    exact (Storage.storable_of_stored hset _ hmem).clock
  · intro hclock
    obtain ⟨data, hdata, -, rfl⟩ := Storage.put_eq_ok.1 hput
    obtain ⟨merged, hmerge, henc⟩ := Storage.prepare_eq_ok hdata
    obtain ⟨merged', hmerge', hmem⟩ := hstores
    obtain rfl := Except.ok.inj (hmerge.symm.trans hmerge')
    refine ⟨_, ?_, hmem⟩
    rw [Storage.stored_insert_self]
    refine decodeSiblingSet_encodeSiblingSet henc fun x hx => ?_
    obtain ⟨all, hall, rfl⟩ := Storage.merge_eq_ok hmerge
    rw [reconcile_eq_cons] at hx
    obtain ⟨i, hi, rfl⟩ := List.mem_mapIdx.1 ((enforceLimits_subperm env s.opts _).subset hx)
    cases i with
    | zero => exact hclock
    | succ i =>
      -- the others were read from the record
      have hold := (Versions.dedupBy_sublist Sibling.printed [sib.printed] _).subset
        (List.getElem_mem (Nat.lt_of_succ_lt_succ hi))
      have hstored := mem_of_mem_unexpired (List.mem_filter.1 hold).1
      exact (Storage.storable_of_stored hall _ hstored).clock.prune _ _ _ _

/-- When the time to live of a stored sibling is honoured. -/
theorem honoursTTL_iff {s : Storage} {key : Bytes} {sib : Sibling} {t ttl : Int64}
    (hopen : s.closed = false) (hkey : validateKey key = .ok ()) (hpos : 0 < ttl.toInt)
    (hsib : sib.expiresAt = t + ttl) :
    HonoursTTL s key sib t ttl ↔ t.toInt + ttl.toInt < 2 ^ 63 ∧ t.toInt + ttl.toInt ≠ 0 ∧
      ∃ set, s.stored key = .ok set ∧ sib ∈ set := by
  constructor
  · rintro ⟨⟨set, hset, hmem⟩, hread⟩
    have hreturns : ∀ now, s.Returns (CallEnv.steady now) key sib ↔ sib.expired now = false :=
      fun now => Storage.returns_iff hopen hkey rfl hset hmem
    have hnow := fun now => hread s set sib.vclock (CallEnv.steady now) hopen rfl hset hmem
    refine ⟨?_, ?_, set, hset, hmem⟩
    · -- with a larger sum the sibling is not even returned at the time of the write
      by_contra hover
      have hgone := expired_of_overflow hsib (not_lt.1 hover)
      have hshown := (hnow t).1 le_rfl (by show t.toInt < _; omega)
      rw [(hreturns t).1 hshown] at hgone
      cases hgone
    · -- with the sum zero it is still returned afterwards
      intro hzero
      refine (hnow 0).2 ?_ ((hreturns 0).2 (expired_of_zero hsib hzero))
      rw [hzero]
      rfl
  · rintro ⟨hfits, hzero, hstored⟩
    refine ⟨hstored, ?_⟩
    intro s' set vclock env hopen' hget hset hmem
    have hexpired : ({ sib with vclock := vclock } : Sibling).expired env.readNow = true ↔
        t.toInt + ttl.toInt ≤ env.readNow.toInt := expired_iff_of_fits hsib hpos hfits hzero
    rw [Storage.returns_iff hopen' hkey hget hset hmem]
    constructor
    · intro _ hbefore
      rw [Bool.eq_false_iff, Ne, hexpired]
      omega
    · intro hafter
      rw [hexpired.2 hafter]
      decide

/-- A time to live that the client API accepts is honoured exactly when the second at which the
sibling expires is an `int64` other than zero and its clock, pruned, fits the record format. -/
theorem ttl_honoured_iff {sum64 : Bytes → UInt64} (c : Coordinator sum64) (times : WriteTimes)
    (order : MapOrder (NodeID × UInt64)) (stamp : NodeID → Int64) (key value : Bytes)
    (ctx : Option VClockContext) (ttlSeconds : Int64) (call : WriteCall) (env : CallEnv)
    (s s' : Storage) (hpos : 0 < ttlSeconds)
    (hcall : ClientAPI.put order stamp key value ctx ttlSeconds = .ok call)
    (hput : s.put env key [c.newSibling times call] = .ok s')
    (hstores : StoresSibling env s key (c.newSibling times call)) :
    HonoursTTL s' key (storedSibling env s (c.newSibling times call)) times.expiry ttlSeconds ↔
      times.expiry.toInt + ttlSeconds.toInt < 2 ^ 63 ∧
      times.expiry.toInt + ttlSeconds.toInt ≠ 0 ∧
      (env.pruneClock s.opts 0 (c.newSibling times call).vclock).Readable := by
  have hpos' : 0 < ttlSeconds.toInt := by simpa using Int64.lt_iff_toInt_lt.1 hpos
  obtain ⟨⟨hopen, hkey, -⟩, -, existing, data, -, -, hs'⟩ := Storage.put_singleton_eq_ok.1 hput
  have hopen' : s'.closed = false := by
    rw [hs']
    exact hopen
  have hexpiry : (storedSibling env s (c.newSibling times call)).expiresAt =
      times.expiry + ttlSeconds := by
    rw [ClientAPI.put_eq_ok hcall, if_pos hpos]
    simp only [storedSibling, Coordinator.newSibling, if_pos hpos]
  rw [honoursTTL_iff hopen' hkey hpos' hexpiry, stored_of_put hput hstores]

/-- The call of a client that puts the value `1` for the given number of seconds. -/
def putFor (ttlSeconds : Int64) : WriteCall :=
  .put [107] [1] VectorClock.new (if ttlSeconds > 0 then ttlSeconds else 0)

/-- The store of `n1` after that write at second 100. -/
def storeAfterPutFor (ttlSeconds : Int64) : Storage :=
  ((Storage.new defaultStorageOptions).put (CallEnv.steady 100) [107]
    [writerN1.newSibling ⟨100, 100, 100⟩ (putFor ttlSeconds)]).toOption.getD
    (Storage.new defaultStorageOptions)

theorem minute_is_honoured : ∃ s', (Storage.new defaultStorageOptions).put (CallEnv.steady 100) [107]
      [writerN1.newSibling ⟨100, 100, 100⟩ (putFor 60)] = .ok s' ∧
    HonoursTTL s' [107] (storedSibling (CallEnv.steady 100) (Storage.new defaultStorageOptions)
      (writerN1.newSibling ⟨100, 100, 100⟩ (putFor 60))) 100 60 := by
  obtain ⟨s', hput⟩ : ∃ s', (Storage.new defaultStorageOptions).put (CallEnv.steady 100) [107]
      [writerN1.newSibling ⟨100, 100, 100⟩ (putFor 60)] = .ok s' :=
    isOk_iff.1 (by decide +kernel)
  exact ⟨s', hput, (ttl_honoured_iff writerN1 ⟨100, 100, 100⟩ (MapOrder.inOrder _) (fun _ => 100)
    [107] [1] none 60 (putFor 60) (CallEnv.steady 100) (Storage.new defaultStorageOptions) s'
    (by decide) rfl hput ⟨_, rfl, by decide +kernel⟩).2 (by decide +kernel)⟩

/-- A sibling that is written for the largest number of seconds has expired at once. -/
theorem longest_ttl_expires_at_once :
    (storeAfterPutFor 9223372036854775807).stored [107] =
      .ok [writerN1.newSibling ⟨100, 100, 100⟩ (putFor 9223372036854775807)] ∧
    (storeAfterPutFor 9223372036854775807).getRaw (CallEnv.steady 100) [107] =
      .error .keyNotFound := by
  decide +kernel

end GoQuorum
