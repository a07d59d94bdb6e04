import GoQuorum.Server.Transport

/-!
# Local and remote writes

A coordinator writes to its own store with `Storage.Put` and to a peer's with `RemotePut`, which ends
in the same `Put` on a sibling rebuilt from what was sent.  `ExpiresAt` is not sent, the entries of
the clock are stamped anew, and what depends on the stamps (which entries are pruned, which siblings
count as duplicates) may come out differently.  `remote_write_agrees` says when the peer ends with
the record it would have written for itself; a sibling with a time to live never does
(`ttl_lost_on_peer`).
-/

namespace GoQuorum

open Lib Lib.Versions

/-- A sibling up to the times of its clock entries. -/
structure SiblingContent where
  value : Bytes
  counters : SortedMap NodeID UInt64
  timestamp : Int64
  tombstone : Bool
  expiresAt : Int64
  deriving DecidableEq

def Sibling.content (sib : Sibling) : SiblingContent :=
  ⟨sib.value, sib.vclock.counters, sib.timestamp, sib.tombstone, sib.expiresAt⟩

/-- The siblings stored under a key up to the times of clock entries, if the record can be read. -/
def Storage.contents (s : Storage) (key : Bytes) : Option (List SiblingContent) :=
  (s.stored key).toOption.map (List.map Sibling.content)

/-- The store `s'` holds for the key what `Put` of the sibling would have left in `s`. -/
def WritesAgree (env : CallEnv) (s s' : Storage) (key : Bytes) (sib : Sibling) : Prop :=
  ∃ t, s.put env key [sib] = .ok t ∧ s'.contents key = t.contents key

/-- `Prune` leaves the clock with the same counters whether it is stamped by the sender or by the
receiver. -/
def PrunesAlike (env : CallEnv) (opts : StorageOptions) (stamp : NodeID → Int64) (sib : Sibling) :
    Prop :=
  (env.pruneClock opts 0 (sib.received stamp).vclock).counters =
    (env.pruneClock opts 0 sib.vclock).counters

/-- A stored sibling is superseded by both of two siblings or by neither, and is a duplicate of both
or of neither. -/
def SameFate (x y e : Sibling) : Prop :=
  x.vclock.happensAfter e.vclock = y.vclock.happensAfter e.vclock ∧
    (y.vclock.happensAfter e.vclock = false → (e.printed = x.printed ↔ e.printed = y.printed))

/-- Neither the time to live nor the stamps of the sibling matter to the record. -/
def SameOnWire (env : CallEnv) (stamp : NodeID → Int64) (s : Storage) (key : Bytes)
    (sib : Sibling) : Prop :=
  sib.expiresAt = 0 ∧ PrunesAlike env s.opts stamp sib ∧
    ∀ set, s.stored key = .ok set →
      ∀ e ∈ unexpired env.readNow set, SameFate (sib.received stamp) sib e

/-! ## Records with the same content -/

theorem exists_mem_of_map_content {l r : SiblingSet}
    (h : l.map Sibling.content = r.map Sibling.content) {a : Sibling} (ha : a ∈ l) :
    ∃ b ∈ r, b.content = a.content := by
  have hmem : a.content ∈ r.map Sibling.content := h ▸ List.mem_map_of_mem ha
  obtain ⟨b, hb, e⟩ := List.mem_map.1 hmem
  exact ⟨b, hb, e⟩

theorem content_eq_iff {a b : Sibling} : a.content = b.content ↔
    a.value = b.value ∧ a.vclock.counters = b.vclock.counters ∧ a.timestamp = b.timestamp ∧
      a.tombstone = b.tombstone ∧ a.expiresAt = b.expiresAt := by
  simp only [Sibling.content, SiblingContent.mk.injEq]

/-- Siblings with the same content are written and read alike. -/
theorem contents_of_encode {l r : SiblingSet} {data : Bytes}
    (h : l.map Sibling.content = r.map Sibling.content) (hr : encodeSiblingSet r = .ok data) :
    ∃ data', encodeSiblingSet l = .ok data' ∧
      (decodeSiblingSet data).toOption.map (List.map Sibling.content) =
        (decodeSiblingSet data').toOption.map (List.map Sibling.content) := by
  have hlen : l.length = r.length := by simpa using congrArg List.length h
  obtain ⟨hne, hmax, hall⟩ := encodeSiblingSet_ok_iff.1 ⟨data, hr⟩
  have hl : ∃ data', encodeSiblingSet l = .ok data' := by
    refine encodeSiblingSet_ok_iff.2 ⟨fun hnil => hne ?_, hlen ▸ hmax, fun a ha => ?_⟩
    · rw [← List.length_eq_zero_iff, ← hlen, hnil, List.length_nil]
    · obtain ⟨b, hb, e⟩ := exists_mem_of_map_content h ha
      obtain ⟨hval, hcount, -⟩ := content_eq_iff.1 e
      obtain ⟨hv, hm⟩ := hall b hb
      rw [VectorClock.marshalBinary_ok_iff, VectorClock.keys_of_counters hcount,
        ← VectorClock.marshalBinary_ok_iff] at hm
      exact ⟨hval ▸ hv, hm⟩
  obtain ⟨data', hdata'⟩ := hl
  refine ⟨data', hdata', ?_⟩
  have readable : ∀ {l r : SiblingSet}, l.map Sibling.content = r.map Sibling.content →
      (∀ sib ∈ r, sib.vclock.Readable) → ∀ sib ∈ l, sib.vclock.Readable := by
    intro l r h hread a ha
    obtain ⟨b, hb, e⟩ := exists_mem_of_map_content h ha
    exact (hread b hb).of_counters (content_eq_iff.1 e).2.1
  by_cases hread : ∀ sib ∈ r, sib.vclock.Readable
  · rw [decodeSiblingSet_encodeSiblingSet hr hread,
      decodeSiblingSet_encodeSiblingSet hdata' (readable h hread)]
    exact congrArg some h.symm
  · obtain ⟨e, he⟩ := decodeSiblingSet_of_unreadable hr hread
    obtain ⟨e', he'⟩ := decodeSiblingSet_of_unreadable hdata' fun hl => hread (readable h.symm hl)
    rw [he, he']
    rfl

/-! ## The sibling limit -/

theorem map_content_exchangePass {x y : Sibling} {l m : List Sibling} (hx : x.content = y.content)
    (h : l.map Sibling.content = m.map Sibling.content) :
    (exchangePass x l).1.content = (exchangePass y m).1.content ∧
      (exchangePass x l).2.map Sibling.content = (exchangePass y m).2.map Sibling.content := by
  induction l generalizing x y m with
  | nil =>
    obtain rfl := List.map_eq_nil_iff.1 h.symm
    exact ⟨hx, rfl⟩
  | cons a l ih =>
    cases m with
    | nil => cases h
    | cons b m =>
      obtain ⟨hab, hlm⟩ := List.cons.inj h
      have htime : a.timestamp > x.timestamp ↔ b.timestamp > y.timestamp := by
        rw [(content_eq_iff.1 hx).2.2.1, (content_eq_iff.1 hab).2.2.1]
      rw [exchangePass, exchangePass]
      by_cases hgt : a.timestamp > x.timestamp
      · rw [if_pos hgt, if_pos (htime.1 hgt)]
        obtain ⟨h₁, h₂⟩ := ih hab hlm
        exact ⟨h₁, congrArg₂ List.cons hx h₂⟩
      · rw [if_neg hgt, if_neg fun hgt' => hgt (htime.2 hgt')]
        obtain ⟨h₁, h₂⟩ := ih hx hlm
        exact ⟨h₁, congrArg₂ List.cons hab h₂⟩

theorem map_content_exchangeSort {n : ℕ} {l m : List Sibling}
    (h : l.map Sibling.content = m.map Sibling.content) :
    (exchangeSort n l).map Sibling.content = (exchangeSort n m).map Sibling.content := by
  induction n generalizing l m with
  | zero => rwa [exchangeSort.eq_def, exchangeSort.eq_def]
  | succ n ih =>
    cases l with
    | nil =>
      obtain rfl := List.map_eq_nil_iff.1 h.symm
      rfl
    | cons a l =>
      cases m with
      | nil => cases h
      | cons b m =>
        obtain ⟨hab, hlm⟩ := List.cons.inj h
        obtain ⟨h₁, h₂⟩ := map_content_exchangePass hab hlm
        exact congrArg₂ List.cons h₁ (ih h₂)

/-- The limits of `Put` see only the content of the pruned siblings. -/
theorem map_content_enforceLimits {env : CallEnv} {opts : StorageOptions} {l m : SiblingSet}
    (h : (env.pruneClocks opts l).map Sibling.content =
      (env.pruneClocks opts m).map Sibling.content) :
    (env.enforceLimits opts l).map Sibling.content =
      (env.enforceLimits opts m).map Sibling.content := by
  have hlen : (env.pruneClocks opts l).length = (env.pruneClocks opts m).length := by
    simpa using congrArg List.length h
  unfold CallEnv.enforceLimits pruneSiblings
  dsimp only
  rw [hlen]
  split_ifs
  · exact h
  · rw [List.map_take, List.map_take, map_content_exchangeSort h]
  · exact h

/-! ## One write -/

/-- A stored sibling keeps its place when it shares the fate of both. -/
theorem tail_reconcile_eq {existing : SiblingSet} {x y : Sibling}
    (h : ∀ e ∈ existing, SameFate x y e) :
    (reconcileSiblings existing [x]).tail = (reconcileSiblings existing [y]).tail := by
  have hfilter : (existing.filter fun e => ¬ x.vclock.happensAfter e.vclock) =
      existing.filter fun e => ¬ y.vclock.happensAfter e.vclock :=
    List.filter_congr fun e he => by rw [(h e he).1]
  rw [reconcile_eq_cons, reconcile_eq_cons, List.tail_cons, List.tail_cons, hfilter]
  refine dedupBy_congr_seen _ fun e he => ?_
  obtain ⟨hmem, hkept⟩ := List.mem_filter.1 he
  rw [List.mem_singleton, List.mem_singleton]
  exact (h e hmem).2 (by simpa using hkept)

/-- A write to a peer succeeds when its `Put` of the received sibling does. -/
theorem remotePut_singleton_eq_ok {key : Bytes} {net : ℕ → Request} {s s' : Storage}
    {sib : Sibling} (h : remotePut key net s [sib] = (.ok (), s')) :
    s.put (net 0).env key [sib.received (net 0).stamp] = .ok s' := by
  obtain ⟨-, t, hput, hrest⟩ := remotePut_cons_eq_ok (congrArg Prod.fst h)
  rw [hrest] at h
  rw [hput, (Prod.mk.inj h).2]

/-- A pruned record begins with the new sibling. -/
theorem map_content_pruneClocks (env : CallEnv) (opts : StorageOptions) (existing : SiblingSet)
    (x : Sibling) : (env.pruneClocks opts (reconcileSiblings existing [x])).map Sibling.content =
      ({ x with vclock := env.pruneClock opts 0 x.vclock } : Sibling).content ::
        ((reconcileSiblings existing [x]).tail.mapIdx fun i sib =>
          ({ sib with vclock := env.pruneClock opts (i + 1) sib.vclock } : Sibling)).map
            Sibling.content := by
  rw [reconcile_eq_cons, CallEnv.pruneClocks, List.mapIdx_cons, List.map_cons, List.tail_cons]

theorem length_reconcile_le (existing : SiblingSet) (x : Sibling) :
    (reconcileSiblings existing [x]).length ≤ existing.length + 1 := by
  rw [reconcile_eq_cons, List.length_cons]
  exact Nat.succ_le_succ ((dedupBy_sublist _ _ _).length_le.trans (List.length_filter_le _ _))

theorem content_pruned_iff {env : CallEnv} {opts : StorageOptions} {stamp : NodeID → Int64}
    {sib : Sibling} :
    ({ sib.received stamp with
        vclock := env.pruneClock opts 0 (sib.received stamp).vclock } : Sibling).content =
      ({ sib with vclock := env.pruneClock opts 0 sib.vclock } : Sibling).content ↔
    sib.expiresAt = 0 ∧ PrunesAlike env opts stamp sib := by
  rw [content_eq_iff]
  constructor
  · rintro ⟨-, hcount, -, -, hexp⟩
    exact ⟨hexp.symm, hcount⟩
  · rintro ⟨hexp, hcount⟩
    exact ⟨rfl, hcount, rfl, rfl, hexp.symm⟩

/-- A peer that has taken a write holds the record it would have written for itself if the sibling
has no time to live and its stamps make no difference to the pruning of its clock nor to the fate of
the stored siblings.  Below the sibling limit, and if the record can be read, the first two of these
are also necessary. -/
theorem remote_write_agrees (key : Bytes) (net : ℕ → Request) (s s' : Storage) (sib : Sibling)
    (htaken : remotePut key net s [sib] = (.ok (), s')) :
    (SameOnWire (net 0).env (net 0).stamp s key sib → WritesAgree (net 0).env s s' key sib) ∧
    ∀ old right, s.stored key = .ok old → s'.stored key = .ok right →
      ((unexpired (net 0).env.readNow old).length : ℤ) < s.opts.maxSiblings →
      WritesAgree (net 0).env s s' key sib →
      sib.expiresAt = 0 ∧ PrunesAlike (net 0).env s.opts (net 0).stamp sib := by
  obtain ⟨⟨hc, hk, hv⟩, hset, existing, data, hex, henc, rfl⟩ :=
    Storage.put_singleton_eq_ok.1 (remotePut_singleton_eq_ok htaken)
  obtain ⟨all, hall, hexisting⟩ := Storage.readExisting_eq_ok hex
  constructor
  · rintro ⟨hexp, hprune, hfate⟩
    have htail := tail_reconcile_eq (hexisting ▸ hfate all hall)
    have hcontent : ((net 0).env.pruneClocks s.opts (reconcileSiblings existing [sib])).map
          Sibling.content =
        ((net 0).env.pruneClocks s.opts
          (reconcileSiblings existing [sib.received (net 0).stamp])).map Sibling.content := by
      rw [map_content_pruneClocks, map_content_pruneClocks, htail,
        content_pruned_iff.2 ⟨hexp, hprune⟩]
    obtain ⟨data', hdata', hread⟩ :=
      contents_of_encode (map_content_enforceLimits hcontent) henc
    refine ⟨_, Storage.put_singleton_eq_ok.2
      ⟨⟨hc, hk, hv⟩, hset, existing, data', hex, hdata', rfl⟩, ?_⟩
    rw [Storage.contents, Storage.contents, Storage.stored_insert_self, Storage.stored_insert_self,
      hread]
  · rintro old right hold hright hlen ⟨t, hput, hagree⟩
    obtain ⟨-, -, existing', data', hex', henc', rfl⟩ := Storage.put_singleton_eq_ok.1 hput
    obtain rfl : existing = existing' := Except.ok.inj (hex.symm.trans hex')
    obtain rfl : all = old := Except.ok.inj (hall.symm.trans hold)
    -- below the limit both records are the pruned ones, and both begin with the new sibling
    have hlimit : ∀ x : Sibling, (net 0).env.enforceLimits s.opts (reconcileSiblings existing [x]) =
        (net 0).env.pruneClocks s.opts (reconcileSiblings existing [x]) := by
      intro x
      have := length_reconcile_le existing x
      rw [← hexisting] at hlen
      exact enforceLimits_of_length_le (by omega)
    rw [Storage.contents, Storage.contents, hright, Storage.stored_insert_self] at hagree
    rw [Storage.stored_insert_self] at hright
    obtain ⟨left, hleft, hsame⟩ := Option.map_eq_some_iff.1 hagree.symm
    rw [eq_of_decodeSiblingSet henc hright, eq_of_decodeSiblingSet henc'
      (toOption_eq_some.1 hleft), hlimit, hlimit, map_content_pruneClocks,
      map_content_pruneClocks] at hsame
    exact content_pruned_iff.1 (List.cons.inj hsame).1.symm

/-- A network that delivers every request at time 100. -/
def promptNet : ℕ → Request := fun _ => ⟨.answered, CallEnv.steady 100, fun _ => 100⟩

/-- What `n1` writes over its own deletion of the key. -/
def rewrittenByN1 : Sibling := ⟨[2], VectorClock.new.set 100 [110, 49] 2, 100, false, 0⟩

theorem remote_write_agrees_over_tombstone : ∃ s',
    remotePut [107] promptNet storeAfterDelete [rewrittenByN1] = (.ok (), s') ∧
      WritesAgree (CallEnv.steady 100) storeAfterDelete s' [107] rewrittenByN1 := by
  obtain ⟨s', htaken⟩ : ∃ s', remotePut [107] promptNet storeAfterDelete [rewrittenByN1] =
      (.ok (), s') := ⟨_, Prod.fst_eq_iff.1 (by decide +kernel)⟩
  have hstored : storeAfterDelete.stored [107] =
      .ok [Storage.tombstoneOf 100 (VectorClock.new.set 100 [110, 49] 1)] := by decide +kernel
  have hprune : PrunesAlike (CallEnv.steady 100) storeAfterDelete.opts (fun _ => 100)
      rewrittenByN1 := by
    unfold PrunesAlike
    decide +kernel
  refine ⟨s', htaken, (remote_write_agrees [107] promptNet _ _ _ htaken).1
    ⟨rfl, hprune, fun set hset e he => ?_⟩⟩
  obtain rfl := Except.ok.inj (hstored.symm.trans hset)
  obtain rfl := List.mem_singleton.1 (mem_of_mem_unexpired he)
  exact ⟨by decide +kernel, fun hlive => absurd hlive (by decide +kernel)⟩

/-- What a `Put` with a time to live of 100 seconds writes at time 100. -/
def expiringVersion : Sibling := ⟨[1], VectorClock.new.set 100 [110, 49] 1, 100, false, 200⟩

/-- A peer stores the version without its expiry, the coordinator with it. -/
theorem ttl_lost_on_peer : ∃ s',
    remotePut [107] promptNet (Storage.new defaultStorageOptions) [expiringVersion] = (.ok (), s') ∧
      ¬ WritesAgree (CallEnv.steady 100) (Storage.new defaultStorageOptions) s' [107]
        expiringVersion := by
  have htaken : remotePut [107] promptNet (Storage.new defaultStorageOptions) [expiringVersion] =
      (.ok (), _) := Prod.fst_eq_iff.1 (by decide +kernel)
  refine ⟨_, htaken, ?_⟩
  rintro ⟨t, hput, hsame⟩
  have hlocal : ((Storage.new defaultStorageOptions).put (CallEnv.steady 100) [107]
      [expiringVersion]).toOption.map (fun t => t.contents [107]) =
        some (some [expiringVersion.content]) := by decide +kernel
  have hremote : (remotePut [107] promptNet (Storage.new defaultStorageOptions)
      [expiringVersion]).2.contents [107] =
        some [({ expiringVersion with expiresAt := 0 } : Sibling).content] := by decide +kernel
  rw [hput] at hlocal
  have hcontents := hremote.symm.trans (hsame.trans (Option.some.inj hlocal))
  exact absurd hcontents (by decide +kernel)

end GoQuorum
