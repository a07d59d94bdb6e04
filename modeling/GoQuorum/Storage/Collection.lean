import GoQuorum.Storage.Put

/-!
# What a collector pass leaves

`runTombstoneGC` decodes every record, drops the tombstones that are older than the time to live, and
writes the rest back.  It ignores the error of the encoder, which does not matter: whatever decodes
can be encoded again, also a record that no encoder wrote.  A pass therefore turns each record into
its remaining siblings (`collected_of_decode`), and since `Get` hides tombstones, nobody who reads
through it notices (`collection_is_invisible`).
-/

namespace GoQuorum

open Lib

/-- What a pass leaves of a record. -/
def collected (now ttl : Int64) (data : Bytes) : Option Bytes :=
  match gcAction now ttl data with
  | .keep => some data
  | .delete => none
  | .rewrite data' => some data'

/-- The siblings that a pass keeps: those that are not tombstones older than the time to live, in
`int64` arithmetic. -/
def keptByGC (now ttl : Int64) (set : SiblingSet) : SiblingSet :=
  set.filter fun sib => ¬ (sib.tombstone = true ∧ now - sib.timestamp > ttl)

theorem collected_of_undecodable {now ttl : Int64} {data : Bytes} {err : DecodeError}
    (h : decodeSiblingSet data = .error err) : collected now ttl data = some data := by
  unfold collected gcAction
  rw [h]

/-- A record that decodes becomes the encoding of the siblings that are kept. -/
theorem collected_of_decode {now ttl : Int64} {data : Bytes} {set : SiblingSet}
    (h : decodeSiblingSet data = .ok set) :
    if keptByGC now ttl set = [] then collected now ttl data = none
    else ∃ data', collected now ttl data = some data' ∧
      decodeSiblingSet data' = .ok (keptByGC now ttl set) := by
  have hkept : (set.filter fun sib => ¬ sib.collectable now ttl) = keptByGC now ttl set := by
    simp [Sibling.collectable, keptByGC]
  obtain ⟨hne, -⟩ := decodeSiblingSet_eq_ok h
  cases ha : gcAction now ttl data with
  | keep =>
    have hall : keptByGC now ttl set = set := by
      unfold gcAction at ha
      simp only [h, hkept] at ha
      split_ifs at ha with hlen
      exact List.filter_eq_self.2 (List.length_filter_eq_length_iff.1 hlen)
    rw [hall, if_neg hne]
    exact ⟨data, by rw [collected, ha], h⟩
  | delete =>
    unfold gcAction at ha
    simp only [h, hkept] at ha
    split_ifs at ha with hlen hnil
    rw [if_pos hnil, collected, gcAction]
    simp only [h, hkept, if_neg hlen, if_pos hnil]
  | rewrite data' =>
    obtain ⟨set', hset', hdec⟩ := gcAction_eq_rewrite ha
    obtain rfl := Except.ok.inj (h.symm.trans hset')
    rw [hkept] at hdec
    rw [if_neg (decodeSiblingSet_eq_ok hdec).1]
    exact ⟨data', by rw [collected, ha], hdec⟩

namespace Storage

theorem get?_applyGC_self {s : Storage} {key data : Bytes} (h : s.db.get? key = some data)
    (now ttl : Int64) : (s.applyGC key (gcAction now ttl data)).db.get? key =
      collected now ttl data := by
  unfold collected
  cases gcAction now ttl data with
  | keep => exact h
  | delete => exact SortedMap.get?_erase_self _ _
  | rewrite data' => exact SortedMap.get?_insert_self _ _ _

theorem get?_applyGC_of_ne (s : Storage) (a : GCAction) {key key' : Bytes} (h : key ≠ key') :
    (s.applyGC key a).db.get? key' = s.db.get? key' := by
  cases a with
  | keep => rfl
  | delete => exact SortedMap.get?_erase_of_ne _ h.symm
  | rewrite data => exact SortedMap.get?_insert_of_ne _ h data

/-- The pass over the rest of its snapshot: each record there becomes what the pass leaves of it, and
the others stay. -/
theorem get?_foldl_applyGC (now ttl : Int64) {l : List (Bytes × Bytes)} {s : Storage}
    (hkeys : (l.map Prod.fst).Nodup) (hrecords : ∀ p ∈ l, s.db.get? p.1 = some p.2) (key : Bytes) :
    (l.foldl (fun s' p => s'.applyGC p.1 (gcAction now ttl p.2)) s).db.get? key =
      if key ∈ l.map Prod.fst then (s.db.get? key).bind (collected now ttl)
      else s.db.get? key := by
  induction l generalizing s with
  | nil => rfl
  | cons p l ih =>
    rw [List.map_cons, List.nodup_cons] at hkeys
    rw [List.forall_mem_cons] at hrecords
    have hother : ∀ q ∈ l, (s.applyGC p.1 (gcAction now ttl p.2)).db.get? q.1 = some q.2 := by
      intro q hq
      have hne : p.1 ≠ q.1 := fun e => hkeys.1 (e ▸ List.mem_map_of_mem hq)
      rw [get?_applyGC_of_ne _ _ hne, hrecords.2 q hq]
    rw [List.foldl_cons, ih hkeys.2 hother]
    by_cases hkey : p.1 = key
    · subst hkey
      rw [if_neg hkeys.1, List.map_cons, if_pos List.mem_cons_self, get?_applyGC_self hrecords.1,
        hrecords.1]
      rfl
    · rw [get?_applyGC_of_ne _ _ hkey]
      simp only [List.map_cons, List.mem_cons, Ne.symm hkey, false_or]

theorem get?_runTombstoneGC (now : Int64) (s : Storage) (key : Bytes) :
    (s.runTombstoneGC now).db.get? key =
      (s.db.get? key).bind (collected now s.opts.tombstoneTTL.wholeSeconds) := by
  rw [runTombstoneGC, get?_foldl_applyGC now _ (SortedMap.nodup_keys s.db)
    fun p hp => SortedMap.mem_toList_iff.1 hp]
  split_ifs with hkey
  · rfl
  · have hnone : s.db.get? key = none :=
      Option.eq_none_iff_forall_ne_some.2 fun data hd => hkey (SortedMap.mem_keys_iff.2 ⟨data, hd⟩)
    rw [hnone]
    rfl

theorem closed_runTombstoneGC (now : Int64) (s : Storage) :
    (s.runTombstoneGC now).closed = s.closed := by
  have hround : ∀ (s : Storage) key a, (s.applyGC key a).closed = s.closed := by
    intro s key a
    cases a <;> rfl
  have hloop : ∀ (l : List (Bytes × Bytes)) (t : Storage),
      (l.foldl (fun s' p => s'.applyGC p.1
        (gcAction now s.opts.tombstoneTTL.wholeSeconds p.2)) t).closed = t.closed := by
    intro l
    induction l with
    | nil => exact fun t => rfl
    | cons p l ih => exact fun t => (ih _).trans (hround _ _ _)
  exact hloop _ s

end Storage

/-- Collected siblings are tombstones, so hiding tombstones hides the difference. -/
theorem filterTombstones_keptByGC (now ttl : Int64) (set : SiblingSet) :
    filterTombstones (keptByGC now ttl set) = filterTombstones set := by
  unfold filterTombstones keptByGC
  rw [List.filter_filter]
  refine List.filter_congr fun sib _ => ?_
  cases sib.tombstone <;> simp

/-- `Get` depends on the record only through its siblings that are not tombstones. -/
theorem Storage.get_congr {s t : Storage} {key : Bytes} (hclosed : t.closed = s.closed)
    (h : (t.db.get? key = s.db.get? key) ∨ ∃ data set, s.db.get? key = some data ∧
      decodeSiblingSet data = .ok set ∧
      ((t.db.get? key = none ∧ filterTombstones set = []) ∨
        ∃ data' set', t.db.get? key = some data' ∧ decodeSiblingSet data' = .ok set' ∧
          filterTombstones set' = filterTombstones set)) (env : CallEnv) :
    t.get env key = s.get env key := by
  unfold Storage.get Storage.readRecord
  rw [hclosed]
  cases s.closed with
  | true => rfl
  | false =>
    simp only [Bool.false_eq_true, if_false]
    cases (validateKey key).mapError StorageError.invalidKey with
    | error e => rfl
    | ok _ =>
      cases env.getError with
      | some e => rfl
      | none =>
        rcases h with h | ⟨data, set, hs, hset, ⟨ht, hnil⟩ | ⟨data', set', ht, hset', hsame⟩⟩
        · rw [h]
        · simp [hs, ht, hset, Storage.foundOr, hnil]
        · simp [hs, ht, hset, hset', Storage.foundOr, hsame]

/-- A pass of the collector with nothing else running leaves `Get` as it is for every key, leaves
records that do not decode as they are, and turns every other record into its siblings that are not
tombstones older than the time to live. -/
theorem collection_is_invisible (now : Int64) (s : Storage) :
    (∀ env key, (s.runTombstoneGC now).get env key = s.get env key) ∧
    (∀ key, s.db.get? key = none → (s.runTombstoneGC now).db.get? key = none) ∧
    (∀ key data err, s.db.get? key = some data → decodeSiblingSet data = .error err →
      (s.runTombstoneGC now).db.get? key = some data) ∧
    ∀ key data set, s.db.get? key = some data → decodeSiblingSet data = .ok set →
      if keptByGC now s.opts.tombstoneTTL.wholeSeconds set = [] then
        (s.runTombstoneGC now).db.get? key = none
      else ∃ data', (s.runTombstoneGC now).db.get? key = some data' ∧
        decodeSiblingSet data' = .ok (keptByGC now s.opts.tombstoneTTL.wholeSeconds set) := by
  have hundecodable : ∀ key data err, s.db.get? key = some data →
      decodeSiblingSet data = .error err → (s.runTombstoneGC now).db.get? key = some data := by
    intro key data err hdata herr
    rw [Storage.get?_runTombstoneGC, hdata]
    exact collected_of_undecodable herr
  have hdecodable : ∀ key data set, s.db.get? key = some data → decodeSiblingSet data = .ok set →
      if keptByGC now s.opts.tombstoneTTL.wholeSeconds set = [] then
        (s.runTombstoneGC now).db.get? key = none
      else ∃ data', (s.runTombstoneGC now).db.get? key = some data' ∧
        decodeSiblingSet data' = .ok (keptByGC now s.opts.tombstoneTTL.wholeSeconds set) := by
    intro key data set hdata hset
    rw [Storage.get?_runTombstoneGC, hdata]
    exact collected_of_decode hset
  have habsent : ∀ key, s.db.get? key = none → (s.runTombstoneGC now).db.get? key = none := by
    intro key hnone
    rw [Storage.get?_runTombstoneGC, hnone]
    rfl
  refine ⟨fun env key => ?_, habsent, hundecodable, hdecodable⟩
  refine Storage.get_congr (Storage.closed_runTombstoneGC now s) ?_ env
  cases hdata : s.db.get? key with
  | none => exact Or.inl (habsent key hdata)
  | some data =>
    cases hset : decodeSiblingSet data with
    | error err => exact Or.inl (hundecodable key data err hdata hset)
    | ok set =>
      refine Or.inr ⟨data, set, rfl, hset, ?_⟩
      have hsame := filterTombstones_keptByGC now s.opts.tombstoneTTL.wholeSeconds set
      have hleft := hdecodable key data set hdata hset
      split_ifs at hleft with hnil
      · refine Or.inl ⟨hleft, ?_⟩
        rw [← hsame, hnil]
        rfl
      · obtain ⟨data', hdata', hdec⟩ := hleft
        exact Or.inr ⟨data', _, hdata', hdec, hsame⟩

end GoQuorum
