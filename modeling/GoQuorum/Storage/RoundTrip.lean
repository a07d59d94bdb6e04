import GoQuorum.Storage.Encoding

/-!
# The exact domain of the record format

`decodeSiblingSet` inverts `encodeSiblingSet` on the sets whose clocks the reader accepts
(`VectorClock.Readable`), and fails on every other set the writer accepted: never does a record
decode to another sibling set (`decodeSiblingSet_encodeSiblingSet`, `decodeSiblingSet_of_unreadable`).

The one place where this is not a matter of following the fields is the length of a clock, which is
written modulo 2³²: a clock of 2³² bytes or more can pass the length check, and is then rejected
because too few of its entries fit in what is read.
-/

namespace GoQuorum

open Lib VectorClock

/-- The clocks that can be read back from a record. -/
structure VectorClock.Readable (vc : VectorClock) : Prop where
  ids : ∀ p ∈ vc.entries.toList, ReadableID p
  short : vc.marshalSize ≤ maxVClockLen

theorem VectorClock.readable_iff {vc : VectorClock} :
    vc.Readable ↔ (∀ p ∈ vc.entries.toList, ReadableID p) ∧ vc.marshalSize ≤ maxVClockLen :=
  ⟨fun h => ⟨h.ids, h.short⟩, fun h => ⟨h.1, h.2⟩⟩

instance : DecidablePred VectorClock.Readable := fun _ =>
  decidable_of_iff _ VectorClock.readable_iff.symm

theorem VectorClock.Readable.marshalBinary_ok {vc : VectorClock} (h : vc.Readable) :
    ∃ bs, vc.marshalBinary = .ok bs := by
  have hlen := length_le_sum_entrySize vc.entries.toList
  have hshort := h.short
  unfold marshalSize maxVClockLen at hshort
  obtain ⟨cs, hcs⟩ := marshalEntries_ok fun p hp => (h.ids p hp).2.trans (by norm_num)
  refine ⟨_, marshalBinary_eq_ok.2 ⟨?_, cs, hcs, rfl⟩⟩
  unfold VectorClock.size SortedMap.size
  omega

/-- A pruned clock stays readable. -/
theorem VectorClock.Readable.prune {vc : VectorClock} (h : vc.Readable) (now : Int64)
    (threshold : Duration) (max : ℤ) (newest : NewestFirst) :
    (vc.prune now threshold max newest).1.Readable :=
  ⟨fun p hp => h.ids p (mem_entries_prune hp),
    (marshalSize_prune_le now threshold max newest vc).trans h.short⟩

/-- Whether a clock can be read back depends only on its node ids. -/
theorem VectorClock.Readable.of_counters {a b : VectorClock} (h : a.Readable)
    (e : a.counters = b.counters) : b.Readable := by
  have hkeys := keys_of_counters e
  refine ⟨fun p hp => ?_, ?_⟩
  · have hmem : p.1 ∈ a.entries.keys := by
      rw [hkeys]
      exact List.mem_map_of_mem hp
    obtain ⟨q, hq, hqp⟩ := List.mem_map.1 hmem
    have hid := h.ids q hq
    unfold ReadableID at hid ⊢
    rwa [hqp] at hid
  · rw [marshalSize_eq_keys, ← hkeys, ← marshalSize_eq_keys]
    exact h.short

/-! ## One sibling -/

theorem encodeSibling_eq_ok {i : ℕ} {sib : Sibling} {b : Bytes} :
    encodeSibling i sib = .ok b ↔ sib.value.length ≤ maxValueSize ∧
      ∃ cs, sib.vclock.marshalBinary = .ok cs ∧
        b = leBytes 4 cs.length ++ cs ++ siblingTail sib := by
  unfold encodeSibling
  split_ifs with h
  · exact iff_of_false nofun fun hc => absurd hc.1 (by omega)
  · simp only [bind_eq_ok, mapError_eq_ok, pure, Except.pure, Except.ok.injEq]
    constructor
    · rintro ⟨cs, hcs, rfl⟩
      exact ⟨by omega, cs, hcs, rfl⟩
    · rintro ⟨-, cs, hcs, rfl⟩
      exact ⟨cs, hcs, rfl⟩

/-- The clock of a sibling is read back when the reader accepts it. -/
theorem decodeVClock_of_readable {vc : VectorClock} {cs : Bytes} (hvc : vc.Readable)
    (h : vc.marshalBinary = .ok cs) (i : ℕ) (rest : Bytes) :
    decodeVClock i (leBytes 4 cs.length ++ (cs ++ rest)) = .ok (vc, rest) := by
  have hlen := length_marshalBinary h
  have hshort := hvc.short
  have hpos : 2 ≤ vc.marshalSize := Nat.le_add_right 2 _
  have hok : ¬ (cs.length = 0 ∨ cs.length > maxVClockLen) := by omega
  have hne : cs ≠ [] := by
    rintro rfl
    simp at hlen
    omega
  unfold maxVClockLen at hshort
  rw [decodeVClock, readLE_append_of_lt (by omega)]
  simp only [mapError_ok, ok_bind, if_neg hok]
  rw [readSome_append hne]
  simp only [mapError_ok, ok_bind]
  rw [unmarshalBinary_marshalBinary hvc.ids h]
  rfl

/-- Otherwise the reader fails: at the length, or inside the clock. -/
theorem decodeVClock_of_unreadable {vc : VectorClock} {cs : Bytes} (hvc : ¬ vc.Readable)
    (h : vc.marshalBinary = .ok cs) (i : ℕ) (rest : Bytes) :
    ∃ e, decodeVClock i (leBytes 4 cs.length ++ (cs ++ rest)) = .error e := by
  have hlen := length_marshalBinary h
  have hpos : 2 ≤ vc.marshalSize := Nat.le_add_right 2 _
  rw [decodeVClock, readLE_append]
  simp only [mapError_ok, ok_bind]
  by_cases hbad : cs.length % 256 ^ 4 = 0 ∨ cs.length % 256 ^ 4 > maxVClockLen
  · rw [if_pos hbad]
    exact ⟨_, rfl⟩
  rw [if_neg hbad]
  have hin : cs.length % 256 ^ 4 ≤ cs.length := Nat.mod_le _ _
  unfold maxVClockLen at hbad
  rw [readSome_of_le (by omega) (by rw [List.length_append]; omega)]
  simp only [mapError_ok, ok_bind, List.take_append_of_le_length hin]
  -- what is left of the clock does not unmarshal
  have hread : ∃ e, unmarshalBinary (cs.take (cs.length % 256 ^ 4)) = .error e := by
    by_cases hlong : 2 ^ 32 ≤ cs.length
    · exact unmarshalBinary_take_of_long h hlong (by omega)
    · have hmod : cs.length % 256 ^ 4 = cs.length := Nat.mod_eq_of_lt (by omega)
      rw [hmod] at hbad ⊢
      rw [List.take_length]
      refine unmarshalBinary_of_bad_id (fun hids => hvc ⟨hids, ?_⟩) h
      unfold maxVClockLen
      omega
  obtain ⟨e, he⟩ := hread
  rw [he]
  exact ⟨_, rfl⟩

theorem siblingFlags_ttl (sib : Sibling) : siblingFlags sib &&& flagTTL ≠ 0 ↔ sib.expiresAt ≠ 0 := by
  unfold siblingFlags
  by_cases ht : sib.tombstone = true <;> by_cases he : sib.expiresAt = 0 <;>
    simp [ht, he, flagTTL, flagTombstone] <;> decide

theorem siblingFlags_tombstone (sib : Sibling) :
    decide (siblingFlags sib &&& flagTombstone ≠ 0) = sib.tombstone := by
  unfold siblingFlags
  by_cases ht : sib.tombstone = true <;> by_cases he : sib.expiresAt = 0 <;>
    simp [ht, he, flagTTL, flagTombstone] <;> decide

theorem readLE_int64 (t : Int64) (rest : Bytes) :
    readLE 8 (int64Bytes t ++ rest) = .ok (t.toUInt64.toNat, rest) :=
  readLE_append_of_lt t.toUInt64.toNat_lt rest

theorem decodeExpiresAt_siblingFlags (sib : Sibling) (i : ℕ) (rest : Bytes) :
    decodeExpiresAt i (siblingFlags sib)
      ((if sib.expiresAt ≠ 0 then int64Bytes sib.expiresAt else []) ++ rest) =
        .ok (sib.expiresAt, rest) := by
  unfold decodeExpiresAt
  by_cases h : sib.expiresAt ≠ 0
  · rw [if_pos ((siblingFlags_ttl sib).2 h), if_pos h, readLE_int64, mapError_ok, ok_bind]
    simp only [int64OfNat_toNat]
    rfl
  · rw [if_neg (mt (siblingFlags_ttl sib).1 h), if_neg h, List.nil_append, not_not.1 h]

theorem decodeValue_append (v : Bytes) (i : ℕ) (rest : Bytes) :
    decodeValue i v.length (v ++ rest) = .ok (v, rest) := by
  unfold decodeValue
  split_ifs with h
  · rw [readSome_append (List.ne_nil_of_length_pos h), mapError_ok]
  · rw [List.length_eq_zero_iff.1 (Nat.eq_zero_of_not_pos h), List.nil_append]

/-- The fields between the clock and the value. -/
def siblingFields (sib : Sibling) : Bytes :=
  [siblingFlags sib] ++ int64Bytes sib.timestamp ++
    (if sib.expiresAt ≠ 0 then int64Bytes sib.expiresAt else []) ++ leBytes 4 sib.value.length

theorem siblingTail_eq (sib : Sibling) : siblingTail sib = siblingFields sib ++ sib.value := rfl

/-- A sibling with a readable clock is read back up to its value. -/
theorem decodeSibling_fields {sib : Sibling} {cs : Bytes} (hvc : sib.vclock.Readable)
    (hcs : sib.vclock.marshalBinary = .ok cs) (hval : sib.value.length ≤ maxValueSize) (j : ℕ)
    (rest : Bytes) :
    decodeSibling j (leBytes 4 cs.length ++ cs ++ siblingFields sib ++ rest) = (do
      let (value, buf) ← decodeValue j sib.value.length rest
      return ({ sib with value := value }, buf)) := by
  have hsize : ¬ sib.value.length > maxValueSize := by omega
  unfold maxValueSize at hval
  rw [decodeSibling, List.append_assoc, List.append_assoc, decodeVClock_of_readable hvc hcs]
  simp only [ok_bind, siblingFields, List.append_assoc, List.cons_append, List.nil_append, readByte,
    mapError_ok, readLE_int64, decodeExpiresAt_siblingFlags]
  rw [readLE_append_of_lt (by omega)]
  simp only [mapError_ok, ok_bind, if_neg hsize, siblingFlags_tombstone, int64OfNat_toNat]

/-- A sibling with a readable clock is read back. -/
theorem decodeSibling_of_readable {i : ℕ} {sib : Sibling} {b : Bytes} (hvc : sib.vclock.Readable)
    (hb : encodeSibling i sib = .ok b) (j : ℕ) (rest : Bytes) :
    decodeSibling j (b ++ rest) = .ok (sib, rest) := by
  obtain ⟨hval, cs, hcs, rfl⟩ := encodeSibling_eq_ok.1 hb
  have hsplit : leBytes 4 cs.length ++ cs ++ siblingTail sib ++ rest =
      leBytes 4 cs.length ++ cs ++ siblingFields sib ++ (sib.value ++ rest) := by
    simp only [siblingTail_eq, List.append_assoc]
  rw [hsplit, decodeSibling_fields hvc hcs hval, decodeValue_append]
  rfl

/-- A sibling with an unreadable clock is rejected. -/
theorem decodeSibling_of_unreadable {i : ℕ} {sib : Sibling} {b : Bytes}
    (hvc : ¬ sib.vclock.Readable) (hb : encodeSibling i sib = .ok b) (j : ℕ) (rest : Bytes) :
    ∃ e, decodeSibling j (b ++ rest) = .error e := by
  obtain ⟨-, cs, hcs, rfl⟩ := encodeSibling_eq_ok.1 hb
  obtain ⟨e, he⟩ := decodeVClock_of_unreadable hvc hcs j (siblingTail sib ++ rest)
  rw [decodeSibling, List.append_assoc, List.append_assoc, he]
  exact ⟨e, rfl⟩

/-! ## The loop -/

theorem encodeSiblings_cons_eq_ok {i : ℕ} {sib : Sibling} {sibs : List Sibling} {bs : Bytes} :
    encodeSiblings i (sib :: sibs) = .ok bs ↔
      ∃ b cs, encodeSibling i sib = .ok b ∧ encodeSiblings (i + 1) sibs = .ok cs ∧
        bs = b ++ cs := by
  simp only [encodeSiblings, bind_eq_ok, pure, Except.pure, Except.ok.injEq]
  constructor
  · rintro ⟨b, hb, cs, hcs, rfl⟩
    exact ⟨b, cs, hb, hcs, rfl⟩
  · rintro ⟨b, cs, hb, hcs, rfl⟩
    exact ⟨b, hb, cs, hcs, rfl⟩

theorem decodeSiblings_of_readable {i : ℕ} {sibs : List Sibling} {bs : Bytes}
    (hvc : ∀ sib ∈ sibs, sib.vclock.Readable) (hbs : encodeSiblings i sibs = .ok bs) (j : ℕ)
    (rest : Bytes) : decodeSiblings sibs.length j (bs ++ rest) = .ok sibs := by
  induction sibs generalizing i j bs with
  | nil => rfl
  | cons sib sibs ih =>
    obtain ⟨b, cs, hb, hcs, rfl⟩ := encodeSiblings_cons_eq_ok.1 hbs
    rw [List.forall_mem_cons] at hvc
    rw [List.length_cons, decodeSiblings, List.append_assoc,
      decodeSibling_of_readable hvc.1 hb, ok_bind]
    simp only [ih hvc.2 hcs, ok_bind]
    rfl

/-- The loop stops at the first sibling whose clock is unreadable. -/
theorem decodeSiblings_of_unreadable {i : ℕ} {sibs : List Sibling} {bs : Bytes}
    (hvc : ¬ ∀ sib ∈ sibs, sib.vclock.Readable) (hbs : encodeSiblings i sibs = .ok bs) (j : ℕ)
    (rest : Bytes) : ∃ e, decodeSiblings sibs.length j (bs ++ rest) = .error e := by
  induction sibs generalizing i j bs with
  | nil => exact absurd (by simp) hvc
  | cons sib sibs ih =>
    obtain ⟨b, cs, hb, hcs, rfl⟩ := encodeSiblings_cons_eq_ok.1 hbs
    rw [List.length_cons, decodeSiblings, List.append_assoc]
    by_cases hs : sib.vclock.Readable
    · obtain ⟨e, he⟩ := ih (fun h => hvc (List.forall_mem_cons.2 ⟨hs, h⟩)) hcs (j + 1)
      rw [decodeSibling_of_readable hs hb, ok_bind]
      simp only [he, error_bind]
      exact ⟨e, rfl⟩
    · obtain ⟨e, he⟩ := decodeSibling_of_unreadable hs hb j (cs ++ rest)
      rw [he]
      exact ⟨e, rfl⟩

/-! ## The record -/

/-- The checksum of a sealed payload is found correct. -/
theorem decodeSiblingSet_sealed {payload : Bytes} (h : 2 ≤ payload.length) :
    decodeSiblingSet (sealed payload) = decodePayload payload := by
  have hlen : (sealed payload).length = payload.length + 4 := by
    rw [sealed, List.length_append, length_leBytes]
  have hcrc : (checksumIEEE payload).toNat < 256 ^ 4 := (checksumIEEE payload).toNat_lt
  have htake : (sealed payload).take payload.length = payload := List.take_left
  have hdrop : (sealed payload).drop payload.length = leBytes 4 (checksumIEEE payload).toNat :=
    List.drop_left
  rw [decodeSiblingSet, hlen, if_neg (by omega), Nat.add_sub_cancel]
  simp only [htake, hdrop, leNat_leBytes_of_lt hcrc, ne_eq, not_true_eq_false, if_false]

theorem encodeSiblingSet_eq_ok {set : SiblingSet} {data : Bytes} :
    encodeSiblingSet set = .ok data ↔ set ≠ [] ∧ set.length ≤ maxSiblingCount ∧
      ∃ bs, encodeSiblings 0 set = .ok bs ∧ data = sealed (leBytes 2 set.length ++ bs) := by
  unfold encodeSiblingSet
  split_ifs with h1 h2
  · exact iff_of_false nofun fun hc => hc.1 h1
  · exact iff_of_false nofun fun hc => absurd hc.2.1 (by omega)
  · simp only [bind_eq_ok, pure, Except.pure, Except.ok.injEq]
    constructor
    · rintro ⟨bs, hbs, rfl⟩
      exact ⟨h1, by omega, bs, hbs, rfl⟩
    · rintro ⟨-, -, bs, hbs, rfl⟩
      exact ⟨bs, hbs, rfl⟩

/-- A record is read by the loop over its siblings. -/
theorem decodeSiblingSet_of_encode {set : SiblingSet} {data : Bytes}
    (h : encodeSiblingSet set = .ok data) :
    ∃ bs, encodeSiblings 0 set = .ok bs ∧
      decodeSiblingSet data = decodeSiblings set.length 0 bs := by
  obtain ⟨hne, hmax, bs, hbs, rfl⟩ := encodeSiblingSet_eq_ok.1 h
  have hpos : set.length ≠ 0 := fun h0 => hne (List.length_eq_zero_iff.1 h0)
  refine ⟨bs, hbs, ?_⟩
  rw [decodeSiblingSet_sealed (by rw [List.length_append, length_leBytes]; omega), decodePayload]
  have hlt : set.length < 256 ^ 2 := by
    unfold maxSiblingCount at hmax
    omega
  rw [readLE_append_of_lt hlt]
  simp only [mapError_ok, ok_bind, if_neg hpos, if_neg (not_lt.2 hmax)]

/-- A record whose clocks are readable is read back as it was written. -/
theorem decodeSiblingSet_encodeSiblingSet {set : SiblingSet} {data : Bytes}
    (h : encodeSiblingSet set = .ok data) (hvc : ∀ sib ∈ set, sib.vclock.Readable) :
    decodeSiblingSet data = .ok set := by
  obtain ⟨bs, hbs, hdec⟩ := decodeSiblingSet_of_encode h
  have hloop := decodeSiblings_of_readable hvc hbs 0 []
  rwa [List.append_nil, ← hdec] at hloop

/-- Any other record cannot be read. -/
theorem decodeSiblingSet_of_unreadable {set : SiblingSet} {data : Bytes}
    (h : encodeSiblingSet set = .ok data) (hvc : ¬ ∀ sib ∈ set, sib.vclock.Readable) :
    ∃ e, decodeSiblingSet data = .error e := by
  obtain ⟨bs, hbs, hdec⟩ := decodeSiblingSet_of_encode h
  obtain ⟨e, he⟩ := decodeSiblings_of_unreadable hvc hbs 0 []
  rw [List.append_nil, ← hdec] at he
  exact ⟨e, he⟩

/-- A record decodes to the set it was written from or not at all. -/
theorem eq_of_decodeSiblingSet {set set' : SiblingSet} {data : Bytes}
    (h : encodeSiblingSet set = .ok data) (hd : decodeSiblingSet data = .ok set') : set' = set := by
  by_cases hvc : ∀ sib ∈ set, sib.vclock.Readable
  · rw [decodeSiblingSet_encodeSiblingSet h hvc] at hd
    exact (Except.ok.inj hd).symm
  · obtain ⟨e, he⟩ := decodeSiblingSet_of_unreadable h hvc
    rw [he] at hd
    cases hd

/-! ## What is read can be written -/

/-- A sibling that fits the format: its clock is readable and its value within the limit. -/
structure Sibling.Storable (sib : Sibling) : Prop where
  clock : sib.vclock.Readable
  value : sib.value.length ≤ maxValueSize

theorem decodeVClock_eq_ok {i : ℕ} {buf rest : Bytes} {vc : VectorClock}
    (h : decodeVClock i buf = .ok (vc, rest)) : vc.Readable := by
  simp only [decodeVClock, bind_eq_ok, mapError_eq_ok, Prod.exists] at h
  obtain ⟨n, b₁, h₁, h⟩ := h
  split_ifs at h with hn
  simp only [bind_eq_ok, mapError_eq_ok, Prod.exists, pure, Except.pure, Except.ok.injEq,
    Prod.mk.injEq] at h
  obtain ⟨bs, b₂, h₂, vc', h₃, rfl, -⟩ := h
  obtain ⟨hids, hsize⟩ := unmarshalBinary_eq_ok h₃
  have hlen := (length_of_readSome h₂).2
  exact ⟨hids, by omega⟩

theorem decodeValue_eq_ok {i n : ℕ} {buf rest v : Bytes} (h : decodeValue i n buf = .ok (v, rest)) :
    v.length = n := by
  unfold decodeValue at h
  split_ifs at h with hn
  · exact (length_of_readSome (mapError_eq_ok.1 h)).2
  · simp only [Except.ok.injEq, Prod.mk.injEq] at h
    rw [← h.1, List.length_nil]
    omega

theorem decodeSibling_eq_ok {i : ℕ} {buf rest : Bytes} {sib : Sibling}
    (h : decodeSibling i buf = .ok (sib, rest)) : sib.Storable := by
  simp only [decodeSibling, bind_eq_ok, mapError_eq_ok, Prod.exists] at h
  obtain ⟨vc, b₁, h₁, flags, b₂, -, t, b₃, -, e, b₄, -, n, b₅, -, h⟩ := h
  split_ifs at h with hn
  simp only [bind_eq_ok, Prod.exists, pure, Except.pure, Except.ok.injEq, Prod.mk.injEq] at h
  obtain ⟨v, b₆, h₂, rfl, -⟩ := h
  exact ⟨decodeVClock_eq_ok h₁, (decodeValue_eq_ok h₂).le.trans (not_lt.1 hn)⟩

theorem decodeSiblings_eq_ok {n i : ℕ} {buf : Bytes} {sibs : List Sibling}
    (h : decodeSiblings n i buf = .ok sibs) :
    sibs.length = n ∧ ∀ sib ∈ sibs, sib.Storable := by
  induction n generalizing i buf sibs with
  | zero =>
    obtain rfl := Except.ok.inj h
    exact ⟨rfl, fun sib hs => absurd hs List.not_mem_nil⟩
  | succ n ih =>
    simp only [decodeSiblings, bind_eq_ok, Prod.exists, pure, Except.pure, Except.ok.injEq] at h
    obtain ⟨sib, rest, hs, sibs', hsibs, rfl⟩ := h
    obtain ⟨hlen, hall⟩ := ih hsibs
    exact ⟨congrArg Nat.succ hlen, List.forall_mem_cons.2 ⟨decodeSibling_eq_ok hs, hall⟩⟩

/-- A record that is read has between one and 65535 siblings, each of which fits the format. -/
theorem decodeSiblingSet_eq_ok {data : Bytes} {set : SiblingSet}
    (h : decodeSiblingSet data = .ok set) :
    set ≠ [] ∧ set.length ≤ maxSiblingCount ∧ ∀ sib ∈ set, sib.Storable := by
  unfold decodeSiblingSet at h
  split_ifs at h
  dsimp only at h
  split_ifs at h
  simp only [decodePayload, bind_eq_ok, mapError_eq_ok, Prod.exists] at h
  obtain ⟨n, buf, -, h⟩ := h
  split_ifs at h with h0 hmax
  obtain ⟨hlen, hall⟩ := decodeSiblings_eq_ok h
  refine ⟨fun hnil => h0 ?_, by omega, hall⟩
  rw [← hlen, hnil, List.length_nil]

theorem encodeSiblings_ok_iff {i : ℕ} {sibs : List Sibling} :
    (∃ bs, encodeSiblings i sibs = .ok bs) ↔
      ∀ sib ∈ sibs, sib.value.length ≤ maxValueSize ∧ ∃ cs, sib.vclock.marshalBinary = .ok cs := by
  induction sibs generalizing i with
  | nil => exact iff_of_true ⟨[], rfl⟩ fun sib hs => absurd hs List.not_mem_nil
  | cons sib sibs ih =>
    rw [List.forall_mem_cons, ← ih]
    constructor
    · rintro ⟨bs, hbs⟩
      obtain ⟨b, cs, hb, hcs, -⟩ := encodeSiblings_cons_eq_ok.1 hbs
      obtain ⟨hv, vs, hvs, -⟩ := encodeSibling_eq_ok.1 hb
      exact ⟨⟨hv, vs, hvs⟩, cs, hcs⟩
    · rintro ⟨⟨hv, vs, hvs⟩, cs, hcs⟩
      exact ⟨_, encodeSiblings_cons_eq_ok.2
        ⟨_, cs, encodeSibling_eq_ok.2 ⟨hv, vs, hvs, rfl⟩, hcs, rfl⟩⟩

/-- The sets that can be written. -/
theorem encodeSiblingSet_ok_iff {set : SiblingSet} : (∃ data, encodeSiblingSet set = .ok data) ↔
    set ≠ [] ∧ set.length ≤ maxSiblingCount ∧
      ∀ sib ∈ set, sib.value.length ≤ maxValueSize ∧ ∃ cs, sib.vclock.marshalBinary = .ok cs := by
  rw [← encodeSiblings_ok_iff (i := 0)]
  constructor
  · rintro ⟨data, h⟩
    obtain ⟨hne, hmax, bs, hbs, -⟩ := encodeSiblingSet_eq_ok.1 h
    exact ⟨hne, hmax, bs, hbs⟩
  · rintro ⟨hne, hmax, bs, hbs⟩
    exact ⟨_, encodeSiblingSet_eq_ok.2 ⟨hne, hmax, bs, hbs, rfl⟩⟩

/-- A set of siblings that fit the format is written, and read back. -/
theorem encodeSiblingSet_ok {set : SiblingSet} (hne : set ≠ []) (hmax : set.length ≤ maxSiblingCount)
    (h : ∀ sib ∈ set, sib.Storable) :
    ∃ data, encodeSiblingSet set = .ok data ∧ decodeSiblingSet data = .ok set := by
  obtain ⟨data, he⟩ := encodeSiblingSet_ok_iff.2
    ⟨hne, hmax, fun sib hs => ⟨(h sib hs).value, (h sib hs).clock.marshalBinary_ok⟩⟩
  exact ⟨data, he, decodeSiblingSet_encodeSiblingSet he fun sib hs => (h sib hs).clock⟩

/-! ## The domain of the round trip -/

/-- The round trip is exact on the sets whose node ids have 1 to 1024 bytes and whose clocks take
at most 10000 bytes, and every other record is rejected. -/
theorem decode_encode_iff (set : SiblingSet) (data : Bytes)
    (h : encodeSiblingSet set = .ok data) :
    (decodeSiblingSet data = .ok set ↔
      ∀ sib ∈ set, (∀ p ∈ sib.vclock.entries.toList, 1 ≤ p.1.length ∧ p.1.length ≤ 1024) ∧
        ∀ vclockBytes, sib.vclock.marshalBinary = .ok vclockBytes → vclockBytes.length ≤ 10000) ∧
    (decodeSiblingSet data ≠ .ok set → ∃ e, decodeSiblingSet data = .error e) := by
  have limits : ∀ sib ∈ set, (sib.vclock.Readable ↔
      (∀ p ∈ sib.vclock.entries.toList, 1 ≤ p.1.length ∧ p.1.length ≤ 1024) ∧
        ∀ vclockBytes, sib.vclock.marshalBinary = .ok vclockBytes →
          vclockBytes.length ≤ 10000) := by
    intro sib hs
    obtain ⟨cs, hcs⟩ := ((encodeSiblingSet_ok_iff.1 ⟨data, h⟩).2.2 sib hs).2
    rw [VectorClock.readable_iff, ← length_marshalBinary hcs]
    refine and_congr_right fun _ => ⟨fun hle bs hbs => ?_, fun hle => hle cs hcs⟩
    obtain rfl := Except.ok.inj (hcs.symm.trans hbs)
    exact hle
  rw [← forall₂_congr limits]
  by_cases hvc : ∀ sib ∈ set, sib.vclock.Readable
  · have hok := decodeSiblingSet_encodeSiblingSet h hvc
    exact ⟨iff_of_true hok hvc, fun hne => absurd hok hne⟩
  · obtain ⟨e, he⟩ := decodeSiblingSet_of_unreadable h hvc
    exact ⟨iff_of_false (by rw [he]; nofun) hvc, fun _ => ⟨e, he⟩⟩

/-- A record of one value written by `n1`. -/
def recordOfN1 : SiblingSet :=
  [⟨[118], VectorClock.new.set 1700000000 [110, 49] 1, 1700000000, false, 0⟩]

theorem decode_encode_iff_recordOfN1 :
    ∃ data, encodeSiblingSet recordOfN1 = .ok data ∧ decodeSiblingSet data = .ok recordOfN1 := by
  obtain ⟨data, h⟩ : ∃ data, encodeSiblingSet recordOfN1 = .ok data :=
    ⟨(encodeSiblingSet recordOfN1).toOption.getD [], by decide +kernel⟩
  refine ⟨data, h, (decode_encode_iff recordOfN1 data h).1.2 fun sib hs => ?_⟩
  rw [List.mem_singleton.1 hs]
  refine ⟨by decide +kernel, fun bs hbs => ?_⟩
  rw [length_marshalBinary hbs]
  decide +kernel

end GoQuorum
