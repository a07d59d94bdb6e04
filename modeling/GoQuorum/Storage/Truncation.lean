import GoQuorum.Storage.RoundTrip

/-!
# Truncated records

A payload that was cut off and sealed again has a correct checksum, so only the reader of the fields
can reject it.  The fixed-width fields are read in full or not at all.  The bytes of a clock and of a
value are read with a call that accepts a short read, and what is missing stays zero.  After a short
clock the flag byte is missing and the record is rejected; after a short value nothing more is read
if the sibling was the last one.  So a truncated record is accepted exactly when the cut leaves a
part of the last value (`truncated_record_rejected_iff`).
-/

namespace GoQuorum

open Lib VectorClock

/-- The payload of a sealed record. -/
theorem sealed_injective : Function.Injective sealed := by
  intro a b h
  exact (List.append_inj' h (by rw [length_leBytes, length_leBytes])).1

/-! ## Reading a prefix -/

/-- A field that is read off a prefix of the input is there in full. -/
theorem field_of_cut {w n m : ℕ} {buf rest t : Bytes} (hpre : buf <+: leBytes w n ++ t)
    (h : readLE w buf = .ok (m, rest)) :
    m = n % 256 ^ w ∧ buf = leBytes w n ++ rest ∧ rest <+: t := by
  have hlen := length_of_readLE h
  have hfield : leBytes w n <+: buf := by
    refine List.prefix_of_prefix_length_le (List.prefix_append _ t) hpre ?_
    rw [length_leBytes]
    omega
  obtain ⟨rest', rfl⟩ := hfield
  rw [readLE_append, Except.ok.injEq, Prod.mk.injEq] at h
  obtain ⟨rfl, rfl⟩ := h
  exact ⟨rfl, rfl, (List.prefix_append_right_inj _).1 hpre⟩

/-- An integer read off a prefix of the input is the one that was written. -/
theorem readLE_of_cut {w n m : ℕ} {buf rest t : Bytes} (hn : n < 256 ^ w)
    (hpre : buf <+: leBytes w n ++ t) (h : readLE w buf = .ok (m, rest)) :
    m = n ∧ buf = leBytes w n ++ rest ∧ rest <+: t := by
  obtain ⟨rfl, hbuf, hrest⟩ := field_of_cut hpre h
  exact ⟨Nat.mod_eq_of_lt hn, hbuf, hrest⟩

/-- What follows a clock that was read off a prefix: nothing, or the rest of the prefix after the
whole clock. -/
theorem decodeVClock_of_cut {vc vc' : VectorClock} {cs buf rest t : Bytes} {i : ℕ}
    (hcs : vc.marshalBinary = .ok cs) (hpre : buf <+: leBytes 4 cs.length ++ (cs ++ t))
    (h : decodeVClock i buf = .ok (vc', rest)) :
    rest = [] ∨ (buf = leBytes 4 cs.length ++ (cs ++ rest) ∧ rest <+: t) := by
  simp only [decodeVClock, bind_eq_ok, mapError_eq_ok, Prod.exists] at h
  obtain ⟨n, buf₁, hlen, h⟩ := h
  split_ifs at h with hn
  simp only [bind_eq_ok, mapError_eq_ok, Prod.exists, pure, Except.pure, Except.ok.injEq,
    Prod.mk.injEq] at h
  obtain ⟨bs, buf₂, hbs, vc₁, hvc, rfl, rfl⟩ := h
  obtain ⟨rfl, rfl, hpre₁⟩ := field_of_cut hpre hlen
  -- the clock is there in full, or the read has used up the input
  by_cases hshort : buf₁.length < cs.length % 256 ^ 4
  · left
    have hrest := (length_of_readSome hbs).1
    exact List.length_eq_zero_iff.1 (by omega)
  right
  have hmod : cs.length % 256 ^ 4 ≤ cs.length := Nat.mod_le _ _
  unfold maxVClockLen at hn
  rw [readSome_of_le (by omega) (by omega), Except.ok.injEq, Prod.mk.injEq] at hbs
  obtain ⟨rfl, rfl⟩ := hbs
  have htake : buf₁.take (cs.length % 256 ^ 4) = cs.take (cs.length % 256 ^ 4) := by
    obtain ⟨x, hx⟩ := hpre₁
    have happend : (buf₁ ++ x).take (cs.length % 256 ^ 4) = buf₁.take (cs.length % 256 ^ 4) :=
      List.take_append_of_le_length (by omega)
    rw [← happend, hx, List.take_append_of_le_length hmod]
  by_cases hlong : 2 ^ 32 ≤ cs.length
  · obtain ⟨e, he⟩ := unmarshalBinary_take_of_long (n := cs.length % 256 ^ 4) hcs hlong (by omega)
    rw [htake, he] at hvc
    cases hvc
  · have hfull : cs.length % 256 ^ 4 = cs.length := Nat.mod_eq_of_lt (by omega)
    rw [hfull, List.take_length] at htake
    have hclock : buf₁ = cs ++ buf₁.drop cs.length := by
      rw [← htake, List.length_take_of_le (by omega), List.take_append_drop]
    rw [hfull, ← hclock]
    refine ⟨rfl, ?_⟩
    rw [hclock] at hpre₁
    exact (List.prefix_append_right_inj _).1 hpre₁

/-- The expiry time read off a prefix is there in full, if it is there at all. -/
theorem decodeExpiresAt_of_cut {sib : Sibling} {i : ℕ} {buf rest t : Bytes} {e : Int64}
    (hpre : buf <+: (if sib.expiresAt ≠ 0 then int64Bytes sib.expiresAt else []) ++ t)
    (h : decodeExpiresAt i (siblingFlags sib) buf = .ok (e, rest)) :
    buf = (if sib.expiresAt ≠ 0 then int64Bytes sib.expiresAt else []) ++ rest ∧ rest <+: t := by
  unfold decodeExpiresAt at h
  by_cases hexp : sib.expiresAt ≠ 0
  · rw [if_pos ((siblingFlags_ttl sib).2 hexp)] at h
    simp only [bind_eq_ok, mapError_eq_ok, Prod.exists, pure, Except.pure, Except.ok.injEq,
      Prod.mk.injEq] at h
    obtain ⟨n, buf', hread, -, rfl⟩ := h
    rw [if_pos hexp] at hpre ⊢
    exact (readLE_of_cut sib.expiresAt.toUInt64.toNat_lt hpre hread).2
  · rw [if_neg (mt (siblingFlags_ttl sib).1 hexp), Except.ok.injEq, Prod.mk.injEq] at h
    rw [if_neg hexp] at hpre ⊢
    exact ⟨h.2, h.2 ▸ hpre⟩

/-- When a sibling is read off a part of its bytes, all fields up to the value are complete. -/
theorem fields_of_cut {sib sib' : Sibling} {j : ℕ} {cs p rest : Bytes}
    (hval : sib.value.length ≤ maxValueSize) (hcs : sib.vclock.marshalBinary = .ok cs)
    (hpre : p <+: leBytes 4 cs.length ++ cs ++ siblingTail sib)
    (h : decodeSibling j p = .ok (sib', rest)) :
    ∃ v out, p = leBytes 4 cs.length ++ cs ++ siblingFields sib ++ v ∧ v <+: sib.value ∧
      decodeValue j sib.value.length v = .ok (out, rest) := by
  simp only [decodeSibling, bind_eq_ok, mapError_eq_ok, Prod.exists] at h
  obtain ⟨vc, buf₁, hclock, flags, buf₂, hflags, t, buf₃, htime, e, buf₄, hexp, n, buf₅, hlen, h⟩ := h
  split_ifs at h with hn
  simp only [bind_eq_ok, Prod.exists, pure, Except.pure, Except.ok.injEq, Prod.mk.injEq] at h
  obtain ⟨out, buf₆, hvalue, -, rfl⟩ := h
  -- the flag byte is there, so the clock is complete
  rw [List.append_assoc] at hpre
  rcases decodeVClock_of_cut hcs hpre hclock with rfl | ⟨rfl, hpre₁⟩
  · cases hflags
  cases buf₁ with
  | nil => cases hflags
  | cons f buf₂' =>
    simp only [readByte, Except.ok.injEq, Prod.mk.injEq] at hflags
    obtain ⟨rfl, rfl⟩ := hflags
    simp only [siblingTail, List.append_assoc, List.cons_append, List.nil_append,
      List.cons_prefix_cons] at hpre₁
    obtain ⟨rfl, hpre₂⟩ := hpre₁
    obtain ⟨-, rfl, hpre₃⟩ := readLE_of_cut sib.timestamp.toUInt64.toNat_lt hpre₂ htime
    obtain ⟨rfl, hpre₄⟩ := decodeExpiresAt_of_cut hpre₃ hexp
    unfold maxValueSize at hval
    obtain ⟨rfl, rfl, hpre₅⟩ := readLE_of_cut (by omega) hpre₄ hlen
    refine ⟨buf₅, out, ?_, hpre₅, hvalue⟩
    simp only [siblingFields, int64Bytes, List.append_assoc, List.cons_append, List.nil_append]

/-- A sibling that is read off a part of its bytes has lost some, but not all, bytes of its value,
and nothing is left after it. -/
theorem decodeSibling_of_cut {sib sib' : Sibling} {i j : ℕ} {b p rest : Bytes}
    (hb : encodeSibling i sib = .ok b) (hpre : p <+: b) (hne : p ≠ b)
    (h : decodeSibling j p = .ok (sib', rest)) :
    rest = [] ∧ b.length < p.length + sib.value.length := by
  obtain ⟨hval, cs, hcs, rfl⟩ := encodeSibling_eq_ok.1 hb
  obtain ⟨v, out, rfl, ⟨x, hx⟩, hvalue⟩ := fields_of_cut hval hcs hpre h
  rw [siblingTail_eq, ← List.append_assoc] at hne ⊢
  have hlost : 0 < x.length := by
    refine List.length_pos_iff.2 ?_
    rintro rfl
    rw [List.append_nil] at hx
    exact hne (by rw [hx])
  have hlen : v.length + x.length = sib.value.length := by
    rw [← List.length_append, hx]
  unfold decodeValue at hvalue
  rw [if_pos (by omega), mapError_eq_ok] at hvalue
  have hsome : 0 < v.length := by
    refine List.length_pos_iff.2 ?_
    rintro rfl
    cases hvalue
  refine ⟨List.length_eq_zero_iff.1 ?_, ?_⟩
  · rw [(length_of_readSome hvalue).1]
    omega
  · simp only [List.length_append]
    omega

/-! ## The loop -/

/-- The length of the value of the last sibling. -/
def lastValueLength (set : SiblingSet) : ℕ := (set.getLast?.map fun sib => sib.value.length).getD 0

theorem lastValueLength_cons_cons (x y : Sibling) (l : List Sibling) :
    lastValueLength (x :: y :: l) = lastValueLength (y :: l) := by
  rw [lastValueLength, List.getLast?_cons_cons, lastValueLength]

/-- Nothing is read off an empty input. -/
theorem decodeSiblings_nil (n i : ℕ) : ∃ e, decodeSiblings (n + 1) i [] = .error e :=
  ⟨.readVClockLen i .eof, rfl⟩

/-- The loop fails when the cut is in the first sibling, unless it is the last one and the cut leaves
some of its value. -/
theorem decodeSiblings_of_cut_first {sib : Sibling} {sibs : List Sibling} {i : ℕ} {b p : Bytes}
    (hb : encodeSibling i sib = .ok b) (hpre : p <+: b) (hne : p ≠ b)
    (hcut : sibs = [] → p.length + sib.value.length ≤ b.length) (j : ℕ) :
    ∃ e, decodeSiblings (sibs.length + 1) j p = .error e := by
  rw [decodeSiblings]
  cases hd : decodeSibling j p with
  | error e => exact ⟨e, rfl⟩
  | ok r =>
    obtain ⟨sib', rest⟩ := r
    obtain ⟨rfl, hlong⟩ := decodeSibling_of_cut hb hpre hne hd
    cases sibs with
    | nil =>
      have hle := hcut rfl
      omega
    | cons sib₂ sibs =>
      obtain ⟨e, he⟩ := decodeSiblings_nil sibs.length (j + 1)
      simp only [ok_bind, List.length_cons, he, error_bind]
      exact ⟨e, rfl⟩

/-- The loop fails when the cut leaves nothing of the last value. -/
theorem decodeSiblings_of_cut {sibs : List Sibling} {i : ℕ} {bs p : Bytes}
    (hbs : encodeSiblings i sibs = .ok bs) (hpre : p <+: bs) (hne : p ≠ bs)
    (hcut : p.length + lastValueLength sibs ≤ bs.length) (j : ℕ) :
    ∃ e, decodeSiblings sibs.length j p = .error e := by
  induction sibs generalizing i j bs p with
  | nil =>
    obtain rfl := Except.ok.inj hbs
    exact absurd (List.prefix_nil.1 hpre) hne
  | cons sib sibs ih =>
    obtain ⟨b, cs, hb, hcs, rfl⟩ := encodeSiblings_cons_eq_ok.1 hbs
    rw [List.length_cons]
    by_cases hwhole : b.length ≤ p.length
    · -- the first sibling is there in full, and the cut is in the others
      obtain ⟨p', rfl⟩ := List.prefix_of_prefix_length_le (List.prefix_append b cs) hpre hwhole
      have hpre' := (List.prefix_append_right_inj _).1 hpre
      have hne' : p' ≠ cs := fun e => hne (by rw [e])
      rw [decodeSiblings]
      by_cases hvc : sib.vclock.Readable
      · cases sibs with
        | nil =>
          obtain rfl := Except.ok.inj hcs
          exact absurd (List.prefix_nil.1 hpre') hne'
        | cons sib₂ sibs =>
          rw [lastValueLength_cons_cons, List.length_append, List.length_append] at hcut
          obtain ⟨e, he⟩ := ih hcs hpre' hne' (by omega) (j + 1)
          rw [decodeSibling_of_readable hvc hb, ok_bind]
          simp only [he, error_bind]
          exact ⟨e, rfl⟩
      · obtain ⟨e, he⟩ := decodeSibling_of_unreadable hvc hb j p'
        rw [he]
        exact ⟨e, rfl⟩
    · refine decodeSiblings_of_cut_first hb
        (List.prefix_of_prefix_length_le hpre (List.prefix_append b cs) (by omega)) ?_ ?_ j
      · rintro rfl
        exact hwhole le_rfl
      · rintro rfl
        obtain rfl := Except.ok.inj hcs
        rw [List.append_nil] at hcut
        exact hcut

/-- The last value is part of what the loop writes. -/
theorem lastValueLength_le {sibs : List Sibling} {i : ℕ} {bs : Bytes}
    (hbs : encodeSiblings i sibs = .ok bs) : lastValueLength sibs ≤ bs.length := by
  induction sibs generalizing i bs with
  | nil => exact Nat.zero_le _
  | cons sib sibs ih =>
    obtain ⟨b, cs, hb, hcs, rfl⟩ := encodeSiblings_cons_eq_ok.1 hbs
    rw [List.length_append]
    cases sibs with
    | nil =>
      obtain ⟨-, ms, -, rfl⟩ := encodeSibling_eq_ok.1 hb
      have hlast : lastValueLength [sib] = sib.value.length := rfl
      simp only [siblingTail, List.length_append]
      omega
    | cons sib₂ sibs =>
      rw [lastValueLength_cons_cons]
      exact (ih hcs).trans (Nat.le_add_left _ _)

/-- A sibling is read off a part of its bytes that has some of its value exactly when its clock is
readable. -/
theorem decodeSibling_of_short_value {sib : Sibling} {i : ℕ} {b p : Bytes}
    (hb : encodeSibling i sib = .ok b) (hpre : p <+: b)
    (hcut : b.length < p.length + sib.value.length) (j : ℕ) :
    if sib.vclock.Readable then ∃ sib', decodeSibling j p = .ok (sib', [])
    else ∃ e, decodeSibling j p = .error e := by
  obtain ⟨hval, cs, hcs, rfl⟩ := encodeSibling_eq_ok.1 hb
  rw [siblingTail_eq, ← List.append_assoc] at hpre hcut
  rw [List.length_append] at hcut
  obtain ⟨v, rfl⟩ := List.prefix_of_prefix_length_le (List.prefix_append _ _) hpre
    (by omega : (leBytes 4 cs.length ++ cs ++ siblingFields sib).length ≤ p.length)
  have hshort := ((List.prefix_append_right_inj _).1 hpre).length_le
  have hv : v ≠ [] := by
    rintro rfl
    rw [List.append_nil] at hcut
    omega
  have hpos := List.length_pos_iff.2 hv
  split_ifs with hvc
  · rw [decodeSibling_fields hvc hcs hval, decodeValue, if_pos (by omega), readSome, if_neg hv,
      List.drop_eq_nil_of_le hshort]
    exact ⟨_, rfl⟩
  · obtain ⟨e, he⟩ := decodeVClock_of_unreadable hvc hcs j (siblingFields sib ++ v)
    rw [decodeSibling, List.append_assoc, List.append_assoc, he]
    exact ⟨e, rfl⟩

/-- When the cut leaves a part of the last value, the loop succeeds exactly on readable clocks. -/
theorem decodeSiblings_of_short_value {sibs : List Sibling} {i : ℕ} {bs p : Bytes}
    (hbs : encodeSiblings i sibs = .ok bs) (hpre : p <+: bs)
    (hcut : bs.length < p.length + lastValueLength sibs) (j : ℕ) :
    (∃ e, decodeSiblings sibs.length j p = .error e) ↔ ∃ sib ∈ sibs, ¬ sib.vclock.Readable := by
  induction sibs generalizing i j bs p with
  | nil => exact iff_of_false (by rintro ⟨e, h⟩; cases h) (by simp)
  | cons sib sibs ih =>
    obtain ⟨b, cs, hb, hcs, rfl⟩ := encodeSiblings_cons_eq_ok.1 hbs
    rw [List.length_cons, decodeSiblings, List.exists_mem_cons_iff]
    cases sibs with
    | nil =>
      obtain rfl := Except.ok.inj hcs
      rw [List.append_nil] at hpre hcut
      have hread := decodeSibling_of_short_value hb hpre hcut j
      split_ifs at hread with hvc
      · obtain ⟨sib', hsib⟩ := hread
        rw [hsib]
        exact iff_of_false (by rintro ⟨e, h⟩; cases h) (by simp [hvc])
      · obtain ⟨e, he⟩ := hread
        rw [he]
        exact iff_of_true ⟨e, rfl⟩ (Or.inl hvc)
    | cons sib₂ sibs =>
      -- the last value is behind the first sibling
      have hlast := lastValueLength_le hcs
      rw [lastValueLength_cons_cons, List.length_append] at hcut
      obtain ⟨p', rfl⟩ := List.prefix_of_prefix_length_le (List.prefix_append b cs) hpre (by omega)
      rw [List.length_append] at hcut
      have hrest := ih hcs ((List.prefix_append_right_inj _).1 hpre) (by omega) (j + 1)
      by_cases hvc : sib.vclock.Readable
      · rw [decodeSibling_of_readable hvc hb, ok_bind, or_iff_right (not_not.2 hvc), ← hrest]
        dsimp only
        cases decodeSiblings (sib₂ :: sibs).length (j + 1) p' with
        | error e => exact iff_of_true ⟨e, rfl⟩ ⟨e, rfl⟩
        | ok sibs' =>
          exact iff_of_false (by rintro ⟨e, h⟩; cases h) (by rintro ⟨e, h⟩; cases h)
      · obtain ⟨e, he⟩ := decodeSibling_of_unreadable hvc hb j p'
        rw [he]
        exact iff_of_true ⟨e, rfl⟩ (Or.inl hvc)

/-! ## The record -/

/-- A truncated record that was sealed again is rejected exactly when the cut leaves nothing of the
last value or the record has a clock that cannot be read anyway. -/
theorem truncated_record_rejected_iff (set : SiblingSet) (payload p : Bytes)
    (henc : encodeSiblingSet set = .ok (sealed payload)) (hpre : p <+: payload)
    (hcut : p.length < payload.length) :
    (∃ e, decodeSiblingSet (sealed p) = .error e) ↔
      lastValueLength set ≤ payload.length - p.length ∨ ∃ sib ∈ set, ¬ sib.vclock.Readable := by
  obtain ⟨hne, hmax, bs, hbs, hseal⟩ := encodeSiblingSet_eq_ok.1 henc
  obtain rfl : payload = leBytes 2 set.length ++ bs := sealed_injective hseal
  have hlast := lastValueLength_le hbs
  by_cases hcount : p.length < 2
  · -- not even the count is there
    have hlen : (sealed p).length < 6 := by
      rw [sealed, List.length_append, length_leBytes]
      omega
    rw [decodeSiblingSet, if_pos hlen]
    refine iff_of_true ⟨_, rfl⟩ (Or.inl ?_)
    rw [List.length_append, length_leBytes]
    omega
  obtain ⟨q, rfl⟩ := List.prefix_of_prefix_length_le (List.prefix_append _ bs) hpre
    (by rw [length_leBytes]; omega)
  have hpos : set.length ≠ 0 := fun h0 => hne (List.length_eq_zero_iff.1 h0)
  have hlt : set.length < 256 ^ 2 := by
    unfold maxSiblingCount at hmax
    omega
  have hloop : decodeSiblingSet (sealed (leBytes 2 set.length ++ q)) =
      decodeSiblings set.length 0 q := by
    rw [decodeSiblingSet_sealed (by omega), decodePayload, readLE_append_of_lt hlt]
    simp only [mapError_ok, ok_bind, if_neg hpos, if_neg (not_lt.2 hmax)]
  have hq := (List.prefix_append_right_inj _).1 hpre
  simp only [List.length_append, length_leBytes] at hcut ⊢
  rw [hloop]
  by_cases hleft : bs.length < q.length + lastValueLength set
  · rw [decodeSiblings_of_short_value hbs hq hleft, or_iff_right (by omega)]
  · refine iff_of_true (decodeSiblings_of_cut hbs hq ?_ (by omega) 0) (Or.inl (by omega))
    rintro rfl
    omega

/-- A record of a value of two bytes written by `n1`. -/
def twoByteRecord : SiblingSet :=
  [⟨[118, 119], VectorClock.new.set 1700000000 [110, 49] 1, 1700000000, false, 0⟩]

/-- Its payload. -/
def twoBytePayload : Bytes :=
  ((encodeSiblingSet twoByteRecord).toOption.getD []).dropLast.dropLast.dropLast.dropLast

/-- Without its value the record is rejected. -/
theorem twoByteRecord_without_value :
    ∃ e, decodeSiblingSet (sealed (twoBytePayload.take (twoBytePayload.length - 2))) = .error e :=
  (truncated_record_rejected_iff twoByteRecord twoBytePayload _ (by decide +kernel)
    (List.take_prefix _ _) (by decide +kernel)).2 (Or.inl (by decide +kernel))

/-- Without its last byte it is read, with a zero in its place. -/
theorem twoByteRecord_without_last_byte :
    encodeSiblingSet twoByteRecord = .ok (sealed twoBytePayload) ∧
      decodeSiblingSet (sealed twoBytePayload.dropLast) =
        .ok [⟨[118, 0], VectorClock.new.set 1700000000 [110, 49] 1, 1700000000, false, 0⟩] := by
  decide +kernel

end GoQuorum
