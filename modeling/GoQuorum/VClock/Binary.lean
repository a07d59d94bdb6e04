import GoQuorum.VClock.Clock
import Mathlib.Algebra.Order.BigOperators.Group.List

/-!
# The binary form of a clock

`MarshalBinary` and `UnmarshalBinary` of `api/vclock/vclock.go`: a two-byte entry count, then for
each node id in order its two-byte length, its bytes, the counter and the time, little-endian.

The writer accepts ids of up to 65535 bytes, the reader only those of 1 to 1024 bytes.
`unmarshalEntries_marshalEntries` and `unmarshalEntries_of_bad_id` say what the reader makes of the
writer's output on either side of that limit.
-/

namespace GoQuorum

open Lib

/-- What `MarshalBinary` rejects. -/
inductive MarshalError where
  | tooManyEntries (count : ℕ)
  | nodeIDTooLong (length : ℕ)
  deriving DecidableEq, Repr

/-- What `UnmarshalBinary` rejects; `i` is the position of the entry. -/
inductive UnmarshalError where
  | dataTooShort (length : ℕ)
  | readEntryCount (err : ReadError)
  | readNodeIDLength (i : ℕ) (err : ReadError)
  | invalidNodeIDLength (length : ℕ)
  | readNodeID (i : ℕ) (err : ReadError)
  | readCounter (i : ℕ) (err : ReadError)
  | readTimestamp (i : ℕ) (err : ReadError)
  deriving DecidableEq, Repr

/-- An `int64` as its eight bytes. -/
def int64Bytes (t : Int64) : Bytes := leBytes 8 t.toUInt64.toNat

/-- An `int64` from the number its eight bytes spell. -/
def int64OfNat (n : ℕ) : Int64 := (UInt64.ofNat n).toInt64

namespace VectorClock

/-- One round of the loop of `MarshalBinary`. -/
def marshalEntry (p : NodeID × VectorClockEntry) : Except MarshalError Bytes :=
  if p.1.length > 65535 then .error (.nodeIDTooLong p.1.length)
  else .ok (leBytes 2 p.1.length ++ p.1 ++ leBytes 8 p.2.counter.toNat ++ int64Bytes p.2.timestamp)

/-- The loop of `MarshalBinary`. -/
def marshalEntries : List (NodeID × VectorClockEntry) → Except MarshalError Bytes
  | [] => .ok []
  | p :: l => do
    let b ← marshalEntry p
    let bs ← marshalEntries l
    return b ++ bs

/-- `MarshalBinary`. -/
def marshalBinary (vc : VectorClock) : Except MarshalError Bytes :=
  if vc.size > 65535 then .error (.tooManyEntries vc.size)
  else do
    let bs ← marshalEntries vc.entries.toList
    return leBytes 2 vc.size ++ bs

/-- One round of the loop of `UnmarshalBinary`: the entry and the unread input. -/
def unmarshalEntry (i : ℕ) (buf : Bytes) :
    Except UnmarshalError ((NodeID × VectorClockEntry) × Bytes) := do
  let (nodeIDLen, buf) ← (readLE 2 buf).mapError (.readNodeIDLength i)
  if nodeIDLen = 0 ∨ nodeIDLen > 1024 then .error (.invalidNodeIDLength nodeIDLen)
  else
    let (nodeID, buf) ← (readSome nodeIDLen buf).mapError (.readNodeID i)
    let (counter, buf) ← (readLE 8 buf).mapError (.readCounter i)
    let (timestamp, buf) ← (readLE 8 buf).mapError (.readTimestamp i)
    return ((nodeID, ⟨UInt64.ofNat counter, int64OfNat timestamp⟩), buf)

/-- The loop of `UnmarshalBinary`: `n` more entries from position `i`, inserted into `entries`. -/
def unmarshalEntries : ℕ → ℕ → SortedMap NodeID VectorClockEntry → Bytes →
    Except UnmarshalError (SortedMap NodeID VectorClockEntry)
  | 0, _, entries, _ => .ok entries
  | n + 1, i, entries, buf => do
    let (p, buf) ← unmarshalEntry i buf
    unmarshalEntries n (i + 1) (entries.insert p.1 p.2) buf

/-- `UnmarshalBinary`. -/
def unmarshalBinary (data : Bytes) : Except UnmarshalError VectorClock :=
  if data.length < 2 then .error (.dataTooShort data.length)
  else do
    let (entryCount, buf) ← (readLE 2 data).mapError .readEntryCount
    let entries ← unmarshalEntries entryCount 0 SortedMap.empty buf
    return ⟨entries⟩

/-! ## Sizes -/

/-- The number of bytes of an entry. -/
def entrySize (p : NodeID × VectorClockEntry) : ℕ := 18 + p.1.length

/-- The number of bytes `MarshalBinary` writes. -/
def marshalSize (vc : VectorClock) : ℕ := 2 + (vc.entries.toList.map entrySize).sum

theorem marshalEntry_eq_ok {p : NodeID × VectorClockEntry} {bs : Bytes} :
    marshalEntry p = .ok bs ↔ p.1.length ≤ 65535 ∧
      bs = leBytes 2 p.1.length ++ p.1 ++ leBytes 8 p.2.counter.toNat ++
        int64Bytes p.2.timestamp := by
  unfold marshalEntry
  split_ifs with h
  · exact iff_of_false nofun fun hc => absurd hc.1 (by omega)
  · rw [Except.ok.injEq]
    exact ⟨fun e => ⟨by omega, e.symm⟩, fun e => e.2.symm⟩

theorem marshalEntries_cons_eq_ok {p : NodeID × VectorClockEntry}
    {l : List (NodeID × VectorClockEntry)} {bs : Bytes} :
    marshalEntries (p :: l) = .ok bs ↔
      ∃ b cs, marshalEntry p = .ok b ∧ marshalEntries l = .ok cs ∧ bs = b ++ cs := by
  simp only [marshalEntries, bind_eq_ok, pure, Except.pure, Except.ok.injEq]
  constructor
  · rintro ⟨b, hb, cs, hcs, rfl⟩
    exact ⟨b, cs, hb, hcs, rfl⟩
  · rintro ⟨b, cs, hb, hcs, rfl⟩
    exact ⟨b, hb, cs, hcs, rfl⟩

theorem length_marshalEntry {p : NodeID × VectorClockEntry} {bs : Bytes}
    (h : marshalEntry p = .ok bs) : bs.length = entrySize p := by
  obtain ⟨-, rfl⟩ := marshalEntry_eq_ok.1 h
  simp only [int64Bytes, List.length_append, length_leBytes, entrySize]
  omega

theorem length_marshalEntries {l : List (NodeID × VectorClockEntry)} {bs : Bytes}
    (h : marshalEntries l = .ok bs) : bs.length = (l.map entrySize).sum := by
  induction l generalizing bs with
  | nil =>
    cases h
    rfl
  | cons p l ih =>
    obtain ⟨b, cs, hb, hcs, rfl⟩ := marshalEntries_cons_eq_ok.1 h
    rw [List.length_append, length_marshalEntry hb, ih hcs, List.map_cons, List.sum_cons]

theorem length_le_of_marshalEntries {l : List (NodeID × VectorClockEntry)} {bs : Bytes}
    (h : marshalEntries l = .ok bs) : ∀ p ∈ l, p.1.length ≤ 65535 := by
  induction l generalizing bs with
  | nil => exact fun p hp => absurd hp List.not_mem_nil
  | cons q l ih =>
    obtain ⟨b, cs, hb, hcs, rfl⟩ := marshalEntries_cons_eq_ok.1 h
    rw [List.forall_mem_cons]
    exact ⟨(marshalEntry_eq_ok.1 hb).1, ih hcs⟩

theorem marshalEntries_ok {l : List (NodeID × VectorClockEntry)}
    (h : ∀ p ∈ l, p.1.length ≤ 65535) : ∃ bs, marshalEntries l = .ok bs := by
  induction l with
  | nil => exact ⟨[], rfl⟩
  | cons p l ih =>
    rw [List.forall_mem_cons] at h
    obtain ⟨cs, hcs⟩ := ih h.2
    exact ⟨_, marshalEntries_cons_eq_ok.2 ⟨_, cs, marshalEntry_eq_ok.2 ⟨h.1, rfl⟩, hcs, rfl⟩⟩

theorem marshalBinary_eq_ok {vc : VectorClock} {bs : Bytes} :
    vc.marshalBinary = .ok bs ↔ vc.size ≤ 65535 ∧
      ∃ cs, marshalEntries vc.entries.toList = .ok cs ∧ bs = leBytes 2 vc.size ++ cs := by
  unfold marshalBinary
  split_ifs with h
  · exact iff_of_false nofun fun hc => absurd hc.1 (by omega)
  · simp only [bind_eq_ok, pure, Except.pure, Except.ok.injEq]
    constructor
    · rintro ⟨cs, hcs, rfl⟩
      exact ⟨by omega, cs, hcs, rfl⟩
    · rintro ⟨-, cs, hcs, rfl⟩
      exact ⟨cs, hcs, rfl⟩

/-- Whether a clock can be written depends only on its node ids. -/
theorem marshalBinary_ok_iff {vc : VectorClock} : (∃ bs, vc.marshalBinary = .ok bs) ↔
    vc.entries.keys.length ≤ 65535 ∧ ∀ id ∈ vc.entries.keys, id.length ≤ 65535 := by
  have hsize : vc.entries.keys.length = vc.size := List.length_map _
  rw [hsize, SortedMap.keys, List.forall_mem_map]
  constructor
  · rintro ⟨bs, h⟩
    obtain ⟨hle, cs, hcs, -⟩ := marshalBinary_eq_ok.1 h
    exact ⟨hle, length_le_of_marshalEntries hcs⟩
  · rintro ⟨hle, hids⟩
    obtain ⟨cs, hcs⟩ := marshalEntries_ok hids
    exact ⟨_, marshalBinary_eq_ok.2 ⟨hle, cs, hcs, rfl⟩⟩

theorem marshalSize_eq_keys (vc : VectorClock) :
    vc.marshalSize = 2 + (vc.entries.keys.map fun id => 18 + id.length).sum := by
  rw [marshalSize, SortedMap.keys, List.map_map]
  rfl

theorem length_marshalBinary {vc : VectorClock} {bs : Bytes} (h : vc.marshalBinary = .ok bs) :
    bs.length = vc.marshalSize := by
  obtain ⟨-, cs, hcs, rfl⟩ := marshalBinary_eq_ok.1 h
  rw [List.length_append, length_leBytes, length_marshalEntries hcs, marshalSize]

/-! ## Reading what was written -/

theorem int64OfNat_toNat (t : Int64) : int64OfNat t.toUInt64.toNat = t := by
  rw [int64OfNat, UInt64.ofNat_toNat]
  rfl

/-- The reader accepts an id of this length. -/
def ReadableID (p : NodeID × VectorClockEntry) : Prop := 1 ≤ p.1.length ∧ p.1.length ≤ 1024

instance : DecidablePred ReadableID := fun p =>
  inferInstanceAs (Decidable (1 ≤ p.1.length ∧ p.1.length ≤ 1024))

theorem unmarshalEntry_marshalEntry {p : NodeID × VectorClockEntry} {b : Bytes}
    (hp : ReadableID p) (hb : marshalEntry p = .ok b) (i : ℕ) (rest : Bytes) :
    unmarshalEntry i (b ++ rest) = .ok (p, rest) := by
  obtain ⟨hlen, rfl⟩ := marshalEntry_eq_ok.1 hb
  have hne : p.1 ≠ [] := List.ne_nil_of_length_pos hp.1
  have hok : ¬ (p.1.length = 0 ∨ p.1.length > 1024) := by
    have := hp.1
    have := hp.2
    omega
  have hts : p.2.timestamp.toUInt64.toNat < 256 ^ 8 := p.2.timestamp.toUInt64.toNat_lt
  have hc : p.2.counter.toNat < 256 ^ 8 := p.2.counter.toNat_lt
  simp only [unmarshalEntry, int64Bytes, List.append_assoc]
  rw [readLE_append_of_lt (by omega : p.1.length < 256 ^ 2)]
  simp only [mapError_ok, ok_bind, if_neg hok]
  rw [readSome_append hne]
  simp only [mapError_ok, ok_bind]
  rw [readLE_append_of_lt hc]
  simp only [mapError_ok, ok_bind]
  rw [readLE_append_of_lt hts]
  simp only [mapError_ok, ok_bind, UInt64.ofNat_toNat, int64OfNat_toNat]
  rfl

/-- The reader refuses an id outside its limits, although the writer took it. -/
theorem unmarshalEntry_of_bad_id {p : NodeID × VectorClockEntry} {b : Bytes}
    (hp : ¬ ReadableID p) (hb : marshalEntry p = .ok b) (i : ℕ) (rest : Bytes) :
    unmarshalEntry i (b ++ rest) = .error (.invalidNodeIDLength p.1.length) := by
  obtain ⟨hlen, rfl⟩ := marshalEntry_eq_ok.1 hb
  have hbad : p.1.length = 0 ∨ p.1.length > 1024 := by
    unfold ReadableID at hp
    omega
  simp only [unmarshalEntry, List.append_assoc]
  rw [readLE_append_of_lt (by omega : p.1.length < 256 ^ 2)]
  simp only [mapError_ok, ok_bind, if_pos hbad]

/-- The loop reads back entries whose ids are within the limits. -/
theorem unmarshalEntries_marshalEntries {l : List (NodeID × VectorClockEntry)} {bs : Bytes}
    (hl : ∀ p ∈ l, ReadableID p) (hbs : marshalEntries l = .ok bs) (i : ℕ)
    (m : SortedMap NodeID VectorClockEntry) (rest : Bytes) :
    unmarshalEntries l.length i m (bs ++ rest) =
      .ok (l.foldl (fun m p => m.insert p.1 p.2) m) := by
  induction l generalizing bs i m with
  | nil => rfl
  | cons p l ih =>
    obtain ⟨b, cs, hb, hcs, rfl⟩ := marshalEntries_cons_eq_ok.1 hbs
    rw [List.forall_mem_cons] at hl
    rw [List.length_cons, unmarshalEntries, List.append_assoc,
      unmarshalEntry_marshalEntry hl.1 hb, ok_bind]
    exact ih hl.2 hcs (i + 1) (m.insert p.1 p.2)

/-- The loop stops at the first id outside the limits. -/
theorem unmarshalEntries_of_bad_id {l : List (NodeID × VectorClockEntry)} {bs : Bytes}
    (hl : ¬ ∀ p ∈ l, ReadableID p) (hbs : marshalEntries l = .ok bs) (i : ℕ)
    (m : SortedMap NodeID VectorClockEntry) (rest : Bytes) :
    ∃ e, unmarshalEntries l.length i m (bs ++ rest) = .error e := by
  induction l generalizing bs i m with
  | nil => exact absurd (by simp) hl
  | cons p l ih =>
    obtain ⟨b, cs, hb, hcs, rfl⟩ := marshalEntries_cons_eq_ok.1 hbs
    rw [List.length_cons, unmarshalEntries, List.append_assoc]
    by_cases hp : ReadableID p
    · rw [unmarshalEntry_marshalEntry hp hb, ok_bind]
      exact ih (fun h => hl (List.forall_mem_cons.2 ⟨hp, h⟩)) hcs _ _
    · rw [unmarshalEntry_of_bad_id hp hb, error_bind]
      exact ⟨_, rfl⟩

/-- An entry that is read has an id within the limits and takes up its size in the input. -/
theorem unmarshalEntry_eq_ok {i : ℕ} {buf rest : Bytes} {p : NodeID × VectorClockEntry}
    (h : unmarshalEntry i buf = .ok (p, rest)) :
    ReadableID p ∧ buf.length = entrySize p + rest.length := by
  simp only [unmarshalEntry, bind_eq_ok, mapError_eq_ok, Prod.exists] at h
  obtain ⟨n, b₁, h₁, h⟩ := h
  split_ifs at h with hn
  simp only [bind_eq_ok, mapError_eq_ok, Prod.exists, pure, Except.pure, Except.ok.injEq,
    Prod.mk.injEq] at h
  obtain ⟨id, b₂, h₂, c, b₃, h₃, t, b₄, h₄, rfl, rfl⟩ := h
  have e₁ := length_of_readLE h₁
  obtain ⟨e₂, hid⟩ := length_of_readSome h₂
  have e₃ := length_of_readLE h₃
  have e₄ := length_of_readLE h₄
  unfold ReadableID entrySize
  dsimp only
  omega

/-- The entries that are read have ids within the limits and fit in the input, whatever was read
twice. -/
theorem unmarshalEntries_eq_ok {n i : ℕ} {m m' : SortedMap NodeID VectorClockEntry} {buf : Bytes}
    (h : unmarshalEntries n i m buf = .ok m') :
    18 * n ≤ buf.length ∧ m'.weight entrySize ≤ m.weight entrySize + buf.length ∧
      ∀ p ∈ m'.toList, ReadableID p ∨ p ∈ m.toList := by
  induction n generalizing i m buf with
  | zero =>
    obtain rfl := Except.ok.inj h
    exact ⟨by omega, by omega, fun p hp => Or.inr hp⟩
  | succ n ih =>
    simp only [unmarshalEntries, bind_eq_ok, Prod.exists] at h
    obtain ⟨id, e, rest, hp, h⟩ := h
    obtain ⟨hid, hlen⟩ := unmarshalEntry_eq_ok hp
    obtain ⟨h₁, h₂, h₃⟩ := ih h
    have hw := SortedMap.weight_insert_le entrySize m id e
    have hsize : 18 ≤ entrySize (id, e) := Nat.le_add_right 18 _
    refine ⟨by omega, by omega, fun p hp => ?_⟩
    rcases h₃ p hp with hp | hp
    · exact Or.inl hp
    · rcases SortedMap.mem_toList_insert hp with rfl | hp
      · exact Or.inl hid
      · exact Or.inr hp

/-- `UnmarshalBinary` of an input that begins with a written entry count. -/
theorem unmarshalBinary_leBytes {n : ℕ} (hn : n ≤ 65535) (buf : Bytes) :
    unmarshalBinary (leBytes 2 n ++ buf) =
      (do let entries ← unmarshalEntries n 0 SortedMap.empty buf; return ⟨entries⟩) := by
  have hlen : ¬ (leBytes 2 n ++ buf).length < 2 := by
    rw [List.length_append, length_leBytes]
    omega
  rw [unmarshalBinary, if_neg hlen, readLE_append_of_lt (by omega), mapError_ok, ok_bind]

/-- The round trip of a clock whose ids are within the reader's limits. -/
theorem unmarshalBinary_marshalBinary {vc : VectorClock} {bs : Bytes}
    (hids : ∀ p ∈ vc.entries.toList, ReadableID p) (h : vc.marshalBinary = .ok bs) :
    unmarshalBinary bs = .ok vc := by
  obtain ⟨hsize, cs, hcs, rfl⟩ := marshalBinary_eq_ok.1 h
  have hloop := unmarshalEntries_marshalEntries hids hcs 0 SortedMap.empty []
  rw [List.append_nil] at hloop
  rw [unmarshalBinary_leBytes hsize, size, SortedMap.size, hloop, ok_bind]
  exact congrArg Except.ok (ext_entries (SortedMap.ofList_toList vc.entries))

/-- Outside the limits, the reader fails on what the writer produced. -/
theorem unmarshalBinary_of_bad_id {vc : VectorClock} {bs : Bytes}
    (hids : ¬ ∀ p ∈ vc.entries.toList, ReadableID p) (h : vc.marshalBinary = .ok bs) :
    ∃ e, unmarshalBinary bs = .error e := by
  obtain ⟨hsize, cs, hcs, rfl⟩ := marshalBinary_eq_ok.1 h
  obtain ⟨e, he⟩ := unmarshalEntries_of_bad_id hids hcs 0 SortedMap.empty []
  rw [List.append_nil] at he
  rw [unmarshalBinary_leBytes hsize, size, SortedMap.size, he, error_bind]
  exact ⟨e, rfl⟩

theorem sum_entrySize_le {l : List (NodeID × VectorClockEntry)}
    (h : ∀ p ∈ l, p.1.length ≤ 65535) : (l.map entrySize).sum ≤ 65553 * l.length := by
  induction l with
  | nil => rfl
  | cons p l ih =>
    rw [List.forall_mem_cons] at h
    have := ih h.2
    have := h.1
    simp only [List.map_cons, List.sum_cons, List.length_cons, entrySize]
    omega

/-- A proper prefix of a very long clock is never read as a clock: the entries that fit in the
prefix cannot have filled 2³² bytes. -/
theorem unmarshalBinary_take_of_long {vc : VectorClock} {bs : Bytes} {n : ℕ}
    (h : vc.marshalBinary = .ok bs) (hlong : 2 ^ 32 ≤ bs.length) (hn : n ≤ 10000) :
    ∃ e, unmarshalBinary (bs.take n) = .error e := by
  rcases hr : unmarshalBinary (bs.take n) with e | vc'
  · exact ⟨e, rfl⟩
  exfalso
  have hsum := length_marshalBinary h
  obtain ⟨hsize, cs, hcs, rfl⟩ := marshalBinary_eq_ok.1 h
  have hbound := sum_entrySize_le (length_le_of_marshalEntries hcs)
  have htake : 2 ≤ n := by
    by_contra hlt
    rw [unmarshalBinary, if_pos (by rw [List.length_take]; omega)] at hr
    cases hr
  rw [List.take_append, length_leBytes, List.take_of_length_le (by rw [length_leBytes]; omega),
    unmarshalBinary_leBytes hsize, bind_eq_ok] at hr
  obtain ⟨m, hm, -⟩ := hr
  have hcount := (unmarshalEntries_eq_ok hm).1
  rw [List.length_take] at hcount
  unfold marshalSize at hsum
  unfold size SortedMap.size at hcount
  omega

/-- A clock that is read has ids within the limits and is no longer than its input. -/
theorem unmarshalBinary_eq_ok {data : Bytes} {vc : VectorClock}
    (h : unmarshalBinary data = .ok vc) :
    (∀ p ∈ vc.entries.toList, ReadableID p) ∧ vc.marshalSize ≤ data.length := by
  unfold unmarshalBinary at h
  split_ifs at h
  simp only [bind_eq_ok, mapError_eq_ok, Prod.exists, pure, Except.pure, Except.ok.injEq] at h
  obtain ⟨n, buf, hbuf, m, hm, rfl⟩ := h
  obtain ⟨-, hw, hids⟩ := unmarshalEntries_eq_ok hm
  have hlen := length_of_readLE hbuf
  have hempty : (SortedMap.empty : SortedMap NodeID VectorClockEntry).weight entrySize = 0 := rfl
  refine ⟨fun p hp => (hids p hp).resolve_right List.not_mem_nil, ?_⟩
  change 2 + m.weight entrySize ≤ data.length
  omega

theorem length_le_sum_entrySize (l : List (NodeID × VectorClockEntry)) :
    18 * l.length ≤ (l.map entrySize).sum := by
  induction l with
  | nil => rfl
  | cons p l ih =>
    simp only [List.length_cons, List.map_cons, List.sum_cons, entrySize]
    omega

/-! ## Pruning -/

theorem mem_entries_prune {now : Int64} {threshold : Duration} {max : ℤ} {newest : NewestFirst}
    {vc : VectorClock} {p : NodeID × VectorClockEntry}
    (h : p ∈ (vc.prune now threshold max newest).1.entries.toList) : p ∈ vc.entries.toList := by
  have hyoung : ∀ q ∈ (vc.dropOld now threshold.wholeSeconds).entries.toList,
      q ∈ vc.entries.toList := fun q hq => (List.mem_filter.1 hq).1
  apply hyoung
  simp only [prune, keepNewest] at h
  split_ifs at h
  · have hrun := (SortedMap.mem_toList_foldl_insert h).resolve_right List.not_mem_nil
    exact newest.mem_run.1 (List.mem_of_mem_take hrun)
  · exact h

/-- A pruned clock is written in no more bytes. -/
theorem marshalSize_prune_le (now : Int64) (threshold : Duration) (max : ℤ) (newest : NewestFirst)
    (vc : VectorClock) : (vc.prune now threshold max newest).1.marshalSize ≤ vc.marshalSize := by
  have hyoung : (vc.dropOld now threshold.wholeSeconds).marshalSize ≤ vc.marshalSize :=
    Nat.add_le_add_left (List.Sublist.sum_le_sum (List.filter_sublist.map entrySize)
      fun _ _ => Nat.zero_le _) 2
  refine le_trans ?_ hyoung
  simp only [prune, keepNewest]
  split_ifs
  · refine Nat.add_le_add_left ?_ 2
    set l := (vc.dropOld now threshold.wholeSeconds).entries.toList
    have hfold := SortedMap.weight_foldl_insert_le entrySize ((newest.run l).take max.toNat)
      SortedMap.empty
    have htake : (((newest.run l).take max.toNat).map entrySize).sum ≤
        ((newest.run l).map entrySize).sum :=
      List.Sublist.sum_le_sum ((List.take_sublist _ _).map entrySize) fun _ _ => Nat.zero_le _
    have hperm : ((newest.run l).map entrySize).sum = (l.map entrySize).sum :=
      ((newest.perm l).map entrySize).sum_eq
    exact (hfold.trans (le_of_eq (Nat.zero_add _))).trans (htake.trans hperm.le)
  · exact le_rfl

end VectorClock

end GoQuorum
