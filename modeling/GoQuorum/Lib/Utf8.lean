import GoQuorum.Lib.Bytes

/-!
# Byte strings as text

A byte string need not be UTF-8.  Text formats such as JSON carry only characters, and an encoder
that meets a byte which begins no character writes the replacement character U+FFFD for it.
`toValidUTF8` is what such an encoder makes of a byte string.  It leaves UTF-8 as it is
(`toValidUTF8_of_ascii` for the ASCII part), and what it returns is UTF-8: doing it twice changes
nothing (`toValidUTF8_idem`).
-/

namespace Lib

/-- What a first byte announces: the number of bytes that follow it, and the bounds of the next. -/
def leadByte (b : UInt8) : Option (ℕ × UInt8 × UInt8) :=
  if b < 0x80 then some (0, 0x80, 0xBF)
  else if b < 0xC2 then none
  else if b < 0xE0 then some (1, 0x80, 0xBF)
  else if b = 0xE0 then some (2, 0xA0, 0xBF)
  else if b = 0xED then some (2, 0x80, 0x9F)
  else if b < 0xF0 then some (2, 0x80, 0xBF)
  else if b = 0xF0 then some (3, 0x90, 0xBF)
  else if b < 0xF4 then some (3, 0x80, 0xBF)
  else if b = 0xF4 then some (3, 0x80, 0x8F)
  else none

/-- The text goes on with `n` continuation bytes, the first of them within the given bounds. -/
def continues : ℕ → UInt8 → UInt8 → Bytes → Bool
  | 0, _, _, _ => true
  | _ + 1, _, _, [] => false
  | n + 1, lo, hi, b :: l => lo ≤ b && b ≤ hi && continues n 0x80 0xBF l

/-- The length of the character at the front of a byte string, `0` if there is none. -/
def runeLen : Bytes → ℕ
  | [] => 0
  | b :: l =>
    match leadByte b with
    | some (n, lo, hi) => if continues n lo hi l then n + 1 else 0
    | none => 0

/-- The replacement character U+FFFD. -/
def replacement : Bytes := [0xEF, 0xBF, 0xBD]

/-- The loop of `toValidUTF8`, with the number of bytes left of the current character. -/
def toValidAux : ℕ → Bytes → Bytes
  | _, [] => []
  | k + 1, b :: l => b :: toValidAux k l
  | 0, b :: l =>
    match runeLen (b :: l) with
    | 0 => replacement ++ toValidAux 0 l
    | n + 1 => b :: toValidAux n l

/-- The byte string with every byte that belongs to no character replaced by U+FFFD. -/
def toValidUTF8 (bs : Bytes) : Bytes := toValidAux 0 bs

/-! ## Characters -/

theorem continues_append {n : ℕ} {lo hi : UInt8} {l : Bytes} (h : continues n lo hi l = true) :
    ∃ a t, l = a ++ t ∧ a.length = n ∧ ∀ t', continues n lo hi (a ++ t') = true := by
  induction n generalizing lo hi l with
  | zero => exact ⟨[], l, rfl, rfl, fun _ => by rw [continues]⟩
  | succ n ih =>
    cases l with
    | nil => cases h
    | cons b l =>
      rw [continues, Bool.and_eq_true] at h
      obtain ⟨a, t, rfl, ha, hcont⟩ := ih h.2
      refine ⟨b :: a, t, rfl, congrArg Nat.succ ha, fun t' => ?_⟩
      rw [List.cons_append, continues, Bool.and_eq_true]
      exact ⟨h.1, hcont t'⟩

/-- The character at the front of a byte string does not depend on what follows it. -/
theorem runeLen_eq_succ {bs : Bytes} {n : ℕ} (h : runeLen bs = n + 1) :
    ∃ c t, bs = c ++ t ∧ c.length = n + 1 ∧ ∀ t', runeLen (c ++ t') = n + 1 := by
  cases bs with
  | nil => cases h
  | cons b l =>
    rw [runeLen] at h
    cases hb : leadByte b with
    | none =>
      rw [hb] at h
      cases h
    | some r =>
      obtain ⟨m, lo, hi⟩ := r
      simp only [hb] at h
      split_ifs at h with hc
      obtain rfl : m = n := Nat.succ.inj h
      obtain ⟨a, t, rfl, ha, hcont⟩ := continues_append hc
      refine ⟨b :: a, t, rfl, congrArg Nat.succ ha, fun t' => ?_⟩
      simp only [List.cons_append, runeLen, hb, if_pos (hcont t')]

theorem toValidAux_append {a : Bytes} {k : ℕ} (h : a.length = k) (t : Bytes) :
    toValidAux k (a ++ t) = a ++ toValidUTF8 t := by
  induction a generalizing k with
  | nil =>
    obtain rfl : k = 0 := h.symm
    rfl
  | cons b a ih =>
    cases k with
    | zero => cases h
    | succ k => rw [List.cons_append, toValidAux, ih (Nat.succ.inj h), List.cons_append]

/-- A character is copied. -/
theorem toValidUTF8_char {c : Bytes} {n : ℕ} (hlen : c.length = n + 1) {t : Bytes}
    (h : runeLen (c ++ t) = n + 1) : toValidUTF8 (c ++ t) = c ++ toValidUTF8 t := by
  cases c with
  | nil => cases hlen
  | cons b a =>
    rw [List.cons_append] at h ⊢
    rw [toValidUTF8, toValidAux, h]
    dsimp only
    rw [toValidAux_append (Nat.succ.inj hlen), List.cons_append]

/-- Any other byte is replaced. -/
theorem toValidUTF8_bad {b : UInt8} {l : Bytes} (h : runeLen (b :: l) = 0) :
    toValidUTF8 (b :: l) = replacement ++ toValidUTF8 l := by
  rw [toValidUTF8, toValidAux, h]
  rfl

/-- What an encoder makes of a byte string is UTF-8. -/
theorem toValidUTF8_idem (bs : Bytes) : toValidUTF8 (toValidUTF8 bs) = toValidUTF8 bs := by
  induction hlen : bs.length using Nat.strong_induction_on generalizing bs with
  | _ k ih =>
    cases bs with
    | nil => rfl
    | cons b l =>
      cases h : runeLen (b :: l) with
      | zero =>
        have hl : l.length < k := by rw [← hlen, List.length_cons]; omega
        have hrep : runeLen (replacement ++ toValidUTF8 l) = 2 + 1 := rfl
        rw [toValidUTF8_bad h, toValidUTF8_char rfl hrep, ih l.length hl l rfl]
      | succ n =>
        obtain ⟨c, t, hct, hc, hrune⟩ := runeLen_eq_succ h
        have ht : t.length < k := by rw [← hlen, hct, List.length_append]; omega
        rw [hct, toValidUTF8_char hc (hrune t), toValidUTF8_char hc (hrune _), ih t.length ht t rfl]

/-- ASCII text is kept. -/
theorem toValidUTF8_of_ascii {bs : Bytes} (h : ∀ b ∈ bs, b < 0x80) : toValidUTF8 bs = bs := by
  induction bs with
  | nil => rfl
  | cons b l ih =>
    rw [List.forall_mem_cons] at h
    have hb : leadByte b = some (0, 0x80, 0xBF) := by rw [leadByte, if_pos h.1]
    have hrune : runeLen ([b] ++ l) = 0 + 1 := by
      simp only [List.singleton_append, runeLen, hb, continues, if_true]
    have hchar := toValidUTF8_char (c := [b]) rfl hrune
    rw [List.singleton_append] at hchar
    rw [hchar, ih h.2, List.singleton_append]

end Lib
