import GoQuorum.Lib.Fallible
import Mathlib.Data.List.Lex
import Mathlib.Data.Nat.Digits.Defs
import Mathlib.Data.Nat.Digits.Lemmas
import Mathlib.Tactic.Ring

/-!
# Byte strings

Byte strings are lists of `UInt8`, compared lexicographically.  This file has the ways a
program writes and reads them that the development needs:

* fixed-width little-endian integers (`leBytes`, `leNat`), with `leNat_leBytes`;
* readers that consume a prefix: `readFull` fails on a short input, `readSome` accepts one and
  leaves the rest of its buffer zero;
* decimal text (`decimal`, `decimalInt`), with the injectivity of both and `append_inj_of_head`,
  which cuts two equal texts at the first byte outside a class;
* substrings (`<:+:`), which lie on one side of a number that they share no byte with
  (`not_infix_of_number`).
-/

namespace Lib

/-- Byte strings. -/
abbrev Bytes := List UInt8

instance linearOrderUInt8 : LinearOrder UInt8 where
  le := (· ≤ ·)
  lt := (· < ·)
  le_refl := UInt8.le_refl
  le_trans := fun _ _ _ => UInt8.le_trans
  le_antisymm := fun _ _ => UInt8.le_antisymm
  le_total := UInt8.le_total
  lt_iff_le_not_ge := fun a b => by
    rw [UInt8.not_le]
    exact ⟨fun h => ⟨UInt8.le_of_lt h, h⟩, fun h => h.2⟩
  toDecidableLE := inferInstance
  toDecidableEq := inferInstance
  toDecidableLT := inferInstance

-- one name for what `decide` of a membership carries, instead of an instance for each use
instance lawfulBEqBytes : LawfulBEq Bytes := inferInstance

/-! ## Little-endian integers -/

/-- The `w` low bytes of `n`, least significant first. -/
def leBytes : ℕ → ℕ → Bytes
  | 0, _ => []
  | w + 1, n => UInt8.ofNat n :: leBytes w (n / 256)

/-- The number whose bytes are listed least significant first. -/
def leNat : Bytes → ℕ
  | [] => 0
  | b :: bs => b.toNat + 256 * leNat bs

@[simp] theorem length_leBytes (w n : ℕ) : (leBytes w n).length = w := by
  induction w generalizing n with
  | zero => rfl
  | succ w ih => rw [leBytes, List.length_cons, ih]

theorem leNat_leBytes (w n : ℕ) : leNat (leBytes w n) = n % 256 ^ w := by
  induction w generalizing n with
  | zero => rw [pow_zero, Nat.mod_one]; rfl
  | succ w ih =>
    rw [leBytes, leNat, ih, pow_succ', Nat.mod_mul, UInt8.toNat_ofNat']

theorem leNat_leBytes_of_lt {w n : ℕ} (h : n < 256 ^ w) : leNat (leBytes w n) = n := by
  rw [leNat_leBytes, Nat.mod_eq_of_lt h]

/-! ## Readers -/

/-- How a read fails: at the end of the input, or before the requested length. -/
inductive ReadError where
  | eof
  | unexpectedEOF
  deriving DecidableEq, Repr

/-- Read exactly `n` bytes. -/
def readFull (n : ℕ) (bs : Bytes) : Except ReadError (Bytes × Bytes) :=
  if n ≤ bs.length then .ok (bs.take n, bs.drop n)
  else if bs = [] then .error .eof
  else .error .unexpectedEOF

/-- Read up to `n` bytes into a zeroed buffer of length `n`; only an exhausted input is an
error. -/
def readSome (n : ℕ) (bs : Bytes) : Except ReadError (Bytes × Bytes) :=
  if bs = [] then .error .eof
  else .ok ((bs.take n).rightpad n 0, bs.drop n)

/-- Read a little-endian integer of `w` bytes. -/
def readLE (w : ℕ) (bs : Bytes) : Except ReadError (ℕ × Bytes) :=
  (readFull w bs).map fun r => (leNat r.1, r.2)

theorem readFull_append (a bs : Bytes) : readFull a.length (a ++ bs) = .ok (a, bs) := by
  rw [readFull, if_pos (by simp), List.take_left, List.drop_left]

theorem readLE_append (w n : ℕ) (bs : Bytes) :
    readLE w (leBytes w n ++ bs) = .ok (n % 256 ^ w, bs) := by
  have h := readFull_append (leBytes w n) bs
  rw [length_leBytes] at h
  rw [readLE, h, Except.map, leNat_leBytes]

theorem readLE_append_of_lt {w n : ℕ} (h : n < 256 ^ w) (bs : Bytes) :
    readLE w (leBytes w n ++ bs) = .ok (n, bs) := by
  rw [readLE_append, Nat.mod_eq_of_lt h]

/-- What a successful integer read leaves is shorter by the width. -/
theorem length_of_readLE {w n : ℕ} {bs rest : Bytes} (h : readLE w bs = .ok (n, rest)) :
    bs.length = w + rest.length := by
  unfold readLE readFull at h
  split_ifs at h with hw
  · simp only [Except.map, Except.ok.injEq, Prod.mk.injEq] at h
    rw [← h.2, List.length_drop]
    omega
  all_goals cases h

theorem readSome_append {a : Bytes} (ha : a ≠ []) (bs : Bytes) :
    readSome a.length (a ++ bs) = .ok (a, bs) := by
  rw [readSome, if_neg (by simp [ha]), List.take_left, List.drop_left, List.rightpad,
    Nat.sub_self, List.replicate_zero, List.append_nil]

/-- A read inside the input returns what is there. -/
theorem readSome_of_le {n : ℕ} {bs : Bytes} (h0 : 0 < n) (h : n ≤ bs.length) :
    readSome n bs = .ok (bs.take n, bs.drop n) := by
  have hb : bs ≠ [] := by
    rintro rfl
    simp at h
    omega
  rw [readSome, if_neg hb, List.rightpad, List.length_take, Nat.min_eq_left h, Nat.sub_self,
    List.replicate_zero, List.append_nil]

theorem length_of_readSome {n : ℕ} {bs out rest : Bytes} (h : readSome n bs = .ok (out, rest)) :
    rest.length = bs.length - n ∧ out.length = n := by
  unfold readSome at h
  split_ifs at h
  simp only [Except.ok.injEq, Prod.mk.injEq] at h
  obtain ⟨rfl, rfl⟩ := h
  rw [List.rightpad, List.length_append, List.length_replicate, List.length_take,
    List.length_drop]
  omega

/-! ## Decimal text -/

/-- The digits of a number in base ten, most significant first. -/
def decimal (n : ℕ) : Bytes :=
  if n = 0 then [48] else (Nat.digits 10 n).reverse.map fun d => UInt8.ofNat (48 + d)

/-- Decimal text with a sign. -/
def decimalInt (z : ℤ) : Bytes :=
  if z < 0 then 45 :: decimal z.natAbs else decimal z.natAbs

/-- Decimal digits. -/
def isDigit (b : UInt8) : Bool := 48 ≤ b && b ≤ 57

theorem digit_toNat {d : ℕ} (h : d < 10) : (UInt8.ofNat (48 + d)).toNat = 48 + d := by
  rw [UInt8.toNat_ofNat']
  omega

theorem isDigit_of_mem_decimal {n : ℕ} {b : UInt8} (h : b ∈ decimal n) : isDigit b = true := by
  unfold decimal at h
  split_ifs at h
  · rw [List.mem_singleton.1 h]
    rfl
  · obtain ⟨d, hd, rfl⟩ := List.mem_map.1 h
    have h10 : d < 10 := Nat.digits_lt_base (by norm_num) (List.mem_reverse.1 hd)
    simp only [isDigit, Bool.and_eq_true, decide_eq_true_eq, UInt8.le_iff_toNat_le,
      digit_toNat h10]
    constructor
    · exact Nat.le_add_right 48 d
    · change 48 + d ≤ 57
      omega

theorem decimal_injective : Function.Injective decimal := by
  intro m n h
  -- the digits are recovered byte by byte, and they determine the number
  have value : ∀ k : ℕ, Nat.ofDigits 10 ((decimal k).reverse.map fun b => b.toNat - 48) = k := by
    intro k
    unfold decimal
    split_ifs with hk
    · rw [hk]
      rfl
    · have e : ((Nat.digits 10 k).reverse.map fun d => UInt8.ofNat (48 + d)).reverse.map
          (fun b => b.toNat - 48) = Nat.digits 10 k := by
        rw [← List.map_reverse, List.reverse_reverse, List.map_map]
        conv_rhs => rw [← List.map_id (Nat.digits 10 k)]
        refine List.map_congr_left fun d hd => ?_
        have h10 : d < 10 := Nat.digits_lt_base (by norm_num) hd
        simp only [Function.comp_apply, digit_toNat h10, id]
        omega
      rw [e, Nat.ofDigits_digits]
  rw [← value m, ← value n, h]

theorem head_decimal_ne_minus (n : ℕ) (l : Bytes) : decimal n ≠ 45 :: l := by
  intro h
  have := isDigit_of_mem_decimal (h ▸ List.mem_cons_self : 45 ∈ decimal n)
  exact absurd this (by decide)

theorem decimalInt_injective : Function.Injective decimalInt := by
  intro m n h
  unfold decimalInt at h
  split_ifs at h with hm hn hn
  · have := decimal_injective (List.cons.inj h).2
    omega
  · exact absurd h.symm (head_decimal_ne_minus _ _)
  · exact absurd h (head_decimal_ne_minus _ _)
  · have := decimal_injective h
    omega

theorem mem_decimalInt {z : ℤ} {b : UInt8} (h : b ∈ decimalInt z) : isDigit b = true ∨ b = 45 := by
  unfold decimalInt at h
  split_ifs at h
  · rcases List.mem_cons.1 h with h | h
    · exact Or.inr h
    · exact Or.inl (isDigit_of_mem_decimal h)
  · exact Or.inl (isDigit_of_mem_decimal h)

/-- Two equal texts that begin with bytes of one class, each followed by a byte outside it, agree
on both parts. -/
theorem append_inj_of_head {α : Type} {p : α → Prop} {a b u v : List α} {x y : α}
    (ha : ∀ c ∈ a, p c) (hb : ∀ c ∈ b, p c) (hx : ¬ p x) (hy : ¬ p y)
    (h : a ++ x :: u = b ++ y :: v) : a = b ∧ x :: u = y :: v := by
  induction a generalizing b with
  | nil =>
    cases b with
    | nil => exact ⟨rfl, h⟩
    | cons d b =>
      obtain ⟨rfl, -⟩ := List.cons.inj h
      exact absurd (hb x List.mem_cons_self) hx
  | cons c a ih =>
    cases b with
    | nil =>
      obtain ⟨rfl, -⟩ := List.cons.inj h
      exact absurd (ha c List.mem_cons_self) hy
    | cons d b =>
      obtain ⟨rfl, rest⟩ := List.cons.inj h
      obtain ⟨rfl, e⟩ := ih (fun c hc => ha c (List.mem_cons_of_mem _ hc))
        (fun c hc => hb c (List.mem_cons_of_mem _ hc)) rest
      exact ⟨rfl, e⟩

/-! ## Substrings -/

section Infix

variable {α : Type*} {sub a d b : List α}

/-- A substring does not begin in front of elements that it does not contain. -/
theorem infix_of_infix_append (hne : sub ≠ []) (hd : ∀ x ∈ d, x ∉ sub) (h : sub <:+: d ++ b) :
    sub <:+: b := by
  induction d with
  | nil => exact h
  | cons x d ih =>
    rcases List.infix_cons_iff.1 h with hpre | hinf
    · obtain ⟨y, t, rfl⟩ := List.exists_cons_of_ne_nil hne
      obtain ⟨rfl, -⟩ := List.cons_prefix_cons.1 hpre
      exact absurd List.mem_cons_self (hd y List.mem_cons_self)
    · exact ih (fun z hz => hd z (List.mem_cons_of_mem _ hz)) hinf

/-- A substring lies on one side of elements that it does not contain. -/
theorem infix_or_infix_of_separated (hne : sub ≠ []) (hd₀ : d ≠ []) (hd : ∀ x ∈ d, x ∉ sub)
    (h : sub <:+: a ++ (d ++ b)) : sub <:+: a ∨ sub <:+: b := by
  induction a with
  | nil => exact Or.inr (infix_of_infix_append hne hd h)
  | cons y a ih =>
    rcases List.infix_cons_iff.1 h with hpre | hinf
    · left
      rcases List.prefix_or_prefix_of_prefix hpre (List.prefix_append (y :: a) (d ++ b)) with
        hsub | ⟨t, rfl⟩
      · exact hsub.isInfix
      · -- what stands behind `a` would begin with an element of `d`
        have ht : t <+: d ++ b := (List.prefix_append_right_inj (y :: a)).1 hpre
        cases t with
        | nil => rw [List.append_nil]
        | cons z t =>
          obtain ⟨x, d, rfl⟩ := List.exists_cons_of_ne_nil hd₀
          obtain ⟨rfl, -⟩ := List.cons_prefix_cons.1 ht
          exact absurd (List.mem_append_right _ List.mem_cons_self) (hd z List.mem_cons_self)
    · exact (ih hinf).imp (fun h => h.trans (List.suffix_cons y a).isInfix) id

end Infix

/-- The bytes of an ASCII text. -/
def ascii (s : String) : Bytes := s.toList.map fun ch => UInt8.ofNat ch.toNat

/-- A text without the characters of numbers. -/
def NoNumber (sub : Bytes) : Prop := sub ≠ [] ∧ ∀ b ∈ sub, isDigit b = false ∧ b ≠ 45

instance (sub : Bytes) : Decidable (NoNumber sub) := inferInstanceAs (Decidable (_ ∧ _))

theorem decimal_ne_nil (n : ℕ) : decimal n ≠ [] := by
  unfold decimal
  split_ifs with h
  · exact List.cons_ne_nil _ _
  · rw [Ne, List.map_eq_nil_iff, List.reverse_eq_nil_iff]
    exact Nat.digits_ne_nil_iff_ne_zero.2 h

/-- A text without numbers that is in no part of a text is not in the whole. -/
theorem not_infix_of_number {sub a b : Bytes} (hsub : NoNumber sub) (ha : ¬sub <:+: a)
    (hb : ¬sub <:+: b) (z : ℤ) : ¬sub <:+: a ++ (decimalInt z ++ b) := by
  intro h
  have hne : decimalInt z ≠ [] := by
    unfold decimalInt
    split_ifs
    · exact List.cons_ne_nil _ _
    · exact decimal_ne_nil _
  have hd : ∀ x ∈ decimalInt z, x ∉ sub := by
    intro x hx hmem
    obtain ⟨hdigit, hminus⟩ := hsub.2 x hmem
    rcases mem_decimalInt hx with hx | hx
    · rw [hdigit] at hx
      cases hx
    · exact hminus hx
  exact (infix_or_infix_of_separated hsub.1 hne hd h).elim ha hb

end Lib
