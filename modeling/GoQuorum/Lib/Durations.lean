import Mathlib.Algebra.Order.Floor.Semifield
import Mathlib.Data.Int.Log
import Mathlib.Data.Rat.Floor
import Mathlib.Tactic.IntervalCases
import Mathlib.Tactic.Linarith
import Mathlib.Tactic.NormNum
import Mathlib.Tactic.Positivity

/-!
# Durations in seconds

Go's `time.Duration` counts nanoseconds in an `int64`, and its method `Seconds` divides by `1e9` in
`float64`.  `nearestDouble` is the rounding of `float64` arithmetic, to the nearest number with 53
significant bits and at a tie to the even one; numbers outside the range of normal ones do not occur
here.

The whole seconds of a duration that a program takes from this, `int64(d.Seconds())`, are those of the
exact quotient, or one more where the fraction of a second is so close to one that the sum rounds up
(`toInt_wholeSeconds`).
-/

namespace Lib

/-! ## Rounding -/

/-- The nearest integer, the even one of two. -/
def roundEven (x : ℚ) : ℤ :=
  let k := ⌊x⌋
  if x - k < 1 / 2 then k else if 1 / 2 < x - k then k + 1 else k + k % 2

/-- The nearest `float64`. -/
def nearestDouble (x : ℚ) : ℚ :=
  if x = 0 then 0
  else
    let ulp : ℚ := 2 ^ (Int.log 2 |x| - 52)
    roundEven (x / ulp) * ulp

section Rounding

variable {x : ℚ} {k : ℤ}

theorem abs_roundEven_sub_le (x : ℚ) : |(roundEven x : ℚ) - x| ≤ 1 / 2 := by
  have hlow := Int.floor_le x
  have hhigh := Int.lt_floor_add_one x
  have hparity : ⌊x⌋ % 2 = 0 ∨ ⌊x⌋ % 2 = 1 := by omega
  unfold roundEven
  dsimp only
  rw [abs_le]
  split_ifs with hdown hup
  · constructor <;> linarith
  · push_cast
    constructor <;> linarith
  · rcases hparity with h | h
    · rw [h]
      push_cast
      constructor <;> linarith
    · rw [h]
      push_cast
      constructor <;> linarith

/-- Rounding does not pass an integer. -/
theorem roundEven_le (h : x ≤ k) : roundEven x ≤ k := by
  have hdist := abs_le.1 (abs_roundEven_sub_le x)
  have hlt : (roundEven x : ℚ) < k + 1 := by linarith
  exact Int.lt_add_one_iff.1 (by exact_mod_cast hlt)

theorem le_roundEven (h : (k : ℚ) ≤ x) : k ≤ roundEven x := by
  have hdist := abs_le.1 (abs_roundEven_sub_le x)
  have hlt : (k : ℚ) < roundEven x + 1 := by linarith
  exact Int.lt_add_one_iff.1 (by exact_mod_cast hlt)

/-- An even number is reached from a half below it on. -/
theorem le_roundEven_iff (hk : k % 2 = 0) : k ≤ roundEven x ↔ (k : ℚ) - 1 / 2 ≤ x := by
  constructor
  · intro h
    have hdist := abs_le.1 (abs_roundEven_sub_le x)
    have hcast : (k : ℚ) ≤ roundEven x := by exact_mod_cast h
    linarith
  · intro h
    rcases le_or_gt (k : ℚ) x with hle | hgt
    · exact le_roundEven hle
    · have hfloor : ⌊x⌋ = k - 1 := by
        rw [Int.floor_eq_iff]
        push_cast
        constructor <;> linarith
      unfold roundEven
      dsimp only
      rw [hfloor]
      push_cast
      split_ifs with hdown hup
      · linarith
      · omega
      · omega

/-- The rounding of a number whose binary exponent is known. -/
theorem nearestDouble_of_mem {e : ℤ} (hlow : (2 : ℚ) ^ e ≤ x) (hhigh : x < 2 ^ (e + 1)) :
    nearestDouble x = roundEven (x / 2 ^ (e - 52)) * 2 ^ (e - 52) := by
  have hpos : 0 < x := lt_of_lt_of_le (zpow_pos two_pos _) hlow
  have hlog : Int.log 2 |x| = e := by
    rw [abs_of_pos hpos]
    apply le_antisymm
    · rw [← Int.lt_add_one_iff]
      exact (Int.lt_zpow_iff_log_lt (by decide) hpos).1 (by exact_mod_cast hhigh)
    · exact (Int.zpow_le_iff_le_log (by decide) hpos).1 (by exact_mod_cast hlow)
  rw [nearestDouble, if_neg hpos.ne', hlog]

/-- Rounding does not pass a power of two. -/
theorem nearestDouble_le_zpow (hx : 0 < x) {j : ℤ} (h : x ≤ 2 ^ j) : nearestDouble x ≤ 2 ^ j := by
  have hlow : (2 : ℚ) ^ Int.log 2 x ≤ x := Int.zpow_log_le_self (by decide) hx
  have hhigh : x < 2 ^ (Int.log 2 x + 1) := Int.lt_zpow_succ_log_self (by decide) x
  have hle : Int.log 2 x ≤ j := (zpow_le_zpow_iff_right₀ one_lt_two).1 (hlow.trans h)
  have hgrid : (2 : ℚ) ^ j = ((2 ^ (j - Int.log 2 x + 52).toNat : ℤ) : ℚ) *
      2 ^ (Int.log 2 x - 52) := by
    push_cast
    rw [← zpow_natCast, Int.toNat_of_nonneg (by omega), ← zpow_add₀ two_ne_zero]
    congr 1
    omega
  have hulp : (0 : ℚ) < 2 ^ (Int.log 2 x - 52) := zpow_pos two_pos _
  rw [nearestDouble_of_mem hlow hhigh, hgrid]
  refine mul_le_mul_of_nonneg_right (Int.cast_le.2 (roundEven_le ?_)) hulp.le
  rwa [div_le_iff₀ hulp, ← hgrid]

theorem nearestDouble_nonneg (hx : 0 ≤ x) : 0 ≤ nearestDouble x := by
  unfold nearestDouble
  split_ifs
  · exact le_rfl
  · have hulp : (0 : ℚ) < 2 ^ (Int.log 2 |x| - 52) := zpow_pos two_pos _
    refine mul_nonneg (Int.cast_nonneg (le_roundEven ?_)) hulp.le
    exact_mod_cast div_nonneg hx hulp.le

/-- Natural numbers of 53 bits are `float64` numbers. -/
theorem nearestDouble_natCast {n : ℕ} (h : n < 2 ^ 53) : nearestDouble n = n := by
  rcases Nat.eq_zero_or_pos n with rfl | hn
  · rfl
  · have hlow : (2 : ℚ) ^ (Nat.log 2 n : ℤ) ≤ n := by
      rw [zpow_natCast]
      exact_mod_cast Nat.pow_log_le_self 2 hn.ne'
    have hhigh : (n : ℚ) < 2 ^ ((Nat.log 2 n : ℤ) + 1) := by
      exact_mod_cast Nat.lt_pow_succ_log_self (by decide) n
    have hexp : Nat.log 2 n < 53 := Nat.log_lt_of_lt_pow hn.ne' h
    have hulp : (2 : ℚ) ^ ((Nat.log 2 n : ℤ) - 52) ≠ 0 := zpow_ne_zero _ two_ne_zero
    have hgrid : (n : ℚ) / 2 ^ ((Nat.log 2 n : ℤ) - 52) = ((n * 2 ^ (52 - Nat.log 2 n) : ℤ) : ℚ) := by
      rw [div_eq_iff hulp]
      push_cast
      rw [mul_assoc, ← zpow_natCast, ← zpow_add₀ two_ne_zero, Nat.cast_sub (by omega)]
      simp
    rw [nearestDouble_of_mem hlow hhigh, hgrid,
      le_antisymm (roundEven_le le_rfl) (le_roundEven le_rfl), ← hgrid, div_mul_cancel₀ _ hulp]

/-- Between two natural numbers, the numbers from half a unit in the last place below the upper one on
are rounded up to it. -/
theorem floor_nearestDouble {n e : ℕ} (he : e < 52) (hexp : 2 ^ e ≤ n) (hexp' : n < 2 ^ (e + 1))
    (hlow : (n : ℚ) ≤ x) (hhigh : x < n + 1) : ⌊nearestDouble x⌋ =
      if (n : ℚ) + 1 - 2 ^ e / 2 ^ 53 ≤ x then (n + 1 : ℤ) else n := by
  have hlowCast : (2 : ℚ) ^ e ≤ n := by exact_mod_cast hexp
  have hhighCast : (n : ℚ) + 1 ≤ 2 ^ (e + 1) := by exact_mod_cast hexp'
  have hscale : (2 : ℚ) ^ ((e : ℤ) - 52) = (2 ^ (52 - e))⁻¹ := by
    rw [← zpow_natCast, ← zpow_neg, Nat.cast_sub he.le]
    congr 1
    push_cast
    ring
  have hpos : (0 : ℚ) < 2 ^ (52 - e) := pow_pos two_pos _
  have hround : nearestDouble x = roundEven (x * 2 ^ (52 - e)) / 2 ^ (52 - e) := by
    rw [nearestDouble_of_mem (e := e) (by rw [zpow_natCast]; linarith)
      (lt_of_lt_of_le hhigh (by exact_mod_cast hhighCast)), hscale, div_inv_eq_mul, div_eq_mul_inv]
  -- natural numbers are on the grid, and the next one is an even point of it
  have hfloor : (n : ℚ) ≤ nearestDouble x := by
    rw [hround, le_div_iff₀ hpos]
    have hgrid := le_roundEven (k := n * 2 ^ (52 - e)) (x := x * 2 ^ (52 - e))
      (by push_cast; exact mul_le_mul_of_nonneg_right hlow hpos.le)
    exact_mod_cast hgrid
  have hceil : nearestDouble x ≤ n + 1 := by
    rw [hround, div_le_iff₀ hpos]
    have hgrid := roundEven_le (k := (n + 1) * 2 ^ (52 - e)) (x := x * 2 ^ (52 - e))
      (by push_cast; exact mul_le_mul_of_nonneg_right hhigh.le hpos.le)
    exact_mod_cast hgrid
  have hup : (n : ℚ) + 1 ≤ nearestDouble x ↔ (n : ℚ) + 1 - 2 ^ e / 2 ^ 53 ≤ x := by
    have heven : ((n + 1) * 2 ^ (52 - e) : ℤ) % 2 = 0 := by
      rw [show 52 - e = 51 - e + 1 by omega, pow_succ, ← mul_assoc]
      exact Int.mul_emod_left _ _
    have hhalf : (2 : ℚ) ^ e / 2 ^ 53 * 2 ^ (52 - e) = 1 / 2 := by
      rw [div_mul_eq_mul_div, ← pow_add, Nat.add_sub_cancel' he.le]
      norm_num
    have hiff := le_roundEven_iff (x := x * 2 ^ (52 - e)) heven
    have hscaled : (n : ℚ) + 1 - 2 ^ e / 2 ^ 53 ≤ x ↔
        ((n : ℚ) + 1) * 2 ^ (52 - e) - 1 / 2 ≤ x * 2 ^ (52 - e) := by
      rw [← mul_le_mul_iff_of_pos_right hpos, sub_mul, hhalf]
    rw [hround, le_div_iff₀ hpos, hscaled]
    push_cast at hiff
    rw [← hiff, ← Int.cast_le (R := ℚ)]
    push_cast
    exact Iff.rfl
  rw [Int.floor_eq_iff]
  split_ifs with hcond
  · push_cast
    exact ⟨hup.2 hcond, by linarith⟩
  · refine ⟨by exact_mod_cast hfloor, ?_⟩
    rw [← not_le]
    exact fun hle => hcond (hup.1 (by exact_mod_cast hle))

end Rounding

/-! ## Seconds -/

/-- `time.Duration`, in nanoseconds. -/
abbrev Duration := Int64

namespace Duration

/-- `Seconds`. -/
def seconds (d : Duration) : ℚ :=
  let sec := d / 1000000000
  let nsec := d % 1000000000
  nearestDouble (nearestDouble sec.toInt + nearestDouble (nearestDouble nsec.toInt / 1000000000))

/-- A function of a duration, whose argument the kernel evaluates first. -/
def evaluated {α : Type} (d : Duration) (f : Duration → α) : α :=
  match d.toBitVec.toNat with
  | 0 => f (Int64.ofNat 0)
  | n + 1 => f (Int64.ofNat (n + 1))

/-- `int64(d.Seconds())`: the conversion cuts the fraction off. -/
def wholeSeconds (d : Duration) : Int64 :=
  d.evaluated fun d => Int64.ofInt (d.seconds.num.tdiv d.seconds.den)

/-- The fraction of a second is within half a unit in the last place of the next second. -/
def RoundsUp (d : Duration) : Prop :=
  2 ^ 53 * (1000000000 - d.toInt.toNat % 1000000000) ≤
    1000000000 * 2 ^ Nat.log 2 (d.toInt.toNat / 1000000000)

instance decidableRoundsUp (d : Duration) : Decidable d.RoundsUp :=
  inferInstanceAs (Decidable (_ ≤ _))

theorem evaluated_eq {α : Type} (d : Duration) (f : Duration → α) : d.evaluated f = f d := by
  have hnat : Int64.ofNat d.toBitVec.toNat = d := Int64.ofNat_bitVecToNat _
  unfold evaluated
  split
  next h => rw [← hnat, h]
  next n h => rw [← hnat, h]

/-- Numbers between a half and one are rounded to multiples of `2⁻⁵³`. -/
theorem nearestDouble_of_half_le {x : ℚ} (hlow : 1 / 2 ≤ x) (hhigh : x < 1) :
    nearestDouble x = roundEven (x * 2 ^ 53) / 2 ^ 53 := by
  rw [nearestDouble_of_mem (e := -1) (by norm_num; linarith) (by norm_num; exact hhigh)]
  norm_num
  ring_nf

/-- A fraction of a second is rounded to less than one. -/
theorem nearestDouble_lt_one {x : ℚ} (hx : 0 ≤ x) (h : x ≤ 1 - 1 / 2 ^ 53) : nearestDouble x < 1 := by
  rcases lt_or_ge x (1 / 2) with hsmall | hlarge
  · rcases hx.eq_or_lt with rfl | hpos
    · exact zero_lt_one
    · have hle := nearestDouble_le_zpow hpos (j := -1) (by norm_num; linarith)
      norm_num at hle ⊢
      linarith
  · rw [nearestDouble_of_half_le hlarge (by norm_num at h ⊢; linarith), div_lt_one (by norm_num)]
    have hle : roundEven (x * 2 ^ 53) ≤ 2 ^ 53 - 1 := roundEven_le (by push_cast; linarith)
    exact_mod_cast lt_of_le_of_lt hle (by norm_num)

/-- The two roundings of `Seconds` move the bound by less than one nanosecond. -/
theorem two_pow_mul_le_of_le {k e : ℕ} (he : e < 34)
    (h : 2 ^ 54 * k ≤ 1000000000 * (2 ^ (e + 1) + 1)) : 2 ^ 53 * k ≤ 1000000000 * 2 ^ e := by
  interval_cases e <;> omega

/-- How close a fraction has to be to one for the sum with a number of exponent `e` to round up. -/
theorem le_nearestDouble_fraction_iff {nsec e : ℕ} (hnsec : nsec < 1000000000) (he : e < 34) :
    1 - 2 ^ e / 2 ^ 53 ≤ nearestDouble (nsec / 1000000000) ↔
      2 ^ 53 * (1000000000 - nsec) ≤ 1000000000 * 2 ^ e := by
  have hpow : 2 ^ e ≤ 2 ^ 33 := Nat.pow_le_pow_right two_pos (by omega)
  rcases Nat.lt_or_ge nsec 500000000 with hsmall | hlarge
  · refine iff_of_false (not_le.2 ?_) (by omega)
    have hhalf : nearestDouble (nsec / 1000000000) ≤ 1 / 2 := by
      rcases Nat.eq_zero_or_pos nsec with rfl | hpos
      · norm_num [nearestDouble]
      · have hx : (nsec : ℚ) < 500000000 := by exact_mod_cast hsmall
        have hle := nearestDouble_le_zpow (x := nsec / 1000000000) (by positivity) (j := -1)
          (by norm_num; linarith)
        norm_num at hle ⊢
        exact hle
    have hcast : (2 : ℚ) ^ e ≤ 2 ^ 33 := by exact_mod_cast hpow
    linarith
  · have hlow : (500000000 : ℚ) ≤ nsec := by exact_mod_cast hlarge
    have hhigh : (nsec : ℚ) < 1000000000 := by exact_mod_cast hnsec
    rw [nearestDouble_of_half_le (by linarith) (by linarith), le_div_iff₀ (by norm_num),
      sub_mul, div_mul_cancel₀ _ (by norm_num), one_mul]
    constructor
    · intro h
      have hdist := abs_le.1 (abs_roundEven_sub_le (nsec / 1000000000 * 2 ^ 53))
      refine two_pow_mul_le_of_le he ?_
      have hbound : (2 ^ 54 * 1000000000 : ℚ) ≤ 1000000000 * (2 ^ (e + 1) + 1) + 2 ^ 54 * nsec := by
        rw [pow_succ 2 e]
        linarith
      have hnat : 2 ^ 54 * 1000000000 ≤ 1000000000 * (2 ^ (e + 1) + 1) + 2 ^ 54 * nsec := by
        exact_mod_cast hbound
      omega
    · intro h
      have hint : (2 ^ 53 : ℤ) - 2 ^ e ≤ roundEven (nsec / 1000000000 * 2 ^ 53) := by
        apply le_roundEven
        have hnat : 2 ^ 53 * 1000000000 ≤ 1000000000 * 2 ^ e + 2 ^ 53 * nsec := by omega
        have hcast : (2 ^ 53 * 1000000000 : ℚ) ≤ 1000000000 * 2 ^ e + 2 ^ 53 * nsec := by
          exact_mod_cast hnat
        push_cast
        linarith
      have hcast := (Int.cast_le (R := ℚ)).2 hint
      push_cast at hcast
      exact hcast

/-- The whole part of the sum that `Seconds` rounds. -/
theorem floor_nearestDouble_add {sec nsec : ℕ} (hsec : sec < 2 ^ 34) (hnsec : nsec < 1000000000) :
    ⌊nearestDouble (sec + nearestDouble (nsec / 1000000000))⌋ =
      if 2 ^ 53 * (1000000000 - nsec) ≤ 1000000000 * 2 ^ Nat.log 2 sec then (sec + 1 : ℤ)
      else sec := by
  have hnonneg : 0 ≤ nearestDouble (nsec / 1000000000) := nearestDouble_nonneg (by positivity)
  have hlt : nearestDouble (nsec / 1000000000) < 1 - 2 ^ 0 / 2 ^ 53 := by
    rw [← not_le, le_nearestDouble_fraction_iff hnsec (by omega)]
    omega
  rcases Nat.eq_zero_or_pos sec with rfl | hpos
  · rw [Nat.cast_zero, zero_add, if_neg (by rw [Nat.log_zero_right]; omega), Int.floor_eq_iff]
    have hone := nearestDouble_lt_one hnonneg (by rw [pow_zero] at hlt; exact hlt.le)
    push_cast
    exact ⟨nearestDouble_nonneg hnonneg, by linarith⟩
  · have he : Nat.log 2 sec < 34 := Nat.log_lt_of_lt_pow hpos.ne' hsec
    rw [floor_nearestDouble (by omega : Nat.log 2 sec < 52) (Nat.pow_log_le_self 2 hpos.ne')
      (Nat.lt_pow_succ_log_self (by decide) sec) (by linarith) (by norm_num at hlt; linarith)]
    refine if_congr ?_ rfl rfl
    rw [← le_nearestDouble_fraction_iff hnsec he]
    constructor <;> intro h <;> linarith

/-- The whole seconds are those of the exact quotient, or one more. -/
theorem toInt_wholeSeconds {d : Duration} (h : 0 ≤ d.toInt) :
    d.wholeSeconds.toInt = d.toInt / 1000000000 + if d.RoundsUp then 1 else 0 := by
  have hlt := d.toInt_lt
  obtain ⟨n, hn⟩ := Int.eq_ofNat_of_zero_le h
  have hsec : (d / 1000000000).toInt = (n / 1000000000 : ℕ) := by
    rw [Int64.toInt_div, show (1000000000 : Int64).toInt = 1000000000 from rfl,
      Int.tdiv_eq_ediv_of_nonneg h, Int.bmod_eq_of_le (by omega) (by omega), hn]
    rfl
  have hnsec : (d % 1000000000).toInt = (n % 1000000000 : ℕ) := by
    rw [Int64.toInt_mod, show (1000000000 : Int64).toInt = 1000000000 from rfl,
      Int.tmod_eq_emod_of_nonneg h, hn]
    rfl
  have hseconds : d.seconds = nearestDouble ((n / 1000000000 : ℕ) +
      nearestDouble ((n % 1000000000 : ℕ) / 1000000000)) := by
    rw [seconds, hsec, hnsec, Int.cast_natCast, Int.cast_natCast, nearestDouble_natCast (by omega),
      nearestDouble_natCast (by omega)]
  have hnonneg : 0 ≤ d.seconds := by
    rw [hseconds]
    have hfraction : 0 ≤ nearestDouble ((n % 1000000000 : ℕ) / 1000000000) :=
      nearestDouble_nonneg (by positivity)
    exact nearestDouble_nonneg (by positivity)
  have hup : d.RoundsUp ↔ 2 ^ 53 * (1000000000 - n % 1000000000) ≤
      1000000000 * 2 ^ Nat.log 2 (n / 1000000000) := by
    rw [RoundsUp, hn, Int.toNat_natCast]
  have hfloor : d.seconds.num.tdiv d.seconds.den =
      ((n / 1000000000 : ℕ) : ℤ) + if d.RoundsUp then 1 else 0 := by
    rw [Int.tdiv_eq_ediv_of_nonneg (Rat.num_nonneg.2 hnonneg), ← Rat.floor_def', hseconds,
      floor_nearestDouble_add (by omega) (by omega)]
    simp only [hup]
    split_ifs
    · rfl
    · rw [add_zero]
  have hbounds : 0 ≤ (if d.RoundsUp then 1 else 0 : ℤ) ∧ (if d.RoundsUp then 1 else 0 : ℤ) ≤ 1 := by
    split_ifs <;> decide
  rw [wholeSeconds, evaluated_eq, hfloor, hn, Int64.toInt_ofInt_of_le (by omega) (by omega)]
  rfl

/-- A duration of whole seconds does not round up. -/
theorem not_roundsUp_of_dvd {d : Duration} (hdvd : 1000000000 ∣ d.toInt) : ¬d.RoundsUp := by
  have hlt := d.toInt_lt
  have hmod : d.toInt.toNat % 1000000000 = 0 := by omega
  have hlog : Nat.log 2 (d.toInt.toNat / 1000000000) ≤ Nat.log 2 (2 ^ 34) :=
    Nat.log_mono_right (by omega)
  rw [Nat.log_pow (by decide)] at hlog
  have hpow := Nat.pow_le_pow_right two_pos hlog
  rw [RoundsUp, hmod]
  omega

end Duration

end Lib
