import Mathlib.Algebra.Order.Field.Rat
import Mathlib.Data.Int.Log
import Mathlib.Data.Rat.Floor
import Mathlib.Tactic.FieldSimp
import Mathlib.Tactic.Linarith
import Mathlib.Tactic.Positivity
import Mathlib.Tactic.Ring

/-! Rounding to a number of binary digits, to the nearest and of two to the even one, as
floating-point arithmetic does between its least and its greatest exponent. -/

namespace NdimonR.Rounding

/-- The nearest integer, and of two the even one. -/
def nearestEven (q : ℚ) : ℤ :=
  if q - ⌊q⌋ < 1 / 2 then ⌊q⌋
  else if 1 / 2 < q - ⌊q⌋ then ⌊q⌋ + 1
  else if ⌊q⌋ % 2 = 0 then ⌊q⌋ else ⌊q⌋ + 1

/-- What the last of `p` digits of a number is worth. -/
def lastDigit (p : ℕ) (q : ℚ) : ℚ := 2 ^ (Int.log 2 q - p + 1)

def toDigits (p : ℕ) (q : ℚ) : ℚ := nearestEven (q / lastDigit p q) * lastDigit p q

theorem nearestEven_close (q : ℚ) : |(nearestEven q : ℚ) - q| ≤ 1 / 2 := by
  have hlow := Int.floor_le q
  have hhigh := Int.lt_floor_add_one q
  rw [abs_le]
  unfold nearestEven
  split_ifs <;> push_cast <;> constructor <;> linarith

theorem lastDigit_pos (p : ℕ) (q : ℚ) : 0 < lastDigit p q := zpow_pos two_pos _

/-- The first digit stands for at most the number itself. -/
theorem lastDigit_le (p : ℕ) {q : ℚ} (hq : 0 < q) : lastDigit p q * 2 ^ p ≤ 2 * q := by
  have hfirst := Int.zpow_log_le_self (b := 2) one_lt_two hq
  have hdigits : lastDigit p q * 2 ^ p = 2 * 2 ^ Int.log 2 q := by
    have htwo : (2 : ℚ) ≠ 0 := two_ne_zero
    rw [lastDigit, zpow_add₀ htwo, zpow_sub₀ htwo, zpow_natCast, zpow_one]
    field_simp
  rw [hdigits]
  push_cast at hfirst
  linarith

/-- Rounding moves a number by one part in two to the power of `p` at most. -/
theorem toDigits_close (p : ℕ) {q : ℚ} (hq : 0 < q) : |toDigits p q - q| ≤ q / 2 ^ p := by
  have hpos := lastDigit_pos p q
  have hnear := nearestEven_close (q / lastDigit p q)
  have hdiff : toDigits p q - q =
      (nearestEven (q / lastDigit p q) - q / lastDigit p q) * lastDigit p q := by
    rw [toDigits]
    field_simp
  have hpow : (0 : ℚ) < 2 ^ p := by positivity
  calc
    |toDigits p q - q| ≤ 1 / 2 * lastDigit p q := by
      rw [hdiff, abs_mul, abs_of_pos hpos]
      exact mul_le_mul_of_nonneg_right hnear hpos.le
    _ ≤ q / 2 ^ p := by
      rw [le_div_iff₀ hpow]
      linarith [lastDigit_le p hq]

section
variable {p : ℕ} {q : ℚ}

theorem toDigits_le (p : ℕ) (hq : 0 < q) : toDigits p q ≤ q * (1 + 1 / 2 ^ p) := by
  have h := (abs_le.mp (toDigits_close p hq)).2
  calc
    toDigits p q ≤ q + q / 2 ^ p := by linarith
    _ = q * (1 + 1 / 2 ^ p) := by ring

theorem le_toDigits (p : ℕ) (hq : 0 < q) : q * (1 - 1 / 2 ^ p) ≤ toDigits p q := by
  have h := (abs_le.mp (toDigits_close p hq)).1
  calc
    q * (1 - 1 / 2 ^ p) = q - q / 2 ^ p := by ring
    _ ≤ toDigits p q := by linarith

theorem part_le (hp : 2 ≤ p) : (1 : ℚ) / 2 ^ p ≤ 1 / 4 := by
  apply one_div_le_one_div_of_le (by norm_num)
  calc
    (4 : ℚ) = 2 ^ 2 := by norm_num
    _ ≤ 2 ^ p := pow_le_pow_right₀ one_le_two hp

theorem toDigits_pos (hp : 2 ≤ p) (hq : 0 < q) : 0 < toDigits p q := by
  have hpart := part_le hp
  have hlow := le_toDigits p hq
  have hkept : 0 < q * (1 - 1 / 2 ^ p) := mul_pos hq (by linarith)
  linarith

/-! ### Whole numbers of rounded numbers

Two roundings do not carry a number over the next integer, where it has a few digits less. -/

theorem floor_toDigits_le {n : ℕ} (hn : 5 * (n : ℚ) < 2 ^ p) (hp : 2 ≤ p) (hq : 0 < q)
    (hle : q ≤ n * (1 + 2 * (1 / 2 ^ p))) : ⌊toDigits p q⌋ ≤ n := by
  have hpow : (0 : ℚ) < 2 ^ p := by positivity
  have hpart := part_le hp
  have hpart' : (0 : ℚ) < 1 / 2 ^ p := by positivity
  have hfew : 5 * (n : ℚ) * (1 / 2 ^ p) < 1 := by
    rw [mul_one_div, div_lt_one hpow]
    exact hn
  have hround := toDigits_le p hq
  generalize (1 : ℚ) / 2 ^ p = e at *
  have hn' : (0 : ℚ) ≤ n := Nat.cast_nonneg n
  have hstep : q * (1 + e) ≤ n * (1 + 2 * e) * (1 + e) :=
    mul_le_mul_of_nonneg_right hle (by linarith)
  have hsmall : (n : ℚ) * e * e ≤ n * e * (1 / 4) :=
    mul_le_mul_of_nonneg_left hpart (mul_nonneg hn' hpart'.le)
  have hless : toDigits p q < n + 1 := by nlinarith only [hround, hstep, hsmall, hfew]
  apply Int.lt_add_one_iff.mp
  rw [Int.floor_lt]
  push_cast
  exact hless

/-- The rounded ratio of two numbers, times the second. -/
theorem mul_ratio_le {a b : ℚ} (ha : 0 < a) (hb : 0 < b) :
    b * toDigits p (a / b) ≤ a * (1 + 2 * (1 / 2 ^ p)) := by
  have hround := toDigits_le p (div_pos ha hb)
  have hpart : (0 : ℚ) < 1 / 2 ^ p := by positivity
  calc
    b * toDigits p (a / b) ≤ b * (a / b * (1 + 1 / 2 ^ p)) :=
      mul_le_mul_of_nonneg_left hround hb.le
    _ = a * (1 + 1 / 2 ^ p) := by field_simp
    _ ≤ a * (1 + 2 * (1 / 2 ^ p)) := mul_le_mul_of_nonneg_left (by linarith) ha.le

/-- The first of two numbers over their rounded ratio. -/
theorem div_ratio_le (hp : 2 ≤ p) {a b : ℚ} (ha : 0 < a) (hb : 0 < b) :
    a / toDigits p (a / b) ≤ b * (1 + 2 * (1 / 2 ^ p)) := by
  have hratio := div_pos ha hb
  have hround := le_toDigits p hratio
  have hpart := part_le hp
  have hpart' : (0 : ℚ) < 1 / 2 ^ p := by positivity
  rw [div_le_iff₀ (toDigits_pos hp hratio)]
  generalize (1 : ℚ) / 2 ^ p = e at *
  have hkept : (1 : ℚ) ≤ (1 + 2 * e) * (1 - e) := by nlinarith only [hpart, hpart']
  calc
    a ≤ a * ((1 + 2 * e) * (1 - e)) := le_mul_of_one_le_right ha.le hkept
    _ = b * (1 + 2 * e) * (a / b * (1 - e)) := by field_simp
    _ ≤ b * (1 + 2 * e) * toDigits p (a / b) :=
      mul_le_mul_of_nonneg_left hround (by positivity)

end

end NdimonR.Rounding
