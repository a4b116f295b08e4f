import Mathlib.Algebra.Order.Field.Basic
import Mathlib.Algebra.Order.Field.Rat
import Mathlib.Tactic.Linarith
import Mathlib.Tactic.Ring
import ProxyConsole.Decimal.Rounding

/-!
# How near rounding is

A rounded quotient is at most one half away from the quotient.  So the double that
stands for a whole number differs from it by at most one part in `2 ^ 53`, and does not
fall below a power of two that the number reaches.  Halving a double gives a double as
long as its exponent stays in range: repeated halving loses nothing.
-/

set_option autoImplicit false

namespace ProxyConsole.Decimal

/-! ## Quotients -/

theorem roundDiv_near (num : Nat) {den : Nat} (positive : 0 < den) :
    2 * num ≤ (2 * roundDiv num den + 1) * den ∧ 2 * roundDiv num den * den ≤ 2 * num + den := by
  have whole := Nat.div_add_mod num den
  have rest := Nat.mod_lt num positive
  have parity := Nat.mod_two_eq_zero_or_one (num / den)
  have expand : ∀ k, (2 * (num / den + k) + 1) * den = 2 * (den * (num / den)) + (2 * k + 1) * den ∧
      2 * (num / den + k) * den = 2 * (den * (num / den)) + 2 * k * den := by
    intro k
    constructor <;> ring
  unfold roundDiv
  by_cases below : 2 * (num % den) < den
  · have zero := expand 0
    simp only [Nat.add_zero, Nat.mul_zero, Nat.zero_mul] at zero
    simp only [if_pos below]
    omega
  · by_cases above : den < 2 * (num % den)
    · have one := expand 1
      simp only [if_neg below, if_pos above]
      omega
    · have kept := expand (num / den % 2)
      simp only [if_neg below, if_neg above]
      rcases parity with even | odd
      · rw [even] at kept ⊢
        omega
      · rw [odd] at kept ⊢
        omega

theorem le_roundDiv {num den bound : Nat} (positive : 0 < den) (reached : bound * den ≤ num) :
    bound ≤ roundDiv num den := by
  have near := (roundDiv_near num positive).1
  have scaled : 2 * bound * den ≤ (2 * roundDiv num den + 1) * den := by
    rw [Nat.mul_assoc]
    omega
  have cancelled := Nat.le_of_mul_le_mul_right scaled positive
  omega

theorem roundDiv_le {num den bound : Nat} (positive : 0 < den) (within : num ≤ bound * den) :
    roundDiv num den ≤ bound := by
  have near := (roundDiv_near num positive).2
  have scaled : 2 * roundDiv num den * den ≤ (2 * bound + 1) * den := by
    rw [Nat.add_mul, Nat.mul_assoc 2 bound]
    omega
  have cancelled := Nat.le_of_mul_le_mul_right scaled positive
  omega

theorem roundDiv_error (num : Nat) {den : Nat} (positive : 0 < den) :
    |(roundDiv num den : ℚ) - num / den| ≤ 1 / 2 := by
  obtain ⟨low, high⟩ := roundDiv_near num positive
  have low : (2 * num : ℚ) ≤ (2 * roundDiv num den + 1) * den := by exact_mod_cast low
  have high : (2 * roundDiv num den * den : ℚ) ≤ 2 * num + den := by exact_mod_cast high
  have positive : (0 : ℚ) < den := by exact_mod_cast positive
  rw [abs_le]
  constructor
  · have quotient : (num / den : ℚ) ≤ roundDiv num den + 1 / 2 := by
      rw [div_le_iff₀ positive]
      linarith
    linarith
  · have quotient : (roundDiv num den - 1 / 2 : ℚ) ≤ num / den := by
      rw [le_div_iff₀ positive]
      linarith
    linarith

/-- No whole number is nearer to a quotient than the rounded one. -/
theorem roundDiv_nearest (num : Nat) {den : Nat} (positive : 0 < den) (k : ℤ) :
    |(roundDiv num den : ℚ) - num / den| ≤ |(k : ℚ) - num / den| := by
  by_cases same : k = roundDiv num den
  · rw [same, Int.cast_natCast]
  · have apart : (1 : ℤ) ≤ |k - roundDiv num den| := Int.one_le_abs (sub_ne_zero.mpr same)
    have apart : (1 : ℚ) ≤ |(k : ℚ) - roundDiv num den| := by exact_mod_cast apart
    have near := roundDiv_error num positive
    have between := abs_sub_le (k : ℚ) (num / den) (roundDiv num den)
    rw [abs_sub_comm (num / den : ℚ)] at between
    linarith

/-! ## Doubles -/

/-- What the last binary digit of the double for a number stands for. -/
def lastPlace (n : Nat) : Nat :=
  twoTo (n.log2 - 52)

theorem toDouble_eq (n : Nat) : toDouble n = roundDiv n (lastPlace n) * lastPlace n :=
  rfl

theorem lastPlace_pos (n : Nat) : 0 < lastPlace n :=
  Nat.two_pow_pos _

theorem lastPlace_mul {n : Nat} (large : 2 ^ 53 ≤ n) : 2 ^ 52 * lastPlace n = 2 ^ n.log2 := by
  have long : 53 ≤ n.log2 := (Nat.le_log2 (by omega)).mpr large
  rw [lastPlace, twoTo]
  change 2 ^ 52 * 2 ^ (n.log2 - 52) = 2 ^ n.log2
  rw [← pow_add, Nat.add_sub_cancel' (by omega)]

theorem lastPlace_le {n : Nat} (large : 2 ^ 53 ≤ n) : 2 ^ 52 * lastPlace n ≤ n := by
  rw [lastPlace_mul large]
  exact Nat.log2_self_le (by omega)

theorem le_toDouble {n : Nat} (large : 2 ^ 53 ≤ n) : 2 ^ 53 ≤ toDouble n := by
  have long : 53 ≤ n.log2 := (Nat.le_log2 (by omega)).mpr large
  have leading : 2 ^ 52 ≤ roundDiv n (lastPlace n) :=
    le_roundDiv (lastPlace_pos n) (lastPlace_le large)
  calc 2 ^ 53 ≤ 2 ^ n.log2 := Nat.pow_le_pow_right (by decide) long
    _ = 2 ^ 52 * lastPlace n := (lastPlace_mul large).symm
    _ ≤ roundDiv n (lastPlace n) * lastPlace n := Nat.mul_le_mul_right _ leading

theorem toDouble_of_toDouble_lt {n : Nat} (small : toDouble n < 2 ^ 53) : toDouble n = n := by
  apply toDouble_of_lt
  by_contra large
  have reached := le_toDouble (Nat.le_of_not_lt large)
  omega

theorem toDouble_near (n : Nat) :
    2 ^ 53 * toDouble n ≤ 2 ^ 53 * n + n ∧ 2 ^ 53 * n ≤ 2 ^ 53 * toDouble n + n := by
  by_cases small : n < 2 ^ 53
  · rw [toDouble_of_lt small]
    omega
  · have place := lastPlace_le (Nat.le_of_not_lt small)
    obtain ⟨low, high⟩ := roundDiv_near n (lastPlace_pos n)
    rw [Nat.add_mul, Nat.mul_assoc, ← toDouble_eq] at low
    rw [Nat.mul_assoc, ← toDouble_eq] at high
    omega

theorem toDouble_error (n : Nat) : |(toDouble n : ℚ) - n| ≤ n / 2 ^ 53 := by
  obtain ⟨high, low⟩ := toDouble_near n
  have high : (2 ^ 53 * toDouble n : ℚ) ≤ 2 ^ 53 * n + n := by exact_mod_cast high
  have low : (2 ^ 53 * n : ℚ) ≤ 2 ^ 53 * toDouble n + n := by exact_mod_cast low
  rw [abs_le, le_div_iff₀ (by positivity), ← neg_div, div_le_iff₀ (by positivity)]
  constructor <;> linarith

theorem toDouble_of_le {n : Nat} (small : n ≤ 2 ^ 53) : toDouble n = n := by
  rcases Nat.lt_or_eq_of_le small with less | rfl
  · exact toDouble_of_lt less
  · decide

/-- A number is the value of a double without a sign: at most 53 binary digits, moved by a
power of two. -/
def IsDouble (x : ℚ) : Prop :=
  ∃ (mantissa : ℕ) (power : ℤ),
    mantissa < 2 ^ 53 ∧ -1074 ≤ power ∧ power ≤ 971 ∧ x = mantissa * 2 ^ power

theorem toDouble_parts (n : Nat) :
    ∃ mantissa power, mantissa < 2 ^ 53 ∧ power ≤ n.log2 - 52 + 1 ∧
      toDouble n = mantissa * 2 ^ power := by
  have within : n ≤ 2 ^ 53 * lastPlace n := by
    by_cases small : n < 2 ^ 53
    · exact Nat.le_trans small.le (Nat.le_mul_of_pos_right _ (lastPlace_pos n))
    · have place := lastPlace_mul (Nat.le_of_not_lt small)
      have bound : n < 2 ^ (n.log2 + 1) := Nat.lt_log2_self
      rw [pow_succ] at bound
      omega
  have digits := roundDiv_le (lastPlace_pos n) within
  rcases Nat.lt_or_eq_of_le digits with fewer | carry
  · exact ⟨_, n.log2 - 52, fewer, by omega, rfl⟩
  · refine ⟨2 ^ 52, n.log2 - 52 + 1, by norm_num, le_refl _, ?_⟩
    rw [toDouble_eq, carry, pow_succ]
    change 2 ^ 53 * 2 ^ (n.log2 - 52) = _
    ring

/-- Halving the double of a number any number of times, within the range of exponents, is exact. -/
theorem isDouble_halved {n halvings : Nat} (small : n.log2 ≤ 1022) (few : halvings ≤ 1074) :
    IsDouble (toDouble n / 2 ^ halvings) := by
  obtain ⟨mantissa, power, digits, bounded, value⟩ := toDouble_parts n
  refine ⟨mantissa, power - halvings, digits, by omega, by omega, ?_⟩
  rw [value, zpow_sub₀ two_ne_zero, zpow_natCast, zpow_natCast]
  push_cast
  ring

theorem IsDouble.multiple {x : ℚ} (double : IsDouble x) {place : Nat}
    (large : 2 ^ 52 * 2 ^ place ≤ x) : ∃ k : ℤ, x = k * 2 ^ place := by
  obtain ⟨mantissa, power, digits, _, _, rfl⟩ := double
  have digits : (mantissa : ℚ) < 2 ^ 53 := by exact_mod_cast digits
  have scaled : (2 : ℚ) ^ (52 + place : ℤ) < 2 ^ (53 + power) := by
    rw [zpow_add₀ two_ne_zero, zpow_add₀ two_ne_zero, zpow_natCast]
    calc (2 : ℚ) ^ (52 : ℤ) * 2 ^ place ≤ mantissa * 2 ^ power := large
      _ < 2 ^ (53 : ℤ) * 2 ^ power := mul_lt_mul_of_pos_right digits (zpow_pos two_pos power)
  have order := (zpow_lt_zpow_iff_right₀ one_lt_two).mp scaled
  refine ⟨mantissa * 2 ^ (power - place).toNat, ?_⟩
  have split : power = (power - place).toNat + place := by omega
  rw [split, zpow_add₀ two_ne_zero, zpow_natCast, zpow_natCast]
  push_cast
  rw [← mul_assoc]
  simp

theorem cast_lastPlace (n : Nat) : (lastPlace n : ℚ) = 2 ^ (n.log2 - 52) :=
  Nat.cast_pow 2 _

theorem toDouble_nearest_multiple (n : Nat) (k : ℤ) :
    |(toDouble n : ℚ) - n| ≤ |(k : ℚ) * lastPlace n - n| := by
  have positive : (0 : ℚ) < lastPlace n := by exact_mod_cast lastPlace_pos n
  have expand : ∀ y : ℚ, |y * lastPlace n - n| = |y - n / lastPlace n| * lastPlace n := by
    intro y
    calc |y * lastPlace n - n| = |(y - n / lastPlace n) * lastPlace n| := by
          rw [sub_mul, div_mul_cancel₀ _ positive.ne']
      _ = |y - n / lastPlace n| * lastPlace n := by rw [abs_mul, abs_of_pos positive]
  rw [toDouble_eq, Nat.cast_mul, expand, expand]
  exact mul_le_mul_of_nonneg_right (roundDiv_nearest n (lastPlace_pos n) k) positive.le

/-- No double is nearer to a number than its own. -/
theorem toDouble_nearest (n : Nat) {x : ℚ} (double : IsDouble x) :
    |(toDouble n : ℚ) - n| ≤ |x - n| := by
  by_cases small : n < 2 ^ 53
  · rw [toDouble_of_lt small, sub_self, abs_zero]
    exact abs_nonneg _
  · by_cases large : (2 ^ 52 * lastPlace n : ℚ) ≤ x
    · rw [cast_lastPlace] at large
      obtain ⟨k, rfl⟩ := double.multiple large
      rw [← cast_lastPlace]
      exact toDouble_nearest_multiple n k
    · -- The leading digit alone is between such a double and the number.
      have leading : (2 ^ 52 * lastPlace n : ℚ) ≤ n := by
        exact_mod_cast lastPlace_le (Nat.le_of_not_lt small)
      have gap : |(2 ^ 52 * lastPlace n : ℚ) - n| = n - 2 ^ 52 * lastPlace n := by
        rw [abs_sub_comm, abs_of_nonneg (sub_nonneg.mpr leading)]
      have nearest := toDouble_nearest_multiple n (2 ^ 52)
      have digit : ((2 ^ 52 : ℤ) : ℚ) = 2 ^ 52 := by norm_num
      rw [digit, gap] at nearest
      have further := neg_le_abs (x - n)
      linarith

end ProxyConsole.Decimal
