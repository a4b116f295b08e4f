import ProxyConsole.Decimal.Natural

/-!
# Rounding to nearest

A quotient of natural numbers is rounded to the nearest natural number, a tie to the even one.  The
same rounding of a number's binary digits gives the double nearest to it.
-/

set_option autoImplicit false

namespace ProxyConsole.Decimal

/-- The natural number nearest to a quotient, the even one if two are equally near. -/
def roundDiv (num den : Nat) : Nat :=
  let floor := num / den
  let rest := num % den
  if 2 * rest < den then floor
  else if den < 2 * rest then floor + 1
  else floor + floor % 2

/-- The number with at most 53 binary digits, apart from trailing zeros, that is nearest to a
number. -/
def toDouble (n : Nat) : Nat :=
  let unit := twoTo (n.log2 - 52)
  roundDiv n unit * unit

theorem roundDiv_one (n : Nat) : roundDiv n 1 = n := by
  simp [roundDiv, Nat.mod_one]

/-- Below `2 ^ 53` every number is a double. -/
theorem toDouble_of_lt {n : Nat} (h : n < twoTo 53) : toDouble n = n := by
  have small : n.log2 ≤ 52 := by
    by_cases hn : n = 0
    · subst hn; decide
    · have := (Nat.log2_lt hn).2 h
      omega
  have unit : n.log2 - 52 = 0 := by omega
  simp [toDouble, twoTo, unit, roundDiv_one]

end ProxyConsole.Decimal
