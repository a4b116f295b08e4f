import ProxyConsole.Decimal.Natural
import ProxyConsole.Decimal.Rounding

/-!
# Byte counts

A count below 1024 is shown as it is.  A larger one is shown in a binary unit with one decimal: the
count is first rounded to a double, divided by 1024 until it is below 1024 or the largest unit is
reached, and the exact quotient is then rounded to tenths, a tie going to the even tenth.
-/

set_option autoImplicit false

namespace ProxyConsole.Display

def byteUnits : List String := ["KiB", "MiB", "GiB", "TiB"]

/-- The unit in which a count is shown, and how many bytes it holds: the first in which the count is
below 1024, otherwise the last. -/
def byteUnit (count : Nat) (size : Nat) : List String → String × Nat
  | [] => ("B", size)
  | [unit] => (unit, size)
  | unit :: units =>
    if count < 1024 * size then (unit, size) else byteUnit count (1024 * size) units

def tenthsText (tenths : Nat) : String :=
  Decimal.natText (tenths / 10) ++ "." ++ Decimal.natText (tenths % 10)

def byteCount (count : Nat) : String :=
  if count < 1024 then Decimal.natText count ++ " B"
  else
    let value := Decimal.toDouble count
    let (unit, size) := byteUnit value 1024 byteUnits
    tenthsText (Decimal.roundDiv (10 * value) size) ++ " " ++ unit

end ProxyConsole.Display
