import ProxyConsole.Decimal.Natural

/-!
# Durations

A length of time in whole nanoseconds.  Its text uses the largest of the units s, ms, µs and ns in
which the whole part is not zero, and writes the fraction without trailing zeros.
-/

set_option autoImplicit false

namespace ProxyConsole

/-- A length of time, in nanoseconds. -/
structure Duration where
  nanos : Nat
  deriving DecidableEq, Repr

namespace Duration

def ofMillis (ms : Nat) : Duration :=
  ⟨ms * 1000000⟩

def millis (d : Duration) : Nat :=
  d.nanos / 1000000

/-- The digits of a fraction `part / 10 ^ places`, without trailing zeros. -/
def fraction (places part : Nat) : List Char :=
  let written := Decimal.digits part
  let padded := List.replicate (places - written.length) '0' ++ written
  (padded.reverse.dropWhile (· == '0')).reverse

/-- A count of nanoseconds in a unit of `10 ^ places` of them. -/
def inUnit (nanos places : Nat) (unit : String) : String :=
  let whole := Decimal.natText (nanos / Decimal.tenTo places)
  match fraction places (nanos % Decimal.tenTo places) with
  | [] => whole ++ unit
  | cs => whole ++ "." ++ String.ofList cs ++ unit

def text (d : Duration) : String :=
  if 1000000000 ≤ d.nanos then inUnit d.nanos 9 "s"
  else if 1000000 ≤ d.nanos then inUnit d.nanos 6 "ms"
  else if 1000 ≤ d.nanos then inUnit d.nanos 3 "µs"
  else inUnit d.nanos 0 "ns"

end Duration

end ProxyConsole
