import ProxyConsole.Decimal.Natural

/-!
# Shortest decimals of binary floating point numbers

A finite number is an integer times a power of two.  The reals that round to it form an interval,
and the decimal chosen is one with the fewest significant digits inside that interval, the nearest
of those.  All arithmetic is exact.
-/

set_option autoImplicit false

namespace ProxyConsole.Decimal

/-- The parts of a double: its sign, and for a finite one the integer and the power of two whose
product it is. -/
inductive Binary where
  | finite (negative : Bool) (mantissa : Nat) (power : Int)
  | infinite (negative : Bool)
  | nan
  deriving DecidableEq, Repr

def leadingBit : Nat := 4503599627370496

def Binary.ofBits (bits : UInt64) : Binary :=
  let n := bits.toNat
  let negative := leadingBit * 2048 ≤ n
  let field : Nat := n / leadingBit % 2048
  let part : Nat := n % leadingBit
  if field = 2047 then (if part = 0 then .infinite negative else .nan)
  else if field = 0 then .finite negative part (-1074)
  else .finite negative (part + leadingBit) ((field : Int) - 1075)

structure Scientific where
  significand : Nat
  exponent : Int
  deriving DecidableEq, Repr

/-- The numbers, in units of `1 / unit`, that bound a double and the double itself between them. -/
structure Interval where
  low : Nat
  middle : Nat
  high : Nat
  unit : Nat
  closed : Bool

/-- The interval of the reals that round to `mantissa * 2 ^ power`. -/
def Interval.around (mantissa : Nat) (power : Int) : Interval :=
  let gapBelow := if mantissa = leadingBit ∧ -1074 < power then 1 else 2
  let up := twoTo (power - 2).toNat
  let down := twoTo (2 - power).toNat
  { low := (4 * mantissa - gapBelow) * up
    middle := 4 * mantissa * up
    high := (4 * mantissa + 2) * up
    unit := down
    closed := mantissa % 2 = 0 }

def Interval.contains (i : Interval) (n d : Nat) : Bool :=
  if i.closed then i.low * d ≤ n * i.unit && n * i.unit ≤ i.high * d
  else i.low * d < n * i.unit && n * i.unit < i.high * d

def magnitude (num den : Nat) (start : Int) : Nat → Int
  | 0 => start
  | fuel + 1 =>
    let below := if 0 ≤ start then num < den * tenTo start.toNat
      else num * tenTo (-start).toNat < den
    if below then start else magnitude num den (start + 1) fuel

inductive Tie where
  /-- The one whose last digit is even. -/
  | even
  | larger
  deriving DecidableEq, Repr

/-- The best decimal with the given number of digits inside the interval, where `10 ^ top` is the
least power of ten above the number. -/
def Interval.grid? (i : Interval) (tie : Tie) (top : Int) (places : Nat) : Option Scientific :=
  let exponent := top - places
  let up := tenTo exponent.toNat
  let down := tenTo (-exponent).toNat
  let step := i.unit * up
  let floor := i.middle * down / step
  let isIn (n : Nat) := i.contains (n * up) down
  let twice := 2 * (i.middle * down - floor * step)
  let nearFloor := twice < step || (twice = step && tie = .even && floor % 2 = 0)
  match isIn floor, isIn (floor + 1) with
  | true, true => some ⟨if nearFloor then floor else floor + 1, exponent⟩
  | true, false => some ⟨floor, exponent⟩
  | false, true => some ⟨floor + 1, exponent⟩
  | false, false => none

def Interval.search (i : Interval) (tie : Tie) (top : Int) (places : Nat) : Nat → Scientific
  | 0 => ⟨0, 0⟩
  | fuel + 1 =>
    match i.grid? tie top places with
    | some s => s
    | none => i.search tie top (places + 1) fuel

/-- Move trailing zeros of the digits into the exponent.  The fuel bounds their number. -/
def Scientific.strip (s : Scientific) : Nat → Scientific
  | 0 => s
  | fuel + 1 =>
    if s.significand ≠ 0 ∧ s.significand % 10 = 0 then
      strip ⟨s.significand / 10, s.exponent + 1⟩ fuel
    else s

/-- The shortest decimal that reads back as `mantissa * 2 ^ power`. -/
def shortest (tie : Tie) (mantissa : Nat) (power : Int) : Scientific :=
  if mantissa = 0 then ⟨0, 0⟩
  else
    let i := Interval.around mantissa power
    let top := magnitude i.middle i.unit (-324) 700
    (i.search tie top 1 17).strip 20

/-- How a number is written: which of two equally near decimals is taken, the powers of ten between
which it is positional (without bounds if there are none), whether an integer gets a fraction of
zero, and what introduces an exponent. -/
structure Layout where
  tie : Tie
  positional : Option (Int × Int)
  pointZero : Bool
  exponentMark : String

def Scientific.positional (s : Scientific) (pointZero : Bool) : String :=
  let ds := digits s.significand
  if 0 ≤ s.exponent then
    String.ofList (ds ++ List.replicate s.exponent.toNat '0') ++ (if pointZero then ".0" else "")
  else
    let places := s.exponent.natAbs
    let padded := List.replicate (places + 1 - ds.length) '0' ++ ds
    let whole := padded.length - places
    String.ofList (padded.take whole) ++ "." ++ String.ofList (padded.drop whole)

def Scientific.exponential (s : Scientific) (mark : String) : String :=
  let ds := digits s.significand
  let fraction := if ds.length ≤ 1 then "" else "." ++ String.ofList (ds.drop 1)
  String.ofList (ds.take 1) ++ fraction ++ mark ++ intText (s.exponent + ds.length - 1)

def Scientific.text (s : Scientific) (layout : Layout) : String :=
  let point := s.exponent + (digits s.significand).length
  match layout.positional with
  | none => s.positional layout.pointZero
  | some (low, high) =>
    if s.significand = 0 ∨ (low < point ∧ point ≤ high) then s.positional layout.pointZero
    else s.exponential layout.exponentMark

def Layout.text (layout : Layout) (mantissa : Nat) (power : Int) : String :=
  (shortest layout.tie mantissa power).text layout

end ProxyConsole.Decimal
