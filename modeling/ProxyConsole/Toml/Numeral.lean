import ProxyConsole.Toml.Basic
import ProxyConsole.Toml.Quoted

/-!
# Numbers of a settings file

Integers are decimal, or hexadecimal, octal or binary after a mark; floating point numbers have a
fraction or an exponent.  Single underscores may stand between digits.
-/

set_option autoImplicit false

namespace ProxyConsole.Toml

/-- Digits of a kind with underscores between them, which do not count. -/
def scanGrouped (isDigit : Char → Bool) : Scanner (List Char)
  | [] => none
  | c :: cs => if isDigit c then go c cs else none
where
  go (c : Char) : Scanner (List Char)
    | [] => some ([c], [])
    | '_' :: d :: cs =>
      if isDigit d then (go d cs).map fun (ds, rest) => (c :: ds, rest) else none
    | d :: cs =>
      if isDigit d then (go d cs).map fun (ds, rest) => (c :: ds, rest)
      else if d = '_' then none
      else some ([c], d :: cs)

/-- The digits of a decimal integer, which has no zero in front of other digits. -/
def scanWhole : Scanner (List Char)
  | '0' :: cs => some (['0'], cs)
  | cs => scanGrouped Char.isDigit cs

def isDigitOf (base : Nat) (c : Char) : Bool :=
  match hexDigit? c with
  | some d => d < base
  | none => false

def valueOf (base : Nat) (cs : List Char) : Nat :=
  cs.foldl (fun n c => base * n + (hexDigit? c).getD 0) 0

def integer? (i : Int) : Option Toml :=
  if fitsInteger i then some (.integer i) else none

def scanBased (base : Nat) (cs : List Char) : Option (Toml × List Char) := do
  let (ds, cs) ← scanGrouped (isDigitOf base) cs
  let v ← integer? (valueOf base ds)
  return (v, cs)

def signed (negative : Bool) (bits : UInt64) : UInt64 :=
  if negative then bits ||| 0x8000000000000000 else bits

def infinity : UInt64 := 0x7FF0000000000000

def notANumber : UInt64 := 0x7FF8000000000000

/-- The bits of the double nearest to `significand * 10 ^ exponent`.  Numbers that are too
large have none, unless they are negative. -/
def nearestDouble? (negative : Bool) (significand : Nat) (exponent : Int) : Option UInt64 :=
  let point := exponent + (Decimal.digits significand).length
  if significand = 0 ∨ point < -340 then some (signed negative 0)
  else
    let bits :=
      if 320 < point then infinity
      else (Float.ofScientific significand (exponent < 0) exponent.natAbs).toBits
    if bits = infinity ∧ !negative then none else some (signed negative bits)

def scanPlaces : Scanner (List Char)
  | '.' :: cs => scanGrouped Char.isDigit cs
  | cs => some ([], cs)

def scanExponentDigits (down : Bool) (cs : List Char) : Option (Int × List Char) :=
  (scanGrouped Char.isDigit cs).map fun (ds, rest) =>
    (if down then -(Decimal.value ds : Int) else Decimal.value ds, rest)

def scanExponent : Scanner Int
  | c :: cs =>
    if c = 'e' ∨ c = 'E' then
      match cs with
      | '+' :: cs => scanExponentDigits false cs
      | '-' :: cs => scanExponentDigits true cs
      | cs => scanExponentDigits false cs
    else some (0, c :: cs)
  | [] => some (0, [])

def scanDecimal (negative : Bool) (cs : List Char) : Option (Toml × List Char) := do
  let (whole, cs) ← scanWhole cs
  let isFloat := match cs with
    | c :: _ => c = '.' || c = 'e' || c = 'E'
    | [] => false
  if isFloat then
    let (places, cs) ← scanPlaces cs
    let (exponent, cs) ← scanExponent cs
    let bits ← nearestDouble? negative (Decimal.value (whole ++ places)) (exponent - places.length)
    return (.float bits, cs)
  else
    let n : Int := Decimal.value whole
    let v ← integer? (if negative then -n else n)
    return (v, cs)

def scanMagnitude (negative : Bool) : Scanner Toml
  | 'i' :: 'n' :: 'f' :: cs => some (.float (signed negative infinity), cs)
  | 'n' :: 'a' :: 'n' :: cs => some (.float (signed negative notANumber), cs)
  | cs => scanDecimal negative cs

def scanNumeral : Scanner Toml
  | '+' :: cs => scanMagnitude false cs
  | '-' :: cs => scanMagnitude true cs
  | '0' :: 'x' :: cs => scanBased 16 cs
  | '0' :: 'o' :: cs => scanBased 8 cs
  | '0' :: 'b' :: cs => scanBased 2 cs
  | cs => scanMagnitude false cs

end ProxyConsole.Toml
