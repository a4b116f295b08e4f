import ProxyConsole.Json.Basic
import ProxyConsole.Json.Literal

/-!
# Numerals of a JSON text

A numeral without fraction and exponent whose value fits 64 bits is an integer.  Every other one is
a floating point number: as many leading digits as fit 64 bits, scaled by a power of ten in one
multiplication or division.  `-0` is a floating point number too, and one too large for a finite
value is malformed.  A numeral that is passed over only has its shape checked.
-/

set_option autoImplicit false

namespace ProxyConsole.Json

def digit? (b : UInt8) : Option Nat :=
  if 0x30 ≤ b.toNat ∧ b.toNat ≤ 0x39 then some (b.toNat - 0x30) else none

def isDigit (b : UInt8) : Bool :=
  0x30 ≤ b && b ≤ 0x39

/-- One more than the largest significand that is kept. -/
def significandLimit : Nat := UInt64.size

/-- Scale by a power of ten, `1e308` at a time once the exponent leaves the range of the table of
powers; `none` when the result is infinite.  The exponent itself bounds the steps. -/
def scaleTen (value : Float) (exponent : Int) : Nat → Option Float
  | 0 => some value
  | fuel + 1 =>
    if exponent.natAbs ≤ 308 then
      let power := Float.ofScientific 1 false exponent.natAbs
      if 0 ≤ exponent then
        let scaled := value * power
        if scaled.isInf then none else some scaled
      else some (value / power)
    else if value == 0 then some value
    else if 0 ≤ exponent then none
    else scaleTen (value / Float.ofScientific 1 false 308) (exponent + 308) fuel

def floating (negative : Bool) (significand : Nat) (exponent : Int) : Except Fault Number :=
  match scaleTen (UInt64.ofNat significand).toFloat exponent 8 with
  | none => .error .malformed
  | some x => .ok (.float (if negative then -x else x).toBits)

/-- Largest exponent that is written out; the next one makes the number zero or too large. -/
def exponentLimit : Nat := 2147483648

def exponentDigits (n : Nat) : List UInt8 → Option Nat
  | [] => some n
  | b :: rest =>
    match digit? b with
    | none => some n
    | some d => if n * 10 + d < exponentLimit then exponentDigits (n * 10 + d) rest else none

def readExponent (negative : Bool) (significand : Nat) (shift : Int) (bytes : List UInt8) :
    Except Fault Number :=
  let (down, bytes) :=
    match bytes with
    | 0x2B :: rest => (false, rest)
    | 0x2D :: rest => (true, rest)
    | _ => (false, bytes)
  match bytes with
  | [] => .error .eof
  | b :: _ =>
    if !isDigit b then .error .malformed
    else
      match exponentDigits 0 bytes with
      | some e =>
        let exponent := if down then shift - e else shift + e
        floating negative significand (max (-exponentLimit) (min (exponentLimit - 1) exponent))
      | none =>
        if significand ≠ 0 ∧ !down then .error .malformed
        else .ok (.float (if negative then -0.0 else 0.0 : Float).toBits)

def readFractionEnd (negative : Bool) (significand : Nat) (shift : Int) (bytes : List UInt8) :
    Except Fault Number :=
  match bytes.dropWhile isDigit with
  | 0x65 :: rest => readExponent negative significand shift rest
  | 0x45 :: rest => readExponent negative significand shift rest
  | _ => floating negative significand shift

/-- Read the digits of a fraction, dropping those after the significand is full. -/
def fractionDigits (negative : Bool) (significand : Nat) (shift : Int) :
    List UInt8 → Except Fault Number
  | [] => floating negative significand shift
  | b :: rest =>
    match digit? b with
    | some d =>
      if significand * 10 + d < significandLimit then
        fractionDigits negative (significand * 10 + d) (shift - 1) rest
      else readFractionEnd negative significand shift (b :: rest)
    | none => readFractionEnd negative significand shift (b :: rest)

def readFraction (negative : Bool) (significand : Nat) (shift : Int) (bytes : List UInt8) :
    Except Fault Number :=
  match bytes with
  | [] => .error .eof
  | b :: _ =>
    if isDigit b then fractionDigits negative significand shift bytes else .error .malformed

def readIntegerEnd (negative : Bool) (significand : Nat) : List UInt8 → Except Fault Number
  | 0x2E :: rest => readFraction negative significand 0 rest
  | 0x65 :: rest => readExponent negative significand 0 rest
  | 0x45 :: rest => readExponent negative significand 0 rest
  | _ =>
    if !negative then .ok (.integer significand)
    else if significand = 0 ∨ significandLimit / 2 < significand then
      .ok (.float (-(UInt64.ofNat significand).toFloat).toBits)
    else .ok (.integer (-(significand : Int)))

/-- Read what follows once the significand is full: every further digit counts as a zero. -/
def readLongInteger (negative : Bool) (significand : Nat) (shift : Int) :
    List UInt8 → Except Fault Number
  | [] => floating negative significand shift
  | b :: rest =>
    if isDigit b then readLongInteger negative significand (shift + 1) rest
    else if b = 0x2E then readFraction negative significand shift rest
    else if b = 0x65 ∨ b = 0x45 then readExponent negative significand shift rest
    else floating negative significand shift

def readInteger (negative : Bool) (significand : Nat) : List UInt8 → Except Fault Number
  | [] => readIntegerEnd negative significand []
  | b :: rest =>
    match digit? b with
    | some d =>
      if significand * 10 + d < significandLimit then
        readInteger negative (significand * 10 + d) rest
      else readLongInteger negative significand 0 (b :: rest)
    | none => readIntegerEnd negative significand (b :: rest)

def readMagnitude (negative : Bool) : List UInt8 → Except Fault Number
  | [] => .error .eof
  | 0x30 :: rest =>
    match rest with
    | [] => readIntegerEnd negative 0 []
    | b :: _ => if isDigit b then .error .malformed else readIntegerEnd negative 0 rest
  | b :: rest => if isDigit b then readInteger negative 0 (b :: rest) else .error .malformed

def readNumeral : List UInt8 → Except Fault Number
  | 0x2D :: rest => readMagnitude true rest
  | bytes => readMagnitude false bytes

def afterExponent (bytes : List UInt8) : Except Fault (List UInt8) :=
  let bytes :=
    match bytes with
    | 0x2B :: rest => rest
    | 0x2D :: rest => rest
    | _ => bytes
  match bytes with
  | [] => .error .malformed
  | b :: rest => if isDigit b then .ok (rest.dropWhile isDigit) else .error .malformed

def afterFraction (bytes : List UInt8) : Except Fault (List UInt8) :=
  match bytes with
  | [] => .error .malformed
  | b :: rest =>
    if isDigit b then
      match rest.dropWhile isDigit with
      | 0x65 :: rest => afterExponent rest
      | 0x45 :: rest => afterExponent rest
      | rest => .ok rest
    else .error .malformed

def afterInteger : List UInt8 → Except Fault (List UInt8)
  | 0x2E :: rest => afterFraction rest
  | 0x65 :: rest => afterExponent rest
  | 0x45 :: rest => afterExponent rest
  | rest => .ok rest

def afterMagnitude : List UInt8 → Except Fault (List UInt8)
  | [] => .error .malformed
  | 0x30 :: rest =>
    match rest with
    | [] => .ok []
    | b :: _ => if isDigit b then .error .malformed else afterInteger rest
  | b :: rest =>
    if isDigit b then afterInteger (rest.dropWhile isDigit) else .error .malformed

def afterNumeral : List UInt8 → Except Fault (List UInt8)
  | 0x2D :: rest => afterMagnitude rest
  | bytes => afterMagnitude bytes

/-- A scanned numeral: what reading it gives, and what is wrong with it when it is passed over. -/
structure Numeral where
  value : Except Fault Number
  flaw : Option Fault

/-- Scan a numeral.  Nothing is left of the input when it cannot even be passed over. -/
def scanNumeral (bytes : List UInt8) : Numeral × List UInt8 :=
  match afterNumeral bytes with
  | .ok rest => (⟨readNumeral bytes, none⟩, rest)
  | .error f => (⟨readNumeral bytes, some f⟩, [])

end ProxyConsole.Json
