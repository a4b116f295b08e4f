import ProxyConsole.Text.Utf8

/-!
# String literals of a JSON text

A literal is scanned in two ways.  A literal whose text is wanted is *read*: its escapes must name
scalar values and its bytes must be UTF-8.  A literal that belongs to an ignored member is *passed
over*: only the shape of its escapes is looked at.  Both scans start after the opening quote, and a
control character ends either of them.
-/

set_option autoImplicit false

namespace ProxyConsole.Json

/-- How a text fails to be JSON: it stops too early, or something in it is malformed. -/
inductive Fault where
  | eof
  | malformed
  deriving DecidableEq, Repr

def hexDigit? (b : UInt8) : Option Nat :=
  let n := b.toNat
  if 0x30 ≤ n ∧ n ≤ 0x39 then some (n - 0x30)
  else if 0x41 ≤ n ∧ n ≤ 0x46 then some (n - 0x37)
  else if 0x61 ≤ n ∧ n ≤ 0x66 then some (n - 0x57)
  else none

def hexQuad? (a b c d : UInt8) : Option Nat := do
  let a ← hexDigit? a
  let b ← hexDigit? b
  let c ← hexDigit? c
  let d ← hexDigit? d
  return ((a * 16 + b) * 16 + c) * 16 + d

def simpleEscape? (b : UInt8) : Option UInt8 :=
  match b with
  | 0x22 => some 0x22
  | 0x5C => some 0x5C
  | 0x2F => some 0x2F
  | 0x62 => some 0x08
  | 0x66 => some 0x0C
  | 0x6E => some 0x0A
  | 0x72 => some 0x0D
  | 0x74 => some 0x09
  | _ => none

def isHighSurrogate (n : Nat) : Bool :=
  0xD800 ≤ n && n < 0xDC00

def isLowSurrogate (n : Nat) : Bool :=
  0xDC00 ≤ n && n < 0xE000

def joinSurrogates (high low : Nat) : Nat :=
  0x10000 + (high - 0xD800) * 0x400 + (low - 0xDC00)

def withBytes (front : List UInt8) : Except Fault (List UInt8) → Except Fault (List UInt8)
  | .ok bytes => .ok (front ++ bytes)
  | .error f => .error f

/-- The second half of a surrogate pair, which must follow at once as another escape. -/
def lowHalf? : List UInt8 → Except Fault (Nat × List UInt8)
  | [] => .error .eof
  | 0x5C :: [] => .error .eof
  | 0x5C :: 0x75 :: a :: b :: c :: d :: rest =>
    match hexQuad? a b c d with
    | none => .error .malformed
    | some n => if isLowSurrogate n then .ok (n, rest) else .error .malformed
  | 0x5C :: 0x75 :: _ => .error .eof
  | _ => .error .malformed

/-- The contents of a literal as bytes, its escapes resolved, up to the closing quote.  The fuel
bounds the length of the input. -/
def contents : Nat → List UInt8 → Except Fault (List UInt8)
  | 0, _ => .error .eof
  | _ + 1, [] => .error .eof
  | _ + 1, 0x22 :: _ => .ok []
  | _ + 1, 0x5C :: [] => .error .eof
  | fuel + 1, 0x5C :: 0x75 :: a :: b :: c :: d :: rest =>
    match hexQuad? a b c d with
    | none => .error .malformed
    | some n =>
      if isLowSurrogate n then .error .malformed
      else if isHighSurrogate n then
        match lowHalf? rest with
        | .error f => .error f
        | .ok (low, rest) =>
          withBytes (Utf8.encodeChar (Char.ofNat (joinSurrogates n low))) (contents fuel rest)
      else withBytes (Utf8.encodeChar (Char.ofNat n)) (contents fuel rest)
  | _ + 1, 0x5C :: 0x75 :: _ => .error .eof
  | fuel + 1, 0x5C :: e :: rest =>
    match simpleEscape? e with
    | none => .error .malformed
    | some b => withBytes [b] (contents fuel rest)
  | fuel + 1, b :: rest =>
    if b < 0x20 then .error .malformed else withBytes [b] (contents fuel rest)

def afterLiteral : Nat → List UInt8 → Except Fault (List UInt8)
  | 0, _ => .error .eof
  | _ + 1, [] => .error .eof
  | _ + 1, 0x22 :: rest => .ok rest
  | _ + 1, 0x5C :: [] => .error .eof
  | fuel + 1, 0x5C :: 0x75 :: a :: b :: c :: d :: rest =>
    match hexQuad? a b c d with
    | none => .error .malformed
    | some _ => afterLiteral fuel rest
  | _ + 1, 0x5C :: 0x75 :: _ => .error .eof
  | fuel + 1, 0x5C :: e :: rest =>
    match simpleEscape? e with
    | none => .error .malformed
    | some _ => afterLiteral fuel rest
  | fuel + 1, b :: rest =>
    if b < 0x20 then .error .malformed else afterLiteral fuel rest

/-- A scanned string literal: what reading it gives, and what is wrong with it when it is only
passed over. -/
structure Literal where
  text : Except Fault String
  flaw : Option Fault

def Literal.broken (f : Fault) : Literal :=
  ⟨.error f, some f⟩

def textOfBytes (bytes : List UInt8) : Except Fault String :=
  match Utf8.decode bytes with
  | some s => .ok s
  | none => .error .malformed

/-- Scan a literal after its opening quote.  Nothing is left of the input when the literal cannot
even be passed over. -/
def scanLiteral (bytes : List UInt8) : Literal × List UInt8 :=
  let text := (contents (bytes.length + 1) bytes).bind textOfBytes
  match afterLiteral (bytes.length + 1) bytes with
  | .ok rest => (⟨text, none⟩, rest)
  | .error f => (⟨text, some f⟩, [])

end ProxyConsole.Json
