import ProxyConsole.Json.Basic
import ProxyConsole.Decimal.Shortest

/-!
# Writing JSON

The compact form has no insignificant characters.  The pretty form puts every item and member on a
line of its own, indented by two blanks a level, and leaves empty arrays and objects on one line.
Text is written raw except for quotes, backslashes and control characters.
-/

set_option autoImplicit false

namespace ProxyConsole.Json

/-- Floating point numbers are positional from 1e-5 up to 1e16 and always show a fraction there; of
two equally near decimals the one with an even last digit is taken. -/
def floatLayout : Decimal.Layout :=
  { tie := .even, positional := some (-5, 16), pointZero := true, exponentMark := "e" }

/-- The text of a floating point number; there is none for infinities and not-a-number, which are
written as `null`. -/
def floatText (bits : UInt64) : String :=
  match Decimal.Binary.ofBits bits with
  | .finite negative m p =>
    (if negative then "-" else "") ++ floatLayout.text m p
  | _ => "null"

def numberText : Number → List Char
  | .integer i => (Decimal.intText i).toList
  | .float bits => (floatText bits).toList

def hexDigitChar (n : Nat) : Char :=
  Nat.digitChar (n % 16)

def escapeChar (c : Char) : List Char :=
  if c = '"' then ['\\', '"']
  else if c = '\\' then ['\\', '\\']
  else if c = '\n' then ['\\', 'n']
  else if c = '\r' then ['\\', 'r']
  else if c = '\t' then ['\\', 't']
  else if c = '\x08' then ['\\', 'b']
  else if c = '\x0c' then ['\\', 'f']
  else if c.toNat < 0x20 then
    ['\\', 'u', '0', '0', hexDigitChar (c.toNat / 16), hexDigitChar c.toNat]
  else [c]

def quote (s : String) : List Char :=
  '"' :: (s.toList.flatMap escapeChar ++ ['"'])

mutual

def compact : Json → List Char
  | .null => ['n', 'u', 'l', 'l']
  | .bool true => ['t', 'r', 'u', 'e']
  | .bool false => ['f', 'a', 'l', 's', 'e']
  | .number n => numberText n
  | .string s => quote s
  | .array items => '[' :: compactItems items
  | .object members => '\x7b' :: compactMembers members

def compactItems : List Json → List Char
  | [] => [']']
  | item :: items => compact item ++ compactMoreItems items

def compactMoreItems : List Json → List Char
  | [] => [']']
  | item :: items => ',' :: (compact item ++ compactMoreItems items)

def compactMembers : List (String × Json) → List Char
  | [] => ['\x7d']
  | (key, value) :: members => quote key ++ ':' :: (compact value ++ compactMoreMembers members)

def compactMoreMembers : List (String × Json) → List Char
  | [] => ['\x7d']
  | (key, value) :: members =>
    ',' :: (quote key ++ ':' :: (compact value ++ compactMoreMembers members))

end

def newLine (level : Nat) : List Char :=
  '\n' :: List.replicate (2 * level) ' '

mutual

def prettyAt (level : Nat) : Json → List Char
  | .null => ['n', 'u', 'l', 'l']
  | .bool true => ['t', 'r', 'u', 'e']
  | .bool false => ['f', 'a', 'l', 's', 'e']
  | .number n => numberText n
  | .string s => quote s
  | .array [] => ['[', ']']
  | .array (item :: items) =>
    '[' :: (newLine (level + 1) ++ prettyAt (level + 1) item ++ prettyMoreItems level items)
  | .object [] => ['\x7b', '\x7d']
  | .object ((key, value) :: members) =>
    '\x7b' :: (newLine (level + 1) ++ quote key ++ ':' :: ' ' :: prettyAt (level + 1) value ++
      prettyMoreMembers level members)

def prettyMoreItems (level : Nat) : List Json → List Char
  | [] => newLine level ++ [']']
  | item :: items =>
    ',' :: (newLine (level + 1) ++ prettyAt (level + 1) item ++ prettyMoreItems level items)

def prettyMoreMembers (level : Nat) : List (String × Json) → List Char
  | [] => newLine level ++ ['\x7d']
  | (key, value) :: members =>
    ',' :: (newLine (level + 1) ++ quote key ++ ':' :: ' ' :: prettyAt (level + 1) value ++
      prettyMoreMembers level members)

end

def compactText (j : Json) : String :=
  String.ofList (compact j)

def prettyText (j : Json) : String :=
  String.ofList (prettyAt 0 j)

end ProxyConsole.Json
