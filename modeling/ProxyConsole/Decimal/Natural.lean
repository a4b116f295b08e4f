/-!
# Whole numbers in decimal

The texts of whole numbers, and the numbers that texts of decimal digits denote.
-/

set_option autoImplicit false

namespace ProxyConsole.Decimal

/-- The decimal digits of a number, most significant first and without leading zeros. -/
def digits (n : Nat) : List Char :=
  Nat.toDigits 10 n

def value (cs : List Char) : Nat :=
  Nat.ofDigitChars 10 cs 0

theorem value_digits (n : Nat) : value (digits n) = n :=
  Nat.ofDigitChars_ten_toDigits

def tenTo (n : Nat) : Nat :=
  Nat.pow 10 n

def twoTo (n : Nat) : Nat :=
  Nat.pow 2 n

def natText (n : Nat) : String :=
  String.ofList (digits n)

def intText (i : Int) : String :=
  if i < 0 then "-" ++ natText i.natAbs else natText i.natAbs

def isNumeral (cs : List Char) : Bool :=
  !cs.isEmpty && cs.all Char.isDigit

/-- A text of decimal digits, with a sign in front or without, as an integer. -/
def intOfText? (s : String) : Option Int :=
  match s.toList with
  | '-' :: cs => if isNumeral cs then some (-(value cs : Int)) else none
  | '+' :: cs => if isNumeral cs then some (value cs : Int) else none
  | cs => if isNumeral cs then some (value cs : Int) else none

def natOfText? (s : String) : Option Nat :=
  match s.toList with
  | '+' :: cs => if isNumeral cs then some (value cs) else none
  | cs => if isNumeral cs then some (value cs) else none

end ProxyConsole.Decimal
