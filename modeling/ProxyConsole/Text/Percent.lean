import ProxyConsole.Text.Utf8

/-!
# Percent encoding

Every byte of a text except ASCII letters, digits and `-`, `_`, `.`, `~` is written as a
percent sign and two hexadecimal digits in capitals, so an encoded text is one segment
of a path or one value of a query whatever it says.
-/

set_option autoImplicit false

namespace ProxyConsole.Percent

def isPlain (b : UInt8) : Bool :=
  (0x30 ≤ b && b ≤ 0x39) || (0x41 ≤ b && b ≤ 0x5A) || (0x61 ≤ b && b ≤ 0x7A) ||
    b == 0x2D || b == 0x5F || b == 0x2E || b == 0x7E

def hexDigit (n : Nat) : Char :=
  if n < 10 then Char.ofNat (0x30 + n) else Char.ofNat (0x37 + n)

def encodeByte (b : UInt8) : List Char :=
  if isPlain b then [Char.ofNat b.toNat]
  else ['%', hexDigit (b.toNat / 16), hexDigit (b.toNat % 16)]

def encode (s : String) : String :=
  String.ofList ((Utf8.encode s).flatMap encodeByte)

end ProxyConsole.Percent
