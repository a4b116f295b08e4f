/-!
# UTF-8

Text as bytes and back.  A byte sequence that is not UTF-8 throughout has no text; for display each
ill-formed stretch of one can be shown as a replacement character.
-/

set_option autoImplicit false

namespace ProxyConsole.Utf8

def encodeChar (c : Char) : List UInt8 :=
  String.utf8EncodeChar c

def encodeChars (cs : List Char) : List UInt8 :=
  cs.flatMap encodeChar

def encode (s : String) : List UInt8 :=
  encodeChars s.toList

def decode (bytes : List UInt8) : Option String :=
  String.fromUTF8? bytes.toByteArray

theorem encode_eq_toByteArray (s : String) : (encode s).toByteArray = s.toByteArray := by
  conv => rhs; rw [← @String.ofList_toList s]
  rw [String.toByteArray_ofList, List.utf8Encode]
  rfl

theorem decode_encode (s : String) : decode (encode s) = some s := by
  rw [decode, encode_eq_toByteArray]
  simp [String.fromUTF8?, String.fromUTF8, s.isValidUTF8]

def decodeChar (bytes : List UInt8) : Option (Char × List UInt8) :=
  ((bytes.take 4).toByteArray.utf8DecodeChar? 0).map fun c => (c, bytes.drop c.utf8Size)

def isContinuation (b : UInt8) : Bool :=
  0x80 ≤ b && b < 0xC0

/-- How many bytes at the front of an ill-formed sequence are shown as one replacement character:
the longest start of a well-formed character, and at least one byte. -/
def brokenLength : List UInt8 → Nat
  | b :: c₁ :: rest =>
    let low := if b = 0xE0 then 0xA0 else if b = 0xF0 then 0x90 else 0x80
    let high := if b = 0xED then 0x9F else if b = 0xF4 then 0x8F else 0xBF
    if 0xE0 ≤ b && b < 0xF5 && low ≤ c₁ && c₁ ≤ high then
      match rest with
      | c₂ :: _ => if 0xF0 ≤ b && isContinuation c₂ then 3 else 2
      | [] => 2
    else 1
  | _ => 1

/-- The characters of any byte sequence, ill-formed stretches being shown as replacement
characters.  The fuel bounds the length of the input. -/
def decodeLossyUpTo : Nat → List UInt8 → List Char
  | 0, _ => []
  | _ + 1, [] => []
  | fuel + 1, bytes =>
    match decodeChar bytes with
    | some (c, rest) => c :: decodeLossyUpTo fuel rest
    | none => '\uFFFD' :: decodeLossyUpTo fuel (bytes.drop (brokenLength bytes))

def decodeLossy (bytes : List UInt8) : String :=
  String.ofList (decodeLossyUpTo bytes.length bytes)

end ProxyConsole.Utf8
