import ProxyConsole.Json.Numeral

/-!
# Documents

A JSON text is read into a tree that keeps what a reader meets from left to right.  The first place
where the text breaks becomes a leaf or the end of a list, and nothing stands after it; so a walk
over the tree finds the faults of the text and the mismatches of types in the order of the text,
whichever comes first.
-/

set_option autoImplicit false

namespace ProxyConsole.Json

/-- A value as it stands in a text.  The end of an array or object is `none` at its closing bracket
and the fault that took the bracket's place otherwise. -/
inductive Node where
  | broken (f : Fault)
  | null
  | bool (b : Bool)
  | number (n : Numeral)
  | string (s : Literal)
  | array (items : List Node) (ending : Option Fault)
  | object (members : List (Literal × Node)) (ending : Option Fault)

def isSpace (b : UInt8) : Bool :=
  b == 0x20 || b == 0x09 || b == 0x0A || b == 0x0D

def skipSpace (bytes : List UInt8) : List UInt8 :=
  bytes.dropWhile isSpace

def expect : List UInt8 → List UInt8 → Except Fault (List UInt8)
  | [], rest => .ok rest
  | _ :: _, [] => .error .eof
  | e :: es, b :: rest => if b = e then expect es rest else .error .malformed

def scanWord (word : List UInt8) (node : Node) (bytes : List UInt8) : Node × List UInt8 :=
  match expect word bytes with
  | .ok rest => (node, rest)
  | .error f => (.broken f, [])

def faultAt : List UInt8 → Fault
  | [] => .eof
  | _ :: _ => .malformed

mutual

/-- Scan one value.  The fuel bounds the length of the input. -/
def scanValue : Nat → List UInt8 → Node × List UInt8
  | 0, _ => (.broken .eof, [])
  | fuel + 1, bytes =>
    match skipSpace bytes with
    | [] => (.broken .eof, [])
    | 0x22 :: rest =>
      let (literal, rest) := scanLiteral rest
      (.string literal, rest)
    | 0x7B :: rest =>
      let (members, ending, rest) := scanMembers fuel true rest
      (.object members ending, rest)
    | 0x5B :: rest =>
      let (items, ending, rest) := scanItems fuel true rest
      (.array items ending, rest)
    | 0x6E :: rest => scanWord [0x75, 0x6C, 0x6C] .null rest
    | 0x74 :: rest => scanWord [0x72, 0x75, 0x65] (.bool true) rest
    | 0x66 :: rest => scanWord [0x61, 0x6C, 0x73, 0x65] (.bool false) rest
    | b :: rest =>
      if b = 0x2D ∨ isDigit b then
        let (numeral, rest) := scanNumeral (b :: rest)
        (.number numeral, rest)
      else (.broken .malformed, [])

def scanItems : Nat → Bool → List UInt8 → List Node × Option Fault × List UInt8
  | 0, _, _ => ([], some .eof, [])
  | fuel + 1, first, bytes =>
    match skipSpace bytes with
    | [] => ([], some .eof, [])
    | 0x5D :: rest => ([], none, rest)
    | b :: rest =>
      if first then
        let (item, rest) := scanValue fuel (b :: rest)
        let (items, ending, rest) := scanItems fuel false rest
        (item :: items, ending, rest)
      else if b = 0x2C then
        let (item, rest) := scanValue fuel rest
        let (items, ending, rest) := scanItems fuel false rest
        (item :: items, ending, rest)
      else ([], some .malformed, [])

def scanMembers : Nat → Bool → List UInt8 → List (Literal × Node) × Option Fault × List UInt8
  | 0, _, _ => ([], some .eof, [])
  | fuel + 1, first, bytes =>
    match skipSpace bytes with
    | [] => ([], some .eof, [])
    | 0x7D :: rest => ([], none, rest)
    | b :: rest =>
      if first then scanMember fuel (b :: rest)
      else if b = 0x2C then scanMember fuel (skipSpace rest)
      else ([], some .malformed, [])

def scanMember : Nat → List UInt8 → List (Literal × Node) × Option Fault × List UInt8
  | 0, _ => ([], some .eof, [])
  | fuel + 1, 0x22 :: bytes =>
    let (key, rest) := scanLiteral bytes
    match skipSpace rest with
    | 0x3A :: rest =>
      let (value, rest) := scanValue fuel rest
      let (members, ending, rest) := scanMembers fuel false rest
      ((key, value) :: members, ending, rest)
    | rest => ([(key, .broken (faultAt rest))], some (faultAt rest), [])
  | _ + 1, bytes =>
    let fault := faultAt bytes
    ([(.broken fault, .broken fault)], some fault, [])

end

/-- A whole text: its value, and what is wrong after the value. -/
structure Document where
  root : Node
  trailing : Option Fault

def Document.scan (bytes : List UInt8) : Document :=
  let (root, rest) := scanValue (2 * bytes.length + 2) bytes
  ⟨root, if (skipSpace rest).isEmpty then none else some .malformed⟩

mutual

/-- Pass over a value that nobody asked for: only the shape of the text counts. -/
def Node.passOver : Node → Except Fault Unit
  | .broken f => .error f
  | .null => .ok ()
  | .bool _ => .ok ()
  | .number n => n.flaw.elim (.ok ()) .error
  | .string s => s.flaw.elim (.ok ()) .error
  | .array items ending =>
    match passOverItems items with
    | .error f => .error f
    | .ok () => ending.elim (.ok ()) .error
  | .object members ending =>
    match passOverMembers members with
    | .error f => .error f
    | .ok () => ending.elim (.ok ()) .error

def passOverItems : List Node → Except Fault Unit
  | [] => .ok ()
  | item :: items =>
    match item.passOver with
    | .error f => .error f
    | .ok () => passOverItems items

def passOverMembers : List (Literal × Node) → Except Fault Unit
  | [] => .ok ()
  | (key, value) :: members =>
    match key.flaw with
    | some f => .error f
    | none =>
      match value.passOver with
      | .error f => .error f
      | .ok () => passOverMembers members

end

end ProxyConsole.Json
