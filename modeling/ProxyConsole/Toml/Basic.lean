import ProxyConsole.Json.Node
import ProxyConsole.Toml.Moment

/-!
# Values of a settings file

A value is a scalar, a moment, an array or a table.  A table that was read has its
entries sorted by key, so that the order in which they stood does not matter.  Values
can be taken from JSON, which has no moments, and can be looked at like a JSON document,
so that the same decoders read both.
-/

set_option autoImplicit false

namespace ProxyConsole

inductive Toml where
  | string (s : String)
  | integer (i : Int)
  | float (bits : UInt64)
  | bool (b : Bool)
  | moment (m : Toml.Moment)
  | array (items : List Toml)
  | table (entries : List (String × Toml))
  deriving Repr

namespace Toml

/-- Whether a number fits the integers of a settings file, which have 64 bits and a sign. -/
def fitsInteger (i : Int) : Bool :=
  -9223372036854775808 ≤ i && i ≤ 9223372036854775807

def isTable : Toml → Bool
  | .table _ => true
  | _ => false

def entries? : Toml → Option (List (String × Toml))
  | .table entries => some entries
  | _ => none

def get? (t : Toml) (key : String) : Option Toml :=
  t.entries?.bind fun entries => entries.lookup key

mutual

/-- A JSON value as a value of a settings file, if it has only integers that fit and no `null`. -/
def ofJson? : Json → Option Toml
  | .null => none
  | .bool b => some (.bool b)
  | .number (.integer i) => if fitsInteger i then some (.integer i) else none
  | .number (.float bits) => some (.float bits)
  | .string s => some (.string s)
  | .array items => (ofJsonItems? items).map .array
  | .object members => (ofJsonMembers? members).map .table

def ofJsonItems? : List Json → Option (List Toml)
  | [] => some []
  | item :: items => do
    let item ← ofJson? item
    let items ← ofJsonItems? items
    return item :: items

def ofJsonMembers? : List (String × Json) → Option (List (String × Toml))
  | [] => some []
  | (key, value) :: members => do
    let value ← ofJson? value
    let members ← ofJsonMembers? members
    return (key, value) :: members

end

def literal (s : String) : Json.Literal :=
  ⟨.ok s, none⟩

def momentKey : String := "$moment"

mutual

def node : Toml → Json.Node
  | .string s => .string (literal s)
  | .integer i => .number ⟨.ok (.integer i), none⟩
  | .float bits => .number ⟨.ok (.float bits), none⟩
  | .bool b => .bool b
  | .moment m => .object [(literal momentKey, .string (literal (String.ofList m.text)))] none
  | .array items => .array (itemNodes items) none
  | .table entries => .object (memberNodes entries) none

def itemNodes : List Toml → List Json.Node
  | [] => []
  | item :: items => node item :: itemNodes items

def memberNodes : List (String × Toml) → List (Json.Literal × Json.Node)
  | [] => []
  | (key, value) :: entries => (literal key, node value) :: memberNodes entries

end

mutual

def sorted : Toml → Toml
  | .array items => .array (sortedItems items)
  | .table entries => .table (sortedEntries entries)
  | v => v

def sortedItems : List Toml → List Toml
  | [] => []
  | item :: items => sorted item :: sortedItems items

def sortedEntries : List (String × Toml) → List (String × Toml)
  | [] => []
  | (key, value) :: entries => insertSorted key (sorted value) (sortedEntries entries)

end

end Toml

end ProxyConsole
