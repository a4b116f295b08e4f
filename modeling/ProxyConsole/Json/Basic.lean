/-!
# JSON values

A value is a tree whose objects keep the order in which their members are written.  Numbers are
either integers, which keep every digit, or binary floating point numbers, held by their bits.
-/

set_option autoImplicit false

namespace ProxyConsole

inductive Number where
  | integer (i : Int)
  | float (bits : UInt64)
  deriving DecidableEq, Repr

inductive Json where
  | null
  | bool (b : Bool)
  | number (n : Number)
  | string (s : String)
  | array (items : List Json)
  | object (members : List (String × Json))
  deriving Repr

namespace Json

def nat (n : Nat) : Json :=
  .number (.integer n)

def orNull : Option Json → Json
  | some j => j
  | none => .null

end Json

/-- A sorted association list with one more entry: an entry of the same key is replaced. -/
def insertSorted {α : Type} (key : String) (value : α) :
    List (String × α) → List (String × α)
  | [] => [(key, value)]
  | (k, v) :: rest =>
    if key < k then (key, value) :: (k, v) :: rest
    else if key = k then (key, value) :: rest
    else (k, v) :: insertSorted key value rest

end ProxyConsole
