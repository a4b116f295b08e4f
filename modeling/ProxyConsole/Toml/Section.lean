import ProxyConsole.Toml.Basic
import ProxyConsole.Toml.Key

/-!
# Putting tables together

A document defines its tables piece by piece: by headers, by headers of their parts, by keys joined
with points.  Every table remembers how it came about, because that decides what may still be added:
no key may be set twice, no header may be repeated, and neither notation reaches into a table that
the other one has completed.
-/

set_option autoImplicit false

namespace ProxyConsole.Toml

/-- How a table came about. -/
inductive Origin where
  /-- By a header of its own. -/
  | header
  /-- By the header of a part of it. -/
  | part
  /-- By a key joined with points. -/
  | joined
  deriving DecidableEq, Repr

/-- What stands under a key while a document is put together. -/
inductive Slot where
  | value (v : Toml)
  | table (origin : Origin) (slots : List (String × Slot))
  /-- Tables under a repeated header, in order. -/
  | series (rows : List (List (String × Slot)))

abbrev Slots := List (String × Slot)

structure Pair where
  path : KeyPath
  value : Toml

inductive Header where
  | table (path : KeyPath)
  /-- One more table of a series. -/
  | row (path : KeyPath)

structure Block where
  header : Header
  pairs : List Pair

def putSlot (key : String) (slot : Slot) : Slots → Slots
  | [] => [(key, slot)]
  | (k, s) :: slots => if k = key then (k, slot) :: slots else (k, s) :: putSlot key slot slots

/-- Change the table at the end of a path.  A path of keys joined with points does not lead into a
table with a header of its own; a path goes through the latest table of a series. -/
def changeAt (joined : Bool) (change : Origin → Slots → Option Slots) :
    List String → Origin → Slots → Option Slots
  | [], origin, slots => change origin slots
  | key :: keys, _, slots =>
    match slots.lookup key with
    | none =>
      let origin := if joined then .joined else .part
      (changeAt joined change keys origin []).map fun inner =>
        putSlot key (.table origin inner) slots
    | some (.value _) => none
    | some (.table origin inner) =>
      if joined && origin = .header then none
      else
        (changeAt joined change keys origin inner).map fun inner =>
          putSlot key (.table origin inner) slots
    | some (.series rows) =>
      match rows.getLast? with
      | none => none
      | some row =>
        (changeAt joined change keys .header row).map fun row =>
          putSlot key (.series (rows.dropLast ++ [row])) slots

/-- Set a key that is not set yet.  A table reached by keys joined with points must have come about
that way. -/
def setKey (isDirect : Bool) (key : String) (v : Toml) (origin : Origin) (slots : Slots) :
    Option Slots :=
  if !isDirect && origin ≠ .joined then none
  else if (slots.lookup key).isSome then none
  else some (slots ++ [(key, .value v)])

def addPair (slots : Slots) (p : Pair) : Option Slots :=
  changeAt true (setKey p.path.parents.isEmpty p.path.key p.value) p.path.parents .header slots

def addPairs (slots : Slots) : List Pair → Option Slots
  | [] => some slots
  | p :: ps => (addPair slots p).bind fun slots => addPairs slots ps

def completeTable (key : String) (pairs : List Pair) (_ : Origin) (slots : Slots) :
    Option Slots :=
  match slots.lookup key with
  | none => (addPairs [] pairs).map fun inner => putSlot key (.table .header inner) slots
  | some (.table .part inner) =>
    (addPairs inner pairs).map fun inner => putSlot key (.table .header inner) slots
  | some _ => none

def addRow (key : String) (pairs : List Pair) (_ : Origin) (slots : Slots) : Option Slots :=
  match slots.lookup key with
  | none => (addPairs [] pairs).map fun row => putSlot key (.series [row]) slots
  | some (.series rows) =>
    (addPairs [] pairs).map fun row => putSlot key (.series (rows ++ [row])) slots
  | some _ => none

def addBlock (slots : Slots) (b : Block) : Option Slots :=
  match b.header with
  | .table path => changeAt false (completeTable path.key b.pairs) path.parents .header slots
  | .row path => changeAt false (addRow path.key b.pairs) path.parents .header slots

def addBlocks (slots : Slots) : List Block → Option Slots
  | [] => some slots
  | b :: bs => (addBlock slots b).bind fun slots => addBlocks slots bs

mutual

def Slot.toToml : Slot → Toml
  | .value v => v
  | .table _ slots => .table (entriesOf slots)
  | .series rows => .array (rowsOf rows)

def entriesOf : List (String × Slot) → List (String × Toml)
  | [] => []
  | (key, slot) :: slots => insertSorted key slot.toToml (entriesOf slots)

def rowsOf : List (List (String × Slot)) → List Toml
  | [] => []
  | row :: rows => .table (entriesOf row) :: rowsOf rows

end

def tableOfPairs? (pairs : List Pair) : Option Toml :=
  (addPairs [] pairs).map fun slots => .table (entriesOf slots)

end ProxyConsole.Toml
