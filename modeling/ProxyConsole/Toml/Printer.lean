import ProxyConsole.Decimal.Shortest
import ProxyConsole.Toml.Basic
import ProxyConsole.Toml.Spelling

/-!
# Writing documents

A table is written as a paragraph: its header, then a line for each of its values.  The
paragraphs of the tables in it follow, with a blank line before each.  A table that
holds only tables has no paragraph of its own.  Arrays that consist of tables are series
of paragraphs; other arrays with two or more items have a line for each item.
-/

set_option autoImplicit false

namespace ProxyConsole.Toml

/-- Floating point numbers are positional and always have a point; of two equally near decimals the
larger one is taken. -/
def floatLayout : Decimal.Layout :=
  { tie := .larger, positional := none, pointZero := true, exponentMark := "e" }

def floatText (bits : UInt64) : List Char :=
  match Decimal.Binary.ofBits bits with
  | .nan => ['n', 'a', 'n']
  | .infinite negative => (if negative then ['-'] else []) ++ ['i', 'n', 'f']
  | .finite negative m p =>
    (if negative then ['-'] else []) ++ (floatLayout.text m p).toList

def pairText (key : String) (value : List Char) : List Char :=
  spellKey key ++ ' ' :: '=' :: ' ' :: value

mutual

def valueText : Toml → List Char
  | .string s => spellText s.toList
  | .integer i => (Decimal.intText i).toList
  | .float bits => floatText bits
  | .bool true => ['t', 'r', 'u', 'e']
  | .bool false => ['f', 'a', 'l', 's', 'e']
  | .moment m => m.text
  | .array [] => ['[', ']']
  | .array [item] => '[' :: (valueText item ++ [']'])
  | .array items => '[' :: (itemLines items ++ ['\n', ']'])
  | .table [] => ['\x7b', '\x7d']
  | .table ((key, value) :: entries) =>
    '\x7b' :: ' ' :: (pairText key (valueText value) ++ moreEntries entries)

def itemLines : List Toml → List Char
  | [] => []
  | item :: items => "\n    ".toList ++ valueText item ++ ',' :: itemLines items

def moreEntries : List (String × Toml) → List Char
  | [] => [' ', '\x7d']
  | (key, value) :: entries =>
    ',' :: ' ' :: (pairText key (valueText value) ++ moreEntries entries)

end

/-- Whether an array is written as a series of paragraphs. -/
def isSeries (items : List Toml) : Bool :=
  !items.isEmpty && items.all isTable

def isInline : Toml → Bool
  | .table _ => false
  | .array items => !isSeries items
  | _ => true

def valueLines (entries : List (String × Toml)) : List Char :=
  (entries.filter fun e => isInline e.2).flatMap fun e => pairText e.1 (valueText e.2) ++ ['\n']

def tableHeader (path : List String) : List Char :=
  '[' :: (spellPath path ++ [']', '\n'])

def rowHeader (path : List String) : List Char :=
  '[' :: '[' :: (spellPath path ++ [']', ']', '\n'])

def tableParagraph (path : List String) (entries : List (String × Toml)) : List (List Char) :=
  if entries.isEmpty || entries.any fun e => isInline e.2 then
    [tableHeader path ++ valueLines entries]
  else []

mutual

def paragraphs (path : List String) : Toml → List (List Char)
  | .table entries => tableParagraph path entries ++ innerParagraphs path entries
  | .array items => if isSeries items then rowParagraphs path items else []
  | _ => []

def rowParagraphs (path : List String) : List Toml → List (List Char)
  | [] => []
  | .table entries :: items =>
    (rowHeader path ++ valueLines entries) ::
      (innerParagraphs path entries ++ rowParagraphs path items)
  | _ :: items => rowParagraphs path items

def innerParagraphs (path : List String) : List (String × Toml) → List (List Char)
  | [] => []
  | (key, value) :: entries => paragraphs (path ++ [key]) value ++ innerParagraphs path entries

end

def documentText (entries : List (String × Toml)) : String :=
  let top := valueLines entries
  let all := (if top.isEmpty then [] else [top]) ++ innerParagraphs [] entries
  String.ofList (List.intercalate ['\n'] all)

/-- The rank of an entry in the order of a table's entries: values first, then arrays with tables,
then tables. -/
def rank : Toml → Nat
  | .table _ => 2
  | .array items => if items.any isTable then 1 else 0
  | _ => 0

def byRank (entries : List (String × Toml)) : List (String × Toml) :=
  [0, 1, 2].flatMap fun r => entries.filter fun e => rank e.2 = r

mutual

def ranked : Toml → Toml
  | .array items => .array (rankedItems items)
  | .table entries => .table (byRank (rankedEntries entries))
  | v => v

def rankedItems : List Toml → List Toml
  | [] => []
  | item :: items => ranked item :: rankedItems items

def rankedEntries : List (String × Toml) → List (String × Toml)
  | [] => []
  | (key, value) :: entries => (key, ranked value) :: rankedEntries entries

end

end ProxyConsole.Toml
