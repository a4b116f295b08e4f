import ProxyConsole.Toml.Value

/-!
# Reading documents

A document is a list of statements, each on lines of its own: pairs and headers.  A byte
order mark at its start does not count.
-/

set_option autoImplicit false

namespace ProxyConsole.Toml

inductive Statement where
  | pair (p : Pair)
  | header (h : Header)

/-- The rest after the end of a line, blanks and a comment before it included. -/
def scanLineEnd (cs : List Char) : Option (List Char) :=
  let cs := skipBlanks cs
  let cs :=
    match cs with
    | '#' :: cs => cs.dropWhile isPlain
    | cs => cs
  match cs with
  | [] => some []
  | cs => afterBreak? cs

def scanHeader : Scanner Header
  | '[' :: cs =>
    match scanPath cs with
    | some (path, ']' :: ']' :: cs) => some (.row path, cs)
    | _ => none
  | cs =>
    match scanPath cs with
    | some (path, ']' :: cs) => some (.table path, cs)
    | _ => none

def scanPair (cs : List Char) : Option (Pair × List Char) :=
  match scanPath cs with
  | some (path, '=' :: cs) =>
    let cs := skipBlanks cs
    (scanValue (2 * cs.length + 1) nestingLimit cs).map fun (v, rest) => (⟨path, v⟩, rest)
  | _ => none

def scanStatement : Scanner Statement
  | '[' :: cs => (scanHeader cs).map fun (h, rest) => (.header h, rest)
  | cs => (scanPair cs).map fun (p, rest) => (.pair p, rest)

def scanStatements : Nat → List Char → Option (List Statement)
  | 0, _ => none
  | fuel + 1, cs =>
    match skipFiller cs with
    | [] => some []
    | cs =>
      match scanStatement cs with
      | none => none
      | some (statement, cs) =>
        match scanLineEnd cs with
        | none => none
        | some cs => (scanStatements fuel cs).map (statement :: ·)

/-- The pairs before the first header, and the blocks that the headers begin. -/
def blocks : List Statement → List Pair × List Block
  | [] => ([], [])
  | .pair p :: statements =>
    let (pairs, bs) := blocks statements
    (p :: pairs, bs)
  | .header h :: statements =>
    let (pairs, bs) := blocks statements
    ([], ⟨h, pairs⟩ :: bs)

def ofStatements? (statements : List Statement) : Option Toml := do
  let (pairs, bs) := blocks statements
  let slots ← addPairs [] pairs
  let slots ← addBlocks slots bs
  return .table (entriesOf slots)

def withoutMark : List Char → List Char
  | '\ufeff' :: cs => cs
  | cs => cs

def ofText? (s : String) : Option Toml :=
  let cs := withoutMark s.toList
  (scanStatements (cs.length + 1) cs).bind ofStatements?

end ProxyConsole.Toml
