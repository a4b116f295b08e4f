import ProxyConsole.Toml.Quoted

/-!
# Keys

A key is bare, if it has only letters, digits, underscores and hyphens, or quoted.  Keys joined by
points lead through nested tables.
-/

set_option autoImplicit false

namespace ProxyConsole.Toml

def isBare (c : Char) : Bool :=
  c.isAlphanum || c = '_' || c = '-'

/-- A list of keys that lead into tables, and the key in the last of them. -/
structure KeyPath where
  parents : List String
  key : String
  deriving DecidableEq, Repr

def pathLimit : Nat := 79

def scanKey (cs : List Char) : Option (String × List Char) :=
  match cs with
  | [] => none
  | c :: _ =>
    if c = '"' ∨ c = '\'' then (scanShort cs).map fun (text, rest) => (String.ofList text, rest)
    else
      let bare := cs.takeWhile isBare
      if bare.isEmpty then none else some (String.ofList bare, cs.dropWhile isBare)

def scanKeys : Nat → Scanner (List String)
  | 0, _ => none
  | fuel + 1, cs =>
    match scanKey (skipBlanks cs) with
    | none => none
    | some (key, cs) =>
      match skipBlanks cs with
      | '.' :: cs => (scanKeys fuel cs).map fun (keys, rest) => (key :: keys, rest)
      | cs => some ([key], cs)

def KeyPath.ofKeys? : List String → Option KeyPath
  | [] => none
  | [key] => some ⟨[], key⟩
  | parent :: keys => (KeyPath.ofKeys? keys).map fun p => ⟨parent :: p.parents, p.key⟩

def scanPath (cs : List Char) : Option (KeyPath × List Char) := do
  let (keys, cs) ← scanKeys (cs.length + 1) cs
  if pathLimit < keys.length then none
  else
    let path ← KeyPath.ofKeys? keys
    return (path, cs)

end ProxyConsole.Toml
