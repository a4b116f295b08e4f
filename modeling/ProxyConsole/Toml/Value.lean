import ProxyConsole.Toml.Numeral
import ProxyConsole.Toml.Section

/-!
# Reading values

The first characters of a value tell its kind.  Arrays may go over several lines and hold comments;
tables within braces stand on one line.  Nesting is limited.
-/

set_option autoImplicit false

namespace ProxyConsole.Toml

/-- The rest after blanks, line breaks and comments.  The fuel bounds the length of the input. -/
def skipLines : Nat → List Char → List Char
  | 0, cs => cs
  | fuel + 1, cs =>
    match skipSpace cs with
    | '#' :: cs => skipLines fuel (cs.dropWhile isPlain)
    | cs => cs

def skipFiller (cs : List Char) : List Char :=
  skipLines cs.length cs

def scanWord : List Char → List Char → Option (List Char)
  | [], cs => some cs
  | _ :: _, [] => none
  | w :: ws, c :: cs => if c = w then scanWord ws cs else none

def scanScalar (cs : List Char) : Option (Toml × List Char) :=
  match cs with
  | [] => none
  | c :: _ =>
    if c = '"' ∨ c = '\'' then
      (scanQuoted cs).map fun (text, rest) => (.string (String.ofList text), rest)
    else if c = 't' then (scanWord ['t', 'r', 'u', 'e'] cs).map fun rest => (.bool true, rest)
    else if c = 'f' then (scanWord ['f', 'a', 'l', 's', 'e'] cs).map fun rest => (.bool false, rest)
    else if startsDate cs then (scanDated cs).map fun (m, rest) => (.moment m, rest)
    else if startsTime cs then (scanTimed cs).map fun (m, rest) => (.moment m, rest)
    else scanNumeral cs

/-- How deep arrays and tables within braces may be nested. -/
def nestingLimit : Nat := 79

mutual

/-- A value, `room` more levels of nesting being allowed.  The fuel bounds the length of the
input. -/
def scanValue : Nat → Nat → Scanner Toml
  | 0, _, _ => none
  | _ + 1, _, [] => none
  | fuel + 1, room, c :: cs =>
    if c = '[' then
      if room = 0 then none
      else (scanItems fuel (room - 1) (skipFiller cs)).map fun (items, rest) => (.array items, rest)
    else if c = '\x7b' then
      if room = 0 then none
      else
        match skipBlanks cs with
        | '\x7d' :: cs => some (.table [], cs)
        | cs =>
          match scanPairs fuel (room - 1) cs with
          | none => none
          | some (pairs, rest) => (tableOfPairs? pairs).map fun t => (t, rest)
    else scanScalar (c :: cs)

def scanItems : Nat → Nat → Scanner (List Toml)
  | 0, _, _ => none
  | _ + 1, _, [] => none
  | fuel + 1, room, c :: cs =>
    if c = ']' then some ([], cs)
    else
      match scanValue fuel room (c :: cs) with
      | none => none
      | some (item, cs) =>
        match skipFiller cs with
        | ',' :: cs =>
          (scanItems fuel room (skipFiller cs)).map fun (items, rest) => (item :: items, rest)
        | ']' :: cs => some ([item], cs)
        | _ => none

def scanPairs : Nat → Nat → Scanner (List Pair)
  | 0, _, _ => none
  | fuel + 1, room, cs =>
    match scanPath cs with
    | some (path, '=' :: cs) =>
      match scanValue fuel room (skipBlanks cs) with
      | none => none
      | some (v, cs) =>
        match skipBlanks cs with
        | ',' :: cs =>
          (scanPairs fuel room cs).map fun (pairs, rest) => (⟨path, v⟩ :: pairs, rest)
        | '\x7d' :: cs => some ([⟨path, v⟩], cs)
        | _ => none
    | _ => none

end

end ProxyConsole.Toml
