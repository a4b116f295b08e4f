import ProxyConsole.Toml.Moment

/-!
# Quoted texts

A text stands between double quotes, where escapes are read, or between single quotes, where nothing
is.  Three quotes open a text of several lines, which loses a line break right after them and keeps
up to two quotes in a row, also right before its end.
-/

set_option autoImplicit false

namespace ProxyConsole.Toml

/-- Whether a character is a control code that no text may hold as it is. -/
def isControl (c : Char) : Bool :=
  (c.toNat < 0x20 && c ≠ '\t' && c ≠ '\n') || c.toNat = 0x7F

def isPlain (c : Char) : Bool :=
  !isControl c && c ≠ '\n'

def hexDigit? (c : Char) : Option Nat :=
  if '0' ≤ c ∧ c ≤ '9' then some (c.toNat - 48)
  else if 'a' ≤ c ∧ c ≤ 'f' then some (c.toNat - 87)
  else if 'A' ≤ c ∧ c ≤ 'F' then some (c.toNat - 55)
  else none

/-- The number of a list of hexadecimal digits, after the digits that make up `n`. -/
def hexValue? (n : Nat) : List Char → Option Nat
  | [] => some n
  | c :: cs =>
    match hexDigit? c with
    | some d => hexValue? (16 * n + d) cs
    | none => none

def scanCodePoint (places : Nat) (cs : List Char) : Option (Char × List Char) :=
  if cs.length < places then none
  else
    match hexValue? 0 (cs.take places) with
    | some n => if n.isValidChar then some (Char.ofNat n, cs.drop places) else none
    | none => none

def scanEscape : Scanner Char
  | 'b' :: cs => some ('\x08', cs)
  | 't' :: cs => some ('\t', cs)
  | 'n' :: cs => some ('\n', cs)
  | 'f' :: cs => some ('\x0c', cs)
  | 'r' :: cs => some ('\r', cs)
  | '"' :: cs => some ('"', cs)
  | '\\' :: cs => some ('\\', cs)
  | 'u' :: cs => scanCodePoint 4 cs
  | 'U' :: cs => scanCodePoint 8 cs
  | _ => none

def prepend (c : Char) (r : Option (List Char × List Char)) : Option (List Char × List Char) :=
  r.map fun (cs, rest) => (c :: cs, rest)

/-- A text in double quotes, after the first of them.  The fuel bounds the length of the input. -/
def scanBasic : Nat → Scanner (List Char)
  | 0, _ => none
  | _ + 1, [] => none
  | fuel + 1, c :: cs =>
    if c = '"' then some ([], cs)
    else if c = '\\' then
      match scanEscape cs with
      | some (e, cs) => prepend e (scanBasic fuel cs)
      | none => none
    else if isPlain c then prepend c (scanBasic fuel cs)
    else none

def scanLiteral : Scanner (List Char)
  | [] => none
  | c :: cs =>
    if c = '\'' then some ([], cs)
    else if isPlain c then prepend c (scanLiteral cs)
    else none

def isBlank (c : Char) : Bool :=
  c = ' ' || c = '\t'

def skipBlanks (cs : List Char) : List Char :=
  cs.dropWhile isBlank

def afterBreak? : List Char → Option (List Char)
  | '\n' :: cs => some cs
  | '\r' :: '\n' :: cs => some cs
  | _ => none

def skipSpace : List Char → List Char
  | [] => []
  | '\r' :: '\n' :: cs => skipSpace cs
  | c :: cs => if isBlank c || c = '\n' then skipSpace cs else c :: cs

/-- The quotes that end a text of several lines: three of them, after up to two that belong to the
text.  Without an end, the quotes at the front. -/
def scanQuotes (quote : Char) (cs : List Char) : List Char × Bool × List Char :=
  let run := (cs.takeWhile (· = quote)).length
  if run < 3 then (List.replicate run quote, false, cs.drop run)
  else
    let taken := min run 5
    (List.replicate (taken - 3) quote, true, cs.drop taken)

def scanLongBasic : Nat → Scanner (List Char)
  | 0, _ => none
  | _ + 1, [] => none
  | fuel + 1, c :: cs =>
    if c = '"' then
      match scanQuotes '"' (c :: cs) with
      | (quotes, true, rest) => some (quotes, rest)
      | (quotes, false, rest) =>
        (scanLongBasic fuel rest).map fun (text, rest) => (quotes ++ text, rest)
    else if c = '\\' then
      match afterBreak? (skipBlanks cs) with
      | some rest => scanLongBasic fuel (skipSpace rest)
      | none =>
        match scanEscape cs with
        | some (e, cs) => prepend e (scanLongBasic fuel cs)
        | none => none
    else
      match afterBreak? (c :: cs) with
      | some rest => prepend '\n' (scanLongBasic fuel rest)
      | none => if isPlain c then prepend c (scanLongBasic fuel cs) else none

def scanLongLiteral : Nat → Scanner (List Char)
  | 0, _ => none
  | _ + 1, [] => none
  | fuel + 1, c :: cs =>
    if c = '\'' then
      match scanQuotes '\'' (c :: cs) with
      | (quotes, true, rest) => some (quotes, rest)
      | (quotes, false, rest) =>
        (scanLongLiteral fuel rest).map fun (text, rest) => (quotes ++ text, rest)
    else
      match afterBreak? (c :: cs) with
      | some rest => prepend '\n' (scanLongLiteral fuel rest)
      | none => if isPlain c then prepend c (scanLongLiteral fuel cs) else none

def dropBreak (cs : List Char) : List Char :=
  (afterBreak? cs).getD cs

def scanShort : Scanner (List Char)
  | '"' :: cs => scanBasic (cs.length + 1) cs
  | '\'' :: cs => scanLiteral cs
  | _ => none

def scanQuoted : Scanner (List Char)
  | '"' :: '"' :: '"' :: cs =>
    let cs := dropBreak cs
    scanLongBasic (cs.length + 1) cs
  | '\'' :: '\'' :: '\'' :: cs =>
    let cs := dropBreak cs
    scanLongLiteral (cs.length + 1) cs
  | cs => scanShort cs

end ProxyConsole.Toml
