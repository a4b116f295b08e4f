import ProxyConsole.Toml.Key

/-!
# Spelling texts and keys

Of the ways in which a text can be quoted, the plainest that needs no escapes is taken:
double quotes, single quotes, three double quotes, three single quotes.  A text that
needs escapes in all of them goes into double quotes.  A text with line breaks starts on
a line of its own.
-/

set_option autoImplicit false

namespace ProxyConsole.Toml

/-- The greatest number of consecutive elements that satisfy `p`, `run` of them having come
before. -/
def longestRun (p : Char → Bool) (run : Nat) : List Char → Nat
  | [] => run
  | c :: cs => if p c then longestRun p (run + 1) cs else max run (longestRun p 0 cs)

def hasControl (cs : List Char) : Bool :=
  cs.any isControl

def capitalDigit (n : Nat) : Char :=
  (Nat.digitChar (n % 16)).toUpper

/-- A character as it stands in double quotes; the double quote itself is left to the caller, and so
is the line break of a text of several lines. -/
def escaped (c : Char) : List Char :=
  if c = '\x08' then ['\\', 'b']
  else if c = '\t' then ['\\', 't']
  else if c = '\n' then ['\\', 'n']
  else if c = '\x0c' then ['\\', 'f']
  else if c = '\r' then ['\\', 'r']
  else if c = '\\' then ['\\', '\\']
  else if isControl c then
    ['\\', 'u', '0', '0', capitalDigit (c.toNat / 16), capitalDigit c.toNat]
  else [c]

def spellBasic (cs : List Char) : List Char :=
  cs.flatMap fun c => if c = '"' then ['\\', '"'] else escaped c

/-- A text in three double quotes, between them: of three quotes in a row the third is escaped.  So
many quotes have come right before. -/
def spellLong (quotes : Nat) : List Char → List Char
  | [] => []
  | c :: cs =>
    if c = '"' then
      if quotes = 2 then '\\' :: '"' :: spellLong 0 cs else '"' :: spellLong (quotes + 1) cs
    else if c = '\n' then '\n' :: spellLong 0 cs
    else escaped c ++ spellLong 0 cs

def enclose (delimiter text : List Char) : List Char :=
  delimiter ++ text ++ delimiter

def longStart (quote : Char) (cs : List Char) : List Char :=
  List.replicate 3 quote ++ (if '\n' ∈ cs then ['\n'] else [])

def spellLongBasic (cs : List Char) : List Char :=
  longStart '"' cs ++ spellLong 0 cs ++ List.replicate 3 '"'

def spellLongLiteral (cs : List Char) : List Char :=
  longStart '\'' cs ++ cs ++ List.replicate 3 '\''

def suitsBasic (cs : List Char) : Bool :=
  cs.all fun c => c ≠ '"' && c ≠ '\\' && isPlain c

def suitsLiteral (cs : List Char) : Bool :=
  cs.all fun c => c ≠ '\'' && isPlain c

def spellText (cs : List Char) : List Char :=
  if suitsBasic cs then enclose ['"'] (spellBasic cs)
  else if suitsLiteral cs then enclose ['\''] cs
  else if !hasControl cs && '\\' ∉ cs && longestRun (· = '"') 0 cs ≤ 2 then spellLongBasic cs
  else if !hasControl cs && longestRun (· = '\'') 0 cs ≤ 2 then spellLongLiteral cs
  else if '\n' ∈ cs then spellLongBasic cs
  else enclose ['"'] (spellBasic cs)

def spellKey (key : String) : List Char :=
  let cs := key.toList
  if !cs.isEmpty && cs.all isBare then cs
  else if suitsBasic cs then enclose ['"'] (spellBasic cs)
  else if suitsLiteral cs then enclose ['\''] cs
  else enclose ['"'] (spellBasic cs)

def spellPath (path : List String) : List Char :=
  List.intercalate ['.'] (path.map spellKey)

end ProxyConsole.Toml
