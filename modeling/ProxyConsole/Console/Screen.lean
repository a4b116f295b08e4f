import ProxyConsole.Decimal.Natural
import ProxyConsole.Text.Lines

/-!
# What is printed

A program prints to two streams.  Notices are single lines with a coloured sign in front.  A failed
program ends with its error and the causes of it.
-/

set_option autoImplicit false

namespace ProxyConsole.Console

structure Screen where
  out : String := ""
  err : String := ""
  deriving DecidableEq, Repr

namespace Screen

def append (a b : Screen) : Screen :=
  ⟨a.out ++ b.out, a.err ++ b.err⟩

instance : Append Screen := ⟨append⟩

def output (s : String) : Screen := { out := s }

def line (s : String) : Screen := { out := s ++ "\n" }

end Screen

inductive Notice where
  | success
  | error
  | warning
  | info
  deriving DecidableEq, Repr

namespace Notice

def colour : Notice → Nat
  | .success => 10
  | .error => 9
  | .warning => 11
  | .info => 14

def sign : Notice → String
  | .success => "✓"
  | .error => "✗"
  | .warning => "⚠"
  | .info => "ℹ"

def text (n : Notice) (message : String) : String :=
  "\x1b[38;5;" ++ Decimal.natText n.colour ++ "m" ++ n.sign ++ " \x1b[0m" ++ message ++ "\n"

/-- Errors and warnings go to standard error, all else to standard output. -/
def print (n : Notice) (message : String) : Screen :=
  match n with
  | .error | .warning => { err := n.text message }
  | .success | .info => { out := n.text message }

end Notice

/-- The text of an error, then the texts of its causes. -/
abbrev Causes := List String

def indented (indent : String) (s : String) : String :=
  String.ofList (List.intercalate ('\n' :: indent.toList) (Text.lines s.toList))

def numbered (index : Nat) : Causes → String
  | [] => ""
  | cause :: causes =>
    "\n    " ++ Decimal.natText index ++ ": " ++ indented "       " cause ++
      numbered (index + 1) causes

def errorReport : Causes → String
  | [] => "Error: \n"
  | [error] => "Error: " ++ error ++ "\n"
  | [error, cause] =>
    "Error: " ++ error ++ "\n\nCaused by:\n    " ++ indented "    " cause ++ "\n"
  | error :: causes => "Error: " ++ error ++ "\n\nCaused by:" ++ numbered 0 causes ++ "\n"

def escapePathChar (c : Char) : List Char :=
  if c = '"' then ['\\', '"']
  else if c = '\\' then ['\\', '\\']
  else if c = '\'' then ['\\', '\'']
  else if c = '\n' then ['\\', 'n']
  else if c = '\r' then ['\\', 'r']
  else if c = '\t' then ['\\', 't']
  else if c = '\x00' then ['\\', '0']
  else if c.toNat < 0x20 ∨ (0x7F ≤ c.toNat ∧ c.toNat < 0xA0) then
    '\\' :: 'u' :: '\x7b' :: (Nat.toDigits 16 c.toNat ++ ['\x7d'])
  else [c]

def quotedPath (path : String) : String :=
  String.ofList ('"' :: (path.toList.flatMap escapePathChar ++ ['"']))

end ProxyConsole.Console
