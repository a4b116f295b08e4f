import ProxyConsole.Text.Blank
import ProxyConsole.Failure

/-!
# Routing modes and log levels

Two short lists of names.  A name is recognised whatever its case, blanks around it apart; anything
else is refused with a text that quotes the input as given.
-/

set_option autoImplicit false

namespace ProxyConsole

def foldName (s : String) : String :=
  Text.lowerAscii (Text.trim s)

inductive Mode where
  /-- By its list of rules. -/
  | rule
  /-- Everything through the selected global node. -/
  | global
  /-- Past the proxies. -/
  | direct
  deriving DecidableEq, Repr

namespace Mode

def default : Mode := .rule

def all : List Mode := [.rule, .global, .direct]

def name : Mode → String
  | .rule => "rule"
  | .global => "global"
  | .direct => "direct"

def parse (s : String) : Except CallError Mode :=
  match all.find? fun m => m.name = foldName s with
  | some m => .ok m
  | none => .error (.validation
      ("Unknown mode '" ++ s ++ "', expected one of: rule, global, direct"))

/-- A mode is written as its name and read like a user's input. -/
def codec : Codec Mode where
  encode m := .string m.name
  decode node := do
    let s ← Codec.string.decode node
    match parse s with
    | .ok m => .ok m
    | .error e => .error (.refused e.message)

end Mode

inductive LogLevel where
  | debug
  | info
  | warning
  | error
  | silent
  deriving DecidableEq, Repr

namespace LogLevel

def default : LogLevel := .info

def all : List LogLevel := [.debug, .info, .warning, .error, .silent]

def name : LogLevel → String
  | .debug => "debug"
  | .info => "info"
  | .warning => "warning"
  | .error => "error"
  | .silent => "silent"

def parse (s : String) : Except CallError LogLevel :=
  match all.find? fun l => l.name = foldName s with
  | some l => .ok l
  | none => .error (.validation
      ("Unknown log level '" ++ s ++
        "', expected one of: debug, info, warning, error, silent"))

def codec : Codec LogLevel where
  encode l := .string l.name
  decode node := do
    let s ← Codec.string.decode node
    match parse s with
    | .ok l => .ok l
    | .error e => .error (.refused e.message)

end LogLevel

end ProxyConsole
