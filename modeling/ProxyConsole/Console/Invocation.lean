import ProxyConsole.Console.Command
import ProxyConsole.Console.CommandLine
import ProxyConsole.Console.SettingsCommand

/-!
# The program's command line

The commands of the program with their options, and what a valid command line asks for.
-/

set_option autoImplicit false

namespace ProxyConsole.Console

def programName : String := "proxyctl"

def programVersion : String := "0.1.0"

inductive Task where
  | core (c : Command)
  | settings (c : SettingsCommand)
  deriving DecidableEq, Repr

/-- A valid command line: where the settings are, which endpoint was named, and what to do. -/
structure Invocation where
  settingsPath : Option String
  endpoint : Option String
  task : Task
  deriving DecidableEq, Repr

def switch? (s : String) : Option Bool :=
  let word := Text.lowerAscii s
  if ["y", "yes", "t", "true", "on", "1"].contains word then some true
  else if ["n", "no", "f", "false", "off", "0"].contains word then some false
  else none

def timeout? (s : String) : Option Nat :=
  (Decimal.intOfText? s).bind fun i => if 0 ≤ i ∧ i < UInt32.size then some i.toNat else none

def width? (s : String) : Option Nat :=
  (Decimal.natOfText? s).filter fun n => n < UInt64.size

def sharedOptions : List OptionSpec :=
  [ { long := "config", short := some 'c', takesValue := true, accepts := fun s => s ≠ "" },
    { long := "endpoint", short := some 'e', takesValue := true },
    { long := "json" },
    { long := "verbose", short := some 'v', counted := true },
    { long := "quiet", short := some 'q' } ]

def leaf (name : String) (arguments : List ArgumentSpec) (options : List OptionSpec := []) :
    CommandSpec :=
  .mk name [] options arguments [] false

def family (name : String) (aliases : List String) (commands : List CommandSpec) : CommandSpec :=
  .mk name aliases [] [] commands true

def word : ArgumentSpec := {}

def switch : ArgumentSpec := { accepts := fun s => (switch? s).isSome }

def program : CommandSpec :=
  family programName []
    [ leaf "status" [] [{ long := "wait", short := some 'w' }],
      .mk "mode" [] [] [] [leaf "get" [], leaf "set" [word]] false,
      family "proxies" ["proxy"]
        [ leaf "list" [] [{ long := "group", short := some 'g', takesValue := true }],
          leaf "select" [word, word],
          leaf "delay" [{ many := true }]
            [ { long := "url", short := some 'u', takesValue := true },
              { long := "timeout", short := some 't', takesValue := true,
                accepts := fun s => (timeout? s).isSome },
              { long := "concurrency", takesValue := true,
                accepts := fun s => (width? s).isSome } ] ],
      leaf "reload" [word],
      .mk "connections" ["conn"] [] []
        [leaf "list" [], leaf "close" [word], leaf "close-all" []] false,
      leaf "rules" [] [{ long := "filter", short := some 'f', takesValue := true }],
      family "provider" [] [leaf "update" [word]],
      leaf "flush-fakeip" [],
      family "set" []
        [leaf "log-level" [word], leaf "allow-lan" [switch], leaf "ipv6" [switch],
          leaf "tun" [switch]],
      family "config" []
        [leaf "show" [], leaf "get" [word], leaf "set" [word, word],
          leaf "init" [] [{ long := "force", short := some 'f' }], leaf "path" []] ]

/-- The value of a shared option; the one beside the last command counts. -/
def sharedValue? (levels : List Level) (long : String) : Option String :=
  levels.reverse.findSome? fun l => l.option? long

def coreSetting? (name value : String) : Option CoreSetting :=
  match name with
  | "log-level" => some (.logLevel value)
  | "allow-lan" => (switch? value).map .allowLan
  | "ipv6" => (switch? value).map .ipv6
  | "tun" => (switch? value).map .tun
  | _ => none

def delayCommand (l : Level) (json : Bool) : Command :=
  .testDelay l.arguments ((l.option? "url").getD defaultDelayUrl)
    (((l.option? "timeout").bind timeout?).getD 5000)
    (((l.option? "concurrency").bind width?).getD 8) json

def task? (json : Bool) (levels : List Level) (last : Level) : Option Task :=
  match levels.map Level.command, last.arguments with
  | ["status"], [] => some (.core (.status (last.option? "wait").isSome json))
  | ["mode"], [] => some (.core .showMode)
  | ["mode", "get"], [] => some (.core .showMode)
  | ["mode", "set"], [mode] => some (.core (.setMode mode))
  | ["proxies", "list"], [] => some (.core (.listProxies (last.option? "group") json))
  | ["proxies", "select"], [group, node] => some (.core (.select group node))
  | ["proxies", "delay"], _ :: _ => some (.core (delayCommand last json))
  | ["reload"], [path] => some (.core (.reload path))
  | ["connections"], [] => some (.core (.listConnections json))
  | ["connections", "list"], [] => some (.core (.listConnections json))
  | ["connections", "close"], [id] => some (.core (.closeConnection id))
  | ["connections", "close-all"], [] => some (.core .closeAllConnections)
  | ["rules"], [] => some (.core (.listRules (last.option? "filter") json))
  | ["provider", "update"], [name] => some (.core (.updateProvider name))
  | ["flush-fakeip"], [] => some (.core .flushFakeIp)
  | ["set", name], [value] => (coreSetting? name value).map fun s => .core (.set s)
  | ["config", "show"], [] => some (.settings .print)
  | ["config", "get"], [key] => some (.settings (.get key))
  | ["config", "set"], [key, value] => some (.settings (.set key value))
  | ["config", "init"], [] => some (.settings (.init (last.option? "force").isSome))
  | ["config", "path"], [] => some (.settings .path)
  | _, _ => none

def invocation? (levels : List Level) : Option Invocation := do
  let last ← levels.getLast?
  let json := (sharedValue? levels "json").isSome
  let task ← task? json (levels.drop 1) last
  return { settingsPath := sharedValue? levels "config"
           endpoint := sharedValue? levels "endpoint"
           task }

end ProxyConsole.Console
