import ProxyConsole.FileTree
import ProxyConsole.Settings
import ProxyConsole.Toml.Document
import ProxyConsole.Toml.Printer

/-!
# Settings in files

Settings are written as a document with a section for each group of them, and read from
any document: what it leaves out keeps its default and what it says besides is passed
over.  Saving makes the directories above the file, but only once the document stands.
-/

set_option autoImplicit false

namespace ProxyConsole

inductive SettingsFault where
  | notFound (path : String)
  | malformed
  /-- A number has no place among the integers of a document. -/
  | unwritable
  | failed (detail : String)
  deriving DecidableEq, Repr

def brokenDocument : String := "<toml>"

def SettingsFault.message : SettingsFault → String
  | .notFound path => "Config file not found: " ++ path
  | .malformed => "TOML parse error: " ++ brokenDocument
  | .unwritable => "TOML serialize error: out-of-range value for u64 type"
  | .failed detail => "Invalid config: " ++ detail

namespace Settings

def sectionSizes : List (String × Nat) :=
  [ ("timeouts", Timeouts.record.fields.length), ("retry", Retry.record.fields.length),
    ("cache", Lifetimes.record.fields.length), ("readiness", Polling.record.fields.length) ]

/-- A section given as an array without the items beyond its settings. -/
def cutSection (key : String) : Toml → Toml
  | .array items =>
    match sectionSizes.lookup key with
    | some size => .array (items.take size)
    | none => .array items
  | v => v

def ofToml? : Toml → Option Settings
  | .table entries =>
    let entries := entries.map fun (key, v) => (key, cutSection key v)
    match codec.decode (Toml.table entries).node with
    | .ok s => some s
    | .error _ => none
  | _ => none

def ofText? (text : String) : Option Settings :=
  (Toml.ofText? text).bind ofToml?

def toToml? (s : Settings) : Option Toml :=
  Toml.ofJson? (codec.encode s)

def toText? (s : Settings) : Option String :=
  (s.toToml?.bind Toml.entries?).map Toml.documentText

def load (files : FileTree) (path : String) : Except SettingsFault Settings :=
  if !files.hasPath path then .error (.notFound path)
  else
    match files.readText path with
    | .error e => .error (.failed ("Failed to read config: " ++ e.text))
    | .ok text =>
      match ofText? text with
      | some s => .ok s
      | none => .error .malformed

/-- Save settings, with the tree that is left, whether or not it succeeds. -/
def saveInto (files : FileTree) (path : String) (s : Settings) :
    FileTree × Except SettingsFault Unit :=
  match s.toText? with
  | none => (files, .error .unwritable)
  | some text =>
    match files.makeAll (pathNames path).dropLast.reverse with
    | (files, .error e) => (files, .error (.failed ("Failed to create config dir: " ++ e.text)))
    | (files, .ok ()) =>
      match files.write path (Utf8.encode text) with
      | .error e => (files, .error (.failed ("Failed to write config: " ++ e.text)))
      | .ok files => (files, .ok ())

def save (files : FileTree) (path : String) (s : Settings) : Except SettingsFault FileTree :=
  match saveInto files path s with
  | (files, .ok ()) => .ok files
  | (_, .error e) => .error e

end Settings

end ProxyConsole
