import ProxyConsole.Console.Screen
import ProxyConsole.Settings.File

/-!
# Commands on the settings file

None of these contacts the core.  A key is a path of names joined with points.  Setting
a key rewrites the whole document; a document that would no longer give settings is not
written.
-/

set_option autoImplicit false

namespace ProxyConsole.Console

inductive SettingsCommand where
  | print
  | get (key : String)
  | set (key value : String)
  | init (force : Bool)
  | path
  deriving DecidableEq, Repr

structure FileOutcome where
  screen : Screen := {}
  outcome : Except Causes Unit := .ok ()
  files : FileTree

namespace FileOutcome

def after (s : Screen) (o : FileOutcome) : FileOutcome :=
  { o with screen := s ++ o.screen }

end FileOutcome

def concludeWith (s : Screen) (files : FileTree) : FileOutcome :=
  { screen := s, files }

def failWith (causes : Causes) (files : FileTree) : FileOutcome :=
  { outcome := .error causes, files }

def settingsCauses (e : SettingsFault) : Causes :=
  match e with
  | .malformed => [e.message, brokenDocument]
  | e => [e.message]

def keyNames (key : String) : List String :=
  (Text.splitWhere (· = '.') key.toList).map String.ofList

/-- The value that a user's text stands for: a truth value or an integer if it is one. -/
def scalarOfText (s : String) : Toml :=
  if s = "true" then .bool true
  else if s = "false" then .bool false
  else
    match Decimal.intOfText? s with
    | some i => if Toml.fitsInteger i then .integer i else .string s
    | none => .string s

def valueAt? (t : Toml) : List String → Option Toml
  | [] => some t
  | name :: names => (t.get? name).bind fun t => valueAt? t names

/-- Entries with a value set at a path of names, tables being made on the way.  A name on the way
whose value is no table is returned. -/
def setAt (v : Toml) :
    List String → List (String × Toml) → Except String (List (String × Toml))
  | [], entries => .ok entries
  | [name], entries => .ok (insertSorted name v entries)
  | name :: names, entries =>
    match entries.lookup name with
    | none => (setAt v names []).map fun inner => insertSorted name (.table inner) entries
    | some (.table inner) =>
      (setAt v names inner).map fun inner => insertSorted name (.table inner) entries
    | some _ => .error name

def writeDefaults (files : FileTree) (path : String) : FileTree × Except Causes Unit :=
  match Settings.saveInto files path {} with
  | (files, .ok ()) => (files, .ok ())
  | (files, .error e) =>
    (files, .error (("Cannot write " ++ quotedPath path) :: settingsCauses e))

def readSettings (files : FileTree) (path : String) : Except Causes String :=
  match files.readText path with
  | .ok text => .ok text
  | .error e => .error ["Cannot read " ++ quotedPath path, e.text]

def malformedCauses (path : String) : Causes :=
  ["Malformed " ++ quotedPath path, brokenDocument]

def effectiveSettings (files : FileTree) (path : String) : Except Causes Settings :=
  if files.hasPath path then do
    let text ← readSettings files path
    match Settings.ofText? text with
    | some s => .ok s
    | none => .error (malformedCauses path)
  else .ok {}

def valueScreen : Toml → Screen
  | .string s => .line s
  | .table entries => .output (Toml.documentText (Toml.byRank (Toml.rankedEntries entries)))
  | v => .line (String.ofList (Toml.valueText v))

def getSetting (files : FileTree) (path key : String) : FileOutcome :=
  match effectiveSettings files path with
  | .error causes => failWith causes files
  | .ok s =>
    match s.toToml?.bind fun t => valueAt? t.sorted (keyNames key) with
    | some v => concludeWith (valueScreen v) files
    | none =>
      (failWith ["unknown config key: " ++ key] files).after
        (Notice.error.print ("Unknown key '" ++ key ++ "'"))

def setInFile (files : FileTree) (path key value : String) : FileOutcome :=
  match readSettings files path with
  | .error causes => failWith causes files
  | .ok text =>
    match (Toml.ofText? text).bind Toml.entries? with
    | none => failWith (malformedCauses path) files
    | some entries =>
      match setAt (scalarOfText value) (keyNames key) entries with
      | .error name => failWith ["'" ++ name ++ "' in '" ++ key ++ "' is not a table"] files
      | .ok entries =>
        let text := Toml.documentText (Toml.rankedEntries entries)
        match Settings.ofText? text with
        | none =>
          (failWith ["invalid value for " ++ key] files).after
            (Notice.error.print ("Rejected " ++ key ++ " = " ++ value ++ ": " ++ brokenDocument))
        | some _ =>
          match files.write path (Utf8.encode text) with
          | .error e => failWith ["Cannot write " ++ quotedPath path, e.text] files
          | .ok files => concludeWith (Notice.success.print (key ++ " = " ++ value)) files

/-- Set one value.  A file that is not there is made first, with the defaults. -/
def setSetting (files : FileTree) (path key value : String) : FileOutcome :=
  if files.hasPath path then setInFile files path key value
  else
    let notice :=
      Notice.info.print ("No config at " ++ quotedPath path ++ ", starting from defaults")
    match writeDefaults files path with
    | (files, .error causes) => (failWith causes files).after notice
    | (files, .ok ()) => (setInFile files path key value).after notice

def showSettings (files : FileTree) (path : String) : FileOutcome :=
  if !files.hasPath path then
    concludeWith
      (Notice.warning.print ("No config at " ++ quotedPath path ++ "; defaults are in effect") ++
        Notice.info.print "Run 'proxyctl config init' to write them out") files
  else
    let heading := Notice.info.print path ++ Screen.line ""
    match readSettings files path with
    | .error causes => (failWith causes files).after heading
    | .ok text => concludeWith (heading ++ Screen.line text) files

/-- Write the default settings; a file that is there is replaced only by force. -/
def initSettings (files : FileTree) (path : String) (force : Bool) : FileOutcome :=
  if files.hasPath path && !force then
    (failWith ["config file already exists"] files).after
      (Notice.error.print (quotedPath path ++ " already exists") ++
        Notice.info.print "Pass --force to replace it")
  else
    match writeDefaults files path with
    | (files, .error causes) => failWith causes files
    | (files, .ok ()) =>
      let wrote := "Wrote default configuration to " ++ quotedPath path
      concludeWith (Notice.success.print wrote) files

def SettingsCommand.run (files : FileTree) (path : String) : SettingsCommand → FileOutcome
  | .print => showSettings files path
  | .get key => getSetting files path key
  | .set key value => setSetting files path key value
  | .init force => initSettings files path force
  | .path => concludeWith (.line path) files

end ProxyConsole.Console
