import ProxyConsole.Console.Invocation

/-!
# The program

A run of the program starts from the words of its command line, its environment, the
files and a backend, and ends with an exit code, what was printed, the files and the
backend as they are then.  The settings come from the file named on the line, which must
be there and sound, or from the default file, if that is there and sound; an endpoint
given on the line or by the environment takes the place of the one in the settings.
-/

set_option autoImplicit false

namespace ProxyConsole.Console

structure Environment where
  /-- The directory in which programs keep their settings. -/
  settingsHome : String
  endpoint : Option String := none
  /-- How a client with the given settings is linked to the backend at its endpoint. -/
  link : Settings → Link
  /-- When the user interrupts a wait for the core, counted from its beginning. -/
  interrupt : Option Nat := none

structure Finished where
  exitCode : Nat
  screen : Screen
  files : FileTree
  /-- The backend after the run. -/
  routes : List (String × List BackendStep)
  sends : List LoggedSend := []

def Environment.defaultPath (e : Environment) : String :=
  e.settingsHome ++ "/" ++ programName ++ "/config.toml"

def Environment.settingsPath (e : Environment) (words : List String) : String :=
  match readLine sharedOptions program words with
  | .run levels => (sharedValue? levels "config").getD e.defaultPath
  | _ => e.defaultPath

def runSettings (e : Environment) (files : FileTree) (i : Invocation) : Except Causes Settings :=
  let fromFile : Except Causes Settings :=
    match i.settingsPath with
    | some path =>
      match Settings.load files path with
      | .ok s => .ok s
      | .error fault =>
        .error (("Failed to load config from " ++ quotedPath path) :: settingsCauses fault)
    | none =>
      match Settings.load files e.defaultPath with
      | .ok s => .ok s
      | .error _ => .ok {}
  match i.endpoint <|> e.endpoint with
  | some endpoint => fromFile.map fun s => { s with endpoint }
  | none => fromFile

def conclusion : Except Causes Unit → Nat × Screen
  | .ok () => (0, {})
  | .error causes => (1, { err := errorReport causes })

def runCommand (e : Environment) (files : FileTree) (routes : List (String × List BackendStep))
    (s : Settings) (c : Command) : Finished :=
  let start : World :=
    { client := { settings := s }, backend := { routes }, link := e.link s, inlet := .channel }
  let (transcript, w) := (c.dialogue e.interrupt).run start
  let (exitCode, report) := conclusion (transcript.outcome.getD (.ok ()))
  { exitCode, screen := transcript.screen ++ report, files
    routes := w.backend.routes, sends := w.log }

def runInvocation (e : Environment) (files : FileTree) (routes : List (String × List BackendStep))
    (i : Invocation) : Finished :=
  match i.task with
  | .settings c =>
    let o := c.run files (i.settingsPath.getD e.defaultPath)
    let (exitCode, report) := conclusion o.outcome
    { exitCode, screen := o.screen ++ report, files := o.files, routes }
  | .core c =>
    match runSettings e files i with
    | .ok s => runCommand e files routes s c
    | .error causes =>
      let (exitCode, report) := conclusion (.error causes)
      { exitCode, screen := report, files, routes }

def misuseText : String :=
  "error: invalid command line\n\nUsage: " ++ programName ++ " [OPTIONS] <COMMAND>\n"

def helpText : String :=
  "Control a running proxy core over its controller channel\n\nUsage: " ++ programName ++
    " [OPTIONS] <COMMAND>\n\nCommands: " ++
    ", ".intercalate (program.commands.map CommandSpec.name) ++ "\n"

def run (e : Environment) (files : FileTree) (routes : List (String × List BackendStep))
    (words : List String) : Finished :=
  let misuse : Finished := { exitCode := 2, screen := { err := misuseText }, files, routes }
  match readLine sharedOptions program words with
  | .misuse => misuse
  | .help => { exitCode := 0, screen := .output helpText, files, routes }
  | .version path =>
    let version := "-".intercalate path ++ " " ++ programVersion
    { exitCode := 0, screen := .line version, files, routes }
  | .run levels =>
    match invocation? levels with
    | some i => runInvocation e files routes i
    | none => misuse

end ProxyConsole.Console
