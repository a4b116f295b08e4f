import ProxyConsole.Console.Program

/-!
# The program under an operating system

The settings file and the directories above it are read into a tree, the program runs on
it, and what it changed is written back.  There is no network: nobody answers at any
endpoint.
-/

set_option autoImplicit false

namespace ProxyConsole

def endpointVariable : String := "PROXYCTL_ENDPOINT"

def placeOf (names : List String) : List String :=
  names.foldl (fun place name => if name = ".." then place.dropLast else place ++ [name]) []

/-- The places that a path leads over, each with the part of the path that leads there. -/
def waypoints (path : String) : List (List String × String) :=
  let names := pathNames path
  let start := if path.toList.head? = some '/' then "/" else ""
  (List.range names.length).map fun n =>
    let part := names.take (n + 1)
    (placeOf part, start ++ "/".intercalate part)

/-- What stands at a path.  What can be opened but not read is a directory. -/
def readEntry (path : String) : IO (Option Entry) := do
  match ← (IO.FS.Handle.mk path .read).toBaseIO with
  | .error _ => return none
  | .ok handle =>
    match ← handle.readBinToEnd.toBaseIO with
    | .ok bytes => return some (.file bytes.toList)
    | .error _ => return some .directory

def readTree (path : String) : IO FileTree :=
  (waypoints path).foldlM
    (fun files (place, part) => do
      match ← readEntry part with
      | some e => return files.put place e
      | none => return files)
    {}

def writeTree (path : String) (before after : FileTree) : IO Unit :=
  (waypoints path).forM fun (place, part) => do
    if before.at? place = after.at? place then return
    match after.at? place with
    | some (.file bytes) => IO.FS.writeBinFile part ⟨bytes.toArray⟩
    | some .directory => IO.FS.createDir part
    | none => return

def environment : IO Console.Environment := do
  let home := (← IO.getEnv "HOME").getD ""
  let settingsHome :=
    match ← IO.getEnv "XDG_CONFIG_HOME" with
    | some directory =>
      if directory.toList.head? = some '/' then directory else home ++ "/.config"
    | none => home ++ "/.config"
  return {
    settingsHome
    endpoint := ← IO.getEnv endpointVariable
    link := fun s => .dead (unreachable false s.endpoint) }

end ProxyConsole

def main (words : List String) : IO UInt32 := do
  let e ← ProxyConsole.environment
  let path := e.settingsPath words
  let before ← ProxyConsole.readTree path
  let finished := ProxyConsole.Console.run e before [] words
  ProxyConsole.writeTree path before finished.files
  (← IO.getStdout).putStr finished.screen.out
  (← IO.getStderr).putStr finished.screen.err
  return UInt32.ofNat finished.exitCode
