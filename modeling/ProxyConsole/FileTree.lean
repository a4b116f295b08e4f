import ProxyConsole.Text.Lines
import ProxyConsole.Text.Utf8

/-!
# Files and directories

A tree of files is a value: paths with what stands there.  Each operation follows its
path from directory to directory, fails with the cause that the system names, and
changes nothing when it fails.  Of several directories to be made, those made before a
failure stay.
-/

set_option autoImplicit false

namespace ProxyConsole

inductive Entry where
  | file (bytes : List UInt8)
  | directory
  deriving DecidableEq, Repr

inductive FileFault where
  | notFound
  | taken
  | notDirectory
  | isDirectory
  | notText
  deriving DecidableEq, Repr

def FileFault.text : FileFault → String
  | .notFound => "No such file or directory (os error 2)"
  | .taken => "File exists (os error 17)"
  | .notDirectory => "Not a directory (os error 20)"
  | .isDirectory => "Is a directory (os error 21)"
  | .notText => "stream did not contain valid UTF-8"

/-- The names of a path, empty ones and single points apart. -/
def pathNames (path : String) : List String :=
  ((Text.splitWhere (· = '/') path.toList).map String.ofList).filter fun name =>
    name ≠ "" && name ≠ "."

/-- All that stands in the tree below its root, which is a directory. -/
structure FileTree where
  entries : List (List String × Entry) := []

namespace FileTree

def at? (t : FileTree) (place : List String) : Option Entry :=
  if place.isEmpty then some .directory else t.entries.lookup place

def isDirectory (t : FileTree) (place : List String) : Bool :=
  t.at? place = some .directory

def put (t : FileTree) (place : List String) (e : Entry) : FileTree :=
  ⟨(place, e) :: t.entries.filter fun x => x.1 ≠ place⟩

def follow (t : FileTree) (place : List String) : List String → Except FileFault (List String)
  | [] => .ok place
  | name :: names =>
    match t.at? place with
    | none => .error .notFound
    | some (.file _) => .error .notDirectory
    | some .directory =>
      t.follow (if name = ".." then place.dropLast else place ++ [name]) names

def find (t : FileTree) (names : List String) : Except FileFault Entry := do
  let place ← t.follow [] names
  match t.at? place with
  | some e => .ok e
  | none => .error .notFound

def hasPath (t : FileTree) (path : String) : Bool :=
  (t.find (pathNames path)).isOk

def readText (t : FileTree) (path : String) : Except FileFault String :=
  match t.find (pathNames path) with
  | .error e => .error e
  | .ok .directory => .error .isDirectory
  | .ok (.file bytes) =>
    match Utf8.decode bytes with
    | some s => .ok s
    | none => .error .notText

def write (t : FileTree) (path : String) (bytes : List UInt8) : Except FileFault FileTree :=
  match t.follow [] (pathNames path) with
  | .error e => .error e
  | .ok place =>
    if t.isDirectory place then .error .isDirectory else .ok (t.put place (.file bytes))

def makeDirectory (t : FileTree) (names : List String) : Except FileFault FileTree :=
  match t.follow [] names with
  | .error e => .error e
  | .ok place => if (t.at? place).isSome then .error .taken else .ok (t.put place .directory)

def leadsToDirectory (t : FileTree) (names : List String) : Bool :=
  match t.find names with
  | .ok .directory => true
  | _ => false

/-- What becomes of making a directory: one that is there already will do. -/
def settle (t : FileTree) (names : List String) :
    Except FileFault FileTree → FileTree × Except FileFault Unit
  | .ok made => (made, .ok ())
  | .error e => (t, if t.leadsToDirectory names then .ok () else .error e)

/-- Make a directory and those above it, the names being given from the last to the first. -/
def makeAll (t : FileTree) : List String → FileTree × Except FileFault Unit
  | [] => (t, .ok ())
  | name :: above =>
    let names := (name :: above).reverse
    match t.makeDirectory names with
    | .error .notFound =>
      match t.makeAll above with
      | (made, .error e) => (made, .error e)
      | (made, .ok ()) => made.settle names (made.makeDirectory names)
    | result => t.settle names result

def makeDirectories (t : FileTree) (names : List String) : Except FileFault FileTree :=
  match t.makeAll names.reverse with
  | (made, .ok ()) => .ok made
  | (_, .error e) => .error e

end FileTree

end ProxyConsole
