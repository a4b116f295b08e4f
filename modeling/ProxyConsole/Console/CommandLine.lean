/-!
# Command lines

A program has commands, which may have commands of their own.  Each takes options, by a
long name or a single letter, and positional arguments.  Options of the program can
stand after any of its commands.  An option may not stand twice beside the same command,
unless it is counted.
-/

set_option autoImplicit false

namespace ProxyConsole.Console

structure OptionSpec where
  long : String
  short : Option Char := none
  takesValue : Bool := false
  /-- Whether it may stand several times. -/
  counted : Bool := false
  /-- Whether it can take a value. -/
  accepts : String → Bool := fun _ => true

structure ArgumentSpec where
  /-- Whether any number of values, but at least one, can stand in its place. -/
  many : Bool := false
  accepts : String → Bool := fun _ => true

inductive CommandSpec where
  | mk (name : String) (aliases : List String) (options : List OptionSpec)
      (arguments : List ArgumentSpec) (commands : List CommandSpec) (needsCommand : Bool)

namespace CommandSpec

def name : CommandSpec → String
  | mk n _ _ _ _ _ => n

def aliases : CommandSpec → List String
  | mk _ a _ _ _ _ => a

def options : CommandSpec → List OptionSpec
  | mk _ _ o _ _ _ => o

def arguments : CommandSpec → List ArgumentSpec
  | mk _ _ _ a _ _ => a

def commands : CommandSpec → List CommandSpec
  | mk _ _ _ _ c _ => c

def needsCommand : CommandSpec → Bool
  | mk _ _ _ _ _ n => n

def command? (c : CommandSpec) (word : String) : Option CommandSpec :=
  c.commands.find? fun d => d.name = word || d.aliases.contains word

def argument? (c : CommandSpec) (index : Nat) : Option ArgumentSpec :=
  match c.arguments[index]? with
  | some a => some a
  | none => c.arguments.getLast?.filter ArgumentSpec.many

end CommandSpec

/-- What was given beside one command: options with their values and positional arguments. -/
structure Level where
  command : String
  options : List (String × String) := []
  arguments : List String := []
  deriving DecidableEq, Repr

namespace Level

def option? (l : Level) (long : String) : Option String :=
  l.options.lookup long

def give? (l : Level) (o : OptionSpec) (value : String) : Option Level :=
  if (!o.counted && (l.option? o.long).isSome) || !o.accepts value then none
  else some { l with options := l.options ++ [(o.long, value)] }

end Level

inductive Reading where
  /-- The version of the command that the names lead to. -/
  | version (path : List String)
  | help
  | run (levels : List Level)
  | misuse
  deriving DecidableEq, Repr

/-- A reading of the words after a fault: a request for the version or for help comes first. -/
def Reading.afterFault : Reading → Reading
  | .run _ => .misuse
  | r => r

/-- What the reading of one word gives: more options for the level, the option whose value
is the next word, a request for version or help, or nothing valid. -/
inductive WordReading where
  | level (l : Level)
  | awaits (l : Level) (o : OptionSpec)
  | version
  | help
  | misuse

def readLong (options : List OptionSpec) (l : Level) (word : List Char) : WordReading :=
  let long := String.ofList (word.takeWhile (· ≠ '='))
  let value :=
    match word.dropWhile (· ≠ '=') with
    | [] => none
    | _ :: value => some (String.ofList value)
  match options.find? fun o => o.long = long with
  | some o =>
    match o.takesValue, value with
    | true, none => .awaits l o
    | true, some v => (l.give? o v).elim .misuse .level
    | false, none => (l.give? o "").elim .misuse .level
    | false, some _ => .misuse
  | none =>
    if value.isSome then .misuse
    else if long = "version" then .version
    else if long = "help" then .help
    else .misuse

/-- Read options given by letters, without the hyphen.  A letter whose option takes a value has the
rest of the word as its value. -/
def readLetters (options : List OptionSpec) (l : Level) : List Char → WordReading
  | [] => .level l
  | c :: cs =>
    match options.find? fun o => o.short = some c with
    | some o =>
      if o.takesValue then
        match cs with
        | [] => .awaits l o
        | '=' :: value => (l.give? o (String.ofList value)).elim .misuse .level
        | value => (l.give? o (String.ofList value)).elim .misuse .level
      else
        match l.give? o "" with
        | some l => readLetters options l cs
        | none => .misuse
    | none =>
      if c = 'V' then .version else if c = 'h' then .help else .misuse

def looksLikeOption (word : List Char) : Bool :=
  match word with
  | '-' :: _ :: _ => true
  | _ => false

def readOptions (options : List OptionSpec) (l : Level) : List Char → WordReading
  | '-' :: '-' :: word => readLong options l word
  | '-' :: letters => readLetters options l letters
  | _ => .misuse

def takeArgument? (c : CommandSpec) (l : Level) (word : String) : Option Level :=
  match c.argument? l.arguments.length with
  | some a =>
    if a.accepts word then some { l with arguments := l.arguments ++ [word] } else none
  | none => none

/-- What a line that has ended asks for: nothing that the command needs may be missing. -/
def endOfLine (c : CommandSpec) (above : List Level) (l : Level) : Reading :=
  if c.needsCommand || l.arguments.length < c.arguments.length then .misuse
  else .run (above ++ [l])

def readTrailing (c : CommandSpec) (above : List Level) (l : Level) : List String → Reading
  | [] => endOfLine c above l
  | word :: words =>
    match takeArgument? c l word with
    | some l => readTrailing c above l words
    | none => .misuse

/-- Read the words of a line.  The options in `shared` can stand beside every command.  A
value that is a word of its own is checked when the line goes on beside the same command or
has ended. -/
def readWords (shared : List OptionSpec) (c : CommandSpec) (above : List Level) (l : Level) :
    List String → Reading
  | [] => endOfLine c above l
  | word :: words =>
    let options := shared ++ c.options
    let cs := word.toList
    match c.command? word with
    | some d => readWords shared d (above ++ [l]) { command := d.name } words
    | none =>
      if word = "help" && !c.commands.isEmpty then .help
      else if cs = ['-', '-'] then readTrailing c above l words
      else if looksLikeOption cs then
        match readOptions options l cs with
        | .level l => readWords shared c above l words
        | .version => .version ((above ++ [l]).map Level.command)
        | .help => .help
        | .misuse => .misuse
        | .awaits l o =>
          match words with
          | [] => .misuse
          | value :: words =>
            if looksLikeOption value.toList then .misuse
            else
              match l.give? o value, words with
              | some l, words => readWords shared c above l words
              | none, [] => .misuse
              | none, next :: words =>
                match c.command? next with
                | some d =>
                  (readWords shared d (above ++ [l]) { command := d.name } words).afterFault
                | none => .misuse
      else
        match takeArgument? c l word with
        | some l => readWords shared c above l words
        | none => .misuse

def readLine (shared : List OptionSpec) (program : CommandSpec) (words : List String) : Reading :=
  readWords shared program [] { command := program.name } words

end ProxyConsole.Console
