import ProxyConsole.Json.Decode

/-!
# Frames

Envelopes travel as lines of compact JSON.  A receiver appends what arrives to its buffer and takes
lines off the front; it remembers how much of the buffer it has searched for a line break.  Blank
lines are skipped, and a line is limited in length, its line break apart.
-/

set_option autoImplicit false

namespace ProxyConsole

inductive FrameError where
  | tooLarge (size max : Nat)
  | undecodable (e : DecodeError)
  /-- The stream ended inside a line. -/
  | unfinished
  deriving DecidableEq, Repr

namespace FrameError

def message : FrameError → String
  | .tooLarge size max =>
    "Frame too large: " ++ Decimal.natText size ++ " bytes exceeds maximum of " ++
      Decimal.natText max ++ " bytes"
  | .undecodable e => "Envelope JSON error: " ++ e.quoted
  | .unfinished => "I/O error: bytes remaining on stream"

end FrameError

/-- One end of a connection: the length limit and how far the buffer has been searched. -/
structure Framing where
  maxLength : Nat
  searched : Nat
  deriving DecidableEq, Repr

namespace Framing

def defaultMaxLength : Nat := 16777216

def new (maxLength : Nat) : Framing := ⟨maxLength, 0⟩

def lineBreak : UInt8 := 0x0A

/-- Whether a byte is blank at the ends of a line: space, tab, line feed, form feed, return. -/
def isBlank (b : UInt8) : Bool :=
  b == 0x20 || b == 0x09 || b == 0x0A || b == 0x0C || b == 0x0D

def trim (line : List UInt8) : List UInt8 :=
  ((line.dropWhile isBlank).reverse.dropWhile isBlank).reverse

/-- What one attempt to take a frame gives: an item, an error, or nothing yet; with the new state
and the buffer that is left. -/
structure Taken (α : Type) where
  outcome : Except FrameError (Option α)
  framing : Framing
  buffer : List UInt8

/-- Take the next frame off the buffer.  Each blank line passed costs one unit of fuel. -/
def takeUpTo {α : Type} (c : Codec α) (f : Framing) : Nat → List UInt8 → Taken α
  | 0, buffer => ⟨.ok none, f, buffer⟩
  | fuel + 1, buffer =>
    match (buffer.drop f.searched).findIdx? (· == lineBreak) with
    | none =>
      if f.maxLength < buffer.length then
        ⟨.error (.tooLarge buffer.length f.maxLength), f, buffer⟩
      else ⟨.ok none, { f with searched := buffer.length }, buffer⟩
    | some offset =>
      let length := f.searched + offset
      let fresh := { f with searched := 0 }
      if f.maxLength < length then ⟨.error (.tooLarge length f.maxLength), fresh, buffer⟩
      else
        let rest := buffer.drop (length + 1)
        match trim (buffer.take length) with
        | [] => takeUpTo c fresh fuel rest
        | line =>
          match Json.decodeBytes c.decode line with
          | .ok item => ⟨.ok (some item), fresh, rest⟩
          | .error e => ⟨.error (.undecodable e), fresh, rest⟩

def take {α : Type} (c : Codec α) (f : Framing) (buffer : List UInt8) : Taken α :=
  takeUpTo c f (buffer.length + 1) buffer

/-- Take the next frame off the buffer of a stream that has ended: what is left may not be the
start of a line. -/
def takeLast {α : Type} (c : Codec α) (f : Framing) (buffer : List UInt8) : Taken α :=
  let taken := take c f buffer
  match taken.outcome with
  | .ok none =>
    if taken.buffer.isEmpty then taken else { taken with outcome := .error .unfinished }
  | _ => taken

def payload {α : Type} (c : Codec α) (item : α) : List UInt8 :=
  Utf8.encodeChars (c.encode item).compact

def put {α : Type} (c : Codec α) (f : Framing) (item : α) (buffer : List UInt8) :
    Except FrameError (List UInt8) :=
  let bytes := payload c item
  if f.maxLength < bytes.length then .error (.tooLarge bytes.length f.maxLength)
  else .ok (buffer ++ bytes ++ [lineBreak])

end Framing

end ProxyConsole
