import ProxyConsole.Json.Node
import ProxyConsole.Json.Printer

/-!
# Decoding documents

A codec says how values of a type are written as JSON and how they are read from a document.  Every
decoder walks its document from left to right and reports the first thing that is wrong, be it the
text or the type of a value.
-/

set_option autoImplicit false

namespace ProxyConsole

inductive DecodeError where
  | eof
  | malformed
  | invalidType
  | invalidValue
  | invalidLength (n : Nat)
  | unknownVariant (name : String)
  | missingField (name : String)
  | duplicateField (name : String)
  | refused (reason : String)
  deriving DecidableEq, Repr

namespace DecodeError

def ofFault : Json.Fault → DecodeError
  | .eof => .eof
  | .malformed => .malformed

def detail : DecodeError → String
  | .eof => "eof"
  | .malformed => "syntax"
  | .invalidType => "invalid type"
  | .invalidValue => "invalid value"
  | .invalidLength n => "invalid length " ++ Decimal.natText n
  | .unknownVariant name => "unknown variant `" ++ name ++ "`"
  | .missingField name => "missing field `" ++ name ++ "`"
  | .duplicateField name => "duplicate field `" ++ name ++ "`"
  | .refused reason => reason

def message : DecodeError → String
  | .eof => "json eof"
  | .malformed => "json syntax"
  | e => "json data: " ++ e.detail

def quoted (e : DecodeError) : String :=
  "<" ++ e.message ++ ">"

end DecodeError

namespace Json

def liftFault {α : Type} : Except Fault α → Except DecodeError α
  | .ok a => .ok a
  | .error f => .error (.ofFault f)

/-- A result, or the fault that took the place of a closing bracket. -/
def atEnd {α : Type} (ending : Option Fault) (a : α) : Except DecodeError α :=
  match ending with
  | none => .ok a
  | some f => .error (.ofFault f)

/-- The error of a value whose type is not the expected one.  A scalar is read first, so a fault
inside it comes first. -/
def Node.mismatch : Node → DecodeError
  | .broken f => .ofFault f
  | .number n =>
    match n.value with
    | .ok _ => .invalidType
    | .error f => .ofFault f
  | .string s =>
    match s.text with
    | .ok _ => .invalidType
    | .error f => .ofFault f
  | _ => .invalidType

def decodeBool : Node → Except DecodeError Bool
  | .bool b => .ok b
  | node => .error node.mismatch

def decodeString : Node → Except DecodeError String
  | .string s => liftFault s.text
  | node => .error node.mismatch

def decodeNat (limit : Nat) : Node → Except DecodeError Nat
  | .number n =>
    match n.value with
    | .error f => .error (.ofFault f)
    | .ok (.integer i) =>
      if 0 ≤ i ∧ i < limit then .ok i.toNat else .error .invalidValue
    | .ok (.float _) => .error .invalidType
  | node => .error node.mismatch

def decodeOption {α : Type} (decode : Node → Except DecodeError α) :
    Node → Except DecodeError (Option α)
  | .null => .ok none
  | node => (decode node).map some

def decodeItems {α : Type} (decode : Node → Except DecodeError α) :
    List Node → Except DecodeError (List α)
  | [] => .ok []
  | item :: items =>
    match decode item with
    | .error e => .error e
    | .ok a => (decodeItems decode items).map (a :: ·)

def decodeList {α : Type} (decode : Node → Except DecodeError α) :
    Node → Except DecodeError (List α)
  | .array items ending =>
    match decodeItems decode items with
    | .error e => .error e
    | .ok as => atEnd ending as
  | node => .error node.mismatch

/-- Decode members one after another into a sorted list; the last of two equal keys counts. -/
def decodeMembers {α : Type} (decode : Node → Except DecodeError α) :
    List (Literal × Node) → List (String × α) → Except DecodeError (List (String × α))
  | [], entries => .ok entries
  | (key, value) :: members, entries =>
    match liftFault key.text with
    | .error e => .error e
    | .ok name =>
      match decode value with
      | .error e => .error e
      | .ok a => decodeMembers decode members (insertSorted name a entries)

def decodeMap {α : Type} (decode : Node → Except DecodeError α) :
    Node → Except DecodeError (List (String × α))
  | .object members ending =>
    match decodeMembers decode members [] with
    | .error e => .error e
    | .ok entries => atEnd ending entries
  | node => .error node.mismatch

/-- Decode one of a list of names.  A name may also stand as the only key of an object whose value
is `null`. -/
def decodeVariant {α : Type} (variants : List (String × α)) : Node → Except DecodeError α
  | .string s =>
    match liftFault s.text with
    | .error e => .error e
    | .ok name =>
      match variants.lookup name with
      | some a => .ok a
      | none => .error (.unknownVariant name)
  | .object ((key, value) :: members) ending =>
    match liftFault key.text with
    | .error e => .error e
    | .ok name =>
      match variants.lookup name with
      | none => .error (.unknownVariant name)
      | some a =>
        match value with
        | .null => if members.isEmpty then atEnd ending a else .error .malformed
        | node => .error node.mismatch
  | .object [] (some f) => .error (.ofFault f)
  | .broken f => .error (.ofFault f)
  | _ => .error .malformed

def depthLimit : Nat := 127

mutual

/-- Decode a value of arbitrary shape, `room` more levels of nesting being allowed. -/
def decodeAny (room : Nat) : Node → Except DecodeError Json
  | .broken f => .error (.ofFault f)
  | .null => .ok .null
  | .bool b => .ok (.bool b)
  | .number n =>
    match n.value with
    | .ok value => .ok (.number value)
    | .error f => .error (.ofFault f)
  | .string s =>
    match s.text with
    | .ok text => .ok (.string text)
    | .error f => .error (.ofFault f)
  | .array items ending =>
    if room = 0 then .error .malformed
    else
      match decodeAnyItems (room - 1) items with
      | .error e => .error e
      | .ok values => atEnd ending (.array values)
  | .object members ending =>
    if room = 0 then .error .malformed
    else
      match decodeAnyMembers (room - 1) members [] with
      | .error e => .error e
      | .ok entries => atEnd ending (.object entries)

def decodeAnyItems (room : Nat) : List Node → Except DecodeError (List Json)
  | [] => .ok []
  | item :: items =>
    match decodeAny room item with
    | .error e => .error e
    | .ok value => (decodeAnyItems room items).map (value :: ·)

def decodeAnyMembers (room : Nat) :
    List (Literal × Node) → List (String × Json) → Except DecodeError (List (String × Json))
  | [], entries => .ok entries
  | (key, value) :: members, entries =>
    match liftFault key.text with
    | .error e => .error e
    | .ok name =>
      match decodeAny room value with
      | .error e => .error e
      | .ok a => decodeAnyMembers room members (insertSorted name a entries)

end

/-- Decode a whole text: the value first, then nothing may follow it. -/
def decodeBytes {α : Type} (decode : Node → Except DecodeError α) (bytes : List UInt8) :
    Except DecodeError α :=
  let document := Document.scan bytes
  match decode document.root with
  | .error e => .error e
  | .ok a => atEnd document.trailing a

def decodeText {α : Type} (decode : Node → Except DecodeError α) (s : String) :
    Except DecodeError α :=
  decodeBytes decode (Utf8.encode s)

end Json

structure Codec (α : Type) where
  encode : α → Json
  decode : Json.Node → Except DecodeError α

namespace Codec

def bool : Codec Bool := ⟨.bool, Json.decodeBool⟩

def string : Codec String := ⟨.string, Json.decodeString⟩

def uint16 : Codec UInt16 :=
  ⟨fun n => .nat n.toNat, fun node => (Json.decodeNat UInt16.size node).map UInt16.ofNat⟩

def uint32 : Codec UInt32 :=
  ⟨fun n => .nat n.toNat, fun node => (Json.decodeNat UInt32.size node).map UInt32.ofNat⟩

def uint64 : Codec UInt64 :=
  ⟨fun n => .nat n.toNat, fun node => (Json.decodeNat UInt64.size node).map UInt64.ofNat⟩

def option {α : Type} (c : Codec α) : Codec (Option α) :=
  ⟨fun a => Json.orNull (a.map c.encode), Json.decodeOption c.decode⟩

def list {α : Type} (c : Codec α) : Codec (List α) :=
  ⟨fun as => .array (as.map c.encode), Json.decodeList c.decode⟩

def map {α : Type} (c : Codec α) : Codec (List (String × α)) :=
  ⟨fun es => .object (es.map fun e => (e.1, c.encode e.2)), Json.decodeMap c.decode⟩

def any : Codec Json := ⟨id, Json.decodeAny Json.depthLimit⟩

def text {α : Type} (c : Codec α) (a : α) : String :=
  (c.encode a).compactText

def ofText {α : Type} (c : Codec α) (s : String) : Except DecodeError α :=
  Json.decodeText c.decode s

end Codec

end ProxyConsole
