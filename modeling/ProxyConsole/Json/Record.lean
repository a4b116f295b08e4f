import ProxyConsole.Json.Decode

/-!
# Records

A record is written as an object with its fields in order.  It is read from an object, in which
unknown members are passed over and no field may stand twice, or from an array of its fields in
order, which may stop early.  A field that is absent keeps the value it has in the blank record
unless it is required.
-/

set_option autoImplicit false

namespace ProxyConsole

structure Field (σ : Type) where
  name : String
  required : Bool
  store : Json.Node → σ → Except DecodeError σ
  render : σ → Option Json

def Field.of {σ α : Type} (name : String) (c : Codec α) (get : σ → α) (set : σ → α → σ)
    (required : Bool) : Field σ where
  name := name
  required := required
  store node s := (c.decode node).map (set s)
  render s := some (c.encode (get s))

/-- A field that is left out when it has no value. -/
def Field.optional {σ α : Type} (name : String) (c : Codec α) (get : σ → Option α)
    (set : σ → Option α → σ) : Field σ where
  name := name
  required := false
  store node s := (c.option.decode node).map (set s)
  render s := (get s).map c.encode

/-- The fields of a record in order, and the record of which every field has its default. -/
structure Record (σ : Type) where
  blank : σ
  fields : List (Field σ)

namespace Record

variable {σ : Type}

def field? (r : Record σ) (name : String) : Option (Field σ) :=
  r.fields.find? (·.name = name)

/-- Read members one after another; `seen` holds the names of the fields read before. -/
def readMembers (r : Record σ) :
    List (Json.Literal × Json.Node) → List String → σ → Except DecodeError (List String × σ)
  | [], seen, s => .ok (seen, s)
  | (key, value) :: members, seen, s =>
    match Json.liftFault key.text with
    | .error e => .error e
    | .ok name =>
      match r.field? name with
      | none =>
        match Json.liftFault value.passOver with
        | .error e => .error e
        | .ok () => r.readMembers members seen s
      | some f =>
        if name ∈ seen then .error (.duplicateField name)
        else
          match f.store value s with
          | .error e => .error e
          | .ok s => r.readMembers members (name :: seen) s

def missing? (r : Record σ) (seen : List String) : Option String :=
  (r.fields.find? fun f => f.required && !(seen.contains f.name)).map Field.name

/-- Read fields in order from the items of an array, `index` of them having been read before. -/
def readItems :
    List (Field σ) → List Json.Node → Option Json.Fault → Nat → σ → Except DecodeError σ
  | [], [], ending, _, s => Json.atEnd ending s
  | [], _ :: _, _, _, _ => .error .malformed
  | f :: fields, item :: items, ending, index, s =>
    match f.store item s with
    | .error e => .error e
    | .ok s => readItems fields items ending (index + 1) s
  | f :: fields, [], ending, index, s =>
    match ending with
    | some fault => .error (.ofFault fault)
    | none => if f.required then .error (.invalidLength index)
      else readItems fields [] none (index + 1) s

def decode (r : Record σ) : Json.Node → Except DecodeError σ
  | .object members ending =>
    match r.readMembers members [] r.blank with
    | .error e => .error e
    | .ok (seen, s) =>
      match Json.atEnd ending s with
      | .error e => .error e
      | .ok s =>
        match r.missing? seen with
        | some name => .error (.missingField name)
        | none => .ok s
  | .array items ending => readItems r.fields items ending 0 r.blank
  | node => .error node.mismatch

def encode (r : Record σ) (s : σ) : Json :=
  .object (r.fields.filterMap fun f => (f.render s).map (f.name, ·))

def codec (r : Record σ) : Codec σ :=
  ⟨r.encode, r.decode⟩

end Record

end ProxyConsole
