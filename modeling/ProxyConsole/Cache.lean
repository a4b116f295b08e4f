import ProxyConsole.Failure

/-!
# Short-lived values with shared fetches

A value is kept under a signature for as long as each reader finds it young enough.
Readers who find no such value while a fetch runs follow that fetch; otherwise the
reader leads a new one.  Fetches are numbered in the order of their start, and a slot
remembers the number of the fetch it waits for, so a fetch that was overtaken by an
invalidation neither stores its value nor disturbs a newer one.
-/

set_option autoImplicit false

namespace ProxyConsole

structure CacheEntry (α : Type) where
  value : α
  capturedAt : Nat
  deriving DecidableEq, Repr

structure CacheSlot (α : Type) where
  entry : Option (CacheEntry α) := none
  /-- The number of the fetch that will fill the slot. -/
  inFlight : Option Nat := none
  deriving DecidableEq, Repr

inductive Flight (α : Type) where
  | running
  | landed (result : Except CallError α)
  | abandoned

/-- The slots by signature, and the fetches by number. -/
structure Cache (α : Type) where
  slots : String → CacheSlot α := fun _ => {}
  flights : List (Flight α) := []

inductive CacheRole (α : Type) where
  | hit (value : α)
  | follow (flight : Nat)
  | lead (flight : Nat)

namespace Cache

variable {α : Type}

def setSlot (c : Cache α) (signature : String) (slot : CacheSlot α) : Cache α :=
  { c with slots := fun s => if s = signature then slot else c.slots s }

def isRunning (c : Cache α) (flight : Nat) : Bool :=
  match c.flights[flight]? with
  | some .running => true
  | _ => false

/-- The value that a reader of the given patience may use without a fetch. -/
def fresh? (c : Cache α) (now ttl : Nat) (signature : String) : Option α :=
  match (c.slots signature).entry with
  | some e => if now - e.capturedAt < ttl then some e.value else none
  | none => none

def joinable? (c : Cache α) (signature : String) : Option Nat :=
  (c.slots signature).inFlight.filter c.isRunning

/-- Look a signature up: use the stored value, follow the running fetch, or lead a new one. -/
def inspect (c : Cache α) (now ttl : Nat) (signature : String) : CacheRole α × Cache α :=
  match c.fresh? now ttl signature with
  | some value => (.hit value, c)
  | none =>
    match c.joinable? signature with
    | some flight => (.follow flight, c)
    | none =>
      let flight := c.flights.length
      let slot := { c.slots signature with inFlight := some flight }
      (.lead flight, { c.setSlot signature slot with flights := c.flights ++ [.running] })

def awaits (c : Cache α) (signature : String) (flight : Nat) : Bool :=
  (c.slots signature).inFlight = some flight

/-- A fetch ends with a result: its followers get it, and a success is stored if the slot still
waits for this fetch. -/
def land (c : Cache α) (now : Nat) (signature : String) (flight : Nat)
    (result : Except CallError α) : Cache α :=
  let c :=
    if c.awaits signature flight then
      let entry :=
        match result with
        | .ok value => some ⟨value, now⟩
        | .error _ => (c.slots signature).entry
      c.setSlot signature ⟨entry, none⟩
    else c
  { c with flights := c.flights.set flight (.landed result) }

/-- A fetch is given up by its leader: the slot no longer waits for it. -/
def abandon (c : Cache α) (signature : String) (flight : Nat) : Cache α :=
  let c :=
    if c.awaits signature flight then
      c.setSlot signature { c.slots signature with inFlight := none }
    else c
  { c with flights := c.flights.set flight .abandoned }

/-- The stored value, whatever its age. -/
def peek (c : Cache α) (signature : String) : Option α :=
  (c.slots signature).entry.map CacheEntry.value

def invalidate (c : Cache α) (signature : String) : Cache α :=
  c.setSlot signature {}

def invalidateStarting (c : Cache α) (start : String) : Cache α :=
  { c with slots := fun s => if start.toList.isPrefixOf s.toList then {} else c.slots s }

def clear (c : Cache α) : Cache α :=
  { c with slots := fun _ => {} }

end Cache

end ProxyConsole
