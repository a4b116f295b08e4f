import ProxyConsole.Clock
import ProxyConsole.Cache

/-!
# Sessions with a cache

Callers arrive one by one, each with a signature, a patience, and a fetch of its own that takes a
while and ends in a known way.  A caller fetches only when it leads; a caller whose leader gave up
looks the signature up again.
-/

set_option autoImplicit false

namespace ProxyConsole.Cache

/-- A caller's wish: what it asks for, and what its own fetch would do. -/
structure Wish where
  id : Nat
  signature : String
  ttl : Nat
  fetchTime : Nat
  fetchResult : Except CallError String

inductive CallerPhase where
  | fetching (flight : Nat) (landing : Nat)
  | following (flight : Nat)
  | over
  deriving DecidableEq, Repr

structure Caller where
  wish : Wish
  phase : CallerPhase

structure Returned where
  id : Nat
  moment : Nat
  result : Except CallError String

structure Session where
  now : Nat := 0
  cache : Cache String := {}
  callers : List Caller := []
  /-- The callers whose fetch has started, in order. -/
  fetched : List Nat := []
  returned : List Returned := []

inductive SessionOp where
  | get (wish : Wish)
  | abort (id : Nat)
  | sleep (ms : Nat)
  | peek (signature : String)
  | invalidate (signature : String)
  | invalidateStarting (start : String)
  | clear

namespace Session

def setPhase (s : Session) (index : Nat) (caller : Caller) (phase : CallerPhase) : Session :=
  { s with callers := s.callers.set index { caller with phase } }

def finish (s : Session) (index : Nat) (caller : Caller) (result : Except CallError String) :
    Session :=
  { s.setPhase index caller .over with
    returned := s.returned ++ [⟨caller.wish.id, s.now, result⟩] }

def lookUp (s : Session) (index : Nat) (caller : Caller) : Session :=
  let w := caller.wish
  match s.cache.inspect s.now w.ttl w.signature with
  | (.hit value, cache) => { s with cache }.finish index caller (.ok value)
  | (.follow flight, cache) => { s with cache }.setPhase index caller (.following flight)
  | (.lead flight, cache) =>
    { s with cache, fetched := s.fetched ++ [w.id] }.setPhase index caller
      (.fetching flight (s.now + w.fetchTime))

def stepCaller (s : Session) (index : Nat) : Option Session :=
  match s.callers[index]? with
  | none => none
  | some caller =>
    match caller.phase with
    | .over => none
    | .fetching flight landing =>
      if landing ≤ s.now then
        let w := caller.wish
        let cache := s.cache.land s.now w.signature flight w.fetchResult
        some ({ s with cache }.finish index caller w.fetchResult)
      else none
    | .following flight =>
      match s.cache.flights[flight]? with
      | some .running => none
      | some (.landed result) => some (s.finish index caller result)
      | _ => some (s.lookUp index caller)

def step (s : Session) : Option Session :=
  (List.range s.callers.length).findSome? s.stepCaller

def run : Nat → Session → Session
  | 0, s => s
  | fuel + 1, s =>
    match s.step with
    | some s => run fuel s
    | none => s

/-- Let everything happen that can happen now.  A caller takes at most three steps: it looks up
again once, its fetch ends, it returns. -/
def settle (s : Session) : Session :=
  run (3 * s.callers.length + 1) s

def due (s : Session) : Option Nat :=
  Clock.earliest (s.callers.filterMap fun c =>
    match c.phase with
    | .fetching _ landing => some landing
    | _ => none)

def wakeup : Clock.Wakeup Session where
  due := due
  wake moment s := settle { s with now := moment }

/-- The caller at an index goes away; a fetch that it leads is given up. -/
def leave (s : Session) (index : Nat) : Session :=
  match s.callers[index]? with
  | none => s
  | some caller =>
    match caller.phase with
    | .fetching flight _ =>
      { s with cache := s.cache.abandon caller.wish.signature flight }.setPhase index caller .over
    | _ => s.setPhase index caller .over

def abort (s : Session) (id : Nat) : Session :=
  match s.callers.findIdx? fun c => c.wish.id = id && c.phase ≠ .over with
  | none => s
  | some index => s.leave index

def perform (s : Session) : SessionOp → Option String × Session
  | .get wish =>
    let caller : Caller := ⟨wish, .over⟩
    let s := { s with callers := s.callers ++ [caller] }
    (none, s.lookUp (s.callers.length - 1) caller)
  | .abort id => (none, s.abort id)
  | .sleep ms => (none, Clock.passTo wakeup (s.now + ms) (2 * s.callers.length + 1) s)
  | .peek signature => (s.cache.peek signature, s)
  | .invalidate signature => (none, { s with cache := s.cache.invalidate signature })
  | .invalidateStarting start => (none, { s with cache := s.cache.invalidateStarting start })
  | .clear => (none, { s with cache := s.cache.clear })

/-- Carry an operation out and let everything happen that can happen now.  Tells which fetches
started and which callers returned in the meantime, the latter by their ids. -/
def respond (s : Session) (op : SessionOp) :
    Option String × List Nat × List Returned × Session :=
  let (answer, s) := { s with fetched := [], returned := [] }.perform op
  let s := s.settle
  (answer, s.fetched, s.returned.mergeSort (fun a b => a.id ≤ b.id), s)

end Session

end ProxyConsole.Cache
