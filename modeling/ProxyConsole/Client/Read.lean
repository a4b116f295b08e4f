import ProxyConsole.Cache
import ProxyConsole.Call

/-!
# Reads through a cache

A reader looks its resource up and either has it at once, follows a fetch that is under
way, or leads one of its own, which is a call with its retries.
-/

set_option autoImplicit false

namespace ProxyConsole

inductive ReadPhase where
  | arriving
  | following (flight : Nat)
  | leading (flight : Nat) (call : CallPhase)

namespace ReadPhase

def attempt? : ReadPhase → Option Attempt
  | .leading _ call => call.attempt?
  | _ => none

def mapAttempt (f : Attempt → Attempt) : ReadPhase → ReadPhase
  | .leading flight call => .leading flight (call.mapAttempt f)
  | p => p

def due : ReadPhase → Option Nat
  | .leading _ call => call.due
  | _ => none

end ReadPhase

/-- What a read is to do: where its resource is kept, how old it may be, and how it is fetched. -/
structure ReadPlan (α : Type) where
  signature : String
  ttl : Nat
  fetch : CallPlan α

namespace ReadPlan

variable {α : Type}

def lookUp (p : ReadPlan α) (now : Nat) (cache : Cache α) (c : Correlator) :
    Progress ReadPhase (Except CallError α) × Cache α :=
  match cache.inspect now p.ttl p.signature with
  | (.hit value, cache) => (.finish (.ok value) c, cache)
  | (.follow flight, cache) => (.move (.following flight) [] c, cache)
  | (.lead flight, cache) =>
    let (call, sends, c) := p.fetch.start now c
    (.move (.leading flight call) sends c, cache)

def step (p : ReadPlan α) (phase : ReadPhase) (now : Nat) (cache : Cache α) (c : Correlator) :
    Progress ReadPhase (Except CallError α) × Cache α :=
  match phase with
  | .arriving => p.lookUp now cache c
  | .following flight =>
    match cache.flights[flight]? with
    | some .running => (.stay, cache)
    | some (.landed result) => (.finish result c, cache)
    | _ => p.lookUp now cache c
  | .leading flight call =>
    match p.fetch.step call now c with
    | .stay => (.stay, cache)
    | .move call sends c => (.move (.leading flight call) sends c, cache)
    | .finish result c => (.finish result c, cache.land now p.signature flight result)

/-- The cache after a reader in the given phase goes away. -/
def abandon (p : ReadPlan α) (phase : ReadPhase) (cache : Cache α) : Cache α :=
  match phase with
  | .leading flight _ => cache.abandon p.signature flight
  | _ => cache

end ReadPlan

end ProxyConsole
