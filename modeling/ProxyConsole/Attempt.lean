import ProxyConsole.Correlator
import ProxyConsole.Failure
import ProxyConsole.Request

/-!
# One attempt

An attempt registers a call, sends its request and waits for the response, all under one
deadline.  While it lasts its ticket is held; when it is over the wait is concluded, or
the ticket given up if the wait never began, so that its id is no longer pending
whatever the outcome.
-/

set_option autoImplicit false

namespace ProxyConsole

structure Sending where
  ticket : Ticket
  envelope : OutboundEnvelope
  deriving DecidableEq, Repr

/-- An attempt under way.  The transmission is absent until the transport has accepted or
refused the envelope. -/
structure Attempt where
  ticket : Ticket
  deadline : Nat
  transmission : Option (Except TransportError Unit) := none

def InboundEnvelope.classify (e : InboundEnvelope) : Except CallError String :=
  if !e.success then
    let message := e.errorMessage.getD "request rejected by backend"
    match e.failure with
    | some .notReady => .error (.backendNotReady message)
    | some .transport => .error (.transport ⟨.severed, message⟩)
    | none => .error (.backendRejected e.status message)
  else if !e.hasSuccessStatus then
    .error (.backendRejected e.status
      (e.errorMessage.getD ("HTTP " ++ Decimal.natText e.status.toNat)))
  else .ok e.body

namespace Attempt

def cancelledError : CallError :=
  .transport ⟨.closed, "pending request cancelled before a response arrived"⟩

def timeoutError (path : String) (timeout : Nat) : CallError :=
  .timedOut path (Duration.ofMillis timeout)

def begin? (request : Request) (timeout now : Nat) (c : Correlator) :
    Option (Attempt × Sending × Correlator) :=
  match c.allocate with
  | none => none
  | some (t, c) => some (⟨t, now + timeout, none⟩, ⟨t, request.envelope t.id⟩, c)

/-- The outcome of an attempt, once it is over.  What has already come counts even when the time is
over. -/
def outcome? (a : Attempt) (path : String) (timeout now : Nat) (c : Correlator) :
    Option (Except CallError String) :=
  let expired := if a.deadline ≤ now then some (.error (timeoutError path timeout)) else none
  match a.transmission with
  | none => expired
  | some (.error e) => some (.error (.ofTransport e))
  | some (.ok ()) =>
    match c.status a.ticket with
    | .delivered e => some e.classify
    | .cancelled => some (.error cancelledError)
    | .waiting => expired

/-- An attempt is over: its wait is concluded, or its ticket is given up before the wait began. -/
def close (a : Attempt) (c : Correlator) : Correlator :=
  match a.transmission with
  | some (.ok ()) => c.conclude a.ticket
  | _ => c.release a.ticket

def transmitted (t : Ticket) (result : Except TransportError Unit) (a : Attempt) : Attempt :=
  if a.ticket = t ∧ a.transmission.isNone then { a with transmission := some result } else a

end Attempt

end ProxyConsole
