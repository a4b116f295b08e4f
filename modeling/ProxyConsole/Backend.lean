import ProxyConsole.Client.Basic
import ProxyConsole.Address
import ProxyConsole.Clock

/-!
# Scripted backends

A backend that follows a script: for each verb and path a list of steps, one per
request, the last of which repeats.  A step says how long the transport takes, whether
it refuses, which responses follow and when the channel is cut.
-/

set_option autoImplicit false

namespace ProxyConsole

structure ScriptedReply where
  delay : Nat := 0
  success : Bool := true
  status : UInt16 := 200
  error : Option String := none
  failure : Option RelayedFailure := none
  body : String := ""
  /-- What is added to the request's id. -/
  idShift : UInt64 := 0

def ScriptedReply.envelope (r : ScriptedReply) (id : RequestId) : InboundEnvelope :=
  { requestId := ⟨id.val + r.idShift⟩, success := r.success, status := r.status,
    errorMessage := r.error, failure := r.failure, body := r.body }

structure BackendStep where
  sendDelay : Nat := 0
  fail : Option TransportError := none
  replies : List ScriptedReply := []
  cutAfter : Option Nat := none

inductive Delivery where
  /-- The transport is done with a request, if its attempt still lasts. -/
  | accepted (sending : Sending) (step : BackendStep)
  | response (e : InboundEnvelope)
  | cut

structure Appointment where
  moment : Nat
  delivery : Delivery

structure Backend where
  /-- The steps left, by verb and path or `*`. -/
  routes : List (String × List BackendStep) := []
  due : List Appointment := []

namespace Backend

def unrouted : BackendStep :=
  { replies := [{ success := false, status := 404, error := some "not found" }] }

/-- The next step of a list and the list after it: the last step repeats. -/
def nextStep : List BackendStep → BackendStep × List BackendStep
  | [] => ({}, [])
  | [s] => (s, [s])
  | s :: rest => (s, rest)

def takeStep (b : Backend) (e : OutboundEnvelope) : BackendStep × Backend :=
  let exact := e.verb.name ++ " " ++ e.path
  let key := if (b.routes.lookup exact).isSome then exact else "*"
  match b.routes.lookup key with
  | none => (unrouted, b)
  | some steps =>
    let (step, rest) := nextStep steps
    (step, { b with routes := b.routes.map fun r => if r.1 = key then (key, rest) else r })

def appoint (b : Backend) (moment : Nat) (delivery : Delivery) : Backend :=
  { b with due := b.due ++ [⟨moment, delivery⟩] }

def takeDue (b : Backend) (now : Nat) : Option (Delivery × Backend) :=
  match Clock.earliest (b.due.map Appointment.moment) with
  | none => none
  | some moment =>
    if now < moment then none
    else
      match b.due.findIdx? fun a => a.moment = moment with
      | none => none
      | some index =>
        (b.due[index]?).map fun a => (a.delivery, { b with due := b.due.eraseIdx index })

end Backend

/-- How envelopes leave the client. -/
inductive Link where
  /-- To the scripted backend, in frames up to a limit, if there is one. -/
  | scripted (maxFrame : Option Nat)
  /-- To an address where nobody is. -/
  | dead (e : TransportError)

/-- How envelopes come back to the client. -/
inductive Inlet where
  /-- Straight to the correlator; a cut cancels every pending call. -/
  | direct
  /-- Through the inbound channel; a cut closes it. -/
  | channel
  deriving DecidableEq, Repr

end ProxyConsole
