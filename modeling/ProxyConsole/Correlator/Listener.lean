import ProxyConsole.Correlator

/-!
# The inbound listener

One listener takes the envelopes of the inbound channel in their order and hands each to
the correlator.  When the channel is closed and empty, or when the listener is told to
stop, it cancels every pending call and ends; from then on nothing is delivered.  A stop
may be noticed before what is queued or after some of it.
-/

set_option autoImplicit false

namespace ProxyConsole

/-- The inbound channel as the listener sees it. -/
structure Listener where
  queue : List InboundEnvelope := []
  /-- Whether more envelopes may arrive. -/
  isOpen : Bool := true
  isStopped : Bool := false
  /-- Whether the listener still takes envelopes. -/
  isRunning : Bool := true
  deriving DecidableEq, Repr

namespace Listener

/-- An envelope arrives; it is lost once the channel is closed or nobody listens. -/
def arrive (l : Listener) (e : InboundEnvelope) : Bool × Listener :=
  if l.isOpen && l.isRunning then (true, { l with queue := l.queue ++ [e] }) else (false, l)

def close (l : Listener) : Listener := { l with isOpen := false }

def stop (l : Listener) : Listener := { l with isStopped := true }

/-- The listener ends, and every pending call is cancelled. -/
def finish (l : Listener) (c : Correlator) : Listener × Correlator :=
  ({ l with queue := [], isRunning := false }, c.cancelAll.2)

/-- The next step of the listener.  Where it was told to stop and envelopes are queued,
`stopFirst` says which of the two is taken. -/
def step (l : Listener) (stopFirst : Bool) (c : Correlator) : Option (Listener × Correlator) :=
  if !l.isRunning then none
  else if l.isStopped && stopFirst then some (l.finish c)
  else
    match l.queue with
    | e :: rest => some ({ l with queue := rest }, (c.dispatch e).2)
    | [] => if l.isStopped || !l.isOpen then some (l.finish c) else none

def run : Nat → Listener → Correlator → Listener × Correlator
  | 0, l, c => (l, c)
  | fuel + 1, l, c =>
    match l.step true c with
    | some (l, c) => run fuel l c
    | none => (l, c)

def drain (l : Listener) (c : Correlator) : Listener × Correlator :=
  run (l.queue.length + 1) l c

end Listener

end ProxyConsole
