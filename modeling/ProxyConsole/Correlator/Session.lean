import ProxyConsole.Clock
import ProxyConsole.Correlator.Listener

/-!
# Sessions with a correlator

A session is a correlator together with the handles of the calls registered in it.  A handle is held
until it is dropped or waited for, with or without a time limit; a wait ends with the response, by
cancellation, or when its time is over, and its handle is then gone.
-/

set_option autoImplicit false

namespace ProxyConsole.Correlator

inductive HandlePhase where
  | held
  | waiting (deadline : Option Nat) (limit : Duration)
  | gone
  deriving DecidableEq, Repr

structure Handle where
  ticket : Ticket
  phase : HandlePhase
  deriving DecidableEq, Repr

structure Finished where
  handle : Nat
  moment : Nat
  result : Except WaitError InboundEnvelope

structure Session where
  now : Nat := 0
  correlator : Correlator := {}
  handles : List Handle := []
  listener : Option Listener := none
  finished : List Finished := []

inductive SessionOp where
  | allocate (n : Nat)
  | dispatch (e : InboundEnvelope)
  | cancel (id : RequestId)
  | cancelAll
  | contains (id : RequestId)
  | drop (handle : Nat)
  | wait (handle : Nat)
  | waitTimeout (handle : Nat) (ms : Nat)
  | abort (handle : Nat)
  | sleep (ms : Nat)
  | listen
  | inbound (e : InboundEnvelope)
  | closeInbound
  | stopListener

inductive SessionAnswer where
  | nothing
  | ids (ids : List RequestId)
  | flag (b : Bool)
  | count (n : Nat)
  | noHandle
  deriving DecidableEq, Repr

namespace Session

/-- The result of a wait, if it is over by now. -/
def waitResult? (c : Correlator) (now : Nat) (t : Ticket) (deadline : Option Nat)
    (limit : Duration) : Option (Except WaitError InboundEnvelope) :=
  match c.status t with
  | .delivered e => some (.ok e)
  | .cancelled => some (.error .cancelled)
  | .waiting =>
    match deadline with
    | some d => if d ≤ now then some (.error (.timedOut limit)) else none
    | none => none

def settleHandle (s : Session) (index : Nat) : Session :=
  match s.handles[index]? with
  | some ⟨t, .waiting deadline limit⟩ =>
    match waitResult? s.correlator s.now t deadline limit with
    | some result =>
      { s with
        correlator := s.correlator.conclude t
        handles := s.handles.set index ⟨t, .gone⟩
        finished := s.finished ++ [⟨index, s.now, result⟩] }
    | none => s
  | _ => s

def listenerRuns (s : Session) : Session :=
  match s.listener with
  | none => s
  | some l =>
    let (l, c) := l.drain s.correlator
    { s with listener := some l, correlator := c }

def settle (s : Session) : Session :=
  let s := s.listenerRuns
  (List.range s.handles.length).foldl settleHandle s

def due (s : Session) : Option Nat :=
  Clock.earliest (s.handles.filterMap fun h =>
    match h.phase with
    | .waiting deadline _ => deadline
    | _ => none)

def wakeup : Clock.Wakeup Session where
  due := due
  wake moment s := settle { s with now := moment }

def allocate (s : Session) : Nat → List RequestId → Session × List RequestId
  | 0, ids => (s, ids)
  | n + 1, ids =>
    match s.correlator.allocate with
    | none => (s, ids)
    | some (t, c) =>
      allocate { s with correlator := c, handles := s.handles ++ [⟨t, .held⟩] } n
        (ids ++ [t.id])

def useHandle (s : Session) (index : Nat) (use : Ticket → Session) : SessionAnswer × Session :=
  match s.handles[index]? with
  | some ⟨t, .held⟩ => (.nothing, use t)
  | _ => (.noHandle, s)

def setPhase (s : Session) (index : Nat) (t : Ticket) (phase : HandlePhase) : Session :=
  { s with handles := s.handles.set index ⟨t, phase⟩ }

def giveUp (s : Session) (index : Nat) (t : Ticket) : Session :=
  { s.setPhase index t .gone with correlator := s.correlator.release t }

def perform (s : Session) : SessionOp → SessionAnswer × Session
  | .allocate n =>
    let (s, ids) := s.allocate n []
    (.ids ids, s)
  | .dispatch e =>
    let (b, c) := s.correlator.dispatch e
    (.flag b, { s with correlator := c })
  | .cancel id =>
    let (b, c) := s.correlator.cancel id
    (.flag b, { s with correlator := c })
  | .cancelAll =>
    let (n, c) := s.correlator.cancelAll
    (.count n, { s with correlator := c })
  | .contains id => (.flag (s.correlator.contains id), s)
  | .drop index => s.useHandle index (s.giveUp index)
  | .wait index => s.useHandle index fun t => s.setPhase index t (.waiting none ⟨0⟩)
  | .waitTimeout index ms =>
    s.useHandle index fun t =>
      s.setPhase index t (.waiting (some (s.now + ms)) (Duration.ofMillis ms))
  | .abort index =>
    match s.handles[index]? with
    | some ⟨t, .waiting _ _⟩ => (.nothing, s.giveUp index t)
    | _ => (.nothing, s)
  | .sleep ms =>
    (.nothing, Clock.passTo wakeup (s.now + ms) (s.handles.length + 1) s)
  | .listen =>
    let s := { s with listener := s.listener.map Listener.close }.listenerRuns
    (.nothing, { s with listener := some {} })
  | .inbound e =>
    match s.listener with
    | none => (.flag false, s)
    | some l =>
      let (b, l) := l.arrive e
      (.flag b, { s with listener := some l })
  | .closeInbound => (.nothing, { s with listener := s.listener.map Listener.close })
  | .stopListener => (.nothing, { s with listener := s.listener.map Listener.stop })

/-- Carry an operation out and let everything happen that can happen now.  The waits that ended in
the meantime are listed from the first handle on. -/
def step (s : Session) (op : SessionOp) : SessionAnswer × List Finished × Session :=
  let (answer, s) := { s with finished := [] }.perform op
  let s := s.settle
  (answer, s.finished.mergeSort (fun a b => a.handle ≤ b.handle), s)

end Session

end ProxyConsole.Correlator
