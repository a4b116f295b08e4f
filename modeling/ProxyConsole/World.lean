import ProxyConsole.Backend

/-!
# A client and its backend under one clock

Here the events of a client are chosen: everything that can happen at a moment happens, in a fixed
order, before time goes on to the next moment at which something is due.  A request is handed to the
transport as soon as it starts to be sent.
-/

set_option autoImplicit false

namespace ProxyConsole

structure LoggedSend where
  moment : Nat
  envelope : OutboundEnvelope

/-- A client, its backend and what lies between them. -/
structure World where
  client : Client := {}
  backend : Backend := {}
  link : Link := .scripted none
  inlet : Inlet := .channel
  /-- How many of the client's sends were handed to the transport. -/
  handled : Nat := 0
  log : List LoggedSend := []

namespace World

def now (w : World) : Nat := w.client.now

def event (w : World) (e : ClientEvent) : World :=
  { w with client := w.client.step e }

def respond (w : World) (e : InboundEnvelope) : World :=
  match w.inlet with
  | .direct => w.event (.dispatch e)
  | .channel => w.event (.arrive e)

def cut (w : World) : World :=
  match w.inlet with
  | .direct => w.event .cancelPending
  | .channel => w.event .closeInbound

def reply (id : RequestId) (w : World) (r : ScriptedReply) : World :=
  if r.delay = 0 then w.respond (r.envelope id)
  else { w with backend := w.backend.appoint (w.now + r.delay) (.response (r.envelope id)) }

def planCut (w : World) : Option Nat → World
  | none => w
  | some delay =>
    if delay = 0 then w.cut
    else { w with backend := w.backend.appoint (w.now + delay) .cut }

def accept (w : World) (sending : Sending) (step : BackendStep) : World :=
  match step.fail with
  | some e => w.event (.transmitted sending.ticket (.error e))
  | none =>
    let id := sending.envelope.requestId
    let w := (step.replies.foldl (reply id) w).planCut step.cutAfter
    w.event (.transmitted sending.ticket (.ok ()))

def transmit (w : World) (sending : Sending) : World :=
  let (step, backend) := w.backend.takeStep sending.envelope
  let sent : LoggedSend := ⟨w.now, sending.envelope⟩
  let w := { w with backend, log := w.log ++ [sent] }
  if step.sendDelay = 0 then w.accept sending step
  else { w with backend := w.backend.appoint (w.now + step.sendDelay) (.accepted sending step) }

def handOver (w : World) (sending : Sending) : World :=
  match w.link with
  | .dead e => w.event (.transmitted sending.ticket (.error e))
  | .scripted none => w.transmit sending
  | .scripted (some limit) =>
    let size := (Framing.payload OutboundEnvelope.codec sending.envelope).length
    if limit < size then
      w.event (.transmitted sending.ticket (.error (.ofFrame (.tooLarge size limit))))
    else w.transmit sending

def deliver (w : World) : Delivery → World
  | .accepted sending step => if w.client.isSending sending.ticket then w.accept sending step else w
  | .response e => w.respond e
  | .cut => w.cut

/-- One thing that can happen now, if there is any: a request is handed over, something due is
delivered, a job goes on, the listener goes on. -/
def step (w : World) : Option World :=
  match w.client.sends[w.handled]? with
  | some sending => some ({ w with handled := w.handled + 1 }.handOver sending)
  | none =>
    match w.backend.takeDue w.now with
    | some (delivery, backend) => some ({ w with backend }.deliver delivery)
    | none =>
      match (List.range w.client.jobs.length).findSome? w.client.stepJob with
      | some client => some { w with client }
      | none => w.client.stepListener.map fun client => { w with client }

def runSteps : Nat → World → World
  | 0, w => w
  | fuel + 1, w =>
    match w.step with
    | some w => runSteps fuel w
    | none => w

/-- More steps than any run takes. -/
def fuel : Nat := 1000000000000

def settle (w : World) : World :=
  runSteps fuel w

def due (w : World) : Option Nat :=
  Clock.earliest
    ((w.client.due ++ w.backend.due.map Appointment.moment).filter (w.now < ·))

def wakeup : Clock.Wakeup World where
  due := due
  wake moment w := (w.event (.pass moment)).settle

def sleep (w : World) (ms : Nat) : World :=
  Clock.passTo wakeup (w.now + ms) fuel w.settle

def areOver (indices : List Nat) (w : World) : Bool :=
  indices.all fun i =>
    match w.client.jobs[i]? with
    | some job => job.result?.isSome
    | none => true

def resultAt? (w : World) (index : Nat) : Option (Except CallError Reply) :=
  (w.client.jobs[index]?).bind Job.result?

/-- Run operations side by side until all are over.  One that never ends has no result. -/
def performAll (w : World) (ops : List Operation) :
    List (Option (Except CallError Reply)) × World :=
  let first := w.client.jobs.length
  let indices := (List.range ops.length).map (first + ·)
  let w := (ops.foldl (fun w op => w.event (.start op)) w).settle
  let w := Clock.passUntil wakeup (areOver indices) fuel w
  (indices.map w.resultAt?, w)

def perform (w : World) (op : Operation) : Option (Except CallError Reply) × World :=
  let (results, w) := w.performAll [op]
  (results.head?.join, w)

def clearLog (w : World) : World := { w with log := [] }

def shutDown (w : World) : World :=
  (w.event .stopListener).settle

end World

end ProxyConsole
