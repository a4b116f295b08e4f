import ProxyConsole.Client.Batch
import ProxyConsole.Client.Read
import ProxyConsole.Correlator.Listener
import ProxyConsole.Readiness

/-!
# The client

A client runs any number of operations at once over one correlator, one cache for the
running configuration and one for the proxies.  It is a state that changes by events: an
operation starts or goes on, the transport settles a send, an envelope arrives, time
passes.  Which event comes next is not the client's choice, and neither is what is taken
where a stop and something else are there at once, so what holds of every sequence of
events holds of every schedule and of every backend.
-/

set_option autoImplicit false

namespace ProxyConsole

inductive Job where
  | call (plan : CallPlan Reply) (after : Aftermath) (phase : CallPhase)
  /-- A call that has not begun. -/
  | newCall (plan : CallPlan Reply) (after : Aftermath)
  | readConfig (modeOnly : Bool) (phase : ReadPhase)
  | readProxies (phase : ReadPhase)
  | waiting (wait : Wait) (phase : WaitPhase)
  | testing (batch : Batch)
  | reserving
  | awaiting (t : Ticket) (limit deadline : Nat)
  | over (result : Except CallError Reply)
  | gone

structure Client where
  settings : Settings := {}
  now : Nat := 0
  correlator : Correlator := {}
  listener : Listener := {}
  configs : Cache RuntimeConfig := {}
  proxies : Cache ProxiesSnapshot := {}
  /-- The mode of the last configuration read, or installed since. -/
  lastMode : Option Mode := none
  jobs : List Job := []
  /-- Every send started so far, in order. -/
  sends : List Sending := []
  /-- Where a stop and something to go on with are there at once, whether the stop is taken. -/
  stopFirst : Bool := true

inductive ClientEvent where
  | start (op : Operation)
  /-- A job takes its next step, if it has one. -/
  | advance (job : Nat)
  /-- The transport accepts or refuses the envelope of a ticket. -/
  | transmitted (t : Ticket) (result : Except TransportError Unit)
  | arrive (e : InboundEnvelope)
  | closeInbound
  | stopListener
  | listen
  /-- An envelope reaches the correlator past the listener. -/
  | dispatch (e : InboundEnvelope)
  | cancelPending
  | abandon (job : Nat)
  | pass (moment : Nat)
  /-- From now on a stop that competes with something else is taken, or the other thing is. -/
  | favour (stopFirst : Bool)

namespace Job

def attempts : Job → List Attempt
  | .call _ _ phase => phase.attempt?.toList
  | .readConfig _ phase => phase.attempt?.toList
  | .readProxies phase => phase.attempt?.toList
  | .waiting _ phase => phase.attempt?.toList
  | .testing batch => batch.attempts
  | _ => []

def mapAttempt (f : Attempt → Attempt) : Job → Job
  | .call plan after phase => .call plan after (phase.mapAttempt f)
  | .readConfig modeOnly phase => .readConfig modeOnly (phase.mapAttempt f)
  | .readProxies phase => .readProxies (phase.mapAttempt f)
  | .waiting wait phase => .waiting wait (phase.mapAttempt f)
  | .testing batch => .testing (batch.mapAttempt f)
  | j => j

def due : Job → List Nat
  | .call _ _ phase => phase.due.toList
  | .readConfig _ phase => phase.due.toList
  | .readProxies phase => phase.due.toList
  | .waiting wait phase => phase.due wait
  | .testing batch => batch.due
  | .awaiting _ _ deadline => [deadline]
  | _ => []

def result? : Job → Option (Except CallError Reply)
  | .over result => some result
  | _ => none

end Job

namespace Client

def configPlan (cl : Client) : ReadPlan RuntimeConfig where
  signature := Operation.configsPath
  ttl := cl.settings.cache.config.toNat
  fetch := Operation.planRead cl.settings .quick (.get Operation.configsPath) RuntimeConfig.codec

def proxiesPlan (cl : Client) : ReadPlan ProxiesSnapshot where
  signature := Operation.proxiesPath
  ttl := cl.settings.cache.proxies.toNat
  fetch := Operation.planRead cl.settings .normal (.get Operation.proxiesPath)
    ProxiesSnapshot.codec

def newJob (cl : Client) : Script → Job
  | .call plan after => .newCall plan after
  | .readConfig modeOnly => .readConfig modeOnly .arriving
  | .readProxies => .readProxies .arriving
  | .waitReady callOffAfter =>
    let p := cl.settings.readiness
    .waiting ⟨p.interval.toNat, p.probeTimeout.toNat, p.maxWait.toNat, cl.now,
      callOffAfter.map (cl.now + ·)⟩ .starting
  | .testDelays nodes url timeout width => .testing (.new nodes url timeout width)
  | .reserve => .reserving
  | .await t ms => .awaiting t ms (cl.now + ms)

/-- Start an operation: one whose input is refused is over at once. -/
def start (cl : Client) (op : Operation) : Client :=
  let job :=
    match op.script cl.settings with
    | .ok script => cl.newJob script
    | .error e => .over (.error e)
  { cl with jobs := cl.jobs ++ [job] }

def setJob (cl : Client) (index : Nat) (job : Job) : Client :=
  { cl with jobs := cl.jobs.set index job }

def moveJob (cl : Client) (index : Nat) (job : Job) (sends : List Sending) (c : Correlator) :
    Client :=
  { cl.setJob index job with sends := cl.sends ++ sends, correlator := c }

def finishJob (cl : Client) (index : Nat) (result : Except CallError Reply) (c : Correlator) :
    Client :=
  cl.moveJob index (.over result) [] c

/-- What an ended operation leaves behind. -/
def settleAftermath (cl : Client) (after : Aftermath) (result : Except CallError Reply) : Client :=
  let configs :=
    if after.dropsConfig then cl.configs.invalidate Operation.configsPath else cl.configs
  let proxies :=
    if after.dropsProxies then cl.proxies.invalidate Operation.proxiesPath else cl.proxies
  let lastMode :=
    match result, after.installs with
    | .ok _, some m => some m
    | _, _ => cl.lastMode
  { cl with configs, proxies, lastMode }

/-- What a read of the running configuration answers.  A read for the mode alone falls back on the
last mode known. -/
def configReply (modeOnly : Bool) (lastMode : Option Mode) :
    Except CallError RuntimeConfig → Except CallError Reply
  | .ok config => .ok (if modeOnly then .mode config.mode else .config config)
  | .error e =>
    match modeOnly, lastMode with
    | true, some m => .ok (.mode m)
    | _, _ => .error e

/-- A read of the running configuration is over: its mode is remembered. -/
def finishConfigRead (cl : Client) (index : Nat) (modeOnly : Bool)
    (result : Except CallError RuntimeConfig) (c : Correlator) : Client :=
  let lastMode :=
    match result with
    | .ok config => some config.mode
    | .error _ => cl.lastMode
  { cl with lastMode }.finishJob index (configReply modeOnly cl.lastMode result) c

def stepJob (cl : Client) (index : Nat) : Option Client :=
  match cl.jobs[index]? with
  | none => none
  | some job =>
    match job with
    | .newCall plan after =>
      let (phase, sends, c) := plan.start cl.now cl.correlator
      some (cl.moveJob index (.call plan after phase) sends c)
    | .call plan after phase =>
      match plan.step phase cl.now cl.correlator with
      | .stay => none
      | .move phase sends c => some (cl.moveJob index (.call plan after phase) sends c)
      | .finish result c => some ((cl.settleAftermath after result).finishJob index result c)
    | .readConfig modeOnly phase =>
      match cl.configPlan.step phase cl.now cl.configs cl.correlator with
      | (.stay, _) => none
      | (.move phase sends c, configs) =>
        some ({ cl with configs }.moveJob index (.readConfig modeOnly phase) sends c)
      | (.finish result c, configs) =>
        some ({ cl with configs }.finishConfigRead index modeOnly result c)
    | .readProxies phase =>
      match cl.proxiesPlan.step phase cl.now cl.proxies cl.correlator with
      | (.stay, _) => none
      | (.move phase sends c, proxies) =>
        some ({ cl with proxies }.moveJob index (.readProxies phase) sends c)
      | (.finish result c, proxies) =>
        some ({ cl with proxies }.finishJob index (result.map .proxies) c)
    | .waiting wait phase =>
      match wait.step cl.stopFirst phase cl.now cl.correlator with
      | .stay => none
      | .move phase sends c => some (cl.moveJob index (.waiting wait phase) sends c)
      | .finish result c => some (cl.finishJob index (result.map .version) c)
    | .testing batch =>
      match batch.step cl.settings cl.now cl.correlator with
      | .stay => none
      | .move batch sends c => some (cl.moveJob index (.testing batch) sends c)
      | .finish results c => some (cl.finishJob index (.ok (.delays results)) c)
    | .reserving =>
      match cl.correlator.allocate with
      | none => none
      | some (t, c) => some (cl.finishJob index (.ok (.ticket t)) c)
    | .awaiting t limit deadline =>
      let finish (r : Except WaitError InboundEnvelope) : Client :=
        cl.finishJob index (.ok (.waited r)) (cl.correlator.conclude t)
      match cl.correlator.status t with
      | .delivered e => some (finish (.ok e))
      | .cancelled => some (finish (.error .cancelled))
      | .waiting =>
        if deadline ≤ cl.now then
          some (finish (.error (.timedOut (Duration.ofMillis limit))))
        else none
    | .over _ => none
    | .gone => none

/-- The caches and the correlator without what a job held in them. -/
def withdraw (cl : Client) (job : Job) : Client :=
  let correlator := job.attempts.foldl (fun c a => c.release a.ticket) cl.correlator
  let cl := { cl with correlator }
  match job with
  | .readConfig _ phase => { cl with configs := cl.configPlan.abandon phase cl.configs }
  | .readProxies phase => { cl with proxies := cl.proxiesPlan.abandon phase cl.proxies }
  | .awaiting t _ _ => { cl with correlator := cl.correlator.release t }
  | _ => cl

def abandon (cl : Client) (index : Nat) : Client :=
  match cl.jobs[index]? with
  | none => cl
  | some job => (cl.withdraw job).setJob index .gone

def stepListener (cl : Client) : Option Client :=
  (cl.listener.step cl.stopFirst cl.correlator).map fun (listener, correlator) =>
    { cl with listener, correlator }

def attempts (cl : Client) : List Attempt :=
  cl.jobs.flatMap Job.attempts

def isSending (cl : Client) (t : Ticket) : Bool :=
  cl.attempts.any fun a => a.ticket = t && a.transmission.isNone

def step (cl : Client) : ClientEvent → Client
  | .start op => cl.start op
  | .advance index => (cl.stepJob index).getD cl
  | .transmitted t result =>
    { cl with jobs := cl.jobs.map (Job.mapAttempt (Attempt.transmitted t result)) }
  | .arrive e => { cl with listener := (cl.listener.arrive e).2 }
  | .closeInbound => { cl with listener := cl.listener.close }
  | .stopListener => { cl with listener := cl.listener.stop }
  | .listen => cl.stepListener.getD cl
  | .dispatch e => { cl with correlator := (cl.correlator.dispatch e).2 }
  | .cancelPending => { cl with correlator := cl.correlator.cancelAll.2 }
  | .abandon index => cl.abandon index
  | .pass moment => { cl with now := max cl.now moment }
  | .favour stopFirst => { cl with stopFirst }

def run (cl : Client) (events : List ClientEvent) : Client :=
  events.foldl step cl

def due (cl : Client) : List Nat :=
  cl.jobs.flatMap Job.due

end Client

end ProxyConsole
