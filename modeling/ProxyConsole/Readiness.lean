import ProxyConsole.Call
import ProxyConsole.Settings
import ProxyConsole.Resource.Basic

/-!
# Waiting for the backend

A starting backend is asked for its version again and again, one attempt at a time,
until it answers or the time is up.  A refusal means that it is up and ends the wait;
any other failure keeps the wait going.  The wait can be called off during a pause
between probes; once the pause is over as well, it may still go on with the next probe.
-/

set_option autoImplicit false

namespace ProxyConsole

/-- The schedule of a wait and when it began.  It may be called off at a given moment. -/
structure Wait where
  interval : Nat
  probeTimeout : Nat
  maxWait : Nat
  started : Nat
  calledOff : Option Nat

inductive WaitPhase where
  | starting
  | probing (a : Attempt)
  | pausing (resume : Nat)
  | starved

namespace Wait

def request : Request := .get "/version"

def decode (body : String) : Except CallError VersionInfo :=
  match VersionInfo.codec.ofText body with
  | .ok v => .ok v
  | .error e => .error (.transport ⟨.decode, "invalid version response: " ++ e.quoted⟩)

/-- Whether a failed probe is followed by another. -/
def keepsPolling : CallError → Bool
  | .backendNotReady _ => true
  | .timedOut _ _ => true
  | .transport _ => true
  | _ => false

def calledOffError : CallError :=
  .backendNotReady "readiness wait cancelled"

def isCalledOff (w : Wait) (now : Nat) : Bool :=
  match w.calledOff with
  | some moment => moment ≤ now
  | none => false

def probe (w : Wait) (now : Nat) (c : Correlator) :
    Progress WaitPhase (Except CallError VersionInfo) :=
  match Attempt.begin? request w.probeTimeout now c with
  | none => .move .starved [] c
  | some (a, sending, c) => .move (.probing a) [sending] c

def outcome? (w : Wait) (a : Attempt) (now : Nat) (c : Correlator) :
    Option (Except CallError VersionInfo) :=
  (a.outcome? request.path w.probeTimeout now c).map fun r => r.bind decode

def afterProbe (w : Wait) (now : Nat) (result : Except CallError VersionInfo) (c : Correlator) :
    Progress WaitPhase (Except CallError VersionInfo) :=
  match result with
  | .ok v => .finish (.ok v) c
  | .error e =>
    if !keepsPolling e then .finish (.error e) c
    else if w.started + w.maxWait ≤ now + w.interval then .finish (.error e) c
    else .move (.pausing (now + w.interval)) [] c

/-- The next step of a wait.  In a pause that is over and was called off, `stopFirst` says
which of the two is taken. -/
def step (w : Wait) (stopFirst : Bool) (phase : WaitPhase) (now : Nat) (c : Correlator) :
    Progress WaitPhase (Except CallError VersionInfo) :=
  match phase with
  | .starting => w.probe now c
  | .probing a =>
    match w.outcome? a now c with
    | none => .stay
    | some result => w.afterProbe now result (a.close c)
  | .pausing resume =>
    if w.isCalledOff now && (stopFirst || now < resume) then .finish (.error calledOffError) c
    else if resume ≤ now then w.probe now c
    else .stay
  | .starved => .stay

end Wait

namespace WaitPhase

def attempt? : WaitPhase → Option Attempt
  | .probing a => some a
  | _ => none

def mapAttempt (f : Attempt → Attempt) : WaitPhase → WaitPhase
  | .probing a => .probing (f a)
  | p => p

def due (w : Wait) : WaitPhase → List Nat
  | .probing a => [a.deadline]
  | .pausing resume => resume :: w.calledOff.toList
  | _ => []

end WaitPhase

end ProxyConsole
