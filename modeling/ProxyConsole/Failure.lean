import ProxyConsole.Duration
import ProxyConsole.Wire.Frame

/-!
# Failures

A transport failure has a category and a text; the category alone decides what a caller does about
it.  Every failed call falls into one of five classes.
-/

set_option autoImplicit false

namespace ProxyConsole

inductive TransportErrorKind where
  /-- The backend's endpoint does not exist yet. -/
  | notReady
  /-- An established channel broke. -/
  | severed
  /-- The transport is shut down for good. -/
  | closed
  | decode
  | io
  deriving DecidableEq, Repr

structure TransportError where
  kind : TransportErrorKind
  message : String
  deriving DecidableEq, Repr

/-- The kinds of system failures that are told apart; all others count alike. -/
inductive SystemErrorKind where
  | connectionRefused
  | notFound
  | brokenPipe
  | connectionReset
  | connectionAborted
  | unexpectedEof
  | other
  deriving DecidableEq, Repr

namespace TransportError

/-- Classify a failure of the system by its kind, never by its text. -/
def ofSystem (kind : SystemErrorKind) (message : String) : TransportError :=
  let category :=
    match kind with
    | .connectionRefused | .notFound => TransportErrorKind.notReady
    | .brokenPipe | .connectionReset | .connectionAborted | .unexpectedEof => .severed
    | .other => .io
  ⟨category, message⟩

def ofFrame (e : FrameError) : TransportError :=
  match e with
  | .unfinished => ⟨.io, "bytes remaining on stream"⟩
  | e => ⟨.decode, e.message⟩

end TransportError

inductive CallError where
  /-- The input is outside the accepted domain; nothing was sent. -/
  | validation (reason : String)
  | backendNotReady (message : String)
  | timedOut (path : String) (after : Duration)
  /-- The backend answered with a refusal. -/
  | backendRejected (status : UInt16) (message : String)
  /-- Sending failed, or the response could not be decoded. -/
  | transport (e : TransportError)
  deriving DecidableEq, Repr

namespace CallError

def ofTransport (e : TransportError) : CallError :=
  match e.kind with
  | .notReady => .backendNotReady e.message
  | _ => .transport e

def message : CallError → String
  | .validation reason => "Invalid input: " ++ reason
  | .backendNotReady m => "Backend not ready: " ++ m
  | .timedOut path after => "Operation timed out after " ++ after.text ++ ": " ++ path
  | .backendRejected _ m => m
  | .transport e => "Transport error: " ++ e.message

/-- Whether another attempt may help: only after a transport failure, and not once the channel is
closed for good. -/
def isRetryable : CallError → Bool
  | .transport e => e.kind ≠ .closed
  | _ => false

def isNotReady : CallError → Bool
  | .backendNotReady _ => true
  | _ => false

def userMessage : CallError → String
  | .validation reason => reason
  | .backendRejected _ m => m
  | .timedOut _ _ => "Operation timed out; the core is temporarily unavailable, please retry"
  | .transport _ => "The core is temporarily unavailable, please retry"
  | .backendNotReady _ => "The core has not finished starting"

end CallError

inductive Report where
  | protocol (detail : String)
  | call (e : CallError)
  | configuration (detail : String)
  | system (detail : String)

namespace Report

def message : Report → String
  | .protocol detail => "Protocol error: " ++ detail
  | .call e => "Call error: " ++ e.message
  | .configuration detail => "Configuration error: " ++ detail
  | .system detail => "I/O error: " ++ detail

end Report

end ProxyConsole
