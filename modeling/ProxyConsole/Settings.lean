import ProxyConsole.Duration
import ProxyConsole.Json.Record

/-!
# Settings

How the console reaches the backend and how patient it is.  All times are whole milliseconds.  Every
setting has a default, so that a partial file or an empty one is complete.
-/

set_option autoImplicit false

namespace ProxyConsole

/-- The time one attempt may take, by the weight of the operation. -/
structure Timeouts where
  quick : UInt64 := 8000
  normal : UInt64 := 15000
  long : UInt64 := 30000
  deriving DecidableEq, Repr

/-- How often a failed call is attempted, and the pause between attempts. -/
structure Retry where
  maxAttempts : UInt32 := 3
  backoff : UInt64 := 1000
  deriving DecidableEq, Repr

/-- How long a read resource is served from memory. -/
structure Lifetimes where
  config : UInt64 := 1000
  proxies : UInt64 := 500
  deriving DecidableEq, Repr

structure Polling where
  interval : UInt64 := 500
  probeTimeout : UInt64 := 2000
  maxWait : UInt64 := 30000
  deriving DecidableEq, Repr

structure Settings where
  endpoint : String := "127.0.0.1:9090"
  maxFrameLength : UInt64 := 16777216
  timeouts : Timeouts := {}
  retry : Retry := {}
  cache : Lifetimes := {}
  readiness : Polling := {}
  deriving DecidableEq, Repr

def Timeouts.record : Record Timeouts where
  blank := {}
  fields :=
    [ .of "quick_ms" Codec.uint64 quick (fun s v => { s with quick := v }) false,
      .of "normal_ms" Codec.uint64 normal (fun s v => { s with normal := v }) false,
      .of "long_ms" Codec.uint64 long (fun s v => { s with long := v }) false ]

def Retry.record : Record Retry where
  blank := {}
  fields :=
    [ .of "max_attempts" Codec.uint32 maxAttempts (fun s v => { s with maxAttempts := v }) false,
      .of "backoff_ms" Codec.uint64 backoff (fun s v => { s with backoff := v }) false ]

def Lifetimes.record : Record Lifetimes where
  blank := {}
  fields :=
    [ .of "config_ttl_ms" Codec.uint64 config (fun s v => { s with config := v }) false,
      .of "proxies_ttl_ms" Codec.uint64 proxies (fun s v => { s with proxies := v }) false ]

def Polling.record : Record Polling where
  blank := {}
  fields :=
    [ .of "interval_ms" Codec.uint64 interval (fun s v => { s with interval := v }) false,
      .of "probe_timeout_ms" Codec.uint64 probeTimeout
        (fun s v => { s with probeTimeout := v }) false,
      .of "max_wait_ms" Codec.uint64 maxWait (fun s v => { s with maxWait := v }) false ]

namespace Settings

def record : Record Settings where
  blank := {}
  fields :=
    [ .of "endpoint" Codec.string endpoint (fun s v => { s with endpoint := v }) false,
      .of "max_frame_length" Codec.uint64 maxFrameLength
        (fun s v => { s with maxFrameLength := v }) false,
      .of "timeouts" Timeouts.record.codec timeouts (fun s v => { s with timeouts := v }) false,
      .of "retry" Retry.record.codec retry (fun s v => { s with retry := v }) false,
      .of "cache" Lifetimes.record.codec cache (fun s v => { s with cache := v }) false,
      .of "readiness" Polling.record.codec readiness
        (fun s v => { s with readiness := v }) false ]

def codec : Codec Settings := record.codec

end Settings

/-- The weight of an operation, which fixes the time an attempt may take. -/
inductive OperationClass where
  /-- Cheap reads. -/
  | quick
  /-- Ordinary changes and larger reads. -/
  | normal
  /-- Operations that make the backend load its configuration anew. -/
  | long
  deriving DecidableEq, Repr

def OperationClass.name : OperationClass → String
  | .quick => "quick"
  | .normal => "normal"
  | .long => "long"

def Timeouts.of (t : Timeouts) : OperationClass → Nat
  | .quick => t.quick.toNat
  | .normal => t.normal.toNat
  | .long => t.long.toNat

/-- The number of attempts, never less than one. -/
def Retry.attempts (r : Retry) : Nat :=
  max r.maxAttempts.toNat 1

end ProxyConsole
