import ProxyConsole.Call
import ProxyConsole.Settings
import ProxyConsole.Resource.Basic
import ProxyConsole.Text.Percent

/-!
# Operations of the controller

The catalogue of what can be asked of the controller.  Each operation fixes its verb,
path, weight and use of the caches.  An input that can never be accepted is refused
here, before anything is sent.
-/

set_option autoImplicit false

namespace ProxyConsole

inductive Reply where
  | done
  | text (s : String)
  | version (v : VersionInfo)
  | config (c : RuntimeConfig)
  | mode (m : Mode)
  | logLevel (l : LogLevel)
  | proxies (p : ProxiesSnapshot)
  | connections (c : ConnectionsSnapshot)
  | rules (r : RuleList)
  | delay (d : DelayResult)
  | delays (results : List (String × Except CallError DelayResult))
  | ticket (t : Ticket)
  | waited (r : Except WaitError InboundEnvelope)

namespace Reply

def version? : Reply → Option VersionInfo
  | .version v => some v
  | _ => none

def config? : Reply → Option RuntimeConfig
  | .config c => some c
  | _ => none

def mode? : Reply → Option Mode
  | .mode m => some m
  | _ => none

def logLevel? : Reply → Option LogLevel
  | .logLevel l => some l
  | _ => none

def proxies? : Reply → Option ProxiesSnapshot
  | .proxies p => some p
  | _ => none

def connections? : Reply → Option ConnectionsSnapshot
  | .connections c => some c
  | _ => none

def rules? : Reply → Option RuleList
  | .rules r => some r
  | _ => none

def delay? : Reply → Option DelayResult
  | .delay d => some d
  | _ => none

def delays? : Reply → Option (List (String × Except CallError DelayResult))
  | .delays results => some results
  | _ => none

end Reply

inductive Operation where
  | version
  /-- Wait for the backend; the wait is called off after the given time, if any. -/
  | waitReady (callOffAfter : Option Nat)
  | runningConfig
  | currentMode
  | proxies
  | connections
  | rules
  | testDelay (node url : String) (timeout : Nat)
  | testDelays (nodes : List String) (url : String) (timeout width : Nat)
  | setMode (mode : String)
  | setLogLevel (level : String)
  | setAllowLan (enabled : Bool)
  | setIpv6 (enabled : Bool)
  | setTun (enabled : Bool)
  | reload (path : String)
  | select (group node : String)
  | closeConnection (id : String)
  | closeAllConnections
  | updateProvider (name : String)
  | flushFakeIp
  /-- A call of the given weight whose body is decoded in the given way. -/
  | exchange (weight : OperationClass) (request : Request)
      (decode : String → Except CallError Reply)
  /-- A single attempt with a time limit of its own. -/
  | attempt (request : Request) (timeout : Nat)
  /-- Register a call without sending anything. -/
  | reserve
  | await (t : Ticket) (ms : Nat)

/-- What an operation leaves behind when it ends: which caches it empties, whatever its outcome, and
the mode that is in force if it succeeded. -/
structure Aftermath where
  dropsConfig : Bool := false
  dropsProxies : Bool := false
  installs : Option Mode := none
  deriving DecidableEq, Repr

inductive Script where
  | call (plan : CallPlan Reply) (after : Aftermath)
  /-- Read the running configuration, perhaps for its mode only. -/
  | readConfig (modeOnly : Bool)
  | readProxies
  | waitReady (callOffAfter : Option Nat)
  | testDelays (nodes : List String) (url : String) (timeout width : Nat)
  | reserve
  | await (t : Ticket) (ms : Nat)

namespace Operation

def configsPath : String := "/configs"

def proxiesPath : String := "/proxies"

/-- The longest time a delay test may be given, in milliseconds. -/
def maxDelayTimeout : Nat := 60000

/-- A text without blanks around it, which must not be empty. -/
def requireText (what value : String) : Except CallError String :=
  let trimmed := Text.trim value
  if trimmed.isEmpty then .error (.validation (what ++ " must not be empty")) else .ok trimmed

def delayPath (node url : String) (timeout : Nat) : String :=
  proxiesPath ++ "/" ++ Percent.encode node ++ "/delay?timeout=" ++ Decimal.natText timeout ++
    "&url=" ++ Percent.encode url

def delayRequest (node url : String) (timeout : Nat) : Except CallError Request := do
  let node ← requireText "proxy node" node
  let url ← requireText "test url" url
  if timeout = 0 ∨ maxDelayTimeout < timeout then
    .error (.validation ("Delay timeout must be between 1 and " ++
      Decimal.natText maxDelayTimeout ++ " ms, got " ++ Decimal.natText timeout))
  else .ok (.get (delayPath node url timeout))

def plan {α : Type} (s : Settings) (weight : OperationClass) (request : Request)
    (decode : String → Except CallError α) : CallPlan α :=
  { request, timeout := s.timeouts.of weight, attempts := s.retry.attempts,
    backoff := s.retry.backoff.toNat, decode }

def planRead {α : Type} (s : Settings) (weight : OperationClass) (request : Request)
    (codec : Codec α) : CallPlan α :=
  plan s weight request (decodeBody codec request.path)

/-- The script of a read that goes past the caches. -/
def readScript {α : Type} (s : Settings) (weight : OperationClass) (path : String)
    (codec : Codec α) (reply : α → Reply) : Script :=
  .call (plan s weight (.get path) fun body => (decodeBody codec path body).map reply) {}

def changeScript (s : Settings) (weight : OperationClass) (request : Request) (reply : Reply)
    (after : Aftermath) : Script :=
  .call (plan s weight request fun _ => .ok reply) after

def patchScript (s : Settings) (key : String) (value : Json) (reply : Reply)
    (installs : Option Mode) : Script :=
  changeScript s .normal (.patch configsPath (.object [(key, value)])) reply
    { dropsConfig := true, installs }

def delayPlan (s : Settings) (request : Request) : CallPlan DelayResult :=
  planRead s .long request DelayResult.codec

def script (s : Settings) : Operation → Except CallError Script
  | .version => .ok (readScript s .quick "/version" VersionInfo.codec .version)
  | .waitReady callOffAfter => .ok (.waitReady callOffAfter)
  | .runningConfig => .ok (.readConfig false)
  | .currentMode => .ok (.readConfig true)
  | .proxies => .ok .readProxies
  | .connections =>
    .ok (readScript s .normal "/connections" ConnectionsSnapshot.codec .connections)
  | .rules => .ok (readScript s .normal "/rules" RuleList.codec .rules)
  | .testDelay node url timeout => do
    let request ← delayRequest node url timeout
    return readScript s .long request.path DelayResult.codec .delay
  | .testDelays nodes url timeout width => .ok (.testDelays nodes url timeout width)
  | .setMode mode => do
    let m ← Mode.parse mode
    return patchScript s "mode" (.string m.name) (.mode m) (some m)
  | .setLogLevel level => do
    let l ← LogLevel.parse level
    return patchScript s "log-level" (.string l.name) (.logLevel l) none
  | .setAllowLan enabled => .ok (patchScript s "allow-lan" (.bool enabled) .done none)
  | .setIpv6 enabled => .ok (patchScript s "ipv6" (.bool enabled) .done none)
  | .setTun enabled =>
    .ok (patchScript s "tun" (.object [("enable", .bool enabled)]) .done none)
  | .reload path => do
    let path ← requireText "config path" path
    return changeScript s .long
      (.put (configsPath ++ "?force=true") (.object [("path", .string path)])) .done
      { dropsConfig := true, dropsProxies := true }
  | .select group node => do
    let group ← requireText "proxy group" group
    let node ← requireText "proxy node" node
    return changeScript s .normal
      (.put (proxiesPath ++ "/" ++ Percent.encode group) (.object [("name", .string node)])) .done
      { dropsProxies := true }
  | .closeConnection id => do
    let id ← requireText "connection id" id
    return changeScript s .normal (.delete ("/connections/" ++ Percent.encode id)) .done {}
  | .closeAllConnections => .ok (changeScript s .normal (.delete "/connections") .done {})
  | .updateProvider name => do
    let name ← requireText "provider name" name
    return changeScript s .long
      (.put ("/providers/proxies/" ++ Percent.encode name) (.object [])) .done
      { dropsProxies := true }
  | .flushFakeIp => .ok (changeScript s .quick (.post "/cache/fakeip/flush") .done {})
  | .exchange weight request decode => .ok (.call (plan s weight request decode) {})
  | .attempt request timeout =>
    .ok (.call { request, timeout, attempts := 1, backoff := 0,
                 decode := fun body => .ok (.text body) } {})
  | .reserve => .ok .reserve
  | .await t ms => .ok (.await t ms)

end Operation

end ProxyConsole
