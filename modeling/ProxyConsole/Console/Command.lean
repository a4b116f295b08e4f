import ProxyConsole.Console.Dialogue
import ProxyConsole.Display.Listing

/-!
# Commands

What a user can ask of the core.  A failed call is shown by its text for users and
becomes the cause of the command's error.  With `json` the resource itself is printed as
one pretty document.
-/

set_option autoImplicit false

namespace ProxyConsole.Console

inductive CoreSetting where
  | logLevel (level : String)
  | allowLan (enabled : Bool)
  | ipv6 (enabled : Bool)
  | tun (enabled : Bool)
  deriving DecidableEq, Repr

inductive Command where
  | status (wait json : Bool)
  | showMode
  | setMode (mode : String)
  | listProxies (group : Option String) (json : Bool)
  | select (group node : String)
  | testDelay (nodes : List String) (url : String) (timeout width : Nat) (json : Bool)
  | listConnections (json : Bool)
  | closeConnection (id : String)
  | closeAllConnections
  | listRules (filter : Option String) (json : Bool)
  | reload (path : String)
  | updateProvider (name : String)
  | flushFakeIp
  | set (s : CoreSetting)
  deriving DecidableEq, Repr

def defaultDelayUrl : String := "http://cp.cloudflare.com/generate_204"

mutual

def sortedJson : Json → Json
  | .array items => .array (sortedItems items)
  | .object members => .object (sortedMembers members)
  | j => j

def sortedItems : List Json → List Json
  | [] => []
  | item :: items => sortedJson item :: sortedItems items

def sortedMembers : List (String × Json) → List (String × Json)
  | [] => []
  | (key, value) :: members => insertSorted key (sortedJson value) (sortedMembers members)

end

namespace Dialogue

def done : Dialogue := .finish (.ok ())

def fail (causes : Causes) : Dialogue := .finish (.error causes)

def conclude (s : Screen) : Dialogue := .print s done

def document (j : Json) : Dialogue := conclude (.line j.prettyText)

def report (action : String) (e : CallError) : Dialogue :=
  .print (Notice.error.print (action ++ ": " ++ e.userMessage)) (fail [action, e.message])

/-- Ask for an operation and go on with the part of its answer that `pick` finds. -/
def request {α : Type} (op : Operation) (action : String) (pick : Reply → Option α)
    (next : α → Dialogue) : Dialogue :=
  .ask op fun
    | .error e => report action e
    | .ok reply =>
      match pick reply with
      | some a => next a
      | none => fail [action]

def change (op : Operation) (action confirmation : String) : Dialogue :=
  request op action (fun _ => some ()) fun _ => conclude (Notice.success.print confirmation)

end Dialogue

namespace Command

open Dialogue

def statusDocument (v : VersionInfo) (c : RuntimeConfig) : Json :=
  sortedJson (.object [("version", VersionInfo.codec.encode v),
    ("config", RuntimeConfig.codec.encode c)])

def statusOf (json : Bool) (v : VersionInfo) : Dialogue :=
  request .runningConfig "Failed to read running configuration" Reply.config? fun c =>
    if json then document (statusDocument v c) else conclude (.output (Display.status v c))

def statusNow (json : Bool) : Dialogue :=
  let action := "Failed to reach the core"
  .ask .version fun
    | .error e =>
      if e.isNotReady then
        .print (Notice.warning.print "Is the core running? Try: proxyctl status --wait")
          (report action e)
      else report action e
    | .ok reply =>
      match reply.version? with
      | some v => statusOf json v
      | none => fail [action]

/-- Wait for the core, until the user interrupts that at a moment after its beginning. -/
def statusWaiting (interrupt : Option Nat) (json : Bool) : Dialogue :=
  let wait := request (.waitReady interrupt) "Core is not ready" Reply.version? (statusOf json)
  if json then wait
  else .print (Notice.info.print "Waiting for the core to become ready...") wait

def listProxiesDialogue (group : Option String) (json : Bool) : Dialogue :=
  request .proxies "Failed to list proxies" Reply.proxies? fun s =>
    match group with
    | none =>
      if json then document (ProxiesSnapshot.codec.encode s)
      else conclude (.line (Display.proxyGroups s))
    | some name =>
      match s.get? name with
      | none =>
        .print (Notice.error.print ("No proxy group named '" ++ name ++ "'"))
          (fail ["unknown proxy group: " ++ name])
      | some node =>
        if json then document (ProxyNode.codec.encode node)
        else conclude (.line (Display.groupMembers node s))

def delayValue : Except CallError DelayResult → Json
  | .ok r => .nat r.delay.toNat
  | .error e => .object [("error", .string e.userMessage)]

/-- The document of delay tests; the last of several results for one node counts. -/
def delaysDocument (results : List (String × Except CallError DelayResult)) : Json :=
  .object (results.foldl (fun entries r => insertSorted r.1 (delayValue r.2) entries) [])

def hasFailed : String × Except CallError DelayResult → Bool
  | (_, .ok _) => false
  | (_, .error _) => true

def testOne (node url : String) (timeout : Nat) (json : Bool) : Dialogue :=
  request (.testDelay node url timeout) "Delay test failed" Reply.delay? fun r =>
    if json then document (DelayResult.codec.encode r)
    else conclude (.line (node ++ ": " ++ Decimal.natText r.delay.toNat ++ " ms"))

def testMany (nodes : List String) (url : String) (timeout width : Nat) (json : Bool) : Dialogue :=
  request (.testDelays nodes url timeout width) "Delay test failed" Reply.delays? fun results =>
    let shown := if json then (delaysDocument results).prettyText else Display.delays results
    .print (.line shown)
      (if results.all hasFailed then fail ["every delay test failed"] else done)

def enabledText (b : Bool) : String :=
  if b then "enabled" else "disabled"

def setDialogue : CoreSetting → Dialogue
  | .logLevel level =>
    request (.setLogLevel level) "Failed to set log level" Reply.logLevel? fun l =>
      conclude (Notice.success.print ("Log level set to " ++ l.name))
  | .allowLan enabled =>
    change (.setAllowLan enabled) "Failed to change LAN access"
      ("Allow LAN " ++ enabledText enabled)
  | .ipv6 enabled =>
    change (.setIpv6 enabled) "Failed to change IPv6" ("IPv6 " ++ enabledText enabled)
  | .tun enabled =>
    change (.setTun enabled) "Failed to change TUN mode" ("TUN mode " ++ enabledText enabled)

/-- What a command asks and prints, with the moment at which the user interrupts a wait for
the core. -/
def dialogue (c : Command) (interrupt : Option Nat) : Dialogue :=
  match c with
  | .status wait json => if wait then statusWaiting interrupt json else statusNow json
  | .showMode =>
    request .currentMode "Failed to read mode" Reply.mode? fun m => conclude (.line m.name)
  | .setMode mode =>
    request (.setMode mode) "Failed to set mode" Reply.mode? fun m =>
      conclude (Notice.success.print ("Mode set to " ++ m.name))
  | .listProxies group json => listProxiesDialogue group json
  | .select group node =>
    change (.select group node) "Failed to select proxy" (group ++ " now uses " ++ node)
  | .testDelay [node] url timeout _ json => testOne node url timeout json
  | .testDelay nodes url timeout width json => testMany nodes url timeout width json
  | .listConnections json =>
    request .connections "Failed to list connections" Reply.connections? fun s =>
      if json then document (ConnectionsSnapshot.codec.encode s)
      else conclude (.line (Display.connections s))
  | .closeConnection id =>
    change (.closeConnection id) "Failed to close connection" ("Closed connection " ++ id)
  | .closeAllConnections =>
    change .closeAllConnections "Failed to close connections" "Closed all connections"
  | .listRules filter json =>
    request .rules "Failed to list rules" Reply.rules? fun r =>
      if json then document (RuleList.codec.encode r)
      else conclude (.line (Display.rules r filter))
  | .reload path =>
    change (.reload path) "Failed to reload configuration" ("Configuration reloaded from " ++ path)
  | .updateProvider name =>
    change (.updateProvider name) "Failed to update provider" ("Provider " ++ name ++ " updated")
  | .flushFakeIp => change .flushFakeIp "Failed to flush fake-ip cache" "Fake-ip cache flushed"
  | .set s => setDialogue s

end Command

end ProxyConsole.Console
