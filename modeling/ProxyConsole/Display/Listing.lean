import ProxyConsole.Display.ByteCount
import ProxyConsole.Display.Table
import ProxyConsole.Resource.Basic

/-!
# Listings

How the resources of the controller are shown to a reader: the status as lines, all else as tables.
-/

set_option autoImplicit false

namespace ProxyConsole.Display

def onOff (b : Bool) : String :=
  if b then "on" else "off"

/-- A port; the port zero stands for none. -/
def portText (port : UInt16) : String :=
  if port = 0 then "-" else Decimal.natText port.toNat

/-- A measured delay; a delay of zero stands for a test that timed out. -/
def delayText : Option UInt32 → String
  | none => "-"
  | some d => if d = 0 then "timeout" else Decimal.natText d.toNat ++ " ms"

/-- A text with at most so many characters, the last three of which are points if any are left
out. -/
def truncate (limit : Nat) (s : String) : String :=
  if s.length ≤ limit then s else String.ofList (s.toList.take (limit - 3)) ++ "..."

def status (v : VersionInfo) (c : RuntimeConfig) : String :=
  let line (title value : String) := title ++ ": " ++ value ++ "\n"
  line "Core Version" (v.version ++ if v.isMeta then " (meta)" else "") ++
    line "Mode" c.mode.name ++
    line "Log Level" c.logLevel.name ++
    line "Mixed Port" (portText c.mixedPort) ++
    line "HTTP Port" (portText c.port) ++
    line "SOCKS Port" (portText c.socksPort) ++
    line "Allow LAN" (onOff c.allowLan) ++
    line "IPv6" (onOff c.ipv6) ++
    line "TUN" (onOff c.tun.enable)

def proxyGroups (s : ProxiesSnapshot) : String :=
  match s.groups with
  | [] => "No proxy groups"
  | groups =>
    let row (g : ProxyNode) :=
      [g.name, g.kind, g.now.getD "-", Decimal.natText g.all.length]
    ({ titles := ["GROUP", "TYPE", "SELECTED", "MEMBERS"], rows := groups.map row } : Table).text

def groupMembers (g : ProxyNode) (s : ProxiesSnapshot) : String :=
  if g.all.isEmpty then "Group '" ++ g.name ++ "' has no members"
  else
    let row (member : String) :=
      let node := s.get? member
      [ if g.now = some member then "*" else "", member, (node.map ProxyNode.kind).getD "",
        delayText (node.bind ProxyNode.lastDelay) ]
    ({ titles := ["", "NODE", "TYPE", "DELAY"], rows := g.all.map row } : Table).text

def delays (results : List (String × Except CallError DelayResult)) : String :=
  if results.isEmpty then "No nodes tested"
  else
    let shown : Except CallError DelayResult → String
      | .ok r => delayText (some r.delay)
      | .error e => e.userMessage
    ({ titles := ["NODE", "DELAY"], rows := results.map fun (node, r) => [node, shown r] } :
      Table).textWithin 100

def matchedRule (c : ConnectionInfo) : String :=
  if c.rulePayload.isEmpty then c.rule else c.rule ++ "(" ++ c.rulePayload ++ ")"

def connections (s : ConnectionsSnapshot) : String :=
  let totals := "Total: ↑ " ++ byteCount s.uploadTotal.toNat ++ "  ↓ " ++
    byteCount s.downloadTotal.toNat
  if s.connections.isEmpty then "No active connections\n" ++ totals
  else
    let row (c : ConnectionInfo) :=
      [ truncate 8 c.id, c.metadata.network, truncate 40 c.metadata.target,
        " > ".intercalate c.chains, matchedRule c, byteCount c.upload.toNat,
        byteCount c.download.toNat ]
    ({ titles := ["ID", "NET", "TARGET", "CHAIN", "RULE", "UP", "DOWN"],
       rows := s.connections.map row } : Table).textWithin 120 ++ "\n" ++ totals

def occursIn (part : List Char) : List Char → Bool
  | [] => part.isEmpty
  | c :: cs => part.isPrefixOf (c :: cs) || occursIn part cs

def hasPart (part s : String) : Bool :=
  occursIn part.toList s.toList

/-- Whether a filter lets a rule through: its payload or its proxy has the filter's text in it. -/
def ruleMatches (filter : Option String) (r : Rule) : Bool :=
  match filter with
  | none => true
  | some part => hasPart part r.payload || hasPart part r.proxy

def rules (l : RuleList) (filter : Option String) : String :=
  match l.rules.zipIdx.filter fun (r, _) => ruleMatches filter r with
  | [] => "No matching rules"
  | kept =>
    let row : Rule × Nat → List String := fun (r, index) =>
      [Decimal.natText (index + 1), r.kind, truncate 48 r.payload, r.proxy]
    ({ titles := ["#", "TYPE", "PAYLOAD", "PROXY"], rows := kept.map row } : Table).text

end ProxyConsole.Display
