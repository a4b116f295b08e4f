import ProxyConsole.Resource.Mode
import ProxyConsole.Json.Record

/-!
# Resources

What the controller reports about the core: its version, its running configuration, proxies and
their delays, connections and rules.  All but a version's text and a measured delay may be left out
of a report.
-/

set_option autoImplicit false

namespace ProxyConsole

structure VersionInfo where
  version : String
  isMeta : Bool
  deriving DecidableEq, Repr

namespace VersionInfo

def record : Record VersionInfo where
  blank := ⟨"", false⟩
  fields :=
    [ .of "version" Codec.string version (fun s v => { s with version := v }) true,
      .of "meta" Codec.bool isMeta (fun s v => { s with isMeta := v }) false ]

def codec : Codec VersionInfo := record.codec

end VersionInfo

structure TunSettings where
  enable : Bool := false
  stack : Option String := none
  deriving DecidableEq, Repr

/-- The written form of the device's settings; an absent stack is written as `null`. -/
def TunSettings.record : Record TunSettings where
  blank := {}
  fields :=
    [ .of "enable" Codec.bool enable (fun s v => { s with enable := v }) false,
      .of "stack" Codec.string.option stack (fun s v => { s with stack := v }) false ]

structure RuntimeConfig where
  port : UInt16 := 0
  socksPort : UInt16 := 0
  mixedPort : UInt16 := 0
  allowLan : Bool := false
  mode : Mode := Mode.default
  logLevel : LogLevel := LogLevel.default
  ipv6 : Bool := false
  tun : TunSettings := {}
  deriving DecidableEq, Repr

namespace RuntimeConfig

def record : Record RuntimeConfig where
  blank := {}
  fields :=
    [ .of "port" Codec.uint16 port (fun s v => { s with port := v }) false,
      .of "socks-port" Codec.uint16 socksPort (fun s v => { s with socksPort := v }) false,
      .of "mixed-port" Codec.uint16 mixedPort (fun s v => { s with mixedPort := v }) false,
      .of "allow-lan" Codec.bool allowLan (fun s v => { s with allowLan := v }) false,
      .of "mode" Mode.codec mode (fun s v => { s with mode := v }) false,
      .of "log-level" LogLevel.codec logLevel (fun s v => { s with logLevel := v }) false,
      .of "ipv6" Codec.bool ipv6 (fun s v => { s with ipv6 := v }) false,
      .of "tun" TunSettings.record.codec tun (fun s v => { s with tun := v }) false ]

def codec : Codec RuntimeConfig := record.codec

end RuntimeConfig

structure DelayHistory where
  time : String := ""
  delay : UInt32 := 0
  deriving DecidableEq, Repr

def DelayHistory.record : Record DelayHistory where
  blank := {}
  fields :=
    [ .of "time" Codec.string time (fun s v => { s with time := v }) false,
      .of "delay" Codec.uint32 delay (fun s v => { s with delay := v }) false ]

structure ProxyNode where
  name : String := ""
  kind : String := ""
  /-- The selected member of a group. -/
  now : Option String := none
  /-- The members of a group. -/
  all : List String := []
  history : List DelayHistory := []
  deriving DecidableEq, Repr

namespace ProxyNode

def record : Record ProxyNode where
  blank := {}
  fields :=
    [ .of "name" Codec.string name (fun s v => { s with name := v }) false,
      .of "type" Codec.string kind (fun s v => { s with kind := v }) false,
      .optional "now" Codec.string now (fun s v => { s with now := v }),
      .of "all" Codec.string.list all (fun s v => { s with all := v }) false,
      .of "history" DelayHistory.record.codec.list history
        (fun s v => { s with history := v }) false ]

def codec : Codec ProxyNode := record.codec

def isGroup (n : ProxyNode) : Bool :=
  !n.all.isEmpty

def lastDelay (n : ProxyNode) : Option UInt32 :=
  n.history.getLast?.map DelayHistory.delay

end ProxyNode

/-- All nodes and groups, sorted by key. -/
structure ProxiesSnapshot where
  proxies : List (String × ProxyNode) := []
  deriving DecidableEq, Repr

namespace ProxiesSnapshot

def record : Record ProxiesSnapshot where
  blank := {}
  fields :=
    [.of "proxies" ProxyNode.codec.map proxies (fun s v => { s with proxies := v }) false]

def codec : Codec ProxiesSnapshot := record.codec

def groups (s : ProxiesSnapshot) : List ProxyNode :=
  (s.proxies.map Prod.snd).filter ProxyNode.isGroup

def get? (s : ProxiesSnapshot) (key : String) : Option ProxyNode :=
  s.proxies.lookup key

end ProxiesSnapshot

structure DelayResult where
  delay : UInt32
  deriving DecidableEq, Repr

namespace DelayResult

def record : Record DelayResult where
  blank := ⟨0⟩
  fields := [.of "delay" Codec.uint32 delay (fun s v => { s with delay := v }) true]

def codec : Codec DelayResult := record.codec

end DelayResult

structure ConnectionMetadata where
  network : String := ""
  kind : String := ""
  host : String := ""
  sourceIp : String := ""
  sourcePort : String := ""
  destinationIp : String := ""
  destinationPort : String := ""
  deriving DecidableEq, Repr

namespace ConnectionMetadata

def record : Record ConnectionMetadata where
  blank := {}
  fields :=
    [ .of "network" Codec.string network (fun s v => { s with network := v }) false,
      .of "type" Codec.string kind (fun s v => { s with kind := v }) false,
      .of "host" Codec.string host (fun s v => { s with host := v }) false,
      .of "sourceIP" Codec.string sourceIp (fun s v => { s with sourceIp := v }) false,
      .of "sourcePort" Codec.string sourcePort (fun s v => { s with sourcePort := v }) false,
      .of "destinationIP" Codec.string destinationIp
        (fun s v => { s with destinationIp := v }) false,
      .of "destinationPort" Codec.string destinationPort
        (fun s v => { s with destinationPort := v }) false ]

/-- The host if it is known, otherwise the address, with the port. -/
def target (m : ConnectionMetadata) : String :=
  (if m.host.isEmpty then m.destinationIp else m.host) ++ ":" ++ m.destinationPort

end ConnectionMetadata

structure ConnectionInfo where
  id : String := ""
  metadata : ConnectionMetadata := {}
  upload : UInt64 := 0
  download : UInt64 := 0
  start : String := ""
  chains : List String := []
  rule : String := ""
  rulePayload : String := ""
  deriving DecidableEq, Repr

def ConnectionInfo.record : Record ConnectionInfo where
  blank := {}
  fields :=
    [ .of "id" Codec.string ConnectionInfo.id (fun s v => { s with id := v }) false,
      .of "metadata" ConnectionMetadata.record.codec metadata
        (fun s v => { s with metadata := v }) false,
      .of "upload" Codec.uint64 upload (fun s v => { s with upload := v }) false,
      .of "download" Codec.uint64 download (fun s v => { s with download := v }) false,
      .of "start" Codec.string start (fun s v => { s with start := v }) false,
      .of "chains" Codec.string.list chains (fun s v => { s with chains := v }) false,
      .of "rule" Codec.string rule (fun s v => { s with rule := v }) false,
      .of "rulePayload" Codec.string rulePayload
        (fun s v => { s with rulePayload := v }) false ]

structure ConnectionsSnapshot where
  downloadTotal : UInt64 := 0
  uploadTotal : UInt64 := 0
  connections : List ConnectionInfo := []
  deriving DecidableEq, Repr

namespace ConnectionsSnapshot

def record : Record ConnectionsSnapshot where
  blank := {}
  fields :=
    [ .of "downloadTotal" Codec.uint64 downloadTotal
        (fun s v => { s with downloadTotal := v }) false,
      .of "uploadTotal" Codec.uint64 uploadTotal (fun s v => { s with uploadTotal := v }) false,
      .of "connections" ConnectionInfo.record.codec.list connections
        (fun s v => { s with connections := v }) false ]

def codec : Codec ConnectionsSnapshot := record.codec

end ConnectionsSnapshot

structure Rule where
  kind : String := ""
  payload : String := ""
  proxy : String := ""
  deriving DecidableEq, Repr

def Rule.record : Record Rule where
  blank := {}
  fields :=
    [ .of "type" Codec.string kind (fun s v => { s with kind := v }) false,
      .of "payload" Codec.string payload (fun s v => { s with payload := v }) false,
      .of "proxy" Codec.string proxy (fun s v => { s with proxy := v }) false ]

structure RuleList where
  rules : List Rule := []
  deriving DecidableEq, Repr

namespace RuleList

def record : Record RuleList where
  blank := {}
  fields := [.of "rules" Rule.record.codec.list rules (fun s v => { s with rules := v }) false]

def codec : Codec RuleList := record.codec

end RuleList

end ProxyConsole
