import ProxyConsole.Wire.RequestId
import ProxyConsole.Json.Record

/-!
# Envelopes

A call is carried by one outbound envelope and answered by one inbound envelope with the same
request id.  Optional parts that are absent are not written.
-/

set_option autoImplicit false

namespace ProxyConsole

inductive Verb where
  | get
  | post
  | put
  | patch
  | delete
  deriving DecidableEq, Repr

namespace Verb

def name : Verb → String
  | .get => "GET"
  | .post => "POST"
  | .put => "PUT"
  | .patch => "PATCH"
  | .delete => "DELETE"

def byName : List (String × Verb) :=
  [.get, .post, .put, .patch, .delete].map fun v => (v.name, v)

def codec : Codec Verb :=
  ⟨fun v => .string v.name, Json.decodeVariant byName⟩

end Verb

structure OutboundEnvelope where
  requestId : RequestId
  verb : Verb
  path : String
  body : Option String
  deriving DecidableEq, Repr

namespace OutboundEnvelope

def record : Record OutboundEnvelope where
  blank := ⟨⟨0⟩, .get, "", none⟩
  fields :=
    [ .of "request_id" RequestId.codec requestId (fun e v => { e with requestId := v }) true,
      .of "verb" Verb.codec verb (fun e v => { e with verb := v }) true,
      .of "path" Codec.string path (fun e v => { e with path := v }) true,
      .optional "body" Codec.string body (fun e v => { e with body := v }) ]

def codec : Codec OutboundEnvelope := record.codec

end OutboundEnvelope

/-- The category of a failure that the backend relays in place of an answer. -/
inductive RelayedFailure where
  /-- The core's endpoint does not exist yet. -/
  | notReady
  /-- The link to the core broke while forwarding. -/
  | transport
  deriving DecidableEq, Repr

namespace RelayedFailure

def name : RelayedFailure → String
  | .notReady => "not_ready"
  | .transport => "transport"

def byName : List (String × RelayedFailure) :=
  [.notReady, .transport].map fun f => (f.name, f)

def codec : Codec RelayedFailure :=
  ⟨fun f => .string f.name, Json.decodeVariant byName⟩

end RelayedFailure

structure InboundEnvelope where
  requestId : RequestId
  success : Bool
  /-- The status given by the controller, zero if the request never reached it. -/
  status : UInt16
  errorMessage : Option String
  failure : Option RelayedFailure
  body : String
  deriving DecidableEq, Repr

namespace InboundEnvelope

def ok (id : RequestId) (body : String) : InboundEnvelope :=
  ⟨id, true, 200, none, none, body⟩

def rejected (id : RequestId) (status : UInt16) (message : String) : InboundEnvelope :=
  ⟨id, false, status, some message, none, ""⟩

def failed (id : RequestId) (failure : RelayedFailure) (message : String) : InboundEnvelope :=
  ⟨id, false, 0, some message, some failure, ""⟩

/-- Whether the status is absent or one of success. -/
def hasSuccessStatus (e : InboundEnvelope) : Bool :=
  e.status == 0 || (200 ≤ e.status && e.status < 300)

def record : Record InboundEnvelope where
  blank := ⟨⟨0⟩, false, 0, none, none, ""⟩
  fields :=
    [ .of "request_id" RequestId.codec requestId (fun e v => { e with requestId := v }) true,
      .of "success" Codec.bool success (fun e v => { e with success := v }) true,
      .of "status_code" Codec.uint16 status (fun e v => { e with status := v }) false,
      .optional "error_message" Codec.string errorMessage
        (fun e v => { e with errorMessage := v }),
      .optional "failure" RelayedFailure.codec failure (fun e v => { e with failure := v }),
      .of "body" Codec.string body (fun e v => { e with body := v }) false ]

def codec : Codec InboundEnvelope := record.codec

end InboundEnvelope

end ProxyConsole
