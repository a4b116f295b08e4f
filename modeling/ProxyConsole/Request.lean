import ProxyConsole.Wire.Envelope

/-!
# Requests

What a call asks of the backend, before it has a request id.
-/

set_option autoImplicit false

namespace ProxyConsole

/-- Verb, path with any query, and body of a call. -/
structure Request where
  verb : Verb
  path : String
  body : Option String := none
  deriving DecidableEq, Repr

namespace Request

def get (path : String) : Request := { verb := .get, path }

def delete (path : String) : Request := { verb := .delete, path }

def post (path : String) : Request := { verb := .post, path }

def withJson (r : Request) (body : Json) : Request :=
  { r with body := some body.compactText }

def put (path : String) (body : Json) : Request :=
  withJson { verb := .put, path } body

def patch (path : String) (body : Json) : Request :=
  withJson { verb := .patch, path } body

def envelope (r : Request) (id : RequestId) : OutboundEnvelope :=
  ⟨id, r.verb, r.path, r.body⟩

end Request

end ProxyConsole
