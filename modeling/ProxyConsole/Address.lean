import ProxyConsole.Failure

/-!
# Addresses of the backend

An address is a host and a port with a colon between them; the last colon counts.  A transport that
was shut down refuses to send before it looks at its address.
-/

set_option autoImplicit false

namespace ProxyConsole

def afterLastColon? (s : String) : Option String :=
  let cs := s.toList
  if cs.contains ':' then
    some (String.ofList (cs.reverse.takeWhile (· ≠ ':')).reverse)
  else none

/-- Why an address cannot be connected to, if it is not even a host and a port. -/
def addressFault? (address : String) : Option TransportError :=
  match afterLastColon? address with
  | none => some ⟨.io, "invalid socket address"⟩
  | some port =>
    match Decimal.natOfText? port with
    | some n => if n < UInt16.size then none else some ⟨.io, "invalid port value"⟩
    | none => some ⟨.io, "invalid port value"⟩

def TransportError.shutDown : TransportError :=
  ⟨.closed, "transport shut down"⟩

/-- The error of a send over a network that is not there: the transport is shut down, the address is
not one, or nobody answers at it. -/
def unreachable (isShutDown : Bool) (address : String) : TransportError :=
  if isShutDown then .shutDown
  else (addressFault? address).getD (.ofSystem .connectionRefused
    "Connection refused (os error 111)")

end ProxyConsole
