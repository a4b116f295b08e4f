import ProxyConsole.Failure

/-!
# In-process channels

A bounded queue between two ends, either of which may go away.  A backend in the same process is
reached over two of them: requests one way, responses the other.
-/

set_option autoImplicit false

namespace ProxyConsole

/-- A bounded queue and whether its two ends are still there. -/
structure Channel (α : Type) where
  capacity : Nat
  queue : List α := []
  hasSender : Bool := true
  hasReceiver : Bool := true

inductive PutResult where
  | sent
  | full
  /-- Nobody will ever take it. -/
  | closed
  deriving DecidableEq, Repr

inductive TakeResult (α : Type) where
  | item (a : α)
  | empty
  /-- The sender is gone and nothing is left. -/
  | ended
  /-- The receiver itself is gone. -/
  | closed

namespace Channel

variable {α : Type}

def put (c : Channel α) (a : α) : PutResult × Channel α :=
  if !c.hasSender || !c.hasReceiver then (.closed, c)
  else if c.capacity ≤ c.queue.length then (.full, c)
  else (.sent, { c with queue := c.queue ++ [a] })

def take (c : Channel α) : TakeResult α × Channel α :=
  if !c.hasReceiver then (.closed, c)
  else
    match c.queue with
    | a :: rest => (.item a, { c with queue := rest })
    | [] => (if c.hasSender then .empty else .ended, c)

/-- The sending end goes away; what was sent can still be taken. -/
def dropSender (c : Channel α) : Channel α := { c with hasSender := false }

/-- The receiving end goes away, and with it all that was not taken. -/
def dropReceiver (c : Channel α) : Channel α := { c with queue := [], hasReceiver := false }

end Channel

def TransportError.channelClosed : TransportError :=
  ⟨.severed, "backend channel closed"⟩

end ProxyConsole
