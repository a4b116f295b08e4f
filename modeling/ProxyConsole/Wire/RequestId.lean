import ProxyConsole.Json.Decode

/-!
# Request ids

The id that pairs a response with its request.  Ids are taken from a running sequence number and
stay below `2 ^ 53`, so that a peer holding numbers as doubles keeps them exact.  Zero is never
produced.
-/

set_option autoImplicit false

namespace ProxyConsole

structure RequestId where
  val : UInt64
  deriving DecidableEq, Repr

namespace RequestId

def bound : UInt64 := 9007199254740992

/-- The id of a sequence number: ids run from one up to the bound and start again. -/
def ofSequence (seq : UInt64) : RequestId :=
  ⟨seq % (bound - 1) + 1⟩

/-- Whether an id is one that sequences produce, zero apart. -/
def inRange (id : RequestId) : Bool :=
  id.val < bound

def text (id : RequestId) : String :=
  "req-" ++ Decimal.natText id.val.toNat

def codec : Codec RequestId :=
  ⟨fun id => Codec.uint64.encode id.val, fun node => (Codec.uint64.decode node).map RequestId.mk⟩

end RequestId

end ProxyConsole
