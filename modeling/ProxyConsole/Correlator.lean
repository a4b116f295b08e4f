import ProxyConsole.Duration
import ProxyConsole.Wire.Envelope

/-!
# Pairing responses with requests

A call is registered under a fresh request id before its request is sent.  A response is
delivered to the pending call with its id, which is thereby no longer pending; a
response without a pending call is discarded.  A pending call is removed exactly once:
by its response, by its holder, or by being cancelled.
-/

set_option autoImplicit false

namespace ProxyConsole

/-- What the holder of a registered call keeps: its id, the sequence number that the id came
from, and the number of the registration.  Ids and sequence numbers come round again; the
number of the registration belongs to one call only, and responses are collected under
it. -/
structure Ticket where
  id : RequestId
  seq : UInt64
  serial : Nat
  deriving DecidableEq, Repr

/-- The pending calls, the responses delivered but not yet collected, the next sequence
number, and how many calls were registered so far. -/
structure Correlator where
  pending : List Ticket := []
  delivered : List (Ticket × InboundEnvelope) := []
  nextSeq : UInt64 := 0
  registered : Nat := 0
  deriving DecidableEq, Repr

inductive TicketStatus where
  | waiting
  | delivered (e : InboundEnvelope)
  | cancelled
  deriving DecidableEq, Repr

namespace Correlator

def contains (c : Correlator) (id : RequestId) : Bool :=
  c.pending.any fun t => t.id = id

def pendingCount (c : Correlator) : Nat :=
  c.pending.length

/-- The first sequence number from `seq` on whose id is not pending, among the given number of
candidates. -/
def freeSeq? (c : Correlator) (seq : UInt64) : Nat → Option UInt64
  | 0 => none
  | tries + 1 =>
    if c.contains (RequestId.ofSequence seq) then freeSeq? c (seq + 1) tries else some seq

/-- Register a call under a fresh id.  Ids still pending are skipped; there is no ticket only when
every id is pending. -/
def allocate (c : Correlator) : Option (Ticket × Correlator) :=
  match c.freeSeq? c.nextSeq (2 * c.pending.length + 1) with
  | none => none
  | some seq =>
    let t : Ticket := ⟨RequestId.ofSequence seq, seq, c.registered⟩
    some (t, { c with
      pending := c.pending ++ [t]
      nextSeq := seq + 1
      registered := c.registered + 1 })

/-- Deliver a response to the pending call with its id; `false` if there is none. -/
def dispatch (c : Correlator) (e : InboundEnvelope) : Bool × Correlator :=
  match c.pending.find? fun t => t.id = e.requestId with
  | none => (false, c)
  | some t =>
    (true, { c with
      pending := c.pending.filter (· ≠ t)
      delivered := c.delivered ++ [(t, e)] })

def cancel (c : Correlator) (id : RequestId) : Bool × Correlator :=
  (c.contains id, { c with pending := c.pending.filter fun t => t.id ≠ id })

def cancelAll (c : Correlator) : Nat × Correlator :=
  (c.pending.length, { c with pending := [] })

def status (c : Correlator) (t : Ticket) : TicketStatus :=
  match c.delivered.lookup t with
  | some e => .delivered e
  | none => if t ∈ c.pending then .waiting else .cancelled

/-- Remove the pending call with an id, provided that it has the given sequence number: a later call
that was given the same id stays. -/
def cancelExact (c : Correlator) (id : RequestId) (seq : UInt64) : Correlator :=
  { c with pending := c.pending.filter fun t => ¬ (t.id = id ∧ t.seq = seq) }

def collect (c : Correlator) (t : Ticket) : Correlator :=
  { c with delivered := c.delivered.filter fun d => d.1 ≠ t }

/-- Give a ticket up: its call is no longer pending, and a response delivered to it is dropped. -/
def release (c : Correlator) (t : Ticket) : Correlator :=
  (c.cancelExact t.id t.seq).collect t

/-- A wait for a ticket is over: the response is taken, or the call is given up if it still
waits. -/
def conclude (c : Correlator) (t : Ticket) : Correlator :=
  match c.status t with
  | .waiting => c.release t
  | _ => c.collect t

end Correlator

inductive WaitError where
  | timedOut (after : Duration)
  | cancelled
  deriving DecidableEq, Repr

end ProxyConsole
