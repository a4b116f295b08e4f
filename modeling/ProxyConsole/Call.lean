import ProxyConsole.Attempt

/-!
# Calls with bounded retries

A call is a sequence of attempts.  After a failed attempt there is another one, a fixed
pause later, as long as the failure is one of the transport and the budget of attempts
is not used up.  Decoding the body belongs to the attempt, so a body that does not
decode counts as a failure of the transport.
-/

set_option autoImplicit false

namespace ProxyConsole

/-- What a call is to do: its request, the time for one attempt, the number of attempts, the pause
between them, and what to make of a body. -/
structure CallPlan (α : Type) where
  request : Request
  timeout : Nat
  attempts : Nat
  backoff : Nat
  decode : String → Except CallError α

/-- Where a call stands.  Attempts are numbered from one. -/
inductive CallPhase where
  | attempting (number : Nat) (a : Attempt)
  | pausing (number : Nat) (resume : Nat)
  /-- Every request id is taken; the call never gets on. -/
  | starved

/-- A step of something that shares the correlator: nothing to do yet, a new phase with what starts
to be sent, or the end. -/
inductive Progress (σ ρ : Type) where
  | stay
  | move (phase : σ) (sends : List Sending) (c : Correlator)
  | finish (result : ρ) (c : Correlator)

def undecodableBody (path : String) (e : DecodeError) : CallError :=
  .transport ⟨.decode, "invalid response body for " ++ path ++ ": " ++ e.quoted⟩

def decodeBody {α : Type} (codec : Codec α) (path body : String) : Except CallError α :=
  match codec.ofText body with
  | .ok a => .ok a
  | .error e => .error (undecodableBody path e)

namespace CallPhase

def attempt? : CallPhase → Option Attempt
  | .attempting _ a => some a
  | _ => none

def mapAttempt (f : Attempt → Attempt) : CallPhase → CallPhase
  | .attempting n a => .attempting n (f a)
  | p => p

def due : CallPhase → Option Nat
  | .attempting _ a => some a.deadline
  | .pausing _ resume => some resume
  | .starved => none

end CallPhase

namespace CallPlan

variable {α : Type}

def beginAttempt (p : CallPlan α) (number now : Nat) (c : Correlator) :
    CallPhase × List Sending × Correlator :=
  match Attempt.begin? p.request p.timeout now c with
  | none => (.starved, [], c)
  | some (a, sending, c) => (.attempting number a, [sending], c)

def start (p : CallPlan α) (now : Nat) (c : Correlator) : CallPhase × List Sending × Correlator :=
  p.beginAttempt 1 now c

def outcome? (p : CallPlan α) (a : Attempt) (now : Nat) (c : Correlator) :
    Option (Except CallError α) :=
  (a.outcome? p.request.path p.timeout now c).map fun r => r.bind p.decode

def afterAttempt (p : CallPlan α) (number now : Nat) (result : Except CallError α)
    (c : Correlator) : Progress CallPhase (Except CallError α) :=
  match result with
  | .ok value => .finish (.ok value) c
  | .error e =>
    if e.isRetryable && number < p.attempts then .move (.pausing number (now + p.backoff)) [] c
    else .finish (.error e) c

def step (p : CallPlan α) (phase : CallPhase) (now : Nat) (c : Correlator) :
    Progress CallPhase (Except CallError α) :=
  match phase with
  | .attempting number a =>
    match p.outcome? a now c with
    | none => .stay
    | some result => p.afterAttempt number now result (a.close c)
  | .pausing number resume =>
    if resume ≤ now then
      let (phase, sends, c) := p.beginAttempt (number + 1) now c
      .move phase sends c
    else .stay
  | .starved => .stay

end CallPlan

end ProxyConsole
