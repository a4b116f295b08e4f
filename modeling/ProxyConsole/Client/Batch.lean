import ProxyConsole.Client.Operation

/-!
# Batches of delay tests

The tests of a batch run side by side, at most as many as its width.  Results are given out in the
order of the nodes, and a test whose result waits for an earlier one still takes its place.
-/

set_option autoImplicit false

namespace ProxyConsole

inductive TestPhase where
  | starting
  | calling (plan : CallPlan DelayResult) (phase : CallPhase)
  | over (result : Except CallError DelayResult)

/-- A batch under way: the nodes still to come, the tests in progress with their nodes, and
the results given out so far. -/
structure Batch where
  url : String
  timeout : Nat
  width : Nat
  waiting : List String
  tests : List (String × TestPhase)
  results : List (String × Except CallError DelayResult)

namespace TestPhase

def attempt? : TestPhase → Option Attempt
  | .calling _ phase => phase.attempt?
  | _ => none

def mapAttempt (f : Attempt → Attempt) : TestPhase → TestPhase
  | .calling plan phase => .calling plan (phase.mapAttempt f)
  | p => p

def due : TestPhase → Option Nat
  | .calling _ phase => phase.due
  | _ => none

def step (s : Settings) (b : Batch) (node : String) (now : Nat) (c : Correlator) :
    TestPhase → Option (TestPhase × List Sending × Correlator)
  | .starting =>
    match Operation.delayRequest node b.url b.timeout with
    | .error e => some (.over (.error e), [], c)
    | .ok request =>
      let plan := Operation.delayPlan s request
      let (phase, sends, c) := plan.start now c
      some (.calling plan phase, sends, c)
  | .calling plan phase =>
    match plan.step phase now c with
    | .stay => none
    | .move phase sends c => some (.calling plan phase, sends, c)
    | .finish result c => some (.over result, [], c)
  | .over _ => none

end TestPhase

namespace Batch

def new (nodes : List String) (url : String) (timeout width : Nat) : Batch :=
  { url, timeout, width := max width 1, waiting := nodes, tests := [], results := [] }

def stepTests (s : Settings) (b : Batch) (now : Nat) (c : Correlator) :
    List (String × TestPhase) → Option (List (String × TestPhase) × List Sending × Correlator)
  | [] => none
  | (node, phase) :: tests =>
    match phase.step s b node now c with
    | some (phase, sends, c) => some ((node, phase) :: tests, sends, c)
    | none =>
      match stepTests s b now c tests with
      | some (tests, sends, c) => some ((node, phase) :: tests, sends, c)
      | none => none

/-- A step that takes no new node in: give out the result of the first test if it is over, else let
a test go on.  A batch with nothing left ends. -/
def stepOpen (s : Settings) (b : Batch) (now : Nat) (c : Correlator) :
    Progress Batch (List (String × Except CallError DelayResult)) :=
  match b.tests with
  | [] => .finish b.results c
  | (node, .over result) :: tests =>
    .move { b with tests, results := b.results ++ [(node, result)] } [] c
  | tests =>
    match stepTests s b now c tests with
    | some (tests, sends, c) => .move { b with tests } sends c
    | none => .stay

/-- One step of a batch: take in the next node while there is room. -/
def step (s : Settings) (b : Batch) (now : Nat) (c : Correlator) :
    Progress Batch (List (String × Except CallError DelayResult)) :=
  match b.waiting with
  | node :: waiting =>
    if b.tests.length < b.width then
      .move { b with waiting, tests := b.tests ++ [(node, .starting)] } [] c
    else b.stepOpen s now c
  | [] => b.stepOpen s now c

def attempts (b : Batch) : List Attempt :=
  b.tests.filterMap fun t => t.2.attempt?

def mapAttempt (f : Attempt → Attempt) (b : Batch) : Batch :=
  { b with tests := b.tests.map fun t => (t.1, t.2.mapAttempt f) }

def due (b : Batch) : List Nat :=
  b.tests.filterMap fun t => t.2.due

end Batch

end ProxyConsole
