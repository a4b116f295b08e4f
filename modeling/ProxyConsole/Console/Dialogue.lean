import ProxyConsole.Console.Screen
import ProxyConsole.World

/-!
# Dialogues with the controller

A command is a dialogue: it prints, asks the client for an operation, goes on with the
answer and ends well or with an error.  What it prints depends on the answers alone,
whatever brought them about.
-/

set_option autoImplicit false

namespace ProxyConsole.Console

abbrev Answer := Except CallError Reply

abbrev Outcome := Except Causes Unit

inductive Dialogue where
  | finish (outcome : Outcome)
  | print (s : Screen) (next : Dialogue)
  | ask (op : Operation) (next : Answer → Dialogue)

/-- What came of a command: what it printed and how it ended, if it did. -/
structure Transcript where
  screen : Screen := {}
  outcome : Option Outcome := none

namespace Transcript

def after (s : Screen) (t : Transcript) : Transcript :=
  { t with screen := s ++ t.screen }

end Transcript

namespace Dialogue

def asked : Dialogue → List Answer → List Operation
  | .finish _, _ => []
  | .print _ next, answers => next.asked answers
  | .ask op _, [] => [op]
  | .ask op next, answer :: answers => op :: (next answer).asked answers

/-- The transcript of a dialogue that gets the given answers; it breaks off when they run out. -/
def replay : Dialogue → List Answer → Transcript
  | .finish outcome, _ => { outcome := some outcome }
  | .print s next, answers => (next.replay answers).after s
  | .ask _ _, [] => {}
  | .ask _ next, answer :: answers => (next answer).replay answers

def run (w : World) : Dialogue → Transcript × World
  | .finish outcome => ({ outcome := some outcome }, w)
  | .print s next =>
    let (t, w) := next.run w
    (t.after s, w)
  | .ask op next =>
    match w.perform op with
    | (none, w) => ({}, w)
    | (some answer, w) => (next answer).run w

end Dialogue

end ProxyConsole.Console
