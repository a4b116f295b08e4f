/-!
# Passing time

Time is counted in whole milliseconds from the start of a run.  Nothing happens between the moments
at which a state asks to be woken, so time passes by jumping from one such moment to the next.
-/

set_option autoImplicit false

namespace ProxyConsole.Clock

def earliest (moments : List Nat) : Option Nat :=
  moments.min?

/-- What a clock needs to know of a state: the next moment at which it has something to do, and how
it goes on at a moment until it has nothing more to do. -/
structure Wakeup (σ : Type) where
  due : σ → Option Nat
  wake : Nat → σ → σ

variable {σ : Type}

/-- Let time pass up to a moment, waking the state at each moment it asks for.  The fuel bounds the
number of these moments. -/
def passTo (w : Wakeup σ) (moment : Nat) : Nat → σ → σ
  | 0, s => w.wake moment s
  | fuel + 1, s =>
    match w.due s with
    | some d => if d < moment then passTo w moment fuel (w.wake d s) else w.wake moment s
    | none => w.wake moment s

/-- Let time pass until a condition holds or the state asks for no further moment. -/
def passUntil (w : Wakeup σ) (done : σ → Bool) : Nat → σ → σ
  | 0, s => s
  | fuel + 1, s =>
    if done s then s
    else
      match w.due s with
      | some d => passUntil w done fuel (w.wake d s)
      | none => s

end ProxyConsole.Clock
