import ProxyConsole.Correlator.Session
import ProxyConsole.Proofs.Correlator.Basic

/-!
# Sessions under any schedule

Here the parts of a session take their turns in any order: a wait that has begun looks at its call
whenever its turn comes, and between two turns anything else may happen, any number of times.  What
holds after every list of events holds of every schedule.
-/

set_option autoImplicit false

namespace ProxyConsole.Correlator

/-- The next thing to happen in a session. -/
inductive SessionEvent where
  | allocate
  | dispatch (e : InboundEnvelope)
  | cancel (id : RequestId)
  | cancelAll
  | drop (handle : Nat)
  | wait (handle : Nat)
  | waitTimeout (handle : Nat) (ms : Nat)
  | abort (handle : Nat)
  | look (handle : Nat)
  | pass (moment : Nat)

namespace Session

/-- What an event does. -/
def happen (s : Session) : SessionEvent → Session
  | .allocate => (s.perform (.allocate 1)).2
  | .dispatch e => (s.perform (.dispatch e)).2
  | .cancel id => (s.perform (.cancel id)).2
  | .cancelAll => (s.perform .cancelAll).2
  | .drop handle => (s.perform (.drop handle)).2
  | .wait handle => (s.perform (.wait handle)).2
  | .waitTimeout handle ms => (s.perform (.waitTimeout handle ms)).2
  | .abort handle => (s.perform (.abort handle)).2
  | .look handle => s.settleHandle handle
  | .pass moment => { s with now := max s.now moment }

/-- What a sequence of events does. -/
def run (s : Session) (events : List SessionEvent) : Session :=
  events.foldl happen s

/-- The session after a sequence of events from the start. -/
def after (events : List SessionEvent) : Session :=
  run {} events

theorem after_concat (events : List SessionEvent) (event : SessionEvent) :
    after (events ++ [event]) = (after events).happen event := by
  simp [after, run]

theorem after_append (first rest : List SessionEvent) :
    after (first ++ rest) = (after first).run rest := by
  simp [after, run]

/-- The wait of a handle is over, with the given result. -/
def finishWait (s : Session) (index : Nat) (t : Ticket)
    (result : Except WaitError InboundEnvelope) : Session :=
  { s with
    correlator := s.correlator.conclude t
    handles := s.handles.set index ⟨t, .gone⟩
    finished := s.finished ++ [⟨index, s.now, result⟩] }

/-! ## What one event can do -/

/-- All the ways in which an event can leave a session. -/
inductive Turn (s : Session) : SessionEvent → Session → Prop where
  | idle {event : SessionEvent} (quiet : ∀ e, event ≠ .dispatch e) : Turn s event s
  | registers (t : Ticket) (c : Correlator) (success : s.correlator.allocate = some (t, c)) :
      Turn s .allocate { s with correlator := c, handles := s.handles ++ [⟨t, .held⟩] }
  | dispatches (e : InboundEnvelope) :
      Turn s (.dispatch e) { s with correlator := (s.correlator.dispatch e).2 }
  | cancels (id : RequestId) :
      Turn s (.cancel id) { s with correlator := (s.correlator.cancel id).2 }
  | cancelsAll : Turn s .cancelAll { s with correlator := s.correlator.cancelAll.2 }
  | givesUp {event : SessionEvent} (index : Nat) (t : Ticket) (phase : HandlePhase)
      (found : s.handles[index]? = some ⟨t, phase⟩) (live : phase ≠ .gone)
      (cause : event = .drop index ∨ event = .abort index) : Turn s event (s.giveUp index t)
  | waits {event : SessionEvent} (index : Nat) (t : Ticket) (deadline : Option Nat)
      (limit : Duration) (found : s.handles[index]? = some ⟨t, .held⟩)
      (cause : event = .wait index ∨ ∃ ms, event = .waitTimeout index ms) :
      Turn s event (s.setPhase index t (.waiting deadline limit))
  | finishes (index : Nat) (t : Ticket) (deadline : Option Nat) (limit : Duration)
      (result : Except WaitError InboundEnvelope)
      (found : s.handles[index]? = some ⟨t, .waiting deadline limit⟩)
      (decided : waitResult? s.correlator s.now t deadline limit = some result) :
      Turn s (.look index) (s.finishWait index t result)
  | passes (moment : Nat) : Turn s (.pass moment) { s with now := max s.now moment }

theorem useHandle_cases (s : Session) (index : Nat) (use : Ticket → Session) :
    (∃ t, s.handles[index]? = some ⟨t, .held⟩ ∧ (s.useHandle index use).2 = use t) ∨
      (s.useHandle index use).2 = s := by
  unfold useHandle
  split
  · rename_i t found
    exact Or.inl ⟨t, found, rfl⟩
  · exact Or.inr rfl

theorem settleHandle_waiting {s : Session} {index : Nat} {t : Ticket} {deadline : Option Nat}
    {limit : Duration} (found : s.handles[index]? = some ⟨t, .waiting deadline limit⟩) :
    s.settleHandle index =
      match waitResult? s.correlator s.now t deadline limit with
      | some result => s.finishWait index t result
      | none => s := by
  unfold settleHandle
  rw [found]
  rfl

theorem happen_turn (s : Session) (event : SessionEvent) : Turn s event (s.happen event) := by
  cases event with
  | allocate =>
    simp only [happen, perform, Session.allocate]
    cases success : s.correlator.allocate with
    | none => exact .idle (by simp)
    | some pair =>
      obtain ⟨t, c⟩ := pair
      exact .registers t c success
  | dispatch e => exact .dispatches e
  | cancel id => exact .cancels id
  | cancelAll => exact .cancelsAll
  | drop index =>
    simp only [happen, perform]
    rcases s.useHandle_cases index (s.giveUp index) with ⟨t, found, result⟩ | result
    · rw [result]
      exact .givesUp index t .held found (by simp) (Or.inl rfl)
    · rw [result]
      exact .idle (by simp)
  | wait index =>
    simp only [happen, perform]
    rcases s.useHandle_cases index (fun t => s.setPhase index t (.waiting none ⟨0⟩)) with
      ⟨t, found, result⟩ | result
    · rw [result]
      exact .waits index t none ⟨0⟩ found (Or.inl rfl)
    · rw [result]
      exact .idle (by simp)
  | waitTimeout index ms =>
    simp only [happen, perform]
    rcases s.useHandle_cases index (fun t =>
        s.setPhase index t (.waiting (some (s.now + ms)) (Duration.ofMillis ms))) with
      ⟨t, found, result⟩ | result
    · rw [result]
      exact .waits index t _ _ found (Or.inr ⟨ms, rfl⟩)
    · rw [result]
      exact .idle (by simp)
  | abort index =>
    simp only [happen, perform]
    split
    · rename_i t deadline limit found
      exact .givesUp index t _ found (by simp) (Or.inr rfl)
    · exact .idle (by simp)
  | look index =>
    simp only [happen]
    by_cases waiting : ∃ t deadline limit, s.handles[index]? = some ⟨t, .waiting deadline limit⟩
    · obtain ⟨t, deadline, limit, found⟩ := waiting
      rw [settleHandle_waiting found]
      cases decided : waitResult? s.correlator s.now t deadline limit with
      | none => exact .idle (by simp)
      | some result => exact .finishes index t deadline limit result found decided
    · have same : s.settleHandle index = s := by
        unfold settleHandle
        split
        · rename_i t deadline limit found
          exact absurd ⟨t, deadline, limit, found⟩ waiting
        · rfl
      rw [same]
      exact .idle (by simp)
  | pass moment => exact .passes moment

end Session

end ProxyConsole.Correlator
