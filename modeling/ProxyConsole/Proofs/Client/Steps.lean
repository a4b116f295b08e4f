import ProxyConsole.Proofs.Client.Trials

/-!
# The steps of calls and readiness waits

Each step of something that sends requests ends an attempt, begins one, or does nothing.
What an attempt came to is told by its ending.
-/

set_option autoImplicit false

namespace ProxyConsole

namespace CallPlan

variable {α : Type}

/-- All the ways in which a call goes on. -/
inductive Step (p : CallPlan α) (now : Nat) (c : Correlator) :
    CallPhase → Progress CallPhase (Except CallError α) → Prop where
  | attempts (number : Nat) (a : Attempt) (under : a.ending? now c = none) :
      Step p now c (.attempting number a) .stay
  | ends (number : Nat) (a : Attempt) (ending : Ending) (ended : a.ending? now c = some ending)
      (last : ¬ Retryable (p.outcome ending) ∨ p.attempts ≤ number) :
      Step p now c (.attempting number a) (.finish (p.outcome ending) (a.close c))
  | pauses (number : Nat) (a : Attempt) (ending : Ending) (ended : a.ending? now c = some ending)
      (retryable : Retryable (p.outcome ending)) (left : number < p.attempts) :
      Step p now c (.attempting number a)
        (.move (.pausing number (now + p.backoff)) [] (a.close c))
  | rests (number resume : Nat) (early : now < resume) : Step p now c (.pausing number resume) .stay
  | resumes (number resume : Nat) (due : resume ≤ now) (call : CallPhase) (sends : List Sending)
      (c' : Correlator) (begun : p.beginAttempt (number + 1) now c = (call, sends, c')) :
      Step p now c (.pausing number resume) (.move call sends c')
  | starves : Step p now c .starved .stay

theorem step_cases (p : CallPlan α) (call : CallPhase) (now : Nat) (c : Correlator) :
    p.Step now c call (p.step call now c) := by
  cases call with
  | attempting number a =>
    simp only [CallPlan.step, p.outcome?_eq]
    cases ended : a.ending? now c with
    | none => exact .attempts number a ended
    | some ending =>
      simp only [Option.map_some]
      rcases p.afterAttempt_cases number now (p.outcome ending) (a.close c) with
        ⟨retryable, left, next⟩ | ⟨last, next⟩
      · rw [next]
        exact .pauses number a ending ended retryable left
      · rw [next]
        exact .ends number a ending ended last
  | pausing number resume =>
    simp only [CallPlan.step]
    split
    · rename_i due
      exact .resumes number resume due _ _ _ rfl
    · rename_i early
      exact .rests number resume (Nat.lt_of_not_le early)
  | starved => exact .starves

end CallPlan

namespace Wait

/-- The result of a probe with the given ending. -/
def outcome (w : Wait) (ending : Ending) : Except CallError VersionInfo :=
  (ending.received request.path w.probeTimeout).bind decode

theorem outcome?_eq (w : Wait) (a : Attempt) (now : Nat) (c : Correlator) :
    w.outcome? a now c = (a.ending? now c).map w.outcome := by
  rw [Wait.outcome?, a.outcome?_eq, Option.map_map]
  rfl

/-- A probe is followed by another one: it failed in a way that leaves it open whether the
backend is up, and the next one begins before the time is over. -/
structure Polls (w : Wait) (ended : Nat) (ending : Ending) : Prop where
  failed : ∃ e, w.outcome ending = .error e ∧ keepsPolling e = true
  left : ended + w.interval < w.started + w.maxWait

theorem afterProbe_cases (w : Wait) (now : Nat) (ending : Ending) (c : Correlator) :
    (w.Polls now ending ∧
      w.afterProbe now (w.outcome ending) c = .move (.pausing (now + w.interval)) [] c) ∨
    (¬ w.Polls now ending ∧
      w.afterProbe now (w.outcome ending) c = .finish (w.outcome ending) c) := by
  unfold afterProbe
  cases outcome : w.outcome ending with
  | ok v =>
    refine .inr ⟨?_, rfl⟩
    rintro ⟨⟨e, failed, _⟩, _⟩
    rw [outcome] at failed
    cases failed
  | error e =>
    dsimp only
    cases polls : keepsPolling e with
    | false =>
      refine .inr ⟨?_, rfl⟩
      rintro ⟨⟨e', failed, polls'⟩, _⟩
      rw [outcome] at failed
      cases failed
      rw [polls] at polls'
      cases polls'
    | true =>
      by_cases late : w.started + w.maxWait ≤ now + w.interval
      · rw [if_neg (by simp), if_pos late]
        exact .inr ⟨fun polls => absurd polls.left (Nat.not_lt.mpr late), rfl⟩
      · rw [if_neg (by simp), if_neg late]
        exact .inl ⟨⟨⟨e, outcome, polls⟩, Nat.lt_of_not_le late⟩, rfl⟩

theorem isCalledOff_iff (w : Wait) (now : Nat) :
    w.isCalledOff now = true ↔ ∃ moment, w.calledOff = some moment ∧ moment ≤ now := by
  rw [isCalledOff]
  cases w.calledOff with
  | none => simp
  | some moment => simp

/-- The wait has not been called off by a moment. -/
def Undisturbed (w : Wait) (now : Nat) : Prop :=
  ∀ moment, w.calledOff = some moment → now < moment

/-- A probe may begin: the wait has just begun, or a pause is over.  If a stop is taken
first the pause was not called off. -/
inductive Ready (w : Wait) (stopFirst : Bool) (now : Nat) : WaitPhase → Prop where
  | starting : Ready w stopFirst now .starting
  | rested (resume : Nat) (due : resume ≤ now) (on : stopFirst = true → w.Undisturbed now) :
      Ready w stopFirst now (.pausing resume)

theorem Ready.idle {w : Wait} {stopFirst : Bool} {now : Nat} {phase : WaitPhase}
    (ready : w.Ready stopFirst now phase) : phase.attempt? = none := by
  cases ready <;> rfl

/-- All the ways in which a readiness wait goes on. -/
inductive Step (w : Wait) (stopFirst : Bool) (now : Nat) (c : Correlator) :
    WaitPhase → Progress WaitPhase (Except CallError VersionInfo) → Prop where
  | begins (phase : WaitPhase) (ready : w.Ready stopFirst now phase) (a : Attempt) (c' : Correlator)
      (unsent : a.transmission = none) (deadline : a.deadline = now + w.probeTimeout)
      (allocated : c.allocate = some (a.ticket, c')) :
      Step w stopFirst now c phase
        (.move (.probing a) [⟨a.ticket, request.envelope a.ticket.id⟩] c')
  | starves (phase : WaitPhase) (ready : w.Ready stopFirst now phase) (full : c.allocate = none) :
      Step w stopFirst now c phase (.move .starved [] c)
  | probes (a : Attempt) : Step w stopFirst now c (.probing a) .stay
  | pauses (a : Attempt) (ending : Ending) (ended : a.ending? now c = some ending)
      (polls : w.Polls now ending) :
      Step w stopFirst now c (.probing a) (.move (.pausing (now + w.interval)) [] (a.close c))
  | returns (a : Attempt) (ending : Ending) (ended : a.ending? now c = some ending)
      (final : ¬ w.Polls now ending) :
      Step w stopFirst now c (.probing a) (.finish (w.outcome ending) (a.close c))
  | rests (resume : Nat) (early : now < resume) (on : w.Undisturbed now) :
      Step w stopFirst now c (.pausing resume) .stay
  | calledOff (resume moment : Nat) (off : w.calledOff = some moment) (past : moment ≤ now)
      (first : stopFirst = true ∨ now < resume) :
      Step w stopFirst now c (.pausing resume) (.finish (.error calledOffError) c)
  | starved : Step w stopFirst now c .starved .stay

theorem step_probe (w : Wait) {stopFirst : Bool} {now : Nat} {phase : WaitPhase}
    (ready : w.Ready stopFirst now phase) (c : Correlator) :
    w.Step stopFirst now c phase (w.probe now c) := by
  rw [probe]
  cases begun : Attempt.begin? request w.probeTimeout now c with
  | none => exact .starves phase ready (Attempt.begin?_eq_none begun)
  | some opened =>
    obtain ⟨a, sending, c'⟩ := opened
    obtain ⟨allocated, rfl⟩ := Attempt.begin?_cases begun
    exact .begins phase ready a c' (Attempt.begin?_unsent begun) (Attempt.begin?_deadline begun)
      allocated

theorem undisturbed_of_on {w : Wait} {now : Nat} (on : w.isCalledOff now = false) :
    w.Undisturbed now := by
  intro moment off
  refine Nat.lt_of_not_le fun past => ?_
  rw [(w.isCalledOff_iff now).mpr ⟨moment, off, past⟩] at on
  cases on

theorem step_cases (w : Wait) (stopFirst : Bool) (phase : WaitPhase) (now : Nat) (c : Correlator) :
    w.Step stopFirst now c phase (w.step stopFirst phase now c) := by
  cases phase with
  | starting => exact w.step_probe .starting c
  | probing a =>
    simp only [Wait.step, outcome?_eq]
    cases ended : a.ending? now c with
    | none => exact .probes a
    | some ending =>
      rcases w.afterProbe_cases now ending (a.close c) with ⟨polls, next⟩ | ⟨final, next⟩
      · simp only [Option.map_some, next]
        exact .pauses a ending ended polls
      · simp only [Option.map_some, next]
        exact .returns a ending ended final
  | pausing resume =>
    simp only [Wait.step]
    split
    · rename_i taken
      obtain ⟨off, first⟩ := Bool.and_eq_true_iff.mp taken
      obtain ⟨moment, off, past⟩ := (w.isCalledOff_iff now).mp off
      refine .calledOff resume moment off past ?_
      simpa using first
    · rename_i untaken
      split
      · rename_i due
        refine w.step_probe (.rested resume due fun first => undisturbed_of_on ?_) c
        simpa [first] using untaken
      · rename_i late
        have early := Nat.lt_of_not_le late
        refine .rests resume early (undisturbed_of_on ?_)
        simpa [early] using untaken
  | starved => exact .starved

end Wait

end ProxyConsole
