import ProxyConsole.Client.Batch
import ProxyConsole.Proofs.Correlator.Evolution
import ProxyConsole.Readiness

/-!
# Calls over a shared correlator

Each step of a call, of a wait or of a batch changes the correlator once at most.  An
attempt that begins registers a call and sends its request under the new ticket; a call
that succeeds has received a response under the ticket of its attempt.
-/

set_option autoImplicit false

namespace ProxyConsole

/-- A step leaves the correlator as one change of it. -/
def Progress.Within {σ ρ : Type} (c : Correlator) : Progress σ ρ → Prop
  | .stay => True
  | .move _ _ c' => c.Evolves c'
  | .finish _ c' => c.Evolves c'

theorem Attempt.close_reduces (a : Attempt) (c : Correlator) : c.Reduces (a.close c) := by
  unfold Attempt.close
  split
  · exact c.conclude_reduces a.ticket
  · exact c.release_reduces a.ticket

theorem Attempt.begin?_cases {request : Request} {timeout now : Nat} {c c' : Correlator}
    {a : Attempt} {sending : Sending}
    (begun : Attempt.begin? request timeout now c = some (a, sending, c')) :
    c.allocate = some (a.ticket, c') ∧ sending = ⟨a.ticket, request.envelope a.ticket.id⟩ := by
  unfold Attempt.begin? at begun
  split at begun
  · cases begun
  · rename_i t _ success
    cases begun
    exact ⟨success, rfl⟩

theorem Attempt.outcome?_ok {a : Attempt} {path : String} {timeout now : Nat} {c : Correlator}
    {body : String} (decided : a.outcome? path timeout now c = some (.ok body)) :
    ∃ e, (a.ticket, e) ∈ c.delivered ∧ e.classify = .ok body := by
  unfold Attempt.outcome? at decided
  dsimp only at decided
  split at decided
  · split at decided <;> cases decided
  · cases decided
  · split at decided
    · rename_i e status
      exact ⟨e, Correlator.status_delivered status, Option.some.inj decided⟩
    · cases decided
    · split at decided <;> cases decided

/-! ## Calls -/

namespace CallPlan

variable {α : Type}

/-- The attempt under way has received the response that the value is decoded from. -/
def Obtains (p : CallPlan α) (call : CallPhase) (c : Correlator) (value : α) : Prop :=
  ∃ a e body, call.attempt? = some a ∧ (a.ticket, e) ∈ c.delivered ∧ e.classify = .ok body ∧
    p.decode body = .ok value

/-- If an attempt is under way, it has just registered a call, and its request is what starts to be
sent. -/
def Sends (p : CallPlan α) (call : CallPhase) (sends : List Sending) (c : Correlator) : Prop :=
  ∀ a, call.attempt? = some a →
    sends = [⟨a.ticket, p.request.envelope a.ticket.id⟩] ∧ a.ticket.serial = c.registered

theorem beginAttempt_cases (p : CallPlan α) (number now : Nat) {c c' : Correlator}
    {call : CallPhase} {sends : List Sending}
    (begun : p.beginAttempt number now c = (call, sends, c')) :
    c.Evolves c' ∧ p.Sends call sends c := by
  unfold beginAttempt at begun
  split at begun
  · cases begun
    refine ⟨.refl c, ?_⟩
    intro a attempting
    cases attempting
  · rename_i a sending c'' success
    cases begun
    obtain ⟨allocated, rfl⟩ := Attempt.begin?_cases success
    refine ⟨.allocates allocated, ?_⟩
    intro a' attempting
    cases attempting
    exact ⟨rfl, (Correlator.allocate_cases allocated).1⟩

theorem afterAttempt_within (p : CallPlan α) (number now : Nat) (result : Except CallError α)
    {c c' : Correlator} (evolves : c.Evolves c') :
    (p.afterAttempt number now result c').Within c := by
  unfold afterAttempt
  split
  · exact evolves
  · split <;> exact evolves

theorem step_within (p : CallPlan α) (call : CallPhase) (now : Nat) (c : Correlator) :
    (p.step call now c).Within c := by
  unfold CallPlan.step
  split
  · rename_i number a
    split
    · trivial
    · exact p.afterAttempt_within number now _ (.reduces (a.close_reduces c))
  · split
    · exact (p.beginAttempt_cases _ now rfl).1
    · trivial
  · trivial

theorem step_sends {p : CallPlan α} {call call' : CallPhase} {now : Nat} {c c' : Correlator}
    {sends : List Sending} (step : p.step call now c = .move call' sends c') :
    p.Sends call' sends c := by
  unfold CallPlan.step at step
  split at step
  · split at step
    · cases step
    · unfold afterAttempt at step
      split at step
      · cases step
      · split at step
        · cases step
          intro a attempting
          cases attempting
        · cases step
  · split at step
    · cases step
      exact (p.beginAttempt_cases _ now rfl).2
    · cases step
  · cases step

theorem step_obtains {p : CallPlan α} {call : CallPhase} {now : Nat} {c c' : Correlator}
    {value : α} (step : p.step call now c = .finish (.ok value) c') : p.Obtains call c value := by
  unfold CallPlan.step at step
  split at step
  · rename_i number a
    split at step
    · cases step
    · rename_i result decided
      unfold afterAttempt at step
      split at step
      · cases step
        obtain ⟨received, raw, decoded⟩ := Option.map_eq_some_iff.mp decided
        cases received with
        | error e => cases decoded
        | ok body =>
          obtain ⟨e, delivered, classified⟩ := Attempt.outcome?_ok raw
          exact ⟨a, e, body, rfl, delivered, classified, decoded⟩
      · split at step <;> cases step
  · split at step <;> cases step
  · cases step

end CallPlan

/-! ## Waits -/

namespace Wait

theorem probe_within (w : Wait) (now : Nat) (c : Correlator) : (w.probe now c).Within c := by
  unfold probe
  split
  · exact .refl c
  · rename_i success
    exact .allocates (Attempt.begin?_cases success).1

theorem afterProbe_within (w : Wait) (now : Nat) (result : Except CallError VersionInfo)
    {c c' : Correlator} (evolves : c.Evolves c') : (w.afterProbe now result c').Within c := by
  unfold afterProbe
  split
  · exact evolves
  · split
    · exact evolves
    · split <;> exact evolves

theorem step_within (w : Wait) (stopFirst : Bool) (phase : WaitPhase) (now : Nat) (c : Correlator) :
    (w.step stopFirst phase now c).Within c := by
  unfold Wait.step
  split
  · exact w.probe_within now c
  · rename_i a
    split
    · trivial
    · exact w.afterProbe_within now _ (.reduces (a.close_reduces c))
  · split
    · exact .refl c
    · split
      · exact w.probe_within now c
      · trivial
  · trivial

end Wait

/-! ## Batches -/

theorem TestPhase.step_evolves {s : Settings} {b : Batch} {node : String} {now : Nat}
    {c c' : Correlator} {phase phase' : TestPhase} {sends : List Sending}
    (step : phase.step s b node now c = some (phase', sends, c')) : c.Evolves c' := by
  unfold TestPhase.step at step
  split at step
  · split at step
    · cases step
      exact .refl c
    · cases step
      exact (CallPlan.beginAttempt_cases _ 1 now rfl).1
  · rename_i plan call
    have within := plan.step_within call now c
    split at step
    · cases step
    · rename_i progress
      rw [progress] at within
      cases step
      exact within
    · rename_i progress
      rw [progress] at within
      cases step
      exact within
  · cases step

namespace Batch

theorem stepTests_cases (s : Settings) (b : Batch) (now : Nat) (c : Correlator)
    (tests : List (String × TestPhase)) :
    (stepTests s b now c tests = none ∧ ∀ t ∈ tests, t.2.step s b t.1 now c = none) ∨
      ∃ j node phase phase' sends c', tests[j]? = some (node, phase) ∧
        phase.step s b node now c = some (phase', sends, c') ∧
        stepTests s b now c tests = some (tests.set j (node, phase'), sends, c') := by
  induction tests with
  | nil => exact .inl ⟨rfl, by simp⟩
  | cons test rest ih =>
    obtain ⟨node, phase⟩ := test
    simp only [stepTests]
    cases moved : phase.step s b node now c with
    | some next =>
      obtain ⟨phase', sends, c'⟩ := next
      exact .inr ⟨0, node, phase, phase', sends, c', rfl, moved, rfl⟩
    | none =>
      rcases ih with ⟨idle, all⟩ | ⟨j, node', phase₀, phase', sends, c', found, moved', next⟩
      · rw [idle]
        exact .inl ⟨rfl, List.forall_mem_cons.mpr ⟨moved, all⟩⟩
      · rw [next]
        exact .inr ⟨j + 1, node', phase₀, phase', sends, c', found, moved', rfl⟩

/-- All the ways in which a batch goes on. -/
inductive Goes (s : Settings) (b : Batch) (now : Nat) (c : Correlator) :
    Progress Batch (List (String × Except CallError DelayResult)) → Prop where
  | takesIn (node : String) (waiting : List String) (next : b.waiting = node :: waiting)
      (room : b.tests.length < b.width) :
      Goes s b now c (.move { b with waiting, tests := b.tests ++ [(node, .starting)] } [] c)
  | givesOut (node : String) (result : Except CallError DelayResult)
      (tests : List (String × TestPhase)) (full : b.waiting = [] ∨ b.width ≤ b.tests.length)
      (first : b.tests = (node, .over result) :: tests) :
      Goes s b now c (.move { b with tests, results := b.results ++ [(node, result)] } [] c)
  | tests (j : Nat) (node : String) (phase phase' : TestPhase) (sends : List Sending)
      (c' : Correlator) (found : b.tests[j]? = some (node, phase))
      (step : phase.step s b node now c = some (phase', sends, c')) :
      Goes s b now c (.move { b with tests := b.tests.set j (node, phase') } sends c')
  | stays (full : b.waiting = [] ∨ b.width ≤ b.tests.length) (nonempty : b.tests ≠ [])
      (undecided : ∀ node result tests, b.tests ≠ (node, .over result) :: tests)
      (idle : ∀ t ∈ b.tests, t.2.step s b t.1 now c = none) : Goes s b now c .stay
  | ends (full : b.waiting = [] ∨ b.width ≤ b.tests.length) (empty : b.tests = []) :
      Goes s b now c (.finish b.results c)

theorem stepOpen_goes (s : Settings) (b : Batch) (now : Nat) (c : Correlator)
    (full : b.waiting = [] ∨ b.width ≤ b.tests.length) : b.Goes s now c (b.stepOpen s now c) := by
  unfold stepOpen
  split
  · rename_i empty
    exact .ends full empty
  · rename_i node result tests first
    exact .givesOut node result tests full first
  · rename_i nonempty undecided
    rcases stepTests_cases s b now c b.tests with
      ⟨idle, all⟩ | ⟨j, node, phase, phase', sends, c', found, step, next⟩
    · rw [idle]
      exact .stays full nonempty undecided all
    · rw [next]
      exact .tests j node phase phase' sends c' found step

theorem step_goes (s : Settings) (b : Batch) (now : Nat) (c : Correlator) :
    b.Goes s now c (b.step s now c) := by
  unfold Batch.step
  split
  · rename_i node waiting next
    split
    · rename_i room
      exact .takesIn node waiting next room
    · rename_i full
      exact b.stepOpen_goes s now c (.inr (Nat.le_of_not_lt full))
  · rename_i none
    exact b.stepOpen_goes s now c (.inl none)

theorem step_within (s : Settings) (b : Batch) (now : Nat) (c : Correlator) :
    (b.step s now c).Within c := by
  have goes := b.step_goes s now c
  generalize b.step s now c = progress at goes ⊢
  cases goes with
  | tests _ _ _ _ _ _ _ step => exact TestPhase.step_evolves step
  | stays => trivial
  | _ => exact .refl c

end Batch

end ProxyConsole
