import ProxyConsole.Proofs.Client.Places

/-!
# One delay test of a batch

A test that is refused is over without an attempt.  Each other one is a call, and what
it comes to depends on the endings of its own attempts alone.
-/

set_option autoImplicit false

namespace ProxyConsole

/-! ## What a call comes to -/

namespace CallPlan

variable {α β : Type}

/-- A call returns what the last of its attempts came to: the first that another attempt
would not help, or the last that the budget allows. -/
inductive Answers (p : CallPlan α) : List Ending → Except CallError α → Prop where
  | last (earlier : List Ending) (last : Ending)
      (retried : ∀ ending ∈ earlier, Retryable (p.outcome ending))
      (within : earlier.length < p.attempts)
      (final : ¬ Retryable (p.outcome last) ∨ p.attempts ≤ earlier.length + 1) :
      Answers p (earlier ++ [last]) (p.outcome last)

/-- A call whose last attempt decides does not make the attempts that another one makes, if
both come to the same as far as both go. -/
theorem not_longer {p : CallPlan α} {earlier longer : List Ending} {last : Ending}
    (final : ¬ Retryable (p.outcome last) ∨ p.attempts ≤ earlier.length + 1)
    (retried : ∀ ending ∈ longer, Retryable (p.outcome ending))
    (within : longer.length < p.attempts)
    (alike : ∀ ending, longer[earlier.length]? = some ending → p.outcome last = p.outcome ending) :
    longer.length ≤ earlier.length := by
  refine Nat.le_of_not_lt fun more => ?_
  have found := List.getElem?_eq_getElem more
  rcases final with useless | exhausted
  · refine useless ?_
    rw [alike _ found]
    exact retried _ (List.getElem_mem more)
  · omega

/-- What a call returns and after how many attempts is determined by what they came to. -/
theorem Answers.agree {p : CallPlan α} {endings endings' : List Ending} {r r' : Except CallError α}
    (answers : p.Answers endings r) (answers' : p.Answers endings' r')
    (alike : ∀ (i : Nat) (x y : Ending), endings[i]? = some x → endings'[i]? = some y →
      p.outcome x = p.outcome y) : endings.length = endings'.length ∧ r = r' := by
  cases answers with
  | last earlier last retried within final =>
    cases answers' with
    | last earlier' last' retried' within' final' =>
      have short : earlier'.length ≤ earlier.length :=
        not_longer final retried' within' fun ending found =>
          alike _ _ _ List.getElem?_concat_length (Positions.getElem?_concat_of_some _ found)
      have short' : earlier.length ≤ earlier'.length :=
        not_longer final' retried within fun ending found =>
          (alike _ _ _ (Positions.getElem?_concat_of_some _ found) List.getElem?_concat_length).symm
      have same := Nat.le_antisymm short' short
      refine ⟨by simp [same], ?_⟩
      refine alike earlier.length _ _ List.getElem?_concat_length ?_
      rw [same]
      exact List.getElem?_concat_length

theorem retryable_map {f : α → β} {result : Except CallError α} :
    Retryable (result.map f) ↔ Retryable result := by
  cases result <;> simp [Retryable, Except.map]

section Map

variable {p : CallPlan α} {p' : CallPlan β} {f : α → β} {endings : List Ending}

theorem Answers.map {r : Except CallError α}
    (outcome : ∀ ending, p'.outcome ending = (p.outcome ending).map f)
    (attempts : p'.attempts = p.attempts) (answers : p.Answers endings r) :
    p'.Answers endings (r.map f) := by
  have same : ∀ ending, Retryable (p'.outcome ending) ↔ Retryable (p.outcome ending) := by
    intro ending
    rw [outcome, retryable_map]
  cases answers with
  | last earlier last retried within final =>
    rw [← outcome]
    refine .last earlier last (fun ending member => (same ending).mpr (retried ending member))
      (attempts ▸ within) ?_
    rwa [same, attempts]

theorem Answers.of_map {r : Except CallError β}
    (outcome : ∀ ending, p'.outcome ending = (p.outcome ending).map f)
    (attempts : p'.attempts = p.attempts) (answers : p'.Answers endings r) :
    ∃ r₀, p.Answers endings r₀ ∧ r = r₀.map f := by
  have same : ∀ ending, Retryable (p'.outcome ending) ↔ Retryable (p.outcome ending) := by
    intro ending
    rw [outcome, retryable_map]
  cases answers with
  | last earlier last retried within final =>
    refine ⟨p.outcome last, .last earlier last (fun ending member => (same ending).mp
      (retried ending member)) (attempts ▸ within) ?_, outcome last⟩
    rwa [same, attempts] at final

end Map

/-- The time for all attempts of a call and the pauses between them. -/
def span (p : CallPlan α) : Nat :=
  p.attempts * p.timeout + (p.attempts - 1) * p.backoff

theorem reach_le_span (p : CallPlan α) {n : Nat} (within : n < p.attempts) :
    n * (p.timeout + p.backoff) + p.timeout ≤ p.span := by
  obtain ⟨m, total⟩ := Nat.exists_eq_succ_of_ne_zero (Nat.ne_of_gt (Nat.zero_lt_of_lt within))
  have fewer : n * (p.timeout + p.backoff) ≤ m * (p.timeout + p.backoff) :=
    Nat.mul_le_mul_right _ (by omega)
  rw [Nat.mul_add m] at fewer
  rw [span, total, Nat.succ_mul, Nat.succ_sub_one]
  omega

/-! ## How a call goes on -/

/-- How a call under way stands to the chronicle of its attempts. -/
inductive Stands (p : CallPlan α) : CallPhase → Chronicle → Prop where
  | attempting (past : List Passage) (a : Attempt) (course : Course)
      (retried : ∀ x ∈ past, Retryable (p.outcome x.ending)) (within : past.length < p.attempts) :
      Stands p (.attempting (past.length + 1) a) ⟨past, some course⟩
  | pausing (past : List Passage) (last : Passage)
      (retried : ∀ x ∈ past ++ [last], Retryable (p.outcome x.ending))
      (within : past.length + 1 < p.attempts) :
      Stands p (.pausing (past.length + 1) (last.ended + p.backoff)) ⟨past ++ [last], none⟩
  | starved (past : List Passage) : Stands p .starved ⟨past, none⟩

end CallPlan

/-! ## How a test goes on -/

namespace TestPhase

/-- An attempt of a test may begin, the number of those before it being given: the test has
just begun, or a pause is over. -/
inductive Ready (s : Settings) (node url : String) (timeout now : Nat) :
    TestPhase → CallPlan DelayResult → Nat → Prop where
  | starting (request : Request)
      (accepted : Operation.delayRequest node url timeout = .ok request) :
      Ready s node url timeout now .starting (Operation.delayPlan s request) 0
  | rested (plan : CallPlan DelayResult) (number resume : Nat) (due : resume ≤ now) :
      Ready s node url timeout now (.calling plan (.pausing number resume)) plan number

/-- All the ways in which a test goes on, told in full. -/
inductive Goes (s : Settings) (node url : String) (timeout now : Nat) (c : Correlator) :
    TestPhase → TestPhase → List Sending → Correlator → Prop where
  | refused (e : CallError) (invalid : Operation.delayRequest node url timeout = .error e) :
      Goes s node url timeout now c .starting (.over (.error e)) [] c
  | begins (phase : TestPhase) (plan : CallPlan DelayResult) (number : Nat)
      (ready : Ready s node url timeout now phase plan number) (a : Attempt) (c' : Correlator)
      (unsent : a.transmission = none) (deadline : a.deadline = now + plan.timeout)
      (allocated : c.allocate = some (a.ticket, c')) :
      Goes s node url timeout now c phase (.calling plan (.attempting (number + 1) a))
        [plan.request.sending a.ticket] c'
  | starves (phase : TestPhase) (plan : CallPlan DelayResult) (number : Nat)
      (ready : Ready s node url timeout now phase plan number) (full : c.allocate = none) :
      Goes s node url timeout now c phase (.calling plan .starved) [] c
  | pauses (plan : CallPlan DelayResult) (number : Nat) (a : Attempt) (ending : Ending)
      (ended : a.ending? now c = some ending) (retryable : Retryable (plan.outcome ending))
      (left : number < plan.attempts) :
      Goes s node url timeout now c (.calling plan (.attempting number a))
        (.calling plan (.pausing number (now + plan.backoff))) [] (a.close c)
  | ends (plan : CallPlan DelayResult) (number : Nat) (a : Attempt) (ending : Ending)
      (ended : a.ending? now c = some ending)
      (last : ¬ Retryable (plan.outcome ending) ∨ plan.attempts ≤ number) :
      Goes s node url timeout now c (.calling plan (.attempting number a))
        (.over (plan.outcome ending)) [] (a.close c)

variable {s : Settings} {node url : String} {timeout now : Nat} {c c' : Correlator}
  {phase phase' : TestPhase} {plan : CallPlan DelayResult} {number : Nat} {sends : List Sending}

theorem goes_begin (ready : Ready s node url timeout now phase plan number) {call : CallPhase}
    (begun : plan.beginAttempt (number + 1) now c = (call, sends, c')) :
    Goes s node url timeout now c phase (.calling plan call) sends c' := by
  unfold CallPlan.beginAttempt at begun
  split at begun
  · rename_i failed
    cases begun
    exact .starves phase plan number ready (Attempt.begin?_eq_none failed)
  · rename_i a sending c₁ success
    cases begun
    obtain ⟨allocated, rfl⟩ := Attempt.begin?_cases success
    exact .begins phase plan number ready a c' (Attempt.begin?_unsent success)
      (Attempt.begin?_deadline success) allocated

theorem step_goes {b : Batch} (step : phase.step s b node now c = some (phase', sends, c')) :
    Goes s node b.url b.timeout now c phase phase' sends c' := by
  cases phase with
  | starting =>
    simp only [TestPhase.step] at step
    cases request : Operation.delayRequest node b.url b.timeout with
    | error e =>
      rw [request] at step
      cases step
      exact .refused e request
    | ok request₀ =>
      rw [request] at step
      cases step
      exact goes_begin (.starting request₀ request) rfl
  | calling plan call =>
    have steps := plan.step_cases call now c
    simp only [TestPhase.step] at step
    generalize plan.step call now c = progress at steps step
    cases steps with
    | ends number a ending ended last =>
      cases step
      exact .ends plan number a ending ended last
    | pauses number a ending ended retryable left =>
      cases step
      exact .pauses plan number a ending ended retryable left
    | resumes number resume due call sends c' begun =>
      cases step
      exact goes_begin (.rested plan number resume due) begun
    | _ => cases step
  | _ => cases step

theorem step_starting_ne_none {b : Batch} : TestPhase.starting.step s b node now c ≠ none := by
  simp only [TestPhase.step]
  split <;> simp

theorem Goes.not_starting (goes : Goes s node url timeout now c phase phase' sends c') :
    phase' ≠ .starting := by
  cases goes <;> simp

theorem ready_idle (ready : Ready s node url timeout now phase plan number) :
    phase.attempt? = none := by
  cases ready <;> rfl

theorem attempt?_mapAttempt (phase : TestPhase) (f : Attempt → Attempt) :
    (phase.mapAttempt f).attempt? = phase.attempt?.map f := by
  cases phase with
  | calling plan call => cases call <;> rfl
  | _ => rfl

theorem mapAttempt_id (phase : TestPhase) : phase.mapAttempt id = phase := by
  cases phase with
  | calling plan call => cases call <;> rfl
  | _ => rfl

theorem bind_attempt?_map (phase? : Option TestPhase) (f : Attempt → Attempt) :
    (phase?.map (mapAttempt f)).bind attempt? = (phase?.bind attempt?).map f := by
  cases phase? with
  | none => rfl
  | some phase => exact phase.attempt?_mapAttempt f

theorem due_transmitted (phase : TestPhase) (t : Ticket) (result : Except TransportError Unit) :
    (phase.mapAttempt (Attempt.transmitted t result)).due = phase.due := by
  cases phase with
  | calling plan call =>
    cases call with
    | attempting number a => exact congrArg some (a.transmitted_deadline t result)
    | _ => rfl
  | _ => rfl

theorem Goes.due_le {moment : Nat} (goes : Goes s node url timeout now c phase phase' sends c')
    (due : phase'.due = some moment) : now ≤ moment := by
  cases goes with
  | begins _ plan number ready a c' unsent deadline allocated =>
    cases due
    rw [deadline]
    exact Nat.le_add_right _ _
  | pauses plan number a ending ended retryable left =>
    cases due
    exact Nat.le_add_right _ _
  | _ => cases due

theorem due_of_attempt {a : Attempt} (stands : phase.attempt? = some a) :
    phase.due = some a.deadline := by
  cases phase with
  | calling plan call =>
    cases call with
    | attempting number a' =>
      cases stands
      rfl
    | _ => cases stands
  | _ => cases stands

end TestPhase

/-! ## A test and the chronicle of its attempts -/

/-- How a test of a node stands to the chronicle of its attempts. -/
inductive TestPhase.Stands (s : Settings) (node url : String) (timeout : Nat) :
    TestPhase → Chronicle → Prop where
  | starting : Stands s node url timeout .starting {}
  | refused (e : CallError) (invalid : Operation.delayRequest node url timeout = .error e) :
      Stands s node url timeout (.over (.error e)) {}
  | calling (request : Request) (accepted : Operation.delayRequest node url timeout = .ok request)
      (call : CallPhase) (k : Chronicle)
      (stands : (Operation.delayPlan s request).Stands call k) :
      Stands s node url timeout (.calling (Operation.delayPlan s request) call) k
  | returned (request : Request) (accepted : Operation.delayRequest node url timeout = .ok request)
      (past : List Passage) (last : Passage)
      (retried : ∀ x ∈ past, Retryable ((Operation.delayPlan s request).outcome x.ending))
      (within : past.length < (Operation.delayPlan s request).attempts)
      (final : ¬ Retryable ((Operation.delayPlan s request).outcome last.ending) ∨
        (Operation.delayPlan s request).attempts ≤ past.length + 1) :
      Stands s node url timeout (.over ((Operation.delayPlan s request).outcome last.ending))
        ⟨past ++ [last], none⟩

/-- What the test of a node returns, and what it did before: a refusal comes without an
attempt, anything else is what the endings of its attempts come to. -/
inductive TestReturns (s : Settings) (node url : String) (timeout : Nat) :
    List Ending → Except CallError DelayResult → Prop where
  | refused (e : CallError) (invalid : Operation.delayRequest node url timeout = .error e) :
      TestReturns s node url timeout [] (.error e)
  | answers (request : Request) (accepted : Operation.delayRequest node url timeout = .ok request)
      (endings : List Ending) (r : Except CallError DelayResult)
      (answers : (Operation.delayPlan s request).Answers endings r) :
      TestReturns s node url timeout endings r

/-- What was sent by the attempts of the test of a node. -/
def Chronicle.testSends (node url : String) (timeout : Nat) (k : Chronicle) : List Sending :=
  match Operation.delayRequest node url timeout with
  | .ok request => k.sends request
  | .error _ => []

theorem Chronicle.testSends_congr {node url : String} {timeout : Nat} {k k' : Chronicle}
    (same : k'.log = k.log) : k'.testSends node url timeout = k.testSends node url timeout := by
  simp only [testSends, sends, same]

def Chronicle.endings (k : Chronicle) : List Ending :=
  k.past.map Passage.ending

namespace TestPhase

variable {s : Settings} {node url : String} {timeout : Nat} {cl : Client} {index : Nat}
  {c' : Correlator} {phase phase' : TestPhase} {plan : CallPlan DelayResult} {number : Nat}
  {sends : List Sending} {k : Chronicle}

theorem Stands.returns {result : Except CallError DelayResult}
    (stands : Stands s node url timeout (.over result) k) :
    TestReturns s node url timeout k.endings result := by
  cases stands with
  | refused e invalid => exact .refused e invalid
  | returned request accepted past last retried within final =>
    refine .answers request accepted _ _ ?_
    rw [Chronicle.endings, List.map_append]
    refine .last (past.map Passage.ending) last.ending ?_ ?_ ?_
    · simpa using retried
    · simpa using within
    · simpa using final

theorem Stands.noted (stands : Stands s node url timeout phase k) (cl : Client) (index : Nat)
    (h : Happening) (f : Attempt → Attempt) :
    Stands s node url timeout (phase.mapAttempt f)
      (k.turn cl index h phase.attempt? (phase.attempt?.map f)) := by
  cases stands with
  | starting => exact .starting
  | refused e invalid => exact .refused e invalid
  | calling request accepted call k stands =>
    refine .calling request accepted _ _ ?_
    cases stands with
    | attempting past a course retried within => exact .attempting past (f a) _ retried within
    | pausing past last retried within => exact .pausing past last retried within
    | starved past => exact .starved past
  | returned request accepted past last retried within final =>
    exact .returned request accepted past last retried within final

theorem Stands.ready (stands : Stands s node url timeout phase k)
    (ready : Ready s node url timeout cl.now phase plan number) :
    ∃ request past, Operation.delayRequest node url timeout = .ok request ∧
      plan = Operation.delayPlan s request ∧ k = ⟨past, none⟩ ∧ number = past.length ∧
      past.length < plan.attempts ∧ ∀ x ∈ past, Retryable (plan.outcome x.ending) := by
  cases ready with
  | starting request accepted =>
    cases stands with
    | starting =>
      exact ⟨request, [], accepted, rfl, rfl, rfl, Nat.lt_of_lt_of_le Nat.one_pos
        (Nat.le_max_right _ _), by simp⟩
  | rested plan number resume due =>
    cases stands with
    | calling request accepted call k stands =>
      cases stands with
      | pausing past last retried within =>
        exact ⟨request, past ++ [last], accepted, rfl, rfl, by simp, by simpa using within, retried⟩

/-- An attempt under way is the last of the chronicle, and each one before it was worth another. -/
theorem Stands.attempting {a : Attempt}
    (stands : Stands s node url timeout (.calling plan (.attempting number a)) k) :
    ∃ request past course, Operation.delayRequest node url timeout = .ok request ∧
      plan = Operation.delayPlan s request ∧ k = ⟨past, some course⟩ ∧ number = past.length + 1 ∧
      past.length < plan.attempts ∧ ∀ x ∈ past, Retryable (plan.outcome x.ending) := by
  cases stands with
  | calling request accepted call k stands =>
    cases stands with
    | attempting past a course retried within =>
      exact ⟨request, past, course, accepted, rfl, rfl, rfl, within, retried⟩

theorem Goes.stands
    (goes : Goes s node url timeout cl.now cl.correlator phase phase' sends c')
    (stands : Stands s node url timeout phase k) :
    Stands s node url timeout phase'
      (k.turn cl index (.event (.advance index)) phase.attempt? phase'.attempt?) := by
  cases goes with
  | refused e invalid =>
    cases stands with
    | starting => exact .refused e invalid
  | begins phase plan number ready a c' unsent deadline allocated =>
    obtain ⟨request, past, accepted, rfl, rfl, rfl, within, retried⟩ := stands.ready ready
    rw [ready_idle ready]
    exact .calling request accepted _ _ (.attempting past a _ retried within)
  | starves phase plan number ready full =>
    obtain ⟨request, past, accepted, rfl, rfl, rfl, within, retried⟩ := stands.ready ready
    rw [ready_idle ready]
    exact .calling request accepted _ _ (.starved past)
  | pauses plan number a ending ended retryable left =>
    obtain ⟨request, past, course, accepted, rfl, rfl, rfl, within, retried⟩ := stands.attempting
    change Stands _ _ _ _ _ (Chronicle.turn _ _ _ _ (some a) none)
    rw [Chronicle.turn_ends rfl ended]
    refine .calling request accepted _ _ (.pausing past ⟨course, cl.now, ending⟩ ?_ left)
    intro x member
    rcases List.mem_append.mp member with earlier | last
    · exact retried x earlier
    · rw [List.mem_singleton.mp last]
      exact retryable
  | ends plan number a ending ended last =>
    obtain ⟨request, past, course, accepted, rfl, rfl, rfl, within, retried⟩ := stands.attempting
    change Stands _ _ _ _ _ (Chronicle.turn _ _ _ _ (some a) none)
    rw [Chronicle.turn_ends rfl ended]
    exact .returned request accepted past ⟨course, cl.now, ending⟩ retried within last

theorem Stands.testSends_ends {a : Attempt} {ending : Ending}
    (stands : Stands s node url timeout (.calling plan (.attempting number a)) k)
    (ended : a.ending? cl.now cl.correlator = some ending) :
    (k.turn cl index (.event (.advance index)) (some a) none).testSends node url timeout =
      k.testSends node url timeout := by
  obtain ⟨request, past, course, accepted, rfl, rfl, rfl, within, retried⟩ := stands.attempting
  rw [Chronicle.turn_ends rfl ended]
  simp only [Chronicle.testSends, accepted, Chronicle.sends_end]

theorem Goes.testSends
    (goes : Goes s node url timeout cl.now cl.correlator phase phase' sends c')
    (stands : Stands s node url timeout phase k) :
    (k.turn cl index (.event (.advance index)) phase.attempt? phase'.attempt?).testSends node url
      timeout = k.testSends node url timeout ++ sends := by
  cases goes with
  | refused e invalid =>
    change (Chronicle.turn _ _ _ _ none none).testSends _ _ _ = _
    rw [Chronicle.turn_rests, List.append_nil]
  | begins phase plan number ready a c' unsent deadline allocated =>
    obtain ⟨request, past, accepted, rfl, rfl, rfl, within, retried⟩ := stands.ready ready
    rw [ready_idle ready]
    simp only [Chronicle.testSends, accepted]
    exact Chronicle.sends_begin request past _
  | starves phase plan number ready full =>
    obtain ⟨request, past, accepted, rfl, rfl, rfl, within, retried⟩ := stands.ready ready
    rw [ready_idle ready]
    change (Chronicle.turn _ _ _ _ none none).testSends _ _ _ = _
    rw [Chronicle.turn_rests, List.append_nil]
  | pauses plan number a ending ended retryable left =>
    rw [List.append_nil]
    exact stands.testSends_ends ended
  | ends plan number a ending ended last =>
    rw [List.append_nil]
    exact stands.testSends_ends ended

theorem Stands.eq_empty_of_starting (stands : Stands s node url timeout .starting k) : k = {} := by
  cases stands
  rfl

theorem Stands.eq_empty {e : CallError} (stands : Stands s node url timeout phase k)
    (invalid : Operation.delayRequest node url timeout = .error e) : k = {} := by
  have never : ∀ request, Operation.delayRequest node url timeout ≠ .ok request := by
    intro request accepted
    rw [accepted] at invalid
    cases invalid
  cases stands with
  | starting => rfl
  | refused => rfl
  | calling request accepted => exact absurd accepted (never request)
  | returned request accepted => exact absurd accepted (never request)

theorem Goes.placeTurn {request : Request}
    (goes : Goes s node url timeout cl.now cl.correlator phase phase' sends c')
    (stands : Stands s node url timeout phase k)
    (accepted : Operation.delayRequest node url timeout = .ok request)
    (left : (cl.meet (.event (.advance index))).correlator = c')
    (more : (cl.meet (.event (.advance index))).sends = cl.sends ++ sends) :
    Client.PlaceTurn request (s.timeouts.of .long) cl index (.event (.advance index)) phase.attempt?
      phase'.attempt? := by
  cases goes with
  | refused e invalid => exact .rests
  | begins phase plan number ready a c' unsent deadline allocated =>
    obtain ⟨request', past, accepted', rfl, -⟩ := stands.ready ready
    rw [accepted] at accepted'
    cases accepted'
    rw [ready_idle ready]
    exact .begins a rfl unsent deadline (left ▸ allocated) more
  | starves phase plan number ready full =>
    rw [ready_idle ready]
    exact .rests
  | pauses plan number a ending ended retryable => exact .ends a ending rfl ended left
  | ends plan number a ending ended last => exact .ends a ending rfl ended left

end TestPhase

/-- The time that a delay test takes at most, with all its attempts and the pauses between them. -/
def Settings.delaySpan (s : Settings) : Nat :=
  s.retry.attempts * s.timeouts.of .long + (s.retry.attempts - 1) * s.retry.backoff.toNat

namespace Client

/-! ## A test over a run -/

/-- What can happen to a test of a batch, which is given out or given up if nothing stands
for it any more.  A test that begins does so by the moment `base` if it is `timely`. -/
inductive TestTurn (s : Settings) (node url : String) (timeout base : Nat) (timely : Prop)
    (cl : Client) (index : Nat) (h : Happening) : Option TestPhase → Option TestPhase → Prop where
  | keeps (phase? : Option TestPhase) (deaf : ∀ t result, h ≠ .event (.transmitted t result)) :
      TestTurn s node url timeout base timely cl index h phase? phase?
  | hears (phase? : Option TestPhase) (t : Ticket) (result : Except TransportError Unit)
      (heard : h = .event (.transmitted t result)) :
      TestTurn s node url timeout base timely cl index h phase?
        (phase?.map (TestPhase.mapAttempt (Attempt.transmitted t result)))
  | givesUp (phase? : Option TestPhase) (given : h = .event (.abandon index))
      (lapsed : ∀ a, phase?.bind TestPhase.attempt? = some a →
        (cl.meet h).correlator.Lapsed a.ticket) :
      TestTurn s node url timeout base timely cl index h phase? none
  | goes (phase phase' : TestPhase) (sends : List Sending) (c' : Correlator)
      (own : h = .event (.advance index))
      (goes : phase.Goes s node url timeout cl.now cl.correlator phase' sends c')
      (left : (cl.meet h).correlator = c') (more : (cl.meet h).sends = cl.sends ++ sends)
      (early : timely → phase = .starting → cl.now ≤ base) :
      TestTurn s node url timeout base timely cl index h (some phase) (some phase')

/-- What holds of a test of a batch and the chronicle of its attempts, with the phase in
which it is, `sound` and `prompt` being as for each attempt and `free` that there is always
a free id. -/
structure Lane (s : Settings) (node url : String) (timeout base : Nat) (sound prompt free : Prop)
    (cl : Client) (k : Chronicle) (phase? : Option TestPhase) : Prop where
  stands : ∀ phase, phase? = some phase → phase.Stands s node url timeout k
  refused : ∀ e, Operation.delayRequest node url timeout = .error e → k = {}
  tells : ∀ request, Operation.delayRequest node url timeout = .ok request →
    Tells request (s.timeouts.of .long) sound prompt cl k (phase?.bind TestPhase.attempt?)
  spaced : ∀ request, Operation.delayRequest node url timeout = .ok request → prompt →
    ∃ start, k.log.Spaced (Operation.delayPlan s request) start ∧ (free → start ≤ base)
  onTime : prompt → ∀ phase moment, phase? = some phase → phase.due = some moment → cl.now ≤ moment

variable {s : Settings} {node url : String} {timeout base : Nat}
  {sound prompt free sound' prompt' free' : Prop} {cl : Client} {index : Nat} {h : Happening}
  {k : Chronicle} {phase? phase?' : Option TestPhase}

theorem lane_empty (cl : Client) :
    Lane s node url timeout base sound prompt free cl {} (some .starting) where
  stands phase same := by
    cases same
    exact .starting
  refused _ _ := rfl
  tells _ _ := tells_empty cl
  spaced _ _ _ := ⟨0, .empty, fun _ => Nat.zero_le base⟩
  onTime _ phase moment same due := by
    cases same
    cases due

theorem TestTurn.placeTurn {timely : Prop} {request : Request}
    (turn : TestTurn s node url timeout base timely cl index h phase? phase?')
    (stands : ∀ phase, phase? = some phase → phase.Stands s node url timeout k)
    (accepted : Operation.delayRequest node url timeout = .ok request) :
    PlaceTurn request (s.timeouts.of .long) cl index h (phase?.bind TestPhase.attempt?)
      (phase?'.bind TestPhase.attempt?) := by
  cases turn with
  | keeps _ deaf =>
    cases phase?.bind TestPhase.attempt? with
    | none => exact .rests
    | some a => exact .keeps a deaf
  | hears _ t result heard =>
    cases phase? with
    | none => exact .rests
    | some phase =>
      change PlaceTurn _ _ _ _ _ phase.attempt? (phase.mapAttempt _).attempt?
      rw [TestPhase.attempt?_mapAttempt]
      cases phase.attempt? with
      | none => exact .rests
      | some a => exact .hears a t result heard
  | givesUp _ given lapsed =>
    change PlaceTurn _ _ _ _ _ (phase?.bind TestPhase.attempt?) none
    cases stood : phase?.bind TestPhase.attempt? with
    | none => exact .rests
    | some a => exact .givesUp a given (lapsed a stood)
  | goes phase phase' sends c' own goes left more early =>
    subst own
    exact goes.placeTurn (stands phase rfl) accepted left more

theorem spaced_of_ended {plan : CallPlan DelayResult} {number start : Nat} {a : Attempt}
    {ending : Ending} {request : Request}
    (stands : TestPhase.Stands s node url timeout (.calling plan (.attempting number a)) k)
    (ended : a.ending? cl.now cl.correlator = some ending)
    (deadline : ∀ course, k.current = some course →
      a.deadline = course.began + (Operation.delayPlan s request).timeout)
    (onTime : cl.now ≤ a.deadline) (spaced : k.log.Spaced (Operation.delayPlan s request) start) :
    (k.turn cl index (.event (.advance index)) (some a) none).log.Spaced
      (Operation.delayPlan s request) start := by
  obtain ⟨_, past, course, _, _, rfl, _⟩ := stands.attempting
  have brief := deadline course rfl ▸ onTime
  rw [Chronicle.turn_ends rfl ended, Chronicle.log, List.map_append]
  exact spaced.of_finish ending brief

theorem spaced_of_goes {phase phase' : TestPhase} {sends : List Sending} {c' : Correlator}
    {request : Request} {timely : Prop}
    (goes : phase.Goes s node url timeout cl.now cl.correlator phase' sends c')
    (stands : phase.Stands s node url timeout k)
    (accepted : Operation.delayRequest node url timeout = .ok request)
    (deadline : ∀ a course, phase.attempt? = some a → k.current = some course →
      a.deadline = course.began + (Operation.delayPlan s request).timeout)
    (onTime : ∀ moment, phase.due = some moment → cl.now ≤ moment)
    (early : timely → phase = .starting → cl.now ≤ base)
    (spaced : ∃ start, k.log.Spaced (Operation.delayPlan s request) start ∧
    (timely → start ≤ base)) :
    ∃ start, (k.turn cl index (.event (.advance index)) phase.attempt? phase'.attempt?).log.Spaced
      (Operation.delayPlan s request) start ∧ (timely → start ≤ base) := by
  obtain ⟨start, spaced, within⟩ := spaced
  cases goes with
  | refused e invalid =>
    rw [accepted] at invalid
    cases invalid
  | begins phase plan number ready a c' unsent deadline' allocated =>
    rw [TestPhase.ready_idle ready]
    cases ready with
    | starting request' accepted' =>
      cases stands with
      | starting =>
        refine ⟨cl.now, ?_, fun so => early so rfl⟩
        exact CallLog.Spaced.empty.of_begin rfl
    | rested plan number resume due =>
      cases stands with
      | calling request' accepted' call k stands =>
        rw [accepted] at accepted'
        cases accepted'
        cases stands with
        | pausing past last retried inBudget =>
          have next : cl.now = (Operation.delayPlan s request).nextBegin start
              ((past ++ [last]).map Passage.trial) := by
            rw [List.map_append, List.map_singleton, CallPlan.nextBegin_concat]
            exact Nat.le_antisymm (onTime _ rfl) due
          exact ⟨start, CallLog.Spaced.of_begin spaced next, within⟩
  | starves phase plan number ready full =>
    rw [TestPhase.ready_idle ready]
    exact ⟨start, spaced, within⟩
  | pauses plan number a ending ended retryable left =>
    exact ⟨start,
      spaced_of_ended stands ended (fun course => deadline a course rfl) (onTime _ rfl) spaced,
      within⟩
  | ends plan number a ending ended last =>
    exact ⟨start,
      spaced_of_ended stands ended (fun course => deadline a course rfl) (onTime _ rfl) spaced,
      within⟩

theorem TestTurn.stands {timely : Prop}
    (turn : TestTurn s node url timeout base timely cl index h phase? phase?')
    (stands : ∀ phase, phase? = some phase → phase.Stands s node url timeout k) :
    ∀ phase, phase?' = some phase → phase.Stands s node url timeout
      (k.turn cl index h (phase?.bind TestPhase.attempt?) (phase?'.bind TestPhase.attempt?)) := by
  intro phase same
  cases turn with
  | keeps _ deaf =>
    subst same
    have noted := (stands phase rfl).noted cl index h id
    rw [Option.map_id_apply, TestPhase.mapAttempt_id] at noted
    exact noted
  | hears _ t result heard =>
    obtain ⟨phase₀, rfl, rfl⟩ := Option.map_eq_some_iff.mp same
    have noted := (stands phase₀ rfl).noted cl index h (Attempt.transmitted t result)
    rw [← TestPhase.attempt?_mapAttempt] at noted
    exact noted
  | givesUp => cases same
  | goes phase₀ phase' sends c' own goes left more early =>
    cases same
    subst own
    exact goes.stands (stands phase₀ rfl)

theorem TestTurn.onTime {timely : Prop}
    (turn : TestTurn s node url timeout base timely cl index h phase? phase?')
    (onTime : ∀ phase moment, phase? = some phase → phase.due = some moment → cl.now ≤ moment)
    (promptly : ∀ phase moment, phase? = some phase → phase.due = some moment →
      cl.now ≤ moment → (cl.meet h).now ≤ moment) :
    ∀ phase moment, phase?' = some phase → phase.due = some moment → (cl.meet h).now ≤ moment := by
  intro phase moment same due
  cases turn with
  | keeps _ deaf => exact promptly phase moment same due (onTime phase moment same due)
  | hears _ t result heard =>
    obtain ⟨phase₀, rfl, rfl⟩ := Option.map_eq_some_iff.mp same
    rw [TestPhase.due_transmitted] at due
    exact promptly phase₀ moment rfl due (onTime phase₀ moment rfl due)
  | givesUp => cases same
  | goes phase₀ phase' sends c' own goes left more early =>
    cases same
    have now : (cl.meet h).now = cl.now := by
      rw [own, Client.meet, cl.step_now (by simp)]
    rw [now]
    exact goes.due_le due

/-- What is kept of a test whatever happens. -/
theorem Lane.meet (lane : Lane s node url timeout base sound prompt free cl k phase?)
    (turn : TestTurn s node url timeout base (prompt' ∧ free') cl index h phase? phase?')
    (orderly : cl.Orderly)
    (held : ∀ a, phase?.bind TestPhase.attempt? = some a → a.ticket ∈ cl.held)
    (held' : ∀ a, phase?'.bind TestPhase.attempt? = some a → a.ticket ∈ (cl.meet h).held)
    (apart : sound' → sound ∧ cl.TicketsApart)
    (promptly : prompt' → prompt ∧ ∀ phase moment, phase? = some phase → phase.due = some moment →
      cl.now ≤ moment → (cl.meet h).now ≤ moment)
    (freely : free' → free) :
    Lane s node url timeout base sound' prompt' free' (cl.meet h)
      (k.turn cl index h (phase?.bind TestPhase.attempt?) (phase?'.bind TestPhase.attempt?))
      phase?' where
  stands := turn.stands lane.stands
  refused e invalid := by
    obtain rfl := lane.refused e invalid
    cases phase?' with
    | none => exact Chronicle.turn_empty ..
    | some phase' => exact (turn.stands lane.stands phase' rfl).eq_empty invalid
  tells request accepted := by
    refine (lane.tells request accepted).turn (turn.placeTurn lane.stands accepted) orderly held
      held' apart fun so => ⟨(promptly so).1, fun a stood early => ?_⟩
    obtain ⟨phase, same, attempt⟩ := Option.bind_eq_some_iff.mp stood
    exact (promptly so).2 phase a.deadline same (TestPhase.due_of_attempt attempt) early
  spaced request accepted so := by
    obtain ⟨start, spaced, within⟩ := lane.spaced request accepted (promptly so).1
    cases turn with
    | keeps _ deaf =>
      rw [k.turn_same_log]
      exact ⟨start, spaced, fun f => within (freely f)⟩
    | hears _ t result heard =>
      rw [TestPhase.bind_attempt?_map, k.turn_map_log]
      exact ⟨start, spaced, fun f => within (freely f)⟩
    | givesUp _ given lapsed =>
      subst given
      rw [Option.bind_none, k.turn_abandoned]
      exact ⟨start, spaced, fun f => within (freely f)⟩
    | goes phase phase' sends c' own goes left more early =>
      subst own
      refine spaced_of_goes goes (lane.stands phase rfl) accepted (fun a course stood current => ?_)
        (fun moment due => lane.onTime (promptly so).1 phase moment rfl due)
        (fun f starting => early ⟨so, f⟩ starting) ⟨start, spaced, fun f => within (freely f)⟩
      obtain ⟨course', current', guides⟩ := (lane.tells request accepted).present a stood
      rw [current] at current'
      cases current'
      exact guides.deadline
  onTime so := turn.onTime (lane.onTime (promptly so).1) (promptly so).2

theorem Lane.due_le {phase : TestPhase} {moment : Nat}
    (lane : Lane s node url timeout base sound prompt free cl k (some phase)) (prompted : prompt)
    (freed : free) (due : phase.due = some moment) : moment ≤ base + s.delaySpan := by
  have stands := lane.stands phase rfl
  cases stands with
  | calling request accepted call k stands =>
    obtain ⟨start, spaced, within⟩ := lane.spaced request accepted prompted
    have begins := within freed
    have reach := fun {n : Nat} => (Operation.delayPlan s request).reach_le_span (n := n)
    cases stands with
    | attempting past a course retried inBudget =>
      cases due
      obtain ⟨course', current, guides⟩ := (lane.tells request accepted).present a rfl
      cases current
      have began := spaced.begun_le (i := past.length) (b := course.begun)
        (by simp [Chronicle.log, CallLog.attempts])
      have passed := reach inBudget
      have deadline := guides.deadline
      change course.began ≤ _ at began
      change _ ≤ s.delaySpan at passed
      change a.deadline = course.began + (Operation.delayPlan s request).timeout at deadline
      omega
    | pausing past last retried inBudget =>
      cases due
      have next := spaced.nextBegin_le
      have passed := reach inBudget
      rw [List.map_append, List.map_singleton, CallPlan.nextBegin_concat, List.length_append,
        List.length_map, List.length_singleton] at next
      change _ ≤ s.delaySpan at passed
      change last.ended + _ ≤ _ at next
      omega
    | starved => cases due
  | _ => cases due

end Client

end ProxyConsole
