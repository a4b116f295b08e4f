import ProxyConsole.Proofs.Client.Sends

/-!
# The trials of a call

A log of one job is kept while events happen: when each attempt began and under which
ticket, when it ended and why.  What an attempt comes to depends on its ending alone.
One event lets a call go on in a few ways only, each of which shows in the log.
-/

set_option autoImplicit false

namespace ProxyConsole

/-! ## How an attempt ends -/

/-- Why an attempt is over. -/
inductive Ending where
  | refused (e : TransportError)
  | answered (e : InboundEnvelope)
  | cancelled
  | expired

namespace Ending

/-- What an attempt that ends so has received. -/
def received (path : String) (timeout : Nat) : Ending → Except CallError String
  | .refused e => .error (.ofTransport e)
  | .answered e => e.classify
  | .cancelled => .error Attempt.cancelledError
  | .expired => .error (Attempt.timeoutError path timeout)

/-- Whether the backend's endpoint does not exist yet, by the kind of the refusal or by the category
of the failure that was relayed. -/
def NotReady : Ending → Prop
  | .refused e => e.kind = .notReady
  | .answered e => e.success = false ∧ e.failure = some .notReady
  | _ => False

theorem NotReady.received {ending : Ending} (notReady : ending.NotReady) (path : String)
    (timeout : Nat) :
    ∃ message, ending.received path timeout = .error (.backendNotReady message) := by
  cases ending with
  | refused e =>
    have kind : e.kind = .notReady := notReady
    exact ⟨e.message, by simp only [Ending.received, CallError.ofTransport, kind]⟩
  | answered e =>
    obtain ⟨failed, relayed⟩ := notReady
    exact ⟨_, by simp only [Ending.received, InboundEnvelope.classify, failed, relayed]; rfl⟩
  | cancelled => cases notReady
  | expired => cases notReady

end Ending

namespace Attempt

/-- Why an attempt is over, once it is. -/
def ending? (a : Attempt) (now : Nat) (c : Correlator) : Option Ending :=
  let expired := if a.deadline ≤ now then some .expired else none
  match a.transmission with
  | none => expired
  | some (.error e) => some (.refused e)
  | some (.ok ()) =>
    match c.status a.ticket with
    | .delivered e => some (.answered e)
    | .cancelled => some .cancelled
    | .waiting => expired

theorem outcome?_eq (a : Attempt) (path : String) (timeout now : Nat) (c : Correlator) :
    a.outcome? path timeout now c = (a.ending? now c).map (Ending.received path timeout) := by
  have expires : ∀ result : Except CallError String,
      result = .error (timeoutError path timeout) →
      (if a.deadline ≤ now then some result else none) =
        (if a.deadline ≤ now then some Ending.expired else none).map
          (Ending.received path timeout) := by
    rintro result rfl
    split <;> rfl
  unfold outcome? ending?
  cases a.transmission with
  | none => exact expires _ rfl
  | some sent =>
    cases sent with
    | error e => rfl
    | ok done =>
      cases c.status a.ticket with
      | waiting => exact expires _ rfl
      | delivered e => rfl
      | cancelled => rfl

theorem ending?_answered {a : Attempt} {now : Nat} {c : Correlator} {e : InboundEnvelope}
    (ended : a.ending? now c = some (.answered e)) : (a.ticket, e) ∈ c.delivered := by
  unfold ending? at ended
  dsimp only at ended
  split at ended
  · split at ended <;> cases ended
  · cases ended
  · split at ended
    · rename_i status
      cases ended
      exact Correlator.status_delivered status
    · cases ended
    · split at ended <;> cases ended

theorem begin?_eq_none {request : Request} {timeout now : Nat} {c : Correlator}
    (failed : begin? request timeout now c = none) : c.allocate = none := by
  unfold begin? at failed
  split at failed
  · assumption
  · cases failed

theorem begin?_deadline {request : Request} {timeout now : Nat} {c c' : Correlator} {a : Attempt}
    {sending : Sending} (begun : begin? request timeout now c = some (a, sending, c')) :
    a.deadline = now + timeout := by
  unfold begin? at begun
  split at begun
  · cases begun
  · cases begun
    rfl

theorem begin?_unsent {request : Request} {timeout now : Nat} {c c' : Correlator} {a : Attempt}
    {sending : Sending} (begun : begin? request timeout now c = some (a, sending, c')) :
    a.transmission = none := by
  unfold begin? at begun
  split at begun
  · cases begun
  · cases begun
    rfl

theorem transmitted_deadline (t : Ticket) (result : Except TransportError Unit) (a : Attempt) :
    (transmitted t result a).deadline = a.deadline := by
  unfold transmitted
  split <;> rfl

end Attempt

/-! ## What an attempt comes to -/

/-- Another attempt may help: the transport failed, and is not closed for good. -/
def Retryable {α : Type} (result : Except CallError α) : Prop :=
  ∃ e, result = .error (.transport e) ∧ e.kind ≠ .closed

theorem isRetryable_iff {α : Type} {e : CallError} :
    e.isRetryable = true ↔ Retryable (.error e : Except CallError α) := by
  constructor
  · intro retryable
    cases e with
    | transport e => exact ⟨e, rfl, of_decide_eq_true retryable⟩
    | _ => cases retryable
  · rintro ⟨e', same, other⟩
    cases same
    exact decide_eq_true other

namespace CallPlan

variable {α : Type}

/-- The result of an attempt with the given ending, its body decoded. -/
def outcome (p : CallPlan α) (ending : Ending) : Except CallError α :=
  (ending.received p.request.path p.timeout).bind p.decode

theorem outcome?_eq (p : CallPlan α) (a : Attempt) (now : Nat) (c : Correlator) :
    p.outcome? a now c = (a.ending? now c).map p.outcome := by
  rw [CallPlan.outcome?, a.outcome?_eq, Option.map_map]
  rfl

theorem outcome_notReady (p : CallPlan α) {ending : Ending} (notReady : ending.NotReady) :
    ∃ message, p.outcome ending = .error (.backendNotReady message) := by
  obtain ⟨message, received⟩ := notReady.received p.request.path p.timeout
  exact ⟨message, by rw [outcome, received]; rfl⟩

/-- What follows an attempt: the end with its result, or a pause if that may help and
another attempt is left. -/
theorem afterAttempt_cases (p : CallPlan α) (number now : Nat) (result : Except CallError α)
    (c : Correlator) :
    (Retryable result ∧ number < p.attempts ∧
        p.afterAttempt number now result c = .move (.pausing number (now + p.backoff)) [] c) ∨
      ((¬ Retryable result ∨ p.attempts ≤ number) ∧
        p.afterAttempt number now result c = .finish result c) := by
  cases result with
  | ok value =>
    refine Or.inr ⟨Or.inl ?_, rfl⟩
    rintro ⟨e, same, _⟩
    cases same
  | error e =>
    by_cases retryable : Retryable (.error e : Except CallError α)
    · have helps : e.isRetryable = true := isRetryable_iff.mpr retryable
      by_cases left : number < p.attempts
      · refine Or.inl ⟨retryable, left, ?_⟩
        simp [afterAttempt, helps, left]
      · refine Or.inr ⟨Or.inr (Nat.le_of_not_lt left), ?_⟩
        simp [afterAttempt, left]
    · have useless : e.isRetryable = false := by
        rw [Bool.eq_false_iff]
        intro helps
        exact retryable (isRetryable_iff.mp helps)
      refine Or.inr ⟨Or.inl retryable, ?_⟩
      simp [afterAttempt, useless]

end CallPlan

/-! ## The log -/

/-- An attempt that has begun. -/
structure Begun where
  ticket : Ticket
  moment : Nat

/-- An attempt from its beginning to its end. -/
structure Trial where
  begun : Begun
  ended : Nat
  ending : Ending

/-- The attempts of a call that are over, in order, and the one under way. -/
structure CallLog where
  past : List Trial := []
  current : Option Begun := none

namespace CallLog

/-- The attempts begun so far, in order. -/
def attempts (log : CallLog) : List Begun :=
  log.past.map Trial.begun ++ log.current.toList

theorem attempts_idle (past : List Trial) : attempts ⟨past, none⟩ = past.map Trial.begun :=
  List.append_nil _

theorem attempts_finish (past : List Trial) (begun : Begun) (ended : Nat) (ending : Ending) :
    attempts ⟨past ++ [⟨begun, ended, ending⟩], none⟩ = attempts ⟨past, some begun⟩ := by
  rw [attempts_idle, List.map_append]
  rfl

theorem length_attempts_le (log : CallLog) : log.attempts.length ≤ log.past.length + 1 := by
  have one := Option.length_toList_le (o := log.current)
  rw [attempts, List.length_append, List.length_map]
  omega

theorem attempts_of_past {log : CallLog} {i : Nat} {t : Trial} (ended : log.past[i]? = some t) :
    log.attempts[i]? = some t.begun := by
  rw [attempts, List.getElem?_append_left, List.getElem?_map, ended]
  · rfl
  · rw [List.length_map]
    exact (List.getElem?_eq_some_iff.mp ended).1

theorem past_of_attempts {log : CallLog} {i : Nat} {b : Begun}
    (found : log.attempts[i + 1]? = some b) : ∃ t, log.past[i]? = some t := by
  have bound := (List.getElem?_eq_some_iff.mp found).1
  have inside : i < log.past.length :=
    Nat.lt_of_succ_lt_succ (Nat.lt_of_lt_of_le bound log.length_attempts_le)
  exact ⟨_, List.getElem?_eq_getElem inside⟩

/-- The log of a job that goes on, by how the job stands before and after. -/
def goOn (log : CallLog) (now : Nat) (c : Correlator) (before after : Option Job) : CallLog :=
  match before, after with
  | some (.call _ _ (.attempting _ a)), _ =>
    match a.ending? now c, log.current with
    | some ending, some begun => ⟨log.past ++ [⟨begun, now, ending⟩], none⟩
    | _, _ => log
  | _, some (.call _ _ (.attempting _ a)) => { log with current := some ⟨a.ticket, now⟩ }
  | _, _ => log

theorem goOn_waiting {p : CallPlan Reply} {after : Aftermath} {job : Job}
    (waits : job = .newCall p after ∨ ∃ number resume, job = .call p after (.pausing number resume))
    (log : CallLog) (now : Nat) (c : Correlator) (phase : CallPhase) :
    log.goOn now c (some job) (some (.call p after phase)) =
      match phase with
      | .attempting _ a => { log with current := some ⟨a.ticket, now⟩ }
      | _ => log := by
  rcases waits with rfl | ⟨number, resume, rfl⟩
  · cases phase <;> rfl
  · cases phase <;> rfl

/-- The log of the job at an index after one more event. -/
def record (log : CallLog) (cl : Client) (index : Nat) : ClientEvent → CallLog
  | .advance i =>
    if i = index then
      log.goOn cl.now cl.correlator cl.jobs[index]? (cl.step (.advance i)).jobs[index]?
    else log
  | _ => log

theorem record_own (log : CallLog) (cl : Client) (index : Nat) :
    log.record cl index (.advance index) =
      log.goOn cl.now cl.correlator cl.jobs[index]? (cl.step (.advance index)).jobs[index]? :=
  if_pos rfl

end CallLog

namespace Client

/-- The log of the job at an index over a sequence of events. -/
def log (cl : Client) (index : Nat) (events : List ClientEvent) : CallLog :=
  cl.watch (fun cl event log => log.record cl index event) {} events

/-- What the job at an index starts to send by an event. -/
def sentBy (cl : Client) (index : Nat) : ClientEvent → List Sending
  | .advance i => if i = index then (cl.step (.advance i)).sends.drop cl.sends.length else []
  | _ => []

theorem sentBy_eq_nil {cl : Client} {index : Nat} {event : ClientEvent}
    (quiet : event = .advance index → (cl.step event).sends = cl.sends) :
    cl.sentBy index event = [] := by
  cases event with
  | advance i =>
    rw [sentBy]
    split
    · rename_i own
      subst own
      rw [quiet rfl, List.drop_length]
    · rfl
  | _ => rfl

/-- What the job at an index starts to send over a sequence of events. -/
def sentOver (cl : Client) (index : Nat) (events : List ClientEvent) : List Sending :=
  cl.watch (fun cl event sent => sent ++ cl.sentBy index event) [] events

/-! ## How a call goes on -/

variable (p : CallPlan Reply) (after : Aftermath)

/-- All the ways in which an event can leave a call and its log. -/
inductive CallTurn (cl : Client) (index : Nat) (event : ClientEvent) :
    Job → CallLog → Job → CallLog → Prop where
  | same (job : Job) (log : CallLog) (still : event = .advance index → cl.stepJob index = none) :
      CallTurn cl index event job log job log
  | hears (number : Nat) (a : Attempt) (log : CallLog) (t : Ticket)
      (result : Except TransportError Unit) (heard : event = .transmitted t result) :
      CallTurn cl index event (.call p after (.attempting number a)) log
        (.call p after (.attempting number (a.transmitted t result))) log
  | gone (job : Job) (log : CallLog) (given : event = .abandon index) :
      CallTurn cl index event job log .gone log
  | begins (job : Job) (log : CallLog) (number : Nat) (a : Attempt) (own : event = .advance index)
      (waited : (job = .newCall p after ∧ number = 0) ∨
        ∃ resume, job = .call p after (.pausing number resume) ∧ resume ≤ cl.now)
      (deadline : a.deadline = cl.now + p.timeout)
      (sent : (cl.step event).sends =
        cl.sends ++ [⟨a.ticket, p.request.envelope a.ticket.id⟩]) :
      CallTurn cl index event job log (.call p after (.attempting (number + 1) a))
        { log with current := some ⟨a.ticket, cl.now⟩ }
  | starves (job : Job) (log : CallLog) (own : event = .advance index)
      (waited : job = .newCall p after ∨
        ∃ number resume, job = .call p after (.pausing number resume))
      (full : cl.correlator.allocate = none) (quiet : (cl.step event).sends = cl.sends) :
      CallTurn cl index event job log (.call p after .starved) log
  | retries (number : Nat) (a : Attempt) (past : List Trial) (begun : Begun) (ending : Ending)
      (own : event = .advance index) (ended : a.ending? cl.now cl.correlator = some ending)
      (retryable : Retryable (p.outcome ending)) (left : number < p.attempts)
      (quiet : (cl.step event).sends = cl.sends) :
      CallTurn cl index event (.call p after (.attempting number a)) ⟨past, some begun⟩
        (.call p after (.pausing number (cl.now + p.backoff)))
        ⟨past ++ [⟨begun, cl.now, ending⟩], none⟩
  | ends (number : Nat) (a : Attempt) (past : List Trial) (begun : Begun) (ending : Ending)
      (own : event = .advance index) (ended : a.ending? cl.now cl.correlator = some ending)
      (final : ¬ Retryable (p.outcome ending) ∨ p.attempts ≤ number)
      (quiet : (cl.step event).sends = cl.sends) :
      CallTurn cl index event (.call p after (.attempting number a)) ⟨past, some begun⟩
        (.over (p.outcome ending)) ⟨past ++ [⟨begun, cl.now, ending⟩], none⟩

/-- How a call and its log stand to each other: the attempts that are over were worth
another one, each but the last of a call that is over. -/
inductive Stage : Job → CallLog → Prop where
  | fresh : Stage (.newCall p after) {}
  | attempting (past : List Trial) (a : Attempt) (moment : Nat)
      (retried : ∀ t ∈ past, Retryable (p.outcome t.ending)) (within : past.length < p.attempts) :
      Stage (.call p after (.attempting (past.length + 1) a)) ⟨past, some ⟨a.ticket, moment⟩⟩
  | pausing (past : List Trial) (resume : Nat)
      (retried : ∀ t ∈ past, Retryable (p.outcome t.ending)) (within : past.length < p.attempts) :
      Stage (.call p after (.pausing past.length resume)) ⟨past, none⟩
  | starved (past : List Trial) (retried : ∀ t ∈ past, Retryable (p.outcome t.ending))
      (within : past.length < p.attempts) : Stage (.call p after .starved) ⟨past, none⟩
  | returned (past : List Trial) (last : Trial)
      (retried : ∀ t ∈ past, Retryable (p.outcome t.ending)) (within : past.length < p.attempts)
      (final : ¬ Retryable (p.outcome last.ending) ∨ p.attempts ≤ past.length + 1) :
      Stage (.over (p.outcome last.ending)) ⟨past ++ [last], none⟩
  | gone {job : Job} {log : CallLog} (left : Stage job log) : Stage .gone log

variable {p after} {cl : Client} {index : Nat} {event : ClientEvent} {job job' : Job}
  {log log' : CallLog}

theorem callTurn_begin (log : CallLog) {number : Nat} {phase : CallPhase} {sends : List Sending}
    {c : Correlator} (own : event = .advance index)
    (waited : (job = .newCall p after ∧ number = 0) ∨
      ∃ resume, job = .call p after (.pausing number resume) ∧ resume ≤ cl.now)
    (found : cl.jobs[index]? = some job)
    (begun : p.beginAttempt (number + 1) cl.now cl.correlator = (phase, sends, c))
    (moved : cl.step event = cl.moveJob index (.call p after phase) sends c) :
    ∃ job', (cl.step event).jobs[index]? = some job' ∧
      CallTurn p after cl index event job log job' (log.record cl index event) := by
  have stands : (cl.step event).jobs[index]? = some (.call p after phase) := by
    rw [moved]
    exact Positions.getElem?_set_of_some _ found
  refine ⟨_, stands, ?_⟩
  have waits : job = .newCall p after ∨
      ∃ number resume, job = .call p after (.pausing number resume) := by
    rcases waited with ⟨new, _⟩ | ⟨resume, pausing, _⟩
    · exact Or.inl new
    · exact Or.inr ⟨number, resume, pausing⟩
  subst own
  rw [CallLog.record_own, found, stands, log.goOn_waiting waits]
  unfold CallPlan.beginAttempt at begun
  split at begun
  · rename_i failed
    cases begun
    refine .starves job log rfl waits (Attempt.begin?_eq_none failed) ?_
    rw [moved]
    exact List.append_nil _
  · rename_i a sending c' success
    cases begun
    have deadline := Attempt.begin?_deadline success
    obtain ⟨_, rfl⟩ := Attempt.begin?_cases success
    refine .begins job log number a rfl waited deadline ?_
    rw [moved]
    rfl

theorem callTurn_end {number : Nat} {a : Attempt} (past : List Trial) (begun : Begun)
    {ending : Ending} (own : event = .advance index)
    (found : cl.jobs[index]? = some (.call p after (.attempting number a)))
    (ended : a.ending? cl.now cl.correlator = some ending) :
    ∃ job', (cl.step event).jobs[index]? = some job' ∧
      CallTurn p after cl index event (.call p after (.attempting number a)) ⟨past, some begun⟩ job'
        (CallLog.record ⟨past, some begun⟩ cl index event) := by
  have logged : CallLog.record ⟨past, some begun⟩ cl index event =
      ⟨past ++ [⟨begun, cl.now, ending⟩], none⟩ := by
    subst own
    rw [CallLog.record_own, found]
    simp only [CallLog.goOn, ended]
  have stepped : cl.step event = (cl.stepJob index).getD cl := by rw [own]; rfl
  simp only [stepJob, found, CallPlan.step, CallPlan.outcome?_eq, ended, Option.map_some] at stepped
  rw [logged]
  rcases p.afterAttempt_cases number cl.now (p.outcome ending) (a.close cl.correlator) with
    ⟨retryable, left, next⟩ | ⟨final, next⟩
  · simp only [next, Option.getD_some] at stepped
    have quiet : (cl.step event).sends = cl.sends := by
      rw [stepped]
      exact List.append_nil _
    refine ⟨_, ?_, .retries number a past begun ending own ended retryable left quiet⟩
    rw [stepped]
    exact Positions.getElem?_set_of_some _ found
  · simp only [next, Option.getD_some] at stepped
    have quiet : (cl.step event).sends = cl.sends := by
      rw [stepped]
      exact List.append_nil _
    refine ⟨_, ?_, .ends number a past begun ending own ended final quiet⟩
    rw [stepped]
    exact Positions.getElem?_set_of_some _ found

theorem callTurn_idle (own : event = .advance index) (found : cl.jobs[index]? = some job)
    (idle : cl.stepJob index = none)
    (silent : log.goOn cl.now cl.correlator (some job) (some job) = log) :
    ∃ job', (cl.step event).jobs[index]? = some job' ∧
      CallTurn p after cl index event job log job' (log.record cl index event) := by
  have still : cl.step event = cl := by
    rw [own, step, idle]
    rfl
  have logged : log.record cl index event = log := by
    subst own
    rw [CallLog.record_own, still, found]
    exact silent
  rw [still, logged]
  exact ⟨job, found, .same job log fun _ => idle⟩

theorem Stage.turn_own (stage : Stage p after job log) (found : cl.jobs[index]? = some job)
    (own : event = .advance index) :
    ∃ job', (cl.step event).jobs[index]? = some job' ∧
      CallTurn p after cl index event job log job' (log.record cl index event) := by
  have stepped : cl.step event = (cl.stepJob index).getD cl := by rw [own]; rfl
  cases stage with
  | fresh =>
    simp only [stepJob, found, Option.getD_some] at stepped
    exact callTurn_begin {} own (Or.inl ⟨rfl, rfl⟩) found rfl stepped
  | attempting past a moment retried within =>
    cases ended : a.ending? cl.now cl.correlator with
    | none =>
      refine callTurn_idle own found ?_ ?_
      · simp only [stepJob, found, CallPlan.step, CallPlan.outcome?_eq, ended, Option.map_none]
      · simp only [CallLog.goOn, ended]
    | some ending => exact callTurn_end past _ own found ended
  | pausing past resume retried within =>
    by_cases ready : resume ≤ cl.now
    · simp only [stepJob, found, CallPlan.step, if_pos ready, Option.getD_some] at stepped
      exact callTurn_begin ⟨past, none⟩ own (Or.inr ⟨resume, rfl, ready⟩) found rfl stepped
    · refine callTurn_idle own found ?_ rfl
      simp only [stepJob, found, CallPlan.step, if_neg ready]
  | starved => exact callTurn_idle own found (by simp only [stepJob, found, CallPlan.step]) rfl
  | returned => exact callTurn_idle own found (by simp only [stepJob, found]) rfl
  | gone => exact callTurn_idle own found (by simp only [stepJob, found]) rfl

theorem Stage.turn_other (stage : Stage p after job log) (found : cl.jobs[index]? = some job)
    (other : event ≠ .advance index) :
    ∃ job', (cl.step event).jobs[index]? = some job' ∧
      CallTurn p after cl index event job log job' (log.record cl index event) := by
  have logged : log.record cl index event = log := by
    cases event with
    | advance i =>
      rw [CallLog.record, if_neg]
      rintro rfl
      exact other rfl
    | _ => rfl
  rw [logged]
  have same : CallTurn p after cl index event job log job log :=
    .same job log fun advance => absurd advance other
  obtain ⟨job', found', step⟩ := step_job found event
  cases step with
  | same => exact ⟨job, found', same⟩
  | hears t result heard =>
    cases stage with
    | attempting past a moment retried within => exact ⟨_, found', .hears _ a _ t result heard⟩
    | _ => exact ⟨_, found', same⟩
  | gone given => exact ⟨_, found', .gone job log given⟩
  | turns _ advance turn => exact absurd advance other

/-- Every event lets a call go on in one of these ways. -/
theorem Stage.turn (stage : Stage p after job log) (found : cl.jobs[index]? = some job)
    (event : ClientEvent) :
    ∃ job', (cl.step event).jobs[index]? = some job' ∧
      CallTurn p after cl index event job log job' (log.record cl index event) := by
  by_cases own : event = .advance index
  · exact stage.turn_own found own
  · exact stage.turn_other found own

end Client

end ProxyConsole
