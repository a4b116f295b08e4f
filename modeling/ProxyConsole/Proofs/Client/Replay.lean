import ProxyConsole.Proofs.Client.DelayTests
import ProxyConsole.Proofs.Client.Retry

/-!
# Calls replayed

Whatever the endings of the attempts of a call are, as long as they are those of a call
that retries by the rules, a client that does nothing else can be led to make that call
with the same endings.  The ids may be others, so a response is given the id of the
attempt that it answers.
-/

set_option autoImplicit false

namespace ProxyConsole

/-- The same ending, for an attempt with another id. -/
def Ending.readdressed (id : RequestId) : Ending → Ending
  | .answered e => .answered { e with requestId := id }
  | ending => ending

/-- Two endings differ in the id of the response at most. -/
def Ending.Like (ending other : Ending) : Prop :=
  ∃ id, other = ending.readdressed id

theorem CallPlan.outcome_of_like {α : Type} (p : CallPlan α) {ending other : Ending}
    (like : ending.Like other) : p.outcome other = p.outcome ending := by
  obtain ⟨id, rfl⟩ := like
  cases ending <;> rfl

namespace Client

variable {p : CallPlan Reply} {after : Aftermath} {cl₀ cl : Client} {job : Job} {n : Nat}
  {past : List Trial} {log : CallLog} {a : Attempt} {ending : Ending}

/-- What a client and the log of its first job have become after some events. -/
def Becomes (cl₀ cl : Client) (log : CallLog) : Prop :=
  ∃ events, cl₀.run events = cl ∧ cl₀.log 0 events = log

theorem Becomes.step (becomes : cl₀.Becomes cl log) (event : ClientEvent) :
    cl₀.Becomes (cl.step event) (log.record cl 0 event) := by
  obtain ⟨events, rfl, rfl⟩ := becomes
  exact ⟨events ++ [event], cl₀.run_concat events event, cl₀.log_concat 0 events event⟩

/-- A client with a job while no call is registered. -/
structure Lone (cl : Client) (job : Job) : Prop where
  found : cl.jobs[0]? = some job
  pending : cl.correlator.pending = []
  delivered : cl.correlator.delivered = []

/-- An attempt of a call may begin, the number of those before it being given. -/
inductive Waits (p : CallPlan Reply) (after : Aftermath) (now : Nat) : Job → Nat → Prop where
  | fresh : Waits p after now (.newCall p after) 0
  | rested (n resume : Nat) (due : resume ≤ now) :
      Waits p after now (.call p after (.pausing n resume)) n

/-- An attempt whose request starts to be sent, the only call that is registered. -/
structure Posted (p : CallPlan Reply) (after : Aftermath) (cl : Client) (n : Nat) (a : Attempt) :
    Prop where
  found : cl.jobs[0]? = some (.call p after (.attempting n a))
  unsent : a.transmission = none
  pending : cl.correlator.pending = [a.ticket]
  delivered : cl.correlator.delivered = []

/-- An attempt that has something to end with. -/
structure Decided (p : CallPlan Reply) (after : Aftermath) (cl : Client) (n : Nat) (a : Attempt)
    (ending : Ending) : Prop where
  found : cl.jobs[0]? = some (.call p after (.attempting n a))
  ended : a.ending? cl.now cl.correlator = some ending
  pending : (a.close cl.correlator).pending = []
  delivered : (a.close cl.correlator).delivered = []

theorem allocate_of_idle {c : Correlator} (idle : c.pending = []) :
    ∃ t c', c.allocate = some (t, c') ∧ c'.pending = [t] ∧ c'.delivered = c.delivered := by
  cases success : c.allocate with
  | none => simp [Correlator.allocate, idle, Correlator.freeSeq?, Correlator.contains] at success
  | some given =>
    obtain ⟨t, c'⟩ := given
    obtain ⟨_, _, pending, delivered, _⟩ := Correlator.allocate_cases success
    rw [idle] at pending
    exact ⟨t, c', rfl, pending, delivered⟩

theorem Lone.begins (lone : cl.Lone job) (waits : Waits p after cl.now job n) (past : List Trial) :
    ∃ a, Posted p after (cl.step (.advance 0)) (n + 1) a ∧
      CallLog.record ⟨past, none⟩ cl 0 (.advance 0) = ⟨past, some ⟨a.ticket, cl.now⟩⟩ := by
  obtain ⟨t, c', allocated, pending, delivered⟩ := allocate_of_idle lone.pending
  have begun : p.beginAttempt (n + 1) cl.now cl.correlator =
      (.attempting (n + 1) ⟨t, cl.now + p.timeout, none⟩, [⟨t, p.request.envelope t.id⟩], c') := by
    simp only [CallPlan.beginAttempt, Attempt.begin?, allocated]
  have stepped : cl.step (.advance 0) = cl.moveJob 0
      (.call p after (.attempting (n + 1) ⟨t, cl.now + p.timeout, none⟩))
      [⟨t, p.request.envelope t.id⟩] c' := by
    have found := lone.found
    cases waits with
    | fresh => simp only [step, stepJob, found, CallPlan.start, begun, Option.getD_some]
    | rested n resume due =>
      simp only [step, stepJob, found, CallPlan.step, if_pos due, begun, Option.getD_some]
  have stands : (cl.step (.advance 0)).jobs[0]? =
      some (.call p after (.attempting (n + 1) ⟨t, cl.now + p.timeout, none⟩)) := by
    rw [stepped]
    exact Positions.getElem?_set_of_some _ lone.found
  refine ⟨_, ⟨stands, rfl, ?_, ?_⟩, ?_⟩
  · rw [stepped]
    exact pending
  · rw [stepped]
    exact delivered.trans lone.delivered
  · have waits' : job = .newCall p after ∨
        ∃ number resume, job = .call p after (.pausing number resume) := by
      cases waits with
      | fresh => exact .inl rfl
      | rested n resume due => exact .inr ⟨n, resume, rfl⟩
    rw [CallLog.record_own, lone.found, stands, CallLog.goOn_waiting waits']

theorem Posted.transmitted (posted : Posted p after cl n a) (result : Except TransportError Unit) :
    (cl.step (.transmitted a.ticket result)).jobs[0]? =
      some (.call p after (.attempting n { a with transmission := some result })) := by
  have heard : a.transmitted a.ticket result = { a with transmission := some result } := by
    simp [Attempt.transmitted, posted.unsent]
  simp only [step, List.getElem?_map, posted.found, Option.map_some, Job.mapAttempt,
    CallPhase.mapAttempt, heard]

section Correlator

variable {c : Correlator} {t : Ticket}

theorem release_of_alone (pending : c.pending = [t]) (delivered : c.delivered = []) :
    (c.release t).pending = [] ∧ (c.release t).delivered = [] := by
  simp [Correlator.release, Correlator.cancelExact, Correlator.collect, pending, delivered]

theorem dispatch_of_alone (pending : c.pending = [t]) (delivered : c.delivered = [])
    {e : InboundEnvelope} (own : e.requestId = t.id) :
    (c.dispatch e).2.status t = .delivered e ∧ ((c.dispatch e).2.conclude t).pending = [] ∧
      ((c.dispatch e).2.conclude t).delivered = [] := by
  have after : (c.dispatch e).2 = { c with pending := [], delivered := [(t, e)] } := by
    simp [Correlator.dispatch, pending, delivered, own]
  rw [after]
  simp [Correlator.conclude, Correlator.status, Correlator.collect]

theorem cancelAll_of_alone (delivered : c.delivered = []) :
    c.cancelAll.2.status t = .cancelled ∧ (c.cancelAll.2.conclude t).pending = [] ∧
      (c.cancelAll.2.conclude t).delivered = [] := by
  simp [Correlator.cancelAll, Correlator.conclude, Correlator.status, Correlator.collect, delivered]

end Correlator

theorem Posted.decided (posted : Posted p after cl n a) (becomes : cl₀.Becomes cl log)
    (ending : Ending) : ∃ cl' a' other, cl₀.Becomes cl' log ∧ Decided p after cl' n a' other ∧
      ending.Like other := by
  have accepted := posted.transmitted (.ok ())
  cases ending with
  | refused e =>
    obtain ⟨pending, delivered⟩ := release_of_alone posted.pending posted.delivered
    exact ⟨_, _, .refused e, becomes.step (.transmitted a.ticket (.error e)),
      ⟨posted.transmitted (.error e), rfl, pending, delivered⟩, a.ticket.id, rfl⟩
  | answered e =>
    obtain ⟨status, pending, delivered⟩ :=
      dispatch_of_alone (e := { e with requestId := a.ticket.id })
      posted.pending posted.delivered rfl
    refine ⟨_, _, .answered { e with requestId := a.ticket.id },
      (becomes.step (.transmitted a.ticket (.ok ()))).step
      (.dispatch { e with requestId := a.ticket.id }),
      ⟨accepted, ?_, pending, delivered⟩, a.ticket.id, rfl⟩
    simp only [Attempt.ending?, step, status]
  | cancelled =>
    obtain ⟨status, pending, delivered⟩ := cancelAll_of_alone (t := a.ticket) posted.delivered
    refine ⟨_, _, .cancelled, (becomes.step (.transmitted a.ticket (.ok ()))).step .cancelPending,
      ⟨accepted, ?_, pending, delivered⟩, a.ticket.id, rfl⟩
    simp only [Attempt.ending?, step, status]
  | expired =>
    obtain ⟨pending, delivered⟩ := release_of_alone posted.pending posted.delivered
    refine ⟨_, a, .expired, becomes.step (.pass a.deadline), ⟨posted.found, ?_, ?_, ?_⟩,
      a.ticket.id, rfl⟩
    · simp only [Attempt.ending?, posted.unsent, step]
      exact if_pos (Nat.le_max_right _ _)
    · simp only [Attempt.close, posted.unsent]
      exact pending
    · simp only [Attempt.close, posted.unsent]
      exact delivered

theorem Decided.ends {begun : Begun} (decided : Decided p after cl n a ending)
    (becomes : cl₀.Becomes cl ⟨past, some begun⟩) :
    ∃ cl', cl₀.Becomes cl' ⟨past ++ [⟨begun, cl.now, ending⟩], none⟩ ∧
      (Retryable (p.outcome ending) → n < p.attempts →
        ∃ resume, cl'.Lone (.call p after (.pausing n resume))) ∧
      (¬ Retryable (p.outcome ending) ∨ p.attempts ≤ n →
        cl'.jobs[0]? = some (.over (p.outcome ending))) := by
  have found := decided.found
  have logged : CallLog.record ⟨past, some begun⟩ cl 0 (.advance 0) =
      ⟨past ++ [⟨begun, cl.now, ending⟩], none⟩ := by
    rw [CallLog.record_own, found]
    simp only [CallLog.goOn, decided.ended]
  have stepped : cl.step (.advance 0) = (cl.stepJob 0).getD cl := rfl
  simp only [stepJob, found, CallPlan.step, CallPlan.outcome?_eq, decided.ended, Option.map_some]
    at stepped
  have next := becomes.step (.advance 0)
  rw [logged] at next
  refine ⟨_, next, ?_⟩
  rcases p.afterAttempt_cases n cl.now (p.outcome ending) (a.close cl.correlator) with
    ⟨retryable, left, moved⟩ | ⟨final, moved⟩
  · simp only [moved, Option.getD_some] at stepped
    rw [stepped]
    refine ⟨fun _ _ => ⟨_, Positions.getElem?_set_of_some _ found, decided.pending,
      decided.delivered⟩, fun final => ?_⟩
    rcases final with useless | exhausted
    · exact absurd retryable useless
    · exact absurd left (Nat.not_lt.mpr exhausted)
  · simp only [moved, Option.getD_some] at stepped
    rw [stepped]
    refine ⟨fun retryable left => ?_, fun _ => Positions.getElem?_set_of_some _ found⟩
    rcases final with useless | exhausted
    · exact absurd retryable useless
    · exact absurd left (Nat.not_lt.mpr exhausted)

theorem Lone.attempts (lone : cl.Lone job) (waits : Waits p after cl.now job n)
    (becomes : cl₀.Becomes cl ⟨past, none⟩) (ending : Ending) :
    ∃ cl' last, cl₀.Becomes cl' ⟨past ++ [last], none⟩ ∧ ending.Like last.ending ∧
      (Retryable (p.outcome ending) → n + 1 < p.attempts →
        ∃ resume, cl'.Lone (.call p after (.pausing (n + 1) resume))) ∧
      (¬ Retryable (p.outcome ending) ∨ p.attempts ≤ n + 1 →
        cl'.jobs[0]? = some (.over (p.outcome ending))) := by
  obtain ⟨a, posted, logged⟩ := lone.begins waits past
  have begun := becomes.step (.advance 0)
  rw [logged] at begun
  obtain ⟨cl₁, a', other, becomes₁, decided, like⟩ := posted.decided begun ending
  obtain ⟨cl₂, becomes₂, retries, ends⟩ := decided.ends becomes₁
  rw [p.outcome_of_like like] at retries ends
  exact ⟨cl₂, _, becomes₂, like, retries, ends⟩

theorem Lone.retries (lone : cl₀.Lone (.newCall p after)) {earlier : List Ending}
    (retried : ∀ ending ∈ earlier, Retryable (p.outcome ending))
    (within : earlier.length < p.attempts) :
    ∃ cl job past, cl₀.Becomes cl ⟨past, none⟩ ∧ cl.Lone job ∧
      Waits p after cl.now job earlier.length ∧
      List.Forall₂ Ending.Like earlier (past.map Trial.ending) := by
  induction earlier using List.reverseRecOn with
  | nil => exact ⟨cl₀, _, [], ⟨[], rfl, rfl⟩, lone, .fresh, .nil⟩
  | append_singleton earlier ending ih =>
    rw [List.length_append, List.length_singleton] at within
    obtain ⟨cl, job, past, becomes, lone', waits, alike⟩ :=
      ih (fun x member => retried x (List.mem_append_left _ member)) (Nat.lt_of_succ_lt within)
    obtain ⟨cl', last, becomes', like, retries, -⟩ := lone'.attempts waits becomes ending
    obtain ⟨resume, pauses⟩ := retries
      (retried ending (List.mem_append_right _ (List.mem_singleton.mpr rfl))) within
    refine ⟨cl'.step (.pass resume), _, past ++ [last], becomes'.step (.pass resume),
      ⟨pauses.found, pauses.pending, pauses.delivered⟩, ?_, ?_⟩
    · rw [List.length_append, List.length_singleton]
      exact .rested _ resume (Nat.le_max_right _ _)
    · rw [List.map_append]
      exact List.rel_append alike (.cons like .nil)

/-- Whatever endings a call may have, a client that does nothing else can be led to make it
with these, and returns what they come to. -/
theorem Lone.replays {endings : List Ending} {r : Except CallError Reply}
    (lone : cl₀.Lone (.newCall p after)) (answers : p.Answers endings r) :
    ∃ events, (cl₀.run events).jobs[0]? = some (.over r) ∧
      List.Forall₂ Ending.Like endings ((cl₀.log 0 events).past.map Trial.ending) := by
  cases answers with
  | last earlier last retried within final =>
    obtain ⟨cl, job, past, becomes, lone', waits, alike⟩ := lone.retries retried within
    obtain ⟨cl', trial, ⟨events, rfl, logged⟩, like, -, ends⟩ := lone'.attempts waits becomes last
    refine ⟨events, ends final, ?_⟩
    rw [logged, List.map_append]
    exact List.rel_append alike (.cons like .nil)

end Client

end ProxyConsole
