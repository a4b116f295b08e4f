import ProxyConsole.Proofs.Client.Pace

/-!
# Bounded retries

A call makes attempts until one comes to something that another attempt would not help,
or its budget is used up, and returns what the last one came to.  Each attempt sends its
request once, under a ticket of its own, and only a response to that ticket decides it.
-/

set_option autoImplicit false

namespace ProxyConsole

/-- The request that an attempt sends. -/
def CallPlan.sending {α : Type} (p : CallPlan α) (b : Begun) : Sending :=
  ⟨b.ticket, p.request.envelope b.ticket.id⟩

namespace Client

/-! ## What one event keeps -/

section Turn

variable {p : CallPlan Reply} {after : Aftermath} {cl : Client} {index : Nat} {event : ClientEvent}
  {job job' : Job} {log log' : CallLog}

theorem CallTurn.stage (turn : CallTurn p after cl index event job log job' log')
    (stage : Stage p after job log) (budget : 0 < p.attempts) : Stage p after job' log' := by
  cases turn with
  | same => exact stage
  | hears number a log t result heard =>
    cases stage with
    | attempting past _ moment retried within =>
      have same := transmitted_ticket t result a
      rw [← same]
      exact .attempting past _ moment retried within
  | gone => exact .gone stage
  | begins _ _ number a own waited deadline sent =>
    rcases waited with ⟨rfl, rfl⟩ | ⟨resume, rfl, ready⟩
    · cases stage with
      | fresh => exact .attempting [] a cl.now (by simp) budget
    · cases stage with
      | pausing past _ retried within => exact .attempting past a cl.now retried within
  | starves _ _ own waited full quiet =>
    rcases waited with rfl | ⟨number, resume, rfl⟩
    · cases stage with
      | fresh => exact .starved [] (by simp) budget
    · cases stage with
      | pausing past _ retried within => exact .starved past retried within
  | retries number a past begun ending own ended retryable left quiet =>
    cases stage with
    | attempting _ _ moment retried within =>
      have longer : (past ++ [(⟨⟨a.ticket, moment⟩, cl.now, ending⟩ : Trial)]).length =
          past.length + 1 :=
        List.length_append
      rw [← longer] at left ⊢
      refine .pausing _ _ ?_ left
      intro t member
      rcases List.mem_append.mp member with earlier | last
      · exact retried t earlier
      · rw [List.mem_singleton.mp last]
        exact retryable
  | ends number a past begun ending own ended final quiet =>
    cases stage with
    | attempting _ _ moment retried within =>
      exact .returned past ⟨⟨a.ticket, moment⟩, cl.now, ending⟩ retried within final

theorem CallTurn.sends (turn : CallTurn p after cl index event job log job' log')
    (stage : Stage p after job log) :
    log'.attempts.map p.sending = log.attempts.map p.sending ++ cl.sentBy index event := by
  cases turn with
  | same _ _ still =>
    rw [sentBy_eq_nil, List.append_nil]
    rintro rfl
    have stays : cl.step (.advance index) = cl := by
      rw [step, still rfl]
      rfl
    rw [stays]
  | hears number a log t result heard =>
    rw [sentBy_eq_nil (by rw [heard]; simp), List.append_nil]
  | gone _ _ given => rw [sentBy_eq_nil (by rw [given]; simp), List.append_nil]
  | begins _ _ number a own waited deadline sent =>
    have idle : log.current = none := by
      rcases waited with ⟨rfl, rfl⟩ | ⟨resume, rfl, ready⟩
      · cases stage with
        | fresh => rfl
      · cases stage with
        | pausing past _ retried within => rfl
    subst own
    rw [sentBy, if_pos rfl, sent, List.drop_left, CallLog.attempts, CallLog.attempts, idle,
      Option.toList_none, List.append_nil, List.map_append]
    rfl
  | starves _ _ own waited full quiet => rw [sentBy_eq_nil fun _ => quiet, List.append_nil]
  | retries number a past begun ending own ended retryable left quiet =>
    rw [sentBy_eq_nil fun _ => quiet, List.append_nil, CallLog.attempts_finish]
  | ends number a past begun ending own ended final quiet =>
    rw [sentBy_eq_nil fun _ => quiet, List.append_nil, CallLog.attempts_finish]

theorem CallTurn.replies (turn : CallTurn p after cl index event job log job' log')
    (stage : Stage p after job log) (shape : cl.correlator.WellFormed)
    (own : ∀ t ∈ log.past, ∀ e, t.ending = .answered e → e.requestId = t.begun.ticket.id) :
    ∀ t ∈ log'.past, ∀ e, t.ending = .answered e → e.requestId = t.begun.ticket.id := by
  have newest : ∀ (past : List Trial) (a : Attempt) (moment : Nat) (ending : Ending),
      (∀ t ∈ past, ∀ e, t.ending = .answered e → e.requestId = t.begun.ticket.id) →
      a.ending? cl.now cl.correlator = some ending →
      ∀ t ∈ past ++ [(⟨⟨a.ticket, moment⟩, cl.now, ending⟩ : Trial)], ∀ e,
        t.ending = .answered e → e.requestId = t.begun.ticket.id := by
    intro past a moment ending own ended t member e answered
    rcases List.mem_append.mp member with earlier | last
    · exact own t earlier e answered
    · rw [List.mem_singleton.mp last] at answered ⊢
      have decided : ending = .answered e := answered
      rw [decided] at ended
      exact shape.delivered_id _ (Attempt.ending?_answered ended)
  cases turn with
  | retries number a past begun ending _ ended =>
    cases stage with
    | attempting _ _ moment => exact newest past a moment ending own ended
  | ends number a past begun ending _ ended =>
    cases stage with
    | attempting _ _ moment => exact newest past a moment ending own ended
  | _ => exact own

theorem CallTurn.starved (turn : CallTurn p after cl index event job log job' log')
    (starves : job' = .call p after .starved) :
    job = .call p after .starved ∨ cl.correlator.allocate = none := by
  cases turn with
  | same => exact Or.inl starves
  | starves _ _ own waited full quiet => exact Or.inr full
  | _ => cases starves

theorem CallTurn.abandoned (turn : CallTurn p after cl index event job log job' log')
    (gone : job' = .gone) : job = .gone ∨ event = .abandon index := by
  cases turn with
  | same => exact Or.inl gone
  | gone _ _ given => exact Or.inr given
  | _ => cases gone

end Turn

/-! ## What a run keeps -/

theorem log_concat (cl : Client) (index : Nat) (events : List ClientEvent) (event : ClientEvent) :
    cl.log index (events ++ [event]) = (cl.log index events).record (cl.run events) index event :=
  cl.watch_concat _ _ events event

theorem sentOver_concat (cl : Client) (index : Nat) (events : List ClientEvent)
    (event : ClientEvent) :
    cl.sentOver index (events ++ [event]) =
      cl.sentOver index events ++ (cl.run events).sentBy index event :=
  cl.watch_concat _ _ events event

theorem sentOver_sublist (cl : Client) (index : Nat) (events : List ClientEvent) :
    (cl.sentOver index events).Sublist (cl.sentSince events) := by
  induction events using List.reverseRecOn with
  | nil => exact List.nil_sublist _
  | append_singleton events event earlier =>
    obtain ⟨more, longer⟩ := ((cl.run events).step_extends event).sends
    have new : ((cl.run events).sentBy index event).Sublist more := by
      cases event with
      | advance i =>
        rw [sentBy]
        split
        · rw [← longer, List.drop_left]
        · exact List.nil_sublist _
      | _ => exact List.nil_sublist _
    rw [← run_concat] at longer
    rw [sentOver_concat, sentSince_concat longer.symm]
    exact earlier.append new

/-- How a call stands after a sequence of events. -/
structure Kept (p : CallPlan Reply) (after : Aftermath) (cl : Client) (index : Nat)
    (events : List ClientEvent) (job : Job) : Prop where
  found : (cl.run events).jobs[index]? = some job
  stage : Stage p after job (cl.log index events)
  sends : cl.sentOver index events = (cl.log index events).attempts.map p.sending
  replies : ∀ t ∈ (cl.log index events).past, ∀ e, t.ending = .answered e →
    e.requestId = t.begun.ticket.id
  starved : job = .call p after .starved →
    ∃ before, before <+: events ∧ (cl.run before).correlator.allocate = none
  gone : job = .gone → .abandon index ∈ events
  paced : cl.punctual index events = true →
    Paced p after cl.now (cl.run events).now job (cl.log index events)

variable {p : CallPlan Reply} {after : Aftermath} {cl : Client} {index : Nat}
  {events : List ClientEvent} {job : Job}

theorem kept_start (found : cl.jobs[index]? = some (.newCall p after)) :
    Kept p after cl index [] (.newCall p after) where
  found := found
  stage := .fresh
  sends := rfl
  replies := by
    intro t member
    cases member
  starved := by simp
  gone := by simp
  paced _ := ⟨.empty, .fresh rfl⟩

theorem Kept.concat (kept : Kept p after cl index events job) (sent : (cl.run events).Sent)
    (budget : 0 < p.attempts) (event : ClientEvent) :
    ∃ job', Kept p after cl index (events ++ [event]) job' := by
  obtain ⟨job', found', turn⟩ := kept.stage.turn kept.found event
  rw [← run_concat] at found'
  rw [← log_concat] at turn
  refine ⟨job', found', turn.stage kept.stage budget, ?_, ?_, ?_, ?_, ?_⟩
  · rw [sentOver_concat, kept.sends, turn.sends kept.stage]
  · exact turn.replies kept.stage sent.shape kept.replies
  · intro starves
    have longer : events <+: events ++ [event] := List.prefix_append _ _
    rcases turn.starved starves with earlier | full
    · obtain ⟨before, part, full⟩ := kept.starved earlier
      exact ⟨before, part.trans longer, full⟩
    · exact ⟨events, longer, full⟩
  · intro gone
    rw [List.mem_append, List.mem_singleton]
    rcases turn.abandoned gone with earlier | given
    · exact Or.inl (kept.gone earlier)
    · exact Or.inr given.symm
  · intro prompt
    obtain ⟨earlier, last⟩ := punctual_concat prompt
    rw [run_concat]
    exact (kept.paced earlier).turn kept.found last turn

theorem kept_run (found : cl.jobs[index]? = some (.newCall p after)) (sent : cl.Sent)
    (budget : 0 < p.attempts) (events : List ClientEvent) :
    ∃ job, Kept p after cl index events job := by
  induction events using List.reverseRecOn with
  | nil => exact ⟨_, kept_start found⟩
  | append_singleton events event earlier =>
    obtain ⟨job, kept⟩ := earlier
    exact kept.concat (sent.run events) budget event

/-! ## The law -/

/-- How the attempts of the call at an index follow each other while a sequence of events
happens. -/
structure RetryLaw (p : CallPlan Reply) (cl : Client) (index : Nat) (events : List ClientEvent) :
    Prop where
  budget : (cl.log index events).attempts.length ≤ p.attempts
  retried : ∀ i t, (cl.log index events).past[i]? = some t →
    i + 1 < (cl.log index events).attempts.length → Retryable (p.outcome t.ending)
  /-- The call returns what its last attempt came to, which is the first that another
  attempt would not help, or the last that the budget allows. -/
  result : ∀ r, (cl.run events).jobs[index]? = some (.over r) → ∃ earlier last,
    (cl.log index events).past = earlier ++ [last] ∧ (cl.log index events).current = none ∧
    r = p.outcome last.ending ∧ (∀ t ∈ earlier, Retryable (p.outcome t.ending)) ∧
    (¬ Retryable r ∨ (cl.log index events).attempts.length = p.attempts)
  notReady : ∀ t ∈ (cl.log index events).past, t.ending.NotReady →
    (∃ message, p.outcome t.ending = .error (.backendNotReady message)) ∧
    (cl.log index events).attempts.getLast? = some t.begun ∧
    ((cl.run events).jobs[index]? = some (.over (p.outcome t.ending)) ∨
      (cl.run events).jobs[index]? = some .gone)
  sends : cl.sentOver index events = (cl.log index events).attempts.map p.sending
  alone : ∀ b ∈ (cl.log index events).attempts,
    (cl.run events).sends.filter (·.ticket = b.ticket) = [p.sending b]
  tickets : ((cl.log index events).attempts.map Begun.ticket).Nodup
  ids : cl.IdsLast events → ((cl.log index events).attempts.map fun b => b.ticket.id).Nodup
  replies : ∀ t ∈ (cl.log index events).past, ∀ e, t.ending = .answered e →
    e.requestId = t.begun.ticket.id
  apart : cl.IdsLast events → ∀ (i j : Nat) b t e, i ≠ j →
    (cl.log index events).attempts[i]? = some b → (cl.log index events).past[j]? = some t →
    t.ending = .answered e → e.requestId ≠ b.ticket.id
  /-- On a punctual schedule the first attempt begins with the call, and each other one
  begins the pause after the end of the one before. -/
  first : cl.punctual index events = true →
    ∀ b, (cl.log index events).attempts[0]? = some b → b.moment = cl.now
  later : cl.punctual index events = true → ∀ i t b, (cl.log index events).past[i]? = some t →
    (cl.log index events).attempts[i + 1]? = some b → b.moment = t.ended + p.backoff
  limit : cl.punctual index events = true → ∀ i t, (cl.log index events).past[i]? = some t →
    t.ended ≤ cl.now + (i + 1) * p.timeout + i * p.backoff
  /-- The call is over once the time for all its attempts has passed, unless it is given up or
  there is a moment without a free id. -/
  ends : cl.punctual index events = true → .abandon index ∉ events →
    (∀ before, before <+: events → (cl.run before).correlator.allocate ≠ none) →
    cl.now + p.attempts * p.timeout + (p.attempts - 1) * p.backoff < (cl.run events).now →
      ∃ r, (cl.run events).jobs[index]? = some (.over r)

/-- Either every attempt so far was worth another one and one is left, or the last attempt
was not, or was the last of the budget. -/
theorem Stage.history {log : CallLog} (stage : Stage p after job log) (budget : 0 < p.attempts) :
    ((∀ t ∈ log.past, Retryable (p.outcome t.ending)) ∧ log.past.length < p.attempts ∧
      ∀ r, job ≠ .over r) ∨
    ∃ past last, log = ⟨past ++ [last], none⟩ ∧ (∀ t ∈ past, Retryable (p.outcome t.ending)) ∧
      past.length < p.attempts ∧
      (¬ Retryable (p.outcome last.ending) ∨ p.attempts ≤ past.length + 1) ∧
      (job = .over (p.outcome last.ending) ∨ job = .gone) := by
  induction stage with
  | fresh => exact Or.inl ⟨by simp, budget, by simp⟩
  | attempting past a moment retried within => exact Or.inl ⟨retried, within, by simp⟩
  | pausing past resume retried within => exact Or.inl ⟨retried, within, by simp⟩
  | starved past retried within => exact Or.inl ⟨retried, within, by simp⟩
  | returned past last retried within final =>
    exact Or.inr ⟨past, last, rfl, retried, within, final, Or.inl rfl⟩
  | gone left ih =>
    rcases ih with ⟨retried, within, _⟩ | ⟨past, last, rfl, retried, within, final, _⟩
    · exact Or.inl ⟨retried, within, by simp⟩
    · exact Or.inr ⟨past, last, rfl, retried, within, final, Or.inr rfl⟩

namespace Kept

variable (kept : Kept p after cl index events job) (budget : 0 < p.attempts)

include kept

theorem serials_nodup (sent : (cl.run events).Sent) :
    ((cl.log index events).attempts.map fun b => b.ticket.serial).Nodup := by
  have among := ((cl.sentOver_sublist index events).trans (List.drop_sublist _ _)).map
    fun s => s.ticket.serial
  rw [kept.sends, List.map_map] at among
  exact among.nodup sent.distinct

theorem ids_nodup (last : cl.IdsLast events) :
    ((cl.log index events).attempts.map fun b => b.ticket.id).Nodup := by
  have among := (cl.sentOver_sublist index events).map fun s => s.ticket.id
  rw [kept.sends, List.map_map] at among
  exact among.nodup last.nodup

theorem sending_mem {b : Begun} (member : b ∈ (cl.log index events).attempts) :
    p.sending b ∈ (cl.run events).sends := by
  have among : p.sending b ∈ cl.sentOver index events := by
    rw [kept.sends]
    exact List.mem_map_of_mem member
  exact List.mem_of_mem_drop ((cl.sentOver_sublist index events).subset among)

/-- A response to one attempt never decides another one. -/
theorem requestId_ne (last : cl.IdsLast events) {i j : Nat} {b : Begun} {t : Trial}
    {e : InboundEnvelope} (different : i ≠ j)
    (begun : (cl.log index events).attempts[i]? = some b)
    (ended : (cl.log index events).past[j]? = some t) (answered : t.ending = .answered e) :
    e.requestId ≠ b.ticket.id := by
  have own := kept.replies t (List.mem_of_getElem? ended) e answered
  have other := CallLog.attempts_of_past ended
  intro same
  have repeated : ((cl.log index events).attempts.map fun b => b.ticket.id)[i]? =
      ((cl.log index events).attempts.map fun b => b.ticket.id)[j]? := by
    rw [List.getElem?_map, List.getElem?_map, begun, other, Option.map_some, Option.map_some,
      ← same, own]
  have inside : i < ((cl.log index events).attempts.map fun b => b.ticket.id).length := by
    rw [List.length_map]
    exact (List.getElem?_eq_some_iff.mp begun).1
  exact different ((List.getElem?_inj inside (kept.ids_nodup last)).mp repeated)

theorem over_of_late (prompt : cl.punctual index events = true) (present : .abandon index ∉ events)
    (free : ∀ before, before <+: events → (cl.run before).correlator.allocate ≠ none)
    (late : cl.now + p.attempts * p.timeout + (p.attempts - 1) * p.backoff <
      (cl.run events).now) :
    ∃ r, (cl.run events).jobs[index]? = some (.over r) := by
  rcases (kept.paced prompt).late kept.stage late with ⟨r, rfl⟩ | gone | starved
  · exact ⟨r, kept.found⟩
  · exact absurd (kept.gone gone) present
  · obtain ⟨before, part, full⟩ := kept.starved starved
    exact absurd full (free before part)

include budget

theorem length_attempts_le : (cl.log index events).attempts.length ≤ p.attempts := by
  have longest := CallLog.length_attempts_le (cl.log index events)
  rcases kept.stage.history budget with ⟨_, left, _⟩ | ⟨past, last, log, _, within, _⟩
  · omega
  · rw [log, CallLog.attempts_idle, List.length_map, List.length_append]
    exact within

theorem retried {i : Nat} {t : Trial} (ended : (cl.log index events).past[i]? = some t)
    (more : i + 1 < (cl.log index events).attempts.length) : Retryable (p.outcome t.ending) := by
  rcases kept.stage.history budget with ⟨all, _⟩ | ⟨past, last, log, all, _⟩
  · exact all t (List.mem_of_getElem? ended)
  · rw [log, CallLog.attempts_idle, List.length_map, List.length_append] at more
    rw [log, List.getElem?_append_left (Nat.lt_of_succ_lt_succ more)] at ended
    exact all t (List.mem_of_getElem? ended)

theorem over_result {r : Except CallError Reply}
    (returned : (cl.run events).jobs[index]? = some (.over r)) :
    ∃ earlier last, (cl.log index events).past = earlier ++ [last] ∧
      (cl.log index events).current = none ∧ r = p.outcome last.ending ∧
      (∀ t ∈ earlier, Retryable (p.outcome t.ending)) ∧
      (¬ Retryable r ∨ (cl.log index events).attempts.length = p.attempts) := by
  have same := Option.some.inj (kept.found.symm.trans returned)
  rcases kept.stage.history budget with
    ⟨_, _, going⟩ | ⟨past, last, log, all, within, final, stands⟩
  · exact absurd same (going r)
  · rw [same] at stands
    rcases stands with stands | gone
    · cases stands
      refine ⟨past, last, by rw [log], by rw [log], rfl, all, ?_⟩
      rw [log, CallLog.attempts_idle, List.length_map, List.length_append, List.length_singleton]
      rcases final with useless | exhausted
      · exact Or.inl useless
      · exact Or.inr (Nat.le_antisymm within exhausted)
    · cases gone

theorem last_of_notReady {t : Trial} (member : t ∈ (cl.log index events).past)
    (notReady : t.ending.NotReady) :
    (∃ message, p.outcome t.ending = .error (.backendNotReady message)) ∧
      (cl.log index events).attempts.getLast? = some t.begun ∧
      ((cl.run events).jobs[index]? = some (.over (p.outcome t.ending)) ∨
        (cl.run events).jobs[index]? = some .gone) := by
  obtain ⟨message, outcome⟩ := p.outcome_notReady notReady
  have useless : ¬ Retryable (p.outcome t.ending) := by
    rw [outcome]
    rintro ⟨e, same, _⟩
    cases same
  refine ⟨⟨message, outcome⟩, ?_⟩
  rcases kept.stage.history budget with ⟨all, _⟩ | ⟨past, last, log, all, _, _, stands⟩
  · exact absurd (all t member) useless
  · rw [log] at member
    rcases List.mem_append.mp member with earlier | same
    · exact absurd (all t earlier) useless
    · rw [List.mem_singleton.mp same]
      refine ⟨?_, ?_⟩
      · rw [log, CallLog.attempts_idle, List.map_append, List.map_singleton, List.getLast?_concat]
      · rcases stands with rfl | rfl
        · exact Or.inl kept.found
        · exact Or.inr kept.found

theorem law (sent : (cl.run events).Sent) : RetryLaw p cl index events where
  budget := kept.length_attempts_le budget
  retried _ _ ended more := kept.retried budget ended more
  result _ returned := kept.over_result budget returned
  notReady _ member notReady := kept.last_of_notReady budget member notReady
  sends := kept.sends
  alone _ member := sent.filter_eq (kept.sending_mem member)
  tickets := by
    refine List.Nodup.of_map Ticket.serial ?_
    rw [List.map_map]
    exact kept.serials_nodup sent
  ids last := kept.ids_nodup last
  replies := kept.replies
  apart last _ _ _ _ _ different begun ended answered :=
    kept.requestId_ne last different begun ended answered
  first prompt := (kept.paced prompt).spaced.first
  later prompt := (kept.paced prompt).spaced.later
  limit prompt _ _ ended := (kept.paced prompt).spaced.ended_le ended
  ends prompt present free late := kept.over_of_late prompt present free late

end Kept

/-- Every call obeys the law, whatever the policy, the weight of the operation, the request,
how its body is decoded, what happened before, and whatever happens from then on. -/
theorem retryLaw_exchange (settings : Settings) (before : List ClientEvent)
    (weight : OperationClass) (request : Request) (decode : String → Except CallError Reply)
    (events : List ClientEvent) :
    RetryLaw (Operation.plan settings weight request decode)
      ((run { settings } before).step (.start (.exchange weight request decode)))
      (run { settings } before).jobs.length events := by
  have same : (run { settings } before).settings = settings :=
    (run_grows { settings } before).settings
  have sent := ((sent_start settings).run before).step (.start (.exchange weight request decode))
  have begun : ((run { settings } before).step
      (.start (.exchange weight request decode))).jobs[(run { settings } before).jobs.length]? =
        some (.newCall (Operation.plan settings weight request decode) {}) := by
    have job : (run { settings } before).newJob
        (.call (Operation.plan (run { settings } before).settings weight request decode) {}) =
          .newCall (Operation.plan settings weight request decode) {} := by
      rw [same]
      rfl
    rw [← job]
    exact List.getElem?_concat_length
  have budget : 0 < (Operation.plan settings weight request decode).attempts :=
    Nat.lt_of_lt_of_le Nat.one_pos (Nat.le_max_right _ _)
  obtain ⟨job, kept⟩ := kept_run begun sent budget events
  exact kept.law budget (sent.run events)

/-- A call whose first request is refused waits out the pause, and returns what its second
attempt is answered. -/
example :
    let cl := ({} : Client).step
      (.start (.exchange .quick (.get "/version") fun body => .ok (.text body)))
    let events : List ClientEvent := [.advance 0,
      .transmitted ⟨⟨1⟩, 0, 0⟩ (.error ⟨.severed, "broken pipe"⟩), .advance 0, .pass 1000,
        .advance 0,
      .transmitted ⟨⟨2⟩, 1, 1⟩ (.ok ()),
      .dispatch (.ok ⟨2⟩ "ok"), .advance 0]
    cl.punctual 0 events = true ∧ cl.drawn events = 2 ∧
      (cl.log 0 events).attempts.map Begun.moment = [0, 1000] ∧
      (cl.run events).jobs[0]? = some (.over (.ok (.text "ok"))) :=
  ⟨by decide, by decide, rfl, rfl⟩

end Client

end ProxyConsole
