import ProxyConsole.Proofs.Client.Inbound

/-!
# The end of the inbound stream

When the inbound channel is closed, what is left in it is dispatched and every call that
still waits is cancelled.  Such a call ends with an error that says so and is not
retried, be it in its wait already or only once its request is sent.  A call that is
made later can only be refused by the transport or time out.
-/

set_option autoImplicit false

namespace ProxyConsole

open ProxyConsole.Positions

/-! ## How an attempt ends without a response -/

namespace Attempt

/-- How an attempt ends whose call was cancelled: at once, unless its request has yet to be sent. -/
def endingCutOff? (a : Attempt) (now : Nat) : Option Ending :=
  match a.transmission with
  | none => if a.deadline ≤ now then some .expired else none
  | some (.error e) => some (.refused e)
  | some (.ok ()) => some .cancelled

/-- How an attempt ends whose call nobody answers or cancels. -/
def endingUnanswered? (a : Attempt) (now : Nat) : Option Ending :=
  match a.transmission with
  | some (.error e) => some (.refused e)
  | _ => if a.deadline ≤ now then some .expired else none

variable {a : Attempt} {now : Nat} {c : Correlator}

theorem ending?_of_cancelled (status : c.status a.ticket = .cancelled) :
    a.ending? now c = a.endingCutOff? now := by
  unfold ending? endingCutOff?
  generalize c.status a.ticket = reached at status ⊢
  subst status
  rfl

theorem ending?_of_waiting (status : c.status a.ticket = .waiting) :
    a.ending? now c = a.endingUnanswered? now := by
  unfold ending? endingUnanswered?
  rw [status]
  cases a.transmission with
  | none => rfl
  | some sent => cases sent <;> rfl

theorem endingUnanswered?_cases {ending : Ending} (ended : a.endingUnanswered? now = some ending) :
    (∃ e, ending = .refused e) ∨ ending = .expired := by
  unfold endingUnanswered? at ended
  split at ended
  · cases ended
    exact Or.inl ⟨_, rfl⟩
  · split at ended <;> cases ended
    exact Or.inr rfl

theorem outcome?_ne_ok (unanswered : ∀ e, (a.ticket, e) ∉ c.delivered) (path : String)
    (timeout : Nat) (body : String) : a.outcome? path timeout now c ≠ some (.ok body) := by
  intro success
  obtain ⟨e, delivered, _⟩ := outcome?_ok success
  exact unanswered e delivered

end Attempt

theorem CallPlan.step_cutOff {α : Type} (p : CallPlan α) (number : Nat) {a : Attempt} {now : Nat}
    {c : Correlator} (cut : a.ending? now c = some .cancelled) :
    p.step (.attempting number a) now c =
      .finish (.error Attempt.cancelledError) (a.close c) := by
  simp only [CallPlan.step, p.outcome?_eq, cut, Option.map_some]
  rfl

/-- A job makes a call, for itself or for a read that it leads, and its attempt is under way. -/
inductive Job.Carries (a : Attempt) : Job → Prop where
  | call (plan : CallPlan Reply) (after : Aftermath) (number : Nat) :
      Carries a (.call plan after (.attempting number a))
  | read (r : Resource) (modeOnly : Bool) (flight number : Nat) :
      Carries a (r.job modeOnly (.leading flight (.attempting number a)))

theorem Job.Carries.mapAttempt {a : Attempt} {job : Job} (carries : job.Carries a)
    (f : Attempt → Attempt) : (job.mapAttempt f).Carries (f a) := by
  cases carries with
  | call plan after number => exact .call plan after number
  | read r modeOnly flight number =>
    rw [Job.mapAttempt_job]
    exact .read r modeOnly flight number

theorem Job.Carries.deaf {a : Attempt} {job : Job} (carries : job.Carries a)
    {f : Attempt → Attempt} (same : f a = a) : job.mapAttempt f = job := by
  cases carries with
  | call plan after number => simp only [Job.mapAttempt, CallPhase.mapAttempt, same]
  | read r modeOnly flight number =>
    rw [Job.mapAttempt_job, ReadPhase.mapAttempt, CallPhase.mapAttempt, same]

namespace Client

variable {cl : Client} {index : Nat} {job : Job} {a : Attempt} {t : Ticket}

/-- What a job answers whose call fails. -/
def failure (cl : Client) (e : CallError) : Job → Except CallError Reply
  | .readConfig modeOnly _ => configReply modeOnly cl.lastMode (.error e)
  | _ => .error e

/-! ## Jobs at rest -/

theorem stands_run {events : List ClientEvent} (found : cl.jobs[index]? = some job)
    (deaf : ∀ t result, .transmitted t result ∈ events →
      job.mapAttempt (Attempt.transmitted t result) = job)
    (present : .abandon index ∉ events)
    (still : ∀ before rest, events = before ++ .advance index :: rest →
      (cl.run before).jobs[index]? = some job → (cl.run before).stepJob index = none) :
    (cl.run events).jobs[index]? = some job := by
  induction events using List.reverseRecOn with
  | nil => exact found
  | append_singleton events event earlier =>
    have before : (cl.run events).jobs[index]? = some job := by
      refine earlier ?_ ?_ ?_
      · exact fun t result heard => deaf t result (List.mem_append_left _ heard)
      · exact fun given => present (List.mem_append_left _ given)
      · exact fun first rest split => still first (rest ++ [event]) (by simp [split])
    have last : ∀ {e : ClientEvent}, event = e → e ∈ events ++ [event] := by
      rintro e rfl
      exact List.mem_append_right _ (List.mem_singleton.mpr rfl)
    rw [run_concat]
    obtain ⟨job', found', step⟩ := step_job before event
    cases step with
    | same => exact found'
    | hears t result heard => rw [found', deaf t result (last heard)]
    | gone given => exact absurd (last given) present
    | turns _ advance turn =>
      have idle := still events [] (by rw [advance]) before
      rw [advance, step, idle]
      exact before

theorem over_run {events : List ClientEvent} {result : Except CallError Reply}
    (settled : cl.jobs[index]? = some (.over result)) (present : .abandon index ∉ events) :
    (cl.run events).jobs[index]? = some (.over result) := by
  refine stands_run settled (fun _ _ _ => rfl) present ?_
  intro before rest _ stands
  simp only [stepJob, stands]

/-! ## Calls that were cut off -/

theorem advance_cutOff (found : cl.jobs[index]? = some job) (carries : job.Carries a)
    (cut : a.ending? cl.now cl.correlator = some .cancelled) :
    (cl.step (.advance index)).jobs[index]? =
      some (.over (cl.failure Attempt.cancelledError job)) := by
  cases carries with
  | call plan after number =>
    have stepped : cl.stepJob index = some ((cl.settleAftermath after
        (.error Attempt.cancelledError)).finishJob index (.error Attempt.cancelledError)
          (a.close cl.correlator)) := by
      simp only [stepJob, found, plan.step_cutOff number cut]
    rw [step, stepped]
    exact getElem?_set_of_some _ found
  | read r modeOnly flight number =>
    cases r with
    | config =>
      have found : cl.jobs[index]? =
        some (.readConfig modeOnly (.leading flight (.attempting number a))) := found
      simp only [step, stepJob, found, ReadPlan.step, cl.configPlan.fetch.step_cutOff number cut]
      exact getElem?_set_of_some _ found
    | proxies =>
      have found : cl.jobs[index]? =
        some (.readProxies (.leading flight (.attempting number a))) := found
      simp only [step, stepJob, found, ReadPlan.step, cl.proxiesPlan.fetch.step_cutOff number cut]
      exact getElem?_set_of_some _ found

theorem stepJob_under (found : cl.jobs[index]? = some job) (carries : job.Carries a)
    (under : a.ending? cl.now cl.correlator = none) : cl.stepJob index = none := by
  have stays : ∀ {α : Type} (p : CallPlan α) (number : Nat),
      p.step (.attempting number a) cl.now cl.correlator = .stay := by
    intro α p number
    simp only [CallPlan.step, p.outcome?_eq, under, Option.map_none]
  cases carries with
  | call plan after number => simp only [stepJob, found, stays]
  | read r modeOnly flight number =>
    cases r with
    | config =>
      have found : cl.jobs[index]? =
        some (.readConfig modeOnly (.leading flight (.attempting number a))) := found
      simp only [stepJob, found, ReadPlan.step, stays]
    | proxies =>
      have found : cl.jobs[index]? =
        some (.readProxies (.leading flight (.attempting number a))) := found
      simp only [stepJob, found, ReadPlan.step, stays]

theorem Lapsed.run (lapsed : cl.correlator.Lapsed t) (events : List ClientEvent) :
    (cl.run events).correlator.Lapsed t := by
  induction events using List.reverseRecOn with
  | nil => exact lapsed
  | append_singleton events event earlier =>
    rw [run_concat]
    exact earlier.evolves ((cl.run events).step_extends event).correlator

/-- What it means for the attempts that hold a ticket that its call was cancelled. -/
structure CutOff (cl : Client) (t : Ticket) : Prop where
  ending : ∀ a : Attempt, a.ticket = t → a.ending? cl.now cl.correlator = a.endingCutOff? cl.now
  /-- Being cut off ends every call, whatever it fetches and however many attempts are left. -/
  last : ∀ {α : Type} (p : CallPlan α) (number : Nat) (a : Attempt), a.ticket = t →
    a.transmission = some (.ok ()) →
      p.step (.attempting number a) cl.now cl.correlator =
        .finish (.error Attempt.cancelledError) (a.close cl.correlator)
  /-- A job whose call is in its wait fails at its next turn, whatever happens before and after. -/
  waits : ∀ (index : Nat) (job : Job) (a : Attempt), cl.jobs[index]? = some job → job.Carries a →
    a.ticket = t → a.transmission = some (.ok ()) →
      ∀ first rest, .advance index ∉ first → .abandon index ∉ first ++ rest →
        (cl.run (first ++ .advance index :: rest)).jobs[index]? =
          some (.over ((cl.run first).failure Attempt.cancelledError job))
  sends : ∀ (index : Nat) (job : Job) (a : Attempt), cl.jobs[index]? = some job → job.Carries a →
    a.ticket = t → a.transmission = none →
      ∀ first second rest, (∀ result, .transmitted t result ∉ first) →
        (cl.run first).now < a.deadline → .advance index ∉ second →
        .abandon index ∉ first ++ second ++ rest →
        (cl.run (first ++ .transmitted t (.ok ()) :: second ++
            .advance index :: rest)).jobs[index]? =
          some (.over ((cl.run (first ++ .transmitted t (.ok ()) :: second)).failure
            Attempt.cancelledError job))
  probes : ∀ (index : Nat) (w : Wait) (a : Attempt),
    cl.jobs[index]? = some (.waiting w (.probing a)) → a.ticket = t →
      a.transmission = some (.ok ()) → (cl.step (.advance index)).jobs[index]? =
        some (if w.started + w.maxWait ≤ cl.now + w.interval then
          .over (.error Attempt.cancelledError) else .waiting w (.pausing (cl.now + w.interval)))
  tests : ∀ (s : Settings) (b : Batch) (node : String) (plan : CallPlan DelayResult) (number : Nat)
    (a : Attempt), a.ticket = t → a.transmission = some (.ok ()) →
      TestPhase.step s b node cl.now cl.correlator (.calling plan (.attempting number a)) =
        some (.over (.error Attempt.cancelledError), [], a.close cl.correlator)

theorem failure_mapAttempt (cl : Client) (e : CallError) (job : Job) (f : Attempt → Attempt) :
    cl.failure e (job.mapAttempt f) = cl.failure e job := by
  cases job <;> rfl

/-- The attempts that hold a ticket for which nothing is kept any more have been cut off. -/
theorem ending?_of_lapsed (lapsed : cl.correlator.Lapsed t) (own : a.ticket = t)
    (sent : a.transmission = some (.ok ())) :
    a.ending? cl.now cl.correlator = some .cancelled := by
  rw [Attempt.ending?_of_cancelled (by rw [own]; exact lapsed.status), Attempt.endingCutOff?, sent]

theorem transmitted_of_sent (sent : a.transmission = some (.ok ())) (u : Ticket)
    (result : Except TransportError Unit) : a.transmitted u result = a := by
  rw [Attempt.transmitted, if_neg]
  rintro ⟨_, unsent⟩
  rw [sent] at unsent
  cases unsent

theorem waits_of_lapsed (lapsed : cl.correlator.Lapsed t) (found : cl.jobs[index]? = some job)
    (carries : job.Carries a) (own : a.ticket = t) (sent : a.transmission = some (.ok ()))
    {first rest : List ClientEvent} (still : .advance index ∉ first)
    (present : .abandon index ∉ first ++ rest) :
    (cl.run (first ++ .advance index :: rest)).jobs[index]? =
      some (.over ((cl.run first).failure Attempt.cancelledError job)) := by
  rw [List.mem_append, not_or] at present
  have stands : (cl.run first).jobs[index]? = some job := by
    refine stands_run found ?_ present.1 ?_
    · exact fun u result _ => carries.deaf (transmitted_of_sent sent u result)
    · intro before rest split _
      exact absurd (by simp [split]) still
  have settled :=
    advance_cutOff stands carries (ending?_of_lapsed (Lapsed.run lapsed first) own sent)
  have stays := over_run settled present.2
  rw [run_append]
  exact stays

/-- A call whose request has yet to be sent goes on as it stands. -/
theorem stands_unsent (found : cl.jobs[index]? = some job) (carries : job.Carries a)
    (unsent : a.transmission = none) {events : List ClientEvent}
    (quiet : ∀ result, .transmitted a.ticket result ∉ events)
    (early : (cl.run events).now < a.deadline) (present : .abandon index ∉ events) :
    (cl.run events).jobs[index]? = some job := by
  refine stands_run found ?_ present ?_
  · intro u result heard
    refine carries.deaf (if_neg ?_)
    rintro ⟨rfl, _⟩
    exact quiet result heard
  · intro before rest split stands
    refine stepJob_under stands carries ?_
    have earlier := (cl.run before).run_now_le (.advance index :: rest)
    rw [← run_append, ← split] at earlier
    simp only [Attempt.ending?, unsent]
    exact if_neg (by omega)

theorem sends_of_lapsed (lapsed : cl.correlator.Lapsed t) (found : cl.jobs[index]? = some job)
    (carries : job.Carries a) (own : a.ticket = t) (unsent : a.transmission = none)
    {first second rest : List ClientEvent} (quiet : ∀ result, .transmitted t result ∉ first)
    (early : (cl.run first).now < a.deadline) (still : .advance index ∉ second)
    (present : .abandon index ∉ first ++ second ++ rest) :
    (cl.run (first ++ .transmitted t (.ok ()) :: second ++ .advance index :: rest)).jobs[index]? =
      some (.over ((cl.run (first ++ .transmitted t (.ok ()) :: second)).failure
        Attempt.cancelledError job)) := by
  simp only [List.mem_append, not_or] at present
  have stands := stands_unsent found carries unsent (by rw [own]; exact quiet) early present.1.1
  have accepted : Attempt.transmitted t (.ok ()) a = { a with transmission := some (.ok ()) } :=
    if_pos ⟨own, by rw [unsent]; rfl⟩
  have carries' := carries.mapAttempt (Attempt.transmitted t (.ok ()))
  rw [accepted] at carries'
  have found' : ((cl.run first).step (.transmitted t (.ok ()))).jobs[index]? =
      some (job.mapAttempt (Attempt.transmitted t (.ok ()))) := by
    have mapped :
        ((cl.run first).jobs.map (Job.mapAttempt (Attempt.transmitted t (.ok ()))))[index]? =
        some (job.mapAttempt (Attempt.transmitted t (.ok ()))) := by
      rw [List.getElem?_map, stands]
      rfl
    exact mapped
  have lapsed' := Lapsed.run lapsed (first ++ [.transmitted t (.ok ())])
  rw [run_concat] at lapsed'
  have present' : .abandon index ∉ second ++ rest := by simp [present.1.2, present.2]
  have settled := waits_of_lapsed lapsed' found' carries' own rfl still present'
  have after : ∀ later, cl.run (first ++ .transmitted t (.ok ()) :: later) =
      ((cl.run first).step (.transmitted t (.ok ()))).run later :=
    fun later => cl.run_append first (.transmitted t (.ok ()) :: later)
  rw [failure_mapAttempt] at settled
  rw [List.append_assoc, List.cons_append, after, after]
  exact settled

theorem probes_of_lapsed (lapsed : cl.correlator.Lapsed t) {w : Wait}
    (found : cl.jobs[index]? = some (.waiting w (.probing a))) (own : a.ticket = t)
    (sent : a.transmission = some (.ok ())) :
    (cl.step (.advance index)).jobs[index]? =
      some (if w.started + w.maxWait ≤ cl.now + w.interval then
        .over (.error Attempt.cancelledError)
        else .waiting w (.pausing (cl.now + w.interval))) := by
  have cut := ending?_of_lapsed lapsed own sent
  have outcome : w.outcome? a cl.now cl.correlator = some (.error Attempt.cancelledError) := by
    rw [Wait.outcome?, a.outcome?_eq, cut]
    rfl
  have keeps : (!Wait.keepsPolling Attempt.cancelledError) = false := rfl
  simp only [step, stepJob, found, Wait.step, outcome, Wait.afterProbe, keeps, Bool.false_eq_true,
    if_false]
  by_cases late : w.started + w.maxWait ≤ cl.now + w.interval
  · simp only [if_pos late]
    exact getElem?_set_of_some _ found
  · simp only [if_neg late]
    exact getElem?_set_of_some _ found

theorem cutOff_of_lapsed (lapsed : cl.correlator.Lapsed t) : cl.CutOff t where
  ending a own := Attempt.ending?_of_cancelled (by rw [own]; exact lapsed.status)
  last p number a own sent := p.step_cutOff number (ending?_of_lapsed lapsed own sent)
  waits index job a found carries own sent first rest still present :=
    waits_of_lapsed lapsed found carries own sent still present
  sends index job a found carries own unsent first second rest quiet early still present :=
    sends_of_lapsed lapsed found carries own unsent quiet early still present
  probes index w a found own sent := probes_of_lapsed lapsed found own sent
  tests := by
    intro s b node plan number a own sent
    simp only [TestPhase.step, plan.step_cutOff number (ending?_of_lapsed lapsed own sent)]

/-! ## Calls that nobody answers -/

/-- The result of a call is the error of its own send, or that its time is over. -/
def Unanswered (p : CallPlan Reply) (result : Except CallError Reply) : Prop :=
  (∃ e, result = .error (.ofTransport e)) ∨
    result = .error (Attempt.timeoutError p.request.path p.timeout)

/-- Where a call can stand whose attempts all begin after `n` registrations and get no response. -/
inductive LateCall (p : CallPlan Reply) (after : Aftermath) (n : Nat) : Job → Prop where
  | fresh : LateCall p after n (.newCall p after)
  | attempting (number : Nat) (a : Attempt) (late : n ≤ a.ticket.serial) :
      LateCall p after n (.call p after (.attempting number a))
  | pausing (number resume : Nat) : LateCall p after n (.call p after (.pausing number resume))
  | starved : LateCall p after n (.call p after .starved)
  | settled (result : Except CallError Reply) (failed : Unanswered p result) :
      LateCall p after n (.over result)
  | gone : LateCall p after n .gone

variable {p : CallPlan Reply} {after : Aftermath} {n : Nat}

theorem lateCall_begin {number now : Nat} {c c' : Correlator} {call : CallPhase}
    {sends : List Sending} (begun : p.beginAttempt number now c = (call, sends, c'))
    (late : n ≤ c.registered) : LateCall p after n (.call p after call) := by
  have sent := (p.beginAttempt_cases number now begun).2
  cases call with
  | attempting number a =>
    obtain ⟨_, serial⟩ := sent a rfl
    exact .attempting number a (by omega)
  | pausing number resume => exact .pausing number resume
  | starved => exact .starved

theorem LateCall.mapAttempt (late : LateCall p after n job) (t : Ticket)
    (result : Except TransportError Unit) :
    LateCall p after n (job.mapAttempt (Attempt.transmitted t result)) := by
  cases late with
  | attempting number a late =>
    refine .attempting number _ ?_
    rw [transmitted_ticket]
    exact late
  | fresh => exact .fresh
  | pausing number resume => exact .pausing number resume
  | starved => exact .starved
  | settled result failed => exact .settled result failed
  | gone => exact .gone

theorem unanswered_outcome {ending : Ending}
    (ended : (∃ e, ending = .refused e) ∨ ending = .expired) : Unanswered p (p.outcome ending) := by
  rcases ended with ⟨e, rfl⟩ | rfl
  · exact Or.inl ⟨e, rfl⟩
  · exact Or.inr rfl

theorem LateCall.goes {cl' : Client} {job' : Job} (late : LateCall p after n job)
    (grown : n ≤ cl.correlator.registered)
    (unanswered : ∀ a ∈ job.attempts, n ≤ a.ticket.serial →
      a.ending? cl.now cl.correlator = a.endingUnanswered? cl.now)
    (goes : cl.JobGoes index job job' cl') : LateCall p after n job' := by
  cases goes with
  | begins plan after' call sends c step =>
    cases late
    exact lateCall_begin step grown
  | calls plan after' call call' sends c step =>
    have steps := plan.step_cases call cl.now cl.correlator
    rw [step] at steps
    cases steps with
    | pauses number a ending ended retryable left =>
      cases late
      exact .pausing number _
    | resumes number resume due _ _ _ begun =>
      cases late
      exact lateCall_begin begun grown
  | ends plan after' call result c step =>
    have steps := plan.step_cases call cl.now cl.correlator
    rw [step] at steps
    cases steps with
    | ends number a ending ended last =>
      cases late with
      | attempting _ _ late =>
        rw [unanswered a (List.mem_singleton.mpr rfl) late] at ended
        exact .settled _ (unanswered_outcome (Attempt.endingUnanswered?_cases ended))
  | reads r => cases r <;> cases late
  | answers r => cases r <;> cases late
  | _ => cases late

section Late

variable {settings : Settings} {before later : List ClientEvent}

/-- An attempt that begins after the end of the listener ends with the error of its own
send, or when its time is over. -/
theorem ending?_late (ended : (run { settings } before).listener.isRunning = false)
    (apart : (run { settings } before).StaysApart later) (solitary : Solitary later)
    (held : a.ticket ∈ (run { settings } (before ++ later)).held)
    (late : (run { settings } before).correlator.registered ≤ a.ticket.serial) :
    a.ending? (run { settings } (before ++ later)).now
        (run { settings } (before ++ later)).correlator =
      a.endingUnanswered? (run { settings } (before ++ later)).now :=
  Attempt.ending?_of_waiting (waiting_late ended apart solitary held late)

theorem Solitary.of_append {events more : List ClientEvent} (solitary : Solitary (events ++ more)) :
    Solitary events :=
  fun event member => solitary event (List.mem_append_left _ member)

theorem lateCall_run (ended : (run { settings } before).listener.isRunning = false)
    (apart : (run { settings } before).StaysApart later) (solitary : Solitary later)
    (found : (run { settings } before).jobs[index]? = some job)
    (waits : job = .newCall p after ∨
      ∃ number resume, job = .call p after (.pausing number resume))
    {job' : Job} (found' : (run { settings } (before ++ later)).jobs[index]? = some job') :
    LateCall p after (run { settings } before).correlator.registered job' := by
  rw [run_append] at found'
  refine job_run (P := LateCall p after (run { settings } before).correlator.registered)
    (List.getElem?_eq_some_iff.mp found).1 ?_ .gone
    (fun _ t result late => late.mapAttempt t result)
    ?_ found'
  · intro job₀ found₀
    rw [found] at found₀
    cases found₀
    rcases waits with rfl | ⟨number, resume, rfl⟩
    · exact .fresh
    · exact .pausing number resume
  · intro first rest job₀ job₁ split found₀ late goes
    have grown := ((run { settings } before).run_grows first).registered
    refine late.goes grown ?_ goes
    intro a mem begun
    have held := held_of_job found₀ mem
    rw [split] at apart
    rw [split] at solitary
    rw [← run_append] at held ⊢
    exact ending?_late ended apart.of_append solitary.of_append held begun

/-- What the attempt with a ticket is told that was pending before the last of some events. -/
structure Told (settings : Settings) (before later : List ClientEvent) (t : Ticket) : Prop where
  answered : ∀ e, t.firstOf ((run { settings } before).taken later) = some e →
    (run { settings } (before ++ later)).correlator.status t = .delivered e
  cancelled : t.firstOf ((run { settings } before).taken later) = none →
    (run { settings } before).hasEnded later = true →
      (run { settings } (before ++ later)).correlator.status t = .cancelled
  waiting : t.firstOf ((run { settings } before).taken later) = none →
    (run { settings } before).hasEnded later = false →
      (run { settings } (before ++ later)).correlator.status t = .waiting

theorem told_run (apart : (run { settings } before).StaysApart later) (solitary : Solitary later)
    (pending : t ∈ (run { settings } before).correlator.pending)
    (held : t ∈ (run { settings } before).held)
    (held' : t ∈ (run { settings } (before ++ later)).held) : Told settings before later t := by
  have status := status_run apart solitary held held'
  rw [((sent_start settings).run before).shape.status_waiting pending] at status
  refine ⟨?_, ?_, ?_⟩
  · intro e first
    rw [status, news, TicketStatus.hear, first]
    exact ite_self _
  · intro absent ended
    rw [status, news, ended, TicketStatus.hear, absent]
    rfl
  · intro absent lasts
    rw [status, news, lasts, TicketStatus.hear, absent]
    rfl

/-- A listener that ends without being told to has taken all that was there and all that was put. -/
theorem taken_all (ended : (run { settings } (before ++ later)).listener.isRunning = false)
    (notStopped : (run { settings } before).listener.isStopped = false)
    (unasked : .stopListener ∉ later) :
    (run { settings } before).taken later =
      (run { settings } before).listener.queue ++ (run { settings } before).put later := by
  obtain ⟨lost, order⟩ := (run { settings } before).inOrder_run later
  have nothing : lost = [] := by
    by_contra left
    rcases (order.loses left).2 with stopped | asked
    · rw [notStopped] at stopped
      cases stopped
    · exact unasked asked
  have emptied := emptied_run settings (before ++ later) ended
  rw [run_append] at emptied
  have queue := order.queue
  rw [emptied, nothing, List.append_nil, List.append_nil] at queue
  exact queue.symm

end Late

/-- What the end of the inbound stream means for a client, wherever it stands. -/
structure StreamEnd (settings : Settings) (before : List ClientEvent) : Prop where
  shape : (run { settings } before).correlator.WellFormed
  /-- A listener that is left alone with a closed channel dispatches what is left in it and cancels
  every other pending call, whatever the correlator. -/
  drains : ∀ (l : Listener) (c : Correlator), c.WellFormed → l.isRunning = true →
    l.isStopped = false → l.isOpen = false → l.Drains c
  listens : (run { settings } before).Listens ((run { settings } before).step .listen)
  order : ∀ later, ∃ lost, (run { settings } before).InOrder later lost
  /-- All that was there and all that is put is taken before the listener ends, unless it was
  told to stop. -/
  all : ∀ later, (run { settings } (before ++ later)).listener.isRunning = false →
    (run { settings } before).listener.isStopped = false → .stopListener ∉ later →
      (run { settings } before).taken later =
        (run { settings } before).listener.queue ++ (run { settings } before).put later
  /-- Tickets stay apart unless sequence numbers come round or someone waits by hand for a
  ticket of the number of a request. -/
  apart : ∀ later, drawn { settings } (before ++ later) ≤ UInt64.size →
    (∀ u limit, .start (.await u limit) ∈ before ++ later →
      ∀ s ∈ (run { settings } (before ++ later)).sends, s.ticket.seq ≠ u.seq) →
    (run { settings } before).StaysApart later
  /-- If only the listener tells the correlator anything, each attempt under way whose call
  is pending receives the first response with its id, and is cancelled if there is none. -/
  told : ∀ later, (run { settings } before).StaysApart later → Solitary later →
    ∀ t ∈ (run { settings } before).correlator.pending, t ∈ (run { settings } before).held →
      t ∈ (run { settings } (before ++ later)).held → Told settings before later t
  empties : (run { settings } before).listener.isEnding (run { settings } before).stopFirst = true →
    ((run { settings } before).step .listen).correlator.pendingCount = 0 ∧
      ((run { settings } before).step .listen).listener.isRunning = false
  cutOff : (run { settings } before).listener.isEnding (run { settings } before).stopFirst = true →
    ∀ t ∈ (run { settings } before).correlator.pending, ∀ later,
      (((run { settings } before).step .listen).run later).CutOff t
  silent : (run { settings } before).listener.isRunning = false → ∀ later,
    (∀ e, .dispatch e ∉ later) → ∀ d ∈ (run { settings } (before ++ later)).correlator.delivered,
      d ∈ (run { settings } before).correlator.delivered
  neverOk : (run { settings } before).listener.isRunning = false → ∀ later,
    (∀ e, .dispatch e ∉ later) → ∀ a : Attempt,
      (run { settings } before).correlator.registered ≤ a.ticket.serial →
        ∀ path timeout body, a.outcome? path timeout (run { settings } (before ++ later)).now
          (run { settings } (before ++ later)).correlator ≠ some (.ok body)
  /-- An attempt that begins after the end of the listener ends with the error of its own send,
  or else when its time is over. -/
  unanswered : (run { settings } before).listener.isRunning = false → ∀ later,
    (run { settings } before).StaysApart later → Solitary later →
      ∀ a ∈ (run { settings } (before ++ later)).attempts,
        (run { settings } before).correlator.registered ≤ a.ticket.serial →
          a.ending? (run { settings } (before ++ later)).now
              (run { settings } (before ++ later)).correlator =
            a.endingUnanswered? (run { settings } (before ++ later)).now
  calls : (run { settings } before).listener.isRunning = false → ∀ later,
    (run { settings } before).StaysApart later → Solitary later →
      ∀ (index : Nat) (job : Job) (p : CallPlan Reply) (after : Aftermath),
        (run { settings } before).jobs[index]? = some job →
        (job = .newCall p after ∨ ∃ number resume, job = .call p after (.pausing number resume)) →
          ∀ result, (run { settings } (before ++ later)).jobs[index]? = some (.over result) →
            Unanswered p result

/-- The end of the inbound stream, under every schedule. -/
theorem streamEnd (settings : Settings) (before : List ClientEvent) :
    StreamEnd settings before where
  shape := ((sent_start settings).run before).shape
  drains _ _ shape running notStopped closed := Listener.drains running notStopped closed shape
  listens := (run { settings } before).step_listens
  order later := (run { settings } before).inOrder_run later
  all _ ended notStopped unasked := taken_all ended notStopped unasked
  apart _ few waited := staysApart_of_few few waited
  told _ apart solitary _ pending held held' := told_run apart solitary pending held held'
  empties ending := by
    rw [step_ending ending]
    exact ⟨rfl, rfl⟩
  cutOff ending t pending later := by
    apply cutOff_of_lapsed
    apply Lapsed.run
    rw [step_ending ending]
    exact ((sent_start settings).run before).shape.lapsed_of_cancelAll pending
  silent ended later undispatched := by
    rw [run_append]
    exact delivered_run ended undispatched
  neverOk ended later undispatched a late := by
    refine Attempt.outcome?_ne_ok ?_
    intro e delivered
    rw [run_append] at delivered
    have before' := delivered_run ended undispatched _ delivered
    have older := ((sent_start settings).run before).shape.delivered_registered _ before'
    exact Nat.not_lt.mpr late older
  unanswered ended later apart solitary a mem late := by
    refine ending?_late ended apart solitary ?_ late
    rw [held_eq]
    exact List.mem_map_of_mem mem
  calls ended later apart solitary index job p after found waits result settled := by
    have late := lateCall_run ended apart solitary found waits settled
    cases late with
    | settled _ failed => exact failed

/-- Two calls are under way when the channel is closed, one in its wait and one that has yet
to be sent; a third one is made afterwards. -/
example :
    let call := ClientEvent.start
      (.exchange .quick (.get "/version") fun body => .ok (.text body))
    let cl := run {} [call, call, .advance 0, .advance 1, .transmitted ⟨⟨1⟩, 0, 0⟩ (.ok ()),
      .closeInbound, .listen, .advance 0, .transmitted ⟨⟨2⟩, 1, 1⟩ (.ok ()), .advance 1,
      call, .advance 2, .transmitted ⟨⟨3⟩, 2, 2⟩ (.ok ()), .pass 8000, .advance 2]
    cl.jobs[0]? = some (.over (.error Attempt.cancelledError)) ∧
      cl.jobs[1]? = some (.over (.error Attempt.cancelledError)) ∧
      cl.jobs[2]? = some (.over (.error (Attempt.timeoutError "/version" 8000))) :=
  ⟨rfl, rfl, rfl⟩

end Client

end ProxyConsole
