import ProxyConsole.Proofs.Client.FirstAttempt
import ProxyConsole.Proofs.Client.Paths
import ProxyConsole.Proofs.Resource

/-!
# The time a delay test is granted

A delay test is asked for with a time for the backend to measure in.  The attempt itself
is limited by the time of long operations, whatever the test was granted.  So a test is
given its time only as far as that limit goes: an answer up to there is returned, and a
later one, though in the time granted, finds the test given up.
-/

set_option autoImplicit false

namespace ProxyConsole

/-- A response reports the result of a delay test. -/
def InboundEnvelope.Reports (e : InboundEnvelope) (d : DelayResult) : Prop :=
  ∃ body, e.classify = .ok body ∧ DelayResult.codec.ofText body = .ok d

/-- A request was sent at once, and the first that came of it, before a time had passed, was a
response that reports a result. -/
structure Course.Timely (course : Course) (timeout : Nat) (d : DelayResult) : Prop where
  sent : course.sent = some (course.began, .ok ())
  answered : ∃ moment e, course.told = some (moment, .answered e) ∧
    moment < course.began + timeout ∧ e.Reports d

theorem Course.Timely.ending {course : Course} {timeout limit ended : Nat} {d : DelayResult}
    {ending : Ending} (timely : course.Timely timeout d) (within : timeout ≤ limit)
    (limited : 0 < limit) (explained : course.Explains limit ended ending) :
    ∃ e, ending = .answered e ∧ e.Reports d := by
  obtain ⟨sent, moment, e, told, inTime, reports⟩ := timely
  cases explained with
  | refused e' moment' sent' =>
    rw [sent] at sent'
    cases sent'
  | answered e' moment' moment'' sent' before told' before' =>
    rw [told] at told'
    cases told'
    exact ⟨e, rfl, reports⟩
  | cancelled moment' moment'' sent' before told' before' =>
    rw [told] at told'
    cases told'
  | unsent late missing =>
    have first := missing _ _ sent
    omega
  | untold moment' sent' late missing =>
    have first := missing _ _ told
    omega

namespace Operation

/-- The call of a delay test. -/
def delayCall (s : Settings) (path : String) : CallPlan Reply :=
  plan s .long (.get path) fun body => (decodeBody DelayResult.codec path body).map .delay

theorem delayCall_outcome {s : Settings} {path : String} {e : InboundEnvelope} {d : DelayResult}
    (reports : e.Reports d) : (delayCall s path).outcome (.answered e) = .ok (.delay d) := by
  obtain ⟨body, classified, decoded⟩ := reports
  have value : decodeBody DelayResult.codec path body = .ok d := by
    rw [decodeBody, decoded]
  rw [CallPlan.outcome, Ending.received, classified]
  change (decodeBody DelayResult.codec path body).map Reply.delay = _
  rw [value]
  rfl

/-- The path of a delay test. -/
def testPath (node url : String) (timeout : Nat) : String :=
  Target.path (.delay (Text.trim node) (Text.trim url) timeout)

theorem script_testDelay {s : Settings} {node url : String} {timeout : Nat}
    (accepts : (testDelay node url timeout).Accepts) :
    (testDelay node url timeout).script s =
      .ok (.call (delayCall s (testPath node url timeout)) {}) := by
  have made := delayRequest_ok.mpr ⟨accepts, rfl⟩
  rw [script, made]
  rfl

end Operation

namespace Client

open Operation (testDelay delayCall testPath)

/-- A delay test that is sent at once and answered in the time it was granted returns the result: it
returns nothing else, and it does so with its next turn at the latest. -/
def Granted (settings : Settings) (node url : String) (timeout : Nat) : Prop :=
  ∀ (before later : List Happening) (course : Course) (d : DelayResult),
    let op := testDelay node url timeout
    let index := (live { settings } before).jobs.length
    let cl := (opening settings before op).live later
    Ordinary settings (before ++ .event (.start op) :: later) →
      (opening settings before op).course index later = some course → course.Timely timeout d →
        (∀ result, cl.jobs[index]? = some (.over result) → result = .ok (.delay d)) ∧
          (cl.jobs[index]? ≠ some .gone →
            (cl.step (.advance index)).jobs[index]? = some (.over (.ok (.delay d))))

theorem advance_final {cl : Client} {index : Nat} {p : CallPlan Reply} {after : Aftermath}
    {number : Nat} {a : Attempt} {ending : Ending}
    (found : cl.jobs[index]? = some (.call p after (.attempting number a)))
    (ended : a.ending? cl.now cl.correlator = some ending)
    (final : ¬ Retryable (p.outcome ending)) :
    (cl.step (.advance index)).jobs = cl.jobs.set index (.over (p.outcome ending)) := by
  rcases p.afterAttempt_cases number cl.now (p.outcome ending) (a.close cl.correlator) with
    ⟨retryable, _⟩ | ⟨_, next⟩
  · exact absurd retryable final
  · simp only [step, stepJob, found, CallPlan.step, CallPlan.outcome?_eq, ended, Option.map_some,
      next, Option.getD_some]
    rfl

theorem advance_over {cl : Client} {index : Nat} {result : Except CallError Reply}
    (found : cl.jobs[index]? = some (.over result)) :
    (cl.step (.advance index)).jobs[index]? = some (.over result) := by
  simp only [step, stepJob, found, Option.getD_none]

theorem Standing.timely {prompt : Prop} {p : CallPlan Reply} {after : Aftermath} {cl : Client}
    {index : Nat} {job : Job} {course : Course} {timeout : Nat} {d : DelayResult} {reply : Reply}
    (standing : Standing prompt p after cl job (some course)) (found : cl.jobs[index]? = some job)
    (timely : course.Timely timeout d) (within : timeout ≤ p.timeout) (limited : 0 < p.timeout)
    (success : ∀ e : InboundEnvelope, e.Reports d → p.outcome (.answered e) = .ok reply) :
    (∀ result, job = .over result → result = .ok reply) ∧
      (job ≠ .gone → (cl.step (.advance index)).jobs[index]? = some (.over (.ok reply))) := by
  cases standing with
  | under a _ guides =>
    constructor
    · intro result same
      cases same
    intro _
    obtain ⟨posted, moment, e, told, inTime, reports⟩ := timely
    have ended : a.ending? cl.now cl.correlator = some (.answered e) := by
      simp only [Attempt.ending?, guides.sent, guides.told trivial, posted, told, Option.map_some,
        TicketStatus.learn]
    have final : ¬ Retryable (p.outcome (.answered e)) := by
      rw [success e reports]
      rintro ⟨_, same, _⟩
      cases same
    rw [advance_final found ended final, success e reports]
    exact Positions.getElem?_set_of_some _ found
  | settled _ ended ending noted concluded =>
    have explained : course.Explains p.timeout ended ending := concluded.explained trivial
    obtain ⟨e, rfl, reports⟩ := timely.ending within limited explained
    rw [success e reports] at found ⊢
    refine ⟨?_, fun _ => advance_over found⟩
    rintro result same
    exact (Job.over.inj same).symm
  | failed _ _ ended ending concluded retried =>
    have explained : course.Explains p.timeout ended ending := concluded.explained trivial
    obtain ⟨e, rfl, reports⟩ := timely.ending within limited explained
    obtain ⟨e', failure, _⟩ := retried
    rw [success e reports] at failure
    cases failure
  | givenUp =>
    constructor
    · intro result same
      cases same
    · exact fun present => absurd rfl present

/-- Within the limit of long operations every accepted test is given its time. -/
theorem granted_of_le {settings : Settings} {node url : String} {timeout : Nat}
    (accepts : (testDelay node url timeout).Accepts)
    (within : timeout ≤ settings.timeouts.long.toNat) : Granted settings node url timeout := by
  intro before later course d op index cl ordinary seen timely
  obtain ⟨job, found, standing⟩ := standing_after (Operation.script_testDelay accepts) ordinary
  rw [seen] at standing
  have limited : 0 < settings.timeouts.long.toNat := Nat.lt_of_lt_of_le accepts.2.2.1 within
  obtain ⟨returns, next⟩ := standing.timely found timely within limited
    fun e reports => Operation.delayCall_outcome reports
  refine ⟨fun result settled => ?_, fun present => next fun gone => present ?_⟩
  · exact returns result (Option.some.inj (found.symm.trans settled))
  · exact found.trans (congrArg some gone)

/-- A call is sent at once, its attempt runs out of time, and after that it is answered. -/
def lateAnswer (limit moment : Nat) (d : DelayResult) : List Happening :=
  [.event (.advance 0), .event (.transmitted ⟨⟨1⟩, 0, 0⟩ (.ok ())), .event (.pass limit),
    .event (.advance 0), .event (.pass moment),
    .event (.dispatch (.ok ⟨1⟩ (DelayResult.codec.text d)))]

theorem lateAnswer_reports (d : DelayResult) :
    (InboundEnvelope.ok ⟨1⟩ (DelayResult.codec.text d)).Reports d :=
  ⟨DelayResult.codec.text d, rfl, DelayResult.faithful.ofText d⟩

section LateAnswer

variable {settings : Settings} {op : Operation} {p : CallPlan Reply}

theorem lateAnswer_started (accepted : op.script settings = .ok (.call p {})) :
    opening settings [] op = { settings, jobs := [.newCall p {}] } := by
  simp only [opening, live, List.foldl_nil, meet, step, start, accepted]
  rfl

/-- The client while the call waits for an answer. -/
def awaitingAnswer (settings : Settings) (p : CallPlan Reply) (now : Nat) : Client :=
  { settings, now, jobs := [.call p {} (.attempting 1 ⟨⟨⟨1⟩, 0, 0⟩, p.timeout, some (.ok ())⟩)],
    sends := [⟨⟨⟨1⟩, 0, 0⟩, p.request.envelope ⟨1⟩⟩],
    correlator := { nextSeq := 1, registered := 1, pending := [⟨⟨1⟩, 0, 0⟩] } }

theorem newCall_posts :
    (meet { settings, jobs := [.newCall p {}] } (.event (.advance 0))).meet
      (.event (.transmitted ⟨⟨1⟩, 0, 0⟩ (.ok ()))) = awaitingAnswer settings p 0 := by
  have deadline : 0 + p.timeout = p.timeout := Nat.zero_add _
  rw [awaitingAnswer, ← deadline]
  rfl

/-- The course of the attempt up to then. -/
def postedCourse : Course where
  ticket := ⟨⟨1⟩, 0, 0⟩
  began := 0
  sent := some (0, .ok ())

/-- The client once the call is given up. -/
def pastAnswer (settings : Settings) (p : CallPlan Reply) (now : Nat) : Client :=
  { settings, now,
    jobs := [.over (.error (.timedOut p.request.path (Duration.ofMillis p.timeout)))],
    sends := [⟨⟨⟨1⟩, 0, 0⟩, p.request.envelope ⟨1⟩⟩],
    correlator := { nextSeq := 1, registered := 1 } }

theorem awaitingAnswer_expires :
    (awaitingAnswer settings p p.timeout).meet (.event (.advance 0)) =
      pastAnswer settings p p.timeout := by
  have expired : p.step (.attempting 1 ⟨⟨⟨1⟩, 0, 0⟩, p.timeout, some (.ok ())⟩) p.timeout
      (awaitingAnswer settings p p.timeout).correlator =
        .finish (.error (.timedOut p.request.path (Duration.ofMillis p.timeout)))
          { nextSeq := 1, registered := 1 } := by
    have ended : Attempt.ending? ⟨⟨⟨1⟩, 0, 0⟩, p.timeout, some (.ok ())⟩ p.timeout
        (awaitingAnswer settings p p.timeout).correlator = some .expired := by
      rw [Attempt.ending?, if_pos (Nat.le_refl _)]
      rfl
    rw [CallPlan.step, p.outcome?_eq, ended]
    rfl
  have found : (awaitingAnswer settings p p.timeout).jobs[0]? =
      some (.call p {} (.attempting 1 ⟨⟨⟨1⟩, 0, 0⟩, p.timeout, some (.ok ())⟩)) := rfl
  have now : (awaitingAnswer settings p p.timeout).now = p.timeout := rfl
  simp only [meet, step, stepJob, found, now, expired, Option.getD_some]
  rfl

theorem awaitingAnswer_waits (limited : 0 < p.timeout) :
    (awaitingAnswer settings p 0).stepJob 0 = none := by
  have under : p.step (.attempting 1 ⟨⟨⟨1⟩, 0, 0⟩, p.timeout, some (.ok ())⟩) 0
      (awaitingAnswer settings p 0).correlator = .stay := by
    have going : Attempt.ending? ⟨⟨⟨1⟩, 0, 0⟩, p.timeout, some (.ok ())⟩ 0
        (awaitingAnswer settings p 0).correlator = none := by
      rw [Attempt.ending?, if_neg (Nat.not_le.mpr limited)]
      rfl
    rw [CallPlan.step, p.outcome?_eq, going]
    rfl
  have found : (awaitingAnswer settings p 0).jobs[0]? =
      some (.call p {} (.attempting 1 ⟨⟨⟨1⟩, 0, 0⟩, p.timeout, some (.ok ())⟩)) := rfl
  have now : (awaitingAnswer settings p 0).now = 0 := rfl
  simp only [stepJob, found, now, under]

theorem lateAnswer_run (accepted : op.script settings = .ok (.call p {}))
    (limited : 0 < p.timeout) (moment : Nat) (d : DelayResult) :
    ((opening settings [] op).live (lateAnswer p.timeout moment d)).jobs[0]? =
        some (.over (.error (.timedOut p.request.path (Duration.ofMillis p.timeout)))) ∧
      ((opening settings [] op).live (lateAnswer p.timeout moment d)).correlator.registered = 1 ∧
      (opening settings [] op).keepsUp 0 (lateAnswer p.timeout moment d) = true ∧
      (opening settings [] op).course 0 (lateAnswer p.timeout moment d) = some
        { postedCourse with
          told := some (max p.timeout moment, .answered (.ok ⟨1⟩ (DelayResult.codec.text d)))
          ended := some p.timeout } := by
  have passed : (awaitingAnswer settings p 0).meet (.event (.pass p.timeout)) =
      awaitingAnswer settings p p.timeout := by
    simp [awaitingAnswer, meet, step]
  have expires : (awaitingAnswer settings p p.timeout).meet (.event (.advance 0)) =
      pastAnswer settings p p.timeout := awaitingAnswer_expires
  rw [lateAnswer_started accepted]
  have lived : live { settings, jobs := [.newCall p {}] } (lateAnswer p.timeout moment d) =
      ((pastAnswer settings p p.timeout).meet (.event (.pass moment))).meet
        (.event (.dispatch (.ok ⟨1⟩ (DelayResult.codec.text d)))) := by
    simp only [live, lateAnswer, List.foldl_cons, List.foldl_nil, newCall_posts, passed, expires]
  refine ⟨by rw [lived]; rfl, by rw [lived]; rfl, ?_, ?_⟩
  · simp only [keepsUp, lateAnswer, observe, newCall_posts, passed, isPromptly, isPrompt,
      awaitingAnswer_waits limited, expires]
    simp [stepJob, pastAnswer, awaitingAnswer, Job.due, CallPhase.due]
  · have posted : Course.follow (meet { settings, jobs := [.newCall p {}] } (.event (.advance 0))) 0
        (.event (.transmitted ⟨⟨1⟩, 0, 0⟩ (.ok ())))
        (Course.follow { settings, jobs := [.newCall p {}] } 0 (.event (.advance 0)) none) =
          some postedCourse := rfl
    have waits : Course.follow (awaitingAnswer settings p 0) 0 (.event (.pass p.timeout))
        (some postedCourse) = some postedCourse := rfl
    have ends : Course.follow (awaitingAnswer settings p p.timeout) 0 (.event (.advance 0))
        (some postedCourse) = some { postedCourse with ended := some p.timeout } := by
      rw [follow_some, Course.note, expires]
      rfl
    simp only [course, lateAnswer, observe, newCall_posts, passed, expires, posted, waits, ends]
    rfl

end LateAnswer

/-- A test that nothing delays is cut off: its request is sent at once, its result comes at
a moment in the time granted, and it has given up before. -/
structure GivesUpEarly (node url : String) (timeout moment : Nat) (later : List Happening) :
    Prop where
  ordinary : Ordinary {} ([] ++ .event (.start (testDelay node url timeout)) :: later)
  prompt : (opening {} [] (testDelay node url timeout)).keepsUp 0 later = true
  answered : ∃ course d, (opening {} [] (testDelay node url timeout)).course 0 later = some course ∧
    course.Timely timeout d ∧ course.told.map Prod.fst = some (course.began + moment)
  givesUp : ((opening {} [] (testDelay node url timeout)).live later).jobs[0]? = some (.over (.error
    (.timedOut (testPath node url timeout) (Duration.ofMillis 30000))))

theorem givesUpEarly_lateAnswer {node url : String} {timeout moment : Nat}
    (accepts : (testDelay node url timeout).Accepts) (late : 30000 ≤ moment)
    (granted : moment < timeout) (d : DelayResult) :
    GivesUpEarly node url timeout moment (lateAnswer 30000 moment d) := by
  have limit : (delayCall {} (testPath node url timeout)).timeout = 30000 := rfl
  have limited : 0 < (delayCall {} (testPath node url timeout)).timeout := by
    rw [limit]
    decide
  obtain ⟨gaveUp, registered, prompt, course⟩ :=
    lateAnswer_run (Operation.script_testDelay accepts) limited moment d
  rw [limit] at gaveUp registered prompt course
  rw [Nat.max_eq_right late] at course
  have began : postedCourse.began = 0 := rfl
  refine ⟨⟨?_, ?_⟩, prompt, ⟨_, d, course, ⟨rfl, moment, _, rfl, ?_, lateAnswer_reports d⟩, ?_⟩,
    gaveUp⟩
  · rw [live_opening, registered]
    decide
  · simp [lateAnswer]
  · rw [began, Nat.zero_add]
    exact granted
  · rw [began, Nat.zero_add]
    rfl

/-- Under the default settings, a delay test is given the time it was granted. -/
structure GivesTime (node url : String) (timeout : Nat) : Prop where
  granted : Granted {} node url timeout ↔ timeout ≤ 30000
  /-- A test with more time is cut off, though nothing delays it, at any moment that is left. -/
  cutOff : ∀ moment d, 30000 ≤ moment → moment < timeout →
    GivesUpEarly node url timeout moment (lateAnswer 30000 moment d)

theorem not_granted_of_givesUp {node url : String} {timeout moment : Nat} {later : List Happening}
    (early : GivesUpEarly node url timeout moment later) : ¬ Granted {} node url timeout := by
  intro granted
  obtain ⟨course, d, seen, timely, _⟩ := early.answered
  have returns := (granted [] later course d early.ordinary seen timely).1 _ early.givesUp
  cases returns

theorem delay_givesTime {node url : String} {timeout : Nat}
    (accepts : (testDelay node url timeout).Accepts) : GivesTime node url timeout where
  granted := by
    constructor
    · intro granted
      by_contra more
      have late := givesUpEarly_lateAnswer accepts (Nat.le_refl 30000) (Nat.lt_of_not_le more) ⟨1⟩
      exact not_granted_of_givesUp late granted
    · intro within
      have limit : ({} : Settings).timeouts.long.toNat = 30000 := rfl
      exact granted_of_le accepts (by rwa [limit])
  cutOff _ d late granted := givesUpEarly_lateAnswer accepts late granted d

theorem delay_givesTime_short :
    (testDelay "HK" "http://t/" 5000).Accepts ∧ GivesTime "HK" "http://t/" 5000 := by
  have accepts : (testDelay "HK" "http://t/" 5000).Accepts :=
    ⟨⟨'H', by decide, by decide⟩, ⟨'h', by decide, by decide⟩, by decide, by decide⟩
  exact ⟨accepts, delay_givesTime accepts⟩

/-- Not every accepted time is given: one of forty seconds is cut off after thirty. -/
theorem delay_cutOff_forty :
    (testDelay "HK" "http://t/" 40000).Accepts ∧ ¬ Granted {} "HK" "http://t/" 40000 := by
  have accepts : (testDelay "HK" "http://t/" 40000).Accepts :=
    ⟨⟨'H', by decide, by decide⟩, ⟨'h', by decide, by decide⟩, by decide, by decide⟩
  have late : GivesUpEarly "HK" "http://t/" 40000 35000 (lateAnswer 30000 35000 ⟨1⟩) :=
    givesUpEarly_lateAnswer accepts (by decide) (by decide) ⟨1⟩
  exact ⟨accepts, not_granted_of_givesUp late⟩

end Client

end ProxyConsole
