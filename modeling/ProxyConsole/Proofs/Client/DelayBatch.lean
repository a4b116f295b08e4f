import ProxyConsole.Proofs.Client.Batches
import ProxyConsole.Proofs.Client.Replay

/-!
# Batches of delay tests

A batch returns one pair for each of its nodes, in their order.  What the test of a node
comes to depends on what became of its own requests alone, and is what the test of that
node returns if it is made by itself.  At no time are more tests in progress than the
width of the batch allows.
-/

set_option autoImplicit false

namespace ProxyConsole

/-! ## Tests that come to the same -/

/-- The attempts of two tests of a node come to the same, as far as both go. -/
def TestsAlike (s : Settings) (node url : String) (timeout : Nat) (endings endings' : List Ending) :
    Prop :=
  ∀ request, Operation.delayRequest node url timeout = .ok request →
    ∀ (i : Nat) (x y : Ending), endings[i]? = some x → endings'[i]? = some y →
      (Operation.delayPlan s request).outcome x = (Operation.delayPlan s request).outcome y

/-- What the test of a node returns, and after how many attempts, is determined by what
these come to. -/
theorem TestReturns.agree {s : Settings} {node url : String} {timeout : Nat}
    {endings endings' : List Ending} {r r' : Except CallError DelayResult}
    (returns : TestReturns s node url timeout endings r)
    (returns' : TestReturns s node url timeout endings' r')
    (alike : TestsAlike s node url timeout endings endings') :
    endings.length = endings'.length ∧ r = r' := by
  cases returns with
  | refused e invalid =>
    cases returns' with
    | refused e' invalid' =>
      rw [invalid] at invalid'
      cases invalid'
      exact ⟨rfl, rfl⟩
    | answers request accepted =>
      rw [invalid] at accepted
      cases accepted
  | answers request accepted _ _ answers =>
    cases returns' with
    | refused e invalid =>
      rw [accepted] at invalid
      cases invalid
    | answers request' accepted' _ _ answers' =>
      rw [accepted] at accepted'
      cases accepted'
      exact answers.agree answers' (alike request accepted)

namespace Client

/-! ## The test of one node by itself -/

/-- The client in which the test of one node has just been started. -/
def testing (s : Settings) (before : List ClientEvent) (node url : String) (timeout : Nat) :
    Client :=
  (run { settings := s } before).step (.start (.testDelay node url timeout))

/-- The endings of the attempts of the call at an index. -/
def endings (cl : Client) (index : Nat) (events : List ClientEvent) : List Ending :=
  (cl.log index events).past.map Trial.ending

section Alone

variable {s : Settings} {node url : String} {timeout : Nat} {before events : List ClientEvent}

theorem record_settled {cl : Client} {index : Nat} {job : Job} (found : cl.jobs[index]? = some job)
    (settled : job = .gone ∨ ∃ result, job = .over result) (log : CallLog) (event : ClientEvent) :
    log.record cl index event = log := by
  have next := settled_step found settled event
  cases event with
  | advance i =>
    rw [CallLog.record]
    split
    · rename_i own
      subst own
      rw [found]
      rcases next with same | gone
      · rw [same]
        rcases settled with rfl | ⟨result, rfl⟩ <;> rfl
      · rw [gone]
        rcases settled with rfl | ⟨result, rfl⟩ <;> rfl
    · rfl
  | _ => rfl

/-- A job that was over when it was started stays so, unless it is given up, and makes no
attempt. -/
theorem log_of_settled {cl : Client} {index : Nat} {job : Job} (found : cl.jobs[index]? = some job)
    (settled : job = .gone ∨ ∃ result, job = .over result) (events : List ClientEvent) :
    ∃ stands, (cl.run events).jobs[index]? = some stands ∧ (stands = job ∨ stands = .gone) ∧
      cl.log index events = {} := by
  induction events using List.reverseRecOn with
  | nil => exact ⟨job, found, .inl rfl, rfl⟩
  | append_singleton events event earlier =>
    obtain ⟨stands, found', same, empty⟩ := earlier
    have settled' : stands = .gone ∨ ∃ result, stands = .over result := by
      rcases same with rfl | rfl
      · exact settled
      · exact .inl rfl
    have next : ∃ stands', (cl.run (events ++ [event])).jobs[index]? = some stands' ∧
        (stands' = stands ∨ stands' = .gone) := by
      rw [run_concat]
      rcases settled_step found' settled' event with same' | gone
      · exact ⟨_, same', .inl rfl⟩
      · exact ⟨_, gone, .inr rfl⟩
    obtain ⟨stands', found'', same'⟩ := next
    refine ⟨stands', found'', same'.elim (· ▸ same) .inr, ?_⟩
    rw [log_concat, empty]
    exact record_settled found' settled' _ event

theorem Kept.answers {p : CallPlan Reply} {after : Aftermath} {cl : Client} {index : Nat}
    {events : List ClientEvent} {job : Job} {r : Except CallError Reply}
    (kept : Kept p after cl index events job) (budget : 0 < p.attempts)
    (returned : (cl.run events).jobs[index]? = some (.over r)) :
    p.Answers (cl.endings index events) r := by
  obtain ⟨earlier, last, past, idle, rfl, retried, final⟩ := kept.over_result budget returned
  have few := kept.length_attempts_le budget
  have length : (cl.log index events).attempts.length = earlier.length + 1 := by
    rw [CallLog.attempts, past, idle]
    simp
  rw [length] at final few
  rw [endings, past, List.map_append]
  refine .last (earlier.map Trial.ending) last.ending ?_ ?_ ?_
  · simpa using retried
  · rwa [List.length_map]
  · rw [List.length_map]
    exact final.imp_right fun same => Nat.le_of_eq same.symm

/-- The call by which the delay of one node is tested. -/
def lonePlan (s : Settings) (request : Request) : CallPlan Reply :=
  Operation.plan s .long (.get request.path) fun body =>
    (decodeBody DelayResult.codec request.path body).map .delay

theorem lonePlan_outcome (s : Settings) (request : Request) (ending : Ending) :
    (lonePlan s request).outcome ending =
      ((Operation.delayPlan s request).outcome ending).map .delay := by
  have same : (lonePlan s request).outcome ending =
      (ending.received request.path (s.timeouts.of .long)).bind fun body =>
        (decodeBody DelayResult.codec request.path body).map .delay := rfl
  have other : (Operation.delayPlan s request).outcome ending =
      (ending.received request.path (s.timeouts.of .long)).bind
        (decodeBody DelayResult.codec request.path) := rfl
  rw [same, other]
  cases ending.received request.path (s.timeouts.of .long) <;> rfl

theorem testing_job (s : Settings) (before : List ClientEvent) (node url : String) (timeout : Nat) :
    (testing s before node url timeout).jobs[(run { settings := s } before).jobs.length]? =
      some (match Operation.delayRequest node url timeout with
        | .ok request => .newCall (lonePlan s request) {}
        | .error e => .over (.error e)) := by
  have settings : (run { settings := s } before).settings = s :=
    (run_grows { settings := s } before).settings
  have job : (run { settings := s } before).opened (.testDelay node url timeout) =
      match Operation.delayRequest node url timeout with
        | .ok request => .newCall (lonePlan s request) {}
        | .error e => .over (.error e) := by
    simp only [opened, Operation.script, settings]
    cases Operation.delayRequest node url timeout <;> rfl
  rw [← job]
  exact List.getElem?_concat_length

theorem testing_returns {r : Except CallError Reply}
    (returned : ((testing s before node url timeout).run events).jobs[
      (run { settings := s } before).jobs.length]? = some (.over r)) :
    ∃ answer, r = answer.map .delay ∧
      TestReturns s node url timeout
        ((testing s before node url timeout).endings
          (run { settings := s } before).jobs.length events) answer := by
  have job := testing_job s before node url timeout
  cases request : Operation.delayRequest node url timeout with
  | error e =>
    rw [request] at job
    obtain ⟨stands, found, same, empty⟩ := log_of_settled job (.inr ⟨_, rfl⟩) events
    rw [returned] at found
    cases found
    have same : r = .error e := by
      rcases same with same | gone
      · cases same
        rfl
      · cases gone
    refine ⟨.error e, same, ?_⟩
    rw [endings, empty]
    exact .refused e request
  | ok request₀ =>
    rw [request] at job
    have sent := ((sent_start s).run before).step (.start (.testDelay node url timeout))
    have budget : 0 < (lonePlan s request₀).attempts :=
      Nat.lt_of_lt_of_le Nat.one_pos (Nat.le_max_right _ _)
    obtain ⟨_, kept⟩ := kept_run job sent budget events
    obtain ⟨answer, plain, rfl⟩ :=
      (kept.answers budget returned).of_map (lonePlan_outcome s request₀) rfl
    exact ⟨answer, rfl, .answers request₀ request _ _ plain⟩

/-- Whatever the endings of the attempts of a test are, a client that does nothing else can
be led to make that test with these. -/
theorem testing_replays {endings : List Ending} {answer : Except CallError DelayResult}
    (returns : TestReturns s node url timeout endings answer) :
    ∃ events, ((testing s [] node url timeout).run events).jobs[0]? =
        some (.over (answer.map .delay)) ∧
      List.Forall₂ Ending.Like endings ((testing s [] node url timeout).endings 0 events) := by
  have job := testing_job s [] node url timeout
  cases returns with
  | refused e invalid =>
    rw [invalid] at job
    exact ⟨[], job, .nil⟩
  | answers request accepted _ _ answers =>
    rw [accepted] at job
    have lone : Lone (testing s [] node url timeout) (.newCall (lonePlan s request) {}) :=
      ⟨job, rfl, rfl⟩
    exact lone.replays (answers.map (lonePlan_outcome s request) rfl)

end Alone

/-! ## The law -/

/-- How the test of a node of a batch goes, with the chronicle of its attempts: `cl` is the
client as it is now, `ordinary` says that the ids have not come round, and nothing has
delayed the batch if `prompt`. -/
structure TestLaw (s : Settings) (node url : String) (timeout : Nat) (ordinary prompt : Prop)
    (cl : Client) (k : Chronicle) : Prop where
  refused : ∀ e, Operation.delayRequest node url timeout = .error e → k = {}
  alone : ∀ request, Operation.delayRequest node url timeout = .ok request →
    ∀ b ∈ k.log.attempts, cl.sends.filter (·.ticket = b.ticket) = [request.sending b.ticket]
  explained : ordinary → ∀ x ∈ k.past, x.course.Explains (s.timeouts.of .long) x.ended x.ending
  decided : ordinary → prompt → ∀ x ∈ k.past, x.course.Untied (s.timeouts.of .long) →
    x.course.verdict (s.timeouts.of .long) = x.ending
  own : ∀ x ∈ k.past, ∀ e, x.ending = .answered e → e.requestId = x.course.ticket.id
  spaced : ∀ request, Operation.delayRequest node url timeout = .ok request → prompt →
    ∃ start, k.log.Spaced (Operation.delayPlan s request) start
  lapses : ∀ x ∈ k.past, x.course.ticket ∉ cl.correlator.pending

/-- What a batch of delay tests, the job at an index, does while some happenings follow,
with the chronicle of the test at each position: `cl` is the client in which it was
started. -/
structure BatchLaw (s : Settings) (nodes : List String) (url : String) (timeout width : Nat)
    (ordinary prompt : Prop) (cl : Client) (index : Nat) (happenings : List Happening)
    (k : Nat → Chronicle) : Prop where
  tests : ∀ i node, nodes[i]? = some node →
    TestLaw s node url timeout ordinary prompt (cl.live happenings) (k i)
  /-- The batch returns one pair for each node, in their order and with the node as it was given,
  and the result of each test is what the endings of its own attempts come to. -/
  result : ∀ r, (cl.live happenings).jobs[index]? = some (.over r) →
    ∃ results, r = .ok (.delays results) ∧ results.map Prod.fst = nodes ∧
      ∀ i node answer, results[i]? = some (node, answer) →
        (k i).current = none ∧ TestReturns s node url timeout (k i).endings answer
  /-- Each result is what the test of its node returns when it is made by itself, whenever that
  is and whatever else happens then, after as many attempts, if these come to the same. -/
  agrees : ∀ results, (cl.live happenings).jobs[index]? = some (.over (.ok (.delays results))) →
    ∀ i node answer, results[i]? = some (node, answer) → ∀ (before events : List ClientEvent) r,
      ((testing s before node url timeout).run events).jobs[
        (run { settings := s } before).jobs.length]? = some (.over r) →
      TestsAlike s node url timeout (k i).endings ((testing s before node url timeout).endings
        (run { settings := s } before).jobs.length events) →
      r = answer.map .delay ∧ (k i).endings.length = ((testing s before node url timeout).endings
        (run { settings := s } before).jobs.length events).length
  /-- The test can be made by itself so that its attempts come to the same, but for their ids. -/
  attained : ∀ results, (cl.live happenings).jobs[index]? = some (.over (.ok (.delays results))) →
    ∀ i node answer, results[i]? = some (node, answer) → ∃ events,
      ((testing s [] node url timeout).run events).jobs[0]? = some (.over (answer.map .delay)) ∧
      List.Forall₂ Ending.Like (k i).endings ((testing s [] node url timeout).endings 0 events)
  inProgress : ∀ b, (cl.live happenings).jobs[index]? = some (.testing b) →
    b.tests.length ≤ max 1 width ∧
    (∀ i node answer, b.results[i]? = some (node, answer) → nodes[i]? = some node ∧
      (k i).current = none ∧ TestReturns s node url timeout (k i).endings answer) ∧
    ∀ i node, nodes[i]? = some node → b.results.length + b.tests.length ≤ i → k i = {}
  sends : (cl.posted index happenings).Perm
    (nodes.zipIdx.flatMap fun x => (k x.2).testSends x.1 url timeout)
  tickets : ((nodes.zipIdx.flatMap fun x => (k x.2).testSends x.1 url timeout).map
    Sending.ticket).Nodup
  /-- Unless it is given up or there is a moment without a free id, the batch ends by the time
  that as many tests take, one after the other, as there are widths in the number of nodes. -/
  ends : prompt → .event (.abandon index) ∉ happenings → cl.Free happenings →
    cl.now + (nodes.length + max 1 width - 1) / max 1 width * s.delaySpan <
      (cl.live happenings).now →
      ∃ results, (cl.live happenings).jobs[index]? = some (.over (.ok (.delays results)))
  lapses : ((∃ r, (cl.live happenings).jobs[index]? = some (.over r)) ∨
      (cl.live happenings).jobs[index]? = some .gone) →
    ∀ i node, nodes[i]? = some node → ∀ b ∈ (k i).log.attempts,
      b.ticket ∉ (cl.live happenings).correlator.pending

section Law

variable {s : Settings} {nodes : List String} {node url : String} {timeout width base i : Nat}
  {sound prompt free : Prop} {cl : Client} {index : Nat} {happenings : List Happening} {job : Job}
  {k : Chronicle} {phase? : Option TestPhase} {answer : Except CallError DelayResult}

theorem Lane.law (lane : Lane s node url timeout base sound prompt free cl k phase?)
    (orderly : cl.Orderly) : TestLaw s node url timeout sound prompt cl k := by
  cases request : Operation.delayRequest node url timeout with
  | error e =>
    obtain rfl := lane.refused e request
    have never : ∀ request, Operation.delayRequest node url timeout ≠ .ok request :=
      by simp [request]
    exact ⟨fun _ _ => rfl, fun _ accepted => absurd accepted (never _), by simp, by simp, by simp,
      fun _ accepted => absurd accepted (never _), by simp⟩
  | ok request₀ =>
    have tells := lane.tells request₀ request
    have same : ∀ request, Operation.delayRequest node url timeout = .ok request →
        request = request₀ := by
      intro request₁ accepted
      rw [request] at accepted
      cases accepted
      rfl
    refine ⟨lane.refused, ?_, fun so x member => (tells.past x member).explained so, ?_,
      fun x member => (tells.past x member).own, ?_, fun x member =>
        (tells.past x member).lapsed.pending⟩
    · intro request₁ accepted b member
      obtain rfl := same request₁ accepted
      exact orderly.sent.filter_eq (tells.posted member)
    · intro so prompted x member untied
      have concluded := tells.past x member
      exact (concluded.explained so).verdict (concluded.brief prompted) untied
    · intro request₁ accepted prompted
      obtain ⟨start, spaced, _⟩ := lane.spaced request₁ accepted prompted
      exact ⟨start, spaced⟩

theorem Lane.returns
    (lane : Lane s node url timeout base sound prompt free cl k (some (.over answer))) :
    k.current = none ∧ TestReturns s node url timeout k.endings answer := by
  have stands := lane.stands _ rfl
  refine ⟨?_, stands.returns⟩
  cases stands <;> rfl

theorem testAt_results {results : List (String × Except CallError DelayResult)}
    {rest : List (String × TestPhase)} (line : job.line = results.map overTest ++ rest)
    (found : results[i]? = some (node, answer)) : job.testAt i = some (.over answer) := by
  have here : (results.map overTest)[i]? = some (node, .over answer) := by
    rw [List.getElem?_map, found]
    rfl
  rw [Job.testAt, line, List.getElem?_append_left (List.getElem?_eq_some_iff.mp here).1, here]
  rfl

theorem testAt_waiting {b : Batch} (named : (b.line.map Prod.fst)[i]? = some node)
    (after : b.results.length + b.tests.length ≤ i) :
    (Job.testing b).testAt i = some .starting := by
  have before : (b.results.map overTest ++ b.tests).length = b.results.length + b.tests.length := by
    rw [List.length_append, List.length_map]
  rw [List.getElem?_map] at named
  rw [Job.testAt, Job.line]
  rw [Batch.line, List.getElem?_append_right (before ▸ after), List.getElem?_map] at named ⊢
  cases found : b.waiting[i - (b.results.map overTest ++ b.tests).length]? with
  | none =>
    rw [found] at named
    cases named
  | some node' => rfl

namespace BatchKept

variable (kept : BatchKept s nodes url timeout width sound prompt cl index happenings job)

include kept

theorem given_out {results : List (String × Except CallError DelayResult)}
    {rest : List (String × TestPhase)} (line : job.line = results.map overTest ++ rest)
    (names : job.line.map Prod.fst = nodes) (found : results[i]? = some (node, answer)) :
    nodes[i]? = some node ∧ (cl.chronicle (testPlace i) index happenings).current = none ∧
      TestReturns s node url timeout (cl.chronicle (testPlace i) index happenings).endings
        answer := by
  have named : nodes[i]? = some node := by
    have inside := (List.getElem?_eq_some_iff.mp found).1
    rw [← names, line, List.map_append, List.map_map,
      List.getElem?_append_left (by simpa using inside), List.getElem?_map, found]
    rfl
  have lane := kept.lanes i node named
  rw [testAt_results line found] at lane
  exact ⟨named, lane.returns⟩

theorem result {r : Except CallError Reply}
    (returned : (cl.live happenings).jobs[index]? = some (.over r)) :
    ∃ results, r = .ok (.delays results) ∧ results.map Prod.fst = nodes ∧
      ∀ i node answer, results[i]? = some (node, answer) →
        (cl.chronicle (testPlace i) index happenings).current = none ∧
          TestReturns s node url timeout (cl.chronicle (testPlace i) index happenings).endings
            answer := by
  obtain rfl := Option.some.inj (kept.found.symm.trans returned)
  have tests := kept.tests
  cases tests with
  | returned results names =>
    refine ⟨results, rfl, names, fun i node answer found => ?_⟩
    have line : (Job.over (.ok (.delays results))).line = results.map overTest ++ [] :=
      (List.append_nil _).symm
    refine (kept.given_out line ?_ found).2
    rw [Job.line, List.map_map]
    exact names

theorem over_of_late (prompted : prompt) (present : .event (.abandon index) ∉ happenings)
    (free : cl.Free happenings)
    (late : cl.now + (nodes.length + max 1 width - 1) / max 1 width * s.delaySpan <
      (cl.live happenings).now) :
    ∃ results, (cl.live happenings).jobs[index]? = some (.over (.ok (.delays results))) := by
  have tests := kept.tests
  cases tests with
  | returned results names => exact ⟨results, kept.found⟩
  | gone => exact absurd (kept.gone rfl) present
  | testing b sameUrl sameTimeout sameWidth few names =>
    have paced := kept.paced prompted free b rfl
    have count : b.results.length + b.tests.length ≤ nodes.length := by
      rw [← names, List.length_map, Batch.line, List.length_append, List.length_append,
        List.length_map]
      exact Nat.le_add_right _ _
    rw [Nat.max_comm, ← sameWidth] at late
    refine absurd late (Nat.not_lt.mpr ?_)
    by_cases empty : b.tests = []
    · refine mul_add_le_of_le (paced.done empty) (Nat.div_le_div_right ?_)
      omega
    · refine mul_add_le_of_le (paced.head empty) ?_
      have some := List.length_pos_iff.mpr empty
      rw [← Nat.add_div_right _ (wide_of_eq sameWidth)]
      exact Nat.div_le_div_right (by omega)

theorem law (orderly : (cl.live happenings).Orderly) :
    BatchLaw s nodes url timeout width sound prompt cl index happenings
      (fun i => cl.chronicle (testPlace i) index happenings) where
  tests i node named := (kept.lanes i node named).law orderly
  result _ returned := kept.result returned
  agrees results returned i node answer found before events r lone alike := by
    obtain ⟨results', same, names, own⟩ := kept.result returned
    cases same
    obtain ⟨idle, returns⟩ := own i node answer found
    obtain ⟨answer', rfl, returns'⟩ := testing_returns lone
    obtain ⟨length, rfl⟩ := returns.agree returns' alike
    exact ⟨rfl, length⟩
  attained results returned i node answer found := by
    obtain ⟨results', same, names, own⟩ := kept.result returned
    cases same
    exact testing_replays (own i node answer found).2
  inProgress b stands := by
    obtain rfl := Option.some.inj (kept.found.symm.trans stands)
    have tests := kept.tests
    cases tests with
    | testing _ sameUrl sameTimeout sameWidth few names =>
      refine ⟨?_, fun i node answer found => ?_, fun i node named after => ?_⟩
      · rw [Nat.max_comm, ← sameWidth]
        exact few
      · exact kept.given_out (List.append_assoc ..) names found
      · have lane := kept.lanes i node named
        rw [testAt_waiting (names ▸ named) after] at lane
        exact (lane.stands _ rfl).eq_empty_of_starting
  sends := kept.sends
  tickets := (kept.sends.map _).nodup_iff.mp (posted_nodup orderly)
  ends := kept.over_of_late
  lapses left i node named b member := by
    have idle : (job.testAt i).bind TestPhase.attempt? = none := by
      refine Option.eq_none_iff_forall_not_mem.mpr fun a stands => ?_
      obtain ⟨phase, found, attempt⟩ := Option.bind_eq_some_iff.mp stands
      obtain ⟨b, _, rfl, _⟩ := Job.mem_tests_of_due found (TestPhase.due_of_attempt attempt)
      rw [kept.found] at left
      rcases left with ⟨r, same⟩ | same <;> cases same
    have lane := kept.lanes i node named
    cases request : Operation.delayRequest node url timeout with
    | error e =>
      rw [lane.refused e request] at member
      cases member
    | ok request₀ =>
      have tells := lane.tells request₀ request
      rw [idle] at tells
      exact (tells.lapsed member).pending

end BatchKept

end Law

theorem batch_kept_run (settings : Settings) (before : List Happening) (nodes : List String)
    (url : String) (timeout width : Nat) (later : List Happening) :
    ∃ job, BatchKept settings nodes url timeout width
      (Ordinary settings (before ++ .event (.start (.testDelays nodes url timeout width)) :: later))
      ((opening settings before (.testDelays nodes url timeout width)).keepsUp
        (live { settings } before).jobs.length later = true)
      (opening settings before (.testDelays nodes url timeout width))
      (live { settings } before).jobs.length later job := by
  induction later using List.reverseRecOn with
  | nil =>
    refine ⟨_, batch_kept_start ?_ (live_settings _ _)⟩
    exact opening_job settings before (.testDelays nodes url timeout width)
  | append_singleton later h ih =>
    obtain ⟨job, kept⟩ := ih
    exact kept.concat (orderly_opening settings before _ later) h Ordinary.earlier keepsUp_concat

/-- Every batch of delay tests obeys the law, whatever its nodes, the url, the timeout and
the width, what happened before and whatever happens from then on. -/
theorem batchLaw_testDelays (settings : Settings) (before : List Happening) (nodes : List String)
    (url : String) (timeout width : Nat) (later : List Happening) :
    BatchLaw settings nodes url timeout width
      (Ordinary settings (before ++ .event (.start (.testDelays nodes url timeout width)) :: later))
      ((opening settings before (.testDelays nodes url timeout width)).keepsUp
        (live { settings } before).jobs.length later = true)
      (opening settings before (.testDelays nodes url timeout width))
      (live { settings } before).jobs.length later
      (fun i => (opening settings before (.testDelays nodes url timeout width)).chronicle
        (testPlace i) (live { settings } before).jobs.length later) := by
  obtain ⟨job, kept⟩ := batch_kept_run settings before nodes url timeout width later
  exact kept.law (orderly_opening settings before _ later)

/-- Two nodes are tested at once and the second one is answered first. -/
def answeredBackwards : List Happening :=
  [.event (.advance 0), .event (.advance 0), .event (.advance 0), .event (.advance 0),
    .event (.transmitted ⟨⟨1⟩, 0, 0⟩ (.ok ())), .event (.transmitted ⟨⟨2⟩, 1, 1⟩ (.ok ())),
    .event (.dispatch (.rejected ⟨2⟩ 404 "no")), .event (.advance 0),
    .event (.dispatch (.rejected ⟨1⟩ 503 "busy")), .event (.advance 0), .event (.advance 0),
    .event (.advance 0), .event (.advance 0)]

/-- The results come in the order of the nodes all the same, each from the attempts of
its own test. -/
theorem batchLaw_answeredBackwards :
    let cl := opening {} [] (.testDelays ["b", "a"] "u" 1 2)
    let k := fun i => cl.chronicle (testPlace i) 0 answeredBackwards
    Ordinary {} ([] ++ .event (.start (.testDelays ["b", "a"] "u" 1 2)) :: answeredBackwards) ∧
      cl.keepsUp 0 answeredBackwards = true ∧
      (∀ i node, ["b", "a"][i]? = some node →
        ∀ x ∈ (k i).past, x.course.Explains 30000 x.ended x.ending) ∧
      ∃ results, (cl.live answeredBackwards).jobs[0]? = some (.over (.ok (.delays results))) ∧
        results.map Prod.fst = ["b", "a"] ∧
        ∀ i node answer, results[i]? = some (node, answer) →
          TestReturns {} node "u" 1 (k i).endings answer ∧
          ∃ events, ((testing {} [] node "u" 1).run events).jobs[0]? =
              some (.over (answer.map .delay)) ∧
            List.Forall₂ Ending.Like (k i).endings
              ((testing {} [] node "u" 1).endings 0 events) := by
  have ordinary : Ordinary {}
      ([] ++ .event (.start (.testDelays ["b", "a"] "u" 1 2)) :: answeredBackwards) :=
    ⟨by decide, by simp [answeredBackwards]⟩
  have law := batchLaw_testDelays {} [] ["b", "a"] "u" 1 2 answeredBackwards
  obtain ⟨results, returned⟩ : ∃ results,
      ((opening {} [] (.testDelays ["b", "a"] "u" 1 2)).live answeredBackwards).jobs[0]? =
        some (.over (.ok (.delays results))) := ⟨_, rfl⟩
  obtain ⟨results', same, names, own⟩ := law.result _ returned
  cases same
  refine ⟨ordinary, by decide, ?_, results, returned, names, ?_⟩
  · intro i node named x member
    exact (law.tests i node named).explained ordinary x member
  · intro i node answer found
    exact ⟨(own i node answer found).2, law.attained results returned i node answer found⟩

end Client

end ProxyConsole
