import ProxyConsole.Proofs.Client.DelayTests

/-!
# Delay tests side by side

The tests of a batch stand in a line, one for each node.  A step of the batch lets one
of them go on, or moves the bounds of those that are in progress and leaves the line as
it is.
-/

set_option autoImplicit false

namespace ProxyConsole

/-! ## The line of the tests -/

def overTest (r : String × Except CallError DelayResult) : String × TestPhase :=
  (r.1, .over r.2)

def startingTest (node : String) : String × TestPhase :=
  (node, .starting)

/-- The tests of a batch, one for each node: those given out, those in progress and those to
come. -/
def Batch.line (b : Batch) : List (String × TestPhase) :=
  b.results.map overTest ++ b.tests ++ b.waiting.map startingTest

def Job.line : Job → List (String × TestPhase)
  | .testing b => b.line
  | .over (.ok (.delays results)) => results.map overTest
  | _ => []

/-- The test of the node at a position. -/
def Job.testAt (job : Job) (i : Nat) : Option TestPhase :=
  job.line[i]?.map Prod.snd

theorem overTest_mapAttempt (f : Attempt → Attempt)
    (results : List (String × Except CallError DelayResult)) :
    (results.map overTest).map (fun t => (t.1, t.2.mapAttempt f)) = results.map overTest := by
  rw [List.map_map]
  rfl

namespace Batch

variable {b : Batch}

theorem line_mapAttempt (b : Batch) (f : Attempt → Attempt) :
    (b.mapAttempt f).line = b.line.map fun t => (t.1, t.2.mapAttempt f) := by
  rw [line, line, List.map_append, List.map_append, overTest_mapAttempt, List.map_map]
  rfl

theorem mem_tests_of_due {t : String × TestPhase} {moment : Nat} (member : t ∈ b.line)
    (due : t.2.due = some moment) : t ∈ b.tests := by
  rw [line, List.mem_append, List.mem_append] at member
  rcases member with (given | inProgress) | waits
  · obtain ⟨r, _, rfl⟩ := List.mem_map.mp given
    cases due
  · exact inProgress
  · obtain ⟨node, _, rfl⟩ := List.mem_map.mp waits
    cases due

theorem line_tests {j : Nat} {t : String × TestPhase} (found : b.tests[j]? = some t) :
    b.line[b.results.length + j]? = some t := by
  have inside := (List.getElem?_eq_some_iff.mp found).1
  rw [line, List.append_assoc, List.getElem?_append_right (by simp), List.length_map,
    Nat.add_sub_cancel_left, List.getElem?_append_left inside, found]

theorem line_set {j : Nat} {t : String × TestPhase} (inside : j < b.tests.length) :
    line { b with tests := b.tests.set j t } = b.line.set (b.results.length + j) t := by
  rw [line, line, List.append_assoc, List.append_assoc, List.set_append_right _ _ (by simp),
    List.length_map, Nat.add_sub_cancel_left, List.set_append_left _ _ inside]

end Batch

namespace Job

theorem line_mapAttempt (job : Job) (f : Attempt → Attempt) :
    (job.mapAttempt f).line = job.line.map fun t => (t.1, t.2.mapAttempt f) := by
  cases job with
  | testing b => exact b.line_mapAttempt f
  | «over» result =>
    cases result with
    | error e => rfl
    | ok reply =>
      cases reply with
      | delays results => exact (overTest_mapAttempt f results).symm
      | _ => rfl
  | _ => rfl

theorem testAt_mapAttempt (job : Job) (i : Nat) (f : Attempt → Attempt) :
    (job.mapAttempt f).testAt i = (job.testAt i).map (TestPhase.mapAttempt f) := by
  rw [testAt, testAt, line_mapAttempt, List.getElem?_map, Option.map_map, Option.map_map]
  rfl

theorem mem_tests_of_due {job : Job} {i moment : Nat} {phase : TestPhase}
    (stands : job.testAt i = some phase) (due : phase.due = some moment) :
    ∃ b node, job = .testing b ∧ (node, phase) ∈ b.tests := by
  obtain ⟨t, found, rfl⟩ := Option.map_eq_some_iff.mp stands
  have member := List.mem_of_getElem? found
  cases job with
  | testing b => exact ⟨b, t.1, rfl, b.mem_tests_of_due member due⟩
  | «over» result =>
    unfold Job.line at member
    split at member
    · rename_i same
      cases same
    · obtain ⟨r, _, rfl⟩ := List.mem_map.mp member
      cases due
    · cases member
  | _ => cases member

end Job

/-- The place of the test at a position of a batch for its attempts. -/
def testPlace (i : Nat) : Place where
  at? job := (job.testAt i).bind TestPhase.attempt?
  inside := by
    intro job a stands
    obtain ⟨phase, found, attempt⟩ := Option.bind_eq_some_iff.mp stands
    obtain ⟨b, node, rfl, member⟩ := Job.mem_tests_of_due found (TestPhase.due_of_attempt attempt)
    exact List.mem_filterMap.mpr ⟨_, member, attempt⟩
  due := by
    intro job a stands
    obtain ⟨phase, found, attempt⟩ := Option.bind_eq_some_iff.mp stands
    have due := TestPhase.due_of_attempt attempt
    obtain ⟨b, node, rfl, member⟩ := Job.mem_tests_of_due found due
    exact List.mem_filterMap.mpr ⟨_, member, due⟩
  hears := by
    intro job t result
    rw [Job.testAt_mapAttempt, TestPhase.bind_attempt?_map]
  gone := rfl

/-! ## How a batch goes on -/

namespace Batch

variable {s : Settings} {b b' : Batch} {now : Nat} {c c' : Correlator} {sends : List Sending}

/-- A step of a batch lets one test go on, or leaves all tests as they are. -/
theorem Goes.line (goes : b.Goes s now c (.move b' sends c')) :
    (b'.line = b.line ∧ sends = [] ∧ c' = c) ∨
      ∃ j node phase phase', b.tests[j]? = some (node, phase) ∧
        phase.step s b node now c = some (phase', sends, c') ∧
        b'.line = b.line.set (b.results.length + j) (node, phase') := by
  cases goes with
  | takesIn node waiting next room =>
    refine .inl ⟨?_, rfl, rfl⟩
    simp [Batch.line, next, startingTest]
  | givesOut node result tests full first =>
    refine .inl ⟨?_, rfl, rfl⟩
    simp [Batch.line, first, overTest]
  | tests j node phase phase' _ _ found step =>
    exact .inr ⟨j, node, phase, phase', found, step,
      line_set (List.getElem?_eq_some_iff.mp found).1⟩

end Batch

/-- How the job of a batch stands: its tests are those of the nodes, and no more of them
than its width allows are in progress. -/
inductive Job.Tests (nodes : List String) (url : String) (timeout width : Nat) : Job → Prop where
  | testing (b : Batch) (sameUrl : b.url = url) (sameTimeout : b.timeout = timeout)
      (sameWidth : b.width = max width 1) (few : b.tests.length ≤ b.width)
      (names : b.line.map Prod.fst = nodes) : Tests nodes url timeout width (.testing b)
  | returned (results : List (String × Except CallError DelayResult))
      (names : results.map Prod.fst = nodes) :
      Tests nodes url timeout width (.over (.ok (.delays results)))
  | gone : Tests nodes url timeout width .gone

/-! ## When the tests of a batch begin -/

/-- How far the clock may have run: a node is taken in as soon as there is room, so the test
at a position begins when a whole number of widths of tests can have ended before it, and
the first test in progress is over a span later. -/
structure Batch.Paced (b : Batch) (start span now : Nat) : Prop where
  room : b.tests.length < b.width → b.waiting ≠ [] →
    now ≤ start + (b.results.length + b.tests.length) / b.width * span
  head : b.tests ≠ [] → now ≤ start + (b.results.length / b.width + 1) * span
  done : b.tests = [] → now ≤ start + (b.results.length + b.width - 1) / b.width * span
  fresh : ∀ (j : Nat) (node : String), b.tests[j]? = some (node, .starting) →
    now ≤ start + (b.results.length + j) / b.width * span

theorem mul_add_le_of_le {start span m n now : Nat} (before : now ≤ start + m * span) (le : m ≤ n) :
    now ≤ start + n * span :=
  Nat.le_trans before (Nat.add_le_add_left (Nat.mul_le_mul_right span le) start)

namespace Batch.Paced

variable {s : Settings} {b b' : Batch} {now now' start span : Nat} {c c' : Correlator}
  {sends : List Sending}

theorem goes (paced : b.Paced start span now) (wide : 0 < b.width) (few : b.tests.length ≤ b.width)
    (goes : b.Goes s now c (.move b' sends c')) : b'.Paced start span now := by
  cases goes with
  | takesIn node waiting next room =>
    have roomy := paced.room room (by simp [next])
    refine ⟨fun _ _ => ?_, fun _ => ?_, by simp, ?_⟩
    · refine mul_add_le_of_le roomy (Nat.div_le_div_right ?_)
      simp
    · refine mul_add_le_of_le roomy ?_
      change (b.results.length + b.tests.length) / b.width ≤ b.results.length / b.width + 1
      rw [← Nat.add_div_right _ wide]
      exact Nat.div_le_div_right (Nat.add_le_add_left few _)
    · intro j node' found
      rcases Positions.getElem?_concat_cases found with earlier | ⟨rfl, _⟩
      · exact paced.fresh j node' earlier
      · exact roomy
  | givesOut node result tests full first =>
    have lengths : b.tests.length = tests.length + 1 := by rw [first, List.length_cons]
    have head := paced.head (by simp [first])
    refine ⟨fun room some => ?_, fun _ => ?_, fun _ => ?_, ?_⟩
    · have width : b.width = b.tests.length :=
        Nat.le_antisymm (full.resolve_left some) few
      rw [← Nat.add_div_right _ wide, width, lengths] at head
      rw [width, lengths]
      simpa [Nat.add_assoc, Nat.add_comm 1] using head
    · refine mul_add_le_of_le head ?_
      simp only [List.length_append, List.length_singleton]
      exact Nat.succ_le_succ (Nat.div_le_div_right (Nat.le_succ _))
    · rw [← Nat.add_div_right _ wide] at head
      simp only [List.length_append, List.length_singleton]
      rwa [Nat.add_right_comm, Nat.add_sub_cancel]
    · intro j node' found
      have fresh := paced.fresh (j + 1) node' (by rw [first]; exact found)
      simp only [List.length_append, List.length_singleton]
      rwa [Nat.add_assoc, Nat.add_comm 1 j]
  | tests j node phase phase' _ _ found step =>
    refine ⟨?_, ?_, ?_, ?_⟩
    · simpa using paced.room
    · simpa using paced.head
    · simpa using paced.done
    · intro i node' fresh
      rcases Positions.getElem?_set_cases fresh with ⟨rfl, same⟩ | ⟨_, earlier⟩
      · cases same
        exact absurd rfl (TestPhase.step_goes step).not_starting
      · exact paced.fresh i node' earlier

/-- Time passes only while every test in progress waits, and not beyond what the first one
waits for. -/
theorem pass (goes : b.Goes s now c .stay)
    (head : now' ≤ start + (b.results.length / b.width + 1) * span) : b.Paced start span now' := by
  cases goes with
  | stays full nonempty undecided idle =>
    refine ⟨fun room some => ?_, fun _ => head, fun empty => absurd empty nonempty, ?_⟩
    · rcases full with none | full
      · exact absurd none some
      · exact absurd room (Nat.not_lt.mpr full)
    · intro j node found
      exact absurd (idle _ (List.mem_of_getElem? found)) TestPhase.step_starting_ne_none

theorem mapAttempt (paced : b.Paced start span now) (f : Attempt → Attempt) :
    (b.mapAttempt f).Paced start span now := by
  refine ⟨?_, ?_, ?_, ?_⟩
  · simpa [Batch.mapAttempt] using paced.room
  · simpa [Batch.mapAttempt] using paced.head
  · simpa [Batch.mapAttempt] using paced.done
  · intro j node found
    refine paced.fresh j node ?_
    obtain ⟨⟨node', phase⟩, found', same⟩ := Option.map_eq_some_iff.mp
      ((List.getElem?_map ..).symm.trans found)
    cases phase with
    | starting =>
      cases same
      exact found'
    | _ => cases same

end Batch.Paced

namespace Client

variable {s : Settings} {nodes : List String} {node url : String} {timeout width : Nat}
  {cl : Client} {index : Nat} {h : Happening} {job job' : Job} {b : Batch}

/-! ## What a happening does to a batch -/

theorem batch_goes {cl' : Client} (goes : cl.JobGoes index (.testing b) job' cl') :
    (∃ b' sends c, b.Goes cl.settings cl.now cl.correlator (.move b' sends c) ∧ job' = .testing b' ∧
      cl' = cl.moveJob index job' sends c) ∨
    ∃ results c, b.Goes cl.settings cl.now cl.correlator (.finish results c) ∧
      job' = .over (.ok (.delays results)) ∧
        cl' = cl.finishJob index (.ok (.delays results)) c := by
  have steps := b.step_goes cl.settings cl.now cl.correlator
  generalize same : Job.testing b = job at goes
  cases goes with
  | tests batch batch' sends c step =>
    cases same
    rw [step] at steps
    exact .inl ⟨batch', sends, c, steps, rfl, rfl⟩
  | tested batch results c step =>
    cases same
    rw [step] at steps
    exact .inr ⟨results, c, steps, rfl, rfl⟩
  | reads r => cases r <;> cases same
  | answers r => cases r <;> cases same
  | _ => cases same

theorem tests_goes {cl' : Client} (tests : Job.Tests nodes url timeout width job)
    (goes : cl.JobGoes index job job' cl') : ∃ b, job = .testing b := by
  obtain ⟨present, unsettled⟩ := goes.turn.unsettled
  cases tests with
  | testing b => exact ⟨b, rfl⟩
  | returned => exact absurd rfl (unsettled _)
  | gone => exact absurd rfl present

theorem wide_of_eq (sameWidth : b.width = max width 1) : 0 < b.width :=
  sameWidth ▸ Nat.lt_of_lt_of_le Nat.one_pos (Nat.le_max_right _ _)

theorem ended_line {s : Settings} {now : Nat} {c c' : Correlator}
    {results : List (String × Except CallError DelayResult)} (wide : 0 < b.width)
    (goes : b.Goes s now c (.finish results c')) : b.line = results.map overTest := by
  cases goes with
  | ends full empty =>
    have none : b.waiting = [] := full.resolve_right (by rw [empty]; exact Nat.not_le.mpr wide)
    simp [Batch.line, empty, none]

theorem tests_meet (tests : Job.Tests nodes url timeout width job)
    (fares : cl.Fares index job h job') : Job.Tests nodes url timeout width job' := by
  cases fares with
  | same => exact tests
  | hears t result heard =>
    cases tests with
    | testing b sameUrl sameTimeout sameWidth few names =>
      refine .testing _ sameUrl sameTimeout sameWidth ?_ ?_
      · simpa [Batch.mapAttempt] using few
      · rw [Batch.line_mapAttempt, List.map_map]
        exact names
    | returned results names => exact .returned results names
    | gone => exact .gone
  | gone => exact .gone
  | goes _ own goes =>
    subst own
    obtain ⟨b, rfl⟩ := tests_goes tests goes
    cases tests with
    | testing b sameUrl sameTimeout sameWidth few names =>
      rcases batch_goes goes with ⟨b', sends, c, step, rfl, -⟩ | ⟨results, c, step, rfl, -⟩
      · have line : b'.line.map Prod.fst = nodes := by
          rcases step.line with ⟨same, -⟩ | ⟨j, node, phase, phase', found, -, replaced⟩
          · rw [same, names]
          · rw [replaced,
              Positions.map_set_of_same (b := (node, phase')) (Batch.line_tests found) rfl, names]
        cases step with
        | takesIn node waiting next room =>
          refine .testing _ sameUrl sameTimeout sameWidth ?_ line
          rw [List.length_append]
          exact room
        | givesOut node result tests full first =>
          refine .testing _ sameUrl sameTimeout sameWidth ?_ line
          rw [first] at few
          exact Nat.le_of_succ_le few
        | tests j node phase phase' _ _ found step =>
          refine .testing _ sameUrl sameTimeout sameWidth ?_ line
          rwa [List.length_set]
      · rw [ended_line (wide_of_eq sameWidth) step, List.map_map] at names
        exact .returned results names

/-- All the ways in which a happening can change the tests of a batch. -/
inductive BatchTurn (s : Settings) (cl : Client) (index : Nat) (h : Happening) :
    Job → Job → Prop where
  | rests (job job' : Job) (deaf : ∀ t result, h ≠ .event (.transmitted t result))
      (line : job'.line = job.line) (quiet : cl.postedBy index h = []) :
      BatchTurn s cl index h job job'
  | hears (job : Job) (t : Ticket) (result : Except TransportError Unit)
      (heard : h = .event (.transmitted t result)) :
      BatchTurn s cl index h job (job.mapAttempt (Attempt.transmitted t result))
  | givesUp (job : Job) (given : h = .event (.abandon index))
      (withdrawn : (cl.meet h).correlator = (cl.withdraw job).correlator) :
      BatchTurn s cl index h job .gone
  | goes (b b' : Batch) (j : Nat) (node : String) (phase phase' : TestPhase) (sends : List Sending)
      (c' : Correlator) (own : h = .event (.advance index))
      (found : b.tests[j]? = some (node, phase))
      (goes : phase.Goes s node b.url b.timeout cl.now cl.correlator phase' sends c')
      (left : (cl.meet h).correlator = c') (more : (cl.meet h).sends = cl.sends ++ sends)
      (line : b'.line = b.line.set (b.results.length + j) (node, phase')) :
      BatchTurn s cl index h (.testing b) (.testing b')

theorem batch_turn (tests : Job.Tests nodes url timeout width job)
    (fares : cl.Fares index job h job') : BatchTurn cl.settings cl index h job job' := by
  cases fares with
  | same deaf still present =>
    refine .rests _ _ deaf rfl (postedBy_eq_nil ?_)
    rintro rfl
    simp only [Client.meet, step, still rfl, Option.getD_none]
  | hears t result heard => exact .hears _ t result heard
  | gone given withdrawn => exact .givesUp _ given withdrawn
  | goes _ own goes =>
    subst own
    obtain ⟨b, rfl⟩ := tests_goes tests goes
    rcases batch_goes goes with ⟨b', sends, c, step, rfl, moved⟩ | ⟨results, c, step, rfl, moved⟩
    · have more : (cl.meet (.event (.advance index))).sends = cl.sends ++ sends := by
        rw [moved]
        rfl
      rcases step.line with ⟨same, rfl, -⟩ | ⟨j, node, phase, phase', found, goes, replaced⟩
      · exact .rests _ _ (by simp) same (postedBy_advance cl index more)
      · refine .goes b b' j node phase phase' sends c rfl found (TestPhase.step_goes goes) ?_ more
          replaced
        rw [moved]
        rfl
    · have more : (cl.meet (.event (.advance index))).sends = cl.sends ++ [] := by
        rw [moved]
        rfl
      refine .rests _ _ (by simp) ?_ (postedBy_advance cl index more)
      cases tests with
      | testing b sameUrl sameTimeout sameWidth few names =>
        exact (ended_line (wide_of_eq sameWidth) step).symm

section Line

variable {b' : Batch} {j : Nat} {phase phase' : TestPhase}

theorem testAt_before (there : b.tests[j]? = some (node, phase)) :
    (Job.testing b).testAt (b.results.length + j) = some phase := by
  rw [Job.testAt, Job.line, Batch.line_tests there]
  rfl

theorem testAt_after (there : b.tests[j]? = some (node, phase))
    (line : b'.line = b.line.set (b.results.length + j) (node, phase')) :
    (Job.testing b').testAt (b.results.length + j) = some phase' := by
  rw [Job.testAt, Job.line, line, Positions.getElem?_set_of_some _ (Batch.line_tests there)]
  rfl

theorem testAt_elsewhere (line : b'.line = b.line.set (b.results.length + j) (node, phase'))
    {i : Nat}
    (elsewhere : i ≠ b.results.length + j) :
    (Job.testing b').testAt i = (Job.testing b).testAt i := by
  rw [Job.testAt, Job.testAt, Job.line, line, List.getElem?_set_ne (Ne.symm elsewhere)]
  rfl

theorem named_of_tests (there : b.tests[j]? = some (node, phase))
    (names : b.line.map Prod.fst = nodes) : nodes[b.results.length + j]? = some node := by
  rw [← names, List.getElem?_map, Batch.line_tests there]
  rfl

end Line

/-- Each test takes part in what happens to its batch. -/
theorem BatchTurn.testTurn {base : Nat} {timely : Prop} (turn : BatchTurn s cl index h job job')
    (tests : Job.Tests nodes url timeout width job) (found : cl.jobs[index]? = some job)
    (orderly : cl.Orderly) {i : Nat} (named : nodes[i]? = some node)
    (early : timely → ∀ b j, job = .testing b → i = b.results.length + j →
      b.tests[j]? = some (node, .starting) → cl.now ≤ base) :
    TestTurn s node url timeout base timely cl index h (job.testAt i) (job'.testAt i) := by
  cases turn with
  | rests _ _ deaf line quiet =>
    have same : job'.testAt i = job.testAt i := by rw [Job.testAt, Job.testAt, line]
    rw [same]
    exact .keeps _ deaf
  | hears _ t result heard =>
    rw [Job.testAt_mapAttempt]
    exact .hears _ t result heard
  | givesUp _ given withdrawn =>
    refine .givesUp _ given fun a stands => ?_
    have member := (testPlace i).inside stands
    rw [withdrawn]
    exact withdraw_lapsed member (orderly.older (held_of_job found member))
  | goes b b' j node' phase phase' sends c' own there goes left more line =>
    cases tests with
    | testing b sameUrl sameTimeout sameWidth few names =>
      subst own sameUrl sameTimeout
      by_cases here : i = b.results.length + j
      · subst here
        obtain rfl := Option.some.inj ((named_of_tests there names).symm.trans named)
        rw [testAt_before there, testAt_after there line]
        refine .goes phase phase' sends c' rfl goes left more fun so starting => ?_
        exact early so b j rfl rfl (starting ▸ there)
      · rw [testAt_elsewhere line here]
        exact .keeps _ (by simp)

theorem BatchTurn.sends {k k' : Nat → Chronicle} (turn : BatchTurn s cl index h job job')
    (tests : Job.Tests nodes url timeout width job)
    (stands : ∀ i node phase, nodes[i]? = some node → job.testAt i = some phase →
      phase.Stands s node url timeout (k i))
    (turns : ∀ i, k' i =
      (k i).turn cl index h ((testPlace i).at? job) ((testPlace i).at? job')) :
    (nodes.zipIdx.flatMap fun x => (k' x.2).testSends x.1 url timeout).Perm
      ((nodes.zipIdx.flatMap fun x => (k x.2).testSends x.1 url timeout) ++
        cl.postedBy index h) := by
  have quiet : (∀ i, (k' i).log = (k i).log) → cl.postedBy index h = [] →
      (nodes.zipIdx.flatMap fun x => (k' x.2).testSends x.1 url timeout).Perm
        ((nodes.zipIdx.flatMap fun x => (k x.2).testSends x.1 url timeout) ++
          cl.postedBy index h) := by
    intro same none
    rw [none, List.append_nil]
    exact .of_eq (List.flatMap_congr fun x _ => Chronicle.testSends_congr (same x.2))
  cases turn with
  | rests _ _ deaf line none =>
    refine quiet (fun i => ?_) none
    rw [turns i]
    simp only [testPlace, Job.testAt, line]
    exact (k i).turn_same_log cl index h _
  | hears _ t result heard =>
    refine quiet (fun i => ?_) (by rw [heard]; rfl)
    rw [turns i, (testPlace i).hears]
    exact (k i).turn_map_log cl index h _ _
  | givesUp _ given withdrawn =>
    subst given
    refine quiet (fun i => ?_) rfl
    rw [turns i]
    exact congrArg Chronicle.log ((k i).turn_abandoned cl index index _)
  | goes b b' j node phase phase' sends c' own there goes left more line =>
    cases tests with
    | testing b sameUrl sameTimeout sameWidth few names =>
      subst own sameUrl sameTimeout
      have named := named_of_tests there names
      refine Positions.flatMap_concat_perm (Positions.zipIdx_nodup nodes)
        (List.mk_mem_zipIdx_iff_getElem?.mpr named) ?_ ?_
      · rw [turns]
        simp only [testPlace, testAt_before there, testAt_after there line, Option.bind_some]
        rw [postedBy_advance cl index more]
        exact goes.testSends (stands _ node phase named (testAt_before there))
      · rintro ⟨other, i⟩ member apart
        have elsewhere : i ≠ b.results.length + j := by
          rintro rfl
          rw [List.mk_mem_zipIdx_iff_getElem?, named] at member
          cases member
          exact apart rfl
        refine Chronicle.testSends_congr ?_
        rw [turns i]
        simp only [testPlace, testAt_elsewhere line elsewhere]
        exact (k i).turn_same_log cl index _ _

theorem BatchTurn.starves {i : Nat} {plan : CallPlan DelayResult}
    (turn : BatchTurn s cl index h job job')
    (starved : job'.testAt i = some (.calling plan .starved)) :
    job.testAt i = some (.calling plan .starved) ∨ cl.correlator.allocate = none := by
  cases turn with
  | rests _ _ deaf line none =>
    rw [Job.testAt, line] at starved
    exact .inl starved
  | hears _ t result heard =>
    rw [Job.testAt_mapAttempt] at starved
    obtain ⟨phase, before, same⟩ := Option.map_eq_some_iff.mp starved
    cases phase with
    | calling plan' call =>
      cases call with
      | starved =>
        cases same
        exact .inl before
      | _ => cases same
    | _ => cases same
  | givesUp => cases starved
  | goes b b' j node phase phase' sends c' own there goes left more line =>
    by_cases here : i = b.results.length + j
    · subst here
      rw [testAt_after there line] at starved
      cases starved
      cases goes with
      | starves _ plan number ready full => exact .inr full
    · rw [testAt_elsewhere line here] at starved
      exact .inl starved

theorem tests_leave (tests : Job.Tests nodes url timeout width job)
    (fares : cl.Fares index job h job') (left : job' = .gone) :
    job = .gone ∨ h = .event (.abandon index) := by
  cases fares with
  | same => exact .inl left
  | hears =>
    cases tests with
    | gone => exact .inl rfl
    | _ => cases left
  | gone given => exact .inr given
  | goes _ own goes =>
    obtain ⟨b, rfl⟩ := tests_goes tests goes
    rcases batch_goes goes with ⟨_, _, _, _, same, _⟩ | ⟨_, _, _, same, _⟩
    · rw [same] at left
      cases left
    · rw [same] at left
      cases left

/-- There is always a free id while some happenings follow. -/
def Free (cl : Client) (happenings : List Happening) : Prop :=
  ∀ part, part <+: happenings → (cl.live part).correlator.allocate ≠ none

theorem Free.earlier {happenings : List Happening} (free : cl.Free (happenings ++ [h])) :
    cl.Free happenings :=
  fun part leads => free part (leads.trans (List.prefix_append _ _))

/-- The test of the node at a position begins when a whole number of widths of tests can
have ended before it. -/
def testBase (s : Settings) (width start i : Nat) : Nat :=
  start + i / max width 1 * s.delaySpan

variable {sound prompt free : Prop} {start : Nat} {k : Nat → Chronicle}

/-- While the first test in progress waits, its span is not over. -/
theorem head_early (tests : Job.Tests nodes url timeout width (.testing b))
    (lanes : ∀ i node, nodes[i]? = some node → Lane s node url timeout (testBase s width start i)
      sound prompt free cl (k i) ((Job.testing b).testAt i))
    (found : cl.jobs[index]? = some (.testing b)) (goes : b.Goes s cl.now cl.correlator .stay)
    (fed : ∀ i plan, (Job.testing b).testAt i ≠ some (.calling plan .starved))
    (prompted : prompt) (freed : free) (promptly : cl.isPromptly index h = true) :
    (cl.meet h).now ≤ start + (b.results.length / b.width + 1) * s.delaySpan := by
  cases goes with
  | stays full nonempty undecided idle =>
    obtain ⟨⟨node, phase⟩, rest, first⟩ := List.exists_cons_of_ne_nil nonempty
    have there : b.tests[0]? = some (node, phase) := by rw [first]; rfl
    have stands := testAt_before there
    cases tests with
    | testing _ sameUrl sameTimeout sameWidth few names =>
      have lane := lanes _ node (named_of_tests there names)
      rw [stands] at lane
      obtain ⟨moment, due⟩ : ∃ moment, phase.due = some moment := by
        cases phase with
        | starting =>
          exact absurd (idle _ (List.mem_of_getElem? there)) TestPhase.step_starting_ne_none
        | calling plan call =>
          cases call with
          | attempting number a => exact ⟨_, rfl⟩
          | pausing number resume => exact ⟨_, rfl⟩
          | starved => exact absurd stands (fed _ plan)
        | «over» result => exact absurd first (undecided node result rest)
      have limit := lane.due_le prompted freed due
      have early := meet_early found (List.mem_filterMap.mpr ⟨_, List.mem_of_getElem? there, due⟩)
        (lane.onTime prompted phase moment rfl due) promptly
      rw [testBase, ← sameWidth, Nat.add_zero, Nat.add_assoc, ← Nat.succ_mul] at limit
      exact Nat.le_trans early limit

/-- The clock of a batch that is not delayed runs no further than its tests allow. -/
theorem paced_meet (tests : Job.Tests nodes url timeout width job)
    (lanes : ∀ i node, nodes[i]? = some node → Lane cl.settings node url timeout
      (testBase cl.settings width start i) sound prompt free cl (k i) (job.testAt i))
    (found : cl.jobs[index]? = some job)
    (fed : ∀ i plan, job.testAt i ≠ some (.calling plan .starved)) (prompted : prompt)
    (freed : free)
    (promptly : cl.isPromptly index h = true) (fares : cl.Fares index job h job')
    (paced : ∀ b, job = .testing b → b.Paced start cl.settings.delaySpan cl.now) :
    ∀ b, job' = .testing b → b.Paced start cl.settings.delaySpan (cl.meet h).now := by
  intro b' stands
  cases fares with
  | same =>
    subst stands
    rcases meet_still found promptly with now | ⟨idle, -⟩
    · rw [now]
      exact paced b' rfl
    · have goes := b'.step_goes cl.settings cl.now cl.correlator
      simp only [stepJob, found] at idle
      split at idle
      · rename_i stays
        rw [stays] at goes
        exact .pass goes (head_early tests lanes found goes fed prompted freed promptly)
      · cases idle
      · cases idle
  | hears t result heard =>
    cases tests with
    | testing b =>
      cases stands
      rw [heard]
      exact (paced b rfl).mapAttempt _
    | _ => cases stands
  | gone => cases stands
  | goes _ own goes =>
    subst own
    obtain ⟨b, rfl⟩ := tests_goes tests goes
    rcases batch_goes goes with ⟨_, sends, c, step, same, -⟩ | ⟨results, c, step, same, -⟩
    · rw [same] at stands
      cases stands
      have now : (cl.meet (.event (.advance index))).now = cl.now := cl.step_now (by simp)
      rw [now]
      cases tests with
      | testing _ sameUrl sameTimeout sameWidth few names =>
        exact (paced b rfl).goes (wide_of_eq sameWidth) few step
    · rw [same] at stands
      cases stands

/-! ## A whole run -/

/-- How a batch stands after a sequence of happenings. -/
structure BatchKept (s : Settings) (nodes : List String) (url : String) (timeout width : Nat)
    (sound prompt : Prop) (cl : Client) (index : Nat) (happenings : List Happening) (job : Job) :
    Prop where
  found : (cl.live happenings).jobs[index]? = some job
  settings : cl.settings = s
  tests : Job.Tests nodes url timeout width job
  lanes : ∀ i node, nodes[i]? = some node →
    Lane s node url timeout (testBase s width cl.now i) sound prompt (cl.Free happenings)
      (cl.live happenings) (cl.chronicle (testPlace i) index happenings) (job.testAt i)
  sends : (cl.posted index happenings).Perm (nodes.zipIdx.flatMap fun x =>
    (cl.chronicle (testPlace x.2) index happenings).testSends x.1 url timeout)
  starved : ∀ i plan, job.testAt i = some (.calling plan .starved) →
    ∃ part, part <+: happenings ∧ (cl.live part).correlator.allocate = none
  gone : job = .gone → .event (.abandon index) ∈ happenings
  paced : prompt → cl.Free happenings → ∀ b, job = .testing b →
    b.Paced cl.now s.delaySpan (cl.live happenings).now

variable {sound' prompt' : Prop} {happenings : List Happening}

theorem batch_kept_start (found : cl.jobs[index]? = some (.testing (.new nodes url timeout width)))
    (settings : cl.settings = s) :
    BatchKept s nodes url timeout width sound prompt cl index []
      (.testing (.new nodes url timeout width)) where
  found := found
  settings := settings
  tests := by
    refine .testing _ rfl rfl rfl (Nat.zero_le _) ?_
    simp [Batch.line, Batch.new, startingTest, Function.comp_def]
  lanes i node named := by
    have stands : (Job.testing (.new nodes url timeout width)).testAt i = some .starting := by
      simp [Job.testAt, Job.line, Batch.line, Batch.new, startingTest, named]
    rw [stands]
    exact lane_empty cl
  sends := by
    refine .of_eq (List.flatMap_eq_nil_iff.mpr fun x _ => ?_).symm
    simp only [Chronicle.testSends]
    split <;> rfl
  starved i plan starved := by
    rw [Job.testAt] at starved
    obtain ⟨t, found, same⟩ := Option.map_eq_some_iff.mp starved
    have member := List.mem_of_getElem? found
    simp [Job.line, Batch.line, Batch.new, startingTest] at member
    obtain ⟨node, _, rfl⟩ := member
    cases same
  gone := by simp
  paced _ _ b same := by
    cases same
    refine ⟨fun _ _ => ?_, by simp [Batch.new], fun _ => ?_, by simp [Batch.new]⟩
    · exact Nat.le_add_right _ _
    · exact Nat.le_add_right _ _

theorem BatchKept.concat (kept : BatchKept s nodes url timeout width sound prompt cl index
    happenings job) (orderly : (cl.live happenings).Orderly) (h : Happening)
    (apart : sound' → sound ∧ (cl.live happenings).TicketsApart)
    (promptly : prompt' → prompt ∧ (cl.live happenings).isPromptly index h = true) :
    ∃ job', BatchKept s nodes url timeout width sound' prompt' cl index (happenings ++ [h])
      job' := by
  obtain ⟨job', found', fares⟩ := meet_fares kept.found h
  have settings : (cl.live happenings).settings = s :=
    (live_settings cl happenings).trans kept.settings
  have turn := batch_turn kept.tests fares
  rw [settings] at turn
  have record : ∀ i, cl.chronicle (testPlace i) index (happenings ++ [h]) =
      (cl.chronicle (testPlace i) index happenings).turn (cl.live happenings) index h
        ((testPlace i).at? job) ((testPlace i).at? job') :=
    fun i => chronicle_turn kept.found found'
  refine ⟨job', ?_, kept.settings, tests_meet kept.tests fares, ?_, ?_, ?_, ?_, ?_⟩
  · rw [live_concat]
    exact found'
  · intro i node named
    rw [live_concat, record]
    refine (kept.lanes i node named).meet (turn.testTurn kept.tests kept.found orderly named ?_)
      orderly ?_ ?_ apart ?_ Free.earlier
    · rintro ⟨so, free⟩ b j rfl rfl there
      have fresh := (kept.paced (promptly so).1 free.earlier b rfl).fresh j node there
      cases kept.tests with
      | testing _ sameUrl sameTimeout sameWidth few names => rwa [sameWidth] at fresh
    · intro a stands
      exact held_of_job kept.found ((testPlace i).inside stands)
    · intro a stands
      exact held_of_job found' ((testPlace i).inside stands)
    · intro so
      refine ⟨(promptly so).1, fun phase moment stands due early => ?_⟩
      obtain ⟨b, node', rfl, member⟩ := Job.mem_tests_of_due stands due
      exact meet_early kept.found (List.mem_filterMap.mpr ⟨_, member, due⟩) early (promptly so).2
  · rw [posted_concat]
    have more := turn.sends kept.tests
      (fun i node phase named stands => (kept.lanes i node named).stands phase stands) record
    exact (kept.sends.append_right _).trans more.symm
  · intro i plan starves
    rcases turn.starves starves with before | full
    · obtain ⟨part, leads, full⟩ := kept.starved i plan before
      exact ⟨part, leads.trans (List.prefix_append _ _), full⟩
    · exact ⟨happenings, List.prefix_append _ _, full⟩
  · intro left
    rw [List.mem_append, List.mem_singleton]
    rcases tests_leave kept.tests fares left with before | given
    · exact .inl (kept.gone before)
    · exact .inr given.symm
  · intro so free
    rw [live_concat]
    have freed := free.earlier
    have paced := paced_meet (h := h) kept.tests (settings ▸ kept.lanes) kept.found ?_
      (promptly so).1 freed (promptly so).2 fares ?_
    · rwa [settings] at paced
    · intro i plan starves
      obtain ⟨part, leads, full⟩ := kept.starved i plan starves
      exact freed part leads full
    · rw [settings]
      exact kept.paced (promptly so).1 freed

end Client

end ProxyConsole
