import ProxyConsole.Proofs.Client.Resource

/-!
# How jobs go on

A job goes on by a step of the plan that it follows, or by what the correlator tells of its ticket.
Nothing of the step is left out here, so that no later argument has to open it again.
-/

set_option autoImplicit false

namespace ProxyConsole.Client

/-- The job that an operation starts as: one whose input is refused is over at once. -/
def opened (cl : Client) (op : Operation) : Job :=
  match op.script cl.settings with
  | .ok script => cl.newJob script
  | .error e => .over (.error e)

theorem start_jobs (cl : Client) (op : Operation) :
    (cl.step (.start op)).jobs = cl.jobs ++ [cl.opened op] :=
  rfl

/-- The end of a wait for a ticket, if it has come. -/
def waitEnd? (cl : Client) (t : Ticket) (limit deadline : Nat) :
    Option (Except WaitError InboundEnvelope) :=
  match cl.correlator.status t with
  | .delivered e => some (.ok e)
  | .cancelled => some (.error .cancelled)
  | .waiting =>
    if deadline ≤ cl.now then some (.error (.timedOut (Duration.ofMillis limit))) else none

/-- The step of its plan by which the job at an index goes on, as another job of another client. -/
inductive JobGoes (cl : Client) (index : Nat) : Job → Job → Client → Prop where
  | begins (plan : CallPlan Reply) (after : Aftermath) (call : CallPhase) (sends : List Sending)
      (c : Correlator) (step : plan.start cl.now cl.correlator = (call, sends, c)) :
      JobGoes cl index (.newCall plan after) (.call plan after call)
        (cl.moveJob index (.call plan after call) sends c)
  | calls (plan : CallPlan Reply) (after : Aftermath) (call call' : CallPhase)
      (sends : List Sending) (c : Correlator)
      (step : plan.step call cl.now cl.correlator = .move call' sends c) :
      JobGoes cl index (.call plan after call) (.call plan after call')
        (cl.moveJob index (.call plan after call') sends c)
  | ends (plan : CallPlan Reply) (after : Aftermath) (call : CallPhase)
      (result : Except CallError Reply) (c : Correlator)
      (step : plan.step call cl.now cl.correlator = .finish result c) :
      JobGoes cl index (.call plan after call) (.over result)
        ((cl.settleAftermath after result).finishJob index result c)
  | reads (r : Resource) (modeOnly : Bool) (phase phase' : ReadPhase) (sends : List Sending)
      (c : Correlator) (cache : Cache r.Value)
      (step : (cl.planOf r).step phase cl.now (cl.cacheOf r) cl.correlator =
        (.move phase' sends c, cache)) :
      JobGoes cl index (r.job modeOnly phase) (r.job modeOnly phase')
        ((cl.withCache r cache).moveJob index (r.job modeOnly phase') sends c)
  | answers (r : Resource) (modeOnly : Bool) (phase : ReadPhase)
      (result : Except CallError r.Value) (c : Correlator) (cache : Cache r.Value)
      (step : (cl.planOf r).step phase cl.now (cl.cacheOf r) cl.correlator =
        (.finish result c, cache)) :
      JobGoes cl index (r.job modeOnly phase) (.over (cl.replyOf r modeOnly result))
        ((cl.withCache r cache).finishRead index modeOnly c r result)
  | waits (wait : Wait) (phase phase' : WaitPhase) (sends : List Sending) (c : Correlator)
      (step : wait.step cl.stopFirst phase cl.now cl.correlator = .move phase' sends c) :
      JobGoes cl index (.waiting wait phase) (.waiting wait phase')
        (cl.moveJob index (.waiting wait phase') sends c)
  | waited (wait : Wait) (phase : WaitPhase) (result : Except CallError VersionInfo)
      (c : Correlator) (step : wait.step cl.stopFirst phase cl.now cl.correlator =
      .finish result c) :
      JobGoes cl index (.waiting wait phase) (.over (result.map .version))
        (cl.finishJob index (result.map .version) c)
  | tests (batch batch' : Batch) (sends : List Sending) (c : Correlator)
      (step : batch.step cl.settings cl.now cl.correlator = .move batch' sends c) :
      JobGoes cl index (.testing batch) (.testing batch')
        (cl.moveJob index (.testing batch') sends c)
  | tested (batch : Batch) (results : List (String × Except CallError DelayResult))
      (c : Correlator) (step : batch.step cl.settings cl.now cl.correlator = .finish results c) :
      JobGoes cl index (.testing batch) (.over (.ok (.delays results)))
        (cl.finishJob index (.ok (.delays results)) c)
  | reserves (t : Ticket) (c : Correlator) (allocated : cl.correlator.allocate = some (t, c)) :
      JobGoes cl index .reserving (.over (.ok (.ticket t)))
        (cl.finishJob index (.ok (.ticket t)) c)
  | awaited (t : Ticket) (limit deadline : Nat) (r : Except WaitError InboundEnvelope)
      (ended : cl.waitEnd? t limit deadline = some r) :
      JobGoes cl index (.awaiting t limit deadline) (.over (.ok (.waited r)))
        (cl.finishJob index (.ok (.waited r)) (cl.correlator.conclude t))

section Goes

variable {cl cl' : Client} {index : Nat}

theorem stepJob_reads (r : Resource) (modeOnly : Bool) {phase : ReadPhase}
    (found : cl.jobs[index]? = some (r.job modeOnly phase)) (step : cl.stepJob index = some cl') :
    ∃ job', cl.JobGoes index (r.job modeOnly phase) job' cl' := by
  have reads : cl.stepJob index =
      match (cl.planOf r).step phase cl.now (cl.cacheOf r) cl.correlator with
      | (.stay, _) => none
      | (.move phase sends c, cache) =>
        some ((cl.withCache r cache).moveJob index (r.job modeOnly phase) sends c)
      | (.finish result c, cache) =>
        some ((cl.withCache r cache).finishRead index modeOnly c r result) := by
    unfold stepJob
    rw [found]
    generalize stepped : (cl.planOf r).step phase cl.now (cl.cacheOf r) cl.correlator = next
    obtain ⟨progress, cache⟩ := next
    cases r with
    | config =>
      simp only [Resource.job]
      rw [show cl.configPlan.step phase cl.now cl.configs cl.correlator = _ from stepped]
      cases progress <;> rfl
    | proxies =>
      simp only [Resource.job]
      rw [show cl.proxiesPlan.step phase cl.now cl.proxies cl.correlator = _ from stepped]
      cases progress <;> rfl
  rw [reads] at step
  split at step
  · cases step
  · rename_i progress
    cases step
    exact ⟨_, .reads r modeOnly phase _ _ _ _ progress⟩
  · rename_i progress
    cases step
    exact ⟨_, .answers r modeOnly phase _ _ _ progress⟩

theorem stepJob_awaits {t : Ticket} {limit deadline : Nat}
    (found : cl.jobs[index]? = some (.awaiting t limit deadline))
    (step : cl.stepJob index = some cl') :
    ∃ job', cl.JobGoes index (.awaiting t limit deadline) job' cl' := by
  have awaits : cl.stepJob index = (cl.waitEnd? t limit deadline).map fun r =>
      cl.finishJob index (.ok (.waited r)) (cl.correlator.conclude t) := by
    unfold stepJob waitEnd?
    rw [found]
    cases status : cl.correlator.status t with
    | waiting => by_cases late : deadline ≤ cl.now <;> simp [late, status]
    | _ => simp [status]
  rw [awaits] at step
  obtain ⟨r, ended, rfl⟩ := Option.map_eq_some_iff.mp step
  exact ⟨_, .awaited t limit deadline r ended⟩

theorem stepJob_goes (step : cl.stepJob index = some cl') :
    ∃ job job', cl.jobs[index]? = some job ∧ cl.JobGoes index job job' cl' := by
  suffices goes : ∃ job, cl.jobs[index]? = some job ∧ ∃ job', cl.JobGoes index job job' cl' by
    obtain ⟨job, found, job', goes⟩ := goes
    exact ⟨job, job', found, goes⟩
  have whole := step
  unfold stepJob at step
  cases found : cl.jobs[index]? with
  | none =>
    rw [found] at step
    cases step
  | some job =>
    refine ⟨job, rfl, ?_⟩
    rw [found] at step
    dsimp only at step
    cases job with
    | newCall plan after =>
      cases step
      exact ⟨_, .begins plan after _ _ _ rfl⟩
    | call plan after call =>
      dsimp only at step
      split at step <;> cases step
      · rename_i progress
        exact ⟨_, .calls plan after call _ _ _ progress⟩
      · rename_i progress
        exact ⟨_, .ends plan after call _ _ progress⟩
    | readConfig modeOnly phase => exact stepJob_reads .config modeOnly found whole
    | readProxies phase => exact stepJob_reads .proxies false found whole
    | waiting wait phase =>
      dsimp only at step
      split at step <;> cases step
      · rename_i progress
        exact ⟨_, .waits wait phase _ _ _ progress⟩
      · rename_i progress
        exact ⟨_, .waited wait phase _ _ progress⟩
    | testing batch =>
      dsimp only at step
      split at step <;> cases step
      · rename_i progress
        exact ⟨_, .tests batch _ _ _ progress⟩
      · rename_i progress
        exact ⟨_, .tested batch _ _ progress⟩
    | reserving =>
      dsimp only at step
      split at step <;> cases step
      rename_i allocated
      exact ⟨_, .reserves _ _ allocated⟩
    | awaiting t limit deadline => exact stepJob_awaits found whole
    | _ => cases step

end Goes

theorem withCache_replyOf (cl : Client) {r : Resource} (cache : Cache r.Value) (modeOnly : Bool)
    (result : Except CallError r.Value) :
    (cl.withCache r cache).replyOf r modeOnly result = cl.replyOf r modeOnly result := by
  cases r <;> rfl

theorem JobGoes.jobs {cl cl' : Client} {index : Nat} {job job' : Job}
    (goes : cl.JobGoes index job job' cl') : cl'.jobs = cl.jobs.set index job' := by
  cases goes with
  | reads r modeOnly phase phase' sends c cache step =>
    simp only [moveJob, setJob, withCache_jobs]
  | answers r modeOnly phase result c cache step =>
    rw [finishRead_jobs, withCache_jobs, withCache_replyOf]
  | _ => rfl

theorem advance_cases (cl : Client) (index : Nat) :
    (cl.stepJob index = none ∧ cl.step (.advance index) = cl) ∨
      ∃ job job', cl.jobs[index]? = some job ∧
        cl.JobGoes index job job' (cl.step (.advance index)) := by
  cases moved : cl.stepJob index with
  | none => exact Or.inl ⟨rfl, by simp [step, moved]⟩
  | some cl' =>
    have next : cl.step (.advance index) = cl' := by simp [step, moved]
    rw [next]
    exact Or.inr (stepJob_goes moved)

end ProxyConsole.Client
