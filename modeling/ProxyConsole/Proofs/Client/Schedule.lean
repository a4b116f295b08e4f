import Mathlib.Data.List.Induction
import ProxyConsole.Proofs.Client.Jobs
import ProxyConsole.Proofs.Positions

/-!
# Clients under any schedule

One event changes one job at most, apart from what the transport tells the attempts under way.  What
was sent stays sent, jobs keep their places, and the correlator changes once at most.
-/

set_option autoImplicit false

namespace ProxyConsole

open ProxyConsole.Positions

/-- Whether a job is under way without a cache and without an aftermath. -/
def Job.isAside : Job → Bool
  | .waiting _ _ => true
  | .testing _ => true
  | .reserving => true
  | .awaiting _ _ _ => true
  | _ => false

theorem Job.isAside_job (r : Resource) (modeOnly : Bool) (phase : ReadPhase) :
    (r.job modeOnly phase).isAside = false := by
  cases r <;> rfl

namespace Client

theorem run_concat (cl : Client) (events : List ClientEvent) (event : ClientEvent) :
    cl.run (events ++ [event]) = (cl.run events).step event := by
  simp [run]

theorem run_append (cl : Client) (events later : List ClientEvent) :
    cl.run (events ++ later) = (cl.run events).run later := by
  simp [run]

theorem over_of_reply {cl : Client} {index : Nat} {α : Type} {pick : Reply → Option α} {a : α}
    (shown : ((cl.jobs[index]?.bind Job.result?).bind fun r => r.toOption.bind pick) = some a) :
    ∃ reply, cl.jobs[index]? = some (.over (.ok reply)) ∧ pick reply = some a := by
  obtain ⟨result, ended, picked⟩ := Option.bind_eq_some_iff.mp shown
  obtain ⟨job, found, same⟩ := Option.bind_eq_some_iff.mp ended
  cases job <;> cases same
  cases result with
  | error e => cases picked
  | ok reply => exact ⟨reply, found, picked⟩

/-- All the ways in which the job at an index goes on, as another job of another client. -/
inductive JobTurn (cl : Client) (index : Nat) : Job → Job → Client → Prop where
  | begins (plan : CallPlan Reply) (after : Aftermath) (call : CallPhase) (sends : List Sending)
      (c : Correlator) (evolves : cl.correlator.Evolves c) :
      JobTurn cl index (.newCall plan after) (.call plan after call)
        (cl.moveJob index (.call plan after call) sends c)
  | calls (plan : CallPlan Reply) (after : Aftermath) (call call' : CallPhase)
      (sends : List Sending) (c : Correlator) (evolves : cl.correlator.Evolves c) :
      JobTurn cl index (.call plan after call) (.call plan after call')
        (cl.moveJob index (.call plan after call') sends c)
  | ends (plan : CallPlan Reply) (after : Aftermath) (call : CallPhase)
      (result : Except CallError Reply) (c : Correlator) (evolves : cl.correlator.Evolves c) :
      JobTurn cl index (.call plan after call) (.over result)
        ((cl.settleAftermath after result).finishJob index result c)
  | reads (r : Resource) (modeOnly : Bool) (phase phase' : ReadPhase) (sends : List Sending)
      (c : Correlator) (cache : Cache r.Value)
      (step : (cl.planOf r).step phase cl.now (cl.cacheOf r) cl.correlator =
        (.move phase' sends c, cache)) :
      JobTurn cl index (r.job modeOnly phase) (r.job modeOnly phase')
        ((cl.withCache r cache).moveJob index (r.job modeOnly phase') sends c)
  | answers (r : Resource) (modeOnly : Bool) (phase : ReadPhase)
      (result : Except CallError r.Value) (c : Correlator) (cache : Cache r.Value)
      (step : (cl.planOf r).step phase cl.now (cl.cacheOf r) cl.correlator =
        (.finish result c, cache)) :
      JobTurn cl index (r.job modeOnly phase) (.over (cl.replyOf r modeOnly result))
        ((cl.withCache r cache).finishRead index modeOnly c r result)
  | other (job job' : Job) (sends : List Sending) (c : Correlator)
      (evolves : cl.correlator.Evolves c) (aside : job.isAside = true)
      (idle : job'.reads? = none) : JobTurn cl index job job' (cl.moveJob index job' sends c)

theorem JobGoes.turn {cl cl' : Client} {index : Nat} {job job' : Job}
    (goes : cl.JobGoes index job job' cl') : cl.JobTurn index job job' cl' := by
  cases goes with
  | begins plan after call sends c step =>
    have evolves := (plan.beginAttempt_cases 1 cl.now step).1
    exact .begins plan after call sends c evolves
  | calls plan after call call' sends c step =>
    have within := plan.step_within call cl.now cl.correlator
    rw [step] at within
    exact .calls plan after call call' sends c within
  | ends plan after call result c step =>
    have within := plan.step_within call cl.now cl.correlator
    rw [step] at within
    exact .ends plan after call result c within
  | reads r modeOnly phase phase' sends c cache step =>
    exact .reads r modeOnly phase phase' sends c cache step
  | answers r modeOnly phase result c cache step =>
    exact .answers r modeOnly phase result c cache step
  | waits wait phase phase' sends c step =>
    have within := wait.step_within cl.stopFirst phase cl.now cl.correlator
    rw [step] at within
    exact .other _ _ _ _ within rfl rfl
  | waited wait phase result c step =>
    have within := wait.step_within cl.stopFirst phase cl.now cl.correlator
    rw [step] at within
    exact .other _ _ _ _ within rfl rfl
  | tests batch batch' sends c step =>
    have within := batch.step_within cl.settings cl.now cl.correlator
    rw [step] at within
    exact .other _ _ _ _ within rfl rfl
  | tested batch results c step =>
    have within := batch.step_within cl.settings cl.now cl.correlator
    rw [step] at within
    exact .other _ _ _ _ within rfl rfl
  | reserves t c allocated => exact .other _ _ _ _ (.allocates allocated) rfl rfl
  | awaited t limit deadline r ended =>
    exact .other _ _ _ _ (.reduces (cl.correlator.conclude_reduces t)) rfl rfl

theorem stepJob_turn {cl cl' : Client} {index : Nat} (step : cl.stepJob index = some cl') :
    ∃ job job', cl.jobs[index]? = some job ∧ cl.JobTurn index job job' cl' := by
  obtain ⟨job, job', found, goes⟩ := stepJob_goes step
  exact ⟨job, job', found, goes.turn⟩

theorem JobTurn.jobs {cl cl' : Client} {index : Nat} {job job' : Job}
    (turn : cl.JobTurn index job job' cl') : cl'.jobs = cl.jobs.set index job' := by
  cases turn with
  | reads r modeOnly phase phase' sends c cache step =>
    simp only [moveJob, setJob, withCache_jobs]
  | answers r modeOnly phase result c cache step =>
    rw [finishRead_jobs, withCache_jobs, withCache_replyOf]
  | _ => rfl

/-! ## What lasts -/

/-- What one event leaves as it is or lets grow, with one change of the correlator. -/
structure Extends (cl cl' : Client) : Prop where
  settings : cl'.settings = cl.settings
  sends : cl.sends <+: cl'.sends
  jobs : cl.jobs.length ≤ cl'.jobs.length
  correlator : cl.correlator.Evolves cl'.correlator

theorem Extends.refl (cl : Client) : cl.Extends cl :=
  ⟨rfl, List.prefix_rfl, Nat.le_refl _, .refl _⟩

theorem JobTurn.unsettled {cl cl' : Client} {index : Nat} {job job' : Job}
    (turn : cl.JobTurn index job job' cl') : job ≠ .gone ∧ ∀ result, job ≠ .over result := by
  cases turn with
  | reads r modeOnly phase phase' sends c cache step => cases r <;> simp [Resource.job]
  | answers r modeOnly phase result c cache step => cases r <;> simp [Resource.job]
  | other _ _ sends c evolves aside idle =>
    constructor
    · rintro rfl
      cases aside
    · rintro result rfl
      cases aside
  | _ => simp

theorem JobTurn.of_read {r : Resource} {cl cl' : Client} {i : Nat} {modeOnly : Bool}
    {phase : ReadPhase} {job' : Job} (turn : cl.JobTurn i (r.job modeOnly phase) job' cl') :
    (∃ phase' sends c cache, job' = r.job modeOnly phase' ∧
      (cl.planOf r).step phase cl.now (cl.cacheOf r) cl.correlator = (.move phase' sends c, cache) ∧
      cl'.cacheOf r = cache) ∨
    ∃ result c cache, job' = .over (cl.replyOf r modeOnly result) ∧
      (cl.planOf r).step phase cl.now (cl.cacheOf r) cl.correlator = (.finish result c, cache) ∧
      cl'.cacheOf r = cache := by
  generalize same : r.job modeOnly phase = job at turn
  cases turn with
  | reads r' modeOnly' phase₀ phase' sends c cache step =>
    cases r <;> cases r' <;> cases same <;>
      exact Or.inl ⟨phase', sends, c, cache, rfl, step, rfl⟩
  | answers r' modeOnly' phase₀ result c cache step =>
    refine Or.inr ?_
    cases r <;> cases r' <;> cases same
    · refine ⟨result, c, cache, rfl, step, ?_⟩
      rw [finishRead_cacheOf]
      rfl
    · refine ⟨result, c, cache, ?_, step, ?_⟩
      · cases result <;> rfl
      · rw [finishRead_cacheOf]
        rfl
  | other _ _ sends c evolves aside idle =>
    rw [← same, Job.isAside_job] at aside
    cases aside
  | _ => cases r <;> cases same

theorem JobTurn.extends {cl cl' : Client} {index : Nat} {job job' : Job}
    (turn : cl.JobTurn index job job' cl') : cl.Extends cl' := by
  cases turn with
  | begins plan after call sends c evolves =>
    exact ⟨rfl, List.prefix_append _ _, by simp [moveJob, setJob], evolves⟩
  | calls plan after call call' sends c evolves =>
    exact ⟨rfl, List.prefix_append _ _, by simp [moveJob, setJob], evolves⟩
  | ends plan after call result c evolves =>
    exact ⟨rfl, List.prefix_append _ _, by simp [finishJob, moveJob, setJob, settleAftermath],
      evolves⟩
  | reads r modeOnly phase phase' sends c cache step =>
    have within := (cl.planOf r).step_within phase cl.now (cl.cacheOf r) cl.correlator
    rw [step] at within
    refine ⟨cl.withCache_settings r cache, ?_, ?_, within⟩
    · simp only [moveJob, setJob, withCache_sends]
      exact List.prefix_append _ _
    · simp [moveJob, setJob, withCache_jobs]
  | answers r modeOnly phase result c cache step =>
    have within := (cl.planOf r).step_within phase cl.now (cl.cacheOf r) cl.correlator
    rw [step] at within
    refine ⟨?_, ?_, ?_, ?_⟩
    · rw [finishRead_settings, withCache_settings]
    · have same : ((cl.withCache r cache).finishRead index modeOnly c r result).sends =
        cl.sends := by
        rw [finishRead_sends, withCache_sends]
      exact same ▸ List.prefix_rfl
    · exact Nat.le_of_eq (by rw [finishRead_jobs, List.length_set, withCache_jobs])
    · rw [finishRead_correlator]
      exact within
  | other job job' sends c evolves aside idle =>
    exact ⟨rfl, List.prefix_append _ _, by simp [moveJob, setJob], evolves⟩

theorem withdraw_correlator_reduces (cl : Client) (job : Job) :
    cl.correlator.Reduces (cl.withdraw job).correlator := by
  have released := Correlator.foldl_release_reduces Attempt.ticket job.attempts cl.correlator
  cases job with
  | awaiting t limit deadline => exact released.trans (Correlator.release_reduces _ t)
  | _ => exact released

theorem withdraw_jobs (cl : Client) (job : Job) : (cl.withdraw job).jobs = cl.jobs := by
  cases job <;> rfl

theorem withdraw_sends (cl : Client) (job : Job) : (cl.withdraw job).sends = cl.sends := by
  cases job <;> rfl

theorem withdraw_settings (cl : Client) (job : Job) : (cl.withdraw job).settings = cl.settings := by
  cases job <;> rfl

theorem step_extends (cl : Client) (event : ClientEvent) : cl.Extends (cl.step event) := by
  cases event with
  | start op => exact ⟨rfl, List.prefix_rfl, by simp [step, start], .refl _⟩
  | advance index =>
    simp only [step]
    cases moved : cl.stepJob index with
    | none => exact .refl cl
    | some cl' =>
      obtain ⟨_, _, _, turn⟩ := stepJob_turn moved
      exact turn.extends
  | transmitted t result => exact ⟨rfl, List.prefix_rfl, by simp [step], .refl _⟩
  | listen =>
    simp only [step, stepListener]
    cases taken : cl.listener.step cl.stopFirst cl.correlator with
    | none => exact .refl cl
    | some pair => exact ⟨rfl, List.prefix_rfl, Nat.le_refl _, Listener.step_evolves taken⟩
  | dispatch e => exact ⟨rfl, List.prefix_rfl, Nat.le_refl _, .dispatches e⟩
  | cancelPending =>
    exact ⟨rfl, List.prefix_rfl, Nat.le_refl _, .reduces cl.correlator.cancelAll_reduces⟩
  | abandon index =>
    simp only [step, abandon]
    cases cl.jobs[index]? with
    | none => exact .refl cl
    | some job =>
      refine ⟨cl.withdraw_settings job, ?_, ?_, .reduces (cl.withdraw_correlator_reduces job)⟩
      · simp only [setJob, withdraw_sends]
        exact List.prefix_rfl
      · simp [setJob, withdraw_jobs]
  | _ => exact ⟨rfl, List.prefix_rfl, Nat.le_refl _, .refl _⟩

/-- What any number of events leave as it is or let grow. -/
structure Grows (cl cl' : Client) : Prop where
  settings : cl'.settings = cl.settings
  sends : cl.sends <+: cl'.sends
  jobs : cl.jobs.length ≤ cl'.jobs.length
  registered : cl.correlator.registered ≤ cl'.correlator.registered

theorem Grows.step {cl cl' : Client} (grows : cl.Grows cl') (event : ClientEvent) :
    cl.Grows (cl'.step event) := by
  have next := cl'.step_extends event
  refine ⟨next.settings.trans grows.settings, grows.sends.trans next.sends, ?_, ?_⟩
  · exact Nat.le_trans grows.jobs next.jobs
  · exact Nat.le_trans grows.registered next.correlator.registered_le

theorem run_grows (cl : Client) (events : List ClientEvent) : cl.Grows (cl.run events) := by
  induction events using List.reverseRecOn with
  | nil => exact ⟨rfl, List.prefix_rfl, Nat.le_refl _, Nat.le_refl _⟩
  | append_singleton events event earlier =>
    rw [run_concat]
    exact earlier.step event

/-! ## Time -/

theorem JobTurn.now {cl cl' : Client} {index : Nat} {job job' : Job}
    (turn : cl.JobTurn index job job' cl') : cl'.now = cl.now := by
  cases turn with
  | reads r => cases r <;> rfl
  | answers r modeOnly phase result => cases r <;> rfl
  | _ => rfl

theorem step_now (cl : Client) {event : ClientEvent} (timeless : ∀ moment, event ≠ .pass moment) :
    (cl.step event).now = cl.now := by
  cases event with
  | advance index =>
    simp only [step]
    cases moved : cl.stepJob index with
    | none => rfl
    | some cl' =>
      obtain ⟨_, _, _, turn⟩ := stepJob_turn moved
      exact turn.now
  | listen =>
    simp only [step, stepListener]
    cases cl.listener.step cl.stopFirst cl.correlator <;> rfl
  | abandon index =>
    simp only [step, abandon]
    cases cl.jobs[index]? with
    | none => rfl
    | some job => cases job <;> rfl
  | pass moment => exact absurd rfl (timeless moment)
  | _ => rfl

theorem run_now_le (cl : Client) (events : List ClientEvent) : cl.now ≤ (cl.run events).now := by
  induction events using List.reverseRecOn with
  | nil => exact Nat.le_refl _
  | append_singleton events event earlier =>
    refine Nat.le_trans earlier ?_
    rw [run_concat]
    by_cases passes : ∃ moment, event = .pass moment
    · obtain ⟨moment, rfl⟩ := passes
      exact Nat.le_max_left _ _
    · exact Nat.le_of_eq ((cl.run events).step_now fun moment same => passes ⟨moment, same⟩).symm

/-! ## One job -/

/-- How a job may stand after an event. -/
inductive JobStep (cl : Client) (index : Nat) (job : Job) (event : ClientEvent) : Job → Prop where
  | same : JobStep cl index job event job
  | hears (t : Ticket) (result : Except TransportError Unit)
      (heard : event = .transmitted t result) :
      JobStep cl index job event (job.mapAttempt (Attempt.transmitted t result))
  | gone (given : event = .abandon index) : JobStep cl index job event .gone
  | turns (job' : Job) (advance : event = .advance index)
      (turn : cl.JobTurn index job job' (cl.step event)) : JobStep cl index job event job'

theorem getElem?_of_set_jobs {cl : Client} {i j : Nat} {job new : Job} {jobs : List Job}
    (moved : jobs = cl.jobs.set i new) (other : j ≠ i) (found : cl.jobs[j]? = some job) :
    jobs[j]? = some job := by
  rw [moved, List.getElem?_set_ne (Ne.symm other)]
  exact found

theorem step_job {cl : Client} {index : Nat} {job : Job} (found : cl.jobs[index]? = some job)
    (event : ClientEvent) :
    ∃ job', (cl.step event).jobs[index]? = some job' ∧ cl.JobStep index job event job' := by
  cases event with
  | start op => exact ⟨job, getElem?_concat_of_some _ found, .same⟩
  | advance i =>
    cases moved : cl.stepJob i with
    | none =>
      have still : cl.step (.advance i) = cl := by simp [step, moved]
      rw [still]
      exact ⟨job, found, .same⟩
    | some cl' =>
      obtain ⟨job₀, job', at_, turn⟩ := stepJob_turn moved
      have next : cl.step (.advance i) = cl' := by simp [step, moved]
      rw [← next] at turn
      by_cases own : index = i
      · subst own
        rw [found] at at_
        cases at_
        refine ⟨job', ?_, .turns job' rfl turn⟩
        rw [turn.jobs]
        exact getElem?_set_of_some _ found
      · exact ⟨job, getElem?_of_set_jobs turn.jobs own found, .same⟩
  | transmitted t result =>
    refine ⟨_, ?_, .hears t result rfl⟩
    have mapped : (cl.jobs.map (Job.mapAttempt (Attempt.transmitted t result)))[index]? =
        some (job.mapAttempt (Attempt.transmitted t result)) := by
      rw [List.getElem?_map, found]
      rfl
    exact mapped
  | listen =>
    refine ⟨job, ?_, .same⟩
    simp only [step, stepListener]
    cases cl.listener.step cl.stopFirst cl.correlator with
    | none => exact found
    | some pair => exact found
  | abandon i =>
    simp only [step, abandon]
    cases at_ : cl.jobs[i]? with
    | none => exact ⟨job, found, .same⟩
    | some job₀ =>
      have jobs : ((cl.withdraw job₀).setJob i .gone).jobs = cl.jobs.set i .gone := by
        simp only [setJob, withdraw_jobs]
      by_cases own : index = i
      · subst own
        refine ⟨.gone, ?_, .gone rfl⟩
        rw [jobs]
        exact getElem?_set_of_some _ found
      · exact ⟨job, getElem?_of_set_jobs jobs own found, .same⟩
  | _ => exact ⟨job, found, .same⟩

/-- Where the job that stands at an index after an event comes from. -/
inductive JobOrigin (cl : Client) (index : Nat) (event : ClientEvent) (job' : Job) : Prop where
  | stood (same : cl.jobs[index]? = some job')
  | heard (t : Ticket) (result : Except TransportError Unit) (job : Job)
      (found : cl.jobs[index]? = some job) (heard : event = .transmitted t result)
      (hears : job' = job.mapAttempt (Attempt.transmitted t result))
  | gone (given : event = .abandon index) (gone : job' = .gone)
  | goes (job : Job) (found : cl.jobs[index]? = some job) (advance : event = .advance index)
      (goes : cl.JobGoes index job job' (cl.step event))
  | started (op : Operation) (start : event = .start op) (last : index = cl.jobs.length)
      (opens : job' = cl.opened op)

theorem step_origin {cl : Client} {event : ClientEvent} {index : Nat} {job' : Job}
    (found' : (cl.step event).jobs[index]? = some job') : cl.JobOrigin index event job' := by
  cases event with
  | start op =>
    rcases getElem?_concat_cases found' with before | ⟨last, opens⟩
    · exact .stood before
    · exact .started op rfl last opens
  | advance i =>
    rcases cl.advance_cases i with ⟨_, still⟩ | ⟨job, next, found, goes⟩
    · rw [still] at found'
      exact .stood found'
    · rw [goes.jobs] at found'
      rcases getElem?_set_cases found' with ⟨rfl, rfl⟩ | ⟨_, before⟩
      · exact .goes job found rfl goes
      · exact .stood before
  | transmitted t result =>
    have mapped : (cl.jobs.map (Job.mapAttempt (Attempt.transmitted t result)))[index]? =
        some job' := found'
    rw [List.getElem?_map, Option.map_eq_some_iff] at mapped
    obtain ⟨job, found, rfl⟩ := mapped
    exact .heard t result job found rfl rfl
  | listen =>
    simp only [step, stepListener] at found'
    cases taken : cl.listener.step cl.stopFirst cl.correlator with
    | none =>
      rw [taken] at found'
      exact .stood found'
    | some pair =>
      rw [taken] at found'
      exact .stood found'
  | abandon i =>
    simp only [step, abandon] at found'
    cases at_ : cl.jobs[i]? with
    | none =>
      rw [at_] at found'
      exact .stood found'
    | some job =>
      rw [at_] at found'
      simp only [setJob, withdraw_jobs] at found'
      rcases getElem?_set_cases found' with ⟨rfl, rfl⟩ | ⟨_, before⟩
      · exact .gone rfl rfl
      · exact .stood before
  | _ => exact .stood found'

/-- What is kept by every step of a job, by what its attempts hear and by giving it up holds
of the job ever after. -/
theorem job_run {cl : Client} {index : Nat} {P : Job → Prop} {events : List ClientEvent}
    (inside : index < cl.jobs.length) (stands : ∀ job, cl.jobs[index]? = some job → P job)
    (gone : P .gone)
    (heard : ∀ job t result, P job → P (job.mapAttempt (Attempt.transmitted t result)))
    (goes : ∀ before rest job job', events = before ++ .advance index :: rest →
      (cl.run before).jobs[index]? = some job → P job →
      (cl.run before).JobGoes index job job' (cl.run (before ++ [.advance index])) → P job')
    {job : Job} (found : (cl.run events).jobs[index]? = some job) : P job := by
  induction events using List.reverseRecOn generalizing job with
  | nil => exact stands job found
  | append_singleton events event earlier =>
    have before : ∀ {job : Job}, (cl.run events).jobs[index]? = some job → P job := by
      intro job found
      refine earlier ?_ found
      intro before rest job job' split
      exact goes before (rest ++ [event]) job job' (by simp [split])
    rw [run_concat] at found
    cases step_origin found with
    | stood same => exact before same
    | heard t result job₀ found₀ _ hears =>
      rw [hears]
      exact heard job₀ t result (before found₀)
    | gone _ withdrawn =>
      rw [withdrawn]
      exact gone
    | goes job₀ found₀ advance next =>
      rw [← run_concat, advance] at next
      exact goes events [] job₀ job (by rw [advance]) found₀ (before found₀) next
    | started op _ last _ =>
      have grown := (cl.run_grows events).jobs
      omega

end Client

end ProxyConsole
