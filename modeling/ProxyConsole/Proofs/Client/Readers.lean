import ProxyConsole.Proofs.Client.Schedule

/-!
# What one event does to a resource

To the cache of a resource and to those who read it, an event does little: a read goes
on without the cache, or launches a fetch, lands one or gives one up, or the resource is
dropped from the cache by an operation that ends.
-/

set_option autoImplicit false

namespace ProxyConsole

open ProxyConsole.Positions

/-- Whether an operation drops a resource from its cache when it ends. -/
def Aftermath.drops (after : Aftermath) : Resource → Bool
  | .config => after.dropsConfig
  | .proxies => after.dropsProxies

namespace Client

/-- If an attempt of the call is under way, its request for the resource is the first that was sent
since. -/
def SendsFrom (r : Resource) (cl cl' : Client) (call : CallPhase) : Prop :=
  ∀ a, call.attempt? = some a →
    cl'.sends[cl.sends.length]? = some ⟨a.ticket, (Request.get r.path).envelope a.ticket.id⟩ ∧
      a.ticket.serial = cl.correlator.registered

/-- How the read at an index may stand after an event that does not change the cache. -/
inductive Onward (r : Resource) (cl cl' : Client) (index : Nat) : ReadPhase → Prop where
  | keeps {phase : ReadPhase} (before : cl.Reads r index phase) : Onward r cl cl' index phase
  | hears {phase : ReadPhase} (f : Attempt → Attempt) (same : ∀ a, (f a).ticket = a.ticket)
      (before : cl.Reads r index phase) : Onward r cl cl' index (phase.mapAttempt f)
  | arrives (last : index = cl.jobs.length) : Onward r cl cl' index .arriving
  | follows {phase : ReadPhase} (flight : Nat) (before : cl.Reads r index phase)
      (running : (cl.cacheOf r).joinable? r.path = some flight) :
      Onward r cl cl' index (.following flight)
  | proceeds (flight : Nat) (call call' : CallPhase)
      (before : cl.Reads r index (.leading flight call)) (sent : SendsFrom r cl cl' call') :
      Onward r cl cl' index (.leading flight call')

/-- All that an event can do to the cache of a resource and to its readers. -/
inductive Touch (r : Resource) (cl cl' : Client) : Prop where
  | calm (cache : cl'.cacheOf r = cl.cacheOf r)
      (onward : ∀ i phase, cl'.Reads r i phase → Onward r cl cl' i phase)
  | launches (i : Nat) (phase : ReadPhase) (call : CallPhase) (before : cl.Reads r i phase)
      (sent : SendsFrom r cl cl' call) (cache : cl'.cacheOf r = (cl.cacheOf r).launch r.path)
      (onward : ∀ j phase, cl'.Reads r j phase →
        (j = i ∧ phase = .leading (cl.cacheOf r).flights.length call) ∨ cl.Reads r j phase)
  | lands (i flight : Nat) (call : CallPhase) (result : Except CallError r.Value)
      (led : cl.Reads r i (.leading flight call))
      (obtained : ∀ value, result = .ok value →
        (cl.planOf r).fetch.Obtains call cl.correlator value)
      (cache : cl'.cacheOf r = (cl.cacheOf r).land cl.now r.path flight result)
      (onward : ∀ j phase, cl'.Reads r j phase → cl.Reads r j phase)
  | givesUp (i flight : Nat) (call : CallPhase) (led : cl.Reads r i (.leading flight call))
      (cache : cl'.cacheOf r = (cl.cacheOf r).abandon r.path flight)
      (onward : ∀ j phase, cl'.Reads r j phase → cl.Reads r j phase)
  | drops (cache : cl'.cacheOf r = (cl.cacheOf r).invalidate r.path)
      (onward : ∀ j phase, cl'.Reads r j phase → cl.Reads r j phase)

theorem mapAttempt_eq_leading {f : Attempt → Attempt} {phase : ReadPhase} {flight : Nat}
    {call : CallPhase} (same : phase.mapAttempt f = .leading flight call) :
    ∃ before, phase = .leading flight before ∧ call = before.mapAttempt f := by
  cases phase <;> cases same
  exact ⟨_, rfl, rfl⟩

theorem attempt?_mapAttempt (f : Attempt → Attempt) (call : CallPhase) :
    (call.mapAttempt f).attempt? = call.attempt?.map f := by
  cases call <;> rfl

/-- A leader was one before, for the same fetch, and its attempt is the one it had or has
just begun. -/
theorem Onward.leading_cases {r : Resource} {cl cl' : Client} {i flight : Nat} {call : CallPhase}
    (onward : Onward r cl cl' i (.leading flight call)) :
    ∃ before, cl.Reads r i (.leading flight before) ∧
      ((∀ a, call.attempt? = some a → ∃ b, before.attempt? = some b ∧ a.ticket = b.ticket) ∨
        SendsFrom r cl cl' call) := by
  generalize stands : ReadPhase.leading flight call = phase at onward
  cases onward with
  | keeps before =>
    subst stands
    exact ⟨call, before, Or.inl fun a attempting => ⟨a, attempting, rfl⟩⟩
  | hears f same before =>
    obtain ⟨call', rfl, rfl⟩ := mapAttempt_eq_leading stands.symm
    refine ⟨call', before, Or.inl ?_⟩
    intro a attempting
    rw [attempt?_mapAttempt, Option.map_eq_some_iff] at attempting
    obtain ⟨b, earlier, rfl⟩ := attempting
    exact ⟨b, earlier, same b⟩
  | arrives last => cases stands
  | follows flight' before running => cases stands
  | proceeds flight' before' call' before sent =>
    cases stands
    exact ⟨before', before, Or.inr sent⟩

theorem Touch.launched_le {r : Resource} {cl cl' : Client} (touch : Touch r cl cl') :
    (cl.cacheOf r).flights.length ≤ (cl'.cacheOf r).flights.length := by
  cases touch with
  | calm cache onward => exact Nat.le_of_eq (by rw [cache])
  | launches i phase call before sent cache onward =>
    rw [cache, Cache.flights_launch, List.length_append]
    exact Nat.le_add_right _ _
  | lands i flight call result led obtained cache onward =>
    exact Nat.le_of_eq (by rw [cache, Cache.flights_land, List.length_set])
  | givesUp i flight call led cache onward =>
    exact Nat.le_of_eq (by rw [cache, Cache.flights_abandon, List.length_set])
  | drops cache onward =>
    exact Nat.le_of_eq (by rw [cache]; rfl)

/-! ## Readers and the list of jobs -/

theorem reads_set {cl cl' : Client} {r : Resource} {i j : Nat} {job : Job} {phase : ReadPhase}
    (jobs : cl'.jobs = cl.jobs.set i job) (reads : cl'.Reads r j phase) :
    (j = i ∧ job.reads? = some (r, phase)) ∨ (j ≠ i ∧ cl.Reads r j phase) := by
  obtain ⟨job', found, stands⟩ := reads
  rw [jobs] at found
  rcases getElem?_set_cases found with ⟨rfl, rfl⟩ | ⟨other, before⟩
  · exact Or.inl ⟨rfl, stands⟩
  · exact Or.inr ⟨other, job', before, stands⟩

theorem reads_set_idle {cl cl' : Client} {r : Resource} {i j : Nat} {job : Job}
    {phase : ReadPhase} (jobs : cl'.jobs = cl.jobs.set i job)
    (idle : ∀ phase, job.reads? ≠ some (r, phase)) (reads : cl'.Reads r j phase) :
    cl.Reads r j phase := by
  rcases reads_set jobs reads with ⟨_, stands⟩ | ⟨_, before⟩
  · exact absurd stands (idle phase)
  · exact before

theorem touch_of_idle {cl cl' : Client} {r : Resource} {i : Nat} {job : Job}
    (jobs : cl'.jobs = cl.jobs.set i job) (idle : ∀ phase, job.reads? ≠ some (r, phase))
    (cache : cl'.cacheOf r = cl.cacheOf r) : Touch r cl cl' :=
  .calm cache fun _ _ reads => .keeps (reads_set_idle jobs idle reads)

theorem touch_of_same {cl cl' : Client} {r : Resource} (jobs : cl'.jobs = cl.jobs)
    (cache : cl'.cacheOf r = cl.cacheOf r) : Touch r cl cl' := by
  refine .calm cache ?_
  rintro i phase ⟨job, found, stands⟩
  rw [jobs] at found
  exact .keeps ⟨job, found, stands⟩

/-! ## Jobs that go on -/

theorem settleAftermath_cacheOf (cl : Client) (after : Aftermath) (result : Except CallError Reply)
    (r : Resource) : (cl.settleAftermath after result).cacheOf r =
      if after.drops r then (cl.cacheOf r).invalidate r.path else cl.cacheOf r := by
  cases r <;> rfl

theorem touch_of_reads {cl : Client} {r : Resource} {i : Nat} {modeOnly : Bool}
    {phase phase' : ReadPhase} {sends : List Sending} {c : Correlator} {cache : Cache r.Value}
    (found : cl.jobs[i]? = some (r.job modeOnly phase))
    (step : (cl.planOf r).step phase cl.now (cl.cacheOf r) cl.correlator =
      (.move phase' sends c, cache)) :
    Touch r cl ((cl.withCache r cache).moveJob i (r.job modeOnly phase') sends c) := by
  have before : cl.Reads r i phase := ⟨_, found, Job.reads?_job ..⟩
  have jobs : ((cl.withCache r cache).moveJob i (r.job modeOnly phase') sends c).jobs =
      cl.jobs.set i (r.job modeOnly phase') := by
    simp only [moveJob, setJob, withCache_jobs]
  have cached : ((cl.withCache r cache).moveJob i (r.job modeOnly phase') sends c).cacheOf r =
      cache := by
    rw [← cl.cacheOf_withCache_self r cache]
    cases r <;> rfl
  have readers : ∀ j stands, ((cl.withCache r cache).moveJob i (r.job modeOnly phase') sends
      c).Reads r j stands → (j = i ∧ stands = phase') ∨ cl.Reads r j stands := by
    intro j stands reads
    rcases reads_set jobs reads with ⟨rfl, same⟩ | ⟨_, earlier⟩
    · rw [Job.reads?_job] at same
      cases same
      exact Or.inl ⟨rfl, rfl⟩
    · exact Or.inr earlier
  have sent : ∀ call, (cl.planOf r).fetch.Sends call sends cl.correlator →
      SendsFrom r cl ((cl.withCache r cache).moveJob i (r.job modeOnly phase') sends c) call := by
    intro call sends' a attempting
    obtain ⟨rfl, serial⟩ := sends' a attempting
    refine ⟨?_, serial⟩
    simp [moveJob, setJob, withCache_sends, planOf_request]
  have spec := (cl.planOf r).step_spec phase cl.now (cl.cacheOf r) cl.correlator
  rw [step] at spec
  cases spec with
  | follows _ flight looks running =>
    rw [planOf_signature] at running
    refine .calm cached ?_
    intro j stands reads
    rcases readers j stands reads with ⟨rfl, rfl⟩ | earlier
    · exact .follows flight before running
    · exact .keeps earlier
  | leads _ call _ _ looks free evolves sends' =>
    rw [planOf_signature] at cached readers sent
    rw [planOf_signature]
    exact .launches i phase call before (sent call sends') cached readers
  | proceeds flight call call' _ _ evolves sends' =>
    refine .calm cached ?_
    intro j stands reads
    rcases readers j stands reads with ⟨rfl, rfl⟩ | earlier
    · exact .proceeds flight call call' before (sent call' sends')
    · exact .keeps earlier

theorem touch_of_answers {cl : Client} {r : Resource} {i : Nat} {modeOnly : Bool}
    {phase : ReadPhase} {result : Except CallError r.Value} {c : Correlator} {cache : Cache r.Value}
    (found : cl.jobs[i]? = some (r.job modeOnly phase))
    (step : (cl.planOf r).step phase cl.now (cl.cacheOf r) cl.correlator =
      (.finish result c, cache)) :
    Touch r cl ((cl.withCache r cache).finishRead i modeOnly c r result) := by
  have jobs : ((cl.withCache r cache).finishRead i modeOnly c r result).jobs =
      cl.jobs.set i (.over ((cl.withCache r cache).replyOf r modeOnly result)) := by
    rw [finishRead_jobs, withCache_jobs]
  have cached : ((cl.withCache r cache).finishRead i modeOnly c r result).cacheOf r = cache := by
    rw [finishRead_cacheOf, cacheOf_withCache_self]
  have spec := (cl.planOf r).step_spec phase cl.now (cl.cacheOf r) cl.correlator
  rw [step] at spec
  cases spec with
  | hits _ value looks young => exact touch_of_idle jobs (by simp [Job.reads?]) cached
  | shares flight _ landed => exact touch_of_idle jobs (by simp [Job.reads?]) cached
  | lands flight call _ _ evolves obtained =>
    rw [planOf_signature] at cached jobs
    rw [planOf_signature]
    refine .lands i flight call result ⟨_, found, Job.reads?_job ..⟩ obtained cached ?_
    intro j stands reads
    exact reads_set_idle jobs (by simp [Job.reads?]) reads

theorem JobTurn.touch {cl cl' : Client} {i : Nat} {job job' : Job}
    (turn : cl.JobTurn i job job' cl') (found : cl.jobs[i]? = some job) (r : Resource) :
    Touch r cl cl' := by
  cases turn with
  | begins plan after call sends c evolves =>
    exact touch_of_idle (i := i) rfl (by simp [Job.reads?]) (by cases r <;> rfl)
  | calls plan after call call' sends c evolves =>
    exact touch_of_idle (i := i) rfl (by simp [Job.reads?]) (by cases r <;> rfl)
  | ends plan after call result c evolves =>
    have cached : ((cl.settleAftermath after result).finishJob i result c).cacheOf r =
        (cl.settleAftermath after result).cacheOf r := by cases r <;> rfl
    rw [settleAftermath_cacheOf] at cached
    cases dropped : after.drops r with
    | true =>
      rw [dropped] at cached
      refine .drops cached ?_
      intro j phase reads
      exact reads_set_idle (i := i) rfl (by simp [Job.reads?]) reads
    | false =>
      rw [dropped] at cached
      exact touch_of_idle (i := i) rfl (by simp [Job.reads?]) cached
  | reads r' modeOnly phase phase' sends c cache step =>
    by_cases same : r = r'
    · subst same
      exact touch_of_reads found step
    · have jobs : ((cl.withCache r' cache).moveJob i (r'.job modeOnly phase') sends c).jobs =
          cl.jobs.set i (r'.job modeOnly phase') := by
        simp only [moveJob, setJob, withCache_jobs]
      refine touch_of_idle jobs ?_ ?_
      · intro phase
        rw [Job.reads?_job]
        intro equal
        cases equal
        exact same rfl
      · rw [← cl.cacheOf_withCache_other same cache]
        cases r <;> rfl
  | answers r' modeOnly phase result c cache step =>
    by_cases same : r = r'
    · subst same
      exact touch_of_answers found step
    · refine touch_of_idle (i := i) (by rw [finishRead_jobs, withCache_jobs])
        (by simp [Job.reads?]) ?_
      rw [finishRead_cacheOf, cacheOf_withCache_other _ same]
  | other _ job' sends c evolves aside idle =>
    exact touch_of_idle (i := i) rfl (by simp [idle]) (by cases r <;> rfl)

/-! ## Events -/

theorem newJob_reads {cl : Client} {script : Script} {r : Resource} {phase : ReadPhase}
    (stands : (cl.newJob script).reads? = some (r, phase)) : phase = .arriving := by
  cases script <;> cases stands <;> rfl

theorem start_touch (cl : Client) (op : Operation) (r : Resource) :
    Touch r cl (cl.step (.start op)) := by
  refine .calm (by cases r <;> rfl) ?_
  rintro i phase ⟨job, found, stands⟩
  rcases getElem?_concat_cases found with before | ⟨last, rfl⟩
  · exact .keeps ⟨job, before, stands⟩
  · have arriving : phase = .arriving := by
      split at stands
      · exact newJob_reads stands
      · cases stands
    rw [arriving]
    exact .arrives last

theorem mapAttempt_reads (f : Attempt → Attempt) {job : Job} {r : Resource} {phase : ReadPhase}
    (stands : (job.mapAttempt f).reads? = some (r, phase)) :
    ∃ before, job.reads? = some (r, before) ∧ phase = before.mapAttempt f := by
  cases job <;> cases stands <;> exact ⟨_, rfl, rfl⟩

theorem transmitted_ticket (t : Ticket) (result : Except TransportError Unit) (a : Attempt) :
    (a.transmitted t result).ticket = a.ticket := by
  unfold Attempt.transmitted
  split <;> rfl

theorem transmitted_touch (cl : Client) (t : Ticket) (result : Except TransportError Unit)
    (r : Resource) : Touch r cl (cl.step (.transmitted t result)) := by
  refine .calm (by cases r <;> rfl) ?_
  rintro i phase ⟨job, found, stands⟩
  have mapped : (cl.jobs.map (Job.mapAttempt (Attempt.transmitted t result)))[i]? = some job :=
    found
  rw [List.getElem?_map, Option.map_eq_some_iff] at mapped
  obtain ⟨before, at_, rfl⟩ := mapped
  obtain ⟨phase', reads, rfl⟩ := mapAttempt_reads _ stands
  exact .hears _ (transmitted_ticket t result) ⟨before, at_, reads⟩

theorem abandon_touch (cl : Client) (index : Nat) (r : Resource) :
    Touch r cl (cl.step (.abandon index)) := by
  simp only [step, abandon]
  cases found : cl.jobs[index]? with
  | none => exact touch_of_same rfl rfl
  | some job =>
    have jobs : ((cl.withdraw job).setJob index .gone).jobs = cl.jobs.set index .gone := by
      simp only [setJob, withdraw_jobs]
    have onward : ∀ j phase, ((cl.withdraw job).setJob index .gone).Reads r j phase →
        cl.Reads r j phase :=
      fun j phase reads => reads_set_idle jobs (by simp [Job.reads?]) reads
    by_cases leading : ∃ flight call, job.reads? = some (r, .leading flight call)
    · obtain ⟨flight, call, stands⟩ := leading
      refine .givesUp index flight call ⟨job, found, stands⟩ ?_ onward
      obtain ⟨modeOnly, rfl⟩ := Job.reads?_eq_some stands
      cases r <;> rfl
    · refine touch_of_idle jobs (by simp [Job.reads?]) ?_
      cases job with
      | readConfig modeOnly phase =>
        cases r with
        | proxies => rfl
        | config =>
          cases phase with
          | leading flight call => exact absurd ⟨flight, call, rfl⟩ leading
          | _ => rfl
      | readProxies phase =>
        cases r with
        | config => rfl
        | proxies =>
          cases phase with
          | leading flight call => exact absurd ⟨flight, call, rfl⟩ leading
          | _ => rfl
      | _ => cases r <;> rfl

/-- Whatever happens, a resource and its readers are touched in one of the known ways. -/
theorem step_touch (cl : Client) (event : ClientEvent) (r : Resource) :
    Touch r cl (cl.step event) := by
  cases event with
  | start op => exact cl.start_touch op r
  | advance index =>
    simp only [step]
    cases moved : cl.stepJob index with
    | none => exact touch_of_same rfl rfl
    | some cl' =>
      obtain ⟨_, _, found, turn⟩ := stepJob_turn moved
      exact turn.touch found r
  | transmitted t result => exact cl.transmitted_touch t result r
  | listen =>
    simp only [step, stepListener]
    cases cl.listener.step cl.stopFirst cl.correlator with
    | none => exact touch_of_same rfl rfl
    | some pair => exact touch_of_same rfl (by cases r <;> rfl)
  | abandon index => exact cl.abandon_touch index r
  | _ => exact touch_of_same rfl (by cases r <;> rfl)

end Client

end ProxyConsole
