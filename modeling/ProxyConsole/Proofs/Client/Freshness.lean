import ProxyConsole.Proofs.Client.Ahead

/-!
# Reads never go back behind a change

Once an operation that may change a resource has returned, whatever its outcome, the
cache knows nothing of the resource, and every fetch launched before belongs to the
past: its result is not stored, and no later reader follows it.  So what a later read
answers was asked for after that return.
-/

set_option autoImplicit false

namespace ProxyConsole

/-- The resource that an operation reads, and whether it asks for the mode alone. -/
def Operation.reads? : Operation → Option (Resource × Bool)
  | .runningConfig => some (.config, false)
  | .currentMode => some (.config, true)
  | .proxies => some (.proxies, false)
  | _ => none

namespace Client

/-- A read for the mode alone is about to end in an error of its own, so that it answers the
last mode known, if any. -/
def FallsBack (cl : Client) (index : Nat) : Prop :=
  ∃ phase e c cache, cl.jobs[index]? = some (.readConfig true phase) ∧
    cl.configPlan.step phase cl.now cl.configs cl.correlator = (.finish (.error e) c, cache)

def fallsBackNow (cl : Client) (index : Nat) : Bool :=
  match cl.jobs[index]? with
  | some (.readConfig true phase) =>
    match (cl.configPlan.step phase cl.now cl.configs cl.correlator).1 with
    | .finish (.error _) _ => true
    | _ => false
  | _ => false

theorem fallsBackNow_iff (cl : Client) (index : Nat) :
    cl.fallsBackNow index = true ↔ cl.FallsBack index := by
  constructor
  · intro falls
    unfold fallsBackNow at falls
    split at falls
    · rename_i phase found
      split at falls
      · rename_i e c ended
        exact ⟨phase, e, c, _, found, Prod.ext ended rfl⟩
      · cases falls
    · cases falls
  · rintro ⟨phase, e, c, cache, found, step⟩
    simp only [fallsBackNow, found, step]

instance (cl : Client) (index : Nat) : Decidable (cl.FallsBack index) :=
  decidable_of_iff _ (cl.fallsBackNow_iff index)

/-- The events since `start` let no read of a resource that starts among them go back behind it. -/
structure ReadsAhead (r : Resource) (start : Client) (events : List ClientEvent) : Prop where
  /-- A read that starts later and succeeds answers with a value fetched since, or falls back. -/
  value : ∀ index op modeOnly reply, start.Starts events index op →
    op.reads? = some (r, modeOnly) →
    (start.run events).jobs[index]? = some (.over (.ok reply)) →
      (∃ value, reply = r.answer modeOnly value ∧ FetchedSince r start events value) ∨
        ∃ before rest, events = before ++ .advance index :: rest ∧
          (start.run before).FallsBack index
  unjoined : ∀ index phase, start.jobs.length ≤ index → (start.run events).Reads r index phase →
    phase.IsFrom (start.cacheOf r).flights.length
  unstored : ∀ index flight call event, (start.run events).Reads r index (.leading flight call) →
    flight < (start.cacheOf r).flights.length → event = .advance index ∨ event = .abandon index →
      ((start.run (events ++ [event])).cacheOf r).slots = ((start.run events).cacheOf r).slots

variable {r : Resource} {start : Client} {events : List ClientEvent}

/-! ## What later reads answer -/

theorem Ahead.answer (ahead : Ahead r start events) {i : Nat} {phase : ReadPhase} {value : r.Value}
    {c : Correlator} {cache : Cache r.Value} (late : start.jobs.length ≤ i)
    (reads : (start.run events).Reads r i phase)
    (step : ((start.run events).planOf r).step phase (start.run events).now
        ((start.run events).cacheOf r) (start.run events).correlator =
      (.finish (.ok value) c, cache)) :
    FetchedSince r start events value := by
  have spec := ((start.run events).planOf r).step_spec phase (start.run events).now
    ((start.run events).cacheOf r) (start.run events).correlator
  rw [step] at spec
  cases spec with
  | hits _ _ looks young =>
    rw [planOf_signature] at young
    obtain ⟨moment, kept, _⟩ := Cache.fresh?_eq_some.mp young
    exact ahead.entry value moment kept
  | shares flight _ landed => exact ahead.landed flight value (ahead.later i _ late reads) landed
  | lands flight call _ _ evolves obtained =>
    exact ahead.fetched reads (ahead.later i _ late reads) (obtained value rfl)

theorem script_of_reads {op : Operation} {modeOnly : Bool}
    (reads : op.reads? = some (r, modeOnly)) (cl : Client) :
    ∃ script, op.script cl.settings = .ok script ∧ cl.newJob script = r.job modeOnly .arriving := by
  cases op <;> cases reads <;> exact ⟨_, rfl, rfl⟩

/-- What has become of a read: it goes on, was given up, or is over with a result that is accounted
for. -/
def Accounted (r : Resource) (start : Client) (events : List ClientEvent) (index : Nat)
    (modeOnly : Bool) (job : Job) : Prop :=
  (∃ phase, job = r.job modeOnly phase) ∨ job = .gone ∨
    ∃ result, job = .over result ∧ ∀ reply, result = .ok reply →
      (∃ value, reply = r.answer modeOnly value ∧ FetchedSince r start events value) ∨
        ∃ before rest, events = before ++ .advance index :: rest ∧
          (start.run before).FallsBack index

theorem Accounted.concat {index : Nat} {modeOnly : Bool} {job : Job} {event : ClientEvent}
    (accounted : Accounted r start events index modeOnly job)
    (settled : ∀ phase, job ≠ r.job modeOnly phase) :
    Accounted r start (events ++ [event]) index modeOnly job := by
  rcases accounted with ⟨phase, reading⟩ | gone | ⟨result, finished, source⟩
  · exact absurd reading (settled phase)
  · exact Or.inr (Or.inl gone)
  · refine Or.inr (Or.inr ⟨result, finished, ?_⟩)
    intro reply success
    rcases source reply success with ⟨value, answer, fetched⟩ | ⟨before, rest, rfl, back⟩
    · exact Or.inl ⟨value, answer, fetched.concat event⟩
    · exact Or.inr ⟨before, rest ++ [event], by simp, back⟩

theorem replyOf_error_ok {cl : Client} {modeOnly : Bool} {e : CallError} {reply : Reply}
    (success : cl.replyOf r modeOnly (.error e) = .ok reply) : r = .config ∧ modeOnly = true := by
  cases r with
  | proxies => cases success
  | config =>
    cases modeOnly with
    | false => cases success
    | true => exact ⟨rfl, rfl⟩

theorem Ahead.accounted_answer (ahead : Ahead r start events) {i : Nat} {modeOnly : Bool}
    {phase : ReadPhase} {result : Except CallError r.Value} {c : Correlator} {cache : Cache r.Value}
    (late : start.jobs.length ≤ i)
    (found : (start.run events).jobs[i]? = some (r.job modeOnly phase))
    (step : ((start.run events).planOf r).step phase (start.run events).now
      ((start.run events).cacheOf r) (start.run events).correlator = (.finish result c, cache)) :
    Accounted r start (events ++ [.advance i]) i modeOnly
      (.over ((start.run events).replyOf r modeOnly result)) := by
  refine Or.inr (Or.inr ⟨_, rfl, ?_⟩)
  intro reply success
  cases result with
  | ok value =>
    cases success
    have fetched := ahead.answer late ⟨_, found, Job.reads?_job ..⟩ step
    exact Or.inl ⟨value, rfl, fetched.concat _⟩
  | error e =>
    obtain ⟨rfl, rfl⟩ := replyOf_error_ok success
    exact Or.inr ⟨events, [], rfl, phase, e, c, cache, found, step⟩

theorem read_accounted (ahead : ∀ events, Ahead r start events) {op : Operation} {modeOnly : Bool}
    (reads : op.reads? = some (r, modeOnly)) {index : Nat} (starts : start.Starts events index op) :
    ∃ job, (start.run events).jobs[index]? = some job ∧
      Accounted r start events index modeOnly job := by
  obtain ⟨before, rest, rfl, rfl⟩ := starts
  have late := (start.run_grows before).jobs
  induction rest using List.reverseRecOn with
  | nil =>
    obtain ⟨script, accepted, job⟩ := script_of_reads reads (start.run before)
    rw [run_concat]
    refine ⟨_, List.getElem?_concat_length, Or.inl ⟨.arriving, ?_⟩⟩
    rw [accepted]
    exact job
  | append_singleton rest event earlier =>
    obtain ⟨job, found, accounted⟩ := earlier
    rw [← List.cons_append, ← List.append_assoc]
    by_cases reading : ∃ phase, job = r.job modeOnly phase
    · obtain ⟨phase, rfl⟩ := reading
      obtain ⟨job', found', step⟩ := step_job found event
      rw [← run_concat] at found'
      refine ⟨job', found', ?_⟩
      cases step with
      | same => exact Or.inl ⟨phase, rfl⟩
      | hears t result => exact Or.inl ⟨_, Job.mapAttempt_job ..⟩
      | gone => exact Or.inr (Or.inl rfl)
      | turns _ advance turn =>
        rcases turn.of_read with ⟨phase', _, _, _, rfl, _, _⟩ | ⟨result, c, cache, rfl, step, _⟩
        · exact Or.inl ⟨phase', rfl⟩
        · rw [advance]
          exact (ahead _).accounted_answer late found step
    · have settled : job = .gone ∨ ∃ result, job = .over result := by
        rcases accounted with still | gone | ⟨result, finished, _⟩
        · exact absurd still reading
        · exact Or.inl gone
        · exact Or.inr ⟨result, finished⟩
      rcases settled_step found settled event with same | gone
      · rw [← run_concat] at same
        exact ⟨job, same, accounted.concat (not_exists.mp reading)⟩
      · rw [← run_concat] at gone
        exact ⟨.gone, gone, Or.inr (Or.inl rfl)⟩

/-- The end of a fetch launched before finds nothing of its own in the cache. -/
theorem Ahead.unstored (ahead : Ahead r start events) {i flight : Nat} {call : CallPhase}
    {event : ClientEvent} (led : (start.run events).Reads r i (.leading flight call))
    (old : flight < (start.cacheOf r).flights.length)
    (ends : event = .advance i ∨ event = .abandon i) :
    ((start.run (events ++ [event])).cacheOf r).slots = ((start.run events).cacheOf r).slots := by
  have unawaited : (((start.run events).cacheOf r).slots r.path).inFlight ≠ some flight :=
    fun awaited => absurd (ahead.marker flight awaited) (Nat.not_le.mpr old)
  obtain ⟨job, found, stands⟩ := led
  obtain ⟨modeOnly, rfl⟩ := Job.reads?_eq_some stands
  rw [run_concat]
  rcases ends with rfl | rfl
  · cases moved : (start.run events).stepJob i with
    | none => simp [step, moved]
    | some cl' =>
      obtain ⟨job, job', found', turn⟩ := stepJob_turn moved
      rw [found] at found'
      cases found'
      have next : (start.run events).step (.advance i) = cl' := by simp [step, moved]
      have spec := ((start.run events).planOf r).step_spec (.leading flight call)
        (start.run events).now ((start.run events).cacheOf r) (start.run events).correlator
      rw [next]
      rcases turn.of_read with ⟨_, _, _, cache, _, progress, cached⟩ |
        ⟨_, _, cache, _, progress, cached⟩
      · rw [progress] at spec
        rw [cached]
        cases spec with
        | follows _ _ looks _ => cases looks
        | leads _ _ _ _ looks _ _ _ => cases looks
        | proceeds => rfl
      · rw [progress] at spec
        rw [cached]
        cases spec with
        | hits _ _ looks _ => cases looks
        | lands =>
          rw [planOf_signature]
          exact Cache.land_overtaken unawaited
  · have cached : ((start.run events).step (.abandon i)).cacheOf r =
        ((start.run events).cacheOf r).abandon r.path flight := by
      simp only [step, abandon, found]
      cases r <;> rfl
    rw [cached]
    exact Cache.abandon_overtaken unawaited

/-- After an operation that was accepted and may change a resource has returned, no read of
the resource that starts later goes back behind it. -/
theorem readsAhead_of_returns {settings : Settings} {op : Operation} {script : Script}
    {before : List ClientEvent} {index : Nat} {event : ClientEvent}
    (affects : op.affects r = true) (accepted : op.script settings = .ok script)
    (starts : Starts { settings } before index op)
    (returns : Returns { settings } before event index) (later : List ClientEvent) :
    ReadsAhead r (run { settings } (before ++ [event])) later := by
  have sound := sound_run r settings (before ++ [event])
  have dropped := returns_drops affects accepted starts returns
  have ahead := ahead_run sound dropped
  exact
    { value := by
        intro i op' modeOnly reply starts' reads finished
        obtain ⟨job, found, accounted⟩ := read_accounted ahead reads starts'
        rw [finished] at found
        cases found
        rcases accounted with ⟨phase, reading⟩ | gone | ⟨result, same, source⟩
        · cases r <;> cases reading
        · cases gone
        · cases same
          exact source reply rfl
      unjoined := (ahead later).later
      unstored := fun _ _ _ _ led old ends => (ahead later).unstored led old ends }

theorem readsAhead_after_timeout :
    ReadsAhead .config
      (run {} ([.start .runningConfig, .advance 0, .start (.setIpv6 true), .advance 1,
        .pass 20000] ++ [.advance 1]))
      [.start .runningConfig, .advance 2, .transmitted ⟨⟨1⟩, 0, 0⟩ (.ok ()), .advance 0] := by
  have affects : (Operation.setIpv6 true).affects .config = true := rfl
  have starts : Starts {} [.start .runningConfig, .advance 0, .start (.setIpv6 true), .advance 1,
      .pass 20000] 1 (.setIpv6 true) :=
    ⟨[.start .runningConfig, .advance 0], [.advance 1, .pass 20000], rfl, rfl⟩
  have returns : Returns {} [.start .runningConfig, .advance 0, .start (.setIpv6 true), .advance 1,
      .pass 20000] (.advance 1) 1 := by
    refine ⟨?_, _, rfl⟩
    intro result finished
    cases finished
  exact readsAhead_of_returns affects rfl starts returns _

end Client

end ProxyConsole
