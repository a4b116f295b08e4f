import Mathlib.Tactic.IntervalCases
import ProxyConsole.Proofs.Client.Freshness

/-!
# The last mode known

A read for the mode alone that fails falls back on the last mode known.  That is the
mode installed last, unless a read of the configuration succeeded since; and such a read
may have been under way when the mode was installed, in which case it brings back what
was in force before.
-/

set_option autoImplicit false

namespace ProxyConsole

theorem Operation.script_installs {op : Operation} {settings : Settings} {plan : CallPlan Reply}
    {after : Aftermath} {m : Mode} (accepted : op.script settings = .ok (.call plan after))
    (installs : after.installs = some m) :
    ∃ text, op = .setMode text ∧ Mode.parse text = .ok m := by
  cases op with
  | setMode text =>
    simp only [script] at accepted
    obtain ⟨m', parsed, last⟩ := bind_ok accepted
    cases last
    cases installs
    exact ⟨text, rfl, parsed⟩
  | testDelay | setLogLevel | reload | closeConnection | updateProvider =>
    simp only [script] at accepted
    obtain ⟨_, _, last⟩ := bind_ok accepted
    cases last
    cases installs
  | select group node =>
    simp only [script] at accepted
    obtain ⟨_, _, rest⟩ := bind_ok accepted
    obtain ⟨_, _, last⟩ := bind_ok rest
    cases last
    cases installs
  | _ =>
    have same := Except.ok.inj accepted
    cases same <;> cases installs

theorem Operation.script_setMode (settings : Settings) {text : String} {m : Mode}
    (parsed : Mode.parse text = .ok m) : (setMode text).script settings =
      .ok (patchScript settings "mode" (.string m.name) (.mode m) (some m)) := by
  simp only [script, parsed]
  rfl

namespace Client

/-- An event lets an operation that sets the mode return with success. -/
def Confirms (start : Client) (events : List ClientEvent) (event : ClientEvent) (m : Mode) : Prop :=
  ∃ index text reply, start.Starts events index (.setMode text) ∧ Mode.parse text = .ok m ∧
    start.Returns events event index ∧
    (start.run (events ++ [event])).jobs[index]? = some (.over (.ok reply))

/-- A mode was confirmed by an event, and none was by a later one. -/
structure LatestConfirmed (start : Client) (before : List ClientEvent) (event : ClientEvent)
    (later : List ClientEvent) (m : Mode) : Prop where
  confirmed : start.Confirms before event m
  latest : ∀ between next rest m', later = between ++ next :: rest →
    ¬ start.Confirms (before ++ event :: between) next m'

/-- A read of the configuration that was under way when the client stood as `start` has succeeded
since. -/
def Overtaken (start : Client) (events : List ClientEvent) (config : RuntimeConfig) : Prop :=
  ∃ before index rest modeOnly phase, events = before ++ .advance index :: rest ∧
    index < start.jobs.length ∧
    (start.run before).jobs[index]? = some (.readConfig modeOnly phase) ∧
    (start.run (before ++ [.advance index])).jobs[index]? =
      some (.over (.ok (Resource.config.answer modeOnly config)))

/-- Where the last mode known comes from, after a mode was confirmed by an event and others happened
later. -/
inductive ModeSource (start : Client) (before : List ClientEvent) (event : ClientEvent)
    (later : List ClientEvent) (m : Mode) : Mode → Prop where
  | confirmed : ModeSource start before event later m m
  | fetched (config : RuntimeConfig)
      (since : FetchedSince .config (start.run (before ++ [event])) later config) :
      ModeSource start before event later m config.mode
  | overtaken (config : RuntimeConfig)
      (fetched : FetchedSince .config start (before ++ event :: later) config)
      (overtaken : Overtaken (start.run (before ++ [event])) later config) :
      ModeSource start before event later m config.mode

/-! ## What one event does to the last mode known -/

/-- All that an event can do to the last mode known. -/
inductive Remembers (cl : Client) (event : ClientEvent) : Prop where
  | keeps (same : (cl.step event).lastMode = cl.lastMode)
  | installs (index : Nat) (plan : CallPlan Reply) (after : Aftermath) (call : CallPhase)
      (reply : Reply) (m : Mode) (advance : event = .advance index)
      (found : cl.jobs[index]? = some (.call plan after call))
      (settled : (cl.step event).jobs[index]? = some (.over (.ok reply)))
      (installs : after.installs = some m) (known : (cl.step event).lastMode = some m)
  | reads (index : Nat) (modeOnly : Bool) (phase : ReadPhase) (config : RuntimeConfig)
      (c : Correlator) (cache : Cache RuntimeConfig) (advance : event = .advance index)
      (found : cl.jobs[index]? = some (.readConfig modeOnly phase))
      (step : cl.configPlan.step phase cl.now cl.configs cl.correlator =
        (.finish (.ok config) c, cache))
      (settled : (cl.step event).jobs[index]? =
        some (.over (.ok (Resource.config.answer modeOnly config))))
      (known : (cl.step event).lastMode = some config.mode)

theorem withdraw_lastMode (cl : Client) (job : Job) : (cl.withdraw job).lastMode = cl.lastMode := by
  cases job <;> rfl

theorem step_remembers (cl : Client) (event : ClientEvent) : cl.Remembers event := by
  cases event with
  | advance index =>
    rcases cl.advance_cases index with ⟨_, still⟩ | ⟨job, job', found, goes⟩
    · exact .keeps (by rw [still])
    · have settled : (cl.step (.advance index)).jobs[index]? = some job' := by
        rw [goes.jobs]
        exact Positions.getElem?_set_of_some _ found
      generalize next : cl.step (.advance index) = cl' at goes settled
      have keeps : cl'.lastMode = cl.lastMode → cl.Remembers (.advance index) :=
        fun same => .keeps (by rw [next, same])
      cases goes with
      | ends plan after call result c step =>
        cases result with
        | error e => exact keeps rfl
        | ok reply =>
          cases installs : after.installs with
          | none => exact keeps (by simp [finishJob, moveJob, setJob, settleAftermath, installs])
          | some m =>
            refine .installs index plan after call reply m rfl found (by rw [next, settled])
              installs ?_
            rw [next]
            simp [finishJob, moveJob, setJob, settleAftermath, installs]
      | reads r modeOnly phase phase' sends c cache step => exact keeps (by cases r <;> rfl)
      | answers r modeOnly phase result c cache step =>
        cases r with
        | proxies => exact keeps rfl
        | config =>
          cases result with
          | error e => exact keeps rfl
          | ok config =>
            exact .reads index modeOnly phase config c cache rfl found step
              (by rw [next, settled]; rfl) (by rw [next]; rfl)
      | _ => exact keeps rfl
  | listen =>
    refine .keeps ?_
    simp only [step, stepListener]
    cases cl.listener.step cl.stopFirst cl.correlator <;> rfl
  | abandon index =>
    refine .keeps ?_
    simp only [step, abandon]
    cases cl.jobs[index]? with
    | none => rfl
    | some job => exact cl.withdraw_lastMode job
  | _ => exact .keeps rfl

/-! ## Who confirms -/

theorem Starts.concat {cl : Client} {events : List ClientEvent} {index : Nat} {op : Operation}
    (starts : cl.Starts events index op) (event : ClientEvent) :
    cl.Starts (events ++ [event]) index op := by
  obtain ⟨before, rest, rfl, place⟩ := starts
  exact ⟨before, rest ++ [event], by simp, place⟩

theorem opened_installs {cl : Client} {op : Operation} {after : Aftermath} {m : Mode}
    (leaves : (cl.opened op).Leaves after) (installs : after.installs = some m) :
    ∃ text, op = .setMode text ∧ Mode.parse text = .ok m := by
  unfold opened at leaves
  cases accepted : op.script cl.settings with
  | error e =>
    rw [accepted] at leaves
    cases leaves
  | ok script =>
    rw [accepted] at leaves
    cases script with
    | call plan after' =>
      cases leaves
      exact Operation.script_installs accepted installs
    | _ => cases leaves

theorem installs_started {settings : Settings} {events : List ClientEvent} {index : Nat} {job : Job}
    {after : Aftermath} {m : Mode} (found : (run { settings } events).jobs[index]? = some job)
    (leaves : job.Leaves after) (installs : after.installs = some m) :
    ∃ text, Starts { settings } events index (.setMode text) ∧ Mode.parse text = .ok m := by
  induction events using List.reverseRecOn generalizing job with
  | nil => cases found
  | append_singleton events event earlier =>
    have before : ∀ {job : Job}, (run { settings } events).jobs[index]? = some job →
        job.Leaves after →
        ∃ text, Starts { settings } (events ++ [event]) index (.setMode text) ∧
          Mode.parse text = .ok m := by
      intro job found leaves
      obtain ⟨text, starts, parsed⟩ := earlier found leaves
      exact ⟨text, starts.concat event, parsed⟩
    rw [run_concat] at found
    cases step_origin found with
    | stood same => exact before same leaves
    | heard t result job₀ found₀ heard hears =>
      refine before found₀ ?_
      subst hears
      cases job₀ <;> exact leaves
    | gone given gone =>
      subst gone
      cases leaves
    | goes job₀ found₀ advance goes =>
      refine before found₀ ?_
      generalize (run { settings } events).step event = cl' at goes
      cases goes with
      | begins plan after' call sends c step => exact leaves
      | calls plan after' call call' sends c step => exact leaves
      | reads r modeOnly phase phase' sends c cache step => cases r <;> cases leaves
      | _ => cases leaves
    | started op start last opens =>
      subst start
      rw [opens] at leaves
      obtain ⟨text, rfl, parsed⟩ := opened_installs leaves installs
      exact ⟨text, ⟨events, [], rfl, last.symm⟩, parsed⟩

/-- What confirms a mode is the last step of the call that was started to set it. -/
theorem Confirms.call {settings : Settings} {events : List ClientEvent} {event : ClientEvent}
    {m : Mode} (confirms : Confirms { settings } events event m) :
    ∃ index plan after call result c, event = .advance index ∧
      (run { settings } events).jobs[index]? = some (.call plan after call) ∧
      after.installs = some m ∧ (∃ reply, result = .ok reply) ∧
      run { settings } (events ++ [event]) =
        ((run { settings } events).settleAftermath after result).finishJob index result c := by
  obtain ⟨index, text, reply, starts, parsed, returns, settled⟩ := confirms
  obtain ⟨job, found, stands⟩ := started_leaves (Operation.script_setMode settings parsed) starts
  rw [run_concat] at settled ⊢
  cases step_origin settled with
  | stood same => exact absurd same (returns.1 _)
  | heard t result job₀ found₀ heard hears =>
    rw [found] at found₀
    cases found₀
    cases job <;> cases hears
    exact absurd found (returns.1 _)
  | gone given gone => cases gone
  | goes job₀ found₀ advance goes =>
    rw [found] at found₀
    cases found₀
    subst advance
    obtain ⟨notGone, notOver⟩ := goes.turn.unsettled
    have leaves : job.Leaves { dropsConfig := true, installs := some m } := by
      rcases stands with leaves | gone | ⟨result, same⟩
      · exact leaves
      · exact absurd gone notGone
      · exact absurd same (notOver result)
    generalize (run { settings } events).step (.advance index) = cl' at goes ⊢
    generalize finished : Job.over (.ok reply) = job' at goes
    cases goes with
    | ends plan after call result c step =>
      cases finished
      cases leaves
      exact ⟨index, plan, _, call, _, c, rfl, found, rfl, ⟨reply, rfl⟩, rfl⟩
    | begins plan after call sends c step => cases finished
    | calls plan after call call' sends c step => cases finished
    | reads r modeOnly phase phase' sends c cache step => cases r <;> cases leaves
    | answers r modeOnly phase result c cache step => cases r <;> cases leaves
    | _ => cases leaves
  | started op start last opens =>
    subst last
    simp at found

theorem Confirms.known {settings : Settings} {events : List ClientEvent} {event : ClientEvent}
    {m : Mode} (confirms : Confirms { settings } events event m) :
    (run { settings } (events ++ [event])).lastMode = some m := by
  obtain ⟨index, plan, after, call, _, c, _, _, installs, ⟨reply, rfl⟩, next⟩ := confirms.call
  rw [next]
  simp [finishJob, moveJob, setJob, settleAftermath, installs]

theorem Confirms.dropped {settings : Settings} {events : List ClientEvent} {event : ClientEvent}
    {m : Mode} (confirms : Confirms { settings } events event m) :
    (run { settings } (events ++ [event])).cacheOf .config =
      ((run { settings } events).cacheOf .config).invalidate Operation.configsPath := by
  obtain ⟨index, text, reply, starts, parsed, returns, _⟩ := confirms
  exact returns_drops (r := .config) rfl (Operation.script_setMode settings parsed) starts returns

/-! ## Where the last mode comes from -/

section Source

variable {settings : Settings} {before later : List ClientEvent} {event : ClientEvent} {m : Mode}

theorem config_fetched {events : List ClientEvent} {index : Nat} {modeOnly : Bool}
    {phase : ReadPhase} {config : RuntimeConfig} {c : Correlator} {cache : Cache RuntimeConfig}
    (found : (run { settings } events).jobs[index]? = some (.readConfig modeOnly phase))
    (step : (run { settings } events).configPlan.step phase (run { settings } events).now
      (run { settings } events).configs (run { settings } events).correlator =
        (.finish (.ok config) c, cache)) :
    FetchedSince .config { settings } events config := by
  have empty : cacheOf { settings } .config = ({} : Cache RuntimeConfig).invalidate
      Operation.configsPath := by
    simp only [Cache.invalidate, Cache.setSlot, ite_self]
    rfl
  have sound : Sound .config { settings } := sound_run .config settings []
  have ahead := ahead_run sound empty events
  exact ahead.answer (r := .config) (Nat.zero_le _) ⟨_, found, rfl⟩ step

theorem ModeSource.concat {start : Client} {m' : Mode}
    (source : ModeSource start before event later m m') (next : ClientEvent) :
    ModeSource start before event (later ++ [next]) m m' := by
  cases source with
  | confirmed => exact .confirmed
  | fetched config since => exact .fetched config (since.concat next)
  | overtaken config fetched overtaken =>
    obtain ⟨middle, index, rest, modeOnly, phase, rfl, old, found, settled⟩ := overtaken
    have longer := fetched.concat next
    rw [List.append_assoc, List.cons_append] at longer
    exact .overtaken config longer
      ⟨middle, index, rest ++ [next], modeOnly, phase, by simp, old, found, settled⟩

theorem LatestConfirmed.shorter {start : Client} {next : ClientEvent}
    (latest : LatestConfirmed start before event (later ++ [next]) m) :
    LatestConfirmed start before event later m where
  confirmed := latest.confirmed
  latest between next' rest m' split :=
    latest.latest between next' (rest ++ [next]) m' (by simp [split])

/-- Once a mode was confirmed, the last mode known is this one or was read since, if not by
a read that was already under way. -/
theorem lastMode_source (latest : LatestConfirmed { settings } before event later m) :
    ∃ m', (run { settings } (before ++ event :: later)).lastMode = some m' ∧
      ModeSource { settings } before event later m m' := by
  induction later using List.reverseRecOn with
  | nil => exact ⟨m, latest.confirmed.known, .confirmed⟩
  | append_singleton later next earlier =>
    obtain ⟨m', known, source⟩ := earlier latest.shorter
    have last : before ++ event :: (later ++ [next]) = (before ++ event :: later) ++ [next] := by
      simp
    have since : run { settings } (before ++ event :: later) =
        (run { settings } (before ++ [event])).run later := by
      rw [← run_append, List.append_assoc]
      rfl
    rw [last, run_concat]
    cases (run { settings } (before ++ event :: later)).step_remembers next with
    | keeps same => exact ⟨m', by rw [same, known], source.concat next⟩
    | installs index plan after call reply m₁ advance found settled installs now =>
      -- the call was started to set the mode, so a later event would confirm one
      obtain ⟨text, starts, parsed⟩ := installs_started found rfl installs
      refine absurd ?_ (latest.latest later next [] m₁ rfl)
      refine ⟨index, text, reply, starts, parsed, ⟨?_, .ok reply, ?_⟩, ?_⟩
      · intro result finished
        rw [found] at finished
        cases finished
      · rw [run_concat, settled]
      · rw [run_concat, settled]
    | reads index modeOnly phase config c cache advance found step settled now =>
      refine ⟨config.mode, now, ?_⟩
      by_cases old : index < (run { settings } (before ++ [event])).jobs.length
      · have fetched := (config_fetched found step).concat next
        rw [← last] at fetched
        refine .overtaken config fetched ⟨later, index, [], modeOnly, phase, ?_, old, ?_, ?_⟩
        · rw [advance]
        · rw [← since, found]
        · rw [run_concat, ← since, ← advance, settled]
      · have ahead := ahead_run (sound_run .config settings (before ++ [event]))
          latest.confirmed.dropped later
        rw [since] at found step
        have fetched := ahead.answer (r := .config) (Nat.le_of_not_lt old) ⟨_, found, rfl⟩ step
        exact .fetched config (fetched.concat next)

theorem FallsBack.answers {cl : Client} {index : Nat} {m : Mode} (falls : cl.FallsBack index)
    (known : cl.lastMode = some m) :
    (cl.step (.advance index)).jobs[index]? = some (.over (.ok (.mode m))) := by
  obtain ⟨phase, e, c, cache, found, step⟩ := falls
  have next : cl.step (.advance index) =
      { cl with configs := cache }.finishConfigRead index true (.error e) c := by
    simp [Client.step, stepJob, found, step]
  rw [next]
  simp only [finishConfigRead, configReply, known]
  exact Positions.getElem?_set_of_some _ found

/-- Once a mode was confirmed, every read for the mode alone that fails is answered with
this mode, or with one that was read since, if not by a read that was already under way. -/
theorem fallback_recalls (latest : LatestConfirmed { settings } before event later m) {index : Nat}
    (falls : (run { settings } (before ++ event :: later)).FallsBack index) :
    ∃ m', (run { settings } (before ++ event :: later ++ [.advance index])).jobs[index]? =
        some (.over (.ok (.mode m'))) ∧ ModeSource { settings } before event later m m' := by
  obtain ⟨m', known, source⟩ := lastMode_source latest
  refine ⟨m', ?_, source⟩
  rw [run_concat]
  exact falls.answers known

end Source

/-! ## A read that was under way -/

/-- That a fallback is never older than the last mode confirmed: a read for the mode alone
that started after a mode was confirmed, and falls back, answers the last one confirmed, or
one fetched since. -/
def FallbackNeverOlder : Prop :=
  ∀ (settings : Settings) (before : List ClientEvent) (event : ClientEvent)
    (later : List ClientEvent) (m : Mode), LatestConfirmed { settings } before event later m →
    ∀ (first : List ClientEvent) (confirmed : ClientEvent) (rest : List ClientEvent) (m₀ : Mode)
      (index : Nat), before ++ event :: later = first ++ confirmed :: rest →
    Confirms { settings } first confirmed m₀ →
    (run { settings } (first ++ [confirmed])).Starts rest index .currentMode →
    (run { settings } (before ++ event :: later)).FallsBack index →
    ∀ m', (run { settings } (before ++ event :: later ++ [.advance index])).jobs[index]? =
        some (.over (.ok (.mode m'))) →
      m' = m ∨ ∃ config : RuntimeConfig, config.mode = m' ∧
        FetchedSince .config (run { settings } (before ++ [event])) later config

/-- While a read of the configuration is under way, the mode is set. -/
def slowReadBefore : List ClientEvent :=
  [.start .runningConfig, .advance 0, .start (.setMode "global"), .advance 1,
    .transmitted ⟨⟨1⟩, 0, 0⟩ (.ok ()), .transmitted ⟨⟨2⟩, 1, 1⟩ (.ok ()),
    .arrive (.ok ⟨2⟩ ""), .listen]

/-- The read ends with what was in force before, and the next one fails. -/
def slowReadLater : List ClientEvent :=
  [.arrive (.ok ⟨1⟩ "\x7b\"mode\":\"rule\"\x7d"), .listen, .advance 0, .start .currentMode,
    .advance 2, .transmitted ⟨⟨3⟩, 2, 2⟩ (.error ⟨.closed, "backend gone"⟩)]

theorem slowRead_confirms : Confirms {} slowReadBefore (.advance 1) .global := by
  have unfinished : ((run {} slowReadBefore).jobs[1]?.bind Job.result?).isNone = true := by
    decide +kernel
  have shown : (((run {} (slowReadBefore ++ [.advance 1])).jobs[1]?.bind Job.result?).bind
      fun r => r.toOption.bind Reply.mode?) = some .global := by
    decide +kernel
  obtain ⟨reply, settled, _⟩ := over_of_reply shown
  have starts : Starts {} slowReadBefore 1 (.setMode "global") :=
    ⟨[.start .runningConfig, .advance 0], _, rfl, by decide +kernel⟩
  refine ⟨1, "global", reply, starts, by decide +kernel, ⟨?_, _, settled⟩, settled⟩
  intro result finished
  rw [finished] at unfinished
  cases unfinished

theorem slowRead_latest :
    LatestConfirmed {} slowReadBefore (.advance 1) slowReadLater .global where
  confirmed := slowRead_confirms
  latest := by
    intro between next rest m' split confirms
    obtain ⟨index, plan, after, call, _, _, rfl, found, _⟩ := confirms.call
    have place : slowReadLater[between.length]? = some (.advance index) := by
      rw [split]
      simp
    have taken : between = slowReadLater.take between.length := by
      rw [split]
      simp
    have reading : ∀ k i, slowReadLater[k]? = some (.advance i) →
        ((run {} (slowReadBefore ++ .advance 1 :: slowReadLater.take k)).jobs[i]?.bind
          Job.reads?).isSome = true := by
      intro k i place
      have inside : k < 6 := (List.getElem?_eq_some_iff.mp place).1
      interval_cases k <;> cases place <;> decide +kernel
    have reads := reading _ _ place
    rw [← taken, found] at reads
    cases reads

theorem slowRead_fallsBack :
    (run {} (slowReadBefore ++ .advance 1 :: slowReadLater)).FallsBack 2 := by
  decide +kernel

theorem slowRead_unfetched (config : RuntimeConfig) :
    ¬ FetchedSince .config (run {} (slowReadBefore ++ [.advance 1])) slowReadLater config := by
  rintro ⟨t, e, body, ⟨n, bound, sent⟩, ⟨first, event, rest, split, _, delivered, _⟩, _⟩
  have early : (run {} (slowReadBefore ++ [.advance 1])).sends.length = 2 := by decide +kernel
  have late : ((run {} (slowReadBefore ++ [.advance 1])).run slowReadLater).sends.map
      Sending.ticket = [⟨⟨1⟩, 0, 0⟩, ⟨⟨2⟩, 1, 1⟩, ⟨⟨3⟩, 2, 2⟩] := by decide +kernel
  have undelivered : ∀ k < 7, ∀ d ∈ ((run {} (slowReadBefore ++ [.advance 1])).run
      (slowReadLater.take k)).correlator.delivered, d.1 ≠ ⟨⟨3⟩, 2, 2⟩ := by decide +kernel
  have ticket : ([⟨⟨1⟩, 0, 0⟩, ⟨⟨2⟩, 1, 1⟩, ⟨⟨3⟩, 2, 2⟩] : List Ticket)[n]? = some t := by
    rw [← late, List.getElem?_map, sent]
    rfl
  have last : n = 2 := by
    have inside : n < 3 := (List.getElem?_eq_some_iff.mp ticket).1
    rw [early] at bound
    omega
  subst last
  cases ticket
  have taken : first ++ [event] = slowReadLater.take (first.length + 1) := by
    rw [split, List.take_length_add_append]
    rfl
  have inside : first.length + 1 < 7 := by
    have length := congrArg List.length split
    simp only [slowReadLater, List.length_append, List.length_cons, List.length_nil] at length
    omega
  rw [taken] at delivered
  exact undelivered _ inside _ delivered rfl

theorem fallback_recalls_slowRead :
    ∃ m', (run {} (slowReadBefore ++ .advance 1 :: slowReadLater ++ [.advance 2])).jobs[2]? =
        some (.over (.ok (.mode m'))) ∧
      ModeSource {} slowReadBefore (.advance 1) slowReadLater .global m' :=
  fallback_recalls slowRead_latest slowRead_fallsBack

/-- A read that was under way when the mode was set brings back the mode from before. -/
theorem fallback_older : ¬ FallbackNeverOlder := by
  intro neverOlder
  have known : (run {} (slowReadBefore ++ .advance 1 :: slowReadLater)).lastMode = some .rule := by
    decide +kernel
  have answers : (run {} (slowReadBefore ++ .advance 1 :: slowReadLater ++
      [.advance 2])).jobs[2]? = some (.over (.ok (.mode .rule))) := by
    rw [run_concat]
    exact slowRead_fallsBack.answers known
  have starts : (run {} (slowReadBefore ++ [.advance 1])).Starts slowReadLater 2 .currentMode :=
    ⟨slowReadLater.take 3, _, rfl, by decide +kernel⟩
  rcases neverOlder {} slowReadBefore (.advance 1) slowReadLater .global slowRead_latest
    slowReadBefore (.advance 1) slowReadLater .global 2 rfl slowRead_confirms starts
    slowRead_fallsBack .rule answers with same | ⟨config, _, fetched⟩
  · cases same
  · exact slowRead_unfetched config fetched

end Client

end ProxyConsole
